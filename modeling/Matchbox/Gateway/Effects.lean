import Mathlib.Logic.Relation
import Matchbox.Gateway.Parse
import Matchbox.Gateway.Server
import Matchbox.Stream.Delivery
import Matchbox.Stream.Interest

/-!
# What the functions of the gateway do

One statement for each function of `server.cpp` says what it does to the server, and what holds of the gateway is proved from these statements. `track`, `close_session` and `accept_all` have equations. Flushing is a chain of the changes that `Served` lists, `read_session` ends in one of two ways (`Reads`) and `on_event` in one of three (`Noted`). Everything else is a call into the publisher.
-/

namespace Matchbox

open Wire Resumable

/-! ### Writing and reading -/

namespace Session

/-- A session after some of its output was handed to the kernel. -/
def Flushed (s s' : Session) : Prop :=
  ∃ c dirty, s.toConn.Flushed c ∧ s' = { s with toConn := c, dirty := dirty }

theorem flushed_flush (s : Session) (writes : List WriteResult) :
    s.Flushed { s with toConn := (s.toConn.flush writes).1 } :=
  ⟨_, s.dirty, s.toConn.flush_flushed writes, rfl⟩

theorem flushed_flushAndArm (s : Session) (p : Poller) (writes : List WriteResult) (dirty : Bool) :
    s.Flushed { s with toConn := (s.toConn.flushAndArm p writes).1, dirty := dirty } :=
  ⟨_, dirty, s.toConn.flushAndArm_flushed p writes, rfl⟩

theorem Flushed.id {s s' : Session} (h : s.Flushed s') : s'.id = s.id := by
  obtain ⟨c, dirty, -, rfl⟩ := h
  rfl

theorem Flushed.fd {s s' : Session} (h : s.Flushed s') : s'.fd = s.fd := by
  obtain ⟨c, dirty, ⟨⟨_, _, _, _, rfl⟩, -, -⟩, rfl⟩ := h
  rfl

/-- A relation that a reject and a move in the input respect. It holds for all that reading does to a session. -/
structure Reading (R : Session → Session → Prop) : Prop where
  refl : ∀ s, R s s
  trans : ∀ {s s' s''}, R s s' → R s' s'' → R s s''
  reject : ∀ s m, R s (s.send .gateway m)
  moved : ∀ s seq rx, R s (s.moved seq rx)

namespace Reading

variable {R : Session → Session → Prop}

theorem react (h : Reading R) (s : Session) (replies : List Reply) : R s (s.react replies) := by
  induction replies generalizing s with
  | nil => exact h.refl s
  | cons reply replies ih =>
      cases reply with
      | submit c => exact ih s
      | reject tag reason => exact h.trans (h.reject s _) (ih _)

theorem parsed (h : Reading R) (s : Session) (replies : List Reply) (seq : Nat) (rx : List UInt8) :
    R s (s.parsed replies seq rx) :=
  h.trans (h.react s replies) (h.moved _ seq rx)

theorem receive (h : Reading R) (s : Session) (bytes : List UInt8) : R s (s.receive bytes) :=
  h.moved s s.expectSeq (s.rx ++ bytes)

end Reading

end Session

/-- The bytes that the read loop of `read_session` gets, and false if it meets the end of the file or an error. -/
def ReadResult.taken : List ReadResult → List UInt8 × Bool
  | [] => ([], true)
  | .bytes chunk :: reads =>
      let chunk := chunk.take (2 ^ 16)
      if chunk = [] then ([], false)
      else if chunk.length < 2 ^ 16 then (chunk, true)
      else (chunk ++ (taken reads).1, (taken reads).2)
  | .intr :: reads => taken reads
  | .again :: _ => ([], true)
  | .error :: _ => ([], false)

theorem Session.readLoop_eq (s : Session) (reads : List ReadResult) :
    s.readLoop reads = (s.receive (ReadResult.taken reads).1, (ReadResult.taken reads).2) := by
  induction reads generalizing s with
  | nil => simp [readLoop, receive, ReadResult.taken]
  | cons r reads ih =>
      cases r with
      | bytes chunk =>
          simp only [readLoop, ReadResult.taken]
          split
          · simp [receive]
          · split
            · rfl
            · rw [ih]
              simp [receive, List.append_assoc]
      | intr => exact ih s
      | again => simp [readLoop, receive, ReadResult.taken]
      | error => simp [readLoop, receive, ReadResult.taken]

namespace Server

/-! ### Equations -/

/-- The two tables after `track`. -/
def tracked (kinds : List Kind) (sids : List Nat) (fd : Nat) (kind : Kind) (sid : Nat) : List Kind × List Nat :=
  if kinds.length ≤ fd then ((grow kinds (fd + 64) .none).set fd kind, (grow sids (fd + 64) 0).set fd sid)
  else (kinds.set fd kind, sids.set fd sid)

theorem track_eq (sv : Server) (fd : Nat) (kind : Kind) (sid : Nat) :
    sv.track fd kind sid = { sv with
      kindByFd := (tracked sv.kindByFd sv.sidByFd fd kind sid).1
      sidByFd := (tracked sv.kindByFd sv.sidByFd fd kind sid).2 } := by
  rw [track, tracked]
  split <;> rfl

theorem closeSession_eq (sv : Server) (s : Session) :
    sv.closeSession s = { sv with
      poller := sv.poller.remove s.fd
      sessions := Function.update sv.sessions s.id none
      kindByFd := (tracked sv.kindByFd sv.sidByFd s.fd .none 0).1
      sidByFd := (tracked sv.kindByFd sv.sidByFd s.fd .none 0).2
      closed := sv.closed ++ [(sv.drained, s)] } := by
  rw [closeSession, track_eq]

theorem acceptOne_eq (sv : Server) (fd : Nat) :
    sv.acceptOne fd .session = { sv with
      poller := sv.poller.add fd
      sessions :=
        if (sv.sessions sv.nextSid).isSome then sv.sessions
        else Function.update sv.sessions sv.nextSid (some (.accepted fd sv.nextSid))
      kindByFd := (tracked sv.kindByFd sv.sidByFd fd .session sv.nextSid).1
      sidByFd := (tracked sv.kindByFd sv.sidByFd fd .session sv.nextSid).2
      nextSid := (sv.nextSid + 1) % word32
      opened := sv.opened + 1 } := by
  rw [acceptOne, if_pos rfl]
  dsimp only [Session.accepted]
  rw [track_eq]
  split <;> rfl

theorem acceptOne_sessions (sv : Server) (fd : Nat) (hfree : sv.sessions sv.nextSid = none) :
    (sv.acceptOne fd .session).sessions =
      Function.update sv.sessions sv.nextSid (some (.accepted fd sv.nextSid)) := by
  rw [acceptOne_eq, hfree]
  rfl

theorem init_eq (cfg : Config) (listenFd mdListenFd : Nat) :
    Server.init cfg listenFd mdListenFd =
      let listen := tracked [] [] listenFd .listen 0
      { cfg := cfg
        poller := (Poller.init.add listenFd).add mdListenFd
        publisher := Publisher.init cfg.md
        kindByFd := (tracked listen.1 listen.2 mdListenFd .mdListen 0).1
        sidByFd := (tracked listen.1 listen.2 mdListenFd .mdListen 0).2 } := by
  rw [Server.init, track_eq, track_eq]

/-- A call into the publisher. -/
def call (sv : Server) (a : Publisher.Action) : Server :=
  { sv with
    publisher := (Publisher.step (sv.publisher, sv.poller) a).1
    poller := (Publisher.step (sv.publisher, sv.poller) a).2 }

theorem subscribe_eq (sv : Server) (fd : Nat) {kind : Kind} (hkind : kind ≠ .session) :
    sv.acceptOne fd kind = call { sv with
      kindByFd := (tracked sv.kindByFd sv.sidByFd fd .subscriber 0).1
      sidByFd := (tracked sv.kindByFd sv.sidByFd fd .subscriber 0).2 } (.subscribe fd) := by
  rw [acceptOne, if_neg hkind, track_eq]
  rfl

theorem acceptOne_cases (sv : Server) (fd : Nat) (kind : Kind) :
    (sv.acceptOne fd kind).sessions = sv.sessions ∨
      sv.sessions sv.nextSid = none ∧ (sv.acceptOne fd kind).sessions =
        Function.update sv.sessions sv.nextSid (some (.accepted fd sv.nextSid)) := by
  by_cases hkind : kind = .session
  · subst hkind
    cases hfree : sv.sessions sv.nextSid with
    | none => exact .inr ⟨rfl, sv.acceptOne_sessions fd hfree⟩
    | some s =>
        left
        rw [acceptOne_eq, hfree]
        rfl
  · left
    rw [sv.subscribe_eq fd hkind]
    rfl

/-- The calls for an event of a subscriber's socket. -/
def subscriberCalls (sv : Server) (ev : PollEvent) (reads : List ReadResult) (writes : List WriteResult) :
    List Publisher.Action :=
  if sv.publisher.isSubscriber ev.fd then
    (if ev.writable then [.onWritable ev.fd writes] else []) ++
      if ev.readable ∨ ev.hangup then [.onReadable ev.fd reads] else []
  else []

theorem onSubscriber_eq (sv : Server) (ev : PollEvent) (reads : List ReadResult) (writes : List WriteResult) :
    sv.onSubscriber ev reads writes = (sv.subscriberCalls ev reads writes).foldl call sv := by
  rw [onSubscriber, subscriberCalls]
  split
  · dsimp only
    by_cases hwrite : ev.writable = true <;> by_cases hread : ev.readable ∨ ev.hangup
    · rw [if_pos hwrite, if_pos hread, if_pos hwrite, if_pos hread]
      rfl
    · rw [if_pos hwrite, if_neg hread, if_pos hwrite, if_neg hread]
      rfl
    · rw [if_neg hwrite, if_pos hread, if_neg hwrite, if_pos hread]
      rfl
    · rw [if_neg hwrite, if_neg hread, if_neg hwrite, if_neg hread]
      rfl
  · rfl

/-- The event of a subscriber's socket publishes nothing and subscribes nobody. -/
theorem onSubscriber_chain {R : Server → Server → Prop}
    (hcall : ∀ sv a, (∀ m, a ≠ .publish m) → (∀ fd, a ≠ .subscribe fd) → R sv (sv.call a)) (sv : Server) (ev : PollEvent)
    (reads : List ReadResult) (writes : List WriteResult) :
    Relation.ReflTransGen R sv (sv.onSubscriber ev reads writes) := by
  have hif : ∀ (c : Prop) [Decidable c] (a : Publisher.Action) (sv : Server), R sv (sv.call a) →
      Relation.ReflTransGen R sv ((if c then [a] else []).foldl call sv) := by
    intro c _ a sv hstep
    split
    · exact .single hstep
    · exact .refl
  rw [onSubscriber_eq, subscriberCalls]
  split
  · rw [List.foldl_append]
    refine (hif _ _ sv ?_).trans (hif _ _ _ ?_) <;>
      exact hcall _ _ (fun _ => Publisher.Action.noConfusion) fun _ => Publisher.Action.noConfusion
  · exact .refl

theorem flushMarketData_eq (sv : Server) (now : Nat) (writes : Nat → List WriteResult) :
    sv.flushMarketData now writes = sv.call (.flushAll now writes) := rfl

/-! ### Flushing -/

/-- One change that flushing the sessions makes. -/
inductive Served (sv : Server) : Server → Prop
  /-- The socket of a session takes bytes again. -/
  | flushed {sid : Nat} {s : Session} (hs : sv.sessions sid = some s) (writes : List WriteResult)
      (hok : (s.toConn.flushAndArm sv.poller writes).2.2 = true) :
      Served sv { sv.update { s with toConn := (s.toConn.flushAndArm sv.poller writes).1 } with
        poller := (s.toConn.flushAndArm sv.poller writes).2.1 }
  /-- The next session of the list is flushed, and within its limit afterwards. -/
  | relieved {sid : Nat} {s : Session} {rest : List Nat} (hlisted : sv.dirty = sid :: rest)
      (hs : sv.sessions sid = some s) (writes : List WriteResult)
      (hok : (s.toConn.flushAndArm sv.poller writes).2.2 = true)
      (hlimit : (s.toConn.flushAndArm sv.poller writes).1.backlog ≤ sv.cfg.maxBacklog) :
      Served sv { sv.update { s with toConn := (s.toConn.flushAndArm sv.poller writes).1, dirty := false } with
        poller := (s.toConn.flushAndArm sv.poller writes).2.1
        dirty := rest }
  /-- A session is closed, which may be the next of the list. -/
  | closed {sid : Nat} {s s' : Session} {poller : Poller} {rest : List Nat} (hs : sv.sessions sid = some s)
      (hflushed : s.Flushed s') (hpoller : ∀ fd, fd ≠ s.fd → poller fd = sv.poller fd)
      (hlisted : sv.dirty = rest ∨ sv.dirty = sid :: rest) :
      Served sv { closeSession { sv with poller := poller } s' with dirty := rest }
  /-- The next session of the list has been closed before. -/
  | skipped {sid : Nat} {rest : List Nat} (hlisted : sv.dirty = sid :: rest) (hs : sv.sessions sid = none) :
      Served sv { sv with dirty := rest }

abbrev Serves : Server → Server → Prop := Relation.ReflTransGen Served

theorem exists_of_sessionByFd {sv : Server} {fd : Nat} {s : Session} (h : sv.sessionByFd fd = some s) :
    ∃ sid, sv.sessions sid = some s := by
  rw [sessionByFd] at h
  split at h
  · exact ⟨_, h⟩
  · cases h

section Functions

variable (sv : Server) {sid : Nat} {s s' : Session}

theorem closeSession_served (hs : sv.sessions sid = some s) (hflushed : s.Flushed s') {poller : Poller}
    (hpoller : ∀ fd, fd ≠ s.fd → poller fd = sv.poller fd) :
    sv.Served (closeSession { sv with poller := poller } s') := by
  have hserved := Served.closed hs hflushed hpoller (.inl rfl)
  rw [closeSession_eq] at hserved ⊢
  exact hserved

theorem flushSession_served (hs : sv.sessions sid = some s) (writes : List WriteResult) :
    sv.Served (sv.flushSession s writes) := by
  rw [flushSession]
  dsimp only
  split
  · rename_i hok
    exact .flushed hs writes hok
  · exact sv.closeSession_served hs (s.flushed_flushAndArm sv.poller writes s.dirty) fun fd hne =>
      s.toConn.flushAndArm_other sv.poller writes hne

theorem onSessionWritable_serves (ev : PollEvent) (writes : List WriteResult) :
    sv.Serves (sv.onSessionWritable ev writes) := by
  rw [onSessionWritable]
  split
  · cases hs : sv.sessionByFd ev.fd with
    | none => exact .refl
    | some s =>
        obtain ⟨sid, hs⟩ := exists_of_sessionByFd hs
        exact .single (sv.flushSession_served hs writes)
  · exact .refl

theorem hangUp_serves (sid : Nat) (writes : List WriteResult) : sv.Serves (sv.hangUp sid writes) := by
  rw [hangUp]
  cases hs : sv.sessions sid with
  | none => exact .refl
  | some s => exact .single (sv.closeSession_served hs (s.flushed_flush writes) fun _ _ => rfl)

/-- One iteration of `flush_dirty` takes its session off the list. -/
theorem flushOne_served (rest : List Nat) (writes : Nat → List WriteResult) (sid : Nat) :
    Served { sv with dirty := sid :: rest } { sv.flushOne writes sid with dirty := rest } := by
  rw [flushOne]
  cases hs : sv.sessions sid with
  | none => exact .skipped rfl hs
  | some s =>
      have hlisted : ({ sv with dirty := sid :: rest } : Server).sessions sid = some s := hs
      dsimp only
      split
      · have hserved := Served.closed hlisted (s.flushed_flushAndArm sv.poller (writes s.fd) false)
          (fun fd hne => s.toConn.flushAndArm_other sv.poller (writes s.fd) hne) (.inr rfl)
        rw [closeSession_eq] at hserved ⊢
        exact hserved
      · rename_i hkeep
        rw [not_or, Bool.not_eq_false, Nat.not_lt] at hkeep
        exact .relieved rfl hlisted (writes s.fd) hkeep.1 hkeep.2

theorem flushDirty_serves (writes : Nat → List WriteResult) : sv.Serves (sv.flushDirty writes) := by
  -- the walk uses up its list, so that the induction is over what is still listed
  have hwalk : ∀ (sids : List Nat) (sv : Server), Serves { sv with dirty := sids }
      { sids.foldl (fun sv sid => sv.flushOne writes sid) sv with dirty := [] } := by
    intro sids
    induction sids with
    | nil => exact fun sv => .refl
    | cons sid rest ih => exact fun sv => .head (sv.flushOne_served rest writes sid) (ih _)
  exact hwalk sv.dirty sv

end Functions

/-! ### Reading and draining -/

/-- `read_session`: the session is closed with what it has just received, or goes on from the parse. -/
inductive Reads (sv : Server) (s : Session) (reads : List ReadResult) : Server × List Command × Bool → Prop
  | failed (htaken : (ReadResult.taken reads).2 = false) :
      Reads sv s reads (sv.closeSession (s.receive (ReadResult.taken reads).1), [], true)
  | parsed {outs : List Reply} {seq : Nat} {rest rx : List UInt8} {alive : Bool}
      (htaken : (ReadResult.taken reads).2 = true)
      (hparse : Parse (nextFrame s.id) s.expectSeq (s.rx ++ (ReadResult.taken reads).1) outs seq rest alive)
      (hrx : alive = true → rx = rest) :
      Reads sv s reads (sv.resend s (s.parsed outs seq rx), outs.filterMap Reply.command?, alive)

theorem readSession_reads (sv : Server) (s : Session) (reads : List ReadResult) :
    Reads sv s reads (sv.readSession s reads) := by
  rw [readSession, s.readLoop_eq reads]
  dsimp only
  cases htaken : (ReadResult.taken reads).2 with
  | false =>
      rw [if_pos rfl]
      exact .failed htaken
  | true =>
      obtain ⟨outs, seq, rest, alive, hparse⟩ :=
        (nextFrame_stable s.id).exists_parse s.expectSeq (s.rx ++ (ReadResult.taken reads).1)
      have hframes := Session.parseFrames_eq (s := s.receive (ReadResult.taken reads).1) hparse
      rw [Session.parsed_receive] at hframes
      rw [if_neg (by decide), hframes, Option.getD_some]
      exact .parsed htaken hparse fun halive => if_pos halive

theorem resend_parsed (sv : Server) (s : Session) (replies : List Reply) (seq : Nat) (rx : List UInt8) :
    (sv.resend s (s.parsed replies seq rx)).sessions =
      Function.update sv.sessions s.id (some (s.parsed replies seq rx)) := by
  rw [← s.parsed_id replies seq rx]
  rfl

/-- `on_event`: the event is published, sent on its session, or is nobody's. -/
inductive Noted (sv : Server) (e : Event) : Server → Prop
  | published {m : Message} (hm : e.marketData? = some m) :
      Noted sv e (call { sv with drained := sv.drained ++ [e] } (.publish m))
  | sent {s : Session} {m : Message} (hmarket : e.marketData? = none) (hs : sv.sessions e.session = some s)
      (hm : e.private? = some m) : Noted sv e (resend { sv with drained := sv.drained ++ [e] } s (s.send .engine m))
  | dropped (hmarket : e.marketData? = none) (hnone : sv.sessions e.session = none ∨ e.private? = none) :
      Noted sv e { sv with drained := sv.drained ++ [e] }

theorem onEvent_noted (sv : Server) (e : Event) : sv.Noted e (sv.onEvent e) := by
  rw [onEvent]
  cases hmarket : e.marketData? with
  | some m => exact .published hmarket
  | none =>
      cases hs : sv.sessions e.session with
      | none => exact .dropped hmarket (.inl hs)
      | some s =>
          cases hm : e.private? with
          | none => exact .dropped hmarket (.inr hm)
          | some m => exact .sent hmarket hs hm

/-! ### One session at a time -/

/-- One change of at most one session; `R` relates it to what it becomes or is closed as. -/
inductive Touched (R : Session → Session → Prop) (sv : Server) : Server → Prop
  | kept {sv' : Server} {sid : Nat} {s s' : Session} (hs : sv.sessions sid = some s) (hrel : R s s')
      (hsessions : sv'.sessions = Function.update sv.sessions s.id (some s')) (hclosed : sv'.closed = sv.closed) :
      Touched R sv sv'
  | closed {sv' : Server} {sid : Nat} {s s' : Session} (hs : sv.sessions sid = some s) (hrel : R s s')
      (hsessions : sv'.sessions = Function.update sv.sessions s.id none)
      (hclosed : sv'.closed = sv.closed ++ [(sv.drained, s')]) : Touched R sv sv'
  | other {sv' : Server} (hsessions : sv'.sessions = sv.sessions) (hclosed : sv'.closed = sv.closed) : Touched R sv sv'

section Touched

variable {R : Session → Session → Prop} {sv sv' : Server} {sid : Nat} {s : Session}

theorem Served.touched (h : sv.Served sv') (hflushed : ∀ {s s'}, s.Flushed s' → R s s') : sv.Touched R sv' := by
  cases h with
  | flushed hs writes hok => exact .kept hs (hflushed (Session.flushed_flushAndArm _ _ writes _)) rfl rfl
  | relieved hlisted hs writes hok hlimit =>
      exact .kept hs (hflushed (Session.flushed_flushAndArm _ _ writes false)) rfl rfl
  | closed hs hs' hpoller hlisted =>
      rw [closeSession_eq]
      exact .closed hs (hflushed hs') (by rw [hs'.id]) rfl
  | skipped hlisted hs => exact .other rfl rfl

theorem Reads.touched {r : Server × List Command × Bool} {reads : List ReadResult} (h : Reads sv s reads r)
    (hs : sv.sessions sid = some s) (hreading : Session.Reading R) : sv.Touched R r.1 := by
  cases h with
  | failed htaken =>
      rw [closeSession_eq]
      exact .closed hs (hreading.receive s _) rfl rfl
  | @parsed outs seq rest rx alive htaken hparse hrx =>
      exact .kept hs (hreading.parsed s outs seq rx) (sv.resend_parsed s outs seq rx) rfl

theorem Noted.touched {e : Event} (h : sv.Noted e sv') (hsend : ∀ s m, R s (s.send .engine m)) : sv.Touched R sv' := by
  cases h with
  | published hm => exact .other rfl rfl
  | sent hmarket hs hm => exact .kept hs (hsend _ _) rfl rfl
  | dropped hmarket hnone => exact .other rfl rfl

end Touched

end Server

end Matchbox
