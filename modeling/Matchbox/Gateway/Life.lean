import Matchbox.Gateway.Frames

/-!
# What becomes of the bytes a client sent

`Server.Life` follows one session from its accept to its close, while the gateway also serves other sessions, drains engine events and flushes: which commands were submitted for the session, and which bytes `::read` returned on its socket. What else the gateway does reads nothing from the session (`Unread`) and may close it (`Beside`).

`read_session` parses only when its loop ends because nothing more is there. When the loop ends with the end of the file or an error, what the same call has read before goes with the session. `Life.run_submits_iff` says exactly which streams lose an order that way.
-/

namespace Matchbox

open Wire Resumable

/-- The messages queued because the gateway refused a frame. -/
def Session.refused (s : Session) : List Message := (s.queued.filter fun x => x.1 = .gateway).map Prod.snd

theorem Session.refused_send_engine (s : Session) (m : Message) : (s.send .engine m).refused = s.refused := by
  change ((s.queued ++ [(Origin.engine, m)]).filter fun x => x.1 = .gateway).map Prod.snd = _
  rw [List.filter_append, List.map_append]
  exact List.append_nil _

/-! ### The gateway around one session -/

namespace Server

/-- One thing that the gateway does with its sessions, with what the kernel answers. -/
inductive Turn where
  /-- One connection of `accept_all`. -/
  | accept (fd : Nat) (kind : Kind)
  /-- `read_session`, its calls of `submit` included. -/
  | read (sid : Nat) (reads : List ReadResult) (writes : List WriteResult)
  /-- The socket takes bytes again. -/
  | writable (sid : Nat) (writes : List WriteResult)
  /-- `on_event`. -/
  | event (e : Event)
  /-- `flush_dirty`. -/
  | flush (writes : Nat → List WriteResult)

/-- The gateway after a turn, and the commands it submitted in it. -/
def turn (sv : Server) : Turn → Server × List Command
  | .accept fd kind => (sv.acceptOne fd kind, [])
  | .read sid reads writes =>
      match sv.sessions sid with
      | none => (sv, [])
      | some s =>
          let r := sv.readSession s reads
          (if r.2.2 then r.1 else r.1.hangUp sid writes, r.2.1)
  | .writable sid writes =>
      match sv.sessions sid with
      | none => (sv, [])
      | some s => (sv.flushSession s writes, [])
  | .event e => (sv.onEvent e, [])
  | .flush writes => (sv.flushDirty writes, [])

/-- Any sequence of turns. -/
def serve (sv : Server) (turns : List Turn) : Server := turns.foldl (fun sv t => (sv.turn t).1) sv

/-- What a turn reads from the socket of a session. -/
def Turn.taken (sid : Nat) : Turn → List UInt8 × Bool
  | .read sid' reads _ => if sid' = sid then ReadResult.taken reads else ([], true)
  | _ => ([], true)

/-- A session while it is open, and what is left of it afterwards. -/
structure Life where
  sid : Nat
  server : Server
  /-- The commands submitted for the session. -/
  submitted : List Command := []
  /-- The bytes read from its socket. -/
  received : List UInt8 := []
  /-- How many of them were read by the calls of `read_session` that met no end of file and no error. -/
  settled : Nat := 0

namespace Life

/-- The life of the session that the next accept opens. -/
def accepted (sv : Server) (fd : Nat) : Life where
  sid := sv.nextSid
  server := sv.acceptOne fd .session

def step (l : Life) (t : Turn) : Life :=
  match l.server.sessions l.sid with
  | none => l
  | some _ =>
      let r := l.server.turn t
      let received := l.received ++ (t.taken l.sid).1
      { l with
        server := r.1
        submitted := l.submitted ++ r.2.filter fun c => c.session = l.sid
        received := received
        settled := if (t.taken l.sid).2 then received.length else l.settled }

def run (l : Life) (turns : List Turn) : Life := turns.foldl step l

@[simp] theorem run_concat (l : Life) (turns : List Turn) (t : Turn) : l.run (turns ++ [t]) = (l.run turns).step t := by
  simp [run]

end Life

/-! ### Everything but the own reads -/

/-- A session on which nothing was read. -/
structure Unread (s s' : Session) : Prop where
  id : s'.id = s.id
  expectSeq : s'.expectSeq = s.expectSeq
  rx : s'.rx = s.rx
  refused : s'.refused = s.refused
  sent : s.sent <+: s'.sent

/-- Every session is found under its own identifier. -/
def Keyed (sv : Server) : Prop := ∀ sid s, sv.sessions sid = some s → s.id = sid

/-- A chain of changes that read nothing. -/
abbrev Asides : Server → Server → Prop := Relation.ReflTransGen (Touched Unread)

/-- What becomes of one session meanwhile: if it was open, it still is or has been closed. -/
structure Beside (sid : Nat) (sv sv' : Server) : Prop where
  stays : ∀ s, sv.sessions sid = some s → ∃ s', Unread s s' ∧
    (sv'.sessions sid = some s' ∨ sv'.sessions sid = none ∧ ∃ front, (front, s') ∈ sv'.closed)
  shut : sv.sessions sid = none → sv'.sessions sid = none
  closed : ∀ x ∈ sv.closed, x ∈ sv'.closed

namespace Unread

variable {s s' s'' : Session}

theorem refl (s : Session) : Unread s s := ⟨rfl, rfl, rfl, rfl, List.prefix_rfl⟩

theorem trans (h : Unread s s') (h' : Unread s' s'') : Unread s s'' :=
  ⟨h'.id.trans h.id, h'.expectSeq.trans h.expectSeq, h'.rx.trans h.rx, h'.refused.trans h.refused, h.sent.trans h'.sent⟩

theorem flushed (h : s.Flushed s') : Unread s s' := by
  obtain ⟨c, dirty, ⟨⟨tx, off, sent, want, rfl⟩, hsent, -⟩, rfl⟩ := h
  exact ⟨rfl, rfl, rfl, rfl, hsent⟩

theorem send (s : Session) (m : Message) : Unread s (s.send .engine m) :=
  ⟨rfl, rfl, rfl, s.refused_send_engine m, List.prefix_rfl⟩

end Unread

section Rest

variable {sv sv' sv'' : Server} {sid : Nat} {s s' : Session}

theorem Beside.refl (sid : Nat) (sv : Server) : Beside sid sv sv :=
  ⟨fun s hs => ⟨s, .refl s, .inl hs⟩, fun h => h, fun _ h => h⟩

theorem Beside.trans (h : Beside sid sv sv') (h' : Beside sid sv' sv'') : Beside sid sv sv'' where
  stays := fun s hs => by
    obtain ⟨s', hunread, hopen | ⟨hnone, front, hmem⟩⟩ := h.stays s hs
    · obtain ⟨s'', hunread', hafter⟩ := h'.stays s' hopen
      exact ⟨s'', hunread.trans hunread', hafter⟩
    · exact ⟨s', hunread, .inr ⟨h'.shut hnone, front, h'.closed _ hmem⟩⟩
  shut := fun hnone => h'.shut (h.shut hnone)
  closed := fun x hx => h'.closed x (h.closed x hx)

theorem Beside.exists_unread (h : Beside sid sv sv') (hs' : sv'.sessions sid = some s') :
    ∃ s, sv.sessions sid = some s ∧ Unread s s' := by
  cases hs : sv.sessions sid with
  | none =>
      rw [h.shut hs] at hs'
      cases hs'
  | some s =>
      obtain ⟨s'', hunread, hafter | ⟨hnone, -⟩⟩ := h.stays s hs
      · rw [hafter, Option.some.injEq] at hs'
        exact ⟨s, rfl, hs' ▸ hunread⟩
      · rw [hnone] at hs'
        cases hs'

theorem Beside.unread (h : Beside sid sv sv') (hs : sv.sessions sid = some s) (s' : Session)
    (hs' : sv'.sessions sid = some s') : Unread s s' := by
  obtain ⟨t, ht, hunread⟩ := h.exists_unread hs'
  rw [hs, Option.some.injEq] at ht
  exact ht ▸ hunread

theorem Beside.of_eq (hsame : sv'.sessions sid = sv.sessions sid) (hclosed : ∀ y ∈ sv.closed, y ∈ sv'.closed) :
    Beside sid sv sv' :=
  ⟨fun s hs => ⟨s, .refl s, .inl (hsame.trans hs)⟩, fun hnone => hsame.trans hnone, hclosed⟩

theorem Beside.of_ne {other : Nat} {x : Option Session} (hne : sid ≠ other)
    (hsessions : sv'.sessions = Function.update sv.sessions other x) (hclosed : ∀ y ∈ sv.closed, y ∈ sv'.closed) :
    Beside sid sv sv' :=
  .of_eq (by rw [hsessions, Function.update_of_ne hne]) hclosed

theorem Keyed.of_update {x : Option Session} (hkeyed : sv.Keyed) (hx : ∀ s, x = some s → s.id = sid)
    (hsessions : sv'.sessions = Function.update sv.sessions sid x) : sv'.Keyed := by
  intro sid' s hs
  rw [hsessions] at hs
  by_cases heq : sid' = sid
  · subst heq
    rw [Function.update_self] at hs
    exact hx s hs
  · rw [Function.update_of_ne heq] at hs
    exact hkeyed sid' s hs

theorem Touched.keyed {R : Session → Session → Prop} (h : sv.Touched R sv') (hid : ∀ {s s'}, R s s' → s'.id = s.id)
    (hkeyed : sv.Keyed) : sv'.Keyed := by
  cases h with
  | kept hs hrel hsessions hclosed =>
      apply hkeyed.of_update _ hsessions
      intro s' hs'
      cases hs'
      exact hid hrel
  | closed hs hrel hsessions hclosed =>
      apply hkeyed.of_update _ hsessions
      intro s' hs'
      cases hs'
  | other hsessions hclosed =>
      intro sid s hs
      rw [hsessions] at hs
      exact hkeyed sid s hs

theorem Touched.beside (h : sv.Touched Unread sv') (hkeyed : sv.Keyed) (sid : Nat) : Beside sid sv sv' := by
  cases h with
  | @kept sid₁ s₁ s₂ hs₁ hunread hsessions hclosed =>
      by_cases heq : sid = s₁.id
      · have hsid := hkeyed sid₁ s₁ hs₁
        rw [← hsid, ← heq] at hs₁
        rw [← heq] at hsessions
        refine ⟨fun s hs => ⟨s₂, ?_, .inl (by rw [hsessions, Function.update_self])⟩, fun hnone => ?_, fun x hx => ?_⟩
        · rw [hs₁, Option.some.injEq] at hs
          rwa [← hs]
        · rw [hs₁] at hnone
          cases hnone
        · rwa [hclosed]
      · exact .of_ne heq hsessions (by rw [hclosed]; exact fun _ h => h)
  | @closed sid₁ s₁ s₂ hs₁ hunread hsessions hclosed =>
      have hmem : ∀ x ∈ sv.closed, x ∈ sv'.closed := by
        rw [hclosed]
        exact fun x hx => List.mem_append_left _ hx
      by_cases heq : sid = s₁.id
      · have hsid := hkeyed sid₁ s₁ hs₁
        rw [← hsid, ← heq] at hs₁
        have hnone : sv'.sessions sid = none := by rw [hsessions, ← heq, Function.update_self]
        refine ⟨fun s hs => ⟨s₂, ?_, .inr ⟨hnone, sv.drained, ?_⟩⟩, fun _ => hnone, hmem⟩
        · rw [hs₁, Option.some.injEq] at hs
          rwa [← hs]
        · rw [hclosed]
          exact List.mem_append_right _ (List.mem_singleton_self _)
      · exact .of_ne heq hsessions hmem
  | other hsessions hclosed => exact .of_eq (congrFun hsessions sid) (by rw [hclosed]; exact fun _ h => h)

theorem Asides.spec (h : sv.Asides sv') (hkeyed : sv.Keyed) : sv'.Keyed ∧ ∀ sid, Beside sid sv sv' := by
  induction h with
  | refl => exact ⟨hkeyed, fun sid => .refl sid sv⟩
  | tail _ hstep ih =>
      obtain ⟨hkeyed', hbeside⟩ := ih
      exact ⟨hstep.keyed Unread.id hkeyed', fun sid => (hbeside sid).trans (hstep.beside hkeyed' sid)⟩

theorem Serves.asides (h : sv.Serves sv') : sv.Asides sv' :=
  Relation.ReflTransGen.mono (fun _ _ hserved => hserved.touched .flushed) sv sv' h

theorem onEvent_aside (sv : Server) (e : Event) : sv.Touched Unread (sv.onEvent e) :=
  (sv.onEvent_noted e).touched .send

theorem acceptOne_beside (sv : Server) (fd : Nat) (kind : Kind)
    (hsid : kind = .session → sv.sessions sv.nextSid = none → sid ≠ sv.nextSid) : Beside sid sv (sv.acceptOne fd kind) := by
  by_cases hkind : kind = .session
  · subst hkind
    rw [acceptOne_eq]
    refine .of_eq ?_ fun _ h => h
    dsimp only
    split
    · rfl
    · rename_i hfree
      exact Function.update_of_ne (hsid rfl (Option.not_isSome_iff_eq_none.1 hfree)) _ _
  · rw [sv.subscribe_eq fd hkind]
    exact .of_eq rfl fun _ h => h

/-- `read_session` as a whole: the commands are those of the parse, and the session is open afterwards if the loop and the parse both say so. -/
theorem turn_read (hs : sv.sessions sid = some s) (hid : s.id = sid) (reads : List ReadResult) (writes : List WriteResult) :
    ∃ outs seq rest alive,
      Parse (nextFrame sid) s.expectSeq (s.rx ++ (ReadResult.taken reads).1) outs seq rest alive ∧
      (sv.turn (.read sid reads writes)).2 =
        (if (ReadResult.taken reads).2 then outs.filterMap Reply.command? else []) ∧
      ∃ x : Option Session, (sv.turn (.read sid reads writes)).1.sessions = Function.update sv.sessions sid x ∧
        ∀ s', x = some s' → (ReadResult.taken reads).2 = true ∧ alive = true ∧ s'.id = sid ∧ s'.expectSeq = seq ∧
          s'.rx = rest := by
  subst hid
  have hreads := sv.readSession_reads s reads
  rw [turn, hs]
  dsimp only
  generalize sv.readSession s reads = r at hreads
  cases hreads with
  | failed htaken =>
      obtain ⟨outs, seq, rest, alive, hparse⟩ :=
        (nextFrame_stable s.id).exists_parse s.expectSeq (s.rx ++ (ReadResult.taken reads).1)
      refine ⟨outs, seq, rest, alive, hparse, ?_, none, ?_, fun s' hs' => by cases hs'⟩
      · rw [htaken]
        rfl
      · rw [if_pos rfl, closeSession_eq]
        rfl
  | @parsed outs seq rest rx alive htaken hparse hrx =>
      refine ⟨outs, seq, rest, alive, hparse, by rw [htaken]; rfl, ?_⟩
      have hupdate := sv.resend_parsed s outs seq rx
      cases alive with
      | true =>
          obtain rfl := hrx rfl
          refine ⟨some (s.parsed outs seq rx), ?_, fun s' hs' => ?_⟩
          · rw [if_pos rfl, hupdate]
          · cases hs'
            exact ⟨htaken, rfl, s.parsed_id outs seq rx, rfl, rfl⟩
      | false =>
          have hsession := (congrFun hupdate s.id).trans (Function.update_self _ _ _)
          refine ⟨none, ?_, fun s' hs' => by cases hs'⟩
          rw [if_neg Bool.false_ne_true, hangUp, hsession]
          dsimp only
          rw [closeSession_eq]
          dsimp only
          rw [hupdate, s.parsed_id, Function.update_idem]

theorem Keyed.turn (hkeyed : sv.Keyed) (t : Turn) : (sv.turn t).1.Keyed := by
  cases t with
  | accept fd kind =>
      rcases sv.acceptOne_cases fd kind with hsame | ⟨-, hsessions⟩
      · intro sid s hs
        exact hkeyed sid s ((congrFun hsame sid).symm.trans hs)
      · apply hkeyed.of_update _ hsessions
        intro s hs
        cases hs
        rfl
  | read sid reads writes =>
      cases hs : sv.sessions sid with
      | none =>
          rw [Server.turn, hs]
          exact hkeyed
      | some s =>
          obtain ⟨outs, seq, rest, alive, -, -, x, hsessions, hx⟩ := turn_read hs (hkeyed sid s hs) reads writes
          exact hkeyed.of_update (fun s' hs' => (hx s' hs').2.2.1) hsessions
  | writable sid writes =>
      rw [Server.turn]
      split
      · exact hkeyed
      · exact ((sv.flushSession_served ‹_› writes).touched Unread.flushed).keyed Unread.id hkeyed
  | event e => exact (sv.onEvent_aside e).keyed Unread.id hkeyed
  | flush writes => exact ((sv.flushDirty_serves writes).asides.spec hkeyed).1

theorem Keyed.serve (hkeyed : sv.Keyed) (turns : List Turn) : (sv.serve turns).Keyed := by
  induction turns generalizing sv with
  | nil => exact hkeyed
  | cons t turns ih => exact ih (hkeyed.turn t)

theorem keyed_init (cfg : Config) (listenFd mdListenFd : Nat) : (Server.init cfg listenFd mdListenFd).Keyed := by
  intro sid s hs
  rw [init_eq] at hs
  cases hs

end Rest

namespace Life

/-- All but the bytes that a last, failing call has read are parsed. -/
structure Inv (l : Life) : Prop where
  keyed : l.server.Keyed
  settled_le : l.settled ≤ l.received.length
  parsed : ∃ outs seq rest alive, Parse (nextFrame l.sid) 1 (l.received.take l.settled) outs seq rest alive ∧
    l.submitted = outs.filterMap Reply.command? ∧ (alive = false → l.settled = l.received.length) ∧
    ∀ s, l.server.sessions l.sid = some s →
      alive = true ∧ l.settled = l.received.length ∧ s.expectSeq = seq ∧ s.rx = rest

variable {l : Life}

/-- A turn in which nothing is read from the session's socket and nothing is submitted for it. -/
theorem Inv.rest (h : l.Inv) {s : Session} (hs : l.server.sessions l.sid = some s) {t : Turn}
    (htaken : t.taken l.sid = ([], true))
    (hnone : (l.server.turn t).2.filter (fun c => c.session = l.sid) = [])
    (hafter : ∀ s', (l.server.turn t).1.sessions l.sid = some s' → Unread s s') : (l.step t).Inv := by
  obtain ⟨outs, seq, rest, alive, hparse, hsubmitted, -, hopen⟩ := h.parsed
  obtain ⟨halive, hall, hseq, hrx⟩ := hopen s hs
  have hstep : l.step t = { l with server := (l.server.turn t).1 } := by
    rw [step, hs]
    dsimp only
    rw [htaken, hnone, List.append_nil, List.append_nil, if_pos rfl, hall]
  rw [hstep]
  refine ⟨h.keyed.turn t, h.settled_le, outs, seq, rest, alive, hparse, hsubmitted, fun _ => hall, fun s' hs' => ?_⟩
  have hunread := hafter s' hs'
  exact ⟨halive, hall, hunread.expectSeq.trans hseq, hunread.rx.trans hrx⟩

theorem Inv.asides (h : l.Inv) {s : Session} (hs : l.server.sessions l.sid = some s) {t : Turn}
    (htaken : t.taken l.sid = ([], true)) (hnone : (l.server.turn t).2 = [])
    (hasides : l.server.Asides (l.server.turn t).1) : (l.step t).Inv := by
  apply h.rest hs htaken
  · rw [hnone, List.filter_nil]
  · exact ((hasides.spec h.keyed).2 l.sid).unread hs

theorem Inv.accept (h : l.Inv) {s : Session} (hs : l.server.sessions l.sid = some s) (fd : Nat) (kind : Kind) :
    (l.step (.accept fd kind)).Inv := by
  apply h.rest hs rfl
  · rfl
  · refine (l.server.acceptOne_beside fd kind fun _ hfree heq => ?_).unread hs
    rw [← heq, hs] at hfree
    cases hfree

theorem Inv.readOther (h : l.Inv) {s : Session} (hs : l.server.sessions l.sid = some s) {sid : Nat} (hne : sid ≠ l.sid)
    (reads : List ReadResult) (writes : List WriteResult) : (l.step (.read sid reads writes)).Inv := by
  have htaken : (Turn.read sid reads writes).taken l.sid = ([], true) := by
    rw [Turn.taken, if_neg hne]
  cases hother : l.server.sessions sid with
  | none =>
      have hturn : l.server.turn (.read sid reads writes) = (l.server, []) := by
        rw [turn, hother]
      apply h.asides hs htaken
      · rw [hturn]
      · rw [hturn]
  | some s' =>
      obtain ⟨outs, seq, rest, alive, hparse, hcommands, x, hsessions, -⟩ :=
        turn_read hother (h.keyed sid s' hother) reads writes
      apply h.rest hs htaken
      · rw [hcommands, List.filter_eq_nil_iff]
        intro c hc hsid
        split at hc
        · rw [decide_eq_true_eq, parse_command_session hparse hc] at hsid
          exact hne hsid
        · cases hc
      · intro t ht
        rw [hsessions, Function.update_of_ne hne.symm, hs, Option.some.injEq] at ht
        exact ht ▸ .refl s

/-- The session itself is read: what the loop got is parsed, or lost if the loop failed. -/
theorem Inv.readOwn (h : l.Inv) {s : Session} (hs : l.server.sessions l.sid = some s) (reads : List ReadResult)
    (writes : List WriteResult) : (l.step (.read l.sid reads writes)).Inv := by
  have hid := h.keyed l.sid s hs
  have hlength := h.settled_le
  obtain ⟨outs, seq, rest, alive, hparse, hsubmitted, -, hopen⟩ := h.parsed
  obtain ⟨rfl, hall, rfl, rfl⟩ := hopen s hs
  obtain ⟨outs', seq', rest', alive', hparse', hcommands, x, hsessions, hx⟩ := turn_read hs hid reads writes
  have hkeyed := h.keyed.turn (.read l.sid reads writes)
  have hown : (Turn.read l.sid reads writes).taken l.sid = ReadResult.taken reads := by
    rw [Turn.taken, if_pos rfl]
  rw [step, hs]
  dsimp only
  rw [hown, hcommands]
  cases hok : (ReadResult.taken reads).2 with
  | false =>
      refine ⟨hkeyed, ?_, outs, s.expectSeq, s.rx, true, ?_, ?_, Bool.noConfusion, fun s' hs' => ?_⟩
      · simp only [Bool.false_eq_true, if_false, List.length_append]
        omega
      · simp only [Bool.false_eq_true, if_false]
        rw [List.take_append_of_le_length hlength]
        exact hparse
      · simpa using hsubmitted
      · change (l.server.turn _).1.sessions l.sid = some s' at hs'
        rw [hsessions, Function.update_self] at hs'
        rw [hok] at hx
        exact absurd (hx s' hs').1 Bool.false_ne_true
  | true =>
      have hfilter : (outs'.filterMap Reply.command?).filter (fun c => c.session = l.sid) =
          outs'.filterMap Reply.command? := by
        rw [List.filter_eq_self]
        intro c hc
        rw [decide_eq_true_eq, parse_command_session hparse' hc]
      rw [hall, List.take_length] at hparse
      refine ⟨hkeyed, le_rfl, outs ++ outs', seq', rest', alive', ?_, ?_, fun _ => rfl, fun s' hs' => ?_⟩
      · simp only [if_true, List.take_length]
        exact hparse.resume (nextFrame_stable l.sid) hparse'
      · simp only [if_true]
        rw [hfilter, hsubmitted, List.filterMap_append]
      · change (l.server.turn _).1.sessions l.sid = some s' at hs'
        rw [hsessions, Function.update_self] at hs'
        obtain ⟨-, halive, -, hseq, hrx⟩ := hx s' hs'
        exact ⟨halive, rfl, hseq, hrx⟩

theorem Inv.step (h : l.Inv) (t : Turn) : (l.step t).Inv := by
  cases hs : l.server.sessions l.sid with
  | none =>
      have hstep : l.step t = l := by rw [Life.step, hs]
      rw [hstep]
      exact h
  | some s =>
      cases t with
      | accept fd kind => exact h.accept hs fd kind
      | read sid reads writes =>
          by_cases heq : sid = l.sid
          · subst heq
            exact h.readOwn hs reads writes
          · exact h.readOther hs heq reads writes
      | writable sid writes =>
          apply h.asides hs rfl
          · rw [turn]
            split <;> rfl
          · rw [turn]
            split
            · exact .refl
            · exact .single ((l.server.flushSession_served ‹_› writes).touched Unread.flushed)
      | event e => exact h.asides hs rfl rfl (.single (l.server.onEvent_aside e))
      | flush writes => exact h.asides hs rfl rfl (l.server.flushDirty_serves writes).asides

theorem Inv.accepted {sv : Server} (hkeyed : sv.Keyed) (hfree : sv.sessions sv.nextSid = none) (fd : Nat) :
    (Life.accepted sv fd).Inv := by
  have hshort : nextFrame sv.nextSid 1 [] = .more := Looked.eq (.short (Nat.zero_lt_succ 7))
  refine ⟨hkeyed.turn (.accept fd .session), le_rfl, [], 1, [], true, .more hshort, rfl, Bool.noConfusion, fun s hs => ?_⟩
  change (sv.acceptOne fd .session).sessions sv.nextSid = some s at hs
  rw [sv.acceptOne_sessions fd hfree, Function.update_self] at hs
  cases hs
  exact ⟨rfl, rfl, rfl, rfl⟩

theorem run_inv (h : l.Inv) (turns : List Turn) : (l.run turns).Inv := by
  induction turns using List.reverseRecOn with
  | nil => exact h
  | append_singleton turns t ih =>
      rw [run_concat]
      exact ih.step t

/-- What a session submits is what its bytes decode to, exactly if every order in them was complete before the call of `read_session` that found the peer gone. -/
theorem run_submits_iff (cfg : Config) (listenFd mdListenFd : Nat) (before : List Turn) (fd : Nat) (turns : List Turn)
    (hfree : ((init cfg listenFd mdListenFd).serve before).sessions
      ((init cfg listenFd mdListenFd).serve before).nextSid = none) :
    let l := (Life.accepted ((init cfg listenFd mdListenFd).serve before) fd).run turns
    ((Session.accepted fd l.sid).receive l.received).parseFrames.map (fun p => p.commands) = some l.submitted ↔
      OrdersWithin l.sid l.settled l.received := by
  intro l
  have hinv : l.Inv := run_inv (.accepted ((keyed_init cfg listenFd mdListenFd).serve before) hfree fd) turns
  obtain ⟨outs, seq, rest, alive, hparse, hsubmitted, hstopped, -⟩ := hinv.parsed
  have hlength : (l.received.take l.settled).length = l.settled := by
    rw [List.length_take, Nat.min_eq_left hinv.settled_le]
  cases alive with
  | false =>
      have hall := hstopped rfl
      rw [hall, List.take_length] at hparse
      rw [Session.parseFrames_eq (s := (Session.accepted fd l.sid).receive l.received) hparse, Option.map_some,
        hsubmitted, hall]
      refine iff_of_true rfl ?_
      intro frames f rest hstream _ _
      rw [hstream, List.length_append]
      omega
  | true =>
      obtain ⟨outs', seq', rest', alive', hparse'⟩ :=
        (nextFrame_stable l.sid).exists_parse seq (rest ++ l.received.drop l.settled)
      have hwhole := hparse.resume (nextFrame_stable l.sid) hparse'
      have hiff := unparsed_iff hparse hparse'
      rw [hlength, List.take_append_drop] at hiff
      rw [List.take_append_drop] at hwhole
      rw [Session.parseFrames_eq (s := (Session.accepted fd l.sid).receive l.received) hwhole, Option.map_some,
        hsubmitted, ← hiff, Option.some.injEq, List.filterMap_append, List.append_right_eq_self]

/-- A single CancelOrder, and the end of the file in a call of its own. -/
theorem run_submits_iff_cancel :
    let l := (Life.accepted ((init {} 3 4).serve []) 5).run
      [.read 1 [.bytes (blankFrame .cancelOrder 1)] [], .read 1 [.bytes []] []]
    ((init {} 3 4).serve []).sessions ((init {} 3 4).serve []).nextSid = none ∧
      l.submitted = [{ kind := .cancel, session := 1 }] ∧
      (((Session.accepted 5 l.sid).receive l.received).parseFrames.map (fun p => p.commands) = some l.submitted ↔
        OrdersWithin l.sid l.settled l.received) :=
  ⟨rfl, by decide +kernel, run_submits_iff {} 3 4 [] 5 _ rfl⟩

/-! ### A full buffer before the end of the file -/

theorem step_failed (h : l.Inv) {s : Session} (hs : l.server.sessions l.sid = some s) {reads : List ReadResult}
    (writes : List WriteResult) (hfailed : (ReadResult.taken reads).2 = false) :
    (l.step (.read l.sid reads writes)).received = l.received ++ (ReadResult.taken reads).1 ∧
      (l.step (.read l.sid reads writes)).submitted = l.submitted := by
  obtain ⟨outs, seq, rest, alive, -, hcommands, -⟩ := turn_read hs (h.keyed l.sid s hs) reads writes
  rw [hfailed, if_neg Bool.false_ne_true] at hcommands
  rw [step, hs]
  dsimp only
  rw [hcommands, Turn.taken, if_pos rfl, List.filter_nil, List.append_nil]
  exact ⟨rfl, rfl⟩

/-- As many orders as fill the buffer of one `::read`. -/
def fullBuffer : List UInt8 := blankFrames 1 (List.replicate 2729 .cancelOrder ++ [.replaceOrder])

theorem length_fullBuffer : fullBuffer.length = 2 ^ 16 := by
  rw [fullBuffer, length_blankFrames, List.map_append, List.map_replicate, List.sum_append, List.sum_replicate_nat]
  rfl

/-- The first read fills the buffer, so that the loop goes on to a second one, which meets the end of the file. -/
theorem taken_fullBuffer : ReadResult.taken [.bytes fullBuffer, .bytes []] = (fullBuffer, false) := by
  have hlength := length_fullBuffer
  have hne : fullBuffer ≠ [] := by
    rw [← List.length_pos_iff, hlength]
    decide
  simp only [ReadResult.taken, List.take_of_length_le hlength.le, List.take_nil, if_neg hne, if_pos,
    if_neg (Nat.not_lt.2 hlength.ge), List.append_nil]

/-- A client sends complete orders and closes, and none of them is submitted. -/
theorem fullBuffer_discarded :
    let l := (Life.accepted (init {} 3 4) 5).run [.read 1 [.bytes fullBuffer, .bytes []] []]
    l.received = fullBuffer ∧ l.submitted = [] ∧
      ∃ p, ((Session.accepted 5 1).receive fullBuffer).parseFrames = some p ∧ p.commands.length = 2730 ∧ p.ok = true := by
  have hone : 1 < word32 := by decide
  obtain ⟨outs, seq, hparse, hcount⟩ := parse_blankFrames 1 (List.replicate 2729 .cancelOrder ++ [.replaceOrder]) hone
  have horders : ∀ t ∈ List.replicate 2729 MsgType.cancelOrder ++ [.replaceOrder], ∀ seq, IsOrder 1 (blankFrame t seq) := by
    intro t ht seq
    rw [List.mem_append, List.mem_replicate, List.mem_singleton] at ht
    rcases ht with ⟨-, rfl⟩ | rfl <;> rfl
  have hrx : ((Session.accepted 5 1).receive fullBuffer).rx = fullBuffer := List.nil_append fullBuffer
  rw [← fullBuffer, ← hrx] at hparse
  have hframes := Session.parseFrames_eq (s := (Session.accepted 5 1).receive fullBuffer) hparse
  have hinv := Inv.accepted (keyed_init {} 3 4) rfl 5
  have hsession : (Life.accepted (init {} 3 4) 5).server.sessions 1 = some (Session.accepted 5 1) := rfl
  have hfailed : (ReadResult.taken [.bytes fullBuffer, .bytes []]).2 = false := by rw [taken_fullBuffer]
  obtain ⟨hreceived, hsubmitted⟩ := step_failed hinv hsession [] hfailed
  have hall : (Life.accepted (init {} 3 4) 5).received ++ fullBuffer = fullBuffer := List.nil_append fullBuffer
  rw [taken_fullBuffer, hall] at hreceived
  refine ⟨hreceived, hsubmitted, _, hframes, ?_, rfl⟩
  rw [hcount horders, List.length_append, List.length_replicate]
  rfl

end Life

end Server

end Matchbox
