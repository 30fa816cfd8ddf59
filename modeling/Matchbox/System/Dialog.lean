import Matchbox.Gateway.Dialog
import Matchbox.Stream.Splitter
import Matchbox.System.Routing

/-!
# One client and the system

A client that is connected as one of the sessions writes bytes and reads bytes; everything else is the system's. TCP is the assumption that each side reads a beginning of what the other has written. `Dialog` is the system with these two byte streams of one session, and `Dialog.Inv` ties them to the rest: what was read from the client has been submitted or refused frame by frame, and what the client has heard is a beginning of the frames queued for it. What a client can rely on is proved from there, without looking at the gateway again.
-/

namespace Matchbox

open BoundedFifo Wire Resumable

namespace Server

/-- The record of a session, open or closed. -/
def Met (sv : Server) (sid : Nat) (s : Session) : Prop :=
  sv.sessions sid = some s ∨ s.id = sid ∧ ∃ front, (front, s) ∈ sv.closed

/-- What the kernel took of a session's output. -/
def sentTo (sv : Server) (sid : Nat) : List UInt8 :=
  match sv.sessions sid with
  | some s => s.sent
  | none => ((sv.closed.find? fun x => x.2.id == sid).map fun x => x.2.sent).getD []

section Met

variable {sv sv' : Server} {sid : Nat} {s s' : Session}

theorem Routes.met_unique (h : sv.Routes) (hs : sv.Met sid s) (hs' : sv.Met sid s') : s = s' := by
  rcases hs with hopen | ⟨hid, front, hmem⟩ <;> rcases hs' with hopen' | ⟨hid', front', hmem'⟩
  · rw [hopen, Option.some.injEq] at hopen'
    exact hopen'
  · exact absurd (List.mem_map.2 ⟨_, hmem', hid'⟩) (h.not_mem_closedIds hopen)
  · exact absurd (List.mem_map.2 ⟨_, hmem, hid⟩) (h.not_mem_closedIds hopen')
  · have heq := List.inj_on_of_nodup_map h.once hmem hmem' (hid.trans hid'.symm)
    exact congrArg Prod.snd heq

theorem Routes.met_routed (h : sv.Routes) (hs : sv.Met sid s) :
    s.id = sid ∧ ∃ front, front <+: sv.drained ∧ s.Routed front ∧ (sv.sessions sid = some s → front = sv.drained) := by
  rcases hs with hopen | ⟨hid, front, hmem⟩
  · exact ⟨h.id hopen, _, List.prefix_rfl, h.current hopen, fun _ => rfl⟩
  · obtain ⟨hfront, hrouted⟩ := h.closed _ hmem
    refine ⟨hid, front, hfront, hrouted, fun hopen => ?_⟩
    exact absurd (List.mem_map.2 ⟨_, hmem, hid⟩) (h.not_mem_closedIds hopen)

theorem Routes.exists_met (h : sv.Routes) (hpos : 1 ≤ sid) (hle : sid ≤ sv.opened) : ∃ s, sv.Met sid s := by
  rcases (h.accepted sid).1 ⟨hpos, hle⟩ with hopen | hclosed
  · obtain ⟨s, hs⟩ := Option.isSome_iff_exists.1 hopen
    exact ⟨s, .inl hs⟩
  · obtain ⟨x, hx, hid⟩ := List.mem_map.1 hclosed
    exact ⟨x.2, .inr ⟨hid, x.1, hx⟩⟩

theorem Routes.le_of_met (h : sv.Routes) (hs : sv.Met sid s) : 1 ≤ sid ∧ sid ≤ sv.opened := by
  rw [h.accepted]
  rcases hs with hopen | ⟨hid, front, hmem⟩
  · exact .inl (by rw [hopen]; rfl)
  · exact .inr (List.mem_map.2 ⟨_, hmem, hid⟩)

theorem Routes.sentTo_eq (h : sv.Routes) (hs : sv.Met sid s) : sv.sentTo sid = s.sent := by
  have hmet := hs
  rcases hs with hopen | ⟨hid, front, hmem⟩
  · rw [sentTo, hopen]
  · have hnone : sv.sessions sid = none := h.gone sid (List.mem_map.2 ⟨_, hmem, hid⟩)
    rw [sentTo, hnone]
    dsimp only
    cases hfind : sv.closed.find? fun x => x.2.id == sid with
    | none =>
        rw [List.find?_eq_none] at hfind
        exact absurd (beq_iff_eq.2 hid) (hfind _ hmem)
    | some x =>
        have hfound := List.find?_some hfind
        have hx : sv.Met sid x.2 := .inr ⟨beq_iff_eq.1 hfound, x.1, List.mem_of_find?_eq_some hfind⟩
        rw [h.met_unique hmet hx]
        rfl

theorem sentTo_eq_nil (h : ∀ s, ¬ sv.Met sid s) : sv.sentTo sid = [] := by
  have hnone : sv.sessions sid = none := Option.eq_none_iff_forall_ne_some.2 fun s hs => h s (.inl hs)
  have hfind : (sv.closed.find? fun x => x.2.id == sid) = none :=
    List.find?_eq_none.2 fun x hx heq => h x.2 (.inr ⟨beq_iff_eq.1 heq, x.1, hx⟩)
  rw [sentTo, hnone, hfind]
  rfl

/-- What was sent stays sent. -/
theorem Routes.sentTo_isPrefix (h : sv.Routes) (h' : sv'.Routes)
    (hmet : ∀ s, sv.Met sid s → ∃ s', sv'.Met sid s' ∧ s.sent <+: s'.sent) : sv.sentTo sid <+: sv'.sentTo sid := by
  by_cases hex : ∃ s, sv.Met sid s
  · obtain ⟨s, hs⟩ := hex
    obtain ⟨s', hs', hsent⟩ := hmet s hs
    rw [h.sentTo_eq hs, h'.sentTo_eq hs']
    exact hsent
  · rw [sentTo_eq_nil fun s hs => hex ⟨s, hs⟩]
    exact List.nil_prefix

theorem Beside.met (h : Beside sid sv sv') (hroutes : sv.Routes) (hs : sv.Met sid s) :
    ∃ s', sv'.Met sid s' ∧ Unread s s' := by
  rcases hs with hopen | ⟨hid, front, hmem⟩
  · obtain ⟨s', hunread, hopen' | ⟨-, front, hmem⟩⟩ := h.stays s hopen
    · exact ⟨s', .inl hopen', hunread⟩
    · exact ⟨s', .inr ⟨hunread.id.trans (hroutes.id hopen), front, hmem⟩, hunread⟩
  · exact ⟨s, .inr ⟨hid, front, h.closed _ hmem⟩, .refl s⟩

end Met

end Server

/-- The session that is closed once its commands are submitted. -/
def GatewayAt.closing : GatewayAt → Option Nat
  | .submit sid _ false _ => some sid
  | _ => none

namespace System

variable {ecfg : Engine.Config} {s : System} {sid : Nat}

/-- What a step reads from the socket of a session. -/
def reads (s : System) (sid : Nat) : Action → List UInt8
  | .engine _ => []
  | .gateway env =>
      match s.gateway with
      | .events (ev :: _) =>
          if s.server.kindOf ev.fd = .session ∧ (ev.readable ∨ ev.hangup) then
            match (s.server.onSessionWritable ev (env.writes ev.fd)).sessionByFd ev.fd with
            | none => []
            | some session => if session.id = sid then (ReadResult.taken env.reads).1 else []
          else []
      | _ => []

/-- The commands of a session that were submitted or are about to be. -/
def submitted (s : System) (sid : Nat) : List Command :=
  (pushes s.inboxCalls ++ s.gateway.commands).filter fun c => c.session = sid

/-! ### What becomes of the client's bytes -/

/-- The gateway has parsed the first `n` of the bytes read from a session, all of them as long as it is open. When the parse has stopped the session is about to be closed. -/
structure Followed (s : System) (sid : Nat) (received heard : List UInt8) (n : Nat) (outs : List Reply) (seq : Nat)
    (rest : List UInt8) (alive : Bool) : Prop where
  heard : heard <+: s.server.sentTo sid
  le : n ≤ received.length
  parse : Parse (nextFrame sid) 1 (received.take n) outs seq rest alive
  commands : s.submitted sid = outs.filterMap Reply.command?
  refused : ∀ session, s.server.Met sid session → session.refused = outs.filterMap Reply.message?
  whole : ∀ session, s.server.sessions sid = some session → n = received.length
  place : ∀ session, s.server.sessions sid = some session → alive = true → session.expectSeq = seq ∧ session.rx = rest
  closing : ∀ session, s.server.sessions sid = some session → alive = false → s.gateway.closing = some sid

namespace Followed

variable {s' : System} {received heard rest : List UInt8} {n seq : Nat} {outs : List Reply} {alive : Bool}

theorem beside (h : Followed s sid received heard n outs seq rest alive) (hroutes : s.server.Routes)
    (hroutes' : s'.server.Routes) (hold : sid ≤ s'.server.opened → sid ≤ s.server.opened)
    (hbeside : Server.Beside sid s.server s'.server) (hcommands : s'.submitted sid = s.submitted sid)
    (hclosing : s.gateway.closing = some sid → s'.server.sessions sid = none ∨ s'.gateway.closing = some sid) :
    Followed s' sid received heard n outs seq rest alive := by
  have hsent : s.server.sentTo sid <+: s'.server.sentTo sid := by
    apply hroutes.sentTo_isPrefix hroutes'
    intro session hmet
    obtain ⟨session', hmet', hunread⟩ := hbeside.met hroutes hmet
    exact ⟨session', hmet', hunread.sent⟩
  refine ⟨h.heard.trans hsent, h.le, h.parse, hcommands.trans h.commands, fun session' hmet' => ?_,
    fun session' hopen' => ?_, fun session' hopen' halive => ?_, fun session' hopen' halive => ?_⟩
  · obtain ⟨hpos, hle⟩ := hroutes'.le_of_met hmet'
    obtain ⟨session, hmet⟩ := hroutes.exists_met hpos (hold hle)
    obtain ⟨session'', hmet'', hunread⟩ := hbeside.met hroutes hmet
    rw [hroutes'.met_unique hmet' hmet'', hunread.refused, h.refused session hmet]
  · obtain ⟨session, hopen, -⟩ := hbeside.exists_unread hopen'
    exact h.whole session hopen
  · obtain ⟨session, hopen, hunread⟩ := hbeside.exists_unread hopen'
    obtain ⟨hseq, hrx⟩ := h.place session hopen halive
    exact ⟨hunread.expectSeq.trans hseq, hunread.rx.trans hrx⟩
  · obtain ⟨session, hopen, -⟩ := hbeside.exists_unread hopen'
    rcases hclosing (h.closing session hopen halive) with hnone | hstill
    · rw [hnone] at hopen'
      cases hopen'
    · exact hstill

theorem of_nil (h : Followed s sid [] heard n outs seq rest alive) : n = 0 ∧ outs = [] ∧ seq = 1 ∧ rest = [] ∧ alive = true := by
  have hn := h.le
  have hmore : nextFrame sid 1 [] = .more := Looked.eq (.short (Nat.zero_lt_succ 7))
  have hparse := h.parse
  rw [List.take_nil] at hparse
  obtain ⟨rfl, rfl, rfl, rfl⟩ := hparse.of_more hmore
  exact ⟨Nat.le_zero.1 hn, rfl, rfl, rfl, rfl⟩

theorem accept (h : Followed s sid [] heard n outs seq rest alive) (hfresh : ∀ session, ¬ s.server.Met sid session)
    (fd : Nat) (hroutes' : s'.server.Routes)
    (hopen : s'.server.sessions sid = some (.accepted fd sid)) (hcommands : s'.submitted sid = s.submitted sid) :
    Followed s' sid [] heard n outs seq rest alive := by
  obtain ⟨rfl, rfl, rfl, rfl, rfl⟩ := h.of_nil
  have hunique : ∀ session, s'.server.sessions sid = some session → session = .accepted fd sid := by
    intro session hsession
    rw [hopen, Option.some.injEq] at hsession
    exact hsession.symm
  have hsilent : heard = [] := List.prefix_nil.1 (Server.sentTo_eq_nil hfresh ▸ h.heard)
  refine ⟨hsilent ▸ List.nil_prefix, h.le, h.parse, hcommands.trans h.commands, fun session hmet => ?_,
    fun session hsession => rfl, fun session hsession _ => ?_, fun session hsession halive => Bool.noConfusion halive⟩
  · rw [hroutes'.met_unique hmet (.inl hopen)]
    rfl
  · rw [hunique session hsession]
    exact ⟨rfl, rfl⟩

theorem read (h : Followed s sid received heard n outs seq rest alive) {sv : Server} {session : Session}
    {reads : List ReadResult} {r : Server × List Command × Bool} {evs : List PollEvent}
    (hbeside : Server.Beside sid s.server sv) (hroutes : sv.Routes) (hsession : sv.sessions sid = some session)
    (hidle : s.gateway.closing = none) (hnone : s.gateway.commands = [])
    (hreads : Server.Reads sv session reads r) (hserver : s'.server = r.1) (hroutes' : r.1.Routes)
    (hat : s'.gateway = .submit sid r.2.1 r.2.2 evs) (hcalls : s'.inboxCalls = s.inboxCalls) :
    ∃ n outs seq rest alive, Followed s' sid (received ++ (ReadResult.taken reads).1) heard n outs seq rest alive := by
  obtain ⟨session₀, hopen₀, hunread⟩ := hbeside.exists_unread hsession
  have hid : session.id = sid := hroutes.id hsession
  have halive : alive = true := by
    by_contra hstopped
    rw [Bool.not_eq_true] at hstopped
    have hclosing := h.closing session₀ hopen₀ hstopped
    rw [hidle] at hclosing
    cases hclosing
  obtain ⟨hseq, hrx⟩ := h.place session₀ hopen₀ halive
  obtain rfl := h.whole session₀ hopen₀
  have hparse := h.parse
  have hrefused : session.refused = outs.filterMap Reply.message? := by
    rw [hunread.refused, h.refused session₀ (.inl hopen₀)]
  have hheard : heard <+: session.sent := by
    have hsent := h.heard
    rw [Server.sentTo, hopen₀] at hsent
    exact hsent.trans hunread.sent
  rw [List.take_length, halive] at hparse
  have hcommands := h.commands
  rw [submitted, hnone, List.append_nil] at hcommands
  cases hreads with
  | failed htaken =>
      rw [Server.closeSession_eq] at hserver hroutes'
      have hshut : s'.server.sessions sid = none := by
        rw [hserver, ← hid]
        exact Function.update_self ..
      have hrecord : s'.server.Met sid (session.receive (ReadResult.taken reads).1) := by
        rw [hserver]
        exact .inr ⟨hid, sv.drained, List.mem_append_right _ (List.mem_singleton_self _)⟩
      rw [← hserver] at hroutes'
      refine ⟨received.length, outs, seq, rest, true, ?_, ?_, ?_, ?_, fun session' hmet => ?_, ?_, ?_, ?_⟩
      · rw [hroutes'.sentTo_eq hrecord]
        exact hheard
      · rw [List.length_append]
        omega
      · rw [List.take_append_of_le_length le_rfl, List.take_length]
        exact hparse
      · rw [submitted, hcalls, hat]
        exact (congrArg _ (List.append_nil _)).trans hcommands
      · rw [hroutes'.met_unique hmet hrecord]
        exact hrefused
      all_goals
        intro session' hopen'
        rw [hshut] at hopen'
        cases hopen'
  | @parsed outs' seq' rest' rx alive' htaken hparse' hrx' =>
      rw [hid, hunread.expectSeq, hseq, hunread.rx, hrx] at hparse'
      have hopen' : (sv.resend session (session.parsed outs' seq' rx)).sessions sid = some (session.parsed outs' seq' rx) := by
        rw [sv.resend_parsed, hid, Function.update_self]
      have hown : (outs'.filterMap Reply.command?).filter (fun c => c.session = sid) = outs'.filterMap Reply.command? := by
        rw [List.filter_eq_self]
        intro c hc
        rw [decide_eq_true_eq, parse_command_session hparse' hc]
      have hunique : ∀ session', s'.server.sessions sid = some session' → session' = session.parsed outs' seq' rx := by
        intro session' hsession'
        rw [hserver, hopen', Option.some.injEq] at hsession'
        exact hsession'.symm
      refine ⟨_, outs ++ outs', seq', rest', alive', ?_, le_rfl, ?_, ?_, fun session' hmet => ?_, fun _ _ => rfl,
        fun session' hsession' halive' => ?_, fun session' hsession' halive' => ?_⟩
      · rw [hserver, hroutes'.sentTo_eq (.inl hopen'), Session.sent_parsed]
        exact hheard
      · rw [List.take_length]
        exact hparse.resume (nextFrame_stable sid) hparse'
      · rw [submitted, hcalls, hat, GatewayAt.commands, List.filter_append, hcommands, hown, List.filterMap_append]
      · rw [hserver] at hmet
        rw [hroutes'.met_unique hmet (.inl hopen'), Session.refused_parsed, hrefused, List.filterMap_append]
      · rw [hunique session' hsession']
        exact ⟨rfl, hrx' halive'⟩
      · rw [hat, halive']
        rfl

end Followed

/-! ### One step -/

section Step

variable {received heard rest : List UInt8} {n seq : Nat} {outs : List Reply} {alive : Bool} {env : Env}

/-- A step that reads from no session and accepts none. -/
structure Beside (s s' : System) : Prop where
  opened : s'.server.opened = s.server.opened
  asides : s.server.Asides s'.server
  commands : pushes s'.inboxCalls ++ s'.gateway.commands = pushes s.inboxCalls ++ s.gateway.commands
  closing : ∀ sid, s.gateway.closing = some sid → s'.server.sessions sid = none ∨ s'.gateway.closing = some sid

theorem Followed.besides (h : Followed s sid received heard n outs seq rest alive) (hinv : s.Inv ecfg) {s' : System}
    (hinv' : s'.Inv ecfg) (hbeside : s.Beside s') : Followed s' sid received heard n outs seq rest alive := by
  refine h.beside hinv.routes hinv'.routes (fun hle => hbeside.opened ▸ hle) ?_ ?_ (hbeside.closing sid)
  · exact (hbeside.asides.spec fun _ _ hs => hinv.routes.id hs).2 sid
  · rw [submitted, submitted, hbeside.commands]

theorem Beside.of_idle {sv : Server} {g : GatewayAt} {stop : Bool} (hopened : sv.opened = s.server.opened)
    (hasides : s.server.Asides sv) (hnone : g.commands = []) (hidle : s.gateway.commands = [])
    (hclosing : s.gateway.closing = none) : s.Beside { s with server := sv, gateway := g, stop := stop } := by
  refine ⟨hopened, hasides, by rw [hnone, hidle], fun sid hsid => ?_⟩
  rw [hclosing] at hsid
  cases hsid

theorem engineStep_beside (s : System) (now : Nat) : s.Beside (s.step (.engine now)) := by
  have hstepped := s.step_stepped (.engine now)
  generalize s.step (.engine now) = s' at hstepped
  cases hstepped with
  | taken _ _ _ =>
      refine ⟨rfl, .refl, ?_, fun _ hsid => .inr hsid⟩
      rw [pushes_append]
      exact congrArg (· ++ s.gateway.commands) (List.append_nil _)
  | pushed _ _ => exact ⟨rfl, .refl, rfl, fun _ hsid => .inr hsid⟩
  | returned _ _ => exact ⟨rfl, .refl, rfl, fun _ hsid => .inr hsid⟩
  | waited => exact ⟨rfl, .refl, rfl, fun _ hsid => .inr hsid⟩

theorem reads_of_ne {ev : PollEvent} {evs : List PollEvent} (hat : s.gateway = .events (ev :: evs))
    (hkind : s.server.kindOf ev.fd ≠ .session) : s.reads sid (.gateway env) = [] := by
  rw [reads, hat]
  exact if_neg fun hready => hkind hready.1

theorem submitted_beside {sid : Nat} {c : Command} {cmds : List Command} {ok : Bool} {evs : List PollEvent}
    (hat : s.gateway = .submit sid (c :: cmds) ok evs) :
    s.Beside { s with
      inbox := s.inbox ++ [c]
      gateway := .submit sid cmds ok evs
      inboxCalls := s.inboxCalls ++ [.pushed c] } := by
  refine ⟨rfl, .refl, ?_, fun sid' hsid => .inr ?_⟩
  · rw [pushes_append, List.append_assoc, hat]
    rfl
  · rw [hat] at hsid
    cases ok with
    | true => cases hsid
    | false => exact hsid

theorem hungUp_beside (hkeyed : s.server.Keyed) {sid : Nat} {evs : List PollEvent}
    (hat : s.gateway = .submit sid [] false evs) (writes : List WriteResult) :
    s.Beside { s with server := s.server.hangUp sid writes, gateway := .events evs } := by
  have hserves := s.server.hangUp_serves sid writes
  refine ⟨hserves.tends.stream.opened, hserves.asides, by rw [hat]; rfl, fun sid' hsid => .inl ?_⟩
  rw [hat] at hsid
  cases hsid
  exact s.server.hangUp_sessions hkeyed sid writes

theorem flushed_beside (hat : s.gateway = .flush) (env : Env) :
    s.Beside { s with
      server := (s.server.flushDirty env.writes).flushMarketData env.now env.writes
      gateway := .poll } := by
  have hserves := s.server.flushDirty_serves env.writes
  have htended := (s.server.flushDirty env.writes).flushMarketData_tended env.now env.writes
  exact .of_idle (htended.stream.opened.trans hserves.tends.stream.opened) (hserves.asides.tail (.other rfl rfl)) rfl (by rw [hat]; rfl) (by rw [hat]; rfl)

theorem Followed.handleRead (h : Followed s sid received heard n outs seq rest alive) (hinv : s.Inv ecfg) {ev : PollEvent}
    {evs : List PollEvent} (hat : s.gateway = .events (ev :: evs)) {sv : Server} {session : Session}
    (hsv : s.server.onSessionWritable ev (env.writes ev.fd) = sv) (hsession : sv.sessionByFd ev.fd = some session)
    {r : Server × List Command × Bool} (hread : Server.Reads sv session env.reads r)
    (hinv' : Inv ecfg { s with server := r.1, gateway := .submit session.id r.2.1 r.2.2 evs }) :
    ∃ n outs seq rest alive, Followed { s with server := r.1, gateway := .submit session.id r.2.1 r.2.2 evs } sid
      (received ++ if session.id = sid then (ReadResult.taken env.reads).1 else []) heard n outs seq rest alive := by
  have hkeyed : s.server.Keyed := fun _ _ hs => hinv.routes.id hs
  have hserves := s.server.onSessionWritable_serves ev (env.writes ev.fd)
  rw [hsv] at hserves
  have htends := hserves.tends
  have hbeside := (hserves.asides.spec hkeyed).2 sid
  have hroutes := hinv.routes.tends htends
  obtain ⟨key, hkey⟩ := Server.exists_of_sessionByFd hsession
  obtain rfl := hroutes.id hkey
  by_cases hsid : session.id = sid
  · subst hsid
    rw [if_pos rfl]
    exact h.read hbeside hroutes hkey (by rw [hat]; rfl) (by rw [hat]; rfl) hread rfl hinv'.routes rfl rfl
  · rw [if_neg hsid, List.append_nil]
    refine ⟨n, outs, seq, rest, alive, ?_⟩
    have hsame : r.1.opened = s.server.opened := (hread.tended hkey).stream.opened.trans htends.stream.opened
    apply h.beside hinv.routes hinv'.routes (fun hle => hsame ▸ hle) (hbeside.trans (hread.beside _ (Ne.symm hsid)))
    · have hnone : s.gateway.commands = [] := by rw [hat]; rfl
      have hothers : (r.2.1.filter fun c => c.session = sid) = [] := by
        rw [List.filter_eq_nil_iff]
        intro c hc hown
        rw [decide_eq_true_eq, hread.session hc] at hown
        exact hsid hown
      rw [submitted, submitted, hnone, List.filter_append, List.filter_append]
      exact congrArg _ hothers
    · rw [hat]
      exact fun hsid => by cases hsid

/-- A connection is accepted, and if it is the client's the session begins. -/
theorem Followed.accepting (h : Followed s sid received heard n outs seq rest alive) (hinv : s.Inv ecfg)
    (hearly : s.server.opened < sid → received = []) {kind : Server.Kind} {evs : List PollEvent}
    (hat : s.gateway = .accepting kind evs) (fd : Nat)
    (hinv' : Inv ecfg { s with server := s.server.acceptOne fd kind }) :
    Followed { s with server := s.server.acceptOne fd kind } sid received heard n outs seq rest alive := by
  by_cases hkind : kind = .session
  · subst hkind
    have hfew := hinv'.routes.few
    obtain ⟨-, hopened, -⟩ := s.server.acceptOne_stream fd
    dsimp only at hopened hfew
    have hnext : s.server.nextSid = s.server.opened + 1 := by
      rw [hopened] at hfew
      rw [hinv.routes.nextSid, Nat.add_comm, Nat.mod_eq_of_lt hfew]
    by_cases hsid : sid = s.server.opened + 1
    · have hfree : s.server.sessions s.server.nextSid = none := by
        rw [hnext, ← Option.not_isSome_iff_eq_none]
        intro hopen
        have := ((hinv.routes.accepted _).2 (.inl hopen)).2
        omega
      obtain rfl := hearly (by omega)
      apply h.accept (fun session hmet => ?_) fd hinv'.routes
      · dsimp only
        rw [s.server.acceptOne_sessions fd hfree, hnext, ← hsid, Function.update_self]
      · rfl
      · have := (hinv.routes.le_of_met hmet).2
        omega
    · apply h.beside hinv.routes hinv'.routes
      · intro hle
        dsimp only at hle
        omega
      · exact s.server.acceptOne_beside fd .session fun _ _ => by omega
      · rfl
      · rw [hat]
        exact fun hclosing => by cases hclosing
  · have hopened := (s.server.subscribe_tended fd hkind).stream.opened
    apply h.beside hinv.routes hinv'.routes (fun hle => hopened ▸ hle)
    · exact s.server.acceptOne_beside fd kind fun hsession _ => absurd hsession hkind
    · rfl
    · rw [hat]
      exact fun hclosing => by cases hclosing

theorem Followed.looped (h : Followed s sid received heard n outs seq rest alive) (hinv : s.Inv ecfg)
    (hearly : s.server.opened < sid → received = []) {s' : System} (hlooped : Looped s env s') (hinv' : s'.Inv ecfg) :
    ∃ n outs seq rest alive, Followed s' sid (received ++ s.reads sid (.gateway env)) heard n outs seq rest alive := by
  have hbesides : s.reads sid (.gateway env) = [] → s.Beside s' →
      ∃ n outs seq rest alive, Followed s' sid (received ++ s.reads sid (.gateway env)) heard n outs seq rest alive := by
    intro hnothing hbeside
    rw [hnothing, List.append_nil]
    exact ⟨n, outs, seq, rest, alive, h.besides hinv hinv' hbeside⟩
  cases hlooped with
  | quit hat | polled hat | walked hat | acceptedAll hat | submittedAll hat | drainedAll hat =>
      exact hbesides (by rw [System.reads, hat]) (.of_idle rfl .refl rfl (by rw [hat]; rfl) (by rw [hat]; rfl))
  | listened hat hkind =>
      exact hbesides (reads_of_ne hat (by rcases hkind with hkind | hkind <;> rw [hkind] <;> decide))
        (.of_idle rfl .refl rfl (by rw [hat]; rfl) (by rw [hat]; rfl))
  | unknown hat hkind =>
      exact hbesides (reads_of_ne hat (by rw [hkind]; decide)) (.of_idle rfl .refl rfl (by rw [hat]; rfl) (by rw [hat]; rfl))
  | @subscriber ev evs hat hkind =>
      exact hbesides (reads_of_ne hat (by rw [hkind]; decide))
        (.of_idle (s.server.onSubscriber_tends ev env.reads (env.writes ev.fd)).stream.opened
          (s.server.onSubscriber_asides ev env.reads (env.writes ev.fd)) rfl (by rw [hat]; rfl) (by rw [hat]; rfl))
  | @written ev evs hat hkind hunread =>
      have hserves := s.server.onSessionWritable_serves ev (env.writes ev.fd)
      refine hbesides ?_ (.of_idle hserves.tends.stream.opened hserves.asides rfl (by rw [hat]; rfl) (by rw [hat]; rfl))
      rw [System.reads, hat]
      dsimp only
      split
      · rename_i hready
        rw [hunread hready.2]
      · rfl
  | @read ev evs sv session r hat hkind hready hsv hsession hread =>
      have hown : s.reads sid (.gateway env) = if session.id = sid then (ReadResult.taken env.reads).1 else [] := by
        rw [System.reads, hat]
        dsimp only
        rw [if_pos ⟨hkind, hready⟩, hsv, hsession]
      rw [hown]
      exact h.handleRead hinv hat hsv hsession (hread ▸ sv.readSession_reads session env.reads) hinv'
  | @accepted kind evs fd hat =>
      have hnothing : s.reads sid (.gateway env) = [] := by rw [System.reads, hat]
      rw [hnothing, List.append_nil]
      exact ⟨n, outs, seq, rest, alive, h.accepting hinv hearly hat fd hinv'⟩
  | submitted hat => exact hbesides (by rw [System.reads, hat]) (submitted_beside hat)
  | hungUp hat => exact hbesides (by rw [System.reads, hat]) (hungUp_beside (fun _ _ hs => hinv.routes.id hs) hat _)
  | drained hat =>
      exact hbesides (by rw [System.reads, hat]) ⟨(s.server.onEvent_noted _).opened, .single (s.server.onEvent_aside _), rfl,
        fun _ hsid => .inr hsid⟩
  | flushed hat => exact hbesides (by rw [System.reads, hat]) (flushed_beside hat env)
  | interrupted hat | full hat | returned hat =>
      exact hbesides (by rw [System.reads, hat]) ⟨rfl, .refl, rfl, fun _ hsid => .inr hsid⟩

theorem Followed.step (h : Followed s sid received heard n outs seq rest alive) (hinv : s.Inv ecfg)
    (hearly : s.server.opened < sid → received = []) (a : Action) (hinv' : (s.step a).Inv ecfg) :
    ∃ n outs seq rest alive, Followed (s.step a) sid (received ++ s.reads sid a) heard n outs seq rest alive := by
  cases a with
  | gateway env => exact h.looped hinv hearly (s.gatewayStep_looped env) hinv'
  | engine now =>
      have hnothing : s.reads sid (.engine now) = [] := rfl
      rw [hnothing, List.append_nil]
      exact ⟨n, outs, seq, rest, alive, h.besides hinv hinv' (s.engineStep_beside now)⟩

theorem reads_eq_nil (hinv : s.Inv ecfg) (hlt : s.server.opened < sid) (a : Action) : s.reads sid a = [] := by
  cases a with
  | engine now => rfl
  | gateway env =>
      rw [reads]
      split
      · rename_i ev evs hat
        split
        · cases hsession : (s.server.onSessionWritable ev (env.writes ev.fd)).sessionByFd ev.fd with
          | none => rfl
          | some session =>
              have htends := (s.server.onSessionWritable_serves ev (env.writes ev.fd)).tends
              obtain ⟨key, hkey⟩ := Server.exists_of_sessionByFd hsession
              have hle := (hinv.routes.tends htends).id_le hkey
              rw [htends.stream.opened] at hle
              exact if_neg (by omega)
        · rfl
      · rfl

end Step

end System

/-! ### A client's frame loop -/

namespace Wire

variable {σ : Type} {handle : σ → List UInt8 → Option σ} {react : σ → Message → σ}

theorem foldl_numbered {act : σ → List UInt8 → σ} {ms : List Message}
    (hact : ∀ m ∈ ms, ∀ s seq, act s (m.make (seq % word32)) = react s m) (seq : Nat) (s : σ) :
    (numbered seq ms).foldl act s = ms.foldl react s := by
  induction ms generalizing seq s with
  | nil => rfl
  | cons m ms ih =>
      have hcons := numbered_append seq [m] ms
      rw [List.singleton_append] at hcons
      rw [hcons]
      change (numbered (seq + 1) ms).foldl act (act s (m.make (seq % word32))) = _
      rw [hact m List.mem_cons_self, ih fun m' hm' => hact m' (List.mem_cons_of_mem m hm')]
      rfl

/-- Of the frames of messages that have come in up to a point, a loop whose handler reacts to the message handles the complete ones. -/
theorem walk_numbered {ms : List Message}
    (hreact : ∀ m ∈ ms, ∀ s seq back, handle s (m.make (seq % word32) ++ back) = some (react s m)) {seq : Nat}
    {bytes back : List UInt8} (hbytes : bytes ++ back = (numbered seq ms).flatten) {fuel : Nat}
    (hfuel : bytes.length < fuel) (s : σ) :
    ∃ got left calls rest, ms = got ++ left ∧ framing.walk handle fuel s bytes = .returned (got.foldl react s) calls rest ∧
      rest ++ back = (numbered (seq + got.length) left).flatten := by
  have hmem : ∀ f ∈ numbered seq ms, ∃ m ∈ ms, ∃ i, f = m.make (i % word32) := by
    intro f hf
    rw [numbered, List.mem_mapIdx] at hf
    obtain ⟨i, hi, rfl⟩ := hf
    exact ⟨ms[i], List.getElem_mem hi, seq + i, rfl⟩
  obtain ⟨act, hact⟩ : ∃ act : σ → List UInt8 → σ, ∀ m ∈ ms, ∀ s i, act s (m.make (i % word32)) = react s m := by
    refine ⟨fun s f => (handle s f).getD s, fun m hm s i => ?_⟩
    have hhandle := hreact m hm s i []
    rw [List.append_nil] at hhandle
    simp only [hhandle, Option.getD_some]
  have hframes : ∀ f ∈ numbered seq ms, framing.IsFrame f := by
    intro f hf
    obtain ⟨m, -, i, rfl⟩ := hmem f hf
    exact isFrame_make m _
  have hacts : ∀ f ∈ numbered seq ms, ∀ s back, handle s (f ++ back) = some (act s f) := by
    intro f hf s back
    obtain ⟨m, hm, i, rfl⟩ := hmem f hf
    rw [hact m hm, hreact m hm]
  obtain ⟨done, todo, rest, hwalk, hsplit, hrest⟩ := Framing.walk_foldl hframes hacts hbytes hfuel s
  -- the frames handled are those of the first messages
  have hcut := numbered_append seq (ms.take done.length) (ms.drop done.length)
  have hlength : done.length ≤ ms.length := by
    have htotal := congrArg List.length hsplit
    rw [numbered, List.length_mapIdx, List.length_append] at htotal
    omega
  rw [List.take_append_drop, hsplit] at hcut
  have hboth := List.append_inj hcut (by rw [numbered, List.length_mapIdx, List.length_take, Nat.min_eq_left hlength])
  refine ⟨ms.take done.length, ms.drop done.length, framing.callsOf done, rest, (List.take_append_drop _ _).symm, ?_, ?_⟩
  · rw [hwalk, ← foldl_numbered (fun m hm => hact m (List.mem_of_mem_take hm)) seq s, ← hboth.1]
  · rw [hrest, hboth.2]

end Wire

/-! ### The dialog -/

/-- The system and the two byte streams of one session. -/
structure Dialog where
  sid : Nat
  system : System
  /-- What the client has written. -/
  written : List UInt8 := []
  /-- What the gateway has read of it. -/
  received : List UInt8 := []
  /-- What the client has read. -/
  heard : List UInt8 := []

namespace Dialog

inductive Action where
  | system (a : System.Action)
  /-- The client writes. -/
  | write (bytes : List UInt8)
  /-- The client reads at most `n` bytes. -/
  | hear (n : Nat)

/-- What the client gets when it reads at most `n` bytes. -/
def incoming (d : Dialog) (n : Nat) : List UInt8 := ((d.system.server.sentTo d.sid).drop d.heard.length).take n

/-- One step. The gateway can only read what the client has written; a step that would read anything else does not happen. -/
def step (d : Dialog) : Action → Dialog
  | .system a =>
      let received := d.received ++ d.system.reads d.sid a
      if received.isPrefixOf d.written then { d with system := d.system.step a, received := received } else d
  | .write bytes => { d with written := d.written ++ bytes }
  | .hear n => { d with heard := d.heard ++ d.incoming n }

structure Inv (ecfg : Engine.Config) (d : Dialog) : Prop where
  system : d.system.Inv ecfg
  received : d.received <+: d.written
  early : d.system.server.opened < d.sid → d.received = []
  followed : ∃ n outs seq rest alive, d.system.Followed d.sid d.received d.heard n outs seq rest alive

variable {ecfg : Engine.Config} {d : Dialog}

theorem init_inv (sid : Nat) (scfg : Server.Config) (ecfg : Engine.Config) (ringLog2 listenFd mdListenFd : Nat) :
    Inv ecfg { sid := sid, system := System.init scfg ecfg ringLog2 listenFd mdListenFd } := by
  have hinv := System.init_inv scfg ecfg ringLog2 listenFd mdListenFd
  have hopened : (System.init scfg ecfg ringLog2 listenFd mdListenFd).server.opened = 0 :=
    congrArg Server.opened (Server.init_eq scfg listenFd mdListenFd)
  have hnobody : ∀ session, ¬ (System.init scfg ecfg ringLog2 listenFd mdListenFd).server.Met sid session := by
    intro session hmet
    have := hinv.routes.le_of_met hmet
    omega
  refine ⟨hinv, List.prefix_rfl, fun _ => rfl, 0, [], 1, [], true, List.nil_prefix, le_rfl, ?_, rfl, ?_, ?_, ?_, ?_⟩
  · exact .more (Looked.eq (.short (Nat.zero_lt_succ 7)))
  · exact fun session hmet => absurd hmet (hnobody session)
  all_goals exact fun session hopen => absurd (.inl hopen) (hnobody session)

theorem opened_le (d : Dialog) (a : Action) : d.system.server.opened ≤ (d.step a).system.server.opened := by
  cases a with
  | system a =>
      rw [step]
      split
      · exact (d.system.step_stepped a).opened_le
      · exact le_rfl
  | write bytes => exact le_rfl
  | hear n => exact le_rfl

theorem Inv.step (h : d.Inv ecfg) (a : Action) (hfew : (d.step a).system.server.opened < word32) :
    (d.step a).Inv ecfg := by
  obtain ⟨n, outs, seq, rest, alive, hfollowed⟩ := h.followed
  cases a with
  | system a =>
      rw [Dialog.step] at hfew ⊢
      split at hfew
      · rename_i hprefix
        rw [if_pos hprefix]
        have hstep := d.system.step_stepped a
        have hinv' := hstep.inv h.system hfew
        refine ⟨hinv', List.isPrefixOf_iff_prefix.1 hprefix, fun hlt => ?_,
          hfollowed.step h.system h.early a hinv'⟩
        have hlt' : d.system.server.opened < d.sid := hstep.opened_le.trans_lt hlt
        dsimp only
        rw [h.early hlt', System.reads_eq_nil h.system hlt']
        rfl
      · rename_i hprefix
        rw [if_neg hprefix]
        exact h
  | write bytes =>
      exact ⟨h.system, h.received.trans (List.prefix_append _ _), h.early, n, outs, seq, rest, alive, hfollowed⟩
  | hear k =>
      refine ⟨h.system, h.received, h.early, n, outs, seq, rest, alive, ⟨?_, hfollowed.le, hfollowed.parse,
        hfollowed.commands, hfollowed.refused, hfollowed.whole, hfollowed.place, hfollowed.closing⟩⟩
      obtain ⟨back, hback⟩ := hfollowed.heard
      change d.heard ++ (((d.system.server.sentTo d.sid).drop d.heard.length).take k) <+: d.system.server.sentTo d.sid
      rw [← hback, List.drop_left, List.prefix_append_right_inj]
      exact List.take_prefix k back

/-! ### What a client can rely on -/

/-- The messages for a session that the engine's events lead to. -/
def told (d : Dialog) : List Message := (d.system.emitted.filter fun e => e.session = d.sid).filterMap Event.private?

theorem numbered_told (d : Dialog) : numbered 1 d.told = stamped (privateFrames d.sid d.system.emitted) := by
  rw [numbered_eq_stamped, privateFrames_eq, told]

/-- Everything the client wrote has gone through the system and back to it. -/
structure Quiet (d : Dialog) : Prop where
  received : d.received = d.written
  commands : d.system.gateway.commands = []
  inbox : d.system.inbox = []
  events : d.system.thread.events = []
  outbox : d.system.outbox = []
  flushed : ∃ s, d.system.server.sessions d.sid = some s ∧ s.pending = false ∧ d.heard = s.sent

/-- The drained events are a beginning of all events, and all of them when the outbox and the engine are empty. -/
theorem Inv.drained_eq (h : d.Inv ecfg) (hquiet : d.Quiet) : d.system.server.drained = d.system.emitted := by
  have hrun := h.system.outbox
  rw [hquiet.outbox] at hrun
  have hpushes := hrun.pushes_eq
  rw [List.append_nil] at hpushes
  rw [h.system.pushed, hquiet.events, List.append_nil, ← h.system.drained, hpushes]

theorem Inv.processed_eq (h : d.Inv ecfg) (hquiet : d.Quiet) :
    (d.system.processed.map Prod.snd).filter (fun c => c.session = d.sid) = d.system.submitted d.sid := by
  have hrun := h.system.inbox
  rw [hquiet.inbox] at hrun
  have hpushes := hrun.pushes_eq
  rw [List.append_nil] at hpushes
  rw [System.submitted, hquiet.commands, List.append_nil, ← h.system.taken, hpushes]

theorem Inv.mem_submitted (h : d.Inv ecfg) {x : Nat × Command} (hx : x ∈ d.system.processed) (hsid : x.2.session = d.sid) :
    x.2 ∈ d.system.submitted d.sid := by
  refine List.mem_filter.2 ⟨List.mem_append_left _ ?_, decide_eq_true hsid⟩
  apply h.system.inbox.isPrefix_pops.subset
  rw [h.system.taken]
  exact List.mem_map_of_mem hx

/-- A client that sends well-formed requests one after the other: the first of them were submitted, none is refused for its form, and what it hears are the frames of the engine's events for its session. -/
structure View (d : Dialog) (rs : List Request) (done : List Request) (ms : List Message) : Prop where
  isPrefix : done <+: rs
  submitted : d.system.submitted d.sid = done.filterMap fun r => (r.reply d.sid).command?
  heard : d.heard <+: (numbered 1 ms).flatten
  told : ms <+: d.told
  quiet : d.Quiet → d.written = (numberedRequests 1 rs).flatten → done = rs ∧ ms = d.told ∧
    d.heard = (numbered 1 ms).flatten

theorem Inv.view (h : d.Inv ecfg) {rs : List Request} (hrange : ∀ r ∈ rs, r.InRange)
    (hform : ∀ r ∈ rs, (r.reply d.sid).message? = none) (hwritten : d.written <+: (numberedRequests 1 rs).flatten) :
    ∃ done ms, d.View rs done ms := by
  obtain ⟨n, outs, seq, rest, alive, hfollowed⟩ := h.followed
  have hroutes := h.system.routes
  obtain ⟨back, hback⟩ : d.received.take n <+: (numberedRequests 1 rs).flatten :=
    (List.take_prefix n _).trans (h.received.trans hwritten)
  obtain ⟨-, done, todo, rfl, rfl, hall⟩ := parse_requests hrange (by decide) hback hfollowed.parse
  have hrefused : (done.map (Request.reply d.sid)).filterMap Reply.message? = [] := by
    rw [List.filterMap_map, List.filterMap_eq_nil_iff]
    exact fun r hr => hform r (List.mem_append_left _ hr)
  have hsubmitted : d.system.submitted d.sid = done.filterMap fun r => (r.reply d.sid).command? := by
    rw [hfollowed.commands, List.filterMap_map]
    rfl
  by_cases hmet : ∃ session, d.system.server.Met d.sid session
  · obtain ⟨session, hmet⟩ := hmet
    obtain ⟨hid, front, hfront, hrouted, hopen⟩ := hroutes.met_routed hmet
    have hheard := hfollowed.heard
    rw [hroutes.sentTo_eq hmet] at hheard
    have hqueued := Session.queued_eq_fromEngine ((hfollowed.refused session hmet).trans hrefused)
    have happended := hrouted.numbered.appended
    rw [hqueued] at happended
    have hbytes := hrouted.numbered.conserved.bytes
    rw [happended] at hbytes
    refine ⟨done, session.fromEngine, List.prefix_append _ _, hsubmitted, hheard.trans ⟨_, hbytes⟩, ?_,
      fun hquiet hall' => ?_⟩
    · rw [hrouted.fromEngine, hid]
      exact ((hfront.trans h.system.isPrefix_drained).filter _).filterMap _
    · obtain ⟨session', hsession', hpending, hheard'⟩ := hquiet.flushed
      obtain rfl := hroutes.met_unique hmet (.inl hsession')
      obtain rfl := hopen hsession'
      -- all was read and parsed, all events were drained, and no output is left
      have hwhole : back = [] := by
        rw [hfollowed.whole session hsession', List.take_length, hquiet.received, hall'] at hback
        simpa using hback
      have hleft : session.tx.drop session.txOff = [] := by
        rw [List.drop_eq_nil_iff]
        simpa [Conn.pending] using hpending
      refine ⟨by rw [hall hwhole, List.append_nil], ?_, ?_⟩
      · rw [hrouted.fromEngine, hid, h.drained_eq hquiet]
        rfl
      · rw [hheard', ← hbytes, hleft, List.append_nil]
  · have hsilent : d.heard = [] := by
      have hheard := hfollowed.heard
      rw [Server.sentTo_eq_nil fun session hsession => hmet ⟨session, hsession⟩] at hheard
      exact List.prefix_nil.1 hheard
    refine ⟨done, [], List.prefix_append _ _, hsubmitted, by rw [hsilent]; exact List.nil_prefix, List.nil_prefix, ?_⟩
    intro hquiet
    obtain ⟨session, hsession, -⟩ := hquiet.flushed
    exact absurd ⟨session, .inl hsession⟩ hmet

/-! ### What a client has handled -/

/-- The client hears nothing but what the engine's events lead to. -/
theorem View.heard_told {rs done : List Request} {ms : List Message} (h : d.View rs done ms) :
    d.heard <+: (numbered 1 d.told).flatten := by
  obtain ⟨more, hmore⟩ := h.told
  refine h.heard.trans ?_
  rw [← hmore, numbered_append, List.flatten_append]
  exact List.prefix_append _ _

@[simp] theorem step_sid (d : Dialog) (a : Action) : (d.step a).sid = d.sid := by
  cases a with
  | system a =>
      rw [step]
      split <;> rfl
  | _ => rfl

theorem emitted_isPrefix (d : Dialog) (a : Action) : d.system.emitted <+: (d.step a).system.emitted := by
  cases a with
  | system a =>
      rw [step]
      split
      · have hstepped := d.system.step_stepped a
        dsimp only
        generalize d.system.step a = s' at hstepped
        cases hstepped with
        | taken _ _ _ => exact List.prefix_append _ _
        | _ => exact List.prefix_rfl
      · exact List.prefix_rfl
  | write bytes => exact List.prefix_rfl
  | hear n => exact List.prefix_rfl

theorem told_isPrefix (d : Dialog) (a : Action) : d.told <+: (d.step a).told := by
  rw [told, told, step_sid]
  exact ((d.emitted_isPrefix a).filter _).filterMap _

/-- The client has handled the frames of the messages `ms`, and has the beginning of the next frame in its buffer. -/
structure Hears (d : Dialog) (ms : List Message) (rx : List UInt8) : Prop where
  heard : d.heard = (numbered 1 ms).flatten ++ rx
  told : ms <+: d.told
  short : framing.front? rx = none

variable {ms : List Message} {rx : List UInt8}

theorem Hears.step (h : d.Hears ms rx) {a : Action} (hheard : (d.step a).heard = d.heard) : (d.step a).Hears ms rx :=
  ⟨hheard.trans h.heard, h.told.trans (d.told_isPrefix a), h.short⟩

/-- A client that has heard everything has handled everything. -/
theorem Hears.eq_told (h : d.Hears ms rx) (hheard : d.heard = (numbered 1 d.told).flatten) : ms = d.told := by
  obtain ⟨more, hmore⟩ := h.told
  rw [h.heard, ← hmore, numbered_append, List.flatten_append, List.append_cancel_left_eq] at hheard
  have hshort := h.short
  cases more with
  | nil => rw [← hmore, List.append_nil]
  | cons m more =>
      have hcons := numbered_append (1 + ms.length) [m] more
      have hfront := (isFrame_make m ((1 + ms.length) % word32)).front? (numbered (1 + ms.length + 1) more).flatten
      rw [List.singleton_append] at hcons
      rw [hheard, hcons, List.flatten_append] at hshort
      have hfirst : (numbered (1 + ms.length) [m]).flatten = m.make ((1 + ms.length) % word32) := List.append_nil _
      rw [hfirst, List.length_singleton, hfront] at hshort
      cases hshort

theorem Hears.hear {σ : Type} {handle : σ → List UInt8 → Option σ} {react : σ → Message → σ} (h : d.Hears ms rx) (n : Nat)
    (hheard : (d.step (.hear n)).heard <+: (numbered 1 d.told).flatten)
    (hreact : ∀ m ∈ d.told, ∀ s seq back, handle s (m.make (seq % word32) ++ back) = some (react s m)) (s : σ) :
    ∃ got calls rest, framing.walk handle ((rx ++ d.incoming n).length + 1) s (rx ++ d.incoming n) =
        .returned (got.foldl react s) calls rest ∧ (d.step (.hear n)).Hears (ms ++ got) rest := by
  obtain ⟨more, hmore⟩ := h.told
  obtain ⟨back, hback⟩ := hheard
  change (d.heard ++ d.incoming n) ++ back = _ at hback
  rw [← hmore, numbered_append, List.flatten_append, h.heard, List.append_assoc, List.append_assoc,
    List.append_cancel_left_eq, ← List.append_assoc] at hback
  obtain ⟨got, left, calls, rest, rfl, hwalk, hrest⟩ := walk_numbered
    (fun m hm => hreact m (hmore ▸ List.mem_append_right _ hm)) hback (Nat.lt_succ_self _) s
  refine ⟨got, calls, rest, hwalk, ?_, ?_, Framing.walk_rest hwalk⟩
  · change d.heard ++ d.incoming n = _
    rw [h.heard, numbered_append, List.flatten_append, List.append_assoc, List.append_assoc]
    rw [numbered_append, List.flatten_append, ← hrest, ← List.append_assoc] at hback
    rw [List.append_cancel_right hback]
  · change ms ++ got <+: d.told
    rw [← hmore, ← List.append_assoc]
    exact List.prefix_append _ _

/-- The client has handled the frames of these events of its session, the first there were, and has the beginning of the next frame in its buffer. -/
structure Reads (d : Dialog) (events : List Event) (rx : List UInt8) : Prop where
  heard : d.heard = (stamped (events.map Event.rendering)).flatten ++ rx
  first : events <+: d.system.emitted.filter fun e => e.session = d.sid ∧ e.isMarketData = false
  short : rx.length < 8 ∨ rx.length < LittleEndian.field rx 0 2

theorem told_eq (d : Dialog) : d.told =
    (d.system.emitted.filter fun e => e.session = d.sid ∧ e.isMarketData = false).filterMap Event.private? := by
  rw [told, List.filterMap_filter, List.filterMap_filter]
  apply List.filterMap_congr
  intro e _
  have hsome := e.private?_isSome
  cases hmarket : e.isMarketData <;> simp_all

theorem Hears.reads (h : d.Hears ms rx) : ∃ events, d.Reads events rx ∧ events.filterMap Event.private? = ms := by
  obtain ⟨more, hmore⟩ := h.told
  rw [told_eq] at hmore
  obtain ⟨events, later, hsplit, rfl, -⟩ := List.filterMap_eq_append_iff.1 hmore.symm
  refine ⟨events, ⟨?_, ⟨later, hsplit.symm⟩, ?_⟩, rfl⟩
  · have hrendered : (events.filterMap Event.private?).map Message.make = events.map Event.rendering := by
      rw [← map_filter_eq Event.private?_isSome Event.make_private, List.filter_eq_self.2]
      intro e he
      have hkept := hsplit ▸ List.mem_append_left later he
      simpa using (of_decide_eq_true (List.mem_filter.1 hkept).2).2
    rw [h.heard, numbered_eq_stamped, hrendered]
  · have hshort := h.short
    rw [Framing.front?] at hshort
    split at hshort
    · exact .inl ‹_›
    · split at hshort
      · exact .inr ‹_›
      · cases hshort

end Dialog

end Matchbox
