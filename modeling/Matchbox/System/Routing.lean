import Matchbox.Gateway.Routing
import Matchbox.Safety.Owner
import Matchbox.System.Step

/-!
# From the wire to the engine and back

Two threads, two rings and any number of sessions that come and go. Both rings keep their order, the engine reports to the sessions whose commands it was given, and the gateway hands every event on to its session. Put together over any interleaving: nothing is lost, duplicated or sent to the wrong client.
-/

namespace Matchbox

open BoundedFifo Wire

theorem Engine.run_concat (e : Engine) (cmds : List (Nat × Command)) (now : Nat) (c : Command) :
    e.run (cmds ++ [(now, c)]) = ((e.run cmds).process now c).1 := by
  induction cmds generalizing e with
  | nil => rfl
  | cons cmd cmds ih => exact ih _

theorem Engine.log_concat (e : Engine) (cmds : List (Nat × Command)) (now : Nat) (c : Command) :
    e.log (cmds ++ [(now, c)]) = e.log cmds ++ ((e.run cmds).process now c).2 := by
  induction cmds generalizing e with
  | nil => exact List.append_nil _
  | cons cmd cmds ih =>
      change (e.process cmd.1 cmd.2).2 ++ _ = ((e.process cmd.1 cmd.2).2 ++ _) ++ _
      rw [List.append_assoc]
      exact congrArg _ (ih _)

namespace Server

theorem Noted.drained {sv sv' : Server} {e : Event} (h : sv.Noted e sv') : sv'.drained = sv.drained ++ [e] := by
  cases h <;> rfl

theorem Noted.opened {sv sv' : Server} {e : Event} (h : sv.Noted e sv') : sv'.opened = sv.opened := by
  cases h <;> rfl

theorem Routes.id_le {sv : Server} (h : sv.Routes) {sid : Nat} {s : Session} (hs : sv.sessions sid = some s) :
    s.id ≤ sv.opened := by
  rw [h.id hs]
  exact ((h.accepted sid).2 (Or.inl (by rw [hs]; rfl))).2

end Server

namespace System

/-- What holds between the rings, the engine and the gateway after every step. -/
structure Inv (ecfg : Engine.Config) (s : System) : Prop where
  routes : s.server.Routes
  inbox : Run s.inboxSize [] s.inboxCalls s.inbox
  outbox : Run s.outboxSize [] s.outboxCalls s.outbox
  taken : pops s.inboxCalls = s.processed.map Prod.snd
  drained : pops s.outboxCalls = s.server.drained
  pushed : s.emitted = pushes s.outboxCalls ++ s.thread.events
  engine : s.engine = (Engine.init ecfg).run s.processed
  log : s.emitted = ((Engine.init ecfg).log s.processed).map fun em => em.event
  serves : s.engine.Serves s.server.opened
  commands : ∀ c ∈ s.inbox ++ s.gateway.commands, c.session ≤ s.server.opened
  addressed : ∀ e ∈ s.emitted, e.session ≤ s.server.opened

variable {ecfg : Engine.Config} {s s' : System} {a : Action}

theorem init_inv (scfg : Server.Config) (ecfg : Engine.Config) (ringLog2 listenFd mdListenFd : Nat) :
    (init scfg ecfg ringLog2 listenFd mdListenFd).Inv ecfg where
  routes := .init scfg listenFd mdListenFd
  inbox := .refl []
  outbox := .refl []
  taken := rfl
  drained := by rw [init, Server.init_eq]; rfl
  pushed := rfl
  engine := rfl
  log := rfl
  serves := .init _ ecfg
  commands := fun _ hc => absurd hc List.not_mem_nil
  addressed := fun _ he => absurd he List.not_mem_nil

theorem Stepped.opened_le (h : Stepped s a s') : s.server.opened ≤ s'.server.opened := by
  cases h with
  | handled _ _ htends _ _ => exact htends.stream.opened.ge
  | tended htends _ => exact htends.stream.opened.ge
  | accepted _ =>
      rw [(s.server.acceptOne_stream _).opened]
      exact Nat.le_succ _
  | drained _ _ => exact (s.server.onEvent_noted _).opened.ge
  | _ => exact le_rfl

theorem Inv.tends (h : s.Inv ecfg) {sv : Server} (htends : s.server.Tends sv) {g : GatewayAt}
    (hknown : ∀ c ∈ g.commands, s.Known c) (stop : Bool) :
    Inv ecfg { s with server := sv, gateway := g, stop := stop } where
  routes := h.routes.tends htends
  inbox := h.inbox
  outbox := h.outbox
  taken := h.taken
  drained := by
    rw [htends.stream.drained]
    exact h.drained
  pushed := h.pushed
  engine := h.engine
  log := h.log
  serves := by
    rw [htends.stream.opened]
    exact h.serves
  commands := fun c hc => by
    rw [htends.stream.opened]
    rcases List.mem_append.1 hc with hmem | hmem
    · exact h.commands c (List.mem_append_left _ hmem)
    · obtain ⟨sv₁, sid, session, htends₁, hsession, hid⟩ := hknown c hmem
      rw [hid, ← htends₁.stream.opened]
      exact (h.routes.tends htends₁).id_le hsession
  addressed := by
    rw [htends.stream.opened]
    exact h.addressed

theorem Inv.accepted (h : s.Inv ecfg) (fd : Nat) (hfew : s.server.opened + 1 < word32) :
    Inv ecfg { s with server := s.server.acceptOne fd .session } where
  routes := h.routes.acceptOne fd hfew
  inbox := h.inbox
  outbox := h.outbox
  taken := h.taken
  drained := by
    rw [(s.server.acceptOne_stream fd).drained]
    exact h.drained
  pushed := h.pushed
  engine := h.engine
  log := h.log
  serves := by
    rw [(s.server.acceptOne_stream fd).opened]
    exact h.serves.mono (Nat.le_succ _)
  commands := fun c hc => by
    rw [(s.server.acceptOne_stream fd).opened]
    exact (h.commands c hc).trans (Nat.le_succ _)
  addressed := fun e he => by
    rw [(s.server.acceptOne_stream fd).opened]
    exact (h.addressed e he).trans (Nat.le_succ _)

theorem Inv.submitted (h : s.Inv ecfg) {sid : Nat} {c : Command} {cmds : List Command} {ok : Bool} {evs : List PollEvent}
    (hat : s.gateway = .submit sid (c :: cmds) ok evs) (hroom : s.inbox.length < s.inboxSize) :
    Inv ecfg { s with
      inbox := s.inbox ++ [c]
      gateway := .submit sid cmds ok evs
      inboxCalls := s.inboxCalls ++ [.pushed c] } where
  routes := h.routes
  inbox := h.inbox.trans (Step.pushed c hroom).run
  outbox := h.outbox
  taken := by
    rw [pops_append, ← h.taken]
    exact List.append_nil _
  drained := h.drained
  pushed := h.pushed
  engine := h.engine
  log := h.log
  serves := h.serves
  commands := fun c' hc' => by
    refine h.commands c' ?_
    rw [hat]
    rw [List.append_assoc] at hc'
    exact hc'
  addressed := h.addressed

theorem Inv.popped (h : s.Inv ecfg) {e : Event} {rest : List Event} (houtbox : s.outbox = e :: rest) :
    Inv ecfg { s with
      outbox := rest
      server := s.server.onEvent e
      outboxCalls := s.outboxCalls ++ [.popped e] } := by
  have hrun := h.outbox
  rw [houtbox] at hrun
  have hemitted : e ∈ s.emitted := by
    rw [h.pushed, hrun.pushes_eq]
    simp
  have hnoted := s.server.onEvent_noted e
  refine ⟨h.routes.noted (h.addressed e hemitted) hnoted, h.inbox, hrun.trans (Step.popped e rest).run, h.taken, ?_, ?_,
    h.engine, h.log, ?_, ?_, ?_⟩
  · rw [pops_append, h.drained, hnoted.drained]
    rfl
  · rw [pushes_append]
    change s.emitted = pushes s.outboxCalls ++ [] ++ s.thread.events
    rw [List.append_nil]
    exact h.pushed
  · rw [hnoted.opened]
    exact h.serves
  · rw [hnoted.opened]
    exact h.commands
  · rw [hnoted.opened]
    exact h.addressed

theorem Inv.process (h : s.Inv ecfg) (hat : s.thread = .top) {c : Command} {rest : List Command}
    (hinbox : s.inbox = c :: rest) (now : Nat) :
    Inv ecfg { s with
      inbox := rest
      engine := (s.engine.process now c).1
      thread := .emit ((s.engine.process now c).2.map fun em => em.event)
      inboxCalls := s.inboxCalls ++ [.popped c]
      processed := s.processed ++ [(now, c)]
      emitted := s.emitted ++ (s.engine.process now c).2.map fun em => em.event } := by
  have hrun := h.inbox
  rw [hinbox] at hrun
  have hcommands := h.commands
  rw [hinbox] at hcommands
  obtain ⟨hserves, haddressed⟩ := h.serves.process now (hcommands c List.mem_cons_self)
  refine ⟨h.routes, hrun.trans (Step.popped c rest).run, h.outbox, ?_, h.drained, ?_, ?_, ?_, hserves,
    fun c' hc' => hcommands c' (List.mem_cons_of_mem _ hc'), fun e he => ?_⟩
  · rw [pops_append, h.taken, List.map_append]
    rfl
  · have hpushed := h.pushed
    rw [hat] at hpushed
    rw [hpushed]
    simp [EngineAt.events]
  · rw [Engine.run_concat, ← h.engine]
  · rw [Engine.log_concat, ← h.engine, List.map_append, ← h.log]
  · rcases List.mem_append.1 he with hmem | hmem
    · exact h.addressed e hmem
    · obtain ⟨em, hem, rfl⟩ := List.mem_map.1 hmem
      exact haddressed em hem

theorem Inv.emit (h : s.Inv ecfg) {e : Event} {events : List Event} (hat : s.thread = .emit (e :: events))
    (hroom : s.outbox.length < s.outboxSize) :
    Inv ecfg { s with
      outbox := s.outbox ++ [e]
      thread := .emit events
      outboxCalls := s.outboxCalls ++ [.pushed e] } := by
  refine ⟨h.routes, h.inbox, h.outbox.trans (Step.pushed e hroom).run, h.taken, ?_, ?_, h.engine, h.log, h.serves,
    h.commands, h.addressed⟩
  · rw [pops_append, h.drained]
    exact List.append_nil _
  · have hpushed := h.pushed
    rw [hat] at hpushed
    rw [hpushed, pushes_append, List.append_assoc]
    rfl

theorem Stepped.inv (h : Stepped s a s') (hinv : s.Inv ecfg) (hfew : s'.server.opened < word32) : s'.Inv ecfg := by
  cases h with
  | handled _ _ htends _ hknown => exact hinv.tends htends hknown s.stop
  | tended htends hnone => exact hinv.tends htends (fun c hc => absurd (hnone ▸ hc) List.not_mem_nil) _
  | accepted _ =>
      rw [(s.server.acceptOne_stream _).opened] at hfew
      exact hinv.accepted _ hfew
  | submitted hat hroom => exact hinv.submitted hat hroom
  | drained _ houtbox => exact hinv.popped houtbox
  | taken hat _ hinbox => exact hinv.process hat hinbox _
  | pushed hat hroom => exact hinv.emit hat hroom
  | returned hdone hnone =>
      have hpushed := hinv.pushed
      rw [hdone, ← hnone] at hpushed
      exact ⟨hinv.routes, hinv.inbox, hinv.outbox, hinv.taken, hinv.drained, hpushed, hinv.engine, hinv.log, hinv.serves,
        hinv.commands, hinv.addressed⟩
  | waited => exact hinv

theorem run_inv (scfg : Server.Config) (ecfg : Engine.Config) (ringLog2 listenFd mdListenFd : Nat) (actions : List Action)
    (hfew : ((init scfg ecfg ringLog2 listenFd mdListenFd).run actions).server.opened < word32) :
    ((init scfg ecfg ringLog2 listenFd mdListenFd).run actions).Inv ecfg := by
  induction actions using List.reverseRecOn with
  | nil => exact init_inv scfg ecfg ringLog2 listenFd mdListenFd
  | append_singleton actions a ih =>
      rw [run_concat] at hfew ⊢
      have hstep := step_stepped ((init scfg ecfg ringLog2 listenFd mdListenFd).run actions) a
      exact hstep.inv (ih (hstep.opened_le.trans_lt hfew)) hfew

end System

/-- A session has been sent the frames of the events for it: its frames carry the numbers 1, 2, 3, ..., and those from the engine tell of these events, one after the other. -/
structure Session.Delivered (drained : List Event) (s : Session) : Prop where
  numbered : s.Numbered
  appended : s.appended = stamped (s.queued.map fun x => x.2.make)
  fromEngine : s.fromEngine.map Message.make = privateFrames s.id drained

theorem Session.Routed.delivered {drained : List Event} {s : Session} (h : s.Routed drained) : s.Delivered drained where
  numbered := h.numbered
  appended := by
    rw [h.numbered.appended, numbered_eq_stamped, List.map_map]
    rfl
  fromEngine := by rw [h.fromEngine, privateFrames_eq]

theorem ReplayRing.holds_foldl {k : Nat} {ms : List Message} (hfew : ms.length < word32) :
    (ms.foldl ReplayRing.append { capacityLog2 := k }).Holds ms := by
  induction ms using List.reverseRecOn with
  | nil => exact .init k
  | append_singleton ms m ih =>
      rw [List.length_append, List.length_singleton] at hfew
      rw [List.foldl_append]
      exact (ih (by omega)).append hfew m

namespace System

variable {ecfg : Engine.Config} {s : System}

/-- Nothing is lost, duplicated, reordered or sent to the wrong client. -/
structure Faithful (ecfg : Engine.Config) (s : System) : Prop where
  /-- The engine has processed the first of the submitted commands, each once. -/
  processed : s.processed.map Prod.snd <+: pushes s.inboxCalls
  engine : s.engine = (Engine.init ecfg).run s.processed
  emitted : s.emitted = ((Engine.init ecfg).log s.processed).map fun em => em.event
  /-- The frames appended to the replay ring are those of the first Trade and Top events. -/
  published : s.server.publisher.published.map Message.make <+: marketFrames s.emitted
  ring : s.server.publisher.ring =
    s.server.publisher.published.foldl ReplayRing.append { capacityLog2 := s.server.publisher.cfg.ringLog2 }
  held : s.server.publisher.published.length < word32 → ∀ seq, s.server.publisher.ring.holds seq = true →
    ∃ frame, (marketFrames s.emitted)[seq - 1]? = some frame ∧ s.server.publisher.ring.frame seq = frame seq
  drained : s.server.drained <+: s.emitted
  /-- The sessions are those accepted, numbered from one, each either open or closed once. -/
  accepted : ∀ id, (1 ≤ id ∧ id ≤ s.server.opened) ↔ ((s.server.sessions id).isSome ∨ id ∈ s.server.closedIds)
  gone : ∀ id ∈ s.server.closedIds, s.server.sessions id = none
  once : s.server.closedIds.Nodup
  /-- An open session was sent the drained events with its identifier. -/
  current : ∀ id session, s.server.sessions id = some session → session.id = id ∧ session.Delivered s.server.drained
  /-- A closed session was sent those drained before it was closed. -/
  closed : ∀ x ∈ s.server.closed, x.1 <+: s.server.drained ∧ x.2.Delivered x.1
  /-- The frames on a session are numbered 1, 2, 3, ... in their headers. -/
  seq : ∀ session, ((∃ id, s.server.sessions id = some session) ∨ ∃ front, (front, session) ∈ s.server.closed) →
    ∀ i frame, session.appended[i]? = some frame → (Header.ofBytes frame).seq = (i + 1) % word32

theorem Inv.isPrefix_drained (h : s.Inv ecfg) : s.server.drained <+: s.emitted := by
  rw [← h.drained, h.pushed]
  exact h.outbox.isPrefix_pops.trans (List.prefix_append _ _)

theorem Inv.published_isPrefix (h : s.Inv ecfg) :
    s.server.publisher.published <+: s.emitted.filterMap Event.marketData? := by
  rw [h.routes.published]
  exact h.isPrefix_drained.filterMap _

theorem Inv.faithful (h : s.Inv ecfg) : s.Faithful ecfg where
  processed := by
    rw [← h.taken]
    exact h.inbox.isPrefix_pops
  engine := h.engine
  emitted := h.log
  published := by
    rw [marketFrames_eq]
    exact h.published_isPrefix.map _
  ring := h.routes.ring
  held := by
    intro hfew seq hseq
    have hholds := ReplayRing.holds_foldl (k := s.server.publisher.cfg.ringLog2) hfew
    rw [← h.routes.ring] at hholds
    obtain ⟨m, hm, hframe⟩ := hholds.bytes seq hseq
    obtain ⟨more, hmore⟩ := h.published_isPrefix
    have hlt := (List.getElem?_eq_some_iff.1 hm).1
    refine ⟨m.make, ?_, hframe⟩
    rw [marketFrames_eq, ← hmore, List.getElem?_map, List.getElem?_append_left hlt, hm]
    rfl
  drained := h.isPrefix_drained
  accepted := h.routes.accepted
  gone := h.routes.gone
  once := h.routes.once
  current := fun id session hs => ⟨h.routes.id hs, (h.routes.current hs).delivered⟩
  closed := fun x hx => ⟨(h.routes.closed x hx).1, (h.routes.closed x hx).2.delivered⟩
  seq := by
    rintro session (⟨id, hs⟩ | ⟨front, hmem⟩) i frame hframe
    · exact (h.routes.current hs).numbered.seq hframe
    · exact (h.routes.closed _ hmem).2.numbered.seq hframe

/-- After every interleaving of the two threads in which fewer than `2 ^ 32` sessions were accepted. -/
theorem run_faithful (scfg : Server.Config) (ecfg : Engine.Config) (ringLog2 listenFd mdListenFd : Nat)
    (actions : List Action)
    (hfew : ((init scfg ecfg ringLog2 listenFd mdListenFd).run actions).server.opened < 2 ^ 32) :
    ((init scfg ecfg ringLog2 listenFd mdListenFd).run actions).Faithful ecfg :=
  (run_inv scfg ecfg ringLog2 listenFd mdListenFd actions hfew).faithful

/-- A client sends a cancel and hangs up, and another one connects under the same descriptor before the answer is drained. Then it sends a cancel of its own, with the tag 7. -/
def reuse : List Action :=
  let accept : List Action :=
    [.gateway { polled := some [{ fd := 3, readable := true }] }, .gateway {}, .gateway { accepted := .connected 5 },
      .gateway {}]
  let around : List Action := [.gateway {}, .gateway {}, .gateway {}]
  let read (chunk : List UInt8) : List Action :=
    [.gateway { polled := some [{ fd := 5, readable := true }] }, .gateway { reads := [.bytes chunk] }]
  accept ++ around ++ read ([24, 0, 2, 1, 1, 0, 0, 0] ++ List.replicate 16 0) ++ [.gateway {}, .gateway {}] ++ around ++
    read [] ++ [.gateway {}] ++ around ++ accept ++ [.engine 0, .engine 0, .gateway {}] ++ around ++
    read ([24, 0, 2, 1, 1, 0, 0, 0, 7] ++ List.replicate 15 0) ++ [.gateway {}, .engine 0, .engine 0, .engine 0] ++ around

/-- The new client gets nothing of the old one's, and the answer to its own command. -/
theorem run_faithful_reuse :
    ((init {} {} 0 3 4).run reuse).server.opened < 2 ^ 32 ∧ ((init {} {} 0 3 4).run reuse).Faithful {} ∧
      ((init {} {} 0 3 4).run reuse).server.drained.map (fun e => e.session) = [1, 2] ∧
      (((init {} {} 0 3 4).run reuse).server.sessions 2).map (fun session => session.appended) =
        some (stamped [rejectFrame 7 RejectReason.unknownOrder.number]) := by
  have hfew : ((init {} {} 0 3 4).run reuse).server.opened < 2 ^ 32 := by decide +kernel
  exact ⟨hfew, run_faithful {} {} 0 3 4 reuse hfew, by decide +kernel, by decide +kernel⟩

end System

end Matchbox
