import Matchbox.System.Routing
import Matchbox.System.Shutdown

/-!
# Every order is answered

While the gateway is in its loop and no client sends anything, nobody waits for anybody: the gateway drains the outbox in every turn of the loop, so the engine finds room. `work` bounds what is left to do, and in every `isTurn`, in which the engine takes a step and the gateway four, some of it gets done or there is none. `run_drains` is the consequence. Whatever the clients have sent before, however the two threads are interleaved and however small the rings are, all commands that were submitted are processed and all events are handed to their sessions and to the publisher.

The four steps of a round take the gateway from anywhere in its loop through `drain_engine`.
-/

namespace Matchbox

open BoundedFifo

namespace System

/-! ### Turns of the loop without input -/

/-- Nothing comes in: `stop` is not set, and no socket is ready. -/
def Action.calm : Action → Bool
  | .engine _ => true
  | .gateway env =>
      match env.polled with
      | some [] => !env.stop
      | _ => false

def Action.isEngine : Action → Bool
  | .engine _ => true
  | .gateway _ => false

/-- Enough steps for one turn, in any order. -/
def isTurn (actions : List Action) : Bool :=
  actions.all Action.calm && decide (1 ≤ actions.countP Action.isEngine) &&
    decide (4 ≤ actions.countP fun a => !a.isEngine)

/-- The steps of the gateway to the next attempt to drain. -/
def toDrain : GatewayAt → Nat
  | .drain => 0
  | .events _ => 1
  | .poll => 2
  | _ => 3

/-- The gateway is in its loop with no event to handle, and the engine has not been told to stop. -/
structure Calm (s : System) : Prop where
  place : s.gateway = .poll ∨ s.gateway = .events [] ∨ s.gateway = .drain ∨ s.gateway = .flush
  stop : s.stop = false
  thread : s.thread ≠ .exited
  bounded : s.Bounded

/-- A bound on the effective steps that are left. -/
def work (s : System) : Nat := s.remaining + (s.outbox.length + s.owed)

/-- What a step that gets nothing done leaves as it is. -/
structure Still (s s' : System) : Prop where
  inbox : s'.inbox = s.inbox
  outbox : s'.outbox = s.outbox
  thread : s'.thread = s.thread
  engine : s'.engine = s.engine
  stop : s'.stop = s.stop
  ringLog2 : s'.ringLog2 = s.ringLog2

variable {s s' s'' : System}

theorem Still.refl (s : System) : s.Still s := ⟨rfl, rfl, rfl, rfl, rfl, rfl⟩

theorem Still.trans (h : s.Still s') (h' : s'.Still s'') : s.Still s'' :=
  ⟨h'.inbox.trans h.inbox, h'.outbox.trans h.outbox, h'.thread.trans h.thread, h'.engine.trans h.engine,
    h'.stop.trans h.stop, h'.ringLog2.trans h.ringLog2⟩

theorem Still.owed (h : s.Still s') : s'.owed = s.owed := by
  rw [System.owed, System.owed, h.stop, h.engine, h.inbox, h.thread]

theorem Still.work (h : s.Still s') : s'.work = s.work := by
  rw [System.work, System.work, remaining, remaining, h.owed, h.inbox, h.thread, h.outbox]

theorem Still.waits (h : s.Still s') (hw : s'.Waits) : s.Waits := by
  cases hw with
  | full hat hfull =>
      refine .full (h.thread ▸ hat) ?_
      rw [outboxSize, h.outbox, h.ringLog2] at hfull
      exact hfull
  | idle hat hstop hinbox => exact .idle (h.thread ▸ hat) (h.stop ▸ hstop) (h.inbox ▸ hinbox)
  | exited hat => exact .exited (h.thread ▸ hat)

/-! ### One step -/

theorem Waits.step (h : s.Waits) (now : Nat) : s.step (.engine now) = s := by
  cases h with
  | full hat hfull => exact step_emit_full hat (by omega) now
  | idle hat hstop hinbox =>
      rw [System.step, engineStep, hat]
      dsimp only
      rw [if_neg (by rw [hstop]; decide), takeCommand, hinbox]
      rfl
  | exited hat => rw [System.step, engineStep, hat]

theorem engineStep_going (hstop : s.stop = false) (hthread : s.thread ≠ .exited) (now : Nat) :
    (s.step (.engine now)).thread ≠ .exited := by
  rw [System.step, engineStep]
  split
  · rw [if_neg (by rw [hstop]; decide), takeCommand]
    split
    · exact EngineAt.noConfusion
    · exact hthread
  · exact EngineAt.noConfusion
  · rw [emit]
    split
    · exact EngineAt.noConfusion
    · exact hthread
  · exact hthread

theorem pushes_engineStep (s : System) (now : Nat) : pushes (s.step (.engine now)).inboxCalls = pushes s.inboxCalls := by
  have hstepped := s.step_stepped (.engine now)
  generalize s.step (.engine now) = s' at hstepped
  cases hstepped with
  | taken _ _ _ => simp [pushes, Op.pushed?]
  | _ => rfl

/-- A step of the engine: it gets something done, or it waits and nothing changes. -/
theorem Calm.engineStep (h : s.Calm) (now : Nat) :
    (s.step (.engine now)).Calm ∧
      ((s.step (.engine now)).work < s.work ∨ s.step (.engine now) = s ∧ s.Waits) := by
  obtain ⟨hunmoved, hwaits | hless⟩ := engineStep_spec h.bounded now
  · rw [hwaits.step]
    exact ⟨h, .inr ⟨rfl, hwaits⟩⟩
  · refine ⟨⟨?_, hunmoved.stop.trans h.stop, engineStep_going h.stop h.thread now,
      (s.step_stepped (.engine now)).bounded h.bounded⟩, .inl ?_⟩
    · rw [hunmoved.gateway]
      exact h.place
    · rw [System.work, System.work, hunmoved.load]
      omega

/-- A step of the gateway: it drains an event, or it comes nearer to doing so, or there is none. -/
theorem Calm.gatewayStep (h : s.Calm) {env : Env} (ha : (Action.gateway env).calm = true) :
    (s.step (.gateway env)).Calm ∧ pushes (s.step (.gateway env)).inboxCalls = pushes s.inboxCalls ∧
      ((s.step (.gateway env)).work < s.work ∨ s.Still (s.step (.gateway env)) ∧
        (toDrain s.gateway = toDrain (s.step (.gateway env)).gateway + 1 ∨ s.outbox = [])) := by
  have hbounded := (s.step_stepped (.gateway env)).bounded h.bounded
  obtain ⟨hpolled, hstop⟩ : env.polled = some [] ∧ env.stop = false := by
    rw [Action.calm] at ha
    split at ha
    · rename_i hpolled
      exact ⟨hpolled, by simpa using ha⟩
    · cases ha
  rcases h.place with hat | hat | hat | hat
  · have hstep : s.step (.gateway env) = { s with gateway := .events [] } := by
      rw [System.step, System.gatewayStep, hat]
      dsimp only
      rw [if_neg (by rw [hstop]; decide), hpolled]
    rw [hstep] at hbounded ⊢
    refine ⟨⟨.inr (.inl rfl), h.stop, h.thread, hbounded⟩, rfl, .inr ⟨⟨rfl, rfl, rfl, rfl, rfl, rfl⟩, .inl ?_⟩⟩
    rw [hat]
    rfl
  · have hstep : s.step (.gateway env) = { s with gateway := .drain } := by rw [System.step, System.gatewayStep, hat]
    rw [hstep] at hbounded ⊢
    refine ⟨⟨.inr (.inr (.inl rfl)), h.stop, h.thread, hbounded⟩, rfl, .inr ⟨⟨rfl, rfl, rfl, rfl, rfl, rfl⟩, .inl ?_⟩⟩
    rw [hat]
    rfl
  · cases houtbox : s.outbox with
    | nil =>
        rw [step_drain_nil hat houtbox] at hbounded ⊢
        exact ⟨⟨.inr (.inr (.inr rfl)), h.stop, h.thread, hbounded⟩, rfl, .inr ⟨⟨rfl, rfl, rfl, rfl, rfl, rfl⟩, .inr rfl⟩⟩
    | cons e rest =>
        rw [step_drain hat houtbox] at hbounded ⊢
        refine ⟨⟨.inr (.inr (.inl hat)), h.stop, h.thread, hbounded⟩, rfl, .inl ?_⟩
        simp only [System.work, remaining, System.owed, houtbox, List.length_cons]
        omega
  · have hstep : s.step (.gateway env) =
        { s with
          server := (s.server.flushDirty env.writes).flushMarketData env.now env.writes
          gateway := .poll } := by rw [System.step, System.gatewayStep, hat]
    rw [hstep] at hbounded ⊢
    refine ⟨⟨.inl rfl, h.stop, h.thread, hbounded⟩, rfl, .inr ⟨⟨rfl, rfl, rfl, rfl, rfl, rfl⟩, .inl ?_⟩⟩
    rw [hat]
    rfl

theorem Calm.step (h : s.Calm) {a : Action} (ha : a.calm = true) : (s.step a).Calm := by
  cases a with
  | engine now => exact (h.engineStep now).1
  | gateway env => exact (h.gatewayStep ha).1

/-! ### One turn -/

/-- Some steps without input: something gets done, or nothing moves. In the second case an engine that had a step waits, and a gateway that came to drain found nothing. -/
theorem Calm.run (h : s.Calm) {actions : List Action} (hcalm : ∀ a ∈ actions, a.calm = true) :
    (s.run actions).Calm ∧ pushes (s.run actions).inboxCalls = pushes s.inboxCalls ∧
      ((s.run actions).work < s.work ∨ s.Still (s.run actions) ∧ (1 ≤ actions.countP Action.isEngine → s.Waits) ∧
        (toDrain s.gateway < actions.countP (fun a => !a.isEngine) → s.outbox = [])) := by
  induction actions generalizing s with
  | nil => exact ⟨h, rfl, .inr ⟨.refl s, fun hone => absurd hone (by decide), fun hlt => absurd hlt (Nat.not_lt_zero _)⟩⟩
  | cons a actions ih =>
      have hrest : ∀ b ∈ actions, b.calm = true := fun b hb => hcalm b (List.mem_cons_of_mem _ hb)
      have hcons : s.run (a :: actions) = (s.step a).run actions := rfl
      rw [hcons]
      cases a with
      | engine now =>
          obtain ⟨hnext, hless | ⟨hsame, hwaits⟩⟩ := h.engineStep now
          · obtain ⟨hrun, hpushes, hdone⟩ := ih hnext hrest
            refine ⟨hrun, hpushes.trans (pushes_engineStep s now), .inl ?_⟩
            rcases hdone with hless' | ⟨hstill, -⟩
            · omega
            · rw [hstill.work]
              exact hless
          · rw [hsame]
            obtain ⟨hrun, hpushes, hdone⟩ := ih h hrest
            have hgateway : (Action.engine now :: actions).countP (fun a => !a.isEngine) =
                actions.countP fun a => !a.isEngine := List.countP_cons_of_neg (by simp [Action.isEngine])
            rw [hgateway]
            exact ⟨hrun, hpushes, hdone.imp_right fun hstill => ⟨hstill.1, fun _ => hwaits, hstill.2.2⟩⟩
      | gateway env =>
          obtain ⟨hnext, hkeeps, hstep⟩ := h.gatewayStep (hcalm _ List.mem_cons_self)
          obtain ⟨hrun, hpushes, hdone⟩ := ih hnext hrest
          refine ⟨hrun, hpushes.trans hkeeps, ?_⟩
          rw [List.countP_cons_of_neg (show ¬ (Action.gateway env).isEngine = true by simp [Action.isEngine]),
            List.countP_cons_of_pos (by simp [Action.isEngine])]
          rcases hstep, hdone with ⟨hless | ⟨hstill, hnear⟩, hless' | ⟨hstill', hwaits, hempty⟩⟩
          · exact .inl (hless'.trans hless)
          · exact .inl (by rw [hstill'.work]; exact hless)
          · exact .inl (by rw [← hstill.work]; exact hless')
          · refine .inr ⟨hstill.trans hstill', fun hone => hstill.waits (hwaits hone), fun hlt => ?_⟩
            rcases hnear with hnear | hnone
            · rw [← hstill.outbox]
              exact hempty (by omega)
            · exact hnone

/-- Nothing is left to do. -/
structure Quiet (s : System) : Prop where
  inbox : s.inbox = []
  events : s.thread.events = []
  outbox : s.outbox = []

/-- After a turn in which nothing got done, nothing is left. -/
theorem Calm.turn (h : s.Calm) {actions : List Action} (hturn : isTurn actions = true) :
    (s.run actions).Calm ∧ pushes (s.run actions).inboxCalls = pushes s.inboxCalls ∧
      ((s.run actions).work < s.work ∨ s.Quiet) := by
  rw [isTurn, Bool.and_eq_true, Bool.and_eq_true, List.all_eq_true, decide_eq_true_eq, decide_eq_true_eq] at hturn
  obtain ⟨⟨hcalm, hengine⟩, hgateway⟩ := hturn
  obtain ⟨hrun, hpushes, hless | ⟨hstill, hwaits, hempty⟩⟩ := h.run hcalm
  · exact ⟨hrun, hpushes, .inl hless⟩
  · refine ⟨hrun, hpushes, .inr ?_⟩
    have hnear : toDrain s.gateway ≤ 3 := by
      rcases h.place with hat | hat | hat | hat <;> rw [hat] <;> decide
    have houtbox := hempty (by omega)
    cases hwaits hengine with
    | full hat hfull =>
        have hpos : 0 < s.outboxSize := Nat.two_pow_pos _
        rw [houtbox, List.length_nil] at hfull
        omega
    | idle hat hstop hinbox => exact ⟨hinbox, by rw [hat]; rfl, houtbox⟩
    | exited hat => exact absurd hat h.thread

theorem Quiet.step (hquiet : s.Quiet) (h : s.Calm) (a : Action) : (s.step a).Quiet := by
  have hstepped := s.step_stepped a
  generalize s.step a = s' at hstepped
  cases hstepped with
  | submitted hat _ => rcases h.place with h | h | h | h <;> rw [hat] at h <;> cases h
  | drained _ houtbox => exact absurd (hquiet.outbox.symm.trans houtbox) (List.cons_ne_nil _ _).symm
  | taken _ _ hinbox => exact absurd (hquiet.inbox.symm.trans hinbox) (List.cons_ne_nil _ _).symm
  | pushed hat _ =>
      have hevents := hquiet.events
      rw [hat] at hevents
      cases hevents
  | returned _ hnone => exact ⟨hquiet.inbox, hnone, hquiet.outbox⟩
  | _ => exact ⟨hquiet.inbox, hquiet.events, hquiet.outbox⟩

theorem Quiet.run (hquiet : s.Quiet) (h : s.Calm) {actions : List Action} (hcalm : ∀ a ∈ actions, a.calm = true) :
    (s.run actions).Quiet := by
  induction actions generalizing s with
  | nil => exact hquiet
  | cons a actions ih =>
      exact ih (hquiet.step h a) (h.step (hcalm a List.mem_cons_self)) fun b hb => hcalm b (List.mem_cons_of_mem _ hb)

theorem Calm.work_pos (h : s.Calm) : 0 < s.work := by
  have hthread := h.thread
  rw [work, remaining]
  cases hat : s.thread with
  | exited => exact absurd hat hthread
  | top => exact Nat.add_pos_left (Nat.succ_pos _) _
  | emit events => exact Nat.add_pos_left (Nat.succ_pos _) _

/-- As many turns as there is work. -/
theorem Calm.turns (h : s.Calm) {turns : List (List Action)} (hturns : ∀ actions ∈ turns, isTurn actions = true)
    (henough : s.work ≤ turns.length) :
    (s.run turns.flatten).Quiet ∧ pushes (s.run turns.flatten).inboxCalls = pushes s.inboxCalls := by
  induction turns generalizing s with
  | nil => exact absurd h.work_pos (Nat.not_lt.2 henough)
  | cons actions turns ih =>
      have hrest : ∀ b ∈ turns, isTurn b = true := fun b hb => hturns b (List.mem_cons_of_mem _ hb)
      have hcalm : ∀ a ∈ (actions :: turns).flatten, a.calm = true := by
        intro a ha
        obtain ⟨actions', hmem, ha⟩ := List.mem_flatten.1 ha
        have hturn := hturns actions' hmem
        rw [isTurn, Bool.and_eq_true, Bool.and_eq_true, List.all_eq_true] at hturn
        exact hturn.1.1 a ha
      obtain ⟨hrun, hpushes, hless | hquiet⟩ := h.turn (hturns actions List.mem_cons_self)
      · rw [List.flatten_cons, run_append, ← hpushes]
        rw [List.length_cons] at henough
        exact ih hrun hrest (by omega)
      · exact ⟨hquiet.run h hcalm, (h.run hcalm).2.1⟩

/-! ### From any state -/

/-- `stop_` is set only when `run` has returned, and the engine exits only when it is set. -/
structure Going (s : System) : Prop where
  gateway : s.stop = true → s.gateway = .stopped
  thread : s.thread = .exited → s.stop = true

theorem Looped.stop {env : Env} {s' : System} (h : Looped s env s') (hgoing : s.gateway ≠ .stopped) :
    s'.stop = s.stop := by
  cases h with
  | returned hat => exact absurd hat hgoing
  | _ => rfl

theorem Going.step (h : s.Going) (a : Action) : (s.step a).Going := by
  cases a with
  | engine now =>
      have hkeeps : (s.step (.engine now)).gateway = s.gateway ∧ (s.step (.engine now)).stop = s.stop := by
        have hstepped := s.step_stepped (.engine now)
        generalize s.step (.engine now) = s' at hstepped
        cases hstepped <;> exact ⟨rfl, rfl⟩
      refine ⟨by rw [hkeeps.1, hkeeps.2]; exact h.gateway, fun hexited => ?_⟩
      rw [hkeeps.2]
      by_contra hstop
      rw [Bool.not_eq_true] at hstop
      exact engineStep_going hstop (fun hat => by rw [h.thread hat] at hstop; cases hstop) now hexited
  | gateway env =>
      have hthread : (s.step (.gateway env)).thread = s.thread := by
        have hstepped := s.step_stepped (.gateway env)
        generalize s.step (.gateway env) = s' at hstepped
        cases hstepped <;> rfl
      by_cases hat : s.gateway = .stopped
      · rw [step_returned hat]
        exact ⟨fun _ => hat, fun _ => rfl⟩
      · have hstop : s.stop = false := by
          rw [← Bool.not_eq_true]
          exact fun hstop => hat (h.gateway hstop)
        have hstop' := ((s.gatewayStep_looped env).stop hat).trans hstop
        refine ⟨fun hset => ?_, fun hexited => ?_⟩
        · rw [hstop'] at hset
          cases hset
        · rw [hthread] at hexited
          rw [h.thread hexited] at hstop
          cases hstop

theorem run_going (scfg : Server.Config) (ecfg : Engine.Config) (ringLog2 listenFd mdListenFd : Nat) (actions : List Action) :
    ((init scfg ecfg ringLog2 listenFd mdListenFd).run actions).Going := by
  induction actions using List.reverseRecOn with
  | nil => exact ⟨fun h => Bool.noConfusion h, fun h => EngineAt.noConfusion h⟩
  | append_singleton actions a ih =>
      rw [run_concat]
      exact ih.step a

/-- Everything submitted has been processed, and every event has been handed on. -/
structure Answered (ecfg : Engine.Config) (s t : System) : Prop where
  processed : t.processed.map Prod.snd = pushes s.inboxCalls
  emitted : t.emitted = ((Engine.init ecfg).log t.processed).map fun em => em.event
  /-- An open session has been sent the frames of all events for it. -/
  sessions : ∀ sid session, t.server.sessions sid = some session → session.id = sid ∧ session.Delivered t.emitted
  /-- All Trade and Top events are published. -/
  published : t.server.publisher.published.map Wire.Message.make = Wire.marketFrames t.emitted

theorem Quiet.answered {ecfg : Engine.Config} {t : System} (hquiet : t.Quiet) (h : t.Inv ecfg)
    (hpushes : pushes t.inboxCalls = pushes s.inboxCalls) : Answered ecfg s t := by
  have hdrained : t.server.drained = t.emitted := by
    have hflow := h.outbox.pushes_eq
    rw [hquiet.outbox, List.append_nil, h.drained] at hflow
    rw [h.pushed, hquiet.events, List.append_nil, hflow]
  refine ⟨?_, h.log, fun sid session hs => ?_, ?_⟩
  · have hflow := h.inbox.pushes_eq
    rw [hquiet.inbox, List.append_nil, h.taken] at hflow
    exact hflow.symm.trans hpushes
  · have hrouted := h.routes.current hs
    rw [hdrained] at hrouted
    exact ⟨h.routes.id hs, hrouted.delivered⟩
  · rw [h.routes.published, hdrained, marketFrames_eq]

/-- Once the clients pause, every submitted command is processed and answered within as many turns as there is work, whatever the ring sizes and in every interleaving. -/
theorem run_drains (scfg : Server.Config) (ecfg : Engine.Config) (ringLog2 listenFd mdListenFd : Nat)
    (before : List Action) (turns : List (List Action)) :
    let s := (init scfg ecfg ringLog2 listenFd mdListenFd).run before
    let t := s.run turns.flatten
    s.gateway = .poll → (∀ actions ∈ turns, isTurn actions = true) → s.work ≤ turns.length →
      t.server.opened < 2 ^ 32 → Answered ecfg s t := by
  intro s t hat hturns henough hfew
  have hgoing : s.Going := run_going scfg ecfg ringLog2 listenFd mdListenFd before
  have hstop : s.stop = false := by
    rw [← Bool.not_eq_true]
    intro hstop
    exact GatewayAt.noConfusion (hat.symm.trans (hgoing.gateway hstop))
  have hcalm : s.Calm := by
    refine ⟨.inl hat, hstop, fun hexited => ?_, (init_bounded scfg ecfg ringLog2 listenFd mdListenFd).run before⟩
    rw [hgoing.thread hexited] at hstop
    cases hstop
  obtain ⟨hquiet, hpushes⟩ := hcalm.turns hturns henough
  have hrun : t = (init scfg ecfg ringLog2 listenFd mdListenFd).run (before ++ turns.flatten) := (run_append _ _ _).symm
  have hinv : t.Inv ecfg := by
    rw [hrun] at hfew ⊢
    exact run_inv scfg ecfg ringLog2 listenFd mdListenFd (before ++ turns.flatten) hfew
  exact hquiet.answered hinv hpushes

/-- An order waits in a ring of one, and the gateway is back at the top of its loop. -/
def waiting : List Action :=
  let idle (n : Nat) : List Action := List.replicate n (.gateway {})
  [.gateway { polled := some [{ fd := 3, readable := true }] }, .gateway {}, .gateway { accepted := .connected 5 }] ++
    idle 4 ++ [.gateway { polled := some [{ fd := 5, readable := true }] },
      .gateway { reads := [.bytes ((Wire.Request.newOrder ⟨1, 0, 0, 0, 0, 5, 1⟩).make 1)] }] ++ idle 5

theorem run_drains_waiting :
    let s := (init {} { maxPrice := 10, maxOrders := 4 } 0 3 4).run waiting
    let turns := List.replicate 7 [.gateway {}, .engine 7, .gateway {}, .gateway {}, .gateway {}]
    let t := s.run turns.flatten
    s.gateway = .poll ∧ (∀ actions ∈ turns, isTurn actions = true) ∧ s.work ≤ turns.length ∧ t.server.opened < 2 ^ 32 ∧
      Answered { maxPrice := 10, maxOrders := 4 } s t ∧ s.inbox.length = 1 ∧
      (t.server.sessions 1).map (fun session => session.fromEngine) = some [.ack 1 (2 ^ 32)] ∧
      t.server.publisher.published = [.top 0 5 (-1) 1 0] := by
  intro s turns t
  have hat : s.gateway = .poll := by rfl
  have hturns : ∀ actions ∈ turns, isTurn actions = true := by
    intro actions hmem
    rw [List.eq_of_mem_replicate hmem]
    rfl
  have henough : s.work ≤ turns.length := by decide +kernel
  have hfew : t.server.opened < 2 ^ 32 := by decide +kernel
  exact ⟨hat, hturns, henough, hfew,
    run_drains {} { maxPrice := 10, maxOrders := 4 } 0 3 4 waiting turns hat hturns henough hfew, by decide +kernel,
    by decide +kernel, by decide +kernel⟩

end System

end Matchbox
