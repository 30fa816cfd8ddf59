import Matchbox.Spsc.Call
import Matchbox.System.Routing

/-!
# The two threads over the real rings

`System` takes each call on a ring as one step of the sequential queue. Here the rings are those of `spsc_queue.hpp`: a thread that pushes or pops goes through the accesses of the call one by one, and the other thread may step between any two of them. `run_coarsens` says that the two threads cannot tell the difference, and `run_realizes` that nothing is lost by the coarser steps: what the two threads do over sequential queues they can also do over the real rings.

Only the flag that stops the engine needs care. It may be stored while the engine is inside a pop that it began before, and the matching run of `System` stores it after that pop.
-/

namespace Matchbox

open BoundedFifo

structure Rings where
  ringLog2 : Nat
  server : Server
  gateway : GatewayAt := .poll
  engine : Engine
  thread : EngineAt := .top
  stop : Bool := false
  inbox : SpscQueue.Threads Command
  outbox : SpscQueue.Threads Event

namespace Rings

/-- Both threads started, nothing received. The buffers hold default values. -/
def init (scfg : Server.Config) (ecfg : Engine.Config) (ringLog2 listenFd mdListenFd : Nat) : Rings where
  ringLog2 := ringLog2
  server := Server.init scfg listenFd mdListenFd
  engine := Engine.init ecfg
  inbox := SpscQueue.init ringLog2 {}
  outbox := SpscQueue.init (ringLog2 + 2) {}

/-- The data of the two threads, without what is in the rings. -/
def threads (s : Rings) : System where
  ringLog2 := s.ringLog2
  server := s.server
  gateway := s.gateway
  engine := s.engine
  thread := s.thread
  stop := s.stop

/-- `Server::submit`: the next access of the `try_push` in progress, or a new attempt. -/
def submit (s : Rings) (sid : Nat) (c : Command) (cmds : List Command) (ok : Bool) (evs : List PollEvent) : Rings :=
  match s.inbox.producer with
  | .idle => { s with inbox := (s.inbox.step (.push c)).1 }
  | _ =>
      let r := s.inbox.tryPush
      match r.2 with
      | [.pushed _] => { s with inbox := r.1, gateway := .submit sid cmds ok evs }
      | _ => { s with inbox := r.1 }

/-- `drain_engine`: the next access of the `try_pop` in progress, or the next turn of the loop. -/
def drainOne (s : Rings) : Rings :=
  match s.outbox.consumer with
  | .idle => { s with outbox := (s.outbox.step .pop).1 }
  | _ =>
      let r := s.outbox.tryPop
      match r.2 with
      | [.popped e] => { s with outbox := r.1, server := s.server.onEvent e }
      | [.empty] => { s with outbox := r.1, gateway := .flush }
      | _ => { s with outbox := r.1 }

def gatewayStep (s : Rings) (env : Env) : Rings :=
  match s.gateway with
  | .submit sid (c :: cmds) ok evs => s.submit sid c cmds ok evs
  | .drain => s.drainOne
  -- everything else touches the gateway's own data only
  | _ =>
      let t := s.threads.gatewayStep env
      { s with server := t.server, gateway := t.gateway, stop := t.stop }

/-- `EngineThread::on_event`: the next access of the `try_push` in progress, or a new attempt. -/
def emit (s : Rings) (e : Event) (events : List Event) : Rings :=
  match s.outbox.producer with
  | .idle => { s with outbox := (s.outbox.step (.push e)).1 }
  | _ =>
      let r := s.outbox.tryPush
      match r.2 with
      | [.pushed _] => { s with outbox := r.1, thread := .emit events }
      | _ => { s with outbox := r.1 }

/-- The loop of `EngineThread::loop`: it looks at `stop_` before a `try_pop`, not during one. -/
def takeCommand (s : Rings) (now : Nat) : Rings :=
  match s.inbox.consumer with
  | .idle => if s.stop then { s with thread := .exited } else { s with inbox := (s.inbox.step .pop).1 }
  | _ =>
      let r := s.inbox.tryPop
      match r.2 with
      | [.popped c] =>
          let o := s.engine.process now c
          { s with inbox := r.1, engine := o.1, thread := .emit (o.2.map fun em => em.event) }
      | _ => { s with inbox := r.1 }

def engineStep (s : Rings) (now : Nat) : Rings :=
  match s.thread with
  | .top => s.takeCommand now
  | .emit [] => { s with thread := .top }
  | .emit (e :: events) => s.emit e events
  | .exited => s

def step (s : Rings) : System.Action → Rings
  | .gateway env => s.gatewayStep env
  | .engine now => s.engineStep now

/-- Any interleaving of the two threads. -/
def run (s : Rings) (actions : List System.Action) : Rings := actions.foldl step s

@[simp] theorem run_concat (s : Rings) (actions : List System.Action) (a : System.Action) :
    s.run (actions ++ [a]) = (s.run actions).step a := by
  simp [run]

/-- The state of `System` that the two threads see. -/
structure Refines (t : System) (s : Rings) : Prop where
  ringLog2 : t.ringLog2 = s.ringLog2
  server : t.server = s.server
  gateway : t.gateway = s.gateway
  engine : t.engine = s.engine
  thread : t.thread = s.thread
  inbox : SpscQueue.Holds s.ringLog2 t.inbox s.inbox
  outbox : SpscQueue.Holds (s.ringLog2 + 2) t.outbox s.outbox
  /-- A call is in progress only where the thread is at it. -/
  submits : s.inbox.producer.value? = none ∨ s.inbox.producer.value? = s.gateway.commands.head?
  emits : s.outbox.producer.value? = none ∨ s.outbox.producer.value? = s.thread.events.head?
  takes : 0 < s.inbox.consumer.left → s.thread = .top ∧ t.stop = false
  drains : 0 < s.outbox.consumer.left → s.gateway = .drain
  /-- The flag may be stored while the engine is inside a pop that it began before. -/
  stop : t.stop = s.stop ∨ s.gateway = .stopped ∧ 0 < s.inbox.consumer.left

theorem init_refines (scfg : Server.Config) (ecfg : Engine.Config) (ringLog2 listenFd mdListenFd : Nat) :
    Refines (.init scfg ecfg ringLog2 listenFd mdListenFd) (init scfg ecfg ringLog2 listenFd mdListenFd) where
  ringLog2 := rfl
  server := rfl
  gateway := rfl
  engine := rfl
  thread := rfl
  inbox := SpscQueue.holds_init ..
  outbox := SpscQueue.holds_init ..
  submits := .inl rfl
  emits := .inl rfl
  takes h := absurd h (Nat.lt_irrefl 0)
  drains h := absurd h (Nat.lt_irrefl 0)
  stop := .inl rfl

/-- The accesses that are left of the gateway's call, at most; none if it is not in one. -/
def gatewayLeft (s : Rings) : Nat := s.inbox.producer.left + s.outbox.consumer.left

/-- The accesses that are left of the engine's call, at most; none if it is not in one. -/
def engineLeft (s : Rings) : Nat := s.outbox.producer.left + s.inbox.consumer.left

/-- The accesses that are left of the call of the thread that takes this step. -/
def left (s : Rings) : System.Action → Nat
  | .gateway _ => s.gatewayLeft
  | .engine _ => s.engineLeft

/-- The accesses that are left of the other thread's call. -/
def otherLeft (s : Rings) : System.Action → Nat
  | .gateway _ => s.engineLeft
  | .engine _ => s.gatewayLeft

/-- What an access of a call can do: the threads see nothing of it, or it is the last one and they see the whole call. -/
inductive Accessed (t : System) (a : System.Action) (s s' : Rings) : Prop
  | goesOn (hrefines : Refines t s') (hbusy : 0 < s'.left a) (hleft : s'.left a < s.left a)
      (hother : s'.otherLeft a = s.otherLeft a) (hstop : s'.stop = s.stop)
  | returns (hrefines : Refines (t.step a) s') (hidle : s'.left a = 0) (hother : s'.otherLeft a = s.otherLeft a)

/-- A thread begins a call, which the threads do not see. -/
structure Began (t : System) (a : System.Action) (s s' : Rings) : Prop where
  refines : Refines t s'
  busy : 0 < s'.left a
  other : s'.otherLeft a = s.otherLeft a
  stop : s'.stop = s.stop

section Steps

variable {t : System} {s : Rings}

theorem Refines.stop_eq (h : Refines t s) (hgoing : s.gateway ≠ .stopped) : t.stop = s.stop :=
  h.stop.resolve_right fun hother => hgoing hother.1

theorem Refines.not_draining (h : Refines t s) (hdrain : s.gateway ≠ .drain) : s.outbox.consumer.left = 0 :=
  Nat.eq_zero_of_not_pos fun hbusy => hdrain (h.drains hbusy)

theorem Refines.not_submitting (h : Refines t s) (hnone : s.gateway.commands = []) : s.inbox.producer = .idle := by
  refine SpscQueue.Producer.eq_idle (h.submits.elim id fun hvalue => ?_)
  rw [hvalue, hnone]
  rfl

theorem Refines.not_taking (h : Refines t s) (htop : s.thread ≠ .top) : s.inbox.consumer.left = 0 :=
  Nat.eq_zero_of_not_pos fun hbusy => htop (h.takes hbusy).1

theorem Refines.not_emitting (h : Refines t s) (hnone : s.thread.events = []) : s.outbox.producer = .idle := by
  refine SpscQueue.Producer.eq_idle (h.emits.elim id fun hvalue => ?_)
  rw [hvalue, hnone]
  rfl

/-! ### The gateway -/

theorem submit_busy {sid : Nat} {c v : Command} {cmds : List Command} {ok : Bool} {evs : List PollEvent}
    (hvalue : s.inbox.producer.value? = some v) :
    s.submit sid c cmds ok evs =
      match s.inbox.tryPush.2 with
      | [.pushed _] => { s with inbox := s.inbox.tryPush.1, gateway := .submit sid cmds ok evs }
      | _ => { s with inbox := s.inbox.tryPush.1 } := by
  rw [submit]
  cases hp : s.inbox.producer with
  | idle =>
      rw [hp] at hvalue
      cases hvalue
  | _ => rfl

theorem drainOne_busy (hbusy : 0 < s.outbox.consumer.left) :
    s.drainOne =
      match s.outbox.tryPop.2 with
      | [.popped e] => { s with outbox := s.outbox.tryPop.1, server := s.server.onEvent e }
      | [.empty] => { s with outbox := s.outbox.tryPop.1, gateway := .flush }
      | _ => { s with outbox := s.outbox.tryPop.1 } := by
  rw [drainOne]
  cases hp : s.outbox.consumer with
  | idle =>
      rw [hp] at hbusy
      exact absurd hbusy (Nat.lt_irrefl 0)
  | _ => rfl

theorem Refines.submit_idle (h : Refines t s) (hk : s.ringLog2 < 64) {sid : Nat} {c : Command} {cmds : List Command}
    {ok : Bool} {evs : List PollEvent} (hat : s.gateway = .submit sid (c :: cmds) ok evs)
    (hidle : s.inbox.producer = .idle) (env : Env) : Began t (.gateway env) s (s.submit sid c cmds ok evs) := by
  obtain ⟨hstep, hholds⟩ := h.inbox.push hk hidle c
  rw [Rings.submit, hidle]
  dsimp only
  rw [hstep]
  refine ⟨{ h with inbox := hholds, submits := .inr (by rw [hat]; rfl) }, ?_, rfl, rfl⟩
  exact Nat.lt_of_lt_of_le (Nat.succ_pos 3) (Nat.le_add_right ..)

theorem Refines.submit_accessed (h : Refines t s) (hk : s.ringLog2 < 64) {sid : Nat} {c v : Command}
    {cmds : List Command} {ok : Bool} {evs : List PollEvent} (hat : s.gateway = .submit sid (c :: cmds) ok evs)
    (hvalue : s.inbox.producer.value? = some v) (env : Env) :
    Accessed t (.gateway env) s (s.submit sid c cmds ok evs) := by
  have hat' : t.gateway = .submit sid (c :: cmds) ok evs := h.gateway.trans hat
  have hdrain : s.outbox.consumer.left = 0 := h.not_draining (by rw [hat]; exact GatewayAt.noConfusion)
  have hstop : t.stop = s.stop := h.stop_eq (by rw [hat]; exact GatewayAt.noConfusion)
  obtain rfl : v = c := by
    rcases h.submits with hnone | hsome
    · rw [hnone] at hvalue
      cases hvalue
    · rw [hat, hvalue] at hsome
      exact Option.some.inj hsome
  rw [submit_busy hvalue]
  have hcall := h.inbox.tryPush hk hvalue
  generalize s.inbox.tryPush = r at hcall
  cases hcall with
  | @goesOn r hholds hvalue' hleft hconsumer =>
      refine .goesOn { h with
          inbox := hholds
          submits := .inr (hvalue'.trans (by rw [hat]; rfl))
          takes := by rw [hconsumer]; exact h.takes
          stop := .inl hstop } ?_ (Nat.add_lt_add_right hleft _) ?_ rfl
      · exact Nat.lt_of_lt_of_le (SpscQueue.Producer.left_pos hvalue') (Nat.le_add_right ..)
      · exact congrArg (fun p : SpscQueue.Consumer Command => s.outbox.producer.left + p.left) hconsumer
  | @pushed r hroom hholds hidle hconsumer =>
      have hlt : t.inbox.length < t.inboxSize := by
        rw [System.inboxSize, h.ringLog2]
        exact hroom
      refine .returns ?_ ?_ ?_
      · rw [System.step_submit hat' hlt]
        exact { h with
          gateway := rfl
          inbox := hholds
          submits := .inl (by rw [hidle]; rfl)
          takes := by rw [hconsumer]; exact h.takes
          drains := fun hbusy => absurd hdrain hbusy.ne'
          stop := .inl hstop }
      · exact Nat.add_eq_zero_iff.2 ⟨by rw [hidle]; rfl, hdrain⟩
      · exact congrArg (fun p : SpscQueue.Consumer Command => s.outbox.producer.left + p.left) hconsumer
  | @full r hfull hholds hidle hconsumer =>
      have hnot : ¬ t.inbox.length < t.inboxSize := by
        rw [System.inboxSize, h.ringLog2]
        exact Nat.not_lt.2 hfull.ge
      refine .returns ?_ ?_ ?_
      · rw [System.step_submit_full hat' hnot]
        exact { h with
          inbox := hholds
          submits := .inl (by rw [hidle]; rfl)
          takes := by rw [hconsumer]; exact h.takes
          stop := .inl hstop }
      · exact Nat.add_eq_zero_iff.2 ⟨by rw [hidle]; rfl, hdrain⟩
      · exact congrArg (fun p : SpscQueue.Consumer Command => s.outbox.producer.left + p.left) hconsumer

theorem Refines.drainOne_idle (h : Refines t s) (hk : s.ringLog2 + 2 < 64) (hat : s.gateway = .drain)
    (hidle : s.outbox.consumer = .idle) (env : Env) : Began t (.gateway env) s s.drainOne := by
  obtain ⟨hstep, hholds⟩ := h.outbox.pop hk hidle
  rw [Rings.drainOne, hidle]
  dsimp only
  rw [hstep]
  refine ⟨{ h with outbox := hholds, drains := fun _ => hat }, ?_, rfl, rfl⟩
  exact Nat.lt_of_lt_of_le (Nat.succ_pos 3) (Nat.le_add_left ..)

theorem Refines.drainOne_accessed (h : Refines t s) (hk : s.ringLog2 + 2 < 64) (hat : s.gateway = .drain)
    (hbusy : 0 < s.outbox.consumer.left) (env : Env) : Accessed t (.gateway env) s s.drainOne := by
  have hat' : t.gateway = .drain := h.gateway.trans hat
  have hsubmit : s.inbox.producer = .idle := h.not_submitting (by rw [hat]; rfl)
  have hstop : t.stop = s.stop := h.stop_eq (by rw [hat]; exact GatewayAt.noConfusion)
  rw [drainOne_busy hbusy]
  have hcall := h.outbox.tryPop hk hbusy
  generalize s.outbox.tryPop = r at hcall
  cases hcall with
  | @goesOn r hholds hbusy' hleft hproducer =>
      refine .goesOn { h with
          outbox := hholds
          emits := by rw [hproducer]; exact h.emits
          drains := fun _ => hat } ?_ (Nat.add_lt_add_left hleft _) ?_ rfl
      · exact Nat.lt_of_lt_of_le hbusy' (Nat.le_add_left ..)
      · exact congrArg (fun p : SpscQueue.Producer Event => p.left + s.inbox.consumer.left) hproducer
  | @popped r e rest hitems hholds hidle hproducer =>
      refine .returns ?_ ?_ ?_
      · rw [System.step_drain hat' hitems]
        exact { h with
          server := congrArg (fun sv => sv.onEvent e) h.server
          outbox := hholds
          emits := by rw [hproducer]; exact h.emits
          drains := fun _ => hat }
      · exact Nat.add_eq_zero_iff.2 ⟨congrArg SpscQueue.Producer.left hsubmit, congrArg SpscQueue.Consumer.left hidle⟩
      · exact congrArg (fun p : SpscQueue.Producer Event => p.left + s.inbox.consumer.left) hproducer
  | @empty r hitems hholds hidle hproducer =>
      refine .returns ?_ ?_ ?_
      · rw [System.step_drain_nil hat' hitems]
        exact { h with
          gateway := rfl
          outbox := by rw [hitems]; exact hholds
          submits := .inl (congrArg SpscQueue.Producer.value? hsubmit)
          emits := by rw [hproducer]; exact h.emits
          drains := fun hbusy' => absurd hbusy' (by rw [hidle]; exact Nat.lt_irrefl 0)
          stop := .inl hstop }
      · exact Nat.add_eq_zero_iff.2 ⟨congrArg SpscQueue.Producer.left hsubmit, congrArg SpscQueue.Consumer.left hidle⟩
      · exact congrArg (fun p : SpscQueue.Producer Event => p.left + s.inbox.consumer.left) hproducer

/-- Away from the rings the gateway does not look at them, nor at anything else that is not its own. -/
theorem gatewayStep_frame {u : System} (hserver : t.server = u.server) (hgateway : t.gateway = u.gateway)
    (hnone : u.gateway.commands = []) (hdrain : u.gateway ≠ .drain) (hgoing : u.gateway ≠ .stopped) (env : Env) :
    t.gatewayStep env = { t with
      server := (u.gatewayStep env).server
      gateway := (u.gatewayStep env).gateway } := by
  obtain ⟨k, sv, g, e, th, st, i, o, ic, oc, pr, em⟩ := t
  obtain ⟨k', sv', g', e', th', st', i', o', ic', oc', pr', em'⟩ := u
  dsimp only at hserver hgateway hnone hdrain hgoing
  subst hserver hgateway
  cases g with
  | poll =>
      simp only [System.gatewayStep]
      split
      · rfl
      · split <;> rfl
  | events evs =>
      cases evs with
      | nil => rfl
      | cons ev evs =>
          simp only [System.gatewayStep, System.handle]
          split
          · rfl
          · rfl
          · split
            · split <;> rfl
            · rfl
          · rfl
          · rfl
  | accepting kind evs =>
      simp only [System.gatewayStep]
      split <;> rfl
  | submit sid cmds ok evs =>
      cases cmds with
      | nil =>
          simp only [System.gatewayStep]
          split <;> rfl
      | cons c cmds => cases hnone
  | drain => exact absurd rfl hdrain
  | flush => rfl
  | stopped => exact absurd rfl hgoing

theorem Refines.own (h : Refines t s) (hnone : s.gateway.commands = []) (hdrain : s.gateway ≠ .drain)
    (hgoing : s.gateway ≠ .stopped) (env : Env) :
    Refines (t.step (.gateway env)) { s with
      server := (s.threads.gatewayStep env).server
      gateway := (s.threads.gatewayStep env).gateway
      stop := (s.threads.gatewayStep env).stop } := by
  have hframe := gatewayStep_frame (t := s.threads) (u := s.threads) rfl rfl hnone hdrain hgoing env
  have hstop : (s.threads.gatewayStep env).stop = s.stop := congrArg System.stop hframe
  rw [System.step, gatewayStep_frame (u := s.threads) h.server h.gateway hnone hdrain hgoing env, hstop]
  exact { h with
    server := rfl
    gateway := rfl
    submits := .inl (congrArg SpscQueue.Producer.value? (h.not_submitting hnone))
    drains := fun hbusy => absurd (h.drains hbusy) hdrain
    stop := .inl (h.stop_eq hgoing) }

/-- `main` stores the flag, and the engine is not inside a pop. -/
theorem Refines.stopped (h : Refines t s) (hat : s.gateway = .stopped) (hidle : s.inbox.consumer.left = 0) (env : Env) :
    Refines (t.step (.gateway env)) { s with stop := true } := by
  rw [System.step_returned (h.gateway.trans hat)]
  exact { h with
    takes := fun hbusy => absurd hidle hbusy.ne'
    stop := .inl rfl }

theorem gatewayStep_stopped (hat : s.gateway = .stopped) (env : Env) : s.gatewayStep env = { s with stop := true } := by
  simp only [Rings.gatewayStep, System.gatewayStep, threads, hat]

/-! ### The engine -/

theorem engineStep_stop (t : System) (now : Nat) : (t.step (.engine now)).stop = t.stop := by
  have hstepped := System.step_stepped t (.engine now)
  generalize t.step (.engine now) = t' at hstepped
  cases hstepped <;> rfl

theorem emit_busy {e v : Event} {events : List Event} (hvalue : s.outbox.producer.value? = some v) :
    s.emit e events =
      match s.outbox.tryPush.2 with
      | [.pushed _] => { s with outbox := s.outbox.tryPush.1, thread := .emit events }
      | _ => { s with outbox := s.outbox.tryPush.1 } := by
  rw [emit]
  cases hp : s.outbox.producer with
  | idle =>
      rw [hp] at hvalue
      cases hvalue
  | _ => rfl

theorem takeCommand_busy {now : Nat} (hbusy : 0 < s.inbox.consumer.left) :
    s.takeCommand now =
      match s.inbox.tryPop.2 with
      | [.popped c] =>
          { s with
            inbox := s.inbox.tryPop.1
            engine := (s.engine.process now c).1
            thread := .emit ((s.engine.process now c).2.map fun em => em.event) }
      | _ => { s with inbox := s.inbox.tryPop.1 } := by
  rw [takeCommand]
  cases hp : s.inbox.consumer with
  | idle =>
      rw [hp] at hbusy
      exact absurd hbusy (Nat.lt_irrefl 0)
  | _ => rfl

theorem Refines.emit_idle (h : Refines t s) (hk : s.ringLog2 + 2 < 64) {e : Event} {events : List Event}
    (hat : s.thread = .emit (e :: events)) (hidle : s.outbox.producer = .idle) (now : Nat) :
    Began t (.engine now) s (s.emit e events) := by
  obtain ⟨hstep, hholds⟩ := h.outbox.push hk hidle e
  rw [Rings.emit, hidle]
  dsimp only
  rw [hstep]
  refine ⟨{ h with outbox := hholds, emits := .inr (by rw [hat]; rfl) }, ?_, rfl, rfl⟩
  exact Nat.lt_of_lt_of_le (Nat.succ_pos 3) (Nat.le_add_right ..)

theorem Refines.emit_accessed (h : Refines t s) (hk : s.ringLog2 + 2 < 64) {e v : Event} {events : List Event}
    (hat : s.thread = .emit (e :: events)) (hvalue : s.outbox.producer.value? = some v) (now : Nat) :
    Accessed t (.engine now) s (s.emit e events) := by
  have hat' : t.thread = .emit (e :: events) := h.thread.trans hat
  have htake : s.inbox.consumer.left = 0 := h.not_taking (by rw [hat]; exact EngineAt.noConfusion)
  obtain rfl : v = e := by
    rcases h.emits with hnone | hsome
    · rw [hnone] at hvalue
      cases hvalue
    · rw [hat, hvalue] at hsome
      exact Option.some.inj hsome
  rw [emit_busy hvalue]
  have hcall := h.outbox.tryPush hk hvalue
  generalize s.outbox.tryPush = r at hcall
  cases hcall with
  | @goesOn r hholds hvalue' hleft hconsumer =>
      refine .goesOn { h with
          outbox := hholds
          emits := .inr (hvalue'.trans (by rw [hat]; rfl))
          drains := by rw [hconsumer]; exact h.drains } ?_ (Nat.add_lt_add_right hleft _) ?_ rfl
      · exact Nat.lt_of_lt_of_le (SpscQueue.Producer.left_pos hvalue') (Nat.le_add_right ..)
      · exact congrArg (fun p : SpscQueue.Consumer Event => s.inbox.producer.left + p.left) hconsumer
  | @pushed r hroom hholds hidle hconsumer =>
      have hlt : t.outbox.length < t.outboxSize := by
        rw [System.outboxSize, h.ringLog2]
        exact hroom
      refine .returns ?_ ?_ ?_
      · rw [System.step_emit hat' hlt]
        exact { h with
          thread := rfl
          outbox := hholds
          emits := .inl (by rw [hidle]; rfl)
          takes := fun hbusy => absurd htake hbusy.ne'
          drains := by rw [hconsumer]; exact h.drains }
      · exact Nat.add_eq_zero_iff.2 ⟨by rw [hidle]; rfl, htake⟩
      · exact congrArg (fun p : SpscQueue.Consumer Event => s.inbox.producer.left + p.left) hconsumer
  | @full r hfull hholds hidle hconsumer =>
      have hnot : ¬ t.outbox.length < t.outboxSize := by
        rw [System.outboxSize, h.ringLog2]
        exact Nat.not_lt.2 hfull.ge
      refine .returns ?_ ?_ ?_
      · rw [System.step_emit_full hat' hnot]
        exact { h with
          outbox := hholds
          emits := .inl (by rw [hidle]; rfl)
          drains := by rw [hconsumer]; exact h.drains }
      · exact Nat.add_eq_zero_iff.2 ⟨by rw [hidle]; rfl, htake⟩
      · exact congrArg (fun p : SpscQueue.Consumer Event => s.inbox.producer.left + p.left) hconsumer

/-- The loop looks at the flag, and begins a pop if it is not set. -/
theorem Refines.takeCommand_idle (h : Refines t s) (hk : s.ringLog2 < 64) (hat : s.thread = .top)
    (hidle : s.inbox.consumer = .idle) (now : Nat) :
    Refines (t.step (.engine now)) (s.takeCommand now) ∧ (s.takeCommand now).inbox = s.inbox ∧
        (s.takeCommand now).outbox = s.outbox ∨
      Began t (.engine now) s (s.takeCommand now) := by
  have hstop : t.stop = s.stop := by
    refine h.stop.resolve_right fun hother => ?_
    rw [hidle] at hother
    exact Nat.lt_irrefl 0 hother.2
  rw [takeCommand, hidle]
  dsimp only
  split
  · rename_i hset
    have hstep : t.step (.engine now) = { t with thread := .exited } := by
      rw [System.step, System.engineStep, h.thread.trans hat]
      exact if_pos (hstop.trans hset)
    rw [hstep]
    refine .inl ⟨{ h with
      thread := rfl
      emits := .inl (congrArg SpscQueue.Producer.value? (h.not_emitting (by rw [hat]; rfl)))
      takes := fun hbusy => absurd hbusy (by rw [hidle]; exact Nat.lt_irrefl 0)
      stop := .inl hstop }, rfl, rfl⟩
  · rename_i hclear
    obtain ⟨hstep, hholds⟩ := h.inbox.pop hk hidle
    rw [hstep]
    refine .inr ⟨{ h with
      inbox := hholds
      takes := fun _ => ⟨hat, hstop.trans (Bool.eq_false_iff.2 hclear)⟩
      stop := .inl hstop }, ?_, rfl, rfl⟩
    exact Nat.lt_of_lt_of_le (Nat.succ_pos 3) (Nat.le_add_left ..)

theorem Refines.takeCommand_accessed (h : Refines t s) (hk : s.ringLog2 < 64) (hat : s.thread = .top)
    (hbusy : 0 < s.inbox.consumer.left) (hstop : t.stop = s.stop) (now : Nat) :
    Accessed t (.engine now) s (s.takeCommand now) := by
  have hat' : t.thread = .top := h.thread.trans hat
  have hfalse : t.stop = false := (h.takes hbusy).2
  have hemit : s.outbox.producer = .idle := h.not_emitting (by rw [hat]; rfl)
  rw [takeCommand_busy hbusy]
  have hcall := h.inbox.tryPop hk hbusy
  generalize s.inbox.tryPop = r at hcall
  cases hcall with
  | @goesOn r hholds hbusy' hleft hproducer =>
      refine .goesOn { h with
          inbox := hholds
          submits := by rw [hproducer]; exact h.submits
          takes := fun _ => h.takes hbusy
          stop := .inl hstop } ?_ (Nat.add_lt_add_left hleft _) ?_ rfl
      · exact Nat.lt_of_lt_of_le hbusy' (Nat.le_add_left ..)
      · exact congrArg (fun p : SpscQueue.Producer Command => p.left + s.outbox.consumer.left) hproducer
  | @popped r c rest hitems hholds hidle hproducer =>
      refine .returns ?_ ?_ ?_
      · rw [System.step_take hat' hfalse hitems]
        exact { h with
          engine := by rw [h.engine]
          thread := by rw [h.engine]
          inbox := hholds
          submits := by rw [hproducer]; exact h.submits
          emits := .inl (congrArg SpscQueue.Producer.value? hemit)
          takes := fun hbusy' => absurd hbusy' (by rw [hidle]; exact Nat.lt_irrefl 0)
          stop := .inl hstop }
      · exact Nat.add_eq_zero_iff.2 ⟨congrArg SpscQueue.Producer.left hemit, congrArg SpscQueue.Consumer.left hidle⟩
      · exact congrArg (fun p : SpscQueue.Producer Command => p.left + s.outbox.consumer.left) hproducer
  | @empty r hitems hholds hidle hproducer =>
      have hstep : t.step (.engine now) = t := by
        simp [System.step, System.engineStep, hat', hfalse, System.takeCommand, hitems, tryPop]
      refine .returns ?_ ?_ ?_
      · rw [hstep]
        exact { h with
          inbox := by rw [hitems]; exact hholds
          submits := by rw [hproducer]; exact h.submits
          takes := fun hbusy' => absurd hbusy' (by rw [hidle]; exact Nat.lt_irrefl 0)
          stop := .inl hstop }
      · exact Nat.add_eq_zero_iff.2 ⟨congrArg SpscQueue.Producer.left hemit, congrArg SpscQueue.Consumer.left hidle⟩
      · exact congrArg (fun p : SpscQueue.Producer Command => p.left + s.outbox.consumer.left) hproducer

theorem Refines.returned (h : Refines t s) (hat : s.thread = .emit []) (now : Nat) :
    Refines (t.step (.engine now)) { s with thread := .top } := by
  have hstep : t.step (.engine now) = { t with thread := .top } := by
    rw [System.step, System.engineStep, h.thread.trans hat]
  rw [hstep]
  exact { h with
    thread := rfl
    emits := .inl (congrArg SpscQueue.Producer.value? (h.not_emitting (by rw [hat]; rfl)))
    takes := fun hbusy => ⟨rfl, (h.takes hbusy).2⟩ }

/-! ### From the real rings to sequential queues -/

theorem Accessed.exists_run {s' : Rings} {a : System.Action} (h : Accessed t a s s') :
    ∃ actions, Refines (t.run actions) s' := by
  cases h with
  | goesOn hrefines => exact ⟨[], hrefines⟩
  | returns hrefines => exact ⟨[a], hrefines⟩

theorem Refines.gatewayStep (h : Refines t s) (hk : s.ringLog2 + 2 < 64) (env : Env) :
    ∃ actions, Refines (t.run actions) (s.gatewayStep env) := by
  cases hat : s.gateway with
  | submit sid cmds ok evs =>
      cases cmds with
      | nil =>
          refine ⟨[.gateway env], ?_⟩
          rw [Rings.gatewayStep, hat]
          exact h.own (by rw [hat]; rfl) (by rw [hat]; exact GatewayAt.noConfusion)
            (by rw [hat]; exact GatewayAt.noConfusion) env
      | cons c cmds =>
          rw [Rings.gatewayStep, hat]
          cases hvalue : s.inbox.producer.value? with
          | none => exact ⟨[], (h.submit_idle (by omega) hat (SpscQueue.Producer.eq_idle hvalue) env).refines⟩
          | some v => exact (h.submit_accessed (by omega) hat hvalue env).exists_run
  | drain =>
      rw [Rings.gatewayStep, hat]
      by_cases hbusy : 0 < s.outbox.consumer.left
      · exact (h.drainOne_accessed hk hat hbusy env).exists_run
      · exact ⟨[], (h.drainOne_idle hk hat (SpscQueue.Consumer.eq_idle hbusy) env).refines⟩
  | stopped =>
      rw [gatewayStep_stopped hat]
      by_cases hbusy : 0 < s.inbox.consumer.left
      · exact ⟨[], { h with stop := .inr ⟨hat, hbusy⟩ }⟩
      · exact ⟨[.gateway env], h.stopped hat (Nat.eq_zero_of_not_pos hbusy) env⟩
  | _ =>
      refine ⟨[.gateway env], ?_⟩
      rw [Rings.gatewayStep, hat]
      exact h.own (by rw [hat]; rfl) (by rw [hat]; exact GatewayAt.noConfusion)
        (by rw [hat]; exact GatewayAt.noConfusion) env

theorem takeCommand_frame (s : Rings) (now : Nat) :
    (s.takeCommand now).outbox = s.outbox ∧ (s.takeCommand now).gateway = s.gateway ∧
      (s.takeCommand now).stop = s.stop := by
  rw [takeCommand]
  split
  · split <;> exact ⟨rfl, rfl, rfl⟩
  · dsimp only
    split <;> exact ⟨rfl, rfl, rfl⟩

theorem takeCommand_stop (hbusy : 0 < s.inbox.consumer.left) (now : Nat) (stop : Bool) :
    ({ s with stop := stop } : Rings).takeCommand now = { s.takeCommand now with stop := stop } := by
  rw [takeCommand_busy hbusy, takeCommand_busy (s := { s with stop := stop }) hbusy]
  dsimp only
  split <;> rfl

/-- The engine is out of a pop: a flag that was stored meanwhile is stored now. -/
theorem Refines.settle (h : Refines t { s with stop := t.stop }) (hidle : s.inbox.consumer.left = 0)
    (hstop : t.stop = s.stop ∨ s.gateway = .stopped ∧ t.stop = false) : ∃ actions, Refines (t.run actions) s := by
  have hsame (hsame : t.stop = s.stop) : Refines t s := by
    rw [hsame] at h
    exact h
  rcases hstop with heq | ⟨hat, hfalse⟩
  · exact ⟨[], hsame heq⟩
  · cases hs : s.stop with
    | false => exact ⟨[], hsame (hfalse.trans hs.symm)⟩
    | true =>
        have hstopped := h.stopped hat hidle {}
        refine ⟨[.gateway {}], ?_⟩
        have heta : ({ s with stop := true } : Rings) = s := by rw [← hs]
        rw [← heta]
        exact hstopped

theorem Refines.takeCommand (h : Refines t s) (hk : s.ringLog2 < 64) (hat : s.thread = .top) (now : Nat) :
    ∃ actions, Refines (t.run actions) (s.takeCommand now) := by
  by_cases hbusy : 0 < s.inbox.consumer.left
  · have hfalse : t.stop = false := (h.takes hbusy).2
    obtain ⟨houtbox, hgateway, hstop⟩ := takeCommand_frame s now
    have hdelayed : Refines t { s with stop := t.stop } := { h with stop := .inl rfl }
    have hcall := hdelayed.takeCommand_accessed hk hat hbusy rfl now
    rw [takeCommand_stop hbusy] at hcall
    have hemit : (s.takeCommand now).outbox.producer.left = 0 := by
      rw [houtbox, h.not_emitting (by rw [hat]; rfl)]
      rfl
    cases hcall with
    | goesOn hrefines hbusy' hleft hother hsame =>
        refine ⟨[], { hrefines with stop := ?_ }⟩
        rw [hstop, hgateway]
        refine h.stop.imp_right fun hstopped => ⟨hstopped.1, ?_⟩
        change 0 < (s.takeCommand now).outbox.producer.left + (s.takeCommand now).inbox.consumer.left at hbusy'
        omega
    | returns hrefines hidle hother =>
        have hsame : (t.step (.engine now)).stop = t.stop := engineStep_stop t now
        rw [← hsame] at hrefines
        change (s.takeCommand now).outbox.producer.left + (s.takeCommand now).inbox.consumer.left = 0 at hidle
        obtain ⟨actions, hrun⟩ := hrefines.settle (by omega) (by
          rw [hsame, hstop, hgateway]
          exact h.stop.imp_right fun hstopped => ⟨hstopped.1, hfalse⟩)
        exact ⟨.engine now :: actions, hrun⟩
  · rcases h.takeCommand_idle hk hat (SpscQueue.Consumer.eq_idle hbusy) now with ⟨hrefines, _⟩ | hbegan
    · exact ⟨[.engine now], hrefines⟩
    · exact ⟨[], hbegan.refines⟩

theorem Refines.engineStep (h : Refines t s) (hk : s.ringLog2 + 2 < 64) (now : Nat) :
    ∃ actions, Refines (t.run actions) (s.engineStep now) := by
  cases hat : s.thread with
  | top =>
      rw [Rings.engineStep, hat]
      exact h.takeCommand (by omega) hat now
  | emit events =>
      cases events with
      | nil =>
          rw [Rings.engineStep, hat]
          exact ⟨[.engine now], h.returned hat now⟩
      | cons e events =>
          rw [Rings.engineStep, hat]
          cases hvalue : s.outbox.producer.value? with
          | none => exact ⟨[], (h.emit_idle hk hat (SpscQueue.Producer.eq_idle hvalue) now).refines⟩
          | some v => exact (h.emit_accessed hk hat hvalue now).exists_run
  | exited =>
      rw [Rings.engineStep, hat]
      exact ⟨[], h⟩

theorem Refines.step (h : Refines t s) (hk : s.ringLog2 + 2 < 64) (a : System.Action) :
    ∃ actions, Refines (t.run actions) (s.step a) := by
  cases a with
  | gateway env => exact h.gatewayStep hk env
  | engine now => exact h.engineStep hk now

end Steps

theorem step_ringLog2 (s : Rings) (a : System.Action) : (s.step a).ringLog2 = s.ringLog2 := by
  cases a with
  | gateway env =>
      rw [step, gatewayStep]
      split
      · rw [submit]
        split
        · rfl
        · dsimp only
          split <;> rfl
      · rw [drainOne]
        split
        · rfl
        · dsimp only
          split <;> rfl
      · rfl
  | engine now =>
      rw [step, engineStep]
      split
      · rw [takeCommand]
        split
        · split <;> rfl
        · dsimp only
          split <;> rfl
      · rfl
      · rw [emit]
        split
        · rfl
        · dsimp only
          split <;> rfl
      · rfl

theorem run_ringLog2 (s : Rings) (actions : List System.Action) : (s.run actions).ringLog2 = s.ringLog2 := by
  induction actions using List.reverseRecOn with
  | nil => rfl
  | append_singleton actions a ih =>
      rw [run_concat, step_ringLog2]
      exact ih

/-- Whatever the two threads do over the real rings, access by access, they do over sequential queues. -/
theorem run_coarsens (scfg : Server.Config) (ecfg : Engine.Config) (ringLog2 listenFd mdListenFd : Nat)
    (hk : ringLog2 ≤ 61) (actions : List System.Action) :
    ∃ coarse, Refines ((System.init scfg ecfg ringLog2 listenFd mdListenFd).run coarse)
      ((init scfg ecfg ringLog2 listenFd mdListenFd).run actions) := by
  induction actions using List.reverseRecOn with
  | nil => exact ⟨[], init_refines ..⟩
  | append_singleton actions a ih =>
      obtain ⟨coarse, hrefines⟩ := ih
      have hlog2 := run_ringLog2 (init scfg ecfg ringLog2 listenFd mdListenFd) actions
      change _ = ringLog2 at hlog2
      obtain ⟨more, hstep⟩ := hrefines.step (by omega) a
      refine ⟨coarse ++ more, ?_⟩
      rw [run_concat, System.run_append]
      exact hstep

/-- A client's cancel goes through both rings; the gateway looks into the outbox while the engine writes to it. -/
theorem run_coarsens_cancel :
    let gateway := fun n => List.replicate n (System.Action.gateway {})
    let engine := fun n => List.replicate n (System.Action.engine 0)
    let schedule := [.gateway { polled := some [{ fd := 3, readable := true }] }, .gateway {},
        .gateway { accepted := .connected 5 }] ++ gateway 6 ++
      [.gateway { polled := some [{ fd := 5, readable := true }] },
        .gateway { reads := [.bytes ([24, 0, 2, 1, 1, 0, 0, 0] ++ List.replicate 16 0)] }] ++
      gateway 5 ++ engine 7 ++ gateway 3 ++ engine 2 ++ gateway 3
    ((init {} {} 0 3 4).run schedule).server.drained.map (fun e => e.session) = [1] ∧
      ∃ coarse, Refines ((System.init {} {} 0 3 4).run coarse) ((init {} {} 0 3 4).run schedule) :=
  ⟨by decide +kernel, run_coarsens {} {} 0 3 4 (by decide) _⟩

/-! ### From sequential queues to the real rings -/

section Realizes

variable {t : System} {s : Rings}

theorem Refines.call (h : Refines t s) (hk : s.ringLog2 + 2 < 64) (hstop : t.stop = s.stop) (a : System.Action)
    (hbusy : 0 < s.left a) : Accessed t a s (s.step a) := by
  cases a with
  | gateway env =>
      by_cases hdrain : 0 < s.outbox.consumer.left
      · have hat := h.drains hdrain
        rw [Rings.step, Rings.gatewayStep, hat]
        exact h.drainOne_accessed hk hat hdrain env
      · cases hvalue : s.inbox.producer.value? with
        | none =>
            have hidle : s.inbox.producer.left = 0 := congrArg _ (SpscQueue.Producer.eq_idle hvalue)
            change 0 < s.inbox.producer.left + s.outbox.consumer.left at hbusy
            omega
        | some v =>
            have hhead : s.gateway.commands.head? = some v := by
              rcases h.submits with hnone | hsome
              · rw [hnone] at hvalue
                cases hvalue
              · exact hsome.symm.trans hvalue
            cases hat : s.gateway with
            | submit sid cmds ok evs =>
                rw [hat] at hhead
                cases cmds with
                | nil => cases hhead
                | cons c cmds =>
                    rw [Rings.step, Rings.gatewayStep, hat]
                    exact h.submit_accessed (by omega) hat hvalue env
            | _ =>
                rw [hat] at hhead
                cases hhead
  | engine now =>
      by_cases htake : 0 < s.inbox.consumer.left
      · have hat := (h.takes htake).1
        rw [Rings.step, Rings.engineStep, hat]
        exact h.takeCommand_accessed (by omega) hat htake hstop now
      · cases hvalue : s.outbox.producer.value? with
        | none =>
            have hidle : s.outbox.producer.left = 0 := congrArg _ (SpscQueue.Producer.eq_idle hvalue)
            change 0 < s.outbox.producer.left + s.inbox.consumer.left at hbusy
            omega
        | some v =>
            have hhead : s.thread.events.head? = some v := by
              rcases h.emits with hnone | hsome
              · rw [hnone] at hvalue
                cases hvalue
              · exact hsome.symm.trans hvalue
            cases hat : s.thread with
            | emit events =>
                rw [hat] at hhead
                cases events with
                | nil => cases hhead
                | cons e events =>
                    rw [Rings.step, Rings.engineStep, hat]
                    exact h.emit_accessed hk hat hvalue now
            | _ =>
                rw [hat] at hhead
                cases hhead

/-- A thread that steps alone gets to the end of its call, and the threads have then seen the whole call. -/
theorem Refines.finish (hk : t.ringLog2 + 2 < 64) (a : System.Action) (n : Nat) (h : Refines t s)
    (hstop : t.stop = s.stop) (hbusy : 0 < s.left a) (hleft : s.left a ≤ n) :
    ∃ m, Refines (t.step a) (s.run (List.replicate m a)) ∧ (s.run (List.replicate m a)).left a = 0 ∧
      (s.run (List.replicate m a)).otherLeft a = s.otherLeft a := by
  induction n generalizing s with
  | zero => omega
  | succ n ih =>
      have hcall := h.call (by rw [← h.ringLog2]; exact hk) hstop a hbusy
      cases hcall with
      | goesOn hrefines hbusy' hleft' hother hsame =>
          obtain ⟨m, hrun, hidle, hquiet⟩ := ih hrefines (hstop.trans hsame.symm) hbusy' (by omega)
          exact ⟨m + 1, hrun, hidle, hquiet.trans hother⟩
      | returns hrefines hidle hother => exact ⟨1, hrefines, hidle, hother⟩

/-- Between two calls. -/
def Idle (s : Rings) : Prop := s.gatewayLeft = 0 ∧ s.engineLeft = 0

theorem Idle.parts (h : s.Idle) : s.inbox.producer = .idle ∧ s.outbox.consumer = .idle ∧
    s.outbox.producer = .idle ∧ s.inbox.consumer = .idle := by
  obtain ⟨hgateway, hengine⟩ := h
  rw [gatewayLeft] at hgateway
  rw [engineLeft] at hengine
  refine ⟨SpscQueue.Producer.eq_idle_of_left ?_, SpscQueue.Consumer.eq_idle ?_, SpscQueue.Producer.eq_idle_of_left ?_,
    SpscQueue.Consumer.eq_idle ?_⟩ <;> omega

theorem Refines.stop_eq_of_idle (h : Refines t s) (hidle : s.Idle) : t.stop = s.stop := by
  refine h.stop.resolve_right fun hother => ?_
  rw [hidle.parts.2.2.2] at hother
  exact Nat.lt_irrefl 0 hother.2

theorem Began.realize {a : System.Action} (h : Began t a s (s.step a)) (hk : t.ringLog2 + 2 < 64) (hstop : t.stop = s.stop)
    (hother : s.otherLeft a = 0) : ∃ actions, Refines (t.step a) (s.run actions) ∧ (s.run actions).Idle := by
  obtain ⟨m, hrun, hidle, hquiet⟩ := Refines.finish hk a _ h.refines (hstop.trans h.stop.symm) h.busy le_rfl
  refine ⟨a :: List.replicate m a, hrun, ?_⟩
  have hsame := hquiet.trans (h.other.trans hother)
  cases a with
  | gateway env => exact ⟨hidle, hsame⟩
  | engine now => exact ⟨hsame, hidle⟩

theorem Refines.realize_gateway (h : Refines t s) (hk : t.ringLog2 + 2 < 64) (hidle : s.Idle) (env : Env) :
    ∃ actions, Refines (t.step (.gateway env)) (s.run actions) ∧ (s.run actions).Idle := by
  obtain ⟨hsubmit, hdrain, _, htake⟩ := hidle.parts
  have hk' : s.ringLog2 + 2 < 64 := by
    rw [← h.ringLog2]
    exact hk
  have hown (hnone : s.gateway.commands = []) (hnot : s.gateway ≠ .drain) (hgoing : s.gateway ≠ .stopped)
      (hstep : s.gatewayStep env = { s with
        server := (s.threads.gatewayStep env).server
        gateway := (s.threads.gatewayStep env).gateway
        stop := (s.threads.gatewayStep env).stop }) :
      ∃ actions, Refines (t.step (.gateway env)) (s.run actions) ∧ (s.run actions).Idle := by
    refine ⟨[.gateway env], ?_⟩
    change Refines _ (s.gatewayStep env) ∧ (s.gatewayStep env).Idle
    rw [hstep]
    exact ⟨h.own hnone hnot hgoing env, hidle⟩
  cases hat : s.gateway with
  | submit sid cmds ok evs =>
      cases cmds with
      | nil =>
          exact hown (by rw [hat]; rfl) (by rw [hat]; exact GatewayAt.noConfusion)
            (by rw [hat]; exact GatewayAt.noConfusion) (by rw [Rings.gatewayStep, hat])
      | cons c cmds =>
          have hbegan := h.submit_idle (by omega) hat hsubmit env
          have hstep : s.step (.gateway env) = s.submit sid c cmds ok evs := by
            rw [Rings.step, Rings.gatewayStep, hat]
          rw [← hstep] at hbegan
          exact hbegan.realize hk (h.stop_eq_of_idle hidle) hidle.2
  | drain =>
      have hbegan := h.drainOne_idle hk' hat hdrain env
      have hstep : s.step (.gateway env) = s.drainOne := by rw [Rings.step, Rings.gatewayStep, hat]
      rw [← hstep] at hbegan
      exact hbegan.realize hk (h.stop_eq_of_idle hidle) hidle.2
  | stopped =>
      refine ⟨[.gateway env], ?_⟩
      change Refines _ (s.gatewayStep env) ∧ (s.gatewayStep env).Idle
      rw [gatewayStep_stopped hat]
      exact ⟨h.stopped hat (congrArg SpscQueue.Consumer.left htake) env, hidle⟩
  | _ =>
      exact hown (by rw [hat]; rfl) (by rw [hat]; exact GatewayAt.noConfusion)
        (by rw [hat]; exact GatewayAt.noConfusion) (by rw [Rings.gatewayStep, hat])

theorem Refines.realize_engine (h : Refines t s) (hk : t.ringLog2 + 2 < 64) (hidle : s.Idle) (now : Nat) :
    ∃ actions, Refines (t.step (.engine now)) (s.run actions) ∧ (s.run actions).Idle := by
  obtain ⟨_, _, hemit, htake⟩ := hidle.parts
  have hk' : s.ringLog2 + 2 < 64 := by
    rw [← h.ringLog2]
    exact hk
  cases hat : s.thread with
  | top =>
      have hstep : s.step (.engine now) = s.takeCommand now := by rw [Rings.step, Rings.engineStep, hat]
      rcases h.takeCommand_idle (by omega) hat htake now with ⟨hrefines, hinbox, houtbox⟩ | hbegan
      · refine ⟨[.engine now], ?_⟩
        change Refines _ (s.step (.engine now)) ∧ (s.step (.engine now)).Idle
        rw [hstep]
        refine ⟨hrefines, ?_⟩
        rw [Idle, gatewayLeft, engineLeft, hinbox, houtbox]
        exact hidle
      · rw [← hstep] at hbegan
        exact hbegan.realize hk (h.stop_eq_of_idle hidle) hidle.1
  | emit events =>
      cases events with
      | nil =>
          refine ⟨[.engine now], ?_⟩
          have hstep : s.run [.engine now] = { s with thread := .top } := by
            change s.engineStep now = _
            rw [Rings.engineStep, hat]
          rw [hstep]
          exact ⟨h.returned hat now, hidle⟩
      | cons e events =>
          have hbegan := h.emit_idle hk' hat hemit now
          have hstep : s.step (.engine now) = s.emit e events := by rw [Rings.step, Rings.engineStep, hat]
          rw [← hstep] at hbegan
          exact hbegan.realize hk (h.stop_eq_of_idle hidle) hidle.1
  | exited =>
      refine ⟨[], ?_, hidle⟩
      rw [System.step, System.engineStep, h.thread.trans hat]
      exact h

end Realizes

theorem run_append (s : Rings) (actions more : List System.Action) :
    s.run (actions ++ more) = (s.run actions).run more :=
  List.foldl_append

/-- Whatever the two threads do over sequential queues, they can do over the real rings, one call after the other. -/
theorem run_realizes (scfg : Server.Config) (ecfg : Engine.Config) (ringLog2 listenFd mdListenFd : Nat)
    (hk : ringLog2 ≤ 61) (coarse : List System.Action) :
    ∃ actions, Refines ((System.init scfg ecfg ringLog2 listenFd mdListenFd).run coarse)
        ((init scfg ecfg ringLog2 listenFd mdListenFd).run actions) ∧
      ((init scfg ecfg ringLog2 listenFd mdListenFd).run actions).Idle := by
  induction coarse using List.reverseRecOn with
  | nil => exact ⟨[], init_refines .., rfl, rfl⟩
  | append_singleton coarse a ih =>
      obtain ⟨actions, hrefines, hidle⟩ := ih
      have hlog2 := run_ringLog2 (init scfg ecfg ringLog2 listenFd mdListenFd) actions
      have hk' : ((System.init scfg ecfg ringLog2 listenFd mdListenFd).run coarse).ringLog2 + 2 < 64 := by
        rw [hrefines.ringLog2, hlog2]
        change ringLog2 + 2 < 64
        omega
      rw [System.run_concat]
      cases a with
      | gateway env =>
          obtain ⟨more, hstep⟩ := hrefines.realize_gateway hk' hidle env
          refine ⟨actions ++ more, ?_⟩
          rw [run_append]
          exact hstep
      | engine now =>
          obtain ⟨more, hstep⟩ := hrefines.realize_engine hk' hidle now
          refine ⟨actions ++ more, ?_⟩
          rw [run_append]
          exact hstep

theorem run_realizes_reuse :
    ((System.init {} {} 0 3 4).run System.reuse).server.drained.map (fun e => e.session) = [1, 2] ∧
      ∃ actions, Refines ((System.init {} {} 0 3 4).run System.reuse) ((init {} {} 0 3 4).run actions) ∧
        ((init {} {} 0 3 4).run actions).Idle :=
  ⟨by decide +kernel, run_realizes {} {} 0 3 4 (by decide) _⟩

end Rings

end Matchbox
