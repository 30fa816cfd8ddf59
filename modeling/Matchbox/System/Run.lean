import Matchbox.Gateway.Server
import Matchbox.Lib.BoundedFifo
import Matchbox.Lib.Guarded

/-!
# The two threads

`Server::run` and `EngineThread::loop` with the two rings between them. A ring is the sequential bounded queue that the ring refines, so that one access of a ring is one step; everything a thread computes between two accesses touches only its own data and belongs to the step before. What the kernel answers comes with each step of the gateway, the time with each step of the engine.

`GatewayAt` and `EngineAt` are the places where a thread can be between two steps. At `submit` and `emit` the thread spins as long as the ring is full: such a step changes nothing.
-/

namespace Matchbox

open BoundedFifo

/-- The outcome of one `::accept`. -/
inductive AcceptResult where
  | connected (fd : Nat)
  /-- `EINTR`. -/
  | intr
  /-- Any other error, `EAGAIN` included. -/
  | error
deriving DecidableEq, Repr

/-- What the environment answers in one step of the gateway. -/
structure Env where
  stop : Bool := false
  /-- The events of `Poller::wait`, none for an error. -/
  polled : Option (List PollEvent) := some []
  accepted : AcceptResult := .error
  reads : List ReadResult := []
  writes : Nat → List WriteResult := fun _ => []
  now : Nat := 0

/-- Where the gateway thread is. -/
inductive GatewayAt where
  /-- At the top of the loop of `run`. -/
  | poll
  /-- In the walk over the polled events. -/
  | events (evs : List PollEvent)
  /-- In `accept_all`. -/
  | accepting (kind : Server.Kind) (evs : List PollEvent)
  /-- In `parse_frames` for this session, with these commands still to submit, and false to close the session after them. -/
  | submit (sid : Nat) (cmds : List Command) (ok : Bool) (evs : List PollEvent)
  /-- In `drain_engine`. -/
  | drain
  /-- Before `flush_dirty` and `flush_all`. -/
  | flush
  /-- `run` has returned. -/
  | stopped

/-- Where the engine thread is. -/
inductive EngineAt where
  /-- At the top of `loop`. -/
  | top
  /-- In `process`, with these events still to push. -/
  | emit (events : List Event)
  /-- `loop` has returned. -/
  | exited

structure System where
  ringLog2 : Nat
  server : Server
  gateway : GatewayAt := .poll
  engine : Engine
  thread : EngineAt := .top
  /-- `EngineThread::stop_`. -/
  stop : Bool := false
  inbox : List Command := []
  outbox : List Event := []
  /-- Ghost: the calls on each ring that succeeded. No code reads them. -/
  inboxCalls : List (Op Command) := []
  outboxCalls : List (Op Event) := []
  /-- Ghost: the commands the engine has taken, with the time it read, and all events they lead to. No code reads them. -/
  processed : List (Nat × Command) := []
  emitted : List Event := []

namespace System

def inboxSize (s : System) : Nat := 2 ^ s.ringLog2

def outboxSize (s : System) : Nat := 2 ^ (s.ringLog2 + 2)

/-- Both threads started, nothing received. -/
def init (scfg : Server.Config) (ecfg : Engine.Config) (ringLog2 listenFd mdListenFd : Nat) : System where
  ringLog2 := ringLog2
  server := Server.init scfg listenFd mdListenFd
  engine := Engine.init ecfg

/-- The body of the walk over the polled events, for one event. -/
def handle (s : System) (ev : PollEvent) (evs : List PollEvent) (env : Env) : System :=
  match s.server.kindOf ev.fd with
  | .listen => { s with gateway := .accepting .session evs }
  | .mdListen => { s with gateway := .accepting .subscriber evs }
  | .session =>
      let sv := s.server.onSessionWritable ev (env.writes ev.fd)
      if ev.readable ∨ ev.hangup then
        match sv.sessionByFd ev.fd with
        | none => { s with server := sv, gateway := .events evs }
        | some session =>
            let r := sv.readSession session env.reads
            { s with server := r.1, gateway := .submit session.id r.2.1 r.2.2 evs }
      else { s with server := sv, gateway := .events evs }
  | .subscriber =>
      { s with server := s.server.onSubscriber ev env.reads (env.writes ev.fd), gateway := .events evs }
  | .none => { s with gateway := .events evs }

/-- `Server::submit`: one attempt to push. -/
def submit (s : System) (sid : Nat) (c : Command) (cmds : List Command) (ok : Bool) (evs : List PollEvent) : System :=
  let r := tryPush s.inboxSize s.inbox c
  match r.2 with
  | .pushed _ =>
      { s with inbox := r.1, gateway := .submit sid cmds ok evs, inboxCalls := s.inboxCalls ++ [r.2] }
  | _ => s

/-- One attempt of `drain_engine` to pop. -/
def drainOne (s : System) : System :=
  let r := tryPop s.outbox
  match r.2 with
  | .popped e => { s with outbox := r.1, server := s.server.onEvent e, outboxCalls := s.outboxCalls ++ [r.2] }
  | _ => { s with gateway := .flush }

def gatewayStep (s : System) (env : Env) : System :=
  match s.gateway with
  | .poll =>
      if env.stop then { s with gateway := .stopped }
      else
        match env.polled with
        | none => { s with gateway := .stopped }
        | some evs => { s with gateway := .events evs }
  | .events [] => { s with gateway := .drain }
  | .events (ev :: evs) => s.handle ev evs env
  | .accepting kind evs =>
      match env.accepted with
      | .connected fd => { s with server := s.server.acceptOne fd kind }
      | .intr => s
      | .error => { s with gateway := .events evs }
  | .submit sid [] ok evs =>
      if ok then { s with gateway := .events evs }
      else
        let fd := ((s.server.sessions sid).map fun session => session.fd).getD 0
        { s with server := s.server.hangUp sid (env.writes fd), gateway := .events evs }
  | .submit sid (c :: cmds) ok evs => s.submit sid c cmds ok evs
  | .drain => s.drainOne
  | .flush =>
      { s with server := (s.server.flushDirty env.writes).flushMarketData env.now env.writes, gateway := .poll }
  -- back in `main`, which stops the engine thread
  | .stopped => { s with stop := true }

/-- `EngineThread::on_event`: one attempt to push. -/
def emit (s : System) (e : Event) (events : List Event) : System :=
  let r := tryPush s.outboxSize s.outbox e
  match r.2 with
  | .pushed _ => { s with outbox := r.1, thread := .emit events, outboxCalls := s.outboxCalls ++ [r.2] }
  | _ => s

/-- One attempt of `loop` to pop, and `process` on what it got. -/
def takeCommand (s : System) (now : Nat) : System :=
  let r := tryPop s.inbox
  match r.2 with
  | .popped c =>
      let o := s.engine.process now c
      { s with
        inbox := r.1
        engine := o.1
        thread := .emit (o.2.map fun em => em.event)
        inboxCalls := s.inboxCalls ++ [r.2]
        processed := s.processed ++ [(now, c)]
        emitted := s.emitted ++ o.2.map fun em => em.event }
  | _ => s

def engineStep (s : System) (now : Nat) : System :=
  match s.thread with
  | .top => if s.stop then { s with thread := .exited } else s.takeCommand now
  | .emit [] => { s with thread := .top }
  | .emit (e :: events) => s.emit e events
  | .exited => s

inductive Action where
  | gateway (env : Env)
  | engine (now : Nat)

def step (s : System) : Action → System
  | .gateway env => s.gatewayStep env
  | .engine now => s.engineStep now

/-- Any interleaving of the two threads. -/
def run (s : System) (actions : List Action) : System := actions.foldl step s

/-- A condition on every step of a run. -/
abbrev Along (P : System → Action → Prop) (s : System) (actions : List Action) : Prop := Guarded.Along step P s actions

theorem run_append (s : System) (actions more : List Action) : s.run (actions ++ more) = (s.run actions).run more :=
  List.foldl_append

@[simp] theorem run_concat (s : System) (actions : List Action) (a : Action) :
    s.run (actions ++ [a]) = (s.run actions).step a := by
  simp [run]

end System

end Matchbox
