import Matchbox.Gateway.Tended
import Matchbox.System.Run

/-!
# What a step can do

`Looped` lists the transitions of the gateway's loop, each with the system it leads to. `Stepped` covers both threads and is coarser: what one step does to the rings, to what the threads have begun and to the sessions. What holds of whole runs is proved from one of the two, case by case, without looking at the loops again.
-/

namespace Matchbox

open BoundedFifo

/-- The commands the gateway submits before it does anything else. -/
def GatewayAt.commands : GatewayAt → List Command
  | .submit _ cmds _ _ => cmds
  | _ => []

/-- The events the engine pushes before it does anything else. -/
def EngineAt.events : EngineAt → List Event
  | .emit events => events
  | _ => []

namespace System

/-- The commands that handling a polled event has to submit: those decoded from what is read now and was left over before. -/
def batch (s : System) (ev : PollEvent) (env : Env) : List Command :=
  let sv := s.server.onSessionWritable ev (env.writes ev.fd)
  match sv.sessionByFd ev.fd with
  | none => []
  | some session => if ev.readable ∨ ev.hangup then (sv.readSession session env.reads).2.1 else []

/-- The command carries the identifier of a session that is open now or while the gateway works on its sessions. -/
def Known (s : System) (c : Command) : Prop :=
  ∃ sv sid session, s.server.Tends sv ∧ sv.sessions sid = some session ∧ c.session = session.id

/-- One step of the gateway thread, by where it is and what the environment answers. -/
inductive Looped (s : System) (env : Env) : System → Prop
  /-- `run` returns, because it was told to stop or because the Poller failed. -/
  | quit (hat : s.gateway = .poll) : Looped s env { s with gateway := .stopped }
  | polled {evs : List PollEvent} (hat : s.gateway = .poll) (hstop : env.stop = false) (hpolled : env.polled = some evs) :
      Looped s env { s with gateway := .events evs }
  | walked (hat : s.gateway = .events []) : Looped s env { s with gateway := .drain }
  /-- The event of a listening socket. -/
  | listened {ev : PollEvent} {evs : List PollEvent} {kind : Server.Kind} (hat : s.gateway = .events (ev :: evs))
      (hkind : s.server.kindOf ev.fd = .listen ∨ s.server.kindOf ev.fd = .mdListen) :
      Looped s env { s with gateway := .accepting kind evs }
  /-- The event of a descriptor that has been closed since. -/
  | unknown {ev : PollEvent} {evs : List PollEvent} (hat : s.gateway = .events (ev :: evs))
      (hkind : s.server.kindOf ev.fd = .none) : Looped s env { s with gateway := .events evs }
  | subscriber {ev : PollEvent} {evs : List PollEvent} (hat : s.gateway = .events (ev :: evs))
      (hkind : s.server.kindOf ev.fd = .subscriber) :
      Looped s env { s with
        server := s.server.onSubscriber ev env.reads (env.writes ev.fd)
        gateway := .events evs }
  /-- A session's event after which nothing is read. -/
  | written {ev : PollEvent} {evs : List PollEvent} (hat : s.gateway = .events (ev :: evs))
      (hkind : s.server.kindOf ev.fd = .session)
      (hunread : ev.readable ∨ ev.hangup →
        (s.server.onSessionWritable ev (env.writes ev.fd)).sessionByFd ev.fd = none) :
      Looped s env { s with
        server := s.server.onSessionWritable ev (env.writes ev.fd)
        gateway := .events evs }
  | read {ev : PollEvent} {evs : List PollEvent} {sv : Server} {session : Session}
      {r : Server × List Command × Bool} (hat : s.gateway = .events (ev :: evs))
      (hkind : s.server.kindOf ev.fd = .session) (hready : ev.readable ∨ ev.hangup)
      (hsv : s.server.onSessionWritable ev (env.writes ev.fd) = sv) (hsession : sv.sessionByFd ev.fd = some session)
      (hread : sv.readSession session env.reads = r) :
      Looped s env { s with server := r.1, gateway := .submit session.id r.2.1 r.2.2 evs }
  | accepted {kind : Server.Kind} {evs : List PollEvent} {fd : Nat} (hat : s.gateway = .accepting kind evs)
      (haccepted : env.accepted = .connected fd) : Looped s env { s with server := s.server.acceptOne fd kind }
  | interrupted {kind : Server.Kind} {evs : List PollEvent} (hat : s.gateway = .accepting kind evs)
      (haccepted : env.accepted = .intr) : Looped s env s
  | acceptedAll {kind : Server.Kind} {evs : List PollEvent} (hat : s.gateway = .accepting kind evs)
      (haccepted : env.accepted = .error) : Looped s env { s with gateway := .events evs }
  | submitted {sid : Nat} {c : Command} {cmds : List Command} {ok : Bool} {evs : List PollEvent}
      (hat : s.gateway = .submit sid (c :: cmds) ok evs) (hroom : s.inbox.length < s.inboxSize) :
      Looped s env { s with
        inbox := s.inbox ++ [c]
        gateway := .submit sid cmds ok evs
        inboxCalls := s.inboxCalls ++ [.pushed c] }
  /-- With a full inbox the gateway spins. -/
  | full {sid : Nat} {c : Command} {cmds : List Command} {ok : Bool} {evs : List PollEvent}
      (hat : s.gateway = .submit sid (c :: cmds) ok evs) (hfull : ¬ s.inbox.length < s.inboxSize) : Looped s env s
  | submittedAll {sid : Nat} {evs : List PollEvent} (hat : s.gateway = .submit sid [] true evs) :
      Looped s env { s with gateway := .events evs }
  | hungUp {sid : Nat} {evs : List PollEvent} {writes : List WriteResult} (hat : s.gateway = .submit sid [] false evs) :
      Looped s env { s with server := s.server.hangUp sid writes, gateway := .events evs }
  | drained {e : Event} {rest : List Event} (hat : s.gateway = .drain) (houtbox : s.outbox = e :: rest) :
      Looped s env { s with
        outbox := rest
        server := s.server.onEvent e
        outboxCalls := s.outboxCalls ++ [.popped e] }
  | drainedAll (hat : s.gateway = .drain) (houtbox : s.outbox = []) : Looped s env { s with gateway := .flush }
  | flushed (hat : s.gateway = .flush) :
      Looped s env { s with
        server := (s.server.flushDirty env.writes).flushMarketData env.now env.writes
        gateway := .poll }
  /-- `main` tells the engine thread to stop. -/
  | returned (hat : s.gateway = .stopped) : Looped s env { s with stop := true }

/-- One step of either thread, as far as the other can tell. -/
inductive Stepped (s : System) : Action → System → Prop
  /-- The gateway handles the event of a session, and may begin a batch. -/
  | handled {env : Env} {ev : PollEvent} {evs : List PollEvent} {sv : Server} {g : GatewayAt}
      (hat : s.gateway = .events (ev :: evs)) (hkind : s.server.kindOf ev.fd = .session) (htends : s.server.Tends sv)
      (hbatch : g.commands = s.batch ev env) (hknown : ∀ c ∈ g.commands, s.Known c) :
      Stepped s (.gateway env) { s with server := sv, gateway := g }
  /-- The gateway does anything else with its own data. -/
  | tended {env : Env} {sv : Server} {g : GatewayAt} {stop : Bool} (htends : s.server.Tends sv) (hnone : g.commands = []) :
      Stepped s (.gateway env) { s with server := sv, gateway := g, stop := stop }
  /-- The gateway accepts a session. -/
  | accepted {env : Env} {fd : Nat} {evs : List PollEvent} (hat : s.gateway = .accepting .session evs) :
      Stepped s (.gateway env) { s with server := s.server.acceptOne fd .session }
  /-- The gateway submits a command. -/
  | submitted {env : Env} {sid : Nat} {c : Command} {cmds : List Command} {ok : Bool} {evs : List PollEvent}
      (hat : s.gateway = .submit sid (c :: cmds) ok evs) (hroom : s.inbox.length < s.inboxSize) :
      Stepped s (.gateway env) { s with
        inbox := s.inbox ++ [c]
        gateway := .submit sid cmds ok evs
        inboxCalls := s.inboxCalls ++ [.pushed c] }
  /-- The gateway drains an event. -/
  | drained {env : Env} {e : Event} {rest : List Event} (hat : s.gateway = .drain) (houtbox : s.outbox = e :: rest) :
      Stepped s (.gateway env) { s with
        outbox := rest
        server := s.server.onEvent e
        outboxCalls := s.outboxCalls ++ [.popped e] }
  /-- The engine takes a command. -/
  | taken {now : Nat} {c : Command} {rest : List Command} (hat : s.thread = .top) (hstop : s.stop = false)
      (hinbox : s.inbox = c :: rest) :
      Stepped s (.engine now) { s with
        inbox := rest
        engine := (s.engine.process now c).1
        thread := .emit ((s.engine.process now c).2.map fun em => em.event)
        inboxCalls := s.inboxCalls ++ [.popped c]
        processed := s.processed ++ [(now, c)]
        emitted := s.emitted ++ (s.engine.process now c).2.map fun em => em.event }
  /-- The engine pushes an event. -/
  | pushed {now : Nat} {e : Event} {events : List Event} (hat : s.thread = .emit (e :: events))
      (hroom : s.outbox.length < s.outboxSize) :
      Stepped s (.engine now) { s with
        outbox := s.outbox ++ [e]
        thread := .emit events
        outboxCalls := s.outboxCalls ++ [.pushed e] }
  /-- The engine goes on with nothing left to push. -/
  | returned {now : Nat} {t : EngineAt} (hdone : s.thread.events = []) (hnone : t.events = []) :
      Stepped s (.engine now) { s with thread := t }
  /-- A thread waits. -/
  | waited {a : Action} : Stepped s a s

/-! ### The gateway -/

variable {s : System}

theorem handle_looped (s : System) {ev : PollEvent} {evs : List PollEvent} (hat : s.gateway = .events (ev :: evs))
    (env : Env) : Looped s env (s.handle ev evs env) := by
  rw [handle]
  cases hkind : s.server.kindOf ev.fd with
  | none => exact .unknown hat hkind
  | listen => exact .listened hat (.inl hkind)
  | mdListen => exact .listened hat (.inr hkind)
  | subscriber => exact .subscriber hat hkind
  | session =>
      dsimp only
      split
      · rename_i hready
        cases hsession : (s.server.onSessionWritable ev (env.writes ev.fd)).sessionByFd ev.fd with
        | none => exact .written hat hkind fun _ => hsession
        | some session => exact .read hat hkind hready rfl hsession rfl
      · rename_i hidle
        exact .written hat hkind fun hready => absurd hready hidle

theorem step_handle {ev : PollEvent} {evs : List PollEvent} (hat : s.gateway = .events (ev :: evs)) (env : Env) :
    s.step (.gateway env) = s.handle ev evs env := by
  rw [step, gatewayStep, hat]

theorem step_submit {sid : Nat} {c : Command} {cmds : List Command} {ok : Bool} {evs : List PollEvent}
    (hat : s.gateway = .submit sid (c :: cmds) ok evs) (hroom : s.inbox.length < s.inboxSize) (env : Env) :
    s.step (.gateway env) = { s with
      inbox := s.inbox ++ [c]
      gateway := .submit sid cmds ok evs
      inboxCalls := s.inboxCalls ++ [.pushed c] } := by
  rw [step, gatewayStep, hat]
  dsimp only
  rw [submit, tryPush, if_pos hroom]

theorem step_submit_full {sid : Nat} {c : Command} {cmds : List Command} {ok : Bool} {evs : List PollEvent}
    (hat : s.gateway = .submit sid (c :: cmds) ok evs) (hfull : ¬ s.inbox.length < s.inboxSize) (env : Env) :
    s.step (.gateway env) = s := by
  rw [step, gatewayStep, hat]
  dsimp only
  rw [submit, tryPush, if_neg hfull]

theorem step_accept {kind : Server.Kind} {evs : List PollEvent} (hat : s.gateway = .accepting kind evs) {env : Env}
    {fd : Nat} (haccepted : env.accepted = .connected fd) :
    s.step (.gateway env) = { s with server := s.server.acceptOne fd kind } := by
  rw [step, gatewayStep, hat, haccepted]

theorem step_accept_intr {kind : Server.Kind} {evs : List PollEvent} (hat : s.gateway = .accepting kind evs) {env : Env}
    (haccepted : env.accepted = .intr) : s.step (.gateway env) = s := by
  rw [step, gatewayStep, hat, haccepted]

theorem step_drain {e : Event} {rest : List Event} (hat : s.gateway = .drain) (houtbox : s.outbox = e :: rest)
    (env : Env) :
    s.step (.gateway env) = { s with
      outbox := rest
      server := s.server.onEvent e
      outboxCalls := s.outboxCalls ++ [.popped e] } := by
  rw [step, gatewayStep, hat]
  dsimp only
  rw [drainOne, houtbox]
  dsimp only [tryPop]
  rw [hat]

theorem step_drain_nil (hat : s.gateway = .drain) (houtbox : s.outbox = []) (env : Env) :
    s.step (.gateway env) = { s with gateway := .flush } := by
  rw [step, gatewayStep, hat]
  dsimp only
  rw [drainOne, houtbox]
  rfl

theorem step_returned (hat : s.gateway = .stopped) (env : Env) : s.step (.gateway env) = { s with stop := true } := by
  rw [step, gatewayStep, hat]

theorem gatewayStep_looped (s : System) (env : Env) : Looped s env (s.step (.gateway env)) := by
  cases hat : s.gateway with
  | poll =>
      rw [step, gatewayStep, hat]
      dsimp only
      split
      · exact .quit hat
      · rename_i hstop
        cases hpolled : env.polled with
        | none => exact .quit hat
        | some evs => exact .polled hat (Bool.eq_false_of_not_eq_true hstop) hpolled
  | events evs =>
      cases evs with
      | nil =>
          rw [step, gatewayStep, hat]
          exact .walked hat
      | cons ev evs =>
          rw [step_handle hat]
          exact s.handle_looped hat env
  | accepting kind evs =>
      cases haccepted : env.accepted with
      | connected fd =>
          rw [step_accept hat haccepted]
          exact .accepted hat haccepted
      | intr =>
          rw [step_accept_intr hat haccepted]
          exact .interrupted hat haccepted
      | error =>
          rw [step, gatewayStep, hat, haccepted]
          exact .acceptedAll hat haccepted
  | submit sid cmds ok evs =>
      cases cmds with
      | nil =>
          rw [step, gatewayStep, hat]
          cases ok with
          | true => exact .submittedAll hat
          | false => exact .hungUp hat
      | cons c cmds =>
          by_cases hroom : s.inbox.length < s.inboxSize
          · rw [step_submit hat hroom]
            exact .submitted hat hroom
          · rw [step_submit_full hat hroom]
            exact .full hat hroom
  | drain =>
      cases houtbox : s.outbox with
      | nil =>
          rw [step_drain_nil hat houtbox]
          exact .drainedAll hat houtbox
      | cons e rest =>
          rw [step_drain hat houtbox]
          exact .drained hat houtbox
  | flush =>
      rw [step, gatewayStep, hat]
      exact .flushed hat
  | stopped =>
      rw [step_returned hat]
      exact .returned hat

theorem handle_session {ev : PollEvent} (evs : List PollEvent) (env : Env) (hkind : s.server.kindOf ev.fd = .session) :
    ∃ sv g, s.handle ev evs env = { s with server := sv, gateway := g } ∧ g.commands = s.batch ev env := by
  rw [handle, hkind, batch]
  dsimp only
  cases (s.server.onSessionWritable ev (env.writes ev.fd)).sessionByFd ev.fd with
  | none => split <;> exact ⟨_, .events evs, rfl, rfl⟩
  | some session =>
      split
      · exact ⟨_, .submit session.id _ _ evs, rfl, rfl⟩
      · exact ⟨_, .events evs, rfl, rfl⟩

/-- Handling a session's event leaves its batch to be submitted, and each command in it is of an open session. -/
theorem Looped.stepped {env : Env} {s' : System} (h : Looped s env s') : Stepped s (.gateway env) s' := by
  cases h with
  | quit | polled | walked | listened | unknown | acceptedAll | submittedAll | drainedAll => exact .tended .refl rfl
  | returned hat => exact .tended .refl (by rw [hat]; rfl)
  | @subscriber ev => exact .tended (s.server.onSubscriber_tends ev env.reads (env.writes ev.fd)) rfl
  | @written ev evs hat hkind hunread =>
      have hbatch : s.batch ev env = [] := by
        rw [batch]
        split
        · rfl
        · rename_i hsession
          exact if_neg fun hready => by cases (hunread hready).symm.trans hsession
      exact .handled hat hkind (s.server.onSessionWritable_serves ev (env.writes ev.fd)).tends hbatch.symm
        fun c hc => absurd hc List.not_mem_nil
  | @read ev evs sv session r hat hkind hready hsv hsession hread =>
      have hbatch : s.batch ev env = r.2.1 := by
        rw [batch, hsv, hsession, ← hread]
        exact if_pos hready
      have hwritable := (s.server.onSessionWritable_serves ev (env.writes ev.fd)).tends
      have hreads := sv.readSession_reads session env.reads
      rw [hsv] at hwritable
      rw [hread] at hreads
      obtain ⟨sid, hs⟩ := Server.exists_of_sessionByFd hsession
      exact .handled hat hkind (hwritable.tail (hreads.tended hs)) hbatch.symm
        fun c hc => ⟨sv, sid, session, hwritable, hs, hreads.session hc⟩
  | @accepted kind evs fd hat =>
      by_cases hkind : kind = .session
      · subst hkind
        exact .accepted hat
      · exact .tended (.single (s.server.subscribe_tended fd hkind)) (by rw [hat]; rfl)
  | submitted hat hroom => exact .submitted hat hroom
  | hungUp => exact .tended (s.server.hangUp_serves _ _).tends rfl
  | drained hat houtbox => exact .drained hat houtbox
  | flushed =>
      exact .tended ((s.server.flushDirty_serves env.writes).tends.tail
        (Server.flushMarketData_tended _ env.now env.writes)) rfl
  | interrupted | full => exact .waited

/-! ### The engine -/

theorem step_emit {e : Event} {events : List Event} (hat : s.thread = .emit (e :: events))
    (hroom : s.outbox.length < s.outboxSize) (now : Nat) :
    s.step (.engine now) = { s with
      outbox := s.outbox ++ [e]
      thread := .emit events
      outboxCalls := s.outboxCalls ++ [.pushed e] } := by
  rw [step, engineStep, hat]
  dsimp only
  rw [emit, tryPush, if_pos hroom]

/-- With a full outbox the engine spins. -/
theorem step_emit_full {e : Event} {events : List Event} (hat : s.thread = .emit (e :: events))
    (hfull : ¬ s.outbox.length < s.outboxSize) (now : Nat) : s.step (.engine now) = s := by
  rw [step, engineStep, hat]
  dsimp only
  rw [emit, tryPush, if_neg hfull]

theorem step_take {c : Command} {rest : List Command} (hat : s.thread = .top) (hstop : s.stop = false)
    (hinbox : s.inbox = c :: rest) (now : Nat) :
    s.step (.engine now) = { s with
      inbox := rest
      engine := (s.engine.process now c).1
      thread := .emit ((s.engine.process now c).2.map fun em => em.event)
      inboxCalls := s.inboxCalls ++ [.popped c]
      processed := s.processed ++ [(now, c)]
      emitted := s.emitted ++ (s.engine.process now c).2.map fun em => em.event } := by
  rw [step, engineStep, hat]
  dsimp only
  rw [if_neg (by rw [hstop]; decide), takeCommand, hinbox]
  rfl

theorem engineStep_stepped (s : System) (now : Nat) : Stepped s (.engine now) (s.step (.engine now)) := by
  cases hat : s.thread with
  | top =>
      cases hstop : s.stop with
      | true =>
          rw [step, engineStep, hat]
          dsimp only
          rw [if_pos hstop]
          exact .returned (by rw [hat]; rfl) rfl
      | false =>
          cases hin : s.inbox with
          | nil =>
              rw [step, engineStep, hat]
              dsimp only
              rw [if_neg (by rw [hstop]; decide), takeCommand, hin]
              exact .waited
          | cons c rest =>
              rw [step_take hat hstop hin]
              exact .taken hat hstop hin
  | emit events =>
      cases events with
      | nil =>
          rw [step, engineStep, hat]
          exact .returned (by rw [hat]; rfl) rfl
      | cons e events =>
          by_cases hroom : s.outbox.length < s.outboxSize
          · rw [step_emit hat hroom]
            exact .pushed hat hroom
          · rw [step_emit_full hat hroom]
            exact .waited
  | exited =>
      rw [step, engineStep, hat]
      exact .waited

/-- The engine thread does not touch the gateway. -/
theorem engineStep_server (s : System) (now : Nat) :
    (s.step (.engine now)).server = s.server ∧ (s.step (.engine now)).gateway = s.gateway := by
  have hstepped := s.engineStep_stepped now
  generalize s.step (.engine now) = s' at hstepped
  cases hstepped <;> exact ⟨rfl, rfl⟩

theorem step_stepped (s : System) (a : Action) : Stepped s a (s.step a) := by
  cases a with
  | gateway env => exact (s.gatewayStep_looped env).stepped
  | engine now => exact s.engineStep_stepped now

end System

end Matchbox
