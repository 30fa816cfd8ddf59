import Matchbox.Stream.Step
import Matchbox.System.Step

/-!
# The publisher inside the gateway

What the gateway does to its publisher are calls of the publisher's methods and nothing else. `System.calls` says which calls a step makes, with the descriptors, bytes and messages they are made with, and `System.step_publisher` that the publisher after the step is the one after these calls. So whatever holds of a publisher under any sequence of calls holds of the one in the gateway.
-/

namespace Matchbox

open Wire

/-! ### Registrations do not matter -/

namespace Publisher

theorem dropAll_poller (p : Publisher) (poller poller' : Poller) (dead : List Nat) :
    (p.dropAll poller dead).1 = (p.dropAll poller' dead).1 := by
  induction dead generalizing p poller poller' with
  | nil => rfl
  | cons fd dead ih => exact ih _ _ _

theorem pumpAll_poller (cfg : Config) (ring : ReplayRing) (now : Nat) (writes : Nat → List WriteResult)
    (poller poller' : Poller) (subs : List Subscriber) :
    (pumpAll cfg ring now writes poller subs).1 = (pumpAll cfg ring now writes poller' subs).1 := by
  induction subs generalizing poller poller' with
  | nil => rfl
  | cons s subs ih =>
      obtain ⟨hsub, hkept⟩ := s.pump_poller cfg ring now poller poller' (writes s.fd)
      simp only [pumpAll]
      rw [hsub, hkept, ih _ (s.pump cfg ring poller' now (writes s.fd)).2.1]

/-- What a call does to the publisher does not depend on the registrations. -/
theorem step_poller (p : Publisher) (poller poller' : Poller) (a : Action) :
    (step (p, poller) a).1 = (step (p, poller') a).1 := by
  cases a with
  | publish m => rfl
  | subscribe fd => rfl
  | onReadable fd reads =>
      simp only [step, onReadable]
      cases p.find fd with
      | none => rfl
      | some s =>
          dsimp only
          split
          · rfl
          · split
            · rfl
            · split <;> rfl
  | onWritable fd writes =>
      simp only [step, onWritable]
      cases p.find fd with
      | none => rfl
      | some s =>
          obtain ⟨hconn, hok⟩ := s.toConn.flushAndArm_poller poller poller' writes
          dsimp only
          rw [hconn, hok]
          split <;> rfl
  | flushAll now writes =>
      simp only [step, flushAll]
      split
      · rfl
      · rw [pumpAll_poller p.cfg p.ring now writes poller poller']
        exact dropAll_poller _ _ _ _

/-- Some calls, whoever else has registered in between. -/
def calls (p : Publisher) (acts : List Action) : Publisher :=
  acts.foldl (fun p a => (step (p, Poller.init) a).1) p

theorem calls_append (p : Publisher) (acts more : List Action) : p.calls (acts ++ more) = (p.calls acts).calls more :=
  List.foldl_append

theorem calls_singleton (p : Publisher) (poller : Poller) (a : Action) : p.calls [a] = (step (p, poller) a).1 :=
  step_poller p Poller.init poller a

theorem run_fst (cfg : Config) (acts : List Action) : (run cfg acts).1 = (init cfg).calls acts := by
  induction acts using List.reverseRecOn with
  | nil => rfl
  | append_singleton acts a ih =>
      rw [calls_append, ← ih, run, List.foldl_append]
      exact step_poller _ _ _ a

end Publisher

/-! ### The calls of a step -/

namespace Server

variable {sv sv' : Server}

theorem onSubscriber_publisher (ev : PollEvent) (reads : List ReadResult) (writes : List WriteResult) :
    (sv.onSubscriber ev reads writes).publisher = sv.publisher.calls (sv.subscriberCalls ev reads writes) := by
  rw [onSubscriber_eq]
  generalize sv.subscriberCalls ev reads writes = acts
  induction acts generalizing sv with
  | nil => rfl
  | cons a acts ih =>
      rw [List.foldl_cons, ih, ← List.singleton_append, Publisher.calls_append, sv.publisher.calls_singleton sv.poller]
      rfl

/-! Sessions are no business of the publisher. -/

theorem Serves.publisher (h : sv.Serves sv') : sv'.publisher = sv.publisher := by
  induction h with
  | refl => rfl
  | tail _ hserved ih =>
      refine Eq.trans ?_ ih
      cases hserved with
      | flushed | relieved | skipped => rfl
      | closed => rw [closeSession_eq]

theorem Reads.publisher {s : Session} {reads : List ReadResult} {r : Server × List Command × Bool}
    (h : Reads sv s reads r) : r.1.publisher = sv.publisher := by
  cases h with
  | failed => rw [closeSession_eq]
  | parsed => rfl

theorem Noted.publisher {e : Event} (h : sv.Noted e sv') :
    sv'.publisher = sv.publisher.calls (e.marketData?.toList.map .publish) := by
  cases h with
  | published hm =>
      rw [hm]
      rfl
  | sent hmarket hs hm =>
      rw [hmarket]
      rfl
  | dropped hmarket hnone =>
      rw [hmarket]
      rfl

theorem acceptOne_publisher (fd : Nat) (kind : Kind) :
    (sv.acceptOne fd kind).publisher = sv.publisher.calls (if kind = .session then [] else [.subscribe fd]) := by
  split
  · rename_i hkind
    rw [hkind, acceptOne_eq]
    rfl
  · rename_i hkind
    rw [sv.subscribe_eq fd hkind]
    rfl

end Server

namespace System

/-- The calls into the publisher that a step makes. -/
def calls (s : System) : Action → List Publisher.Action
  | .engine _ => []
  | .gateway env =>
      match s.gateway with
      | .events (ev :: _) =>
          if s.server.kindOf ev.fd = .subscriber then s.server.subscriberCalls ev env.reads (env.writes ev.fd) else []
      | .accepting kind _ =>
          match env.accepted with
          | .connected fd => if kind = .session then [] else [.subscribe fd]
          | .intr | .error => []
      | .drain => s.outbox.head?.toList.flatMap fun e => e.marketData?.toList.map .publish
      | .flush => [.flushAll env.now env.writes]
      | .poll | .events [] | .submit .. | .stopped => []

theorem calls_of_ne {s : System} {ev : PollEvent} {evs : List PollEvent} (hat : s.gateway = .events (ev :: evs))
    (hkind : s.server.kindOf ev.fd ≠ .subscriber) (env : Env) : s.calls (.gateway env) = [] := by
  rw [calls, hat]
  exact if_neg hkind

theorem Looped.publisher {s s' : System} {env : Env} (h : Looped s env s') :
    s'.server.publisher = s.server.publisher.calls (s.calls (.gateway env)) := by
  cases h with
  | quit hat | polled hat | walked hat | submitted hat | full hat | submittedAll hat | returned hat =>
      rw [calls, hat]
      rfl
  | listened hat hkind =>
      rw [calls_of_ne hat (by rcases hkind with hkind | hkind <;> rw [hkind] <;> decide)]
      rfl
  | unknown hat hkind =>
      rw [calls_of_ne hat (by rw [hkind]; decide)]
      rfl
  | subscriber hat hkind =>
      rw [calls, hat]
      dsimp only
      rw [if_pos hkind]
      exact s.server.onSubscriber_publisher _ env.reads _
  | @written ev evs hat hkind =>
      rw [calls_of_ne hat (by rw [hkind]; decide)]
      exact (s.server.onSessionWritable_serves ev _).publisher
  | @read ev evs sv session r hat hkind hready hsv hsession hread =>
      subst hsv hread
      rw [calls_of_ne hat (by rw [hkind]; decide)]
      exact (Server.readSession_reads _ _ _).publisher.trans (s.server.onSessionWritable_serves ev _).publisher
  | accepted hat haccepted =>
      rw [calls, hat, haccepted]
      exact s.server.acceptOne_publisher _ _
  | interrupted hat haccepted | acceptedAll hat haccepted =>
      rw [calls, hat, haccepted]
      rfl
  | hungUp hat =>
      rw [calls, hat]
      exact (s.server.hangUp_serves _ _).publisher
  | @drained e rest hat houtbox =>
      rw [calls, hat, houtbox]
      change (s.server.onEvent e).publisher = s.server.publisher.calls (e.marketData?.toList.map .publish ++ [])
      rw [List.append_nil]
      exact (s.server.onEvent_noted e).publisher
  | drainedAll hat houtbox =>
      rw [calls, hat, houtbox]
      rfl
  | flushed hat =>
      rw [calls, hat]
      change ((s.server.flushDirty env.writes).publisher.flushAll (s.server.flushDirty env.writes).poller env.now
        env.writes).1 = _
      rw [(s.server.flushDirty_serves env.writes).publisher]
      exact (Publisher.calls_singleton _ _ (.flushAll env.now env.writes)).symm

/-- The publisher after a step is the one after its calls. -/
theorem step_publisher (s : System) (a : Action) :
    (s.step a).server.publisher = s.server.publisher.calls (s.calls a) := by
  cases a with
  | gateway env => exact (s.gatewayStep_looped env).publisher
  | engine now => exact congrArg Server.publisher (s.engineStep_server now).1

/-- The publisher of a running system is one that was only called. -/
theorem run_publisher (s : System) (actions : List Action) :
    ∃ acts, (s.run actions).server.publisher = s.server.publisher.calls acts := by
  induction actions using List.reverseRecOn with
  | nil => exact ⟨[], rfl⟩
  | append_singleton actions a ih =>
      obtain ⟨acts, hacts⟩ := ih
      exact ⟨acts ++ (s.run actions).calls a, by rw [run_concat, step_publisher, hacts, Publisher.calls_append]⟩

end System

end Matchbox
