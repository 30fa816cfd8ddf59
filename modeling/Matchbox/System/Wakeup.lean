import Matchbox.Gateway.Changed
import Matchbox.System.Step

/-!
# No response without a wake-up

Whoever queues a frame marks its connection: a session is listed in `dirty_`, a subscriber marks the whole publisher. `Server.Wired` says so, of any moment of `run`. The flushes at the end of an iteration then leave every connection with write interest exactly while it has bytes pending, which is `Server.Settled`.

The kernel is trusted in one thing: a descriptor that `::accept` returns is not open already, so that it is not registered.
-/

namespace Matchbox

/-! ### The gateway -/

namespace Publisher

theorem Watched.congr {p : Publisher} {poller poller' : Poller} (h : Watched (p, poller))
    (hpoller : ∀ s ∈ p.subs, poller' s.fd = poller s.fd) : Watched (p, poller') where
  distinct := h.distinct
  conserved := h.conserved
  registered := fun s hs => (hpoller s hs).trans (h.registered s hs)
  armed := h.armed

end Publisher

namespace Server

/-- Every connection of the gateway is registered under a descriptor of its own, and armed or marked. -/
structure Wired (sv : Server) : Prop where
  keyed : sv.Keyed
  publisher : Publisher.Watched (sv.publisher, sv.poller)
  sessions : ∀ sid s, sv.sessions sid = some s → s.Watched sv.poller sv.dirty
  apart : ∀ sid sid' s s', sv.sessions sid = some s → sv.sessions sid' = some s' → s.fd = s'.fd → sid = sid'
  aside : ∀ sid s, sv.sessions sid = some s → ∀ t ∈ sv.publisher.subs, t.fd ≠ s.fd

section Steps

variable {sv sv' : Server} {sid : Nat} {s : Session}

theorem Wired.change (h : sv.Wired) (hs : sv.sessions sid = some s) {x : Option Session}
    (hsessions : sv'.sessions = Function.update sv.sessions s.id x) (hspares : Spares sv sv' sid s)
    (hx : ∀ s', x = some s' → s'.id = s.id ∧ s'.fd = s.fd ∧ s'.Watched sv'.poller sv'.dirty) : sv'.Wired := by
  have hid := h.keyed sid s hs
  have hmem : ∀ sid' t, sv'.sessions sid' = some t →
      sid' = s.id ∧ x = some t ∨ sid' ≠ s.id ∧ sv.sessions sid' = some t ∧ t.fd ≠ s.fd := by
    intro sid' t ht
    rw [hsessions] at ht
    by_cases heq : sid' = s.id
    · subst heq
      rw [Function.update_self] at ht
      exact Or.inl ⟨rfl, ht⟩
    · rw [Function.update_of_ne heq] at ht
      refine Or.inr ⟨heq, ht, fun hfd => heq ?_⟩
      rw [hid]
      exact h.apart sid' sid t s ht hs hfd
  refine ⟨h.keyed.of_update (fun s' hs' => (hx s' hs').1) hsessions, ?_, ?_, ?_, ?_⟩
  · rw [hspares.publisher]
    exact h.publisher.congr fun t ht => hspares.poller t.fd (h.aside sid s hs t ht)
  · intro sid' t ht
    rcases hmem sid' t ht with ⟨-, hx'⟩ | ⟨hne, ht, hfd⟩
    · exact (hx t hx').2.2
    · have hid' := h.keyed sid' t ht
      exact (h.sessions sid' t ht).congr (hspares.poller t.fd hfd) (hspares.dirty t.id (by rw [hid', ← hid]; exact hne))
  · intro sid₁ sid₂ t₁ t₂ ht₁ ht₂ hfd
    rcases hmem sid₁ t₁ ht₁ with ⟨rfl, hx₁⟩ | ⟨hne₁, ht₁, hfd₁⟩
    · rcases hmem sid₂ t₂ ht₂ with ⟨rfl, -⟩ | ⟨-, -, hfd₂⟩
      · rfl
      · exact absurd (hfd.symm.trans (hx t₁ hx₁).2.1) hfd₂
    · rcases hmem sid₂ t₂ ht₂ with ⟨rfl, hx₂⟩ | ⟨-, ht₂, -⟩
      · exact absurd (hfd.trans (hx t₂ hx₂).2.1) hfd₁
      · exact h.apart sid₁ sid₂ t₁ t₂ ht₁ ht₂ hfd
  · intro sid' t ht u hu
    rw [hspares.publisher] at hu
    rcases hmem sid' t ht with ⟨-, hx'⟩ | ⟨-, ht, -⟩
    · rw [(hx t hx').2.1]
      exact h.aside sid s hs u hu
    · exact h.aside sid' t ht u hu

/-- The publisher does something, and the Poller is told about subscribers only. -/
theorem Wired.publish (h : sv.Wired) (a : Publisher.Action) (hfree : ∀ fd, a = .subscribe fd → sv.poller fd = none)
    (hpublisher : sv'.publisher = (Publisher.step (sv.publisher, sv.poller) a).1)
    (hpoller : sv'.poller = (Publisher.step (sv.publisher, sv.poller) a).2)
    (hsessions : sv'.sessions = sv.sessions) (hdirty : sv'.dirty = sv.dirty) : sv'.Wired where
  keyed := by
    intro sid s hs
    rw [hsessions] at hs
    exact h.keyed sid s hs
  publisher := by
    rw [hpublisher, hpoller]
    exact h.publisher.step a hfree
  sessions := by
    intro sid s hs
    rw [hsessions] at hs
    have hwatched := h.sessions sid s hs
    rw [hpoller, hdirty]
    apply hwatched.congr _ fun hmem => hmem
    apply Publisher.step_other h.publisher.distinct a (h.aside sid s hs)
    intro hnew
    cases (hfree s.fd hnew).symm.trans hwatched.registered
  apart := by
    rw [hsessions]
    exact h.apart
  aside := by
    intro sid s hs t ht
    rw [hsessions] at hs
    rw [hpublisher] at ht
    rcases Publisher.mem_subs_step h.publisher.distinct a ht with ⟨t₀, ht₀, heq⟩ | ⟨fd, hnew, rfl⟩
    · have hfd := t₀.after_fd sv.publisher a
      rw [heq] at hfd
      rw [hfd]
      exact h.aside sid s hs t₀ ht₀
    · rintro rfl
      cases (hfree s.fd hnew).symm.trans (h.sessions sid s hs).registered

theorem Wired.changed (h : sv.Wired) (hchanged : sv.Changed sv') : sv'.Wired := by
  cases hchanged with
  | kept hs hid hfd hwatched hsessions hspares _ =>
      refine h.change hs hsessions hspares ?_
      intro s' hs'
      cases hs'
      exact ⟨hid, hfd, hwatched (h.sessions _ _ hs)⟩
  | closed hs hsessions hspares _ =>
      refine h.change hs hsessions hspares ?_
      intro s' hs'
      cases hs'
  | published a hold hpublisher hsessions hdirty _ =>
      obtain ⟨hstep, hpoller⟩ := Prod.mk.inj hpublisher
      exact h.publish a (fun fd hcon => absurd hcon (hold fd)) hstep hpoller hsessions hdirty
  | other hpublisher hpoller hsessions hdirty _ =>
      refine ⟨?_, ?_, ?_, ?_, ?_⟩
      · intro sid s hs
        rw [hsessions] at hs
        exact h.keyed sid s hs
      · rw [hpublisher, hpoller]
        exact h.publisher
      · intro sid s hs
        rw [hsessions] at hs
        rw [hpoller]
        apply (h.sessions sid s hs).congr rfl
        rw [h.keyed sid s hs]
        exact hdirty sid (by rw [hs]; rfl)
      · rw [hsessions]
        exact h.apart
      · rw [hsessions, hpublisher]
        exact h.aside

theorem Wired.changes (h : sv.Wired) (hchanges : sv.Changes sv') : sv'.Wired := by
  induction hchanges with
  | refl => exact h
  | tail _ hchanged ih => exact ih.changed hchanged

theorem mem_acceptOne {fd : Nat} (hs : (sv.acceptOne fd .session).sessions sid = some s) :
    sv.sessions sid = some s ∨ sid = sv.nextSid ∧ s = .accepted fd sv.nextSid := by
  rcases sv.acceptOne_cases fd .session with hsame | ⟨-, hsessions⟩
  · rw [hsame] at hs
    exact Or.inl hs
  · rw [hsessions] at hs
    by_cases heq : sid = sv.nextSid
    · subst heq
      rw [Function.update_self, Option.some.injEq] at hs
      exact Or.inr ⟨rfl, hs.symm⟩
    · rw [Function.update_of_ne heq] at hs
      exact Or.inl hs

/-- A session is accepted under a new descriptor; with its identifier taken, only the descriptor is registered. -/
theorem Wired.accept (h : sv.Wired) {fd : Nat} (hfree : sv.poller fd = none) : (sv.acceptOne fd .session).Wired := by
  have hpoller : (sv.acceptOne fd .session).poller = sv.poller.add fd := by rw [acceptOne_eq]
  have hpublisher : (sv.acceptOne fd .session).publisher = sv.publisher := by rw [acceptOne_eq]
  have hdirty : (sv.acceptOne fd .session).dirty = sv.dirty := by rw [acceptOne_eq]
  have hne : ∀ sid t, sv.sessions sid = some t → t.fd ≠ fd := by
    rintro sid t ht rfl
    cases hfree.symm.trans (h.sessions sid t ht).registered
  have hsub : ∀ t ∈ sv.publisher.subs, t.fd ≠ fd := by
    rintro t ht rfl
    cases hfree.symm.trans (h.publisher.registered t ht)
  refine ⟨h.keyed.turn (.accept fd .session), ?_, ?_, ?_, ?_⟩
  · rw [hpublisher, hpoller]
    exact h.publisher.congr fun t ht => sv.poller.add_of_ne (hsub t ht)
  · intro sid t ht
    rw [hpoller, hdirty]
    rcases mem_acceptOne ht with ht | ⟨-, rfl⟩
    · exact (h.sessions sid t ht).congr (sv.poller.add_of_ne (hne sid t ht)) fun hlisted => hlisted
    · exact ⟨⟨rfl, le_rfl⟩, Poller.add_self hfree, fun _ => rfl, fun hcon => by cases hcon⟩
  · intro sid₁ sid₂ t₁ t₂ ht₁ ht₂ hfd
    rcases mem_acceptOne ht₁ with ht₁ | ⟨rfl, rfl⟩
    · rcases mem_acceptOne ht₂ with ht₂ | ⟨-, rfl⟩
      · exact h.apart sid₁ sid₂ t₁ t₂ ht₁ ht₂ hfd
      · exact absurd hfd (hne sid₁ t₁ ht₁)
    · rcases mem_acceptOne ht₂ with ht₂ | ⟨rfl, -⟩
      · exact absurd hfd.symm (hne sid₂ t₂ ht₂)
      · rfl
  · intro sid t ht u hu
    rw [hpublisher] at hu
    rcases mem_acceptOne ht with ht | ⟨-, rfl⟩
    · exact h.aside sid t ht u hu
    · exact hsub u hu

theorem Wired.acceptOne (h : sv.Wired) {fd : Nat} (hfree : sv.poller fd = none) (kind : Kind) :
    (sv.acceptOne fd kind).Wired := by
  by_cases hkind : kind = .session
  · subst hkind
    exact h.accept hfree
  · rw [sv.subscribe_eq fd hkind]
    refine h.publish (.subscribe fd) ?_ rfl rfl rfl rfl
    intro fd' hfd'
    cases hfd'
    exact hfree

theorem wired_init (cfg : Config) (listenFd mdListenFd : Nat) : (Server.init cfg listenFd mdListenFd).Wired := by
  have hkeyed := keyed_init cfg listenFd mdListenFd
  rw [init_eq] at hkeyed ⊢
  refine ⟨hkeyed, Publisher.Watched.init cfg.md _, ?_, ?_, ?_⟩
  · intro sid s hs
    cases hs
  · intro sid sid' s s' hs
    cases hs
  · intro sid s hs
    cases hs

end Steps

end Server

/-! ### At the end of an iteration -/

/-- Every byte queued for the peer was taken by the kernel, or a writable event will come. -/
structure Conn.Settled (c : Conn) (poller : Poller) : Prop where
  armed : c.wantWrite = c.pending
  registered : poller c.fd = some c.wantWrite
  bytes : c.sent ++ c.tx.drop c.txOff = c.appended.flatten
  wakeup : c.sent = c.appended.flatten ∨ poller c.fd = some true

theorem Conn.Conserved.settled {c : Conn} {poller : Poller} (h : c.Conserved) (hregistered : c.Registered poller)
    (harmed : c.Armed) : c.Settled poller where
  armed := harmed
  registered := hregistered
  bytes := h.bytes
  wakeup := by
    cases hpending : c.pending with
    | true =>
        right
        rw [hregistered, harmed, hpending]
    | false =>
        left
        have hall : c.tx.length ≤ c.txOff := Nat.not_lt.1 (of_decide_eq_false hpending)
        rw [← h.bytes, List.drop_eq_nil_of_le hall, List.append_nil]

/-- Nothing is left to do until the next event. -/
structure Server.Settled (sv : Server) : Prop where
  sessions : ∀ sid s, sv.sessions sid = some s → s.toConn.Settled sv.poller ∧ s.dirty = false
  subscribers : ∀ s ∈ sv.publisher.subs, s.toConn.Settled sv.poller
  dirty : sv.dirty = []

theorem Server.Wired.settled {sv : Server} (h : sv.Wired) (hdirty : sv.dirty = []) (hquiet : sv.publisher.dirty = false) :
    sv.Settled where
  sessions := by
    intro sid s hs
    have hwatched := h.sessions sid s hs
    have hclean : s.dirty = false := by
      by_contra hcon
      have hlisted := hwatched.listed (Bool.eq_true_of_not_eq_false hcon)
      rw [hdirty] at hlisted
      cases hlisted
    exact ⟨hwatched.conserved.settled hwatched.registered (hwatched.armed hclean), hclean⟩
  subscribers := fun s hs =>
    (h.publisher.conserved s hs).settled (h.publisher.registered s hs) (h.publisher.armed hquiet s hs)
  dirty := hdirty

/-! ### Whole runs -/

/-- The polled events that are still to be handled. -/
def GatewayAt.pending : GatewayAt → List PollEvent
  | .events evs => evs
  | .accepting _ evs => evs
  | .submit _ _ _ evs => evs
  | _ => []

namespace System

/-- The descriptor that a step of the gateway accepts. -/
def accepts? (s : System) : Action → Option Nat
  | .engine _ => none
  | .gateway env =>
      match s.gateway, env.accepted with
      | .accepting _ _, .connected fd => some fd
      | _, _ => none

/-- The events that a step of the gateway gets from the Poller. -/
def polls (s : System) : Action → List PollEvent
  | .engine _ => []
  | .gateway env =>
      match s.gateway with
      | .poll => if env.stop then [] else env.polled.getD []
      | _ => []

/-- A descriptor that `::accept` returns is not in use. -/
abbrev FreshAccepts (s : System) (actions : List Action) : Prop :=
  s.Along (fun s a => ∀ fd ∈ s.accepts? a, s.server.poller fd = none) actions

instance (s : System) (a : Action) : Decidable (∀ fd ∈ s.accepts? a, s.server.poller fd = none) :=
  decidable_of_iff ((s.accepts? a).all (fun fd => (s.server.poller fd).isNone) = true)
    (by cases s.accepts? a <;> simp)

/-! What a step does to the server. -/

variable {s : System}

/-- A step accepts a connection, or the connections are only changed. -/
theorem Looped.changes {env : Env} {s' : System} (h : Looped s env s') :
    s.server.Changes s'.server ∨ ∃ kind evs fd, s.gateway = .accepting kind evs ∧
      s.accepts? (.gateway env) = some fd ∧ s'.server = s.server.acceptOne fd kind := by
  cases h with
  | @accepted kind evs fd hat haccepted => exact .inr ⟨kind, evs, fd, hat, by rw [accepts?, hat, haccepted], rfl⟩
  | @subscriber ev =>
      exact .inl (Server.onSubscriber_chain (fun sv _ _ ha => sv.call_changed ha) s.server ev env.reads _)
  | @written ev => exact .inl (s.server.onSessionWritable_serves ev (env.writes ev.fd)).changes
  | @read ev evs sv session r hat hkind hready hsv hsession hread =>
      subst hsv hread
      obtain ⟨sid, hs⟩ := Server.exists_of_sessionByFd hsession
      exact .inl ((s.server.onSessionWritable_serves ev (env.writes ev.fd)).changes.tail
        ((Server.readSession_reads _ session env.reads).changed hs))
  | hungUp => exact .inl (s.server.hangUp_serves _ _).changes
  | drained => exact .inl (s.server.onEvent_noted _).changes
  | flushed =>
      rw [Server.flushMarketData_eq]
      exact .inl ((s.server.flushDirty_serves env.writes).changes.tail
        (Server.call_changed _ fun _ => Publisher.Action.noConfusion))
  | _ => exact .inl .refl

/-- The gateway gets back to the top of its loop by a flush only, and new events come from the Poller. -/
theorem Looped.place {env : Env} {s' : System} (h : Looped s env s') :
    (s'.gateway = .poll → s.gateway = .flush) ∧
      ∀ ev ∈ s'.gateway.pending, ev ∈ s.gateway.pending ∨ ev ∈ s.polls (.gateway env) := by
  cases h with
  | polled hat hstop hpolled =>
      refine ⟨GatewayAt.noConfusion, fun ev hev => .inr ?_⟩
      rw [polls, hat, hstop, hpolled]
      exact hev
  | flushed hat => exact ⟨fun _ => hat, fun ev hev => absurd hev List.not_mem_nil⟩
  | quit hat | walked hat | drainedAll hat => exact ⟨GatewayAt.noConfusion, fun ev hev => absurd hev List.not_mem_nil⟩
  | listened hat | unknown hat | subscriber hat | written hat | read hat =>
      rw [hat]
      exact ⟨GatewayAt.noConfusion, fun ev hev => .inl (List.mem_cons_of_mem _ hev)⟩
  | acceptedAll hat | submitted hat | submittedAll hat | hungUp hat =>
      rw [hat]
      exact ⟨GatewayAt.noConfusion, fun ev hev => .inl hev⟩
  | accepted hat | interrupted hat | full hat | drained hat | returned hat =>
      refine ⟨fun hpoll => ?_, fun ev hev => .inl hev⟩
      rw [hat] at hpoll
      cases hpoll

theorem step_changes (s : System) (a : Action) :
    s.server.Changes (s.step a).server ∨ ∃ kind evs fd, s.gateway = .accepting kind evs ∧ s.accepts? a = some fd ∧
      (s.step a).server = s.server.acceptOne fd kind := by
  cases a with
  | gateway env => exact (s.gatewayStep_looped env).changes
  | engine now =>
      left
      rw [(s.engineStep_server now).1]

theorem step_wired (h : s.server.Wired) {a : Action} (hfresh : ∀ fd ∈ s.accepts? a, s.server.poller fd = none) :
    (s.step a).server.Wired := by
  rcases s.step_changes a with hchanges | ⟨kind, evs, fd, -, haccepts, hserver⟩
  · exact h.changes hchanges
  · rw [hserver]
    exact h.acceptOne (hfresh fd haccepts) kind

/-- The gateway looks after every connection, and at the top of its loop nothing is left to do. -/
structure Wakes (s : System) : Prop where
  wired : s.server.Wired
  settled : s.gateway = .poll → s.server.Settled

theorem Wakes.step (h : s.Wakes) {a : Action} (hfresh : ∀ fd ∈ s.accepts? a, s.server.poller fd = none) :
    (s.step a).Wakes := by
  have hwired := step_wired h.wired hfresh
  refine ⟨hwired, fun hend => ?_⟩
  cases a with
  | gateway env =>
      have hat := (s.gatewayStep_looped env).place.1 hend
      rw [System.step, gatewayStep, hat] at hwired ⊢
      exact hwired.settled rfl (Publisher.flushAll_dirty _ _ _ _)
  | engine now =>
      obtain ⟨hserver, hgateway⟩ := s.engineStep_server now
      rw [hserver]
      rw [hgateway] at hend
      exact h.settled hend

theorem Wakes.run (h : s.Wakes) {actions : List Action} (hfresh : s.FreshAccepts actions) : (s.run actions).Wakes :=
  Guarded.run_rule (fun _ _ ha h => h.step ha) hfresh h

theorem init_wakes {scfg : Server.Config} {listenFd mdListenFd : Nat}
    (hinit : s.server = Server.init scfg listenFd mdListenFd) : s.Wakes := by
  have hwired := Server.wired_init scfg listenFd mdListenFd
  have hserver := Server.init_eq scfg listenFd mdListenFd
  rw [← hinit] at hwired hserver
  refine ⟨hwired, fun _ => hwired.settled ?_ ?_⟩
  · rw [hserver]
  · rw [hserver]
    rfl

/-- Whenever the gateway is back at the top of its loop, every connection has write interest exactly while bytes are pending, and no session is left to be flushed. Only the server starts afresh: the engine thread may have anything to emit. -/
theorem run_settled (s : System) (scfg : Server.Config) (listenFd mdListenFd : Nat)
    (hinit : s.server = Server.init scfg listenFd mdListenFd) (actions : List Action) (hfresh : s.FreshAccepts actions)
    (hend : (s.run actions).gateway = .poll) : (s.run actions).server.Settled :=
  ((init_wakes hinit).run hfresh).settled hend

/-- A client connects and sends a message that the gateway refuses, and its socket is full. -/
def refusedFull : List Action :=
  [.gateway { polled := some [{ fd := 3, readable := true }] }, .gateway {}, .gateway { accepted := .connected 5 },
    .gateway {}, .gateway {}, .gateway {}, .gateway {},
    .gateway { polled := some [{ fd := 5, readable := true }] },
    .gateway { reads := [.bytes ([24, 0, 16, 1, 1, 0, 0, 0] ++ List.replicate 16 0)] }, .gateway {}, .gateway {},
    .gateway {}, .gateway {}]

/-- The answer waits in the session, with write interest. -/
theorem run_settled_refusedFull :
    (init {} {} 0 3 4).FreshAccepts refusedFull ∧ ((init {} {} 0 3 4).run refusedFull).gateway = .poll ∧
      ((init {} {} 0 3 4).run refusedFull).server.Settled ∧
      (((init {} {} 0 3 4).run refusedFull).server.sessions 1).map (fun session => session.backlog) = some 24 ∧
      ((init {} {} 0 3 4).run refusedFull).server.poller 5 = some true := by
  have hfresh : (init {} {} 0 3 4).FreshAccepts refusedFull := by decide +kernel
  have hend : ((init {} {} 0 3 4).run refusedFull).gateway = .poll := rfl
  exact ⟨hfresh, hend, run_settled (init {} {} 0 3 4) {} 3 4 rfl refusedFull hfresh hend, by decide +kernel,
    by decide +kernel⟩

end System

end Matchbox
