import Matchbox.System.Routing
import Matchbox.System.Wakeup

/-!
# Whose descriptor is it

Polled events carry descriptors. `kind_by_fd_` says what kind of connection a descriptor belongs to and `sid_by_fd_` which session. Accepting a connection and closing a session write these tables, dropping a subscriber does not. So a descriptor that is not in use may still be tracked as a subscriber, and the kernel may hand it out again for either port. `Server.Tracked` is what holds in spite of that.

Session identifiers are the weak point. `next_sid_` wraps, and a session that is accepted while another one with the same identifier is open is dropped by `emplace`, although its descriptor stays tracked, under the identifier of the other one.
-/

namespace Matchbox

namespace Server

/-- The tables know every open connection, and no session but the open ones. -/
structure Tracked (sv : Server) : Prop where
  lengths : sv.kindByFd.length = sv.sidByFd.length
  inRange : ∀ fd, (sv.poller fd).isSome → fd < sv.kindByFd.length
  sessions : ∀ sid s, sv.sessions sid = some s → sv.kindOf s.fd = .session ∧ sv.sidOf s.fd = sid
  owner : ∀ fd, sv.kindOf fd = .session → ∃ s, sv.sessions (sv.sidOf fd) = some s ∧ s.fd = fd
  subscribers : ∀ t ∈ sv.publisher.subs, sv.kindOf t.fd = .subscriber

section Steps

variable {sv sv' : Server} {fd : Nat}

theorem SameTables.kindOf (h : SameTables sv sv') : sv'.kindOf = sv.kindOf := by
  funext fd
  rw [Server.kindOf, Server.kindOf, h.kinds]

theorem SameTables.sidOf (h : SameTables sv sv') : sv'.sidOf = sv.sidOf := by
  funext fd
  rw [Server.sidOf, Server.sidOf, h.sids]

theorem Wired.free (h : sv.Wired) (hfree : sv.poller fd = none) :
    (∀ sid s, sv.sessions sid = some s → s.fd ≠ fd) ∧ ∀ t ∈ sv.publisher.subs, t.fd ≠ fd := by
  constructor
  · rintro sid s hs rfl
    cases hfree.symm.trans (h.sessions sid s hs).registered
  · rintro t ht rfl
    cases hfree.symm.trans (h.publisher.registered t ht)

/-- What the publisher registers it had registered before, but for the connection it accepts. -/
theorem Wired.registered_of_step (h : sv.Wired) {a : Publisher.Action} (hnew : a ≠ .subscribe fd)
    (hsome : ((Publisher.step (sv.publisher, sv.poller) a).2 fd).isSome) : (sv.poller fd).isSome := by
  by_contra hfree
  rw [Option.not_isSome_iff_eq_none] at hfree
  rw [Publisher.step_other h.publisher.distinct a (h.free hfree).2 hnew] at hsome
  dsimp only at hsome
  rw [hfree] at hsome
  cases hsome

theorem Spares.registered {sid : Nat} {s : Session} (hspares : Spares sv sv' sid s) (hwired : sv.Wired)
    (hs : sv.sessions sid = some s) (hsome : (sv'.poller fd).isSome) : (sv.poller fd).isSome := by
  by_cases heq : fd = s.fd
  · rw [heq, (hwired.sessions sid s hs).registered]
    rfl
  · rw [hspares.poller fd heq] at hsome
    exact hsome

theorem sessionByFd_of_kindOf (h : sv.kindOf fd = .session) : sv.sessionByFd fd = sv.sessions (sv.sidOf fd) := if_pos h

theorem Tracked.kept (h : sv.Tracked) (hwired : sv.Wired) {sid : Nat} {s s' : Session} (hs : sv.sessions sid = some s)
    (hfd : s'.fd = s.fd) (hsessions : sv'.sessions = Function.update sv.sessions s.id (some s'))
    (hspares : Spares sv sv' sid s) (htables : SameTables sv sv') : sv'.Tracked := by
  have hid := hwired.keyed sid s hs
  obtain ⟨hkind, hsid⟩ := h.sessions sid s hs
  refine ⟨?_, fun fd hsome => ?_, fun sid' t ht => ?_, fun fd hfd' => ?_, ?_⟩
  · rw [htables.kinds, htables.sids]
    exact h.lengths
  · rw [htables.kinds]
    exact h.inRange fd (hspares.registered hwired hs hsome)
  · rw [htables.kindOf, htables.sidOf]
    rw [hsessions] at ht
    by_cases heq : sid' = s.id
    · rw [heq, Function.update_self, Option.some.injEq] at ht
      rw [← ht, hfd, heq, hid]
      exact ⟨hkind, hsid⟩
    · rw [Function.update_of_ne heq] at ht
      exact h.sessions sid' t ht
  · rw [htables.kindOf] at hfd'
    obtain ⟨t, ht, htfd⟩ := h.owner fd hfd'
    rw [htables.sidOf, hsessions]
    by_cases heq : sv.sidOf fd = s.id
    · rw [heq, hid, hs, Option.some.injEq] at ht
      refine ⟨s', by rw [heq, Function.update_self], ?_⟩
      rw [hfd, ht, htfd]
    · exact ⟨t, by rw [Function.update_of_ne heq, ht], htfd⟩
  · rw [htables.kindOf, hspares.publisher]
    exact h.subscribers

theorem Tracked.closed (h : sv.Tracked) (hwired : sv.Wired) {sid : Nat} {s : Session} (hs : sv.sessions sid = some s)
    (hsessions : sv'.sessions = Function.update sv.sessions s.id none) (hspares : Spares sv sv' sid s)
    (htracks : Tracks sv sv' s.fd .none 0) : sv'.Tracked := by
  have hid := hwired.keyed sid s hs
  refine ⟨htracks.length h.lengths, fun fd hsome => ?_, fun sid' t ht => ?_, fun fd hfd => ?_, fun t ht => ?_⟩
  · exact Nat.lt_of_lt_of_le (h.inRange fd (hspares.registered hwired hs hsome)) htracks.grown
  · rw [hsessions] at ht
    by_cases heq : sid' = s.id
    · rw [heq, Function.update_self] at ht
      cases ht
    · rw [Function.update_of_ne heq] at ht
      have hne : t.fd ≠ s.fd := by
        intro hfd
        apply heq
        rw [hid]
        exact hwired.apart sid' sid t s ht hs hfd
      rw [htracks.kindOf, htracks.sidOf h.lengths, Function.update_of_ne hne, Function.update_of_ne hne]
      exact h.sessions sid' t ht
  · have hne : fd ≠ s.fd := by
      rintro rfl
      rw [htracks.kindOf, Function.update_self] at hfd
      cases hfd
    rw [htracks.kindOf, Function.update_of_ne hne] at hfd
    obtain ⟨t, ht, htfd⟩ := h.owner fd hfd
    have hother : sv.sidOf fd ≠ s.id := by
      intro heq
      rw [heq, hid, hs, Option.some.injEq] at ht
      apply hne
      rw [ht, htfd]
    rw [htracks.sidOf h.lengths, Function.update_of_ne hne, hsessions, Function.update_of_ne hother]
    exact ⟨t, ht, htfd⟩
  · rw [hspares.publisher] at ht
    rw [htracks.kindOf, Function.update_of_ne (hwired.aside sid s hs t ht)]
    exact h.subscribers t ht

theorem Tracked.same (h : sv.Tracked) (hsessions : sv'.sessions = sv.sessions) (htables : SameTables sv sv')
    (hpoller : ∀ fd, (sv'.poller fd).isSome → (sv.poller fd).isSome)
    (hsubs : ∀ t ∈ sv'.publisher.subs, ∃ t₀ ∈ sv.publisher.subs, t.fd = t₀.fd) : sv'.Tracked := by
  refine ⟨?_, fun fd hsome => ?_, ?_, ?_, fun t ht => ?_⟩
  · rw [htables.kinds, htables.sids]
    exact h.lengths
  · rw [htables.kinds]
    exact h.inRange fd (hpoller fd hsome)
  · rw [hsessions, htables.kindOf, htables.sidOf]
    exact h.sessions
  · rw [hsessions, htables.kindOf, htables.sidOf]
    exact h.owner
  · obtain ⟨t₀, ht₀, hfd⟩ := hsubs t ht
    rw [htables.kindOf, hfd]
    exact h.subscribers t₀ ht₀

theorem Tracked.changed (h : sv.Tracked) (hwired : sv.Wired) (hchanged : sv.Changed sv') : sv'.Tracked := by
  cases hchanged with
  | kept hs hid hfd hwatched hsessions hspares htables => exact h.kept hwired hs hfd hsessions hspares htables
  | closed hs hsessions hspares htracks => exact h.closed hwired hs hsessions hspares htracks
  | published a hold hpublisher hsessions hdirty htables =>
      obtain ⟨hstep, hpoller⟩ := Prod.mk.inj hpublisher
      refine h.same hsessions htables (fun fd hsome => ?_) fun t ht => ?_
      · rw [hpoller] at hsome
        exact hwired.registered_of_step (hold fd) hsome
      · rw [hstep] at ht
        rcases Publisher.mem_subs_step hwired.publisher.distinct a ht with ⟨t₀, ht₀, heq⟩ | ⟨fd, hnew, -⟩
        · refine ⟨t₀, ht₀, ?_⟩
          rw [← t₀.after_fd sv.publisher a, heq]
        · exact absurd hnew (hold fd)
  | other hpublisher hpoller hsessions hdirty htables =>
      refine h.same hsessions htables (fun fd hsome => ?_) fun t ht => ?_
      · rw [hpoller] at hsome
        exact hsome
      · rw [hpublisher] at ht
        exact ⟨t, ht, rfl⟩

theorem Tracked.changes (h : sv.Tracked) (hwired : sv.Wired) (hchanges : sv.Changes sv') : sv'.Tracked := by
  induction hchanges with
  | refl => exact h
  | tail hbefore hchanged ih => exact ih.changed (hwired.changes hbefore) hchanged

/-- The tables never shrink. -/
theorem Changes.grown (hchanges : sv.Changes sv') : sv.kindByFd.length ≤ sv'.kindByFd.length := by
  induction hchanges with
  | refl => exact Nat.le_refl _
  | tail _ hchanged ih =>
      refine ih.trans ?_
      cases hchanged with
      | kept _ _ _ _ _ _ htables => rw [htables.kinds]
      | closed _ _ _ htracks => exact htracks.grown
      | published _ _ _ _ _ htables => rw [htables.kinds]
      | other _ _ _ _ htables => rw [htables.kinds]

/-! ### Accepting -/

/-- A connection is entered under a descriptor that is nobody's, whatever this is still tracked as. -/
theorem Tracked.enter (h : sv.Tracked) (hwired : sv.Wired) (hfree : sv.poller fd = none) {kind : Kind} {sid : Nat}
    (htracks : Tracks sv sv' fd kind sid) (hpoller : sv'.poller = sv.poller.add fd)
    (hkept : ∀ sid' t, sv.sessions sid' = some t → sv'.sessions sid' = some t)
    (hsession : ∀ sid' t, sv'.sessions sid' = some t → sv.sessions sid' = some t ∨ kind = .session ∧ sid' = sid ∧ t.fd = fd)
    (hown : kind = .session → ∃ t, sv'.sessions sid = some t ∧ t.fd = fd)
    (hsubscriber : ∀ t ∈ sv'.publisher.subs, t ∈ sv.publisher.subs ∨ kind = .subscriber ∧ t.fd = fd) : sv'.Tracked := by
  obtain ⟨hsessions, hsubscribers⟩ := hwired.free hfree
  refine ⟨htracks.length h.lengths, fun fd' hsome => ?_, fun sid' t ht => ?_, fun fd' hfd' => ?_, fun t ht => ?_⟩
  · by_cases heq : fd' = fd
    · rw [heq]
      exact htracks.inRange
    · rw [hpoller, sv.poller.add_of_ne heq] at hsome
      exact Nat.lt_of_lt_of_le (h.inRange fd' hsome) htracks.grown
  · rw [htracks.kindOf, htracks.sidOf h.lengths]
    rcases hsession sid' t ht with ht | ⟨rfl, rfl, rfl⟩
    · rw [Function.update_of_ne (hsessions sid' t ht), Function.update_of_ne (hsessions sid' t ht)]
      exact h.sessions sid' t ht
    · exact ⟨Function.update_self .., Function.update_self ..⟩
  · rw [htracks.kindOf] at hfd'
    rw [htracks.sidOf h.lengths]
    by_cases heq : fd' = fd
    · subst heq
      rw [Function.update_self] at hfd' ⊢
      exact hown hfd'
    · rw [Function.update_of_ne heq] at hfd' ⊢
      obtain ⟨t, ht, htfd⟩ := h.owner fd' hfd'
      exact ⟨t, hkept _ t ht, htfd⟩
  · rw [htracks.kindOf]
    rcases hsubscriber t ht with ht | ⟨rfl, rfl⟩
    · rw [Function.update_of_ne (hsubscribers t ht)]
      exact h.subscribers t ht
    · exact Function.update_self ..

theorem acceptOne_tracks (sv : Server) (fd : Nat) :
    sv.Tracks (sv.acceptOne fd .session) fd .session sv.nextSid := by
  rw [acceptOne_eq]
  exact tracks_tracked rfl rfl

theorem subscribe_tracks (sv : Server) (fd : Nat) {kind : Kind} (hkind : kind ≠ .session) :
    sv.Tracks (sv.acceptOne fd kind) fd .subscriber 0 := by
  rw [sv.subscribe_eq fd hkind]
  exact tracks_tracked rfl rfl

theorem Tracked.accept (h : sv.Tracked) (hwired : sv.Wired) (hfree : sv.poller fd = none)
    (hid : sv.sessions sv.nextSid = none) : (sv.acceptOne fd .session).Tracked := by
  have hpoller : (sv.acceptOne fd .session).poller = sv.poller.add fd := by rw [acceptOne_eq]
  have hpublisher : (sv.acceptOne fd .session).publisher = sv.publisher := by rw [acceptOne_eq]
  have hsessions := sv.acceptOne_sessions fd hid
  refine h.enter hwired hfree (sv.acceptOne_tracks fd) hpoller (fun sid t ht => ?_) (fun sid t ht => ?_) (fun _ => ?_) ?_
  · have hne : sid ≠ sv.nextSid := by
      rintro rfl
      rw [hid] at ht
      cases ht
    rw [hsessions, Function.update_of_ne hne, ht]
  · rcases mem_acceptOne ht with ht | ⟨rfl, rfl⟩
    · exact Or.inl ht
    · exact Or.inr ⟨rfl, rfl, rfl⟩
  · exact ⟨_, by rw [hsessions, Function.update_self], rfl⟩
  · rw [hpublisher]
    exact fun t ht => Or.inl ht

theorem Tracked.subscribe (h : sv.Tracked) (hwired : sv.Wired) (hfree : sv.poller fd = none) {kind : Kind}
    (hkind : kind ≠ .session) : (sv.acceptOne fd kind).Tracked := by
  have htracks := sv.subscribe_tracks fd hkind
  rw [sv.subscribe_eq fd hkind] at htracks ⊢
  refine h.enter hwired hfree htracks rfl (fun sid t ht => ht) (fun sid t ht => Or.inl ht) Kind.noConfusion fun t ht => ?_
  dsimp only [call, Publisher.step, Publisher.subscribe] at ht
  split at ht
  · exact Or.inl ht
  · rcases List.mem_append.1 ht with ht | ht
    · exact Or.inl ht
    · rw [List.mem_singleton.1 ht]
      exact Or.inr ⟨rfl, rfl⟩

theorem tracked_init (cfg : Config) (listenFd mdListenFd : Nat) : (Server.init cfg listenFd mdListenFd).Tracked := by
  let sv : Server := { cfg := cfg, poller := Poller.init, publisher := Publisher.init cfg.md }
  let listen := tracked [] [] listenFd .listen 0
  let sv₁ : Server := { sv with kindByFd := listen.1, sidByFd := listen.2 }
  have hlisten : sv.Tracks sv₁ listenFd .listen 0 := tracks_tracked rfl rfl
  have hmdListen : sv₁.Tracks (Server.init cfg listenFd mdListenFd) mdListenFd .mdListen 0 := by
    rw [init_eq]
    exact tracks_tracked rfl rfl
  rw [init_eq] at hmdListen ⊢
  refine ⟨hmdListen.length (hlisten.length rfl), fun fd hsome => ?_, fun sid s hs => ?_, fun fd hfd => ?_, fun t ht => ?_⟩
  · by_cases hmd : fd = mdListenFd
    · rw [hmd]
      exact hmdListen.inRange
    · by_cases hfd : fd = listenFd
      · rw [hfd]
        exact Nat.lt_of_lt_of_le hlisten.inRange hmdListen.grown
      · have hnone : (Poller.init.add listenFd).add mdListenFd fd = none :=
          ((Poller.init.add listenFd).add_of_ne hmd).trans (Poller.init.add_of_ne hfd)
        change ((Poller.init.add listenFd).add mdListenFd fd).isSome at hsome
        rw [hnone] at hsome
        cases hsome
  · cases hs
  · have hkind := congrFun hmdListen.kindOf fd
    rw [hlisten.kindOf, Function.update_apply, Function.update_apply] at hkind
    have hnever := hkind.symm.trans hfd
    split at hnever
    · cases hnever
    · split at hnever <;> cases hnever
  · cases ht

end Steps

/-! ### Dispatching -/

/-- What `run` relies on when it looks up the descriptor of an event. -/
structure Dispatches (sv : Server) : Prop where
  apart : ∀ sid sid' s s', sv.sessions sid = some s → sv.sessions sid' = some s' → s.fd = s'.fd → sid = sid'
  distinct : (sv.publisher.subs.map fun t => t.fd).Nodup
  aside : ∀ sid s, sv.sessions sid = some s → ∀ t ∈ sv.publisher.subs, t.fd ≠ s.fd
  /-- An open session is found under its descriptor. -/
  tracked : ∀ sid s, sv.sessions sid = some s →
    s.id = sid ∧ sv.kindByFd[s.fd]? = some .session ∧ sv.sidByFd[s.fd]? = some sid ∧ sv.sessionByFd s.fd = some s
  /-- And nothing under any other. -/
  untracked : ∀ fd, (∀ sid s, sv.sessions sid = some s → s.fd ≠ fd) → sv.sessionByFd fd = none
  subscribers : ∀ t ∈ sv.publisher.subs, sv.kindByFd[t.fd]? = some .subscriber

theorem kindByFd_of_kindOf {sv : Server} {fd : Nat} {kind : Kind} (h : sv.kindOf fd = kind) (hkind : kind ≠ .none) :
    sv.kindByFd[fd]? = some kind := by
  rw [kindOf, List.getD_eq_getElem?_getD] at h
  cases hget : sv.kindByFd[fd]? with
  | none =>
      rw [hget] at h
      exact absurd h.symm hkind
  | some kind' =>
      rw [hget] at h
      exact congrArg some h

theorem Tracked.dispatches {sv : Server} (h : sv.Tracked) (hwired : sv.Wired) : sv.Dispatches where
  apart := hwired.apart
  distinct := hwired.publisher.distinct
  aside := hwired.aside
  tracked := fun sid s hs => by
    obtain ⟨hkind, hsid⟩ := h.sessions sid s hs
    have hget := kindByFd_of_kindOf hkind Kind.noConfusion
    have hlt : s.fd < sv.sidByFd.length := h.lengths ▸ (List.getElem?_eq_some_iff.1 hget).1
    refine ⟨hwired.keyed sid s hs, hget, ?_, ?_⟩
    · rw [sidOf, List.getD_eq_getElem?_getD, List.getElem?_eq_getElem hlt] at hsid
      rw [List.getElem?_eq_getElem hlt]
      exact congrArg some hsid
    · rw [sessionByFd_of_kindOf hkind, hsid, hs]
  untracked := fun fd hfd => by
    rw [sessionByFd]
    split
    · rename_i hkind
      obtain ⟨s, hs, hsfd⟩ := h.owner fd hkind
      exact absurd hsfd (hfd _ s hs)
    · rfl
  subscribers := fun t ht => kindByFd_of_kindOf (h.subscribers t ht) Kind.noConfusion

/-- A session that is accepted under an identifier in use is not found under its descriptor: the other one is. -/
theorem Tracked.not_dispatches {sv : Server} {fd : Nat} (h : sv.Tracked) (hwired : sv.Wired) (hfree : sv.poller fd = none)
    (hid : sv.sessions sv.nextSid ≠ none) : ¬ (sv.acceptOne fd .session).Dispatches := by
  intro hdispatches
  have htracks := sv.acceptOne_tracks fd
  obtain ⟨hsession, -⟩ := hwired.free hfree
  have hsame : (sv.acceptOne fd .session).sessions = sv.sessions :=
    (sv.acceptOne_cases fd .session).resolve_right fun hcon => hid hcon.1
  have hnone := hdispatches.untracked fd (by rw [hsame]; exact hsession)
  rw [sessionByFd_of_kindOf (by rw [htracks.kindOf, Function.update_self]), htracks.sidOf h.lengths, Function.update_self,
    hsame] at hnone
  exact hid hnone

end Server

/-! ### Whole runs -/

namespace System

/-- The kernel keeps to its contract: a descriptor that `::accept` returns is not open, and the Poller reports registered descriptors only. -/
structure Honest (s : System) (a : Action) : Prop where
  accepted : ∀ fd ∈ s.accepts? a, s.server.poller fd = none
  polled : ∀ ev ∈ s.polls a, (s.server.poller ev.fd).isSome

/-- No open session has the identifier that a new one gets. -/
def FreshId (s : System) (a : Action) : Prop :=
  ∀ evs, s.gateway = .accepting .session evs → (s.accepts? a).isSome → s.server.sessions s.server.nextSid = none

/-- The descriptors are in order, and those of the events still to be handled are in the tables. -/
structure Dispatches (s : System) : Prop where
  server : s.server.Dispatches
  inRange : ∀ ev ∈ s.gateway.pending, ev.fd < s.server.kindByFd.length

/-- What holds at every moment while identifiers are not reused. -/
structure Tracked (s : System) : Prop where
  wired : s.server.Wired
  tracked : s.server.Tracked
  inRange : ∀ ev ∈ s.gateway.pending, ev.fd < s.server.kindByFd.length

variable {s : System} {a : Action} {actions : List Action}

theorem Tracked.dispatches (h : s.Tracked) : s.Dispatches := ⟨h.tracked.dispatches h.wired, h.inRange⟩

theorem step_grown (s : System) (a : Action) : s.server.kindByFd.length ≤ (s.step a).server.kindByFd.length := by
  rcases s.step_changes a with hchanges | ⟨kind, evs, fd, -, -, hserver⟩
  · exact hchanges.grown
  · rw [hserver]
    by_cases hkind : kind = .session
    · subst hkind
      exact (s.server.acceptOne_tracks fd).grown
    · exact (s.server.subscribe_tracks fd hkind).grown

theorem step_of_accepts {kind : Server.Kind} {evs : List PollEvent} {fd : Nat} (hat : s.gateway = .accepting kind evs)
    (haccepts : s.accepts? a = some fd) : s.step a = { s with server := s.server.acceptOne fd kind } := by
  cases a with
  | engine now => cases haccepts
  | gateway env =>
      rw [accepts?, hat] at haccepts
      cases haccepted : env.accepted with
      | connected fd' =>
          rw [haccepted] at haccepts
          cases haccepts
          exact step_accept hat haccepted
      | intr =>
          rw [haccepted] at haccepts
          cases haccepts
      | error =>
          rw [haccepted] at haccepts
          cases haccepts

theorem Tracked.step (h : s.Tracked) (hhonest : s.Honest a) (hfresh : s.FreshId a) : (s.step a).Tracked := by
  refine ⟨step_wired h.wired hhonest.accepted, ?_, ?_⟩
  · rcases s.step_changes a with hchanges | ⟨kind, evs, fd, hat, haccepts, hserver⟩
    · exact h.tracked.changes h.wired hchanges
    · rw [hserver]
      have hfree := hhonest.accepted fd haccepts
      by_cases hkind : kind = .session
      · subst hkind
        exact h.tracked.accept h.wired hfree (hfresh evs hat (by rw [haccepts]; rfl))
      · exact h.tracked.subscribe h.wired hfree hkind
  · intro ev hev
    refine Nat.lt_of_lt_of_le ?_ (s.step_grown a)
    cases a with
    | engine now =>
        rw [(s.engineStep_server now).2] at hev
        exact h.inRange ev hev
    | gateway env =>
        rcases (s.gatewayStep_looped env).place.2 ev hev with hold | hpolled
        · exact h.inRange ev hold
        · exact h.tracked.inRange ev.fd (hhonest.polled ev hpolled)

/-- A step that reuses an identifier breaks the order. -/
theorem Tracked.not_dispatches (h : s.Tracked) (hhonest : s.Honest a) (hfresh : ¬ s.FreshId a) : ¬ (s.step a).Dispatches := by
  intro hdispatches
  simp only [FreshId, not_forall] at hfresh
  obtain ⟨evs, hat, haccepts, hid⟩ := hfresh
  obtain ⟨fd, haccepts⟩ := Option.isSome_iff_exists.1 haccepts
  have hserver := hdispatches.server
  rw [step_of_accepts hat haccepts] at hserver
  exact h.tracked.not_dispatches h.wired (hhonest.accepted fd haccepts) hid hserver

theorem Tracked.run_iff (h : s.Tracked) (hhonest : s.Along Honest actions) :
    (∀ front, front <+: actions → (s.run front).Dispatches) ↔ s.Along FreshId actions := by
  induction actions generalizing s with
  | nil =>
      refine iff_of_true (fun front hfront => ?_) trivial
      rw [List.prefix_nil.1 hfront]
      exact h.dispatches
  | cons a actions ih =>
      obtain ⟨hfirst, hrest⟩ := hhonest
      by_cases hfresh : s.FreshId a
      · refine Iff.trans ?_ (and_congr_right fun _ => ih (h.step hfirst hfresh) hrest)
        constructor
        · intro hall
          exact ⟨hfresh, fun front hfront => hall (a :: front) (List.cons_prefix_cons.2 ⟨rfl, hfront⟩)⟩
        · rintro ⟨-, hall⟩ front hfront
          cases front with
          | nil => exact h.dispatches
          | cons b front =>
              obtain ⟨rfl, htail⟩ := List.cons_prefix_cons.1 hfront
              exact hall front htail
      · refine iff_of_false (fun hall => ?_) fun hcon => hfresh hcon.1
        exact h.not_dispatches hfirst hfresh (hall [a] (List.cons_prefix_cons.2 ⟨rfl, List.nil_prefix⟩))

theorem along_append {P : System → Action → Prop} {more : List Action} :
    s.Along P (actions ++ more) ↔ s.Along P actions ∧ (s.run actions).Along P more :=
  Guarded.along_append

/-- The first `2 ^ 32` sessions have different identifiers. -/
theorem along_freshId (scfg : Server.Config) (ecfg : Engine.Config) (ringLog2 listenFd mdListenFd : Nat)
    (actions : List Action) (hfew : ((init scfg ecfg ringLog2 listenFd mdListenFd).run actions).server.opened ≤ word32) :
    (init scfg ecfg ringLog2 listenFd mdListenFd).Along FreshId actions := by
  induction actions using List.reverseRecOn with
  | nil => trivial
  | append_singleton actions a ih =>
      rw [run_concat] at hfew
      have hopened := (step_stepped ((init scfg ecfg ringLog2 listenFd mdListenFd).run actions) a).opened_le
      refine along_append.2 ⟨ih (hopened.trans hfew), ?_, trivial⟩
      intro evs hat haccepts
      obtain ⟨fd, haccepts⟩ := Option.isSome_iff_exists.1 haccepts
      rw [step_of_accepts hat haccepts] at hfew
      dsimp only at hfew
      rw [(Server.acceptOne_stream _ fd).opened] at hfew
      have hroutes := (run_inv scfg ecfg ringLog2 listenFd mdListenFd actions hfew).routes
      rw [← Option.not_isSome_iff_eq_none]
      intro hsome
      have hold := (hroutes.accepted _).2 (Or.inl hsome)
      rw [hroutes.nextSid] at hold
      simp only [word32] at hold hfew
      omega

theorem init_tracked (scfg : Server.Config) (ecfg : Engine.Config) (ringLog2 listenFd mdListenFd : Nat) :
    (init scfg ecfg ringLog2 listenFd mdListenFd).Tracked :=
  ⟨Server.wired_init scfg listenFd mdListenFd, Server.tracked_init scfg listenFd mdListenFd,
    fun _ hev => absurd hev List.not_mem_nil⟩

/-- Events find their connections at every moment of a run exactly if no session is accepted while another one has its identifier. The first `2 ^ 32` sessions are safe. -/
theorem run_dispatches_iff (scfg : Server.Config) (ecfg : Engine.Config) (ringLog2 listenFd mdListenFd : Nat)
    (actions : List Action) (hhonest : (init scfg ecfg ringLog2 listenFd mdListenFd).Along Honest actions) :
    ((∀ front, front <+: actions → ((init scfg ecfg ringLog2 listenFd mdListenFd).run front).Dispatches) ↔
        (init scfg ecfg ringLog2 listenFd mdListenFd).Along FreshId actions) ∧
      (((init scfg ecfg ringLog2 listenFd mdListenFd).run actions).server.opened ≤ 2 ^ 32 →
        (init scfg ecfg ringLog2 listenFd mdListenFd).Along FreshId actions) :=
  ⟨(init_tracked scfg ecfg ringLog2 listenFd mdListenFd).run_iff hhonest,
    along_freshId scfg ecfg ringLog2 listenFd mdListenFd actions⟩

instance (s : System) (a : Action) : Decidable (s.Honest a) :=
  decidable_of_iff ((s.accepts? a).all (fun fd => (s.server.poller fd).isNone) ∧
      (s.polls a).all fun ev => (s.server.poller ev.fd).isSome)
    ⟨fun h => ⟨by cases haccepts : s.accepts? a <;> simp_all, by simpa using h.2⟩,
      fun h => ⟨by cases haccepts : s.accepts? a <;> simp_all [h.accepted], by simpa using h.polled⟩⟩

/-- The second client has the descriptor of the first one. -/
theorem run_dispatches_iff_reuse :
    (init {} {} 0 3 4).Along Honest reuse ∧ ∀ front, front <+: reuse → ((init {} {} 0 3 4).run front).Dispatches := by
  have hhonest : (init {} {} 0 3 4).Along Honest reuse := by decide +kernel
  obtain ⟨hiff, hfew⟩ := run_dispatches_iff {} {} 0 3 4 reuse hhonest
  exact ⟨hhonest, hiff.2 (hfew (by decide +kernel))⟩

/-! ### An identifier comes round -/

/-- A client connects under this descriptor. -/
def arrive (fd : Nat) : List Action :=
  [.gateway { polled := some [{ fd := 3, readable := true }] }, .gateway {}, .gateway { accepted := .connected fd },
    .gateway {}]

/-- The gateway goes on to the next iteration. -/
def around : List Action := [.gateway {}, .gateway {}, .gateway {}]

/-- The client with this descriptor closes its connection. -/
def depart (fd : Nat) : List Action :=
  [.gateway { polled := some [{ fd := fd, readable := true }] }, .gateway { reads := [.bytes []] }, .gateway {}]

def visit : List Action := (arrive 6 ++ around) ++ (depart 6 ++ around)

/-- The first client stays, under descriptor 5. The others come one after the other under descriptor 6, and the last one stays as well. -/
def visits (n : Nat) : List Action := arrive 5 ++ around ++ (List.replicate n visit).flatten ++ arrive 6

/-- Between two visits. -/
structure Waiting (s : System) (next : Nat) : Prop where
  gateway : s.gateway = .poll
  outbox : s.outbox = []
  sessions : s.server.sessions = Function.update (fun _ => none) 1 (some (.accepted 5 1))
  nextSid : s.server.nextSid = next
  dirty : s.server.dirty = []
  subs : s.server.publisher.subs = []
  lengths : s.server.kindByFd.length = s.server.sidByFd.length
  listen : s.server.kindOf 3 = .listen
  registered : (s.server.poller 3).isSome
  free : s.server.poller 6 = none

/-- During the visit with this identifier. -/
structure Visiting (s : System) (sid : Nat) : Prop where
  gateway : s.gateway = .poll
  outbox : s.outbox = []
  sessions : s.server.sessions =
    Function.update (Function.update (fun _ => none) 1 (some (.accepted 5 1))) sid (some (.accepted 6 sid))
  nextSid : s.server.nextSid = (sid + 1) % word32
  dirty : s.server.dirty = []
  subs : s.server.publisher.subs = []
  lengths : s.server.kindByFd.length = s.server.sidByFd.length
  listen : s.server.kindOf 3 = .listen
  registered : (s.server.poller 3).isSome
  kind : s.server.kindOf 6 = .session
  sid : s.server.sidOf 6 = sid
  visitor : (s.server.poller 6).isSome

theorem run_arrive (hat : s.gateway = .poll) (hlisten : s.server.kindOf 3 = .listen) (fd : Nat) :
    s.run (arrive fd) = { s with gateway := .events [], server := s.server.acceptOne fd .session } := by
  simp [run, arrive, step, gatewayStep, handle, hat, hlisten]

theorem run_around (hat : s.gateway = .events []) (houtbox : s.outbox = []) (hdirty : s.server.dirty = [])
    (hsubs : s.server.publisher.subs = []) :
    ∃ p : Publisher, p.subs = [] ∧ s.run around = { s with gateway := .poll, server := { s.server with publisher := p } } := by
  have hflush : s.server.flushDirty (fun _ => []) = s.server := by
    rw [Server.flushDirty, hdirty, List.foldl_nil]
    exact congrArg (fun sids => { s.server with dirty := sids }) hdirty.symm
  have hpublisher : ∃ p : Publisher, p.subs = [] ∧
      s.server.publisher.flushAll s.server.poller 0 (fun _ => []) = (p, s.server.poller) := by
    rw [Publisher.flushAll, hsubs]
    split
    · exact ⟨_, hsubs, rfl⟩
    · exact ⟨_, rfl, rfl⟩
  obtain ⟨p, hp, heq⟩ := hpublisher
  refine ⟨p, hp, ?_⟩
  simp [run, around, step, gatewayStep, hat, drainOne, houtbox, BoundedFifo.tryPop, hflush, Server.flushMarketData, heq]

theorem run_depart {fd : Nat} {session : Session} (hat : s.gateway = .poll) (hkind : s.server.kindOf fd = .session)
    (hsession : s.server.sessionByFd fd = some session) :
    s.run (depart fd) = { s with gateway := .events [], server := s.server.closeSession session } := by
  simp [run, depart, step, gatewayStep, handle, hat, hkind, Server.onSessionWritable, hsession, Server.readSession,
    Session.readLoop]

theorem honest_iff : s.Honest a ↔
    (∀ fd ∈ s.accepts? a, s.server.poller fd = none) ∧ ∀ ev ∈ s.polls a, (s.server.poller ev.fd).isSome :=
  ⟨fun h => ⟨h.accepted, h.polled⟩, fun h => ⟨h.1, h.2⟩⟩

theorem along_arrive {fd : Nat} (hat : s.gateway = .poll) (hlisten : s.server.kindOf 3 = .listen)
    (hregistered : (s.server.poller 3).isSome) (hfree : s.server.poller fd = none) : s.Along Honest (arrive fd) := by
  simp [arrive, Guarded.Along, honest_iff, accepts?, polls, step, gatewayStep, handle, hat, hlisten, hregistered, hfree]

theorem along_around (hat : s.gateway = .events []) (houtbox : s.outbox = []) : s.Along Honest around := by
  simp [around, Guarded.Along, honest_iff, accepts?, polls, step, gatewayStep, hat, drainOne, houtbox, BoundedFifo.tryPop]

theorem along_depart {fd : Nat} {session : Session} (hat : s.gateway = .poll) (hkind : s.server.kindOf fd = .session)
    (hsession : s.server.sessionByFd fd = some session) (hregistered : (s.server.poller fd).isSome) :
    s.Along Honest (depart fd) := by
  simp [depart, Guarded.Along, honest_iff, accepts?, polls, step, gatewayStep, handle, hat, hkind, Server.onSessionWritable,
    hsession, hregistered]

variable {sid : Nat}

theorem Waiting.arrive (h : s.Waiting sid) (hsid : sid ≠ 1) :
    s.Along Honest (System.arrive 6 ++ around) ∧ (s.run (System.arrive 6 ++ around)).Visiting sid := by
  have hfresh : s.server.sessions s.server.nextSid = none := by
    rw [h.sessions, h.nextSid, Function.update_of_ne hsid]
  have hpoller : (s.server.acceptOne 6 .session).poller = s.server.poller.add 6 := by rw [Server.acceptOne_eq]
  have hpublisher : (s.server.acceptOne 6 .session).publisher = s.server.publisher := by rw [Server.acceptOne_eq]
  have hdirty : (s.server.acceptOne 6 .session).dirty = s.server.dirty := by rw [Server.acceptOne_eq]
  have htracks := s.server.acceptOne_tracks 6
  have hsessions := s.server.acceptOne_sessions 6 hfresh
  have harrive := run_arrive h.gateway h.listen 6
  have hat : (s.run (System.arrive 6)).gateway = .events [] := by rw [harrive]
  have houtbox : (s.run (System.arrive 6)).outbox = [] := by rw [harrive]; exact h.outbox
  obtain ⟨p, hp, haround⟩ := run_around hat houtbox (by rw [harrive]; exact hdirty.trans h.dirty)
    (by rw [harrive]; exact (congrArg Publisher.subs hpublisher).trans h.subs)
  refine ⟨along_append.2 ⟨along_arrive h.gateway h.listen h.registered h.free, along_around hat houtbox⟩, ?_⟩
  rw [run_append, haround, harrive]
  refine ⟨rfl, h.outbox, ?_, ?_, hdirty.trans h.dirty, hp, htracks.length h.lengths, ?_, ?_, ?_, ?_, ?_⟩
  · change (s.server.acceptOne 6 .session).sessions = _
    rw [hsessions, h.sessions, h.nextSid]
  · exact (s.server.acceptOne_stream 6).nextSid.trans (by rw [h.nextSid])
  · refine (congrFun htracks.kindOf 3).trans ?_
    rw [Function.update_of_ne (by decide), h.listen]
  · change ((s.server.acceptOne 6 .session).poller 3).isSome
    rw [hpoller, s.server.poller.add_of_ne (by decide)]
    exact h.registered
  · refine (congrFun htracks.kindOf 6).trans ?_
    rw [Function.update_self]
  · refine (congrFun (htracks.sidOf h.lengths) 6).trans ?_
    rw [Function.update_self, h.nextSid]
  · change ((s.server.acceptOne 6 .session).poller 6).isSome
    rw [hpoller, Poller.add_self h.free]
    rfl

theorem Visiting.depart (h : s.Visiting sid) (hsid : sid ≠ 1) :
    s.Along Honest (System.depart 6 ++ around) ∧ (s.run (System.depart 6 ++ around)).Waiting ((sid + 1) % word32) := by
  have hsession : s.server.sessionByFd 6 = some (.accepted 6 sid) := by
    rw [Server.sessionByFd_of_kindOf h.kind, h.sid, h.sessions, Function.update_self]
  have hdepart := run_depart h.gateway h.kind hsession
  have htracks : s.server.Tracks (s.server.closeSession (.accepted 6 sid)) 6 .none 0 := by
    rw [Server.closeSession_eq]
    exact Server.tracks_tracked rfl rfl
  rw [Server.closeSession_eq] at hdepart htracks
  have hat : (s.run (System.depart 6)).gateway = .events [] := by rw [hdepart]
  have houtbox : (s.run (System.depart 6)).outbox = [] := by rw [hdepart]; exact h.outbox
  obtain ⟨p, hp, haround⟩ := run_around hat houtbox (by rw [hdepart]; exact h.dirty) (by rw [hdepart]; exact h.subs)
  refine ⟨along_append.2 ⟨along_depart h.gateway h.kind hsession h.visitor, along_around hat houtbox⟩, ?_⟩
  rw [run_append, haround, hdepart]
  refine ⟨rfl, h.outbox, ?_, h.nextSid, h.dirty, hp, htracks.length h.lengths, ?_, ?_, ?_⟩
  · change Function.update s.server.sessions sid none = _
    rw [h.sessions, Function.update_idem]
    refine Function.update_eq_self_iff.2 ?_
    rw [Function.update_of_ne hsid]
  · refine (congrFun htracks.kindOf 3).trans ?_
    rw [Function.update_of_ne (by decide), h.listen]
  · change ((s.server.poller.remove 6) 3).isSome
    rw [s.server.poller.remove_of_ne (by decide)]
    exact h.registered
  · change s.server.poller.remove 6 6 = none
    exact Function.update_self ..

theorem Waiting.visit (h : s.Waiting sid) (hsid : sid ≠ 1) :
    s.Along Honest System.visit ∧ (s.run System.visit).Waiting ((sid + 1) % word32) := by
  obtain ⟨harrive, hvisiting⟩ := h.arrive hsid
  obtain ⟨hdepart, hwaiting⟩ := hvisiting.depart hsid
  rw [System.visit, along_append, run_append]
  exact ⟨⟨harrive, hdepart⟩, hwaiting⟩

/-- The identifiers go up, and past the last one to zero and one. -/
theorem Waiting.visits {n : Nat} (h : s.Waiting 2) (hn : n < word32) :
    s.Along Honest (List.replicate n System.visit).flatten ∧
      (s.run (List.replicate n System.visit).flatten).Waiting ((2 + n) % word32) := by
  induction n with
  | zero => exact ⟨trivial, h⟩
  | succ n ih =>
      obtain ⟨hbefore, hwaiting⟩ := ih (Nat.lt_of_succ_lt hn)
      have hne : (2 + n) % word32 ≠ 1 := by
        simp only [word32] at hn ⊢
        omega
      obtain ⟨hlast, hwaiting'⟩ := hwaiting.visit hne
      rw [List.replicate_succ', List.flatten_append, along_append, run_append, List.flatten_singleton]
      refine ⟨⟨hbefore, hlast⟩, ?_⟩
      rw [Nat.mod_add_mod] at hwaiting'
      exact hwaiting'

theorem Waiting.confused (h : s.Waiting 1) :
    s.Along Honest (System.arrive 6) ∧ (s.run (System.arrive 6)).server.sessionByFd 6 = some (.accepted 5 1) := by
  refine ⟨along_arrive h.gateway h.listen h.registered h.free, ?_⟩
  have htracks := s.server.acceptOne_tracks 6
  have hfirst : s.server.sessions 1 = some (.accepted 5 1) := by
    rw [h.sessions, Function.update_self]
  have hsame : (s.server.acceptOne 6 .session).sessions = s.server.sessions := by
    refine (s.server.acceptOne_cases 6 .session).resolve_right fun hcon => ?_
    rw [h.nextSid, hfirst] at hcon
    cases hcon.1
  rw [run_arrive h.gateway h.listen]
  change (s.server.acceptOne 6 .session).sessionByFd 6 = _
  rw [Server.sessionByFd_of_kindOf (by rw [htracks.kindOf, Function.update_self]), htracks.sidOf h.lengths,
    Function.update_self, hsame, h.nextSid, hfirst]

theorem visits_confused {n : Nat} (hn : n + 1 = word32) :
    (init {} {} 16 3 4).Along Honest (visits n) ∧
      ((init {} {} 16 3 4).run (visits n)).server.sessionByFd 6 = some (.accepted 5 1) := by
  have hfirst : (init {} {} 16 3 4).Along Honest (arrive 5 ++ around) := by decide +kernel
  have hwaiting : ((init {} {} 16 3 4).run (arrive 5 ++ around)).Waiting 2 :=
    ⟨rfl, rfl, rfl, rfl, rfl, rfl, rfl, rfl, rfl, rfl⟩
  obtain ⟨hvisits, hlast⟩ := hwaiting.visits (Nat.lt_of_lt_of_eq (Nat.lt_succ_self n) hn)
  have hone : (2 + n) % word32 = 1 := by
    simp only [word32] at hn ⊢
    omega
  rw [hone, ← run_append] at hlast
  obtain ⟨hend, hconfused⟩ := hlast.confused
  rw [← run_append] at hconfused
  exact ⟨along_append.2 ⟨along_append.2 ⟨hfirst, hvisits⟩, hend⟩, hconfused⟩

/-- Under descriptor 6 the gateway finds the first client, whose descriptor is 5. -/
theorem visits_confused_wrap :
    (init {} {} 16 3 4).Along Honest (visits (2 ^ 32 - 1)) ∧
      ∃ session, ((init {} {} 16 3 4).run (visits (2 ^ 32 - 1))).server.sessionByFd 6 = some session ∧ session.fd = 5 := by
  obtain ⟨hhonest, hconfused⟩ := visits_confused (show 2 ^ 32 - 1 + 1 = word32 by decide)
  exact ⟨hhonest, _, hconfused, rfl⟩

end System

end Matchbox
