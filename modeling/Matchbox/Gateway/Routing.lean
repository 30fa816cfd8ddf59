import Matchbox.Gateway.Tended

/-!
# Every event to its session

`Server.Routes` relates the sessions of the gateway, open and closed, to the list of engine events it has drained: a session has been sent exactly the events with its identifier, from its first one to the last drained before it was closed. Identifiers are not reused as long as fewer than `2 ^ 32` sessions are accepted, so that no event drained earlier can be addressed to a new session.
-/

namespace Matchbox

open Wire

/-- What a session has been sent once these events have been drained. -/
structure Session.Routed (drained : List Event) (s : Session) : Prop where
  fromEngine : s.fromEngine = (drained.filter fun e => e.session = s.id).filterMap Event.private?
  numbered : s.Numbered

section Sessions

variable {drained : List Event} {s s' : Session} {e : Event}

theorem Session.Routed.kept (h : s.Routed drained) (hkept : s.Kept s') : s'.Routed drained :=
  ⟨by rw [hkept.fromEngine, hkept.id, h.fromEngine], hkept.numbered h.numbered⟩

theorem Session.Routed.other (h : s.Routed drained) (he : e.session ≠ s.id ∨ e.private? = none) :
    s.Routed (drained ++ [e]) := by
  refine ⟨?_, h.numbered⟩
  rw [h.fromEngine, List.filter_append, List.filterMap_append]
  rcases he with hne | hnone
  · simp [hne]
  · by_cases heq : e.session = s.id
    · simp [heq, hnone]
    · simp [heq]

theorem Session.Routed.own (h : s.Routed drained) (he : e.session = s.id) {m : Message} (hm : e.private? = some m) :
    (s.send .engine m).Routed (drained ++ [e]) := by
  refine ⟨?_, h.numbered.send .engine m⟩
  have hsent : (s.send .engine m).fromEngine = s.fromEngine ++ [m] := by
    simp [Session.send, Session.fromEngine]
  rw [hsent, h.fromEngine, List.filter_append, List.filterMap_append]
  change _ = (drained.filter fun e => e.session = s.id).filterMap Event.private? ++
    ([e].filter fun e => e.session = s.id).filterMap Event.private?
  simp [he, hm]

end Sessions

/-! ### The frames of the events -/

section Renderings

variable {e : Event} {m : Message}

theorem Event.make_private (h : e.private? = some m) : m.make = e.rendering := by
  rw [Event.private?] at h
  rw [Event.rendering]
  cases hkind : e.kind <;> rw [hkind] at h <;> cases h
  case rejected => exact make_reject e.tag e.reason
  all_goals exact make_eq_render (by simp [Message.body, encodeInt_eq_twosComplement])

theorem Event.make_marketData (h : e.marketData? = some m) : m.make = e.rendering := by
  rw [Event.marketData?] at h
  rw [Event.rendering]
  cases hkind : e.kind <;> rw [hkind] at h <;> cases h
  case trade =>
    cases hside : e.side <;> exact make_eq_render (by simp [Message.body, encodeInt_eq_twosComplement, sideCode])
  case top => exact make_eq_render (by simp [Message.body, encodeInt_eq_twosComplement])

theorem Event.private?_isSome (e : Event) : e.private?.isSome = !e.isMarketData := by
  rw [Event.private?, Event.isMarketData]
  cases e.kind <;> rfl

theorem Event.marketData?_isSome (e : Event) : e.marketData?.isSome = e.isMarketData := by
  rw [Event.marketData?, Event.isMarketData]
  cases e.kind <;> rfl

theorem map_filter_eq {p : Event → Bool} {build : Event → Option Message} (hsome : ∀ e, (build e).isSome = p e)
    (hmake : ∀ {e m}, build e = some m → m.make = e.rendering) (events : List Event) :
    (events.filter p).map Event.rendering = (events.filterMap build).map Message.make := by
  induction events with
  | nil => rfl
  | cons e events ih =>
      rw [List.filter_cons, List.filterMap_cons, ← hsome e]
      cases hm : build e with
      | none => exact ih
      | some m => exact congrArg₂ List.cons (hmake hm).symm ih

theorem privateFrames_eq (sid : Nat) (events : List Event) :
    privateFrames sid events = ((events.filter fun e => e.session = sid).filterMap Event.private?).map Message.make := by
  rw [← map_filter_eq Event.private?_isSome Event.make_private, List.filter_filter, privateFrames]
  congr 2
  funext e
  simp [Bool.and_comm]

theorem marketFrames_eq (events : List Event) : marketFrames events = (events.filterMap Event.marketData?).map Message.make :=
  map_filter_eq Event.marketData?_isSome Event.make_marketData events

end Renderings

theorem Event.private?_of_marketData? {e : Event} {m : Message} (h : e.marketData? = some m) : e.private? = none := by
  cases hkind : e.kind <;> simp_all [Event.marketData?, Event.private?]

namespace Server

/-- The identifiers of the sessions that were closed. -/
def closedIds (sv : Server) : List Nat := sv.closed.map fun x => x.2.id

structure Routes (sv : Server) : Prop where
  few : sv.opened < word32
  nextSid : sv.nextSid = (1 + sv.opened) % word32
  /-- The sessions are those accepted, numbered from one, each either open or closed. -/
  accepted : ∀ id, (1 ≤ id ∧ id ≤ sv.opened) ↔ ((sv.sessions id).isSome ∨ id ∈ sv.closedIds)
  gone : ∀ id ∈ sv.closedIds, sv.sessions id = none
  once : sv.closedIds.Nodup
  id : ∀ {sid s}, sv.sessions sid = some s → s.id = sid
  current : ∀ {sid s}, sv.sessions sid = some s → s.Routed sv.drained
  closed : ∀ x ∈ sv.closed, x.1 <+: sv.drained ∧ x.2.Routed x.1
  addressed : ∀ e ∈ sv.drained, e.session ≤ sv.opened
  published : sv.publisher.published = sv.drained.filterMap Event.marketData?
  ring : sv.publisher.ring =
    sv.publisher.published.foldl ReplayRing.append { capacityLog2 := sv.publisher.cfg.ringLog2 }

theorem acceptOne_stream (sv : Server) (fd : Nat) :
    SameStream { sv with nextSid := (sv.nextSid + 1) % word32, opened := sv.opened + 1 } (sv.acceptOne fd .session) := by
  rw [acceptOne_eq]
  exact ⟨rfl, rfl, rfl, rfl, rfl, rfl⟩

namespace Routes

variable {sv sv' : Server}

theorem init (cfg : Config) (listenFd mdListenFd : Nat) : (Server.init cfg listenFd mdListenFd).Routes := by
  rw [init_eq]
  refine ⟨(by decide : 0 < word32), rfl, fun id => ?_, ?_, List.nodup_nil, ?_, ?_, ?_, ?_, rfl, rfl⟩
  · simp [closedIds]
    omega
  all_goals simp [closedIds]

theorem not_mem_closedIds (h : sv.Routes) {sid : Nat} {s : Session} (hs : sv.sessions sid = some s) :
    sid ∉ sv.closedIds := fun hmem => by
  rw [h.gone sid hmem] at hs
  cases hs

/-- Nothing was accepted, drained or published: only the sessions are to be looked at. -/
theorem of_sameStream (h : sv.Routes) (hstream : SameStream sv sv')
    (haccepted : ∀ id, ((sv'.sessions id).isSome ∨ id ∈ sv'.closedIds) ↔ ((sv.sessions id).isSome ∨ id ∈ sv.closedIds))
    (hgone : ∀ id ∈ sv'.closedIds, sv'.sessions id = none) (honce : sv'.closedIds.Nodup)
    (hid : ∀ {sid s}, sv'.sessions sid = some s → s.id = sid)
    (hcurrent : ∀ {sid s}, sv'.sessions sid = some s → s.Routed sv.drained)
    (hclosed : ∀ x ∈ sv'.closed, x.1 <+: sv.drained ∧ x.2.Routed x.1) : sv'.Routes where
  few := by rw [hstream.opened]; exact h.few
  nextSid := by rw [hstream.opened, hstream.nextSid]; exact h.nextSid
  accepted := fun id => by rw [hstream.opened, haccepted]; exact h.accepted id
  gone := hgone
  once := honce
  id := hid
  current := fun hs => by rw [hstream.drained]; exact hcurrent hs
  closed := by rw [hstream.drained]; exact hclosed
  addressed := by rw [hstream.drained, hstream.opened]; exact h.addressed
  published := by rw [hstream.publisher.published, hstream.drained]; exact h.published
  ring := by rw [hstream.publisher.ring, hstream.publisher.published, hstream.publisher.cfg]; exact h.ring

theorem keep (h : sv.Routes) {s s' : Session} (hs : sv.sessions s.id = some s) (hkept : s.Kept s')
    (hsessions : sv'.sessions = Function.update sv.sessions s.id (some s')) (hclosed : sv'.closed = sv.closed)
    (hstream : SameStream sv sv') : sv'.Routes := by
  have hids : sv'.closedIds = sv.closedIds := by rw [closedIds, hclosed, closedIds]
  have hother : ∀ id, id ≠ s.id → sv'.sessions id = sv.sessions id := fun id hne => by
    rw [hsessions, Function.update_of_ne hne]
  have hown : sv'.sessions s.id = some s' := by rw [hsessions, Function.update_self]
  refine h.of_sameStream hstream (fun id => ?_) (fun id hmem => ?_) (hids ▸ h.once) (fun {id x} hx => ?_)
    (fun {id x} hx => ?_) (hclosed ▸ h.closed)
  · rw [hids]
    by_cases heq : id = s.id
    · rw [heq, hown, hs]
      rfl
    · rw [hother id heq]
  · rw [hids] at hmem
    have hne : id ≠ s.id := fun heq => h.not_mem_closedIds hs (heq ▸ hmem)
    rw [hother id hne]
    exact h.gone id hmem
  · by_cases heq : id = s.id
    · rw [heq, hown, Option.some.injEq] at hx
      rw [← hx, heq, hkept.id]
    · rw [hother id heq] at hx
      exact h.id hx
  · by_cases heq : id = s.id
    · rw [heq, hown, Option.some.injEq] at hx
      exact hx ▸ (h.current hs).kept hkept
    · rw [hother id heq] at hx
      exact h.current hx

theorem close (h : sv.Routes) {s s' : Session} (hs : sv.sessions s.id = some s) (hkept : s.Kept s')
    (hsessions : sv'.sessions = Function.update sv.sessions s.id none)
    (hclosed : sv'.closed = sv.closed ++ [(sv.drained, s')]) (hstream : SameStream sv sv') : sv'.Routes := by
  have hids : sv'.closedIds = sv.closedIds ++ [s.id] := by
    rw [closedIds, hclosed, List.map_append, ← hkept.id]
    rfl
  have hother : ∀ id, id ≠ s.id → sv'.sessions id = sv.sessions id := fun id hne => by
    rw [hsessions, Function.update_of_ne hne]
  have hown : sv'.sessions s.id = none := by rw [hsessions, Function.update_self]
  have hopen : ∀ {id x}, sv'.sessions id = some x → sv.sessions id = some x := fun {id x} hx => by
    by_cases heq : id = s.id
    · rw [heq, hown] at hx
      cases hx
    · rw [← hother id heq]
      exact hx
  refine h.of_sameStream hstream (fun id => ?_) (fun id hmem => ?_) ?_ (fun hx => h.id (hopen hx))
    (fun hx => h.current (hopen hx)) (fun x hx => ?_)
  · rw [hids, List.mem_append, List.mem_singleton]
    by_cases heq : id = s.id
    · simp [heq, hs]
    · simp [heq, hother id heq]
  · by_cases heq : id = s.id
    · rw [heq, hown]
    · rw [hids, List.mem_append, List.mem_singleton] at hmem
      rw [hother id heq]
      exact h.gone id (hmem.resolve_right heq)
  · rw [hids]
    refine h.once.append (List.nodup_singleton _) (List.disjoint_singleton.2 (h.not_mem_closedIds hs))
  · rw [hclosed, List.mem_append, List.mem_singleton] at hx
    rcases hx with hx | rfl
    · exact h.closed x hx
    · exact ⟨List.prefix_rfl, (h.current hs).kept hkept⟩

theorem tended (h : sv.Routes) (ht : sv.Tended sv') : sv'.Routes := by
  have hstream := ht.stream
  cases ht.touched with
  | @kept sid s s' hs hkept hsessions hclosed =>
      have hsid := h.id hs
      subst hsid
      exact h.keep hs hkept hsessions hclosed hstream
  | @closed sid s s' hs hkept hsessions hclosed =>
      have hsid := h.id hs
      subst hsid
      exact h.close hs hkept hsessions hclosed hstream
  | other hsessions hclosed =>
      have hids : sv'.closedIds = sv.closedIds := by rw [closedIds, hclosed, closedIds]
      refine h.of_sameStream hstream (fun id => by rw [hsessions, hids]) ?_ (hids ▸ h.once) ?_ ?_ (hclosed ▸ h.closed)
      · rw [hsessions, hids]
        exact h.gone
      · rw [hsessions]
        exact h.id
      · rw [hsessions]
        exact h.current

theorem tends (h : sv.Routes) (ht : sv.Tends sv') : sv'.Routes := by
  induction ht with
  | refl => exact h
  | tail _ hstep ih => exact ih.tended hstep

/-- No event drained so far can be for the new session. -/
theorem routed_accepted (h : sv.Routes) (fd : Nat) {id : Nat} (hid : sv.opened < id) :
    (Session.accepted fd id).Routed sv.drained := by
  refine ⟨?_, Session.numbered_accepted fd id⟩
  have hnone : (sv.drained.filter fun e => e.session = id) = [] := by
    refine List.filter_eq_nil_iff.2 fun e he heq => ?_
    have hle := h.addressed e he
    simp at heq
    omega
  change _ = (sv.drained.filter fun e => e.session = id).filterMap Event.private?
  rw [hnone]
  rfl

theorem acceptOne (h : sv.Routes) (fd : Nat) (hfew : sv.opened + 1 < word32) : (sv.acceptOne fd .session).Routes := by
  have hsid : sv.nextSid = sv.opened + 1 := by
    rw [h.nextSid, Nat.add_comm, Nat.mod_eq_of_lt hfew]
  have hfree : sv.sessions (sv.opened + 1) = none := by
    by_contra hopen
    have hle := ((h.accepted _).2 (Or.inl (Option.isSome_iff_ne_none.2 hopen))).2
    omega
  have hclosed : (sv.acceptOne fd .session).closed = sv.closed := by rw [acceptOne_eq]
  obtain ⟨hdrained, hopened, hnext, hpublisher⟩ := sv.acceptOne_stream fd
  dsimp only at hdrained hopened hnext hpublisher
  have hsessions := sv.acceptOne_sessions fd (hsid ▸ hfree)
  rw [hsid] at hsessions hnext
  have hids : (sv.acceptOne fd .session).closedIds = sv.closedIds := by rw [closedIds, hclosed, closedIds]
  have hother : ∀ id, id ≠ sv.opened + 1 → (sv.acceptOne fd .session).sessions id = sv.sessions id := fun id hne => by
    rw [hsessions, Function.update_of_ne hne]
  have hown : (sv.acceptOne fd .session).sessions (sv.opened + 1) = some (.accepted fd (sv.opened + 1)) := by
    rw [hsessions, Function.update_self]
  refine ⟨?_, ?_, fun id => ?_, fun id hmem => ?_, hids ▸ h.once, fun {id s} hs => ?_, fun {id s} hs => ?_, ?_, ?_, ?_, ?_⟩
  · rw [hopened]
    exact hfew
  · rw [hnext, hopened, Nat.add_comm 1]
  · rw [hopened, hids]
    by_cases heq : id = sv.opened + 1
    · simp [heq, hown]
    · rw [hother id heq, ← h.accepted]
      omega
  · rw [hids] at hmem
    have hle := ((h.accepted id).2 (Or.inr hmem)).2
    rw [hother id (by omega)]
    exact h.gone id hmem
  · by_cases heq : id = sv.opened + 1
    · rw [heq, hown, Option.some.injEq] at hs
      rw [← hs, heq]
      rfl
    · rw [hother id heq] at hs
      exact h.id hs
  · rw [hdrained]
    by_cases heq : id = sv.opened + 1
    · rw [heq, hown, Option.some.injEq] at hs
      exact hs ▸ h.routed_accepted fd (Nat.lt_succ_self _)
    · rw [hother id heq] at hs
      exact h.current hs
  · rw [hclosed, hdrained]
    exact h.closed
  · rw [hdrained, hopened]
    exact fun e he => (h.addressed e he).trans (Nat.le_succ _)
  · rw [hpublisher.published, hdrained]
    exact h.published
  · rw [hpublisher.ring, hpublisher.published, hpublisher.cfg]
    exact h.ring

/-- Another event was drained: the sessions and the stream are to be looked at. -/
theorem of_drained (h : sv.Routes) {e : Event} (he : e.session ≤ sv.opened) (sessions : Nat → Option Session)
    {publisher : Publisher} {dirty : List Nat}
    (hsome : ∀ id, (sessions id).isSome = (sv.sessions id).isSome) (hid : ∀ {sid s}, sessions sid = some s → s.id = sid)
    (hcurrent : ∀ {sid s}, sessions sid = some s → s.Routed (sv.drained ++ [e]))
    (hpublished : publisher.published = (sv.drained ++ [e]).filterMap Event.marketData?)
    (hring : publisher.ring = publisher.published.foldl ReplayRing.append { capacityLog2 := publisher.cfg.ringLog2 }) :
    Routes { sv with sessions := sessions, publisher := publisher, dirty := dirty, drained := sv.drained ++ [e] } where
  few := h.few
  nextSid := h.nextSid
  accepted := fun id => by
    change _ ↔ ((sessions id).isSome ∨ id ∈ sv.closedIds)
    rw [hsome]
    exact h.accepted id
  gone := fun id hmem => by
    have hnone := h.gone id hmem
    rw [← Option.not_isSome_iff_eq_none, ← hsome, Option.not_isSome_iff_eq_none] at hnone
    exact hnone
  once := h.once
  id := hid
  current := hcurrent
  closed := fun x hx => ⟨(h.closed x hx).1.trans (List.prefix_append _ _), (h.closed x hx).2⟩
  addressed := fun e' he' => by
    rcases List.mem_append.1 he' with hmem | hmem
    · exact h.addressed e' hmem
    · rw [List.mem_singleton.1 hmem]
      exact he
  published := hpublished
  ring := hring

theorem noted (h : sv.Routes) {e : Event} (he : e.session ≤ sv.opened) (hnoted : sv.Noted e sv') : sv'.Routes := by
  have hpublished : e.marketData? = none →
      sv.publisher.published = (sv.drained ++ [e]).filterMap Event.marketData? := fun hmarket => by
    rw [h.published, List.filterMap_append]
    simp [hmarket]
  cases hnoted with
  | @published m hm =>
      refine h.of_drained he sv.sessions (fun id => rfl) h.id
        (fun hs => (h.current hs).other (.inr (Event.private?_of_marketData? hm))) ?_ ?_
      · change sv.publisher.published ++ [m] = _
        rw [h.published, List.filterMap_append]
        simp [hm]
      · change sv.publisher.ring.append m =
          (sv.publisher.published ++ [m]).foldl ReplayRing.append { capacityLog2 := sv.publisher.cfg.ringLog2 }
        rw [List.foldl_append, ← h.ring]
        rfl
  | dropped hmarket hnone =>
      refine h.of_drained he sv.sessions (fun id => rfl) h.id (fun {sid s} hs => (h.current hs).other ?_)
        (hpublished hmarket) h.ring
      refine hnone.imp_left fun hnone heq => ?_
      rw [heq, h.id hs, hs] at hnone
      cases hnone
  | @sent s m hmarket hs hm =>
      have hsid := h.id hs
      have hother : ∀ id, id ≠ s.id →
          Function.update sv.sessions s.id (some (s.send .engine m)) id = sv.sessions id :=
        fun id hne => Function.update_of_ne hne _ _
      have hown : Function.update sv.sessions s.id (some (s.send .engine m)) s.id = some (s.send .engine m) :=
        Function.update_self _ _ _
      refine h.of_drained he (Function.update sv.sessions s.id (some (s.send .engine m))) (fun id => ?_)
        (fun {id x} hx => ?_) (fun {id x} hx => ?_) (hpublished hmarket) h.ring
      · by_cases heq : id = s.id
        · rw [heq, hown, hsid, hs]
          rfl
        · rw [hother id heq]
      · by_cases heq : id = s.id
        · rw [heq, hown, Option.some.injEq] at hx
          rw [← hx, heq]
          rfl
        · rw [hother id heq] at hx
          exact h.id hx
      · by_cases heq : id = s.id
        · rw [heq, hown, Option.some.injEq] at hx
          exact hx ▸ (h.current hs).own hsid.symm hm
        · rw [hother id heq] at hx
          refine (h.current hx).other (.inl fun hsession => heq ?_)
          rw [← h.id hx, ← hsession, hsid]

end Routes

end Server

end Matchbox
