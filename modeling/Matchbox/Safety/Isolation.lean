import Matchbox.Safety.Consistent

/-!
# Sessions do not disturb each other

A command can only trade with the orders of other sessions. What it takes from one of them is what its maker's fills report, and an order that is not used up stays what it was, in its place in the queue. The argument follows one slot through the chain of fills: as long as the order rests, each fill of the chain is either its own or somebody else's, and once it is freed no fill names its identifier again.
-/

namespace Matchbox

/-- Everything of an order but the quantities and the links. -/
def Order.terms (o : Order) : Nat × Nat × Nat × Side × OrderType × Tif × Nat × Int :=
  (o.id, o.session, o.symbol, o.side, o.type, o.tif, o.tag, o.price)

/-- What the maker's fills of the order `id` take from it. -/
def makerQty (log : List Emission) (id : Nat) : Nat :=
  ((log.filter fun t => t.event.kind = .fill ∧ t.event.maker = true ∧ t.event.orderId = id).map fun t => t.event.qty).sum

theorem makerQty_append (log more : List Emission) (id : Nat) :
    makerQty (log ++ more) id = makerQty log id + makerQty more id := by
  rw [makerQty, makerQty, makerQty, List.filter_append, List.map_append, List.sum_append]

theorem makerQty_cons_of_ne {t : Emission} (ht : t.event.kind ≠ .fill) (log : List Emission) (id : Nat) :
    makerQty (t :: log) id = makerQty log id := by
  rw [makerQty, makerQty, List.filter_cons_of_neg (by simp [ht])]

theorem makerQty_of_ne {log : List Emission} (h : ∀ t ∈ log, t.event.kind ≠ .fill) (id : Nat) : makerQty log id = 0 := by
  induction log with
  | nil => rfl
  | cons t log ih =>
    rw [makerQty_cons_of_ne (h t (by simp))]
    exact ih fun u hu => h u (List.mem_cons_of_mem t hu)

theorem makerQty_fillEmissions (now m i : Nat) (px : Int) (x : Nat) (pool : OrderPool) (id : Nat) :
    makerQty (fillEmissions now m i px x pool) id = if (pool.slots m).id = id then x else 0 := by
  by_cases hid : (pool.slots m).id = id <;> simp [makerQty, fillEmissions, Engine.fillEvents, Engine.base, hid]

/-! ### One order through a chain of fills -/

section Fills

variable {now i : Nat} {w w' : Ledger} {log : List Emission}

theorem Ledger.slot_eq (w : Ledger) {j l g : Nat} (hj : j < w.e.pool.capacity) (hl : l < w.e.pool.capacity)
    (hlive : (w.e.pool.slots l).live = true) (hid : (w.e.pool.slots l).id = OrderPool.idOf g j) : l = j := by
  rw [w.rep.id l hl hlive] at hid
  exact (OrderPool.idOf_inj (w.rep.lt_word32 hl) (w.rep.lt_word32 hj) hid).2

/-- No identifier of a slot that is free is found. -/
theorem Ledger.find_dead (w : Ledger) {j : Nat} (hj : j < w.e.pool.capacity) (hdead : (w.e.pool.slots j).live = false)
    (g : Nat) : w.e.pool.find (OrderPool.idOf g j) = none := by
  cases hfind : w.e.pool.find (OrderPool.idOf g j) with
  | none => rfl
  | some l =>
    obtain ⟨hl, hlive, hid⟩ := (w.rep.find_eq_some_iff _).mp hfind
    rw [← w.slot_eq hj hl hlive hid, hlive] at hdead
    cases hdead

theorem Fill.capacity {m : Nat} {rest : List Nat} {px : Int} {x : Nat} {pool : OrderPool}
    (h : Fill now i w w' m rest px x pool) : w'.e.pool.capacity = w.e.pool.capacity := by
  rw [h.pool']
  split <;> exact h.traded.capacity

theorem Fill.maker_id {m : Nat} {rest : List Nat} {px : Int} {x : Nat} {pool : OrderPool}
    (h : Fill now i w w' m rest px x pool) : (pool.slots m).id = (w.e.pool.slots m).id :=
  h.seen_read Order.id (fun _ _ _ => rfl) (fun _ _ => rfl) m

/-- A slot that is free stays free, and no maker has an identifier of it. -/
theorem Fills.dead (h : Fills now i w w' log) {j g : Nat} (hj : j < w.e.pool.capacity)
    (hdead : (w.e.pool.slots j).live = false) :
    (w'.e.pool.slots j).live = false ∧ makerQty log (OrderPool.idOf g j) = 0 := by
  induction h with
  | refl => exact ⟨hdead, rfl⟩
  | @head w w₁ w₂ m rest px x pool log hfill _ ih =>
    have hjm : j ≠ m := by
      intro heq
      rw [heq, hfill.queued.live] at hdead
      cases hdead
    have hji : j ≠ i := by
      intro heq
      have hlive := (w.rep.loose_mem i (by rw [hfill.loose]; exact List.mem_singleton_self i)).2.1
      rw [heq, hlive] at hdead
      cases hdead
    have hrel := hfill.other hjm hji
    obtain ⟨hdead', hnone⟩ := ih (hfill.capacity ▸ hj) (by rw [hrel.read Order.live fun _ _ => rfl]; exact hdead)
    refine ⟨hdead', ?_⟩
    rw [makerQty_append, makerQty_fillEmissions, hnone, if_neg]
    intro hid
    rw [hfill.maker_id] at hid
    exact hjm (w.slot_eq hj hfill.queued.lt hfill.queued.live hid).symm

/-- A resting order after a chain of fills: still there with what the fills left of it, or used up and freed. -/
theorem Fills.drawn (h : Fills now i w w' log) {j k : Nat} {s : Side} {p : Int} (hj : j ∈ w.q k s p) :
    (j ∈ w'.q k s p ∧ (w'.e.pool.slots j).terms = (w.e.pool.slots j).terms ∧
        (w'.e.pool.slots j).qty + makerQty log (w.e.pool.slots j).id = (w.e.pool.slots j).qty) ∨
      (w'.e.pool.slots j).live = false ∧ makerQty log (w.e.pool.slots j).id = (w.e.pool.slots j).qty := by
  induction h with
  | refl => exact .inl ⟨hj, rfl, rfl⟩
  | @head w w₁ w₂ m rest px x pool log hfill hfills ih =>
    have hqueued := w.rep.queued k s p j hj
    have hjid := w.rep.id j hqueued.lt hqueued.live
    have hji : j ≠ i := by
      intro heq
      exact (w.rep.loose_mem i (by rw [hfill.loose]; exact List.mem_singleton_self i)).2.2 k s p (heq ▸ hj)
    rw [makerQty_append, makerQty_fillEmissions, hfill.maker_id]
    by_cases hjm : j = m
    · -- the order trades: all of it, or part of it
      subst hjm
      rw [if_pos rfl]
      have hseen := hfill.maker_seen.qty
      change (pool.slots j).qty = (w.e.pool.slots j).qty - x at hseen
      have hle : x ≤ (w.e.pool.slots j).qty := by
        rw [hfill.amount]
        exact Nat.min_le_right _ _
      by_cases hzero : (pool.slots j).qty = 0
      · have hfree : (w₁.e.pool.slots j).live = false := by
          rw [hfill.pool', if_pos hzero, OrderPool.free_slots_self]
        obtain ⟨hdead, hnone⟩ := hfills.dead (g := (w.e.pool.slots j).gen) (hfill.capacity ▸ hqueued.lt) hfree
        refine .inr ⟨hdead, ?_⟩
        rw [hjid, hnone]
        omega
      · have hterms : (w₁.e.pool.slots j).terms = (w.e.pool.slots j).terms :=
          hfill.read Order.terms (fun _ _ _ => rfl) (fun _ _ => rfl) fun h => absurd h hzero
        have hid : (w₁.e.pool.slots j).id = (w.e.pool.slots j).id := congrArg Prod.fst hterms
        have hqty : (w₁.e.pool.slots j).qty = (w.e.pool.slots j).qty - x := by
          rw [hfill.pool', if_neg hzero]
          exact hseen
        have hmem : j ∈ w₁.q k s p := hfill.mem_iff.mpr ⟨hj, fun h => absurd h hzero⟩
        rw [← hid, ← hterms]
        rcases ih hmem with ⟨hmem', hterms', hsum⟩ | ⟨hdead, hsum⟩
        · exact .inl ⟨hmem', hterms', by omega⟩
        · exact .inr ⟨hdead, by omega⟩
    · have hrel := hfill.other hjm hji
      have hterms : (w₁.e.pool.slots j).terms = (w.e.pool.slots j).terms := hrel.read Order.terms fun _ _ => rfl
      have hid : (w₁.e.pool.slots j).id = (w.e.pool.slots j).id := congrArg Prod.fst hterms
      have hmem : j ∈ w₁.q k s p := hfill.mem_iff.mpr ⟨hj, fun _ => hjm⟩
      rw [if_neg fun heq => hjm (w.rep.id_inj hqueued.lt hfill.queued.lt hqueued.live hfill.queued.live heq.symm),
        ← hid, ← hterms, ← hrel.qty, Nat.zero_add]
      exact ih hmem

end Fills

/-! ### One order through a command -/

/-- The order in slot `j` after a part of a command: the same order with what the maker's fills left of it, or used up. -/
def Drawn (w w' : Ledger) (log : List Emission) (j : Nat) : Prop :=
  ((w'.e.pool.slots j).live = true ∧ (w'.e.pool.slots j).terms = (w.e.pool.slots j).terms ∧
      (w'.e.pool.slots j).qty + makerQty log (w.e.pool.slots j).id = (w.e.pool.slots j).qty) ∨
    (w'.e.pool.slots j).live = false ∧ makerQty log (w.e.pool.slots j).id = (w.e.pool.slots j).qty

section Commands

variable {now i j : Nat} {c : Command} {w w₁ w' : Ledger} {log : List Emission}

theorem Drawn.of_relinked (hrel : Relinked (w.e.pool.slots j) (w'.e.pool.slots j)) (hlive : (w.e.pool.slots j).live = true)
    (hlog : ∀ t ∈ log, t.event.kind ≠ .fill) : Drawn w w' log j := by
  refine .inl ⟨?_, hrel.read Order.terms fun _ _ => rfl, ?_⟩
  · rw [hrel.read Order.live fun _ _ => rfl]
    exact hlive
  · rw [hrel.qty, makerQty_of_ne hlog, Nat.add_zero]

theorem Drawn.head (h : Drawn w₁ w' log j) (hrel : Relinked (w.e.pool.slots j) (w₁.e.pool.slots j)) {t : Emission}
    (ht : t.event.kind ≠ .fill) : Drawn w w' (t :: log) j := by
  rw [Drawn] at h ⊢
  rw [hrel.read Order.terms fun _ _ => rfl, hrel.read Order.id fun _ _ => rfl, hrel.qty] at h
  rw [makerQty_cons_of_ne ht]
  exact h

theorem Ended.other (h : Ended now i w w' log) (hji : j ≠ i) : Relinked (w.e.pool.slots j) (w'.e.pool.slots j) := by
  cases h with
  | done _ hfreed =>
    rw [hfreed.pool', OrderPool.free_slots_of_ne _ hji]
    exact Order.link_self _
  | killed _ _ hfreed =>
    rw [hfreed.pool', OrderPool.free_slots_of_ne _ hji]
    exact Order.link_self _
  | rested _ _ _ hrested => exact hrested.slots j

theorem Ended.not_fill (h : Ended now i w w' log) : ∀ t ∈ log, t.event.kind ≠ .fill := by
  cases h with
  | done _ _ => simp
  | killed _ _ _ => simp [Engine.base]
  | rested _ _ _ _ => simp

theorem Matched.drawn (h : Matched now i w w' log) (hloose : w.loose = [i]) {k : Nat} {s : Side} {p : Int}
    (hj : j ∈ w.q k s p) : Drawn w w' log j := by
  obtain ⟨hfills, -, hended⟩ := h
  have hji : j ≠ i := by
    intro heq
    exact (w.rep.loose_mem i (by rw [hloose]; exact List.mem_singleton_self i)).2.2 k s p (heq ▸ hj)
  have hrel := hended.other hji
  rw [Drawn, makerQty_append, makerQty_of_ne hended.not_fill, Nat.add_zero, hrel.read Order.live fun _ _ => rfl,
    hrel.read Order.terms fun _ _ => rfl, hrel.qty]
  rcases hfills.drawn hj with ⟨hmem, hrest⟩ | hdead
  · exact .inl ⟨((Ledger.rep _).queued k s p j hmem).live, hrest⟩
  · exact .inr hdead

/-- A command of another session leaves an order alone or trades with it. -/
theorem Processed.drawn (h : Processed now c w w' log) (hloose : w.loose = []) (hj : j < w.e.pool.capacity)
    (hlive : (w.e.pool.slots j).live = true) (hforeign : (w.e.pool.slots j).session ≠ c.session) : Drawn w w' log j := by
  have hmem := (w.mem_iff hloose j _ _ _).mpr ⟨hj, hlive, rfl, rfl, rfl⟩
  have hother : ∀ {i}, Owned w c i → j ≠ i := by
    intro i howned heq
    rw [heq] at hforeign
    exact hforeign howned.session
  cases h with
  | refused _ hidle =>
    apply Drawn.of_relinked _ hlive (by simp [Engine.reject])
    rw [hidle.pool']
    exact Order.link_self _
  | @accepted i w₁ rest _ hadmitted hmatched =>
    have hji : j ≠ i := by
      intro heq
      have hdead := (w.rep.free_mem i (by rw [hadmitted.free]; exact List.mem_cons_self)).2
      rw [← heq, hlive] at hdead
      cases hdead
    have hslot : w₁.e.pool.slots j = w.e.pool.slots j := by rw [hadmitted.slots', Function.update_of_ne hji]
    apply (hmatched.drawn hadmitted.loose' (hadmitted.queues' ▸ hmem)).head _ (by simp [Engine.base])
    rw [hslot]
    exact Order.link_self _
  | @cancelled i w₁ _ howned htaken hfreed =>
    apply Drawn.of_relinked _ hlive (by simp [Engine.base])
    rw [hfreed.pool', OrderPool.free_slots_of_ne _ (hother howned)]
    exact htaken.slots j
  | @reduced i hreplaces _ _ hreduced =>
    apply Drawn.of_relinked _ hlive (by simp [Engine.base])
    rw [hreduced.pool', OrderPool.modify_slots, if_neg (hother hreplaces.owned)]
    exact Order.link_self _
  | @replaced i w₁ w₂ rest hreplaces _ htaken hrepriced hmatched =>
    have hji := hother hreplaces.owned
    have hmem₂ : j ∈ w₂.q (w.e.pool.slots j).symbol (w.e.pool.slots j).side (w.e.pool.slots j).price := by
      rw [hrepriced.queues']
      exact htaken.mem_of_ne hji hmem
    apply (hmatched.drawn hrepriced.loose' hmem₂).head _ (by simp [Engine.base])
    rw [hrepriced.pool', OrderPool.modify_slots, if_neg hji]
    exact htaken.slots j

end Commands

/-! ### The queues -/

theorem filter_mem_eq_of_sublist {xs ys : List Nat} (h : xs.Sublist ys) (hnodup : ys.Nodup) :
    ys.filter (fun a => a ∈ xs) = xs := by
  induction h with
  | slnil => rfl
  | @cons xs ys a hsub ih =>
    obtain ⟨ha, hnodup⟩ := List.nodup_cons.mp hnodup
    rw [List.filter_cons_of_neg (by simpa using fun hmem => ha (hsub.subset hmem))]
    exact ih hnodup
  | @cons_cons xs ys a hsub ih =>
    obtain ⟨ha, hnodup⟩ := List.nodup_cons.mp hnodup
    rw [List.filter_cons_of_pos (by simp)]
    congr 1
    rw [← ih hnodup]
    apply List.filter_congr
    intro b hb
    have hba : b ≠ a := fun heq => ha (heq ▸ hb)
    simp [hba, hb]

theorem pair_sublist {a b : Nat} {xs ys : List Nat} (h : xs.Sublist ys) (hnodup : ys.Nodup) (hab : [a, b].Sublist ys)
    (ha : a ∈ xs) (hb : b ∈ xs) : [a, b].Sublist xs := by
  have hfilter := hab.filter fun x => decide (x ∈ xs)
  rw [filter_mem_eq_of_sublist h hnodup] at hfilter
  have hpair : [a, b].filter (fun x => decide (x ∈ xs)) = [a, b] := by simp [ha, hb]
  rw [hpair] at hfilter
  exact hfilter

/-- The queues only lose orders, but for `i`, which may go to the back of one. -/
def QueuesKept (i : Nat) (w w' : Ledger) : Prop :=
  ∀ k s p, ∃ stay, stay.Sublist (w.q k s p) ∧ (w'.q k s p = stay ∨ w'.q k s p = stay ++ [i])

section Queues

variable {now i : Nat} {c : Command} {w w₁ w' : Ledger} {log : List Emission}

theorem QueuesKept.of_sublist (h : ∀ k s p, (w'.q k s p).Sublist (w.q k s p)) : QueuesKept i w w' :=
  fun k s p => ⟨_, h k s p, .inl rfl⟩

theorem QueuesKept.head (hsub : ∀ k s p, (w₁.q k s p).Sublist (w.q k s p)) (h : QueuesKept i w₁ w') : QueuesKept i w w' := by
  intro k s p
  obtain ⟨stay, hstay, heq⟩ := h k s p
  exact ⟨stay, hstay.trans (hsub k s p), heq⟩

theorem Rested.queuesKept (h : Rested i w w') : QueuesKept i w w' := by
  intro k s p
  refine ⟨w.q k s p, .refl _, ?_⟩
  rw [h.queues']
  by_cases heq : k = (w.e.pool.slots i).symbol ∧ s = (w.e.pool.slots i).side ∧ p = (w.e.pool.slots i).price
  · obtain ⟨rfl, rfl, rfl⟩ := heq
    exact .inr (Queues.update_set_same _ _ _ _ _)
  · exact .inl (Queues.update_set_of_ne _ heq)

theorem Matched.queuesKept (h : Matched now i w w' log) : QueuesKept i w w' := by
  obtain ⟨hfills, -, hended⟩ := h
  apply QueuesKept.head hfills.sublist
  cases hended with
  | done _ hfreed => exact .of_sublist fun k s p => by rw [hfreed.queues']
  | killed _ _ hfreed => exact .of_sublist fun k s p => by rw [hfreed.queues']
  | rested _ _ _ hrested => exact hrested.queuesKept

/-- The order that may go to the back of a queue is no live order of another session. -/
theorem Processed.queuesKept (h : Processed now c w w' log) :
    ∃ i, QueuesKept i w w' ∧ ∀ j < w.e.pool.capacity, (w.e.pool.slots j).live = true →
      (w.e.pool.slots j).session ≠ c.session → j ≠ i := by
  have hown : ∀ {i}, Owned w c i → ∀ j < w.e.pool.capacity, (w.e.pool.slots j).live = true →
      (w.e.pool.slots j).session ≠ c.session → j ≠ i := by
    intro i howned j _ _ hforeign heq
    rw [heq] at hforeign
    exact hforeign howned.session
  cases h with
  | refused _ hidle =>
    -- nobody moves, so any number that is no slot will do
    exact ⟨w.e.pool.capacity, .of_sublist fun k s p => by rw [hidle.queues'], fun j hj _ _ => hj.ne⟩
  | @accepted i w₁ rest _ hadmitted hmatched =>
    refine ⟨i, hmatched.queuesKept.head fun k s p => by rw [hadmitted.queues'], fun j _ hlive _ heq => ?_⟩
    have hdead := (w.rep.free_mem i (by rw [hadmitted.free]; exact List.mem_cons_self)).2
    rw [← heq, hlive] at hdead
    cases hdead
  | @cancelled i w₁ _ howned htaken hfreed =>
    refine ⟨i, .of_sublist fun k s p => ?_, hown howned⟩
    rw [hfreed.queues']
    exact htaken.sublist k s p
  | @reduced i hreplaces _ _ hreduced =>
    exact ⟨i, .of_sublist fun k s p => by rw [hreduced.queues'], hown hreplaces.owned⟩
  | @replaced i w₁ w₂ rest hreplaces _ htaken hrepriced hmatched =>
    refine ⟨i, hmatched.queuesKept.head fun k s p => ?_, hown hreplaces.owned⟩
    rw [hrepriced.queues']
    exact htaken.sublist k s p

end Queues

/-- What a command leaves of the orders of the other sessions. -/
structure Isolated (e : Engine) (now : Nat) (c : Command) : Prop where
  /-- The same order with what the maker's fills left of it, or used up by them. -/
  orders : ∀ id i, e.pool.find id = some i → (e.pool.slots i).session ≠ c.session →
    ((e.process now c).1.pool.find id = some i ∧
        ((e.process now c).1.pool.slots i).terms = (e.pool.slots i).terms ∧
        ((e.process now c).1.pool.slots i).qty + makerQty (e.process now c).2 id = (e.pool.slots i).qty) ∨
      (e.process now c).1.pool.find id = none ∧ makerQty (e.process now c).2 id = (e.pool.slots i).qty
  /-- Two of them that stay at a level keep their order. -/
  queues : ∀ k s p i j, [i, j].Sublist (e.queue k s p) → (e.pool.slots i).session ≠ c.session →
    (e.pool.slots j).session ≠ c.session → i ∈ (e.process now c).1.queue k s p → j ∈ (e.process now c).1.queue k s p →
    [i, j].Sublist ((e.process now c).1.queue k s p)

theorem Drawn.find {w w' : Ledger} {log : List Emission} {i : Nat} (h : Drawn w w' log i) (hlt : i < w.e.pool.capacity)
    (hlive : (w.e.pool.slots i).live = true) (hcapacity : w'.e.pool.capacity = w.e.pool.capacity) :
    (w'.e.pool.find (w.e.pool.slots i).id = some i ∧ (w'.e.pool.slots i).terms = (w.e.pool.slots i).terms ∧
        (w'.e.pool.slots i).qty + makerQty log (w.e.pool.slots i).id = (w.e.pool.slots i).qty) ∨
      w'.e.pool.find (w.e.pool.slots i).id = none ∧ makerQty log (w.e.pool.slots i).id = (w.e.pool.slots i).qty := by
  rcases h with ⟨hlive', hterms, hqty⟩ | ⟨hdead, hqty⟩
  · exact .inl ⟨(w'.rep.find_eq_some_iff _).mpr ⟨hcapacity ▸ hlt, hlive', congrArg Prod.fst hterms⟩, hterms, hqty⟩
  · refine .inr ⟨?_, hqty⟩
    rw [w.rep.id i hlt hlive]
    exact w'.find_dead (hcapacity ▸ hlt) hdead _

theorem Ledger.isolated (w : Ledger) (hloose : w.loose = []) (now : Nat) (c : Command) : Isolated w.e now c := by
  obtain ⟨w', log, tops, hprocessed, hw', hlog, htops⟩ := w.process hloose now c
  have hnofill : ∀ t ∈ tops, t.event.kind ≠ .fill := by
    intro t ht
    rw [(htops t ht).1]
    decide
  have hcapacity : w'.e.pool.capacity = w.e.pool.capacity := by
    rw [w'.rep.capacity, w.rep.capacity, hw', Engine.process_cfg]
  constructor
  · intro id i hfind hforeign
    obtain ⟨hlt, hlive, rfl⟩ := (w.rep.find_eq_some_iff id).mp hfind
    rw [← hw', hlog, makerQty_append, makerQty_of_ne hnofill, Nat.add_zero]
    exact (hprocessed.drawn hloose hlt hlive hforeign).find hlt hlive hcapacity
  · intro k s p i j hbefore hi hj hi' hj'
    rw [← hw', w'.queue_eq] at hi' hj' ⊢
    rw [w.queue_eq] at hbefore
    obtain ⟨own, hkept, hother⟩ := hprocessed.queuesKept
    obtain ⟨stay, hstay, hcases⟩ := hkept k s p
    have hne : ∀ l ∈ [i, j], (w.e.pool.slots l).session ≠ c.session → l ≠ own := by
      intro l hl hforeign
      have hqueued := w.rep.queued k s p l (hbefore.subset hl)
      exact hother l hqueued.lt hqueued.live hforeign
    have hiown := hne i (by simp) hi
    have hjown := hne j (by simp) hj
    have hnodup := (w.rep.book k).nodup s p
    rcases hcases with heq | heq
    · rw [heq] at hi' hj' ⊢
      exact pair_sublist hstay hnodup hbefore hi' hj'
    · rw [heq] at hi' hj' ⊢
      have hstays : ∀ l, l ≠ own → l ∈ stay ++ [own] → l ∈ stay := by
        intro l hl hmem
        rcases List.mem_append.mp hmem with hmem | hmem
        · exact hmem
        · exact absurd (List.mem_singleton.mp hmem) hl
      exact (pair_sublist hstay hnodup hbefore (hstays i hiown hi') (hstays j hjown hj')).trans (List.sublist_append_left _ _)

/-- In every state that a run of a fresh engine reaches, every command isolates the orders of the other sessions. -/
theorem Engine.run_isolates (cfg : Engine.Config) (cmds : List (Nat × Command)) (now : Nat) (c : Command) :
    Isolated ((Engine.init cfg).run cmds) now c := by
  obtain ⟨w, hw, hloose⟩ := Engine.run_ledger cfg cmds
  have hisolated := w.isolated hloose now c
  rw [hw] at hisolated
  exact hisolated

end Matchbox
