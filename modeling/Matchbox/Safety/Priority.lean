import Matchbox.Safety.Uncrossed

/-!
# Price-time priority over whole runs

Every order carries a stamp: the number of the command that last sent it to the back of a queue. The stamps are computed from the history, that is from the commands and what the engine answered, not from the queues. Every queue is sorted by stamp, because orders enter at the back with the newest stamp and leave anywhere; so whenever an order trades as a maker, no order of its side has a better price, and none at its price an older stamp.
-/

namespace Matchbox

/-! ### Stamps -/

/-- The Replace asks for the same price and no more than what remains, so the order keeps its place. -/
def Engine.keepsPlace (e : Engine) (c : Command) : Bool :=
  match e.pool.find c.orderId with
  | none => false
  | some slot => decide (c.price = (e.pool.slots slot).price ∧ c.qty ≤ (e.pool.slots slot).qty)

/-- The stamps after command number `n`: an accepted New and a Replace that moves the order stamp its identifier. -/
def Engine.restamp (e : Engine) (now n : Nat) (c : Command) (stamp : Nat → Nat) : Nat → Nat :=
  match (e.process now c).2.head? with
  | none => stamp
  | some first =>
      if first.event.kind = .accepted ∨ first.event.kind = .replaced ∧ e.keepsPlace c = false then
        Function.update stamp first.event.orderId n
      else stamp

theorem Engine.restamp_of_moves {e : Engine} {now n : Nat} {c : Command} {stamp : Nat → Nat} {t : Emission}
    {rest : List Emission} (hlog : (e.process now c).2 = t :: rest)
    (hmoves : t.event.kind = .accepted ∨ t.event.kind = .replaced ∧ e.keepsPlace c = false) :
    e.restamp now n c stamp = Function.update stamp t.event.orderId n := by
  rw [restamp, hlog]
  exact if_pos hmoves

theorem Engine.restamp_of_stays {e : Engine} {now n : Nat} {c : Command} {stamp : Nat → Nat} {t : Emission}
    {rest : List Emission} (hlog : (e.process now c).2 = t :: rest)
    (hstays : ¬ (t.event.kind = .accepted ∨ t.event.kind = .replaced ∧ e.keepsPlace c = false)) :
    e.restamp now n c stamp = stamp := by
  rw [restamp, hlog]
  exact if_neg hstays

/-- The stamps after a run whose first command has number `n`. -/
def Engine.stamps (e : Engine) (n : Nat) (stamp : Nat → Nat) : List (Nat × Command) → Nat → Nat
  | [] => stamp
  | (now, c) :: cmds => (e.process now c).1.stamps (n + 1) (e.restamp now n c stamp) cmds

/-- At the moment of a maker's fill, the maker `m` is live in the pool, no other live order of its symbol and side has a better price, and none at its price has an earlier stamp. -/
def FirstInLine (stamp : Nat → Nat) (t : Emission) : Prop :=
  ∃ m < t.pool.capacity, (t.pool.slots m).live = true ∧ (t.pool.slots m).id = t.event.orderId ∧
    (t.pool.slots m).symbol = t.event.symbol ∧ (t.pool.slots m).side = t.event.side ∧
    (t.pool.slots m).price = t.event.price ∧
    ∀ j < t.pool.capacity, j ≠ m → (t.pool.slots j).live = true →
      (t.pool.slots j).symbol = (t.pool.slots m).symbol → (t.pool.slots j).side = (t.pool.slots m).side →
      Book.better (t.pool.slots m).side (t.pool.slots j).price (t.pool.slots m).price = false ∧
      ((t.pool.slots j).price = (t.pool.slots m).price →
        ¬ stamp (t.pool.slots j).id < stamp (t.pool.slots m).id)

/-! ### Queues are sorted by stamp -/

/-- Every queue is sorted by stamp, and all stamps are older than `n`. -/
structure Stamped (n : Nat) (stamp : Nat → Nat) (w : Ledger) : Prop where
  sorted : ∀ k s p, (w.q k s p).Pairwise fun a b => stamp (w.e.pool.slots a).id < stamp (w.e.pool.slots b).id
  below : ∀ k s p, ∀ i ∈ w.q k s p, stamp (w.e.pool.slots i).id < n

/-- Queues may lose orders, and stamps of identifiers outside the queues may change. -/
theorem Stamped.mono {n n' : Nat} {stamp stamp' : Nat → Nat} {w w' : Ledger} (h : Stamped n stamp w) (hn : n ≤ n')
    (hsub : ∀ k s p, (w'.q k s p).Sublist (w.q k s p))
    (hstamp : ∀ k s p, ∀ i ∈ w'.q k s p, stamp' (w'.e.pool.slots i).id = stamp (w.e.pool.slots i).id) :
    Stamped n' stamp' w' where
  sorted := fun k s p => by
    apply ((h.sorted k s p).sublist (hsub k s p)).imp_of_mem
    intro a b ha hb hlt
    rwa [hstamp k s p a ha, hstamp k s p b hb]
  below := fun k s p i hi => by
    rw [hstamp k s p i hi]
    exact lt_of_lt_of_le (h.below k s p i ((hsub k s p).subset hi)) hn

theorem Fills.stamped {now i n : Nat} {stamp : Nat → Nat} {w w' : Ledger} {log : List Emission}
    (h : Fills now i w w' log) (hstamped : Stamped n stamp w) : Stamped n stamp w' :=
  hstamped.mono le_rfl h.sublist fun _ _ _ _ hj =>
    congrArg stamp (h.read Order.id (fun _ _ _ => rfl) (fun _ _ => rfl) hj)

/-- The order that comes to rest gets the newest stamp and stands behind all others. -/
theorem Rested.stamped {i n : Nat} {stamp : Nat → Nat} {w w' : Ledger} (h : Rested i w w') (hstamped : Stamped n stamp w) :
    Stamped (n + 1) (Function.update stamp (w.e.pool.slots i).id n) w' := by
  have hid : ∀ j, (w'.e.pool.slots j).id = (w.e.pool.slots j).id :=
    fun j => (h.slots j).read Order.id fun _ _ => rfl
  have hloose := w.rep.loose_mem i (by simp [h.loose])
  have hnew : ∀ k s p, ∀ j ∈ w.q k s p,
      Function.update stamp (w.e.pool.slots i).id n (w.e.pool.slots j).id = stamp (w.e.pool.slots j).id := by
    intro k s p j hj
    have hqueued := w.rep.queued k s p j hj
    apply Function.update_of_ne
    intro heq
    have hji := w.rep.id_inj hqueued.lt hloose.1 hqueued.live hloose.2.1 heq
    exact hloose.2.2 k s p (hji ▸ hj)
  constructor
  case sorted =>
    intro k s p
    simp only [hid]
    by_cases heq : k = (w.e.pool.slots i).symbol ∧ s = (w.e.pool.slots i).side ∧ p = (w.e.pool.slots i).price
    · obtain ⟨rfl, rfl, rfl⟩ := heq
      rw [h.queues', Queues.update_set_same]
      apply List.pairwise_append.mpr
      refine ⟨(hstamped.sorted _ _ _).imp_of_mem fun ha hb hlt => ?_, List.pairwise_singleton _ _, fun a ha b hb => ?_⟩
      · rwa [hnew _ _ _ _ ha, hnew _ _ _ _ hb]
      · rw [List.mem_singleton.mp hb, hnew _ _ _ a ha, Function.update_self]
        exact hstamped.below _ _ _ a ha
    · rw [h.queues', Queues.update_set_of_ne _ heq]
      apply (hstamped.sorted k s p).imp_of_mem
      intro a b ha hb hlt
      rwa [hnew _ _ _ _ ha, hnew _ _ _ _ hb]
  case below =>
    intro k s p j hj
    rw [hid]
    rcases h.mem_of_mem hj with hj | ⟨rfl, _⟩
    · rw [hnew _ _ _ _ hj]
      exact Nat.lt_succ_of_lt (hstamped.below _ _ _ _ hj)
    · rw [Function.update_self]
      exact Nat.lt_succ_self n

/-! ### Fills -/

theorem Fill.firstInLine {now i m n : Nat} {stamp : Nat → Nat} {w w' : Ledger} {rest : List Nat} {px : Int} {x : Nat}
    {pool : OrderPool} (h : Fill now i w w' m rest px x pool) (hstamped : Stamped n stamp w) :
    FirstInLine stamp ⟨{ Engine.base now .fill (pool.slots m) with maker := true, price := px, qty := x }, pool⟩ := by
  have hqueued := h.queued
  have hlive := h.seen_read Order.live (fun _ _ _ => rfl) fun _ _ => rfl
  have hid := h.seen_read Order.id (fun _ _ _ => rfl) fun _ _ => rfl
  have hsymbol := h.seen_read Order.symbol (fun _ _ _ => rfl) fun _ _ => rfl
  have hside := h.seen_read Order.side (fun _ _ _ => rfl) fun _ _ => rfl
  have hprice := h.seen_read Order.price (fun _ _ _ => rfl) fun _ _ => rfl
  refine ⟨m, h.traded.capacity ▸ hqueued.lt, (hlive m).trans hqueued.live, rfl, rfl, rfl,
    (hprice m).trans hqueued.price, ?_⟩
  intro j hlt hjm hjlive hjsymbol hjside
  dsimp only at hlt hjlive hjsymbol hjside ⊢
  rw [h.traded.capacity] at hlt
  rw [hlive] at hjlive
  rw [hsymbol, hsymbol, hqueued.symbol] at hjsymbol
  rw [hside, hside, hqueued.side] at hjside
  have hji : j ≠ i := by
    rintro rfl
    exact opposite_ne _ hjside.symm
  have hmem := w.mem_of_live h.loose hlt hjlive hji
  rw [hjsymbol, hjside] at hmem
  rw [hside, hprice, hprice, hid, hid, hqueued.side, hqueued.price]
  constructor
  · have hbest := (w.rep.book (w.e.pool.slots i).symbol).best (opposite (w.e.pool.slots i).side)
    rw [h.best] at hbest
    exact hbest.not_better (List.ne_nil_of_mem hmem)
  · intro hsame
    rw [hsame, h.queue] at hmem
    have hsorted := hstamped.sorted (w.e.pool.slots i).symbol (opposite (w.e.pool.slots i).side) px
    rw [h.queue] at hsorted
    exact not_lt_of_gt (List.rel_of_pairwise_cons hsorted ((List.mem_cons.mp hmem).resolve_left hjm))

theorem Fills.firstInLine {now i n : Nat} {stamp : Nat → Nat} {w w' : Ledger} {log : List Emission}
    (h : Fills now i w w' log) (hstamped : Stamped n stamp w) :
    ∀ t ∈ log, t.event.kind = .fill → t.event.maker = true → FirstInLine stamp t := by
  induction h with
  | refl => simp
  | head hfill _ ih =>
    intro t ht hkind hmaker
    rcases List.mem_append.mp ht with ht | ht
    · simp only [fillEmissions, Engine.fillEvents, List.map_cons, List.map_nil, List.mem_cons, List.not_mem_nil,
        or_false] at ht
      rcases ht with rfl | rfl | rfl
      · exact hfill.firstInLine hstamped
      · exact Bool.noConfusion hmaker
      · exact Event.Kind.noConfusion hkind
    · exact ih (Fills.stamped (.head hfill (.refl _)) hstamped) t ht hkind hmaker

/-! ### Commands -/

/-- Every maker's fill in the log was the fill of the first order in line. -/
def Prioritised (stamp : Nat → Nat) (log : List Emission) : Prop :=
  ∀ t ∈ log, t.event.kind = .fill → t.event.maker = true → FirstInLine stamp t

theorem Matched.prioritised {now i n : Nat} {stamp : Nat → Nat} {w w' : Ledger} {log : List Emission}
    (h : Matched now i w w' log) (hstamped : Stamped n stamp w) :
    Prioritised stamp log ∧ Stamped (n + 1) (Function.update stamp (w.e.pool.slots i).id n) w' := by
  obtain ⟨hfills, _, hended⟩ := h
  have hfilled := hfills.stamped hstamped
  have hid := hfills.taker_read Order.id (fun _ _ _ => rfl) fun _ _ => rfl
  have hfreed : ∀ {w₁ : Ledger}, Stamped n stamp w₁ → (w₁.e.pool.slots i).id = (w.e.pool.slots i).id → Freed i w₁ w' →
      Stamped (n + 1) (Function.update stamp (w.e.pool.slots i).id n) w' := by
    intro w₁ hstamped₁ hid₁ hfreed
    have hloose := w₁.rep.loose_mem i (by simp [hfreed.loose])
    apply hstamped₁.mono (Nat.le_succ n) (fun k s p => by rw [hfreed.queues'])
    intro k s p j hj
    rw [hfreed.queues'] at hj
    have hqueued := w₁.rep.queued k s p j hj
    have hji : j ≠ i := fun heq => hloose.2.2 k s p (heq ▸ hj)
    rw [hfreed.pool', OrderPool.free_slots_of_ne _ hji, ← hid₁, Function.update_of_ne]
    exact fun heq => hji (w₁.rep.id_inj hqueued.lt hloose.1 hqueued.live hloose.2.1 heq)
  refine ⟨fun t ht hkind hmaker => ?_, ?_⟩
  · rcases List.mem_append.mp ht with ht | ht
    · exact hfills.firstInLine hstamped t ht hkind hmaker
    · cases hended with
      | done => exact absurd ht List.not_mem_nil
      | killed =>
        rw [List.mem_singleton.mp ht] at hkind
        exact Event.Kind.noConfusion hkind
      | rested => exact absurd ht List.not_mem_nil
  · cases hended with
    | done _ hf => exact hfreed hfilled hid hf
    | killed _ _ hf => exact hfreed hfilled hid hf
    | rested _ _ _ hrested =>
      rw [← hid]
      exact hrested.stamped hfilled

theorem Processed.prioritised {now n : Nat} {c : Command} {stamp : Nat → Nat} {w w' : Ledger} {log tops : List Emission}
    (h : Processed now c w w' log) (hstamped : Stamped n stamp w) (hlog : (w.e.process now c).2 = log ++ tops) :
    Prioritised stamp log ∧ Stamped (n + 1) (w.e.restamp now n c stamp) w' := by
  have hfind : ∀ {i : Nat}, Owned w c i → w.e.pool.find c.orderId = some i :=
    fun howned => (w.rep.find_eq_some_iff _).mpr ⟨howned.lt, howned.live, howned.id⟩
  have hnone : ∀ {t : Emission}, t.event.kind ≠ .fill → Prioritised stamp [t] := by
    intro t ht u hu hkind _
    rw [List.mem_singleton.mp hu] at hkind
    exact absurd hkind ht
  have hcons : ∀ {t : Emission} {log : List Emission}, t.event.kind ≠ .fill → Prioritised stamp log →
      Prioritised stamp (t :: log) := by
    intro t log ht hprio u hu hkind hmaker
    rcases List.mem_cons.mp hu with rfl | hu
    · exact absurd hkind ht
    · exact hprio u hu hkind hmaker
  have hkeep : ∀ {w₁ : Ledger}, (∀ k s p, (w₁.q k s p).Sublist (w.q k s p)) →
      (∀ k s p, ∀ j ∈ w₁.q k s p, (w₁.e.pool.slots j).id = (w.e.pool.slots j).id) → Stamped n stamp w₁ :=
    fun hsub hid => hstamped.mono le_rfl hsub fun k s p j hj => congrArg stamp (hid k s p j hj)
  cases h with
  | refused _ hidle =>
    refine ⟨hnone (by simp [Engine.reject]), ?_⟩
    rw [Engine.restamp_of_stays hlog (by simp [Engine.reject])]
    exact hstamped.mono (Nat.le_succ n) (fun k s p => by rw [hidle.queues'])
      fun k s p j _ => by rw [hidle.pool']
  | @accepted i w₁ log _ hadmitted hmatched =>
    have hstamped₁ : Stamped n stamp w₁ := by
      refine hkeep (fun k s p => by rw [hadmitted.queues']) fun k s p j hj => ?_
      have hji : j ≠ i := fun heq =>
        (w₁.rep.loose_mem i (by simp [hadmitted.loose'])).2.2 k s p (heq ▸ hj)
      rw [hadmitted.slots', Function.update_of_ne hji]
    obtain ⟨hprio, hdone⟩ := hmatched.prioritised hstamped₁
    refine ⟨hcons (by simp [Engine.base]) hprio, ?_⟩
    rw [Engine.restamp_of_moves hlog (Or.inl rfl)]
    exact hdone
  | @cancelled i w₁ _ _ htaken hfreed =>
    refine ⟨hnone (by simp [Engine.base]), ?_⟩
    rw [Engine.restamp_of_stays hlog (by simp [Engine.base])]
    refine hstamped.mono (Nat.le_succ n) (fun k s p => ?_) fun k s p j hj => ?_
    · rw [hfreed.queues']
      exact htaken.sublist k s p
    · rw [hfreed.queues'] at hj
      have hji : j ≠ i := fun heq => (w₁.rep.loose_mem i (by simp [htaken.loose'])).2.2 k s p (heq ▸ hj)
      rw [hfreed.pool', OrderPool.free_slots_of_ne _ hji, (htaken.slots j).read Order.id fun _ _ => rfl]
  | @reduced i hreplaces hprice hqty hreduced =>
    refine ⟨hnone (by simp [Engine.base]), ?_⟩
    have hkeeps : w.e.keepsPlace c = true := by
      rw [Engine.keepsPlace, hfind hreplaces.owned]
      exact decide_eq_true ⟨hprice, hqty⟩
    rw [Engine.restamp_of_stays hlog (by simp [Engine.base, hkeeps])]
    refine hstamped.mono (Nat.le_succ n) (fun k s p => by rw [hreduced.queues']) fun k s p j _ => ?_
    rw [hreduced.pool', OrderPool.modify_slots]
    split <;> rfl
  | @replaced i w₁ w₂ log hreplaces hmoves htaken hrepriced hmatched =>
    have hstamped₂ : Stamped n stamp w₂ := by
      refine hkeep (fun k s p => ?_) fun k s p j hj => ?_
      · rw [hrepriced.queues']
        exact htaken.sublist k s p
      · rw [hrepriced.pool', OrderPool.modify_slots]
        split <;> exact (htaken.slots j).read Order.id fun _ _ => rfl
    have hkeeps : w.e.keepsPlace c = false := by
      rw [Engine.keepsPlace, hfind hreplaces.owned]
      exact decide_eq_false hmoves
    obtain ⟨hprio, hdone⟩ := hmatched.prioritised hstamped₂
    refine ⟨hcons (by simp [Engine.base]) hprio, ?_⟩
    rw [Engine.restamp_of_moves hlog (Or.inr ⟨rfl, hkeeps⟩)]
    exact hdone

theorem Ledger.run_stamped (cmds : List (Nat × Command)) (w : Ledger) (hloose : w.loose = []) (n : Nat)
    (stamp : Nat → Nat) (hstamped : Stamped n stamp w) :
    ∃ w' n', w'.e = w.e.run cmds ∧ w'.loose = [] ∧ Stamped n' (w.e.stamps n stamp cmds) w' := by
  induction cmds generalizing w n stamp with
  | nil => exact ⟨w, n, rfl, hloose, hstamped⟩
  | cons cmd cmds ih =>
    obtain ⟨now, c⟩ := cmd
    obtain ⟨w₁, log, tops, hprocessed, hw₁, hlog, _⟩ := w.process hloose now c
    obtain ⟨w', n', hw', hloose', hstamped'⟩ := ih w₁ (hprocessed.loose hloose) (n + 1) _
      (hprocessed.prioritised hstamped hlog).2
    rw [hw₁] at hw' hstamped'
    exact ⟨w', n', hw', hloose', hstamped'⟩

/-- Price-time priority: in every run of a fresh engine, every maker's fill is that of the first order in line. -/
theorem Engine.run_priority (cfg : Engine.Config) (cmds : List (Nat × Command)) (now : Nat) (c : Command) (t : Emission)
    (ht : t ∈ (((Engine.init cfg).run cmds).process now c).2) (hkind : t.event.kind = .fill)
    (hmaker : t.event.maker = true) :
    FirstInLine ((Engine.init cfg).stamps 0 (fun _ => 0) cmds) t := by
  obtain ⟨w, n, hw, hloose, hstamped⟩ := Ledger.run_stamped cmds (Ledger.init cfg) rfl 0 (fun _ => 0)
    ⟨fun _ _ _ => List.Pairwise.nil, fun _ _ _ _ hi => absurd hi List.not_mem_nil⟩
  change w.e = (Engine.init cfg).run cmds at hw
  obtain ⟨w', log, tops, hprocessed, _, hlog, htops⟩ := w.process hloose now c
  rw [← hw, hlog] at ht
  rcases List.mem_append.mp ht with ht | ht
  · exact (hprocessed.prioritised hstamped hlog).1 t ht hkind hmaker
  · rw [(htops t ht).1] at hkind
    exact Event.Kind.noConfusion hkind

/-- Two sells at one price, then a buy: the first fill is the older sell's. -/
theorem Engine.run_priority_two_sells :
    FirstInLine
      ((Engine.init { maxPrice := 5, maxOrders := 3 }).stamps 0 (fun _ => 0)
        [(0, { side := .sell, session := 1, price := 4, qty := 2 }), (0, { side := .sell, session := 2, price := 4, qty := 2 })])
      (((((Engine.init { maxPrice := 5, maxOrders := 3 }).run
        [(0, { side := .sell, session := 1, price := 4, qty := 2 }),
          (0, { side := .sell, session := 2, price := 4, qty := 2 })]).process 0
        { session := 3, price := 4, qty := 3 }).2).get ⟨1, by decide +kernel⟩) :=
  Engine.run_priority _ _ 0 _ _ (List.get_mem _ _) (by decide +kernel) (by decide +kernel)

end Matchbox
