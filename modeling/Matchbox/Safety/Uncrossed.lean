import Matchbox.Safety.Consistent

/-!
# No book is crossed or locked

Matching stops only when the other side of the book no longer crosses, and the other side is judged by its cached best price, which is the true one. So an order that comes to rest is strictly behind every price on the other side; nothing else adds to a queue.
-/

namespace Matchbox

/-- Every buy price of a symbol is strictly below every sell price of it. -/
def QueuesUncrossed (w : Ledger) : Prop :=
  ∀ k bid ask, w.q k .buy bid ≠ [] → w.q k .sell ask ≠ [] → bid < ask

theorem QueuesUncrossed.mono {w w' : Ledger} (h : QueuesUncrossed w)
    (hsub : ∀ {j k s p}, j ∈ w'.q k s p → j ∈ w.q k s p) : QueuesUncrossed w' := by
  intro k bid ask hbid hask
  obtain ⟨i, hi⟩ := List.exists_mem_of_ne_nil _ hbid
  obtain ⟨j, hj⟩ := List.exists_mem_of_ne_nil _ hask
  exact h k bid ask (List.ne_nil_of_mem (hsub hi)) (List.ne_nil_of_mem (hsub hj))

/-- What does not cross the best price of the other side crosses none of it. -/
theorem Book.not_crosses_of_not_better {s : Side} {price p best : Int} (hbest : Book.better (opposite s) p best = false)
    (hcross : Book.crosses s price best = false) : Book.crosses s price p = false := by
  cases s <;> simp only [Book.crosses, Book.better, opposite, decide_eq_false_iff_not] at hbest hcross ⊢ <;> omega

/-- An order that stopped matching before it was used up is behind every price of the other side. -/
theorem Stopped.not_crosses {i : Nat} {w : Ledger} (h : Stopped i w) (hqty : (w.e.pool.slots i).qty ≠ 0) {p : Int}
    (hp : w.q (w.e.pool.slots i).symbol (opposite (w.e.pool.slots i).side) p ≠ []) :
    Book.crosses (w.e.pool.slots i).side (w.e.pool.slots i).price p = false := by
  have hbook := w.rep.book (w.e.pool.slots i).symbol
  rcases h with hzero | hnone | ⟨_, hcross⟩
  · exact absurd hzero hqty
  · exact absurd ((hbook.best_eq_kNoPrice_iff _).mp hnone p) hp
  · exact Book.not_crosses_of_not_better ((hbook.best _).not_better hp) hcross

theorem Rested.uncrossed {i : Nat} {w w' : Ledger} (h : Rested i w w') (hstopped : Stopped i w)
    (hqty : (w.e.pool.slots i).qty ≠ 0) (huncrossed : QueuesUncrossed w) :
    QueuesUncrossed w' := by
  intro k bid ask hbid hask
  obtain ⟨a, ha⟩ := List.exists_mem_of_ne_nil _ hbid
  obtain ⟨b, hb⟩ := List.exists_mem_of_ne_nil _ hask
  rcases h.mem_of_mem ha with ha | ⟨_, hka, hsa, hpa⟩ <;> rcases h.mem_of_mem hb with hb | ⟨_, hkb, hsb, hpb⟩
  · exact huncrossed k bid ask (List.ne_nil_of_mem ha) (List.ne_nil_of_mem hb)
  · have hopposite : w.q (w.e.pool.slots i).symbol (opposite (w.e.pool.slots i).side) bid ≠ [] := by
      rw [← hkb, ← hsb]
      exact List.ne_nil_of_mem ha
    have hbehind := hstopped.not_crosses hqty hopposite
    rw [← hsb, ← hpb] at hbehind
    simp only [Book.crosses, decide_eq_false_iff_not] at hbehind
    omega
  · have hopposite : w.q (w.e.pool.slots i).symbol (opposite (w.e.pool.slots i).side) ask ≠ [] := by
      rw [← hka, ← hsa]
      exact List.ne_nil_of_mem hb
    have hbehind := hstopped.not_crosses hqty hopposite
    rw [← hsa, ← hpa] at hbehind
    simp only [Book.crosses, decide_eq_false_iff_not] at hbehind
    omega
  · exact absurd (hsa.trans hsb.symm) (by decide)

theorem Matched.uncrossed {now i : Nat} {w w' : Ledger} {log : List Emission} (h : Matched now i w w' log)
    (huncrossed : QueuesUncrossed w) : QueuesUncrossed w' := by
  obtain ⟨hfills, hstopped, hended⟩ := h
  have hfilled := huncrossed.mono fun hj => (hfills.sublist _ _ _).subset hj
  cases hended with
  | done _ hfreed => exact hfilled.mono fun hj => hfreed.queues' ▸ hj
  | killed _ _ hfreed => exact hfilled.mono fun hj => hfreed.queues' ▸ hj
  | rested hqty _ _ hrested => exact hrested.uncrossed hstopped hqty hfilled

theorem Processed.uncrossed {now : Nat} {c : Command} {w w' : Ledger} {log : List Emission}
    (h : Processed now c w w' log) (huncrossed : QueuesUncrossed w) : QueuesUncrossed w' := by
  cases h with
  | refused _ hidle => exact huncrossed.mono fun hj => hidle.queues' ▸ hj
  | accepted _ hadmitted hmatched => exact hmatched.uncrossed (huncrossed.mono fun hj => hadmitted.queues' ▸ hj)
  | cancelled _ _ htaken hfreed => exact huncrossed.mono fun hj => (htaken.sublist _ _ _).subset (hfreed.queues' ▸ hj)
  | reduced _ _ _ hreduced => exact huncrossed.mono fun hj => hreduced.queues' ▸ hj
  | replaced _ _ htaken hrepriced hmatched =>
    exact hmatched.uncrossed (huncrossed.mono fun hj => (htaken.sublist _ _ _).subset (hrepriced.queues' ▸ hj))

/-- Every live buy order is priced strictly below every live sell order of its symbol, and so are the cached prices. -/
structure Uncrossed (e : Engine) : Prop where
  orders : ∀ i < e.pool.capacity, ∀ j < e.pool.capacity, (e.pool.slots i).live = true → (e.pool.slots j).live = true →
    (e.pool.slots i).symbol = (e.pool.slots j).symbol → (e.pool.slots i).side = .buy → (e.pool.slots j).side = .sell →
    (e.pool.slots i).price < (e.pool.slots j).price
  best : ∀ k, (e.books k).best .buy ≠ kNoPrice → (e.books k).best .sell ≠ kNoPrice →
    (e.books k).best .buy < (e.books k).best .sell

theorem QueuesUncrossed.engine {w : Ledger} (h : QueuesUncrossed w) (hloose : w.loose = []) : Uncrossed w.e where
  orders := fun i hi j hj hlive hlive' hsymbol hbuy hsell => by
    have hbid := (w.mem_iff hloose i _ _ _).mpr ⟨hi, hlive, hsymbol, hbuy, rfl⟩
    have hask := (w.mem_iff hloose j _ _ _).mpr ⟨hj, hlive', rfl, hsell, rfl⟩
    exact h _ _ _ (List.ne_nil_of_mem hbid) (List.ne_nil_of_mem hask)
  best := fun k hbid hask =>
    h k _ _ (((w.rep.book k).best .buy).mem hbid) (((w.rep.book k).best .sell).mem hask)

/-- After every run of a fresh engine no book is crossed or locked. -/
theorem Engine.run_uncrossed (cfg : Engine.Config) (cmds : List (Nat × Command)) :
    Uncrossed ((Engine.init cfg).run cmds) := by
  obtain ⟨w, hw, hloose, huncrossed⟩ := Ledger.run_inv (fun _ hP hprocessed => hprocessed.uncrossed hP) cmds
    (Ledger.init cfg) rfl (fun _ _ _ hbid => absurd rfl hbid)
  have hengine := huncrossed.engine hloose
  rwa [hw] at hengine

end Matchbox
