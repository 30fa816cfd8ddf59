import Matchbox.Rep.Fill

/-!
# Matching is a chain of fills

What one fill keeps, and from it what a chain of fills keeps; then the two loops of `match`. The inner loop works on one price, which stays the best one as long as its level is occupied. Every fill takes at least one unit from the taker, so the taker's quantity bounds both loops.
-/

namespace Matchbox

theorem Ledger.mem_of_live (w : Ledger) {i j : Nat} (hloose : w.loose = [i]) (hlt : j < w.e.pool.capacity)
    (hlive : (w.e.pool.slots j).live = true) (hi : j ≠ i) :
    j ∈ w.q (w.e.pool.slots j).symbol (w.e.pool.slots j).side (w.e.pool.slots j).price := by
  rcases w.rep.cover j hlt with hfree | hin | hmem
  · rw [(w.rep.free_mem j hfree).2] at hlive
    exact absurd hlive (by decide)
  · rw [hloose] at hin
    exact absurd (List.mem_singleton.mp hin) hi
  · exact hmem

namespace Fill

variable {now i m : Nat} {w w' : Ledger} {rest : List Nat} {px : Int} {x : Nat} {pool : OrderPool}

theorem mem (h : Fill now i w w' m rest px x pool) :
    m ∈ w.q (w.e.pool.slots i).symbol (opposite (w.e.pool.slots i).side) px := by
  rw [h.queue]
  exact List.mem_cons_self

theorem queued (h : Fill now i w w' m rest px x pool) :
    Queued w.e.pool w.e.cfg (w.e.pool.slots i).symbol (opposite (w.e.pool.slots i).side) px m :=
  w.rep.queued _ _ _ m h.mem

theorem ne (h : Fill now i w w' m rest px x pool) : m ≠ i := by
  rintro rfl
  exact (w.rep.loose_mem m (by rw [h.loose]; exact List.mem_cons_self)).2.2 _ _ _ h.mem

/-- Freeing the exhausted maker leaves every other slot as the sink saw it. -/
theorem slots_of_ne (h : Fill now i w w' m rest px x pool) {j : Nat} (hj : j ≠ m) :
    w'.e.pool.slots j = pool.slots j := by
  rw [h.pool']
  split
  · rw [OrderPool.free_slots_of_ne _ hj]
  · rfl

theorem maker_seen (h : Fill now i w w' m rest px x pool) : Relinked ((w.e.pool.slots m).trade x) (pool.slots m) := by
  have hslot := h.traded.slots m
  rwa [if_pos (Or.inl rfl)] at hslot

theorem taker_seen (h : Fill now i w w' m rest px x pool) : Relinked ((w.e.pool.slots i).trade x) (pool.slots i) := by
  have hslot := h.traded.slots i
  rwa [if_pos (Or.inr rfl)] at hslot

theorem taker (h : Fill now i w w' m rest px x pool) : Relinked ((w.e.pool.slots i).trade x) (w'.e.pool.slots i) := by
  rw [h.slots_of_ne h.ne.symm]
  exact h.taker_seen

theorem other (h : Fill now i w w' m rest px x pool) {j : Nat} (hm : j ≠ m) (hi : j ≠ i) :
    Relinked (w.e.pool.slots j) (w'.e.pool.slots j) := by
  rw [h.slots_of_ne hm]
  have hslot := h.traded.slots j
  rwa [if_neg (by simp [hm, hi])] at hslot

theorem seen_read {α : Type} (h : Fill now i w w' m rest px x pool) (f : Order → α)
    (hlink : ∀ o prev next, f (Order.link o prev next) = f o) (htrade : ∀ o x, f (Order.trade o x) = f o) (j : Nat) :
    f (pool.slots j) = f (w.e.pool.slots j) := by
  rw [(h.traded.slots j).read f fun _ _ => hlink _ _ _]
  split
  · exact htrade _ _
  · rfl

/-- Anything but the quantities of an order survives a fill, unless the order is freed. -/
theorem read {α : Type} (h : Fill now i w w' m rest px x pool) (f : Order → α)
    (hlink : ∀ o prev next, f (Order.link o prev next) = f o) (htrade : ∀ o x, f (Order.trade o x) = f o) {j : Nat}
    (hj : (pool.slots m).qty = 0 → j ≠ m) : f (w'.e.pool.slots j) = f (w.e.pool.slots j) := by
  rw [← h.seen_read f hlink htrade j]
  by_cases hjm : j = m
  · rw [h.pool', if_neg fun hzero => hj hzero hjm]
  · rw [h.slots_of_ne hjm]

theorem taker_read {α : Type} (h : Fill now i w w' m rest px x pool) (f : Order → α)
    (hlink : ∀ o prev next, f (Order.link o prev next) = f o) (htrade : ∀ o x, f (Order.trade o x) = f o) :
    f (w'.e.pool.slots i) = f (w.e.pool.slots i) :=
  (h.taker.read f fun _ _ => hlink _ _ _).trans (htrade _ _)

theorem side (h : Fill now i w w' m rest px x pool) : (w'.e.pool.slots i).side = (w.e.pool.slots i).side :=
  h.taker_read Order.side (fun _ _ _ => rfl) fun _ _ => rfl

theorem price (h : Fill now i w w' m rest px x pool) : (w'.e.pool.slots i).price = (w.e.pool.slots i).price :=
  h.taker_read Order.price (fun _ _ _ => rfl) fun _ _ => rfl

theorem type (h : Fill now i w w' m rest px x pool) : (w'.e.pool.slots i).type = (w.e.pool.slots i).type :=
  h.taker_read Order.type (fun _ _ _ => rfl) fun _ _ => rfl

theorem tif (h : Fill now i w w' m rest px x pool) : (w'.e.pool.slots i).tif = (w.e.pool.slots i).tif :=
  h.taker_read Order.tif (fun _ _ _ => rfl) fun _ _ => rfl

theorem qty (h : Fill now i w w' m rest px x pool) : (w'.e.pool.slots i).qty = (w.e.pool.slots i).qty - x :=
  h.taker.qty

theorem qty_lt (h : Fill now i w w' m rest px x pool) : (w'.e.pool.slots i).qty < (w.e.pool.slots i).qty := by
  have hqty := h.qty
  have hamount := h.amount
  have hpos := h.amount_pos
  omega

theorem queue_same (h : Fill now i w w' m rest px x pool) :
    w'.q (w.e.pool.slots i).symbol (opposite (w.e.pool.slots i).side) px
      = if (pool.slots m).qty = 0 then rest else m :: rest := by
  rw [h.queues', Queues.update_set_same]

theorem queue_of_ne (h : Fill now i w w' m rest px x pool) {k : Nat} {s : Side} {p : Int}
    (hne : ¬ (k = (w.e.pool.slots i).symbol ∧ s = opposite (w.e.pool.slots i).side ∧ p = px)) :
    w'.q k s p = w.q k s p := by
  rw [h.queues', Queues.update_set_of_ne _ hne]

theorem mem_of_mem (h : Fill now i w w' m rest px x pool) {j k : Nat} {s : Side} {p : Int} (hj : j ∈ w'.q k s p) :
    j ∈ w.q k s p ∧ ((pool.slots m).qty = 0 → j ≠ m) := by
  rw [h.queues'] at hj
  refine mem_of_mem_filled h.queue ?_ (fun k' s' p' hm => w.rep.queue_unique h.mem hm) hj
  rw [← h.queue]
  exact (w.rep.book _).nodup _ _

theorem mem_iff (h : Fill now i w w' m rest px x pool) {j k : Nat} {s : Side} {p : Int} :
    j ∈ w'.q k s p ↔ j ∈ w.q k s p ∧ ((pool.slots m).qty = 0 → j ≠ m) := by
  refine ⟨h.mem_of_mem, fun ⟨hj, hne⟩ => ?_⟩
  by_cases heq : k = (w.e.pool.slots i).symbol ∧ s = opposite (w.e.pool.slots i).side ∧ p = px
  · obtain ⟨rfl, rfl, rfl⟩ := heq
    rw [h.queue] at hj
    rw [h.queue_same]
    split
    · rename_i hzero
      exact (List.mem_cons.mp hj).resolve_left (hne hzero)
    · exact hj
  · rwa [h.queue_of_ne heq]

theorem sublist (h : Fill now i w w' m rest px x pool) (k : Nat) (s : Side) (p : Int) :
    (w'.q k s p).Sublist (w.q k s p) := by
  by_cases heq : k = (w.e.pool.slots i).symbol ∧ s = opposite (w.e.pool.slots i).side ∧ p = px
  · obtain ⟨rfl, rfl, rfl⟩ := heq
    rw [h.queue_same, h.queue]
    split
    · exact List.sublist_cons_self m rest
    · exact List.Sublist.refl _
  · rw [h.queue_of_ne heq]

/-- The price that was hit stays the best one while its level is occupied. -/
theorem best_same (h : Fill now i w w' m rest px x pool)
    (hne : w'.q (w.e.pool.slots i).symbol (opposite (w.e.pool.slots i).side) px ≠ []) :
    (w'.e.books (w.e.pool.slots i).symbol).best (opposite (w.e.pool.slots i).side) = px := by
  have hbest := (w.rep.book (w.e.pool.slots i).symbol).best (opposite (w.e.pool.slots i).side)
  rw [h.best] at hbest
  refine ((w'.rep.book _).best _).eq (Or.inr ⟨hne, fun p hp => hbest.not_better ?_⟩)
  obtain ⟨j, hj⟩ := List.exists_mem_of_ne_nil _ hp
  exact List.ne_nil_of_mem (h.mem_of_mem hj).1

end Fill

/-- A chain of fills of the loose order `i`, with everything the sink is told. -/
inductive Fills (now i : Nat) : Ledger → Ledger → List Emission → Prop where
  | refl (w : Ledger) : Fills now i w w []
  | head {w w₁ w₂ : Ledger} {m : Nat} {rest : List Nat} {px : Int} {x : Nat} {pool : OrderPool} {log : List Emission}
      (hfill : Fill now i w w₁ m rest px x pool) (hfills : Fills now i w₁ w₂ log) :
      Fills now i w w₂ (fillEmissions now m i px x pool ++ log)

namespace Fills

variable {now i : Nat} {w w' w'' : Ledger} {log log' : List Emission}

theorem trans (h : Fills now i w w' log) (h' : Fills now i w' w'' log') : Fills now i w w'' (log ++ log') := by
  induction h with
  | refl => exact h'
  | head hfill _ ih =>
    rw [List.append_assoc]
    exact .head hfill (ih h')

theorem loose (h : Fills now i w w' log) (hloose : w.loose = [i]) : w'.loose = [i] := by
  induction h with
  | refl => exact hloose
  | head hfill _ ih => exact ih hfill.loose'

theorem sublist (h : Fills now i w w' log) (k : Nat) (s : Side) (p : Int) : (w'.q k s p).Sublist (w.q k s p) := by
  induction h with
  | refl => exact List.Sublist.refl _
  | head hfill _ ih => exact ih.trans (hfill.sublist k s p)

theorem read {α : Type} (h : Fills now i w w' log) (f : Order → α)
    (hlink : ∀ o prev next, f (Order.link o prev next) = f o) (htrade : ∀ o x, f (Order.trade o x) = f o) {j k : Nat}
    {s : Side} {p : Int} (hj : j ∈ w'.q k s p) : f (w'.e.pool.slots j) = f (w.e.pool.slots j) := by
  induction h with
  | refl => rfl
  | head hfill hfills ih =>
    exact (ih hj).trans (hfill.read f hlink htrade (hfill.mem_of_mem ((hfills.sublist k s p).subset hj)).2)

theorem taker_read {α : Type} (h : Fills now i w w' log) (f : Order → α)
    (hlink : ∀ o prev next, f (Order.link o prev next) = f o) (htrade : ∀ o x, f (Order.trade o x) = f o) :
    f (w'.e.pool.slots i) = f (w.e.pool.slots i) := by
  induction h with
  | refl => rfl
  | head hfill _ ih => exact ih.trans (hfill.taker_read f hlink htrade)

theorem symbol (h : Fills now i w w' log) : (w'.e.pool.slots i).symbol = (w.e.pool.slots i).symbol :=
  h.taker_read Order.symbol (fun _ _ _ => rfl) fun _ _ => rfl

theorem side (h : Fills now i w w' log) : (w'.e.pool.slots i).side = (w.e.pool.slots i).side :=
  h.taker_read Order.side (fun _ _ _ => rfl) fun _ _ => rfl

theorem price (h : Fills now i w w' log) : (w'.e.pool.slots i).price = (w.e.pool.slots i).price :=
  h.taker_read Order.price (fun _ _ _ => rfl) fun _ _ => rfl

theorem type (h : Fills now i w w' log) : (w'.e.pool.slots i).type = (w.e.pool.slots i).type :=
  h.taker_read Order.type (fun _ _ _ => rfl) fun _ _ => rfl

theorem qty_le (h : Fills now i w w' log) : (w'.e.pool.slots i).qty ≤ (w.e.pool.slots i).qty := by
  induction h with
  | refl => exact le_rfl
  | head hfill _ ih => exact ih.trans hfill.qty_lt.le

/-- A chain that does anything takes something from the taker. -/
theorem eq_or_qty_lt (h : Fills now i w w' log) : w' = w ∨ (w'.e.pool.slots i).qty < (w.e.pool.slots i).qty := by
  cases h with
  | refl => exact Or.inl rfl
  | head hfill hfills => exact Or.inr (lt_of_le_of_lt hfills.qty_le hfill.qty_lt)

end Fills

/-- Why the order `i` stops matching: it is used up, nothing is left on the other side, or what is left does not cross. -/
def Stopped (i : Nat) (w : Ledger) : Prop :=
  (w.e.pool.slots i).qty = 0 ∨
  (w.e.books (w.e.pool.slots i).symbol).best (opposite (w.e.pool.slots i).side) = kNoPrice ∨
  (w.e.pool.slots i).type = .limit ∧
    Book.crosses (w.e.pool.slots i).side (w.e.pool.slots i).price
      ((w.e.books (w.e.pool.slots i).symbol).best (opposite (w.e.pool.slots i).side)) = false

/-! ### The loops without fuel -/

namespace Book

variable {α : Type} (onFill : OnFill α) (taker : Nat) (s : Side)

/-- The inner loop of `match`, started in the first state, ends in the second. -/
inductive LevelRuns (px : Int) : MatchState α → MatchState α → Prop
  | done {st : MatchState α} (h : ¬ (0 < (st.pool.slots taker).qty ∧ (st.book.levels s px).head ≠ kNull)) :
      LevelRuns px st st
  | round {st st' : MatchState α} (h : 0 < (st.pool.slots taker).qty ∧ (st.book.levels s px).head ≠ kNull)
      (hrest : LevelRuns px (fillHead onFill taker s px st) st') : LevelRuns px st st'

/-- The outer loop of `match` stops here. -/
def Halts (st : MatchState α) : Prop :=
  (st.pool.slots taker).qty = 0 ∨ st.book.best s = kNoPrice ∨
    (st.pool.slots taker).type = .limit ∧
      crosses (st.pool.slots taker).side (st.pool.slots taker).price (st.book.best s) = false

/-- The outer loop of `match`, started in the first state, ends in the second. -/
inductive LoopRuns : MatchState α → MatchState α → Prop
  | done {st : MatchState α} (h : Halts taker s st) : LoopRuns st st
  | round {st st₁ st₂ : MatchState α} (h : ¬ Halts taker s st) (hlevel : LevelRuns onFill taker s (st.book.best s) st st₁)
      (hrest : LoopRuns st₁ st₂) : LoopRuns st st₂

variable {onFill taker s}

/-- Fuel that is not used up decides nothing. -/
theorem matchLevel_runs (px : Int) (fuel : Nat) (st : MatchState α)
    (hexit : ((matchLevel onFill taker s px fuel st).pool.slots taker).qty = 0 ∨
      ((matchLevel onFill taker s px fuel st).book.levels s px).head = kNull) :
    LevelRuns onFill taker s px st (matchLevel onFill taker s px fuel st) := by
  induction fuel generalizing st with
  | zero =>
    refine .done fun hguard => ?_
    rcases hexit with hzero | hempty
    · exact absurd hzero hguard.1.ne'
    · exact hguard.2 hempty
  | succ fuel ih =>
    rw [matchLevel] at hexit ⊢
    by_cases hguard : 0 < (st.pool.slots taker).qty ∧ (st.book.levels s px).head ≠ kNull
    · rw [if_pos hguard] at hexit ⊢
      exact .round hguard (ih _ hexit)
    · rw [if_neg hguard]
      exact .done hguard

end Book

section Loops

variable {e : Engine} {now k i : Nat} {s : Side}

/-- The ledger `w` stands for the state `st` of a match of the loose order `i` against side `s` of book `k`. -/
structure Matching (e : Engine) (now k i : Nat) (s : Side) (w : Ledger) (st : MatchState (List Emission)) : Prop where
  engine : w.e = e.store now k st.pool st.book
  loose : w.loose = [i]
  symbol : (st.pool.slots i).symbol = k
  side : opposite (st.pool.slots i).side = s

/-- From one state of a match to another, by the fills of `log`. -/
structure Advances (e : Engine) (now k i : Nat) (s : Side) (w : Ledger) (st : MatchState (List Emission)) (w' : Ledger)
    (st' : MatchState (List Emission)) (log : List Emission) : Prop where
  fills : Fills now i w w' log
  matching : Matching e now k i s w' st'
  acc : st'.acc = st.acc ++ log
  filled : st'.filled + (st'.pool.slots i).qty = st.filled + (st.pool.slots i).qty

theorem Advances.trans {w w' w'' : Ledger} {st st' st'' : MatchState (List Emission)} {log log' : List Emission}
    (h : Advances e now k i s w st w' st' log) (h' : Advances e now k i s w' st' w'' st'' log') :
    Advances e now k i s w st w'' st'' (log ++ log') :=
  ⟨h.fills.trans h'.fills, h'.matching, by rw [h'.acc, h.acc, List.append_assoc], h'.filled.trans h.filled⟩

namespace Matching

variable {w w' : Ledger} {st st' : MatchState (List Emission)} {log : List Emission} {px : Int}

theorem pool (h : Matching e now k i s w st) : w.e.pool = st.pool := by
  rw [h.engine]
  rfl

theorem book (h : Matching e now k i s w st) : w.e.books k = st.book := by
  rw [h.engine, Engine.store_books_self]

theorem represents (h : Matching e now k i s w st) : Represents st.pool.slots st.book (w.q k) := by
  have hbook := w.rep.book k
  rwa [h.book, h.pool] at hbook

theorem stopped_iff (h : Matching e now k i s w st) : Stopped i w ↔ Book.Halts i s st := by
  rw [Stopped, h.pool, h.symbol, h.side, h.book, Book.Halts]

theorem fills (h : Matching e now k i s w st) (hfills : Fills now i w w' log)
    (hengine : w'.e = e.store now k st'.pool st'.book) : Matching e now k i s w' st' := by
  have hpool : w'.e.pool = st'.pool := by
    rw [hengine]
    rfl
  refine ⟨hengine, hfills.loose h.loose, ?_, ?_⟩
  · rw [← hpool, hfills.symbol, h.pool, h.symbol]
  · rw [← hpool, hfills.side, h.pool, h.side]

theorem stays (h : Matching e now k i s w st) : Advances e now k i s w st w st [] :=
  ⟨.refl w, h, (List.append_nil _).symm, rfl⟩

theorem fillHead (h : Matching e now k i s w st) (hqty : 0 < (st.pool.slots i).qty)
    (hhead : (st.book.levels s px).head ≠ kNull) (hbest : st.book.best s = px)
    (hcross : (st.pool.slots i).type = .limit → Book.crosses (st.pool.slots i).side (st.pool.slots i).price px = true) :
    ∃ w' m rest x pool, Fill now i w w' m rest px x pool ∧
      Advances e now k i s w st w' (Book.fillHead (Engine.onFill now i) i s px st) (fillEmissions now m i px x pool) := by
  obtain ⟨w', m, rest, x, pool, hfill, hengine, hacc, hfilled⟩ := fillHead_fill w h.engine h.loose h.symbol h.side hqty hhead
    hbest hcross
  have hfills := Fills.head hfill (.refl w')
  rw [List.append_nil] at hfills
  have h' := h.fills hfills hengine
  refine ⟨w', m, rest, x, pool, hfill, hfills, h', hacc, ?_⟩
  have hqty' := hfill.qty
  have hamount := hfill.amount
  rw [h.pool] at hqty' hamount
  rw [h'.pool] at hqty'
  rw [hfilled]
  omega

theorem matchLevel (px : Int) (fuel : Nat) (w : Ledger) (st : MatchState (List Emission))
    (h : Matching e now k i s w st) (hbest : (st.book.levels s px).head ≠ kNull → st.book.best s = px)
    (hcross : (st.pool.slots i).type = .limit → Book.crosses (st.pool.slots i).side (st.pool.slots i).price px = true)
    (hfuel : (st.pool.slots i).qty ≤ fuel) :
    ∃ w' log, Advances e now k i s w st w' (Book.matchLevel (Engine.onFill now i) i s px fuel st) log ∧
      (((Book.matchLevel (Engine.onFill now i) i s px fuel st).pool.slots i).qty = 0 ∨
        ((Book.matchLevel (Engine.onFill now i) i s px fuel st).book.levels s px).head = kNull) := by
  induction fuel generalizing w st with
  | zero => exact ⟨w, [], h.stays, Or.inl (Nat.le_zero.mp hfuel)⟩
  | succ fuel ih =>
    rw [Book.matchLevel]
    by_cases hguard : 0 < (st.pool.slots i).qty ∧ (st.book.levels s px).head ≠ kNull
    · rw [if_pos hguard]
      obtain ⟨w₁, m, rest, x, pool, hfill, hround⟩ := h.fillHead hguard.1 hguard.2 (hbest hguard.2) hcross
      have h₁ := hround.matching
      have hlt := hfill.qty_lt
      rw [h.pool, h₁.pool] at hlt
      have htype := hfill.type
      have hside := hfill.side
      have hprice := hfill.price
      have hsame := hfill.best_same
      rw [h.pool, h₁.pool] at htype hside hprice
      rw [h.pool, h.symbol, h.side, h₁.book] at hsame
      obtain ⟨w', log, htail, hexit⟩ := ih w₁ _ h₁
        (fun hhead => hsame (mt h₁.represents.head_eq_kNull_iff.mpr hhead)) (by rwa [htype, hside, hprice]) (by omega)
      exact ⟨w', _, hround.trans htail, hexit⟩
    · rw [if_neg hguard]
      refine ⟨w, [], h.stays, ?_⟩
      by_cases hqty : (st.pool.slots i).qty = 0
      · exact Or.inl hqty
      · exact Or.inr (not_not.mp fun hhead => hguard ⟨Nat.pos_of_ne_zero hqty, hhead⟩)

/-- The outer loop, also as the code has it, without fuel. -/
theorem matchLoop (fuel : Nat) (w : Ledger) (st : MatchState (List Emission)) (h : Matching e now k i s w st)
    (hfuel : (st.pool.slots i).qty ≤ fuel) :
    ∃ w' log, Advances e now k i s w st w' (Book.matchLoop (Engine.onFill now i) i s fuel st) log ∧ Stopped i w' ∧
      Book.LoopRuns (Engine.onFill now i) i s st (Book.matchLoop (Engine.onFill now i) i s fuel st) := by
  induction fuel generalizing w st with
  | zero =>
    have hhalts : Book.Halts i s st := Or.inl (Nat.le_zero.mp hfuel)
    exact ⟨w, [], h.stays, h.stopped_iff.mpr hhalts, .done hhalts⟩
  | succ fuel ih =>
    have hstay : Book.Halts i s st → ∃ w' log, Advances e now k i s w st w' st log ∧ Stopped i w' ∧
        Book.LoopRuns (Engine.onFill now i) i s st st := fun hhalts =>
      ⟨w, [], h.stays, h.stopped_iff.mpr hhalts, .done hhalts⟩
    rw [Book.matchLoop]
    by_cases hqty : (st.pool.slots i).qty = 0
    · rw [if_pos hqty]
      exact hstay (Or.inl hqty)
    by_cases hnone : st.book.best s = kNoPrice
    · rw [if_neg hqty, if_pos hnone]
      exact hstay (Or.inr (Or.inl hnone))
    by_cases hcross : (st.pool.slots i).type = .limit ∧
        ¬ Book.crosses (st.pool.slots i).side (st.pool.slots i).price (st.book.best s) = true
    · rw [if_neg hqty, if_neg hnone, if_pos hcross]
      exact hstay (Or.inr (Or.inr ⟨hcross.1, Bool.eq_false_iff.mpr hcross.2⟩))
    rw [if_neg hqty, if_neg hnone, if_neg hcross]
    obtain ⟨w₁, log₁, hlevel, hexit⟩ := matchLevel (st.book.best s) _ w st h (fun _ => rfl)
      (fun htype => not_not.mp fun hno => hcross ⟨htype, hno⟩) le_rfl
    have h₁ := hlevel.matching
    -- The best level is occupied, so the inner loop traded at least once.
    have hlt : ((Book.matchLevel (Engine.onFill now i) i s (st.book.best s) (st.pool.slots i).qty st).pool.slots i).qty
        < (st.pool.slots i).qty := by
      rcases hexit with hzero | hempty
      · omega
      · rcases hlevel.fills.eq_or_qty_lt with heq | hlt
        · have hbook := h₁.book
          rw [heq, h.book] at hbook
          rw [← hbook] at hempty
          exact absurd (h.represents.head_eq_kNull_iff.mp hempty) ((h.represents.best s).mem hnone)
        · rwa [h.pool, h₁.pool] at hlt
    obtain ⟨w', log, htail, hstop, hruns⟩ := ih w₁ _ h₁ (by omega)
    refine ⟨w', _, hlevel.trans htail, hstop, .round ?_ (Book.matchLevel_runs _ _ _ hexit) hruns⟩
    rintro (hcon | hcon | hcon)
    · exact hqty hcon
    · exact hnone hcon
    · exact hcross ⟨hcon.1, Bool.eq_false_iff.mp hcon.2⟩

end Matching

end Loops

end Matchbox
