import Matchbox.Rep.Pool

/-!
# Fills and the matching loop

A `Ledger` is an engine together with what it represents. A `Fill` is one trade between the loose order `i` and the head of the best opposite queue, stated on the represented data: which order trades, at which price, how much, what the sink sees, and what is left of the queue. The loops of `match` are then a chain of fills that stops only when the taker is done or the opposite side no longer crosses; every later statement about matching is an induction along that chain.
-/

namespace Matchbox

/-- An engine with the queues, the free list and the loose slots it represents. No queued order is empty. -/
structure Ledger where
  e : Engine
  q : Nat → Queues
  free : List Nat
  loose : List Nat
  rep : Rep e q free loose
  pos : ∀ k s p, ∀ i ∈ q k s p, 0 < (e.pool.slots i).qty

/-- What a fill of `x` does to either order. -/
def Order.trade (o : Order) (x : Nat) : Order := { o with qty := o.qty - x, filled := (o.filled + x) % word32 }

/-- The pool after a fill of `x` between two orders, links aside. -/
structure Traded (pool pool' : OrderPool) (maker taker x : Nat) : Prop where
  slots : ∀ j, Relinked (if j = maker ∨ j = taker then (pool.slots j).trade x else pool.slots j) (pool'.slots j)
  capacity : pool'.capacity = pool.capacity
  frees : pool'.frees = pool.frees

/-- One trade of the loose order `i` with the order `m` in front of the best opposite queue. The sink is called with `pool`; an exhausted `m` is freed after that. -/
structure Fill (now i : Nat) (w w' : Ledger) (m : Nat) (rest : List Nat) (px : Int) (x : Nat) (pool : OrderPool) :
    Prop where
  loose : w.loose = [i]
  loose' : w'.loose = [i]
  queue : w.q (w.e.pool.slots i).symbol (opposite (w.e.pool.slots i).side) px = m :: rest
  best : (w.e.books (w.e.pool.slots i).symbol).best (opposite (w.e.pool.slots i).side) = px
  crosses : (w.e.pool.slots i).type = .limit → Book.crosses (w.e.pool.slots i).side (w.e.pool.slots i).price px = true
  amount : x = min (w.e.pool.slots i).qty (w.e.pool.slots m).qty
  amount_pos : 0 < x
  traded : Traded w.e.pool pool m i x
  cfg' : w'.e.cfg = w.e.cfg
  pool' : w'.e.pool = if (pool.slots m).qty = 0 then pool.free m else pool
  free' : w'.free = if (pool.slots m).qty = 0 then m :: w.free else w.free
  queues' : w'.q = Function.update w.q (w.e.pool.slots i).symbol
    ((w.q (w.e.pool.slots i).symbol).set (opposite (w.e.pool.slots i).side) px
      (if (pool.slots m).qty = 0 then rest else m :: rest))

/-- The calls of the sink for one fill. -/
def fillEmissions (now m i : Nat) (px : Int) (x : Nat) (pool : OrderPool) : List Emission :=
  (Engine.fillEvents now (pool.slots m) (pool.slots i) px x).map (⟨·, pool⟩)

@[simp] theorem Engine.store_books_self (e : Engine) (now k : Nat) (pool : OrderPool) (b : Book) :
    (e.store now k pool b).books k = b := by
  simp [Engine.store]

@[simp] theorem Engine.store_store (e : Engine) (now k : Nat) (pool pool' : OrderPool) (b b' : Book) :
    (e.store now k pool b).store now k pool' b' = e.store now k pool' b' := by
  simp [Engine.store]

section FillHead

variable {e : Engine} {now k i m : Nat} {s : Side} {px : Int} {q : Nat → Queues} {free rest : List Nat}
  {pool : OrderPool} {b : Book}

/-- The two quantities after a fill, before the exhausted maker is unlinked. -/
def tradePool (pool : OrderPool) (m i x : Nat) : OrderPool :=
  (pool.modify m (Order.trade · x)).modify i (Order.trade · x)

theorem tradePool_slots (pool : OrderPool) {m i : Nat} (hne : m ≠ i) (x j : Nat) :
    (tradePool pool m i x).slots j = if j = m ∨ j = i then (pool.slots j).trade x else pool.slots j := by
  simp only [tradePool, OrderPool.modify_slots]
  by_cases hi : j = i
  · subst hi
    simp [hne.symm]
  · simp [hi]

/-- The level of the maker after a fill, before an exhausted maker is unlinked. -/
def tradeBook (b : Book) (s : Side) (px : Int) (x : Nat) : Book :=
  b.setLevel s px { b.levels s px with qty := Book.sub32 (b.levels s px).qty x }

theorem Rep.trade (h : Rep (e.store now k pool b) q free [i]) {x : Nat} (hm : m ∈ q k s px)
    (hx : x ≤ (pool.slots m).qty) :
    Rep (e.store now k (tradePool pool m i x) (tradeBook b s px x)) q free [i] := by
  have hmaker : Rep ((e.store now k pool b).store now k (pool.modify m (Order.trade · x))
      (tradeBook ((e.store now k pool b).books k) s px x)) q free [i] :=
    h.setQty now hm (fun o => ⟨_, _, rfl⟩) (Nat.sub_add_cancel hx)
  simp only [Engine.store_store, Engine.store_books_self] at hmaker
  exact hmaker.modify_loose (by simp) rfl rfl rfl

/-- The pool and the book that the callback of a fill sees. -/
def settle (pool : OrderPool) (b : Book) (s : Side) (px : Int) (m i x : Nat) : OrderPool × Book :=
  if ((tradePool pool m i x).slots m).qty = 0 then
    Book.unlink (tradePool pool m i x) (tradeBook b s px x) s px m
  else (tradePool pool m i x, tradeBook b s px x)

theorem Book.fillHead_eq (st : MatchState (List Emission)) (hm : (st.book.levels s px).head = m) {x : Nat}
    (hx : x = min (st.pool.slots i).qty (st.pool.slots m).qty) :
    Book.fillHead (Engine.onFill now i) i s px st =
      { pool := if ((settle st.pool st.book s px m i x).1.slots m).qty = 0
          then (settle st.pool st.book s px m i x).1.free m else (settle st.pool st.book s px m i x).1
        book := (settle st.pool st.book s px m i x).2
        filled := st.filled + x
        acc := st.acc ++ fillEmissions now m i px x (settle st.pool st.book s px m i x).1 } := by
  subst hm hx
  rfl

theorem settle_traded (h : Rep (e.store now k pool b) q free [i]) {x : Nat} (hq : q k s px = m :: rest)
    (hne : m ≠ i) (hx : x ≤ (pool.slots m).qty) : Traded pool (settle pool b s px m i x).1 m i x := by
  have hmem : m ∈ q k s px := by simp [hq]
  have htrade := h.trade hmem hx
  have hbook := htrade.book k
  rw [Engine.store_books_self] at hbook
  simp only [settle]
  split
  · constructor
    case slots =>
      intro j
      rw [← tradePool_slots pool hne]
      exact hbook.unlink_relinked (show q k s px = [] ++ m :: rest from hq) j
    case capacity => rw [Book.unlink_pool]; rfl
    case frees => rw [Book.unlink_pool]; rfl
  · refine ⟨fun j => ?_, rfl, rfl⟩
    rw [← tradePool_slots pool hne]
    exact (Order.link_self _).symm

/-- What the engine represents after a fill. -/
theorem settle_rep (h : Rep (e.store now k pool b) q free [i]) {x : Nat} (hq : q k s px = m :: rest)
    (hne : m ≠ i) (hx : x ≤ (pool.slots m).qty) :
    Rep (e.store now k
        (if ((settle pool b s px m i x).1.slots m).qty = 0 then (settle pool b s px m i x).1.free m
          else (settle pool b s px m i x).1)
        (settle pool b s px m i x).2)
      (Function.update q k ((q k).set s px
        (if ((settle pool b s px m i x).1.slots m).qty = 0 then rest else m :: rest)))
      (if ((settle pool b s px m i x).1.slots m).qty = 0 then m :: free else free) [i] := by
  have hmem : m ∈ q k s px := by simp [hq]
  have htrade := h.trade hmem hx
  have hqty : ((settle pool b s px m i x).1.slots m).qty = ((tradePool pool m i x).slots m).qty := by
    rw [((settle_traded h hq hne hx).slots m).qty, tradePool_slots pool hne]
  rw [hqty]
  by_cases hzero : ((tradePool pool m i x).slots m).qty = 0
  · have hunlink := htrade.unlink now (show q k s px = [] ++ m :: rest from hq)
    simp only [Engine.store_store, Engine.store_books_self, List.nil_append] at hunlink
    simp only [settle, if_pos hzero]
    exact hunlink.free_loose
  · simp only [settle, if_neg hzero]
    rw [← hq, Queues.set_self, Function.update_eq_self]
    exact htrade

theorem mem_of_mem_filled {j k' : Nat} {s' : Side} {p' : Int} {zero : Prop} [Decidable zero]
    (hq : q k s px = m :: rest) (hnodup : (m :: rest).Nodup)
    (hunique : ∀ k' s' p', m ∈ q k' s' p' → k' = k ∧ s' = s ∧ p' = px)
    (hj : j ∈ Function.update q k ((q k).set s px (if zero then rest else m :: rest)) k' s' p') :
    j ∈ q k' s' p' ∧ (zero → j ≠ m) := by
  rcases Queues.mem_update_set hj with ⟨⟨rfl, rfl, rfl⟩, hfilled⟩ | ⟨hne, hj⟩
  · rw [hq]
    by_cases hzero : zero
    · rw [if_pos hzero] at hfilled
      exact ⟨by simp [hfilled], fun _ hjm => (List.nodup_cons.mp hnodup).1 (hjm ▸ hfilled)⟩
    · rw [if_neg hzero] at hfilled
      exact ⟨hfilled, fun hz => absurd hz hzero⟩
  · exact ⟨hj, fun _ hjm => hne (hunique _ _ _ (hjm ▸ hj))⟩

/-- One round of the inner loop is one fill. -/
theorem fillHead_fill (w : Ledger) {st : MatchState (List Emission)} (hw : w.e = e.store now k st.pool st.book)
    (hloose : w.loose = [i]) (hk : (st.pool.slots i).symbol = k) (hs : opposite (st.pool.slots i).side = s)
    (hqty : 0 < (st.pool.slots i).qty) (hhead : (st.book.levels s px).head ≠ kNull) (hbest : st.book.best s = px)
    (hcross : (st.pool.slots i).type = .limit →
      Book.crosses (st.pool.slots i).side (st.pool.slots i).price px = true) :
    ∃ w' m rest x pool, Fill now i w w' m rest px x pool ∧
      w'.e = e.store now k (Book.fillHead (Engine.onFill now i) i s px st).pool
        (Book.fillHead (Engine.onFill now i) i s px st).book ∧
      (Book.fillHead (Engine.onFill now i) i s px st).acc = st.acc ++ fillEmissions now m i px x pool ∧
      (Book.fillHead (Engine.onFill now i) i s px st).filled = st.filled + x := by
  have hrep := w.rep
  have hpos := w.pos
  rw [hw, hloose] at hrep
  rw [hw] at hpos
  have hbook := hrep.book k
  rw [Engine.store_books_self] at hbook
  obtain ⟨m, rest, hq⟩ := List.exists_cons_of_ne_nil (mt hbook.head_eq_kNull_iff.mpr hhead)
  have hm : (st.book.levels s px).head = m := by
    have hlinked := hbook.linked s px
    rw [hq] at hlinked
    exact hlinked.first_eq
  have hmem : m ∈ w.q k s px := by simp [hq]
  have hne : m ≠ i := fun heq => (hrep.loose_mem i (by simp)).2.2 k s px (heq ▸ hmem)
  have hmpos : 0 < (st.pool.slots m).qty := hpos k s px m hmem
  obtain ⟨x, hx⟩ : ∃ x, x = min (st.pool.slots i).qty (st.pool.slots m).qty := ⟨_, rfl⟩
  have htraded := settle_traded hrep hq hne (by omega : x ≤ (st.pool.slots m).qty)
  have hnew := settle_rep hrep hq hne (by omega : x ≤ (st.pool.slots m).qty)
  rw [Book.fillHead_eq st hm hx]
  obtain ⟨pool, hpool⟩ : ∃ pool, pool = (settle st.pool st.book s px m i x).1 := ⟨_, rfl⟩
  rw [← hpool] at htraded hnew ⊢
  refine ⟨⟨_, _, _, _, hnew, fun k' s' p' j hj => ?_⟩, m, rest, x, pool, ?_, rfl, rfl, rfl⟩
  · obtain ⟨hj, hjm⟩ := mem_of_mem_filled hq (hq ▸ hbook.nodup s px) (fun k' s' p' h => hrep.queue_unique hmem h) hj
    have hji : j ≠ i := fun heq => (hrep.loose_mem i (by simp)).2.2 k' s' p' (heq ▸ hj)
    have hslot := htraded.slots j
    change 0 < ((if _ then _ else _ : OrderPool).slots j).qty
    by_cases heq : j = m
    · subst heq
      rw [if_neg fun hz => hjm hz rfl]
      exact Nat.pos_of_ne_zero fun hz => hjm hz rfl
    · have hsame : ((if (pool.slots m).qty = 0 then pool.free m else pool).slots j).qty = (pool.slots j).qty := by
        split
        · rw [OrderPool.free_slots_of_ne _ heq]
        · rfl
      rw [hsame, hslot.qty, if_neg (by simp [heq, hji])]
      exact hpos k' s' p' j hj
  · have hpool' : w.e.pool = st.pool := by rw [hw]; rfl
    constructor
    case loose => exact hloose
    case loose' => rfl
    case queue => rw [hpool', hk, hs, hq]
    case best => rw [hpool', hk, hs, hw, Engine.store_books_self, hbest]
    case crosses => rw [hpool']; exact hcross
    case amount => rw [hpool', hx]
    case amount_pos => omega
    case traded => rw [hpool']; exact htraded
    case cfg' => rw [hw]; rfl
    case pool' => rfl
    case free' => rfl
    case queues' => rw [hpool', hk, hs]

end FillHead

end Matchbox
