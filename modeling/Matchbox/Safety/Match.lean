import Mathlib.Algebra.Order.BigOperators.Group.List
import Mathlib.Algebra.Order.Group.Nat
import Matchbox.Rep.Unique
import Matchbox.Safety.Isolation
import Matchbox.Safety.Uncrossed

/-!
# What one match does

`Book::match` for every order it is ever called with. The loops are the unbounded ones of the code, so that being in `LoopRuns` says that they end. What they fill is compared with the orders of the pool alone: all on the other side that the taker's limit reaches, whatever the 32-bit counters of their levels say.

The chain of fills is followed from its front. A fill that is not the last one uses up its maker, since otherwise the taker would be done; so no later fill meets that maker again, and none has a better price.
-/

namespace Matchbox

/-! ### Calls of the callback -/

/-- One call of `on_fill`, with the pool that it sees. -/
structure FillCall where
  maker : Nat
  price : Int
  qty : Nat
  pool : OrderPool

/-- What the engine's callback tells the sink. -/
def FillCall.emissions (now i : Nat) (f : FillCall) : List Emission := fillEmissions now f.maker i f.price f.qty f.pool

/-- A taker may trade at this price of the other side. -/
def Order.Reaches (o : Order) (p : Int) : Prop := o.type = .limit → Book.crosses o.side o.price p = true

instance (o : Order) (p : Int) : Decidable (o.Reaches p) := inferInstanceAs (Decidable (_ → _))

/-- The calls of a chain of fills of the order `i`, from the ledger `w` to the ledger `w'`. -/
structure Called (i : Nat) (w w' : Ledger) (calls : List FillCall) : Prop where
  pos : ∀ f ∈ calls, 0 < f.qty
  total : (calls.map FillCall.qty).sum + (w'.e.pool.slots i).qty = (w.e.pool.slots i).qty
  makers : ∀ f ∈ calls, f.maker ∈ w.q (w.e.pool.slots i).symbol (opposite (w.e.pool.slots i).side) f.price ∧
    (w.e.pool.slots i).Reaches f.price
  monotone : calls.Pairwise fun f g => Book.better (opposite (w.e.pool.slots i).side) g.price f.price = false
  used : ∀ f ∈ calls.dropLast, f.qty = (w.e.pool.slots f.maker).qty ∧ (w'.e.pool.slots f.maker).live = false
  distinct : (calls.map FillCall.maker).Nodup

section Calls

variable {now i : Nat} {w w' : Ledger} {log : List Emission}

/-- A fill that leaves something of the taker uses up the maker. -/
theorem Fill.used {m : Nat} {rest : List Nat} {px : Int} {x : Nat} {pool : OrderPool}
    (h : Fill now i w w' m rest px x pool) (hleft : (w'.e.pool.slots i).qty ≠ 0) :
    x = (w.e.pool.slots m).qty ∧ (w'.e.pool.slots m).live = false ∧ ∀ k s p, m ∉ w'.q k s p := by
  have hqty := h.qty
  have hamount := h.amount
  have hx : x = (w.e.pool.slots m).qty := by omega
  have hzero : (pool.slots m).qty = 0 := by
    rw [h.maker_seen.qty]
    exact Nat.sub_eq_zero_of_le hx.ge
  refine ⟨hx, ?_, fun k s p hm => (h.mem_of_mem hm).2 hzero rfl⟩
  rw [h.pool', if_pos hzero, OrderPool.free_slots_self]

theorem Fill.reaches {m : Nat} {rest : List Nat} {px : Int} {x : Nat} {pool : OrderPool}
    (h : Fill now i w w' m rest px x pool) (p : Int) :
    (w'.e.pool.slots i).Reaches p ↔ (w.e.pool.slots i).Reaches p := by
  rw [h.taker_read (fun o => o.Reaches p) (fun _ _ _ => rfl) fun _ _ => rfl]

theorem Called.cons {w₁ : Ledger} {m : Nat} {rest : List Nat} {px : Int} {x : Nat} {pool : OrderPool}
    {calls : List FillCall} (hfill : Fill now i w w₁ m rest px x pool) (hfills : Fills now i w₁ w' log)
    (h : Called i w₁ w' calls) : Called i w w' (⟨m, px, x, pool⟩ :: calls) := by
  have hsymbol : (w₁.e.pool.slots i).symbol = (w.e.pool.slots i).symbol :=
    hfill.taker_read Order.symbol (fun _ _ _ => rfl) fun _ _ => rfl
  have htotal := h.total
  have hqty := hfill.qty
  have hamount := hfill.amount
  -- the makers of the other fills were in the queues before, and they are not `m`
  have hmakers : ∀ f ∈ calls, f.maker ∈ w.q (w.e.pool.slots i).symbol (opposite (w.e.pool.slots i).side) f.price ∧
      (w.e.pool.slots i).Reaches f.price := by
    intro f hf
    obtain ⟨hmem, hreaches⟩ := h.makers f hf
    rw [hsymbol, hfill.side] at hmem
    exact ⟨(hfill.mem_of_mem hmem).1, (hfill.reaches _).1 hreaches⟩
  have hused : ∀ f ∈ calls, x = (w.e.pool.slots m).qty ∧ (w₁.e.pool.slots m).live = false ∧ f.maker ≠ m := by
    intro f hf
    have hle : f.qty ≤ (calls.map FillCall.qty).sum := List.single_le_sum (by simp) _ (List.mem_map_of_mem hf)
    have hpos := h.pos f hf
    obtain ⟨hx, hdead, hnot⟩ := hfill.used (by omega)
    exact ⟨hx, hdead, fun heq => hnot _ _ _ (heq ▸ (h.makers f hf).1)⟩
  refine ⟨List.forall_mem_cons.2 ⟨hfill.amount_pos, h.pos⟩, ?_, List.forall_mem_cons.2 ⟨⟨hfill.mem, hfill.crosses⟩, hmakers⟩,
    List.pairwise_cons.2 ⟨fun f hf => ?_, ?_⟩, ?_, List.nodup_cons.2 ⟨?_, h.distinct⟩⟩
  · rw [List.map_cons, List.sum_cons]
    dsimp only
    omega
  · have hbest := (w.rep.book (w.e.pool.slots i).symbol).best (opposite (w.e.pool.slots i).side)
    rw [hfill.best] at hbest
    exact hbest.not_better (List.ne_nil_of_mem (hmakers f hf).1)
  · have hmonotone := h.monotone
    rw [hfill.side] at hmonotone
    exact hmonotone
  · cases calls with
    | nil => exact fun f hf => absurd hf List.not_mem_nil
    | cons g calls =>
        rw [List.dropLast_cons_of_ne_nil (List.cons_ne_nil _ _)]
        refine List.forall_mem_cons.2 ⟨?_, fun f hf => ?_⟩
        · obtain ⟨hx, hdead, -⟩ := hused g List.mem_cons_self
          have hlt : m < w₁.e.pool.capacity := by
            rw [hfill.capacity]
            exact hfill.queued.lt
          exact ⟨hx, (hfills.dead hlt hdead (g := 0)).1⟩
        · obtain ⟨hfqty, hdead⟩ := h.used f hf
          have hmem := List.mem_of_mem_dropLast hf
          have hne : f.maker ≠ i := by
            intro heq
            have hloose := w.rep.loose_mem i (by rw [hfill.loose]; exact List.mem_singleton_self i)
            exact hloose.2.2 _ _ _ (heq ▸ (hmakers f hmem).1)
          rw [(hfill.other (hused f hmem).2.2 hne).qty] at hfqty
          exact ⟨hfqty, hdead⟩
  · intro hmem
    obtain ⟨f, hf, heq⟩ := List.mem_map.1 hmem
    exact (hused f hf).2.2 heq

theorem Fills.called (h : Fills now i w w' log) :
    ∃ calls : List FillCall, log = calls.flatMap (FillCall.emissions now i) ∧ Called i w w' calls := by
  induction h with
  | refl w =>
      refine ⟨[], rfl, ?_, Nat.zero_add _, ?_, .nil, ?_, List.nodup_nil⟩
      all_goals exact fun f hf => absurd hf List.not_mem_nil
  | @head w w₁ w₂ m rest px x pool log hfill hfills ih =>
      obtain ⟨calls, rfl, hcalled⟩ := ih
      exact ⟨⟨m, px, x, pool⟩ :: calls, rfl, hcalled.cons hfill hfills⟩

end Calls

/-! ### What is in reach -/

/-- The orders of book `k` on the other side of the order in slot `i` that its limit reaches. -/
def OrderPool.inReach (pool : OrderPool) (k i : Nat) : Finset Nat :=
  (Finset.range pool.capacity).filter fun j =>
    (pool.slots j).live = true ∧ (pool.slots j).symbol = k ∧ (pool.slots j).side = opposite (pool.slots i).side ∧
      (pool.slots i).Reaches (pool.slots j).price

/-- What they have left, all together. -/
def OrderPool.reachQty (pool : OrderPool) (k i : Nat) : Nat := ∑ j ∈ pool.inReach k i, (pool.slots j).qty

theorem OrderPool.mem_inReach {pool : OrderPool} {k i j : Nat} : j ∈ pool.inReach k i ↔ j < pool.capacity ∧
    (pool.slots j).live = true ∧ (pool.slots j).symbol = k ∧ (pool.slots j).side = opposite (pool.slots i).side ∧
      (pool.slots i).Reaches (pool.slots j).price := by
  simp [OrderPool.inReach]

theorem OrderPool.reachQty_eq (pool : OrderPool) (k i : Nat) :
    pool.reachQty k i = ∑ j ∈ Finset.range pool.capacity, if j ∈ pool.inReach k i then (pool.slots j).qty else 0 := by
  rw [reachQty, ← Finset.sum_filter]
  congr 1
  ext j
  rw [Finset.mem_filter, Finset.mem_range, and_iff_right_of_imp fun hj => (mem_inReach.1 hj).1]

theorem sum_of_one {f g : Nat → Nat} {n m x : Nat} (hm : m < n) (hother : ∀ j, j ≠ m → g j = f j) (hself : g m + x = f m) :
    (∑ j ∈ Finset.range n, g j) + x = ∑ j ∈ Finset.range n, f j := by
  have hmem : m ∈ Finset.range n := Finset.mem_range.2 hm
  have hrest : ∑ j ∈ (Finset.range n).erase m, g j = ∑ j ∈ (Finset.range n).erase m, f j :=
    Finset.sum_congr rfl fun j hj => hother j (Finset.ne_of_mem_erase hj)
  rw [← Finset.add_sum_erase _ g hmem, ← Finset.add_sum_erase _ f hmem, hrest, ← hself, Nat.add_right_comm]

section Reach

variable {now i : Nat} {w w' : Ledger} {log : List Emission}

theorem Ledger.not_inReach_self (w : Ledger) (k i : Nat) : i ∉ w.e.pool.inReach k i := by
  rw [OrderPool.mem_inReach]
  rintro ⟨-, -, -, hside, -⟩
  cases hown : (w.e.pool.slots i).side <;> rw [hown] at hside <;> cases hside

theorem Fill.reachQty {m : Nat} {rest : List Nat} {px : Int} {x : Nat} {pool : OrderPool}
    (h : Fill now i w w' m rest px x pool) :
    w'.e.pool.reachQty (w.e.pool.slots i).symbol i + x = w.e.pool.reachQty (w.e.pool.slots i).symbol i := by
  have hmaker := h.queued
  have hcapacity := h.capacity
  have hin : m ∈ w.e.pool.inReach (w.e.pool.slots i).symbol i := by
    refine OrderPool.mem_inReach.2 ⟨hmaker.lt, hmaker.live, hmaker.symbol, hmaker.side, ?_⟩
    rw [hmaker.price]
    exact h.crosses
  -- nobody but the maker and the taker changes, and the taker is not in its own reach
  have hother : ∀ j, j ≠ m → (if j ∈ w'.e.pool.inReach (w.e.pool.slots i).symbol i then (w'.e.pool.slots j).qty else 0) =
      if j ∈ w.e.pool.inReach (w.e.pool.slots i).symbol i then (w.e.pool.slots j).qty else 0 := by
    intro j hjm
    by_cases hji : j = i
    · rw [hji, if_neg (w'.not_inReach_self _ i), if_neg (w.not_inReach_self _ i)]
    · have hrel := h.other hjm hji
      have hiff : j ∈ w'.e.pool.inReach (w.e.pool.slots i).symbol i ↔ j ∈ w.e.pool.inReach (w.e.pool.slots i).symbol i := by
        rw [OrderPool.mem_inReach, OrderPool.mem_inReach, hcapacity, h.side, h.reaches, hrel.read Order.live fun _ _ => rfl,
          hrel.read Order.symbol fun _ _ => rfl, hrel.read Order.side fun _ _ => rfl, hrel.read Order.price fun _ _ => rfl]
      simp only [hiff, hrel.qty]
  have hself : (if m ∈ w'.e.pool.inReach (w.e.pool.slots i).symbol i then (w'.e.pool.slots m).qty else 0) + x =
      if m ∈ w.e.pool.inReach (w.e.pool.slots i).symbol i then (w.e.pool.slots m).qty else 0 := by
    have hamount := h.amount
    have hseen := h.maker_seen.qty
    rw [if_pos hin]
    change (pool.slots m).qty = (w.e.pool.slots m).qty - x at hseen
    by_cases hzero : (pool.slots m).qty = 0
    · have hdead : (w'.e.pool.slots m).live = false := by rw [h.pool', if_pos hzero, OrderPool.free_slots_self]
      rw [if_neg]
      · omega
      · intro hcon
        rw [(OrderPool.mem_inReach.1 hcon).2.1] at hdead
        cases hdead
    · have hpool : w'.e.pool = pool := by rw [h.pool', if_neg hzero]
      have hread : ∀ {α : Type} (f : Order → α), (∀ o prev next, f (Order.link o prev next) = f o) →
          (∀ o x, f (Order.trade o x) = f o) → f (w'.e.pool.slots m) = f (w.e.pool.slots m) := fun f hlink htrade =>
        h.read f hlink htrade fun hcon => absurd hcon hzero
      rw [if_pos, hpool]
      · omega
      · obtain ⟨hlt, hlive, hsymbol, hside, hreaches⟩ := OrderPool.mem_inReach.1 hin
        rw [OrderPool.mem_inReach, hcapacity, h.side, h.reaches, hread Order.live (fun _ _ _ => rfl) fun _ _ => rfl,
          hread Order.symbol (fun _ _ _ => rfl) fun _ _ => rfl, hread Order.side (fun _ _ _ => rfl) fun _ _ => rfl,
          hread Order.price (fun _ _ _ => rfl) fun _ _ => rfl]
        exact ⟨hlt, hlive, hsymbol, hside, hreaches⟩
  rw [OrderPool.reachQty_eq, OrderPool.reachQty_eq, hcapacity]
  exact sum_of_one hmaker.lt hother hself

/-- What the taker got, the orders in reach gave. -/
theorem Fills.reachQty (h : Fills now i w w' log) :
    w'.e.pool.reachQty (w.e.pool.slots i).symbol i + (w.e.pool.slots i).qty =
      w.e.pool.reachQty (w.e.pool.slots i).symbol i + (w'.e.pool.slots i).qty := by
  induction h with
  | refl => rfl
  | @head w w₁ w₂ m rest px x pool log hfill hfills ih =>
      have hsymbol : (w₁.e.pool.slots i).symbol = (w.e.pool.slots i).symbol :=
        hfill.taker_read Order.symbol (fun _ _ _ => rfl) fun _ _ => rfl
      have hreach := hfill.reachQty
      have hqty := hfill.qty
      have hamount := hfill.amount
      rw [hsymbol] at ih
      omega

/-- An order that stops before it is used up has nothing left in reach. -/
theorem Stopped.reachQty (h : Stopped i w) (hloose : w.loose = [i]) (hqty : (w.e.pool.slots i).qty ≠ 0) :
    w.e.pool.reachQty (w.e.pool.slots i).symbol i = 0 := by
  apply Finset.sum_eq_zero
  intro j hj
  exfalso
  obtain ⟨hlt, hlive, hsymbol, hside, hreaches⟩ := OrderPool.mem_inReach.1 hj
  have hji : j ≠ i := fun heq => w.not_inReach_self _ i (heq ▸ hj)
  have hmem : j ∈ w.q (w.e.pool.slots i).symbol (opposite (w.e.pool.slots i).side) (w.e.pool.slots j).price := by
    rw [← hsymbol, ← hside]
    exact w.mem_of_live hloose hlt hlive hji
  have hcross := h.not_crosses hqty (List.ne_nil_of_mem hmem)
  rcases h with hzero | hnone | ⟨hlimit, -⟩
  · exact hqty hzero
  · have hempty := ((w.rep.book _).best_eq_kNoPrice_iff _).1 hnone (w.e.pool.slots j).price
    rw [hempty] at hmem
    cases hmem
  · rw [hreaches hlimit] at hcross
    cases hcross

end Reach

/-! ### What is out of reach -/

section Far

variable {now i : Nat} {w w' : Ledger} {log : List Emission} {k : Nat} {s : Side} {p : Int}

/-- A queue out of reach of the order in slot `i`. -/
def Ledger.Far (w : Ledger) (i k : Nat) (s : Side) (p : Int) : Prop :=
  ¬ (k = (w.e.pool.slots i).symbol ∧ s = opposite (w.e.pool.slots i).side ∧ (w.e.pool.slots i).Reaches p)

theorem Fills.far (h : Fills now i w w' log) (hloose : w.loose = [i]) (hfar : w.Far i k s p) :
    w'.q k s p = w.q k s p ∧ ∀ j ∈ w.q k s p, Relinked (w.e.pool.slots j) (w'.e.pool.slots j) := by
  induction h with
  | refl w => exact ⟨rfl, fun j _ => (Order.link_self _).symm⟩
  | @head w w₁ w₂ m rest px x pool log hfill hfills ih =>
      have hfar' : w₁.Far i k s p := by
        rw [Ledger.Far, hfill.taker_read Order.symbol (fun _ _ _ => rfl) fun _ _ => rfl, hfill.side, hfill.reaches]
        exact hfar
      obtain ⟨hqueue, hslots⟩ := ih hfill.loose' hfar'
      have hne : ¬ (k = (w.e.pool.slots i).symbol ∧ s = opposite (w.e.pool.slots i).side ∧ p = px) := by
        rintro ⟨hk, hs, rfl⟩
        exact hfar ⟨hk, hs, hfill.crosses⟩
      have hsame := hfill.queue_of_ne hne
      refine ⟨hqueue.trans hsame, fun j hj => ?_⟩
      have hjm : j ≠ m := by
        rintro rfl
        obtain ⟨hk, hs, hp⟩ := w.rep.queue_unique hfill.mem hj
        exact hne ⟨hk, hs, hp⟩
      have hji : j ≠ i := by
        rintro rfl
        exact (w.rep.loose_mem j (by rw [hloose]; exact List.mem_singleton_self j)).2.2 k s p hj
      have hfirst := hfill.other hjm hji
      have hrest := hslots j (by rw [hsame]; exact hj)
      unfold Relinked at hfirst hrest ⊢
      rw [hrest, hfirst]
      rfl

/-- An order out of reach is left as it is, links included. -/
theorem Fills.far_slot (h : Fills now i w w' log) (hloose : w.loose = [i]) (hfar : w.Far i k s p) {j : Nat}
    (hj : j ∈ w.q k s p) : w'.e.pool.slots j = w.e.pool.slots j := by
  obtain ⟨hqueue, hslots⟩ := h.far hloose hfar
  have hrel := hslots j hj
  obtain ⟨hnext, hprev⟩ := (w.rep.book k).links_eq (w'.rep.book k).toLinks hqueue hj
  rw [Relinked, hnext, hprev] at hrel
  exact hrel

theorem Fills.far_level (h : Fills now i w w' log) (hloose : w.loose = [i]) (hfar : w.Far i k s p) :
    (w'.e.books k).levels s p = (w.e.books k).levels s p := by
  obtain ⟨hqueue, hslots⟩ := h.far hloose hfar
  exact (w.rep.book k).level_eq (w'.rep.book k).toLinks hqueue fun j hj => (hslots j hj).qty

end Far

/-! ### `Book::match` -/

/-- What a match of the order in slot `i` of `pool` against book `k` does, by these calls of `on_fill`. -/
structure MatchOutcome (now : Nat) (pool : OrderPool) (b : Book) (k i : Nat) (acc : List Emission)
    (st : MatchState (List Emission)) (calls : List FillCall) : Prop where
  /-- The loops of the code end, in this state. -/
  ends : Book.LoopRuns (Engine.onFill now i) i (opposite (pool.slots i).side) ⟨pool, b, 0, acc⟩ st
  emitted : st.acc = acc ++ calls.flatMap (FillCall.emissions now i)
  filled : st.filled = min (pool.slots i).qty (pool.reachQty k i)
  total : (calls.map FillCall.qty).sum = st.filled
  left : (st.pool.slots i).qty = (pool.slots i).qty - st.filled
  /-- Each fill is with an order in reach and at its price. -/
  makers : ∀ f ∈ calls, f.maker ∈ pool.inReach k i ∧ f.price = (pool.slots f.maker).price
  monotone : calls.Pairwise fun f g => Book.better (opposite (pool.slots i).side) g.price f.price = false
  /-- All but the last maker are used up. -/
  used : ∀ f ∈ calls.dropLast, f.qty = (pool.slots f.maker).qty ∧ (st.pool.slots f.maker).live = false
  distinct : (calls.map FillCall.maker).Nodup
  /-- Orders out of reach are untouched. -/
  orders : ∀ j < pool.capacity, (pool.slots j).live = true → j ≠ i → j ∉ pool.inReach k i →
    st.pool.slots j = pool.slots j
  levels : ∀ s p, ¬ (s = opposite (pool.slots i).side ∧ (pool.slots i).Reaches p) → st.book.levels s p = b.levels s p

theorem Ledger.matchTaker {e : Engine} {now k i : Nat} {pool : OrderPool} {b : Book} (w : Ledger)
    (hw : w.e = e.store now k pool b) (hloose : w.loose = [i]) (hsymbol : (pool.slots i).symbol = k) (acc : List Emission) :
    ∃ calls, MatchOutcome now pool b k i acc (b.matchTaker (Engine.onFill now i) pool i acc) calls := by
  obtain ⟨w', log, ⟨hfills, hmatching, hacc, hfilled⟩, hstopped, hruns⟩ :=
    Matching.matchLoop (e := e) (k := k) (pool.slots i).qty w ⟨pool, b, 0, acc⟩ ⟨hw, hloose, hsymbol, rfl⟩ le_rfl
  change Matching e now k i _ w' (b.matchTaker (Engine.onFill now i) pool i acc) at hmatching
  change (b.matchTaker (Engine.onFill now i) pool i acc).acc = _ at hacc
  change (b.matchTaker (Engine.onFill now i) pool i acc).filled + _ = 0 + _ at hfilled
  change Book.LoopRuns _ _ _ _ (b.matchTaker (Engine.onFill now i) pool i acc) at hruns
  change ((b.matchTaker (Engine.onFill now i) pool i acc).filled +
    ((b.matchTaker (Engine.onFill now i) pool i acc).pool.slots i).qty = 0 + (pool.slots i).qty) at hfilled
  generalize b.matchTaker (Engine.onFill now i) pool i acc = st at hmatching hacc hfilled hruns
  obtain ⟨calls, hlog, hcalled⟩ := hfills.called
  have hpool : w.e.pool = pool := by rw [hw]; rfl
  have hbook : w.e.books k = b := by rw [hw, Engine.store_books_self]
  have hpool' := hmatching.pool
  have hreach := hfills.reachQty
  have htotal := hcalled.total
  have hzero := hstopped.reachQty (hfills.loose hloose)
  rw [hfills.symbol, hpool, hpool', hsymbol] at hzero
  rw [hpool, hpool', hsymbol] at hreach
  rw [hpool, hpool'] at htotal
  refine ⟨calls, ⟨hruns, by rw [hacc, hlog], ?_, ?_, ?_, ?_, ?_, ?_, hcalled.distinct, ?_, ?_⟩⟩
  · by_cases hleft : (st.pool.slots i).qty = 0
    · omega
    · have hnone := hzero hleft
      omega
  · omega
  · omega
  · intro f hf
    obtain ⟨hmem, hreaches⟩ := hcalled.makers f hf
    have hqueued := w.rep.queued _ _ _ _ hmem
    rw [hpool] at hqueued hreaches
    refine ⟨OrderPool.mem_inReach.2 ⟨hqueued.lt, hqueued.live, hqueued.symbol.trans hsymbol, hqueued.side, ?_⟩, hqueued.price.symm⟩
    rw [hqueued.price]
    exact hreaches
  · have hmonotone := hcalled.monotone
    rw [hpool] at hmonotone
    exact hmonotone
  · have hused := hcalled.used
    rw [hpool, hpool'] at hused
    exact hused
  · intro j hlt hlive hji hout
    rw [← hpool] at hlt hlive
    have hmem := w.mem_of_live hloose hlt hlive hji
    have hfar : w.Far i (w.e.pool.slots j).symbol (w.e.pool.slots j).side (w.e.pool.slots j).price := by
      rintro ⟨hk, hs, hreaches⟩
      rw [hpool] at hlt hlive hk hs hreaches
      exact hout (OrderPool.mem_inReach.2 ⟨hlt, hlive, hk.trans hsymbol, hs, hreaches⟩)
    have hslot := hfills.far_slot hloose hfar hmem
    rw [hpool', hpool] at hslot
    exact hslot
  · intro s p hout
    have hfar : w.Far i k s p := by
      rintro ⟨-, hs, hreaches⟩
      rw [hpool] at hs hreaches
      exact hout ⟨hs, hreaches⟩
    have hlevel := hfills.far_level hloose hfar
    rw [hmatching.book, hbook] at hlevel
    exact hlevel

/-- The orders that the engine matches in a state: an order of any kind in the slot that `alloc` gives it, and a live order that was taken out of its queue and got any price and quantity. -/
inductive Engine.Taker (e : Engine) : Nat → OrderPool → Book → Nat → Prop
  | new (c : Command) {pool : OrderPool} {i : Nat} (hsymbol : c.symbol < e.cfg.symbols)
      (halloc : e.pool.alloc = some (pool, i)) : Taker e c.symbol (c.enter pool i) (e.books c.symbol) i
  | replaced {i : Nat} (hlt : i < e.pool.capacity) (hlive : (e.pool.slots i).live = true) (price : Int) (qty : Nat) :
      Taker e (e.pool.slots i).symbol
        ((Book.remove e.pool (e.books (e.pool.slots i).symbol) i).1.modify i fun o => { o with price := price, qty := qty })
        (Book.remove e.pool (e.books (e.pool.slots i).symbol) i).2 i

/-- In every state that a run of a fresh engine reaches, a match ends and fills what is in reach, for every order that can be matched there. -/
theorem Engine.run_matches (cfg : Engine.Config) (cmds : List (Nat × Command)) (now k i : Nat) (pool : OrderPool) (b : Book)
    (htaker : ((Engine.init cfg).run cmds).Taker k pool b i) (acc : List Emission) :
    ∃ calls, MatchOutcome now pool b k i acc (b.matchTaker (Engine.onFill now i) pool i acc) calls := by
  obtain ⟨w, hw, hloose⟩ := Engine.run_ledger cfg cmds
  rw [← hw] at htaker
  cases htaker with
  | @new c pool i hsymbol halloc =>
      obtain ⟨w', hadmitted, hw'⟩ := w.admitted (w.at_self c.symbol) now hloose c halloc
      exact w'.matchTaker hw' hadmitted.loose' (by simp [Command.enter, OrderPool.modify_slots]) acc
  | @replaced i hlt hlive price qty =>
      have hmem := (w.mem_iff hloose i _ _ _).2 ⟨hlt, hlive, rfl, rfl, rfl⟩
      obtain ⟨w₁, htaken, hw₁⟩ := w.taken (w.at_self (w.e.pool.slots i).symbol) now hloose hmem
      obtain ⟨w₂, hrepriced, hw₂⟩ := w₁.repriced (Ledger.at_of_eq hw₁) now htaken.loose' price qty
      refine w₂.matchTaker hw₂ hrepriced.loose' ?_ acc
      have hsymbol := (htaken.slots i).read Order.symbol fun _ _ => rfl
      have hpool₁ : w₁.e.pool = (Book.remove w.e.pool (w.e.books (w.e.pool.slots i).symbol) i).1 := by rw [hw₁]; rfl
      rw [OrderPool.modify_slots, if_pos rfl, ← hpool₁]
      exact hsymbol

/-- An order of six against a resting one of four. -/
theorem Engine.run_matches_partly :
    let e := (Engine.init { maxPrice := 5, maxOrders := 2 }).run [(0, { side := .sell, price := 3, qty := 4 })]
    let pool := (e.pool.alloc.getD (e.pool, 0)).1
    let taken := Command.enter { price := 5, qty := 6 } pool 1
    e.Taker 0 taken (e.books 0) 1 ∧ taken.reachQty 0 1 = 4 ∧
      ∃ calls, MatchOutcome 7 taken (e.books 0) 0 1 [] ((e.books 0).matchTaker (Engine.onFill 7 1) taken 1 []) calls := by
  intro e pool taken
  have htaker : e.Taker 0 taken (e.books 0) 1 := Engine.Taker.new { price := 5, qty := 6 } (by decide) rfl
  exact ⟨htaker, by decide +kernel, Engine.run_matches _ _ 7 0 1 taken (e.books 0) htaker []⟩

end Matchbox
