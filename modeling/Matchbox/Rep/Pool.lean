import Matchbox.Rep.Level

/-!
# What the engine represents

Every slot of the pool is in one of three places: on the free list, in the queue of its symbol, side and price, or loose. A loose slot is live and in no queue; it is how a command holds the order it is working on, between `alloc` or `remove` and `insert` or `free`. `Rep e q free loose` says that the engine `e` stands for the queues `q`, the free list `free` and the loose slots `loose`, and each operation of the pool and the books moves one slot from one place to another.
-/

namespace Matchbox

open LinkedList

theorem OrderPool.modify_slots (pool : OrderPool) (i j : Nat) (f : Order → Order) :
    (pool.modify i f).slots j = if j = i then f (pool.slots j) else pool.slots j := by
  by_cases hj : j = i
  · subst hj
    simp [modify]
  · simp [modify, hj]

theorem OrderPool.free_slots_self (pool : OrderPool) (i : Nat) : (pool.free i).slots i =
    { pool.slots i with live := false, gen := nextGen (pool.slots i).gen, next := pool.freeHead } := by
  simp [free, modify]

theorem OrderPool.free_slots_of_ne (pool : OrderPool) {i j : Nat} (hj : j ≠ i) :
    (pool.free i).slots j = pool.slots j := by
  simp [free, modify, hj]

theorem OrderPool.of_alloc {pool pool' : OrderPool} {i : Nat} (halloc : pool.alloc = some (pool', i)) :
    pool.freeHead = i ∧ i ≠ kNull ∧ pool' =
      { pool with
        slots := Function.update pool.slots i { gen := (pool.slots i).gen, id := idOf (pool.slots i).gen i, live := true }
        freeHead := (pool.slots i).next
        live := pool.live + 1 } := by
  by_cases hnull : pool.freeHead = kNull
  · simp [alloc, hnull] at halloc
  · simp only [alloc, if_neg hnull, Option.some.injEq, Prod.mk.injEq] at halloc
    obtain ⟨hpool, hi⟩ := halloc
    subst hi
    exact ⟨rfl, hnull, hpool.symm⟩

/-- Slot `i` holds a live limit order that belongs into the queue `(k, s, p)`. -/
structure Queued (pool : OrderPool) (cfg : Engine.Config) (k : Nat) (s : Side) (p : Int) (i : Nat) : Prop where
  lt : i < pool.capacity
  live : (pool.slots i).live = true
  symbol : (pool.slots i).symbol = k
  symbol_lt : k < cfg.symbols
  side : (pool.slots i).side = s
  price : (pool.slots i).price = p
  type : (pool.slots i).type = .limit
  tif : (pool.slots i).tif = .gtc

theorem Queued.of_eq {pool pool' : OrderPool} {cfg : Engine.Config} {k : Nat} {s : Side} {p : Int} {i : Nat}
    (h : Queued pool cfg k s p i) (hcapacity : pool'.capacity = pool.capacity)
    (hlive : (pool'.slots i).live = (pool.slots i).live) (hsymbol : (pool'.slots i).symbol = (pool.slots i).symbol)
    (hside : (pool'.slots i).side = (pool.slots i).side) (hprice : (pool'.slots i).price = (pool.slots i).price)
    (htype : (pool'.slots i).type = (pool.slots i).type) (htif : (pool'.slots i).tif = (pool.slots i).tif) :
    Queued pool' cfg k s p i :=
  ⟨hcapacity ▸ h.lt, hlive.trans h.live, hsymbol.trans h.symbol, h.symbol_lt, hside.trans h.side,
    hprice.trans h.price, htype.trans h.type, htif.trans h.tif⟩

theorem Queued.relinked {pool pool' : OrderPool} {cfg : Engine.Config} {k : Nat} {s : Side} {p : Int} {i : Nat}
    (h : Queued pool cfg k s p i) (hcapacity : pool'.capacity = pool.capacity)
    (hrel : Relinked (pool.slots i) (pool'.slots i)) : Queued pool' cfg k s p i :=
  h.of_eq hcapacity (hrel.read _ fun _ _ => rfl) (hrel.read _ fun _ _ => rfl) (hrel.read _ fun _ _ => rfl)
    (hrel.read _ fun _ _ => rfl) (hrel.read _ fun _ _ => rfl) (hrel.read _ fun _ _ => rfl)

structure Rep (e : Engine) (q : Nat → Queues) (free loose : List Nat) : Prop where
  capacity : e.pool.capacity = e.cfg.maxOrders
  maxPrice : ∀ k, (e.books k).maxPrice = e.cfg.maxPrice
  book : ∀ k, Represents e.pool.slots (e.books k) (q k)
  queued : ∀ k s p, ∀ i ∈ q k s p, Queued e.pool e.cfg k s p i
  free_path : Path (fun i => (e.pool.slots i).next) e.pool.freeHead free kNull
  free_nodup : free.Nodup
  free_mem : ∀ i ∈ free, i < e.pool.capacity ∧ (e.pool.slots i).live = false
  loose_nodup : loose.Nodup
  loose_mem : ∀ i ∈ loose, i < e.pool.capacity ∧ (e.pool.slots i).live = true ∧ ∀ k s p, i ∉ q k s p
  cover : ∀ i < e.pool.capacity, i ∈ free ∨ i ∈ loose ∨
    i ∈ q (e.pool.slots i).symbol (e.pool.slots i).side (e.pool.slots i).price
  live_free : e.pool.live + free.length = e.pool.capacity
  live_resting : e.pool.live = (∑ k ∈ Finset.range e.cfg.symbols, (e.books k).resting) + loose.length
  id : ∀ i < e.pool.capacity, (e.pool.slots i).live = true → (e.pool.slots i).id = OrderPool.idOf (e.pool.slots i).gen i
  gen : ∀ i < e.pool.capacity, (e.pool.slots i).gen = e.pool.frees i % (word32 - 1) + 1

/-- A book reads only the slots in its queues. -/
theorem Represents.congr {slots slots' : Nat → Order} {b : Book} {q : Queues} (h : Represents slots b q)
    (hsame : ∀ s p, ∀ i ∈ q s p, slots' i = slots i) : Represents slots' b q where
  toLinks := h.toLinks.congr fun s p i hi => by rw [hsame s p i hi]; exact ⟨rfl, rfl, rfl⟩
  toIndexes := h.toIndexes
  resting := h.resting

theorem sum_resting_update (books : Nat → Book) {n k : Nat} (hk : k < n) (b : Book) :
    (∑ j ∈ Finset.range n, (Function.update books k b j).resting) + (books k).resting
      = (∑ j ∈ Finset.range n, (books j).resting) + b.resting := by
  have hmem : k ∈ Finset.range n := Finset.mem_range.mpr hk
  rw [← Finset.add_sum_erase _ _ hmem, ← Finset.add_sum_erase _ (fun j => (books j).resting) hmem,
    Function.update_self]
  have hrest : ∑ j ∈ (Finset.range n).erase k, (Function.update books k b j).resting
      = ∑ j ∈ (Finset.range n).erase k, (books j).resting := by
    refine Finset.sum_congr rfl fun j hj => ?_
    rw [Function.update_of_ne (Finset.ne_of_mem_erase hj)]
  rw [hrest]
  omega

namespace Rep

variable {e : Engine} {q : Nat → Queues} {free loose : List Nat} {i k : Nat} {s : Side} {p : Int}

theorem ne_kNull (h : Rep e q free loose) (hi : i < e.pool.capacity) : i ≠ kNull := by
  have hlt := e.cfg.maxOrders_lt
  rw [h.capacity] at hi
  simp only [kNull, word32] at *
  omega

theorem not_mem_queue_of_free (h : Rep e q free loose) (hi : i ∈ free) (k : Nat) (s : Side) (p : Int) :
    i ∉ q k s p := by
  intro hq
  have hlive := (h.queued k s p i hq).live
  rw [(h.free_mem i hi).2] at hlive
  exact absurd hlive (by decide)

theorem not_mem_loose_of_free (h : Rep e q free loose) (hi : i ∈ free) : i ∉ loose := by
  intro hl
  have hlive := (h.loose_mem i hl).2.1
  rw [(h.free_mem i hi).2] at hlive
  exact absurd hlive (by decide)

theorem queue_unique (h : Rep e q free loose) {k' : Nat} {s' : Side} {p' : Int} (hi : i ∈ q k s p)
    (hi' : i ∈ q k' s' p') : k' = k ∧ s' = s ∧ p' = p := by
  have hk := h.queued k s p i hi
  have hk' := h.queued k' s' p' i hi'
  exact ⟨hk'.symbol.symm.trans hk.symbol, hk'.side.symm.trans hk.side, hk'.price.symm.trans hk.price⟩

theorem update (h : Rep e q free loose) {now : Nat} (hk : k < e.cfg.symbols) {pool' : OrderPool} {book' : Book}
    {qk' : Queues} {loose' : List Nat} (hcapacity : pool'.capacity = e.pool.capacity)
    (hfreeHead : pool'.freeHead = e.pool.freeHead) (hlive : pool'.live = e.pool.live)
    (hfrees : pool'.frees = e.pool.frees) (hfree : ∀ j ∈ free, pool'.slots j = e.pool.slots j)
    (hother : ∀ k', k' ≠ k → ∀ s p, ∀ j ∈ q k' s p, pool'.slots j = e.pool.slots j)
    (hkeep : ∀ j, (pool'.slots j).live = (e.pool.slots j).live ∧ (pool'.slots j).id = (e.pool.slots j).id ∧
      (pool'.slots j).gen = (e.pool.slots j).gen)
    (hmaxPrice : book'.maxPrice = (e.books k).maxPrice) (hbook : Represents pool'.slots book' qk')
    (hqueued : ∀ s p, ∀ i ∈ qk' s p, Queued pool' e.cfg k s p i) (hnodup : loose'.Nodup)
    (hloose : ∀ i ∈ loose', i < e.pool.capacity ∧ (e.pool.slots i).live = true ∧ (∀ s p, i ∉ qk' s p) ∧
      ∀ k', k' ≠ k → ∀ s p, i ∉ q k' s p)
    (hcover : ∀ i < e.pool.capacity, i ∈ free ∨ i ∈ loose' ∨
      i ∈ Function.update q k qk' (pool'.slots i).symbol (pool'.slots i).side (pool'.slots i).price)
    (hresting : book'.resting + loose'.length = (e.books k).resting + loose.length) :
    Rep (e.store now k pool' book') (Function.update q k qk') free loose' := by
  have hcases : ∀ (P : Nat → Queues → Book → Prop), P k qk' book' → (∀ k', k' ≠ k → P k' (q k') (e.books k')) →
      ∀ k', P k' (Function.update q k qk' k') (Function.update e.books k book' k') := by
    intro P hsame hdiff k'
    by_cases heq : k' = k
    · subst heq
      simpa using hsame
    · simpa [Function.update_of_ne heq] using hdiff k' heq
  constructor
  case capacity => exact hcapacity.trans h.capacity
  case maxPrice =>
    exact hcases (fun _ _ b => b.maxPrice = e.cfg.maxPrice) (hmaxPrice.trans (h.maxPrice k)) fun k' _ => h.maxPrice k'
  case book =>
    exact hcases (fun _ qk b => Represents pool'.slots b qk) hbook
      fun k' heq => (h.book k').congr (hother k' heq)
  case queued =>
    refine hcases (fun k' qk _ => ∀ s p, ∀ i ∈ qk s p, Queued pool' e.cfg k' s p i) hqueued
      fun k' heq s p i hi => ?_
    have hi' := h.queued k' s p i hi
    have hslot := hother k' heq s p i hi
    exact hi'.of_eq hcapacity (by rw [hslot]) (by rw [hslot]) (by rw [hslot]) (by rw [hslot]) (by rw [hslot])
      (by rw [hslot])
  case free_path =>
    change Path _ pool'.freeHead _ _
    rw [hfreeHead]
    exact h.free_path.congr fun j hj => congrArg Order.next (hfree j hj)
  case free_nodup => exact h.free_nodup
  case free_mem =>
    intro i hi
    refine ⟨hcapacity ▸ (h.free_mem i hi).1, ?_⟩
    rw [← (h.free_mem i hi).2]
    exact (hkeep i).1
  case loose_nodup => exact hnodup
  case loose_mem =>
    intro i hi
    obtain ⟨hlt, hl, hin, hout⟩ := hloose i hi
    exact ⟨hcapacity ▸ hlt, (hkeep i).1.trans hl,
      fun k' s p => hcases (fun _ qk _ => i ∉ qk s p) (hin s p) (fun k' heq => hout k' heq s p) k'⟩
  case cover =>
    intro i hi
    exact hcover i (hcapacity ▸ hi)
  case live_free =>
    change pool'.live + _ = pool'.capacity
    rw [hlive, hcapacity, h.live_free]
  case live_resting =>
    have hsum := sum_resting_update e.books hk book'
    have hlive' := h.live_resting
    change pool'.live = (∑ j ∈ Finset.range e.cfg.symbols, (Function.update e.books k book' j).resting) + _
    omega
  case id =>
    intro i hi hl
    have hi' : i < e.pool.capacity := hcapacity ▸ hi
    change (pool'.slots i).id = OrderPool.idOf (pool'.slots i).gen i
    rw [(hkeep i).2.1, (hkeep i).2.2]
    exact h.id i hi' ((hkeep i).1 ▸ hl)
  case gen =>
    intro i hi
    change (pool'.slots i).gen = pool'.frees i % (word32 - 1) + 1
    rw [(hkeep i).2.2, hfrees]
    exact h.gen i (hcapacity ▸ hi)

theorem unlink (h : Rep e q free loose) (now : Nat) {xs ys : List Nat}
    (hq : q k s p = xs ++ i :: ys) :
    Rep (e.store now k (Book.unlink e.pool (e.books k) s p i).1 (Book.unlink e.pool (e.books k) s p i).2)
      (Function.update q k ((q k).set s p (xs ++ ys))) free (i :: loose) := by
  have hi : i ∈ q k s p := by simp [hq]
  have hqi := h.queued k s p i hi
  have hrep := h.book k
  have hrel := hrep.unlink_relinked hq
  have hpool : (Book.unlink e.pool (e.books k) s p i).1
      = { e.pool with slots := (Book.unlink e.pool (e.books k) s p i).1.slots } := Book.unlink_pool
  have hnodup := hrep.nodup s p
  rw [hq] at hnodup
  have hsub : ∀ s' p' j, j ∈ (q k).set s p (xs ++ ys) s' p' → j ∈ q k s' p' ∧ j ≠ i := by
    intro s' p' j hj
    by_cases heq : s' = s ∧ p' = p
    · rw [heq.1, heq.2, Queues.set_same] at hj
      rw [heq.1, heq.2, hq]
      rcases List.mem_append.mp hj with hj | hj
      · exact ⟨by simp [hj], (List.nodup_append.mp hnodup).2.2 j hj i (by simp)⟩
      · exact ⟨by simp [hj], fun heq' => (List.nodup_cons.mp (List.nodup_append.mp hnodup).2.1).1 (heq' ▸ hj)⟩
    · rw [Queues.set_of_ne _ heq] at hj
      exact ⟨hj, fun heq' => heq (hrep.disjoint s p s' p' i hi (heq' ▸ hj))⟩
  have hout : ∀ j, j ∉ q k s p → (Book.unlink e.pool (e.books k) s p i).1.slots j = e.pool.slots j :=
    fun j hj => hrep.unlink_out hq hj
  refine h.update hqi.symbol_lt (by rw [hpool]) (by rw [hpool]) (by rw [hpool]) (by rw [hpool])
    (fun j hj => hout j (h.not_mem_queue_of_free hj k s p))
    (fun k' hk' s' p' j hj => hout j fun hj' => hk' (h.queue_unique hj' hj).1)
    (fun j => ⟨(hrel j).read Order.live fun _ _ => rfl, (hrel j).read Order.id fun _ _ => rfl,
      (hrel j).read Order.gen fun _ _ => rfl⟩)
    Book.unlink_maxPrice (hrep.unlink hq hqi.side hqi.price) (fun s' p' j hj => ?_) ?_ (fun j hj => ?_)
    (fun j hj => ?_) ?_
  · have hqj := h.queued k s' p' j (hsub s' p' j hj).1
    exact hqj.relinked (by rw [hpool]) (hrel j)
  · exact List.nodup_cons.mpr ⟨fun hl => (h.loose_mem i hl).2.2 k s p hi, h.loose_nodup⟩
  · rcases List.mem_cons.mp hj with rfl | hj
    · exact ⟨hqi.lt, hqi.live, fun s' p' hj' => (hsub s' p' j hj').2 rfl,
        fun k' hk' s' p' hj' => hk' (h.queue_unique hi hj').1⟩
    · obtain ⟨hlt, hlive, hnot⟩ := h.loose_mem j hj
      exact ⟨hlt, hlive, fun s' p' hj' => hnot k s' p' (hsub s' p' j hj').1, fun k' _ => hnot k'⟩
  · rw [(hrel j).read Order.symbol fun _ _ => rfl, (hrel j).read Order.side fun _ _ => rfl,
      (hrel j).read Order.price fun _ _ => rfl]
    rcases h.cover j hj with hj | hj | hj
    · exact Or.inl hj
    · exact Or.inr (Or.inl (by simp [hj]))
    · by_cases hji : j = i
      · exact Or.inr (Or.inl (by simp [hji]))
      · refine Or.inr (Or.inr ?_)
        by_cases hk : (e.pool.slots j).symbol = k
        · rw [hk, Function.update_self]
          rw [hk] at hj
          by_cases heq : (e.pool.slots j).side = s ∧ (e.pool.slots j).price = p
          · rw [heq.1, heq.2, Queues.set_same]
            rw [heq.1, heq.2, hq] at hj
            simpa [hji] using hj
          · rwa [Queues.set_of_ne _ heq]
        · rwa [Function.update_of_ne hk]
  · have hpos : 0 < (e.books k).resting := by
      rw [hrep.resting]
      obtain ⟨hone, hmax⟩ := hrep.price s p (by simp [hq])
      have hsize := (q k).size_set s [] hone hmax
      rw [hq] at hsize
      simp only [List.length_append, List.length_cons, List.length_nil] at hsize
      omega
    rw [Book.unlink_resting]
    simp only [List.length_cons]
    omega

theorem insert (h : Rep e q free (i :: loose)) (now : Nat) (hk : k < e.cfg.symbols)
    (hsymbol : (e.pool.slots i).symbol = k) (hside : (e.pool.slots i).side = s)
    (hprice : (e.pool.slots i).price = p) (htype : (e.pool.slots i).type = .limit)
    (htif : (e.pool.slots i).tif = .gtc) (hpos : 1 ≤ p) (hmax : p ≤ e.cfg.maxPrice) :
    Rep (e.store now k (Book.insert e.pool (e.books k) i).1 (Book.insert e.pool (e.books k) i).2)
      (Function.update q k ((q k).set s p (q k s p ++ [i]))) free loose := by
  obtain ⟨hlt, hlive, hfresh⟩ := h.loose_mem i (by simp)
  have hnull := h.ne_kNull hlt
  have hrep := h.book k
  have hrel := hrep.insert_relinked (hfresh k) hnull
  have hpool : (Book.insert e.pool (e.books k) i).1
      = { e.pool with slots := (Book.insert e.pool (e.books k) i).1.slots } := Book.insert_pool
  have hout : ∀ j, j ∉ q k s p → j ≠ i → (Book.insert e.pool (e.books k) i).1.slots j = e.pool.slots j :=
    fun j hj hji => hrep.insert_out (hfresh k) hnull hside hprice hj hji
  have hset : ∀ s' p' j, j ∈ (q k).set s p (q k s p ++ [i]) s' p' → j ∈ q k s' p' ∨ j = i ∧ s' = s ∧ p' = p := by
    intro s' p' j hj
    by_cases heq : s' = s ∧ p' = p
    · rw [heq.1, heq.2, Queues.set_same] at hj
      rcases List.mem_append.mp hj with hj | hj
      · exact Or.inl (by rwa [heq.1, heq.2])
      · exact Or.inr ⟨List.mem_singleton.mp hj, heq⟩
    · rw [Queues.set_of_ne _ heq] at hj
      exact Or.inl hj
  have hmem : ∀ s' p' j, j ∈ q k s' p' → j ∈ (q k).set s p (q k s p ++ [i]) s' p' := by
    intro s' p' j hj
    by_cases heq : s' = s ∧ p' = p
    · rw [heq.1, heq.2] at hj ⊢
      simp [hj]
    · rwa [Queues.set_of_ne _ heq]
  have hqi : Queued e.pool e.cfg k s p i := ⟨hlt, hlive, hsymbol, hk, hside, hprice, htype, htif⟩
  refine h.update hk (by rw [hpool]) (by rw [hpool]) (by rw [hpool]) (by rw [hpool])
    (fun j hj => hout j (h.not_mem_queue_of_free hj k s p)
      fun hji => h.not_mem_loose_of_free hj (by simp [hji]))
    (fun k' hk' s' p' j hj => hout j (fun hj' => hk' (h.queue_unique hj' hj).1)
      fun hji => hfresh k' s' p' (hji ▸ hj))
    (fun j => ⟨(hrel j).read Order.live fun _ _ => rfl, (hrel j).read Order.id fun _ _ => rfl,
      (hrel j).read Order.gen fun _ _ => rfl⟩)
    Book.insert_maxPrice (hrep.insert (hfresh k) hnull hside hprice hpos (by rw [h.maxPrice]; exact hmax))
    (fun s' p' j hj => ?_) (List.nodup_cons.mp h.loose_nodup).2 (fun j hj => ?_) (fun j hj => ?_) ?_
  · have hqj : Queued e.pool e.cfg k s' p' j := by
      rcases hset s' p' j hj with hj | ⟨rfl, rfl, rfl⟩
      · exact h.queued k s' p' j hj
      · exact hqi
    exact hqj.relinked (by rw [hpool]) (hrel j)
  · obtain ⟨hjlt, hjlive, hnot⟩ := h.loose_mem j (by simp [hj])
    refine ⟨hjlt, hjlive, fun s' p' hj' => ?_, fun k' _ => hnot k'⟩
    rcases hset s' p' j hj' with hj' | ⟨rfl, _⟩
    · exact hnot k s' p' hj'
    · exact (List.nodup_cons.mp h.loose_nodup).1 hj
  · rw [(hrel j).read Order.symbol fun _ _ => rfl, (hrel j).read Order.side fun _ _ => rfl,
      (hrel j).read Order.price fun _ _ => rfl]
    rcases h.cover j hj with hj | hj | hj
    · exact Or.inl hj
    · rcases List.mem_cons.mp hj with rfl | hj
      · refine Or.inr (Or.inr ?_)
        rw [hsymbol, hside, hprice, Function.update_self, Queues.set_same]
        simp
      · exact Or.inr (Or.inl hj)
    · refine Or.inr (Or.inr ?_)
      by_cases hk' : (e.pool.slots j).symbol = k
      · rw [hk', Function.update_self]
        exact hmem _ _ j (hk' ▸ hj)
      · rwa [Function.update_of_ne hk']
  · rw [Book.insert_resting]
    simp only [List.length_cons]
    omega

theorem setQty (h : Rep e q free loose) (now : Nat) (hi : i ∈ q k s p) {f : Order → Order} {d : Nat}
    (hf : ∀ o, ∃ qty filled, f o = { o with qty := qty, filled := filled })
    (hqty : (f (e.pool.slots i)).qty + d = (e.pool.slots i).qty) :
    Rep (e.store now k (e.pool.modify i f) ((e.books k).setLevel s p
      { (e.books k).levels s p with qty := Book.sub32 ((e.books k).levels s p).qty d })) q free loose := by
  obtain ⟨xs, ys, hq⟩ := List.append_of_mem hi
  have hqi := h.queued k s p i hi
  have hself : (e.pool.modify i f).slots i = f (e.pool.slots i) := by rw [OrderPool.modify_slots, if_pos rfl]
  have hother : ∀ j, j ≠ i → (e.pool.modify i f).slots j = e.pool.slots j := by
    intro j hj
    rw [OrderPool.modify_slots, if_neg hj]
  have hread : ∀ {α : Type} (g : Order → α), (∀ o qty filled, g { o with qty := qty, filled := filled } = g o) →
      ∀ j, g ((e.pool.modify i f).slots j) = g (e.pool.slots j) := by
    intro α g hg j
    by_cases hj : j = i
    · obtain ⟨qty, filled, hfo⟩ := hf (e.pool.slots i)
      rw [hj, hself, hfo, hg]
    · rw [hother j hj]
  suffices hsame : Rep (e.store now k (e.pool.modify i f) ((e.books k).setLevel s p
      { (e.books k).levels s p with qty := Book.sub32 ((e.books k).levels s p).qty d }))
      (Function.update q k (q k)) free loose by rwa [Function.update_eq_self] at hsame
  refine h.update hqi.symbol_lt rfl rfl rfl rfl
    (fun j hj => hother j fun hji => h.not_mem_queue_of_free hj k s p (hji ▸ hi))
    (fun k' hk' s' p' j hj => hother j fun hji => hk' (h.queue_unique hi (hji ▸ hj)).1)
    (fun j => ⟨hread Order.live (fun _ _ _ => rfl) j, hread Order.id (fun _ _ _ => rfl) j,
      hread Order.gen (fun _ _ _ => rfl) j⟩)
    rfl ((h.book k).setQty hq (hread Order.next (fun _ _ _ => rfl) i) (hread Order.prev (fun _ _ _ => rfl) i)
      (by rw [hself]; exact hqty) hother)
    (fun s' p' j hj => (h.queued k s' p' j hj).of_eq rfl (hread _ (fun _ _ _ => rfl) j)
      (hread _ (fun _ _ _ => rfl) j) (hread _ (fun _ _ _ => rfl) j) (hread _ (fun _ _ _ => rfl) j)
      (hread _ (fun _ _ _ => rfl) j) (hread _ (fun _ _ _ => rfl) j))
    h.loose_nodup
    (fun j hj => ⟨(h.loose_mem j hj).1, (h.loose_mem j hj).2.1, (h.loose_mem j hj).2.2 k,
      fun k' _ => (h.loose_mem j hj).2.2 k'⟩)
    (fun j hj => ?_) rfl
  rw [Function.update_eq_self, hread Order.symbol (fun _ _ _ => rfl), hread Order.side (fun _ _ _ => rfl),
    hread Order.price (fun _ _ _ => rfl)]
  exact h.cover j hj

/-- One slot outside the queues rewritten, and perhaps moved between the free list and the loose slots. -/
theorem repool (h : Rep e q free loose) (hlt : i < e.pool.capacity) (hfresh : ∀ k s p, i ∉ q k s p)
    {pool' : OrderPool} {free' loose' : List Nat} (hcapacity : pool'.capacity = e.pool.capacity)
    (hother : ∀ j, j ≠ i → pool'.slots j = e.pool.slots j ∧ pool'.frees j = e.pool.frees j)
    (hplace : i ∈ free' ∧ (pool'.slots i).live = false ∨ i ∈ loose' ∧ (pool'.slots i).live = true)
    (hstay : ∀ j, j ≠ i → (j ∈ free' ↔ j ∈ free) ∧ (j ∈ loose' ↔ j ∈ loose))
    (hdisjoint : i ∈ free' → i ∉ loose') (hfree : free'.Nodup) (hloose : loose'.Nodup)
    (hpath : Path (fun j => (pool'.slots j).next) pool'.freeHead free' kNull)
    (hlive : pool'.live + free'.length = e.pool.capacity)
    (hcount : free'.length + loose'.length = free.length + loose.length)
    (hid : (pool'.slots i).live = true → (pool'.slots i).id = OrderPool.idOf (pool'.slots i).gen i)
    (hgen : (pool'.slots i).gen = pool'.frees i % (word32 - 1) + 1) :
    Rep { e with pool := pool' } q free' loose' := by
  have hqueue : ∀ k s p, ∀ j ∈ q k s p, pool'.slots j = e.pool.slots j :=
    fun k s p j hj => (hother j fun hji => hfresh k s p (hji ▸ hj)).1
  constructor
  case capacity => exact hcapacity.trans h.capacity
  case maxPrice => exact h.maxPrice
  case book => exact fun k => (h.book k).congr (hqueue k)
  case queued =>
    intro k s p j hj
    have hslot := hqueue k s p j hj
    exact (h.queued k s p j hj).of_eq hcapacity (by rw [hslot]) (by rw [hslot]) (by rw [hslot]) (by rw [hslot])
      (by rw [hslot]) (by rw [hslot])
  case free_path => exact hpath
  case free_nodup => exact hfree
  case free_mem =>
    intro j hj
    by_cases hji : j = i
    · subst hji
      exact ⟨hcapacity ▸ hlt, (hplace.resolve_right fun hl => hdisjoint hj hl.1).2⟩
    · rw [(hother j hji).1, hcapacity]
      exact h.free_mem j ((hstay j hji).1.mp hj)
  case loose_nodup => exact hloose
  case loose_mem =>
    intro j hj
    by_cases hji : j = i
    · subst hji
      exact ⟨hcapacity ▸ hlt, (hplace.resolve_left fun hf => hdisjoint hf.1 hj).2, hfresh⟩
    · rw [(hother j hji).1, hcapacity]
      exact h.loose_mem j ((hstay j hji).2.mp hj)
  case cover =>
    intro j hj
    by_cases hji : j = i
    · subst hji
      exact hplace.imp And.left fun hl => Or.inl hl.1
    · change _ ∨ _ ∨ j ∈ q (pool'.slots j).symbol _ _
      rw [(hother j hji).1, (hstay j hji).1, (hstay j hji).2]
      exact h.cover j (hcapacity ▸ hj)
  case live_free => exact hlive.trans hcapacity.symm
  case live_resting =>
    have hfreed := h.live_free
    have hresting := h.live_resting
    change pool'.live = (∑ k ∈ Finset.range e.cfg.symbols, (e.books k).resting) + _
    omega
  case id =>
    intro j hj hl
    by_cases hji : j = i
    · subst hji
      exact hid hl
    · rw [(hother j hji).1] at hl ⊢
      exact h.id j (hcapacity ▸ hj) hl
  case gen =>
    intro j hj
    by_cases hji : j = i
    · subst hji
      exact hgen
    · rw [(hother j hji).1, (hother j hji).2]
      exact h.gen j (hcapacity ▸ hj)

theorem modify_loose (h : Rep e q free loose) (hi : i ∈ loose) {f : Order → Order}
    (hlive : (f (e.pool.slots i)).live = (e.pool.slots i).live) (hid : (f (e.pool.slots i)).id = (e.pool.slots i).id)
    (hgen : (f (e.pool.slots i)).gen = (e.pool.slots i).gen) :
    Rep { e with pool := e.pool.modify i f } q free loose := by
  obtain ⟨hlt, hl, hfresh⟩ := h.loose_mem i hi
  have hself : (e.pool.modify i f).slots i = f (e.pool.slots i) := by rw [OrderPool.modify_slots, if_pos rfl]
  have hother : ∀ j, j ≠ i → (e.pool.modify i f).slots j = e.pool.slots j := by
    intro j hj
    rw [OrderPool.modify_slots, if_neg hj]
  have hnot : i ∉ free := fun hf => h.not_mem_loose_of_free hf hi
  refine h.repool hlt hfresh rfl (fun j hj => ⟨hother j hj, rfl⟩) (Or.inr ⟨hi, ?_⟩) (fun j _ => ⟨Iff.rfl, Iff.rfl⟩)
    (fun hf => absurd hf hnot) h.free_nodup h.loose_nodup
    (h.free_path.congr fun j hj => congrArg Order.next (hother j fun hji => hnot (hji ▸ hj))) h.live_free rfl ?_ ?_
  · rw [hself, hlive, hl]
  · rw [hself, hid, hgen]
    exact fun _ => h.id i hlt hl
  · rw [hself, hgen]
    exact h.gen i hlt

/-- The generation follows the number of times the slot was freed, and never is zero. -/
theorem nextGen_eq (n : Nat) : OrderPool.nextGen (n % (word32 - 1) + 1) = (n + 1) % (word32 - 1) + 1 := by
  simp only [OrderPool.nextGen, word32]
  split <;> omega

theorem free_loose (h : Rep e q free (i :: loose)) : Rep { e with pool := e.pool.free i } q (i :: free) loose := by
  obtain ⟨hlt, hl, hfresh⟩ := h.loose_mem i (by simp)
  have hself := e.pool.free_slots_self i
  have hother : ∀ j, j ≠ i → (e.pool.free i).slots j = e.pool.slots j ∧ (e.pool.free i).frees j = e.pool.frees j :=
    fun j hj => ⟨e.pool.free_slots_of_ne hj, Function.update_of_ne hj _ _⟩
  have hnot : i ∉ free := fun hf => h.not_mem_loose_of_free hf (by simp)
  have hcount := h.live_free
  have hresting := h.live_resting
  refine h.repool hlt hfresh rfl hother (Or.inl ⟨by simp, by rw [hself]⟩) (fun j hj => by simp [hj])
    (fun _ => (List.nodup_cons.mp h.loose_nodup).1) (List.nodup_cons.mpr ⟨hnot, h.free_nodup⟩)
    (List.nodup_cons.mp h.loose_nodup).2 ⟨rfl, ?_⟩ ?_ ?_ ?_ ?_
  · dsimp only
    rw [hself]
    exact h.free_path.congr fun j hj => congrArg Order.next (hother j fun hji => hnot (hji ▸ hj)).1
  · change e.pool.live - 1 + _ = e.pool.capacity
    simp only [List.length_cons] at *
    omega
  · simp only [List.length_cons]
    omega
  · simp [hself]
  · rw [hself, h.gen i hlt, nextGen_eq]
    simp [OrderPool.free]

theorem alloc_none (h : Rep e q free loose) (hnone : e.pool.alloc = none) : free = [] := by
  have hhead : e.pool.freeHead = kNull := by
    by_contra hne
    simp [OrderPool.alloc, hne] at hnone
  cases hfree : free with
  | nil => rfl
  | cons i free' =>
    have hpath := h.free_path
    rw [hfree] at hpath
    exact absurd (hpath.1.symm.trans hhead) (h.ne_kNull (h.free_mem i (by simp [hfree])).1)

theorem alloc_some (h : Rep e q free loose) {pool' : OrderPool} (hsome : e.pool.alloc = some (pool', i)) :
    ∃ free', free = i :: free' ∧ Rep { e with pool := pool' } q free' (i :: loose) := by
  obtain ⟨hi, hnull, hpool⟩ := OrderPool.of_alloc hsome
  cases hfree : free with
  | nil =>
    have hpath := h.free_path
    rw [hfree] at hpath
    exact absurd (hi.symm.trans hpath) hnull
  | cons j free' =>
    have hpath := h.free_path
    have hnodup := h.free_nodup
    have hcount := h.live_free
    rw [hfree] at hpath hnodup hcount
    have hij : j = i := hpath.1.symm.trans hi
    subst hij
    have hj : j ∈ free := by simp [hfree]
    have hlt := (h.free_mem j hj).1
    have hself : pool'.slots j =
        { gen := (e.pool.slots j).gen, id := OrderPool.idOf (e.pool.slots j).gen j, live := true } := by
      simp [hpool]
    have hother : ∀ l, l ≠ j → pool'.slots l = e.pool.slots l ∧ pool'.frees l = e.pool.frees l := by
      intro l hl
      simp [hpool, Function.update_of_ne hl]
    have hnot : j ∉ free' := (List.nodup_cons.mp hnodup).1
    refine ⟨free', rfl, h.repool hlt (h.not_mem_queue_of_free hj) (by rw [hpool]) hother
      (Or.inr ⟨by simp, by rw [hself]⟩) (fun l hl => by simp [hfree, hl]) (fun hf => absurd hf hnot)
      (List.nodup_cons.mp hnodup).2 (List.nodup_cons.mpr ⟨h.not_mem_loose_of_free hj, h.loose_nodup⟩)
      ?_ ?_ ?_ (fun _ => by rw [hself]) ?_⟩
    · rw [hpool]
      refine hpath.2.congr fun l hl => ?_
      have hlj : l ≠ j := fun hlj => hnot (hlj ▸ hl)
      simp [Function.update_of_ne hlj]
    · rw [hpool]
      simp only [List.length_cons] at hcount ⊢
      omega
    · simp only [hfree, List.length_cons]
      omega
    · rw [hself, hpool]
      exact h.gen j hlt

end Rep

/-! ### The fresh engine -/

theorem OrderPool.init_path (capacity : Nat) : ∀ m k, k + m = capacity →
    Path (fun i => ((OrderPool.init capacity).slots i).next) (if k < capacity then k else kNull)
      (List.range' k m) kNull := by
  intro m
  induction m with
  | zero =>
    intro k hk
    rw [if_neg (by omega)]
    rfl
  | succ m ih =>
    intro k hk
    rw [if_pos (by omega)]
    exact ⟨rfl, ih (k + 1) (by omega)⟩

theorem rep_init (cfg : Engine.Config) :
    Rep (Engine.init cfg) (fun _ _ _ => []) (List.range' 0 cfg.maxOrders) [] where
  capacity := rfl
  maxPrice := fun _ => rfl
  book := fun _ => represents_init _ _
  queued := by simp
  free_path := by
    have hpath := OrderPool.init_path cfg.maxOrders cfg.maxOrders 0 (by omega)
    by_cases hzero : cfg.maxOrders = 0
    · simpa [Engine.init, OrderPool.init, hzero] using hpath
    · rw [if_pos (by omega)] at hpath
      simpa [Engine.init, OrderPool.init, hzero] using hpath
  free_nodup := List.nodup_range'
  free_mem := by
    intro i hi
    simpa [Engine.init, OrderPool.init] using hi
  loose_nodup := List.nodup_nil
  loose_mem := by simp
  cover := by
    intro i hi
    exact Or.inl (by simpa [Engine.init, OrderPool.init] using hi)
  live_free := by simp [Engine.init, OrderPool.init]
  live_resting := by simp [Engine.init, OrderPool.init, Book.init]
  id := by simp [Engine.init, OrderPool.init]
  gen := by simp [Engine.init, OrderPool.init, word32]

/-! ### Identifiers -/

theorem OrderPool.idOf_eq {gen slot : Nat} (hslot : slot < word32) : idOf gen slot = gen * word32 + slot := by
  rw [idOf, ← Nat.shiftLeft_add_eq_or_of_lt hslot, Nat.shiftLeft_eq]

theorem OrderPool.idOf_mod {gen slot : Nat} (hslot : slot < word32) : idOf gen slot % word32 = slot := by
  rw [idOf_eq hslot, Nat.mul_add_mod_self_right, Nat.mod_eq_of_lt hslot]

theorem OrderPool.idOf_inj {gen gen' slot slot' : Nat} (hslot : slot < word32) (hslot' : slot' < word32)
    (heq : idOf gen slot = idOf gen' slot') : gen = gen' ∧ slot = slot' := by
  rw [idOf_eq hslot, idOf_eq hslot'] at heq
  simp only [word32] at *
  omega

namespace Rep

variable {e : Engine} {q : Nat → Queues} {free loose : List Nat} {i j : Nat}

theorem lt_word32 (h : Rep e q free loose) (hi : i < e.pool.capacity) : i < word32 :=
  lt_trans (h.capacity ▸ hi) e.cfg.maxOrders_lt

/-- Two live orders have two identifiers. -/
theorem id_inj (h : Rep e q free loose) (hi : i < e.pool.capacity) (hj : j < e.pool.capacity)
    (hlive : (e.pool.slots i).live = true) (hlive' : (e.pool.slots j).live = true)
    (heq : (e.pool.slots i).id = (e.pool.slots j).id) : i = j := by
  rw [h.id i hi hlive, h.id j hj hlive'] at heq
  exact (OrderPool.idOf_inj (h.lt_word32 hi) (h.lt_word32 hj) heq).2

/-- `find` is the search for the live order with this identifier. -/
theorem find_eq_some_iff (h : Rep e q free loose) (id : Nat) :
    e.pool.find id = some i ↔ i < e.pool.capacity ∧ (e.pool.slots i).live = true ∧ (e.pool.slots i).id = id := by
  simp only [OrderPool.find]
  constructor
  · intro hfind
    split at hfind
    · exact absurd hfind (by simp)
    · split at hfind
      · rename_i hcap hlive
        cases hfind
        exact ⟨by omega, hlive⟩
      · exact absurd hfind (by simp)
  · rintro ⟨hlt, hlive, rfl⟩
    have hmod : (e.pool.slots i).id % word32 = i := by
      rw [h.id i hlt hlive]
      exact OrderPool.idOf_mod (h.lt_word32 hlt)
    rw [hmod, if_neg (by omega), if_pos ⟨hlive, rfl⟩]

end Rep

end Matchbox
