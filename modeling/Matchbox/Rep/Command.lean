import Matchbox.Rep.Match

/-!
# What a command does

Each way a command changes the ledger is stated once, on the represented data: an order is taken out of its queue, freed, rested, shrunk in place, repriced, or accepted into a free slot. `Processed` puts them together into everything `process` can do, with the conditions under which it does it. All later invariants of the engine are case analyses of `Processed` and inductions along its fills.
-/

namespace Matchbox

/-! ### The moves of one slot -/

/-- The queued order `i` leaves its queue and becomes loose. -/
structure Taken (i : Nat) (w w' : Ledger) : Prop where
  loose : w.loose = []
  loose' : w'.loose = [i]
  mem : i ∈ w.q (w.e.pool.slots i).symbol (w.e.pool.slots i).side (w.e.pool.slots i).price
  slots : ∀ j, Relinked (w.e.pool.slots j) (w'.e.pool.slots j)
  capacity : w'.e.pool.capacity = w.e.pool.capacity
  frees : w'.e.pool.frees = w.e.pool.frees
  cfg' : w'.e.cfg = w.e.cfg
  free' : w'.free = w.free
  queues' : w'.q = Function.update w.q (w.e.pool.slots i).symbol
    ((w.q (w.e.pool.slots i).symbol).set (w.e.pool.slots i).side (w.e.pool.slots i).price
      ((w.q (w.e.pool.slots i).symbol (w.e.pool.slots i).side (w.e.pool.slots i).price).erase i))

theorem Taken.sublist {i : Nat} {w w' : Ledger} (h : Taken i w w') (k : Nat) (s : Side) (p : Int) :
    (w'.q k s p).Sublist (w.q k s p) := by
  rw [h.queues']
  by_cases heq : k = (w.e.pool.slots i).symbol ∧ s = (w.e.pool.slots i).side ∧ p = (w.e.pool.slots i).price
  · obtain ⟨rfl, rfl, rfl⟩ := heq
    rw [Queues.update_set_same]
    exact List.erase_sublist
  · rw [Queues.update_set_of_ne _ heq]

theorem Taken.mem_of_ne {i : Nat} {w w' : Ledger} (h : Taken i w w') {j k : Nat} {s : Side} {p : Int} (hji : j ≠ i)
    (hj : j ∈ w.q k s p) : j ∈ w'.q k s p := by
  rw [h.queues']
  by_cases heq : k = (w.e.pool.slots i).symbol ∧ s = (w.e.pool.slots i).side ∧ p = (w.e.pool.slots i).price
  · obtain ⟨rfl, rfl, rfl⟩ := heq
    rw [Queues.update_set_same]
    exact (List.mem_erase_of_ne hji).mpr hj
  · rw [Queues.update_set_of_ne _ heq]
    exact hj

/-- The loose order `i` is freed. -/
structure Freed (i : Nat) (w w' : Ledger) : Prop where
  loose : w.loose = [i]
  loose' : w'.loose = []
  pool' : w'.e.pool = w.e.pool.free i
  cfg' : w'.e.cfg = w.e.cfg
  free' : w'.free = i :: w.free
  queues' : w'.q = w.q

/-- The loose order `i` goes to the back of its queue. -/
structure Rested (i : Nat) (w w' : Ledger) : Prop where
  loose : w.loose = [i]
  loose' : w'.loose = []
  slots : ∀ j, Relinked (w.e.pool.slots j) (w'.e.pool.slots j)
  capacity : w'.e.pool.capacity = w.e.pool.capacity
  frees : w'.e.pool.frees = w.e.pool.frees
  cfg' : w'.e.cfg = w.e.cfg
  free' : w'.free = w.free
  queues' : w'.q = Function.update w.q (w.e.pool.slots i).symbol
    ((w.q (w.e.pool.slots i).symbol).set (w.e.pool.slots i).side (w.e.pool.slots i).price
      (w.q (w.e.pool.slots i).symbol (w.e.pool.slots i).side (w.e.pool.slots i).price ++ [i]))

theorem Rested.mem_of_mem {i : Nat} {w w' : Ledger} (h : Rested i w w') {j k : Nat} {s : Side} {p : Int}
    (hj : j ∈ w'.q k s p) : j ∈ w.q k s p ∨ j = i ∧ k = (w.e.pool.slots i).symbol ∧ s = (w.e.pool.slots i).side ∧
      p = (w.e.pool.slots i).price := by
  rw [h.queues'] at hj
  rcases Queues.mem_update_set hj with ⟨heq, hmem⟩ | ⟨_, hmem⟩
  · rcases List.mem_append.mp hmem with hmem | hmem
    · obtain ⟨rfl, rfl, rfl⟩ := heq
      exact Or.inl hmem
    · exact Or.inr ⟨List.mem_singleton.mp hmem, heq⟩
  · exact Or.inl hmem

/-- The queued order `i` shrinks to `qty` where it stands. -/
structure Reduced (i qty : Nat) (w w' : Ledger) : Prop where
  loose : w.loose = []
  loose' : w'.loose = []
  mem : i ∈ w.q (w.e.pool.slots i).symbol (w.e.pool.slots i).side (w.e.pool.slots i).price
  pool' : w'.e.pool = w.e.pool.modify i fun o => { o with qty := qty }
  cfg' : w'.e.cfg = w.e.cfg
  free' : w'.free = w.free
  queues' : w'.q = w.q

/-- The loose order `i` gets a new price and quantity. -/
structure Repriced (i : Nat) (price : Int) (qty : Nat) (w w' : Ledger) : Prop where
  loose : w.loose = [i]
  loose' : w'.loose = [i]
  pool' : w'.e.pool = w.e.pool.modify i fun o => { o with price := price, qty := qty }
  cfg' : w'.e.cfg = w.e.cfg
  free' : w'.free = w.free
  queues' : w'.q = w.q

section Slot

variable {w w' w₁ : Ledger} {i qty : Nat} {price : Int}

theorem Reduced.slot (h : Reduced i qty w w') : w'.e.pool.slots i = { w.e.pool.slots i with qty := qty } := by
  rw [h.pool', OrderPool.modify_slots, if_pos rfl]

theorem Repriced.slot (h : Repriced i price qty w w') :
    w'.e.pool.slots i = { w.e.pool.slots i with price := price, qty := qty } := by
  rw [h.pool', OrderPool.modify_slots, if_pos rfl]

theorem Repriced.id (h : Repriced i price qty w₁ w') (htaken : Taken i w w₁) :
    (w'.e.pool.slots i).id = (w.e.pool.slots i).id := by
  rw [h.slot]
  exact (htaken.slots i).read Order.id fun _ _ => rfl

theorem Repriced.limit (h : Repriced i price qty w₁ w') (htaken : Taken i w w₁) :
    (w'.e.pool.slots i).type = .limit ∧ (w'.e.pool.slots i).tif = .gtc := by
  have hqueued := w.rep.queued _ _ _ i htaken.mem
  rw [h.slot]
  exact ⟨((htaken.slots i).read Order.type fun _ _ => rfl).trans hqueued.type,
    ((htaken.slots i).read Order.tif fun _ _ => rfl).trans hqueued.tif⟩

end Slot

/-- The order that `on_new` writes into slot `i`. -/
def Command.order (c : Command) (gen i : Nat) : Order where
  id := OrderPool.idOf gen i
  tag := c.tag
  session := c.session
  symbol := c.symbol
  side := c.side
  type := c.type
  tif := c.tif
  live := true
  price := if c.type = .limit then c.price else 0
  qty := c.qty
  gen := gen

/-- The first free slot becomes the loose order of `c`. -/
structure Admitted (c : Command) (i : Nat) (w w' : Ledger) : Prop where
  loose : w.loose = []
  loose' : w'.loose = [i]
  slots' : w'.e.pool.slots = Function.update w.e.pool.slots i (c.order (w.e.pool.slots i).gen i)
  capacity : w'.e.pool.capacity = w.e.pool.capacity
  frees : w'.e.pool.frees = w.e.pool.frees
  cfg' : w'.e.cfg = w.e.cfg
  free : w.free = i :: w'.free
  queues' : w'.q = w.q

/-- Only the clock moved. -/
structure Idle (w w' : Ledger) : Prop where
  loose' : w'.loose = w.loose
  pool' : w'.e.pool = w.e.pool
  books' : w'.e.books = w.e.books
  cfg' : w'.e.cfg = w.e.cfg
  free' : w'.free = w.free
  queues' : w'.q = w.q

/-- What `match_and_rest` does with the order `i` once it has stopped matching. -/
inductive Ended (now i : Nat) (w w' : Ledger) : List Emission → Prop where
  | done (hqty : (w.e.pool.slots i).qty = 0) (hfreed : Freed i w w') : Ended now i w w' []
  | killed (hqty : (w.e.pool.slots i).qty ≠ 0)
      (hkill : (w.e.pool.slots i).type = .market ∨ (w.e.pool.slots i).tif = .ioc) (hfreed : Freed i w w') :
      Ended now i w w' [⟨Engine.base now .cancelled (w.e.pool.slots i), w.e.pool⟩]
  | rested (hqty : (w.e.pool.slots i).qty ≠ 0) (htype : (w.e.pool.slots i).type = .limit)
      (htif : (w.e.pool.slots i).tif = .gtc) (hrested : Rested i w w') : Ended now i w w' []

/-- `match_and_rest` of the loose order `i`: fills until it stops, then its end. -/
inductive Matched (now i : Nat) (w w' : Ledger) : List Emission → Prop where
  | intro {w₁ : Ledger} {fills ending : List Emission} (hfills : Fills now i w w₁ fills) (hstopped : Stopped i w₁)
      (hended : Ended now i w₁ w' ending) : Matched now i w w' (fills ++ ending)

theorem Matched.kind {now i : Nat} {w w' : Ledger} {log : List Emission} (h : Matched now i w w' log) :
    ∀ t ∈ log, t.event.kind = .fill ∨ t.event.kind = .trade ∨ t.event.kind = .cancelled := by
  obtain ⟨hfills, -, hended⟩ := h
  have hfill : ∀ {w w' : Ledger} {log : List Emission}, Fills now i w w' log →
      ∀ t ∈ log, t.event.kind = .fill ∨ t.event.kind = .trade ∨ t.event.kind = .cancelled := by
    intro w w' log hfills
    induction hfills with
    | refl =>
      intro t ht
      cases ht
    | head hfill _ ih =>
      intro t ht
      rcases List.mem_append.mp ht with ht | ht
      · simp only [fillEmissions, Engine.fillEvents, List.map_cons, List.map_nil, List.mem_cons, List.not_mem_nil,
          or_false] at ht
        rcases ht with rfl | rfl | rfl <;> simp [Engine.base]
      · exact ih t ht
  intro t ht
  rcases List.mem_append.mp ht with ht | ht
  · exact hfill hfills t ht
  · cases hended with
    | done _ _ => cases ht
    | killed _ _ _ =>
      rw [List.mem_singleton.mp ht]
      exact .inr (.inr rfl)
    | rested _ _ _ _ => cases ht

/-! ### Commands -/

/-- A price an order may have. -/
def Engine.Config.Valid (cfg : Engine.Config) (p : Int) : Prop := 1 ≤ p ∧ p ≤ cfg.maxPrice

/-- The command names the live order in slot `i`, and is its owner's. -/
structure Owned (w : Ledger) (c : Command) (i : Nat) : Prop where
  lt : i < w.e.pool.capacity
  live : (w.e.pool.slots i).live = true
  id : (w.e.pool.slots i).id = c.orderId
  session : (w.e.pool.slots i).session = c.session

/-- A New that is well formed, whether or not there is room for it. -/
structure WellFormed (w : Ledger) (c : Command) : Prop where
  kind : c.kind = .new
  symbol : c.symbol < w.e.cfg.symbols
  qty : c.qty ≠ 0
  price : c.type = .limit → w.e.cfg.Valid c.price

/-- When a command is refused, and why. -/
inductive Refused (w : Ledger) (c : Command) : RejectReason → Prop where
  | badSymbol (hkind : c.kind = .new) (hsymbol : w.e.cfg.symbols ≤ c.symbol) : Refused w c .badSymbol
  | newQty (hkind : c.kind = .new) (hsymbol : c.symbol < w.e.cfg.symbols) (hqty : c.qty = 0) : Refused w c .badQty
  | newPrice (hkind : c.kind = .new) (hsymbol : c.symbol < w.e.cfg.symbols) (hqty : c.qty ≠ 0)
      (htype : c.type = .limit) (hprice : ¬ w.e.cfg.Valid c.price) : Refused w c .badPrice
  | bookFull (hnew : WellFormed w c) (hfree : w.free = []) : Refused w c .bookFull
  | unknownOrder (hkind : c.kind ≠ .new)
      (hnone : ∀ i < w.e.pool.capacity, (w.e.pool.slots i).live = true → (w.e.pool.slots i).id ≠ c.orderId) :
      Refused w c .unknownOrder
  | notOwner {i : Nat} (hkind : c.kind ≠ .new) (hlt : i < w.e.pool.capacity) (hlive : (w.e.pool.slots i).live = true)
      (hid : (w.e.pool.slots i).id = c.orderId) (hsession : (w.e.pool.slots i).session ≠ c.session) :
      Refused w c .notOwner
  | replaceQty {i : Nat} (hkind : c.kind = .replace) (howned : Owned w c i) (hqty : c.qty = 0) : Refused w c .badQty
  | replacePrice {i : Nat} (hkind : c.kind = .replace) (howned : Owned w c i) (hqty : c.qty ≠ 0)
      (hprice : ¬ w.e.cfg.Valid c.price) : Refused w c .badPrice

/-- A Replace that passes the checks. -/
structure Replaces (w : Ledger) (c : Command) (i : Nat) : Prop where
  kind : c.kind = .replace
  owned : Owned w c i
  qty : c.qty ≠ 0
  price : w.e.cfg.Valid c.price

/-- Everything `process` can do, but for the report of the top of the book. -/
inductive Processed (now : Nat) (c : Command) (w w' : Ledger) : List Emission → Prop where
  | refused {r : RejectReason} (hrefused : Refused w c r) (hidle : Idle w w') :
      Processed now c w w' [⟨Engine.reject now c r, w.e.pool⟩]
  | accepted {i : Nat} {w₁ : Ledger} {log : List Emission} (hnew : WellFormed w c) (hadmitted : Admitted c i w w₁)
      (hmatched : Matched now i w₁ w' log) :
      Processed now c w w' (⟨Engine.base now .accepted (w₁.e.pool.slots i), w₁.e.pool⟩ :: log)
  | cancelled {i : Nat} {w₁ : Ledger} (hkind : c.kind = .cancel) (howned : Owned w c i) (htaken : Taken i w w₁)
      (hfreed : Freed i w₁ w') :
      Processed now c w w' [⟨Engine.base now .cancelled (w₁.e.pool.slots i), w₁.e.pool⟩]
  | reduced {i : Nat} (hreplaces : Replaces w c i) (hprice : c.price = (w.e.pool.slots i).price)
      (hqty : c.qty ≤ (w.e.pool.slots i).qty) (hreduced : Reduced i c.qty w w') :
      Processed now c w w' [⟨Engine.base now .replaced (w'.e.pool.slots i), w'.e.pool⟩]
  | replaced {i : Nat} {w₁ w₂ : Ledger} {log : List Emission} (hreplaces : Replaces w c i)
      (hmoves : ¬ (c.price = (w.e.pool.slots i).price ∧ c.qty ≤ (w.e.pool.slots i).qty)) (htaken : Taken i w w₁)
      (hrepriced : Repriced i c.price c.qty w₁ w₂) (hmatched : Matched now i w₂ w' log) :
      Processed now c w w' (⟨Engine.base now .replaced (w₂.e.pool.slots i), w₂.e.pool⟩ :: log)

/-! ### Every handler makes these moves -/

section Moves

variable {e : Engine} {now k i : Nat} {pool : OrderPool} {b : Book}

theorem Rep.congr {e e' : Engine} {q : Nat → Queues} {free loose : List Nat} (h : Rep e q free loose)
    (hcfg : e'.cfg = e.cfg) (hpool : e'.pool = e.pool) (hbooks : e'.books = e.books) : Rep e' q free loose := by
  obtain ⟨cfg, pool, books, now⟩ := e
  obtain ⟨cfg', pool', books', now'⟩ := e'
  subst hcfg hpool hbooks
  exact ⟨h.capacity, h.maxPrice, h.book, h.queued, h.free_path, h.free_nodup, h.free_mem, h.loose_nodup, h.loose_mem,
    h.cover, h.live_free, h.live_resting, h.id, h.gen⟩

theorem Ledger.idle (w : Ledger) (e' : Engine) (hcfg : e'.cfg = w.e.cfg) (hpool : e'.pool = w.e.pool)
    (hbooks : e'.books = w.e.books) : ∃ w', Idle w w' ∧ w'.e = e' :=
  ⟨⟨e', w.q, w.free, w.loose, w.rep.congr hcfg hpool hbooks, by rw [hpool]; exact w.pos⟩,
    ⟨rfl, hpool, hbooks, hcfg, rfl, rfl⟩, rfl⟩

/-- The ledger stands for this pool and this book `k`, with the other books of `e`. -/
structure Ledger.At (w : Ledger) (e : Engine) (k : Nat) (pool : OrderPool) (b : Book) : Prop where
  cfg : w.e.cfg = e.cfg
  pool : w.e.pool = pool
  books : w.e.books = Function.update e.books k b

theorem Ledger.at_self (w : Ledger) (k : Nat) : w.At w.e k w.e.pool (w.e.books k) :=
  ⟨rfl, rfl, (Function.update_eq_self _ _).symm⟩

theorem Ledger.at_of_eq {w : Ledger} (hw : w.e = e.store now k pool b) : w.At e k pool b := by
  constructor <;> rw [hw] <;> rfl

theorem Ledger.At.rep {w : Ledger} (h : w.At e k pool b) (now : Nat) :
    Rep (e.store now k pool b) w.q w.free w.loose :=
  w.rep.congr h.cfg.symm h.pool.symm h.books.symm

theorem Ledger.At.pos {w : Ledger} (h : w.At e k pool b) {k' : Nat} {s : Side} {p : Int} {j : Nat}
    (hj : j ∈ w.q k' s p) : 0 < (pool.slots j).qty := by
  rw [← h.pool]
  exact w.pos k' s p j hj

theorem Ledger.freed (w : Ledger) (hw : w.At e k pool b) (now : Nat) (hloose : w.loose = [i]) :
    ∃ w', Freed i w w' ∧ w'.e = e.store now k (pool.free i) b := by
  have hrep := hw.rep now
  rw [hloose] at hrep
  refine ⟨⟨_, w.q, _, _, hrep.free_loose, fun k s p j hj => ?_⟩,
    ⟨hloose, rfl, by rw [hw.pool]; rfl, hw.cfg.symm, rfl, rfl⟩, rfl⟩
  have hji : j ≠ i := fun heq => (hrep.loose_mem i (by simp)).2.2 k s p (heq ▸ hj)
  change 0 < ((pool.free i).slots j).qty
  rw [pool.free_slots_of_ne hji]
  exact hw.pos hj

theorem Ledger.rested (w : Ledger) (hw : w.At e k pool b) (now : Nat) (hloose : w.loose = [i])
    (hk : k < e.cfg.symbols) (hsymbol : (pool.slots i).symbol = k) (hqty : (pool.slots i).qty ≠ 0)
    (htype : (pool.slots i).type = .limit) (htif : (pool.slots i).tif = .gtc)
    (hprice : e.cfg.Valid (pool.slots i).price) :
    ∃ w', Rested i w w' ∧ w'.e = e.store now k (Book.insert pool b i).1 (Book.insert pool b i).2 := by
  have hrep := hw.rep now
  rw [hloose] at hrep
  obtain ⟨hlt, _, hfresh⟩ := hrep.loose_mem i (by simp)
  have hrel : ∀ j, Relinked (pool.slots j) ((Book.insert pool b i).1.slots j) := by
    have hbook := hrep.book k
    rw [Engine.store_books_self] at hbook
    exact hbook.insert_relinked (hfresh k) (hrep.ne_kNull hlt)
  have hsame : (Book.insert pool b i).1.capacity = pool.capacity ∧ (Book.insert pool b i).1.frees = pool.frees := by
    rw [Book.insert_pool]
    exact ⟨rfl, rfl⟩
  have hinsert := hrep.insert now hk hsymbol rfl rfl htype htif hprice.1 hprice.2
  rw [Engine.store_store, Engine.store_books_self] at hinsert
  refine ⟨⟨_, _, _, _, hinsert, fun k' s p j hj => ?_⟩, ?_, rfl⟩
  · change 0 < ((Book.insert pool b i).1.slots j).qty
    rw [(hrel j).qty]
    by_cases hji : j = i
    · rw [hji]
      exact Nat.pos_of_ne_zero hqty
    · rcases Queues.mem_update_set hj with ⟨⟨hk', hs, hp⟩, hj⟩ | ⟨_, hj⟩
      · exact hw.pos (by simpa [hji] using hj)
      · exact hw.pos hj
  · constructor
    case loose => exact hloose
    case loose' => rfl
    case slots => rw [hw.pool]; exact hrel
    case capacity => rw [hw.pool]; exact hsame.1
    case frees => rw [hw.pool]; exact hsame.2
    case cfg' => exact hw.cfg.symm
    case free' => rfl
    case queues' => rw [hw.pool, hsymbol]; rfl

theorem Ledger.taken (w : Ledger) (hw : w.At e k pool b) (now : Nat) (hloose : w.loose = []) {s : Side} {p : Int}
    (hi : i ∈ w.q k s p) :
    ∃ w', Taken i w w' ∧ w'.e = e.store now k (Book.remove pool b i).1 (Book.remove pool b i).2 := by
  have hrep := hw.rep now
  rw [hloose] at hrep
  have hqi := hrep.queued k s p i hi
  have hsymbol : (pool.slots i).symbol = k := hqi.symbol
  have hside : (pool.slots i).side = s := hqi.side
  have hprice : (pool.slots i).price = p := hqi.price
  have hbook := hrep.book k
  rw [Engine.store_books_self] at hbook
  obtain ⟨xs, ys, hq⟩ := List.append_of_mem hi
  have herase : (w.q k s p).erase i = xs ++ ys := by
    have hnodup := hbook.nodup s p
    rw [hq] at hnodup ⊢
    rw [List.erase_append_right _ fun hxs => (List.nodup_append.mp hnodup).2.2 i hxs i (by simp) rfl,
      List.erase_cons_head]
  have hrel : ∀ j, Relinked (pool.slots j) ((Book.remove pool b i).1.slots j) := by
    rw [Book.remove, hside, hprice]
    exact hbook.unlink_relinked hq
  have hsame : (Book.remove pool b i).1.capacity = pool.capacity ∧ (Book.remove pool b i).1.frees = pool.frees := by
    rw [Book.remove, Book.unlink_pool]
    exact ⟨rfl, rfl⟩
  have hunlink : Rep (e.store now k (Book.remove pool b i).1 (Book.remove pool b i).2)
      (Function.update w.q k ((w.q k).set s p ((w.q k s p).erase i))) w.free [i] := by
    have hunlink := hrep.unlink now hq
    rw [Engine.store_store, Engine.store_books_self] at hunlink
    rw [Book.remove, hside, hprice, herase]
    exact hunlink
  refine ⟨⟨_, _, _, _, hunlink, fun k' s' p' j hj => ?_⟩, ?_, rfl⟩
  · change 0 < ((Book.remove pool b i).1.slots j).qty
    rw [(hrel j).qty]
    rcases Queues.mem_update_set hj with ⟨_, hj⟩ | ⟨_, hj⟩
    · exact hw.pos (List.mem_of_mem_erase hj)
    · exact hw.pos hj
  · constructor
    case loose => exact hloose
    case loose' => rfl
    case mem => rw [hw.pool, hsymbol, hside, hprice]; exact hi
    case slots => rw [hw.pool]; exact hrel
    case capacity => rw [hw.pool]; exact hsame.1
    case frees => rw [hw.pool]; exact hsame.2
    case cfg' => exact hw.cfg.symm
    case free' => rfl
    case queues' => rw [hw.pool, hsymbol, hside, hprice]

theorem Ledger.reduced (w : Ledger) (hw : w.At e k pool b) (now : Nat) (hloose : w.loose = []) {s : Side} {p : Int}
    (hi : i ∈ w.q k s p) {qty : Nat} (hzero : qty ≠ 0) (hqty : qty ≤ (pool.slots i).qty) :
    ∃ w', Reduced i qty w w' ∧ w'.e = e.store now k (Book.reduce pool b i qty).1 (Book.reduce pool b i qty).2 := by
  have hrep := hw.rep now
  have hqi := hrep.queued k s p i hi
  have hsymbol : (pool.slots i).symbol = k := hqi.symbol
  have hside : (pool.slots i).side = s := hqi.side
  have hprice : (pool.slots i).price = p := hqi.price
  have hreduce : Rep (e.store now k (Book.reduce pool b i qty).1 (Book.reduce pool b i qty).2) w.q w.free w.loose := by
    have hset := hrep.setQty now hi (f := fun o => { o with qty := qty }) (d := (pool.slots i).qty - qty)
      (fun o => ⟨qty, o.filled, rfl⟩) (Nat.add_sub_cancel' hqty)
    rw [Engine.store_store, Engine.store_books_self] at hset
    rw [Book.reduce, hside, hprice]
    exact hset
  refine ⟨⟨_, _, _, _, hreduce, fun k' s' p' j hj => ?_⟩, ?_, rfl⟩
  · change 0 < ((pool.modify i fun o => { o with qty := qty }).slots j).qty
    rw [OrderPool.modify_slots]
    split
    · exact Nat.pos_of_ne_zero hzero
    · exact hw.pos hj
  · exact ⟨hloose, hloose, by rw [hw.pool, hsymbol, hside, hprice]; exact hi, by rw [hw.pool]; rfl, hw.cfg.symm, rfl, rfl⟩

theorem Ledger.repriced (w : Ledger) (hw : w.At e k pool b) (now : Nat) (hloose : w.loose = [i]) (price : Int)
    (qty : Nat) :
    ∃ w', Repriced i price qty w w' ∧
      w'.e = e.store now k (pool.modify i fun o => { o with price := price, qty := qty }) b := by
  have hrep := hw.rep now
  rw [hloose] at hrep
  have hmodify := hrep.modify_loose (f := fun o => { o with price := price, qty := qty })
    (List.mem_singleton_self i) rfl rfl rfl
  refine ⟨⟨_, _, _, _, hmodify, fun k' s' p' j hj => ?_⟩, ⟨hloose, rfl, by rw [hw.pool]; rfl, hw.cfg.symm, rfl, rfl⟩, rfl⟩
  have hji : j ≠ i := fun heq => (hrep.loose_mem i (by simp)).2.2 k' s' p' (heq ▸ hj)
  change 0 < ((pool.modify i fun o => { o with price := price, qty := qty }).slots j).qty
  rw [OrderPool.modify_slots, if_neg hji]
  exact hw.pos hj

/-- The pool of `on_new` after it has written the order. -/
def Command.enter (c : Command) (pool : OrderPool) (i : Nat) : OrderPool :=
  pool.modify i fun o =>
    { o with
      tag := c.tag
      session := c.session
      symbol := c.symbol
      side := c.side
      type := c.type
      tif := c.tif
      price := if c.type = .limit then c.price else 0
      qty := c.qty }

theorem Ledger.admitted (w : Ledger) (hw : w.At e k pool b) (now : Nat) (hloose : w.loose = []) (c : Command)
    {pool' : OrderPool} (halloc : pool.alloc = some (pool', i)) :
    ∃ w', Admitted c i w w' ∧ w'.e = e.store now k (c.enter pool' i) b := by
  have hrep := hw.rep now
  rw [hloose] at hrep
  obtain ⟨free', hfree, halloc'⟩ := hrep.alloc_some halloc
  obtain ⟨_, _, hpool'⟩ := OrderPool.of_alloc halloc
  have hslots : (c.enter pool' i).slots = Function.update pool.slots i (c.order (pool.slots i).gen i) := by
    funext j
    rw [Command.enter, OrderPool.modify_slots, hpool']
    by_cases hj : j = i
    · simp [hj, Command.order]
    · simp [hj]
  have hsame : (c.enter pool' i).capacity = pool.capacity ∧ (c.enter pool' i).frees = pool.frees := by
    rw [hpool']
    exact ⟨rfl, rfl⟩
  have hmodify : Rep (e.store now k (c.enter pool' i) b) w.q free' [i] :=
    halloc'.modify_loose (List.mem_singleton_self i) rfl rfl rfl
  refine ⟨⟨_, _, _, _, hmodify, fun k' s' p' j hj => ?_⟩, ?_, rfl⟩
  · have hji : j ≠ i := fun heq => (hmodify.loose_mem i (by simp)).2.2 k' s' p' (heq ▸ hj)
    change 0 < ((c.enter pool' i).slots j).qty
    rw [hslots, Function.update_of_ne hji]
    exact hw.pos hj
  · constructor
    case loose => exact hloose
    case loose' => rfl
    case slots' => rw [hw.pool]; exact hslots
    case capacity => rw [hw.pool]; exact hsame.1
    case frees => rw [hw.pool]; exact hsame.2
    case cfg' => exact hw.cfg.symm
    case free => exact hfree
    case queues' => rfl

theorem Ledger.matched (w : Ledger) (hw : w.e = e.store now k pool b) (hloose : w.loose = [i])
    (hk : k < e.cfg.symbols) (hsymbol : (pool.slots i).symbol = k)
    (hprice : (pool.slots i).type = .limit → e.cfg.Valid (pool.slots i).price) (log : List Emission) :
    ∃ w' log', Matched now i w w' log' ∧
      w'.e = e.store now k (Engine.matchAndRest now pool b i log).pool (Engine.matchAndRest now pool b i log).book ∧
      (Engine.matchAndRest now pool b i log).log = log ++ log' := by
  obtain ⟨w₁, fills, ⟨hfills, hmatching, hacc, -⟩, hstopped, -⟩ :=
    Matching.matchLoop (e := e) (k := k) (pool.slots i).qty w ⟨pool, b, 0, log⟩ ⟨hw, hloose, hsymbol, rfl⟩ le_rfl
  obtain ⟨st, hst⟩ : ∃ st, st = b.matchTaker (Engine.onFill now i) pool i log := ⟨_, rfl⟩
  change Matching e now k i _ w₁ (b.matchTaker (Engine.onFill now i) pool i log) at hmatching
  change (b.matchTaker (Engine.onFill now i) pool i log).acc = _ at hacc
  simp only [Engine.matchAndRest]
  rw [← hst] at hmatching hacc ⊢
  have hpool := hmatching.pool
  have hw₁ : w.e.pool = pool := by
    rw [hw]
    rfl
  by_cases hqty : (st.pool.slots i).qty = 0
  · obtain ⟨w', hfreed, hw'⟩ := w₁.freed (at_of_eq hmatching.engine) now hmatching.loose
    rw [if_pos hqty]
    exact ⟨w', _, .intro hfills hstopped (.done (by rwa [hpool]) hfreed), hw', by simp [hacc]⟩
  by_cases hkill : (st.pool.slots i).type = .market ∨ (st.pool.slots i).tif = .ioc
  · obtain ⟨w', hfreed, hw'⟩ := w₁.freed (at_of_eq hmatching.engine) now hmatching.loose
    rw [if_neg hqty, if_pos hkill]
    refine ⟨w', _, .intro hfills hstopped (.killed (by rwa [hpool]) (by rwa [hpool]) hfreed), hw', ?_⟩
    rw [hacc, hpool, List.append_assoc]
  · have htype : (st.pool.slots i).type = .limit := by
      cases htype : (st.pool.slots i).type with
      | limit => rfl
      | market => exact absurd (Or.inl htype) hkill
    have htif : (st.pool.slots i).tif = .gtc := by
      cases htif : (st.pool.slots i).tif with
      | gtc => rfl
      | ioc => exact absurd (Or.inr htif) hkill
    have hvalid : e.cfg.Valid (st.pool.slots i).price := by
      have hsame := hfills.price
      have htype' := hfills.type
      rw [hpool, hw₁] at hsame htype'
      rw [hsame]
      exact hprice (htype' ▸ htype)
    obtain ⟨w', hrested, hw'⟩ := w₁.rested (at_of_eq hmatching.engine) now hmatching.loose hk hmatching.symbol hqty htype htif hvalid
    rw [if_neg hqty, if_neg hkill]
    exact ⟨w', _, .intro hfills hstopped (.rested (by rwa [hpool]) (by rwa [hpool]) (by rwa [hpool]) hrested), hw',
      by simp [hacc]⟩

end Moves

/-! ### The handlers -/

section Handlers

variable {now k i : Nat} {c : Command}

/-- A handler working on book `k` does what `Processed` says. -/
def Handled (now k : Nat) (c : Command) (w : Ledger) (out : Outcome) : Prop :=
  ∃ w', Processed now c w w' out.log ∧ w'.e = w.e.store now k out.pool out.book

theorem Ledger.validPrice_iff (w : Ledger) (k : Nat) (p : Int) :
    (w.e.books k).validPrice p = true ↔ w.e.cfg.Valid p := by
  rw [Book.validPrice, decide_eq_true_eq, w.rep.maxPrice]
  rfl

theorem Ledger.refused (w : Ledger) {r : RejectReason} (hrefused : Refused w c r) :
    Handled now k c w ⟨w.e.pool, w.e.books k, [⟨Engine.reject now c r, w.e.pool⟩]⟩ := by
  obtain ⟨w', hidle, hw'⟩ := w.idle (w.e.store now k w.e.pool (w.e.books k)) rfl rfl
    (Function.update_eq_self _ _)
  exact ⟨w', .refused hrefused hidle, hw'⟩

theorem Ledger.onNew (w : Ledger) (hloose : w.loose = []) (hkind : c.kind = .new)
    (hsymbol : c.symbol < w.e.cfg.symbols) :
    Handled now c.symbol c w (Engine.onNew now w.e.pool (w.e.books c.symbol) c) := by
  rw [Engine.onNew]
  by_cases hqty : c.qty = 0
  · rw [if_pos hqty]
    exact w.refused (.newQty hkind hsymbol hqty)
  by_cases hprice : c.type = .limit ∧ ¬ (w.e.books c.symbol).validPrice c.price = true
  · rw [if_neg hqty, if_pos hprice]
    exact w.refused (.newPrice hkind hsymbol hqty hprice.1 (mt (w.validPrice_iff _ _).mpr hprice.2))
  rw [if_neg hqty, if_neg hprice]
  have hnew : WellFormed w c :=
    ⟨hkind, hsymbol, hqty, fun htype => (w.validPrice_iff _ _).mp (not_not.mp fun hno => hprice ⟨htype, hno⟩)⟩
  cases halloc : w.e.pool.alloc with
  | none => exact w.refused (.bookFull hnew (w.rep.alloc_none halloc))
  | some allocated =>
    obtain ⟨pool, i⟩ := allocated
    obtain ⟨w₁, hadmitted, hw₁⟩ := w.admitted (w.at_self c.symbol) now hloose c halloc
    have hslot : (c.enter pool i).slots i = c.order (w.e.pool.slots i).gen i := by
      have hslots := hadmitted.slots'
      rw [hw₁] at hslots
      exact (congrFun hslots i).trans (Function.update_self _ _ _)
    have hw₁pool : w₁.e.pool = c.enter pool i := by
      rw [hw₁]
      rfl
    obtain ⟨w', log, hmatched, hw', hlog⟩ := w₁.matched hw₁ hadmitted.loose' hsymbol (by rw [hslot]; rfl)
      (fun htype => by
        rw [hslot] at htype ⊢
        have hlimit : c.type = .limit := htype
        simpa only [Command.order, if_pos hlimit] using hnew.price hlimit)
      [⟨Engine.base now .accepted ((c.enter pool i).slots i), c.enter pool i⟩]
    refine ⟨w', ?_, hw'⟩
    have hprocessed := Processed.accepted hnew hadmitted hmatched
    rw [hw₁pool] at hprocessed
    exact hlog ▸ hprocessed

theorem Owned.mem {w : Ledger} (h : Owned w c i) (hloose : w.loose = []) :
    i ∈ w.q (w.e.pool.slots i).symbol (w.e.pool.slots i).side (w.e.pool.slots i).price := by
  rcases w.rep.cover i h.lt with hfree | hmem | hmem
  · have hdead := (w.rep.free_mem i hfree).2
    rw [h.live] at hdead
    exact absurd hdead (by decide)
  · rw [hloose] at hmem
    exact absurd hmem (List.not_mem_nil)
  · exact hmem

theorem Ledger.onCancel (w : Ledger) (hloose : w.loose = []) (hkind : c.kind = .cancel) (howned : Owned w c i) :
    Handled now (w.e.pool.slots i).symbol c w
      (Engine.onCancel now w.e.pool (w.e.books (w.e.pool.slots i).symbol) i) := by
  obtain ⟨w₁, htaken, hw₁⟩ := w.taken (w.at_self _) now hloose (howned.mem hloose)
  obtain ⟨w', hfreed, hw'⟩ := w₁.freed (at_of_eq hw₁) now htaken.loose'
  refine ⟨w', ?_, hw'⟩
  have hprocessed : Processed now c w w' _ := .cancelled hkind howned htaken hfreed
  rw [hw₁] at hprocessed
  exact hprocessed

theorem Ledger.onReplace (w : Ledger) (hloose : w.loose = []) (hkind : c.kind = .replace) (howned : Owned w c i) :
    Handled now (w.e.pool.slots i).symbol c w
      (Engine.onReplace now w.e.pool (w.e.books (w.e.pool.slots i).symbol) c i) := by
  have hmem := howned.mem hloose
  have hqueued := w.rep.queued _ _ _ i hmem
  rw [Engine.onReplace]
  by_cases hqty : c.qty = 0
  · rw [if_pos hqty]
    exact w.refused (.replaceQty hkind howned hqty)
  by_cases hprice : ¬ (w.e.books (w.e.pool.slots i).symbol).validPrice c.price = true
  · rw [if_neg hqty, if_pos hprice]
    exact w.refused (.replacePrice hkind howned hqty (mt (w.validPrice_iff _ _).mpr hprice))
  rw [if_neg hqty, if_neg hprice]
  have hreplaces : Replaces w c i := ⟨hkind, howned, hqty, (w.validPrice_iff _ _).mp (not_not.mp hprice)⟩
  by_cases hkeeps : c.price = (w.e.pool.slots i).price ∧ c.qty ≤ (w.e.pool.slots i).qty
  · rw [if_pos hkeeps]
    obtain ⟨w', hreduced, hw'⟩ := w.reduced (w.at_self _) now hloose hmem hqty hkeeps.2
    refine ⟨w', ?_, hw'⟩
    have hprocessed : Processed now c w w' _ := .reduced hreplaces hkeeps.1 hkeeps.2 hreduced
    rw [hw'] at hprocessed
    exact hprocessed
  · rw [if_neg hkeeps]
    obtain ⟨w₁, htaken, hw₁⟩ := w.taken (w.at_self _) now hloose hmem
    obtain ⟨w₂, hrepriced, hw₂⟩ := w₁.repriced (at_of_eq hw₁) now htaken.loose' c.price c.qty
    have hsymbol : ((Book.remove w.e.pool (w.e.books (w.e.pool.slots i).symbol) i).1.slots i).symbol
        = (w.e.pool.slots i).symbol := by
      have hread := (htaken.slots i).read Order.symbol fun _ _ => rfl
      rwa [hw₁] at hread
    obtain ⟨w', log, hmatched, hw', hlog⟩ := w₂.matched hw₂ hrepriced.loose' hqueued.symbol_lt
      (by rw [OrderPool.modify_slots, if_pos rfl]; exact hsymbol)
      (fun _ => by rw [OrderPool.modify_slots, if_pos rfl]; exact hreplaces.price)
      [⟨Engine.base now .replaced (((Book.remove w.e.pool (w.e.books (w.e.pool.slots i).symbol) i).1.modify i
          fun o => { o with price := c.price, qty := c.qty }).slots i),
        (Book.remove w.e.pool (w.e.books (w.e.pool.slots i).symbol) i).1.modify i
          fun o => { o with price := c.price, qty := c.qty }⟩]
    refine ⟨w', ?_, hw'⟩
    have hprocessed := Processed.replaced hreplaces hkeeps htaken hrepriced hmatched
    rw [hw₂] at hprocessed
    exact hlog ▸ hprocessed

end Handlers

/-- The report of the top of the book, the only event without an owner but the trades. -/
def IsTop (t : Emission) : Prop := t.event.kind = .top ∧ t.event.session = 0

theorem Processed.loose {now : Nat} {c : Command} {w w' : Ledger} {log : List Emission} (h : Processed now c w w' log)
    (hloose : w.loose = []) : w'.loose = [] := by
  have hmatched : ∀ {i w₁ log}, Matched now i w₁ w' log → w'.loose = [] := by
    rintro i w₁ log ⟨_, _, hended⟩
    cases hended with
    | done _ hfreed => exact hfreed.loose'
    | killed _ _ hfreed => exact hfreed.loose'
    | rested _ _ _ hrested => exact hrested.loose'
  cases h with
  | refused _ hidle => exact hidle.loose'.trans hloose
  | accepted _ _ hm => exact hmatched hm
  | cancelled _ _ _ hfreed => exact hfreed.loose'
  | reduced _ _ _ hreduced => exact hreduced.loose'
  | replaced _ _ _ _ hm => exact hmatched hm

theorem Engine.process_found (e : Engine) (now : Nat) {c : Command} (hkind : c.kind ≠ .new) :
    e.process now c =
      match e.pool.find c.orderId with
      | none => ({ e with nowNs := now }, [⟨Engine.reject now c .unknownOrder, e.pool⟩])
      | some slot =>
          if (e.pool.slots slot).session ≠ c.session then
            ({ e with nowNs := now }, [⟨Engine.reject now c .notOwner, e.pool⟩])
          else e.finish now (e.pool.slots slot).symbol <|
            if c.kind = .cancel then Engine.onCancel now e.pool (e.books (e.pool.slots slot).symbol) slot
            else Engine.onReplace now e.pool (e.books (e.pool.slots slot).symbol) c slot := by
  obtain ⟨kind, side, type, tif, symbol, session, tag, orderId, price, qty⟩ := c
  cases kind with
  | new => exact absurd rfl hkind
  | cancel => rfl
  | replace => rfl

theorem Engine.process_cfg (e : Engine) (now : Nat) (c : Command) : (e.process now c).1.cfg = e.cfg := by
  by_cases hkind : c.kind = .new
  · simp only [Engine.process, hkind]
    split <;> rfl
  · rw [Engine.process_found e now hkind]
    split
    · rfl
    · split <;> rfl

/-- The symbol whose book a command works on. -/
def Engine.subject (e : Engine) (c : Command) : Option Nat :=
  match c.kind with
  | .new => if e.cfg.symbols ≤ c.symbol then none else some c.symbol
  | .cancel | .replace => (e.pool.find c.orderId).map fun slot => (e.pool.slots slot).symbol

theorem Engine.subject_of_ne_new (e : Engine) {c : Command} (hkind : c.kind ≠ .new) :
    e.subject c = (e.pool.find c.orderId).map fun slot => (e.pool.slots slot).symbol := by
  rw [Engine.subject]
  cases hc : c.kind with
  | new => exact absurd hc hkind
  | cancel => rfl
  | replace => rfl

/-- The report that the top of book `k` moved. -/
def Engine.report (e e' : Engine) (now k : Nat) : List Emission :=
  if (e'.books k).top ≠ (e.books k).top then
    [⟨{ kind := .top, symbol := k, top := (e'.books k).top, tsNs := now }, e'.pool⟩]
  else []

/-- Behind the events of the order, `process` reports the top of the book it worked on, and leaves the other books alone. -/
structure Reported (now : Nat) (c : Command) (e e' : Engine) (tops : List Emission) : Prop where
  tops : tops = (e.subject c).elim [] (e.report e' now)
  other : ∀ k, e.subject c ≠ some k → e'.books k = e.books k

theorem Engine.mem_report {e e' : Engine} {now k : Nat} {t : Emission} (ht : t ∈ e.report e' now k) :
    t = ⟨{ kind := .top, symbol := k, top := (e'.books k).top, tsNs := now }, e'.pool⟩ := by
  rw [report] at ht
  split at ht
  · exact List.mem_singleton.mp ht
  · cases ht

/-- A report is the top of the book that the command worked on, as the command leaves it. -/
theorem Reported.eq_of_mem {now : Nat} {c : Command} {e e' : Engine} {tops : List Emission} (h : Reported now c e e' tops)
    {t : Emission} (ht : t ∈ tops) : ∃ k, e.subject c = some k ∧
      t = ⟨{ kind := .top, symbol := k, top := (e'.books k).top, tsNs := now }, e'.pool⟩ := by
  rw [h.tops] at ht
  cases hsubject : e.subject c with
  | none =>
    rw [hsubject] at ht
    cases ht
  | some k =>
    rw [hsubject] at ht
    exact ⟨k, rfl, Engine.mem_report ht⟩

theorem Reported.isTop {now : Nat} {c : Command} {e e' : Engine} {tops : List Emission} (h : Reported now c e e' tops) :
    ∀ t ∈ tops, IsTop t := by
  intro t ht
  obtain ⟨k, -, rfl⟩ := h.eq_of_mem ht
  exact ⟨rfl, rfl⟩

theorem Reported.idle {now : Nat} {c : Command} {e e' : Engine} (hbooks : e'.books = e.books) :
    Reported now c e e' [] := by
  refine ⟨?_, fun k _ => by rw [hbooks]⟩
  cases e.subject c with
  | none => rfl
  | some k =>
    change [] = e.report e' now k
    rw [Engine.report, hbooks, if_neg (not_not.mpr rfl)]

theorem Handled.reported {now k : Nat} {c : Command} {w : Ledger} {out : Outcome} (h : Handled now k c w out)
    (hsubject : w.e.subject c = some k) :
    ∃ w' log tops, Processed now c w w' log ∧ w'.e = (w.e.finish now k out).1 ∧
      (w.e.finish now k out).2 = log ++ tops ∧ Reported now c w.e w'.e tops := by
  obtain ⟨w', hprocessed, hw'⟩ := h
  refine ⟨w', out.log, w.e.report w'.e now k, hprocessed, hw', ?_, ?_, fun k' hk' => ?_⟩
  · rw [Engine.finish, Engine.report, hw', Engine.store_books_self]
    dsimp only
    split
    · rfl
    · exact (List.append_nil _).symm
  · rw [hsubject]
    rfl
  · have hne : k' ≠ k := fun heq => hk' (heq ▸ hsubject)
    rw [hw']
    exact Function.update_of_ne hne _ _

theorem Refused.reported {c : Command} {w : Ledger} {r : RejectReason} (h : Refused w c r) (now : Nat) :
    ∃ w' log tops, Processed now c w w' log ∧ w'.e = { w.e with nowNs := now } ∧
      [⟨Engine.reject now c r, w.e.pool⟩] = log ++ tops ∧ Reported now c w.e w'.e tops := by
  obtain ⟨w', hidle, hw'⟩ := w.idle { w.e with nowNs := now } rfl rfl rfl
  exact ⟨w', _, [], .refused h hidle, hw', (List.append_nil _).symm, .idle hidle.books'⟩

theorem Ledger.process_new (w : Ledger) (hloose : w.loose = []) (now : Nat) {c : Command} (hkind : c.kind = .new) :
    ∃ w' log tops, Processed now c w w' log ∧ w'.e = (w.e.process now c).1 ∧
      (w.e.process now c).2 = log ++ tops ∧ Reported now c w.e w'.e tops := by
  have hprocess : w.e.process now c =
      if w.e.cfg.symbols ≤ c.symbol then
        ({ w.e with nowNs := now }, [⟨Engine.reject now c .badSymbol, w.e.pool⟩])
      else w.e.finish now c.symbol (Engine.onNew now w.e.pool (w.e.books c.symbol) c) := by
    simp only [Engine.process, hkind]
  rw [hprocess]
  by_cases hsymbol : w.e.cfg.symbols ≤ c.symbol
  · rw [if_pos hsymbol]
    exact Refused.reported (.badSymbol hkind hsymbol) now
  · have hsubject : w.e.subject c = some c.symbol := by
      simp only [Engine.subject, hkind, if_neg hsymbol]
    rw [if_neg hsymbol]
    exact Handled.reported (w.onNew hloose hkind (not_le.mp hsymbol)) hsubject

theorem Ledger.process_old (w : Ledger) (hloose : w.loose = []) (now : Nat) {c : Command} (hkind : c.kind ≠ .new) :
    ∃ w' log tops, Processed now c w w' log ∧ w'.e = (w.e.process now c).1 ∧
      (w.e.process now c).2 = log ++ tops ∧ Reported now c w.e w'.e tops := by
  have hsubject := w.e.subject_of_ne_new hkind
  rw [Engine.process_found w.e now hkind]
  cases hfind : w.e.pool.find c.orderId with
  | none =>
    refine Refused.reported (.unknownOrder hkind fun i hlt hlive hid => ?_) now
    rw [(w.rep.find_eq_some_iff c.orderId).mpr ⟨hlt, hlive, hid⟩] at hfind
    exact absurd hfind (by simp)
  | some i =>
    rw [hfind] at hsubject
    obtain ⟨hlt, hlive, hid⟩ := (w.rep.find_eq_some_iff c.orderId).mp hfind
    dsimp only
    by_cases hsession : (w.e.pool.slots i).session ≠ c.session
    · rw [if_pos hsession]
      exact Refused.reported (.notOwner hkind hlt hlive hid hsession) now
    · rw [if_neg hsession]
      have howned : Owned w c i := ⟨hlt, hlive, hid, not_not.mp hsession⟩
      by_cases hcancel : c.kind = .cancel
      · rw [if_pos hcancel]
        exact Handled.reported (w.onCancel hloose hcancel howned) hsubject
      · rw [if_neg hcancel]
        have hreplace : c.kind = .replace := by
          cases hc : c.kind with
          | new => exact absurd hc hkind
          | cancel => exact absurd hc hcancel
          | replace => rfl
        exact Handled.reported (w.onReplace hloose hreplace howned) hsubject

/-- What `process` does between two commands, the report of the top included. -/
theorem Ledger.process_reported (w : Ledger) (hloose : w.loose = []) (now : Nat) (c : Command) :
    ∃ w' log tops, Processed now c w w' log ∧ w'.e = (w.e.process now c).1 ∧
      (w.e.process now c).2 = log ++ tops ∧ Reported now c w.e w'.e tops := by
  by_cases hkind : c.kind = .new
  · exact w.process_new hloose now hkind
  · exact w.process_old hloose now hkind

theorem Ledger.process (w : Ledger) (hloose : w.loose = []) (now : Nat) (c : Command) :
    ∃ w' log tops, Processed now c w w' log ∧ w'.e = (w.e.process now c).1 ∧
      (w.e.process now c).2 = log ++ tops ∧ ∀ t ∈ tops, IsTop t := by
  obtain ⟨w', log, tops, hprocessed, hw', hlog, hreported⟩ := w.process_reported hloose now c
  exact ⟨w', log, tops, hprocessed, hw', hlog, hreported.isTop⟩

/-! ### Runs -/

/-- The fresh engine: every slot free. -/
def Ledger.init (cfg : Engine.Config) : Ledger where
  e := Engine.init cfg
  q := fun _ _ _ => []
  free := List.range' 0 cfg.maxOrders
  loose := []
  rep := rep_init cfg
  pos := by simp

/-- What every command preserves holds after every run. -/
theorem Ledger.run_inv {P : Ledger → Prop}
    (hstep : ∀ {now c w w' log}, w.loose = [] → P w → Processed now c w w' log → P w')
    (cmds : List (Nat × Command)) (w : Ledger) (hloose : w.loose = []) (hP : P w) :
    ∃ w', w'.e = w.e.run cmds ∧ w'.loose = [] ∧ P w' := by
  induction cmds generalizing w with
  | nil => exact ⟨w, rfl, hloose, hP⟩
  | cons cmd cmds ih =>
    obtain ⟨now, c⟩ := cmd
    obtain ⟨w₁, log, tops, hprocessed, hw₁, _, _⟩ := w.process hloose now c
    obtain ⟨w', hw', hloose', hP'⟩ := ih w₁ (hprocessed.loose hloose) (hstep hloose hP hprocessed)
    rw [hw₁] at hw'
    exact ⟨w', hw', hloose', hP'⟩

/-- Behind an engine that has run from its start there is a ledger without a loose order. -/
theorem Engine.run_ledger (cfg : Engine.Config) (cmds : List (Nat × Command)) :
    ∃ w : Ledger, w.e = (Engine.init cfg).run cmds ∧ w.loose = [] := by
  obtain ⟨w, hw, hloose, -⟩ := Ledger.run_inv (P := fun _ => True) (fun _ _ _ => trivial) cmds (Ledger.init cfg) rfl trivial
  exact ⟨w, hw, hloose⟩

end Matchbox
