import Matchbox.Lib.LinkedList
import Matchbox.Rep.Index

/-!
# What a book represents

`Represents` says which queues a book's links, counters and index spell out, and this module shows what resting a slot and taking one out do to them. The rest of the development reaches the links, the bitmap and the cached prices only through these facts.
-/

namespace Matchbox

open LinkedList

/-! ### The levels: links and counters -/

/-- The links and counters of `levels` spell out the queues `q`, which share no slot. -/
structure Links (slots : Nat → Order) (levels : Side → Int → Level) (q : Queues) : Prop where
  linked : ∀ s p, Seg (fun i => (slots i).next) (fun i => (slots i).prev) kNull
    (levels s p).head (q s p) (levels s p).tail kNull
  nodup : ∀ s p, (q s p).Nodup
  null : ∀ s p, kNull ∉ q s p
  disjoint : ∀ s p s' p' i, i ∈ q s p → i ∈ q s' p' → s' = s ∧ p' = p
  count : ∀ s p, (levels s p).count = (q s p).length
  qty : ∀ s p, (levels s p).qty = ((q s p).map fun i => (slots i).qty).sum % word32

theorem Book.levels_setLevel (b : Book) (s : Side) (p : Int) (lvl : Level) :
    (b.setLevel s p lvl).levels = fun s' p' => if s' = s ∧ p' = p then lvl else b.levels s' p' := by
  funext s' p'
  unfold Book.setLevel
  by_cases hs : s' = s
  · subst hs
    by_cases hp : p' = p
    · subst hp
      simp
    · simp [hp]
  · simp [hs]

namespace Links

variable {slots slots' : Nat → Order} {levels : Side → Int → Level} {q : Queues} {s : Side} {p : Int}

theorem congr (h : Links slots levels q)
    (hsame : ∀ s p, ∀ i ∈ q s p, (slots' i).next = (slots i).next ∧ (slots' i).prev = (slots i).prev ∧
      (slots' i).qty = (slots i).qty) : Links slots' levels q where
  linked := fun s p => (h.linked s p).congr (fun i hi => (hsame s p i hi).1) (fun i hi => (hsame s p i hi).2.1)
  nodup := h.nodup
  null := h.null
  disjoint := h.disjoint
  count := h.count
  qty := fun s p => by
    rw [h.qty s p, List.map_congr_left fun i hi => (hsame s p i hi).2.2.symm]

theorem head_eq_kNull_iff (h : Links slots levels q) : (levels s p).head = kNull ↔ q s p = [] :=
  (h.linked s p).first_eq_end_iff (h.null s p)

theorem tail_eq_kNull_iff (h : Links slots levels q) : (levels s p).tail = kNull ↔ q s p = [] :=
  (h.linked s p).last_eq_begin_iff (h.null s p)

theorem update (h : Links slots levels q) (xs : List Nat) (lvl : Level)
    (hother : ∀ s' p', ¬ (s' = s ∧ p' = p) → ∀ i ∈ q s' p', slots' i = slots i)
    (hfresh : ∀ i ∈ xs, ∀ s' p', i ∈ q s' p' → s' = s ∧ p' = p)
    (hseg : Seg (fun i => (slots' i).next) (fun i => (slots' i).prev) kNull lvl.head xs lvl.tail kNull)
    (hnodup : xs.Nodup) (hnull : kNull ∉ xs) (hcount : lvl.count = xs.length)
    (hqty : lvl.qty = (xs.map fun i => (slots' i).qty).sum % word32) :
    Links slots' (fun s' p' => if s' = s ∧ p' = p then lvl else levels s' p') (q.set s p xs) := by
  have hcases : ∀ (P : Side → Int → Prop), P s p → (∀ s' p', ¬ (s' = s ∧ p' = p) → P s' p') → ∀ s' p', P s' p' := by
    intro P hsame hdiff s' p'
    by_cases heq : s' = s ∧ p' = p
    · rw [heq.1, heq.2]
      exact hsame
    · exact hdiff s' p' heq
  constructor
  case linked =>
    refine hcases _ (by simpa using hseg) fun s' p' heq => ?_
    simp only [if_neg heq, Queues.set_of_ne _ heq]
    exact (h.linked s' p').congr (fun i hi => by rw [hother s' p' heq i hi]) (fun i hi => by rw [hother s' p' heq i hi])
  case nodup =>
    refine hcases _ (by simpa using hnodup) fun s' p' heq => ?_
    rw [Queues.set_of_ne _ heq]
    exact h.nodup s' p'
  case null =>
    refine hcases _ (by simpa using hnull) fun s' p' heq => ?_
    rw [Queues.set_of_ne _ heq]
    exact h.null s' p'
  case disjoint =>
    intro s₁ p₁ s₂ p₂ i h₁ h₂
    by_cases heq₁ : s₁ = s ∧ p₁ = p <;> by_cases heq₂ : s₂ = s ∧ p₂ = p
    · exact ⟨heq₂.1.trans heq₁.1.symm, heq₂.2.trans heq₁.2.symm⟩
    · rw [heq₁.1, heq₁.2, Queues.set_same] at h₁
      rw [Queues.set_of_ne _ heq₂] at h₂
      exact absurd (hfresh i h₁ s₂ p₂ h₂) heq₂
    · rw [heq₂.1, heq₂.2, Queues.set_same] at h₂
      rw [Queues.set_of_ne _ heq₁] at h₁
      exact absurd (hfresh i h₂ s₁ p₁ h₁) heq₁
    · rw [Queues.set_of_ne _ heq₁] at h₁
      rw [Queues.set_of_ne _ heq₂] at h₂
      exact h.disjoint s₁ p₁ s₂ p₂ i h₁ h₂
  case count =>
    refine hcases _ (by simpa using hcount) fun s' p' heq => ?_
    simp only [if_neg heq, Queues.set_of_ne _ heq]
    exact h.count s' p'
  case qty =>
    refine hcases _ (by simpa using hqty) fun s' p' heq => ?_
    simp only [if_neg heq, Queues.set_of_ne _ heq]
    rw [h.qty s' p', List.map_congr_left fun i hi => congrArg Order.qty (hother s' p' heq i hi).symm]

end Links

theorem Book.sub32_mod {total x : Nat} (hx : x ≤ total) :
    Book.sub32 (total % word32) x = (total - x) % word32 := by
  unfold Book.sub32
  simp only [word32]
  omega

/-! ### The representation -/

/-- The book `b` stands for the queues `q`. -/
structure Represents (slots : Nat → Order) (b : Book) (q : Queues) : Prop extends
    Links slots b.levels q, Indexes b q where
  resting : b.resting = q.size b.maxPrice

theorem represents_init (maxPrice : Int) (slots : Nat → Order) :
    Represents slots (Book.init maxPrice) (fun _ _ => []) where
  linked := fun s p => ⟨rfl, rfl⟩
  nodup := fun _ _ => List.nodup_nil
  null := fun _ _ => List.not_mem_nil
  disjoint := fun s p s' p' i hi => absurd hi List.not_mem_nil
  count := fun _ _ => rfl
  qty := fun _ _ => rfl
  length_bits := fun s => by simp [Book.init]
  bit := fun s n => by simp [Book.init, Bitmap.test_replicate_zero]
  price := fun s p h => absurd rfl h
  best := fun s => Or.inl ⟨rfl, fun p' h => h rfl⟩
  resting := by simp [Queues.size, Queues.sideSize, Book.init]

@[simp] theorem Book.levelOpened_levels (b : Book) (s : Side) (p : Int) : (b.levelOpened s p).levels = b.levels := by
  unfold Book.levelOpened
  dsimp only
  split <;> rfl

@[simp] theorem Book.levelOpened_maxPrice (b : Book) (s : Side) (p : Int) :
    (b.levelOpened s p).maxPrice = b.maxPrice := by
  unfold Book.levelOpened
  dsimp only
  split <;> rfl

@[simp] theorem Book.levelOpened_resting (b : Book) (s : Side) (p : Int) :
    (b.levelOpened s p).resting = b.resting := by
  unfold Book.levelOpened
  dsimp only
  split <;> rfl

@[simp] theorem Book.levelEmptied_levels (b : Book) (s : Side) (p : Int) :
    (b.levelEmptied s p).levels = b.levels := by
  unfold Book.levelEmptied
  dsimp only
  split <;> rfl

@[simp] theorem Book.levelEmptied_maxPrice (b : Book) (s : Side) (p : Int) :
    (b.levelEmptied s p).maxPrice = b.maxPrice := by
  unfold Book.levelEmptied
  dsimp only
  split <;> rfl

@[simp] theorem Book.levelEmptied_resting (b : Book) (s : Side) (p : Int) :
    (b.levelEmptied s p).resting = b.resting := by
  unfold Book.levelEmptied
  dsimp only
  split <;> rfl

/-! ### Relinking

`insert` and `unlink` change nothing of an order but its two links. -/

/-- An order with other links. -/
def Order.link (o : Order) (prev next : Nat) : Order := { o with prev := prev, next := next }

theorem Order.link_self (o : Order) : o.link o.prev o.next = o := rfl

/-- `o'` is `o` up to the links. -/
def Relinked (o o' : Order) : Prop := o' = o.link o'.prev o'.next

theorem Relinked.read {α : Type} {o o' : Order} (h : Relinked o o') (f : Order → α)
    (hf : ∀ prev next, f (o.link prev next) = f o) : f o' = f o := by
  rw [h]
  exact hf _ _

theorem Relinked.qty {o o' : Order} (h : Relinked o o') : o'.qty = o.qty := h.read Order.qty fun _ _ => rfl

section Operations

variable {pool : OrderPool} {b : Book} {q : Queues} {s : Side} {p : Int} {i : Nat}

/-- What `insert` does to the pool: the slot and the old tail get their links. -/
theorem Book.insert_slots (hside : (pool.slots i).side = s) (hprice : (pool.slots i).price = p)
    (htail : (b.levels s p).tail ≠ i) (j : Nat) :
    (Book.insert pool b i).1.slots j =
      if j = i then (pool.slots i).link (b.levels s p).tail kNull
      else if j = (b.levels s p).tail ∧ (b.levels s p).tail ≠ kNull then
        (pool.slots j).link (pool.slots j).prev i
      else pool.slots j := by
  subst hside hprice
  simp only [Book.insert]
  by_cases hnull : (b.levels (pool.slots i).side (pool.slots i).price).tail = kNull
  · by_cases hj : j = i
    · subst hj
      simp [OrderPool.modify, hnull, Order.link]
    · simp [OrderPool.modify, hnull, hj]
  · by_cases hj : j = i
    · subst hj
      simp [OrderPool.modify, hnull, Function.update_of_ne htail.symm, Order.link]
    · by_cases hjt : j = (b.levels (pool.slots i).side (pool.slots i).price).tail
      · subst hjt
        simp [OrderPool.modify, hnull, hj, Order.link]
      · simp [OrderPool.modify, hnull, hj, hjt]

theorem Book.insert_pool : (Book.insert pool b i).1 = { pool with slots := (Book.insert pool b i).1.slots } := by
  simp only [Book.insert]
  split <;> rfl

theorem Book.insert_levels (hside : (pool.slots i).side = s) (hprice : (pool.slots i).price = p) :
    (Book.insert pool b i).2.levels = fun s' p' =>
      if s' = s ∧ p' = p then
        { head := if (b.levels s p).tail ≠ kNull then (b.levels s p).head else i
          tail := i
          qty := ((b.levels s p).qty + (pool.slots i).qty) % word32
          count := (b.levels s p).count + 1 }
      else b.levels s' p' := by
  subst hside hprice
  rw [← Book.levels_setLevel]
  simp only [Book.insert]
  split <;> simp

@[simp] theorem Book.insert_maxPrice : (Book.insert pool b i).2.maxPrice = b.maxPrice := by
  simp only [Book.insert]
  split <;> simp [Book.setLevel]

@[simp] theorem Book.insert_resting : (Book.insert pool b i).2.resting = b.resting + 1 := by
  simp only [Book.insert]
  split <;> simp

namespace Represents

theorem tail_mem (h : Represents pool.slots b q) (hne : (b.levels s p).tail ≠ kNull) :
    (b.levels s p).tail ∈ q s p :=
  (h.linked s p).last_mem fun hnil => hne (h.tail_eq_kNull_iff.mpr hnil)

theorem tail_ne (h : Represents pool.slots b q) (hfresh : ∀ s p, i ∉ q s p) (hnull : i ≠ kNull) :
    (b.levels s p).tail ≠ i := by
  intro heq
  exact hfresh s p (heq ▸ h.tail_mem (heq ▸ hnull))

theorem insert_self (h : Represents pool.slots b q) (hfresh : ∀ s p, i ∉ q s p) (hnull : i ≠ kNull)
    (hside : (pool.slots i).side = s) (hprice : (pool.slots i).price = p) :
    (Book.insert pool b i).1.slots i = (pool.slots i).link (b.levels s p).tail kNull := by
  rw [Book.insert_slots hside hprice (h.tail_ne hfresh hnull), if_pos rfl]

theorem insert_out (h : Represents pool.slots b q) (hfresh : ∀ s p, i ∉ q s p) (hnull : i ≠ kNull)
    (hside : (pool.slots i).side = s) (hprice : (pool.slots i).price = p) {j : Nat} (hj : j ∉ q s p) (hji : j ≠ i) :
    (Book.insert pool b i).1.slots j = pool.slots j := by
  rw [Book.insert_slots hside hprice (h.tail_ne hfresh hnull), if_neg hji,
    if_neg fun ⟨hjt, htail⟩ => hj (hjt ▸ h.tail_mem htail)]

theorem insert_in (h : Represents pool.slots b q) (hfresh : ∀ s p, i ∉ q s p) (hnull : i ≠ kNull)
    (hside : (pool.slots i).side = s) (hprice : (pool.slots i).price = p) {j : Nat} (hj : j ∈ q s p) :
    (Book.insert pool b i).1.slots j = (pool.slots j).link (pool.slots j).prev
      (if j = (b.levels s p).tail then i else (pool.slots j).next) := by
  have hji : j ≠ i := fun heq => hfresh s p (heq ▸ hj)
  have htail : (b.levels s p).tail ≠ kNull := fun heq => List.ne_nil_of_mem hj (h.tail_eq_kNull_iff.mp heq)
  rw [Book.insert_slots hside hprice (h.tail_ne hfresh hnull), if_neg hji]
  by_cases hjt : j = (b.levels s p).tail
  · rw [if_pos ⟨hjt, htail⟩, if_pos hjt]
  · rw [if_neg fun heq => hjt heq.1, if_neg hjt, Order.link_self]

theorem insert_relinked (h : Represents pool.slots b q) (hfresh : ∀ s p, i ∉ q s p) (hnull : i ≠ kNull) (j : Nat) :
    Relinked (pool.slots j) ((Book.insert pool b i).1.slots j) := by
  rw [Book.insert_slots rfl rfl (h.tail_ne hfresh hnull)]
  split
  · rename_i hji
    rw [hji]
    rfl
  · split <;> rfl

theorem insert_links (h : Represents pool.slots b q) (hfresh : ∀ s p, i ∉ q s p) (hnull : i ≠ kNull)
    (hside : (pool.slots i).side = s) (hprice : (pool.slots i).price = p) :
    Links (Book.insert pool b i).1.slots (Book.insert pool b i).2.levels (q.set s p (q s p ++ [i])) := by
  have hnew := h.insert_self hfresh hnull hside hprice
  have hne : ∀ j ∈ q s p, j ≠ i := fun j hj heq => hfresh s p (heq ▸ hj)
  have hold : ∀ j ∈ q s p, (Book.insert pool b i).1.slots j = (pool.slots j).link (pool.slots j).prev
      (if j = (b.levels s p).tail then i else (pool.slots j).next) :=
    fun j hj => h.insert_in hfresh hnull hside hprice hj
  rw [Book.insert_levels hside hprice]
  refine h.toLinks.update _ _ (fun s' p' heq j hj => ?_) (fun j hj s' p' hj' => ?_) ?_ ?_ ?_ ?_ ?_
  · refine h.insert_out hfresh hnull hside hprice (fun hj' => heq ?_) (fun hji => hfresh s' p' (hji ▸ hj))
    exact h.disjoint s p s' p' j hj' hj
  · rcases List.mem_append.mp hj with hj | hj
    · exact h.disjoint s p s' p' j hj hj'
    · rw [List.mem_singleton.mp hj] at hj'
      exact absurd hj' (hfresh s' p')
  · have hhead : (if (b.levels s p).tail ≠ kNull then (b.levels s p).head else i)
        = if q s p = [] then i else (b.levels s p).head := by
      by_cases hnil : q s p = []
      · rw [if_neg (by simpa using h.tail_eq_kNull_iff.mpr hnil), if_pos hnil]
      · rw [if_pos fun hnull => hnil (h.tail_eq_kNull_iff.mp hnull), if_neg hnil]
    rw [hhead]
    refine (h.linked s p).push (h.nodup s p) (fun hnil => ?_) (fun j hj hjt => ?_) (fun j hj => ?_) ?_ ?_
    · rw [hold _ ((h.linked s p).last_mem hnil), if_pos rfl]
      rfl
    · rw [hold j hj, if_neg hjt]
      rfl
    · rw [hold j hj]
      rfl
    · rw [hnew]
      rfl
    · rw [hnew]
      rfl
  · exact List.nodup_append.mpr ⟨h.nodup s p, by simp, fun j hj k hk => (List.mem_singleton.mp hk).symm ▸ hne j hj⟩
  · simpa using ⟨h.null s p, hnull.symm⟩
  · simp [h.count s p]
  · have hqty : ∀ j ∈ q s p, ((Book.insert pool b i).1.slots j).qty = (pool.slots j).qty :=
      fun j _ => (h.insert_relinked hfresh hnull j).qty
    simp only [List.map_append, List.map_cons, List.map_nil, List.sum_append, List.sum_cons, List.sum_nil,
      Nat.add_zero, hnew]
    rw [List.map_congr_left hqty, h.qty s p, Nat.mod_add_mod]
    rfl

theorem insert_indexes (h : Represents pool.slots b q) (hside : (pool.slots i).side = s)
    (hprice : (pool.slots i).price = p) (hpos : 1 ≤ p) (hmax : p ≤ b.maxPrice) :
    Indexes (Book.insert pool b i).2 (q.set s p (q s p ++ [i])) := by
  have hcount : (b.levels s p).count + 1 = 1 ↔ q s p = [] := by
    rw [h.count s p]
    simp
  subst hside hprice
  simp only [Book.insert]
  split
  · rename_i hfirst
    refine Indexes.levelOpened ?_ (hcount.mp hfirst) hpos ?_ _ ?_
    · exact h.toIndexes.congr (fun _ _ => Iff.rfl) rfl rfl rfl
    · exact hmax
    · simp
  · rename_i hfirst
    refine h.toIndexes.congr (fun s' p' => ?_) rfl rfl rfl
    by_cases heq : s' = (pool.slots i).side ∧ p' = (pool.slots i).price
    · rw [heq.1, heq.2, Queues.set_same]
      simpa using fun hnil => hfirst (hcount.mpr hnil)
    · rw [Queues.set_of_ne _ heq]

/-- Resting a slot appends it to the queue of its side and price. -/
theorem insert (h : Represents pool.slots b q) (hfresh : ∀ s p, i ∉ q s p) (hnull : i ≠ kNull)
    (hside : (pool.slots i).side = s) (hprice : (pool.slots i).price = p) (hpos : 1 ≤ p) (hmax : p ≤ b.maxPrice) :
    Represents (Book.insert pool b i).1.slots (Book.insert pool b i).2 (q.set s p (q s p ++ [i])) where
  toLinks := h.insert_links hfresh hnull hside hprice
  toIndexes := h.insert_indexes hside hprice hpos hmax
  resting := by
    have hsize := q.size_set s (q s p ++ [i]) hpos hmax
    rw [Book.insert_resting, Book.insert_maxPrice, h.resting]
    simp only [List.length_append, List.length_singleton] at hsize
    omega

end Represents

/-! ### Unlinking -/

/-- What `unlink` does to the pool: the neighbours of the slot are linked to each other. -/
theorem Book.unlink_slots (hprev : (pool.slots i).prev ≠ i) (hnext : (pool.slots i).next ≠ i) (j : Nat) :
    (Book.unlink pool b s p i).1.slots j =
      if j = i then (pool.slots i).link kNull kNull
      else (pool.slots j).link
        (if j = (pool.slots i).next ∧ (pool.slots i).next ≠ kNull then (pool.slots i).prev else (pool.slots j).prev)
        (if j = (pool.slots i).prev ∧ (pool.slots i).prev ≠ kNull then (pool.slots i).next
          else (pool.slots j).next) := by
  simp only [Book.unlink]
  by_cases hj : j = i
  · subst hj
    by_cases hp : (pool.slots j).prev = kNull <;> by_cases hn : (pool.slots j).next = kNull <;>
      simp [OrderPool.modify, hp, hn, Order.link, Function.update_of_ne hprev.symm, Function.update_of_ne hnext.symm]
  · by_cases hp : (pool.slots i).prev = kNull <;> by_cases hn : (pool.slots i).next = kNull <;>
      by_cases hjp : j = (pool.slots i).prev <;> by_cases hjn : j = (pool.slots i).next <;>
      simp_all [OrderPool.modify, Order.link]

theorem Book.unlink_pool : (Book.unlink pool b s p i).1 = { pool with slots := (Book.unlink pool b s p i).1.slots } := by
  simp only [Book.unlink]
  split <;> split <;> rfl

theorem Book.unlink_levels : (Book.unlink pool b s p i).2.levels = fun s' p' =>
    if s' = s ∧ p' = p then
      { head := if (pool.slots i).prev ≠ kNull then (b.levels s p).head else (pool.slots i).next
        tail := if (pool.slots i).next ≠ kNull then (b.levels s p).tail else (pool.slots i).prev
        qty := Book.sub32 (b.levels s p).qty (pool.slots i).qty
        count := (b.levels s p).count - 1 }
    else b.levels s' p' := by
  rw [← Book.levels_setLevel]
  simp only [Book.unlink]
  split <;> simp

@[simp] theorem Book.unlink_maxPrice : (Book.unlink pool b s p i).2.maxPrice = b.maxPrice := by
  simp only [Book.unlink]
  split <;> simp [Book.setLevel]

@[simp] theorem Book.unlink_resting : (Book.unlink pool b s p i).2.resting = b.resting - 1 := by
  simp only [Book.unlink]
  split <;> simp

namespace Represents

variable {xs ys : List Nat}

theorem prev_eq (h : Represents pool.slots b q) (hq : q s p = xs ++ i :: ys) :
    (pool.slots i).prev = xs.getLastD kNull := by
  have hseg := h.linked s p
  rw [hq] at hseg
  exact hseg.prev_eq

theorem next_eq (h : Represents pool.slots b q) (hq : q s p = xs ++ i :: ys) :
    (pool.slots i).next = ys.headD kNull := by
  have hseg := h.linked s p
  rw [hq] at hseg
  exact hseg.next_eq

theorem prev_mem (h : Represents pool.slots b q) (hq : q s p = xs ++ i :: ys) :
    (pool.slots i).prev = kNull ∧ xs = [] ∨ (pool.slots i).prev ∈ xs ∧ xs ≠ [] := by
  rw [h.prev_eq hq]
  rcases List.eq_nil_or_concat xs with rfl | ⟨init, last, rfl⟩
  · exact Or.inl ⟨rfl, rfl⟩
  · exact Or.inr ⟨by simp, by simp⟩

theorem next_mem (h : Represents pool.slots b q) (hq : q s p = xs ++ i :: ys) :
    (pool.slots i).next = kNull ∧ ys = [] ∨ (pool.slots i).next ∈ ys ∧ ys ≠ [] := by
  rw [h.next_eq hq]
  cases ys with
  | nil => exact Or.inl ⟨rfl, rfl⟩
  | cons y ys => exact Or.inr ⟨by simp, by simp⟩

theorem prev_eq_kNull_iff (h : Represents pool.slots b q) (hq : q s p = xs ++ i :: ys) :
    (pool.slots i).prev = kNull ↔ xs = [] := by
  have hnull := h.null s p
  rw [hq] at hnull
  rcases h.prev_mem hq with ⟨hprev, hxs⟩ | ⟨hprev, hxs⟩
  · simp [hprev, hxs]
  · refine iff_of_false (fun heq => hnull ?_) hxs
    rw [heq] at hprev
    simp [hprev]

theorem next_eq_kNull_iff (h : Represents pool.slots b q) (hq : q s p = xs ++ i :: ys) :
    (pool.slots i).next = kNull ↔ ys = [] := by
  have hnull := h.null s p
  rw [hq] at hnull
  rcases h.next_mem hq with ⟨hnext, hys⟩ | ⟨hnext, hys⟩
  · simp [hnext, hys]
  · refine iff_of_false (fun heq => hnull ?_) hys
    rw [heq] at hnext
    simp [hnext]

/-- A queued slot is none of its own neighbours. -/
theorem links_ne (h : Represents pool.slots b q) (hq : q s p = xs ++ i :: ys) :
    (pool.slots i).prev ≠ i ∧ (pool.slots i).next ≠ i := by
  have hnodup := h.nodup s p
  have hnull := h.null s p
  rw [hq] at hnodup hnull
  have hinull : kNull ≠ i := fun heq => hnull (by simp [heq])
  constructor
  · rcases h.prev_mem hq with ⟨hprev, _⟩ | ⟨hprev, _⟩
    · rwa [hprev]
    · exact (List.nodup_append.mp hnodup).2.2 _ hprev i (by simp)
  · rcases h.next_mem hq with ⟨hnext, _⟩ | ⟨hnext, _⟩
    · rwa [hnext]
    · exact fun heq => (List.nodup_cons.mp (List.nodup_append.mp hnodup).2.1).1 (heq ▸ hnext)

theorem unlink_out (h : Represents pool.slots b q) (hq : q s p = xs ++ i :: ys) {j : Nat} (hj : j ∉ q s p) :
    (Book.unlink pool b s p i).1.slots j = pool.slots j := by
  rw [hq] at hj
  have hji : j ≠ i := fun heq => hj (by simp [heq])
  have hjp : ¬ (j = (pool.slots i).prev ∧ (pool.slots i).prev ≠ kNull) := by
    rintro ⟨rfl, hne⟩
    rcases h.prev_mem hq with ⟨hprev, _⟩ | ⟨hprev, _⟩
    · exact hne hprev
    · exact hj (by simp [hprev])
  have hjn : ¬ (j = (pool.slots i).next ∧ (pool.slots i).next ≠ kNull) := by
    rintro ⟨rfl, hne⟩
    rcases h.next_mem hq with ⟨hnext, _⟩ | ⟨hnext, _⟩
    · exact hne hnext
    · exact hj (by simp [hnext])
  rw [Book.unlink_slots (h.links_ne hq).1 (h.links_ne hq).2, if_neg hji, if_neg hjp, if_neg hjn, Order.link_self]

theorem unlink_in (h : Represents pool.slots b q) (hq : q s p = xs ++ i :: ys) {j : Nat} (hj : j ∈ q s p)
    (hji : j ≠ i) :
    (Book.unlink pool b s p i).1.slots j = (pool.slots j).link
      (if j = (pool.slots i).next then (pool.slots i).prev else (pool.slots j).prev)
      (if j = (pool.slots i).prev then (pool.slots i).next else (pool.slots j).next) := by
  have hjnull : j ≠ kNull := fun heq => h.null s p (heq ▸ hj)
  have hn : j = (pool.slots i).next ∧ (pool.slots i).next ≠ kNull ↔ j = (pool.slots i).next :=
    ⟨And.left, fun heq => ⟨heq, heq ▸ hjnull⟩⟩
  have hp : j = (pool.slots i).prev ∧ (pool.slots i).prev ≠ kNull ↔ j = (pool.slots i).prev :=
    ⟨And.left, fun heq => ⟨heq, heq ▸ hjnull⟩⟩
  rw [Book.unlink_slots (h.links_ne hq).1 (h.links_ne hq).2, if_neg hji]
  simp only [hn, hp]

theorem unlink_relinked (h : Represents pool.slots b q) (hq : q s p = xs ++ i :: ys) (j : Nat) :
    Relinked (pool.slots j) ((Book.unlink pool b s p i).1.slots j) := by
  rw [Book.unlink_slots (h.links_ne hq).1 (h.links_ne hq).2]
  split
  · rename_i hji
    rw [hji]
    rfl
  · rfl

theorem unlink_links (h : Represents pool.slots b q) (hq : q s p = xs ++ i :: ys) :
    Links (Book.unlink pool b s p i).1.slots (Book.unlink pool b s p i).2.levels (q.set s p (xs ++ ys)) := by
  have hnodup := h.nodup s p
  rw [hq] at hnodup
  have hdisj := (List.nodup_append.mp hnodup).2.2
  have hmem : ∀ j ∈ xs ++ ys, j ∈ q s p ∧ j ≠ i := by
    intro j hj
    rw [hq]
    rcases List.mem_append.mp hj with hj | hj
    · exact ⟨by simp [hj], hdisj j hj i (by simp)⟩
    · exact ⟨by simp [hj], fun heq => (List.nodup_cons.mp (List.nodup_append.mp hnodup).2.1).1 (heq ▸ hj)⟩
  have hnull : ∀ j ∈ xs ++ ys, j ≠ kNull := fun j hj heq => h.null s p (heq ▸ (hmem j hj).1)
  have hin : ∀ j ∈ xs ++ ys, (Book.unlink pool b s p i).1.slots j = (pool.slots j).link
      (if j = (pool.slots i).next then (pool.slots i).prev else (pool.slots j).prev)
      (if j = (pool.slots i).prev then (pool.slots i).next else (pool.slots j).next) :=
    fun j hj => h.unlink_in hq (hmem j hj).1 (hmem j hj).2
  have hqty : ∀ j ∈ xs ++ ys, ((Book.unlink pool b s p i).1.slots j).qty = (pool.slots j).qty :=
    fun j _ => (h.unlink_relinked hq j).qty
  rw [Book.unlink_levels]
  refine h.toLinks.update _ _ (fun s' p' heq j hj => ?_) (fun j hj s' p' hj' => ?_) ?_ ?_ ?_ ?_ ?_
  · exact h.unlink_out hq fun hj' => heq (h.disjoint s p s' p' j hj' hj)
  · exact h.disjoint s p s' p' j (hmem j hj).1 hj'
  · have hseg := h.linked s p
    rw [hq] at hseg
    have hhead : (if (pool.slots i).prev ≠ kNull then (b.levels s p).head else (pool.slots i).next)
        = if xs = [] then (pool.slots i).next else (b.levels s p).head := by
      by_cases hxs : xs = []
      · rw [if_neg (by simpa using (h.prev_eq_kNull_iff hq).mpr hxs), if_pos hxs]
      · rw [if_pos fun heq => hxs ((h.prev_eq_kNull_iff hq).mp heq), if_neg hxs]
    have htail : (if (pool.slots i).next ≠ kNull then (b.levels s p).tail else (pool.slots i).prev)
        = if ys = [] then (pool.slots i).prev else (b.levels s p).tail := by
      by_cases hys : ys = []
      · rw [if_neg (by simpa using (h.next_eq_kNull_iff hq).mpr hys), if_pos hys]
      · rw [if_pos fun heq => hys ((h.next_eq_kNull_iff hq).mp heq), if_neg hys]
    rw [hhead, htail]
    refine hseg.unlink hnodup (fun j hj => ?_) (fun j hj => ?_) (fun j hj => ?_) (fun j hj => ?_)
    · rw [hin j (by simp [hj])]
      rfl
    · rw [hin j (by simp [hj])]
      rfl
    · rw [hin j (by simp [hj])]
      have hjp : j ≠ (pool.slots i).prev := by
        rintro rfl
        rcases h.prev_mem hq with ⟨hprev, _⟩ | ⟨hprev, _⟩
        · exact hnull _ (by simp [hj]) hprev
        · exact hdisj _ hprev _ (by simp [hj]) rfl
      rw [if_neg hjp]
      rfl
    · rw [hin j (by simp [hj])]
      have hjn : j ≠ (pool.slots i).next := by
        rintro rfl
        rcases h.next_mem hq with ⟨hnext, _⟩ | ⟨hnext, _⟩
        · exact hnull _ (by simp [hj]) hnext
        · exact hdisj _ hj _ (by simp [hnext]) rfl
      rw [if_neg hjn]
      rfl
  · exact hnodup.sublist ((List.sublist_cons_self i ys).append_left xs)
  · exact fun hj => hnull kNull hj rfl
  · rw [h.count s p, hq]
    simp
  · rw [h.qty s p, hq, List.map_congr_left hqty]
    simp only [List.map_append, List.map_cons, List.sum_append, List.sum_cons]
    rw [Book.sub32_mod (by omega)]
    refine congrArg (· % word32) ?_
    omega

theorem unlink_indexes (h : Represents pool.slots b q) (hq : q s p = xs ++ i :: ys)
    (hside : (pool.slots i).side = s) (hprice : (pool.slots i).price = p) :
    Indexes (Book.unlink pool b s p i).2 (q.set s p (xs ++ ys)) := by
  have hcount : (b.levels s p).count - 1 = 0 ↔ xs ++ ys = [] := by
    rw [h.count s p, hq]
    simp
  have hne : q s p ≠ [] := by simp [hq]
  simp only [Book.unlink]
  split
  · rename_i hlast
    rw [hside, hprice, hcount.mp hlast]
    refine Indexes.levelEmptied ?_ hne
    exact h.toIndexes.congr (fun _ _ => Iff.rfl) rfl rfl rfl
  · rename_i hlast
    refine h.toIndexes.congr (fun s' p' => ?_) rfl rfl rfl
    by_cases heq : s' = s ∧ p' = p
    · rw [heq.1, heq.2, Queues.set_same]
      exact iff_of_false (fun hnil => hlast (hcount.mpr hnil)) hne
    · rw [Queues.set_of_ne _ heq]

/-- Taking a queued slot out erases it from its queue. -/
theorem unlink (h : Represents pool.slots b q) (hq : q s p = xs ++ i :: ys)
    (hside : (pool.slots i).side = s) (hprice : (pool.slots i).price = p) :
    Represents (Book.unlink pool b s p i).1.slots (Book.unlink pool b s p i).2 (q.set s p (xs ++ ys)) where
  toLinks := h.unlink_links hq
  toIndexes := h.unlink_indexes hq hside hprice
  resting := by
    obtain ⟨hpos, hmax⟩ := h.price s p (by simp [hq])
    have hsize := q.size_set s (xs ++ ys) hpos hmax
    rw [Book.unlink_resting, Book.unlink_maxPrice, h.resting]
    rw [hq] at hsize
    simp only [List.length_append, List.length_cons] at hsize
    omega

/-! ### Changing a quantity -/

/-- A queued order may lose `d` units when its level does too. -/
theorem setQty (h : Represents pool.slots b q) (hq : q s p = xs ++ i :: ys) {slots' : Nat → Order} {d : Nat}
    (hnext : (slots' i).next = (pool.slots i).next) (hprev : (slots' i).prev = (pool.slots i).prev)
    (hqty : (slots' i).qty + d = (pool.slots i).qty) (hother : ∀ j, j ≠ i → slots' j = pool.slots j) :
    Represents slots' (b.setLevel s p { b.levels s p with qty := Book.sub32 (b.levels s p).qty d }) q := by
  have hi : i ∈ q s p := by simp [hq]
  have hnodup := h.nodup s p
  rw [hq] at hnodup
  have hixs : ∀ j ∈ xs, j ≠ i := fun j hj => (List.nodup_append.mp hnodup).2.2 j hj i (by simp)
  have hiys : ∀ j ∈ ys, j ≠ i :=
    fun j hj heq => (List.nodup_cons.mp (List.nodup_append.mp hnodup).2.1).1 (heq ▸ hj)
  have hlinks : ∀ j, (slots' j).next = (pool.slots j).next ∧ (slots' j).prev = (pool.slots j).prev := by
    intro j
    by_cases hji : j = i
    · rw [hji]
      exact ⟨hnext, hprev⟩
    · rw [hother j hji]
      exact ⟨rfl, rfl⟩
  have hsum : ∀ zs : List Nat, (∀ j ∈ zs, j ≠ i) →
      zs.map (fun j => (slots' j).qty) = zs.map fun j => (pool.slots j).qty :=
    fun zs hzs => List.map_congr_left fun j hj => congrArg Order.qty (hother j (hzs j hj))
  have hlevel : Book.sub32 (b.levels s p).qty d = ((q s p).map fun j => (slots' j).qty).sum % word32 := by
    rw [h.qty s p, hq]
    simp only [List.map_append, List.map_cons, List.sum_append, List.sum_cons]
    rw [hsum xs hixs, hsum ys hiys, Book.sub32_mod (by omega)]
    refine congrArg (· % word32) ?_
    omega
  have hupdate := h.toLinks.update (q s p) { b.levels s p with qty := Book.sub32 (b.levels s p).qty d }
    (fun s' p' heq j hj => hother j fun hji => heq (h.disjoint s p s' p' i hi (hji ▸ hj)))
    (fun j hj s' p' hj' => h.disjoint s p s' p' j hj hj')
    ((h.linked s p).congr (fun j _ => (hlinks j).1) (fun j _ => (hlinks j).2))
    (h.nodup s p) (h.null s p) (h.count s p) hlevel
  rw [Queues.set_self, ← Book.levels_setLevel] at hupdate
  exact ⟨hupdate, h.toIndexes.congr (fun _ _ => Iff.rfl) rfl rfl rfl, h.resting⟩

end Represents

end Operations

end Matchbox
