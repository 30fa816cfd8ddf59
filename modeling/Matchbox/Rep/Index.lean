import Mathlib.Algebra.BigOperators.Group.Finset.Basic
import Mathlib.Data.Int.Interval
import Matchbox.Engine.Process

/-!
# The index of a book

A book stands for its queues: for each side and price the list of slots resting there, first in first out. Its bitmap and its two cached prices are an index over them, which says only where a queue is occupied. Here are the queues, what the best price of a side is, and the two moments the index changes: a level gets its first order, a level loses its last.
-/

namespace Matchbox

/-- For each side and price, the slots resting there in order of priority. -/
abbrev Queues := Side → Int → List Nat

namespace Queues

/-- The queues with one of them replaced. -/
def set (q : Queues) (s : Side) (p : Int) (xs : List Nat) : Queues :=
  fun s' p' => if s' = s ∧ p' = p then xs else q s' p'

@[simp] theorem set_same (q : Queues) (s : Side) (p : Int) (xs : List Nat) : q.set s p xs s p = xs := by
  simp [set]

theorem set_of_ne {q : Queues} {s s' : Side} {p p' : Int} (xs : List Nat) (hne : ¬ (s' = s ∧ p' = p)) :
    q.set s p xs s' p' = q s' p' := if_neg hne

theorem set_self (q : Queues) (s : Side) (p : Int) : q.set s p (q s p) = q := by
  funext s' p'
  by_cases heq : s' = s ∧ p' = p
  · rw [heq.1, heq.2, set_same]
  · rw [set_of_ne _ heq]

theorem update_set_same (q : Nat → Queues) (k : Nat) (s : Side) (p : Int) (xs : List Nat) :
    Function.update q k ((q k).set s p xs) k s p = xs := by
  rw [Function.update_self, set_same]

theorem update_set_of_ne {q : Nat → Queues} {k k' : Nat} {s s' : Side} {p p' : Int} (xs : List Nat)
    (hne : ¬ (k' = k ∧ s' = s ∧ p' = p)) : Function.update q k ((q k).set s p xs) k' s' p' = q k' s' p' := by
  by_cases hk : k' = k
  · subst hk
    rw [Function.update_self, set_of_ne]
    exact fun heq => hne ⟨rfl, heq⟩
  · rw [Function.update_of_ne hk]

theorem mem_update_set {q : Nat → Queues} {j k k' : Nat} {s s' : Side} {p p' : Int} {xs : List Nat}
    (hj : j ∈ Function.update q k ((q k).set s p xs) k' s' p') :
    (k' = k ∧ s' = s ∧ p' = p) ∧ j ∈ xs ∨ ¬ (k' = k ∧ s' = s ∧ p' = p) ∧ j ∈ q k' s' p' := by
  by_cases heq : k' = k ∧ s' = s ∧ p' = p
  · obtain ⟨rfl, rfl, rfl⟩ := heq
    rw [update_set_same] at hj
    exact Or.inl ⟨⟨rfl, rfl, rfl⟩, hj⟩
  · rw [update_set_of_ne xs heq] at hj
    exact Or.inr ⟨heq, hj⟩

/-- How many slots the queues of one side hold at the prices `1 .. maxPrice`. -/
def sideSize (q : Queues) (maxPrice : Int) (s : Side) : Nat := ∑ i ∈ Finset.range maxPrice.toNat, (q s (i + 1)).length

/-- How many slots the queues hold at valid prices. -/
def size (q : Queues) (maxPrice : Int) : Nat := q.sideSize maxPrice .buy + q.sideSize maxPrice .sell

theorem size_set (q : Queues) {maxPrice : Int} (s : Side) {p : Int} (xs : List Nat) (hpos : 1 ≤ p) (hmax : p ≤ maxPrice) :
    (q.set s p xs).size maxPrice + (q s p).length = q.size maxPrice + xs.length := by
  obtain ⟨i, rfl⟩ : ∃ i : Nat, p = i + 1 := ⟨(p - 1).toNat, by omega⟩
  have hmem : i ∈ Finset.range maxPrice.toNat := Finset.mem_range.mpr (by omega)
  have hsame : (q.set s (i + 1) xs).sideSize maxPrice s + (q s (i + 1)).length = q.sideSize maxPrice s + xs.length := by
    unfold sideSize
    rw [← Finset.add_sum_erase _ _ hmem, ← Finset.add_sum_erase _ (fun i : Nat => (q s (i + 1)).length) hmem, set_same]
    have hrest : ∑ j ∈ (Finset.range maxPrice.toNat).erase i, (q.set s (i + 1) xs s (j + 1)).length
        = ∑ j ∈ (Finset.range maxPrice.toNat).erase i, (q s (j + 1)).length := by
      refine Finset.sum_congr rfl fun j hj => ?_
      have hne := Finset.ne_of_mem_erase hj
      rw [set_of_ne _ fun heq => hne (by omega)]
    rw [hrest]
    omega
  have hother : ∀ s', s' ≠ s → (q.set s (i + 1) xs).sideSize maxPrice s' = q.sideSize maxPrice s' := by
    intro s' hs
    unfold sideSize
    refine Finset.sum_congr rfl fun p' _ => ?_
    rw [set_of_ne _ fun heq => hs heq.1]
  unfold size
  cases s with
  | buy =>
      rw [hother .sell (by decide)]
      omega
  | sell =>
      rw [hother .buy (by decide)]
      omega

end Queues

/-! ### The best price of a side -/

/-- `p` is the best of the prices `S`, or `kNoPrice` when there are none. -/
def IsBest (s : Side) (S : Int → Prop) (p : Int) : Prop :=
  (p = kNoPrice ∧ ∀ p', ¬ S p') ∨ (S p ∧ ∀ p', S p' → Book.better s p' p = false)

theorem Book.better_buy {p p' : Int} : Book.better .buy p p' = false ↔ p ≤ p' := by
  simp [Book.better]

theorem Book.better_sell {p p' : Int} : Book.better .sell p p' = false ↔ p' ≤ p := by
  simp [Book.better]

theorem Book.better_irrefl (s : Side) (p : Int) : Book.better s p p = false := by
  cases s <;> simp [Book.better]

theorem Book.better_antisymm {s : Side} {p p' : Int} (h : Book.better s p p' = false)
    (h' : Book.better s p' p = false) : p = p' := by
  cases s <;> simp only [Book.better, decide_eq_false_iff_not] at h h' <;> omega

theorem Book.not_better_trans {s : Side} {p p' p'' : Int} (h : Book.better s p p' = false)
    (h' : Book.better s p'' p' = true) : Book.better s p p'' = false := by
  cases s <;> simp only [Book.better, decide_eq_false_iff_not, decide_eq_true_eq] at h h' ⊢ <;> omega

section Best

variable {s : Side} {S : Int → Prop} {p p' : Int}

theorem IsBest.eq (h : IsBest s S p) (h' : IsBest s S p') : p = p' := by
  rcases h with ⟨hp, hnone⟩ | ⟨hp, hbest⟩ <;> rcases h' with ⟨hp', hnone'⟩ | ⟨hp', hbest'⟩
  · rw [hp, hp']
  · exact absurd hp' (hnone p')
  · exact absurd hp (hnone' p)
  · exact Book.better_antisymm (hbest' p hp) (hbest p' hp')

theorem IsBest.mem (h : IsBest s S p) (hne : p ≠ kNoPrice) : S p := by
  rcases h with ⟨hp, _⟩ | ⟨hp, _⟩
  · exact absurd hp hne
  · exact hp

theorem IsBest.not_better (h : IsBest s S p) (hp' : S p') : Book.better s p' p = false := by
  rcases h with ⟨_, hnone⟩ | ⟨_, hbest⟩
  · exact absurd hp' (hnone p')
  · exact hbest p' hp'

theorem IsBest.eq_kNoPrice_iff (h : IsBest s S p) (hpos : ∀ p', S p' → 1 ≤ p') :
    p = kNoPrice ↔ ∀ p', ¬ S p' := by
  constructor
  · rintro rfl
    rcases h with ⟨_, hnone⟩ | ⟨hmem, _⟩
    · exact hnone
    · have hle := hpos _ hmem
      exact absurd hle (by decide)
  · intro hnone
    rcases h with ⟨hp, _⟩ | ⟨hmem, _⟩
    · exact hp
    · exact absurd hmem (hnone p)

end Best

/-! ### The searches in the bitmap -/

namespace Book

/-- The bit of price `p` is set. -/
def marked (b : Book) (s : Side) (p : Int) : Prop := 0 ≤ p ∧ Bitmap.test (b.bits s) p.toNat = true

variable {b : Book} {s : Side}

/-- With a bitmap of the constructor's size, no word outside it is read. Above `maxPrice` the search is not even begun. -/
theorem scanUp_isBest (hlength : (b.bits s).length = b.maxPrice.toNat / 64 + 1)
    (hvalid : ∀ p, b.marked s p → 1 ≤ p ∧ p ≤ b.maxPrice) (start : Int) :
    ∃ r, b.scanUp s start = some r ∧ IsBest .sell (fun p => start ≤ p ∧ b.marked s p) r := by
  by_cases hmax : b.maxPrice < start
  · refine ⟨kNoPrice, if_pos hmax, Or.inl ⟨rfl, ?_⟩⟩
    rintro p ⟨hle, hp⟩
    have hp' := (hvalid p hp).2
    omega
  · obtain ⟨r, hr, hfound⟩ := Bitmap.scanUp_spec (show start.toNat < 64 * (b.bits s).length by rw [hlength]; omega)
    refine ⟨r.elim kNoPrice Int.ofNat, by rw [scanUp, if_neg hmax, hr, Option.map_some], ?_⟩
    cases r with
    | none =>
        refine Or.inl ⟨rfl, ?_⟩
        rintro p ⟨hle, -, hset⟩
        rw [hfound p.toNat (Int.toNat_le_toNat hle)] at hset
        exact Bool.false_ne_true hset
    | some n =>
        refine Or.inr ⟨⟨Int.toNat_le.1 hfound.1.1, Int.natCast_nonneg n, hfound.1.2⟩, ?_⟩
        rintro p ⟨hle, hpos, hset⟩
        have hleast : n ≤ p.toNat := hfound.2 ⟨Int.toNat_le_toNat hle, hset⟩
        rw [better_sell]
        change (n : Int) ≤ p
        omega

theorem scanDown_isBest (hlength : (b.bits s).length = b.maxPrice.toNat / 64 + 1)
    (hvalid : ∀ p, b.marked s p → 1 ≤ p ∧ p ≤ b.maxPrice) {start : Int} (hstart : start ≤ b.maxPrice) :
    ∃ r, b.scanDown s start = some r ∧ IsBest .buy (fun p => p ≤ start ∧ b.marked s p) r := by
  by_cases hmin : start < 1
  · refine ⟨kNoPrice, if_pos hmin, Or.inl ⟨rfl, ?_⟩⟩
    rintro p ⟨hle, hp⟩
    have hp' := (hvalid p hp).1
    omega
  · obtain ⟨r, hr, hfound⟩ := Bitmap.scanDown_spec (show start.toNat < 64 * (b.bits s).length by rw [hlength]; omega)
    refine ⟨r.elim kNoPrice Int.ofNat, by rw [scanDown, if_neg hmin, hr, Option.map_some], ?_⟩
    cases r with
    | none =>
        refine Or.inl ⟨rfl, ?_⟩
        rintro p ⟨hle, -, hset⟩
        rw [hfound p.toNat (Int.toNat_le_toNat hle)] at hset
        exact Bool.false_ne_true hset
    | some n =>
        have hle : n ≤ start.toNat := hfound.1.1
        refine Or.inr ⟨⟨?_, Int.natCast_nonneg n, hfound.1.2⟩, ?_⟩
        · change (n : Int) ≤ start
          omega
        · rintro p ⟨hle, hpos, hset⟩
          have hgreatest : p.toNat ≤ n := hfound.2 ⟨Int.toNat_le_toNat hle, hset⟩
          rw [better_buy]
          change p ≤ (n : Int)
          omega

/-- Both searches come to an end inside the bitmap, with the nearest price that is set or with none. -/
theorem scan_nearest (b : Book) (s : Side) (hlength : (b.bits s).length = b.maxPrice.toNat / 64 + 1)
    (hvalid : ∀ p, b.marked s p → 1 ≤ p ∧ p ≤ b.maxPrice) (start : Int) :
    (0 ≤ start → ∃ r, b.scanUp s start = some r ∧ (r = kNoPrice ↔ ∀ p, ¬ (start ≤ p ∧ b.marked s p)) ∧
        (r ≠ kNoPrice → IsLeast {p | start ≤ p ∧ b.marked s p} r)) ∧
      (start ≤ b.maxPrice → ∃ r, b.scanDown s start = some r ∧ (r = kNoPrice ↔ ∀ p, ¬ (p ≤ start ∧ b.marked s p)) ∧
        (r ≠ kNoPrice → IsGreatest {p | p ≤ start ∧ b.marked s p} r)) := by
  constructor
  · intro _
    obtain ⟨r, hr, hbest⟩ := scanUp_isBest hlength hvalid start
    refine ⟨r, hr, hbest.eq_kNoPrice_iff fun p hp => (hvalid p hp.2).1, fun hne => ⟨hbest.mem hne, ?_⟩⟩
    intro p hp
    exact better_sell.1 (hbest.not_better hp)
  · intro hstart
    obtain ⟨r, hr, hbest⟩ := scanDown_isBest hlength hvalid hstart
    refine ⟨r, hr, hbest.eq_kNoPrice_iff fun p hp => (hvalid p hp.2).1, fun hne => ⟨hbest.mem hne, ?_⟩⟩
    intro p hp
    exact better_buy.1 (hbest.not_better hp)

/-- Orders at the prices 64 and 127, the two ends of a word. -/
def twoLevels : Book := { init 128 with bits := fun _ => Bitmap.set (Bitmap.set (List.replicate 3 0#64) 64) 127 }

theorem marked_twoLevels {s : Side} {p : Int} (hp : twoLevels.marked s p) : p = 64 ∨ p = 127 := by
  obtain ⟨hpos, hset⟩ := hp
  rw [twoLevels, Bitmap.test_set (by decide), Bitmap.test_set (by decide), Bitmap.test_replicate_zero] at hset
  rcases hset with (hset | hset) | hset
  · exact absurd hset Bool.false_ne_true
  · omega
  · omega

/-- The search from 65 skips the rest of the word, the one from 126 goes back to its start. -/
theorem scan_nearest_twoLevels :
    (∃ r, twoLevels.scanUp .sell 65 = some r ∧ (r = kNoPrice ↔ ∀ p, ¬ (65 ≤ p ∧ twoLevels.marked .sell p)) ∧
        (r ≠ kNoPrice → IsLeast {p | 65 ≤ p ∧ twoLevels.marked .sell p} r)) ∧
      twoLevels.scanUp .sell 65 = some 127 ∧ twoLevels.scanDown .sell 126 = some 64 ∧
      twoLevels.scanDown .sell 63 = some kNoPrice := by
  have hvalid : ∀ p, twoLevels.marked .sell p → 1 ≤ p ∧ p ≤ twoLevels.maxPrice := by
    intro p hp
    have hmax : twoLevels.maxPrice = 128 := rfl
    rw [hmax]
    rcases marked_twoLevels hp with rfl | rfl <;> decide
  exact ⟨(scan_nearest twoLevels .sell rfl hvalid 65).1 (by decide), by decide +kernel, by decide +kernel, by decide +kernel⟩

end Book

/-! ### The index: bitmap and cached prices -/

/-- The bitmap of `b` marks the occupied ones of the queues `q`, all of them at valid prices. -/
structure Marks (b : Book) (q : Queues) : Prop where
  length_bits : ∀ s, (b.bits s).length = b.maxPrice.toNat / 64 + 1
  bit : ∀ s n, Bitmap.test (b.bits s) n = true ↔ q s (n : Int) ≠ []
  price : ∀ s p, q s p ≠ [] → 1 ≤ p ∧ p ≤ b.maxPrice

namespace Marks

variable {b b' : Book} {q q' : Queues} {s : Side} {p : Int}

theorem congr (h : Marks b q) (hempty : ∀ s p, q' s p = [] ↔ q s p = []) (hmax : b'.maxPrice = b.maxPrice)
    (hbits : b'.bits = b.bits) : Marks b' q' where
  length_bits := by rw [hmax, hbits]; exact h.length_bits
  bit := fun s n => by rw [hbits, h.bit s n, ne_eq, ne_eq, hempty]
  price := fun s p hp => by
    rw [hmax]
    exact h.price s p (by rwa [ne_eq, ← hempty])

theorem toNat_lt (h : Marks b q) (hp : p ≤ b.maxPrice) (s : Side) : p.toNat < 64 * (b.bits s).length := by
  rw [h.length_bits s]
  omega

theorem bit_toNat (h : Marks b q) (hp : 0 ≤ p) (s : Side) :
    Bitmap.test (b.bits s) p.toNat = true ↔ q s p ≠ [] := by
  rw [h.bit s p.toNat, Int.toNat_of_nonneg hp]

theorem marked_iff (h : Marks b q) : b.marked s p ↔ q s p ≠ [] := by
  constructor
  · rintro ⟨hpos, hset⟩
    exact (h.bit_toNat hpos s).1 hset
  · intro hp
    have hpos : 0 ≤ p := Int.le_of_lt (h.price s p hp).1
    exact ⟨hpos, (h.bit_toNat hpos s).2 hp⟩

theorem scanUp_best (h : Marks b q) (hlow : ∀ p', q .sell p' ≠ [] → p ≤ p') :
    ∃ found, b.scanUp .sell p = some found ∧ IsBest .sell (fun p' => q .sell p' ≠ []) found := by
  obtain ⟨found, hfound, hbest⟩ := Book.scanUp_isBest (h.length_bits .sell)
    (fun p' hp' => h.price .sell p' (h.marked_iff.1 hp')) p
  have hsame : ∀ p', p ≤ p' ∧ b.marked .sell p' ↔ q .sell p' ≠ [] := fun p' =>
    ⟨fun hp' => h.marked_iff.1 hp'.2, fun hp' => ⟨hlow p' hp', h.marked_iff.2 hp'⟩⟩
  simp only [hsame] at hbest
  exact ⟨found, hfound, hbest⟩

theorem scanDown_best (h : Marks b q) (hp : p ≤ b.maxPrice) (hhigh : ∀ p', q .buy p' ≠ [] → p' ≤ p) :
    ∃ found, b.scanDown .buy p = some found ∧ IsBest .buy (fun p' => q .buy p' ≠ []) found := by
  obtain ⟨found, hfound, hbest⟩ := Book.scanDown_isBest (h.length_bits .buy)
    (fun p' hp' => h.price .buy p' (h.marked_iff.1 hp')) hp
  have hsame : ∀ p', p' ≤ p ∧ b.marked .buy p' ↔ q .buy p' ≠ [] := fun p' =>
    ⟨fun hp' => h.marked_iff.1 hp'.2, fun hp' => ⟨hhigh p' hp', h.marked_iff.2 hp'⟩⟩
  simp only [hsame] at hbest
  exact ⟨found, hfound, hbest⟩

/-- The search behind `p` finds the best price when nothing at or ahead of `p` is left. -/
theorem nextBest (h : Marks b q) (hmax : p ≤ b.maxPrice)
    (hbehind : ∀ p', q s p' ≠ [] → Book.better s p' p = false ∧ p' ≠ p) :
    ∃ found, b.nextBest s p = some found ∧ IsBest s (fun p' => q s p' ≠ []) found := by
  cases s with
  | buy =>
      refine h.scanDown_best (by omega) fun p' hp' => ?_
      obtain ⟨hle, hne⟩ := hbehind p' hp'
      rw [Book.better_buy] at hle
      omega
  | sell =>
      refine h.scanUp_best fun p' hp' => ?_
      obtain ⟨hle, hne⟩ := hbehind p' hp'
      rw [Book.better_sell] at hle
      omega

theorem update (h : Marks b q) (s : Side) (xs : List Nat) (hpos : 1 ≤ p) (hmax : p ≤ b.maxPrice)
    {bits : List Bitmap.Word}
    (hlength : bits.length = (b.bits s).length)
    (htest : ∀ n, Bitmap.test bits n = true ↔ if n = p.toNat then xs ≠ [] else Bitmap.test (b.bits s) n = true) :
    Marks { b with bits := Function.update b.bits s bits } (q.set s p xs) where
  length_bits := fun s' => by
    by_cases hs : s' = s
    · subst hs
      simpa [hlength] using h.length_bits s'
    · simpa [Function.update_of_ne hs] using h.length_bits s'
  bit := fun s' n => by
    dsimp only
    by_cases hs : s' = s
    · subst hs
      rw [Function.update_self, htest]
      by_cases hn : n = p.toNat
      · have hnp : (n : Int) = p := by omega
        rw [if_pos hn, hnp, Queues.set_same]
      · have hnp : (n : Int) ≠ p := by omega
        rw [if_neg hn, h.bit, Queues.set_of_ne _ (by simp [hnp])]
    · rw [Function.update_of_ne hs, h.bit, Queues.set_of_ne _ (by simp [hs])]
  price := fun s' p' hp' => by
    by_cases heq : s' = s ∧ p' = p
    · rw [heq.2]
      exact ⟨hpos, hmax⟩
    · rw [Queues.set_of_ne _ heq] at hp'
      exact h.price s' p' hp'

end Marks

/-- The bitmap and the cached prices of `b` say which of the queues `q` are occupied. -/
structure Indexes (b : Book) (q : Queues) : Prop extends Marks b q where
  best : ∀ s, IsBest s (fun p => q s p ≠ []) (b.best s)

namespace Indexes

variable {b b' : Book} {q q' : Queues} {s : Side} {p : Int}

theorem congr (h : Indexes b q) (hempty : ∀ s p, q' s p = [] ↔ q s p = []) (hmax : b'.maxPrice = b.maxPrice)
    (hbits : b'.bits = b.bits) (hbest : b'.best = b.best) : Indexes b' q' where
  toMarks := h.toMarks.congr hempty hmax hbits
  best := fun s => by
    have hsame : (fun p => q' s p ≠ []) = fun p => q s p ≠ [] := by
      funext p
      rw [ne_eq, ne_eq, hempty]
    rw [hsame, hbest]
    exact h.best s

theorem best_eq_kNoPrice_iff (h : Indexes b q) (s : Side) : b.best s = kNoPrice ↔ ∀ p, q s p = [] := by
  rw [(h.best s).eq_kNoPrice_iff fun p hp => (h.price s p hp).1]
  simp

/-- Emptying the level `(s, p)` clears its bit and moves the cached price to the next occupied level. -/
theorem levelEmptied (h : Indexes b q) (hp : q s p ≠ []) : Indexes (b.levelEmptied s p) (q.set s p []) := by
  obtain ⟨hpos, hmax⟩ := h.price s p hp
  have hmarks := h.toMarks.update s [] hpos hmax (Bitmap.length_clear (b.bits s) p.toNat)
    (fun n => by rw [Bitmap.test_clear (h.toNat_lt hmax s)]; by_cases hn : n = p.toNat <;> simp [hn])
  have hset : ∀ s' p', q.set s p [] s' p' ≠ [] → q s' p' ≠ [] ∧ ¬ (s' = s ∧ p' = p) := by
    intro s' p' hne
    by_cases heq : s' = s ∧ p' = p
    · rw [heq.1, heq.2, Queues.set_same] at hne
      exact absurd rfl hne
    · rw [Queues.set_of_ne _ heq] at hne
      exact ⟨hne, heq⟩
  -- A side whose best price is another level keeps it.
  have hkept : ∀ s', ¬ (s' = s ∧ b.best s' = p) → IsBest s' (fun p' => q.set s p [] s' p' ≠ []) (b.best s') := by
    intro s' hne
    rcases h.best s' with ⟨hbest, hnone⟩ | ⟨hmem, hbest⟩
    · exact Or.inl ⟨hbest, fun p' hp' => hnone p' (hset s' p' hp').1⟩
    · have hmem' : q.set s p [] s' (b.best s') ≠ [] := by rwa [Queues.set_of_ne _ hne]
      exact Or.inr ⟨hmem', fun p' hp' => hbest p' (hset s' p' hp').1⟩
  unfold Book.levelEmptied
  simp only
  split
  · rename_i hbest
    obtain ⟨found, hscan, hisBest⟩ := hmarks.nextBest hmax (s := s) (fun p' hp' => by
      obtain ⟨hmem, hne⟩ := hset s p' hp'
      exact ⟨hbest ▸ (h.best s).not_better hmem, fun heq => hne ⟨rfl, heq⟩⟩)
    refine ⟨hmarks.congr (fun _ _ => Iff.rfl) rfl rfl, fun s' => ?_⟩
    dsimp only
    rw [hscan, Option.getD_some]
    by_cases hs : s' = s
    · subst hs
      rwa [Function.update_self]
    · rw [Function.update_of_ne hs]
      exact hkept s' fun heq => hs heq.1
  · rename_i hbest
    exact ⟨hmarks, fun s' => hkept s' fun heq => hbest (heq.1 ▸ heq.2)⟩

/-- The first order of the level `(s, p)` marks it, and moves the cached price if `p` is ahead of it. -/
theorem levelOpened (h : Indexes b q) (hp : q s p = []) (hpos : 1 ≤ p) (hmax : p ≤ b.maxPrice) (xs : List Nat)
    (hxs : xs ≠ []) : Indexes (b.levelOpened s p) (q.set s p xs) := by
  have hmarks := h.toMarks.update s xs hpos hmax (Bitmap.length_set (b.bits s) p.toNat)
    (fun n => by rw [Bitmap.test_set (h.toNat_lt hmax s)]; by_cases hn : n = p.toNat <;> simp [hn, hxs])
  have hset : ∀ s' p', q.set s p xs s' p' ≠ [] → (s' = s ∧ p' = p) ∨ q s' p' ≠ [] := by
    intro s' p' hne
    by_cases heq : s' = s ∧ p' = p
    · exact Or.inl heq
    · rw [Queues.set_of_ne _ heq] at hne
      exact Or.inr hne
  have hmem : q.set s p xs s p ≠ [] := by rwa [Queues.set_same]
  have hkept : ∀ s' p', q s' p' ≠ [] → q.set s p xs s' p' ≠ [] := by
    intro s' p' hne
    by_cases heq : s' = s ∧ p' = p
    · rw [heq.1, heq.2, hp] at hne
      exact absurd rfl hne
    · rwa [Queues.set_of_ne _ heq]
  have hother : ∀ s', s' ≠ s → IsBest s' (fun p' => q.set s p xs s' p' ≠ []) (b.best s') := by
    intro s' hs
    rcases h.best s' with ⟨hbest, hnone⟩ | ⟨hbest, hall⟩
    · refine Or.inl ⟨hbest, fun p' hp' => ?_⟩
      rcases hset s' p' hp' with heq | hne
      · exact hs heq.1
      · exact hnone p' hne
    · refine Or.inr ⟨hkept s' _ hbest, fun p' hp' => ?_⟩
      rcases hset s' p' hp' with heq | hne
      · exact absurd heq.1 hs
      · exact hall p' hne
  unfold Book.levelOpened
  simp only
  split
  · rename_i hbetter
    refine ⟨hmarks.congr (fun _ _ => Iff.rfl) rfl rfl, fun s' => ?_⟩
    dsimp only
    by_cases hs : s' = s
    · subst hs
      rw [Function.update_self]
      refine Or.inr ⟨hmem, fun p' hp' => ?_⟩
      rcases hset s' p' hp' with heq | hne
      · rw [heq.2]
        exact Book.better_irrefl s' p
      · rcases hbetter with hnone | hbetter
        · exact absurd ((h.best_eq_kNoPrice_iff s').mp hnone p') hne
        · exact Book.not_better_trans ((h.best s').not_better hne) hbetter
    · rw [Function.update_of_ne hs]
      exact hother s' hs
  · rename_i hbetter
    push Not at hbetter
    refine ⟨hmarks, fun s' => ?_⟩
    by_cases hs : s' = s
    · subst hs
      have hbest := (h.best s').mem hbetter.1
      refine Or.inr ⟨hkept s' _ hbest, fun p' hp' => ?_⟩
      rcases hset s' p' hp' with heq | hne
      · rw [heq.2]
        simpa using hbetter.2
      · exact (h.best s').not_better hne
    · exact hother s' hs

end Indexes

end Matchbox
