import Matchbox.Rep.Level

/-!
# A book is its queues

The links, the levels, the bitmap and the cached prices hold nothing beyond the queues and the quantities of the orders in them. Two books that stand for the same queues are the same book, and what stands in a queue that nobody touched is linked as it was.
-/

namespace Matchbox

section Levels

variable {slots slots' : Nat → Order} {levels levels' : Side → Int → Level} {q q' : Queues} {s : Side} {p : Int}

theorem Links.links_eq (h : Links slots levels q) (h' : Links slots' levels' q') (hq : q' s p = q s p) {i : Nat}
    (hi : i ∈ q s p) : (slots' i).next = (slots i).next ∧ (slots' i).prev = (slots i).prev := by
  have hlinked' := h'.linked s p
  rw [hq] at hlinked'
  exact ((h.linked s p).unique hlinked').2.2 i hi

theorem Links.level_eq (h : Links slots levels q) (h' : Links slots' levels' q') (hq : q' s p = q s p)
    (hqty : ∀ i ∈ q s p, (slots' i).qty = (slots i).qty) : levels' s p = levels s p := by
  have hlinked' := h'.linked s p
  have hcount' := h'.count s p
  have hqty' := h'.qty s p
  rw [hq] at hlinked' hcount' hqty'
  obtain ⟨hhead, htail, -⟩ := (h.linked s p).unique hlinked'
  rw [List.map_congr_left hqty, ← h.qty s p] at hqty'
  rw [← h.count s p] at hcount'
  change (⟨(levels' s p).head, (levels' s p).tail, (levels' s p).qty, (levels' s p).count⟩ : Level) = levels s p
  rw [hhead, htail, hqty', hcount']

end Levels

variable {slots slots' : Nat → Order} {b b' : Book} {q : Queues}

theorem Represents.unique (h : Represents slots b q) (h' : Represents slots' b' q) (hmax : b'.maxPrice = b.maxPrice)
    (hqty : ∀ s p, ∀ i ∈ q s p, (slots' i).qty = (slots i).qty) : b' = b := by
  have hlevels : b'.levels = b.levels := by
    funext s p
    exact h.level_eq h'.toLinks rfl (hqty s p)
  have hbits : b'.bits = b.bits := by
    funext s
    apply Bitmap.ext_test
    · rw [h'.length_bits, h.length_bits, hmax]
    · intro n
      rw [Bool.eq_iff_iff, h'.bit, h.bit]
  have hbest : b'.best = b.best := by
    funext s
    exact (h'.best s).eq (h.best s)
  have hresting : b'.resting = b.resting := by
    rw [h'.resting, h.resting, hmax]
  change (⟨b'.maxPrice, b'.resting, b'.levels, b'.bits, b'.best⟩ : Book) = b
  rw [hmax, hresting, hlevels, hbits, hbest]

end Matchbox
