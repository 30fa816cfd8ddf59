import Mathlib.Order.Bounds.Basic
import Mathlib.Data.Nat.Bitwise

/-!
# Bitmaps of 64-bit words

A set of naturals stored as a list of machine words, with the two word-wise searches for the next member above and below a given position. A search reads words by index; a read outside the list makes its result `none`, so an equation `scanUp bits start = some r` also says that every index was in range and that the loop ended.
-/

namespace Bitmap

abbrev Word := BitVec 64

/-- Membership of `n`. -/
def test (bits : List Word) (n : Nat) : Bool := (bits.getD (n / 64) 0#64).getLsbD (n % 64)

/-- `bits[n >> 6] |= 1 << (n & 63)`. -/
def set (bits : List Word) (n : Nat) : List Word :=
  bits.modify (n / 64) (· ||| 1#64 <<< (n % 64))

/-- `bits[n >> 6] &= ~(1 << (n & 63))`. -/
def clear (bits : List Word) (n : Nat) : List Word :=
  bits.modify (n / 64) (· &&& ~~~(1#64 <<< (n % 64)))

/-- The upward loop, at word index `w` with `word` the part of that word still to be searched. -/
def scanUpFrom (bits : List Word) : Nat → Nat → Word → Option (Option Nat)
  | 0, _, _ => none
  | fuel + 1, w, word =>
      if word ≠ 0#64 then some (some (64 * w + word.ctz.toNat))
      else if w + 1 = bits.length then some none
      else bits[w + 1]?.bind fun next => scanUpFrom bits fuel (w + 1) next

/-- The lowest member at or above `start`. -/
def scanUp (bits : List Word) (start : Nat) : Option (Option Nat) :=
  bits[start / 64]?.bind fun word =>
    scanUpFrom bits bits.length (start / 64) (word &&& BitVec.allOnes 64 <<< (start % 64))

/-- The downward loop, at word index `w`. -/
def scanDownFrom (bits : List Word) : Nat → Word → Option (Option Nat)
  | w, word =>
      if word ≠ 0#64 then some (some (64 * w + 63 - word.clz.toNat))
      else match w with
        | 0 => some none
        | w + 1 => bits[w]?.bind fun next => scanDownFrom bits w next

/-- The highest member at or below `start`. -/
def scanDown (bits : List Word) (start : Nat) : Option (Option Nat) :=
  bits[start / 64]?.bind fun word =>
    scanDownFrom bits (start / 64) (word &&& BitVec.allOnes 64 >>> (63 - start % 64))

/-! ### Membership after an update -/

theorem test_of_getElem {bits : List Word} {w i : Nat} {word : Word} (hword : bits[w]? = some word)
    (hi : i < 64) : test bits (64 * w + i) = word.getLsbD i := by
  have hdiv : (64 * w + i) / 64 = w := by omega
  have hmod : (64 * w + i) % 64 = i := by omega
  rw [test, hdiv, hmod, List.getD_eq_getElem?_getD, hword, Option.getD_some]

theorem ext_test {bits bits' : List Word} (hlength : bits'.length = bits.length)
    (htest : ∀ n, test bits' n = test bits n) : bits' = bits := by
  apply List.ext_getElem hlength
  intro w hw' hw
  apply BitVec.eq_of_getLsbD_eq
  intro i hi
  have hbit := htest (64 * w + i)
  rw [test_of_getElem (List.getElem?_eq_getElem hw') hi, test_of_getElem (List.getElem?_eq_getElem hw) hi] at hbit
  exact hbit

theorem test_replicate_zero (k n : Nat) : test (List.replicate k 0#64) n = false := by
  unfold test
  rw [List.getD_eq_getElem?_getD, List.getElem?_replicate]
  split <;> simp

@[simp] theorem length_set (bits : List Word) (n : Nat) : (set bits n).length = bits.length := by
  simp [set]

@[simp] theorem length_clear (bits : List Word) (n : Nat) : (clear bits n).length = bits.length := by
  simp [clear]

private theorem eq_of_word_bit {n m : Nat} (hdiv : m / 64 = n / 64) (hmod : m % 64 = n % 64) : m = n := by
  omega

private theorem getLsbD_one_shiftLeft (i j : Nat) (hj : j < 64) :
    (1#64 <<< i).getLsbD j = decide (i = j) := by
  rw [← BitVec.twoPow_eq, BitVec.getLsbD_twoPow]
  by_cases h : i = j
  · subst h
    simp [hj]
  · simp [h]

private theorem getD_modify {bits : List Word} {w : Nat} (f : Word → Word) (hw : w < bits.length) (v : Nat) :
    (bits.modify w f).getD v 0#64 = if w = v then f (bits.getD v 0#64) else bits.getD v 0#64 := by
  simp only [List.getD_eq_getElem?_getD, List.getElem?_modify]
  by_cases h : w = v
  · subst h
    simp [List.getElem?_eq_getElem hw]
  · simp [h]

theorem test_set {bits : List Word} {n : Nat} (hn : n < 64 * bits.length) (m : Nat) :
    test (set bits n) m = true ↔ test bits m = true ∨ m = n := by
  have hmod : m % 64 < 64 := Nat.mod_lt _ (by decide)
  unfold test set
  rw [getD_modify _ (by omega)]
  by_cases hw : n / 64 = m / 64
  · rw [if_pos hw, BitVec.getLsbD_or, getLsbD_one_shiftLeft _ _ hmod, Bool.or_eq_true, decide_eq_true_eq]
    exact or_congr_right ⟨fun h => eq_of_word_bit hw.symm h.symm, fun h => by rw [h]⟩
  · have hne : m ≠ n := fun h => hw (by rw [h])
    simp [hw, hne]

theorem test_clear {bits : List Word} {n : Nat} (hn : n < 64 * bits.length) (m : Nat) :
    test (clear bits n) m = true ↔ test bits m = true ∧ m ≠ n := by
  have hmod : m % 64 < 64 := Nat.mod_lt _ (by decide)
  unfold test clear
  rw [getD_modify _ (by omega)]
  by_cases hw : n / 64 = m / 64
  · rw [if_pos hw, BitVec.getLsbD_and, BitVec.getLsbD_not, getLsbD_one_shiftLeft _ _ hmod, Bool.and_eq_true]
    simp only [hmod, decide_true, Bool.true_and, Bool.not_eq_true', decide_eq_false_iff_not]
    exact and_congr_right fun _ => not_congr ⟨fun h => eq_of_word_bit hw.symm h.symm, fun h => by rw [h]⟩
  · have hne : m ≠ n := fun h => hw (by rw [h])
    simp [hw, hne]

/-! ### The searches -/

/-- What an upward search from `start` has to return. -/
def FoundUp (bits : List Word) (start : Nat) : Option Nat → Prop
  | some n => IsLeast {m | start ≤ m ∧ test bits m = true} n
  | none => ∀ m, start ≤ m → test bits m = false

/-- What a downward search from `start` has to return. -/
def FoundDown (bits : List Word) (start : Nat) : Option Nat → Prop
  | some n => IsGreatest {m | m ≤ start ∧ test bits m = true} n
  | none => ∀ m, m ≤ start → test bits m = false

theorem test_eq_false_of_length_le {bits : List Word} {n : Nat} (hn : 64 * bits.length ≤ n) :
    test bits n = false := by
  have hlen : bits.length ≤ n / 64 := by omega
  simp [test, List.getD_eq_getElem?_getD, List.getElem?_eq_none hlen]

private theorem ctz_lt {word : Word} (hne : word ≠ 0#64) : word.ctz.toNat < 64 := by
  have h := BitVec.ctz_lt_iff_ne_zero.mpr hne
  simpa [BitVec.lt_def] using h

private theorem clz_lt {word : Word} (hne : word ≠ 0#64) : word.clz.toNat < 64 := by
  have h := BitVec.clz_lt_iff_ne_zero.mpr hne
  simpa [BitVec.lt_def] using h

private theorem getLsbD_of_clz_lt {word : Word} (hne : word ≠ 0#64) {i : Nat}
    (hi : 63 - word.clz.toNat < i) : word.getLsbD i = false := by
  have hlt := BitVec.toNat_lt_two_pow_sub_clz (x := word)
  have hclz := clz_lt hne
  rw [BitVec.getLsbD]
  refine Nat.testBit_lt_two_pow (lt_of_lt_of_le hlt (Nat.pow_le_pow_right (by decide) ?_))
  omega

-- `word` holds the members of word `w` that are still wanted, and nothing wanted lies below it.
private theorem scanUpFrom_spec {bits : List Word} {start : Nat} :
    ∀ (fuel w : Nat) (word : Word), bits.length ≤ w + fuel → w < bits.length → start < 64 * (w + 1) →
      (∀ i < 64, word.getLsbD i = true ↔ start ≤ 64 * w + i ∧ test bits (64 * w + i) = true) →
      (∀ m, start ≤ m → m < 64 * w → test bits m = false) →
      ∃ r, scanUpFrom bits fuel w word = some r ∧ FoundUp bits start r := by
  intro fuel
  induction fuel with
  | zero => intro w word hfuel hw; omega
  | succ fuel ih =>
      intro w word hfuel hw hstart hword hbelow
      by_cases hzero : word = 0#64
      · -- Nothing wanted in this word: on to the next one, or the end of the bitmap.
        have hbelow' : ∀ m, start ≤ m → m < 64 * (w + 1) → test bits m = false := by
          intro m hm hlt
          by_cases hmw : m < 64 * w
          · exact hbelow m hm hmw
          · have h := hword (m - 64 * w) (by omega)
            rw [show 64 * w + (m - 64 * w) = m by omega, hzero] at h
            simpa [hm] using h
        by_cases hlast : w + 1 = bits.length
        · refine ⟨none, by simp [scanUpFrom, hzero, hlast], fun m hm => ?_⟩
          by_cases hmlt : m < 64 * (w + 1)
          · exact hbelow' m hm hmlt
          · exact test_eq_false_of_length_le (by omega)
        · have hnext : w + 1 < bits.length := by omega
          have hget := List.getElem?_eq_getElem hnext
          have hword' : ∀ i < 64, bits[w + 1].getLsbD i = true ↔
              start ≤ 64 * (w + 1) + i ∧ test bits (64 * (w + 1) + i) = true := by
            intro i hi
            rw [test_of_getElem hget hi]
            exact ⟨fun h => ⟨by omega, h⟩, fun h => h.2⟩
          obtain ⟨r, hr, hfound⟩ := ih (w + 1) bits[w + 1] (by omega) hnext (by omega) hword' hbelow'
          exact ⟨r, by simp [scanUpFrom, hzero, hlast, hget, hr], hfound⟩
      · have hbit := (hword _ (ctz_lt hzero)).mp (BitVec.getLsbD_true_ctz_of_ne_zero hzero)
        refine ⟨some (64 * w + word.ctz.toNat), by simp [scanUpFrom, hzero], hbit, ?_⟩
        rintro m ⟨hm, htest⟩
        by_contra hlt
        have hmw : 64 * w ≤ m := by
          by_contra hmw
          rw [hbelow m hm (by omega)] at htest
          exact absurd htest (by decide)
        have h := (hword (m - 64 * w) (by have := ctz_lt hzero; omega)).mpr
          (by rw [show 64 * w + (m - 64 * w) = m by omega]; exact ⟨hm, htest⟩)
        rw [BitVec.getLsbD_false_of_lt_ctz (by omega)] at h
        exact absurd h (by decide)

theorem scanUp_spec {bits : List Word} {start : Nat} (hstart : start < 64 * bits.length) :
    ∃ r, scanUp bits start = some r ∧ FoundUp bits start r := by
  have hw : start / 64 < bits.length := by omega
  have hget := List.getElem?_eq_getElem hw
  rw [scanUp, hget]
  refine scanUpFrom_spec _ _ _ (by omega) hw (by omega) (fun i hi => ?_) (fun m hm hlt => by omega)
  rw [test_of_getElem hget hi, BitVec.getLsbD_and, BitVec.getLsbD_shiftLeft, BitVec.getLsbD_allOnes]
  simp only [hi, decide_true, Bool.true_and, Bool.and_eq_true, Bool.not_eq_true', decide_eq_false_iff_not,
    decide_eq_true_eq]
  constructor
  · rintro ⟨h, hle, _⟩
    exact ⟨by omega, h⟩
  · rintro ⟨hle, h⟩
    exact ⟨h, by omega, by omega⟩

/-- A nonzero word of the downward loop holds the answer at its leading one. -/
private theorem scanDownFrom_hit {bits : List Word} {start w : Nat} {word : Word} (hne : word ≠ 0#64)
    (hword : ∀ i < 64, word.getLsbD i = true ↔ 64 * w + i ≤ start ∧ test bits (64 * w + i) = true)
    (habove : ∀ m, m ≤ start → 64 * (w + 1) ≤ m → test bits m = false) :
    FoundDown bits start (some (64 * w + 63 - word.clz.toNat)) := by
  have hclz := clz_lt hne
  have hpos : 64 * w + 63 - word.clz.toNat = 64 * w + (63 - word.clz.toNat) := by omega
  rw [hpos]
  refine ⟨(hword _ (by omega)).mp (BitVec.getLsbD_true_clz_of_ne_zero (by decide) hne), ?_⟩
  rintro m ⟨hm, htest⟩
  by_contra hlt
  have hmw : m < 64 * (w + 1) := by
    by_contra hmw
    rw [habove m hm (by omega)] at htest
    exact absurd htest (by decide)
  have h := (hword (m - 64 * w) (by omega)).mpr
    (by rw [show 64 * w + (m - 64 * w) = m by omega]; exact ⟨hm, htest⟩)
  rw [getLsbD_of_clz_lt hne (by omega)] at h
  exact absurd h (by decide)

private theorem scanDownFrom_spec {bits : List Word} {start : Nat} :
    ∀ (w : Nat) (word : Word), w < bits.length → 64 * w ≤ start →
      (∀ i < 64, word.getLsbD i = true ↔ 64 * w + i ≤ start ∧ test bits (64 * w + i) = true) →
      (∀ m, m ≤ start → 64 * (w + 1) ≤ m → test bits m = false) →
      ∃ r, scanDownFrom bits w word = some r ∧ FoundDown bits start r := by
  intro w
  induction w with
  | zero =>
      intro word hw hstart hword habove
      by_cases hzero : word = 0#64
      · refine ⟨none, by simp [scanDownFrom, hzero], fun m hm => ?_⟩
        by_cases hlt : m < 64
        · have h := hword m hlt
          rw [show 64 * 0 + m = m by omega, hzero] at h
          simpa [hm] using h
        · exact habove m hm (by omega)
      · exact ⟨_, by rw [scanDownFrom, if_pos hzero], scanDownFrom_hit hzero hword habove⟩
  | succ w ih =>
      intro word hw hstart hword habove
      by_cases hzero : word = 0#64
      · have hget := List.getElem?_eq_getElem (show w < bits.length by omega)
        have hword' : ∀ i < 64, bits[w].getLsbD i = true ↔ 64 * w + i ≤ start ∧ test bits (64 * w + i) = true := by
          intro i hi
          rw [test_of_getElem hget hi]
          exact ⟨fun h => ⟨by omega, h⟩, fun h => h.2⟩
        have habove' : ∀ m, m ≤ start → 64 * (w + 1) ≤ m → test bits m = false := by
          intro m hm hle
          by_cases hmw : 64 * (w + 1 + 1) ≤ m
          · exact habove m hm hmw
          · have h := hword (m - 64 * (w + 1)) (by omega)
            rw [show 64 * (w + 1) + (m - 64 * (w + 1)) = m by omega, hzero] at h
            simpa [hm] using h
        obtain ⟨r, hr, hfound⟩ := ih bits[w] (by omega) (by omega) hword' habove'
        exact ⟨r, by simp [scanDownFrom, hzero, hget, hr], hfound⟩
      · exact ⟨_, by rw [scanDownFrom, if_pos hzero], scanDownFrom_hit hzero hword habove⟩

theorem scanDown_spec {bits : List Word} {start : Nat} (hstart : start < 64 * bits.length) :
    ∃ r, scanDown bits start = some r ∧ FoundDown bits start r := by
  have hw : start / 64 < bits.length := by omega
  have hget := List.getElem?_eq_getElem hw
  rw [scanDown, hget]
  refine scanDownFrom_spec _ _ hw (by omega) (fun i hi => ?_) (fun m hm hle => by omega)
  rw [test_of_getElem hget hi, BitVec.getLsbD_and, BitVec.getLsbD_ushiftRight, BitVec.getLsbD_allOnes]
  simp only [Bool.and_eq_true, decide_eq_true_eq]
  constructor
  · rintro ⟨h, hle⟩
    exact ⟨by omega, h⟩
  · rintro ⟨hle, h⟩
    exact ⟨h, by omega⟩

end Bitmap
