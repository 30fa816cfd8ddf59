import Mathlib.Data.Nat.Basic
import Mathlib.Data.BitVec
import Mathlib.Tactic.Common

/-!
# Free-running indices

Two counters that only grow are kept in machine words of `w` bits, and their low `k` bits select a slot of a buffer of `2 ^ k` places. As long as the counters are at most `2 ^ k` apart, and `k < w`, the words say as much as the counters: differences and equality are read off the words, and counters inside one window of `2 ^ k` select different slots. The words may wrap around at any point.
-/

namespace Circular

variable {w k a b : Nat}

theorem toNat_sub (hle : b ≤ a) (hlt : a - b < 2 ^ w) :
    (BitVec.ofNat w a - BitVec.ofNat w b).toNat = a - b := by
  obtain ⟨d, rfl⟩ := Nat.exists_eq_add_of_le hle
  rw [Nat.add_sub_cancel_left] at hlt ⊢
  have hsum : BitVec.ofNat w (b + d) - BitVec.ofNat w b = BitVec.ofNat w d := by
    rw [BitVec.ofNat_add, BitVec.add_comm, BitVec.add_sub_cancel]
  rw [hsum, BitVec.toNat_ofNat, Nat.mod_eq_of_lt hlt]

theorem two_pow_lt (hk : k < w) : 2 ^ k < 2 ^ w := Nat.pow_lt_pow_right (by decide) hk

theorem toNat_size (hk : k < w) : (1#w <<< k).toNat = 2 ^ k := by
  have hw : 1 < 2 ^ w := Nat.one_lt_two_pow (by omega)
  rw [BitVec.toNat_shiftLeft, BitVec.toNat_ofNat, Nat.mod_eq_of_lt hw, Nat.one_shiftLeft,
    Nat.mod_eq_of_lt (two_pow_lt hk)]

/-- The full test on words is the full test on counters. -/
theorem size_le_sub (hk : k < w) (hle : b ≤ a) (hwin : a ≤ b + 2 ^ k) :
    1#w <<< k ≤ BitVec.ofNat w a - BitVec.ofNat w b ↔ a = b + 2 ^ k := by
  have hpow := two_pow_lt hk
  rw [BitVec.le_def, toNat_size hk, toNat_sub hle (by omega)]
  omega

/-- The empty test on words is the empty test on counters. -/
theorem ofNat_eq_iff (hk : k < w) (hle : b ≤ a) (hwin : a ≤ b + 2 ^ k) :
    BitVec.ofNat w b = BitVec.ofNat w a ↔ b = a := by
  have hpow := two_pow_lt hk
  refine ⟨fun heq => ?_, fun heq => by rw [heq]⟩
  have hsub : (BitVec.ofNat w a - BitVec.ofNat w b).toNat = a - b := toNat_sub hle (by omega)
  rw [heq, BitVec.sub_self, BitVec.toNat_ofNat, Nat.zero_mod] at hsub
  omega

/-- Masking the word gives the counter modulo the size. -/
theorem toNat_and_mask (hk : k < w) (a : Nat) :
    (BitVec.ofNat w a &&& (1#w <<< k - 1#w)).toNat = a % 2 ^ k := by
  have hw : 1 < 2 ^ w := Nat.one_lt_two_pow (by omega)
  have hone : (1#w).toNat = 1 := by rw [BitVec.toNat_ofNat, Nat.mod_eq_of_lt hw]
  have hmask : (1#w <<< k - 1#w).toNat = 2 ^ k - 1 := by
    rw [BitVec.toNat_sub_of_le, toNat_size hk, hone]
    rw [BitVec.le_def, toNat_size hk, hone]
    exact Nat.one_le_two_pow
  rw [BitVec.toNat_and, hmask, BitVec.toNat_ofNat, Nat.and_two_pow_sub_one_eq_mod,
    Nat.mod_mod_of_dvd _ (pow_dvd_pow 2 hk.le)]

/-- Counters inside one window select different slots. -/
theorem slot_inj {n i j : Nat} (hi : a ≤ i) (hi' : i < a + n) (hj : a ≤ j) (hj' : j < a + n)
    (heq : i % n = j % n) : i = j := by
  have hmod : i ≡ j [MOD n] := heq
  rcases Nat.le_total i j with hle | hle
  · have hdvd := (Nat.modEq_iff_dvd' hle).1 hmod
    have := Nat.eq_zero_of_dvd_of_lt hdvd (by omega)
    omega
  · have hdvd := (Nat.modEq_iff_dvd' hle).1 hmod.symm
    have := Nat.eq_zero_of_dvd_of_lt hdvd (by omega)
    omega

end Circular
