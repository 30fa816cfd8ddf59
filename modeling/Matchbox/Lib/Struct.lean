import Mathlib.Algebra.Order.Ring.Int
import Mathlib.Tactic.Positivity
import Mathlib.Tactic.Zify
import Matchbox.Lib.LittleEndian

/-!
# Packed binary data

The `struct` module of Python, for formats that begin with `<`: little-endian fields of standard sizes, without alignment. A format is a list of codes, each a field or some padding. `pack` refuses a wrong number of values and a value outside the range of its field, and `unpack` a string of another length than the format's; both refusals are exceptions in Python.
-/

namespace Struct

open LittleEndian

inductive Code where
  | unsigned (width : Nat)
  /-- Two's complement. -/
  | signed (width : Nat)
  /-- Written as zeros and skipped. -/
  | pad (width : Nat)
deriving DecidableEq, Repr

namespace Code

abbrev B : Code := .unsigned 1

abbrev H : Code := .unsigned 2

abbrev I : Code := .unsigned 4

abbrev Q : Code := .unsigned 8

abbrev q : Code := .signed 8

abbrev x (n : Nat) : Code := .pad n

def width : Code → Nat
  | .unsigned w | .signed w | .pad w => w

end Code

def calcsize (fmt : List Code) : Nat := (fmt.map Code.width).sum

/-- There is one value for each field, and it is in its range. -/
def fits : List Code → List Int → Bool
  | [], [] => true
  | .pad _ :: fmt, vs => fits fmt vs
  | .unsigned w :: fmt, v :: vs => decide (0 ≤ v ∧ v < 256 ^ w) && fits fmt vs
  | .signed w :: fmt, v :: vs => decide (-256 ^ w ≤ 2 * v ∧ 2 * v < 256 ^ w) && fits fmt vs
  | _, _ => false

/-- The bytes of values that fit. -/
def image : List Code → List Int → List UInt8
  | .pad n :: fmt, vs => encode n 0 ++ image fmt vs
  | .unsigned w :: fmt, v :: vs => encode w v.toNat ++ image fmt vs
  | .signed w :: fmt, v :: vs => encode w (v % 256 ^ w).toNat ++ image fmt vs
  | _, _ => []

def pack (fmt : List Code) (vs : List Int) : Option (List UInt8) :=
  if fits fmt vs then some (image fmt vs) else none

/-- The values in front of a string. -/
def values : List Code → List UInt8 → List Int
  | [], _ => []
  | .pad n :: fmt, bytes => values fmt (bytes.drop n)
  | .unsigned w :: fmt, bytes => (decode (bytes.take w) : Int) :: values fmt (bytes.drop w)
  | .signed w :: fmt, bytes => Int.bmod (decode (bytes.take w)) (256 ^ w) :: values fmt (bytes.drop w)

def unpack (fmt : List Code) (bytes : List UInt8) : Option (List Int) :=
  if bytes.length = calcsize fmt then some (values fmt bytes) else none

/-! ### One field -/

theorem take_encode (w v : Nat) (bytes : List UInt8) : (encode w v ++ bytes).take w = encode w v := by
  rw [List.take_append_of_le_length (length_encode w v).ge, List.take_of_length_le (length_encode w v).le]

theorem drop_encode (w v : Nat) (bytes : List UInt8) : (encode w v ++ bytes).drop w = bytes :=
  List.drop_left' (length_encode w v)

theorem decode_unsigned {w : Nat} {v : Int} (hpos : 0 ≤ v) (hlt : v < 256 ^ w) :
    (decode (encode w v.toNat) : Int) = v := by
  have hnat : v.toNat < 256 ^ w := by
    zify
    rw [Int.toNat_of_nonneg hpos]
    exact hlt
  rw [decode_encode, Nat.mod_eq_of_lt hnat, Int.toNat_of_nonneg hpos]

theorem decode_signed {w : Nat} {v : Int} (hlow : -256 ^ w ≤ 2 * v) (hhigh : 2 * v < 256 ^ w) :
    Int.bmod (decode (encode w (v % 256 ^ w).toNat)) (256 ^ w) = v := by
  have hpos : (0 : Int) < 256 ^ w := by positivity
  have hcast : ((256 ^ w : Nat) : Int) = 256 ^ w := by push_cast; rfl
  rw [decode_unsigned (Int.emod_nonneg _ hpos.ne') (Int.emod_lt_of_pos _ hpos), ← hcast, Int.emod_bmod]
  apply Int.bmod_eq_of_le <;> omega

/-! ### Packing and unpacking -/

theorem length_image {fmt : List Code} {vs : List Int} (h : fits fmt vs = true) :
    (image fmt vs).length = calcsize fmt := by
  fun_induction fits fmt vs with
  | case1 => rfl
  | case2 n fmt vs ih =>
      rw [image, List.length_append, length_encode, ih h]
      rfl
  | case3 w fmt v vs ih =>
      rw [image, List.length_append, length_encode, ih (Bool.and_eq_true_iff.1 h).2]
      rfl
  | case4 w fmt v vs ih =>
      rw [image, List.length_append, length_encode, ih (Bool.and_eq_true_iff.1 h).2]
      rfl
  | case5 => cases h

theorem values_image {fmt : List Code} {vs : List Int} (h : fits fmt vs = true) : values fmt (image fmt vs) = vs := by
  fun_induction fits fmt vs with
  | case1 => rfl
  | case2 n fmt vs ih => rw [image, values, drop_encode, ih h]
  | case3 w fmt v vs ih =>
      obtain ⟨hrange, hrest⟩ := Bool.and_eq_true_iff.1 h
      obtain ⟨hpos, hlt⟩ := of_decide_eq_true hrange
      rw [image, values, take_encode, drop_encode, decode_unsigned hpos hlt, ih hrest]
  | case4 w fmt v vs ih =>
      obtain ⟨hrange, hrest⟩ := Bool.and_eq_true_iff.1 h
      obtain ⟨hlow, hhigh⟩ := of_decide_eq_true hrange
      rw [image, values, take_encode, drop_encode, decode_signed hlow hhigh, ih hrest]
  | case5 => cases h

theorem unpack_pack {fmt : List Code} {vs : List Int} {bytes : List UInt8} (h : pack fmt vs = some bytes) :
    unpack fmt bytes = some vs := by
  rw [pack] at h
  split at h
  case isTrue hfits =>
    cases h
    rw [unpack, if_pos (length_image hfits), values_image hfits]
  case isFalse => cases h

theorem image_append {fmt : List Code} {vs : List Int} (h : fits fmt vs = true) (fmt' : List Code) (vs' : List Int) :
    image (fmt ++ fmt') (vs ++ vs') = image fmt vs ++ image fmt' vs' := by
  fun_induction fits fmt vs with
  | case1 => rfl
  | case2 n fmt vs ih => rw [List.cons_append, image, image, ih h, List.append_assoc]
  | case3 w fmt v vs ih =>
      rw [List.cons_append, List.cons_append, image, image, ih (Bool.and_eq_true_iff.1 h).2, List.append_assoc]
  | case4 w fmt v vs ih =>
      rw [List.cons_append, List.cons_append, image, image, ih (Bool.and_eq_true_iff.1 h).2, List.append_assoc]
  | case5 => cases h

theorem fits_append {fmt : List Code} {vs : List Int} (h : fits fmt vs = true) (fmt' : List Code) (vs' : List Int) :
    fits (fmt ++ fmt') (vs ++ vs') = fits fmt' vs' := by
  fun_induction fits fmt vs with
  | case1 => rfl
  | case2 n fmt vs ih => rw [List.cons_append, fits, ih h]
  | case3 w fmt v vs ih =>
      obtain ⟨hrange, hrest⟩ := Bool.and_eq_true_iff.1 h
      rw [List.cons_append, List.cons_append, fits, hrange, Bool.true_and, ih hrest]
  | case4 w fmt v vs ih =>
      obtain ⟨hrange, hrest⟩ := Bool.and_eq_true_iff.1 h
      rw [List.cons_append, List.cons_append, fits, hrange, Bool.true_and, ih hrest]
  | case5 => cases h

/-- A header in front of a record that was packed with another one. -/
theorem splice {hdr fmt : List Code} {hv hv' vs : List Int} (hfits : fits hdr hv = true) (hfits' : fits hdr hv' = true) :
    image hdr hv ++ (image (hdr ++ fmt) (hv' ++ vs)).drop (calcsize hdr) = image (hdr ++ fmt) (hv ++ vs) := by
  rw [image_append hfits, image_append hfits', List.drop_left' (length_image hfits')]

end Struct
