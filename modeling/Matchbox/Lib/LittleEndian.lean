import Mathlib.Algebra.Group.Nat.Defs
import Mathlib.Data.Nat.Basic
import Mathlib.Tactic.Common

/-!
# Little-endian fields

Fixed-width integers in a byte string, lowest byte first: `encode` writes one, `decode` reads a whole string as one, and `field` reads the one of a given width at a given offset.
-/

namespace LittleEndian

/-- The low `width` bytes of a number. -/
def encode : Nat → Nat → List UInt8
  | 0, _ => []
  | width + 1, v => UInt8.ofNat v :: encode width (v / 256)

def decode : List UInt8 → Nat
  | [] => 0
  | b :: bs => b.toNat + 256 * decode bs

def field (bytes : List UInt8) (offset width : Nat) : Nat := decode ((bytes.drop offset).take width)

@[simp] theorem length_encode (width v : Nat) : (encode width v).length = width := by
  induction width generalizing v with
  | zero => rfl
  | succ width ih => simp [encode, ih]

theorem decode_lt (bytes : List UInt8) : decode bytes < 256 ^ bytes.length := by
  induction bytes with
  | nil => simp [decode]
  | cons b bs ih =>
      have hb := b.toNat_lt
      rw [decode, List.length_cons, Nat.pow_succ]
      omega

theorem decode_encode (width v : Nat) : decode (encode width v) = v % 256 ^ width := by
  induction width generalizing v with
  | zero => simp [encode, decode, Nat.mod_one]
  | succ width ih =>
      rw [encode, decode, ih, Nat.pow_succ, Nat.mul_comm (256 ^ width), Nat.mod_mul]
      simp

theorem field_append_left {front : List UInt8} (back : List UInt8) {offset width : Nat}
    (h : offset + width ≤ front.length) : field (front ++ back) offset width = field front offset width := by
  rw [field, field, List.drop_append_of_le_length (by omega), List.take_append_of_le_length]
  rw [List.length_drop]
  omega

theorem field_append_right (front back : List UInt8) (offset width : Nat) :
    field (front ++ back) (front.length + offset) width = field back offset width := by
  rw [field, field, ← List.drop_drop, List.drop_left]

theorem field_skip (w v : Nat) (back : List UInt8) {offset : Nat} (width : Nat) (h : w ≤ offset) :
    field (encode w v ++ back) offset width = field back (offset - w) width := by
  have hskip := field_append_right (encode w v) back (offset - w) width
  rw [length_encode, Nat.add_sub_cancel' h] at hskip
  exact hskip

theorem field_encode (width v : Nat) (back : List UInt8) :
    field (encode width v ++ back) 0 width = v % 256 ^ width := by
  rw [field_append_left back (by simp), field, List.drop_zero, List.take_of_length_le (by simp), decode_encode]

end LittleEndian
