import Mathlib.Logic.Function.Basic
import Matchbox.Lib.Circular
import Matchbox.Wire.Message

/-!
# The replay ring

`replay_ring.hpp`: the last `2 ^ k` frames of the market-data stream, indexed by stream sequence. The buffer is kept slot by slot; a frame shorter than the one it replaces leaves the end of the old one behind it, and the length in the header says where it stops.
-/

namespace Matchbox

open Wire LittleEndian

structure ReplayRing where
  capacityLog2 : Nat
  /-- The pieces of `kMaxFrame` bytes that `buf_` consists of. -/
  slots : Nat → List UInt8 := fun _ => List.replicate kMaxFrame 0
  /-- Newest sequence number, zero when empty. -/
  head : Nat := 0

namespace ReplayRing

def capacity (r : ReplayRing) : Nat := 2 ^ r.capacityLog2

def slot (r : ReplayRing) (seq : Nat) : Nat := seq &&& (r.capacity - 1)

/-- Stamp the next sequence number on a frame and store it. -/
def append (r : ReplayRing) (m : Message) : ReplayRing :=
  let head := (r.head + 1) % word32
  let bytes := m.make head
  { r with
    head := head
    slots := Function.update r.slots (r.slot head) (bytes ++ (r.slots (r.slot head)).drop bytes.length) }

/-- Oldest sequence number still retained. -/
def oldest (r : ReplayRing) : Nat := if r.head > r.capacity then r.head - r.capacity + 1 else 1

def holds (r : ReplayRing) (seq : Nat) : Bool := r.oldest ≤ seq ∧ seq ≤ r.head ∧ seq ≠ 0

/-- The bytes of a frame; the caller checks `holds`. -/
def frame (r : ReplayRing) (seq : Nat) : List UInt8 :=
  let p := r.slots (r.slot seq)
  p.take (Header.ofBytes p).len

end ReplayRing

/-! ### The ring against the list of published frames -/

namespace Wire

theorem MsgType.size_le (t : MsgType) : t.size ≤ kMaxFrame := by
  cases t <;> decide

theorem Message.take_make (m : Message) (seq : Nat) (back : List UInt8) :
    (m.make seq ++ back).take (Header.ofBytes (m.make seq ++ back)).len = m.make seq := by
  have hsize := m.type.size_le
  rw [kMaxFrame] at hsize
  have hlen : (Header.ofBytes (m.make seq ++ back)).len = m.type.size := by
    rw [Message.make, List.append_assoc, Header.ofBytes_bytes]
    change m.type.size % 256 ^ 2 = m.type.size
    exact Nat.mod_eq_of_lt (by omega)
  rw [hlen, List.take_append_of_le_length (by simp), List.take_of_length_le (by simp)]

end Wire

namespace ReplayRing

theorem slot_eq (r : ReplayRing) (seq : Nat) : r.slot seq = seq % r.capacity :=
  Nat.and_two_pow_sub_one_eq_mod seq r.capacityLog2

/-- The ring after these frames, while the sequence numbers have not wrapped. -/
structure Holds (published : List Message) (r : ReplayRing) : Prop where
  head : r.head = published.length
  bytes : ∀ seq, r.holds seq → ∃ m, published[seq - 1]? = some m ∧ r.frame seq = m.make seq

theorem holds_iff (r : ReplayRing) (seq : Nat) : r.holds seq = true ↔ r.oldest ≤ seq ∧ seq ≤ r.head ∧ seq ≠ 0 := by
  simp [holds]

theorem one_le_oldest (r : ReplayRing) : 1 ≤ r.oldest := by
  rw [oldest]
  split <;> omega

/-- Nothing older than a full ring below the head is retained. -/
theorem head_lt_oldest_add (r : ReplayRing) : r.head < r.oldest + r.capacity := by
  rw [oldest]
  split
  · omega
  · omega

theorem oldest_le (r : ReplayRing) : r.oldest ≤ r.head + 1 := by
  have hpos : 0 < r.capacity := Nat.two_pow_pos _
  rw [oldest]
  split <;> omega

theorem Holds.init (k : Nat) : Holds [] { capacityLog2 := k } where
  head := rfl
  bytes := fun seq hseq => by
    rw [holds_iff] at hseq
    obtain ⟨-, hle, hne⟩ := hseq
    exact absurd (Nat.le_zero.1 hle) hne

/-- What a slot gives out after an `append`: the new frame if it is the slot of that, else what it gave out before. -/
theorem frame_append (r : ReplayRing) (m : Message) (seq : Nat) :
    (r.append m).frame seq = if r.slot seq = r.slot (r.append m).head then m.make (r.append m).head else r.frame seq := by
  have hslots : (r.append m).slots (r.slot seq) = if r.slot seq = r.slot (r.append m).head then
      m.make (r.append m).head ++ (r.slots (r.slot (r.append m).head)).drop (m.make (r.append m).head).length
      else r.slots (r.slot seq) := Function.update_apply ..
  rw [frame, show (r.append m).slot seq = r.slot seq from rfl, hslots]
  split
  · exact m.take_make _ _
  · rfl

/-- A new frame takes the slot of one that is no longer retained. -/
theorem Holds.append {published : List Message} {r : ReplayRing} (h : r.Holds published)
    (hlt : published.length + 1 < word32) (m : Message) : (r.append m).Holds (published ++ [m]) where
  head := by
    rw [List.length_append, List.length_singleton, ReplayRing.append, h.head]
    exact Nat.mod_eq_of_lt hlt
  bytes := by
    have hhead : (r.append m).head = r.head + 1 := by
      rw [ReplayRing.append, h.head]
      exact Nat.mod_eq_of_lt hlt
    have hcap : (r.append m).capacity = r.capacity := rfl
    intro seq hseq
    have hwindow := (r.append m).head_lt_oldest_add
    rw [holds_iff] at hseq
    obtain ⟨hold, hle, hne⟩ := hseq
    rw [hhead] at hle hwindow
    rw [hcap] at hwindow
    by_cases hnew : seq = r.head + 1
    · subst hnew
      refine ⟨m, ?_, ?_⟩
      · rw [Nat.add_sub_cancel, h.head, List.getElem?_concat_length]
      · rw [frame_append, hhead, if_pos rfl]
    · have hother : r.slot seq ≠ r.slot (r.head + 1) := by
        rw [slot_eq, slot_eq]
        intro heq
        have := Circular.slot_inj (a := (r.append m).oldest) hold (by omega) (by omega) (by omega) heq
        omega
      have hheld : r.holds seq = true := by
        rw [holds_iff]
        refine ⟨le_trans ?_ hold, by omega, hne⟩
        rw [oldest, oldest, hhead, hcap]
        split <;> split <;> omega
      obtain ⟨m', hm', hframe⟩ := h.bytes seq hheld
      refine ⟨m', ?_, ?_⟩
      · have hlt' : seq - 1 < published.length := (List.getElem?_eq_some_iff.1 hm').1
        rw [List.getElem?_append_left hlt', hm']
      · rw [frame_append, hhead, if_neg hother]
        exact hframe

end ReplayRing

end Matchbox
