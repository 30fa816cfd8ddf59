import Matchbox.Stream.ReplayRing

/-!
# How long the ring tells the truth

A ring against the list of all frames appended to it, without a bound on their number. The sequence numbers are 32 bits wide and wrap, and `oldest` and `holds` compare them as ordinary numbers. So the ring is what its interface says for the first `2 ^ 32 - 1` frames; the next one gets the number zero, which marks control frames, and the ring denies holding anything.
-/

namespace Matchbox

open Wire

namespace ReplayRing

/-- The ring after these calls of `append`, and the sequence numbers that they returned. -/
def appendAll (r : ReplayRing) : List Message → ReplayRing × List Nat
  | [] => (r, [])
  | m :: ms =>
      let rest := (r.append m).appendAll ms
      (rest.1, (r.append m).head :: rest.2)

/-- The ring `r` keeps the end of the stream `ms`, whose frames were stamped `seqs`. -/
structure Retains (r : ReplayRing) (ms : List Message) (seqs : List Nat) : Prop where
  increasing : seqs.Pairwise (· < ·)
  nonzero : ∀ seq ∈ seqs, seq ≠ 0
  /-- Exactly the last frames are held, as many as there are places. -/
  holds : ∀ seq < 2 ^ 32, r.holds seq = true ↔ seq ∈ seqs.drop (ms.length - min ms.length r.capacity)
  frame : ∀ (i : Nat) (m : Message) (seq : Nat), ms[i]? = some m → seqs[i]? = some seq → r.holds seq = true →
    r.frame seq = m.make seq ∧ (r.frame seq).length = m.type.size

theorem append_head (r : ReplayRing) (m : Message) : (r.append m).head = (r.head + 1) % word32 := rfl

theorem appendAll_seqs (r : ReplayRing) (ms : List Message) :
    (r.appendAll ms).2 = (List.range' 1 ms.length).map fun j => (r.head + j) % word32 := by
  induction ms generalizing r with
  | nil => rfl
  | cons m ms ih =>
      have hshift : (List.range' (1 + 1) ms.length).map (fun j => (r.head + j) % word32) =
          (List.range' 1 ms.length).map fun j => ((r.append m).head + j) % word32 := by
        rw [← List.map_add_range' 1, List.map_map]
        apply List.map_congr_left
        intro j _
        rw [append_head, Nat.mod_add_mod, Function.comp_apply, ← Nat.add_assoc]
      rw [appendAll, ih, List.length_cons, List.range'_succ, List.map_cons, hshift, append_head]

theorem appendAll_head (r : ReplayRing) (hr : r.head < word32) (ms : List Message) :
    (r.appendAll ms).1.head = (r.head + ms.length) % word32 := by
  induction ms generalizing r with
  | nil => exact (Nat.mod_eq_of_lt hr).symm
  | cons m ms ih =>
      have hlt : (r.append m).head < word32 := Nat.mod_lt _ (by decide)
      rw [appendAll]
      dsimp only
      rw [ih _ hlt, append_head, Nat.mod_add_mod, List.length_cons, Nat.add_assoc, Nat.add_comm 1]

theorem Holds.appendAll {published : List Message} {r : ReplayRing} (h : r.Holds published) (ms : List Message)
    (hfew : published.length + ms.length < word32) : (r.appendAll ms).1.Holds (published ++ ms) := by
  induction ms generalizing r published with
  | nil =>
      rw [List.append_nil]
      exact h
  | cons m ms ih =>
      rw [List.length_cons] at hfew
      have hnext := ih (h.append (by omega) m) (by rw [List.length_append, List.length_singleton]; omega)
      rw [List.append_assoc, List.singleton_append] at hnext
      exact hnext

theorem seqs_eq {k : Nat} {ms : List Message} (hfew : ms.length < word32) :
    (appendAll { capacityLog2 := k } ms).2 = List.range' 1 ms.length := by
  rw [appendAll_seqs]
  refine (List.map_congr_left fun j hj => ?_).trans (List.map_id _)
  rw [List.mem_range'_1] at hj
  rw [Nat.zero_add]
  exact Nat.mod_eq_of_lt (by omega)

/-- The numbers that are not older than the oldest one are those of the last frames. -/
theorem oldest_window (r : ReplayRing) {n : Nat} (hhead : r.head = n) (seq : Nat) :
    r.holds seq = true ↔ seq ∈ (List.range' 1 n).drop (n - min n r.capacity) := by
  have hpos : 0 < r.capacity := Nat.two_pow_pos _
  rw [holds_iff, oldest, hhead, List.drop_range', List.mem_range'_1]
  split <;> omega

theorem retains_of_lt (k : Nat) (ms : List Message) (hfew : ms.length < word32) :
    (appendAll { capacityLog2 := k } ms).1.Retains ms (appendAll { capacityLog2 := k } ms).2 := by
  have hheld : (appendAll { capacityLog2 := k } ms).1.Holds ms := by
    have hall := (Holds.init k).appendAll ms (by rw [List.length_nil, Nat.zero_add]; exact hfew)
    rw [List.nil_append] at hall
    exact hall
  rw [seqs_eq hfew]
  refine ⟨List.pairwise_lt_range', fun seq hseq => ?_, fun seq _ => ?_, fun i m seq hm hseq hin => ?_⟩
  · rw [List.mem_range'_1] at hseq
    omega
  · exact oldest_window _ hheld.head seq
  · obtain ⟨m', hm', hframe⟩ := hheld.bytes seq hin
    obtain ⟨hi, rfl⟩ := List.getElem?_eq_some_iff.1 hseq
    rw [List.getElem_range', Nat.one_mul, Nat.add_comm 1 i] at hm' hframe ⊢
    rw [Nat.add_sub_cancel, hm] at hm'
    cases hm'
    rw [hframe, Message.length_make]
    exact ⟨rfl, rfl⟩

/-- The frame that brings the counter around is stamped with zero. -/
theorem zero_mem_seqs {k : Nat} {ms : List Message} (hmany : word32 ≤ ms.length) :
    0 ∈ (appendAll { capacityLog2 := k } ms).2 := by
  rw [appendAll_seqs, List.mem_map]
  refine ⟨word32, ?_, ?_⟩
  · rw [List.mem_range'_1]
    simp only [word32] at hmany ⊢
    omega
  · rw [Nat.zero_add, Nat.mod_self]

/-- The ring keeps its promises exactly as long as fewer than `2 ^ 32` frames have been appended, whatever its size and whatever mix of frames. -/
theorem retains_iff (k : Nat) (ms : List Message) :
    (appendAll { capacityLog2 := k } ms).1.Retains ms (appendAll { capacityLog2 := k } ms).2 ↔ ms.length < 2 ^ 32 := by
  constructor
  · intro h
    by_contra hmany
    exact h.nonzero 0 (zero_mem_seqs (Nat.not_lt.1 hmany)) rfl
  · exact retains_of_lt k ms

/-- After `2 ^ 32` frames the default ring has stamped a zero and denies holding any of the last 65536. -/
theorem holds_nothing_at_wrap :
    let ms := List.replicate (2 ^ 32) (Message.top 0 10 (-1) 5 0)
    let after := appendAll { capacityLog2 := 16 } ms
    0 ∈ after.2 ∧ (∀ seq, after.1.holds seq = false) ∧ ¬ after.1.Retains ms after.2 := by
  intro ms after
  have hlength : ms.length = word32 := List.length_replicate
  have hhead : after.1.head = 0 := by
    rw [appendAll_head _ (by decide), hlength, Nat.zero_add, Nat.mod_self]
  have hzero : 0 ∈ after.2 := zero_mem_seqs hlength.ge
  refine ⟨hzero, fun seq => ?_, fun h => h.nonzero 0 hzero rfl⟩
  rw [Bool.eq_false_iff, Ne, holds_iff, hhead]
  omega

end ReplayRing

end Matchbox
