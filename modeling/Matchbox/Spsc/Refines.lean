import Matchbox.Lib.Circular
import Matchbox.Spsc.Queue

/-!
# The ring is a bounded queue

Behind the four machine words stand four counters that never wrap: how many values were popped and pushed, and the two values each side last saw of the other's. `Counters` keeps them in order, so that the words are always close enough together to be compared, and `Inv` ties the words, the buffer and the places of the two threads to them. Each access then either leaves the queue as it is or is one operation of the sequential queue: `Simulated` for one step, `run_simulated` for a whole schedule.
-/

namespace Matchbox.SpscQueue

open BoundedFifo

variable {α : Type} {k : Nat}

/-- The unbounded counters behind the four indices of a ring of `n` slots. -/
structure Counters (n : Nat) where
  head : Nat
  cachedTail : Nat
  tail : Nat
  cachedHead : Nat
  cachedHead_le : cachedHead ≤ head
  head_le : head ≤ cachedTail
  cachedTail_le : cachedTail ≤ tail
  tail_le : tail ≤ cachedHead + n

/-- The values pushed and not popped, oldest first. -/
def Counters.contents {n : Nat} (c : Counters n) (buf : Nat → α) : List α :=
  (List.range' c.head (c.tail - c.head)).map fun i => buf (i % n)

/-- The slots written beyond `tail`: one, between the write and the store of the index. -/
def Producer.ahead : Producer α → Nat
  | .storeTail _ _ => 1
  | _ => 0

/-- What the producer knows between two accesses. -/
def Producer.Knows (c : Counters (2 ^ k)) (q : SpscQueue α) : Producer α → Prop
  | .idle => True
  | .loadTail _ => True
  | .loadHead _ t => t = q.tail
  | .write _ t => t = q.tail ∧ c.tail < c.cachedHead + 2 ^ k
  | .storeTail v t => t = q.tail ∧ c.tail < c.cachedHead + 2 ^ k ∧ q.buf (c.tail % 2 ^ k) = v

/-- What the consumer knows between two accesses. -/
def Consumer.Knows (c : Counters (2 ^ k)) (q : SpscQueue α) : Consumer α → Prop
  | .idle => True
  | .loadHead => True
  | .loadTail h => h = q.head
  | .read h => h = q.head ∧ c.head < c.cachedTail
  | .storeHead h out => h = q.head ∧ c.head < c.cachedTail ∧ q.buf (c.head % 2 ^ k) = out

structure Inv (c : Counters (2 ^ k)) (s : Threads α) : Prop where
  log2 : s.queue.capacityLog2 = k
  head : s.queue.head = BitVec.ofNat 64 c.head
  cachedTail : s.queue.cachedTail = BitVec.ofNat 64 c.cachedTail
  tail : s.queue.tail = BitVec.ofNat 64 c.tail
  cachedHead : s.queue.cachedHead = BitVec.ofNat 64 c.cachedHead
  producer : s.producer.Knows c s.queue
  consumer : s.consumer.Knows c s.queue
  occupied : ∀ j, s.occupied j = true ↔ ∃ i, c.head ≤ i ∧ i < c.tail + s.producer.ahead ∧ i % 2 ^ k = j

/-- One step against the sequential queue: its operations, if any, lead from the old contents to the new. -/
structure Simulated (c : Counters (2 ^ k)) (s : Threads α) (c' : Counters (2 ^ k)) (r : Threads α × List (Op α)) :
    Prop where
  inv : Inv c' r.1
  run : Run (2 ^ k) (c.contents s.queue.buf) r.2 (c'.contents r.1.queue.buf)
  tail : c'.tail = c.tail + (pushes r.2).length
  head : c'.head = c.head + (pops r.2).length

section Contents

variable {n : Nat} (c : Counters n)

theorem Counters.length_contents (buf : Nat → α) : (c.contents buf).length = c.tail - c.head := by
  simp [contents]

theorem Counters.contents_update (buf : Nat → α) (hroom : c.tail < c.cachedHead + n) (v : α) :
    c.contents (Function.update buf (c.tail % n) v) = c.contents buf := by
  have hcached := c.cachedHead_le
  apply List.map_congr_left
  intro i hi
  rw [List.mem_range'_1] at hi
  have hne : i % n ≠ c.tail % n := fun heq => by
    have := Circular.slot_inj (n := n) hi.1 (by omega) (by omega) (by omega) heq
    omega
  exact Function.update_of_ne hne v buf

end Contents

section Steps

variable {c : Counters (2 ^ k)} {s : Threads α}

theorem Inv.slot_ofNat (h : Inv c s) (hk : k < 64) (i : Nat) : s.queue.slot (BitVec.ofNat 64 i) = i % 2 ^ k := by
  rw [slot, mask, size, h.log2]
  exact Circular.toNat_and_mask hk i

theorem Inv.slot_tail (h : Inv c s) (hk : k < 64) : s.queue.slot s.queue.tail = c.tail % 2 ^ k := by
  rw [h.tail, h.slot_ofNat hk]

theorem Inv.slot_head (h : Inv c s) (hk : k < 64) : s.queue.slot s.queue.head = c.head % 2 ^ k := by
  rw [h.head, h.slot_ofNat hk]

/-- The slots in use, the one just written included, fit into one window. -/
theorem Inv.ahead_le (h : Inv c s) : c.tail + s.producer.ahead ≤ c.head + 2 ^ k := by
  have h₁ := c.cachedHead_le
  have h₄ := c.tail_le
  cases hp : s.producer with
  | storeTail v t =>
      have hknows := h.producer
      rw [hp] at hknows
      have hroom := hknows.2.1
      simp only [Producer.ahead]
      omega
  | _ =>
      simp only [Producer.ahead]
      omega

theorem Inv.setProducer (h : Inv c s) {p : Producer α} (hp : p.Knows c s.queue)
    (hahead : p.ahead = s.producer.ahead) : Inv c { s with producer := p } :=
  { h with producer := hp, occupied := fun j => by rw [h.occupied j, hahead] }

theorem Inv.setConsumer (h : Inv c s) {p : Consumer α} (hp : p.Knows c s.queue) :
    Inv c { s with consumer := p } :=
  { h with consumer := hp }

theorem Inv.quiet {s' : Threads α} (h : Inv c s') (hbuf : s'.queue.buf = s.queue.buf) :
    Simulated c s c (s', []) where
  inv := h
  run := by rw [hbuf]; exact .refl _
  tail := rfl
  head := rfl

theorem Producer.Knows.frame {p : Producer α} {q q' : SpscQueue α} {c' : Counters (2 ^ k)} (h : p.Knows c q)
    (htail : c'.tail = c.tail) (hcached : c.cachedHead ≤ c'.cachedHead) (hword : q'.tail = q.tail)
    (hbuf : q'.buf = q.buf) : p.Knows c' q' := by
  cases p with
  | idle => trivial
  | loadTail v => trivial
  | loadHead v t => exact h.trans hword.symm
  | write v t =>
      obtain ⟨ht, hroom⟩ := h
      exact ⟨ht.trans hword.symm, by omega⟩
  | storeTail v t =>
      obtain ⟨ht, hroom, hv⟩ := h
      exact ⟨ht.trans hword.symm, by omega, by rw [htail, hbuf, hv]⟩

theorem Consumer.Knows.frame {p : Consumer α} {q q' : SpscQueue α} {c' : Counters (2 ^ k)} (h : p.Knows c q)
    (hhead : c'.head = c.head) (hcached : c.cachedTail ≤ c'.cachedTail) (hword : q'.head = q.head)
    (hbuf : c.head < c.cachedTail → q'.buf (c.head % 2 ^ k) = q.buf (c.head % 2 ^ k)) : p.Knows c' q' := by
  cases p with
  | idle => trivial
  | loadHead => trivial
  | loadTail v => exact h.trans hword.symm
  | read v =>
      obtain ⟨hv, hsome⟩ := h
      exact ⟨hv.trans hword.symm, by omega⟩
  | storeHead v out =>
      obtain ⟨hv, hsome, hout⟩ := h
      exact ⟨hv.trans hword.symm, by omega, by rw [hhead, hbuf hsome, hout]⟩

/-! ### The producer's accesses -/

theorem Inv.size_le (h : Inv c s) (hk : k < 64) :
    s.queue.size ≤ s.queue.tail - s.queue.cachedHead ↔ c.tail = c.cachedHead + 2 ^ k := by
  have h₁ := c.cachedHead_le
  have h₂ := c.head_le
  have h₃ := c.cachedTail_le
  rw [size, h.log2, h.tail, h.cachedHead]
  exact Circular.size_le_sub hk (by omega) c.tail_le

theorem Inv.loadTail (h : Inv c s) (hk : k < 64) {v : α} (hp : s.producer = .loadTail v) :
    Simulated c s c s.tryPush := by
  rw [Threads.tryPush, hp]
  dsimp only
  split
  · exact (h.setProducer (p := .loadHead v _) rfl (by rw [hp]; rfl)).quiet rfl
  · rename_i hroom
    rw [h.size_le hk] at hroom
    have hle := c.tail_le
    exact (h.setProducer (p := .write v _) ⟨rfl, by omega⟩ (by rw [hp]; rfl)).quiet rfl

/-- The counters after the producer has looked at `head`. -/
def Counters.seeHead (c : Counters (2 ^ k)) : Counters (2 ^ k) :=
  { c with
    cachedHead := c.head
    cachedHead_le := Nat.le_refl _
    tail_le := c.tail_le.trans (Nat.add_le_add_right c.cachedHead_le _) }

theorem Inv.seeHead (h : Inv c s) :
    Inv c.seeHead { s with queue := { s.queue with cachedHead := s.queue.head } } where
  log2 := h.log2
  head := h.head
  cachedTail := h.cachedTail
  tail := h.tail
  cachedHead := h.head
  producer := h.producer.frame rfl c.cachedHead_le rfl rfl
  consumer := h.consumer.frame rfl le_rfl rfl fun _ => rfl
  occupied := h.occupied

theorem Inv.loadHead (h : Inv c s) (hk : k < 64) {v : α} {t : BitVec 64} (hp : s.producer = .loadHead v t) :
    Simulated c s c.seeHead s.tryPush := by
  have ht : t = s.queue.tail := by simpa [hp, Producer.Knows] using h.producer
  have htest := h.seeHead.size_le hk
  have hlen := c.seeHead.length_contents s.queue.buf
  rw [Threads.tryPush, hp, ht]
  dsimp only
  split
  · rename_i hfull
    rw [htest] at hfull
    refine ⟨h.seeHead.setProducer (p := .idle) trivial (by rw [hp]; rfl), ?_, rfl, rfl⟩
    refine Step.run (.full v ?_)
    have hhead : c.seeHead.cachedHead = c.seeHead.head := rfl
    change (c.seeHead.contents s.queue.buf).length = 2 ^ k
    rw [hlen, hfull, hhead, Nat.add_sub_cancel_left]
  · rename_i hroom
    rw [htest] at hroom
    have hle := c.seeHead.tail_le
    exact ⟨h.seeHead.setProducer (p := .write v _) ⟨rfl, by omega⟩ (by rw [hp]; rfl), .refl _, rfl, rfl⟩

theorem Inv.write (h : Inv c s) (hk : k < 64) {v : α} {t : BitVec 64} (hp : s.producer = .write v t) :
    Simulated c s c s.tryPush := by
  obtain ⟨ht, hroom⟩ : t = s.queue.tail ∧ c.tail < c.cachedHead + 2 ^ k := by
    simpa [hp, Producer.Knows] using h.producer
  have h₁ := c.cachedHead_le
  have h₂ := c.head_le
  have h₃ := c.cachedTail_le
  rw [Threads.tryPush, hp, ht]
  dsimp only
  rw [h.slot_tail hk]
  refine ⟨⟨h.log2, h.head, h.cachedTail, h.tail, h.cachedHead, ⟨rfl, hroom, by simp⟩, ?_, fun j => ?_⟩, ?_, rfl, rfl⟩
  · refine h.consumer.frame rfl le_rfl rfl fun hsome => ?_
    have hne : c.head % 2 ^ k ≠ c.tail % 2 ^ k := fun heq => by
      have := Circular.slot_inj (a := c.head) le_rfl (by omega) (by omega) (by omega) heq
      omega
    exact Function.update_of_ne hne _ _
  · have hold := h.occupied j
    rw [hp] at hold
    simp only [Producer.ahead, Nat.add_zero] at hold ⊢
    by_cases hj : j = c.tail % 2 ^ k
    · subst hj
      rw [Function.update_self]
      exact ⟨fun _ => ⟨c.tail, by omega, by omega, rfl⟩, fun _ => rfl⟩
    · rw [Function.update_of_ne hj, hold]
      constructor
      · rintro ⟨i, hle, hlt, heq⟩
        exact ⟨i, hle, by omega, heq⟩
      · rintro ⟨i, hle, hlt, heq⟩
        have hne : i ≠ c.tail := fun hi => hj (by rw [← heq, hi])
        exact ⟨i, hle, by omega, heq⟩
  · rw [c.contents_update s.queue.buf hroom v]
    exact .refl _

/-- The counters after the producer has stored `tail`. -/
def Counters.pushed (c : Counters (2 ^ k)) (hroom : c.tail < c.cachedHead + 2 ^ k) : Counters (2 ^ k) :=
  { c with
    tail := c.tail + 1
    cachedTail_le := c.cachedTail_le.trans (Nat.le_succ _)
    tail_le := hroom }

theorem Counters.contents_pushed (buf : Nat → α) (hroom : c.tail < c.cachedHead + 2 ^ k) :
    (c.pushed hroom).contents buf = c.contents buf ++ [buf (c.tail % 2 ^ k)] := by
  have h₂ := c.head_le
  have h₃ := c.cachedTail_le
  have hsub : c.tail + 1 - c.head = c.tail - c.head + 1 := by omega
  have hadd : c.head + 1 * (c.tail - c.head) = c.tail := by omega
  change (List.range' c.head (c.tail + 1 - c.head)).map _ = _
  rw [hsub, List.range'_concat, List.map_append, hadd]
  rfl

theorem Inv.storeTail (h : Inv c s) {v : α} {t : BitVec 64} (hp : s.producer = .storeTail v t) :
    ∃ c', Simulated c s c' s.tryPush := by
  obtain ⟨ht, hroom, hv⟩ : t = s.queue.tail ∧ c.tail < c.cachedHead + 2 ^ k ∧ s.queue.buf (c.tail % 2 ^ k) = v := by
    simpa [hp, Producer.Knows] using h.producer
  have hlen : (c.contents s.queue.buf).length < 2 ^ k := by
    have h₁ := c.cachedHead_le
    have hpos := Nat.two_pow_pos k
    rw [c.length_contents]
    omega
  refine ⟨c.pushed hroom, ?_⟩
  rw [Threads.tryPush, hp, ht]
  dsimp only
  refine ⟨⟨h.log2, h.head, h.cachedTail, ?_, h.cachedHead, trivial, ?_, fun j => ?_⟩, ?_, rfl, rfl⟩
  · rw [h.tail]
    exact (BitVec.ofNat_add ..).symm
  · exact h.consumer.frame rfl le_rfl rfl fun _ => rfl
  · have hold := h.occupied j
    rw [hp] at hold
    exact hold
  · rw [c.contents_pushed s.queue.buf hroom, hv]
    exact Step.run (.pushed v hlen)

theorem Inv.tryPush (h : Inv c s) (hk : k < 64) : ∃ c', Simulated c s c' s.tryPush := by
  cases hp : s.producer with
  | idle =>
      refine ⟨c, ?_⟩
      rw [Threads.tryPush, hp]
      exact h.quiet rfl
  | loadTail v => exact ⟨c, h.loadTail hk hp⟩
  | loadHead v t => exact ⟨_, h.loadHead hk hp⟩
  | write v t => exact ⟨c, h.write hk hp⟩
  | storeTail v t => exact h.storeTail hp

/-! ### The consumer's accesses -/

theorem Inv.eq_cachedTail (h : Inv c s) (hk : k < 64) :
    s.queue.head = s.queue.cachedTail ↔ c.head = c.cachedTail := by
  have h₁ := c.cachedHead_le
  have h₃ := c.cachedTail_le
  have h₄ := c.tail_le
  rw [h.head, h.cachedTail]
  exact Circular.ofNat_eq_iff hk c.head_le (by omega)

theorem Inv.popLoadHead (h : Inv c s) (hk : k < 64) (hp : s.consumer = .loadHead) :
    Simulated c s c s.tryPop := by
  rw [Threads.tryPop, hp]
  dsimp only
  split
  · exact (h.setConsumer (p := .loadTail _) rfl).quiet rfl
  · rename_i hsome
    rw [h.eq_cachedTail hk] at hsome
    have hle := c.head_le
    exact (h.setConsumer (p := .read _) ⟨rfl, by omega⟩).quiet rfl

/-- The counters after the consumer has looked at `tail`. -/
def Counters.seeTail (c : Counters (2 ^ k)) : Counters (2 ^ k) :=
  { c with
    cachedTail := c.tail
    head_le := c.head_le.trans c.cachedTail_le
    cachedTail_le := Nat.le_refl _ }

theorem Inv.seeTail (h : Inv c s) :
    Inv c.seeTail { s with queue := { s.queue with cachedTail := s.queue.tail } } where
  log2 := h.log2
  head := h.head
  cachedTail := h.tail
  tail := h.tail
  cachedHead := h.cachedHead
  producer := h.producer.frame rfl le_rfl rfl rfl
  consumer := h.consumer.frame rfl c.cachedTail_le rfl fun _ => rfl
  occupied := h.occupied

theorem Inv.popLoadTail (h : Inv c s) (hk : k < 64) {i : BitVec 64} (hp : s.consumer = .loadTail i) :
    Simulated c s c.seeTail s.tryPop := by
  have hi : i = s.queue.head := by simpa [hp, Consumer.Knows] using h.consumer
  have htest := h.seeTail.eq_cachedTail hk
  have hlen := c.seeTail.length_contents s.queue.buf
  rw [Threads.tryPop, hp, hi]
  dsimp only
  split
  · rename_i hempty
    rw [htest] at hempty
    refine ⟨h.seeTail.setConsumer (p := .idle) trivial, ?_, rfl, rfl⟩
    have htail : c.seeTail.cachedTail = c.seeTail.tail := rfl
    have hnil : c.seeTail.contents s.queue.buf = [] := by
      rw [← List.length_eq_zero_iff, hlen, hempty, htail, Nat.sub_self]
    change Run _ (c.seeTail.contents s.queue.buf) _ (c.seeTail.contents s.queue.buf)
    rw [hnil]
    exact Step.run .empty
  · rename_i hsome
    rw [htest] at hsome
    have hle := c.seeTail.head_le
    exact ⟨h.seeTail.setConsumer (p := .read _) ⟨rfl, by omega⟩, .refl _, rfl, rfl⟩

theorem Inv.read (h : Inv c s) (hk : k < 64) {i : BitVec 64} (hp : s.consumer = .read i) :
    Simulated c s c s.tryPop := by
  obtain ⟨hi, hsome⟩ : i = s.queue.head ∧ c.head < c.cachedTail := by simpa [hp, Consumer.Knows] using h.consumer
  rw [Threads.tryPop, hp, hi]
  dsimp only
  rw [h.slot_head hk]
  exact (h.setConsumer (p := .storeHead _ _) ⟨rfl, hsome, rfl⟩).quiet rfl

/-- The counters after the consumer has stored `head`. -/
def Counters.popped (c : Counters (2 ^ k)) (hsome : c.head < c.cachedTail) : Counters (2 ^ k) :=
  { c with
    head := c.head + 1
    cachedHead_le := c.cachedHead_le.trans (Nat.le_succ _)
    head_le := hsome }

theorem Counters.contents_popped (buf : Nat → α) (hsome : c.head < c.cachedTail) :
    c.contents buf = buf (c.head % 2 ^ k) :: (c.popped hsome).contents buf := by
  have h₃ := c.cachedTail_le
  have hsub : c.tail - c.head = c.tail - (c.head + 1) + 1 := by omega
  change (List.range' c.head (c.tail - c.head)).map _ = _
  rw [hsub, List.range'_succ]
  rfl

theorem Inv.storeHead (h : Inv c s) (hk : k < 64) {i : BitVec 64} {out : α} (hp : s.consumer = .storeHead i out) :
    ∃ c', Simulated c s c' s.tryPop := by
  obtain ⟨hi, hsome, hout⟩ : i = s.queue.head ∧ c.head < c.cachedTail ∧ s.queue.buf (c.head % 2 ^ k) = out := by
    simpa [hp, Consumer.Knows] using h.consumer
  refine ⟨c.popped hsome, ?_⟩
  rw [Threads.tryPop, hp, hi]
  dsimp only
  rw [h.slot_head hk]
  refine ⟨⟨h.log2, ?_, h.cachedTail, h.tail, h.cachedHead, ?_, trivial, fun j => ?_⟩, ?_, rfl, rfl⟩
  · rw [h.head]
    exact (BitVec.ofNat_add ..).symm
  · exact h.producer.frame rfl le_rfl rfl rfl
  · -- the freed slot belongs to no other counter of the window, also not to one the producer has just written
    have hwindow : c.tail + s.producer.ahead ≤ c.head + 2 ^ k := h.ahead_le
    have hpos := Nat.two_pow_pos k
    change Function.update s.occupied (c.head % 2 ^ k) false j = true ↔
      ∃ i, c.head + 1 ≤ i ∧ i < c.tail + s.producer.ahead ∧ i % 2 ^ k = j
    by_cases hj : j = c.head % 2 ^ k
    · subst hj
      rw [Function.update_self]
      refine ⟨fun hfalse => Bool.noConfusion hfalse, ?_⟩
      rintro ⟨i, hle, hlt, heq⟩
      have := Circular.slot_inj (a := c.head) (by omega) (by omega) le_rfl (by omega) heq
      omega
    · rw [Function.update_of_ne hj, h.occupied j]
      constructor
      · rintro ⟨i, hle, hlt, heq⟩
        have hne : i ≠ c.head := fun hi => hj (by rw [← heq, hi])
        exact ⟨i, Nat.lt_of_le_of_ne hle hne.symm, hlt, heq⟩
      · rintro ⟨i, hle, hlt, heq⟩
        exact ⟨i, Nat.le_of_succ_le hle, hlt, heq⟩
  · rw [c.contents_popped s.queue.buf hsome, hout]
    exact Step.run (.popped out _)

theorem Inv.tryPop (h : Inv c s) (hk : k < 64) : ∃ c', Simulated c s c' s.tryPop := by
  cases hp : s.consumer with
  | idle =>
      refine ⟨c, ?_⟩
      rw [Threads.tryPop, hp]
      exact h.quiet rfl
  | loadHead => exact ⟨c, h.popLoadHead hk hp⟩
  | loadTail i => exact ⟨_, h.popLoadTail hk hp⟩
  | read i => exact ⟨c, h.read hk hp⟩
  | storeHead i out => exact h.storeHead hk hp

/-! ### Whole schedules -/

theorem Inv.step (h : Inv c s) (hk : k < 64) (a : Action α) : ∃ c', Simulated c s c' (s.step a) := by
  cases a with
  | push v =>
      refine ⟨c, ?_⟩
      cases hp : s.producer with
      | idle =>
          simp only [Threads.step, hp]
          exact (h.setProducer (p := .loadTail v) trivial (by rw [hp]; rfl)).quiet rfl
      | _ =>
          simp only [Threads.step, hp]
          exact h.quiet rfl
  | pop =>
      refine ⟨c, ?_⟩
      cases hp : s.consumer with
      | idle =>
          simp only [Threads.step, hp]
          exact (h.setConsumer (p := .loadHead) trivial).quiet rfl
      | _ =>
          simp only [Threads.step, hp]
          exact h.quiet rfl
  | producer => exact h.tryPush hk
  | consumer => exact h.tryPop hk

end Steps

theorem init_inv (k : Nat) (blank : α) : Inv (k := k) ⟨0, 0, 0, 0, le_rfl, le_rfl, le_rfl, Nat.zero_le _⟩ (init k blank) where
  log2 := rfl
  head := rfl
  cachedTail := rfl
  tail := rfl
  cachedHead := rfl
  producer := trivial
  consumer := trivial
  occupied := fun _ => ⟨fun hfalse => Bool.noConfusion hfalse, fun ⟨_, _, hlt, _⟩ => absurd hlt (Nat.not_lt_zero _)⟩

/-- After any schedule the returned calls are a run of the sequential queue to the present contents. -/
theorem run_simulated (hk : k < 64) (blank : α) (actions : List (Action α)) :
    ∃ c : Counters (2 ^ k), Inv c (run k blank actions).1 ∧
      Run (2 ^ k) [] (run k blank actions).2 (c.contents (run k blank actions).1.queue.buf) ∧
      c.tail = (pushes (run k blank actions).2).length ∧ c.head = (pops (run k blank actions).2).length := by
  refine Machine.run_induct Threads.step (R := fun s ops => ∃ c : Counters (2 ^ k), Inv c s ∧
    Run (2 ^ k) [] ops (c.contents s.queue.buf) ∧ c.tail = (pushes ops).length ∧ c.head = (pops ops).length) ?_ ?_ actions
  · exact ⟨_, init_inv k blank, .refl _, rfl, rfl⟩
  · rintro s ops a ⟨c, hinv, hrun, htail, hhead⟩
    obtain ⟨c', hsim⟩ := hinv.step hk a
    refine ⟨c', hsim.inv, hrun.trans hsim.run, ?_, ?_⟩
    · rw [hsim.tail, htail, pushes_append, List.length_append]
    · rw [hsim.head, hhead, pops_append, List.length_append]

/-- A push is refused by the load of `head` and nowhere else. -/
theorem Threads.step_full {s : Threads α} {a : Action α} {v : α} (h : (s.step a).2 = [.full v]) :
    ∃ t, s.producer = .loadHead v t := by
  cases a with
  | push v' => cases hp : s.producer <;> simp [step, hp] at h
  | pop => cases hp : s.consumer <;> simp [step, hp] at h
  | consumer =>
      cases hp : s.consumer <;> simp only [step, tryPop, hp] at h
      all_goals first | cases h | (split at h <;> cases h)
  | producer =>
      cases hp : s.producer <;> simp only [step, tryPush, hp] at h
      all_goals first | cases h | (split at h <;> cases h)
      exact ⟨_, rfl⟩

/-- A pop is refused by the load of `tail` and nowhere else. -/
theorem Threads.step_empty {s : Threads α} {a : Action α} (h : (s.step a).2 = [.empty]) :
    ∃ i, s.consumer = .loadTail i := by
  cases a with
  | push v' => cases hp : s.producer <;> simp [step, hp] at h
  | pop => cases hp : s.consumer <;> simp [step, hp] at h
  | producer =>
      cases hp : s.producer <;> simp only [step, tryPush, hp] at h
      all_goals first | cases h | (split at h <;> cases h)
  | consumer =>
      cases hp : s.consumer <;> simp only [step, tryPop, hp] at h
      all_goals first | cases h | (split at h <;> cases h)
      exact ⟨_, rfl⟩

/-- What every schedule guarantees in the state it leads to, given the calls that have returned. -/
structure Linearized (k : Nat) (s : Threads α) (ops : List (Op α)) : Prop where
  /-- The returned calls are a run of the sequential queue of `2 ^ k` places. -/
  fifo : ∃ items, Run (2 ^ k) [] ops items
  inOrder : pops ops <+: pushes ops
  bounded : (pushes ops).length ≤ (pops ops).length + 2 ^ k
  /-- The indices are the counts as far as 64 bits hold them: nothing here stops at a wrap. -/
  tail : s.queue.tail = BitVec.ofNat 64 (pushes ops).length
  head : s.queue.head = BitVec.ofNat 64 (pops ops).length
  write : ∀ v t, s.producer = .write v t → s.queue.slot t < 2 ^ k ∧ s.occupied (s.queue.slot t) = false
  read : ∀ i, s.consumer = .read i → s.queue.slot i < 2 ^ k ∧ s.occupied (s.queue.slot i) = true
  /-- A push that the next step refuses is at its load of `head`, with every place taken. -/
  full : ∀ a v, (s.step a).2 = [.full v] →
    (∃ t, s.producer = .loadHead v t) ∧ (pushes ops).length = (pops ops).length + 2 ^ k
  /-- A pop that the next step refuses is at its load of `tail`, with nothing inside. -/
  empty : ∀ a, (s.step a).2 = [.empty] →
    (∃ i, s.consumer = .loadTail i) ∧ (pushes ops).length = (pops ops).length

section Discipline

variable {c : Counters (2 ^ k)} {s : Threads α}

theorem Inv.write_free (h : Inv c s) (hk : k < 64) {v : α} {t : BitVec 64} (hp : s.producer = .write v t) :
    s.queue.slot t < 2 ^ k ∧ s.occupied (s.queue.slot t) = false := by
  obtain ⟨rfl, hroom⟩ : t = s.queue.tail ∧ c.tail < c.cachedHead + 2 ^ k := by
    simpa [hp, Producer.Knows] using h.producer
  have hpos := Nat.two_pow_pos k
  rw [h.slot_tail hk]
  refine ⟨Nat.mod_lt _ hpos, ?_⟩
  rw [← Bool.not_eq_true, h.occupied, hp]
  rintro ⟨i, hle, hlt, heq⟩
  have h₁ := c.cachedHead_le
  simp only [Producer.ahead, Nat.add_zero] at hlt
  have := Circular.slot_inj (a := c.head) hle (by omega) (by omega) (by omega) heq
  omega

theorem Inv.read_written (h : Inv c s) (hk : k < 64) {i : BitVec 64} (hp : s.consumer = .read i) :
    s.queue.slot i < 2 ^ k ∧ s.occupied (s.queue.slot i) = true := by
  obtain ⟨rfl, hsome⟩ : i = s.queue.head ∧ c.head < c.cachedTail := by
    simpa [hp, Consumer.Knows] using h.consumer
  have h₃ := c.cachedTail_le
  rw [h.slot_head hk]
  refine ⟨Nat.mod_lt _ (Nat.two_pow_pos k), ?_⟩
  rw [h.occupied]
  exact ⟨c.head, le_rfl, by omega, rfl⟩

theorem Inv.step_op (h : Inv c s) (hk : k < 64) {a : Action α} {op : Op α} (hop : (s.step a).2 = [op]) :
    ∃ items, Step (2 ^ k) (c.contents s.queue.buf) op items := by
  obtain ⟨c', hsim⟩ := h.step hk a
  have hrun := hsim.run
  rw [hop] at hrun
  exact ⟨_, hrun.step⟩

end Discipline

theorem run_linearized (k : Nat) (hk : k ≤ 63) (blank : α) (actions : List (Action α)) :
    Linearized k (run k blank actions).1 (run k blank actions).2 := by
  have hk' : k < 64 := by omega
  obtain ⟨c, hinv, hrun, htail, hhead⟩ := run_simulated hk' blank actions
  have hlen := c.length_contents (run k blank actions).1.queue.buf
  have h₁ := c.cachedHead_le
  have h₂ := c.head_le
  have h₃ := c.cachedTail_le
  have h₄ := c.tail_le
  refine ⟨⟨_, hrun⟩, hrun.isPrefix_pops, by omega, ?_, ?_, fun v t => hinv.write_free hk',
    fun i => hinv.read_written hk', fun a v hop => ⟨Threads.step_full hop, ?_⟩, fun a hop => ⟨Threads.step_empty hop, ?_⟩⟩
  · rw [hinv.tail, htail]
  · rw [hinv.head, hhead]
  · obtain ⟨items, hstep⟩ := hinv.step_op hk' hop
    have hfull := hstep.length_of_full
    have hpos := Nat.two_pow_pos k
    omega
  · obtain ⟨items, hstep⟩ := hinv.step_op hk' hop
    have hempty := hstep.length_of_empty
    omega

/-- Two places, three pushes and a pop between them: the third push finds the ring full and the pop gets the first value. -/
theorem run_linearized_two_places :
    let call := fun v : Nat => [Action.push v, .producer, .producer, .producer, .producer]
    let schedule := call 7 ++ [.pop, .consumer] ++ call 8 ++ [.push 9, .producer, .producer] ++
      [.consumer, .consumer, .consumer]
    (run 1 0 schedule).2 = [.pushed 7, .pushed 8, .full 9, .popped 7] ∧
      Linearized 1 (run 1 0 schedule).1 (run 1 0 schedule).2 :=
  ⟨by decide +kernel, run_linearized 1 (by decide) 0 _⟩

end Matchbox.SpscQueue
