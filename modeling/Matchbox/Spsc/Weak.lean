import Matchbox.Lib.ReleaseAcquire
import Matchbox.Spsc.Refines

/-!
# The ring under release and acquire

`spsc_queue.hpp` with the memory orders it asks for. The indices are atomics of a release-acquire memory and the slots are plain locations, so that a side may find an old value of the other's index, and an access to a slot that is not ordered after the last conflicting one is a race. `tryPush` and `tryPop` go through the same accesses as the sequentially consistent ones, with the store that a load returns as part of the schedule.

`Orders` are the orders of the four accesses through which the two sides synchronise. The source has all four, `Orders.source`, and none of them can be dropped: `raceFree_iff`.
-/

namespace Matchbox.SpscQueue

open BoundedFifo ReleaseAcquire

variable {α : Type} {k : Nat}

inductive Side where
  | producer
  | consumer
deriving DecidableEq

instance : Fintype Side where
  elems := {.producer, .consumer}
  complete side := by cases side <;> decide

/-- The two atomics. -/
inductive Index where
  | head
  | tail
deriving DecidableEq

/-- The index that only this side stores to. -/
def Side.own : Side → Index
  | .producer => .tail
  | .consumer => .head

/-- Whether the load of the other side's index acquires and the store of the own index releases. -/
structure Orders where
  pushAcquires : Bool
  pushReleases : Bool
  popAcquires : Bool
  popReleases : Bool
deriving DecidableEq

/-- The orders in the source. -/
def Orders.source : Orders := ⟨true, true, true, true⟩

/-- The slots read beyond `head`: one, between the read and the store of the index. -/
def Consumer.ahead : Consumer α → Nat
  | .storeHead _ _ => 1
  | _ => 0

/-- The count in the index of each side. -/
def Counters.count {n : Nat} (c : Counters n) : Side → Nat
  | .producer => c.tail
  | .consumer => c.head

/-- The counters after the producer has seen the count `i` of the consumer. -/
def Counters.seeHeadAt {n : Nat} (c : Counters n) (i : Nat) (hle : c.cachedHead ≤ i) (hhead : i ≤ c.head) : Counters n :=
  { c with
    cachedHead := i
    cachedHead_le := hhead
    tail_le := c.tail_le.trans (Nat.add_le_add_right hle _) }

/-- The counters after the consumer has seen the count `i` of the producer. -/
def Counters.seeTailAt {n : Nat} (c : Counters n) (i : Nat) (hle : c.cachedTail ≤ i) (htail : i ≤ c.tail) : Counters n :=
  { c with
    cachedTail := i
    head_le := c.head_le.trans hle
    cachedTail_le := htail }

structure Weak (α : Type) where
  capacityLog2 : Nat
  memory : Memory Side Index Nat (BitVec 64) α
  cachedTail : BitVec 64 := 0
  cachedHead : BitVec 64 := 0
  producer : Producer α := .idle
  consumer : Consumer α := .idle

namespace Weak

/-- The last store to an index. -/
def newest (s : Weak α) (index : Index) : BitVec 64 :=
  ((s.memory.messages index).getLast?.map fun msg => msg.value).getD 0

/-- The queue as one would find it with everything stored visible. -/
def queue (s : Weak α) : SpscQueue α where
  capacityLog2 := s.capacityLog2
  head := s.newest .head
  cachedTail := s.cachedTail
  tail := s.newest .tail
  cachedHead := s.cachedHead
  buf := s.memory.plain

def init (capacityLog2 : Nat) (blank : α) : Weak α where
  capacityLog2 := capacityLog2
  memory := Memory.init (fun _ => BitVec.ofNat 64 0) fun _ => blank

/-- The next access of `try_push`; a load returns the store at place `i`. -/
def tryPush (orders : Orders) (s : Weak α) (i : Nat) : Weak α × List (Op α) :=
  match s.producer with
  | .idle => (s, [])
  | .loadTail v =>
      match s.memory.load .producer .tail false i with
      | none => (s, [])
      | some (t, memory) =>
          if s.queue.size ≤ t - s.cachedHead then ({ s with memory, producer := .loadHead v t }, [])
          else ({ s with memory, producer := .write v t }, [])
  | .loadHead v t =>
      match s.memory.load .producer .head orders.pushAcquires i with
      | none => (s, [])
      | some (cachedHead, memory) =>
          if s.queue.size ≤ t - cachedHead then ({ s with memory, cachedHead, producer := .idle }, [.full v])
          else ({ s with memory, cachedHead, producer := .write v t }, [])
  | .write v t =>
      ({ s with memory := s.memory.assign .producer (s.queue.slot t) v, producer := .storeTail v t }, [])
  | .storeTail v t =>
      ({ s with memory := s.memory.store .producer .tail orders.pushReleases (t + 1), producer := .idle }, [.pushed v])

/-- The next access of `try_pop`; a load returns the store at place `i`. -/
def tryPop (orders : Orders) (s : Weak α) (i : Nat) : Weak α × List (Op α) :=
  match s.consumer with
  | .idle => (s, [])
  | .loadHead =>
      match s.memory.load .consumer .head false i with
      | none => (s, [])
      | some (h, memory) =>
          if h = s.cachedTail then ({ s with memory, consumer := .loadTail h }, [])
          else ({ s with memory, consumer := .read h }, [])
  | .loadTail h =>
      match s.memory.load .consumer .tail orders.popAcquires i with
      | none => (s, [])
      | some (cachedTail, memory) =>
          if h = cachedTail then ({ s with memory, cachedTail, consumer := .idle }, [.empty])
          else ({ s with memory, cachedTail, consumer := .read h }, [])
  | .read h =>
      let r := s.memory.fetch .consumer (s.queue.slot h)
      ({ s with memory := r.2, consumer := .storeHead h r.1 }, [])
  | .storeHead h out =>
      ({ s with memory := s.memory.store .consumer .head orders.popReleases (h + 1), consumer := .idle }, [.popped out])

/-- One step of the two threads: a call, or the next access of the call in progress with the store its load returns. -/
inductive Action (α : Type) where
  | push (v : α)
  | pop
  | producer (i : Nat)
  | consumer (i : Nat)

def step (orders : Orders) (s : Weak α) : Action α → Weak α × List (Op α)
  | .push v =>
      match s.producer with
      | .idle => ({ s with producer := .loadTail v }, [])
      | _ => (s, [])
  | .pop =>
      match s.consumer with
      | .idle => ({ s with consumer := .loadHead }, [])
      | _ => (s, [])
  | .producer i => s.tryPush orders i
  | .consumer i => s.tryPop orders i

/-- A fresh queue under a schedule: the state, and the calls that returned, in order. -/
def run (orders : Orders) (capacityLog2 : Nat) (blank : α) (actions : List (Action α)) : Weak α × List (Op α) :=
  Machine.run (step orders) (init capacityLog2 blank) actions

/-! ### What the two sides know -/

structure Inv (c : Counters (2 ^ k)) (s : Weak α) : Prop where
  log2 : s.capacityLog2 = k
  counting : Counting Side.own (BitVec.ofNat 64) c.count s.memory
  /-- The cached index of a side is the last count it has seen of the other. -/
  cachedHead : s.cachedHead = BitVec.ofNat 64 c.cachedHead
  cachedTail : s.cachedTail = BitVec.ofNat 64 c.cachedTail
  seenHead : (s.memory.view .producer).seen .head = c.cachedHead
  seenTail : (s.memory.view .consumer).seen .tail = c.cachedTail
  producer : s.producer.Knows c s.queue
  consumer : s.consumer.Knows c s.queue
  /-- The `i`-th value was written in epoch `i + 1` of the producer, and no later value has taken its place. -/
  written : ∀ i, c.head ≤ i → i < c.tail + s.producer.ahead → s.memory.written (i % 2 ^ k) .producer = i + 1
  written_le : ∀ j, s.memory.written j .producer ≤ c.tail + 1
  unwritten : ∀ j, s.memory.written j .consumer = 0
  /-- The last value that was read from a slot. -/
  read : ∀ j, s.memory.read j .consumer = 0 ∨
    ∃ i, i < c.head + s.consumer.ahead ∧ i % 2 ^ k = j ∧ s.memory.read j .consumer = i + 1
  unread : ∀ j, s.memory.read j .producer = 0
  raceFree : s.memory.raced = false

/-- One step against the sequential queue: a call that went through is one of its operations, and a refused call stood at the counts that its side has seen. -/
structure Simulated (c : Counters (2 ^ k)) (s : Weak α) (c' : Counters (2 ^ k)) (r : Weak α × List (Op α)) : Prop where
  inv : Inv c' r.1
  run : Run (2 ^ k) (c.contents s.memory.plain) (accepted r.2) (c'.contents r.1.memory.plain)
  tail : c'.tail = c.tail + (pushes r.2).length
  head : c'.head = c.head + (pops r.2).length
  full : ∀ v, r.2 = [.full v] → c'.tail = c'.cachedHead + 2 ^ k
  empty : r.2 = [.empty] → c'.head = c'.cachedTail

section Steps

variable {c : Counters (2 ^ k)} {s : Weak α}

theorem own_injective : Function.Injective Side.own := by
  intro a b hab
  cases a <;> cases b <;> first | rfl | exact Index.noConfusion hab

theorem Inv.newest_own (h : Inv c s) (side : Side) : s.newest side.own = BitVec.ofNat 64 (c.count side) := by
  have hlen := h.counting.length side
  have hlt : c.count side < (s.memory.messages side.own).length := by omega
  have hget := List.getElem?_eq_getElem hlt
  rw [newest, List.getLast?_eq_getElem?, hlen, Nat.add_sub_cancel, hget]
  exact (h.counting.message side _ _ hget).value

theorem Inv.queue_tail (h : Inv c s) : s.queue.tail = BitVec.ofNat 64 c.tail := h.newest_own .producer

theorem Inv.queue_head (h : Inv c s) : s.queue.head = BitVec.ofNat 64 c.head := h.newest_own .consumer

theorem Inv.size_eq (h : Inv c s) : s.queue.size = 1#64 <<< k := by rw [size, queue, h.log2]

theorem Inv.slot_ofNat (h : Inv c s) (hk : k < 64) (i : Nat) : s.queue.slot (BitVec.ofNat 64 i) = i % 2 ^ k := by
  rw [slot, mask, h.size_eq]
  exact Circular.toNat_and_mask hk i

theorem Inv.size_le (h : Inv c s) (hk : k < 64) {i : Nat} (hle : c.cachedHead ≤ i) (hhead : i ≤ c.head) :
    s.queue.size ≤ BitVec.ofNat 64 c.tail - BitVec.ofNat 64 i ↔ c.tail = i + 2 ^ k := by
  have h₂ := c.head_le
  have h₃ := c.cachedTail_le
  have h₄ := c.tail_le
  rw [h.size_eq]
  exact Circular.size_le_sub hk (by omega) (by omega)

theorem Inv.ofNat_eq (_ : Inv c s) (hk : k < 64) {i : Nat} (hle : c.cachedTail ≤ i) (htail : i ≤ c.tail) :
    BitVec.ofNat 64 c.head = BitVec.ofNat 64 i ↔ c.head = i := by
  have h₁ := c.cachedHead_le
  have h₂ := c.head_le
  have h₄ := c.tail_le
  exact Circular.ofNat_eq_iff hk (by omega) (by omega)

theorem Inv.setProducer (h : Inv c s) {p : Producer α} (hp : p.Knows c s.queue)
    (hahead : p.ahead = s.producer.ahead) : Inv c { s with producer := p } :=
  { h with producer := hp, written := fun i hle hlt => h.written i hle (by rw [← hahead]; exact hlt) }

theorem Inv.setConsumer (h : Inv c s) {p : Consumer α} (hp : p.Knows c s.queue)
    (hahead : p.ahead = s.consumer.ahead) : Inv c { s with consumer := p } :=
  { h with consumer := hp, read := fun j => by rw [hahead]; exact h.read j }

theorem Inv.quiet {c' : Counters (2 ^ k)} {s' : Weak α} (h : Inv c' s') (htail : c'.tail = c.tail)
    (hhead : c'.head = c.head) (hbuf : s'.memory.plain = s.memory.plain) : Simulated c s c' (s', []) where
  inv := h
  run := by
    rw [Counters.contents, Counters.contents, htail, hhead, hbuf]
    exact .refl _
  tail := htail
  head := hhead
  full _ hnil := by cases hnil
  empty hnil := by cases hnil

/-! ### The accesses of the producer -/

theorem Inv.loadTail (h : Inv c s) (hk : k < 64) {v : α} (hp : s.producer = .loadTail v) (i : Nat) :
    Simulated c s c (s.tryPush .source i) := by
  rw [tryPush, hp]
  dsimp only
  split
  · exact h.quiet rfl rfl rfl
  · rename_i t memory hload
    obtain ⟨rfl, rfl⟩ : t = BitVec.ofNat 64 c.tail ∧ memory = s.memory :=
      Prod.mk.inj (h.counting.load_own (t := .producer) hload)
    have htest := h.size_le hk le_rfl c.cachedHead_le
    rw [← h.cachedHead] at htest
    split
    · exact (h.setProducer (p := .loadHead v _) h.queue_tail.symm (by rw [hp]; rfl)).quiet rfl rfl rfl
    · rename_i hroom
      rw [htest] at hroom
      have hle := c.tail_le
      exact (h.setProducer (p := .write v _) ⟨h.queue_tail.symm, by omega⟩ (by rw [hp]; rfl)).quiet rfl rfl rfl

/-- The load of `head` finds some count between the one the producer knew and the present one. -/
theorem Inv.seeHead (h : Inv c s) {i : Nat} {cachedHead : BitVec 64} {memory : Memory Side Index Nat (BitVec 64) α}
    (hload : s.memory.load .producer .head true i = some (cachedHead, memory)) :
    ∃ (hle : c.cachedHead ≤ i) (hhead : i ≤ c.head), cachedHead = BitVec.ofNat 64 i ∧ memory.plain = s.memory.plain ∧
      Inv (c.seeHeadAt i hle hhead) { s with memory, cachedHead } := by
  obtain ⟨hword, hle, hhead, hseen, hcounting⟩ :=
    h.counting.load own_injective (t := .producer) (u := .consumer) Side.noConfusion hload
  obtain ⟨hmessages, hplain, hwritten, hread, hraced, hview⟩ := Memory.load_frame hload
  dsimp only at hword hmessages hplain hwritten hread hraced hview hcounting hseen
  change (s.memory.view .producer).seen .head ≤ i at hle
  rw [h.seenHead] at hle
  have hqueue : ({ s with memory, cachedHead } : Weak α).queue = { s.queue with cachedHead } := by
    simp only [queue, newest, hmessages, hplain]
  refine ⟨hle, hhead, hword, hplain, ?_⟩
  refine ⟨h.log2, hcounting, hword, h.cachedTail, hseen, ?_, ?_, ?_, ?_, ?_, ?_, ?_, ?_, ?_⟩
  · rw [hview _ Side.noConfusion]
    exact h.seenTail
  · rw [hqueue]
    exact h.producer.frame rfl hle rfl rfl
  · rw [hqueue]
    exact h.consumer.frame rfl le_rfl rfl fun _ => rfl
  · rw [hwritten]
    exact h.written
  · rw [hwritten]
    exact h.written_le
  · rw [hwritten]
    exact h.unwritten
  · rw [hread]
    exact h.read
  · rw [hread]
    exact h.unread
  · rw [hraced]
    exact h.raceFree

theorem Inv.loadHead (h : Inv c s) (hk : k < 64) {v : α} {t : BitVec 64} (hp : s.producer = .loadHead v t) (i : Nat) :
    ∃ c', Simulated c s c' (s.tryPush .source i) := by
  have ht : t = BitVec.ofNat 64 c.tail := by
    have hknows := h.producer
    rw [hp] at hknows
    exact hknows.trans h.queue_tail
  rw [tryPush, hp, ht]
  dsimp only
  split
  · exact ⟨c, h.quiet rfl rfl rfl⟩
  · rename_i cachedHead memory hload
    obtain ⟨hle, hhead, rfl, hplain, hinv⟩ := h.seeHead hload
    have htest := h.size_le hk hle hhead
    have hroom := (c.seeHeadAt i hle hhead).tail_le
    change c.tail ≤ i + 2 ^ k at hroom
    refine ⟨c.seeHeadAt i hle hhead, ?_⟩
    split
    · rename_i hfull
      rw [htest] at hfull
      have hidle := hinv.setProducer (p := .idle) trivial (by rw [hp]; rfl)
      exact ⟨hidle, (hidle.quiet rfl rfl hplain).run, rfl, rfl, fun _ _ => hfull, fun hempty => by cases hempty⟩
    · rename_i hne
      rw [htest] at hne
      refine (hinv.setProducer (p := .write v _) ⟨hinv.queue_tail.symm, ?_⟩ (by rw [hp]; rfl)).quiet rfl rfl hplain
      change c.tail < i + 2 ^ k
      omega

/-- An access of the consumer to the slot at `tail` is ordered before the write: it was to an earlier value in the slot, whose pop the producer has seen. -/
theorem Inv.read_ordered (h : Inv c s) (hroom : c.tail < c.cachedHead + 2 ^ k) :
    s.memory.read (c.tail % 2 ^ k) .consumer ≤ c.cachedHead := by
  rcases h.read (c.tail % 2 ^ k) with hzero | ⟨i, hlt, hslot, heq⟩
  · rw [hzero]
    exact Nat.zero_le _
  · have h₁ := c.cachedHead_le
    have h₂ := c.head_le
    have h₃ := c.cachedTail_le
    have hbefore : i < c.tail := by
      cases hc : s.consumer with
      | storeHead j out =>
          have hknows := h.consumer
          rw [hc] at hknows hlt
          have hsome := hknows.2.1
          simp only [Consumer.ahead] at hlt
          omega
      | _ =>
          rw [hc] at hlt
          simp only [Consumer.ahead] at hlt
          omega
    have hfar : i + 2 ^ k ≤ c.tail := by
      by_contra hnear
      have := Circular.slot_inj (a := i) (n := 2 ^ k) (i := i) (j := c.tail) le_rfl (by omega) (by omega) (by omega) hslot
      omega
    omega

theorem Inv.write (h : Inv c s) (hk : k < 64) {v : α} {t : BitVec 64} (hp : s.producer = .write v t) (i : Nat) :
    Simulated c s c (s.tryPush .source i) := by
  obtain ⟨ht, hroom⟩ : t = s.queue.tail ∧ c.tail < c.cachedHead + 2 ^ k := by
    simpa [hp, Producer.Knows] using h.producer
  have h₁ := c.cachedHead_le
  have h₂ := c.head_le
  have h₃ := c.cachedTail_le
  have hepoch := (h.counting.view .producer).epoch
  have hclock := (h.counting.view .producer).clock .consumer Side.noConfusion
  change _ = c.tail + 1 at hepoch
  change _ = (s.memory.view .producer).seen .head at hclock
  rw [h.seenHead] at hclock
  rw [tryPush, hp, ht, h.queue_tail]
  dsimp only
  rw [h.slot_ofNat hk]
  -- the queue is the old one with the slot written
  have hne (j : Nat) (hle : c.head ≤ j) (hlt : j < c.tail) : j % 2 ^ k ≠ c.tail % 2 ^ k := fun heq => by
    have := Circular.slot_inj (a := c.head) (n := 2 ^ k) hle (by omega) (by omega) (by omega) heq
    omega
  refine ⟨⟨h.log2, h.counting.congr rfl rfl, h.cachedHead, h.cachedTail, h.seenHead, h.seenTail, ?_, ?_, ?_, ?_, ?_,
    h.read, h.unread, ?_⟩, ?_, rfl, rfl, fun _ hnil => ?_, fun hnil => ?_⟩
  · exact ⟨h.queue_tail.symm, hroom, Function.update_self ..⟩
  · exact h.consumer.frame rfl le_rfl rfl fun hsome => Function.update_of_ne (hne _ le_rfl (by omega)) _ _
  · intro j hle hlt
    change j < c.tail + 1 at hlt
    change Function.update s.memory.written _ _ (j % 2 ^ k) .producer = j + 1
    by_cases hj : j = c.tail
    · rw [hj, Function.update_self, Function.update_self, hepoch]
    · rw [Function.update_of_ne (hne j hle (by omega))]
      exact h.written j hle (by omega)
  · intro j
    change Function.update s.memory.written _ _ j .producer ≤ _
    by_cases hj : j = c.tail % 2 ^ k
    · rw [hj, Function.update_self, Function.update_self, hepoch]
    · rw [Function.update_of_ne hj]
      exact h.written_le j
  · intro j
    change Function.update s.memory.written _ _ j .consumer = 0
    by_cases hj : j = c.tail % 2 ^ k
    · rw [hj, Function.update_self, Function.update_of_ne Side.noConfusion]
      exact h.unwritten _
    · rw [Function.update_of_ne hj]
      exact h.unwritten j
  · have hwritten : s.memory.unordered .producer (s.memory.written (c.tail % 2 ^ k)) = false := by
      apply Memory.unordered_eq_false
      intro side
      cases side with
      | producer =>
          rw [hepoch]
          exact h.written_le _
      | consumer =>
          rw [h.unwritten]
          exact Nat.zero_le _
    have hread : s.memory.unordered .producer (s.memory.read (c.tail % 2 ^ k)) = false := by
      apply Memory.unordered_eq_false
      intro side
      cases side with
      | producer =>
          rw [h.unread]
          exact Nat.zero_le _
      | consumer =>
          rw [hclock]
          exact h.read_ordered hroom
    change (s.memory.raced || s.memory.unordered _ _ || s.memory.unordered _ _) = false
    rw [h.raceFree, hwritten, hread]
    rfl
  · change Run _ _ [] (c.contents (Function.update s.memory.plain (c.tail % 2 ^ k) v))
    rw [c.contents_update s.memory.plain hroom v]
    exact .refl _
  · cases hnil
  · cases hnil

theorem Counters.count_pushed (hroom : c.tail < c.cachedHead + 2 ^ k) :
    (c.pushed hroom).count = Function.update c.count .producer (c.tail + 1) := by
  funext side
  cases side <;> rfl

theorem Inv.storeTail (h : Inv c s) {v : α} {t : BitVec 64} (hp : s.producer = .storeTail v t) (i : Nat) :
    ∃ c', Simulated c s c' (s.tryPush .source i) := by
  obtain ⟨ht, hroom, hv⟩ : t = s.queue.tail ∧ c.tail < c.cachedHead + 2 ^ k ∧ s.memory.plain (c.tail % 2 ^ k) = v := by
    have hknows := h.producer
    rw [hp] at hknows
    exact hknows
  have hlen : (c.contents s.memory.plain).length < 2 ^ k := by
    have h₁ := c.cachedHead_le
    have hpos := Nat.two_pow_pos k
    rw [c.length_contents]
    omega
  have hcounting := h.counting.store own_injective .producer
  refine ⟨c.pushed hroom, ?_⟩
  rw [tryPush, hp, ht, h.queue_tail]
  dsimp only
  have hword : BitVec.ofNat 64 c.tail + 1 = BitVec.ofNat 64 (c.tail + 1) := (BitVec.ofNat_add ..).symm
  rw [hword]
  have hinv : Inv (c.pushed hroom) { s with
      memory := s.memory.store .producer .tail true (BitVec.ofNat 64 (c.tail + 1)), producer := .idle } := by
    refine ⟨h.log2, ?_, h.cachedHead, h.cachedTail, ?_, h.seenTail, trivial, ?_, ?_, ?_, h.unwritten, h.read, h.unread,
      h.raceFree⟩
    · rw [Counters.count_pushed]
      exact hcounting
    · exact h.seenHead
    · exact h.consumer.frame rfl le_rfl rfl fun _ => rfl
    · intro j hle hlt
      refine h.written j hle ?_
      rw [hp]
      exact hlt
    · intro j
      exact (h.written_le j).trans (Nat.le_succ _)
  refine ⟨hinv, ?_, rfl, rfl, fun _ hnil => ?_, fun hnil => ?_⟩
  · change Run _ _ [.pushed v] ((c.pushed hroom).contents s.memory.plain)
    rw [c.contents_pushed s.memory.plain hroom, hv]
    exact Step.run (.pushed v hlen)
  · cases hnil
  · cases hnil

theorem Inv.tryPush (h : Inv c s) (hk : k < 64) (i : Nat) : ∃ c', Simulated c s c' (s.tryPush .source i) := by
  cases hp : s.producer with
  | idle =>
      refine ⟨c, ?_⟩
      rw [Weak.tryPush, hp]
      exact h.quiet rfl rfl rfl
  | loadTail v => exact ⟨c, h.loadTail hk hp i⟩
  | loadHead v t => exact h.loadHead hk hp i
  | write v t => exact ⟨c, h.write hk hp i⟩
  | storeTail v t => exact h.storeTail hp i

/-! ### The accesses of the consumer -/

theorem Inv.popLoadHead (h : Inv c s) (hk : k < 64) (hp : s.consumer = .loadHead) (i : Nat) :
    Simulated c s c (s.tryPop .source i) := by
  rw [tryPop, hp]
  dsimp only
  split
  · exact h.quiet rfl rfl rfl
  · rename_i hd memory hload
    obtain ⟨rfl, rfl⟩ : hd = BitVec.ofNat 64 c.head ∧ memory = s.memory :=
      Prod.mk.inj (h.counting.load_own (t := .consumer) hload)
    have htest := h.ofNat_eq hk le_rfl c.cachedTail_le
    rw [← h.cachedTail] at htest
    split
    · exact (h.setConsumer (p := .loadTail _) h.queue_head.symm (by rw [hp]; rfl)).quiet rfl rfl rfl
    · rename_i hsome
      rw [htest] at hsome
      have hle := c.head_le
      exact (h.setConsumer (p := .read _) ⟨h.queue_head.symm, by omega⟩ (by rw [hp]; rfl)).quiet rfl rfl rfl

theorem Inv.seeTail (h : Inv c s) {i : Nat} {cachedTail : BitVec 64} {memory : Memory Side Index Nat (BitVec 64) α}
    (hload : s.memory.load .consumer .tail true i = some (cachedTail, memory)) :
    ∃ (hle : c.cachedTail ≤ i) (htail : i ≤ c.tail), cachedTail = BitVec.ofNat 64 i ∧ memory.plain = s.memory.plain ∧
      Inv (c.seeTailAt i hle htail) { s with memory, cachedTail } := by
  obtain ⟨hword, hle, htail, hseen, hcounting⟩ :=
    h.counting.load own_injective (t := .consumer) (u := .producer) Side.noConfusion hload
  obtain ⟨hmessages, hplain, hwritten, hread, hraced, hview⟩ := Memory.load_frame hload
  dsimp only at hword hmessages hplain hwritten hread hraced hview hcounting hseen
  change (s.memory.view .consumer).seen .tail ≤ i at hle
  rw [h.seenTail] at hle
  have hqueue : ({ s with memory, cachedTail } : Weak α).queue = { s.queue with cachedTail } := by
    simp only [queue, newest, hmessages, hplain]
  refine ⟨hle, htail, hword, hplain, ?_⟩
  refine ⟨h.log2, hcounting, h.cachedHead, hword, ?_, hseen, ?_, ?_, ?_, ?_, ?_, ?_, ?_, ?_⟩
  · rw [hview _ Side.noConfusion]
    exact h.seenHead
  · rw [hqueue]
    exact h.producer.frame rfl le_rfl rfl rfl
  · rw [hqueue]
    exact h.consumer.frame rfl hle rfl fun _ => rfl
  · rw [hwritten]
    exact h.written
  · rw [hwritten]
    exact h.written_le
  · rw [hwritten]
    exact h.unwritten
  · rw [hread]
    exact h.read
  · rw [hread]
    exact h.unread
  · rw [hraced]
    exact h.raceFree

theorem Inv.popLoadTail (h : Inv c s) (hk : k < 64) {hd : BitVec 64} (hp : s.consumer = .loadTail hd) (i : Nat) :
    ∃ c', Simulated c s c' (s.tryPop .source i) := by
  have hhd : hd = BitVec.ofNat 64 c.head := by
    have hknows := h.consumer
    rw [hp] at hknows
    exact hknows.trans h.queue_head
  rw [tryPop, hp, hhd]
  dsimp only
  split
  · exact ⟨c, h.quiet rfl rfl rfl⟩
  · rename_i cachedTail memory hload
    obtain ⟨hle, htail, rfl, hplain, hinv⟩ := h.seeTail hload
    have htest := h.ofNat_eq hk hle htail
    have hnot := (c.seeTailAt i hle htail).head_le
    change c.head ≤ i at hnot
    refine ⟨c.seeTailAt i hle htail, ?_⟩
    split
    · rename_i hempty
      rw [htest] at hempty
      have hidle := hinv.setConsumer (p := .idle) trivial (by rw [hp]; rfl)
      exact ⟨hidle, (hidle.quiet rfl rfl hplain).run, rfl, rfl, fun _ hfull => (by cases hfull), fun _ => hempty⟩
    · rename_i hne
      rw [htest] at hne
      refine (hinv.setConsumer (p := .read _) ⟨hinv.queue_head.symm, ?_⟩ (by rw [hp]; rfl)).quiet rfl rfl hplain
      change c.head < i
      omega

theorem Inv.read_slot (h : Inv c s) (hk : k < 64) {hd : BitVec 64} (hp : s.consumer = .read hd) (i : Nat) :
    Simulated c s c (s.tryPop .source i) := by
  obtain ⟨hhd, hsome⟩ : hd = s.queue.head ∧ c.head < c.cachedTail := by
    simpa [hp, Consumer.Knows] using h.consumer
  have h₃ := c.cachedTail_le
  have hepoch := (h.counting.view .consumer).epoch
  have hclock := (h.counting.view .consumer).clock .producer Side.noConfusion
  change _ = c.head + 1 at hepoch
  change _ = (s.memory.view .consumer).seen .tail at hclock
  rw [h.seenTail] at hclock
  rw [tryPop, hp, hhd, h.queue_head]
  dsimp only
  rw [h.slot_ofNat hk]
  refine Inv.quiet ⟨h.log2, h.counting.congr rfl rfl, h.cachedHead, h.cachedTail, h.seenHead, h.seenTail, h.producer,
    ⟨h.queue_head.symm, hsome, rfl⟩, h.written, h.written_le, h.unwritten, ?_, ?_, ?_⟩ rfl rfl rfl
  · intro j
    change Function.update s.memory.read _ _ j .consumer = 0 ∨
      ∃ i, i < c.head + 1 ∧ i % 2 ^ k = j ∧ Function.update s.memory.read _ _ j .consumer = i + 1
    by_cases hj : j = c.head % 2 ^ k
    · refine .inr ⟨c.head, Nat.lt_succ_self _, hj.symm, ?_⟩
      rw [hj, Function.update_self, Function.update_self, hepoch]
    · rw [Function.update_of_ne hj]
      refine (h.read j).imp_right ?_
      rintro ⟨i, hlt, hslot, heq⟩
      rw [hp] at hlt
      exact ⟨i, Nat.lt_succ_of_lt hlt, hslot, heq⟩
  · intro j
    change Function.update s.memory.read _ _ j .producer = 0
    by_cases hj : j = c.head % 2 ^ k
    · rw [hj, Function.update_self, Function.update_of_ne Side.noConfusion]
      exact h.unread _
    · rw [Function.update_of_ne hj]
      exact h.unread j
  · -- the slot holds the value at `head`, written in an epoch that the consumer has seen the end of
    have hwritten : s.memory.unordered .consumer (s.memory.written (c.head % 2 ^ k)) = false := by
      apply Memory.unordered_eq_false
      intro side
      cases side with
      | producer =>
          rw [hclock, h.written c.head le_rfl (by omega)]
          exact hsome
      | consumer =>
          rw [h.unwritten]
          exact Nat.zero_le _
    change (s.memory.raced || s.memory.unordered _ _) = false
    rw [h.raceFree, hwritten]
    rfl

theorem Counters.count_popped (hsome : c.head < c.cachedTail) :
    (c.popped hsome).count = Function.update c.count .consumer (c.head + 1) := by
  funext side
  cases side <;> rfl

theorem Inv.storeHead (h : Inv c s) {hd : BitVec 64} {out : α} (hp : s.consumer = .storeHead hd out) (i : Nat) :
    ∃ c', Simulated c s c' (s.tryPop .source i) := by
  obtain ⟨hhd, hsome, hout⟩ : hd = s.queue.head ∧ c.head < c.cachedTail ∧ s.memory.plain (c.head % 2 ^ k) = out := by
    have hknows := h.consumer
    rw [hp] at hknows
    exact hknows
  have hcounting := h.counting.store own_injective .consumer
  have hword : BitVec.ofNat 64 c.head + 1 = BitVec.ofNat 64 (c.head + 1) := (BitVec.ofNat_add ..).symm
  refine ⟨c.popped hsome, ?_⟩
  rw [tryPop, hp, hhd, h.queue_head]
  dsimp only
  rw [hword]
  refine ⟨⟨h.log2, ?_, h.cachedHead, h.cachedTail, h.seenHead, ?_, ?_, trivial, ?_, h.written_le, h.unwritten, ?_,
    h.unread, h.raceFree⟩, ?_, rfl, rfl, fun _ hnil => ?_, fun hnil => ?_⟩
  · rw [Counters.count_popped]
    exact hcounting
  · exact h.seenTail
  · exact h.producer.frame rfl le_rfl rfl rfl
  · intro j hle hlt
    exact h.written j (Nat.le_of_succ_le hle) hlt
  · intro j
    refine (h.read j).imp_right ?_
    rintro ⟨i, hlt, hslot, heq⟩
    rw [hp] at hlt
    exact ⟨i, hlt, hslot, heq⟩
  · change Run _ _ [.popped out] ((c.popped hsome).contents s.memory.plain)
    rw [c.contents_popped s.memory.plain hsome, hout]
    exact Step.run (.popped out _)
  · cases hnil
  · cases hnil

theorem Inv.tryPop (h : Inv c s) (hk : k < 64) (i : Nat) : ∃ c', Simulated c s c' (s.tryPop .source i) := by
  cases hp : s.consumer with
  | idle =>
      refine ⟨c, ?_⟩
      rw [Weak.tryPop, hp]
      exact h.quiet rfl rfl rfl
  | loadHead => exact ⟨c, h.popLoadHead hk hp i⟩
  | loadTail hd => exact h.popLoadTail hk hp i
  | read hd => exact ⟨c, h.read_slot hk hp i⟩
  | storeHead hd out => exact h.storeHead hp i

/-! ### Whole schedules -/

theorem Inv.step (h : Inv c s) (hk : k < 64) (a : Action α) : ∃ c', Simulated c s c' (s.step .source a) := by
  cases a with
  | push v =>
      refine ⟨c, ?_⟩
      cases hp : s.producer with
      | idle =>
          simp only [Weak.step, hp]
          exact (h.setProducer (p := .loadTail v) trivial (by rw [hp]; rfl)).quiet rfl rfl rfl
      | _ =>
          simp only [Weak.step, hp]
          exact h.quiet rfl rfl rfl
  | pop =>
      refine ⟨c, ?_⟩
      cases hp : s.consumer with
      | idle =>
          simp only [Weak.step, hp]
          exact (h.setConsumer (p := .loadHead) trivial (by rw [hp]; rfl)).quiet rfl rfl rfl
      | _ =>
          simp only [Weak.step, hp]
          exact h.quiet rfl rfl rfl
  | producer i => exact h.tryPush hk i
  | consumer i => exact h.tryPop hk i

end Steps

theorem init_inv (k : Nat) (blank : α) :
    Inv (k := k) ⟨0, 0, 0, 0, le_rfl, le_rfl, le_rfl, Nat.zero_le _⟩ (init k blank) where
  log2 := rfl
  counting := by
    have hcount : Counters.count (n := 2 ^ k) ⟨0, 0, 0, 0, le_rfl, le_rfl, le_rfl, Nat.zero_le _⟩ = fun _ => 0 := by
      funext side
      cases side <;> rfl
    rw [hcount]
    exact Counting.init Side.own (BitVec.ofNat 64) _
  cachedHead := rfl
  cachedTail := rfl
  seenHead := rfl
  seenTail := rfl
  producer := trivial
  consumer := trivial
  written _ _ hlt := absurd hlt (Nat.not_lt_zero _)
  written_le _ := Nat.zero_le _
  unwritten _ := rfl
  read _ := .inl rfl
  unread _ := rfl
  raceFree := rfl

/-- After any schedule the calls that went through are a run of the sequential queue to the present contents. -/
theorem run_simulated (hk : k < 64) (blank : α) (actions : List (Action α)) :
    ∃ c : Counters (2 ^ k), Inv c (run .source k blank actions).1 ∧
      Run (2 ^ k) [] (accepted (run .source k blank actions).2)
        (c.contents (run .source k blank actions).1.memory.plain) ∧
      c.tail = (pushes (run .source k blank actions).2).length ∧
      c.head = (pops (run .source k blank actions).2).length := by
  refine Machine.run_induct (step .source) (R := fun s ops => ∃ c : Counters (2 ^ k), Inv c s ∧
    Run (2 ^ k) [] (accepted ops) (c.contents s.memory.plain) ∧ c.tail = (pushes ops).length ∧
    c.head = (pops ops).length) ?_ ?_ actions
  · exact ⟨_, init_inv k blank, .refl _, rfl, rfl⟩
  · rintro s ops a ⟨c, hinv, hrun, htail, hhead⟩
    obtain ⟨c', hsim⟩ := hinv.step hk a
    refine ⟨c', hsim.inv, ?_, ?_, ?_⟩
    · rw [accepted_append]
      exact hrun.trans hsim.run
    · rw [hsim.tail, htail, pushes_append, List.length_append]
    · rw [hsim.head, hhead, pops_append, List.length_append]

/-! ### Sequential consistency as a special case -/

/-- The two models agree on the words, the buffer and the places of the two threads. -/
structure Agrees (s : Weak α) (t : Threads α) : Prop where
  queue : s.queue = t.queue
  producer : s.producer = t.producer
  consumer : s.consumer = t.consumer

section Agrees

variable {c : Counters (2 ^ k)} {s : Weak α} {t : Threads α}

/-- A load that returns the newest store finds what the sequentially consistent load finds. -/
theorem Agrees.tryPush (h : Agrees s t) (hinv : Inv c s) :
    ∃ i, Agrees (s.tryPush .source i).1 t.tryPush.1 ∧ (s.tryPush .source i).2 = t.tryPush.2 := by
  obtain ⟨queue, producer, consumer, occupied⟩ := t
  obtain ⟨hqueue, hproducer, hconsumer⟩ := h
  dsimp only at hqueue hproducer hconsumer
  subst hqueue hproducer hconsumer
  cases hp : s.producer with
  | idle =>
      refine ⟨0, ?_⟩
      rw [Weak.tryPush, Threads.tryPush, hp]
      exact ⟨⟨rfl, hp, rfl⟩, rfl⟩
  | loadTail v =>
      refine ⟨c.tail, ?_⟩
      obtain ⟨r, hload⟩ := hinv.counting.exists_load .producer .producer false
      obtain rfl := hinv.counting.load_own hload
      change s.memory.load .producer .tail false c.tail = some (BitVec.ofNat 64 c.tail, s.memory) at hload
      simp only [Weak.tryPush, Threads.tryPush, hp, hload, hinv.queue_tail]
      have hcached : s.queue.cachedHead = s.cachedHead := rfl
      rw [hcached]
      split <;> exact ⟨⟨rfl, rfl, rfl⟩, rfl⟩
  | loadHead v tl =>
      refine ⟨c.head, ?_⟩
      obtain ⟨⟨cachedHead, memory⟩, hload⟩ := hinv.counting.exists_load .producer .consumer true
      change s.memory.load .producer .head true c.head = some (cachedHead, memory) at hload
      obtain ⟨_, _, hword, hplain, hsees⟩ := hinv.seeHead hload
      obtain ⟨hmessages, _⟩ := Memory.load_frame hload
      obtain rfl : cachedHead = s.queue.head := hword.trans hinv.queue_head.symm
      have hqueue : ({ s with memory, cachedHead := s.queue.head } : Weak α).queue =
          { s.queue with cachedHead := s.queue.head } := by
        dsimp only at hmessages
        simp only [Weak.queue, newest, hmessages, hplain]
      have hload' : s.memory.load .producer .head Orders.source.pushAcquires c.head = some (s.queue.head, memory) := hload
      have hsize : ({ s.queue with cachedHead := s.queue.head } : SpscQueue α).size = s.queue.size := rfl
      rw [Weak.tryPush, Threads.tryPush, hp]
      dsimp only at hsize ⊢
      rw [hload', hsize]
      dsimp only
      split
      · exact ⟨⟨hqueue, rfl, rfl⟩, rfl⟩
      · exact ⟨⟨hqueue, rfl, rfl⟩, rfl⟩
  | write v tl =>
      refine ⟨0, ?_⟩
      rw [Weak.tryPush, Threads.tryPush, hp]
      exact ⟨⟨rfl, rfl, rfl⟩, rfl⟩
  | storeTail v tl =>
      refine ⟨0, ?_⟩
      rw [Weak.tryPush, Threads.tryPush, hp]
      refine ⟨⟨?_, rfl, rfl⟩, rfl⟩
      simp [Weak.queue, newest, Memory.store]

theorem Agrees.tryPop (h : Agrees s t) (hinv : Inv c s) :
    ∃ i, Agrees (s.tryPop .source i).1 t.tryPop.1 ∧ (s.tryPop .source i).2 = t.tryPop.2 := by
  obtain ⟨queue, producer, consumer, occupied⟩ := t
  obtain ⟨hqueue, hproducer, hconsumer⟩ := h
  dsimp only at hqueue hproducer hconsumer
  subst hqueue hproducer hconsumer
  cases hp : s.consumer with
  | idle =>
      refine ⟨0, ?_⟩
      rw [Weak.tryPop, Threads.tryPop, hp]
      exact ⟨⟨rfl, rfl, hp⟩, rfl⟩
  | loadHead =>
      refine ⟨c.head, ?_⟩
      obtain ⟨r, hload⟩ := hinv.counting.exists_load .consumer .consumer false
      obtain rfl := hinv.counting.load_own hload
      change s.memory.load .consumer .head false c.head = some (BitVec.ofNat 64 c.head, s.memory) at hload
      simp only [Weak.tryPop, Threads.tryPop, hp, hload, hinv.queue_head]
      have hcached : s.queue.cachedTail = s.cachedTail := rfl
      rw [hcached]
      split <;> exact ⟨⟨rfl, rfl, rfl⟩, rfl⟩
  | loadTail hd =>
      refine ⟨c.tail, ?_⟩
      obtain ⟨⟨cachedTail, memory⟩, hload⟩ := hinv.counting.exists_load .consumer .producer true
      change s.memory.load .consumer .tail true c.tail = some (cachedTail, memory) at hload
      obtain ⟨_, _, hword, hplain, hsees⟩ := hinv.seeTail hload
      obtain ⟨hmessages, _⟩ := Memory.load_frame hload
      obtain rfl : cachedTail = s.queue.tail := hword.trans hinv.queue_tail.symm
      have hqueue : ({ s with memory, cachedTail := s.queue.tail } : Weak α).queue =
          { s.queue with cachedTail := s.queue.tail } := by
        dsimp only at hmessages
        simp only [Weak.queue, newest, hmessages, hplain]
      have hload' : s.memory.load .consumer .tail Orders.source.popAcquires c.tail = some (s.queue.tail, memory) := hload
      rw [Weak.tryPop, Threads.tryPop, hp]
      dsimp only
      rw [hload']
      dsimp only
      split
      · exact ⟨⟨hqueue, rfl, rfl⟩, rfl⟩
      · exact ⟨⟨hqueue, rfl, rfl⟩, rfl⟩
  | read hd =>
      refine ⟨0, ?_⟩
      rw [Weak.tryPop, Threads.tryPop, hp]
      exact ⟨⟨rfl, rfl, rfl⟩, rfl⟩
  | storeHead hd out =>
      refine ⟨0, ?_⟩
      rw [Weak.tryPop, Threads.tryPop, hp]
      refine ⟨⟨?_, rfl, rfl⟩, rfl⟩
      simp [Weak.queue, newest, Memory.store]

theorem Agrees.step (h : Agrees s t) (hinv : Inv c s) (a : SpscQueue.Action α) :
    ∃ a', Agrees (s.step .source a').1 (t.step a).1 ∧ (s.step .source a').2 = (t.step a).2 := by
  cases a with
  | push v =>
      refine ⟨.push v, ?_⟩
      rw [Weak.step, Threads.step, h.producer]
      cases t.producer with
      | idle => exact ⟨⟨h.queue, rfl, h.consumer⟩, rfl⟩
      | _ => exact ⟨h, rfl⟩
  | pop =>
      refine ⟨.pop, ?_⟩
      rw [Weak.step, Threads.step, h.consumer]
      cases t.consumer with
      | idle => exact ⟨⟨h.queue, h.producer, rfl⟩, rfl⟩
      | _ => exact ⟨h, rfl⟩
  | producer =>
      obtain ⟨i, hi⟩ := h.tryPush hinv
      exact ⟨.producer i, hi⟩
  | consumer =>
      obtain ⟨i, hi⟩ := h.tryPop hinv
      exact ⟨.consumer i, hi⟩

end Agrees

/-- Every sequentially consistent schedule is one of this memory, in which each load returns the newest store. -/
theorem exists_agrees (hk : k < 64) (blank : α) (actions : List (SpscQueue.Action α)) :
    ∃ schedule, Agrees (run .source k blank schedule).1 (SpscQueue.run k blank actions).1 ∧
      (run .source k blank schedule).2 = (SpscQueue.run k blank actions).2 := by
  induction actions using List.reverseRecOn with
  | nil => exact ⟨[], ⟨rfl, rfl, rfl⟩, rfl⟩
  | append_singleton actions a ih =>
      obtain ⟨schedule, hagrees, hops⟩ := ih
      obtain ⟨c, hinv, _⟩ := run_simulated hk blank schedule
      obtain ⟨a', hstep, hop⟩ := hagrees.step hinv a
      refine ⟨schedule ++ [a'], ?_⟩
      rw [SpscQueue.run, Weak.run, Machine.run_concat, Machine.run_concat]
      exact ⟨hstep, congrArg₂ (· ++ ·) hops hop⟩

/-- One push, one pop and a second push into the same place, each side finding the newest store of the other. -/
def reuse : List (Action Unit) :=
  [.push (), .producer 0, .producer 0, .producer 0, .pop, .consumer 0, .consumer 1, .consumer 0, .consumer 0,
    .push (), .producer 1, .producer 1, .producer 0]

/-- Whichever of the four orders is missing, the second use of a slot is not ordered after the first. -/
theorem reuse_raced (orders : Orders) : (run orders 0 () reuse).1.memory.raced = false → orders = .source := by
  obtain ⟨pushAcquires, pushReleases, popAcquires, popReleases⟩ := orders
  cases pushAcquires <;> cases pushReleases <;> cases popAcquires <;> cases popReleases <;> decide +kernel

/-- The four orders are what keeps the ring free of data races: with them no schedule and no choice of the stores that loads return leads to one, and with any of them relaxed some does. -/
theorem raceFree_iff (orders : Orders) :
    (∀ (α : Type) (blank : α) (k : Nat) (actions : List (Action α)), k ≤ 63 →
      (run orders k blank actions).1.memory.raced = false) ↔ orders = .source := by
  constructor
  · intro h
    exact reuse_raced orders (h Unit () 0 reuse (by decide))
  · rintro rfl α blank k actions hk
    obtain ⟨c, hinv, _⟩ := run_simulated (k := k) (by omega) blank actions
    exact hinv.raceFree

/-- What every schedule guarantees in the state it leads to, given the calls that have returned, whichever stores the loads return. -/
structure Delivered (k : Nat) (s : Weak α) (ops : List (Op α)) : Prop where
  /-- The calls that were not refused are a run of the sequential queue of `2 ^ k` places. -/
  fifo : ∃ items, Run (2 ^ k) [] (accepted ops) items
  inOrder : pops ops <+: pushes ops
  bounded : (pushes ops).length ≤ (pops ops).length + 2 ^ k
  /-- A push that the next step refuses has found the ring full as of the last pop that the producer has seen. -/
  full : ∀ a v, (s.step .source a).2 = [.full v] →
    (pushes ops).length = ((s.step .source a).1.memory.view .producer).seen .head + 2 ^ k
  /-- A pop that the next step refuses has found the ring empty as of the last push that the consumer has seen. -/
  empty : ∀ a, (s.step .source a).2 = [.empty] →
    (pops ops).length = ((s.step .source a).1.memory.view .consumer).seen .tail

theorem run_delivered (k : Nat) (hk : k ≤ 63) (blank : α) (actions : List (Action α)) :
    Delivered k (run .source k blank actions).1 (run .source k blank actions).2 := by
  have hk' : k < 64 := by omega
  obtain ⟨c, hinv, hrun, htail, hhead⟩ := run_simulated hk' blank actions
  have h₁ := c.cachedHead_le
  have h₄ := c.tail_le
  refine ⟨⟨_, hrun⟩, ?_, by omega, fun a v hop => ?_, fun a hop => ?_⟩
  · have hpref := hrun.isPrefix_pops
    rwa [pops_accepted, pushes_accepted] at hpref
  · obtain ⟨c', hsim⟩ := hinv.step hk' a
    have hcount := hsim.tail
    rw [hop] at hcount
    rw [hsim.inv.seenHead, ← hsim.full v hop, hcount, htail]
    rfl
  · obtain ⟨c', hsim⟩ := hinv.step hk' a
    have hcount := hsim.head
    rw [hop] at hcount
    rw [hsim.inv.seenTail, ← hsim.empty hop, hcount, hhead]
    rfl

/-- The consumer looks for a second value, finds the store of `tail` that it has already seen, and is refused although a second value has been pushed. -/
theorem run_delivered_stale :
    let call := fun v : Nat => [Action.push v, .producer 0, .producer 0, .producer 0]
    let schedule := call 7 ++ [.pop, .consumer 0, .consumer 1, .consumer 0, .consumer 0] ++
      [.push 8, .producer 1, .producer 0, .producer 0] ++ [.pop, .consumer 1, .consumer 1]
    (run .source 1 0 schedule).2 = [.pushed 7, .popped 7, .pushed 8, .empty] ∧
      Delivered 1 (run .source 1 0 schedule).1 (run .source 1 0 schedule).2 :=
  ⟨by decide +kernel, run_delivered 1 (by decide) 0 _⟩

end Weak

end Matchbox.SpscQueue
