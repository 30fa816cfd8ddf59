import Mathlib.Logic.Function.Basic
import Matchbox.Lib.BoundedFifo
import Matchbox.Lib.Machine

/-!
# The single-producer single-consumer ring

`spsc_queue.hpp`. The two threads interleave under sequential consistency, and every index load, buffer access and index store is a step of its own: `Producer` and `Consumer` are the places between two such accesses inside `try_push` and `try_pop`, with the locals that are alive there. The cached index of a side is private to it, so reading it is part of the step before.
-/

namespace Matchbox

open BoundedFifo

structure SpscQueue (α : Type) where
  capacityLog2 : Nat
  /-- Consumer owns. -/
  head : BitVec 64 := 0
  /-- Consumer's view of `tail`. -/
  cachedTail : BitVec 64 := 0
  /-- Producer owns. -/
  tail : BitVec 64 := 0
  /-- Producer's view of `head`. -/
  cachedHead : BitVec 64 := 0
  buf : Nat → α

namespace SpscQueue

variable {α : Type}

/-- `buf_.size()`. -/
def size (q : SpscQueue α) : BitVec 64 := 1#64 <<< q.capacityLog2

def mask (q : SpscQueue α) : BitVec 64 := q.size - 1#64

/-- The place in the buffer that an index selects. -/
def slot (q : SpscQueue α) (i : BitVec 64) : Nat := (i &&& q.mask).toNat

/-- Where the producer is: outside `try_push`, or before the named access of a `try_push(v)`. -/
inductive Producer (α : Type) where
  | idle
  | loadTail (v : α)
  | loadHead (v : α) (t : BitVec 64)
  | write (v : α) (t : BitVec 64)
  | storeTail (v : α) (t : BitVec 64)

/-- Where the consumer is: outside `try_pop`, or before the named access of a `try_pop`. -/
inductive Consumer (α : Type) where
  | idle
  | loadHead
  | loadTail (h : BitVec 64)
  | read (h : BitVec 64)
  | storeHead (h : BitVec 64) (out : α)

structure Threads (α : Type) where
  queue : SpscQueue α
  producer : Producer α := .idle
  consumer : Consumer α := .idle
  /-- Ghost: the slot was written and the value has not been popped since. No code reads it. -/
  occupied : Nat → Bool := fun _ => false

/-- The constructor, before either thread calls. The buffer holds default values. -/
def init (capacityLog2 : Nat) (blank : α) : Threads α where
  queue := { capacityLog2 := capacityLog2, buf := fun _ => blank }

/-- The next access of `try_push`. A returning call answers with its operation. -/
def Threads.tryPush (s : Threads α) : Threads α × List (Op α) :=
  match s.producer with
  | .idle => (s, [])
  | .loadTail v =>
      let t := s.queue.tail
      if s.queue.size ≤ t - s.queue.cachedHead then ({ s with producer := .loadHead v t }, [])
      else ({ s with producer := .write v t }, [])
  | .loadHead v t =>
      let queue := { s.queue with cachedHead := s.queue.head }
      if queue.size ≤ t - queue.cachedHead then ({ s with queue, producer := .idle }, [.full v])
      else ({ s with queue, producer := .write v t }, [])
  | .write v t =>
      ({ s with
          queue := { s.queue with buf := Function.update s.queue.buf (s.queue.slot t) v }
          producer := .storeTail v t
          occupied := Function.update s.occupied (s.queue.slot t) true }, [])
  | .storeTail v t => ({ s with queue := { s.queue with tail := t + 1 }, producer := .idle }, [.pushed v])

/-- The next access of `try_pop`. A returning call answers with its operation. -/
def Threads.tryPop (s : Threads α) : Threads α × List (Op α) :=
  match s.consumer with
  | .idle => (s, [])
  | .loadHead =>
      let h := s.queue.head
      if h = s.queue.cachedTail then ({ s with consumer := .loadTail h }, [])
      else ({ s with consumer := .read h }, [])
  | .loadTail h =>
      let queue := { s.queue with cachedTail := s.queue.tail }
      if h = queue.cachedTail then ({ s with queue, consumer := .idle }, [.empty])
      else ({ s with queue, consumer := .read h }, [])
  | .read h => ({ s with consumer := .storeHead h (s.queue.buf (s.queue.slot h)) }, [])
  | .storeHead h out =>
      ({ s with
          queue := { s.queue with head := h + 1 }
          consumer := .idle
          occupied := Function.update s.occupied (s.queue.slot h) false }, [.popped out])

/-- One step of the two threads: a call, or the next access of the call in progress. -/
inductive Action (α : Type) where
  | push (v : α)
  | pop
  | producer
  | consumer

def Threads.step (s : Threads α) : Action α → Threads α × List (Op α)
  | .push v =>
      match s.producer with
      | .idle => ({ s with producer := .loadTail v }, [])
      | _ => (s, [])
  | .pop =>
      match s.consumer with
      | .idle => ({ s with consumer := .loadHead }, [])
      | _ => (s, [])
  | .producer => s.tryPush
  | .consumer => s.tryPop

/-- A fresh queue under a schedule: the state, and the calls that returned, in order. -/
def run (capacityLog2 : Nat) (blank : α) (actions : List (Action α)) : Threads α × List (Op α) :=
  Machine.run Threads.step (init capacityLog2 blank) actions

end SpscQueue

end Matchbox
