import Mathlib.Logic.Function.Basic
import Matchbox.Engine.Types

/-!
# Orders and their pool

`order.hpp`: a fixed-capacity slab of orders with an intrusive free list. A reference `Order&` of the code is a slot number here, and the vector is a map from slot numbers; the representation invariant shows that only slots below `capacity` are ever reached.
-/

namespace Matchbox

structure Order where
  id : Nat := 0
  tag : Nat := 0
  session : Nat := 0
  symbol : Nat := 0
  side : Side := .buy
  type : OrderType := .limit
  tif : Tif := .gtc
  live : Bool := false
  price : Int := 0
  /-- What remains of the order. -/
  qty : Nat := 0
  filled : Nat := 0
  prev : Nat := kNull
  /-- The list link, and the free-list link while the slot is not live. -/
  next : Nat := kNull
  gen : Nat := 0
deriving DecidableEq

structure OrderPool where
  capacity : Nat
  slots : Nat → Order
  freeHead : Nat := kNull
  live : Nat := 0
  /-- Ghost: how often each slot has been freed. No code reads it. -/
  frees : Nat → Nat := fun _ => 0

namespace OrderPool

/-- Assignment through a reference to the order in `slot`. -/
def modify (pool : OrderPool) (slot : Nat) (f : Order → Order) : OrderPool :=
  { pool with slots := Function.update pool.slots slot (f (pool.slots slot)) }

/-- The constructor: every slot free, generation one, linked in index order. -/
def init (capacity : Nat) : OrderPool where
  capacity := capacity
  slots := fun i => { gen := 1, next := if i + 1 < capacity then i + 1 else kNull }
  freeHead := if capacity = 0 then kNull else 0

/-- The identifier `alloc` gives to a slot. -/
def idOf (gen : Nat) (slot : Nat) : Nat := gen <<< 32 ||| slot

/-- Take the first free slot and reset it, keeping its generation. -/
def alloc (pool : OrderPool) : Option (OrderPool × Nat) :=
  if pool.freeHead = kNull then none
  else
    let slot := pool.freeHead
    let o := pool.slots slot
    let pool' := pool.modify slot fun _ => { gen := o.gen, id := idOf o.gen slot, live := true }
    some ({ pool' with freeHead := o.next, live := pool.live + 1 }, slot)

/-- The generation after `gen`: one up modulo `2 ^ 32`, skipping zero so that no identifier is zero. -/
def nextGen (gen : Nat) : Nat :=
  if (gen + 1) % word32 ≠ 0 then (gen + 1) % word32 else 1

def free (pool : OrderPool) (slot : Nat) : OrderPool :=
  let pool' := pool.modify slot fun o => { o with live := false, gen := nextGen o.gen, next := pool.freeHead }
  { pool' with
    freeHead := slot
    live := pool.live - 1
    frees := Function.update pool.frees slot (pool.frees slot + 1) }

/-- The live order with this identifier: the slot is the low half of the identifier. -/
def find (pool : OrderPool) (id : Nat) : Option Nat :=
  let slot := id % word32
  if pool.capacity ≤ slot then none
  else if (pool.slots slot).live ∧ (pool.slots slot).id = id then some slot else none

end OrderPool

end Matchbox
