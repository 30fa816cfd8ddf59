import Matchbox.Engine.Order
import Matchbox.Lib.Bitmap

/-!
# One instrument's book

`book.hpp` and `book.cpp`. A book holds one level per side and price tick, each an intrusive FIFO of pool slots, a bitmap over prices per side and the cached best prices. The code's book keeps a reference to the pool; here every operation takes and returns both.

The two loops of `match` carry explicit fuel. Each round of the inner loop takes at least one unit from the taker as long as no resting order is empty, so the taker's quantity is enough for both, and the fuel never decides the outcome on a reachable state.
-/

namespace Matchbox

structure Level where
  head : Nat := kNull
  tail : Nat := kNull
  /-- Wraps modulo `2 ^ 32`. -/
  qty : Nat := 0
  count : Nat := 0
deriving DecidableEq

structure Book where
  maxPrice : Int
  resting : Nat := 0
  levels : Side → Int → Level
  bits : Side → List Bitmap.Word
  best : Side → Int

/-- What `match` returns and mutates: the pool, the book, the quantity filled so far, and whatever the fill callback accumulates. -/
structure MatchState (α : Type) where
  pool : OrderPool
  book : Book
  filled : Nat
  acc : α

/-- `on_fill(maker, price, qty)`: it may change the pool and sees it after both quantities are updated. -/
abbrev OnFill (α : Type) := OrderPool → α → Nat → Int → Nat → OrderPool × α

namespace Book

/-- The constructor: levels and bitmap for the prices `0 .. maxPrice`, all empty. -/
def init (maxPrice : Int) : Book where
  maxPrice := maxPrice
  levels := fun _ _ => {}
  bits := fun _ => List.replicate (maxPrice.toNat / 64 + 1) 0#64
  best := fun _ => kNoPrice

def validPrice (b : Book) (p : Int) : Bool := decide (1 ≤ p ∧ p ≤ b.maxPrice)

def setLevel (b : Book) (s : Side) (p : Int) (lvl : Level) : Book :=
  { b with levels := Function.update b.levels s (Function.update (b.levels s) p lvl) }

/-- Lowest set price at or above `start`. `none` is a read outside the bitmap. -/
def scanUp (b : Book) (s : Side) (start : Int) : Option Int :=
  if b.maxPrice < start then some kNoPrice
  else (Bitmap.scanUp (b.bits s) start.toNat).map fun found => found.elim kNoPrice Int.ofNat

/-- Highest set price at or below `start`. -/
def scanDown (b : Book) (s : Side) (start : Int) : Option Int :=
  if start < 1 then some kNoPrice
  else (Bitmap.scanDown (b.bits s) start.toNat).map fun found => found.elim kNoPrice Int.ofNat

/-- The search for the best price behind `p`: down the bids, up the asks. -/
def nextBest (b : Book) (side : Side) (p : Int) : Option Int :=
  match side with
  | .buy => b.scanDown side (p - 1)
  | .sell => b.scanUp side (p + 1)

/-- Clear the price's bit and, if it was the best one, search for the next. -/
def levelEmptied (b : Book) (side : Side) (p : Int) : Book :=
  let b := { b with bits := Function.update b.bits side (Bitmap.clear (b.bits side) p.toNat) }
  if b.best side = p then
    { b with best := Function.update b.best side ((b.nextBest side p).getD kNoPrice) }
  else b

/-- `p` is strictly ahead of `q` on this side of a book. -/
def better (s : Side) (p q : Int) : Bool :=
  match s with
  | .buy => decide (q < p)
  | .sell => decide (p < q)

/-- The end of `insert` for the first order of a level: mark the price, and cache it if it is the best. -/
def levelOpened (b : Book) (side : Side) (p : Int) : Book :=
  let b := { b with bits := Function.update b.bits side (Bitmap.set (b.bits side) p.toNat) }
  if b.best side = kNoPrice ∨ better side p (b.best side) then
    { b with best := Function.update b.best side p }
  else b

/-- `a - b` on a 32-bit counter. -/
def sub32 (a b : Nat) : Nat := (a + (word32 - b % word32)) % word32

/-- Rest at the back of its level. -/
def insert (pool : OrderPool) (b : Book) (slot : Nat) : OrderPool × Book :=
  let o := pool.slots slot
  let lvl := b.levels o.side o.price
  let pool := pool.modify slot fun o => { o with prev := lvl.tail, next := kNull }
  let pool := if lvl.tail ≠ kNull then pool.modify lvl.tail fun t => { t with next := slot } else pool
  let lvl : Level :=
    { head := if lvl.tail ≠ kNull then lvl.head else slot
      tail := slot
      qty := (lvl.qty + o.qty) % word32
      count := lvl.count + 1 }
  let b := { b.setLevel o.side o.price lvl with resting := b.resting + 1 }
  (pool, if lvl.count = 1 then b.levelOpened o.side o.price else b)

/-- Take `slot` out of the level `(s, p)`. The code passes the level by reference. -/
def unlink (pool : OrderPool) (b : Book) (s : Side) (p : Int) (slot : Nat) : OrderPool × Book :=
  let o := pool.slots slot
  let lvl := b.levels s p
  let pool := if o.prev ≠ kNull then pool.modify o.prev fun x => { x with next := o.next } else pool
  let pool := if o.next ≠ kNull then pool.modify o.next fun x => { x with prev := o.prev } else pool
  let lvl : Level :=
    { head := if o.prev ≠ kNull then lvl.head else o.next
      tail := if o.next ≠ kNull then lvl.tail else o.prev
      qty := sub32 lvl.qty o.qty
      count := lvl.count - 1 }
  let b := { b.setLevel s p lvl with resting := b.resting - 1 }
  let pool := pool.modify slot fun o => { o with prev := kNull, next := kNull }
  (pool, if lvl.count = 0 then b.levelEmptied o.side o.price else b)

def remove (pool : OrderPool) (b : Book) (slot : Nat) : OrderPool × Book :=
  unlink pool b (pool.slots slot).side (pool.slots slot).price slot

/-- Shrink in place, keeping priority. -/
def reduce (pool : OrderPool) (b : Book) (slot : Nat) (newQty : Nat) : OrderPool × Book :=
  let o := pool.slots slot
  let lvl := b.levels o.side o.price
  (pool.modify slot fun o => { o with qty := newQty },
    b.setLevel o.side o.price { lvl with qty := sub32 lvl.qty (o.qty - newQty) })

def crosses (taker : Side) (takerPx bookPx : Int) : Bool :=
  match taker with
  | .buy => decide (bookPx ≤ takerPx)
  | .sell => decide (takerPx ≤ bookPx)

section Match

variable {α : Type} (onFill : OnFill α) (taker : Nat) (s : Side)

/-- One round of the inner loop: trade with the order at the head of the level `(s, px)`. -/
def fillHead (px : Int) (st : MatchState α) : MatchState α :=
  let lvl := st.book.levels s px
  let maker := lvl.head
  let q := min (st.pool.slots taker).qty (st.pool.slots maker).qty
  let pool := st.pool.modify maker fun m => { m with qty := m.qty - q, filled := (m.filled + q) % word32 }
  let pool := pool.modify taker fun t => { t with qty := t.qty - q, filled := (t.filled + q) % word32 }
  let book := st.book.setLevel s px { lvl with qty := sub32 lvl.qty q }
  let r := if (pool.slots maker).qty = 0 then unlink pool book s px maker else (pool, book)
  let called := onFill r.1 st.acc maker px q
  { pool := called.1, book := r.2, filled := st.filled + q, acc := called.2 }

/-- The inner loop, over the orders of the level `(s, px)`. -/
def matchLevel (px : Int) : Nat → MatchState α → MatchState α
  | 0, st => st
  | fuel + 1, st =>
      if 0 < (st.pool.slots taker).qty ∧ (st.book.levels s px).head ≠ kNull then
        matchLevel px fuel (fillHead onFill taker s px st)
      else st

/-- The outer loop, over the best prices of side `s`. -/
def matchLoop : Nat → MatchState α → MatchState α
  | 0, st => st
  | fuel + 1, st =>
      let t := st.pool.slots taker
      let px := st.book.best s
      if t.qty = 0 then st
      else if px = kNoPrice then st
      else if t.type = .limit ∧ ¬ crosses t.side t.price px then st
      else matchLoop fuel (matchLevel onFill taker s px t.qty st)

end Match

/-- Match `taker` against the opposite side in price-time order. -/
def matchTaker {α : Type} (onFill : OnFill α) (pool : OrderPool) (b : Book) (taker : Nat) (acc : α) : MatchState α :=
  matchLoop onFill taker (opposite (pool.slots taker).side) (pool.slots taker).qty
    { pool := pool, book := b, filled := 0, acc := acc }

def top (b : Book) : TopOfBook where
  bid := b.best .buy
  ask := b.best .sell
  bidQty := if b.best .buy ≠ kNoPrice then (b.levels .buy (b.best .buy)).qty else 0
  askQty := if b.best .sell ≠ kNoPrice then (b.levels .sell (b.best .sell)).qty else 0

end Book

end Matchbox
