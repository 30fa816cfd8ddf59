import Mathlib.Algebra.Group.Nat.Defs
import Mathlib.Data.Int.Notation

/-!
# Prices, quantities, identifiers

The vocabulary of `types.hpp`. A price is an `Int` of ticks; quantities, pool slots and order identifiers are naturals. The few places where the code relies on wrap-around (`Level::qty`, `Order::filled`, a slot's generation) reduce explicitly modulo `2 ^ 32`; every other sum and difference of the code stays inside its type.
-/

namespace Matchbox

/-- The wrap of the 32-bit counters. -/
abbrev word32 : Nat := 2 ^ 32

/-- No slot: the end of every list. -/
def kNull : Nat := word32 - 1

def kNoPrice : Int := -1

inductive Side where
  | buy
  | sell
deriving DecidableEq, Repr

inductive OrderType where
  | limit
  | market
deriving DecidableEq, Repr

inductive Tif where
  | gtc
  | ioc
deriving DecidableEq, Repr

inductive RejectReason where
  | none
  | badSymbol
  | badPrice
  | badQty
  | bookFull
  | unknownOrder
  | notOwner
  | badSeq
  | badMessage
deriving DecidableEq, Repr

def opposite : Side → Side
  | .buy => .sell
  | .sell => .buy

theorem opposite_ne (s : Side) : opposite s ≠ s := by
  cases s <;> decide

structure TopOfBook where
  bid : Int := kNoPrice
  ask : Int := kNoPrice
  bidQty : Nat := 0
  askQty : Nat := 0
deriving DecidableEq, Repr

end Matchbox
