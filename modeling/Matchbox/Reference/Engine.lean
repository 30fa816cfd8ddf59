import Matchbox.Engine.Process
import Matchbox.Lib.Sweep

/-!
# The reference engine

What the matching engine is for, without its data structures. A book is a finite map from prices to FIFO lists of entries, one map per symbol and side; a price without orders maps to the empty list, and only the prices `1 .. maxPrice` are ever used. Beside the books the reference keeps a ticket for every resting order, with what its events have to say about it, and counts them.

An order is matched by one sweep over the opposite prices, best first. The reference does not allocate: the identifier of an accepted order is an input.
-/

namespace Matchbox

open Sweep

structure Ticket where
  tag : Nat
  session : Nat
  symbol : Nat
  side : Side
  price : Int
deriving DecidableEq

structure Reference where
  cfg : Engine.Config
  books : Nat → Side → Int → List (Entry Nat)
  tickets : Nat → Option Ticket
  /-- How many orders rest. -/
  live : Nat

namespace Reference

def init (cfg : Engine.Config) : Reference where
  cfg := cfg
  books := fun _ _ _ => []
  tickets := fun _ => none
  live := 0

/-- The prices of one side of a book, best first. -/
def prices (cfg : Engine.Config) : Side → List Int
  | .sell => (List.range cfg.maxPrice.toNat).map fun n : Nat => (n : Int) + 1
  | .buy => ((List.range cfg.maxPrice.toNat).map fun n : Nat => (n : Int) + 1).reverse

/-- The best price with an order, or `kNoPrice`. -/
def best (r : Reference) (symbol : Nat) (s : Side) : Int :=
  ((prices r.cfg s).find? fun p => decide (r.books symbol s p ≠ [])).getD kNoPrice

def setSide (r : Reference) (symbol : Nat) (s : Side) (queues : Int → List (Entry Nat)) : Reference :=
  { r with books := Function.update r.books symbol (Function.update (r.books symbol) s queues) }

def setQueue (r : Reference) (symbol : Nat) (s : Side) (p : Int) (xs : List (Entry Nat)) : Reference :=
  r.setSide symbol s (Function.update (r.books symbol s) p xs)

/-- An event about the order `id`, of which `qty` remains. -/
def event (k : Event.Kind) (id : Nat) (t : Ticket) (qty : Nat) : Event where
  kind := k
  side := t.side
  symbol := t.symbol
  session := t.session
  tag := t.tag
  orderId := id
  price := t.price
  qty := qty
  remaining := qty

def reject (c : Command) (reason : RejectReason) : Event where
  kind := .rejected
  reason := reason
  session := c.session
  tag := c.tag
  orderId := c.orderId
  symbol := c.symbol

/-- The order trades at price `p` of the other side. -/
def reaches (type : OrderType) (t : Ticket) (p : Int) : Bool :=
  match type, t.side with
  | .market, _ => true
  | .limit, .buy => decide (p ≤ t.price)
  | .limit, .sell => decide (t.price ≤ p)

/-- The events of one trade between the maker's ticket `m` and the taker `id` with ticket `t`. -/
def tradeEvents (id : Nat) (t m : Ticket) (trade : Trade Int Nat) : List Event :=
  [{ event .fill trade.maker m trade.makerLeft with maker := true, price := trade.price, qty := trade.qty },
    { event .fill id t trade.takerLeft with price := trade.price, qty := trade.qty },
    { kind := .trade, side := t.side, symbol := t.symbol, price := trade.price, qty := trade.qty }]

/-- Forget an order that no longer rests. -/
def close (r : Reference) (id : Nat) : Reference :=
  { r with tickets := Function.update r.tickets id none, live := r.live - 1 }

/-- Report the trades and forget the makers they use up. -/
def settle (id : Nat) (t : Ticket) : List (Trade Int Nat) → Reference → Reference × List Event
  | [], r => (r, [])
  | trade :: trades, r =>
      let events := (r.tickets trade.maker).elim [] fun m => tradeEvents id t m trade
      let rest := settle id t trades (if trade.makerLeft = 0 then r.close trade.maker else r)
      (rest.1, events ++ rest.2)

/-- The order goes to the back of its price. -/
def rest (r : Reference) (id : Nat) (t : Ticket) (qty : Nat) : Reference :=
  let r := r.setQueue t.symbol t.side t.price (r.books t.symbol t.side t.price ++ [⟨id, qty⟩])
  { r with tickets := Function.update r.tickets id (some t), live := r.live + 1 }

/-- Match `qty` of the order, then rest or cancel what remains. -/
def execute (r : Reference) (id : Nat) (t : Ticket) (type : OrderType) (tif : Tif) (qty : Nat) :
    Reference × List Event :=
  let other := opposite t.side
  let swept := sweep (reaches type t) (prices r.cfg other) (r.books t.symbol other) qty
  let settled := settle id t swept.trades r
  let r := settled.1.setSide t.symbol other swept.queues
  if swept.left = 0 then (r, settled.2)
  else if type = .limit ∧ tif = .gtc then (r.rest id t swept.left, settled.2)
  else (r, settled.2 ++ [event .cancelled id t swept.left])

def onNew (r : Reference) (c : Command) (id : Nat) : Reference × List Event :=
  if r.cfg.symbols ≤ c.symbol then (r, [reject c .badSymbol])
  else if c.qty = 0 then (r, [reject c .badQty])
  else if c.type = .limit ∧ ¬ (1 ≤ c.price ∧ c.price ≤ r.cfg.maxPrice) then (r, [reject c .badPrice])
  else if r.live = r.cfg.maxOrders then (r, [reject c .bookFull])
  else
    let t : Ticket := ⟨c.tag, c.session, c.symbol, c.side, if c.type = .limit then c.price else 0⟩
    let done := r.execute id t c.type c.tif c.qty
    (done.1, event .accepted id t c.qty :: done.2)

/-- What remains of a resting order. -/
def remaining (r : Reference) (id : Nat) (t : Ticket) : Nat :=
  ((r.books t.symbol t.side t.price).find? fun x => x.id = id).elim 0 Entry.qty

/-- The order leaves its queue. -/
def delete (r : Reference) (id : Nat) (t : Ticket) : Reference :=
  (r.setQueue t.symbol t.side t.price ((r.books t.symbol t.side t.price).filter fun x => x.id ≠ id)).close id

def onCancel (r : Reference) (c : Command) (t : Ticket) : Reference × List Event :=
  (r.delete c.orderId t, [event .cancelled c.orderId t (r.remaining c.orderId t)])

def onReplace (r : Reference) (c : Command) (t : Ticket) : Reference × List Event :=
  if c.qty = 0 then (r, [reject c .badQty])
  else if ¬ (1 ≤ c.price ∧ c.price ≤ r.cfg.maxPrice) then (r, [reject c .badPrice])
  else if c.price = t.price ∧ c.qty ≤ r.remaining c.orderId t then
    (r.setQueue t.symbol t.side t.price
      ((r.books t.symbol t.side t.price).map fun x => if x.id = c.orderId then ⟨c.orderId, c.qty⟩ else x),
      [event .replaced c.orderId t c.qty])
  else
    let t' := { t with price := c.price }
    let done := (r.delete c.orderId t).execute c.orderId t' .limit .gtc c.qty
    (done.1, event .replaced c.orderId t' c.qty :: done.2)

/-- One command; `id` is the identifier of the order if it is accepted. -/
def process (r : Reference) (c : Command) (id : Nat) : Reference × List Event :=
  match c.kind with
  | .new => r.onNew c id
  | .cancel | .replace =>
      match r.tickets c.orderId with
      | none => (r, [reject c .unknownOrder])
      | some t =>
          if t.session ≠ c.session then (r, [reject c .notOwner])
          else if c.kind = .cancel then r.onCancel c t else r.onReplace c t

/-- The reference after commands, each with its identifier. -/
def run (r : Reference) : List (Command × Nat) → Reference
  | [] => r
  | (c, id) :: cmds => (r.process c id).1.run cmds

/-- All events of a run. -/
def log (r : Reference) : List (Command × Nat) → List Event
  | [] => []
  | (c, id) :: cmds => (r.process c id).2 ++ (r.process c id).1.log cmds

end Reference

end Matchbox
