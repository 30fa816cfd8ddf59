import Matchbox.Engine.Book

/-!
# The matching engine

`engine.hpp` and `engine.cpp`: validation, the three command handlers and the event stream. The sink of the code is a log here: each call of `on_event` appends the event together with the pool as the sink could read it at that moment through `Engine::pool()`.

The clock is an argument of `process`, so a run is a list of commands, each with the time the engine reads for it.
-/

namespace Matchbox

inductive Command.Kind where
  | new
  | cancel
  | replace
deriving DecidableEq, Repr

structure Command where
  kind : Command.Kind := .new
  side : Side := .buy
  type : OrderType := .limit
  tif : Tif := .gtc
  symbol : Nat := 0
  session : Nat := 0
  tag : Nat := 0
  /-- Cancel and Replace. -/
  orderId : Nat := 0
  price : Int := 0
  qty : Nat := 0
deriving DecidableEq, Repr

inductive Event.Kind where
  | accepted
  | rejected
  | fill
  | cancelled
  | replaced
  | trade
  | top
deriving DecidableEq, Repr

structure Event where
  kind : Event.Kind := .accepted
  side : Side := .buy
  reason : RejectReason := .none
  /-- Fill: this side provided liquidity. -/
  maker : Bool := false
  symbol : Nat := 0
  /-- Zero for market data. -/
  session : Nat := 0
  tag : Nat := 0
  orderId : Nat := 0
  price : Int := 0
  qty : Nat := 0
  remaining : Nat := 0
  top : TopOfBook := {}
  tsNs : Nat := 0
deriving DecidableEq, Repr

/-- One call of the sink: the event, and the pool at that moment. -/
structure Emission where
  event : Event
  pool : OrderPool

namespace Engine

/-- `max_orders` is a 32-bit number, so `kNull` is never the number of a slot. -/
structure Config where
  symbols : Nat := 4
  maxPrice : Int := 100000
  maxOrders : Nat := 2 ^ 20
  one_le_maxPrice : 1 ≤ maxPrice := by decide
  maxOrders_lt : maxOrders < word32 := by decide

end Engine

structure Engine where
  cfg : Engine.Config
  pool : OrderPool
  books : Nat → Book
  nowNs : Nat := 0

/-- What a command handler leaves behind: the pool, the book it worked on, and the calls of the sink. -/
structure Outcome where
  pool : OrderPool
  book : Book
  log : List Emission

namespace Engine

def init (cfg : Config) : Engine where
  cfg := cfg
  pool := OrderPool.init cfg.maxOrders
  books := fun _ => Book.init cfg.maxPrice

def base (now : Nat) (k : Event.Kind) (o : Order) : Event where
  kind := k
  side := o.side
  symbol := o.symbol
  session := o.session
  tag := o.tag
  orderId := o.id
  price := o.price
  qty := o.qty
  remaining := o.qty
  tsNs := now

def reject (now : Nat) (c : Command) (r : RejectReason) : Event where
  kind := .rejected
  reason := r
  session := c.session
  tag := c.tag
  orderId := c.orderId
  symbol := c.symbol
  tsNs := now

/-- The three events of one fill. -/
def fillEvents (now : Nat) (maker taker : Order) (px : Int) (q : Nat) : List Event :=
  [{ base now .fill maker with maker := true, price := px, qty := q },
    { base now .fill taker with price := px, qty := q },
    { kind := .trade, side := taker.side, symbol := taker.symbol, price := px, qty := q, tsNs := now }]

/-- The callback of `match_and_rest`: report the fill to both sides and the tape, then free an exhausted maker. -/
def onFill (now : Nat) (taker : Nat) : OnFill (List Emission) := fun pool log maker px q =>
  let events := fillEvents now (pool.slots maker) (pool.slots taker) px q
  (if (pool.slots maker).qty = 0 then pool.free maker else pool, log ++ events.map (⟨·, pool⟩))

def matchAndRest (now : Nat) (pool : OrderPool) (book : Book) (slot : Nat) (log : List Emission) : Outcome :=
  let st := book.matchTaker (onFill now slot) pool slot log
  let o := st.pool.slots slot
  if o.qty = 0 then ⟨st.pool.free slot, st.book, st.acc⟩
  else if o.type = .market ∨ o.tif = .ioc then
    ⟨st.pool.free slot, st.book, st.acc ++ [⟨base now .cancelled o, st.pool⟩]⟩
  else
    let r := Book.insert st.pool st.book slot
    ⟨r.1, r.2, st.acc⟩

def onNew (now : Nat) (pool : OrderPool) (book : Book) (c : Command) : Outcome :=
  if c.qty = 0 then ⟨pool, book, [⟨reject now c .badQty, pool⟩]⟩
  else if c.type = .limit ∧ ¬ book.validPrice c.price then ⟨pool, book, [⟨reject now c .badPrice, pool⟩]⟩
  else match pool.alloc with
    | none => ⟨pool, book, [⟨reject now c .bookFull, pool⟩]⟩
    | some (pool, slot) =>
        let pool := pool.modify slot fun o =>
          { o with
            tag := c.tag
            session := c.session
            symbol := c.symbol
            side := c.side
            type := c.type
            tif := c.tif
            price := if c.type = .limit then c.price else 0
            qty := c.qty }
        matchAndRest now pool book slot [⟨base now .accepted (pool.slots slot), pool⟩]

def onCancel (now : Nat) (pool : OrderPool) (book : Book) (slot : Nat) : Outcome :=
  let r := Book.remove pool book slot
  ⟨r.1.free slot, r.2, [⟨base now .cancelled (r.1.slots slot), r.1⟩]⟩

def onReplace (now : Nat) (pool : OrderPool) (book : Book) (c : Command) (slot : Nat) : Outcome :=
  let o := pool.slots slot
  if c.qty = 0 then ⟨pool, book, [⟨reject now c .badQty, pool⟩]⟩
  else if ¬ book.validPrice c.price then ⟨pool, book, [⟨reject now c .badPrice, pool⟩]⟩
  else if c.price = o.price ∧ c.qty ≤ o.qty then
    -- Same price, no size increase: the order keeps its place in the queue.
    let r := Book.reduce pool book slot c.qty
    ⟨r.1, r.2, [⟨base now .replaced (r.1.slots slot), r.1⟩]⟩
  else
    let r := Book.remove pool book slot
    let pool := r.1.modify slot fun o => { o with price := c.price, qty := c.qty }
    matchAndRest now pool r.2 slot [⟨base now .replaced (pool.slots slot), pool⟩]

/-- The engine at time `now` with this pool and this book of `symbol`. -/
def store (e : Engine) (now : Nat) (symbol : Nat) (pool : OrderPool) (book : Book) : Engine :=
  { e with pool := pool, books := Function.update e.books symbol book, nowNs := now }

/-- Write a handler's outcome back and report the top of the book if it moved. -/
def finish (e : Engine) (now : Nat) (symbol : Nat) (out : Outcome) : Engine × List Emission :=
  let before := (e.books symbol).top
  let after := out.book.top
  (e.store now symbol out.pool out.book,
    if after ≠ before then
      out.log ++ [⟨{ kind := .top, symbol := symbol, top := after, tsNs := now }, out.pool⟩]
    else out.log)

def process (e : Engine) (now : Nat) (c : Command) : Engine × List Emission :=
  match c.kind with
  | .new =>
      if e.cfg.symbols ≤ c.symbol then
        ({ e with nowNs := now }, [⟨reject now c .badSymbol, e.pool⟩])
      else e.finish now c.symbol (onNew now e.pool (e.books c.symbol) c)
  | .cancel | .replace =>
      match e.pool.find c.orderId with
      | none => ({ e with nowNs := now }, [⟨reject now c .unknownOrder, e.pool⟩])
      | some slot =>
          let o := e.pool.slots slot
          if o.session ≠ c.session then
            ({ e with nowNs := now }, [⟨reject now c .notOwner, e.pool⟩])
          else e.finish now o.symbol <|
            if c.kind = .cancel then onCancel now e.pool (e.books o.symbol) slot
            else onReplace now e.pool (e.books o.symbol) c slot

/-- The engine after a list of timed commands. -/
def run (e : Engine) : List (Nat × Command) → Engine
  | [] => e
  | (now, c) :: cmds => (e.process now c).1.run cmds

/-- Everything the sink is called with during a run. -/
def log (e : Engine) : List (Nat × Command) → List Emission
  | [] => []
  | (now, c) :: cmds => (e.process now c).2 ++ (e.process now c).1.log cmds

end Engine

end Matchbox
