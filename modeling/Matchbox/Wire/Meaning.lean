import Matchbox.Engine.Process
import Matchbox.Lib.LittleEndian

/-!
# What the frames mean

The protocol as `protocol.hpp` documents it, apart from the code that builds and parses frames: the bytes that tell of an event, and the command that a client's bytes ask for. A field has its width where it is written and its offset where it is read. The specifications of the gateway are stated in these terms, and the modules on its builders and on its parser prove that they keep to them.
-/

namespace Matchbox

open LittleEndian

/-! ### From events to frames -/

namespace Wire

/-- A frame but for its sequence number. -/
abbrev Rendering := Nat → List UInt8

/-- The length, the type, the version and the number, and then every field with its width, padding included. -/
def render (type : Nat) (fields : List (Nat × Nat)) : Rendering := fun seq =>
  let body := fields.flatMap fun f => encode f.1 f.2
  encode 2 (8 + body.length) ++ encode 1 type ++ encode 1 1 ++ encode 4 seq ++ body

/-- Frames with the numbers 1, 2, 3, ..., modulo `2 ^ 32`. -/
def stamped (frames : List Rendering) : List (List UInt8) := frames.mapIdx fun i f => f ((1 + i) % word32)

/-- A signed number in eight bytes. -/
def twosComplement (v : Int) : Nat := (v % 2 ^ 64).toNat

def rejectFrame (tag reason : Nat) : Rendering := render 17 [(8, tag), (1, reason), (7, 0)]

def gapFrame (first resumedAt : Nat) : Rendering := render 35 [(8, first), (8, resumedAt)]

end Wire

/-- The number of a reason in `types.hpp`. -/
def RejectReason.number : RejectReason → Nat
  | .none => 0
  | .badSymbol => 1
  | .badPrice => 2
  | .badQty => 3
  | .bookFull => 4
  | .unknownOrder => 5
  | .notOwner => 6
  | .badSeq => 7
  | .badMessage => 8

namespace Event

open Wire

/-- The frame that tells of an event: an Ack, a Reject, a Fill, a Cancelled or a Replaced, a Trade or a Top. -/
def rendering (e : Event) : Rendering :=
  match e.kind with
  | .accepted => render 16 [(8, e.tag), (8, e.orderId)]
  | .rejected => rejectFrame e.tag e.reason.number
  | .fill =>
      render 18 [(8, e.orderId), (8, twosComplement e.price), (4, e.qty), (4, e.remaining), (1, if e.maker then 1 else 0),
        (7, 0)]
  | .cancelled => render 19 [(8, e.orderId), (4, e.remaining), (4, 0)]
  | .replaced => render 20 [(8, e.orderId), (8, twosComplement e.price), (4, e.qty), (4, 0)]
  | .trade =>
      render 32 [(2, e.symbol), (1, if e.side = .sell then 1 else 0), (5, 0), (8, twosComplement e.price), (4, e.qty), (4, 0),
        (8, e.tsNs)]
  | .top =>
      render 33 [(2, e.symbol), (6, 0), (8, twosComplement e.top.bid), (8, twosComplement e.top.ask), (4, e.top.bidQty),
        (4, e.top.askQty)]

/-- The events for everybody. All others are for their session. -/
def isMarketData (e : Event) : Bool := e.kind = .trade ∨ e.kind = .top

end Event

namespace Wire

/-- The frames that a session is to be sent for these events. -/
def privateFrames (sid : Nat) (events : List Event) : List Rendering :=
  (events.filter fun e => e.session = sid ∧ e.isMarketData = false).map Event.rendering

/-- The frames that are to be published for these events. -/
def marketFrames (events : List Event) : List Rendering := (events.filter Event.isMarketData).map Event.rendering

/-! ### From frames to commands -/

/-- The number in an eight-byte field that is signed. -/
def signed (n : Nat) : Int := if n < 2 ^ 63 then n else n - 2 ^ 64

/-- The command that a frame asks for, if it is a NewOrder with enumerators in its three enumerations, a CancelOrder or a ReplaceOrder. -/
def order? (session : Nat) (frame : List UInt8) : Option Command :=
  match field frame 2 1 with
  | 1 =>
      if field frame 18 1 ≤ 1 ∧ field frame 19 1 ≤ 1 ∧ field frame 20 1 ≤ 1 then
        some
          { kind := .new
            session := session
            tag := field frame 8 8
            symbol := field frame 16 2
            side := if field frame 18 1 = 0 then .buy else .sell
            type := if field frame 19 1 = 0 then .limit else .market
            tif := if field frame 20 1 = 0 then .gtc else .ioc
            price := signed (field frame 24 8)
            qty := field frame 32 4 }
      else none
  | 2 => some { kind := .cancel, session := session, tag := field frame 8 8, orderId := field frame 16 8 }
  | 3 =>
      some
        { kind := .replace
          session := session
          tag := field frame 8 8
          orderId := field frame 16 8
          price := signed (field frame 24 8)
          qty := field frame 32 4 }
  | _ => none

/-- The BadMessage that answers any other frame: with the tag of a NewOrder, else with none. -/
def badMessage (frame : List UInt8) : Rendering := rejectFrame (if field frame 2 1 = 1 then field frame 8 8 else 0) 8

/-- The types of the protocol, each with the size of its frames. -/
def frameSizes : List (Nat × Nat) :=
  [(1, 40), (2, 24), (3, 40), (4, 16), (16, 24), (17, 24), (18, 40), (19, 24), (20, 32), (32, 40), (33, 40), (34, 24), (35, 24)]

/-- The bytes begin with a well-formed header. -/
structure Headed (bytes : List UInt8) : Prop where
  length : 8 ≤ bytes.length
  version : field bytes 3 1 = 1
  size : (field bytes 2 1, field bytes 0 2) ∈ frameSizes

/-- Where a stream stops giving frames with the expected numbers: what is left, whether the session stays open, and the last reject. -/
inductive Stops (seq : Nat) (rest : List UInt8) : Bool → List Rendering → Prop
  | short (h : rest.length < 8) : Stops seq rest true []
  | incomplete (h : Headed rest) (hlen : rest.length < field rest 0 2) : Stops seq rest true []
  | malformed (h : 8 ≤ rest.length) (hbad : ¬ Headed rest) : Stops seq rest false []
  | wrongSeq (h : Headed rest) (hlen : field rest 0 2 ≤ rest.length) (hseq : field rest 4 4 ≠ seq) :
      Stops seq rest false [rejectFrame 0 7]

/-- What a client's stream means: the commands that its leading frames with the numbers 1, 2, 3, ... ask for, the rejects, and whether the session stays open. -/
def Means (session : Nat) (stream : List UInt8) (commands : List Command) (rejects : List Rendering) (alive : Bool) : Prop :=
  ∃ (frames : List (List UInt8)) (rest : List UInt8) (last : List Rendering),
    stream = frames.flatten ++ rest ∧
      (∀ i f, frames[i]? = some f → Headed f ∧ f.length = field f 0 2 ∧ field f 4 4 = (1 + i) % word32) ∧
      Stops ((1 + frames.length) % word32) rest alive last ∧
      commands = frames.filterMap (order? session) ∧
      rejects = (frames.filter fun f => (order? session f).isNone).map badMessage ++ last

end Wire

end Matchbox
