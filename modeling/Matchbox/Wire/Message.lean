import Matchbox.Engine.Types
import Matchbox.Lib.LittleEndian

/-!
# The wire protocol

`protocol.hpp`: fixed-size packed little-endian frames. A message is its fields without the header; `make` puts the header in front, as `wire::make` does before the sender sets `seq`, and the padding is zero. `ofBytes` reads the fields at the offsets the packed structs give them.

Reading goes through a pointer into a vector in the code. Here it is `bytesAt`, which has no value outside the vector, so that a definition that reads past the end shows; `remaining` does the same for a difference of sizes.
-/

namespace Matchbox.Wire

open LittleEndian

def kVersion : Nat := 1

/-- `sizeof(Header)`. -/
def headerSize : Nat := 8

def kMaxFrame : Nat := 64

inductive MsgType where
  | newOrder
  | cancelOrder
  | replaceOrder
  | subscribe
  | ack
  | reject
  | fill
  | cancelled
  | replaced
  | trade
  | top
  | heartbeat
  | gap
deriving DecidableEq, Repr

def MsgType.code : MsgType → Nat
  | .newOrder => 1
  | .cancelOrder => 2
  | .replaceOrder => 3
  | .subscribe => 4
  | .ack => 16
  | .reject => 17
  | .fill => 18
  | .cancelled => 19
  | .replaced => 20
  | .trade => 32
  | .top => 33
  | .heartbeat => 34
  | .gap => 35

/-- The enumerator behind a type byte, if there is one. -/
def MsgType.ofCode : Nat → Option MsgType
  | 1 => some .newOrder
  | 2 => some .cancelOrder
  | 3 => some .replaceOrder
  | 4 => some .subscribe
  | 16 => some .ack
  | 17 => some .reject
  | 18 => some .fill
  | 19 => some .cancelled
  | 20 => some .replaced
  | 32 => some .trade
  | 33 => some .top
  | 34 => some .heartbeat
  | 35 => some .gap
  | _ => none

@[simp] theorem MsgType.ofCode_code (t : MsgType) : MsgType.ofCode t.code = some t := by
  cases t <;> rfl

theorem MsgType.code_of_ofCode {n : Nat} {t : MsgType} (h : MsgType.ofCode n = some t) : t.code = n := by
  unfold MsgType.ofCode at h
  split at h <;> cases h <;> rfl

/-- `sizeof` of the struct with this type. -/
def MsgType.size : MsgType → Nat
  | .newOrder => 40
  | .cancelOrder => 24
  | .replaceOrder => 40
  | .subscribe => 16
  | .ack => 24
  | .reject => 24
  | .fill => 40
  | .cancelled => 24
  | .replaced => 32
  | .trade => 40
  | .top => 40
  | .heartbeat => 24
  | .gap => 24

/-- The frame size that goes with a type byte, zero for an unknown one. -/
def sizeFor (code : Nat) : Nat :=
  match MsgType.ofCode code with
  | some t => t.size
  | none => 0

structure Header where
  len : Nat
  type : Nat
  version : Nat
  seq : Nat
deriving DecidableEq, Repr

structure NewOrder where
  tag : Nat
  symbol : Nat
  side : Nat
  type : Nat
  tif : Nat
  price : Int
  qty : Nat
deriving DecidableEq, Repr

structure CancelOrder where
  tag : Nat
  orderId : Nat
deriving DecidableEq, Repr

structure ReplaceOrder where
  tag : Nat
  orderId : Nat
  price : Int
  qty : Nat
deriving DecidableEq, Repr

/-- What the gateway and the publisher send. -/
inductive Message where
  | ack (tag orderId : Nat)
  | reject (tag : Nat) (reason : RejectReason)
  | fill (orderId : Nat) (price : Int) (qty remaining : Nat) (maker : Bool)
  | cancelled (orderId remaining : Nat)
  | replaced (orderId : Nat) (price : Int) (qty : Nat)
  | trade (symbol : Nat) (aggressor : Side) (price : Int) (qty tsNs : Nat)
  | top (symbol : Nat) (bid ask : Int) (bidQty askQty : Nat)
  | heartbeat (tsNs headSeq : Nat)
  | gap (first resumedAt : Nat)
deriving DecidableEq, Repr

/-! ### Writing -/

/-- A signed 64-bit field. -/
def encodeInt (v : Int) : List UInt8 := encode 8 (BitVec.ofInt 64 v).toNat

/-- `static_cast<uint8_t>(RejectReason)`. -/
def reasonCode : RejectReason → Nat
  | .none => 0
  | .badSymbol => 1
  | .badPrice => 2
  | .badQty => 3
  | .bookFull => 4
  | .unknownOrder => 5
  | .notOwner => 6
  | .badSeq => 7
  | .badMessage => 8

/-- `static_cast<uint8_t>(Side)`. -/
def sideCode : Side → Nat
  | .buy => 0
  | .sell => 1

def Header.bytes (h : Header) : List UInt8 :=
  encode 2 h.len ++ encode 1 h.type ++ encode 1 h.version ++ encode 4 h.seq

namespace Message

def type : Message → MsgType
  | .ack .. => .ack
  | .reject .. => .reject
  | .fill .. => .fill
  | .cancelled .. => .cancelled
  | .replaced .. => .replaced
  | .trade .. => .trade
  | .top .. => .top
  | .heartbeat .. => .heartbeat
  | .gap .. => .gap

/-- The struct behind the header, padding included. -/
def body : Message → List UInt8
  | .ack tag orderId => encode 8 tag ++ encode 8 orderId
  | .reject tag reason => encode 8 tag ++ encode 1 (reasonCode reason) ++ encode 7 0
  | .fill orderId price qty remaining maker =>
      encode 8 orderId ++ encodeInt price ++ encode 4 qty ++ encode 4 remaining ++
        encode 1 (if maker then 1 else 0) ++ encode 7 0
  | .cancelled orderId remaining => encode 8 orderId ++ encode 4 remaining ++ encode 4 0
  | .replaced orderId price qty => encode 8 orderId ++ encodeInt price ++ encode 4 qty ++ encode 4 0
  | .trade symbol aggressor price qty tsNs =>
      encode 2 symbol ++ encode 1 (sideCode aggressor) ++ encode 5 0 ++ encodeInt price ++ encode 4 qty ++
        encode 4 0 ++ encode 8 tsNs
  | .top symbol bid ask bidQty askQty =>
      encode 2 symbol ++ encode 6 0 ++ encodeInt bid ++ encodeInt ask ++ encode 4 bidQty ++ encode 4 askQty
  | .heartbeat tsNs headSeq => encode 8 tsNs ++ encode 8 headSeq
  | .gap first resumedAt => encode 8 first ++ encode 8 resumedAt

/-- The header that `wire::make` gives a message, with this sequence number. -/
def header (m : Message) (seq : Nat) : Header := ⟨m.type.size, m.type.code, kVersion, seq⟩

/-- The frame of a message. -/
def make (m : Message) (seq : Nat) : List UInt8 := (m.header seq).bytes ++ m.body

end Message

/-- Frames with consecutive sequence numbers, modulo `2 ^ 32`. -/
def numbered (seq : Nat) (ms : List Message) : List (List UInt8) := ms.mapIdx fun i m => m.make ((seq + i) % word32)

/-! ### Reading -/

def decodeInt (v : Nat) : Int := (BitVec.ofNat 64 v).toInt

def Header.ofBytes (p : List UInt8) : Header := ⟨field p 0 2, field p 2 1, field p 3 1, field p 4 4⟩

def NewOrder.ofBytes (p : List UInt8) : NewOrder where
  tag := field p 8 8
  symbol := field p 16 2
  side := field p 18 1
  type := field p 19 1
  tif := field p 20 1
  price := decodeInt (field p 24 8)
  qty := field p 32 4

def CancelOrder.ofBytes (p : List UInt8) : CancelOrder where
  tag := field p 8 8
  orderId := field p 16 8

def ReplaceOrder.ofBytes (p : List UInt8) : ReplaceOrder where
  tag := field p 8 8
  orderId := field p 16 8
  price := decodeInt (field p 24 8)
  qty := field p 32 4

/-- The frame that `make<Subscribe>` gives a market-data client. -/
def makeSubscribe (first : Nat) : List UInt8 :=
  Header.bytes ⟨MsgType.subscribe.size, MsgType.subscribe.code, kVersion, 0⟩ ++ encode 8 first

/-- `from_seq` of a Subscribe frame. -/
def subscribeFrom (p : List UInt8) : Nat := field p 8 8

/-- The bytes that a `memcpy` of `size` bytes from `buf + offset` reads, if they are all there. -/
def bytesAt (buf : List UInt8) (offset size : Nat) : Option (List UInt8) :=
  if offset + size ≤ buf.length then some ((buf.drop offset).take size) else none

/-- `buf.size() - offset`, if it does not wrap. -/
def remaining (buf : List UInt8) (offset : Nat) : Option Nat :=
  if offset ≤ buf.length then some (buf.length - offset) else none

def readHeader (buf : List UInt8) (offset : Nat) : Option Header :=
  (bytesAt buf offset headerSize).map Header.ofBytes

/-! ### Sizes and headers -/

@[simp] theorem Header.length_bytes (h : Header) : h.bytes.length = headerSize := by
  simp [Header.bytes, headerSize]

@[simp] theorem length_encodeInt (v : Int) : (encodeInt v).length = 8 := length_encode _ _

@[simp] theorem Message.length_make (m : Message) (seq : Nat) : (m.make seq).length = m.type.size := by
  cases m <;> simp [Message.make, Message.body, Message.type, MsgType.size, headerSize]

theorem Header.ofBytes_append {front : List UInt8} (back : List UInt8) (h : headerSize ≤ front.length) :
    Header.ofBytes (front ++ back) = Header.ofBytes front := by
  rw [headerSize] at h
  simp only [Header.ofBytes]
  rw [field_append_left back (by omega), field_append_left back (by omega), field_append_left back (by omega),
    field_append_left back (by omega)]

theorem Header.ofBytes_take {bytes : List UInt8} {n : Nat} (hn : headerSize ≤ n) (h : n ≤ bytes.length) :
    Header.ofBytes (bytes.take n) = Header.ofBytes bytes := by
  have hfront : headerSize ≤ (bytes.take n).length := by
    rw [List.length_take]
    omega
  have happend := Header.ofBytes_append (bytes.drop n) hfront
  rw [List.take_append_drop] at happend
  exact happend.symm

theorem MsgType.headerSize_lt (t : MsgType) : headerSize < t.size := by
  cases t <;> decide

theorem Header.ofBytes_bytes (h : Header) (back : List UInt8) :
    Header.ofBytes (h.bytes ++ back) =
      ⟨h.len % 256 ^ 2, h.type % 256 ^ 1, h.version % 256 ^ 1, h.seq % 256 ^ 4⟩ := by
  have hassoc : h.bytes ++ back =
      encode 2 h.len ++ (encode 1 h.type ++ (encode 1 h.version ++ (encode 4 h.seq ++ back))) := by
    simp only [Header.bytes, List.append_assoc]
  rw [Header.ofBytes, hassoc, field_encode, field_skip 2 _ _ 1 (by decide), field_skip 2 _ _ 1 (by decide),
    field_skip 2 _ _ 4 (by decide), field_encode, field_skip 1 _ _ 1 (by decide), field_skip 1 _ _ 4 (by decide),
    field_encode, field_skip 1 _ _ 4 (by decide), field_encode]

theorem Message.ofBytes_make (m : Message) (seq : Nat) (back : List UInt8) :
    Header.ofBytes (m.make seq ++ back) = ⟨m.type.size, m.type.code, kVersion, seq % word32⟩ := by
  rw [Message.make, List.append_assoc, Header.ofBytes_bytes]
  cases m <;> rfl

theorem Message.ofBytes_make_self (m : Message) (seq : Nat) :
    Header.ofBytes (m.make seq) = ⟨m.type.size, m.type.code, kVersion, seq % word32⟩ := by
  have hmake := m.ofBytes_make seq []
  rw [List.append_nil] at hmake
  exact hmake

theorem length_makeSubscribe (first : Nat) : (makeSubscribe first).length = MsgType.subscribe.size := by
  rw [makeSubscribe, List.length_append, Header.length_bytes, length_encode]
  rfl

theorem subscribeFrom_makeSubscribe (first : Nat) : subscribeFrom (makeSubscribe first) = first % 2 ^ 64 := by
  have hskip := field_append_right (Header.bytes ⟨MsgType.subscribe.size, MsgType.subscribe.code, kVersion, 0⟩)
    (encode 8 first ++ []) 0 8
  rw [Header.length_bytes, Nat.add_zero, field_encode, List.append_nil] at hskip
  exact hskip

theorem numbered_cons {seq : Nat} (hseq : seq < word32) (m : Message) (ms : List Message) :
    numbered seq (m :: ms) = m.make seq :: numbered ((seq + 1) % word32) ms := by
  rw [numbered, List.mapIdx_cons, Nat.add_zero, Nat.mod_eq_of_lt hseq, numbered]
  congr 2
  funext i m'
  rw [Nat.mod_add_mod, Nat.add_assoc, Nat.add_comm 1 i]

/-! ### Reads at an offset -/

section Reads

variable {rx : List UInt8} {off : Nat}

theorem remaining_eq (h : off ≤ rx.length) : remaining rx off = some (rx.drop off).length := by
  rw [remaining, if_pos h, List.length_drop]

theorem bytesAt_eq {n : Nat} (h : off ≤ rx.length) (hn : n ≤ (rx.drop off).length) :
    bytesAt rx off n = some ((rx.drop off).take n) := by
  rw [List.length_drop] at hn
  rw [bytesAt, if_pos (by omega)]

theorem readHeader_eq (h : off ≤ rx.length) (hn : headerSize ≤ (rx.drop off).length) :
    readHeader rx off = some (Header.ofBytes (rx.drop off)) := by
  rw [readHeader, bytesAt_eq h hn, Option.map_some, Header.ofBytes_take le_rfl hn]

end Reads

end Matchbox.Wire
