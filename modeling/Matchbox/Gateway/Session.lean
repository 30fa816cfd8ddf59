import Matchbox.Engine.Process
import Matchbox.Gateway.Conn

/-!
# Order sessions

`Session` and `Server::parse_frames`: the frames of one client are decoded into commands, answered with a reject, or end the session. The commands are collected in the order of the calls of `submit`.

The loop runs on fuel. It answers `none` when it reads outside `rx` or runs out of fuel, which never happens.
-/

namespace Matchbox

open Wire

/-- Why a frame is queued on a session. -/
inductive Origin where
  /-- The engine reported an event. -/
  | engine
  /-- The gateway refused a frame. -/
  | gateway
deriving DecidableEq, Repr

structure Session extends Conn where
  id : Nat := 0
  expectSeq : Nat := 1
  dirty : Bool := false
  /-- Ghost: the messages queued on the session. No code reads it. -/
  queued : List (Origin × Message) := []

/-- What one well-formed frame with the expected sequence number leads to. -/
inductive Reply where
  | submit (c : Command)
  | reject (tag : Nat) (reason : RejectReason)
deriving DecidableEq, Repr

/-- `parse_frames` when it returns: the session, the submitted commands, and false to close the session. -/
structure Parsed where
  session : Session
  commands : List Command
  ok : Bool

namespace Wire

/-- The `NewOrder` case: a byte that is no enumerator makes the message bad. -/
def NewOrder.reply (session : Nat) (m : NewOrder) : Reply :=
  if m.side ≤ 1 ∧ m.type ≤ 1 ∧ m.tif ≤ 1 then
    .submit
      { kind := .new
        session := session
        tag := m.tag
        symbol := m.symbol
        side := if m.side = 0 then .buy else .sell
        type := if m.type = 0 then .limit else .market
        tif := if m.tif = 0 then .gtc else .ioc
        price := m.price
        qty := m.qty }
  else .reject m.tag .badMessage

def CancelOrder.reply (session : Nat) (m : CancelOrder) : Reply :=
  .submit { kind := .cancel, session := session, tag := m.tag, orderId := m.orderId }

def ReplaceOrder.reply (session : Nat) (m : ReplaceOrder) : Reply :=
  .submit
    { kind := .replace
      session := session
      tag := m.tag
      orderId := m.orderId
      price := m.price
      qty := m.qty }

/-- The switch over the message type, reading the body at `p`. -/
def readReply (session : Nat) (type : Nat) (rx : List UInt8) (p : Nat) : Option Reply :=
  match MsgType.ofCode type with
  | some .newOrder => (bytesAt rx p MsgType.newOrder.size).map fun b => (NewOrder.ofBytes b).reply session
  | some .cancelOrder => (bytesAt rx p MsgType.cancelOrder.size).map fun b => (CancelOrder.ofBytes b).reply session
  | some .replaceOrder => (bytesAt rx p MsgType.replaceOrder.size).map fun b => (ReplaceOrder.ofBytes b).reply session
  | _ => some (.reject 0 .badMessage)

/-- The header check: the version, and a length that is the size of the type. -/
def Header.ok (h : Header) : Bool := h.version = kVersion ∧ h.len ≠ 0 ∧ h.len = sizeFor h.type

end Wire

namespace Session

/-- A session as `accept_all` makes it. -/
def accepted (fd id : Nat) : Session := { fd := fd, id := id }

/-- `Server::send`, as far as the session is concerned. -/
def send (s : Session) (origin : Origin) (m : Message) : Session :=
  { s with toConn := s.toConn.queue m, dirty := true, queued := s.queued ++ [(origin, m)] }

/-- Erase what was consumed and return true. -/
def consume (s : Session) (off : Nat) : Session := { s with rx := s.rx.drop off }

/-- Act on a reply: queue the reject, or hand the command on. -/
def act (s : Session) : Reply → Session × List Command
  | .submit c => (s, [c])
  | .reject tag reason => (s.send .gateway (.reject tag reason), [])

def parseLoop : Nat → Session → Nat → Option Parsed
  | 0, _, _ => none
  | fuel + 1, s, off => do
      let left ← remaining s.rx off
      if left < headerSize then return ⟨s.consume off, [], true⟩
      let h ← readHeader s.rx off
      if h.ok = false then return ⟨s, [], false⟩
      if left < h.len then return ⟨s.consume off, [], true⟩
      if h.seq ≠ s.expectSeq then return ⟨s.send .gateway (.reject 0 .badSeq), [], false⟩
      let s := { s with expectSeq := (s.expectSeq + 1) % word32 }
      let reply ← readReply s.id h.type s.rx off
      let r := s.act reply
      let rest ← parseLoop fuel r.1 (off + h.len)
      return { rest with commands := r.2 ++ rest.commands }

def parseFrames (s : Session) : Option Parsed := parseLoop (s.rx.length + 1) s 0

/-- Bytes arriving from the socket. -/
def receive (s : Session) (bytes : List UInt8) : Session := { s with rx := s.rx ++ bytes }

/-- A stream that arrives in pieces, with `parse_frames` run after each, up to the first false. -/
def parseChunks (s : Session) : List (List UInt8) → Option Parsed
  | [] => some ⟨s, [], true⟩
  | chunk :: chunks => do
      let p ← (s.receive chunk).parseFrames
      if p.ok then
        let rest ← p.session.parseChunks chunks
        return { rest with commands := p.commands ++ rest.commands }
      else return p

end Session

end Matchbox
