import Matchbox.Gateway.Session
import Matchbox.Stream.Publisher

/-!
# The gateway

`server.hpp` and `server.cpp` without the two rings: what the gateway thread does to its own data when a connection is accepted, bytes arrive, an engine event is drained, or output is flushed. The loop around these functions, and its waiting on the rings, is the system model's.

`sessions_` is a map from identifiers. The descriptor tables are lists that grow as the vectors of the code do.
-/

namespace Matchbox

open Wire

structure PollEvent where
  fd : Nat
  readable : Bool := false
  writable : Bool := false
  hangup : Bool := false
deriving DecidableEq, Repr

inductive Server.Kind where
  | none
  | listen
  | mdListen
  | session
  | subscriber
deriving DecidableEq, Repr

structure Server.Config where
  /-- Per order session. -/
  maxBacklog : Nat := 2 ^ 23
  /-- Market-data stream. -/
  md : Publisher.Config := {}

structure Server where
  cfg : Server.Config
  poller : Poller
  publisher : Publisher
  sessions : Nat → Option Session := fun _ => none
  kindByFd : List Server.Kind := []
  sidByFd : List Nat := []
  dirty : List Nat := []
  nextSid : Nat := 1
  /-- Ghost: how many sessions were accepted. No code reads it. -/
  opened : Nat := 0
  /-- Ghost: the engine events drained, in order. No code reads it. -/
  drained : List Event := []
  /-- Ghost: the sessions closed, each with the events drained until then. No code reads it. -/
  closed : List (List Event × Session) := []

/-- The market-data frame of a Trade or Top event. -/
def Event.marketData? (e : Event) : Option Message :=
  match e.kind with
  | .trade => some (.trade e.symbol e.side e.price e.qty e.tsNs)
  | .top => some (.top e.symbol e.top.bid e.top.ask e.top.bidQty e.top.askQty)
  | _ => none

/-- The frame of every other event, for its session. -/
def Event.private? (e : Event) : Option Message :=
  match e.kind with
  | .accepted => some (.ack e.tag e.orderId)
  | .rejected => some (.reject e.tag e.reason)
  | .fill => some (.fill e.orderId e.price e.qty e.remaining e.maker)
  | .cancelled => some (.cancelled e.orderId e.remaining)
  | .replaced => some (.replaced e.orderId e.price e.qty)
  | .trade | .top => none

/-- The read loop of `read_session`; false for end of file or an error. A read that does not fill the buffer is the last. -/
def Session.readLoop (s : Session) : List ReadResult → Session × Bool
  | [] => (s, true)
  | .bytes chunk :: reads =>
      let chunk := chunk.take (2 ^ 16)
      if chunk = [] then (s, false)
      else if chunk.length < 2 ^ 16 then (s.receive chunk, true)
      else (s.receive chunk).readLoop reads
  | .intr :: reads => s.readLoop reads
  | .again :: _ => (s, true)
  | .error :: _ => (s, false)

namespace Server

/-- `resize` with a default value, for a vector that only grows. -/
def grow {α : Type} (xs : List α) (size : Nat) (blank : α) : List α := xs ++ List.replicate (size - xs.length) blank

def track (sv : Server) (fd : Nat) (kind : Kind) (sid : Nat) : Server :=
  let sv :=
    if sv.kindByFd.length ≤ fd then
      { sv with kindByFd := grow sv.kindByFd (fd + 64) .none, sidByFd := grow sv.sidByFd (fd + 64) 0 }
    else sv
  { sv with kindByFd := sv.kindByFd.set fd kind, sidByFd := sv.sidByFd.set fd sid }

/-- The constructor, with the two listening sockets. -/
def init (cfg : Config) (listenFd mdListenFd : Nat) : Server :=
  let sv : Server := { cfg := cfg, poller := Poller.init, publisher := Publisher.init cfg.md }
  let sv := (sv.track listenFd .listen 0).track mdListenFd .mdListen 0
  { sv with poller := (sv.poller.add listenFd).add mdListenFd }

def kindOf (sv : Server) (fd : Nat) : Kind := sv.kindByFd.getD fd .none

def sessionByFd (sv : Server) (fd : Nat) : Option Session :=
  if sv.kindOf fd = .session then sv.sessions (sv.sidByFd.getD fd 0) else none

/-- Assignment through the reference to a session. -/
def update (sv : Server) (s : Session) : Server :=
  { sv with sessions := Function.update sv.sessions s.id (some s) }

/-- One connection from a listening socket. -/
def acceptOne (sv : Server) (fd : Nat) (kind : Kind) : Server :=
  if kind = .session then
    let s := Session.accepted fd sv.nextSid
    let sv := { sv with nextSid := (sv.nextSid + 1) % word32, opened := sv.opened + 1 }
    let sv := sv.track fd .session s.id
    let sv := { sv with poller := sv.poller.add fd }
    -- `emplace` keeps an entry that is already there
    if (sv.sessions s.id).isSome then sv else sv.update s
  else
    let sv := sv.track fd .subscriber 0
    let r := sv.publisher.subscribe sv.poller fd
    { sv with publisher := r.1, poller := r.2 }

def closeSession (sv : Server) (s : Session) : Server :=
  let sv := { sv with poller := sv.poller.remove s.fd }
  let sv := sv.track s.fd .none 0
  { sv with
    sessions := Function.update sv.sessions s.id none
    closed := sv.closed ++ [(sv.drained, s)] }

/-- Write back a session on which `send` may have been called: the first call lists it as dirty. -/
def resend (sv : Server) (before after : Session) : Server :=
  { sv.update after with dirty := if before.dirty = false ∧ after.dirty then sv.dirty ++ [after.id] else sv.dirty }

/-- `read_session` up to its calls of `submit`: the commands to submit, and false to close the session after them. -/
def readSession (sv : Server) (s : Session) (reads : List ReadResult) : Server × List Command × Bool :=
  let r := s.readLoop reads
  if r.2 = false then (sv.closeSession r.1, [], true)
  else
    let p := r.1.parseFrames.getD ⟨r.1, [], true⟩
    (sv.resend s p.session, p.commands, p.ok)

/-- The end of `read_session` for a session that broke the protocol: let the reject out, then hang up. -/
def hangUp (sv : Server) (sid : Nat) (writes : List WriteResult) : Server :=
  match sv.sessions sid with
  | none => sv
  | some s => sv.closeSession { s with toConn := (s.toConn.flush writes).1 }

/-- Flush a session; close it if the peer is gone. -/
def flushSession (sv : Server) (s : Session) (writes : List WriteResult) : Server :=
  let r := s.toConn.flushAndArm sv.poller writes
  let s := { s with toConn := r.1 }
  let sv := { sv with poller := r.2.1 }
  if r.2.2 then sv.update s else sv.closeSession s

def onEvent (sv : Server) (e : Event) : Server :=
  let sv := { sv with drained := sv.drained ++ [e] }
  match e.marketData? with
  | some m => { sv with publisher := sv.publisher.publish m }
  | none =>
      match sv.sessions e.session with
      | none => sv
      | some s =>
          match e.private? with
          | none => sv
          | some m => sv.resend s (s.send .engine m)

/-- One iteration of `flush_dirty`. -/
def flushOne (sv : Server) (writes : Nat → List WriteResult) (sid : Nat) : Server :=
  match sv.sessions sid with
  | none => sv
  | some s =>
      let s := { s with dirty := false }
      let r := s.toConn.flushAndArm sv.poller (writes s.fd)
      let s := { s with toConn := r.1 }
      let sv := { sv with poller := r.2.1 }
      if r.2.2 = false ∨ s.backlog > sv.cfg.maxBacklog then sv.closeSession s else sv.update s

def flushDirty (sv : Server) (writes : Nat → List WriteResult) : Server :=
  { sv.dirty.foldl (fun sv sid => sv.flushOne writes sid) sv with dirty := [] }

def flushMarketData (sv : Server) (now : Nat) (writes : Nat → List WriteResult) : Server :=
  let r := sv.publisher.flushAll sv.poller now writes
  { sv with publisher := r.1, poller := r.2 }

/-- The events of a subscriber's socket. -/
def onSubscriber (sv : Server) (ev : PollEvent) (reads : List ReadResult) (writes : List WriteResult) : Server :=
  if sv.publisher.isSubscriber ev.fd then
    let r := if ev.writable then sv.publisher.onWritable sv.poller ev.fd writes else (sv.publisher, sv.poller)
    let r := if ev.readable ∨ ev.hangup then r.1.onReadable r.2 ev.fd reads else r
    { sv with publisher := r.1, poller := r.2 }
  else sv

/-- The writable half of a session's event. -/
def onSessionWritable (sv : Server) (ev : PollEvent) (writes : List WriteResult) : Server :=
  if ev.writable then
    match sv.sessionByFd ev.fd with
    | none => sv
    | some s => sv.flushSession s writes
  else sv

end Server

end Matchbox
