import Matchbox.Gateway.Conn
import Matchbox.Stream.ReplayRing

/-!
# The market-data publisher

`publisher.hpp` and `publisher.cpp`. The subscribers are a list with distinct descriptors where the code has a hash map: the walk over them in `flush_all` touches one subscriber at a time and nothing that another one reads, so its order does not matter. What `::read` and `::write` return comes with the call.
-/

namespace Matchbox

open Wire

/-- The wrap of the 64-bit clock. -/
abbrev word64 : Nat := 2 ^ 64

/-- The outcome of one `::read`. -/
inductive ReadResult where
  /-- These bytes, or as many of them as the buffer takes; none at the end of the file. -/
  | bytes (chunk : List UInt8)
  /-- `EAGAIN` or `EWOULDBLOCK`. -/
  | again
  /-- `EINTR`. -/
  | intr
  /-- Any other error. -/
  | error
deriving DecidableEq, Repr

structure Subscriber extends Conn where
  /-- Subscribe frame seen. -/
  subscribed : Bool := false
  /-- Next stream sequence to copy into `tx`. -/
  nextSeq : Nat := 0
  lastTxNs : Nat := 0
  stalledSinceNs : Nat := 0
  /-- Ghost: the cursor that `on_readable` set. No code reads it. -/
  startSeq : Nat := 0
  /-- Ghost: what was appended to `tx`, each with the head of the ring at that moment. No code reads it. -/
  stream : List (Nat × List UInt8) := []
  /-- Ghost: for each call of `ReplayRing::frame`, whether the ring held the frame. No code reads it. -/
  asked : List Bool := []

structure Publisher.Config where
  /-- Bytes queued in user space per subscriber. -/
  maxBacklog : Nat := 2 ^ 20
  /-- Frames retained for resume and catch-up. -/
  ringLog2 : Nat := 16
  heartbeatMs : Nat := 1000
  stallTimeoutMs : Nat := 10000

structure Publisher where
  cfg : Publisher.Config
  ring : ReplayRing
  subs : List Subscriber := []
  dirty : Bool := false
  nextTickNs : Nat := 0
  /-- Ghost: the published frames, in order. No code reads it. -/
  published : List Message := []
  /-- Ghost: the subscribers dropped, as they were then. No code reads it. -/
  gone : List Subscriber := []

/-- `now - since` on the 64-bit clock. -/
def elapsedNs (now since : Nat) : Nat := (now + word64 - since) % word64

/-- A configured number of milliseconds in nanoseconds. -/
def msToNs (ms : Nat) : Nat := ms * 1000000 % word64

namespace Subscriber

/-- Append a frame to `tx` while the ring stands at `head`. -/
def put (s : Subscriber) (head : Nat) (bytes : List UInt8) : Subscriber :=
  { s with toConn := s.toConn.append bytes, stream := s.stream ++ [(head, bytes)] }

/-- `Publisher::control`. -/
def control (s : Subscriber) (ring : ReplayRing) (m : Message) (now : Nat) : Subscriber :=
  { s.put ring.head (m.make 0) with lastTxNs := now }

/-- Copy one frame of the ring and move the cursor. -/
def copy (s : Subscriber) (ring : ReplayRing) (now : Nat) : Subscriber :=
  { s.put ring.head (ring.frame s.nextSeq) with
    nextSeq := (s.nextSeq + 1) % word32
    lastTxNs := now
    asked := s.asked ++ [ring.holds s.nextSeq] }

/-- The Gap of `pump`, for a cursor that the ring has lapped and that can move. -/
def pumpGap (s : Subscriber) (cfg : Publisher.Config) (ring : ReplayRing) (now : Nat) : Subscriber :=
  if s.backlog < cfg.maxBacklog ∧ s.nextSeq < ring.oldest then
    { s.control ring (.gap s.nextSeq ring.oldest) now with nextSeq := ring.oldest }
  else s

/-- The copy loop of `pump`. -/
def pumpFrames (cfg : Publisher.Config) (ring : ReplayRing) (now : Nat) : Nat → Subscriber → Subscriber
  | 0, s => s
  | fuel + 1, s =>
      if s.nextSeq ≤ ring.head ∧ s.backlog < cfg.maxBacklog then pumpFrames cfg ring now fuel (s.copy ring now)
      else s

/-- The Heartbeat of `pump`, on a stream with nothing left to send. -/
def pumpHeartbeat (s : Subscriber) (cfg : Publisher.Config) (ring : ReplayRing) (now : Nat) : Subscriber :=
  if elapsedNs now s.lastTxNs ≥ msToNs cfg.heartbeatMs ∧ s.pending = false then
    s.control ring (.heartbeat now ring.head) now
  else s

/-- What `pump` adds to `tx`. No iteration of the loop is without a frame below the head or room in the backlog, so that both together are fuel enough. -/
def pumpTx (s : Subscriber) (cfg : Publisher.Config) (ring : ReplayRing) (now : Nat) : Subscriber :=
  let s := if s.lastTxNs = 0 then { s with lastTxNs := now } else s
  if s.subscribed then
    (pumpFrames cfg ring now (ring.head + 1 + cfg.maxBacklog) (s.pumpGap cfg ring now)).pumpHeartbeat cfg ring now
  else s

/-- Flush, and find out whether the peer is gone or stalled; false to drop it. -/
def pumpFlush (s : Subscriber) (cfg : Publisher.Config) (poller : Poller) (now : Nat) (writes : List WriteResult) :
    Subscriber × Poller × Bool :=
  let before := s.backlog
  let r := s.toConn.flushAndArm poller writes
  let s := { s with toConn := r.1 }
  if r.2.2 = false then (s, r.2.1, false)
  else if s.pending ∧ s.backlog = before then
    let s := if s.stalledSinceNs = 0 then { s with stalledSinceNs := now } else s
    (s, r.2.1, elapsedNs now s.stalledSinceNs < msToNs cfg.stallTimeoutMs)
  else ({ s with stalledSinceNs := 0 }, r.2.1, true)

def pump (s : Subscriber) (cfg : Publisher.Config) (ring : ReplayRing) (poller : Poller) (now : Nat)
    (writes : List WriteResult) : Subscriber × Poller × Bool :=
  (s.pumpTx cfg ring now).pumpFlush cfg poller now writes

/-- The read loop of `on_readable`; false for end of file or an error. -/
def readLoop (s : Subscriber) : List ReadResult → Subscriber × Bool
  | [] => (s, true)
  | .bytes chunk :: reads =>
      let chunk := chunk.take 256
      if chunk = [] then (s, false) else readLoop { s with rx := s.rx ++ chunk } reads
  | .intr :: reads => readLoop s reads
  | .again :: _ => (s, true)
  | .error :: _ => (s, false)

/-- The header check of `on_readable`, and that this is the first frame and the only one. -/
def accepts (s : Subscriber) : Bool :=
  let h := Header.ofBytes s.rx
  s.subscribed = false ∧ h.version = kVersion ∧ h.len = MsgType.subscribe.size ∧
    MsgType.ofCode h.type = some .subscribe ∧ s.rx.length ≤ MsgType.subscribe.size

/-- Set the cursor: live from now, or where the client stopped. -/
def start (s : Subscriber) (ring : ReplayRing) : Subscriber :=
  let first := subscribeFrom s.rx
  let s := { s with rx := [], subscribed := true }
  let next := (ring.head + 1) % word32
  if first = 0 ∨ first > next then
    -- a client ahead of our head has the stream of an earlier server
    let s := if first > next then s.control ring (.gap first next) 0 else s
    { s with nextSeq := next, startSeq := next }
  else { s with nextSeq := first % word32, startSeq := first % word32 }

end Subscriber

namespace Publisher

def init (cfg : Config) : Publisher where
  cfg := cfg
  ring := { capacityLog2 := cfg.ringLog2 }

def publish (p : Publisher) (m : Message) : Publisher :=
  { p with ring := p.ring.append m, dirty := true, published := p.published ++ [m] }

def isSubscriber (p : Publisher) (fd : Nat) : Bool := p.subs.any fun s => s.fd == fd

def find (p : Publisher) (fd : Nat) : Option Subscriber := p.subs.find? fun s => s.fd == fd

/-- Assignment through the reference that a lookup returned. -/
def update (p : Publisher) (fd : Nat) (s : Subscriber) : Publisher :=
  { p with subs := p.subs.map fun s' => if s'.fd = fd then s else s' }

/-- An accepted socket, waiting for its Subscribe frame. -/
def subscribe (p : Publisher) (poller : Poller) (fd : Nat) : Publisher × Poller :=
  (if p.isSubscriber fd then p else { p with subs := p.subs ++ [{ fd := fd }] }, poller.add fd)

def drop (p : Publisher) (poller : Poller) (fd : Nat) : Publisher × Poller :=
  ({ p with
      subs := p.subs.filter fun s => s.fd ≠ fd
      gone := p.gone ++ p.subs.filter fun s => s.fd = fd }, poller.remove fd)

/-- The walk of `flush_all`: every subscriber after its pump, and whether to keep it. -/
def pumpAll (cfg : Config) (ring : ReplayRing) (now : Nat) (writes : Nat → List WriteResult) :
    Poller → List Subscriber → List (Subscriber × Bool) × Poller
  | poller, [] => ([], poller)
  | poller, s :: subs =>
      let r := s.pump cfg ring poller now (writes s.fd)
      let rest := pumpAll cfg ring now writes r.2.1 subs
      ((r.1, r.2.2) :: rest.1, rest.2)

def dropAll (p : Publisher) (poller : Poller) : List Nat → Publisher × Poller
  | [] => (p, poller)
  | fd :: dead => let r := p.drop poller fd; dropAll r.1 r.2 dead

def flushAll (p : Publisher) (poller : Poller) (now : Nat) (writes : Nat → List WriteResult) : Publisher × Poller :=
  if p.dirty = false ∧ now < p.nextTickNs then (p, poller)
  else
    let r := pumpAll p.cfg p.ring now writes poller p.subs
    let p := { p with dirty := false, nextTickNs := (now + 1000000) % word64, subs := r.1.map Prod.fst }
    p.dropAll r.2 ((r.1.filter fun x => !x.2).map fun x => x.1.fd)

def onWritable (p : Publisher) (poller : Poller) (fd : Nat) (writes : List WriteResult) : Publisher × Poller :=
  match p.find fd with
  | none => (p, poller)
  | some s =>
      let r := s.toConn.flushAndArm poller writes
      let p := { p.update fd { s with toConn := r.1 } with dirty := true }
      if r.2.2 then (p, r.2.1) else p.drop r.2.1 fd

def onReadable (p : Publisher) (poller : Poller) (fd : Nat) (reads : List ReadResult) : Publisher × Poller :=
  match p.find fd with
  | none => (p, poller)
  | some s =>
      let r := s.readLoop reads
      let p := p.update fd r.1
      if r.2 = false then p.drop poller fd
      else if r.1.rx.length < MsgType.subscribe.size then (p, poller)
      else if r.1.accepts = false then p.drop poller fd
      else ({ p.update fd (r.1.start p.ring) with dirty := true }, poller)

/-! ### Runs -/

/-- One call into the publisher, with what the kernel answers. -/
inductive Action where
  | publish (m : Message)
  | subscribe (fd : Nat)
  | onReadable (fd : Nat) (reads : List ReadResult)
  | onWritable (fd : Nat) (writes : List WriteResult)
  | flushAll (now : Nat) (writes : Nat → List WriteResult)

def step (r : Publisher × Poller) : Action → Publisher × Poller
  | .publish m => (r.1.publish m, r.2)
  | .subscribe fd => r.1.subscribe r.2 fd
  | .onReadable fd reads => r.1.onReadable r.2 fd reads
  | .onWritable fd writes => r.1.onWritable r.2 fd writes
  | .flushAll now writes => r.1.flushAll r.2 now writes

/-- A fresh publisher after a list of calls, in any order. -/
def run (cfg : Config) (actions : List Action) : Publisher × Poller :=
  actions.foldl step (init cfg, Poller.init)

end Publisher

end Matchbox
