import Matchbox.Safety.Naming
import Matchbox.System.Dialog

/-!
# The replay script

`replay.py` sends the rows of a file as requests, one at a time, and prints what comes back. It remembers the order identifier of every Ack by the tag in it, and a later row that cancels or replaces "tag 7" goes out with the identifier remembered for 7. After each row it waits for answers only for a while, so an Ack may come in many rows later, or never.

`ReplayRun.run_owned` says what this is worth, for every file and every timing: the remembered identifiers are always those of the session's own orders under these tags, so no row is ever refused as someone else's order, nor for its form or its sequence number, and no answer makes the script fail.
-/

namespace Matchbox

open Wire LittleEndian Struct

namespace Script

/-! ### Rows -/

/-- What the script needs of Python's strings: `int`, nothing when it raises, and two methods. -/
structure Text where
  int : String → Option Int
  lower : String → String
  strip : String → String

/-- A row as `csv.DictReader` gives it. A row may be too short for its last columns. -/
structure Row where
  action : Option String := none
  tag : Option String := none
  symbol : Option String := none
  side : Option String := none
  type : Option String := none
  tif : Option String := none
  price : Option String := none
  qty : Option String := none

/-- `SIDES`. -/
def sides : List (String × Int) := [("buy", 0), ("sell", 1)]

/-- `TYPES`. -/
def types : List (String × Int) := [("limit", 0), ("market", 1)]

/-- `TIFS`. -/
def tifs : List (String × Int) := [("gtc", 0), ("ioc", 1)]

/-- The arguments of `send_new` behind the tag. -/
structure Columns where
  symbol : Int
  side : Int
  otype : Int
  tif : Int
  price : Int
  qty : Int

/-- `int(row["price"] or 0)`. -/
def Row.priceOrZero (py : Text) (row : Row) : Option Int :=
  match row.price with
  | none => some 0
  | some text => if text = "" then some 0 else py.int text

/-- The conversions of a `new` row; nothing when one of them raises. -/
def Row.columns (py : Text) (row : Row) : Option Columns := do
  let symbol ← row.symbol.bind py.int
  let side ← (row.side.map py.lower).bind fun key => sides.lookup key
  let otype ← (row.type.map py.lower).bind fun key => types.lookup key
  let tif ← (row.tif.map py.lower).bind fun key => tifs.lookup key
  let price ← row.priceOrZero py
  let qty ← row.qty.bind py.int
  return ⟨symbol, side, otype, tif, price, qty⟩

/-- What a row leads to. -/
inductive Outcome where
  /-- An exception before anything is sent. -/
  | raised
  /-- The row is skipped. -/
  | skipped
  /-- These bytes are given to `sendall`. -/
  | sent (bytes : List UInt8) (s : Receiver)

namespace Receiver

/-- The result of a `send_*`. -/
def outcome (s : Receiver) : Option (List UInt8 × Session) → Outcome
  | none => .raised
  | some (bytes, session) => .sent bytes { s with toSession := session }

/-- The body of the loop over the rows, up to `sendall`. -/
def onRow (py : Text) (s : Receiver) (row : Row) : Outcome :=
  match row.action.map fun text => py.lower (py.strip text), row.tag.bind py.int with
  | some action, some tag =>
      if action = "new" then
        match row.columns py with
        | none => .raised
        | some c => s.outcome (s.sendNew tag c.symbol c.side c.otype c.tif c.price c.qty)
      else if action = "cancel" ∨ action = "replace" then
        match s.ids tag with
        | none => .skipped
        | some oid =>
            if action = "cancel" then s.outcome (s.sendCancel tag oid)
            else
              match row.price.bind py.int, row.qty.bind py.int with
              | some price, some qty => s.outcome (s.sendReplace tag oid price qty)
              | _, _ => .raised
      else .skipped
  | _, _ => .raised

end Receiver

end Script

/-- `Session` of `replay.py`. -/
structure Replay extends Script.Receiver where
  buf : List UInt8 := []

namespace Replay

/-- Which part of the script has raised an exception. -/
inductive Part where
  | row
  | socket
  /-- The loop over the frames, or it never ends. -/
  | frames
deriving DecidableEq

/-- Where the script is. -/
inductive At where
  /-- At the top of the loop over the rows. -/
  | rows
  /-- In `drain`, the last one or one after a row. -/
  | draining (last : Bool)
  | returned (code : Nat)
  | raised (part : Part)
deriving DecidableEq

/-- What `drain` does with a chunk. -/
def receive (c : Replay) (chunk : List UInt8) : Option Replay :=
  let buf := c.buf ++ chunk
  match Script.frameLoop Script.Receiver.handle (buf.length + 1) buf c.toReceiver with
  | .returned s _ rest => some { toReceiver := s, buf := rest }
  | .failed => none
  | .running => none

end Replay

/-- The script and the system. -/
structure ReplayRun where
  dialog : Dialog
  client : Replay := {}
  place : Replay.At := .rows

namespace ReplayRun

inductive Action where
  | system (a : System.Action)
  /-- The next row; `sendall` may fail after some bytes. -/
  | row (row : Script.Row) (failsAfter : Option Nat)
  /-- There are no more rows. -/
  | eof
  /-- `select` times out. -/
  | timeout
  /-- `recv` returns at most `n` bytes. -/
  | read (n : Nat)
  /-- `recv` returns nothing. -/
  | closed
  /-- `recv` raises. -/
  | reset

variable (py : Script.Text)

def row (r : ReplayRun) (row : Script.Row) (failsAfter : Option Nat) : ReplayRun :=
  match r.client.onRow py row with
  | .raised => { r with place := .raised .row }
  | .skipped => r
  | .sent bytes s =>
      let client := { r.client with toReceiver := s }
      match failsAfter with
      | none => { dialog := r.dialog.step (.write bytes), client := client, place := .draining false }
      | some k => { dialog := r.dialog.step (.write (bytes.take k)), client := client, place := .raised .socket }

/-- A `recv` without anything to read does not happen. -/
def read (r : ReplayRun) (n : Nat) : ReplayRun :=
  let n := min n 65536
  let chunk := r.dialog.incoming n
  if chunk = [] then r
  else
    match r.client.receive chunk with
    | some c => { r with dialog := r.dialog.step (.hear n), client := c }
    | none => { r with dialog := r.dialog.step (.hear n), place := .raised .frames }

/-- Something that happens in `drain`. -/
def inDrain (r : ReplayRun) (f : Bool → ReplayRun) : ReplayRun :=
  match r.place with
  | .draining last => f last
  | .rows | .returned _ | .raised _ => r

def step (r : ReplayRun) : Action → ReplayRun
  | .system a => { r with dialog := r.dialog.step (.system a) }
  | .row row failsAfter => if r.place = .rows then r.row py row failsAfter else r
  | .eof => if r.place = .rows then { r with place := .draining true } else r
  | .timeout => r.inDrain fun last => { r with place := if last then .returned 0 else .rows }
  | .read n => r.inDrain fun _ => r.read n
  | .closed => r.inDrain fun last => { r with place := .returned (if last then 0 else 1) }
  | .reset => r.inDrain fun _ => { r with place := .raised .socket }

/-- Any interleaving of the script and the system. -/
def run (r : ReplayRun) (actions : List Action) : ReplayRun := actions.foldl (step py) r

@[simp] theorem run_concat (r : ReplayRun) (actions : List Action) (a : Action) :
    r.run py (actions ++ [a]) = (r.run py actions).step py a := by
  simp [run]

/-- The system just started, and the script about to be its session `sid`. -/
def start (sid : Nat) (scfg : Server.Config) (ecfg : Engine.Config) (ringLog2 listenFd mdListenFd : Nat) : ReplayRun where
  dialog := { sid := sid, system := System.init scfg ecfg ringLog2 listenFd mdListenFd }

end ReplayRun

/-! ### What is sent -/

/-- The tag and the identifier by which a request names an order. -/
def Wire.Request.named? : Request → Option (Nat × Nat)
  | .newOrder _ => none
  | .cancelOrder m => some (m.tag, m.orderId)
  | .replaceOrder m => some (m.tag, m.orderId)

namespace Script

/-- A call that sends a request, with the next sequence number. -/
structure Session.Sends (s : Session) (r : Request) (bytes : List UInt8) (s' : Session) : Prop where
  inRange : r.InRange
  seq_lt : s.seq < 2 ^ 32
  bytes : bytes = r.make s.seq
  seq : s'.seq = s.seq + 1

namespace Session

variable {s s' : Session} {bytes : List UInt8} {tag orderId price qty : Int}

theorem fits_of_send {t : MsgType} {fields : List Int} (h : s.send t fields = some (bytes, s')) :
    s.seq < 2 ^ 32 ∧ fits (bodyFormat t) fields = true := by
  simp only [Session.send, Session.hdr, Option.bind_eq_bind, Option.bind_eq_some_iff, pack] at h
  obtain ⟨⟨front, s₁⟩, ⟨front', hfront, -⟩, body, hbody, -⟩ := h
  have hseq : fits Script.hdr [calcsize (format t), typeCode t, version, s.seq] = true := by
    by_contra hnot
    rw [if_neg hnot] at hfront
    cases hfront
  have hfits : fits (format t) ([0, 0, 0, 0] ++ fields) = true := by
    by_contra hnot
    rw [if_neg hnot] at hbody
    cases hbody
  refine ⟨?_, ?_⟩
  · simp only [Script.hdr, fits, Bool.and_eq_true, decide_eq_true_eq] at hseq
    obtain ⟨-, -, -, ⟨-, hlt⟩, -⟩ := hseq
    exact Int.ofNat_lt.1 hlt
  · rw [format_eq, fits_append (by decide)] at hfits
    exact hfits

theorem sends_of_send {r : Request} (hr : r.InRange) (h : s.send r.type r.fields = some (bytes, s')) :
    s.Sends r bytes s' := by
  obtain ⟨hseq, -⟩ := fits_of_send h
  have hsend : s.send r.type r.fields = Session.request ⟨s.seq⟩ r := by cases r <;> rfl
  rw [hsend, request_eq hr hseq, Option.some.injEq, Prod.mk.injEq] at h
  obtain ⟨rfl, rfl⟩ := h
  exact ⟨hr, hseq, rfl, rfl⟩

theorem sends_of_sendNew {symbol side otype tif : Int}
    (h : s.sendNew tag symbol side otype tif price qty = some (bytes, s')) :
    ∃ m : NewOrder, (m.side : Int) = side ∧ (m.type : Int) = otype ∧ (m.tif : Int) = tif ∧
      s.Sends (.newOrder m) bytes s' := by
  obtain ⟨-, hfits⟩ := fits_of_send h
  simp only [bodyFormat, format, List.drop_succ_cons, List.drop_zero, fits, Bool.and_eq_true, decide_eq_true_eq, and_true]
    at hfits
  obtain ⟨⟨htag, htag'⟩, ⟨hsymbol, hsymbol'⟩, ⟨hside, hside'⟩, ⟨hotype, hotype'⟩, ⟨htif, htif'⟩, hprice, ⟨hqty, hqty'⟩⟩ := hfits
  lift tag to Nat using htag
  lift symbol to Nat using hsymbol
  lift side to Nat using hside
  lift otype to Nat using hotype
  lift tif to Nat using htif
  lift qty to Nat using hqty
  refine ⟨⟨tag, symbol, side, otype, tif, price, qty⟩, rfl, rfl, rfl, sends_of_send ?_ h⟩
  simp only [Request.InRange]
  omega

theorem sends_of_sendCancel (h : s.sendCancel tag orderId = some (bytes, s')) :
    ∃ m : CancelOrder, (m.tag : Int) = tag ∧ (m.orderId : Int) = orderId ∧ s.Sends (.cancelOrder m) bytes s' := by
  obtain ⟨-, hfits⟩ := fits_of_send h
  simp only [bodyFormat, format, List.drop_succ_cons, List.drop_zero, fits, Bool.and_eq_true, decide_eq_true_eq, and_true]
    at hfits
  obtain ⟨⟨htag, htag'⟩, ⟨hid, hid'⟩⟩ := hfits
  lift tag to Nat using htag
  lift orderId to Nat using hid
  refine ⟨⟨tag, orderId⟩, rfl, rfl, sends_of_send ?_ h⟩
  simp only [Request.InRange]
  omega

theorem sends_of_sendReplace (h : s.sendReplace tag orderId price qty = some (bytes, s')) :
    ∃ m : ReplaceOrder, (m.tag : Int) = tag ∧ (m.orderId : Int) = orderId ∧ s.Sends (.replaceOrder m) bytes s' := by
  obtain ⟨-, hfits⟩ := fits_of_send h
  simp only [bodyFormat, format, List.drop_succ_cons, List.drop_zero, fits, Bool.and_eq_true, decide_eq_true_eq, and_true]
    at hfits
  obtain ⟨⟨htag, htag'⟩, ⟨hid, hid'⟩, hprice, ⟨hqty, hqty'⟩⟩ := hfits
  lift tag to Nat using htag
  lift orderId to Nat using hid
  lift qty to Nat using hqty
  refine ⟨⟨tag, orderId, price, qty⟩, rfl, rfl, sends_of_send ?_ h⟩
  simp only [Request.InRange]
  omega

end Session

theorem lookup_code {a b key : String} {v : Int} (h : [(a, (0 : Int)), (b, 1)].lookup key = some v) : v = 0 ∨ v = 1 := by
  rw [List.lookup_cons, List.lookup_cons, List.lookup_nil] at h
  split at h
  · exact .inl (Option.some.inj h).symm
  · split at h
    · exact .inr (Option.some.inj h).symm
    · cases h

theorem Row.columns_code {py : Text} {row : Row} {c : Columns} (h : row.columns py = some c) :
    (c.side = 0 ∨ c.side = 1) ∧ (c.otype = 0 ∨ c.otype = 1) ∧ (c.tif = 0 ∨ c.tif = 1) := by
  simp only [Row.columns, Option.bind_eq_bind, Option.bind_eq_some_iff] at h
  obtain ⟨symbol, -, side, ⟨_, -, hside⟩, otype, ⟨_, -, hotype⟩, tif, ⟨_, -, htif⟩, price, -, qty, -, hc⟩ := h
  cases hc
  exact ⟨lookup_code hside, lookup_code hotype, lookup_code htif⟩

/-! ### What is received -/

namespace Receiver

/-- `handle`, given the message of the frame. -/
def onMessage (s : Receiver) : Message → Receiver
  | .ack tag orderId => { s with ids := Function.update s.ids tag (some (orderId : Int)) }
  | _ => s

theorem handle_printed {t : MsgType} (ht : t = .fill ∨ t = .cancelled ∨ t = .replaced) (s : Receiver) (seq : Nat)
    (frame : List UInt8) : s.handle t.code seq frame = (unpack (format t) frame).map fun _ => s := by
  rcases ht with rfl | rfl | rfl
  · rw [handle, if_neg (by decide), if_neg (by decide), if_pos (by decide)]
  · rw [handle, if_neg (by decide), if_neg (by decide), if_neg (by decide), if_pos (by decide)]
  · rw [handle, if_neg (by decide), if_neg (by decide), if_neg (by decide), if_neg (by decide), if_pos (by decide)]

theorem handle_make {m : Message} (hrange : ∀ tag orderId, m = .ack tag orderId → tag < 2 ^ 64 ∧ orderId < 2 ^ 64)
    (s : Receiver) (seq : Nat) (back : List UInt8) :
    onFront handle s (m.make (seq % word32) ++ back) = some (s.onMessage m) := by
  have hlt : seq % word32 < 2 ^ 32 := Nat.mod_lt _ (by decide)
  have htake : (m.make (seq % word32) ++ back).take m.type.size = m.make (seq % word32) :=
    List.take_left' (m.length_make _)
  have hunpack : unpack (format m.type) (m.make (seq % word32)) = some (values (format m.type) (m.make (seq % word32))) :=
    if_pos ((m.length_make _).trans (calcsize_format _).symm)
  rw [onFront, m.ofBytes_make]
  dsimp only
  rw [htake]
  cases m with
  | ack tag orderId =>
      obtain ⟨htag, hid⟩ := hrange tag orderId rfl
      have hfields : unpack (format .ack) ((Message.ack tag orderId).make (seq % word32)) = _ :=
        unpack_message (m := .ack tag orderId) ⟨htag, hid⟩ hlt
      have htype : (Message.ack tag orderId).type.code = typeCode .ack := rfl
      rw [handle, if_pos htype, hfields]
      rfl
  | reject tag reason =>
      have hfield : field ((Message.reject tag reason).make (seq % word32)) 16 1 = reasonCode reason := by
        simp (disch := omega) only [Message.make, Message.body, Message.header, Header.bytes, List.append_assoc, field_skip,
          Nat.reduceSub, field_encode]
        cases reason <;> rfl
      have hvalues : unpack (format .reject) ((Message.reject tag reason).make (seq % word32)) = _ := hunpack
      have hother : (Message.reject tag reason).type.code ≠ typeCode .ack := by
        change MsgType.reject.code ≠ _
        decide
      have htype : (Message.reject tag reason).type.code = typeCode .reject := rfl
      rw [handle, if_neg hother, if_pos htype, hvalues]
      simp only [Message.type, format, values, List.drop_drop]
      change reasons[(field ((Message.reject tag reason).make (seq % word32)) 16 1 : Int).toNat]?.map (fun _ => s) = some s
      rw [Int.toNat_natCast, hfield]
      cases reason <;> rfl
  | fill orderId price qty remaining maker => exact (s.handle_printed (.inl rfl) _ _).trans (congrArg (Option.map fun _ => s) hunpack)
  | cancelled orderId remaining => exact (s.handle_printed (.inr (.inl rfl)) _ _).trans (congrArg (Option.map fun _ => s) hunpack)
  | replaced orderId price qty => exact (s.handle_printed (.inr (.inr rfl)) _ _).trans (congrArg (Option.map fun _ => s) hunpack)
  | _ => rfl

end Receiver

/-- The identifier in the last Ack for a tag. -/
def lastAck (ms : List Message) (tag : Int) : Option Int :=
  ms.reverse.findSome? fun
    | .ack t orderId => if (t : Int) = tag then some (orderId : Int) else none
    | _ => none

theorem lastAck_append (ms more : List Message) (tag : Int) :
    lastAck (ms ++ more) tag = (lastAck more tag).or (lastAck ms tag) := by
  rw [lastAck, List.reverse_append, List.findSome?_append]
  rfl

theorem mem_of_lastAck {ms : List Message} {tag oid : Int} (h : lastAck ms tag = some oid) :
    ∃ t orderId : Nat, Message.ack t orderId ∈ ms ∧ (t : Int) = tag ∧ (orderId : Int) = oid := by
  obtain ⟨m, hm, hack⟩ := List.exists_of_findSome?_eq_some h
  split at hack
  · rename_i t orderId
    split at hack
    · exact ⟨t, orderId, List.mem_reverse.1 hm, ‹_›, Option.some.inj hack⟩
    · cases hack
  · cases hack

/-- The identifier of the last order accepted under a tag. -/
def lastAccepted (events : List Event) (tag : Int) : Option Int :=
  (events.reverse.find? fun e => e.kind = .accepted ∧ (e.tag : Int) = tag).map fun e => (e.orderId : Int)

theorem lastAck_private (events : List Event) : lastAck (events.filterMap Event.private?) = lastAccepted events := by
  funext tag
  rw [lastAck, lastAccepted, ← List.filterMap_reverse]
  induction events.reverse with
  | nil => rfl
  | cons e events ih =>
      rw [List.filterMap_cons, List.find?_cons, Event.private?]
      cases hkind : e.kind with
      | accepted => by_cases htag : (e.tag : Int) = tag <;> simp [htag, ih]
      | _ => simp [ih]

theorem Receiver.foldl_onMessage (ms : List Message) (s : Receiver) :
    (ms.foldl onMessage s).toSession = s.toSession ∧
      ∀ tag, (ms.foldl onMessage s).ids tag = (lastAck ms tag).or (s.ids tag) := by
  induction ms generalizing s with
  | nil => exact ⟨rfl, fun _ => rfl⟩
  | cons m ms ih =>
      have hfirst : (s.onMessage m).toSession = s.toSession ∧
          ∀ tag, (s.onMessage m).ids tag = (lastAck [m] tag).or (s.ids tag) := by
        cases m with
        | ack t orderId =>
            refine ⟨rfl, fun tag => ?_⟩
            by_cases htag : (t : Int) = tag
            · subst htag
              simp [onMessage, lastAck]
            · simp [onMessage, lastAck, htag, Function.update_of_ne (Ne.symm htag)]
        | _ => exact ⟨rfl, fun _ => rfl⟩
      obtain ⟨hsession, hids⟩ := ih (s.onMessage m)
      refine ⟨hsession.trans hfirst.1, fun tag => ?_⟩
      rw [List.foldl_cons, hids, hfirst.2, ← Option.or_assoc, ← lastAck_append, List.singleton_append]

/-! ### A row -/

/-- What a row sends is a request that the gateway takes. If it names an order, then one that the script remembers for the tag. -/
theorem Receiver.onRow_sent {py : Text} {s s' : Receiver} {row : Row} {bytes : List UInt8}
    (h : s.onRow py row = .sent bytes s') (sid : Nat) :
    ∃ r : Request, s.toSession.Sends r bytes s'.toSession ∧ s'.ids = s.ids ∧ (r.reply sid).message? = none ∧
      ∀ p ∈ r.named?, s.ids (p.1 : Int) = some (p.2 : Int) := by
  have houtcome : ∀ {o : Option (List UInt8 × Session)}, s.outcome o = .sent bytes s' →
      o = some (bytes, s'.toSession) ∧ s'.ids = s.ids := by
    intro o ho
    cases o with
    | none => cases ho
    | some out =>
        cases ho
        exact ⟨rfl, rfl⟩
  rw [onRow] at h
  split at h
  · rename_i action tag _ _
    split at h
    · split at h
      · cases h
      · rename_i c hcolumns
        obtain ⟨hsend, hids⟩ := houtcome h
        obtain ⟨m, hside, htype, htif, hsends⟩ := Session.sends_of_sendNew hsend
        obtain ⟨hside', htype', htif'⟩ := Row.columns_code hcolumns
        refine ⟨.newOrder m, hsends, hids, ?_, fun p hp => by cases hp⟩
        rw [Request.reply, NewOrder.reply, if_pos (by omega)]
        rfl
    · split at h
      · split at h
        · cases h
        · rename_i oid hoid
          split at h
          · obtain ⟨hsend, hids⟩ := houtcome h
            obtain ⟨m, htag, hid, hsends⟩ := Session.sends_of_sendCancel hsend
            refine ⟨.cancelOrder m, hsends, hids, rfl, fun p hp => ?_⟩
            cases hp
            rw [htag, hid, hoid]
          · split at h
            · obtain ⟨hsend, hids⟩ := houtcome h
              obtain ⟨m, htag, hid, hsends⟩ := Session.sends_of_sendReplace hsend
              refine ⟨.replaceOrder m, hsends, hids, rfl, fun p hp => ?_⟩
              cases hp
              rw [htag, hid, hoid]
            · cases h
      · cases h
  · cases h

end Script

/-! ### What the session is told -/

theorem Wire.Request.command_named {r : Request} (hr : r.InRange) {sid : Nat} {c : Command}
    (h : (r.reply sid).command? = some c) : c.tag < 2 ^ 64 ∧ (c.kind ≠ .new → r.named? = some (c.tag, c.orderId)) := by
  cases r with
  | newOrder m =>
      rw [Request.reply, NewOrder.reply] at h
      split at h
      · cases h
        exact ⟨hr.1, fun hkind => absurd rfl hkind⟩
      · cases h
  | cancelOrder m =>
      cases h
      exact ⟨hr.1, fun _ => rfl⟩
  | replaceOrder m =>
      cases h
      exact ⟨hr.1, fun _ => rfl⟩

/-- How many orders the engine has accepted. -/
def System.accepted (s : System) : Nat := s.emitted.countP fun e => e.kind = .accepted

theorem System.Inv.issued_length {ecfg : Engine.Config} {s : System} (h : s.Inv ecfg) :
    (issued ((Engine.init ecfg).log s.processed)).length = s.accepted := by
  rw [System.accepted, h.log, List.countP_map, issued, List.length_map, ← List.countP_eq_length_filter]
  rfl

namespace Dialog

variable {ecfg : Engine.Config} {d : Dialog} {rs : List Request} {tag orderId : Nat} {reason : RejectReason}

/-- A request that the gateway takes, and whose order, if it names one, was accepted for the session under its tag. -/
structure Proper (d : Dialog) (r : Request) : Prop where
  inRange : r.InRange
  form : (r.reply d.sid).message? = none
  named : ∀ p ∈ r.named?, AcceptedFor d.system.emitted d.sid p.1 p.2

theorem Proper.step {r : Request} (h : d.Proper r) (a : Action) : (d.step a).Proper r := by
  refine ⟨h.inRange, ?_, fun p hp => ?_⟩
  · rw [step_sid]
    exact h.form
  · rw [step_sid]
    exact (h.named p hp).mono (d.emitted_isPrefix a)

theorem acceptedFor_of_told (hm : Message.ack tag orderId ∈ d.told) :
    AcceptedFor d.system.emitted d.sid tag orderId := by
  obtain ⟨e, he, hprivate⟩ := List.mem_filterMap.1 hm
  obtain ⟨hemitted, hsid⟩ := List.mem_filter.1 he
  rw [Event.private?] at hprivate
  split at hprivate
  · rename_i hkind
    cases hprivate
    exact ⟨e, hemitted, hkind, of_decide_eq_true hsid, rfl, rfl⟩
  all_goals cases hprivate

/-- What has been submitted for a client that only sends proper requests. -/
theorem Inv.command_named (h : d.Inv ecfg) (hproper : ∀ r ∈ rs, d.Proper r)
    (hwritten : d.written <+: (numberedRequests 1 rs).flatten) {c : Command} (hc : c ∈ d.system.submitted d.sid) :
    c.tag < 2 ^ 64 ∧ (c.kind ≠ .new → AcceptedFor d.system.emitted d.sid c.tag c.orderId) := by
  obtain ⟨done, ms, hview⟩ := h.view (fun r hr => (hproper r hr).inRange) (fun r hr => (hproper r hr).form) hwritten
  rw [hview.submitted] at hc
  obtain ⟨r, hr, hcommand⟩ := List.mem_filterMap.1 hc
  have hr' := hproper r (hview.isPrefix.subset hr)
  obtain ⟨htag, hnamed⟩ := Request.command_named hr'.inRange hcommand
  exact ⟨htag, fun hkind => hr'.named _ (hnamed hkind)⟩

theorem Inv.ack_lt (h : d.Inv ecfg) (hproper : ∀ r ∈ rs, d.Proper r)
    (hwritten : d.written <+: (numberedRequests 1 rs).flatten) (hfew : d.system.accepted ≤ 2 ^ 32 - 1)
    (hm : Message.ack tag orderId ∈ d.told) : tag < 2 ^ 64 ∧ orderId < 2 ^ 64 := by
  obtain ⟨e, he, hkind, hsid, rfl, rfl⟩ := acceptedFor_of_told hm
  rw [h.system.log] at he
  obtain ⟨t, ht, rfl⟩ := List.mem_map.1 he
  rw [← h.system.issued_length] at hfew
  obtain ⟨hid, x, hx, hsession, htag⟩ := Engine.mem_log_accepted hfew ht hkind
  have hsubmitted := h.mem_submitted hx (hsession.trans hsid)
  exact ⟨htag ▸ (h.command_named hproper hwritten hsubmitted).1, hid⟩

/-- A client that only sends proper requests is refused for reasons of its own. -/
theorem Inv.reject_own (h : d.Inv ecfg) (hproper : ∀ r ∈ rs, d.Proper r)
    (hwritten : d.written <+: (numberedRequests 1 rs).flatten) (hfew : d.system.accepted ≤ 2 ^ 32 - 1)
    {e : Event} (he : e ∈ d.system.emitted) (hsid : e.session = d.sid) (hkind : e.kind = .rejected) : e.reason.isOwn := by
  rw [h.system.log] at he
  obtain ⟨t, ht, rfl⟩ := List.mem_map.1 he
  rw [← h.system.issued_length] at hfew
  refine Engine.rejects_own hfew (fun x hx hsession hold => ?_) ht hkind hsid
  have hnamed := (h.command_named hproper hwritten (h.mem_submitted hx hsession)).2 hold
  rw [h.system.log] at hnamed
  exact ⟨_, hnamed⟩

end Dialog

/-! ### Every run -/

/-- The script has neither returned nor raised. -/
def Replay.At.running : Replay.At → Bool
  | .rows | .draining _ => true
  | .returned _ | .raised _ => false

namespace ReplayRun

variable {py : Script.Text} {ecfg : Engine.Config} {r : ReplayRun}

/-- What holds between the script and the system after every step. -/
structure Inv (ecfg : Engine.Config) (r : ReplayRun) : Prop where
  dialog : r.dialog.Inv ecfg
  /-- The requests written so far; a `sendall` that raised has left some out. -/
  sent : ∃ rs, (∀ q ∈ rs, r.dialog.Proper q) ∧ r.dialog.written <+: (numberedRequests 1 rs).flatten ∧
    (r.place.running = true → r.client.seq = 1 + rs.length ∧ r.dialog.written = (numberedRequests 1 rs).flatten)
  /-- The messages handled so far. -/
  took : ∃ ms, r.dialog.Hears ms r.client.buf ∧ r.client.ids = Script.lastAck ms
  safe : r.place ≠ .raised .frames

theorem start_inv (sid : Nat) (scfg : Server.Config) (ecfg : Engine.Config) (ringLog2 listenFd mdListenFd : Nat) :
    (start sid scfg ecfg ringLog2 listenFd mdListenFd).Inv ecfg where
  dialog := Dialog.init_inv sid scfg ecfg ringLog2 listenFd mdListenFd
  sent := ⟨[], fun _ hq => absurd hq List.not_mem_nil, List.prefix_rfl, fun _ => ⟨rfl, rfl⟩⟩
  took := ⟨[], ⟨rfl, List.nil_prefix, rfl⟩, rfl⟩
  safe := Replay.At.noConfusion

theorem Inv.moved (h : r.Inv ecfg) {place : Replay.At} (hrunning : place.running = true → r.place.running = true)
    (hsafe : place ≠ .raised .frames) : Inv ecfg { r with place := place } := by
  obtain ⟨rs, hproper, hbegin, hall⟩ := h.sent
  exact ⟨h.dialog, ⟨rs, hproper, hbegin, fun hopen => hall (hrunning hopen)⟩, h.took, hsafe⟩

theorem Inv.system (h : r.Inv ecfg) (a : System.Action)
    (hfew : (r.dialog.step (.system a)).system.server.opened < word32) :
    Inv ecfg { r with dialog := r.dialog.step (.system a) } := by
  have hsame : (r.dialog.step (.system a)).written = r.dialog.written ∧
      (r.dialog.step (.system a)).heard = r.dialog.heard := by
    rw [Dialog.step]
    split <;> exact ⟨rfl, rfl⟩
  obtain ⟨rs, hproper, hbegin, hall⟩ := h.sent
  obtain ⟨ms, hhears, hids⟩ := h.took
  refine ⟨h.dialog.step _ hfew, ⟨rs, fun q hq => (hproper q hq).step (.system a), ?_, ?_⟩, ⟨ms, hhears.step hsame.2, hids⟩, h.safe⟩
  · rw [hsame.1]
    exact hbegin
  · rw [hsame.1]
    exact hall

theorem Inv.acceptedFor (h : r.Inv ecfg) {tag oid : Int} (hids : r.client.ids tag = some oid) :
    ∃ t orderId : Nat, (t : Int) = tag ∧ (orderId : Int) = oid ∧
      AcceptedFor r.dialog.system.emitted r.dialog.sid t orderId := by
  obtain ⟨ms, hhears, hlast⟩ := h.took
  rw [hlast] at hids
  obtain ⟨t, orderId, hack, htag, hid⟩ := Script.mem_of_lastAck hids
  exact ⟨t, orderId, htag, hid, Dialog.acceptedFor_of_told (hhears.told.subset hack)⟩

theorem Inv.wrote (h : r.Inv ecfg) (hat : r.place = .rows) {s : Script.Receiver} {q : Request} {out bytes : List UInt8}
    (hsends : r.client.toSession.Sends q out s.toSession) (hids : s.ids = r.client.ids) (hq : r.dialog.Proper q)
    {place : Replay.At} (hbytes : place = .draining false ∧ bytes = out ∨ place = .raised .socket ∧ bytes <+: out) :
    Inv ecfg { dialog := r.dialog.step (.write bytes), client := { r.client with toReceiver := s }, place := place } := by
  obtain ⟨rs, hproper, hbegin, hall⟩ := h.sent
  obtain ⟨ms, hhears, hlast⟩ := h.took
  obtain ⟨hseq, hwritten⟩ := hall (by rw [hat]; rfl)
  have hout : r.dialog.written ++ out = (numberedRequests 1 (rs ++ [q])).flatten := by
    have hlt := hsends.seq_lt
    rw [hwritten, numberedRequests_append, List.flatten_append, hsends.bytes]
    congr 1
    rw [hseq] at hlt ⊢
    change q.make (1 + rs.length) = q.make ((1 + rs.length + 0) % word32) ++ []
    rw [List.append_nil, Nat.add_zero, Nat.mod_eq_of_lt hlt]
  refine ⟨h.dialog.step (.write bytes) h.dialog.system.routes.few, ⟨rs ++ [q], ?_, ?_, fun hopen => ?_⟩,
    ⟨ms, hhears.step (a := .write bytes) rfl, hids.trans hlast⟩, ?_⟩
  · intro q' hq'
    rcases List.mem_append.1 hq' with hq' | hq'
    · exact (hproper q' hq').step (.write bytes)
    · rw [List.mem_singleton.1 hq']
      exact hq.step (.write bytes)
  · rw [← hout]
    change r.dialog.written ++ bytes <+: _
    rw [List.prefix_append_right_inj]
    rcases hbytes with ⟨-, rfl⟩ | ⟨-, hpart⟩
    · exact List.prefix_rfl
    · exact hpart
  · rcases hbytes with ⟨-, rfl⟩ | ⟨rfl, -⟩
    · refine ⟨?_, hout⟩
      change s.seq = _
      rw [hsends.seq, hseq, List.length_append, List.length_singleton]
      omega
    · cases hopen
  · rcases hbytes with ⟨rfl, -⟩ | ⟨rfl, -⟩ <;> intro hcode <;> cases hcode

theorem Inv.row (h : r.Inv ecfg) (hat : r.place = .rows) (row : Script.Row) (failsAfter : Option Nat) :
    (r.row py row failsAfter).Inv ecfg := by
  rw [ReplayRun.row]
  cases houtcome : r.client.onRow py row with
  | raised =>
      refine h.moved (fun hrunning => ?_) fun hcode => ?_
      · cases hrunning
      · cases hcode
  | skipped => exact h
  | sent bytes s =>
      obtain ⟨q, hsends, hids, hform, hnamed⟩ := Script.Receiver.onRow_sent houtcome r.dialog.sid
      have hq : r.dialog.Proper q := by
        refine ⟨hsends.inRange, hform, fun p hp => ?_⟩
        obtain ⟨t, orderId, htag, hid, haccepted⟩ := h.acceptedFor (hnamed p hp)
        rwa [← Int.ofNat_inj.1 htag, ← Int.ofNat_inj.1 hid]
      cases failsAfter with
      | none => exact h.wrote hat hsends hids hq (.inl ⟨rfl, rfl⟩)
      | some k => exact h.wrote hat hsends hids hq (.inr ⟨rfl, List.take_prefix k bytes⟩)

theorem Inv.read (h : r.Inv ecfg) (hfew : r.dialog.system.accepted ≤ 2 ^ 32 - 1) (n : Nat) : (r.read n).Inv ecfg := by
  rw [ReplayRun.read]
  split
  · exact h
  · have hinv := h.dialog.step (.hear (min n 65536)) h.dialog.system.routes.few
    obtain ⟨rs, hproper, hbegin, hall⟩ := h.sent
    obtain ⟨ms, hhears, hlast⟩ := h.took
    have hproper' : ∀ q ∈ rs, (r.dialog.step (.hear (min n 65536))).Proper q := fun q hq => (hproper q hq).step _
    obtain ⟨done, told, hview⟩ := hinv.view (fun q hq => (hproper' q hq).inRange) (fun q hq => (hproper' q hq).form) hbegin
    have hhandle : ∀ m ∈ r.dialog.told, ∀ (s : Script.Receiver) seq back,
        Script.onFront Script.Receiver.handle s (m.make (seq % word32) ++ back) = some (s.onMessage m) := by
      intro m hm
      apply Script.Receiver.handle_make
      rintro tag orderId rfl
      exact h.dialog.ack_lt hproper hbegin hfew hm
    obtain ⟨got, calls, rest, hwalk, hhears'⟩ :=
      hhears.hear (min n 65536) hview.heard_told hhandle r.client.toReceiver
    obtain ⟨hsession, hids⟩ := Script.Receiver.foldl_onMessage got r.client.toReceiver
    have hreceive : r.client.receive (r.dialog.incoming (min n 65536)) =
        some { toReceiver := got.foldl Script.Receiver.onMessage r.client.toReceiver, buf := rest } := by
      rw [Replay.receive, Script.frameLoop_eq, hwalk]
    rw [hreceive]
    refine ⟨hinv, ⟨rs, hproper', hbegin, fun hopen => ?_⟩, ⟨ms ++ got, hhears', ?_⟩, h.safe⟩
    · obtain ⟨hseq, hwritten⟩ := hall hopen
      exact ⟨(congrArg Script.Session.seq hsession).trans hseq, hwritten⟩
    · funext tag
      exact (hids tag).trans (by rw [Script.lastAck_append, hlast])

theorem step_system (py : Script.Text) (r : ReplayRun) (a : Action) :
    (∃ a', a = .system a') ∨ (r.step py a).dialog.system = r.dialog.system := by
  have hdrain : ∀ f : Bool → ReplayRun, (∀ last, (f last).dialog.system = r.dialog.system) →
      (r.inDrain f).dialog.system = r.dialog.system := by
    intro f hf
    rw [inDrain]
    split
    · exact hf _
    all_goals rfl
  cases a with
  | system a => exact .inl ⟨a, rfl⟩
  | row row failsAfter =>
      right
      rw [step]
      split
      · rw [ReplayRun.row]
        cases r.client.onRow py row with
        | sent bytes s => cases failsAfter <;> rfl
        | _ => rfl
      · rfl
  | eof =>
      right
      rw [step]
      split <;> rfl
  | timeout => exact .inr (hdrain _ fun _ => rfl)
  | read n =>
      refine .inr (hdrain _ fun _ => ?_)
      rw [read]
      split
      · rfl
      · split <;> rfl
  | closed => exact .inr (hdrain _ fun _ => rfl)
  | reset => exact .inr (hdrain _ fun _ => rfl)

theorem step_grows (py : Script.Text) (r : ReplayRun) (a : Action) :
    r.dialog.system.server.opened ≤ (r.step py a).dialog.system.server.opened ∧
      r.dialog.system.accepted ≤ (r.step py a).dialog.system.accepted := by
  rcases r.step_system py a with ⟨a, rfl⟩ | hsame
  · exact ⟨r.dialog.opened_le (.system a), (r.dialog.emitted_isPrefix (.system a)).sublist.countP_le⟩
  · rw [hsame]
    exact ⟨le_rfl, le_rfl⟩

theorem Inv.inDrain (h : r.Inv ecfg) {f : Bool → ReplayRun}
    (hf : ∀ last, r.place = .draining last → (f last).Inv ecfg) : (r.inDrain f).Inv ecfg := by
  rw [ReplayRun.inDrain]
  split
  · exact hf _ ‹_›
  all_goals exact h

theorem Inv.step (h : r.Inv ecfg) (a : Action) (hfew : (r.step py a).dialog.system.server.opened < word32)
    (haccepted : (r.step py a).dialog.system.accepted ≤ 2 ^ 32 - 1) : (r.step py a).Inv ecfg := by
  have haccepted' := (r.step_grows py a).2.trans haccepted
  cases a with
  | system a => exact h.system a hfew
  | row row failsAfter =>
      rw [ReplayRun.step]
      split
      · exact h.row ‹_› row failsAfter
      · exact h
  | eof =>
      rw [ReplayRun.step]
      split
      · rename_i hat
        exact h.moved (fun _ => by rw [hat]; rfl) Replay.At.noConfusion
      · exact h
  | timeout =>
      refine h.inDrain fun last hat => h.moved (fun _ => by rw [hat]; rfl) ?_
      cases last <;> exact Replay.At.noConfusion
  | read n => exact h.inDrain fun _ _ => h.read haccepted' n
  | closed => exact h.inDrain fun last hat => h.moved (fun _ => by rw [hat]; rfl) Replay.At.noConfusion
  | reset =>
      refine h.inDrain fun last hat => h.moved (fun _ => by rw [hat]; rfl) fun hcode => ?_
      cases hcode

theorem run_inv (py : Script.Text) (sid : Nat) (scfg : Server.Config) (ecfg : Engine.Config)
    (ringLog2 listenFd mdListenFd : Nat) (actions : List Action)
    (hfew : ((start sid scfg ecfg ringLog2 listenFd mdListenFd).run py actions).dialog.system.server.opened < word32)
    (haccepted : ((start sid scfg ecfg ringLog2 listenFd mdListenFd).run py actions).dialog.system.accepted ≤ 2 ^ 32 - 1) :
    ((start sid scfg ecfg ringLog2 listenFd mdListenFd).run py actions).Inv ecfg := by
  induction actions using List.reverseRecOn with
  | nil => exact start_inv sid scfg ecfg ringLog2 listenFd mdListenFd
  | append_singleton actions a ih =>
      rw [run_concat] at hfew haccepted ⊢
      obtain ⟨hopened, hmore⟩ := step_grows py ((start sid scfg ecfg ringLog2 listenFd mdListenFd).run py actions) a
      exact (ih (hopened.trans_lt hfew) (hmore.trans haccepted)).step a hfew haccepted

/-- What the script relies on. -/
structure Owned (r : ReplayRun) : Prop where
  /-- No answer makes it raise, and its loop over the frames always ends. -/
  safe : r.place ≠ .raised .frames
  /-- It remembers the last order accepted under each tag, of the events it has read the frames of. -/
  took : ∃ events, r.dialog.Reads events r.client.buf ∧ r.client.ids = Script.lastAccepted events
  /-- The gateway tells it nothing but the engine's events for its session, so it finds no fault with a request. -/
  heard : r.dialog.heard <+: (stamped (privateFrames r.dialog.sid r.dialog.system.emitted)).flatten
  /-- A Cancel or Replace names an order that was accepted for the session under the tag of the row. -/
  named : ∀ c ∈ r.dialog.system.submitted r.dialog.sid, c.kind ≠ .new →
    AcceptedFor r.dialog.system.emitted r.dialog.sid c.tag c.orderId
  /-- So it is never refused as another session's. -/
  refused : ∀ e ∈ r.dialog.system.emitted, e.session = r.dialog.sid → e.kind = .rejected → e.reason.isOwn

theorem Inv.owned (h : r.Inv ecfg) (haccepted : r.dialog.system.accepted ≤ 2 ^ 32 - 1) : r.Owned := by
  obtain ⟨rs, hproper, hbegin, -⟩ := h.sent
  obtain ⟨done, ms, hview⟩ := h.dialog.view (fun q hq => (hproper q hq).inRange) (fun q hq => (hproper q hq).form) hbegin
  obtain ⟨handled, hhears, hids⟩ := h.took
  obtain ⟨events, hreads, rfl⟩ := hhears.reads
  rw [Script.lastAck_private] at hids
  have hheard := hview.heard_told
  rw [Dialog.numbered_told] at hheard
  exact ⟨h.safe, ⟨events, hreads, hids⟩, hheard, fun c hc => (h.dialog.command_named hproper hbegin hc).2,
    fun e he hsid hkind => h.dialog.reject_own hproper hbegin haccepted he hsid hkind⟩

/-- After every interleaving of the script, for any file, with the system and everyone else in which fewer than `2 ^ 32` sessions and orders were accepted. -/
theorem run_owned (py : Script.Text) (sid : Nat) (scfg : Server.Config) (ecfg : Engine.Config)
    (ringLog2 listenFd mdListenFd : Nat) (actions : List Action)
    (hfew : ((start sid scfg ecfg ringLog2 listenFd mdListenFd).run py actions).dialog.system.server.opened < 2 ^ 32)
    (haccepted : ((start sid scfg ecfg ringLog2 listenFd mdListenFd).run py actions).dialog.system.accepted < 2 ^ 32) :
    ((start sid scfg ecfg ringLog2 listenFd mdListenFd).run py actions).Owned :=
  (run_inv py sid scfg ecfg ringLog2 listenFd mdListenFd actions hfew (Nat.le_pred_of_lt haccepted)).owned
    (Nat.le_pred_of_lt haccepted)

/-- The file has an order and its cancellation. -/
def newThenCancel : List Action :=
  let accept : List System.Action :=
    [.gateway { polled := some [{ fd := 3, readable := true }] }, .gateway {}, .gateway { accepted := .connected 5 },
      .gateway {}]
  let around : List System.Action := [.gateway {}, .gateway {}, .gateway { writes := fun _ => [.wrote 100] }]
  let order (frame : List UInt8) : List System.Action :=
    [.gateway { polled := some [{ fd := 5, readable := true }] }, .gateway { reads := [.bytes frame] }, .gateway {},
      .gateway {}, .engine 7, .engine 7, .engine 7, .engine 7, .gateway {}, .gateway {}]
  let new : Script.Row :=
    { action := some "new", tag := some "1", symbol := some "0", side := some "buy", type := some "limit",
      tif := some "gtc", price := some "5", qty := some "1" }
  let cancel : Script.Row := { action := some "cancel", tag := some "1" }
  [.row new none] ++ (accept ++ around ++ order ((Request.newOrder ⟨1, 0, 0, 0, 0, 5, 1⟩).make 1) ++ around).map .system ++
    [.read 100, .timeout, .row cancel none] ++
    (order ((Request.cancelOrder ⟨1, 2 ^ 32⟩).make 2) ++ around).map .system ++ [.read 100, .timeout, .eof, .timeout]

theorem run_owned_newThenCancel :
    let py : Script.Text :=
      { int := fun text => if text = "0" then some 0 else if text = "1" then some 1 else if text = "5" then some 5 else none
        lower := id, strip := id }
    let r := (start 1 {} { maxPrice := 10, maxOrders := 4 } 2 3 4).run py newThenCancel
    r.dialog.system.server.opened < 2 ^ 32 ∧ r.dialog.system.accepted < 2 ^ 32 ∧ r.Owned ∧ r.place = .returned 0 ∧
      r.dialog.heard = (stamped [render 16 [(8, 1), (8, 2 ^ 32)], render 19 [(8, 2 ^ 32), (4, 1), (4, 0)]]).flatten ∧
      r.client.ids 1 = some (2 ^ 32) :=
  ⟨by decide +kernel, by decide +kernel, run_owned _ _ _ _ _ _ _ _ (by decide +kernel) (by decide +kernel),
    by decide +kernel, by decide +kernel, by decide +kernel⟩

end ReplayRun

end Matchbox
