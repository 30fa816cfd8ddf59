import Matchbox.Gateway.Frames
import Matchbox.Stream.Client
import Matchbox.Stream.Handshake

/-!
# The wire format of the Python scripts

`replay.py` and `mdstream.py` repeat the layouts of `protocol.hpp` as formats of the `struct` module. Here both are written down, and each request that the scripts pack is compared with the packed struct of the same fields, byte by byte. For the messages of the gateway the comparison goes the other way: the bytes of the struct are those that the format would pack, so unpacking gives the fields back.
-/

namespace Matchbox

open Wire LittleEndian Struct

namespace Wire

/-! ### The structs that clients send -/

/-- A message to the order port. -/
inductive Request where
  | newOrder (m : NewOrder)
  | cancelOrder (m : CancelOrder)
  | replaceOrder (m : ReplaceOrder)
deriving DecidableEq, Repr

namespace Request

def type : Request → MsgType
  | .newOrder _ => .newOrder
  | .cancelOrder _ => .cancelOrder
  | .replaceOrder _ => .replaceOrder

/-- The struct behind the header, padding included. -/
def body : Request → List UInt8
  | .newOrder m =>
      encode 8 m.tag ++ encode 2 m.symbol ++ encode 1 m.side ++ encode 1 m.type ++ encode 1 m.tif ++ encode 3 0 ++
        encodeInt m.price ++ encode 4 m.qty ++ encode 4 0
  | .cancelOrder m => encode 8 m.tag ++ encode 8 m.orderId
  | .replaceOrder m => encode 8 m.tag ++ encode 8 m.orderId ++ encodeInt m.price ++ encode 4 m.qty ++ encode 4 0

/-- The frame of a request. -/
def make (r : Request) (seq : Nat) : List UInt8 :=
  Header.bytes ⟨r.type.size, r.type.code, kVersion, seq⟩ ++ r.body

/-- `wire::read` for the struct of a type. -/
def ofBytes : MsgType → List UInt8 → Option Request
  | .newOrder, p => some (.newOrder (NewOrder.ofBytes p))
  | .cancelOrder, p => some (.cancelOrder (CancelOrder.ofBytes p))
  | .replaceOrder, p => some (.replaceOrder (ReplaceOrder.ofBytes p))
  | _, _ => none

/-- What the gateway does with a request. -/
def reply (session : Nat) : Request → Reply
  | .newOrder m => m.reply session
  | .cancelOrder m => m.reply session
  | .replaceOrder m => m.reply session

/-- Every field is a value of its type in the struct. -/
def InRange : Request → Prop
  | .newOrder m =>
      m.tag < 2 ^ 64 ∧ m.symbol < 2 ^ 16 ∧ m.side < 2 ^ 8 ∧ m.type < 2 ^ 8 ∧ m.tif < 2 ^ 8 ∧
        (-2 ^ 63 ≤ m.price ∧ m.price < 2 ^ 63) ∧ m.qty < 2 ^ 32
  | .cancelOrder m => m.tag < 2 ^ 64 ∧ m.orderId < 2 ^ 64
  | .replaceOrder m =>
      m.tag < 2 ^ 64 ∧ m.orderId < 2 ^ 64 ∧ (-2 ^ 63 ≤ m.price ∧ m.price < 2 ^ 63) ∧ m.qty < 2 ^ 32

/-- The fields as numbers, in the order of the struct. -/
def fields : Request → List Int
  | .newOrder m => [m.tag, m.symbol, m.side, m.type, m.tif, m.price, m.qty]
  | .cancelOrder m => [m.tag, m.orderId]
  | .replaceOrder m => [m.tag, m.orderId, m.price, m.qty]

end Request

namespace Message

def InRange : Message → Prop
  | .ack tag orderId => tag < 2 ^ 64 ∧ orderId < 2 ^ 64
  | .reject tag _ => tag < 2 ^ 64
  | .fill orderId price qty remaining _ =>
      orderId < 2 ^ 64 ∧ (-2 ^ 63 ≤ price ∧ price < 2 ^ 63) ∧ qty < 2 ^ 32 ∧ remaining < 2 ^ 32
  | .cancelled orderId remaining => orderId < 2 ^ 64 ∧ remaining < 2 ^ 32
  | .replaced orderId price qty => orderId < 2 ^ 64 ∧ (-2 ^ 63 ≤ price ∧ price < 2 ^ 63) ∧ qty < 2 ^ 32
  | .trade symbol _ price qty tsNs =>
      symbol < 2 ^ 16 ∧ (-2 ^ 63 ≤ price ∧ price < 2 ^ 63) ∧ qty < 2 ^ 32 ∧ tsNs < 2 ^ 64
  | .top symbol bid ask bidQty askQty =>
      symbol < 2 ^ 16 ∧ (-2 ^ 63 ≤ bid ∧ bid < 2 ^ 63) ∧ (-2 ^ 63 ≤ ask ∧ ask < 2 ^ 63) ∧ bidQty < 2 ^ 32 ∧
        askQty < 2 ^ 32
  | .heartbeat tsNs headSeq => tsNs < 2 ^ 64 ∧ headSeq < 2 ^ 64
  | .gap first resumedAt => first < 2 ^ 64 ∧ resumedAt < 2 ^ 64

def fields : Message → List Int
  | .ack tag orderId => [tag, orderId]
  | .reject tag reason => [tag, reasonCode reason]
  | .fill orderId price qty remaining maker => [orderId, price, qty, remaining, ((if maker then 1 else 0 : Nat) : Int)]
  | .cancelled orderId remaining => [orderId, remaining]
  | .replaced orderId price qty => [orderId, price, qty]
  | .trade symbol aggressor price qty tsNs => [symbol, sideCode aggressor, price, qty, tsNs]
  | .top symbol bid ask bidQty askQty => [symbol, bid, ask, bidQty, askQty]
  | .heartbeat tsNs headSeq => [tsNs, headSeq]
  | .gap first resumedAt => [first, resumedAt]

end Message

end Wire

/-! ### The scripts -/

namespace Script

open Code

/-- The formats of the messages: `NEW`, `CANCEL` and so on. -/
def format : MsgType → List Code
  | .newOrder => [H, B, B, I, Q, H, B, B, B, x 3, q, I, x 4]
  | .cancelOrder => [H, B, B, I, Q, Q]
  | .replaceOrder => [H, B, B, I, Q, Q, q, I, x 4]
  | .subscribe => [H, B, B, I, Q]
  | .ack => [H, B, B, I, Q, Q]
  | .reject => [H, B, B, I, Q, B, x 7]
  | .fill => [H, B, B, I, Q, q, I, I, B, x 7]
  | .cancelled => [H, B, B, I, Q, I, x 4]
  | .replaced => [H, B, B, I, Q, q, I, x 4]
  | .trade => [H, B, B, I, H, B, x 5, q, I, x 4, Q]
  | .top => [H, B, B, I, H, x 6, q, q, I, I]
  | .heartbeat => [H, B, B, I, Q, Q]
  | .gap => [H, B, B, I, Q, Q]

/-- `T_NEW`, `T_CANCEL` and so on. -/
def typeCode : MsgType → Nat
  | .newOrder => 1
  | .cancelOrder => 2
  | .replaceOrder => 3
  | .subscribe => 4
  | .ack => 16
  | .reject => 17
  | .fill => 18
  | .cancelled => 19
  | .replaced => 20
  | .trade => 32
  | .top => 33
  | .heartbeat => 34
  | .gap => 35

/-- `VERSION`. -/
def version : Nat := 1

/-- `Session` of `replay.py`, as far as sending is concerned. -/
structure Session where
  seq : Nat := 1
deriving DecidableEq, Repr

/-- `_hdr`; `none` is an exception. -/
def Session.hdr (s : Session) (size mtype : Nat) : Option (List UInt8 × Session) := do
  let h ← pack Script.hdr [size, mtype, version, s.seq]
  return (h, { s with seq := s.seq + 1 })

/-- What the three `send_*` share: the body is packed behind four zeros and cut off behind the header. -/
def Session.send (s : Session) (t : MsgType) (fields : List Int) : Option (List UInt8 × Session) := do
  let (h, s) ← s.hdr (calcsize (format t)) (typeCode t)
  let body ← pack (format t) ([0, 0, 0, 0] ++ fields)
  return (h ++ body.drop (calcsize Script.hdr), s)

def Session.sendNew (s : Session) (tag symbol side otype tif price qty : Int) : Option (List UInt8 × Session) :=
  s.send .newOrder [tag, symbol, side, otype, tif, price, qty]

def Session.sendCancel (s : Session) (tag orderId : Int) : Option (List UInt8 × Session) :=
  s.send .cancelOrder [tag, orderId]

def Session.sendReplace (s : Session) (tag orderId price qty : Int) : Option (List UInt8 × Session) :=
  s.send .replaceOrder [tag, orderId, price, qty]

/-- The call that sends a request. -/
def Session.request (s : Session) : Request → Option (List UInt8 × Session)
  | .newOrder m => s.sendNew m.tag m.symbol m.side m.type m.tif m.price m.qty
  | .cancelOrder m => s.sendCancel m.tag m.orderId
  | .replaceOrder m => s.sendReplace m.tag m.orderId m.price m.qty

/-- The frame that `connect` of `mdstream.py` packs. -/
def subscribe (nextSeq : Int) : Option (List UInt8) :=
  pack (format .subscribe) [calcsize (format .subscribe), typeCode .subscribe, version, 0, nextSeq]

/-! ### Both write the same bytes -/

theorem calcsize_format (t : MsgType) : calcsize (format t) = t.size := by
  cases t <;> rfl

theorem typeCode_eq (t : MsgType) : typeCode t = t.code := by
  cases t <;> rfl

/-- The values of a header. -/
def headerValues (t : MsgType) (seq : Nat) : List Int := [t.size, t.code, kVersion, seq]

theorem encodeInt_eq (v : Int) : encode 8 (v % 256 ^ 8).toNat = encodeInt v := by
  rw [encodeInt, BitVec.toNat_ofInt]
  rfl

theorem fits_header (t : MsgType) {seq : Nat} (hseq : seq < 2 ^ 32) : fits hdr (headerValues t seq) = true := by
  have hrange : (seq : Int) < 256 ^ 4 := by omega
  cases t <;> simp [hdr, headerValues, fits, MsgType.size, MsgType.code, kVersion] <;> omega

theorem image_header (t : MsgType) (seq : Nat) :
    image hdr (headerValues t seq) = Header.bytes ⟨t.size, t.code, kVersion, seq⟩ := by
  simp only [hdr, headerValues, image, Int.toNat_natCast, Header.bytes, List.append_assoc, List.append_nil]

/-- The format of a body. -/
def bodyFormat (t : MsgType) : List Code := (format t).drop 4

theorem format_eq (t : MsgType) : format t = hdr ++ bodyFormat t := by
  cases t <;> rfl

theorem pack_frame {t : MsgType} {seq : Nat} (hseq : seq < 2 ^ 32) {vs : List Int} (hfits : fits (bodyFormat t) vs = true) :
    pack (format t) (headerValues t seq ++ vs) =
      some (Header.bytes ⟨t.size, t.code, kVersion, seq⟩ ++ image (bodyFormat t) vs) := by
  have hheader := fits_header t hseq
  rw [format_eq, pack, fits_append hheader, if_pos hfits, image_append hheader, image_header]

theorem fits_request {r : Request} (hr : r.InRange) : fits (bodyFormat r.type) r.fields = true := by
  cases r <;> simp only [Request.InRange] at hr <;>
    simp [bodyFormat, format, Request.type, Request.fields, fits] <;> omega

theorem image_request (r : Request) : image (bodyFormat r.type) r.fields = r.body := by
  cases r <;>
    simp only [bodyFormat, format, List.drop, Request.type, Request.fields, image, Request.body, Int.toNat_natCast,
      encodeInt_eq, List.append_assoc, List.append_nil]

theorem reasonCode_lt (reason : RejectReason) : reasonCode reason < 256 := by
  cases reason <;> decide

theorem sideCode_lt (s : Side) : sideCode s < 256 := by
  cases s <;> decide

theorem fits_message {m : Message} (hm : m.InRange) : fits (bodyFormat m.type) m.fields = true := by
  cases m with
  | reject tag reason =>
      have hreason := reasonCode_lt reason
      simp only [Message.InRange] at hm
      simp [bodyFormat, format, Message.type, Message.fields, fits]
      omega
  | trade symbol aggressor price qty tsNs =>
      have hside := sideCode_lt aggressor
      simp only [Message.InRange] at hm
      simp [bodyFormat, format, Message.type, Message.fields, fits]
      omega
  | _ =>
      simp only [Message.InRange] at hm
      simp [bodyFormat, format, Message.type, Message.fields, fits]
      omega

theorem image_message (m : Message) : image (bodyFormat m.type) m.fields = m.body := by
  cases m <;>
    simp only [bodyFormat, format, List.drop, Message.type, Message.fields, image, Message.body, Int.toNat_natCast,
      encodeInt_eq, List.append_assoc, List.append_nil]

theorem Session.request_eq {r : Request} (hr : r.InRange) {seq : Nat} (hseq : seq < 2 ^ 32) :
    Session.request ⟨seq⟩ r = some (r.make seq, ⟨seq + 1⟩) := by
  have hsend : Session.request ⟨seq⟩ r = Session.send ⟨seq⟩ r.type r.fields := by cases r <;> rfl
  have hheader := fits_header r.type hseq
  have hzeros : fits Script.hdr [0, 0, 0, 0] = true := by decide
  have hbody : pack (format r.type) ([0, 0, 0, 0] ++ r.fields) = some (image (format r.type) ([0, 0, 0, 0] ++ r.fields)) := by
    rw [format_eq, pack, fits_append hzeros, if_pos (fits_request hr)]
  have hpacked : pack Script.hdr [calcsize (format r.type), typeCode r.type, version, seq] =
      some (image Script.hdr (headerValues r.type seq)) := by
    rw [calcsize_format, typeCode_eq]
    exact if_pos hheader
  rw [hsend, Session.send, Session.hdr, hpacked, hbody]
  change some (_, _) = _
  rw [format_eq, splice hheader hzeros, image_append hheader, image_header, image_request]
  rfl

theorem subscribe_eq {first : Nat} (hfirst : first < 2 ^ 64) : subscribe first = some (makeSubscribe first) := by
  have hfits : fits (bodyFormat .subscribe) [(first : Int)] = true := by
    simp [bodyFormat, format, fits]
    omega
  have hpack := pack_frame (t := .subscribe) (by decide : 0 < 2 ^ 32) hfits
  rw [subscribe, calcsize_format, typeCode_eq]
  refine hpack.trans ?_
  simp only [bodyFormat, format, List.drop, image, Int.toNat_natCast, makeSubscribe, List.append_nil]

/-- The formats read what the gateway writes. -/
theorem unpack_message {m : Message} (hm : m.InRange) {seq : Nat} (hseq : seq < 2 ^ 32) :
    unpack (format m.type) (m.make seq) = some (headerValues m.type seq ++ m.fields) := by
  apply unpack_pack
  rw [pack_frame hseq (fits_message hm), image_message]
  rfl

end Script

/-! ### The gateway reads what the scripts write -/

namespace Wire

theorem decodeInt_toNat {v : Int} (h : -2 ^ 63 ≤ v ∧ v < 2 ^ 63) : decodeInt (BitVec.ofInt 64 v).toNat = v := by
  rw [decodeInt, BitVec.ofNat_toNat, BitVec.setWidth_eq, BitVec.toInt_ofInt]
  apply Int.bmod_eq_of_le <;> omega

theorem Request.length_make (r : Request) (seq : Nat) : (r.make seq).length = r.type.size := by
  cases r <;> simp [Request.make, Request.body, Request.type, MsgType.size, headerSize]

theorem Request.ofBytes_make {r : Request} (hr : r.InRange) (seq : Nat) :
    Request.ofBytes r.type (r.make seq) = some r := by
  rw [← List.append_nil (r.make seq)]
  cases r with
  | newOrder m =>
      obtain ⟨htag, hsymbol, hside, htype, htif, hprice, hqty⟩ := hr
      simp (disch := omega) only [Request.type, Request.ofBytes, NewOrder.ofBytes, Request.make, Request.body,
        Header.bytes, encodeInt, List.append_assoc, field_skip, Nat.reduceSub, field_encode, Nat.mod_eq_of_lt,
        decodeInt_toNat hprice]
  | cancelOrder m =>
      obtain ⟨htag, hid⟩ := hr
      simp (disch := omega) only [Request.type, Request.ofBytes, CancelOrder.ofBytes, Request.make, Request.body,
        Header.bytes, List.append_assoc, field_skip, Nat.reduceSub, field_encode, Nat.mod_eq_of_lt]
  | replaceOrder m =>
      obtain ⟨htag, hid, hprice, hqty⟩ := hr
      simp (disch := omega) only [Request.type, Request.ofBytes, ReplaceOrder.ofBytes, Request.make, Request.body,
        Header.bytes, encodeInt, List.append_assoc, field_skip, Nat.reduceSub, field_encode, Nat.mod_eq_of_lt,
        decodeInt_toNat hprice]

theorem Request.header_make (r : Request) {seq : Nat} (hseq : seq < word32) :
    Header.ofBytes (r.make seq) = ⟨r.type.size, r.type.code, kVersion, seq⟩ := by
  rw [Request.make, Header.ofBytes_bytes]
  cases r <;> exact congrArg (Header.mk _ _ _) (Nat.mod_eq_of_lt hseq)

theorem Request.frameReply_make {r : Request} (hr : r.InRange) (session : Nat) {seq : Nat} (hseq : seq < word32) :
    frameReply session (r.make seq) = r.reply session := by
  have hread := Request.ofBytes_make hr seq
  rw [frameReply, r.header_make hseq]
  cases r <;> simp only [Request.type, MsgType.ofCode_code, Request.reply] <;>
    simp only [Request.ofBytes, Request.type, Option.some.injEq, Request.newOrder.injEq, Request.cancelOrder.injEq,
      Request.replaceOrder.injEq] at hread <;> rw [hread]

end Wire

/-- A request that arrives at a session with nothing unread: the command is the one of its fields. -/
theorem Session.parseFrames_make {r : Request} (hr : r.InRange) (s : Session) (hrx : s.rx = [])
    (hseq : s.expectSeq < word32) :
    (s.receive (r.make s.expectSeq)).parseFrames =
      some ⟨(s.act (r.reply s.id)).1.moved ((s.expectSeq + 1) % word32) [], (s.act (r.reply s.id)).2, true⟩ := by
  have hitem := nextFrame_frame s.id r.type hseq (Eq.refl (r.make s.expectSeq)) (r.length_make s.expectSeq) []
  rw [List.append_nil, Request.frameReply_make hr s.id hseq] at hitem
  have hparse : Resumable.Parse (nextFrame s.id) s.expectSeq (r.make s.expectSeq) [r.reply s.id]
      ((s.expectSeq + 1) % word32) [] true := by
    refine .item hitem ?_
    rw [List.drop_length]
    exact .more (Looked.eq (.short (Nat.zero_lt_succ 7)))
  have hreceived : (s.receive (r.make s.expectSeq)).rx = r.make s.expectSeq := by
    rw [Session.receive, hrx]
    rfl
  rw [← hreceived] at hparse
  rw [Session.parseFrames_eq hparse, if_pos rfl, Session.parsed_receive, Session.act_commands]
  cases r.reply s.id <;> rfl

/-! ### Both languages -/

namespace Wire.Request

def tag : Request → Nat
  | .newOrder m => m.tag
  | .cancelOrder m => m.tag
  | .replaceOrder m => m.tag

/-- The side, the type and the time in force of a NewOrder are enumerators. -/
def Enumerated : Request → Prop
  | .newOrder m => m.side ≤ 1 ∧ m.type ≤ 1 ∧ m.tif ≤ 1
  | _ => True

/-- A command of the session that has every field of the request. -/
def Becomes (session : Nat) (c : Command) : Request → Prop
  | .newOrder m =>
      c.kind = .new ∧ c.session = session ∧ c.tag = m.tag ∧ c.symbol = m.symbol ∧
        c.side = (if m.side = 0 then .buy else .sell) ∧ c.type = (if m.type = 0 then .limit else .market) ∧
        c.tif = (if m.tif = 0 then .gtc else .ioc) ∧ c.price = m.price ∧ c.qty = m.qty
  | .cancelOrder m => c.kind = .cancel ∧ c.session = session ∧ c.tag = m.tag ∧ c.orderId = m.orderId
  | .replaceOrder m =>
      c.kind = .replace ∧ c.session = session ∧ c.tag = m.tag ∧ c.orderId = m.orderId ∧ c.price = m.price ∧ c.qty = m.qty

theorem reply_of_enumerated (session : Nat) {r : Request} (h : r.Enumerated) :
    ∃ c, r.reply session = .submit c ∧ r.Becomes session c := by
  cases r with
  | newOrder m => exact ⟨_, if_pos h, rfl, rfl, rfl, rfl, rfl, rfl, rfl, rfl, rfl⟩
  | cancelOrder m => exact ⟨_, rfl, rfl, rfl, rfl, rfl⟩
  | replaceOrder m => exact ⟨_, rfl, rfl, rfl, rfl, rfl, rfl, rfl⟩

theorem reply_of_not_enumerated (session : Nat) {r : Request} (h : ¬ r.Enumerated) :
    r.reply session = .reject r.tag .badMessage := by
  cases r with
  | newOrder m => exact if_neg h
  | cancelOrder m => exact absurd trivial h
  | replaceOrder m => exact absurd trivial h

end Wire.Request

/-- `parse_frames` has read the request from a session that was at its end: it submits the command with these fields, or answers with a BadMessage. -/
structure Session.Takes (s : Session) (r : Request) (p : Parsed) : Prop where
  ok : p.ok = true
  rx : p.session.rx = []
  expectSeq : p.session.expectSeq = (s.expectSeq + 1) % word32
  submitted : r.Enumerated → p.session.appended = s.appended ∧ ∃ c, p.commands = [c] ∧ r.Becomes s.id c
  refused : ¬ r.Enumerated → p.session.appended = s.appended ++ [rejectFrame r.tag 8 s.outSeq] ∧ p.commands = []

theorem Session.takes_make {r : Request} (hr : r.InRange) (s : Session) (hrx : s.rx = []) (hseq : s.expectSeq < word32) :
    ∃ p, (s.receive (r.make s.expectSeq)).parseFrames = some p ∧ s.Takes r p := by
  refine ⟨_, s.parseFrames_make hr hrx hseq, rfl, rfl, rfl, fun henumerated => ?_, fun hbad => ?_⟩
  · obtain ⟨c, hreply, hbecomes⟩ := Request.reply_of_enumerated s.id henumerated
    rw [hreply]
    exact ⟨rfl, c, rfl, hbecomes⟩
  · rw [Request.reply_of_not_enumerated s.id hbad]
    refine ⟨?_, rfl⟩
    change s.appended ++ [(Message.reject r.tag .badMessage).make s.outSeq] = _
    rw [make_reject]
    rfl

/-- A subscriber that `on_readable` has accepted: it goes on from the number it asks for, or from the head if it asks for none or for one beyond, and in the latter case is told so by a Gap. -/
structure Subscriber.Begins (ring : ReplayRing) (fd first : Nat) (s : Subscriber) : Prop where
  fd : s.fd = fd
  subscribed : s.subscribed = true
  rx : s.rx = []
  nextSeq : s.nextSeq = if 1 ≤ first ∧ first ≤ (ring.head + 1) % word32 then first else (ring.head + 1) % word32
  appended : s.appended =
    if (ring.head + 1) % word32 < first then [gapFrame first ((ring.head + 1) % word32) 0] else []

theorem Subscriber.begins_start {first : Nat} (ring : ReplayRing) (fd : Nat) {rx : List UInt8} (hfirst : subscribeFrom rx = first) :
    Subscriber.Begins ring fd first (Subscriber.start { fd := fd, rx := rx } ring) := by
  have hgap : ∀ first next, (Message.gap first next).make = gapFrame first next := fun _ _ =>
    make_eq_render (by simp [Message.body])
  have hnext : (ring.head + 1) % word32 < word32 := Nat.mod_lt _ (by decide)
  rw [start]
  dsimp only
  rw [hfirst]
  by_cases hahead : (ring.head + 1) % word32 < first
  · rw [if_pos (.inr hahead), if_pos hahead]
    refine ⟨rfl, rfl, rfl, (if_neg fun h => ?_).symm, ?_⟩
    · exact absurd h.2 (Nat.not_le.2 hahead)
    · rw [if_pos hahead, ← hgap]
      rfl
  · by_cases hlive : first = 0
    · rw [if_pos (.inl hlive), if_neg hahead]
      refine ⟨rfl, rfl, rfl, (if_neg fun h => ?_).symm, (if_neg hahead).symm⟩
      omega
    · rw [if_neg (not_or.2 ⟨hlive, hahead⟩)]
      have hle : 1 ≤ first ∧ first ≤ (ring.head + 1) % word32 := by omega
      refine ⟨rfl, rfl, rfl, ?_, (if_neg hahead).symm⟩
      rw [if_pos hle]
      exact Nat.mod_eq_of_lt (hle.2.trans_lt hnext)

/-- A request as `replay.py` sends it, as `wire::make` builds it and as `parse_frames` reads it. -/
structure RequestAgrees (r : Request) (seq : Nat) : Prop where
  packed : Script.Session.request ⟨seq⟩ r = some (r.make seq, ⟨seq + 1⟩)
  header : Header.ofBytes (r.make seq) = ⟨r.type.size, r.type.code, kVersion, seq⟩
  length : (r.make seq).length = r.type.size
  read : Request.ofBytes r.type (r.make seq) = some r
  parsed : ∀ s : Session, s.rx = [] → s.expectSeq = seq →
    ∃ p, (s.receive (r.make seq)).parseFrames = some p ∧ s.Takes r p

/-- The first frame of `mdstream.py`, and what `on_readable` makes of it. -/
structure SubscribeAgrees (first : Nat) : Prop where
  packed : Script.subscribe first = some (makeSubscribe first)
  header : Header.ofBytes (makeSubscribe first) = ⟨MsgType.subscribe.size, MsgType.subscribe.code, kVersion, 0⟩
  length : (makeSubscribe first).length = MsgType.subscribe.size
  read : subscribeFrom (makeSubscribe first) = first
  accepted : ∀ ring fd, ∃ s, Subscriber.next ring [.bytes (makeSubscribe first)] { fd := fd } = some s ∧
    s.Begins ring fd first

/-- A message of the gateway, unpacked by a script. -/
structure MessageAgrees (m : Message) (seq : Nat) : Prop where
  unpacked : unpack (Script.format m.type) (m.make seq) = some (Script.headerValues m.type seq ++ m.fields)
  header : Header.ofBytes (m.make seq) = ⟨m.type.size, m.type.code, kVersion, seq⟩
  length : (m.make seq).length = m.type.size

theorem requestAgrees {r : Request} (hr : r.InRange) {seq : Nat} (hseq : seq < 2 ^ 32) : RequestAgrees r seq where
  packed := Script.Session.request_eq hr hseq
  header := r.header_make hseq
  length := r.length_make seq
  read := Request.ofBytes_make hr seq
  parsed := by
    rintro s hrx rfl
    exact s.takes_make hr hrx hseq

theorem subscribeAgrees {first : Nat} (hfirst : first < 2 ^ 64) : SubscribeAgrees first := by
  have hread : subscribeFrom (makeSubscribe first) = first :=
    (subscribeFrom_makeSubscribe first).trans (Nat.mod_eq_of_lt hfirst)
  have hlength : (makeSubscribe first).length = MsgType.subscribe.size :=
    length_makeSubscribe first
  have hheader : Header.ofBytes (makeSubscribe first) =
      ⟨MsgType.subscribe.size, MsgType.subscribe.code, kVersion, 0⟩ := by
    rw [makeSubscribe, Header.ofBytes_bytes]
    rfl
  refine ⟨Script.subscribe_eq hfirst, hheader, hlength, hread, fun ring fd => ?_⟩
  have hpos : 0 < (makeSubscribe first).length := by
    rw [hlength]
    decide
  have hrx : [] ++ received [.bytes (makeSubscribe first)] = makeSubscribe first := by
    rw [List.nil_append]
    apply received_bytes
    rw [hlength]
    decide
  have haccepts : Subscriber.accepts { fd := fd, rx := makeSubscribe first } = true := by
    apply (Subscriber.accepts_iff _).2
    refine ⟨rfl, ?_, hlength.le⟩
    rw [IsSubscribe, hheader]
    exact ⟨rfl, rfl, rfl⟩
  refine ⟨_, ?_, Subscriber.begins_start ring fd hread⟩
  rw [Subscriber.next_of_ongoing (ongoing_bytes hpos) hrx, if_neg (Nat.not_lt.2 hlength.ge), if_pos haccepts]

theorem messageAgrees {m : Message} (hm : m.InRange) {seq : Nat} (hseq : seq < 2 ^ 32) : MessageAgrees m seq where
  unpacked := Script.unpack_message hm hseq
  header := by rw [m.ofBytes_make_self, Nat.mod_eq_of_lt hseq]
  length := m.length_make seq

/-- The scripts and the gateway speak the same wire format. -/
theorem Script.agrees :
    (∀ t : MsgType, calcsize (format t) = t.size) ∧
      (∀ (r : Request) (seq : Nat), r.InRange → seq < 2 ^ 32 → RequestAgrees r seq) ∧
      (∀ first : Nat, first < 2 ^ 64 → SubscribeAgrees first) ∧
      ∀ (m : Message) (seq : Nat), m.InRange → seq < 2 ^ 32 → MessageAgrees m seq :=
  ⟨calcsize_format, fun _ _ hr hseq => requestAgrees hr hseq, fun _ hfirst => subscribeAgrees hfirst,
    fun _ _ hm hseq => messageAgrees hm hseq⟩

/-- A sell order at a negative price, which the wire carries and the engine refuses, and an empty side of the book. -/
theorem Script.agrees_negative :
    RequestAgrees (.newOrder ⟨0xdeadbeef, 3, 1, 0, 0, -5, 42⟩) 7 ∧ SubscribeAgrees 9 ∧
      MessageAgrees (.top 2 (-1) 5 0 7) 11 := by
  obtain ⟨-, hrequest, hsubscribe, hmessage⟩ := Script.agrees
  refine ⟨hrequest _ 7 ?_ (by decide), hsubscribe 9 (by decide), hmessage _ 11 ?_ (by decide)⟩
  · simp [Request.InRange]
  · simp [Message.InRange]

end Matchbox
