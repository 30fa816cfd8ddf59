import Matchbox.Stream.ReplayRing
import Matchbox.Wire.Loop

/-!
# The two market-data clients

`Stream` of `mdstream.py` and the frame handler of `run_md` in `main_client.cpp`. Both dispatch on the type byte, count what a Gap says is lost and look at the sequence numbers of all other frames. The numbers of the one are Python integers, those of the other machine words.

A control frame carries the sequence number zero; the frames of the stream are numbered from one on.
-/

namespace Matchbox

open Wire LittleEndian

namespace Wire

structure Gap where
  /-- `from`. -/
  first : Nat
  resumedAt : Nat
deriving DecidableEq, Repr

structure Heartbeat where
  tsNs : Nat
  headSeq : Nat
deriving DecidableEq, Repr

def Gap.ofBytes (p : List UInt8) : Gap := ⟨field p 8 8, field p 16 8⟩

def Heartbeat.ofBytes (p : List UInt8) : Heartbeat := ⟨field p 8 8, field p 16 8⟩

/-- A control frame of this type. -/
def IsControl (t : MsgType) (frame : List UInt8) : Prop :=
  (Header.ofBytes frame).type = t.code ∧ (Header.ofBytes frame).seq = 0

instance (t : MsgType) (frame : List UInt8) : Decidable (IsControl t frame) :=
  inferInstanceAs (Decidable (_ ∧ _))

end Wire

/-! ### mdstream.py -/

/-- `Stream`, as far as frames are concerned. -/
structure MdStream where
  /-- Next sequence number, zero for live. -/
  nextSeq : Nat
  quiet : Bool := true
  frames : Nat := 0
  gaps : Nat := 0
  lost : Int := 0
  heartbeats : Nat := 0
  buf : List UInt8 := []
  /-- Ghost: the sequence numbers of the data frames passed to `handle`. No code reads it. -/
  handled : List Nat := []
  /-- Ghost: the Gap intervals received. No code reads it. -/
  holes : List (Nat × Nat) := []
  /-- Ghost: how often the SEQ JUMP branch was taken. No code reads it. -/
  jumps : Nat := 0

namespace MdStream

/-- The data branch of `handle`, up to its printing. -/
def onData (c : MdStream) (seq : Nat) : MdStream :=
  let c :=
    if c.nextSeq ≠ 0 ∧ seq ≠ c.nextSeq then
      { c with gaps := c.gaps + 1, lost := c.lost + ((seq : Int) - c.nextSeq), jumps := c.jumps + 1 }
    else c
  { c with nextSeq := seq + 1, frames := c.frames + 1, handled := c.handled ++ [seq] }

/-- `handle`; `unpack` raises an exception on a frame of another size. -/
def handle (c : MdStream) (mtype seq : Nat) (frame : List UInt8) : Option MdStream :=
  if mtype = MsgType.heartbeat.code then
    if frame.length = MsgType.heartbeat.size then
      some { c with
        heartbeats := c.heartbeats + 1
        nextSeq := max c.nextSeq ((Heartbeat.ofBytes frame).headSeq + 1) }
    else none
  else if mtype = MsgType.gap.code then
    if frame.length = MsgType.gap.size then
      let g := Gap.ofBytes frame
      some { c with
        gaps := c.gaps + 1
        lost := c.lost + ((g.resumedAt : Int) - g.first)
        nextSeq := g.resumedAt
        holes := c.holes ++ [(g.first, g.resumedAt)] }
    else none
  else if c.quiet = false ∧ mtype = MsgType.trade.code ∧ frame.length ≠ MsgType.trade.size then none
  else if c.quiet = false ∧ mtype = MsgType.top.code ∧ frame.length ≠ MsgType.top.size then none
  else some (c.onData seq)

/-- What `run` does with a chunk. It answers `none` for an exception, and when a length of zero keeps the loop from ending. -/
def receive (c : MdStream) (chunk : List UInt8) : Option MdStream :=
  let buf := c.buf ++ chunk
  match Script.frameLoop handle (buf.length + 1) buf c with
  | .returned c' _ rest => some { c' with buf := rest }
  | .failed => none
  | .running => none

/-- The frame that `connect` sends. -/
def subscribeFrame (c : MdStream) : List UInt8 :=
  Header.bytes ⟨MsgType.subscribe.size, MsgType.subscribe.code, kVersion, 0⟩ ++ encode 8 c.nextSeq

end MdStream

/-! ### run_md -/

/-- The counters of `run_md`. -/
structure RunMd where
  lastSeq : Nat := 0
  frames : Nat := 0
  gaps : Nat := 0
  lost : Nat := 0
  heartbeats : Nat := 0
deriving DecidableEq, Repr

/-- The wrap of a 64-bit counter. -/
def wrap64 (n : Nat) : Nat := n % 2 ^ 64

namespace RunMd

/-- What `run_md` does with a frame. -/
def onFrame (c : RunMd) (frame : List UInt8) : RunMd :=
  let h := Header.ofBytes frame
  if h.type = MsgType.heartbeat.code then
    { c with
      heartbeats := wrap64 (c.heartbeats + 1)
      lastSeq := max c.lastSeq ((Heartbeat.ofBytes frame).headSeq % word32) }
  else if h.type = MsgType.gap.code then
    let g := Gap.ofBytes frame
    { c with
      gaps := wrap64 (c.gaps + 1)
      lost := wrap64 (c.lost + wrap64 (g.resumedAt + 2 ^ 64 - g.first))
      lastSeq := wrap64 (g.resumedAt + 2 ^ 64 - 1) % word32 }
  else
    let c :=
      if c.lastSeq ≠ 0 ∧ h.seq ≠ (c.lastSeq + 1) % word32 then
        { c with
          gaps := wrap64 (c.gaps + 1)
          lost := wrap64 (c.lost + (h.seq + 2 * word32 - c.lastSeq - 1) % word32) }
      else c
    { c with lastSeq := h.seq, frames := wrap64 (c.frames + 1) }

end RunMd

/-! ### Reading what the publisher writes -/

namespace Wire

/-- Whether a message is data: all but the two kinds that the publisher makes itself. -/
def Message.isData : Message → Bool
  | .heartbeat .. | .gap .. => false
  | _ => true

variable (m : Message) (seq : Nat) (back : List UInt8)

theorem Message.not_isControl_make {seq : Nat} (hpos : 0 < seq) (hlt : seq < word32) (t : MsgType) :
    ¬ IsControl t (m.make seq) := by
  intro h
  have hzero := h.2
  rw [m.ofBytes_make_self, Nat.mod_eq_of_lt hlt] at hzero
  exact Nat.ne_of_gt hpos hzero

theorem Message.isControl_make (t : MsgType) : IsControl t (m.make 0) ↔ m.type = t := by
  rw [IsControl, m.ofBytes_make_self]
  refine ⟨fun h => ?_, fun h => by rw [h]; exact ⟨rfl, rfl⟩⟩
  have hcode := congrArg MsgType.ofCode h.1
  rw [MsgType.ofCode_code, MsgType.ofCode_code, Option.some.injEq] at hcode
  exact hcode

theorem field_two (header : List UInt8) (hlength : header.length = 8) (a b : Nat) :
    field (header ++ (encode 8 a ++ encode 8 b)) 8 8 = a % 2 ^ 64 ∧
      field (header ++ (encode 8 a ++ encode 8 b)) 16 8 = b % 2 ^ 64 := by
  constructor
  · have hskip := field_append_right header (encode 8 a ++ encode 8 b) 0 8
    rw [hlength, Nat.add_zero, field_encode] at hskip
    exact hskip
  · have hskip := field_append_right header (encode 8 a ++ (encode 8 b ++ [])) 8 8
    rw [hlength, field_skip 8 a _ 8 le_rfl, Nat.sub_self, field_encode, List.append_nil] at hskip
    exact hskip

theorem Gap.ofBytes_make (a b : Nat) : Gap.ofBytes ((Message.gap a b).make seq) = ⟨a % 2 ^ 64, b % 2 ^ 64⟩ := by
  obtain ⟨hfirst, hresumed⟩ := field_two ((Message.gap a b).header seq).bytes (Header.length_bytes _) a b
  rw [Gap.ofBytes, Message.make, Message.body, hfirst, hresumed]

theorem Heartbeat.ofBytes_make (a b : Nat) :
    Heartbeat.ofBytes ((Message.heartbeat a b).make seq) = ⟨a % 2 ^ 64, b % 2 ^ 64⟩ := by
  obtain ⟨hts, hhead⟩ := field_two ((Message.heartbeat a b).header seq).bytes (Header.length_bytes _) a b
  rw [Heartbeat.ofBytes, Message.make, Message.body, hts, hhead]

end Wire

namespace MdStream

theorem handle_heartbeat (c : MdStream) (ts i : Nat) :
    c.handle MsgType.heartbeat.code 0 ((Message.heartbeat ts i).make 0) =
      some { c with heartbeats := c.heartbeats + 1, nextSeq := max c.nextSeq (i % 2 ^ 64 + 1) } := by
  have hlength : ((Message.heartbeat ts i).make 0).length = MsgType.heartbeat.size := Message.length_make _ _
  rw [MdStream.handle, if_pos rfl, if_pos hlength, Heartbeat.ofBytes_make]

theorem handle_gap (c : MdStream) (a b : Nat) :
    c.handle MsgType.gap.code 0 ((Message.gap a b).make 0) =
      some { c with
        gaps := c.gaps + 1
        lost := c.lost + (((b % 2 ^ 64 : Nat) : Int) - (a % 2 ^ 64 : Nat))
        nextSeq := b % 2 ^ 64
        holes := c.holes ++ [(a % 2 ^ 64, b % 2 ^ 64)] } := by
  have hne : ¬ MsgType.gap.code = MsgType.heartbeat.code := by decide
  have hlength : ((Message.gap a b).make 0).length = MsgType.gap.size := Message.length_make _ _
  rw [MdStream.handle, if_neg hne, if_pos rfl, if_pos hlength, Gap.ofBytes_make]

/-- Data is never taken for a control frame and has the size that `unpack` wants. -/
theorem handle_data (c : MdStream) {m : Message} (hm : m.isData = true) (seq n : Nat) :
    c.handle m.type.code seq (m.make n) = some (c.onData seq) := by
  have htype : ∀ t : MsgType, m.type.code = t.code → m.type = t := by
    intro t ht
    apply Option.some.inj
    rw [← MsgType.ofCode_code, ht, MsgType.ofCode_code]
  have hcontrol : m.type ≠ .heartbeat ∧ m.type ≠ .gap := by
    cases m <;> simp [Message.isData, Message.type] at hm ⊢
  have hsize : ∀ t : MsgType, m.type.code = t.code → (m.make n).length = t.size := by
    intro t ht
    rw [m.length_make, htype t ht]
  rw [MdStream.handle, if_neg fun hcode => hcontrol.1 (htype _ hcode), if_neg fun hcode => hcontrol.2 (htype _ hcode),
    if_neg fun hbad => hbad.2.2 (hsize _ hbad.2.1), if_neg fun hbad => hbad.2.2 (hsize _ hbad.2.1)]

end MdStream

end Matchbox
