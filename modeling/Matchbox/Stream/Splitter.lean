import Matchbox.Stream.RunMd
import Matchbox.Wire.Python

/-!
# What the frame loops do

The callbacks of `for_each_frame` read as many bytes as the struct of the type has, and the scripts unpack a frame by the format of its type. Nothing in the loops sees to it that the bytes are there.

`frame_loops` says on which buffers a loop does what it is for, and that it does on every stream of well-formed frames, however it arrives. On other buffers it may run for ever or read outside the buffer (`frame_loops_unchecked`).
-/

namespace Matchbox

open Wire Framing Struct LittleEndian

variable {σ : Type}

/-! ### mdstream.py -/

namespace MdStream

/-- What `unpack` wants of a frame. A quiet client does not unpack data. -/
def Fits (quiet : Bool) (type : Nat) (frame : List UInt8) : Prop :=
  (type = MsgType.heartbeat.code → frame.length = MsgType.heartbeat.size) ∧
    (type = MsgType.gap.code → frame.length = MsgType.gap.size) ∧
    (quiet = false → (type = MsgType.trade.code → frame.length = MsgType.trade.size) ∧
      (type = MsgType.top.code → frame.length = MsgType.top.size))

theorem handle_of_fits {c : MdStream} {type : Nat} {frame : List UInt8} (h : Fits c.quiet type frame) (seq : Nat) :
    ∃ c', c.handle type seq frame = some c' ∧ c'.quiet = c.quiet := by
  obtain ⟨hheartbeat, hgap, hdata⟩ := h
  rw [handle]
  split
  · rw [if_pos (hheartbeat ‹_›)]
    exact ⟨_, rfl, rfl⟩
  · split
    · rw [if_pos (hgap ‹_›)]
      exact ⟨_, rfl, rfl⟩
    · rw [if_neg fun hbad => hbad.2.2 ((hdata hbad.1).1 hbad.2.1), if_neg fun hbad => hbad.2.2 ((hdata hbad.1).2 hbad.2.1)]
      refine ⟨_, rfl, ?_⟩
      rw [onData]
      split <;> rfl

theorem handles (quiet : Bool) :
    framing.Handles (Script.onFront handle) (Fits quiet) fun c => c.quiet = quiet := by
  rintro c bytes n rfl hfront hfits
  obtain ⟨-, -, rfl⟩ := front?_eq_some.1 hfront
  exact handle_of_fits hfits _

end MdStream

/-! ### replay.py -/

namespace Script

/-- `REASONS`. -/
def reasons : List String :=
  ["none", "bad_symbol", "bad_price", "bad_qty", "book_full", "unknown_order", "not_owner", "bad_seq", "bad_message"]

/-- `Session` of `replay.py`, as far as receiving is concerned too. -/
structure Receiver extends Session where
  /-- Tag to order identifier, from Ack. -/
  ids : Int → Option Int := fun _ => none

namespace Receiver

/-- `handle`, up to its printing; `none` is an exception. -/
def handle (s : Receiver) (mtype : Nat) (_seq : Nat) (frame : List UInt8) : Option Receiver :=
  if mtype = typeCode .ack then
    match unpack (format .ack) frame with
    | some [_, _, _, _, tag, oid] => some { s with ids := Function.update s.ids tag (some oid) }
    | _ => none
  else if mtype = typeCode .reject then
    match unpack (format .reject) frame with
    | some [_, _, _, _, _, reason] => reasons[reason.toNat]?.map fun _ => s
    | _ => none
  else if mtype = typeCode .fill then (unpack (format .fill) frame).map fun _ => s
  else if mtype = typeCode .cancelled then (unpack (format .cancelled) frame).map fun _ => s
  else if mtype = typeCode .replaced then (unpack (format .replaced) frame).map fun _ => s
  else some s

/-- What `unpack` wants of a frame, and that a reason has a name. -/
def Fits (type : Nat) (frame : List UInt8) : Prop :=
  (∀ t ∈ [MsgType.ack, .reject, .fill, .cancelled, .replaced], type = t.code → frame.length = t.size) ∧
    (type = MsgType.reject.code → field frame 16 1 < reasons.length)

theorem handle_of_fits (s : Receiver) {type : Nat} {frame : List UInt8} (h : Fits type frame) (seq : Nat) :
    ∃ s', s.handle type seq frame = some s' := by
  obtain ⟨hsize, hreason⟩ := h
  have hunpack : ∀ t ∈ [MsgType.ack, .reject, .fill, .cancelled, .replaced], type = typeCode t →
      unpack (format t) frame = some (values (format t) frame) := by
    intro t ht htype
    rw [typeCode_eq] at htype
    rw [unpack, calcsize_format, if_pos (hsize t ht htype)]
  rw [handle]
  split
  · rw [hunpack .ack (by simp) ‹_›]
    exact ⟨_, rfl⟩
  · split
    · rename_i htype
      rw [hunpack .reject (by simp) htype]
      have hlt := hreason (htype.trans (typeCode_eq .reject))
      refine ⟨s, ?_⟩
      simp only [format, values, List.drop_drop]
      show reasons[(field frame 16 1 : Int).toNat]?.map (fun _ => s) = some s
      rw [Int.toNat_natCast, List.getElem?_eq_getElem hlt]
      rfl
    · split
      · rw [hunpack .fill (by simp) ‹_›]
        exact ⟨_, rfl⟩
      · split
        · rw [hunpack .cancelled (by simp) ‹_›]
          exact ⟨_, rfl⟩
        · split
          · rw [hunpack .replaced (by simp) ‹_›]
            exact ⟨_, rfl⟩
          · exact ⟨_, rfl⟩

theorem handles : framing.Handles (onFront handle) Fits fun _ => True := by
  intro s bytes n _ hfront hfits
  obtain ⟨-, -, rfl⟩ := front?_eq_some.1 hfront
  obtain ⟨s', hs'⟩ := s.handle_of_fits hfits (Header.ofBytes bytes).seq
  exact ⟨s', hs', trivial⟩

end Receiver

end Script

/-! ### What the loops do -/

/-- The loops end with what has arrived split into frames, none shorter than what is read of it, and the beginning of a frame exactly on the buffers that can be split so; on a stream of such frames they always do, however it is cut into chunks. -/
theorem frame_loops (cb : Callback σ) (quiet : Bool) :
    framing.Splitter (fun fuel rx s => forEachFrame cb fuel rx 0 s) cb.Fits (fun _ => True) ∧
    framing.Splitter (Script.frameLoop MdStream.handle) (MdStream.Fits quiet) (fun c => c.quiet = quiet) ∧
    framing.Splitter (Script.frameLoop Script.Receiver.handle) Script.Receiver.Fits fun _ => True := by
  have hscript : ∀ {σ : Type} (handle : σ → Nat → Nat → List UInt8 → Option σ),
      Script.frameLoop handle = fun fuel bytes s => framing.walk (Script.onFront handle) fuel s bytes := by
    intro σ handle
    funext fuel bytes s
    exact Script.frameLoop_eq handle fuel bytes s
  refine ⟨?_, ?_, ?_⟩
  · have hloop : (fun fuel rx s => forEachFrame cb fuel rx 0 s) = fun fuel bytes s => framing.walk cb.handle fuel s bytes := by
      funext fuel rx s
      exact cb.forEachFrame_eq fuel (Nat.zero_le _) s
    rw [hloop]
    exact cb.handles.splitter
  · rw [hscript]
    exact (MdStream.handles quiet).splitter
  · rw [hscript]
    exact Script.Receiver.handles.splitter

/-- Two frames that arrive in three pieces, none of which ends where a frame does. -/
theorem frame_loops_cut :
    let frames := [(Message.top 0 10 (-1) 5 0).make 1, (Message.heartbeat 7 1).make 0]
    let chunks := [frames.flatten.take 30, (frames.flatten.drop 30).take 20, frames.flatten.drop 50]
    let loop := fun c bytes => forEachFrame (MdClient.callback false) (bytes.length + 1) bytes 0 c
    ∃ c : MdClient, feed loop { fromSeq := 1 } [] chunks = .returned c [(33, frames[0]), (34, frames[1])] [] := by
  intro frames chunks loop
  have hframes : ∀ f ∈ frames, framing.IsFrame f ∧ (MdClient.callback false).Fits (framing.tag f) f := by
    refine List.forall_mem_cons.2 ⟨⟨isFrame_make _ _, ?_⟩, List.forall_mem_singleton.2 ⟨isFrame_make _ _, ?_⟩⟩ <;>
      exact Nat.le_of_ble_eq_true rfl
  exact (frame_loops (MdClient.callback false) true).1.feeds trivial hframes rfl

/-- A header of zeros says that the frame has no bytes: every loop takes it again and again. A header that says it is a Heartbeat of eight bytes makes `run_md` read behind the buffer. -/
theorem frame_loops_unchecked :
    (∀ fuel, forEachFrame (MdClient.callback false) fuel (List.replicate 8 0) 0 { fromSeq := 0 } = .running) ∧
    (∀ fuel, Script.frameLoop MdStream.handle fuel (List.replicate 8 0) { nextSeq := 0 } = .running) ∧
    (∀ fuel, Script.frameLoop Script.Receiver.handle fuel (List.replicate 8 0) {} = .running) ∧
    forEachFrame (MdClient.callback false) 1 [8, 0, 34, 1, 0, 0, 0, 0] 0 { fromSeq := 0 } = .failed := by
  have hfront : framing.front? (List.replicate 8 0) = some 0 := by decide
  refine ⟨fun fuel => ?_, fun fuel => ?_, fun fuel => ?_, rfl⟩
  · rw [Callback.forEachFrame_eq _ fuel (Nat.zero_le _)]
    refine walk_running hfront (fun c => ?_) fuel _
    exact ⟨c.onFrame (List.replicate 8 0), rfl⟩
  · rw [Script.frameLoop_eq]
    refine walk_running hfront (fun c => ?_) fuel _
    have hfits : MdStream.Fits c.quiet (framing.tag (List.replicate 8 0)) ((List.replicate 8 0).take 0) :=
      ⟨fun h => absurd h (by decide), fun h => absurd h (by decide),
        fun _ => ⟨fun h => absurd h (by decide), fun h => absurd h (by decide)⟩⟩
    obtain ⟨c', hhandle, -⟩ := MdStream.handles c.quiet rfl hfront hfits
    exact ⟨c', hhandle⟩
  · rw [Script.frameLoop_eq]
    exact walk_running hfront (fun s => ⟨s, rfl⟩) fuel _

end Matchbox
