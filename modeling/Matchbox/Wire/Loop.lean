import Matchbox.Lib.Framing
import Matchbox.Lib.Struct
import Matchbox.Wire.Message

/-!
# The frame loops of the clients

`for_each_frame` of `main_client.cpp`, and the loop that `mdstream.py` and `replay.py` both have, cut what has arrived into frames. They believe the length field: they ask only whether that many bytes are there. What is done with a frame is a parameter of both, and both are `Framing.walk`.
-/

namespace Matchbox

open Wire Framing Struct

variable {σ : Type}

namespace Wire

/-- The frames of the protocol. The tag of a frame is its type. -/
def framing : Framing UInt8 Nat where
  header := headerSize
  header_pos := by decide
  len := fun p => (Header.ofBytes p).len
  tag := fun p => (Header.ofBytes p).type
  len_append := fun back h => by rw [Header.ofBytes_append back h]
  tag_append := fun back h => by rw [Header.ofBytes_append back h]

theorem isFrame_make (m : Message) (seq : Nat) : framing.IsFrame (m.make seq) := by
  have hheader : Header.ofBytes (m.make seq) = m.header (seq % word32) := m.ofBytes_make_self seq
  refine ⟨?_, ?_⟩
  · rw [m.length_make]
    exact m.type.headerSize_lt.le
  · change (Header.ofBytes (m.make seq)).len = _
    rw [hheader, m.length_make]
    rfl

/-! ### for_each_frame -/

/-- The function that `for_each_frame` calls with a type and a pointer. -/
structure Callback (σ : Type) where
  /-- How many bytes it reads at the pointer, for a type. -/
  reads : Nat → Nat
  /-- What it does with them. -/
  act : σ → Nat → List UInt8 → σ

def forEachFrame (cb : Callback σ) : Nat → List UInt8 → Nat → σ → Walked UInt8 Nat σ
  | 0, _, _, _ => .running
  | fuel + 1, rx, off, s =>
      match remaining rx off with
      | none => .failed
      | some left =>
          if left < headerSize then .returned s [] (rx.drop off)
          else
            match readHeader rx off with
            | none => .failed
            | some h =>
                if left < h.len then .returned s [] (rx.drop off)
                else
                  match bytesAt rx off (cb.reads h.type) with
                  | none => .failed
                  | some p =>
                      (forEachFrame cb fuel rx (off + h.len) (cb.act s h.type p)).after
                        [(h.type, (rx.drop off).take h.len)]

namespace Callback

variable (cb : Callback σ)

/-- A frame of this type has the bytes that are read. -/
def Fits (type : Nat) (frame : List UInt8) : Prop := cb.reads type ≤ frame.length

/-- One call, on everything from the pointer on. -/
def handle (s : σ) (bytes : List UInt8) : Option σ :=
  (bytesAt bytes 0 (cb.reads (Header.ofBytes bytes).type)).map (cb.act s (Header.ofBytes bytes).type)

theorem handles : framing.Handles cb.handle cb.Fits fun _ => True := by
  intro s bytes n _ hfront hfits
  have hroom : cb.reads (Header.ofBytes bytes).type ≤ bytes.length := hfits.trans (List.length_take_le' n bytes)
  rw [handle, bytesAt_eq (Nat.zero_le _) hroom]
  exact ⟨_, rfl, trivial⟩

theorem handle_append {f : List UInt8} (hf : framing.IsFrame f) (hfits : cb.Fits (Header.ofBytes f).type f) (s : σ)
    (back : List UInt8) :
    cb.handle s (f ++ back) =
      some (cb.act s (Header.ofBytes f).type (f.take (cb.reads (Header.ofBytes f).type))) := by
  have hroom : cb.reads (Header.ofBytes f).type ≤ (f ++ back).length := by
    rw [List.length_append]
    exact hfits.trans (Nat.le_add_right _ _)
  rw [handle, Header.ofBytes_append back hf.1, bytesAt_eq (Nat.zero_le _) hroom, List.drop_zero,
    List.take_append_of_le_length hfits]
  rfl

theorem forEachFrame_eq (fuel : Nat) {rx : List UInt8} {off : Nat} (hoff : off ≤ rx.length) (s : σ) :
    forEachFrame cb fuel rx off s = framing.walk cb.handle fuel s (rx.drop off) := by
  induction fuel generalizing off s with
  | zero => rfl
  | succ fuel ih =>
      rw [forEachFrame, remaining_eq hoff, walk]
      dsimp only
      by_cases hheader : (rx.drop off).length < headerSize
      · have hfront : framing.front? (rx.drop off) = none := if_pos hheader
        rw [if_pos hheader, hfront]
      · rw [if_neg hheader, readHeader_eq hoff (Nat.not_lt.1 hheader)]
        dsimp only
        by_cases hlen : (rx.drop off).length < (Header.ofBytes (rx.drop off)).len
        · have hfront : framing.front? (rx.drop off) = none := (if_neg hheader).trans (if_pos hlen)
          rw [if_pos hlen, hfront]
        · have hfront : framing.front? (rx.drop off) = some (Header.ofBytes (rx.drop off)).len :=
            (if_neg hheader).trans (if_neg hlen)
          rw [if_neg hlen, hfront, handle]
          dsimp only
          have hread : bytesAt rx off (cb.reads (Header.ofBytes (rx.drop off)).type) =
              bytesAt (rx.drop off) 0 (cb.reads (Header.ofBytes (rx.drop off)).type) := by
            rw [bytesAt, bytesAt, List.length_drop, List.drop_zero]
            exact if_congr (by omega) rfl rfl
          rw [hread]
          cases bytesAt (rx.drop off) 0 (cb.reads (Header.ofBytes (rx.drop off)).type) with
          | none => rfl
          | some p =>
              have hnext : off + (Header.ofBytes (rx.drop off)).len ≤ rx.length := by
                rw [List.length_drop] at hlen
                omega
              rw [Option.map_some]
              dsimp only
              rw [ih hnext, List.drop_drop]
              rfl

end Callback

end Wire

/-! ### The loop of the scripts -/

namespace Script

open Code

/-- `HDR`. -/
def hdr : List Code := [H, B, B, I]

/-- The loop over the frames in `buf`. Both scripts have it, with a `handle` of their own. -/
def frameLoop (handle : σ → Nat → Nat → List UInt8 → Option σ) : Nat → List UInt8 → σ → Walked UInt8 Nat σ
  | 0, _, _ => .running
  | fuel + 1, buf, s =>
      if buf.length < calcsize hdr then .returned s [] buf
      else
        let h := Header.ofBytes buf
        if buf.length < h.len then .returned s [] buf
        else
          match handle s h.type h.seq (buf.take h.len) with
          | none => .failed
          | some s' => (frameLoop handle fuel (buf.drop h.len) s').after [(h.type, buf.take h.len)]

/-- One call of `handle`. -/
def onFront (handle : σ → Nat → Nat → List UInt8 → Option σ) (s : σ) (bytes : List UInt8) : Option σ :=
  handle s (Header.ofBytes bytes).type (Header.ofBytes bytes).seq (bytes.take (Header.ofBytes bytes).len)

theorem onFront_append (handle : σ → Nat → Nat → List UInt8 → Option σ) {f : List UInt8} (hf : framing.IsFrame f) (s : σ)
    (back : List UInt8) : onFront handle s (f ++ back) = handle s (Header.ofBytes f).type (Header.ofBytes f).seq f := by
  have hlen : (Header.ofBytes f).len = f.length := hf.2
  rw [onFront, Header.ofBytes_append back hf.1, hlen, List.take_left]

theorem frameLoop_eq (handle : σ → Nat → Nat → List UInt8 → Option σ) (fuel : Nat) (buf : List UInt8) (s : σ) :
    frameLoop handle fuel buf s = framing.walk (onFront handle) fuel s buf := by
  induction fuel generalizing buf s with
  | zero => rfl
  | succ fuel ih =>
      rw [frameLoop, walk]
      dsimp only
      by_cases hheader : buf.length < headerSize
      · have hfront : framing.front? buf = none := if_pos hheader
        rw [hfront]
        exact if_pos hheader
      · by_cases hlen : buf.length < (Header.ofBytes buf).len
        · have hfront : framing.front? buf = none := (if_neg hheader).trans (if_pos hlen)
          rw [hfront]
          exact (if_neg hheader).trans (if_pos hlen)
        · have hfront : framing.front? buf = some (Header.ofBytes buf).len := (if_neg hheader).trans (if_neg hlen)
          rw [hfront]
          refine ((if_neg hheader).trans (if_neg hlen)).trans ?_
          dsimp only [onFront]
          cases handle s (Header.ofBytes buf).type (Header.ofBytes buf).seq (buf.take (Header.ofBytes buf).len) with
          | none => rfl
          | some s' =>
              dsimp only
              rw [ih]
              rfl

end Script

end Matchbox
