import Matchbox.Gateway.Tended

/-!
# The leading frames of a stream

The frames that `parse_frames` finds in a stream are determined by the stream: a header says where its frame ends, and a further frame with the expected number is there or it is not. So one can say which orders a stream holds, and where each of them ends, without running the loop. `unparsed_iff` compares a stream with a stream whose last bytes are never parsed.
-/

namespace Matchbox

open Wire LittleEndian Resumable

namespace Wire

/-- Complete frames with consecutive sequence numbers. -/
def InSequence (seq : Nat) (frames : List (List UInt8)) : Prop :=
  ∀ i f, frames[i]? = some f → IsFrame f ∧ (Header.ofBytes f).seq = (seq + i) % word32

variable {session seq : Nat} {frames frames' : List (List UInt8)} {f g rest rest' : List UInt8}

theorem InSequence.tail (h : InSequence seq (f :: frames)) : InSequence (seq + 1) frames := by
  intro i g hg
  rw [Nat.add_assoc, Nat.add_comm 1 i]
  exact h (i + 1) g hg

theorem InSequence.of_isPrefix (h : InSequence seq frames) (hpre : frames' <+: frames) : InSequence seq frames' := by
  intro i f hf
  obtain ⟨more, rfl⟩ := hpre
  obtain ⟨hlt, -⟩ := List.getElem?_eq_some_iff.1 hf
  apply h i f
  rw [List.getElem?_append_left hlt, hf]

theorem IsFrame.eq_of_append_eq (hf : IsFrame f) (hg : IsFrame g) (h : f ++ rest = g ++ rest') : f = g := by
  have hheader : Header.ofBytes f = Header.ofBytes g := by
    rw [← Header.ofBytes_append rest hf.header, h, Header.ofBytes_append rest' hg.header]
  have hlength : f.length = g.length := by rw [hf.length, hg.length, hheader]
  exact (List.append_inj h hlength).1

/-- Where the loop ends there is no further frame with the expected number. -/
theorem Ending.not_isFrame {alive : Bool} {last : List Reply} (h : Ending seq (f ++ rest) alive last) (hf : IsFrame f) :
    (Header.ofBytes f).seq ≠ seq := by
  have hheader := Header.ofBytes_append rest hf.header
  have hlong : (Header.ofBytes f).len ≤ (f ++ rest).length := by
    rw [List.length_append, ← hf.length]
    omega
  have hheaderSize := hf.header
  cases h with
  | short h =>
      rw [List.length_append] at h
      omega
  | waiting _ _ hlen =>
      rw [hheader] at hlen
      omega
  | malformed _ hok =>
      rw [hheader, hf.ok] at hok
      cases hok
  | wrongSeq _ _ _ hseq =>
      rw [hheader] at hseq
      exact hseq

/-- Up to there the frames of a stream are determined. -/
theorem InSequence.isPrefix {alive : Bool} {last : List Reply} (h : InSequence seq frames) (h' : InSequence seq frames')
    (hending : Ending ((seq + frames.length) % word32) rest alive last)
    (hstream : frames.flatten ++ rest = frames'.flatten ++ rest') : frames' <+: frames := by
  induction frames' generalizing seq frames with
  | nil => exact List.nil_prefix
  | cons g frames' ih =>
      obtain ⟨hg, hgseq⟩ := h' 0 g rfl
      cases frames with
      | nil =>
          rw [List.flatten_nil, List.nil_append, List.flatten_cons, List.append_assoc] at hstream
          rw [hstream] at hending
          exact absurd hgseq (hending.not_isFrame hg)
      | cons f frames =>
          rw [List.flatten_cons, List.flatten_cons, List.append_assoc, List.append_assoc] at hstream
          obtain rfl := (h 0 f rfl).1.eq_of_append_eq hg hstream
          rw [List.append_cancel_left_eq] at hstream
          rw [List.length_cons, Nat.add_comm frames.length, ← Nat.add_assoc] at hending
          exact (List.prefix_cons_inj f).2 (ih h.tail h'.tail hending hstream)

/-! ### One meaning -/

theorem IsFrame.nextFrame_eq (hf : IsFrame f) (back : List UInt8) (session : Nat) :
    nextFrame session (Header.ofBytes f).seq (f ++ back) =
      .item (((Header.ofBytes f).seq + 1) % word32) (frameReply session f) f.length := by
  have hheader := Header.ofBytes_append back hf.header
  have hlong : f.length ≤ (f ++ back).length := by
    rw [List.length_append]
    omega
  have hlooked : Looked session (Header.ofBytes f).seq (f ++ back) _ :=
    .item (hf.header.trans hlong) (by rw [hheader]; exact hf.ok) (by rw [hheader, ← hf.length]; exact hlong)
      (by rw [hheader])
  rw [hlooked.eq, hheader, ← hf.length, List.take_left]

theorem Stops.parse {alive : Bool} {last : List Rendering} (h : Stops seq rest alive last) (session : Nat) :
    ∃ outs, Parse (nextFrame session) seq rest outs seq rest alive ∧ outs.filterMap Reply.command? = [] ∧
      (outs.filterMap Reply.message?).map Message.make = last := by
  cases h with
  | short h => exact ⟨[], .more (Looked.eq (.short h)), rfl, rfl⟩
  | incomplete h hlen =>
      obtain ⟨hheader, hok⟩ := headed_iff.1 h
      exact ⟨[], .more (Looked.eq (.waiting hheader hok hlen)), rfl, rfl⟩
  | malformed h hbad =>
      have hok : (Header.ofBytes rest).ok = false := by
        rw [← Bool.not_eq_true]
        exact fun hok => hbad (headed_iff.2 ⟨h, hok⟩)
      exact ⟨[], .stop (Looked.eq (.malformed h hok)), rfl, rfl⟩
  | wrongSeq h hlen hseq =>
      obtain ⟨hheader, hok⟩ := headed_iff.1 h
      refine ⟨[.reject 0 .badSeq], .stop (Looked.eq (.wrongSeq hheader hok hlen hseq)), rfl, ?_⟩
      exact congrArg (fun f => [f]) (make_reject 0 .badSeq)

theorem InSequence.parse {outs : List Reply} {alive : Bool} (h : InSequence seq frames) (hseq : seq < word32)
    (hrest : Parse (nextFrame session) ((seq + frames.length) % word32) rest outs ((seq + frames.length) % word32) rest' alive) :
    Parse (nextFrame session) seq (frames.flatten ++ rest) (frames.map (frameReply session) ++ outs)
      ((seq + frames.length) % word32) rest' alive := by
  induction frames generalizing seq with
  | nil =>
      rw [List.length_nil, Nat.add_zero, Nat.mod_eq_of_lt hseq] at hrest ⊢
      exact hrest
  | cons f frames ih =>
      obtain ⟨hf, hfirst⟩ := h 0 f rfl
      rw [Nat.add_zero, Nat.mod_eq_of_lt hseq] at hfirst
      have hnext := hf.nextFrame_eq (frames.flatten ++ rest) session
      rw [hfirst] at hnext
      have hshift : ((seq + 1) % word32 + frames.length) % word32 = (seq + (f :: frames).length) % word32 := by
        rw [Nat.mod_add_mod, List.length_cons, Nat.add_assoc, Nat.add_comm 1]
      rw [List.flatten_cons, List.append_assoc]
      refine .item hnext ?_
      rw [List.drop_left, ← hshift]
      refine ih (fun i g hg => ?_) (Nat.mod_lt _ (by decide)) (by rw [hshift]; exact hrest)
      rw [Nat.mod_add_mod]
      exact h.tail i g hg

/-- What a stream means is what the loop finds in it. -/
theorem means_iff {stream : List UInt8} {commands : List Command} {rejects : List Rendering} {alive : Bool} :
    Means session stream commands rejects alive ↔
      ∃ outs seq' rest, Parse (nextFrame session) 1 stream outs seq' rest alive ∧
        outs.filterMap Reply.command? = commands ∧ (outs.filterMap Reply.message?).map Message.make = rejects := by
  constructor
  · rintro ⟨frames, rest, last, rfl, hframes, hstops, rfl, rfl⟩
    have hsequence : InSequence 1 frames := by
      intro i f hf
      obtain ⟨hheaded, hlength, hseq⟩ := hframes i f hf
      obtain ⟨hheader, hok⟩ := headed_iff.1 hheaded
      exact ⟨⟨hheader, hok, hlength⟩, hseq⟩
    obtain ⟨outs, hparse, hcommands, hlast⟩ := hstops.parse session
    refine ⟨_, _, _, hsequence.parse (by decide) hparse, ?_, ?_⟩
    · rw [List.filterMap_append, hcommands, List.append_nil, List.filterMap_map]
      exact congrArg (List.filterMap · frames) (funext (frameReply_command? session))
    · rw [List.filterMap_append, List.map_append, make_refused, hlast]
  · rintro ⟨outs, seq', rest, hparse, rfl, rfl⟩
    exact parse_means hparse

/-- A frame that is an order for the engine. -/
def IsOrder (session : Nat) (frame : List UInt8) : Prop := (order? session frame).isSome

/-- Every order among the leading frames of a stream ends within its first `n` bytes. -/
def OrdersWithin (session n : Nat) (stream : List UInt8) : Prop :=
  ∀ frames f rest, stream = (frames ++ [f]).flatten ++ rest → InSequence 1 (frames ++ [f]) → IsOrder session f →
    (frames ++ [f]).flatten.length ≤ n

theorem commands_eq_nil_iff (frames : List (List UInt8)) :
    (frames.map (frameReply session)).filterMap Reply.command? = [] ↔ ∀ f ∈ frames, ¬ IsOrder session f := by
  rw [List.filterMap_eq_nil_iff, List.forall_mem_map]
  apply forall₂_congr
  intro f _
  rw [IsOrder, Option.not_isSome_iff_eq_none, frameReply_command?]

theorem length_le_of_cons_eq {xs ys : List (List UInt8)} (h : g :: frames = xs ++ f :: ys) :
    g.length ≤ (xs ++ [f]).flatten.length := by
  cases xs with
  | nil =>
      rw [List.nil_append, List.cons.injEq] at h
      simp [h.1]
  | cons x xs =>
      rw [List.cons_append, List.cons.injEq] at h
      simp [h.1]

/-- When the last bytes of a stream are never parsed, no command is missing exactly if no order ends among them. -/
theorem unparsed_iff {front back : List UInt8} {outs outs' : List Reply} {seq' seq'' : Nat} {alive : Bool}
    (hfront : Parse (nextFrame session) 1 front outs seq' rest true)
    (hback : Parse (nextFrame session) seq' (rest ++ back) outs' seq'' rest' alive) :
    outs'.filterMap Reply.command? = [] ↔ OrdersWithin session front.length (front ++ back) := by
  have hone : 1 < word32 := by decide
  obtain ⟨whole, last', hstream, hwhole, hending', houts'⟩ :=
    parse_frames (hfront.resume (nextFrame_stable session) hback) hone
  obtain ⟨frames, last, rfl, hframes, hending, rfl⟩ := parse_frames hfront hone
  -- the frames parsed so far come first, and the others are what `outs'` replies to
  obtain ⟨late, rfl⟩ : frames <+: whole := by
    apply InSequence.isPrefix hwhole hframes hending'
    rw [← hstream, List.append_assoc]
  have hlast : last = [] := by cases hending <;> rfl
  have hlast' : last'.filterMap Reply.command? = [] := by cases hending' <;> rfl
  have hlate : rest ++ back = late.flatten ++ rest' := by
    simpa [List.append_assoc] using hstream
  have hreplies : outs' = late.map (frameReply session) ++ last' := by
    simpa [hlast, List.append_assoc] using houts'
  rw [hreplies, List.filterMap_append, hlast', List.append_nil, commands_eq_nil_iff]
  constructor
  · intro hnone frames₁ f rest₁ hstream₁ hframes₁ horder
    by_contra hlong
    have hpre : frames₁ ++ [f] <+: frames ++ late := by
      apply InSequence.isPrefix hwhole hframes₁ hending'
      rw [← hstream₁, hstream]
    rcases List.prefix_or_prefix_of_prefix hpre (List.prefix_append frames late) with hle | hge
    · have hlength := hle.flatten.length_le
      rw [List.length_append] at hlong
      omega
    · obtain ⟨t, ht⟩ := hge
      rw [← ht, List.prefix_append_right_inj] at hpre
      have hf : f ∈ t := by
        cases t using List.reverseRecOn with
        | nil =>
            rw [List.append_nil] at ht
            rw [← ht, List.length_append] at hlong
            omega
        | append_singleton t f' =>
            rw [← List.append_assoc] at ht
            have heq := (List.append_inj' ht rfl).2
            simp_all
      exact hnone f (hpre.subset hf) horder
  · intro hwithin f hf horder
    obtain ⟨xs, ys, hxs⟩ := List.append_of_mem hf
    cases late with
    | nil => cases hf
    | cons g late =>
        have hpre : (frames ++ xs) ++ [f] <+: frames ++ g :: late := by
          rw [hxs, List.append_assoc, List.prefix_append_right_inj]
          exact ⟨ys, by simp⟩
        have hend := hwithin (frames ++ xs) f (ys.flatten ++ rest')
          (by rw [List.append_assoc, hlate, hxs]; simp) (InSequence.of_isPrefix hwhole hpre) horder
        -- so the first of the late frames would be there already
        have hshort := length_le_of_cons_eq hxs
        have hfirst : g <+: rest ++ back := by
          rw [hlate, List.flatten_cons, List.append_assoc]
          exact List.prefix_append _ _
        have hg : g <+: rest := by
          apply List.prefix_of_prefix_length_le hfirst (List.prefix_append rest back)
          simp only [List.append_assoc, List.flatten_append, List.length_append] at hend hshort
          omega
        obtain ⟨hframe, hseq⟩ := hwhole frames.length g (by simp)
        obtain ⟨rest₁, rfl⟩ := hg
        exact hending.not_isFrame hframe hseq

/-! ### Frames of a client -/

/-- A frame with a zero body. -/
def blankFrame (t : MsgType) (seq : Nat) : List UInt8 :=
  Header.bytes ⟨t.size, t.code, kVersion, seq⟩ ++ encode (t.size - headerSize) 0

/-- Such frames with consecutive sequence numbers. -/
def blankFrames : Nat → List MsgType → List UInt8
  | _, [] => []
  | seq, t :: ts => blankFrame t seq ++ blankFrames ((seq + 1) % word32) ts

@[simp] theorem length_blankFrame (t : MsgType) (seq : Nat) : (blankFrame t seq).length = t.size := by
  have hsize := t.headerSize_lt
  rw [blankFrame, List.length_append, Header.length_bytes, length_encode]
  omega

theorem length_blankFrames (seq : Nat) (ts : List MsgType) : (blankFrames seq ts).length = (ts.map MsgType.size).sum := by
  induction ts generalizing seq with
  | nil => rfl
  | cons t ts ih => rw [blankFrames, List.length_append, length_blankFrame, ih, List.map_cons, List.sum_cons]

theorem nextFrame_frame (session : Nat) (t : MsgType) {seq : Nat} (hseq : seq < word32) {frame body : List UInt8}
    (hframe : frame = Header.bytes ⟨t.size, t.code, kVersion, seq⟩ ++ body) (hlength : frame.length = t.size)
    (back : List UInt8) :
    nextFrame session seq (frame ++ back) = .item ((seq + 1) % word32) (frameReply session frame) frame.length := by
  have hheader : Header.ofBytes (frame ++ back) = ⟨t.size, t.code, kVersion, seq⟩ := by
    rw [hframe, List.append_assoc, Header.ofBytes_bytes]
    cases t <;> exact congrArg (Header.mk _ _ _) (Nat.mod_eq_of_lt hseq)
  have hok : (Header.mk t.size t.code kVersion seq).ok = true := by
    cases t <;> rfl
  have hlong : t.size ≤ (frame ++ back).length := by
    rw [List.length_append, hlength]
    omega
  have hlooked : Looked session seq (frame ++ back) _ :=
    .item (t.headerSize_lt.le.trans hlong) (by rw [hheader, hok]) (by rw [hheader]; exact hlong) (by rw [hheader])
  rw [hlooked.eq, hheader, hlength]
  dsimp only
  rw [List.take_append_of_le_length hlength.ge, List.take_of_length_le hlength.le]

theorem nextFrame_blankFrame (session : Nat) (t : MsgType) {seq : Nat} (hseq : seq < word32) (back : List UInt8) :
    nextFrame session seq (blankFrame t seq ++ back) =
      .item ((seq + 1) % word32) (frameReply session (blankFrame t seq)) (blankFrame t seq).length :=
  nextFrame_frame session t hseq rfl (length_blankFrame t seq) back

theorem parse_blankFrames (session : Nat) (ts : List MsgType) {seq : Nat} (hseq : seq < word32) :
    ∃ outs seq', Parse (nextFrame session) seq (blankFrames seq ts) outs seq' [] true ∧
      ((∀ t ∈ ts, ∀ seq, IsOrder session (blankFrame t seq)) → (outs.filterMap Reply.command?).length = ts.length) := by
  induction ts generalizing seq with
  | nil => exact ⟨[], seq, .more (Looked.eq (.short (Nat.zero_lt_succ 7))), fun _ => rfl⟩
  | cons t ts ih =>
      have hnext : (seq + 1) % word32 < word32 := Nat.mod_lt _ (by decide)
      obtain ⟨outs, seq', hparse, hcount⟩ := ih hnext
      refine ⟨frameReply session (blankFrame t seq) :: outs, seq', .item (nextFrame_blankFrame session t hseq _) ?_, ?_⟩
      · show Parse _ _ ((blankFrame t seq ++ blankFrames ((seq + 1) % word32) ts).drop _) _ _ _ _
        rw [List.drop_left]
        exact hparse
      · intro horder
        obtain ⟨c, hc⟩ := Option.isSome_iff_exists.1 (horder t List.mem_cons_self seq)
        rw [← frameReply_command?] at hc
        rw [List.filterMap_cons_some hc, List.length_cons, List.length_cons,
          hcount fun t' ht' => horder t' (List.mem_cons_of_mem t ht')]

end Wire

end Matchbox
