import Matchbox.Stream.Client
import Matchbox.Stream.Delivery

/-!
# A client that follows the stream

`mdstream.py` keeps the next sequence number by itself: a data frame counts it up, a Gap sets it to where the stream resumes, and a Heartbeat moves it to the head if it is behind. `Follows` is the account of what the client has seen since it started. Frames that continue the published stream at the client's number keep it, whether or not they arrive in one piece, and the number moves with the stream.
-/

namespace Matchbox

open Wire LittleEndian

/-! ### One frame of a stream -/

namespace Streams

variable {capacity start a b e : Nat} {published : List Message} {items xs ys : List (Nat × List UInt8)}
  {x : Nat × List UInt8}

theorem eq_of_nil (h : Streams capacity published start [] e) : e = start := by
  generalize hnil : ([] : List (Nat × List UInt8)) = l at h
  cases h with
  | nil => rfl
  | data _ _ _ => simp at hnil
  | gap _ _ => simp at hnil
  | heartbeat _ => simp at hnil

theorem concat_inv (h : Streams capacity published start (items ++ [x]) e) :
    ∃ b, Streams capacity published start items b ∧ Streams capacity published b [x] e := by
  generalize hlast : items ++ [x] = l at h
  cases h with
  | nil => simp at hlast
  | data h hm hhead =>
      obtain ⟨rfl, hx⟩ := List.append_inj' hlast rfl
      rw [hx]
      exact ⟨_, h, .data .nil hm hhead⟩
  | gap h hlt =>
      obtain ⟨rfl, hx⟩ := List.append_inj' hlast rfl
      rw [hx]
      exact ⟨_, h, .gap .nil hlt⟩
  | heartbeat h =>
      obtain ⟨rfl, hx⟩ := List.append_inj' hlast rfl
      rw [hx]
      exact ⟨_, h, .heartbeat .nil⟩

theorem append_inv (h : Streams capacity published start (xs ++ ys) e) :
    ∃ b, Streams capacity published start xs b ∧ Streams capacity published b ys e := by
  induction ys using List.reverseRecOn generalizing e with
  | nil =>
      rw [List.append_nil] at h
      exact ⟨e, h, .nil⟩
  | append_singleton ys y ih =>
      rw [← List.append_assoc] at h
      obtain ⟨b', hfront, hlast⟩ := h.concat_inv
      obtain ⟨b, hxs, hys⟩ := ih hfront
      exact ⟨b, hxs, hys.append hlast⟩

theorem single_inv (h : Streams capacity published e [x] b) :
    (∃ m ∈ published, x.2 = m.make e ∧ b = e + 1) ∨
      (x.2 = (Message.gap e b).make 0 ∧ e < b) ∨
      ∃ ts i, x.2 = (Message.heartbeat ts i).make 0 ∧ e = i + 1 ∧ b = e := by
  generalize hone : [x] = l at h
  rw [← List.nil_append [x]] at hone
  cases h with
  | nil => cases hone
  | @data items i head m h hm _ =>
      obtain ⟨rfl, hx⟩ := List.append_inj' hone rfl
      have he := h.eq_of_nil
      rw [List.cons.injEq] at hx
      rw [hx.1, ← he]
      exact .inl ⟨m, List.mem_of_getElem? hm, rfl, rfl⟩
  | @gap items e' head h hlt =>
      obtain ⟨rfl, hx⟩ := List.append_inj' hone rfl
      have he := h.eq_of_nil
      rw [List.cons.injEq] at hx
      rw [hx.1, ← he]
      exact .inr (.inl ⟨rfl, hlt⟩)
  | @heartbeat items i head ts h =>
      obtain ⟨rfl, hx⟩ := List.append_inj' hone rfl
      have he := h.eq_of_nil
      rw [List.cons.injEq] at hx
      rw [hx.1, ← he]
      exact .inr (.inr ⟨ts, i, rfl, rfl, rfl⟩)

theorem le (h : Streams capacity published start items e) : start ≤ e := by
  induction h with
  | nil => exact le_rfl
  | data _ _ _ ih => exact ih.trans (Nat.le_succ _)
  | gap _ hlt ih => exact ih.trans hlt.le
  | heartbeat _ ih => exact ih

theorem exists_make (h : Streams capacity published e [x] b) : ∃ (m : Message) (seq : Nat), x.2 = m.make seq := by
  rcases h.single_inv with ⟨m, -, hbytes, -⟩ | ⟨hbytes, -⟩ | ⟨ts, i, hbytes, -⟩
  · exact ⟨m, e, hbytes⟩
  · exact ⟨.gap e b, 0, hbytes⟩
  · exact ⟨.heartbeat ts i, 0, hbytes⟩

theorem isFrame (h : Streams capacity published start items e) : ∀ f ∈ items.map Prod.snd, framing.IsFrame f := by
  induction h with
  | nil => exact fun f hf => absurd hf List.not_mem_nil
  | data _ _ _ ih | gap _ _ ih | heartbeat _ ih =>
      rw [List.map_append, List.forall_mem_append]
      exact ⟨ih, List.forall_mem_singleton.2 (isFrame_make _ _)⟩

/-- A frame loop over a stream that has come in up to some byte. An account that the next frame keeps is kept by the loop, which leaves the beginning of the rest of the stream. -/
theorem walk {σ : Type} (handle : σ → List UInt8 → Option σ) {A : σ → Nat → Prop}
    (hframe : ∀ {s next b x}, A s next → Streams capacity published next [x] b → b ≤ e → framing.IsFrame x.2 →
      ∀ back, ∃ s', handle s (x.2 ++ back) = some s' ∧ A s' b)
    {s : σ} {next : Nat} (h : A s next) (hitems : Streams capacity published next items e) {bytes back : List UInt8}
    (hbytes : bytes ++ back = (items.map Prod.snd).flatten) :
    ∃ s' calls rest next' left, framing.walk handle (bytes.length + 1) s bytes = .returned s' calls rest ∧ A s' next' ∧
      Streams capacity published next' left e ∧ rest ++ back = (left.map Prod.snd).flatten := by
  obtain ⟨s', done, todo, rest, hwalk, ⟨next', left, hA, hleft, rfl⟩, -, hrest, -⟩ := Framing.walk_rule
    (I := fun s todo => ∃ next items, A s next ∧ Streams capacity published next items e ∧ items.map Prod.snd = todo)
    (fun {s f todo} h back => by
      obtain ⟨next, items, hA, hitems, htodo⟩ := h
      obtain ⟨x, items, rfl, rfl, rfl⟩ := List.map_eq_cons_iff.1 htodo
      have hcons : Streams capacity published next ([x] ++ items) e := hitems
      obtain ⟨b, hx, hrest⟩ := hcons.append_inv
      obtain ⟨s', hhandle, hA'⟩ := hframe hA hx hrest.le (hx.isFrame _ List.mem_cons_self) back
      exact ⟨s', hhandle, b, items, hA', hrest, rfl⟩)
    hitems.isFrame hbytes (Nat.lt_succ_self _) ⟨next, items, h, hitems, rfl⟩
  exact ⟨s', _, rest, next', left, hwalk, hA, hleft, hrest⟩

end Streams

/-! ### One frame at the client -/

namespace MdStream

/-- How often the sequence number was handled or announced as lost. -/
def times (c : MdStream) (q : Nat) : Nat := c.handled.count q + c.holes.countP fun g => g.1 ≤ q ∧ q < g.2

/-- The account of a client that started at `start`. -/
structure Follows (start : Nat) (c : MdStream) : Prop where
  le : start ≤ c.nextSeq
  times : ∀ q, c.times q = if start ≤ q ∧ q < c.nextSeq then 1 else 0
  increasing : c.handled.Pairwise (· < ·)
  total : (c.frames : Int) + c.lost = c.nextSeq - start
  jumps : c.jumps = 0

variable {start : Nat} {c : MdStream}

theorem Follows.setBuf (h : c.Follows start) (buf : List UInt8) : Follows start { c with buf := buf } :=
  ⟨h.le, h.times, h.increasing, h.total, h.jumps⟩

theorem Follows.lt_nextSeq (h : c.Follows start) {q : Nat} (hq : q ∈ c.handled) : q < c.nextSeq := by
  have htimes := h.times q
  have hcount : 0 < c.handled.count q := List.count_pos_iff.mpr hq
  rw [MdStream.times] at htimes
  split at htimes
  · rename_i hin
    exact hin.2
  · omega

/-- A number that the client is past was handled or announced as lost, and only once. -/
theorem Follows.once (h : c.Follows start) {q : Nat} (hle : start ≤ q) (hlt : q < c.nextSeq) :
    (c.handled.count q = 1 ∧ ∀ g ∈ c.holes, ¬ (g.1 ≤ q ∧ q < g.2)) ∨
      (q ∉ c.handled ∧ c.holes.countP (fun g => g.1 ≤ q ∧ q < g.2) = 1) := by
  have htimes := h.times q
  rw [MdStream.times, if_pos ⟨hle, hlt⟩] at htimes
  by_cases hq : q ∈ c.handled
  · have hcount : 0 < c.handled.count q := List.count_pos_iff.mpr hq
    refine .inl ⟨by omega, fun g hg hin => ?_⟩
    have hzero : c.holes.countP (fun g => g.1 ≤ q ∧ q < g.2) = 0 := by omega
    exact List.countP_eq_zero.1 hzero g hg (decide_eq_true hin)
  · rw [List.count_eq_zero_of_not_mem hq, Nat.zero_add] at htimes
    exact .inr ⟨hq, htimes⟩

theorem Follows.onData (h : c.Follows start) : (c.onData c.nextSeq).Follows start := by
  have hle := h.le
  have hsame : c.onData c.nextSeq =
      { c with nextSeq := c.nextSeq + 1, frames := c.frames + 1, handled := c.handled ++ [c.nextSeq] } := by
    rw [MdStream.onData, if_neg fun hjump => hjump.2 rfl]
  rw [hsame]
  refine ⟨hle.trans (Nat.le_succ _), fun q => ?_, ?_, ?_, h.jumps⟩
  · have htimes := h.times q
    rw [MdStream.times] at htimes ⊢
    dsimp only
    rw [List.count_append, List.count_singleton]
    by_cases hq : c.nextSeq = q
    · subst hq
      have hin : start ≤ c.nextSeq ∧ c.nextSeq < c.nextSeq + 1 := ⟨hle, Nat.lt_succ_self _⟩
      rw [if_neg fun hold => absurd hold.2 (Nat.lt_irrefl _)] at htimes
      rw [if_pos hin, if_pos (beq_self_eq_true _)]
      omega
    · have hiff : (start ≤ q ∧ q < c.nextSeq + 1) ↔ (start ≤ q ∧ q < c.nextSeq) := by omega
      rw [if_neg (by simpa using hq), Nat.add_zero, htimes, if_congr hiff rfl rfl]
  · rw [List.pairwise_append]
    refine ⟨h.increasing, List.pairwise_singleton _ _, fun q hq q' hq' => ?_⟩
    rw [List.mem_singleton.1 hq']
    exact h.lt_nextSeq hq
  · have htotal := h.total
    dsimp only
    omega

theorem Follows.gap (h : c.Follows start) {resumed : Nat} (hlt : c.nextSeq < resumed) (gaps : Nat) :
    Follows start { c with
      gaps := gaps
      lost := c.lost + ((resumed : Int) - c.nextSeq)
      nextSeq := resumed
      holes := c.holes ++ [(c.nextSeq, resumed)] } := by
  have hle := h.le
  refine ⟨hle.trans hlt.le, fun q => ?_, h.increasing, ?_, h.jumps⟩
  · have htimes := h.times q
    rw [MdStream.times] at htimes ⊢
    dsimp only
    rw [List.countP_append, List.countP_singleton]
    by_cases hq : c.nextSeq ≤ q ∧ q < resumed
    · have hin : start ≤ q ∧ q < resumed := ⟨hle.trans hq.1, hq.2⟩
      rw [if_neg fun hold => absurd hold.2 (Nat.not_lt.2 hq.1)] at htimes
      rw [if_pos hin, if_pos (decide_eq_true hq)]
      omega
    · have hiff : (start ≤ q ∧ q < resumed) ↔ (start ≤ q ∧ q < c.nextSeq) := by omega
      rw [if_neg (by simpa using hq), Nat.add_zero, htimes, if_congr hiff rfl rfl]
  · have htotal := h.total
    dsimp only
    omega

/-- A frame that continues the stream at the client's number: the client moves on with the stream. -/
theorem Follows.frame (h : c.Follows start) {capacity e : Nat} {published : List Message} {x : Nat × List UInt8}
    (hx : Streams capacity published c.nextSeq [x] e) (he : e < word32)
    (hdata : ∀ m ∈ published, m.isData = true) :
    ∃ c', c.handle (Header.ofBytes x.2).type (Header.ofBytes x.2).seq x.2 = some c' ∧ c'.Follows start ∧
      c'.nextSeq = e := by
  have hle := hx.le
  rcases hx.single_inv with ⟨m, hm, hbytes, rfl⟩ | ⟨hbytes, hlt⟩ | ⟨ts, i, hbytes, hi, rfl⟩
  · have hseq : c.nextSeq % word32 = c.nextSeq := Nat.mod_eq_of_lt (by omega)
    refine ⟨c.onData c.nextSeq, ?_, h.onData, rfl⟩
    rw [hbytes, m.ofBytes_make_self, hseq]
    exact c.handle_data (hdata m hm) _ _
  · have hfirst : c.nextSeq % 2 ^ 64 = c.nextSeq := Nat.mod_eq_of_lt ((hle.trans_lt he).trans (by decide))
    have hresumed : e % 2 ^ 64 = e := Nat.mod_eq_of_lt (he.trans (by decide))
    refine ⟨_, ?_, h.gap hlt (c.gaps + 1), rfl⟩
    rw [hbytes, Message.ofBytes_make_self]
    refine (c.handle_gap c.nextSeq e).trans ?_
    rw [hfirst, hresumed]
  · have hhead : i % 2 ^ 64 = i := Nat.mod_eq_of_lt (by simp only [word32] at he; omega)
    have hsame : max c.nextSeq (i % 2 ^ 64 + 1) = c.nextSeq := by rw [hhead, hi, max_self]
    refine ⟨{ c with heartbeats := c.heartbeats + 1 }, ?_, ⟨h.le, h.times, h.increasing, h.total, h.jumps⟩, rfl⟩
    rw [hbytes, Message.ofBytes_make_self]
    refine (c.handle_heartbeat ts i).trans ?_
    rw [hsame]

/-! ### Frames in pieces -/

theorem Follows.receive {capacity e : Nat} {published : List Message} (he : e < word32)
    (hdata : ∀ m ∈ published, m.isData = true) (h : c.Follows start) {items : List (Nat × List UInt8)}
    (hitems : Streams capacity published c.nextSeq items e) {chunk back : List UInt8}
    (hbytes : c.buf ++ chunk ++ back = (items.map Prod.snd).flatten) :
    ∃ c' rest, c.receive chunk = some c' ∧ c'.Follows start ∧ Streams capacity published c'.nextSeq rest e ∧
      c'.buf ++ back = (rest.map Prod.snd).flatten := by
  obtain ⟨c', calls, rest, next', left, hwalk, ⟨hfollows, rfl⟩, hleft, hrest⟩ := Streams.walk
    (Script.onFront handle) (A := fun c next => c.Follows start ∧ c.nextSeq = next)
    (fun {c next b x} h hx hb hf back => by
      obtain ⟨hfollows, rfl⟩ := h
      obtain ⟨c', hhandle, hfollows', hnext⟩ := hfollows.frame hx (hb.trans_lt he) hdata
      exact ⟨c', (Script.onFront_append handle hf c back).trans hhandle, hfollows', hnext⟩)
    ⟨h, rfl⟩ hitems hbytes
  refine ⟨{ c' with buf := rest }, left, ?_, hfollows.setBuf rest, hleft, hrest⟩
  rw [MdStream.receive, Script.frameLoop_eq, hwalk]

end MdStream

end Matchbox
