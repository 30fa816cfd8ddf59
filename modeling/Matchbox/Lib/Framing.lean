import Mathlib.Data.List.Basic

/-!
# Frames with a length field

A stream of frames, each of which begins with a header of fixed size that says how long the whole frame is and carries a tag. `walk` is the loop that cuts a buffer into frames and calls a handler on each. It checks neither the length field nor what the handler needs, so it may fail, and on a length of zero it may run for ever; then it is `running` with every amount of fuel. `Framed` describes the buffers on which it does what it is for.
-/

structure Framing (β τ : Type) where
  /-- The size of a header. -/
  header : Nat
  header_pos : 0 < header
  len : List β → Nat
  tag : List β → τ
  len_append : ∀ {front : List β} (back : List β), header ≤ front.length → len (front ++ back) = len front
  tag_append : ∀ {front : List β} (back : List β), header ≤ front.length → tag (front ++ back) = tag front

namespace Framing

/-- What becomes of a loop over the frames in a buffer. -/
inductive Walked (β τ σ : Type) where
  /-- It is done: the state, the calls of the handler and the bytes left. -/
  | returned (state : σ) (calls : List (τ × List β)) (rest : List β)
  /-- The handler read outside the buffer or raised an exception. -/
  | failed
  /-- The fuel is used up. -/
  | running

variable {β τ σ : Type}

/-- The same with some calls before. -/
def Walked.after (calls : List (τ × List β)) : Walked β τ σ → Walked β τ σ
  | .returned s more rest => .returned s (calls ++ more) rest
  | .failed => .failed
  | .running => .running

/-- A loop over the chunks of a stream: what is left of one chunk comes in front of the next. -/
def feed (loop : σ → List β → Walked β τ σ) : σ → List β → List (List β) → Walked β τ σ
  | s, buf, [] => .returned s [] buf
  | s, buf, chunk :: chunks =>
      match loop s (buf ++ chunk) with
      | .returned s' calls rest => (feed loop s' rest chunks).after calls
      | .failed => .failed
      | .running => .running

variable (F : Framing β τ)

/-- The length of the frame in front, if all of it is there. -/
def front? (bytes : List β) : Option Nat :=
  if bytes.length < F.header then none
  else if bytes.length < F.len bytes then none
  else some (F.len bytes)

/-- The loop. The handler sees everything from the frame on. -/
def walk (handle : σ → List β → Option σ) : Nat → σ → List β → Walked β τ σ
  | 0, _, _ => .running
  | fuel + 1, s, bytes =>
      match F.front? bytes with
      | none => .returned s [] bytes
      | some n =>
          match handle s bytes with
          | none => .failed
          | some s' => (walk handle fuel s' (bytes.drop n)).after [(F.tag bytes, bytes.take n)]

def IsFrame (f : List β) : Prop := F.header ≤ f.length ∧ F.len f = f.length

/-- A strict prefix of a frame. -/
def Partial (rest : List β) : Prop := ∃ back, back ≠ [] ∧ F.IsFrame (rest ++ back)

/-- Frames that are all right for the handler, and then the beginning of a frame. -/
inductive Framed (ok : τ → List β → Prop) : List β → Prop
  | rest {bytes : List β} (hunfinished : F.Partial bytes) : Framed ok bytes
  | frame {bytes : List β} {n : Nat} (hfront : F.front? bytes = some n) (hpos : 0 < n)
      (hok : ok (F.tag bytes) (bytes.take n)) (hrest : Framed ok (bytes.drop n)) : Framed ok bytes

/-- The loop has cut the buffer into frames that are all right, and the beginning of a frame is left. -/
def Splits (ok : τ → List β → Prop) (bytes : List β) (w : Walked β τ σ) : Prop :=
  ∃ s calls rest, w = .returned s calls rest ∧ (calls.map Prod.snd).flatten ++ rest = bytes ∧
    (∀ c ∈ calls, ok c.1 c.2) ∧ F.Partial rest

/-- The handler does not fail on what is all right, in the states that it can get into. -/
def Handles (handle : σ → List β → Option σ) (ok : τ → List β → Prop) (inv : σ → Prop) : Prop :=
  ∀ ⦃s bytes n⦄, inv s → F.front? bytes = some n → ok (F.tag bytes) (bytes.take n) → ∃ s', handle s bytes = some s' ∧ inv s'

variable {F} {handle : σ → List β → Option σ} {ok : τ → List β → Prop} {inv : σ → Prop} {bytes : List β} {n fuel : Nat}
  {s : σ}

theorem front?_eq_some : F.front? bytes = some n ↔ F.header ≤ bytes.length ∧ n ≤ bytes.length ∧ F.len bytes = n := by
  rw [front?]
  split
  · rename_i hshort
    exact iff_of_false (Option.some_ne_none n).symm fun h => absurd h.1 (Nat.not_le.2 hshort)
  · rename_i hheader
    split
    · rename_i hshort
      refine iff_of_false (Option.some_ne_none n).symm fun h => ?_
      rw [h.2.2] at hshort
      exact absurd h.2.1 (Nat.not_le.2 hshort)
    · rename_i hlen
      rw [Option.some.injEq]
      constructor
      · rintro rfl
        exact ⟨Nat.not_lt.1 hheader, Nat.not_lt.1 hlen, rfl⟩
      · exact fun h => h.2.2

theorem IsFrame.front? {f : List β} (h : F.IsFrame f) (back : List β) : F.front? (f ++ back) = some f.length := by
  rw [front?_eq_some, List.length_append, F.len_append back h.1]
  exact ⟨Nat.le_trans h.1 (Nat.le_add_right _ _), Nat.le_add_right _ _, h.2⟩

theorem Partial.front? (h : F.Partial bytes) : F.front? bytes = none := by
  obtain ⟨back, hback, -, hlen⟩ := h
  rw [Option.eq_none_iff_forall_ne_some]
  intro n hn
  obtain ⟨hheader, hle, rfl⟩ := front?_eq_some.1 hn
  rw [F.len_append back hheader, List.length_append] at hlen
  have hpos := List.length_pos_iff.2 hback
  omega

theorem Walked.after_eq_returned {w : Walked β τ σ} {before calls : List (τ × List β)} {rest : List β}
    (h : w.after before = .returned s calls rest) : ∃ more, w = .returned s more rest ∧ calls = before ++ more := by
  cases w with
  | returned s' more rest' =>
      cases h
      exact ⟨more, rfl, rfl⟩
  | failed => cases h
  | running => cases h

/-! ### One buffer -/

theorem walk_of_none (hfront : F.front? bytes = none) (fuel : Nat) (s : σ) :
    F.walk handle (fuel + 1) s bytes = .returned s [] bytes := by
  rw [walk, hfront]

theorem walk_of_some {s' : σ} (hfront : F.front? bytes = some n) (hhandle : handle s bytes = some s') (fuel : Nat) :
    F.walk handle (fuel + 1) s bytes =
      (F.walk handle fuel s' (bytes.drop n)).after [(F.tag bytes, bytes.take n)] := by
  rw [walk, hfront]
  dsimp only
  rw [hhandle]

theorem Splits.framed (h : F.Splits ok bytes (F.walk handle fuel s bytes)) : F.Framed ok bytes := by
  induction fuel generalizing s bytes with
  | zero =>
      obtain ⟨s', calls, rest, hwalk, -⟩ := h
      cases hwalk
  | succ fuel ih =>
      obtain ⟨s', calls, rest, hwalk, hbytes, hok, hunfinished⟩ := h
      rw [walk] at hwalk
      cases hfront : F.front? bytes with
      | none =>
          rw [hfront] at hwalk
          cases hwalk
          exact .rest hunfinished
      | some n =>
          rw [hfront] at hwalk
          dsimp only at hwalk
          cases hhandle : handle s bytes with
          | none =>
              rw [hhandle] at hwalk
              cases hwalk
          | some s₁ =>
              rw [hhandle] at hwalk
              obtain ⟨more, hmore, rfl⟩ := Walked.after_eq_returned hwalk
              have hrest : (more.map Prod.snd).flatten ++ rest = bytes.drop n := by
                rw [List.map_append, List.flatten_append, List.append_assoc] at hbytes
                have hcut : bytes.take n ++ ((more.map Prod.snd).flatten ++ rest) = bytes.take n ++ bytes.drop n := by
                  rw [List.take_append_drop]
                  simpa using hbytes
                exact List.append_cancel_left hcut
              have hframed := ih ⟨s', more, rest, hmore, hrest, fun c hc => hok c (List.mem_append_right _ hc), hunfinished⟩
              -- with a length of zero the rest is the buffer itself
              by_cases hpos : 0 < n
              · exact .frame hfront hpos (hok _ (List.mem_append_left _ (List.mem_singleton_self _))) hframed
              · rw [Nat.eq_zero_of_not_pos hpos] at hframed
                exact hframed

theorem Framed.splits (hhandles : F.Handles handle ok inv) (h : F.Framed ok bytes) (hfuel : bytes.length < fuel)
    (hs : inv s) : F.Splits ok bytes (F.walk handle fuel s bytes) := by
  induction h generalizing fuel s with
  | @rest bytes hunfinished =>
      obtain ⟨fuel, rfl⟩ := Nat.exists_eq_succ_of_ne_zero (Nat.ne_of_gt (Nat.zero_lt_of_lt hfuel))
      exact ⟨s, [], bytes, walk_of_none hunfinished.front? fuel s, rfl, fun c hc => absurd hc List.not_mem_nil, hunfinished⟩
  | @frame bytes n hfront hpos hok hrest ih =>
      obtain ⟨fuel, rfl⟩ := Nat.exists_eq_succ_of_ne_zero (Nat.ne_of_gt (Nat.zero_lt_of_lt hfuel))
      obtain ⟨s₁, hhandle, hs₁⟩ := hhandles hs hfront hok
      obtain ⟨-, hle, -⟩ := front?_eq_some.1 hfront
      have hroom : (bytes.drop n).length < fuel := by
        rw [List.length_drop]
        omega
      obtain ⟨s', calls, rest, hwalk, hbytes, hcalls, hunfinished⟩ :=
        ih hroom hs₁
      refine ⟨s', (F.tag bytes, bytes.take n) :: calls, rest, ?_, ?_, ?_, hunfinished⟩
      · rw [walk_of_some hfront hhandle, hwalk]
        rfl
      · rw [List.map_cons, List.flatten_cons, List.append_assoc, hbytes, List.take_append_drop]
      · intro c hc
        rcases List.mem_cons.1 hc with rfl | hc
        · exact hok
        · exact hcalls c hc

theorem walk_running (hfront : F.front? bytes = some 0) (hhandle : ∀ s, ∃ s', handle s bytes = some s') (fuel : Nat)
    (s : σ) : F.walk handle fuel s bytes = .running := by
  induction fuel generalizing s with
  | zero => rfl
  | succ fuel ih =>
      obtain ⟨s', hs'⟩ := hhandle s
      rw [walk_of_some hfront hs', List.drop_zero, ih]
      rfl

/-! ### A stream -/

/-- The calls for some frames. -/
def callsOf (F : Framing β τ) (frames : List (List β)) : List (τ × List β) := frames.map fun f => (F.tag f, f)

/-- The rule for a stream of frames that has come in up to a point: what holds of the state and the frames to come, and is kept by the handling of the next one, holds of the frames that are not complete. -/
theorem walk_rule {I : σ → List (List β) → Prop}
    (hstep : ∀ {s f todo}, I s (f :: todo) → ∀ back, ∃ s', handle s (f ++ back) = some s' ∧ I s' todo)
    {frames : List (List β)} (hframes : ∀ f ∈ frames, F.IsFrame f) {back : List β}
    (hbytes : bytes ++ back = frames.flatten) (hfuel : bytes.length < fuel) (hs : I s frames) :
    ∃ s' done todo rest, F.walk handle fuel s bytes = .returned s' (F.callsOf done) rest ∧ I s' todo ∧
      frames = done ++ todo ∧ rest ++ back = todo.flatten ∧ ∀ f ∈ todo.head?, rest.length < f.length := by
  induction frames generalizing bytes fuel s with
  | nil =>
      obtain ⟨fuel, rfl⟩ := Nat.exists_eq_succ_of_ne_zero (Nat.ne_of_gt (Nat.zero_lt_of_lt hfuel))
      obtain ⟨rfl, rfl⟩ := List.append_eq_nil_iff.1 hbytes
      have hfront : F.front? [] = none := if_pos F.header_pos
      exact ⟨s, [], [], [], walk_of_none hfront fuel s, hs, rfl, rfl, fun f hf => by cases hf⟩
  | cons f frames ih =>
      obtain ⟨fuel, rfl⟩ := Nat.exists_eq_succ_of_ne_zero (Nat.ne_of_gt (Nat.zero_lt_of_lt hfuel))
      have hframe := hframes f List.mem_cons_self
      rw [List.flatten_cons] at hbytes
      have hbytes' : bytes <+: f ++ frames.flatten := ⟨back, hbytes⟩
      by_cases hlt : bytes.length < f.length
      · -- the next frame is not complete
        obtain ⟨more, rfl⟩ := List.prefix_of_prefix_length_le hbytes' (List.prefix_append f _) (Nat.le_of_lt hlt)
        have hunfinished : F.Partial bytes := by
          refine ⟨more, ?_, hframe⟩
          rintro rfl
          rw [List.append_nil] at hlt
          exact Nat.lt_irrefl _ hlt
        refine ⟨s, [], (bytes ++ more) :: frames, bytes, walk_of_none hunfinished.front? fuel s, hs, rfl, hbytes, ?_⟩
        intro f hf
        cases hf
        exact hlt
      · obtain ⟨more, rfl⟩ := List.prefix_of_prefix_length_le (List.prefix_append f _) hbytes' (Nat.not_lt.1 hlt)
        rw [List.append_assoc] at hbytes
        obtain ⟨s₁, hhandle, hs₁⟩ := hstep hs more
        rw [List.length_append] at hfuel
        have hpos : 0 < f.length := Nat.lt_of_lt_of_le F.header_pos hframe.1
        have hroom : more.length < fuel := by omega
        obtain ⟨s', done, todo, rest, hwalk, hs', hsplit, hrest, hhead⟩ :=
          ih (fun f' hf' => hframes f' (List.mem_cons_of_mem f hf')) (List.append_cancel_left hbytes) hroom hs₁
        refine ⟨s', f :: done, todo, rest, ?_, hs', by rw [hsplit]; rfl, hrest, hhead⟩
        rw [walk_of_some (hframe.front? more) hhandle, List.drop_left, List.take_left, hwalk, F.tag_append more hframe.1]
        rfl

theorem walk_frames (hhandles : F.Handles handle ok inv) {frames : List (List β)}
    (hframes : ∀ f ∈ frames, F.IsFrame f ∧ ok (F.tag f) f) {back : List β} (hbytes : bytes ++ back = frames.flatten)
    (hfuel : bytes.length < fuel) (hs : inv s) :
    ∃ s' done todo rest, F.walk handle fuel s bytes = .returned s' (F.callsOf done) rest ∧ inv s' ∧
      frames = done ++ todo ∧ rest ++ back = todo.flatten ∧ ∀ f ∈ todo.head?, rest.length < f.length := by
  obtain ⟨s', done, todo, rest, hwalk, hinv, hsplit⟩ := walk_rule
    (I := fun s todo => inv s ∧ ∀ f ∈ todo, F.IsFrame f ∧ ok (F.tag f) f)
    (fun {s f todo} h back => by
      obtain ⟨hframe, hok⟩ := h.2 f List.mem_cons_self
      obtain ⟨s', hhandle, hs'⟩ := hhandles h.1 (hframe.front? back)
        (by rw [F.tag_append back hframe.1, List.take_left]; exact hok)
      exact ⟨s', hhandle, hs', fun f' hf' => h.2 f' (List.mem_cons_of_mem f hf')⟩)
    (fun f hf => (hframes f hf).1) hbytes hfuel ⟨hs, hframes⟩
  exact ⟨s', done, todo, rest, hwalk, hinv.1, hsplit⟩

/-- No complete frame is left over. -/
theorem walk_rest {s' : σ} {calls : List (τ × List β)} {rest : List β}
    (h : F.walk handle fuel s bytes = .returned s' calls rest) : F.front? rest = none := by
  induction fuel generalizing s bytes calls with
  | zero => cases h
  | succ fuel ih =>
      rw [walk] at h
      cases hfront : F.front? bytes with
      | none =>
          rw [hfront] at h
          cases h
          exact hfront
      | some n =>
          rw [hfront] at h
          dsimp only at h
          cases hhandle : handle s bytes with
          | none =>
              rw [hhandle] at h
              cases h
          | some s₁ =>
              rw [hhandle] at h
              obtain ⟨more, hmore, -⟩ := Walked.after_eq_returned h
              exact ih hmore

/-- Where the handler does the same to a frame whatever follows it, the loop folds over the complete ones. -/
theorem walk_foldl {react : σ → List β → σ} {frames : List (List β)} (hframes : ∀ f ∈ frames, F.IsFrame f)
    (hreact : ∀ f ∈ frames, ∀ s back, handle s (f ++ back) = some (react s f)) {back : List β}
    (hbytes : bytes ++ back = frames.flatten) (hfuel : bytes.length < fuel) (s : σ) :
    ∃ done todo rest, F.walk handle fuel s bytes = .returned (done.foldl react s) (F.callsOf done) rest ∧
      frames = done ++ todo ∧ rest ++ back = todo.flatten := by
  obtain ⟨s', done, todo, rest, hwalk, ⟨done', hdone, rfl⟩, rfl, hrest, -⟩ := walk_rule
    (I := fun s' todo => ∃ done, done ++ todo = frames ∧ s' = done.foldl react s)
    (fun {s' f todo} h back => by
      obtain ⟨done, hdone, rfl⟩ := h
      have hmem : f ∈ frames := hdone ▸ List.mem_append_right _ List.mem_cons_self
      refine ⟨_, hreact f hmem _ back, done ++ [f], by rw [← hdone, List.append_assoc]; rfl, ?_⟩
      rw [List.foldl_append]
      rfl)
    hframes hbytes hfuel ⟨[], rfl, rfl⟩
  rw [List.append_cancel_right hdone] at hwalk
  exact ⟨done, todo, rest, hwalk, rfl, hrest⟩

/-- However a stream of frames is cut into chunks, the handler is called on its frames, in order. -/
theorem feed_frames (hhandles : F.Handles handle ok inv) {frames : List (List β)}
    (hframes : ∀ f ∈ frames, F.IsFrame f ∧ ok (F.tag f) f) {buf : List β} (hbuf : ∀ f ∈ frames.head?, buf.length < f.length)
    {chunks : List (List β)} (hchunks : buf ++ chunks.flatten = frames.flatten) (hs : inv s) :
    ∃ s', feed (fun s bytes => F.walk handle (bytes.length + 1) s bytes) s buf chunks = .returned s' (F.callsOf frames) [] := by
  induction chunks generalizing frames buf s with
  | nil =>
      rw [List.flatten_nil, List.append_nil] at hchunks
      cases frames with
      | nil => exact ⟨s, by rw [hchunks]; rfl⟩
      | cons f frames =>
          have hlt := hbuf f rfl
          rw [hchunks, List.flatten_cons, List.length_append] at hlt
          omega
  | cons chunk chunks ih =>
      rw [List.flatten_cons, ← List.append_assoc] at hchunks
      obtain ⟨s₁, done, todo, rest, hwalk, hs₁, rfl, hrest, hhead⟩ :=
        walk_frames hhandles hframes hchunks (Nat.lt_succ_self _) hs
      obtain ⟨s', hfeed⟩ := ih (fun f hf => hframes f (List.mem_append_right done hf)) hhead hrest hs₁
      refine ⟨s', ?_⟩
      rw [feed, hwalk]
      dsimp only
      rw [hfeed]
      exact congrArg (Walked.returned s' · []) List.map_append.symm

/-- What a loop over the frames is for. `ok` is what the handler needs of a frame, and `inv` holds of the states that it gets into. -/
structure Splitter (F : Framing β τ) (loop : Nat → List β → σ → Walked β τ σ) (ok : τ → List β → Prop) (inv : σ → Prop) :
    Prop where
  /-- It ends with the buffer split exactly if the buffer can be split. -/
  splits_iff : ∀ {s}, inv s → ∀ bytes, (∃ fuel, F.Splits ok bytes (loop fuel bytes s)) ↔ F.Framed ok bytes
  /-- Of a stream of frames it sees all, in order and one by one, however the stream arrives. -/
  feeds : ∀ {s}, inv s → ∀ {frames : List (List β)}, (∀ f ∈ frames, F.IsFrame f ∧ ok (F.tag f) f) →
    ∀ {chunks : List (List β)}, chunks.flatten = frames.flatten →
      ∃ s', feed (fun s bytes => loop (bytes.length + 1) bytes s) s [] chunks = .returned s' (F.callsOf frames) []

theorem Handles.splitter (hhandles : F.Handles handle ok inv) :
    F.Splitter (fun fuel bytes s => F.walk handle fuel s bytes) ok inv where
  splits_iff := fun hs bytes =>
    ⟨fun ⟨_, hsplits⟩ => hsplits.framed, fun hframed => ⟨_, hframed.splits hhandles (Nat.lt_succ_self bytes.length) hs⟩⟩
  feeds := fun hs frames hframes _ hchunks => by
    refine feed_frames hhandles hframes (fun f hf => ?_) hchunks hs
    have hframe := (hframes f (List.mem_of_head? hf)).1
    exact Nat.lt_of_lt_of_le F.header_pos hframe.1

end Framing
