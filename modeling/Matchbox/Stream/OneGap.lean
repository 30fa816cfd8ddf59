import Matchbox.Stream.Gaps

/-!
# One Gap for one lap

After a Gap the stream should continue with the frame the Gap ends at. A Gap takes room in the backlog like any other frame: when it takes the last room, or when it is the answer to a Subscribe, that frame is copied only by a later pump, and the ring may have dropped it by then. The subscriber then gets a second Gap. `run_oneGap` says that nothing else can come between a Gap and its frame.
-/

namespace Matchbox

open Wire

/-- The published frame with this sequence number. -/
def IsData (published : List Message) (seq : Nat) (frame : List UInt8) : Prop :=
  (∃ m, published[seq - 1]? = some m ∧ frame = m.make seq) ∧ ¬ IsControl .gap frame ∧ (Header.ofBytes frame).seq = seq

/-- Behind every Gap the next frame that is no Heartbeat is the one that the Gap ends at. -/
def OneGap (published : List Message) (frames : List (List UInt8)) : Prop :=
  ∀ front gap beats frame back, frames = front ++ gap :: (beats ++ frame :: back) → IsControl .gap gap →
    (∀ b ∈ beats, IsControl .heartbeat b) → ¬ IsControl .heartbeat frame →
      IsData published (Gap.ofBytes gap).resumedAt frame

/-- Where the last Gap ends, if nothing but Heartbeats has followed it. -/
def awaited (frames : List (List UInt8)) : Option Nat :=
  frames.foldl (fun waiting f =>
    if IsControl .gap f then some (Gap.ofBytes f).resumedAt
    else if IsControl .heartbeat f then waiting
    else none) none

section Frames

variable {published : List Message} {frames : List (List UInt8)} {f : List UInt8}

theorem awaited_concat (frames : List (List UInt8)) (f : List UInt8) :
    awaited (frames ++ [f]) =
      if IsControl .gap f then some (Gap.ofBytes f).resumedAt
      else if IsControl .heartbeat f then awaited frames
      else none := by
  rw [awaited, List.foldl_append]
  rfl

theorem not_gap_of_heartbeat (h : IsControl .heartbeat f) : ¬ IsControl .gap f := by
  intro hgap
  have hcode := h.1.symm.trans hgap.1
  cases hcode

theorem awaited_of_beats (front : List (List UInt8)) {gap : List UInt8} (hgap : IsControl .gap gap)
    {beats : List (List UInt8)} (hbeats : ∀ b ∈ beats, IsControl .heartbeat b) :
    awaited (front ++ gap :: beats) = some (Gap.ofBytes gap).resumedAt := by
  induction beats using List.reverseRecOn with
  | nil => rw [awaited_concat, if_pos hgap]
  | append_singleton beats b ih =>
      have hb := hbeats b (List.mem_append_right _ (List.mem_singleton.2 rfl))
      rw [← List.cons_append, ← List.append_assoc, awaited_concat, if_neg (not_gap_of_heartbeat hb), if_pos hb]
      exact ih fun b' hb' => hbeats b' (List.mem_append_left _ hb')

/-- One more frame: it has to be the right one if a Gap is waiting. -/
theorem OneGap.concat (h : OneGap published frames)
    (hf : ∀ seq, awaited frames = some seq → ¬ IsControl .heartbeat f → IsData published seq f) :
    OneGap published (frames ++ [f]) := by
  intro front gap beats frame back heq hgap hbeats hframe
  cases back using List.reverseRecOn with
  | nil =>
      have hsplit : frames ++ [f] = (front ++ gap :: beats) ++ [frame] := by rw [heq]; simp
      obtain ⟨rfl, hlast⟩ := List.append_inj' hsplit rfl
      rw [List.cons.injEq] at hlast
      rw [← hlast.1] at hframe ⊢
      exact hf _ (awaited_of_beats front hgap hbeats) hframe
  | append_singleton back last =>
      have hsplit : frames ++ [f] = (front ++ gap :: (beats ++ frame :: back)) ++ [last] := by rw [heq]; simp
      obtain ⟨hfront, -⟩ := List.append_inj' hsplit rfl
      exact h front gap beats frame back hfront hgap hbeats hframe

theorem OneGap.mono (h : OneGap published frames) (more : List Message) : OneGap (published ++ more) frames := by
  intro front gap beats frame back heq hgap hbeats hframe
  obtain ⟨⟨m, hm, hmake⟩, hrest⟩ := h front gap beats frame back heq hgap hbeats hframe
  have hlt := (List.getElem?_eq_some_iff.1 hm).1
  exact ⟨⟨m, by rw [List.getElem?_append_left hlt, hm], hmake⟩, hrest⟩

theorem oneGap_nil (published : List Message) : OneGap published [] := by
  intro front gap beats frame back heq
  simp at heq

end Frames

/-! ### One subscriber -/

namespace Subscriber

/-- A Gap that waits ends at the cursor, and the ring still has that frame. -/
structure Awaited (ring : ReplayRing) (published : List Message) (s : Subscriber) : Prop where
  oneGap : OneGap published s.appended
  waiting : ∀ seq, awaited s.appended = some seq → seq = s.nextSeq ∧ ring.oldest ≤ s.nextSeq
  silent : s.subscribed = false → s.appended = []

variable {ring : ReplayRing} {published : List Message} {s : Subscriber} {cfg : Publisher.Config} {now : Nat}

theorem Awaited.congr (h : s.Awaited ring published) {s' : Subscriber} (happended : s'.appended = s.appended)
    (hsub : s'.subscribed = s.subscribed) (hnext : s'.nextSeq = s.nextSeq) : s'.Awaited ring published := by
  constructor
  · rw [happended]
    exact h.oneGap
  · rw [happended, hnext]
    exact h.waiting
  · rw [happended, hsub]
    exact h.silent

theorem Awaited.append (h : s.Awaited ring published) (hring : ring.Holds published) (hhead : ring.head + 1 < word32)
    {s' : Subscriber} (happended : s.Appended cfg ring now s') : s'.Awaited ring published := by
  cases happended with
  | clock => exact ⟨h.oneGap, h.waiting, h.silent⟩
  | gap hsub hroom hlap =>
      have hgap : IsControl .gap ((Message.gap s.nextSeq ring.oldest).make 0) := by
        rw [Message.isControl_make]
        rfl
      refine ⟨h.oneGap.concat fun seq hseq _ => ?_, fun seq hseq => ?_, fun hfalse => ?_⟩
      · exact absurd (h.waiting seq hseq).2 (Nat.not_le.2 hlap)
      · have hold := ring.oldest_le
        change awaited (s.appended ++ [_]) = some seq at hseq
        rw [awaited_concat, if_pos hgap, Gap.ofBytes_make, Option.some.injEq] at hseq
        refine ⟨?_, le_rfl⟩
        rw [← hseq]
        exact Nat.mod_eq_of_lt ((hold.trans_lt hhead).trans (by decide))
      · rw [show s.subscribed = false from hfalse] at hsub
        cases hsub
  | data hsub hroom hold hle =>
      have hone := ring.one_le_oldest
      have hlt : s.nextSeq < word32 := by omega
      obtain ⟨m, hm, hframe⟩ := hring.bytes s.nextSeq (by rw [ReplayRing.holds_iff]; exact ⟨hold, hle, by omega⟩)
      have hcontrol : ∀ t, ¬ IsControl t (m.make s.nextSeq) := m.not_isControl_make (by omega) hlt
      rw [copy, hframe]
      refine ⟨h.oneGap.concat fun seq hseq _ => ?_, fun seq hseq => ?_, fun hfalse => ?_⟩
      · rw [(h.waiting seq hseq).1]
        refine ⟨⟨m, hm, rfl⟩, hcontrol .gap, ?_⟩
        rw [Message.ofBytes_make_self]
        exact Nat.mod_eq_of_lt hlt
      · change awaited (s.appended ++ [_]) = some seq at hseq
        rw [awaited_concat, if_neg (hcontrol .gap), if_neg (hcontrol .heartbeat)] at hseq
        cases hseq
      · rw [show s.subscribed = false from hfalse] at hsub
        cases hsub
  | heartbeat hsub hempty hdone =>
      have hbeat : IsControl .heartbeat ((Message.heartbeat now ring.head).make 0) := by
        rw [Message.isControl_make]
        rfl
      refine ⟨h.oneGap.concat fun seq _ hnot => absurd hbeat hnot, fun seq hseq => ?_, fun hfalse => ?_⟩
      · change awaited (s.appended ++ [_]) = some seq at hseq
        rw [awaited_concat, if_neg (not_gap_of_heartbeat hbeat), if_pos hbeat] at hseq
        exact h.waiting seq hseq
      · rw [show s.subscribed = false from hfalse] at hsub
        cases hsub

theorem Awaited.start (h : s.Awaited ring published) (hsub : s.subscribed = false) (hhead : ring.head + 1 < word32) :
    (s.start ring).Awaited ring published := by
  have happended := h.silent hsub
  have hnext : (ring.head + 1) % word32 = ring.head + 1 := Nat.mod_eq_of_lt hhead
  have hquiet : ∀ next : Nat, ∀ seq, awaited s.appended = some seq → seq = next ∧ ring.oldest ≤ next := by
    intro next seq hseq
    rw [happended] at hseq
    cases hseq
  rw [Subscriber.start, hnext]
  dsimp only
  split
  · split
    · have hgap : IsControl .gap ((Message.gap (subscribeFrom s.rx) (ring.head + 1)).make 0) := by
        rw [Message.isControl_make]
        rfl
      refine ⟨h.oneGap.concat fun seq hseq _ => ?_, fun seq hseq => ?_, fun hfalse => Bool.noConfusion hfalse⟩
      · rw [happended] at hseq
        cases hseq
      · change awaited (s.appended ++ [_]) = some seq at hseq
        rw [awaited_concat, if_pos hgap, Gap.ofBytes_make, Option.some.injEq] at hseq
        refine ⟨?_, ring.oldest_le⟩
        rw [← hseq]
        exact Nat.mod_eq_of_lt (hhead.trans (by decide))
    · exact ⟨h.oneGap, hquiet _, fun hfalse => Bool.noConfusion hfalse⟩
  · exact ⟨h.oneGap, hquiet _, fun hfalse => Bool.noConfusion hfalse⟩

/-- No call but `publish` endangers a Gap. -/
theorem Awaited.after {p : Publisher} (h : s.Awaited p.ring p.published) (hring : p.ring.Holds p.published)
    (hhead : p.ring.head + 1 < word32) (a : Publisher.Action) : (s.after p a).1.Awaited p.ring p.published := by
  refine after_rule hhead a (fun h happended hsub hnext => h.congr happended hsub hnext)
    (fun happended h => h.append hring hhead happended) ?_ h
  intro reads _ _ hsub hread
  exact hread.start hsub hhead

/-- A published frame that does not push out the one a Gap ends at. -/
theorem Awaited.publish (h : s.Awaited ring published) (m : Message)
    (hretains : (awaited s.appended).isSome → (ring.append m).oldest ≤ s.nextSeq) :
    s.Awaited (ring.append m) (published ++ [m]) := by
  refine ⟨h.oneGap.mono [m], fun seq hseq => ⟨(h.waiting seq hseq).1, hretains ?_⟩, h.silent⟩
  rw [hseq]
  rfl

theorem Awaited.accepted (ring : ReplayRing) (published : List Message) (fd : Nat) :
    Awaited ring published { fd := fd } :=
  ⟨oneGap_nil published, fun seq hseq => (by cases hseq), fun _ => rfl⟩

end Subscriber

/-! ### Whole runs -/

namespace Publisher

/-- A call that does not publish over the frame that a subscriber's last Gap ends at. -/
def Action.Retains (p : Publisher) : Action → Prop
  | .publish m => ∀ s ∈ p.subs, (awaited s.appended).isSome → (p.ring.append m).oldest ≤ s.nextSeq
  | _ => True

instance (p : Publisher) : (a : Action) → Decidable (a.Retains p)
  | .publish m =>
      inferInstanceAs (Decidable (∀ s ∈ p.subs, (awaited s.appended).isSome → (p.ring.append m).oldest ≤ s.nextSeq))
  | .subscribe _ => .isTrue trivial
  | .onReadable _ _ => .isTrue trivial
  | .onWritable _ _ => .isTrue trivial
  | .flushAll _ _ => .isTrue trivial

/-- The Gaps of all streams, and those of the open streams with the frames they wait for. -/
structure Waits (p : Publisher) : Prop where
  subs : ∀ s ∈ p.subs, s.Awaited p.ring p.published
  gone : ∀ s ∈ p.gone, OneGap p.published s.appended

theorem Waits.step {r : Publisher × Poller} (h : r.1.Waits) (hdistinct : r.1.Distinct)
    (hring : r.1.ring.Holds r.1.published) (hhead : r.1.ring.head + 1 < word32) {a : Action} (ha : a.Retains r.1) :
    (Publisher.step r a).1.Waits := by
  by_cases hpublish : ∃ m, a = .publish m
  · obtain ⟨m, rfl⟩ := hpublish
    exact ⟨fun s hs => (h.subs s hs).publish m (ha s hs), fun s hs => (h.gone s hs).mono [m]⟩
  · have hsame := step_same r a fun m hm => hpublish ⟨m, hm⟩
    have hlists := step_lists hdistinct a
    constructor
    · intro s' hs'
      rw [hsame.ring, hsame.published]
      rw [hlists.subs, List.mem_append] at hs'
      rcases hs' with hkept | hfresh
      · obtain ⟨s, hs, heq⟩ := mem_kept.1 hkept
        have hafter := (h.subs s hs).after hring hhead a
        rw [heq] at hafter
        exact hafter
      · obtain ⟨fd, rfl⟩ := mem_fresh hfresh
        exact .accepted _ _ fd
    · intro s' hs'
      rw [hsame.published]
      rcases (hlists.gone s').1 hs' with hgone | ⟨s, hs, heq⟩
      · exact h.gone s' hgone
      · have hafter := (h.subs s hs).after hring hhead a
        rw [heq] at hafter
        exact hafter.oneGap

/-- In a run in which no frame is published over the one that a waiting Gap ends at, that frame comes next in every stream. -/
theorem run_oneGap (cfg : Config) (actions : List Action)
    (hfew : (actions.flatMap Action.published).length < 2 ^ 32 - 1)
    (heach : Each Action.Retains (init cfg, Poller.init) actions) :
    ∀ s ∈ (run cfg actions).1.subs ++ (run cfg actions).1.gone, OneGap (actions.flatMap Action.published) s.appended := by
  have hless : (run cfg actions).1.published.length + 1 < word32 := by
    rw [run_published]
    simp only [word32]
    omega
  have hwaits : (run cfg actions).1.Waits := by
    clear hfew
    induction actions using List.reverseRecOn with
    | nil => exact ⟨fun s hs => (by cases hs), fun s hs => (by cases hs)⟩
    | append_singleton actions a ih =>
        obtain ⟨hbefore, ha⟩ := Guarded.along_concat.1 heach
        have hfew := few_of_concat hless
        rw [run_concat]
        exact (ih hbefore hfew).step (run_distinct cfg actions) (run_ring cfg actions hfew) (run_head cfg actions hfew) ha
  intro s hs
  rw [← run_published cfg actions]
  rcases List.mem_append.1 hs with hsub | hgone
  · exact (hwaits.subs s hsub).oneGap
  · exact hwaits.gone s hgone

/-- A ring of two frames and a client that has missed one. -/
theorem run_oneGap_lapped :
    let cfg : Config := { ringLog2 := 1 }
    let top := fun bid => Message.top 0 bid (-1) 5 0
    let request : List UInt8 := [16, 0, 4, 1, 0, 0, 0, 0, 1, 0, 0, 0, 0, 0, 0, 0]
    let actions := [.publish (top 10), .publish (top 11), .publish (top 12), .subscribe 7,
      .onReadable 7 [.bytes request], .flushAll 1 fun _ => [.wrote 30]]
    (run cfg actions).1.subs.map (fun s => s.appended) =
        [[(Message.gap 1 2).make 0, (top 11).make 2, (top 12).make 3]] ∧
      (actions.flatMap Action.published).length < 2 ^ 32 - 1 ∧ Each Action.Retains (init cfg, Poller.init) actions ∧
      ∀ s ∈ (run cfg actions).1.subs ++ (run cfg actions).1.gone, OneGap (actions.flatMap Action.published) s.appended :=
  ⟨by decide +kernel, by decide, by decide +kernel, run_oneGap _ _ (by decide) (by decide +kernel)⟩

/-- A Gap that fills the backlog. While the socket takes nothing the ring drops the frame it ends at, and the next frame of the stream is a second Gap. -/
theorem gap_after_gap :
    let cfg : Config := { maxBacklog := 24, ringLog2 := 0 }
    let top := fun bid => Message.top 0 bid (-1) 5 0
    let request : List UInt8 := [16, 0, 4, 1, 0, 0, 0, 0, 1, 0, 0, 0, 0, 0, 0, 0]
    let actions := [.publish (top 10), .subscribe 7, .onReadable 7 [.bytes request], .publish (top 11),
      .flushAll 1 fun _ => [.again], .publish (top 12), .flushAll 2 fun _ => [.wrote 24], .publish (top 13),
      .flushAll 3 fun _ => [.again]]
    (run cfg actions).1.subs.map (fun s => s.appended) = [[(Message.gap 1 2).make 0, (Message.gap 2 4).make 0]] ∧
      ¬ OneGap (actions.flatMap Action.published) [(Message.gap 1 2).make 0, (Message.gap 2 4).make 0] := by
  refine ⟨by decide +kernel, fun h => ?_⟩
  have hdata := h [] ((Message.gap 1 2).make 0) [] ((Message.gap 2 4).make 0) [] rfl (by decide)
    (fun b hb => by cases hb) (by decide)
  exact hdata.2.1 (by decide)

end Publisher

end Matchbox
