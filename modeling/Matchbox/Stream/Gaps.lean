import Matchbox.Lib.Guarded
import Matchbox.Stream.Client
import Matchbox.Stream.Delivery

/-!
# Gaps

A Gap should announce a hole: it ends after it begins, and both clients count its length as lost. A client that asks for frames the publisher has not reached is sent a Gap that runs backwards. `run_announces_iff` says that this is the only way to get one.
-/

namespace Matchbox

open Wire LittleEndian

/-! ### What a Gap announces -/

namespace Wire

/-- A Gap that both clients add to their counters as the number of frames lost. -/
structure Announces (frame : List UInt8) : Prop where
  lt : (Gap.ofBytes frame).first < (Gap.ofBytes frame).resumedAt
  runMd : ∀ c : RunMd, c.lost + word32 ≤ word64 →
    (c.onFrame frame).lost = c.lost + ((Gap.ofBytes frame).resumedAt - (Gap.ofBytes frame).first)
  mdStream : ∀ c : MdStream, ∃ c', c.handle (Header.ofBytes frame).type (Header.ofBytes frame).seq frame = some c' ∧
    c'.lost = c.lost + ((Gap.ofBytes frame).resumedAt - (Gap.ofBytes frame).first : Nat)

/-- The number of frames that the Gaps of a stream say are lost. -/
def lostIn (frames : List (List UInt8)) : Nat :=
  ((frames.filter fun f => IsControl .gap f).map fun f => (Gap.ofBytes f).resumedAt - (Gap.ofBytes f).first).sum

theorem RunMd.onFrame_gap (c : RunMd) (a b : Nat) : (c.onFrame ((Message.gap a b).make 0)).lost =
    wrap64 (c.lost + wrap64 (b % 2 ^ 64 + 2 ^ 64 - a % 2 ^ 64)) := by
  rw [RunMd.onFrame, Message.ofBytes_make_self, Gap.ofBytes_make]
  rfl

theorem announces_gap {a b : Nat} (hlt : a < b) (hb : b < word32) : Announces ((Message.gap a b).make 0) := by
  have hb64 : b % 2 ^ 64 = b := Nat.mod_eq_of_lt (hb.trans (by decide))
  have ha64 : a % 2 ^ 64 = a := Nat.mod_eq_of_lt ((hlt.trans hb).trans (by decide))
  have hgap : Gap.ofBytes ((Message.gap a b).make 0) = ⟨a, b⟩ := by rw [Gap.ofBytes_make, ha64, hb64]
  refine ⟨by rw [hgap]; exact hlt, fun c hc => ?_, fun c => ?_⟩
  · rw [hgap, RunMd.onFrame_gap, ha64, hb64]
    simp only [wrap64, word32, word64] at *
    omega
  · have hhandle := c.handle_gap a b
    rw [ha64, hb64] at hhandle
    rw [Message.ofBytes_make_self, hgap]
    refine ⟨_, hhandle, ?_⟩
    dsimp only
    omega

theorem not_announces_gap {a b : Nat} (hle : b ≤ a) (ha : a < word64) : ¬ Announces ((Message.gap a b).make 0) := by
  intro h
  have hlt := h.lt
  have hb64 : b % 2 ^ 64 = b := Nat.mod_eq_of_lt (hle.trans_lt ha)
  have ha64 : a % 2 ^ 64 = a := Nat.mod_eq_of_lt ha
  rw [Gap.ofBytes_make, ha64, hb64] at hlt
  exact absurd hlt (Nat.not_lt.2 hle)

theorem lostIn_append (frames more : List (List UInt8)) : lostIn (frames ++ more) = lostIn frames + lostIn more := by
  rw [lostIn, lostIn, lostIn, List.filter_append, List.map_append, List.sum_append]

theorem lostIn_singleton (f : List UInt8) :
    lostIn [f] = if IsControl .gap f then (Gap.ofBytes f).resumedAt - (Gap.ofBytes f).first else 0 := by
  by_cases hgap : IsControl .gap f <;> simp [lostIn, hgap]

end Wire

/-! ### Conditions on a run -/

namespace Publisher

/-- Every call of a run meets a condition on the publisher it finds. -/
abbrev Each (C : Publisher → Action → Prop) (r : Publisher × Poller) (actions : List Action) : Prop :=
  Guarded.Along step (fun r => C r.1) r actions

end Publisher

namespace Subscriber

theorem subscribeFrom_lt (bytes : List UInt8) : subscribeFrom bytes < word64 := by
  have hlt := decode_lt ((bytes.drop 8).take 8)
  have hpow : 256 ^ ((bytes.drop 8).take 8).length ≤ 256 ^ 8 := by
    apply Nat.pow_le_pow_right (by decide)
    rw [List.length_take]
    omega
  exact hlt.trans_le hpow

end Subscriber

/-! ### Gaps that announce a hole -/

namespace Subscriber

/-- What the Gaps in a subscriber's stream should be. -/
structure GapsAnnounce (s : Subscriber) : Prop where
  announces : ∀ f ∈ s.appended, IsControl .gap f → Announces f
  /-- All of them together, so that a counter that starts below `2 ^ 64 - 2 ^ 32` does not wrap. -/
  lost : lostIn s.appended < word32

theorem GapsAnnounce.of_longer {s s' : Subscriber} (h : s'.GapsAnnounce) (hpre : s.appended <+: s'.appended) :
    s.GapsAnnounce := by
  obtain ⟨more, hmore⟩ := hpre
  have hlost := h.lost
  rw [← hmore, lostIn_append] at hlost
  refine ⟨fun f hf => h.announces f ?_, by omega⟩
  rw [← hmore]
  exact List.mem_append_left _ hf

/-- The same with the cursor that bounds the sum. -/
structure Announced (ring : ReplayRing) (s : Subscriber) : Prop where
  announces : ∀ f ∈ s.appended, IsControl .gap f → Announces f
  silent : s.subscribed = false → s.appended = []
  lost : s.subscribed = true → lostIn s.appended < s.nextSeq
  cursor : s.subscribed = true → s.nextSeq ≤ ring.head + 1

variable {ring : ReplayRing} {published : List Message} {s : Subscriber} {cfg : Publisher.Config} {now : Nat}

theorem Announced.gapsAnnounce (h : s.Announced ring) (hhead : ring.head + 1 < word32) : s.GapsAnnounce := by
  refine ⟨h.announces, ?_⟩
  cases hsub : s.subscribed with
  | false =>
      rw [h.silent hsub]
      decide
  | true => exact ((h.lost hsub).trans_le (h.cursor hsub)).trans hhead

theorem Announced.put (h : s.Announced ring) (hsub : s.subscribed = true) {f : List UInt8} {next : Nat}
    (hf : IsControl .gap f → Announces f ∧ s.nextSeq + ((Gap.ofBytes f).resumedAt - (Gap.ofBytes f).first) ≤ next)
    (hnext : s.nextSeq ≤ next) (hcursor : next ≤ ring.head + 1) (tx stalled : Nat) (asked : List Bool) :
    Announced ring { s.put ring.head f with nextSeq := next, lastTxNs := tx, stalledSinceNs := stalled, asked := asked } where
  announces := by
    intro g hg hgap
    rcases List.mem_append.1 hg with hold | hnew
    · exact h.announces g hold hgap
    · rw [List.mem_singleton.1 hnew] at hgap ⊢
      exact (hf hgap).1
  silent := by
    intro hfalse
    rw [show s.subscribed = false from hfalse] at hsub
    cases hsub
  lost := by
    intro _
    have hlost := h.lost hsub
    show lostIn (s.appended ++ [f]) < next
    rw [lostIn_append, lostIn_singleton]
    split
    · rename_i hgap
      have := (hf hgap).2
      omega
    · omega
  cursor := fun _ => hcursor

theorem Announced.append (h : s.Announced ring) (hring : ring.Holds published) (hhead : ring.head + 1 < word32)
    {s' : Subscriber} (happended : s.Appended cfg ring now s') : s'.Announced ring := by
  cases happended with
  | clock => exact ⟨h.announces, h.silent, h.lost, h.cursor⟩
  | gap hsub hroom hlap =>
      have hold := ring.oldest_le
      apply h.put hsub _ hlap.le hold now s.stalledSinceNs s.asked
      intro _
      have holdest : ring.oldest % 2 ^ 64 = ring.oldest := Nat.mod_eq_of_lt ((hold.trans_lt hhead).trans (by decide))
      have hnext : s.nextSeq % 2 ^ 64 = s.nextSeq := Nat.mod_eq_of_lt (((hlap.le.trans hold).trans_lt hhead).trans (by decide))
      refine ⟨announces_gap hlap (hold.trans_lt hhead), ?_⟩
      rw [Gap.ofBytes_make, holdest, hnext]
      dsimp only
      omega
  | data hsub hroom hold hle =>
      have hone := ring.one_le_oldest
      have hnext : (s.nextSeq + 1) % word32 = s.nextSeq + 1 := Nat.mod_eq_of_lt (by omega)
      obtain ⟨m, -, hframe⟩ := hring.bytes s.nextSeq (by rw [ReplayRing.holds_iff]; exact ⟨hold, hle, by omega⟩)
      rw [copy, hframe, hnext]
      apply h.put hsub _ (Nat.le_succ _) (Nat.succ_le_succ hle) now s.stalledSinceNs
      intro hgap
      exact absurd hgap (m.not_isControl_make (by omega) (by omega) .gap)
  | heartbeat hsub hempty hdone =>
      apply h.put hsub _ le_rfl (h.cursor hsub) now s.stalledSinceNs s.asked
      intro hgap
      rw [Message.isControl_make] at hgap
      cases hgap

theorem Announced.congr (h : s.Announced ring) {s' : Subscriber} (happended : s'.appended = s.appended)
    (hsub : s'.subscribed = s.subscribed) (hnext : s'.nextSeq = s.nextSeq) : s'.Announced ring := by
  constructor
  · rw [happended]
    exact h.announces
  · rw [happended, hsub]
    exact h.silent
  · rw [happended, hsub, hnext]
    exact h.lost
  · rw [hsub, hnext]
    exact h.cursor

theorem Announced.mono (h : s.Announced ring) {ring' : ReplayRing} (hhead : ring.head ≤ ring'.head) : s.Announced ring' :=
  ⟨h.announces, h.silent, h.lost, fun hsub => (h.cursor hsub).trans (Nat.succ_le_succ hhead)⟩

/-- A Subscribe that is not ahead of the stream is answered without a Gap. -/
theorem Announced.start (h : s.Announced ring) (hsub : s.subscribed = false) (hhead : ring.head + 1 < word32)
    (hfirst : subscribeFrom s.rx ≤ ring.head + 1) : (s.start ring).Announced ring := by
  have happended := h.silent hsub
  have hnext : (ring.head + 1) % word32 = ring.head + 1 := Nat.mod_eq_of_lt hhead
  rw [Subscriber.start, hnext]
  dsimp only
  rw [if_neg (Nat.not_lt.2 hfirst)]
  split
  · refine ⟨h.announces, fun hfalse => Bool.noConfusion hfalse, fun _ => ?_, fun _ => le_rfl⟩
    show lostIn s.appended < ring.head + 1
    rw [happended]
    exact Nat.succ_pos _
  · rename_i hnot
    have hmod : subscribeFrom s.rx % word32 = subscribeFrom s.rx := Nat.mod_eq_of_lt (hfirst.trans_lt hhead)
    refine ⟨h.announces, fun hfalse => Bool.noConfusion hfalse, fun _ => ?_, fun _ => ?_⟩
    · show lostIn s.appended < subscribeFrom s.rx % word32
      rw [happended, hmod]
      exact Nat.pos_of_ne_zero fun hzero => hnot (.inl hzero)
    · show subscribeFrom s.rx % word32 ≤ ring.head + 1
      rw [hmod]
      exact hfirst

/-- A Subscribe that is ahead of the stream is answered with a Gap that runs backwards. -/
theorem start_ahead (s : Subscriber) (hhead : ring.head + 1 < word32) (hfirst : ring.head + 1 < subscribeFrom s.rx) :
    (s.start ring).appended = s.appended ++ [(Message.gap (subscribeFrom s.rx) (ring.head + 1)).make 0] := by
  have hnext : (ring.head + 1) % word32 = ring.head + 1 := Nat.mod_eq_of_lt hhead
  rw [Subscriber.start, hnext]
  dsimp only
  rw [if_pos (.inr hfirst), if_pos hfirst]
  rfl

end Subscriber

namespace Publisher

/-- A call that does not accept a Subscribe for frames beyond the next one. -/
def Action.Reached (p : Publisher) : Action → Prop
  | .onReadable fd reads => ∀ first ∈ (p.find fd).bind (Subscriber.request? reads), first ≤ p.ring.head + 1
  | _ => True

instance (p : Publisher) : (a : Action) → Decidable (a.Reached p)
  | .onReadable fd reads =>
      inferInstanceAs (Decidable (∀ first ∈ (p.find fd).bind (Subscriber.request? reads), first ≤ p.ring.head + 1))
  | .publish _ => .isTrue trivial
  | .subscribe _ => .isTrue trivial
  | .onWritable _ _ => .isTrue trivial
  | .flushAll _ _ => .isTrue trivial

variable {p : Publisher}

theorem announced_after (hdistinct : p.Distinct) (hring : p.ring.Holds p.published) (hhead : p.ring.head + 1 < word32)
    {a : Action} (ha : a.Reached p) {s : Subscriber} (hs : s ∈ p.subs) (h : s.Announced p.ring) :
    (s.after p a).1.Announced p.ring := by
  refine Subscriber.after_rule hhead a (fun h happended hsub hnext => h.congr happended hsub hnext)
    (fun happended h => h.append hring hhead happended) ?_ h
  intro reads hact hrequest hsub hread
  subst hact
  apply hread.start hsub hhead
  apply ha
  rw [find_of_mem hdistinct hs]
  exact hrequest

theorem run_head (cfg : Config) (actions : List Action) (hfew : (run cfg actions).1.published.length + 1 < word32) :
    (run cfg actions).1.ring.head + 1 < word32 := by
  rw [(run_ring cfg actions hfew).head]
  exact hfew

theorem few_of_concat {cfg : Config} {actions : List Action} {a : Action}
    (hfew : (run cfg (actions ++ [a])).1.published.length + 1 < word32) :
    (run cfg actions).1.published.length + 1 < word32 := by
  rw [run_concat, step_published, List.length_append] at hfew
  omega

theorem run_announced (cfg : Config) (actions : List Action) (hfew : (run cfg actions).1.published.length + 1 < word32)
    (heach : Each Action.Reached (init cfg, Poller.init) actions) :
    ∀ s ∈ (run cfg actions).1.subs ++ (run cfg actions).1.gone, s.Announced (run cfg actions).1.ring := by
  induction actions using List.reverseRecOn with
  | nil => exact fun s hs => by cases hs
  | append_singleton actions a ih =>
      obtain ⟨hbefore, ha⟩ := Guarded.along_concat.1 heach
      have hless := few_of_concat hfew
      have hring := run_ring cfg actions hless
      have h := ih hless hbefore
      have hhead : (run cfg actions).1.ring.head ≤ (run cfg (actions ++ [a])).1.ring.head := by
        rw [hring.head, (run_ring cfg _ hfew).head, run_concat, step_published, List.length_append]
        omega
      rw [run_concat] at hhead ⊢
      refine step_forall (run_distinct cfg actions) ?_ ?_ ?_
      · exact fun s hs => (h s (List.mem_append_right _ hs)).mono hhead
      · exact fun s hs => (announced_after (run_distinct cfg actions) hring (run_head cfg actions hless) ha hs
          (h s (List.mem_append_left _ hs))).mono hhead
      · exact fun fd => ⟨fun f hf => (by cases hf), fun _ => rfl, fun hsub => Bool.noConfusion hsub,
          fun hsub => Bool.noConfusion hsub⟩

/-! ### A stream only grows -/

theorem after_appended (hhead : p.ring.head + 1 < word32) (a : Action) (s : Subscriber) :
    s.appended <+: (s.after p a).1.appended := by
  have hrefl : s.appended <+: s.appended := List.prefix_rfl
  refine Subscriber.after_rule (P := fun s' => s.appended <+: s'.appended) hhead a ?_ ?_ ?_ hrefl
  · intro s₁ s₂ h happended _ _
    rw [happended]
    exact h
  · intro now s₁ s₂ happended h
    apply h.trans
    cases happended with
    | clock => exact List.prefix_rfl
    | gap => exact List.prefix_append _ _
    | data => exact List.prefix_append _ _
    | heartbeat => exact List.prefix_append _ _
  · intro reads _ _ _ h
    apply h.trans
    rw [Subscriber.start]
    split
    · split
      · exact List.prefix_append _ _
      · exact List.prefix_rfl
    · exact List.prefix_rfl

/-- A subscriber there was before a call is there after it, with a longer stream. -/
theorem exists_of_mem {r : Publisher × Poller} (hdistinct : r.1.Distinct) (hhead : r.1.ring.head + 1 < word32) (a : Action)
    {s : Subscriber} (hs : s ∈ r.1.subs ++ r.1.gone) :
    ∃ s' ∈ (step r a).1.subs ++ (step r a).1.gone, s.appended <+: s'.appended := by
  rcases List.mem_append.1 hs with hmem | hmem
  · exact ⟨_, mem_after hdistinct a hmem, after_appended hhead a s⟩
  · exact ⟨s, List.mem_append_right _ (((step_lists hdistinct a).gone s).2 (.inl hmem)), List.prefix_rfl⟩

/-- Every Gap in every stream announces a hole that both clients count, exactly if no Subscribe is accepted for frames that the publisher has not reached. -/
theorem run_announces_iff (cfg : Config) (actions : List Action)
    (hfew : (actions.flatMap Action.published).length < 2 ^ 32 - 1) :
    (∀ s ∈ (run cfg actions).1.subs ++ (run cfg actions).1.gone, s.GapsAnnounce) ↔
      Each Action.Reached (init cfg, Poller.init) actions := by
  have hless : (run cfg actions).1.published.length + 1 < word32 := by
    rw [run_published]
    simp only [word32]
    omega
  clear hfew
  constructor
  · intro h
    induction actions using List.reverseRecOn with
    | nil => trivial
    | append_singleton actions a ih =>
        have hbefore := few_of_concat hless
        have hhead := run_head cfg actions hbefore
        have hdistinct := run_distinct cfg actions
        rw [run_concat] at h
        apply Guarded.along_concat.2
        constructor
        · apply ih hbefore
          intro s hs
          obtain ⟨s', hs', hpre⟩ := exists_of_mem hdistinct hhead a hs
          exact (h s' hs').of_longer hpre
        · cases a with
          | onReadable fd reads =>
              intro first hfirst
              by_contra hahead
              obtain ⟨s, hs, hfirst⟩ := Option.bind_eq_some_iff.1 hfirst
              have hmem := List.mem_of_find?_eq_some hs
              have hfd : s.fd = fd := by simpa using List.find?_some hs
              have hgaps := h _ (mem_after hdistinct (.onReadable fd reads) hmem)
              rcases s.afterReadable_cases (run cfg actions).1.ring reads with ⟨hnone, -⟩ | ⟨hrequest, -, haccepted⟩
              · rw [hnone] at hfirst
                cases hfirst
              · rw [hrequest, Option.some.injEq] at hfirst
                subst hfirst
                rw [Subscriber.after, Subscriber.only, if_pos hfd, haccepted] at hgaps
                have hannounces := hgaps.announces
                rw [Subscriber.start_ahead _ hhead (Nat.not_le.1 hahead)] at hannounces
                refine not_announces_gap (Nat.not_le.1 hahead).le (Subscriber.subscribeFrom_lt _)
                  (hannounces _ (List.mem_append_right _ (List.mem_singleton.2 rfl)) ?_)
                rw [Message.isControl_make]
                rfl
          | publish m => trivial
          | subscribe fd => trivial
          | onWritable fd writes => trivial
          | flushAll now writes => trivial
  · intro heach s hs
    exact (run_announced cfg actions hless heach s hs).gapsAnnounce (run_head cfg actions hless)

/-- A client that asks for frames still in the ring, and one that asks for a frame the ring has dropped. -/
theorem run_announces_iff_resumed :
    let cfg : Config := { ringLog2 := 1 }
    let top := fun bid => Message.top 0 bid (-1) 5 0
    let request := fun first : UInt8 => [16, 0, 4, 1, 0, 0, 0, 0, first, 0, 0, 0, 0, 0, 0, 0]
    let actions := [.publish (top 10), .publish (top 11), .publish (top 12), .subscribe 7, .subscribe 8,
      .onReadable 7 [.bytes (request 3)], .onReadable 8 [.bytes (request 1)], .flushAll 1 fun _ => []]
    (actions.flatMap Action.published).length < 2 ^ 32 - 1 ∧
      (∀ s ∈ (run cfg actions).1.subs ++ (run cfg actions).1.gone, s.GapsAnnounce) ∧
      (run cfg actions).1.subs.map (fun s => lostIn s.appended) = [0, 1] :=
  ⟨by decide, (run_announces_iff _ _ (by decide)).2 (by decide +kernel), by decide +kernel⟩

/-- A client asks a fresh publisher for frame 5. The Gap it gets runs from 5 to 1: it takes four frames off the count of the one client and wraps that of the other. -/
theorem gap_backwards :
    let request : List UInt8 := [16, 0, 4, 1, 0, 0, 0, 0, 5, 0, 0, 0, 0, 0, 0, 0]
    let gap := (Message.gap 5 1).make 0
    (run {} [.subscribe 7, .onReadable 7 [.bytes request]]).1.subs.map (fun s => s.appended) = [[gap]] ∧
      IsControl .gap gap ∧ Gap.ofBytes gap = ⟨5, 1⟩ ∧
      (MdStream.handle { nextSeq := 5 } (Header.ofBytes gap).type (Header.ofBytes gap).seq gap).map (fun c => c.lost) =
        some (-4) ∧
      (RunMd.onFrame {} gap).lost = 2 ^ 64 - 4 := by
  decide +kernel

end Publisher

end Matchbox
