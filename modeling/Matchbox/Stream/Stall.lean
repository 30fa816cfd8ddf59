import Matchbox.Stream.Gaps

/-!
# Stalled subscribers

`pump` drops a subscriber with bytes pending that has accepted none of them for the stall timeout. The clock of this test, `stalled_since_ns`, is set and reset in `pump` alone, while bytes also leave in `on_writable`. A run is timed here, with the last time at which the kernel took bytes of each subscriber, so that the test can be compared with what it stands for.

`run_stalled` says that as long as no `on_writable` gets rid of a byte while the clock runs, a subscriber that is dropped has accepted nothing for the whole timeout. `stalled_although_reading` is a reader that takes ten bytes every few seconds and is dropped.
-/

namespace Matchbox

open Wire

/-! ### The stall test -/

namespace Conn

variable {c c' : Conn}

/-- A flush that leaves the backlog as it was has written nothing. -/
theorem Conserved.sent_eq (h : c.Conserved) (h' : c'.Conserved) (happended : c'.appended = c.appended)
    (hbacklog : c'.backlog = c.backlog) : c'.sent = c.sent := by
  have hbytes : c'.sent ++ c'.tx.drop c'.txOff = c.sent ++ c.tx.drop c.txOff := by
    rw [h'.bytes, h.bytes, happended]
  have hlength : (c'.tx.drop c'.txOff).length = (c.tx.drop c.txOff).length := by
    rw [List.length_drop, List.length_drop]
    exact hbacklog
  exact (List.append_inj' hbytes hlength).1

theorem Conserved.foldl_append (h : c.Conserved) (frames : List (List UInt8)) :
    (frames.foldl Conn.append c).Conserved ∧ (frames.foldl Conn.append c).sent = c.sent := by
  induction frames generalizing c with
  | nil => exact ⟨h, rfl⟩
  | cons f frames ih => exact ih (h.append f)

end Conn

namespace Subscriber

variable {s : Subscriber}

/-- The clock of the stall test in a pump that gets rid of nothing. -/
def stalledSince (s : Subscriber) (now : Nat) : Nat := if s.stalledSinceNs = 0 then now else s.stalledSinceNs

/-- The flush of a pump met no fatal error. -/
def flushes (p : Publisher) (now : Nat) (writes : Nat → List WriteResult) (s : Subscriber) : Bool :=
  ((s.pumpTx p.cfg p.ring now).toConn.flushAndArm Poller.init (writes s.fd)).2.2

/-- `flush_all` drops the subscriber by the stall test. -/
def StallDropped (p : Publisher) (now : Nat) (writes : Nat → List WriteResult) (s : Subscriber) : Prop :=
  (s.after p (.flushAll now writes)).2 = false ∧ s.flushes p now writes = true

instance (p : Publisher) (now : Nat) (writes : Nat → List WriteResult) : Decidable (s.StallDropped p now writes) :=
  inferInstanceAs (Decidable (_ ∧ _))

/-- What a pump does to the clock: a fatal error ends the connection, a pump that writes nothing starts the clock and looks at it, any other resets it. -/
theorem afterPump_stalled (hconserved : s.toConn.Conserved) (cfg : Publisher.Config) (ring : ReplayRing) (now : Nat)
    (writes : List WriteResult) :
    (s.afterPump cfg ring now writes).1.toConn.Conserved ∧
      ((s.afterPump cfg ring now writes).2 = false ∧
          ((s.pumpTx cfg ring now).toConn.flushAndArm Poller.init writes).2.2 = false ∨
        (s.afterPump cfg ring now writes).1.sent = s.sent ∧
          (s.afterPump cfg ring now writes).1.stalledSinceNs = s.stalledSince now ∧
          (s.afterPump cfg ring now writes).2 = decide (elapsedNs now (s.stalledSince now) < msToNs cfg.stallTimeoutMs) ∨
        (s.afterPump cfg ring now writes).1.stalledSinceNs = 0 ∧ (s.afterPump cfg ring now writes).2 = true) := by
  obtain ⟨⟨frames, hconn⟩, hstalled⟩ := s.pumpTx_grown cfg ring now
  have htx : (s.pumpTx cfg ring now).toConn.Conserved ∧ (s.pumpTx cfg ring now).sent = s.sent := by
    rw [hconn]
    exact hconserved.foldl_append frames
  have hflush := htx.1.flushAndArm Poller.init writes
  rw [afterPump, pump, pumpFlush]
  dsimp only
  split
  · rename_i hfatal
    exact ⟨hflush, .inl ⟨rfl, hfatal⟩⟩
  · split
    · rename_i hnone
      have hsent := (htx.1.sent_eq hflush (Conn.flushAndArm_appended _ _ _) hnone.2).trans htx.2
      rw [stalledSince, ← hstalled]
      split <;> exact ⟨hflush, .inr (.inl ⟨hsent, rfl, rfl⟩)⟩
    · exact ⟨hflush, .inr (.inr ⟨rfl, rfl⟩)⟩

theorem afterReadable_stalled (hconserved : s.toConn.Conserved) (ring : ReplayRing) (reads : List ReadResult) :
    (s.afterReadable ring reads).1.toConn.Conserved ∧ (s.afterReadable ring reads).1.sent = s.sent ∧
      (s.afterReadable ring reads).1.stalledSinceNs = s.stalledSinceNs := by
  have hrx := s.readLoop_received reads
  have hread : ∀ rx, ({ s with rx := rx } : Subscriber).toConn.Conserved := fun rx =>
    ⟨hconserved.bytes, hconserved.txOff_le⟩
  rcases s.afterReadable_cases ring reads with ⟨-, hnone⟩ | ⟨-, -, haccepted⟩
  · rw [hnone, hrx]
    exact ⟨hread _, rfl, rfl⟩
  · rw [haccepted, hrx, start]
    dsimp only
    split
    · split
      · exact ⟨(hread []).append _, rfl, rfl⟩
      · exact ⟨hread [], rfl, rfl⟩
    · exact ⟨hread [], rfl, rfl⟩

end Subscriber

/-! ### Runs with times -/

namespace Publisher

/-- The publisher with the time of the last call, and for each subscriber the time of the last call in which the kernel took bytes of its stream. -/
structure Timed where
  state : Publisher × Poller
  now : Nat := 0
  tookAt : Nat → Option Nat := fun _ => none

namespace Timed

def step (x : Timed) (c : Nat × Action) : Timed where
  state := Publisher.step x.state c.2
  now := c.1
  tookAt := fun fd =>
    match x.state.1.find fd with
    | none => none
    | some s => if (s.after x.state.1 c.2).1.sent = s.sent then x.tookAt fd else some c.1

/-- A fresh publisher after a list of calls, each with its time. -/
def run (cfg : Config) (calls : List (Nat × Action)) : Timed :=
  calls.foldl step { state := (init cfg, Poller.init) }

theorem run_concat (cfg : Config) (calls : List (Nat × Action)) (c : Nat × Action) :
    run cfg (calls ++ [c]) = (run cfg calls).step c := by
  simp [run]

theorem run_state (cfg : Config) (calls : List (Nat × Action)) :
    (run cfg calls).state = Publisher.run cfg (calls.map Prod.snd) := by
  induction calls using List.reverseRecOn with
  | nil => rfl
  | append_singleton calls c ih =>
      rw [run_concat, List.map_append, List.map_singleton, Publisher.run_concat, ← ih]
      rfl

end Timed

/-- The time that a call of `flush_all` is given is the time at which it is made. -/
def Action.At (t : Nat) : Action → Prop
  | .flushAll now _ => now = t
  | _ => True

instance (t : Nat) : (a : Action) → Decidable (a.At t)
  | .flushAll now _ => inferInstanceAs (Decidable (now = t))
  | .publish _ => .isTrue trivial
  | .subscribe _ => .isTrue trivial
  | .onReadable _ _ => .isTrue trivial
  | .onWritable _ _ => .isTrue trivial

/-- Times that never go back, on the 64-bit clock. -/
structure Clocked (calls : List (Nat × Action)) : Prop where
  ordered : (calls.map Prod.fst).Pairwise (· ≤ ·)
  bounded : ∀ c ∈ calls, c.1 < word64
  read : ∀ c ∈ calls, c.2.At c.1

/-- An `on_writable` that writes nothing while the stall clock of its subscriber runs. -/
def Action.Patient (p : Publisher) : Action → Prop
  | .onWritable fd writes => ∀ s ∈ p.subs, s.fd = fd → s.stalledSinceNs ≠ 0 → (s.afterWritable writes).1.sent = s.sent
  | _ => True

instance (p : Publisher) : (a : Action) → Decidable (a.Patient p)
  | .onWritable fd writes =>
      inferInstanceAs (Decidable (∀ s ∈ p.subs, s.fd = fd → s.stalledSinceNs ≠ 0 → (s.afterWritable writes).1.sent = s.sent))
  | .publish _ => .isTrue trivial
  | .subscribe _ => .isTrue trivial
  | .onReadable _ _ => .isTrue trivial
  | .flushAll _ _ => .isTrue trivial

theorem Clocked.init {calls : List (Nat × Action)} {c : Nat × Action} (h : Clocked (calls ++ [c])) : Clocked calls := by
  have hordered := h.ordered
  rw [List.map_append, List.pairwise_append] at hordered
  exact ⟨hordered.1, fun c' hc' => h.bounded c' (List.mem_append_left _ hc'),
    fun c' hc' => h.read c' (List.mem_append_left _ hc')⟩

theorem Clocked.now_le {calls : List (Nat × Action)} {c : Nat × Action} (h : Clocked (calls ++ [c])) (cfg : Config) :
    (Timed.run cfg calls).now ≤ c.1 := by
  cases calls using List.reverseRecOn with
  | nil => exact Nat.zero_le _
  | append_singleton calls c' =>
      have hordered := h.ordered
      rw [List.map_append, List.pairwise_append] at hordered
      rw [Timed.run_concat]
      exact hordered.2.2 c'.1 (by simp) c.1 (by simp)

/-! ### The clock is never behind -/

/-- A clock that runs was started after the kernel last took bytes. -/
structure Timed.Fair (x : Timed) (s : Subscriber) : Prop where
  conserved : s.toConn.Conserved
  took : ∀ t, x.tookAt s.fd = some t → t ≤ x.now
  started : s.stalledSinceNs ≠ 0 → s.stalledSinceNs ≤ x.now ∧ ∀ t, x.tookAt s.fd = some t → t ≤ s.stalledSinceNs

section Step

variable {x : Timed} {s : Subscriber} {c : Nat × Action}

theorem Timed.tookAt_step (hdistinct : x.state.1.Distinct) (hs : s ∈ x.state.1.subs) :
    (x.step c).tookAt s.fd = if (s.after x.state.1 c.2).1.sent = s.sent then x.tookAt s.fd else some c.1 := by
  simp only [step, find_of_mem hdistinct hs]

theorem Timed.Fair.quiet (h : x.Fair s) (hdistinct : x.state.1.Distinct) (hs : s ∈ x.state.1.subs) (hnow : x.now ≤ c.1)
    (hconserved : (s.after x.state.1 c.2).1.toConn.Conserved) (hsent : (s.after x.state.1 c.2).1.sent = s.sent)
    (hstalled : (s.after x.state.1 c.2).1.stalledSinceNs = s.stalledSinceNs) :
    (x.step c).Fair (s.after x.state.1 c.2).1 := by
  have htook : (x.step c).tookAt (s.after x.state.1 c.2).1.fd = x.tookAt s.fd := by
    rw [Subscriber.after_fd, tookAt_step hdistinct hs, if_pos hsent]
  refine ⟨hconserved, fun t ht => ?_, fun hne => ?_⟩
  · rw [htook] at ht
    exact (h.took t ht).trans hnow
  · rw [hstalled] at hne ⊢
    rw [htook]
    exact ⟨(h.started hne).1.trans hnow, (h.started hne).2⟩

theorem Timed.Fair.stopped (h : x.Fair s) (hdistinct : x.state.1.Distinct) (hs : s ∈ x.state.1.subs) (hnow : x.now ≤ c.1)
    (hconserved : (s.after x.state.1 c.2).1.toConn.Conserved) (hstalled : (s.after x.state.1 c.2).1.stalledSinceNs = 0) :
    (x.step c).Fair (s.after x.state.1 c.2).1 := by
  refine ⟨hconserved, fun t ht => ?_, fun hne => absurd hstalled hne⟩
  rw [Subscriber.after_fd, tookAt_step hdistinct hs] at ht
  split at ht
  · exact (h.took t ht).trans hnow
  · rw [Option.some.injEq] at ht
    exact ht.ge

theorem Timed.Fair.stalledSince_le (h : x.Fair s) {now : Nat} (hnow : x.now ≤ now) :
    s.stalledSince now ≤ now ∧ ∀ t, x.tookAt s.fd = some t → t ≤ s.stalledSince now := by
  rw [Subscriber.stalledSince]
  split
  · exact ⟨le_rfl, fun t ht => (h.took t ht).trans hnow⟩
  · rename_i hne
    exact ⟨(h.started hne).1.trans hnow, (h.started hne).2⟩

theorem Timed.Fair.after (h : x.Fair s) (hdistinct : x.state.1.Distinct) (hs : s ∈ x.state.1.subs) (hnow : x.now ≤ c.1)
    (hread : c.2.At c.1) (hpatient : c.2.Patient x.state.1) (hkept : (s.after x.state.1 c.2).2 = true) :
    (x.step c).Fair (s.after x.state.1 c.2).1 := by
  obtain ⟨t, a⟩ := c
  cases a with
  | publish m => exact h.quiet hdistinct hs hnow h.conserved rfl rfl
  | subscribe fd => exact h.quiet hdistinct hs hnow h.conserved rfl rfl
  | onReadable fd reads =>
      have hquiet : ((s.only fd (Subscriber.afterReadable x.state.1.ring reads)).1.toConn.Conserved ∧
          (s.only fd (Subscriber.afterReadable x.state.1.ring reads)).1.sent = s.sent ∧
          (s.only fd (Subscriber.afterReadable x.state.1.ring reads)).1.stalledSinceNs = s.stalledSinceNs) := by
        rw [Subscriber.only]
        split
        · exact Subscriber.afterReadable_stalled h.conserved _ _
        · exact ⟨h.conserved, rfl, rfl⟩
      exact h.quiet hdistinct hs hnow hquiet.1 hquiet.2.1 hquiet.2.2
  | onWritable fd writes =>
      by_cases hfd : s.fd = fd
      · have hafter : s.after x.state.1 (.onWritable fd writes) = s.afterWritable writes := if_pos hfd
        have hconserved : (s.after x.state.1 (.onWritable fd writes)).1.toConn.Conserved := by
          rw [hafter]
          exact h.conserved.flushAndArm _ _
        -- with the clock at rest the kernel may take bytes here, otherwise it does not
        by_cases hrest : s.stalledSinceNs = 0
        · apply h.stopped hdistinct hs hnow hconserved
          rw [hafter]
          exact hrest
        · apply h.quiet hdistinct hs hnow hconserved
          · rw [hafter]
            exact hpatient s hs hfd hrest
          · rw [hafter]
            rfl
      · have hafter : s.after x.state.1 (.onWritable fd writes) = (s, true) := if_neg hfd
        apply h.quiet hdistinct hs hnow
        · rw [hafter]
          exact h.conserved
        · rw [hafter]
        · rw [hafter]
  | flushAll now writes =>
      have hat : now = t := hread
      by_cases hskip : x.state.1.dirty = false ∧ now < x.state.1.nextTickNs
      · have hafter : s.after x.state.1 (.flushAll now writes) = (s, true) := if_pos hskip
        apply h.quiet hdistinct hs hnow
        · rw [hafter]
          exact h.conserved
        · rw [hafter]
        · rw [hafter]
      · have hafter : s.after x.state.1 (.flushAll now writes) =
            s.afterPump x.state.1.cfg x.state.1.ring now (writes s.fd) := if_neg hskip
        obtain ⟨hconserved, hcases⟩ :=
          Subscriber.afterPump_stalled h.conserved x.state.1.cfg x.state.1.ring now (writes s.fd)
        rw [← hafter] at hconserved hcases
        rcases hcases with ⟨hfalse, -⟩ | ⟨hsent, hsince, -⟩ | ⟨hzero, -⟩
        · rw [hfalse] at hkept
          cases hkept
        · have htook : (x.step (t, .flushAll now writes)).tookAt (s.after x.state.1 (.flushAll now writes)).1.fd =
              x.tookAt s.fd := by
            rw [Subscriber.after_fd, tookAt_step hdistinct hs, if_pos hsent]
          have hnow' : x.now ≤ now := hnow.trans hat.ge
          obtain ⟨hle, hlast⟩ := h.stalledSince_le hnow'
          refine ⟨hconserved, fun t' ht' => ?_, fun _ => ?_⟩
          · rw [htook] at ht'
            exact (h.took t' ht').trans hnow
          · rw [hsince, htook]
            exact ⟨hle.trans hat.le, hlast⟩
        · exact h.stopped hdistinct hs hnow hconserved hzero

theorem Timed.Fair.fresh (hs : s ∈ x.state.1.fresh c.2) : (x.step c).Fair s := by
  obtain ⟨t, a⟩ := c
  cases a with
  | subscribe fd =>
      change s ∈ (if x.state.1.isSubscriber fd then [] else [{ fd := fd }]) at hs
      split at hs
      · cases hs
      · rename_i hnew
        obtain rfl := List.mem_singleton.1 hs
        have hfind : x.state.1.find fd = none := by
          rw [find, List.find?_eq_none]
          intro s' hs' hfd
          exact hnew (List.any_eq_true.2 ⟨s', hs', hfd⟩)
        have htook : (x.step (t, .subscribe fd)).tookAt fd = none := by
          simp only [step, hfind]
        refine ⟨⟨rfl, le_rfl⟩, fun t' ht' => ?_, fun hne => absurd rfl hne⟩
        rw [htook] at ht'
        cases ht'
  | publish m => cases hs
  | onReadable fd reads => cases hs
  | onWritable fd writes => cases hs
  | flushAll now writes => cases hs

end Step

theorem Timed.run_fair (cfg : Config) (calls : List (Nat × Action)) (hclock : Clocked calls)
    (heach : Each Action.Patient (Publisher.init cfg, Poller.init) (calls.map Prod.snd)) :
    ∀ s ∈ (run cfg calls).state.1.subs, (run cfg calls).Fair s := by
  induction calls using List.reverseRecOn with
  | nil =>
      intro s hs
      cases hs
  | append_singleton calls c ih =>
      rw [List.map_append, List.map_singleton] at heach
      obtain ⟨hbefore, hpatient⟩ := Guarded.along_concat.1 heach
      have hstate : (calls.map Prod.snd).foldl Publisher.step (Publisher.init cfg, Poller.init) = (run cfg calls).state :=
        (run_state cfg calls).symm
      have hdistinct : (run cfg calls).state.1.Distinct := by
        rw [run_state]
        exact run_distinct cfg _
      rw [hstate] at hpatient
      intro s' hs'
      rw [run_concat] at hs' ⊢
      change s' ∈ (Publisher.step (run cfg calls).state c.2).1.subs at hs'
      rw [(step_lists hdistinct c.2).subs, List.mem_append] at hs'
      rcases hs' with hkept | hfresh
      · obtain ⟨s, hs, heq⟩ := mem_kept.1 hkept
        have hafter := (ih hclock.init hbefore s hs).after hdistinct hs (hclock.now_le cfg) (hclock.read c (by simp))
          hpatient (by rw [heq])
        rw [heq] at hafter
        exact hafter
      · exact .fresh hfresh

theorem elapsedNs_of_le {now since : Nat} (hle : since ≤ now) (hnow : now < word64) : elapsedNs now since = now - since := by
  have hsplit : now + word64 - since = now - since + word64 := by omega
  rw [elapsedNs, hsplit, Nat.add_mod_right]
  exact Nat.mod_eq_of_lt (by omega)

/-- In a run in which no `on_writable` writes while the clock of its subscriber runs, a subscriber is dropped by the stall test only if the kernel has taken nothing of its stream for the whole timeout, this pump included. -/
theorem run_stalled (cfg : Config) (hms : cfg.stallTimeoutMs * 1000000 < 2 ^ 64) (calls : List (Nat × Action)) (now : Nat)
    (writes : Nat → List WriteResult) (hclock : Clocked (calls ++ [(now, .flushAll now writes)]))
    (heach : Each Action.Patient (init cfg, Poller.init) (calls.map Prod.snd)) :
    ∀ s ∈ (Timed.run cfg calls).state.1.subs, s.StallDropped (Timed.run cfg calls).state.1 now writes →
      (s.after (Timed.run cfg calls).state.1 (.flushAll now writes)).1.sent = s.sent ∧
        ∀ t, (Timed.run cfg calls).tookAt s.fd = some t → t + cfg.stallTimeoutMs * 1000000 ≤ now := by
  intro s hs hdrop
  have hfair := Timed.run_fair cfg calls hclock.init heach s hs
  have hcfg : (Timed.run cfg calls).state.1.cfg = cfg := by
    rw [Timed.run_state]
    exact run_cfg cfg _
  obtain ⟨hfalse, hflushes⟩ := hdrop
  have hafter : s.after (Timed.run cfg calls).state.1 (.flushAll now writes) =
      s.afterPump (Timed.run cfg calls).state.1.cfg (Timed.run cfg calls).state.1.ring now (writes s.fd) := by
    rw [Subscriber.after] at hfalse ⊢
    split at hfalse
    · cases hfalse
    · rename_i hpump
      exact if_neg hpump
  obtain ⟨-, hcases⟩ := Subscriber.afterPump_stalled hfair.conserved (Timed.run cfg calls).state.1.cfg
    (Timed.run cfg calls).state.1.ring now (writes s.fd)
  rw [← hafter] at hcases
  rcases hcases with ⟨-, hfatal⟩ | ⟨hsent, -, helapsed⟩ | ⟨-, htrue⟩
  · rw [Subscriber.flushes, hfatal] at hflushes
    cases hflushes
  · refine ⟨hsent, fun t ht => ?_⟩
    obtain ⟨hle, hlast⟩ := hfair.stalledSince_le (hclock.now_le cfg)
    have hword : now < word64 := hclock.bounded _ (List.mem_append_right _ (List.mem_singleton.2 rfl))
    have hns : msToNs cfg.stallTimeoutMs = cfg.stallTimeoutMs * 1000000 := Nat.mod_eq_of_lt hms
    rw [hfalse, hcfg, elapsedNs_of_le hle hword, hns, eq_comm, decide_eq_false_iff_not] at helapsed
    have hbefore := hlast t ht
    omega
  · rw [htrue] at hfalse
    cases hfalse

/-- A reader that takes ten bytes and then nothing is dropped ten seconds after the pump that noticed it. -/
theorem run_stalled_silent :
    let cfg : Config := {}
    let request : List UInt8 := [16, 0, 4, 1, 0, 0, 0, 0, 1, 0, 0, 0, 0, 0, 0, 0]
    let calls := [(1, .publish (.top 0 10 (-1) 5 0)), (1, .subscribe 7), (1, .onReadable 7 [.bytes request]),
      (2, .flushAll 2 fun _ => [.wrote 10]), (3000000, .flushAll 3000000 fun _ => [])]
    let now := 10003000000
    let writes := fun _ => []
    (Timed.run cfg calls).tookAt 7 = some 2 ∧
      (∃ s ∈ (Timed.run cfg calls).state.1.subs, s.StallDropped (Timed.run cfg calls).state.1 now writes) ∧
      Clocked (calls ++ [(now, .flushAll now writes)]) ∧
      Each Action.Patient (init cfg, Poller.init) (calls.map Prod.snd) ∧
      ∀ s ∈ (Timed.run cfg calls).state.1.subs, s.StallDropped (Timed.run cfg calls).state.1 now writes →
        (s.after (Timed.run cfg calls).state.1 (.flushAll now writes)).1.sent = s.sent ∧
          ∀ t, (Timed.run cfg calls).tookAt s.fd = some t → t + cfg.stallTimeoutMs * 1000000 ≤ now := by
  intro cfg request calls now writes
  have hclock : Clocked (calls ++ [(now, .flushAll now writes)]) := ⟨by decide, by decide, by decide⟩
  have heach : Each Action.Patient (init cfg, Poller.init) (calls.map Prod.snd) := by decide +kernel
  exact ⟨by decide +kernel, by decide +kernel, hclock, heach, run_stalled cfg (by decide) calls now writes hclock heach⟩

/-- A reader that takes five bytes in `on_writable` every five seconds, each time before a pump that gets rid of nothing. It is dropped in the very iteration in which it takes the last five. -/
theorem stalled_although_reading :
    let request : List UInt8 := [16, 0, 4, 1, 0, 0, 0, 0, 1, 0, 0, 0, 0, 0, 0, 0]
    let calls := [(1, .publish (.top 0 10 (-1) 5 0)), (1, .subscribe 7), (1, .onReadable 7 [.bytes request]),
      (3000000, .flushAll 3000000 fun _ => [.again]),
      (5000000000, .onWritable 7 [.wrote 5, .again]), (5000000000, .flushAll 5000000000 fun _ => [.again]),
      (10003000000, .onWritable 7 [.wrote 5, .again])]
    let now := 10003000000
    let writes := fun _ => [.again]
    let x := Timed.run {} calls
    Clocked (calls ++ [(now, .flushAll now writes)]) ∧
      ∃ s ∈ x.state.1.subs, s.StallDropped x.state.1 now writes ∧ s.sent.length = 10 ∧ x.tookAt s.fd = some now :=
  ⟨⟨by decide, by decide, by decide⟩, by decide +kernel⟩

end Publisher

end Matchbox
