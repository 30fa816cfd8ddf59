import Mathlib.Logic.Relation
import Mathlib.Data.List.Nodup
import Matchbox.Stream.Publisher

/-!
# One call, one subscriber

A call into the publisher acts on each subscriber by itself: `Subscriber.after` is what becomes of one of them, and whether it is kept. With distinct descriptors, `step_lists` says that the lists of the publisher are exactly these results, so that what holds of every subscriber over whole runs is proved for one subscriber and one call at a time.
-/

namespace Matchbox

open Wire

/-! ### Fields that a part of a call leaves alone -/

namespace Conn

/-- What a flush does to the connection does not depend on the registrations. -/
theorem flushAndArm_poller (c : Conn) (p p' : Poller) (writes : List WriteResult) :
    (c.flushAndArm p writes).1 = (c.flushAndArm p' writes).1 ∧
      (c.flushAndArm p writes).2.2 = (c.flushAndArm p' writes).2.2 := by
  rw [flushAndArm, flushAndArm]
  dsimp only
  split
  · exact ⟨rfl, rfl⟩
  · split <;> exact ⟨rfl, rfl⟩

@[simp] theorem flushAndArm_fd (c : Conn) (p : Poller) (results : List WriteResult) :
    (c.flushAndArm p results).1.fd = c.fd := by
  obtain ⟨_, _, _, _, h⟩ := c.flushAndArm_written p results
  rw [h]

end Conn

namespace Subscriber

variable {cfg : Publisher.Config} {ring : ReplayRing} {now : Nat}

theorem pump_poller (s : Subscriber) (cfg : Publisher.Config) (ring : ReplayRing) (now : Nat) (p p' : Poller)
    (writes : List WriteResult) :
    (s.pump cfg ring p now writes).1 = (s.pump cfg ring p' now writes).1 ∧
      (s.pump cfg ring p now writes).2.2 = (s.pump cfg ring p' now writes).2.2 := by
  obtain ⟨hconn, hok⟩ := (s.pumpTx cfg ring now).toConn.flushAndArm_poller p p' writes
  rw [pump, pump, pumpFlush, pumpFlush]
  dsimp only
  rw [hconn, hok]
  split
  · exact ⟨rfl, rfl⟩
  · split <;> exact ⟨rfl, rfl⟩

/-- Frames were appended, and the stall clock was left alone. -/
def Grown (s s' : Subscriber) : Prop :=
  (∃ frames : List (List UInt8), s'.toConn = frames.foldl Conn.append s.toConn) ∧ s'.stalledSinceNs = s.stalledSinceNs

theorem Grown.refl (s : Subscriber) : s.Grown s := ⟨⟨[], rfl⟩, rfl⟩

theorem Grown.trans {s s' s'' : Subscriber} (h : s.Grown s') (h' : s'.Grown s'') : s.Grown s'' := by
  obtain ⟨⟨frames, hconn⟩, hstalled⟩ := h
  obtain ⟨⟨frames', hconn'⟩, hstalled'⟩ := h'
  exact ⟨⟨frames ++ frames', by rw [hconn', hconn, List.foldl_append]⟩, hstalled'.trans hstalled⟩

theorem pumpGap_grown (s : Subscriber) (cfg : Publisher.Config) (ring : ReplayRing) (now : Nat) :
    s.Grown (s.pumpGap cfg ring now) := by
  rw [pumpGap]
  split
  · exact ⟨⟨[_], rfl⟩, rfl⟩
  · exact .refl s

theorem pumpFrames_grown (cfg : Publisher.Config) (ring : ReplayRing) (now fuel : Nat) (s : Subscriber) :
    s.Grown (pumpFrames cfg ring now fuel s) := by
  induction fuel generalizing s with
  | zero => exact .refl s
  | succ fuel ih =>
      rw [pumpFrames]
      split
      · have hcopy : s.Grown (s.copy ring now) := ⟨⟨[_], rfl⟩, rfl⟩
        exact hcopy.trans (ih _)
      · exact .refl s

theorem pumpHeartbeat_grown (s : Subscriber) (cfg : Publisher.Config) (ring : ReplayRing) (now : Nat) :
    s.Grown (s.pumpHeartbeat cfg ring now) := by
  rw [pumpHeartbeat]
  split
  · exact ⟨⟨[_], rfl⟩, rfl⟩
  · exact .refl s

theorem pumpTx_grown (s : Subscriber) (cfg : Publisher.Config) (ring : ReplayRing) (now : Nat) :
    s.Grown (s.pumpTx cfg ring now) := by
  have hclock : s.Grown (if s.lastTxNs = 0 then { s with lastTxNs := now } else s) := by
    split
    · exact ⟨⟨[], rfl⟩, rfl⟩
    · exact .refl s
  rw [pumpTx]
  refine hclock.trans ?_
  generalize (if s.lastTxNs = 0 then { s with lastTxNs := now } else s) = s₀
  split
  · exact ((s₀.pumpGap_grown cfg ring now).trans (pumpFrames_grown cfg ring now _ _)).trans
      (pumpHeartbeat_grown _ cfg ring now)
  · exact .refl s₀

theorem Grown.fd {s s' : Subscriber} (h : s.Grown s') : s'.fd = s.fd := by
  obtain ⟨⟨frames, hconn⟩, -⟩ := h
  rw [hconn]
  clear hconn
  induction frames using List.reverseRecOn with
  | nil => rfl
  | append_singleton frames f ih =>
      rw [List.foldl_append]
      exact ih

/-- A pump changes the connection as its flush does, and keeps no subscriber whose flush failed. -/
theorem pump_flushed (s : Subscriber) (cfg : Publisher.Config) (ring : ReplayRing) (now : Nat) (poller : Poller)
    (writes : List WriteResult) :
    ∃ stalled kept, s.pump cfg ring poller now writes =
      ({ s.pumpTx cfg ring now with
          toConn := ((s.pumpTx cfg ring now).toConn.flushAndArm poller writes).1
          stalledSinceNs := stalled },
        ((s.pumpTx cfg ring now).toConn.flushAndArm poller writes).2.1, kept) ∧
      (kept = true → ((s.pumpTx cfg ring now).toConn.flushAndArm poller writes).2.2 = true) := by
  rw [pump, pumpFlush]
  -- the flush itself must not be computed when two sides are compared
  generalize (s.pumpTx cfg ring now).toConn.flushAndArm poller writes = flushed
  dsimp only
  split
  · exact ⟨_, _, rfl, fun hkept => by cases hkept⟩
  · rename_i hflush
    have hok := Bool.eq_true_of_not_eq_false hflush
    split
    · split
      · exact ⟨_, _, rfl, fun _ => hok⟩
      · exact ⟨_, _, rfl, fun _ => hok⟩
    · exact ⟨_, _, rfl, fun _ => hok⟩

theorem pump_eq (s : Subscriber) (cfg : Publisher.Config) (ring : ReplayRing) (now : Nat) (poller : Poller)
    (writes : List WriteResult) :
    ∃ stalled, (s.pump cfg ring poller now writes).1 =
      { s.pumpTx cfg ring now with
        toConn := ((s.pumpTx cfg ring now).toConn.flushAndArm poller writes).1
        stalledSinceNs := stalled } := by
  obtain ⟨stalled, _, hpump, -⟩ := s.pump_flushed cfg ring now poller writes
  exact ⟨stalled, congrArg Prod.fst hpump⟩

@[simp] theorem pump_fd (s : Subscriber) (poller : Poller) (writes : List WriteResult) :
    (s.pump cfg ring poller now writes).1.fd = s.fd := by
  obtain ⟨stalled, hpump⟩ := s.pump_eq cfg ring now poller writes
  rw [hpump, Conn.flushAndArm_fd, (s.pumpTx_grown cfg ring now).fd]

@[simp] theorem readLoop_fd (s : Subscriber) (reads : List ReadResult) : (s.readLoop reads).1.fd = s.fd := by
  induction reads generalizing s with
  | nil => rfl
  | cons r reads ih =>
      cases r with
      | bytes chunk =>
          rw [readLoop]
          split
          · rfl
          · rw [ih]
      | again => rfl
      | intr => exact ih s
      | error => rfl

@[simp] theorem start_fd (s : Subscriber) : (s.start ring).fd = s.fd := by
  rw [start]
  dsimp only
  split
  · split <;> rfl
  · rfl

end Subscriber

/-! ### What a pump appends -/

namespace Subscriber

/-- One thing that `pump` does to `tx`, with what the code has checked before. -/
inductive Appended (cfg : Publisher.Config) (ring : ReplayRing) (now : Nat) (s : Subscriber) : Subscriber → Prop
  /-- The clock of the heartbeats starts. -/
  | clock : Appended cfg ring now s { s with lastTxNs := now }
  | gap (hsub : s.subscribed = true) (hroom : s.backlog < cfg.maxBacklog) (hlap : s.nextSeq < ring.oldest) :
      Appended cfg ring now s { s.control ring (.gap s.nextSeq ring.oldest) now with nextSeq := ring.oldest }
  | data (hsub : s.subscribed = true) (hroom : s.backlog < cfg.maxBacklog) (hold : ring.oldest ≤ s.nextSeq)
      (hhead : s.nextSeq ≤ ring.head) : Appended cfg ring now s (s.copy ring now)
  | heartbeat (hsub : s.subscribed = true) (hempty : s.backlog = 0)
      (hdone : s.backlog < cfg.maxBacklog → ring.head < s.nextSeq) :
      Appended cfg ring now s (s.control ring (.heartbeat now ring.head) now)

/-- Any number of them. -/
abbrev Appends (cfg : Publisher.Config) (ring : ReplayRing) (now : Nat) : Subscriber → Subscriber → Prop :=
  Relation.ReflTransGen (Appended cfg ring now)

theorem backlog_of_not_pending {s : Subscriber} (hpending : s.pending = false) : s.backlog = 0 := by
  simp only [Conn.pending, decide_eq_false_iff_not] at hpending
  rw [Conn.backlog]
  omega

theorem pumpGap_appends (cfg : Publisher.Config) (ring : ReplayRing) (now : Nat) {s : Subscriber}
    (hsub : s.subscribed = true) :
    s.Appends cfg ring now (s.pumpGap cfg ring now) ∧ (s.pumpGap cfg ring now).subscribed = true ∧
      ((s.pumpGap cfg ring now).backlog < cfg.maxBacklog → ring.oldest ≤ (s.pumpGap cfg ring now).nextSeq) := by
  rw [pumpGap]
  split
  · rename_i hlap
    exact ⟨.single (.gap hsub hlap.1 hlap.2), hsub, fun _ => le_rfl⟩
  · rename_i hlap
    refine ⟨.refl, hsub, fun hroom => ?_⟩
    by_contra hlt
    exact hlap ⟨hroom, by omega⟩

/-- The copy loop: at its end the cursor is past the head or the backlog is full. -/
theorem pumpFrames_appends (hhead : ring.head + 1 < word32) (now fuel : Nat) {s : Subscriber} (hsub : s.subscribed = true)
    (hold : s.backlog < cfg.maxBacklog → ring.oldest ≤ s.nextSeq) (hfuel : ring.head + 1 ≤ s.nextSeq + fuel) :
    s.Appends cfg ring now (pumpFrames cfg ring now fuel s) ∧ (pumpFrames cfg ring now fuel s).subscribed = true ∧
      ((pumpFrames cfg ring now fuel s).backlog < cfg.maxBacklog → ring.head < (pumpFrames cfg ring now fuel s).nextSeq) := by
  induction fuel generalizing s with
  | zero => exact ⟨.refl, hsub, fun _ => hfuel⟩
  | succ fuel ih =>
      rw [pumpFrames]
      split
      · rename_i hloop
        have hnext : (s.copy ring now).nextSeq = s.nextSeq + 1 := Nat.mod_eq_of_lt (by omega)
        have hle := hold hloop.2
        obtain ⟨happends, hrest⟩ := ih (s := s.copy ring now) hsub (fun _ => by omega) (by omega)
        exact ⟨happends.head (.data hsub hloop.2 hle hloop.1), hrest⟩
      · rename_i hloop
        refine ⟨.refl, hsub, fun hroom => ?_⟩
        by_contra hle
        exact hloop ⟨by omega, hroom⟩

theorem pumpHeartbeat_appends {s : Subscriber} (hsub : s.subscribed = true)
    (hdone : s.backlog < cfg.maxBacklog → ring.head < s.nextSeq) :
    s.Appends cfg ring now (s.pumpHeartbeat cfg ring now) := by
  rw [pumpHeartbeat]
  split
  · rename_i hidle
    exact .single (.heartbeat hsub (backlog_of_not_pending hidle.2) hdone)
  · exact .refl

theorem pumpTx_appends (s : Subscriber) (cfg : Publisher.Config) (now : Nat) (hhead : ring.head + 1 < word32) :
    s.Appends cfg ring now (s.pumpTx cfg ring now) := by
  have hclock : s.Appends cfg ring now (if s.lastTxNs = 0 then { s with lastTxNs := now } else s) := by
    split
    · exact .single .clock
    · exact .refl
  rw [pumpTx]
  refine hclock.trans ?_
  generalize (if s.lastTxNs = 0 then { s with lastTxNs := now } else s) = s₀
  split
  · rename_i hsub
    obtain ⟨hgap, hsub', hold⟩ := pumpGap_appends cfg ring now hsub
    obtain ⟨hframes, hsub'', hdone⟩ :=
      pumpFrames_appends hhead now (ring.head + 1 + cfg.maxBacklog) hsub' hold (by omega)
    exact (hgap.trans hframes).trans (pumpHeartbeat_appends hsub'' hdone)
  · exact .refl

end Subscriber

/-! ### One subscriber -/

/-- The bytes that the read loop of `on_readable` takes. -/
def received : List ReadResult → List UInt8
  | [] => []
  | .bytes chunk :: reads =>
      let chunk := chunk.take 256
      if chunk = [] then [] else chunk ++ received reads
  | .intr :: reads => received reads
  | .again :: _ => []
  | .error :: _ => []

namespace Subscriber

/-- `on_readable` for its subscriber. -/
def afterReadable (ring : ReplayRing) (reads : List ReadResult) (s : Subscriber) : Subscriber × Bool :=
  let r := s.readLoop reads
  if r.2 = false then (r.1, false)
  else if r.1.rx.length < MsgType.subscribe.size then (r.1, true)
  else if r.1.accepts = false then (r.1, false)
  else (r.1.start ring, true)

/-- `on_writable` for its subscriber. -/
def afterWritable (writes : List WriteResult) (s : Subscriber) : Subscriber × Bool :=
  let r := s.toConn.flushAndArm Poller.init writes
  ({ s with toConn := r.1 }, r.2.2)

/-- The pump of `flush_all`. -/
def afterPump (cfg : Publisher.Config) (ring : ReplayRing) (now : Nat) (writes : List WriteResult) (s : Subscriber) :
    Subscriber × Bool :=
  let r := s.pump cfg ring Poller.init now writes
  (r.1, r.2.2)

/-- What concerns the subscriber with one descriptor only. -/
def only (fd : Nat) (f : Subscriber → Subscriber × Bool) (s : Subscriber) : Subscriber × Bool :=
  if s.fd = fd then f s else (s, true)

/-- A subscriber after a call, and whether it is kept. -/
def after (p : Publisher) (a : Publisher.Action) (s : Subscriber) : Subscriber × Bool :=
  match a with
  | .publish _ => (s, true)
  | .subscribe _ => (s, true)
  | .onReadable fd reads => s.only fd (afterReadable p.ring reads)
  | .onWritable fd writes => s.only fd (afterWritable writes)
  | .flushAll now writes =>
      if p.dirty = false ∧ now < p.nextTickNs then (s, true) else s.afterPump p.cfg p.ring now (writes s.fd)

@[simp] theorem afterReadable_fd (ring : ReplayRing) (reads : List ReadResult) (s : Subscriber) :
    (s.afterReadable ring reads).1.fd = s.fd := by
  rw [afterReadable]
  split
  · simp
  · split
    · simp
    · split <;> simp

@[simp] theorem afterWritable_fd (writes : List WriteResult) (s : Subscriber) : (s.afterWritable writes).1.fd = s.fd := by
  simp [afterWritable]

theorem only_fd (s : Subscriber) (fd : Nat) {f : Subscriber → Subscriber × Bool} (hf : (f s).1.fd = s.fd) :
    (s.only fd f).1.fd = s.fd := by
  rw [only]
  split
  · exact hf
  · rfl

@[simp] theorem after_fd (p : Publisher) (a : Publisher.Action) (s : Subscriber) : (s.after p a).1.fd = s.fd := by
  cases a with
  | publish m => rfl
  | subscribe fd => rfl
  | onReadable fd reads => exact s.only_fd fd (s.afterReadable_fd p.ring reads)
  | onWritable fd writes => exact s.only_fd fd (s.afterWritable_fd writes)
  | flushAll now writes =>
      rw [after]
      split
      · rfl
      · simp [afterPump]

/-- The sequence number that `on_readable` is asked for, when it accepts a Subscribe. -/
def request? (reads : List ReadResult) (s : Subscriber) : Option Nat :=
  let r := s.readLoop reads
  if r.2 = true ∧ MsgType.subscribe.size ≤ r.1.rx.length ∧ r.1.accepts = true then some (subscribeFrom r.1.rx) else none

/-- `on_readable` either accepts a Subscribe or appends nothing. -/
theorem afterReadable_cases (ring : ReplayRing) (reads : List ReadResult) (s : Subscriber) :
    (s.request? reads = none ∧ (s.afterReadable ring reads).1 = (s.readLoop reads).1) ∨
      s.request? reads = some (subscribeFrom (s.readLoop reads).1.rx) ∧ (s.readLoop reads).1.subscribed = false ∧
        s.afterReadable ring reads = ((s.readLoop reads).1.start ring, true) := by
  rw [afterReadable, request?]
  by_cases hall : (s.readLoop reads).2 = true ∧ MsgType.subscribe.size ≤ (s.readLoop reads).1.rx.length ∧
      (s.readLoop reads).1.accepts = true
  · obtain ⟨hloop, hlength, haccepts⟩ := hall
    right
    refine ⟨if_pos ⟨hloop, hlength, haccepts⟩, ?_, ?_⟩
    · simp only [accepts, decide_eq_true_eq] at haccepts
      exact haccepts.1
    · rw [if_neg (by rw [hloop]; decide), if_neg (Nat.not_lt.2 hlength), if_neg (by rw [haccepts]; decide)]
  · left
    refine ⟨if_neg hall, ?_⟩
    split
    · rfl
    · rename_i hloop
      split
      · rfl
      · rename_i hshort
        split
        · rfl
        · rename_i haccepts
          rw [Bool.not_eq_false] at hloop haccepts
          exact absurd ⟨hloop, Nat.not_lt.1 hshort, haccepts⟩ hall

theorem readLoop_received (s : Subscriber) (reads : List ReadResult) :
    (s.readLoop reads).1 = { s with rx := s.rx ++ received reads } := by
  induction reads generalizing s with
  | nil => simp [readLoop, received]
  | cons r reads ih =>
      cases r with
      | bytes chunk =>
          rw [readLoop, received]
          split
          · simp
          · rw [ih]
            simp
      | again => simp [readLoop, received]
      | intr => exact ih s
      | error => simp [readLoop, received]

variable {s : Subscriber}

/-- A property of what was appended, of the cursor and of the handshake is kept by a call when it is kept by everything a pump appends and by an accepted Subscribe. -/
theorem after_rule {P : Subscriber → Prop} {p : Publisher} (hhead : p.ring.head + 1 < word32) (a : Publisher.Action)
    (hcongr : ∀ {s s' : Subscriber}, P s → s'.appended = s.appended → s'.subscribed = s.subscribed →
      s'.nextSeq = s.nextSeq → P s')
    (happend : ∀ {now : Nat} {s s' : Subscriber}, s.Appended p.cfg p.ring now s' → P s → P s')
    (hstart : ∀ reads, a = .onReadable s.fd reads → s.request? reads = some (subscribeFrom (s.readLoop reads).1.rx) →
      (s.readLoop reads).1.subscribed = false → P (s.readLoop reads).1 → P ((s.readLoop reads).1.start p.ring))
    (h : P s) : P (s.after p a).1 := by
  cases a with
  | publish m => exact h
  | subscribe fd => exact h
  | onReadable fd reads =>
      rw [after, only]
      split
      · rename_i hfd
        have hrx := s.readLoop_received reads
        have hread : P (s.readLoop reads).1 := by
          rw [hrx]
          exact hcongr h rfl rfl rfl
        rcases s.afterReadable_cases p.ring reads with ⟨-, hnone⟩ | ⟨hrequest, hsub, haccepted⟩
        · rw [hnone]
          exact hread
        · rw [haccepted]
          exact hstart reads (by rw [hfd]) hrequest hsub hread
      · exact h
  | onWritable fd writes =>
      rw [after, only]
      split
      · exact hcongr h (Conn.flushAndArm_appended _ _ _) rfl rfl
      · exact h
  | flushAll now writes =>
      rw [after]
      split
      · exact h
      · obtain ⟨stalled, hpump⟩ := s.pump_eq p.cfg p.ring now Poller.init (writes s.fd)
        have htx : P (s.pumpTx p.cfg p.ring now) := by
          have happends := s.pumpTx_appends p.cfg now hhead
          generalize s.pumpTx p.cfg p.ring now = s' at happends
          induction happends with
          | refl => exact h
          | tail _ happended ih => exact happend happended ih
        rw [afterPump, hpump]
        exact hcongr htx (Conn.flushAndArm_appended _ _ _) rfl rfl

end Subscriber

/-! ### The lists of the publisher -/

namespace Publisher

/-- Every descriptor belongs to at most one subscriber. -/
def Distinct (p : Publisher) : Prop := (p.subs.map fun s => s.fd).Nodup

/-- The subscribers that an outcome keeps. -/
def kept (f : Subscriber → Subscriber × Bool) (subs : List Subscriber) : List Subscriber :=
  ((subs.map f).filter fun x => x.2).map Prod.fst

/-- What a call adds: the connection that `subscribe` accepts. -/
def fresh (p : Publisher) : Action → List Subscriber
  | .subscribe fd => if p.isSubscriber fd then [] else [{ fd := fd }]
  | _ => []

theorem kept_eq_self (subs : List Subscriber) : kept (fun s => (s, true)) subs = subs := by
  rw [kept, List.filter_eq_self.2 (by simp), List.map_map]
  exact List.map_id subs

theorem kept_congr {f g : Subscriber → Subscriber × Bool} {subs : List Subscriber} (h : ∀ s ∈ subs, f s = g s) :
    kept f subs = kept g subs := by
  rw [kept, kept, List.map_congr_left h]

theorem mem_kept {f : Subscriber → Subscriber × Bool} {subs : List Subscriber} {s' : Subscriber} :
    s' ∈ kept f subs ↔ ∃ s ∈ subs, f s = (s', true) := by
  simp only [kept, List.mem_map, List.mem_filter]
  constructor
  · intro h
    obtain ⟨⟨s₁, b⟩, ⟨⟨s, hs, hf⟩, hb⟩, rfl⟩ := h
    exact ⟨s, hs, by rw [hf, show b = true from hb]⟩
  · intro h
    obtain ⟨s, hs, hf⟩ := h
    exact ⟨(s', true), ⟨⟨s, hs, hf⟩, rfl⟩, rfl⟩

theorem nodup_kept {f : Subscriber → Subscriber × Bool} {subs : List Subscriber} (hfd : ∀ s, (f s).1.fd = s.fd)
    (h : (subs.map fun s => s.fd).Nodup) : ((kept f subs).map fun s => s.fd).Nodup := by
  have hsub : ((kept f subs).map fun s => s.fd).Sublist (subs.map fun s => s.fd) := by
    have hmap : (subs.map fun s => s.fd) = (subs.map f).map fun x => x.1.fd := by
      rw [List.map_map]
      apply List.map_congr_left
      intro s _
      exact (hfd s).symm
    rw [hmap, kept, List.map_map]
    exact List.filter_sublist.map _
  exact h.sublist hsub

section Steps

variable {p : Publisher}

theorem Distinct.eq_of_find (h : p.Distinct) {fd : Nat} {s s' : Subscriber} (hs : p.find fd = some s) (hs' : s' ∈ p.subs)
    (hfd : s'.fd = fd) : s' = s := by
  have hmem := List.mem_of_find?_eq_some hs
  have hfd' : s.fd = fd := by simpa using List.find?_some hs
  exact List.inj_on_of_nodup_map h hs' hmem (hfd.trans hfd'.symm)

theorem fd_ne_of_find {fd : Nat} (h : p.find fd = none) {s : Subscriber} (hs : s ∈ p.subs) : s.fd ≠ fd := by
  have := List.find?_eq_none.1 h s hs
  simpa using this

theorem find_of_mem (h : p.Distinct) {s : Subscriber} (hs : s ∈ p.subs) : p.find s.fd = some s := by
  cases hfind : p.find s.fd with
  | none => exact absurd rfl (fd_ne_of_find hfind hs)
  | some s' => rw [h.eq_of_find hfind hs rfl]

theorem kept_only {f : Subscriber → Subscriber × Bool} {fd : Nat} {s s' : Subscriber} {b : Bool} (hf : f s = (s', b))
    (hfd : s'.fd = fd) {subs : List Subscriber} (hone : ∀ t ∈ subs, t.fd = fd → t = s) :
    kept (fun t => t.only fd f) subs =
      (subs.map fun t => if t.fd = fd then s' else t).filter fun t => b ∨ t.fd ≠ fd := by
  induction subs with
  | nil => rfl
  | cons t subs ih =>
      have hrest := ih fun t' ht' => hone t' (List.mem_cons_of_mem t ht')
      rw [kept] at hrest ⊢
      rw [List.map_cons, List.map_cons, List.filter_cons, List.filter_cons, Subscriber.only]
      by_cases heq : t.fd = fd
      · rw [if_pos heq, if_pos heq, hone t List.mem_cons_self heq, hf]
        cases b <;> simp [hfd, hrest]
      · simp [heq, hrest]

theorem dropAll_subs (p : Publisher) (poller : Poller) (dead : List Nat) :
    (p.dropAll poller dead).1.subs = p.subs.filter fun s => s.fd ∉ dead := by
  induction dead generalizing p poller with
  | nil => simp [dropAll]
  | cons fd dead ih =>
      rw [dropAll, ih, drop, List.filter_filter]
      apply List.filter_congr
      intro s _
      simp only [List.mem_cons]
      grind

theorem dropAll_gone (p : Publisher) (poller : Poller) (dead : List Nat) :
    ∃ dropped, (p.dropAll poller dead).1.gone = p.gone ++ dropped ∧ ∀ s, s ∈ dropped ↔ s ∈ p.subs ∧ s.fd ∈ dead := by
  induction dead generalizing p poller with
  | nil => exact ⟨[], (List.append_nil _).symm, fun s => by simp⟩
  | cons fd dead ih =>
      obtain ⟨dropped, hgone, hdropped⟩ := ih (p.drop poller fd).1 (p.drop poller fd).2
      refine ⟨(p.subs.filter fun s => s.fd = fd) ++ dropped, ?_, fun s => ?_⟩
      · rw [dropAll, hgone, drop, List.append_assoc]
      · rw [List.mem_append, hdropped, drop]
        simp only [List.mem_filter, List.mem_cons, decide_eq_true_eq]
        grind

theorem pumpAll_eq (cfg : Config) (ring : ReplayRing) (now : Nat) (writes : Nat → List WriteResult) (poller : Poller)
    (subs : List Subscriber) :
    (pumpAll cfg ring now writes poller subs).1 = subs.map fun s => s.afterPump cfg ring now (writes s.fd) := by
  induction subs generalizing poller with
  | nil => rfl
  | cons s subs ih =>
      obtain ⟨hsub, hok⟩ := s.pump_poller cfg ring now poller Poller.init (writes s.fd)
      rw [pumpAll, List.map_cons, ← ih]
      dsimp only
      rw [Subscriber.afterPump, hsub, hok]

/-- What a call that concerns one descriptor leaves of the publisher's lists. -/
structure Lists (p : Publisher) (f : Subscriber → Subscriber × Bool) (more : List Subscriber) (q : Publisher) : Prop where
  subs : q.subs = kept f p.subs ++ more
  dropped : ∃ dropped, q.gone = p.gone ++ dropped ∧ ∀ t, t ∈ dropped ↔ ∃ s ∈ p.subs, f s = (t, false)

theorem Lists.gone {q : Publisher} {f : Subscriber → Subscriber × Bool} {more : List Subscriber} (h : p.Lists f more q)
    (t : Subscriber) : t ∈ q.gone ↔ t ∈ p.gone ∨ ∃ s ∈ p.subs, f s = (t, false) := by
  obtain ⟨dropped, hgone, hdropped⟩ := h.dropped
  rw [hgone, List.mem_append, hdropped]

theorem Lists.same {q : Publisher} {f : Subscriber → Subscriber × Bool} {more : List Subscriber}
    (hf : ∀ s ∈ p.subs, f s = (s, true)) (hsubs : q.subs = p.subs ++ more) (hgone : q.gone = p.gone) : p.Lists f more q where
  subs := by rw [kept_congr (g := fun s => (s, true)) hf, kept_eq_self, hsubs]
  dropped := by
    refine ⟨[], by rw [hgone, List.append_nil], fun t => ⟨fun ht => (by cases ht), fun ht => ?_⟩⟩
    obtain ⟨s, hs, hst⟩ := ht
    rw [hf s hs] at hst
    cases hst

theorem Lists.absent {f : Subscriber → Subscriber × Bool} {fd : Nat} (hs : p.find fd = none) :
    p.Lists (fun t => t.only fd f) [] p :=
  .same (fun _ ht => if_neg (fd_ne_of_find hs ht)) (List.append_nil _).symm rfl

theorem Lists.only (h : p.Distinct) {f : Subscriber → Subscriber × Bool} {fd : Nat} {s : Subscriber}
    (hs : p.find fd = some s) (hfd : (f s).1.fd = s.fd) (poller : Poller) {q : Publisher}
    (hsubs : q.subs = (if (f s).2 then p.update fd (f s).1 else ((p.update fd (f s).1).drop poller fd).1).subs)
    (hgone : q.gone = (if (f s).2 then p.update fd (f s).1 else ((p.update fd (f s).1).drop poller fd).1).gone) :
    p.Lists (fun t => t.only fd f) [] q := by
  have hone : ∀ t ∈ p.subs, t.fd = fd → t = s := fun t ht hfd => h.eq_of_find hs ht hfd
  have hmem := List.mem_of_find?_eq_some hs
  have hsfd : s.fd = fd := by simpa using List.find?_some hs
  rw [hsfd] at hfd
  have honly : ∀ u ∈ p.subs, ∀ t, u.only fd f = (t, false) ↔ u = s ∧ f s = (t, false) := by
    intro u hu t
    rw [Subscriber.only]
    by_cases heq : u.fd = fd
    · rw [if_pos heq, hone u hu heq]
      exact ⟨fun ht => ⟨rfl, ht⟩, fun ht => ht.2⟩
    · rw [if_neg heq, Prod.mk.injEq]
      refine iff_of_false (fun hcon => by cases hcon.2) ?_
      intro hcon
      rw [hcon.1] at heq
      exact heq hsfd
  constructor
  · rw [List.append_nil, kept_only (Prod.ext rfl rfl) hfd hone, hsubs]
    cases hb : (f s).2 <;> simp [update, drop, hb]
  · rw [hgone]
    cases hb : (f s).2 with
    | true =>
        rw [if_pos rfl]
        refine ⟨[], (List.append_nil _).symm, fun t => ⟨fun ht => (by cases ht), fun ht => ?_⟩⟩
        obtain ⟨u, hu, hut⟩ := ht
        rw [((honly u hu t).1 hut).2] at hb
        cases hb
    | false =>
        rw [if_neg Bool.false_ne_true]
        refine ⟨(p.update fd (f s).1).subs.filter fun t => t.fd = fd, rfl, fun t => ?_⟩
        rw [update, List.mem_filter, List.mem_map, decide_eq_true_eq]
        constructor
        · intro ht
          obtain ⟨⟨u, hu, hut⟩, htfd⟩ := ht
          refine ⟨s, hmem, (honly s hmem t).2 ⟨rfl, ?_⟩⟩
          by_cases heq : u.fd = fd
          · rw [if_pos heq] at hut
            exact Prod.ext hut hb
          · rw [if_neg heq] at hut
            rw [← hut] at htfd
            exact absurd htfd heq
        · intro ht
          obtain ⟨u, hu, hut⟩ := ht
          obtain ⟨rfl, hfu⟩ := (honly u hu t).1 hut
          rw [hfu] at hfd ⊢
          exact ⟨⟨u, hu, if_pos hsfd⟩, hfd⟩

/-- The list of those to drop has the descriptors of the subscribers that the walk gave up on, and of no other. -/
theorem mem_dead {f : Subscriber → Subscriber × Bool} (hfd : ∀ s, (f s).1.fd = s.fd) {subs : List Subscriber}
    (hdistinct : (subs.map fun s => s.fd).Nodup) {s : Subscriber} (hs : s ∈ subs) :
    (f s).1.fd ∈ ((subs.map f).filter fun x => !x.2).map (fun x => x.1.fd) ↔ (f s).2 = false := by
  simp only [List.mem_map, List.mem_filter, Bool.not_eq_true']
  constructor
  · intro hmem
    obtain ⟨x, ⟨⟨s', hs', rfl⟩, hx⟩, heq⟩ := hmem
    rw [hfd, hfd] at heq
    rw [← List.inj_on_of_nodup_map hdistinct hs' hs heq]
    exact hx
  · intro hb
    exact ⟨f s, ⟨⟨s, hs, rfl⟩, hb⟩, rfl⟩

theorem Lists.flush (h : p.Distinct) (poller : Poller) {f : Subscriber → Subscriber × Bool} (hfd : ∀ s, (f s).1.fd = s.fd)
    {q : Publisher} (hsubs : q.subs = (p.subs.map f).map Prod.fst) (hgone : q.gone = p.gone) :
    p.Lists f [] (q.dropAll poller (((p.subs.map f).filter fun x => !x.2).map fun x => x.1.fd)).1 := by
  have hdead s (hs : s ∈ p.subs) := mem_dead hfd h hs
  constructor
  · rw [dropAll_subs, hsubs, List.append_nil, kept, List.filter_map]
    congr 1
    apply List.filter_congr
    intro x hx
    obtain ⟨s, hs, rfl⟩ := List.mem_map.1 hx
    simp [hdead s hs]
  · obtain ⟨dropped, hall, hdropped⟩ :=
      q.dropAll_gone poller (((p.subs.map f).filter fun x => !x.2).map fun x => x.1.fd)
    refine ⟨dropped, by rw [hall, hgone], fun t => ?_⟩
    rw [hdropped, hsubs]
    constructor
    · intro ht
      obtain ⟨hmem, htdead⟩ := ht
      rw [List.map_map] at hmem
      obtain ⟨s, hs, rfl⟩ := List.mem_map.1 hmem
      exact ⟨s, hs, Prod.ext rfl ((hdead s hs).1 htdead)⟩
    · intro ht
      obtain ⟨s, hs, hst⟩ := ht
      have hfst : (f s).1 = t := congrArg Prod.fst hst
      refine ⟨?_, ?_⟩
      · rw [List.map_map]
        exact List.mem_map.2 ⟨s, hs, hfst⟩
      · rw [← hfst]
        exact (hdead s hs).2 (congrArg Prod.snd hst)

/-- What `on_readable` can do to the subscriber it finds: drop it, wait for more of its request, or start its stream. -/
theorem onReadable_cases {fd : Nat} {s : Subscriber} (hs : p.find fd = some s) (poller : Poller) (reads : List ReadResult) :
    (s.request? reads = none ∧ s.afterReadable p.ring reads = ((s.readLoop reads).1, false) ∧
        p.onReadable poller fd reads = (p.update fd (s.readLoop reads).1).drop poller fd) ∨
      (s.request? reads = none ∧ s.afterReadable p.ring reads = ((s.readLoop reads).1, true) ∧
        p.onReadable poller fd reads = (p.update fd (s.readLoop reads).1, poller)) ∨
      (s.afterReadable p.ring reads = ((s.readLoop reads).1.start p.ring, true) ∧
        p.onReadable poller fd reads =
          ({ (p.update fd (s.readLoop reads).1).update fd ((s.readLoop reads).1.start p.ring) with dirty := true },
            poller)) := by
  rw [Subscriber.request?, Subscriber.afterReadable, onReadable, hs]
  dsimp only
  by_cases hend : (s.readLoop reads).2 = false
  · rw [if_pos hend, if_pos hend, if_neg (fun hall => by rw [hend] at hall; cases hall.1)]
    exact Or.inl ⟨rfl, rfl, rfl⟩
  · rw [if_neg hend, if_neg hend]
    by_cases hshort : (s.readLoop reads).1.rx.length < MsgType.subscribe.size
    · rw [if_pos hshort, if_pos hshort, if_neg (fun hall => absurd hall.2.1 (Nat.not_le.2 hshort))]
      exact Or.inr (Or.inl ⟨rfl, rfl, rfl⟩)
    · rw [if_neg hshort, if_neg hshort]
      by_cases haccepts : (s.readLoop reads).1.accepts = false
      · rw [if_pos haccepts, if_pos haccepts, if_neg (fun hall => by rw [haccepts] at hall; cases hall.2.2)]
        exact Or.inl ⟨rfl, rfl, rfl⟩
      · rw [if_neg haccepts, if_neg haccepts]
        exact Or.inr (Or.inr ⟨rfl, rfl⟩)

/-- A call leaves of the publisher's lists what it makes of each subscriber. -/
theorem step_lists {r : Publisher × Poller} (h : r.1.Distinct) (a : Action) :
    r.1.Lists (fun s => s.after r.1 a) (r.1.fresh a) (step r a).1 := by
  cases a with
  | publish m => exact .same (fun _ _ => rfl) (List.append_nil _).symm rfl
  | subscribe fd =>
      apply Lists.same (fun _ _ => rfl)
      · rw [step, subscribe, fresh]
        split
        · exact (List.append_nil _).symm
        · rfl
      · rw [step, subscribe]
        split <;> rfl
  | onReadable fd reads =>
      change r.1.Lists (fun s => s.only fd (Subscriber.afterReadable r.1.ring reads)) [] (r.1.onReadable r.2 fd reads).1
      cases hs : r.1.find fd with
      | none =>
          rw [onReadable, hs]
          exact .absent hs
      | some s =>
          have hfd : s.fd = fd := by simpa using List.find?_some hs
          -- the session is assigned twice when its Subscribe is accepted
          have htwice : ∀ t : Subscriber, ((r.1.update fd (s.readLoop reads).1).update fd t).subs = (r.1.update fd t).subs := by
            intro t
            simp only [update, List.map_map]
            apply List.map_congr_left
            intro u _
            by_cases heq : u.fd = fd <;> simp [heq, hfd]
          apply Lists.only h hs (s.afterReadable_fd r.1.ring reads) r.2
          · rcases onReadable_cases hs r.2 reads with ⟨-, hafter, heq⟩ | ⟨-, hafter, heq⟩ | ⟨hafter, heq⟩
            · rw [hafter, heq]
              rfl
            · rw [hafter, heq]
              rfl
            · rw [hafter, heq]
              exact htwice _
          · rcases onReadable_cases hs r.2 reads with ⟨-, hafter, heq⟩ | ⟨-, hafter, heq⟩ | ⟨hafter, heq⟩ <;>
              rw [hafter, heq] <;> rfl
  | onWritable fd writes =>
      change r.1.Lists (fun s => s.only fd (Subscriber.afterWritable writes)) [] (r.1.onWritable r.2 fd writes).1
      rw [onWritable]
      cases hs : r.1.find fd with
      | none => exact .absent hs
      | some s =>
          obtain ⟨hconn, hok⟩ := s.toConn.flushAndArm_poller r.2 Poller.init writes
          apply Lists.only h hs (s.afterWritable_fd writes) r.2
          · rw [Subscriber.afterWritable]
            dsimp only
            rw [hconn, hok]
            split <;> rfl
          · rw [Subscriber.afterWritable]
            dsimp only
            rw [hconn, hok]
            split <;> rfl
  | flushAll now writes =>
      change r.1.Lists (fun s => s.after r.1 (.flushAll now writes)) [] (r.1.flushAll r.2 now writes).1
      rw [flushAll]
      split
      · rename_i hskip
        refine .same (fun s _ => ?_) (List.append_nil _).symm rfl
        rw [Subscriber.after, if_pos hskip]
      · rename_i hpump
        have hafter : (fun s : Subscriber => s.after r.1 (.flushAll now writes)) =
            fun s => s.afterPump r.1.cfg r.1.ring now (writes s.fd) := by
          funext s
          rw [Subscriber.after, if_neg hpump]
        dsimp only
        rw [hafter, pumpAll_eq]
        apply Lists.flush h
        · intro s
          exact s.pump_fd Poller.init (writes s.fd)
        · rfl
        · rfl

theorem mem_step {r : Publisher × Poller} (h : r.1.Distinct) (a : Action) {s' : Subscriber}
    (hs' : s' ∈ (step r a).1.subs ++ (step r a).1.gone) :
    s' ∈ r.1.gone ∨ (∃ s ∈ r.1.subs, s' = (s.after r.1 a).1) ∨ s' ∈ r.1.fresh a := by
  have hlists := step_lists h a
  rw [List.mem_append, hlists.subs, List.mem_append, hlists.gone] at hs'
  rcases hs' with (hkept | hfresh) | hgone | ⟨s, hs, heq⟩
  · obtain ⟨s, hs, heq⟩ := mem_kept.1 hkept
    exact .inr (.inl ⟨s, hs, by rw [heq]⟩)
  · exact .inr (.inr hfresh)
  · exact .inl hgone
  · exact .inr (.inl ⟨s, hs, by rw [heq]⟩)

theorem mem_subs_of_kept {r : Publisher × Poller} (h : r.1.Distinct) (a : Action) {s : Subscriber} (hs : s ∈ r.1.subs)
    (hkept : (s.after r.1 a).2 = true) : (s.after r.1 a).1 ∈ (step r a).1.subs := by
  rw [(step_lists h a).subs]
  exact List.mem_append_left _ (mem_kept.2 ⟨s, hs, Prod.ext rfl hkept⟩)

/-- A subscriber is not forgotten. -/
theorem mem_after {r : Publisher × Poller} (h : r.1.Distinct) (a : Action) {s : Subscriber} (hs : s ∈ r.1.subs) :
    (s.after r.1 a).1 ∈ (step r a).1.subs ++ (step r a).1.gone := by
  rw [List.mem_append]
  cases hkept : (s.after r.1 a).2 with
  | true => exact .inl (mem_subs_of_kept h a hs hkept)
  | false => exact .inr (((step_lists h a).gone _).2 (.inr ⟨s, hs, Prod.ext rfl hkept⟩))

theorem Distinct.step {r : Publisher × Poller} (h : r.1.Distinct) (a : Action) : (Publisher.step r a).1.Distinct := by
  rw [Distinct, (step_lists h a).subs, List.map_append]
  have hkept := nodup_kept (fun s => s.after_fd r.1 a) h
  cases a with
  | subscribe fd =>
      rw [fresh]
      split
      · rw [List.map_nil, List.append_nil]
        exact hkept
      · rename_i hnew
        apply List.Nodup.append hkept (List.nodup_singleton _)
        intro x hx hfd
        obtain ⟨s', hs', rfl⟩ := List.mem_map.1 hx
        obtain ⟨s, hs, heq⟩ := mem_kept.1 hs'
        apply hnew
        rw [isSubscriber, List.any_eq_true]
        refine ⟨s, hs, ?_⟩
        rw [beq_iff_eq, ← s.after_fd r.1 (.subscribe fd), heq]
        exact List.mem_singleton.1 hfd
  | publish m => simpa [fresh] using hkept
  | onReadable fd reads => simpa [fresh] using hkept
  | onWritable fd writes => simpa [fresh] using hkept
  | flushAll now writes => simpa [fresh] using hkept

theorem step_conn {r : Publisher × Poller} (h : r.1.Distinct) (a : Action) {s : Subscriber} (hs : s ∈ r.1.subs) :
    ((step r a).1.gone.drop r.1.gone.length ++ (step r a).1.subs).find? (fun t => t.fd == s.fd) = some (s.after r.1 a).1 ∧
      (step r a).1.isSubscriber s.fd = (s.after r.1 a).2 := by
  have hlists := step_lists h a
  obtain ⟨dropped, hgone, hdropped⟩ := hlists.dropped
  have hfd := s.after_fd r.1 a
  -- only one subscriber has the descriptor
  have hone : ∀ u ∈ r.1.subs, (u.after r.1 a).1.fd = s.fd → u = s := by
    intro u hu hufd
    rw [u.after_fd] at hufd
    exact List.inj_on_of_nodup_map h hu hs hufd
  have hbeq : ∀ t : Subscriber, (t.fd == s.fd) = true ↔ t.fd = s.fd := fun t => beq_iff_eq
  rw [hgone, List.drop_left]
  cases hkept : (s.after r.1 a).2 with
  | true =>
      have hmem := mem_subs_of_kept h a hs hkept
      have hnone : dropped.find? (fun t => t.fd == s.fd) = none := by
        apply List.find?_eq_none.2
        intro t ht htfd
        obtain ⟨u, hu, hut⟩ := (hdropped t).1 ht
        have heq : u = s := hone u hu (by rw [hut]; exact (hbeq t).1 htfd)
        rw [heq] at hut
        rw [hut] at hkept
        cases hkept
      constructor
      · rw [List.find?_append, hnone, Option.none_or]
        have hfind := find_of_mem (h.step a) hmem
        rw [hfd] at hfind
        exact hfind
      · rw [isSubscriber, List.any_eq_true]
        exact ⟨_, hmem, (hbeq _).2 hfd⟩
  | false =>
      have hmem : (s.after r.1 a).1 ∈ dropped := (hdropped _).2 ⟨s, hs, Prod.ext rfl hkept⟩
      constructor
      · rw [List.find?_append]
        cases hfind : dropped.find? (fun t => t.fd == s.fd) with
        | none => exact absurd ((hbeq _).2 hfd) (List.find?_eq_none.1 hfind _ hmem)
        | some t =>
            obtain ⟨u, hu, hut⟩ := (hdropped t).1 (List.mem_of_find?_eq_some hfind)
            have htfd : t.fd = s.fd := by simpa using List.find?_some hfind
            have heq : u = s := hone u hu (by rw [hut]; exact htfd)
            rw [← heq, hut]
            rfl
      · rw [isSubscriber, List.any_eq_false]
        intro t ht htfd
        rw [hlists.subs] at ht
        rcases List.mem_append.1 ht with hk | hf
        · obtain ⟨u, hu, hut⟩ := mem_kept.1 hk
          have heq : u = s := hone u hu (by rw [hut]; exact (hbeq t).1 htfd)
          rw [heq] at hut
          rw [hut] at hkept
          cases hkept
        · -- a call that accepts a connection drops none
          cases a with
          | subscribe fd => cases hkept
          | publish m => cases hf
          | onReadable fd reads => cases hf
          | onWritable fd writes => cases hf
          | flushAll now writes => cases hf

theorem run_concat (cfg : Config) (actions : List Action) (a : Action) :
    run cfg (actions ++ [a]) = step (run cfg actions) a := by
  simp [run]

theorem run_distinct (cfg : Config) (actions : List Action) : (run cfg actions).1.Distinct := by
  induction actions using List.reverseRecOn with
  | nil => exact List.nodup_nil
  | append_singleton actions a ih =>
      rw [run_concat]
      exact ih.step a

end Steps

end Publisher

end Matchbox
