import Matchbox.Stream.Delivery

/-!
# The memory of a slow subscriber

Bytes enter `tx` in four places, each behind its own test: the Gap of a client that is ahead finds it empty, the Gap and the frames of a pump find room, a Heartbeat finds nothing pending. So what is pending is less than one frame over the limit. They leave it through `flush`, which forgets the written ones when they are many. `Held` is what both need of each other; no bound on the number of published frames enters, since a slot of the ring never gives out more than one frame.
-/

namespace Matchbox

open Wire

/-! ### The length of a frame -/

theorem Wire.MsgType.size_le_forty (t : MsgType) : t.size ≤ 40 := by
  cases t <;> decide

/-- The ring never gives out more bytes than a frame has, whether it holds the number or not. -/
def ReplayRing.Short (r : ReplayRing) : Prop := ∀ seq, (r.frame seq).length ≤ 40

theorem ReplayRing.Short.init (k : Nat) : Short { capacityLog2 := k } := by
  intro seq
  -- the length in a slot that was never written is zero
  have hframe : frame { capacityLog2 := k } seq = [] := by
    change (List.replicate kMaxFrame (0 : UInt8)).take (Header.ofBytes (List.replicate kMaxFrame 0)).len = []
    decide
  rw [hframe]
  exact Nat.zero_le 40

theorem ReplayRing.Short.append {r : ReplayRing} (h : r.Short) (m : Message) : (r.append m).Short := by
  intro seq
  rw [frame_append]
  split
  · rw [Message.length_make]
    exact m.type.size_le_forty
  · exact h seq

/-! ### Writing -/

namespace Conn

variable {c : Conn}

theorem writeLoop_tx (c : Conn) (results : List WriteResult) :
    (c.writeLoop results).1.tx = c.tx ∧ c.txOff ≤ (c.writeLoop results).1.txOff := by
  refine writeLoop_inv (P := fun c' => c'.tx = c.tx ∧ c.txOff ≤ c'.txOff) (fun c' n _ h => ?_) ⟨rfl, le_rfl⟩ results
  exact ⟨h.1, h.2.trans (Nat.le_add_right _ _)⟩

theorem compact_tx (c : Conn) :
    c.compact.tx.length ≤ c.tx.length ∧ c.compact.backlog ≤ c.backlog ∧ c.compact.txOff ≤ 2 ^ 16 := by
  rw [compact]
  split
  · exact ⟨Nat.zero_le _, Nat.zero_le _, Nat.zero_le _⟩
  · split
    · refine ⟨?_, ?_, Nat.zero_le _⟩
      · rw [List.length_drop]
        exact Nat.sub_le ..
      · rw [backlog, List.length_drop]
        exact Nat.sub_le ..
    · rename_i hfew
      exact ⟨le_rfl, le_rfl, Nat.not_lt.1 hfew⟩

/-- A flush grows neither the buffer nor the backlog, and unless it fails it leaves no more than `2 ^ 16` written bytes behind. -/
theorem flushAndArm_tx (c : Conn) (p : Poller) (results : List WriteResult) :
    (c.flushAndArm p results).1.tx.length ≤ c.tx.length ∧ (c.flushAndArm p results).1.backlog ≤ c.backlog ∧
      ((c.flushAndArm p results).2.2 = true → (c.flushAndArm p results).1.txOff ≤ 2 ^ 16) := by
  have hflush : (c.flush results).1.tx.length ≤ c.tx.length ∧ (c.flush results).1.backlog ≤ c.backlog ∧
      ((c.flush results).2 = true → (c.flush results).1.txOff ≤ 2 ^ 16) := by
    obtain ⟨htx, hoff⟩ := c.writeLoop_tx results
    have hbacklog : (c.writeLoop results).1.backlog ≤ c.backlog := by
      rw [backlog, backlog, htx]
      omega
    obtain ⟨htx', hbacklog', hoff'⟩ := (c.writeLoop results).1.compact_tx
    rw [flush]
    split
    · exact ⟨by rw [← htx]; exact htx', hbacklog'.trans hbacklog, fun _ => hoff'⟩
    · rename_i hfail
      exact ⟨by rw [htx], hbacklog, fun hok => absurd hok hfail⟩
  rw [flushAndArm]
  dsimp only
  split
  · exact ⟨hflush.1, hflush.2.1, fun h => by cases h⟩
  · rename_i hok
    rw [Bool.not_eq_false] at hok
    split <;> exact ⟨hflush.1, hflush.2.1, fun _ => hflush.2.2 hok⟩

end Conn

/-! ### One subscriber -/

namespace Subscriber

/-- The bound: the limit and all but one byte of a frame pending, and before them what a flush may leave behind. -/
structure Bounded (limit : Nat) (s : Subscriber) : Prop where
  backlog : s.backlog ≤ limit + 39
  tx : s.tx.length ≤ limit + 39 + 65536

/-- What holds of a subscriber between calls. -/
structure Held (limit : Nat) (s : Subscriber) : Prop where
  backlog : s.backlog ≤ limit + 39
  txOff : s.txOff ≤ 65536
  /-- Nothing is sent before the Subscribe. -/
  silent : s.subscribed = false → s.backlog = 0

variable {limit : Nat} {s : Subscriber} {cfg : Publisher.Config} {ring : ReplayRing}

theorem Held.bounded (h : s.Held limit) : s.Bounded limit where
  backlog := h.backlog
  tx := by
    have hoff := h.txOff
    have hbacklog := h.backlog
    rw [Conn.backlog] at hbacklog
    omega

theorem Held.put (h : s.Held limit) (head : Nat) (bytes : List UInt8) (hroom : s.backlog + bytes.length ≤ limit + 39)
    (hsub : s.subscribed = true) : (s.put head bytes).Held limit where
  backlog := by
    change (s.tx ++ bytes).length - s.txOff ≤ limit + 39
    rw [Conn.backlog] at hroom
    rw [List.length_append]
    omega
  txOff := h.txOff
  silent := by
    intro hno
    rw [show (s.put head bytes).subscribed = s.subscribed from rfl, hsub] at hno
    cases hno

theorem Held.congr {s' : Subscriber} (h : s.Held limit) (hconn : s'.toConn = s.toConn)
    (hsub : s'.subscribed = s.subscribed) : s'.Held limit where
  backlog := by rw [hconn]; exact h.backlog
  txOff := by rw [hconn]; exact h.txOff
  silent := by rw [hconn, hsub]; exact h.silent

theorem Held.pumpGap (h : s.Held cfg.maxBacklog) (hsub : s.subscribed = true) (ring : ReplayRing) (now : Nat) :
    (s.pumpGap cfg ring now).Held cfg.maxBacklog ∧ (s.pumpGap cfg ring now).subscribed = true := by
  rw [Subscriber.pumpGap]
  split
  · rename_i hroom
    have hsize : ((Message.gap s.nextSeq ring.oldest).make 0).length = 24 := Message.length_make ..
    have hput := h.put ring.head ((Message.gap s.nextSeq ring.oldest).make 0) (by omega) hsub
    exact ⟨hput.congr rfl rfl, hsub⟩
  · exact ⟨h, hsub⟩

/-- The copy loop stops at the first frame that reaches the limit. -/
theorem Held.pumpFrames (hring : ring.Short) (now fuel : Nat) (h : s.Held cfg.maxBacklog) (hsub : s.subscribed = true) :
    (Subscriber.pumpFrames cfg ring now fuel s).Held cfg.maxBacklog ∧
      (Subscriber.pumpFrames cfg ring now fuel s).subscribed = true := by
  induction fuel generalizing s with
  | zero => exact ⟨h, hsub⟩
  | succ fuel ih =>
      rw [Subscriber.pumpFrames]
      split
      · rename_i hloop
        have hsize := hring s.nextSeq
        have hput := h.put ring.head (ring.frame s.nextSeq) (by omega) hsub
        exact ih (hput.congr rfl rfl) hsub
      · exact ⟨h, hsub⟩

theorem Held.pumpHeartbeat (h : s.Held cfg.maxBacklog) (hsub : s.subscribed = true) (ring : ReplayRing) (now : Nat) :
    (s.pumpHeartbeat cfg ring now).Held cfg.maxBacklog := by
  rw [Subscriber.pumpHeartbeat]
  split
  · rename_i hidle
    have hempty := backlog_of_not_pending hidle.2
    have hsize : ((Message.heartbeat now ring.head).make 0).length = 24 := Message.length_make ..
    have hput := h.put ring.head ((Message.heartbeat now ring.head).make 0) (by omega) hsub
    exact hput.congr rfl rfl
  · exact h

theorem Held.pumpTx (h : s.Held cfg.maxBacklog) (hring : ring.Short) (now : Nat) :
    (s.pumpTx cfg ring now).Held cfg.maxBacklog := by
  have hclock : Held cfg.maxBacklog (if s.lastTxNs = 0 then { s with lastTxNs := now } else s) := by
    split
    · exact h.congr rfl rfl
    · exact h
  rw [Subscriber.pumpTx]
  generalize (if s.lastTxNs = 0 then { s with lastTxNs := now } else s) = s₀ at hclock
  split
  · rename_i hsub
    obtain ⟨hgap, hsub'⟩ := hclock.pumpGap hsub ring now
    obtain ⟨hframes, hsub''⟩ := hgap.pumpFrames hring now (ring.head + 1 + cfg.maxBacklog) hsub'
    exact hframes.pumpHeartbeat hsub'' ring now
  · exact hclock

/-- A flush keeps the bound, and unless it fails the subscriber can go on. -/
theorem Held.flush (h : s.Held limit) (poller : Poller) (writes : List WriteResult) (s' : Subscriber)
    (hconn : s'.toConn = (s.toConn.flushAndArm poller writes).1) (hsub : s'.subscribed = s.subscribed) :
    s'.Bounded limit ∧ ((s.toConn.flushAndArm poller writes).2.2 = true → s'.Held limit) := by
  obtain ⟨htx, hbacklog, hoff⟩ := s.toConn.flushAndArm_tx poller writes
  rw [← hconn] at htx hbacklog hoff
  refine ⟨⟨hbacklog.trans h.backlog, htx.trans h.bounded.tx⟩, fun hok => ?_⟩
  refine ⟨hbacklog.trans h.backlog, hoff hok, fun hno => ?_⟩
  rw [hsub] at hno
  exact Nat.le_zero.1 (h.silent hno ▸ hbacklog)

theorem Held.afterPump (h : s.Held cfg.maxBacklog) (hring : ring.Short) (now : Nat) (writes : List WriteResult) :
    (s.afterPump cfg ring now writes).1.Bounded cfg.maxBacklog ∧
      ((s.afterPump cfg ring now writes).2 = true → (s.afterPump cfg ring now writes).1.Held cfg.maxBacklog) := by
  obtain ⟨stalled, hpump⟩ := s.pump_eq cfg ring now Poller.init writes
  have hflush := (h.pumpTx hring now).flush Poller.init writes (s.afterPump cfg ring now writes).1
    (by rw [Subscriber.afterPump, hpump]) (by rw [Subscriber.afterPump, hpump])
  refine ⟨hflush.1, fun hkept => hflush.2 ?_⟩
  rw [Subscriber.afterPump, pump, pumpFlush] at hkept
  by_contra hfail
  rw [Bool.not_eq_true] at hfail
  simp only [hfail, reduceIte] at hkept
  cases hkept

/-- The Gap of a client that is ahead finds nothing pending. -/
theorem Held.start (h : s.Held limit) (hsub : s.subscribed = false) (ring : ReplayRing) : (s.start ring).Held limit := by
  have hread : Held limit { s with rx := [], subscribed := true } :=
    ⟨h.backlog, h.txOff, fun hno => by cases hno⟩
  rw [Subscriber.start]
  dsimp only
  split
  · split
    · have hempty := h.silent hsub
      have hput := hread.put ring.head ((Message.gap (subscribeFrom s.rx) ((ring.head + 1) % word32)).make 0)
        (by rw [Message.length_make]; change s.backlog + 24 ≤ _; omega) rfl
      exact hput.congr rfl rfl
    · exact hread.congr rfl rfl
  · exact hread.congr rfl rfl

theorem Held.afterReadable (h : s.Held limit) (ring : ReplayRing) (reads : List ReadResult) :
    (s.afterReadable ring reads).1.Held limit := by
  have hread : (s.readLoop reads).1.Held limit := by
    rw [readLoop_received]
    exact ⟨h.backlog, h.txOff, h.silent⟩
  rcases s.afterReadable_cases ring reads with ⟨-, hnone⟩ | ⟨-, hsub, haccepted⟩
  · rw [hnone]
    exact hread
  · rw [haccepted]
    exact hread.start hsub ring

theorem Held.after {p : Publisher} (h : s.Held p.cfg.maxBacklog) (hring : p.ring.Short) (a : Publisher.Action) :
    (s.after p a).1.Bounded p.cfg.maxBacklog ∧ ((s.after p a).2 = true → (s.after p a).1.Held p.cfg.maxBacklog) := by
  cases a with
  | publish m => exact ⟨h.bounded, fun _ => h⟩
  | subscribe fd => exact ⟨h.bounded, fun _ => h⟩
  | onReadable fd reads =>
      rw [Subscriber.after, only]
      split
      · have hread := h.afterReadable p.ring reads
        exact ⟨hread.bounded, fun _ => hread⟩
      · exact ⟨h.bounded, fun _ => h⟩
  | onWritable fd writes =>
      rw [Subscriber.after, only]
      split
      · exact h.flush Poller.init writes _ rfl rfl
      · exact ⟨h.bounded, fun _ => h⟩
  | flushAll now writes =>
      rw [Subscriber.after]
      split
      · exact ⟨h.bounded, fun _ => h⟩
      · exact h.afterPump hring now (writes s.fd)

end Subscriber

/-! ### Whole runs -/

namespace Publisher

/-- The invariant: everybody is within the bound, and those present can go on. -/
structure Slim (p : Publisher) : Prop where
  ring : p.ring.Short
  subs : ∀ s ∈ p.subs, s.Held p.cfg.maxBacklog
  gone : ∀ s ∈ p.gone, s.Bounded p.cfg.maxBacklog

theorem step_ring_short (r : Publisher × Poller) (h : r.1.ring.Short) (a : Action) : (step r a).1.ring.Short := by
  by_cases hpublish : ∃ m, a = .publish m
  · obtain ⟨m, rfl⟩ := hpublish
    exact h.append m
  · rw [(step_same r a fun m hm => hpublish ⟨m, hm⟩).ring]
    exact h

theorem Slim.step {r : Publisher × Poller} (h : r.1.Slim) (hdistinct : r.1.Distinct) (a : Action) :
    (Publisher.step r a).1.Slim := by
  have hlists := step_lists hdistinct a
  refine ⟨step_ring_short r h.ring a, fun s hs => ?_, fun s hs => ?_⟩
  · rw [step_cfg]
    rw [hlists.subs, List.mem_append] at hs
    rcases hs with hkept | hfresh
    · obtain ⟨t, ht, heq⟩ := mem_kept.1 hkept
      have hafter := ((h.subs t ht).after h.ring a).2
      rw [heq] at hafter
      exact hafter rfl
    · obtain ⟨fd, rfl⟩ := mem_fresh hfresh
      exact ⟨Nat.zero_le _, Nat.zero_le _, fun _ => rfl⟩
  · rw [step_cfg]
    rw [hlists.gone] at hs
    rcases hs with hgone | ⟨t, ht, heq⟩
    · exact h.gone s hgone
    · have hafter := ((h.subs t ht).after h.ring a).1
      rw [heq] at hafter
      exact hafter

theorem run_slim (cfg : Config) (actions : List Action) : (run cfg actions).1.Slim := by
  induction actions using List.reverseRecOn with
  | nil => exact ⟨.init _, fun _ hs => absurd hs List.not_mem_nil, fun _ hs => absurd hs List.not_mem_nil⟩
  | append_singleton actions a ih =>
      rw [run_concat]
      exact ih.step (run_distinct cfg actions) a

/-- Whatever is published and however little the peers read, no subscriber there is or was has more than the limit and 39 bytes pending, also in the middle of a pump, before it writes. -/
theorem run_bounded (cfg : Config) (actions : List Action) :
    (∀ s ∈ (run cfg actions).1.subs ++ (run cfg actions).1.gone, s.Bounded cfg.maxBacklog) ∧
      ∀ s ∈ (run cfg actions).1.subs, ∀ now, (s.pumpTx cfg (run cfg actions).1.ring now).Bounded cfg.maxBacklog := by
  have hslim := run_slim cfg actions
  have hsubs := hslim.subs
  have hgone := hslim.gone
  rw [run_cfg] at hsubs hgone
  refine ⟨fun s hs => ?_, fun s hs now => ?_⟩
  · rcases List.mem_append.1 hs with hs | hs
    · exact (hsubs s hs).bounded
    · exact hgone s hs
  · exact ((hsubs s hs).pumpTx hslim.ring now).bounded

end Publisher

end Matchbox
