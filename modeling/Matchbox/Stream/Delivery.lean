import Matchbox.Stream.Step

/-!
# The stream of a subscriber

What a subscriber is sent is the published stream from its cursor on, with every hole announced: `Streams` says so of the appended frames without looking at the publisher's loops. The cursor of the code is the expected sequence number of `Streams`, so that the invariant is a relation between a subscriber and the list of published frames, which each part of `pump` extends.
-/

namespace Matchbox

open Wire

/-- The oldest sequence number a ring of this capacity retains when its newest is `head`. -/
def oldestAt (capacity head : Nat) : Nat := if head > capacity then head - capacity + 1 else 1

/-- A list of frames, each appended when the ring stood at the number beside it, that leads the expected sequence number from `start` to the last argument. -/
inductive Streams (capacity : Nat) (published : List Message) (start : Nat) : List (Nat × List UInt8) → Nat → Prop
  | nil : Streams capacity published start [] start
  /-- A data frame is the expected one. -/
  | data {items : List (Nat × List UInt8)} {i head : Nat} {m : Message}
      (h : Streams capacity published start items (i + 1)) (hm : published[i]? = some m) (hhead : i < head) :
      Streams capacity published start (items ++ [(head, m.make (i + 1))]) (i + 2)
  /-- A Gap starts at the expected number and ends at the oldest one retained then. -/
  | gap {items : List (Nat × List UInt8)} {e head : Nat} (h : Streams capacity published start items e)
      (hlt : e < oldestAt capacity head) :
      Streams capacity published start (items ++ [(head, (Message.gap e (oldestAt capacity head)).make 0)])
        (oldestAt capacity head)
  /-- A Heartbeat names the number before the expected one. -/
  | heartbeat {items : List (Nat × List UInt8)} {i head ts : Nat} (h : Streams capacity published start items (i + 1)) :
      Streams capacity published start (items ++ [(head, (Message.heartbeat ts i).make 0)]) (i + 1)

/-- What `on_readable` itself appends: nothing, or the Gap of a client that is ahead of the stream. -/
inductive Lead (start : Nat) : List (Nat × List UInt8) → Prop
  | none : Lead start []
  | ahead {first head : Nat} (hlt : start < first) : Lead start [(head, (Message.gap first start).make 0)]

/-- The frames appended to a subscriber's `tx` are the published stream from its first cursor on. -/
structure Subscriber.Delivers (ring : ReplayRing) (published : List Message) (s : Subscriber) : Prop where
  conserved : s.toConn.Conserved
  appended : s.appended = s.stream.map Prod.snd
  silent : s.subscribed = false → s.stream = []
  ordered : s.subscribed = true → 1 ≤ s.startSeq ∧ ∃ lead items, s.stream = lead ++ items ∧ Lead s.startSeq lead ∧
    Streams ring.capacity published s.startSeq items s.nextSeq
  /-- Every frame asked of the ring was held by it. -/
  asked : ∀ held ∈ s.asked, held = true

theorem Streams.mono {capacity start e : Nat} {published : List Message} {items : List (Nat × List UInt8)}
    (h : Streams capacity published start items e) (more : List Message) :
    Streams capacity (published ++ more) start items e := by
  induction h with
  | nil => exact .nil
  | data h hm hhead ih =>
      have hlt := (List.getElem?_eq_some_iff.1 hm).1
      exact .data ih (by rw [List.getElem?_append_left hlt, hm]) hhead
  | gap h hlt ih => exact .gap ih hlt
  | heartbeat h ih => exact .heartbeat ih

theorem Streams.append {capacity a b c : Nat} {published : List Message} {xs ys : List (Nat × List UInt8)}
    (h : Streams capacity published a xs b) (h' : Streams capacity published b ys c) :
    Streams capacity published a (xs ++ ys) c := by
  induction h' with
  | nil =>
      rw [List.append_nil]
      exact h
  | data _ hm hhead ih =>
      rw [← List.append_assoc]
      exact .data ih hm hhead
  | gap _ hlt ih =>
      rw [← List.append_assoc]
      exact .gap ih hlt
  | heartbeat _ ih =>
      rw [← List.append_assoc]
      exact .heartbeat ih

/-! ### One pump -/

namespace Subscriber

/-- A subscriber whose cursor is at most one past the head. -/
structure Tracks (ring : ReplayRing) (published : List Message) (s : Subscriber) : Prop
    extends s.Delivers ring published where
  cursor : s.subscribed = true → s.nextSeq ≤ ring.head + 1

variable {ring : ReplayRing} {published : List Message} {s : Subscriber} {cfg : Publisher.Config} {now : Nat}

/-- One thing that a pump does, with what it means for the stream. -/
inductive Extended (ring : ReplayRing) (published : List Message) (s : Subscriber) : Subscriber → Prop
  | clock (now : Nat) : Extended ring published s { s with lastTxNs := now }
  /-- One frame, and the cursor moved with it. -/
  | frame {bytes : List UInt8} {next : Nat} {asked : List Bool} (hsub : s.subscribed = true)
      (hstream : Streams ring.capacity published s.nextSeq [(ring.head, bytes)] next) (hcursor : next ≤ ring.head + 1)
      (hasked : ∀ held ∈ asked, held = true) (now : Nat) :
      Extended ring published s { s.put ring.head bytes with nextSeq := next, lastTxNs := now, asked := asked }

theorem Tracks.touch (h : s.Tracks ring published) (tx stalled : Nat) :
    Tracks ring published { s with lastTxNs := tx, stalledSinceNs := stalled } :=
  ⟨⟨h.conserved, h.appended, h.silent, h.ordered, h.asked⟩, h.cursor⟩

/-- The socket side of a subscriber may change as long as nothing is appended. -/
theorem Tracks.reconn (h : s.Tracks ring published) {c : Conn} (hc : c.Conserved)
    (happended : c.appended = s.appended) (stalled : Nat) :
    Tracks ring published { s with toConn := c, stalledSinceNs := stalled } :=
  ⟨⟨hc, happended.trans h.appended, h.silent, h.ordered, h.asked⟩, h.cursor⟩

/-- Everything a pump appends continues the stream. A Heartbeat goes out only when the cursor is past the head. -/
theorem Tracks.extended (h : s.Tracks ring published) (hring : ring.Holds published)
    (hfew : published.length + 1 < word32) (hbacklog : 1 ≤ cfg.maxBacklog) {s' : Subscriber}
    (happended : s.Appended cfg ring now s') : s.Extended ring published s' := by
  cases happended with
  | clock => exact .clock now
  | gap hsub hroom hlap => exact .frame hsub (.gap .nil hlap) ring.oldest_le h.asked now
  | data hsub hroom hold hhead =>
      have hone := ring.one_le_oldest
      have hholds : ring.holds s.nextSeq = true := by
        rw [ReplayRing.holds_iff]
        exact ⟨hold, hhead, by omega⟩
      have hnext : (s.nextSeq + 1) % word32 = s.nextSeq + 1 := by
        have := hring.head
        exact Nat.mod_eq_of_lt (by omega)
      obtain ⟨m, hm, hframe⟩ := hring.bytes _ hholds
      obtain ⟨i, hi⟩ : ∃ i, s.nextSeq = i + 1 := ⟨s.nextSeq - 1, by omega⟩
      rw [Subscriber.copy, hframe, hnext]
      refine .frame hsub ?_ (by omega) (fun held hheld => ?_) now
      · rw [hi] at hm ⊢
        exact .data .nil hm (by omega)
      · rw [List.mem_append, List.mem_singleton] at hheld
        rcases hheld with hheld | rfl
        · exact h.asked held hheld
        · exact hholds
  | heartbeat hsub hempty hdone =>
      have hnext : s.nextSeq = ring.head + 1 := by
        have := h.cursor hsub
        have := hdone (by omega)
        omega
      refine .frame hsub ?_ (h.cursor hsub) h.asked now
      rw [hnext]
      exact .heartbeat .nil

theorem Tracks.extend (h : s.Tracks ring published) {s' : Subscriber} (hextended : s.Extended ring published s') :
    s'.Tracks ring published := by
  cases hextended with
  | clock now => exact h.touch now s.stalledSinceNs
  | @frame bytes next asked hsub hone hcursor hasked now =>
      refine ⟨⟨h.conserved.append bytes, ?_, fun hfalse => ?_, fun _ => ?_, hasked⟩, fun _ => hcursor⟩
      · change s.appended ++ [bytes] = (s.stream ++ [(ring.head, bytes)]).map Prod.snd
        rw [h.appended, List.map_append]
        rfl
      · rw [show s.subscribed = false from hfalse] at hsub
        cases hsub
      · obtain ⟨hstart, lead, items, hstream, hlead, hitems⟩ := h.ordered hsub
        refine ⟨hstart, lead, items ++ [(ring.head, bytes)], ?_, hlead, hitems.append hone⟩
        change s.stream ++ [(ring.head, bytes)] = _
        rw [hstream, List.append_assoc]

theorem Tracks.pumpTx (h : s.Tracks ring published) (hring : ring.Holds published)
    (hfew : published.length + 1 < word32) (hbacklog : 1 ≤ cfg.maxBacklog) (now : Nat) :
    (s.pumpTx cfg ring now).Tracks ring published := by
  have hhead : ring.head + 1 < word32 := by
    rw [hring.head]
    exact hfew
  have happends := s.pumpTx_appends cfg now hhead
  generalize s.pumpTx cfg ring now = s' at happends
  induction happends with
  | refl => exact h
  | tail _ happended ih => exact ih.extend (ih.extended hring hfew hbacklog happended)

theorem Tracks.pump (h : s.Tracks ring published) (hring : ring.Holds published)
    (hfew : published.length + 1 < word32) (hbacklog : 1 ≤ cfg.maxBacklog) (poller : Poller) (now : Nat)
    (writes : List WriteResult) : (s.pump cfg ring poller now writes).1.Tracks ring published := by
  have htx := h.pumpTx hring hfew hbacklog now
  obtain ⟨stalled, hpump⟩ := s.pump_eq cfg ring now poller writes
  rw [hpump]
  exact htx.reconn (htx.conserved.flushAndArm poller writes) (Conn.flushAndArm_appended _ poller writes) stalled

/-! ### The handshake -/

theorem Tracks.readLoop (h : s.Tracks ring published) (reads : List ReadResult) :
    (s.readLoop reads).1.Tracks ring published := by
  induction reads generalizing s with
  | nil => exact h
  | cons r reads ih =>
      cases r with
      | bytes chunk =>
          rw [Subscriber.readLoop]
          split
          · exact h
          · have hconn : Conn.Conserved { s.toConn with rx := s.rx ++ chunk.take 256 } :=
              ⟨h.conserved.bytes, h.conserved.txOff_le⟩
            exact ih (h.reconn hconn rfl s.stalledSinceNs)
      | again => exact h
      | intr => exact ih h
      | error => exact h

/-- The first frame of a subscriber sets its cursor, not beyond the next frame to come. -/
theorem Tracks.start (h : s.Tracks ring published) (hring : ring.Holds published)
    (hfew : published.length + 1 < word32) (hsub : s.subscribed = false) : (s.start ring).Tracks ring published := by
  have hhead := hring.head
  have hnext : (ring.head + 1) % word32 = ring.head + 1 := Nat.mod_eq_of_lt (by omega)
  have hsilent := h.silent hsub
  have hconn : Conn.Conserved { s.toConn with rx := [] } := ⟨h.conserved.bytes, h.conserved.txOff_le⟩
  have happended : s.appended = [] := by
    rw [h.appended, hsilent]
    rfl
  rw [Subscriber.start]
  dsimp only
  rw [hnext]
  split
  · split
    · rename_i hahead
      refine ⟨⟨hconn.append _, ?_, fun hfalse => Bool.noConfusion hfalse, fun _ => ?_, h.asked⟩, fun _ => le_rfl⟩
      · change s.appended ++ [_] = (s.stream ++ [_]).map Prod.snd
        rw [happended, hsilent]
        rfl
      · refine ⟨Nat.le_add_left _ _, [(ring.head, (Message.gap (subscribeFrom s.rx) (ring.head + 1)).make 0)], [], ?_,
          .ahead hahead, .nil⟩
        change s.stream ++ [_] = _
        rw [hsilent]
        rfl
    · refine ⟨⟨hconn, h.appended, fun hfalse => Bool.noConfusion hfalse, fun _ => ?_, h.asked⟩, fun _ => le_rfl⟩
      exact ⟨Nat.le_add_left _ _, [], [], hsilent, .none, .nil⟩
  · rename_i hfirst
    have hmod : subscribeFrom s.rx % word32 = subscribeFrom s.rx := Nat.mod_eq_of_lt (by omega)
    rw [hmod]
    refine ⟨⟨hconn, h.appended, fun hfalse => Bool.noConfusion hfalse, fun _ => ?_, h.asked⟩, fun _ => ?_⟩
    · refine ⟨?_, [], [], hsilent, .none, .nil⟩
      change 1 ≤ subscribeFrom s.rx
      omega
    · change subscribeFrom s.rx ≤ ring.head + 1
      omega

theorem Tracks.afterReadable (h : s.Tracks ring published) (hring : ring.Holds published)
    (hfew : published.length + 1 < word32) (reads : List ReadResult) :
    (s.afterReadable ring reads).1.Tracks ring published := by
  have hread := h.readLoop reads
  rw [Subscriber.afterReadable]
  split
  · exact hread
  · split
    · exact hread
    · split
      · exact hread
      · rename_i haccepts
        simp only [Subscriber.accepts, Bool.not_eq_false, decide_eq_true_eq] at haccepts
        exact hread.start hring hfew haccepts.1

theorem Tracks.after {p : Publisher} (h : s.Tracks p.ring p.published) (hring : p.ring.Holds p.published)
    (hfew : p.published.length + 1 < word32) (hbacklog : 1 ≤ p.cfg.maxBacklog) (a : Publisher.Action) :
    (s.after p a).1.Tracks p.ring p.published := by
  cases a with
  | publish m => exact h
  | subscribe fd => exact h
  | onReadable fd reads =>
      rw [Subscriber.after, Subscriber.only]
      split
      · exact h.afterReadable hring hfew reads
      · exact h
  | onWritable fd writes =>
      rw [Subscriber.after, Subscriber.only]
      split
      · exact h.reconn (h.conserved.flushAndArm Poller.init writes)
          (s.toConn.flushAndArm_appended Poller.init writes) s.stalledSinceNs
      · exact h
  | flushAll now writes =>
      rw [Subscriber.after]
      split
      · exact h
      · exact h.pump hring hfew hbacklog Poller.init now (writes s.fd)

theorem Tracks.accepted (ring : ReplayRing) (published : List Message) (fd : Nat) :
    Tracks ring published { fd := fd } :=
  ⟨⟨⟨rfl, Nat.le_refl _⟩, rfl, fun _ => rfl, fun hsub => Bool.noConfusion hsub, fun _ hheld => by cases hheld⟩,
    fun hsub => Bool.noConfusion hsub⟩

end Subscriber

/-! ### The publisher -/

namespace Publisher

structure Inv (p : Publisher) : Prop where
  ring : p.ring.Holds p.published
  subs : ∀ s ∈ p.subs ++ p.gone, s.Tracks p.ring p.published

/-- Nothing but `publish` changes the ring, the published frames or the configuration. -/
structure SameRing (p p' : Publisher) : Prop where
  ring : p'.ring = p.ring
  published : p'.published = p.published
  cfg : p'.cfg = p.cfg

theorem SameRing.trans {p p' p'' : Publisher} (h : SameRing p p') (h' : SameRing p' p'') : SameRing p p'' :=
  ⟨h'.ring.trans h.ring, h'.published.trans h.published, h'.cfg.trans h.cfg⟩

section Steps

variable {p : Publisher} {poller : Poller}

theorem dropAll_same (p : Publisher) (poller : Poller) (dead : List Nat) : SameRing p (p.dropAll poller dead).1 := by
  induction dead generalizing p poller with
  | nil => exact ⟨rfl, rfl, rfl⟩
  | cons fd dead ih =>
      have hdrop : SameRing p (p.drop poller fd).1 := ⟨rfl, rfl, rfl⟩
      exact hdrop.trans (ih _ _)

theorem flushAll_same (p : Publisher) (poller : Poller) (now : Nat) (writes : Nat → List WriteResult) :
    SameRing p (p.flushAll poller now writes).1 := by
  rw [flushAll]
  split
  · exact ⟨rfl, rfl, rfl⟩
  · have hdropped := dropAll_same { p with
      dirty := false
      nextTickNs := (now + 1000000) % word64
      subs := (pumpAll p.cfg p.ring now writes poller p.subs).1.map Prod.fst }
    exact ⟨(hdropped _ _).ring, (hdropped _ _).published, (hdropped _ _).cfg⟩

theorem onWritable_same (p : Publisher) (poller : Poller) (fd : Nat) (writes : List WriteResult) :
    SameRing p (p.onWritable poller fd writes).1 := by
  rw [onWritable]
  split
  · exact ⟨rfl, rfl, rfl⟩
  · dsimp only
    split <;> exact ⟨rfl, rfl, rfl⟩

theorem onReadable_same (p : Publisher) (poller : Poller) (fd : Nat) (reads : List ReadResult) :
    SameRing p (p.onReadable poller fd reads).1 := by
  cases hs : p.find fd with
  | none =>
      rw [onReadable, hs]
      exact ⟨rfl, rfl, rfl⟩
  | some s =>
      rcases onReadable_cases hs poller reads with ⟨-, -, heq⟩ | ⟨-, -, heq⟩ | ⟨-, heq⟩ <;> rw [heq] <;>
        exact ⟨rfl, rfl, rfl⟩

theorem subscribe_same (p : Publisher) (poller : Poller) (fd : Nat) : SameRing p (p.subscribe poller fd).1 := by
  rw [subscribe]
  dsimp only
  split <;> exact ⟨rfl, rfl, rfl⟩

theorem Inv.publish (h : p.Inv) (hfew : p.published.length + 1 < word32) (m : Message) : (p.publish m).Inv where
  ring := h.ring.append hfew m
  subs := fun s hs => by
    have hs' := h.subs s hs
    have hhead : (p.publish m).ring.head = p.ring.head + 1 := by
      change (p.ring.append m).head = _
      rw [(h.ring.append hfew m).head, List.length_append, h.ring.head]
      rfl
    refine ⟨⟨hs'.conserved, hs'.appended, hs'.silent, fun hsub => ?_, hs'.asked⟩, fun hsub => ?_⟩
    · obtain ⟨hstart, lead, items, hstream, hlead, hitems⟩ := hs'.ordered hsub
      exact ⟨hstart, lead, items, hstream, hlead, hitems.mono [m]⟩
    · have := hs'.cursor hsub
      omega

end Steps

/-! ### Whole runs -/

/-- The frames a call publishes. -/
def Action.published : Action → List Message
  | .publish m => [m]
  | _ => []

theorem step_published (r : Publisher × Poller) (a : Action) :
    (step r a).1.published = r.1.published ++ a.published := by
  cases a with
  | publish m => rfl
  | subscribe fd => simpa [step, Action.published] using (r.1.subscribe_same r.2 fd).published
  | onReadable fd reads => simpa [step, Action.published] using (r.1.onReadable_same r.2 fd reads).published
  | onWritable fd writes => simpa [step, Action.published] using (r.1.onWritable_same r.2 fd writes).published
  | flushAll now writes => simpa [step, Action.published] using (r.1.flushAll_same r.2 now writes).published

theorem step_cfg (r : Publisher × Poller) (a : Action) : (step r a).1.cfg = r.1.cfg := by
  cases a with
  | publish m => rfl
  | subscribe fd => exact (r.1.subscribe_same r.2 fd).cfg
  | onReadable fd reads => exact (r.1.onReadable_same r.2 fd reads).cfg
  | onWritable fd writes => exact (r.1.onWritable_same r.2 fd writes).cfg
  | flushAll now writes => exact (r.1.flushAll_same r.2 now writes).cfg

/-- Nothing but `publish` changes the ring or the published frames. -/
theorem step_same (r : Publisher × Poller) (a : Action) (ha : ∀ m, a ≠ .publish m) : SameRing r.1 (step r a).1 := by
  cases a with
  | publish m => exact absurd rfl (ha m)
  | subscribe fd => exact r.1.subscribe_same r.2 fd
  | onReadable fd reads => exact r.1.onReadable_same r.2 fd reads
  | onWritable fd writes => exact r.1.onWritable_same r.2 fd writes
  | flushAll now writes => exact r.1.flushAll_same r.2 now writes

theorem mem_fresh {p : Publisher} {a : Action} {s : Subscriber} (hs : s ∈ p.fresh a) : ∃ fd, s = { fd := fd } := by
  cases a with
  | subscribe fd =>
      rw [fresh] at hs
      split at hs
      · cases hs
      · exact ⟨fd, List.mem_singleton.1 hs⟩
  | publish m => cases hs
  | onReadable fd reads => cases hs
  | onWritable fd writes => cases hs
  | flushAll now writes => cases hs

/-- What holds of all subscribers after a call, when it holds of those gone before, of each that the call finds and of a new one. -/
theorem step_forall {r : Publisher × Poller} (hdistinct : r.1.Distinct) {a : Action} {P : Subscriber → Prop}
    (hgone : ∀ s ∈ r.1.gone, P s) (hafter : ∀ s ∈ r.1.subs, P (s.after r.1 a).1) (hfresh : ∀ fd, P { fd := fd }) :
    ∀ s ∈ (step r a).1.subs ++ (step r a).1.gone, P s := by
  intro s' hs'
  rcases mem_step hdistinct a hs' with hmem | ⟨s, hs, rfl⟩ | hmem
  · exact hgone s' hmem
  · exact hafter s hs
  · obtain ⟨fd, rfl⟩ := mem_fresh hmem
    exact hfresh fd

theorem Inv.step {r : Publisher × Poller} (h : r.1.Inv) (hdistinct : r.1.Distinct) (hbacklog : 1 ≤ r.1.cfg.maxBacklog)
    (a : Action) (hfew : (Publisher.step r a).1.published.length + 1 < word32) : (Publisher.step r a).1.Inv := by
  have hless : r.1.published.length + 1 < word32 := by
    rw [step_published, List.length_append] at hfew
    omega
  by_cases ha : ∃ m, a = .publish m
  · obtain ⟨m, rfl⟩ := ha
    exact h.publish hless m
  · have hsame := step_same r a fun m hm => ha ⟨m, hm⟩
    refine ⟨?_, ?_⟩
    · rw [hsame.ring, hsame.published]
      exact h.ring
    · rw [hsame.ring, hsame.published]
      refine step_forall hdistinct ?_ ?_ ?_
      · exact fun s hs => h.subs s (List.mem_append_right _ hs)
      · exact fun s hs => (h.subs s (List.mem_append_left _ hs)).after h.ring hless hbacklog a
      · exact fun fd => .accepted _ _ fd

theorem init_inv (cfg : Config) : (init cfg).Inv where
  ring := ReplayRing.Holds.init cfg.ringLog2
  subs := fun s hs => by cases hs

theorem run_published (cfg : Config) (actions : List Action) :
    (run cfg actions).1.published = actions.flatMap Action.published := by
  induction actions using List.reverseRecOn with
  | nil => rfl
  | append_singleton actions a ih =>
      rw [run_concat, step_published, ih, List.flatMap_append, List.flatMap_singleton]

theorem run_cfg (cfg : Config) (actions : List Action) : (run cfg actions).1.cfg = cfg := by
  induction actions using List.reverseRecOn with
  | nil => rfl
  | append_singleton actions a ih => rw [run_concat, step_cfg, ih]

theorem run_ring (cfg : Config) (actions : List Action) (hfew : (run cfg actions).1.published.length + 1 < word32) :
    (run cfg actions).1.ring.Holds (run cfg actions).1.published := by
  induction actions using List.reverseRecOn with
  | nil => exact .init cfg.ringLog2
  | append_singleton actions a ih =>
      rw [run_concat] at hfew ⊢
      have hless : (run cfg actions).1.published.length + 1 < word32 := by
        rw [step_published, List.length_append] at hfew
        omega
      by_cases ha : ∃ m, a = .publish m
      · obtain ⟨m, rfl⟩ := ha
        exact (ih hless).append hless m
      · have hsame := step_same (run cfg actions) a fun m hm => ha ⟨m, hm⟩
        rw [hsame.ring, hsame.published]
        exact ih hless

theorem run_inv (cfg : Config) (hbacklog : 1 ≤ cfg.maxBacklog) (actions : List Action)
    (hfew : (run cfg actions).1.published.length + 1 < word32) : (run cfg actions).1.Inv := by
  induction actions using List.reverseRecOn with
  | nil => exact init_inv cfg
  | append_singleton actions a ih =>
      rw [run_concat] at hfew ⊢
      have hless : (run cfg actions).1.published.length + 1 < word32 := by
        rw [step_published, List.length_append] at hfew
        omega
      exact (ih hless).step (run_distinct cfg actions) (by rw [run_cfg]; exact hbacklog) a hfew

/-- Whatever the order of the calls and the answers of the kernel, every subscriber there is or was gets the published stream. -/
theorem run_delivers (cfg : Config) (hbacklog : 1 ≤ cfg.maxBacklog) (actions : List Action)
    (hfew : (actions.flatMap Action.published).length < 2 ^ 32 - 1) (s : Subscriber)
    (hs : s ∈ (run cfg actions).1.subs ++ (run cfg actions).1.gone) :
    s.Delivers (run cfg actions).1.ring (actions.flatMap Action.published) := by
  rw [← run_published cfg actions] at hfew ⊢
  have hless : (run cfg actions).1.published.length + 1 < word32 := by
    simp only [word32]
    omega
  exact ((run_inv cfg hbacklog actions hless).subs s hs).toDelivers

/-- A ring of two frames, three frames published, then a client that wants the first: it gets a Gap and the two retained frames. -/
theorem run_delivers_lapped :
    let cfg : Config := { ringLog2 := 1 }
    let top := fun bid => Message.top 0 bid (-1) 5 0
    let request : List UInt8 := [16, 0, 4, 1, 0, 0, 0, 0, 1, 0, 0, 0, 0, 0, 0, 0]
    let actions := [.publish (top 10), .publish (top 11), .publish (top 12), .subscribe 7,
      .onReadable 7 [.bytes request], .flushAll 1 fun _ => [.wrote 30]]
    (run cfg actions).1.subs.map (fun s => (s.startSeq, s.nextSeq, s.stream)) =
        [(1, 4, [(3, (Message.gap 1 2).make 0), (3, (top 11).make 2), (3, (top 12).make 3)])] ∧
      ∀ s ∈ (run cfg actions).1.subs ++ (run cfg actions).1.gone,
        s.Delivers (run cfg actions).1.ring (actions.flatMap Action.published) :=
  ⟨by decide +kernel, run_delivers _ (by decide) _ (by decide)⟩

end Publisher

end Matchbox
