import Matchbox.Lib.Guarded
import Matchbox.Stream.Backlog
import Matchbox.Stream.Stall

/-!
# Heartbeats

A quiet stream carries a Heartbeat every `heartbeat_ms`. Three things decide when: `last_tx_ns`, which `pump` keeps for each subscriber, the millisecond for which `flush_all` rests after a walk over the subscribers unless something happened, and how often the gateway calls it. `Paced` is the publisher with a watch beside it that notes when the calls are made, when a client subscribed and when a frame was appended for it.

`run_paced` has both directions. No Heartbeat comes earlier than `heartbeat_ms` after any frame before it. And a client that takes what it is sent is never left without a frame for longer than `heartbeat_ms`, that millisecond and twice the longest time between two calls.
-/

namespace Matchbox

open Wire Guarded

/-- A frame that the scripts and the client take for a Heartbeat. -/
def isHeartbeat (frame : List UInt8) : Bool := (Header.ofBytes frame).type = MsgType.heartbeat.code

/-- No slot of the ring has a Heartbeat. -/
def ReplayRing.Plain (r : ReplayRing) : Prop := ∀ seq, isHeartbeat (r.frame seq) = false

theorem Wire.Message.isHeartbeat_make {m : Message} (hm : m.type ≠ .heartbeat) (seq : Nat) : isHeartbeat (m.make seq) = false := by
  rw [isHeartbeat, m.ofBytes_make_self]
  refine decide_eq_false fun hcode => hm ?_
  have hcode' : m.type.code = MsgType.heartbeat.code := hcode
  apply Option.some.inj
  rw [← MsgType.ofCode_code, hcode', MsgType.ofCode_code]

theorem ReplayRing.Plain.init (k : Nat) : Plain { capacityLog2 := k } := by
  intro seq
  rw [frame]
  rfl

theorem ReplayRing.Plain.append {r : ReplayRing} (h : r.Plain) {m : Message} (hm : m.isData = true) : (r.append m).Plain := by
  intro seq
  rw [frame_append]
  split
  · exact m.isHeartbeat_make (by cases m <;> simp [Message.isData, Message.type] at hm ⊢) _
  · exact h seq

/-! ### One pump -/

namespace Subscriber

variable {hb now : Nat} {s s' s'' : Subscriber} {new new' : List (List UInt8)}

/-- Frames appended at a time, and what that does to the heartbeat clock. -/
structure Logs (hb now : Nat) (s s' : Subscriber) (new : List (List UInt8)) : Prop where
  stream : s'.stream.map Prod.snd = s.stream.map Prod.snd ++ new
  subscribed : s'.subscribed = s.subscribed
  none : new = [] → s'.lastTxNs = s.lastTxNs ∧ s'.toConn = s.toConn
  some : new ≠ [] → s'.lastTxNs = now
  beats : ∀ f ∈ new, isHeartbeat f = true → hb ≤ elapsedNs now s.lastTxNs
  /-- A Heartbeat is not appended right after another frame. -/
  later : new.Pairwise fun _ f => isHeartbeat f = true → hb = 0

theorem elapsedNs_self (now : Nat) : elapsedNs now now = 0 := by
  rw [elapsedNs, Nat.add_sub_cancel_left, Nat.mod_self]

theorem Logs.refl (hb now : Nat) (s : Subscriber) : s.Logs hb now s [] :=
  ⟨(List.append_nil _).symm, rfl, fun _ => ⟨rfl, rfl⟩, fun h => absurd rfl h, fun _ hf => absurd hf List.not_mem_nil,
    List.Pairwise.nil⟩

theorem Logs.trans (h : s.Logs hb now s' new) (h' : s'.Logs hb now s'' new') : s.Logs hb now s'' (new ++ new') := by
  refine ⟨by rw [h'.stream, h.stream, List.append_assoc], h'.subscribed.trans h.subscribed, fun hnil => ?_, fun hne => ?_,
    fun f hf hbeat => ?_, List.pairwise_append.2 ⟨h.later, h'.later, fun g hg f hf hbeat => ?_⟩⟩
  · obtain ⟨hnew, hnew'⟩ := List.append_eq_nil_iff.1 hnil
    exact ⟨(h'.none hnew').1.trans (h.none hnew).1, (h'.none hnew').2.trans (h.none hnew).2⟩
  · by_cases hnew' : new' = []
    · subst hnew'
      rw [(h'.none rfl).1]
      exact h.some fun hnew => hne (by rw [hnew]; rfl)
    · exact h'.some hnew'
  · rcases List.mem_append.1 hf with hf | hf
    · exact h.beats f hf hbeat
    · have hlate := h'.beats f hf hbeat
      by_cases hnew : new = []
      · rw [(h.none hnew).1] at hlate
        exact hlate
      · rw [h.some hnew, elapsedNs_self] at hlate
        exact hlate.trans (Nat.zero_le _)
  · have hlate := h'.beats f hf hbeat
    rw [h.some (List.ne_nil_of_mem hg), elapsedNs_self] at hlate
    exact Nat.le_zero.1 hlate

theorem put_logs (s : Subscriber) (head : Nat) {bytes : List UInt8} (hplain : isHeartbeat bytes = true → hb ≤ elapsedNs now s.lastTxNs)
    (nextSeq : Nat) (asked : List Bool) :
    s.Logs hb now { s.put head bytes with lastTxNs := now, nextSeq := nextSeq, asked := asked } [bytes] := by
  refine ⟨?_, rfl, fun h => absurd h (List.cons_ne_nil _ _), fun _ => rfl, fun f hf hbeat => ?_, List.pairwise_singleton _ _⟩
  · rw [put]
    exact List.map_append
  · rw [List.mem_singleton.1 hf] at hbeat
    exact hplain hbeat

theorem pumpGap_logs (hb : Nat) (s : Subscriber) (cfg : Publisher.Config) (ring : ReplayRing) (now : Nat) :
    ∃ new, s.Logs hb now (s.pumpGap cfg ring now) new := by
  rw [pumpGap]
  split
  · have hgap : isHeartbeat ((Message.gap s.nextSeq ring.oldest).make 0) = false :=
      Message.isHeartbeat_make (fun h => by cases h) 0
    exact ⟨_, s.put_logs ring.head (fun hbeat => by rw [hgap] at hbeat; cases hbeat) _ _⟩
  · exact ⟨[], .refl hb now s⟩

theorem pumpFrames_logs (hb : Nat) {ring : ReplayRing} (hring : ring.Plain) (cfg : Publisher.Config) (now fuel : Nat)
    (s : Subscriber) : ∃ new, s.Logs hb now (pumpFrames cfg ring now fuel s) new := by
  induction fuel generalizing s with
  | zero => exact ⟨[], .refl hb now s⟩
  | succ fuel ih =>
      rw [pumpFrames]
      split
      · obtain ⟨new, hnew⟩ := ih (s.copy ring now)
        have hcopy : s.Logs hb now (s.copy ring now) [ring.frame s.nextSeq] :=
          s.put_logs ring.head (fun hbeat => by rw [hring] at hbeat; cases hbeat) _ _
        exact ⟨_, hcopy.trans hnew⟩
      · exact ⟨[], .refl hb now s⟩

theorem pumpHeartbeat_logs (s : Subscriber) (cfg : Publisher.Config) (ring : ReplayRing) (now : Nat) :
    ∃ new, s.Logs (msToNs cfg.heartbeatMs) now (s.pumpHeartbeat cfg ring now) new := by
  rw [pumpHeartbeat]
  split
  · rename_i hdue
    exact ⟨_, s.put_logs ring.head (fun _ => hdue.1) s.nextSeq s.asked⟩
  · exact ⟨[], .refl _ now s⟩

/-- The heartbeat clock of a pump, which starts with the first one. -/
def clock (s : Subscriber) (now : Nat) : Nat := if s.lastTxNs = 0 then now else s.lastTxNs

theorem clocked_eq (s : Subscriber) (now : Nat) :
    (if s.lastTxNs = 0 then { s with lastTxNs := now } else s) = { s with lastTxNs := s.clock now } := by
  rw [clock]
  split <;> rfl

theorem pumpData_logs (hb : Nat) (s : Subscriber) (cfg : Publisher.Config) {ring : ReplayRing} (hring : ring.Plain) (now : Nat) :
    ∃ new, s.Logs hb now (pumpFrames cfg ring now (ring.head + 1 + cfg.maxBacklog) (s.pumpGap cfg ring now)) new := by
  obtain ⟨gap, hgap⟩ := s.pumpGap_logs hb cfg ring now
  obtain ⟨frames, hframes⟩ := pumpFrames_logs hb hring cfg now (ring.head + 1 + cfg.maxBacklog) (s.pumpGap cfg ring now)
  exact ⟨gap ++ frames, hgap.trans hframes⟩

theorem pumpTx_logs (s : Subscriber) (cfg : Publisher.Config) {ring : ReplayRing} (hring : ring.Plain) (now : Nat) :
    ∃ new, Logs (msToNs cfg.heartbeatMs) now { s with lastTxNs := s.clock now } (s.pumpTx cfg ring now) new ∧
      (s.subscribed = false → new = []) := by
  rw [pumpTx, clocked_eq]
  dsimp only
  split
  · rename_i hsub
    obtain ⟨data, hdata⟩ := pumpData_logs (msToNs cfg.heartbeatMs) { s with lastTxNs := s.clock now } cfg hring now
    obtain ⟨beat, hbeat⟩ := (pumpFrames cfg ring now (ring.head + 1 + cfg.maxBacklog)
      (pumpGap { s with lastTxNs := s.clock now } cfg ring now)).pumpHeartbeat_logs cfg ring now
    exact ⟨data ++ beat, hdata.trans hbeat, fun hfalse => by rw [hsub] at hfalse; cases hfalse⟩
  · exact ⟨[], .refl _ now _, fun _ => rfl⟩

/-- A pump of a subscriber that has taken everything leaves a frame within the interval. -/
theorem pumpTx_awake (s : Subscriber) (cfg : Publisher.Config) {ring : ReplayRing} (hring : ring.Plain) (now : Nat)
    (hsub : s.subscribed = true) (hidle : s.pending = false) :
    elapsedNs now (s.pumpTx cfg ring now).lastTxNs < msToNs cfg.heartbeatMs ∨ (s.pumpTx cfg ring now).lastTxNs = now := by
  obtain ⟨data, hdata⟩ := pumpData_logs (msToNs cfg.heartbeatMs) { s with lastTxNs := s.clock now } cfg hring now
  rw [pumpTx, clocked_eq]
  dsimp only
  rw [if_pos hsub, pumpHeartbeat]
  split
  · exact .inr rfl
  · rename_i hearly
    by_cases hnone : data = []
    · left
      by_contra hlate
      refine hearly ⟨Nat.not_lt.1 hlate, ?_⟩
      rw [(hdata.none hnone).2]
      exact hidle
    · exact .inr (hdata.some hnone)

theorem pending_eq_false_iff (c : Conn) : c.pending = false ↔ c.backlog = 0 := by
  rw [Conn.pending, Conn.backlog, decide_eq_false_iff_not]
  omega

theorem flushAndArm_idle {c : Conn} (h : c.pending = false) (poller : Poller) (writes : List WriteResult) :
    (c.flushAndArm poller writes).1.pending = false := by
  rw [pending_eq_false_iff] at h ⊢
  have hle := (c.flushAndArm_tx poller writes).2.1
  omega

end Subscriber

/-! ### One call -/

/-- A call in which `flush_all` walks over the subscribers. -/
def Publisher.pumps (p : Publisher) : Publisher.Action → Bool
  | .flushAll now _ => !decide (p.dirty = false ∧ now < p.nextTickNs)
  | _ => false

namespace Subscriber

/-- The ways in which a call changes a subscriber. -/
inductive After (p : Publisher) (a : Publisher.Action) (s : Subscriber) : Subscriber → Prop
  /-- It is pumped. -/
  | pumped {now stalled : Nat} {writes : Nat → List WriteResult} (hact : a = .flushAll now writes) (hpumps : p.pumps a = true) :
      After p a s { s.pumpTx p.cfg p.ring now with
        toConn := ((s.pumpTx p.cfg p.ring now).toConn.flushAndArm Poller.init (writes s.fd)).1
        stalledSinceNs := stalled }
  /-- Its Subscribe is accepted. -/
  | joined {rx : List UInt8} (hpumps : p.pumps a = false) (hbefore : s.subscribed = false) :
      After p a s (start { s with rx := rx } p.ring)
  | read {rx : List UInt8} (hpumps : p.pumps a = false) : After p a s { s with rx := rx }
  | flushed {writes : List WriteResult} (hpumps : p.pumps a = false) :
      After p a s { s with toConn := (s.toConn.flushAndArm Poller.init writes).1 }
  | same (hpumps : p.pumps a = false) : After p a s s

theorem after_cases (p : Publisher) (a : Publisher.Action) (s : Subscriber) : After p a s (s.after p a).1 := by
  have hsame : ∀ a, p.pumps a = false → (s.after p a).1 = s → After p a s (s.after p a).1 := by
    intro a hpumps hafter
    rw [hafter]
    exact .same hpumps
  cases a with
  | publish m => exact hsame _ rfl rfl
  | subscribe fd => exact hsame _ rfl rfl
  | onReadable fd reads =>
      by_cases hfd : s.fd = fd
      · have hafter : s.after p (.onReadable fd reads) = s.afterReadable p.ring reads := if_pos hfd
        rw [hafter]
        rcases s.afterReadable_cases p.ring reads with ⟨-, hnone⟩ | ⟨-, hbefore, haccepted⟩
        · rw [hnone, readLoop_received]
          exact .read rfl
        · rw [haccepted]
          rw [readLoop_received] at hbefore ⊢
          exact .joined rfl hbefore
      · exact hsame _ rfl (congrArg Prod.fst (if_neg hfd))
  | onWritable fd writes =>
      by_cases hfd : s.fd = fd
      · have hafter : s.after p (.onWritable fd writes) = s.afterWritable writes := if_pos hfd
        rw [hafter]
        exact .flushed rfl
      · exact hsame _ rfl (congrArg Prod.fst (if_neg hfd))
  | flushAll now writes =>
      by_cases hskip : p.dirty = false ∧ now < p.nextTickNs
      · exact hsame _ (by rw [Publisher.pumps, decide_eq_true hskip]; rfl) (congrArg Prod.fst (if_pos hskip))
      · have hafter : s.after p (.flushAll now writes) = s.afterPump p.cfg p.ring now (writes s.fd) := if_neg hskip
        obtain ⟨stalled, hpump⟩ := s.pump_eq p.cfg p.ring now Poller.init (writes s.fd)
        rw [hafter, afterPump]
        dsimp only
        rw [hpump]
        exact .pumped rfl (by rw [Publisher.pumps, decide_eq_false hskip]; rfl)

/-- What a call at time `now` does to the heartbeat clock of a subscriber and to its stream. -/
inductive Called (p : Publisher) (a : Publisher.Action) (now : Nat) (s s' : Subscriber) (new : List (List UInt8)) : Prop
  /-- It is pumped. -/
  | pumped (hpumps : p.pumps a = true) {t : Subscriber}
      (hlogs : Logs (msToNs p.cfg.heartbeatMs) now { s with lastTxNs := s.clock now } t new)
      (hsilent : s.subscribed = false → new = []) (hlast : s'.lastTxNs = t.lastTxNs) (hsub : s'.subscribed = s.subscribed)
      (hawake : s.subscribed = true → s.pending = false →
        elapsedNs now s'.lastTxNs < msToNs p.cfg.heartbeatMs ∨ s'.lastTxNs = now)
  /-- Its Subscribe is accepted. -/
  | joined (hpumps : p.pumps a = false) (hbefore : s.subscribed = false) (hsub : s'.subscribed = true)
      (hstart : (new = [] ∧ s'.lastTxNs = s.lastTxNs ∧ s'.toConn = { s.toConn with rx := s'.rx }) ∨
        ∃ g, new = [g] ∧ isHeartbeat g = false ∧ s'.lastTxNs = 0)
  /-- Anything else. -/
  | other (hpumps : p.pumps a = false) (hnew : new = []) (hlast : s'.lastTxNs = s.lastTxNs)
      (hsub : s'.subscribed = s.subscribed) (hidle : s.pending = false → s'.pending = false)

variable {s : Subscriber}

theorem start_called (s : Subscriber) (ring : ReplayRing) :
    ∃ new, (s.start ring).stream.map Prod.snd = s.stream.map Prod.snd ++ new ∧ (s.start ring).subscribed = true ∧
      ((new = [] ∧ (s.start ring).lastTxNs = s.lastTxNs ∧ (s.start ring).toConn = { s.toConn with rx := [] }) ∨
        ∃ g, new = [g] ∧ isHeartbeat g = false ∧ (s.start ring).lastTxNs = 0) := by
  rw [start]
  dsimp only
  split
  · split
    · refine ⟨[(Message.gap (subscribeFrom s.rx) ((ring.head + 1) % word32)).make 0], ?_, rfl, .inr ⟨_, rfl, ?_, rfl⟩⟩
      · rw [control, put]
        exact List.map_append
      · exact Message.isHeartbeat_make (fun h => by cases h) 0
    · exact ⟨[], (List.append_nil _).symm, rfl, .inl ⟨rfl, rfl, rfl⟩⟩
  · exact ⟨[], (List.append_nil _).symm, rfl, .inl ⟨rfl, rfl, rfl⟩⟩

theorem after_called {p : Publisher} (hring : p.ring.Plain) {a : Publisher.Action} {now : Nat} (hat : a.At now)
    (s : Subscriber) : ∃ new, (s.after p a).1.stream.map Prod.snd = s.stream.map Prod.snd ++ new ∧
      Called p a now s (s.after p a).1 new := by
  have hafter := s.after_cases p a
  generalize (s.after p a).1 = s' at hafter ⊢
  cases hafter with
  | pumped hact hpumps =>
      subst hact
      obtain rfl : _ = now := hat
      obtain ⟨new, hlogs, hsilent⟩ := s.pumpTx_logs p.cfg hring _
      exact ⟨new, hlogs.stream, .pumped hpumps hlogs hsilent rfl hlogs.subscribed (s.pumpTx_awake p.cfg hring _)⟩
  | joined hpumps hbefore =>
      rename_i rx
      obtain ⟨new, hstream, hsub, hstart⟩ := start_called { s with rx := rx } p.ring
      refine ⟨new, hstream, .joined hpumps hbefore hsub ?_⟩
      rcases hstart with ⟨hnew, hlast, hconn⟩ | hgap
      · refine .inl ⟨hnew, hlast, ?_⟩
        rw [hconn]
      · exact .inr hgap
  | read hpumps => exact ⟨[], (List.append_nil _).symm, .other hpumps rfl rfl rfl id⟩
  | flushed hpumps =>
      exact ⟨[], (List.append_nil _).symm, .other hpumps rfl rfl rfl fun hidle => flushAndArm_idle hidle _ _⟩
  | same hpumps => exact ⟨[], (List.append_nil _).symm, .other hpumps rfl rfl rfl id⟩

end Subscriber

/-! ### Beside a watch -/

namespace Publisher

/-- The publisher, and what a watch beside it notes. -/
structure Paced where
  state : Publisher × Poller
  /-- The time of the last call. -/
  now : Nat
  /-- The last call of `flush_all`, or the start. -/
  calledAt : Nat
  /-- The last one that walked over the subscribers. -/
  pumpedAt : Option Nat := none
  /-- When the subscriber with a descriptor sent its Subscribe. -/
  joinedAt : Nat → Nat := fun _ => 0
  /-- The frames appended for it, each with its time. -/
  frames : Nat → List (Nat × List UInt8) := fun _ => []

namespace Paced

def step (x : Paced) (c : Nat × Action) : Paced where
  state := Publisher.step x.state c.2
  now := c.1
  calledAt :=
    match c.2 with
    | .flushAll _ _ => c.1
    | _ => x.calledAt
  pumpedAt := if x.state.1.pumps c.2 then some c.1 else x.pumpedAt
  joinedAt := fun fd =>
    match x.state.1.find fd with
    | none => 0
    | some s => if s.subscribed = false ∧ (s.after x.state.1 c.2).1.subscribed = true then c.1 else x.joinedAt fd
  frames := fun fd =>
    match x.state.1.find fd with
    | none => []
    | some s => x.frames fd ++ (((s.after x.state.1 c.2).1.stream.map Prod.snd).drop s.stream.length).map fun f => (c.1, f)

/-- A fresh publisher at a time. -/
def start (cfg : Config) (since : Nat) : Paced where
  state := (init cfg, Poller.init)
  now := since
  calledAt := since

def run (x : Paced) (calls : List (Nat × Action)) : Paced := calls.foldl step x

/-- The times do not go back, `flush_all` is given the time at which it is called, and only market data is published. -/
def timely (x : Paced) (c : Nat × Action) : Bool :=
  decide (x.now ≤ c.1 ∧ c.1 < word64 ∧ c.2.At c.1 ∧ ∀ m ∈ c.2.published, m.isData = true)

variable {x : Paced} {s : Subscriber} {c : Nat × Action}

/-! ### No Heartbeat too early -/

/-- The heartbeat clock of a subscriber, and the distance of its Heartbeats. -/
structure Spaced (x : Paced) (s : Subscriber) : Prop where
  logged : (x.frames s.fd).map Prod.snd = s.stream.map Prod.snd
  le : ∀ f ∈ x.frames s.fd, f.1 ≤ x.now
  spaced : (x.frames s.fd).Pairwise fun f g =>
    f.1 ≤ g.1 ∧ (isHeartbeat g.2 = true → f.1 + msToNs x.state.1.cfg.heartbeatMs ≤ g.1)
  lastTx : s.lastTxNs ≤ x.now
  covered : s.lastTxNs ≠ 0 → ∀ f ∈ x.frames s.fd, f.1 ≤ s.lastTxNs

theorem frames_step (hdistinct : x.state.1.Distinct) (hs : s ∈ x.state.1.subs) {new : List (List UInt8)}
    (hstream : (s.after x.state.1 c.2).1.stream.map Prod.snd = s.stream.map Prod.snd ++ new) :
    (x.step c).frames s.fd = x.frames s.fd ++ new.map fun f => (c.1, f) := by
  have hfind := find_of_mem hdistinct hs
  rw [step]
  dsimp only
  rw [hfind]
  dsimp only
  rw [hstream, List.drop_left' (List.length_map _)]

theorem Spaced.log (h : x.Spaced s) (hnow : x.now ≤ c.1) {s' : Subscriber} {new : List (List UInt8)}
    (hstream : s'.stream.map Prod.snd = s.stream.map Prod.snd ++ new)
    (hframes : (x.step c).frames s'.fd = x.frames s.fd ++ new.map fun f => (c.1, f))
    (hbeats : ∀ g ∈ new, isHeartbeat g = true → ∀ f ∈ x.frames s.fd, f.1 + msToNs x.state.1.cfg.heartbeatMs ≤ c.1)
    (hlater : new.Pairwise fun _ g => isHeartbeat g = true → msToNs x.state.1.cfg.heartbeatMs = 0)
    (hlast : s'.lastTxNs ≤ c.1)
    (hcovered : s'.lastTxNs ≠ 0 → (∀ f ∈ x.frames s.fd, f.1 ≤ s'.lastTxNs) ∧ (new ≠ [] → c.1 ≤ s'.lastTxNs)) :
    (x.step c).Spaced s' := by
  have hle : ∀ f ∈ x.frames s.fd, f.1 ≤ c.1 := fun f hf => (h.le f hf).trans hnow
  have hcfg : (x.step c).state.1.cfg = x.state.1.cfg := Publisher.step_cfg x.state c.2
  refine ⟨?_, fun f hf => ?_, ?_, hlast, fun hne f hf => ?_⟩
  · rw [hframes, List.map_append, List.map_map, h.logged, hstream]
    exact congrArg _ (List.map_id new)
  · rw [hframes] at hf
    rcases List.mem_append.1 hf with hf | hf
    · exact hle f hf
    · obtain ⟨g, -, rfl⟩ := List.mem_map.1 hf
      exact le_rfl
  · rw [hframes, hcfg]
    refine List.pairwise_append.2 ⟨h.spaced, ?_, ?_⟩
    · refine List.pairwise_map.2 (hlater.imp fun {f g} hzero => ⟨le_rfl, fun hbeat => ?_⟩)
      rw [hzero hbeat]
      exact le_rfl
    · intro f hf g hg
      obtain ⟨bytes, hbytes, rfl⟩ := List.mem_map.1 hg
      exact ⟨hle f hf, fun hbeat => hbeats bytes hbytes hbeat f hf⟩
  · rw [hframes] at hf
    obtain ⟨hold, hnew⟩ := hcovered hne
    rcases List.mem_append.1 hf with hf | hf
    · exact hold f hf
    · obtain ⟨g, hg, rfl⟩ := List.mem_map.1 hf
      exact hnew (List.ne_nil_of_mem hg)

theorem Spaced.clock (h : x.Spaced s) {now : Nat} (hnow : x.now ≤ now) :
    s.clock now ≤ now ∧ ∀ f ∈ x.frames s.fd, f.1 ≤ s.clock now := by
  rw [Subscriber.clock]
  split
  · exact ⟨le_rfl, fun f hf => (h.le f hf).trans hnow⟩
  · rename_i hne
    exact ⟨h.lastTx.trans hnow, h.covered hne⟩

theorem Spaced.after (h : x.Spaced s) (hnow : x.now ≤ c.1) (hword : c.1 < word64) {s' : Subscriber} {new : List (List UInt8)}
    (hstream : s'.stream.map Prod.snd = s.stream.map Prod.snd ++ new)
    (hframes : (x.step c).frames s'.fd = x.frames s.fd ++ new.map fun f => (c.1, f))
    (hcalled : s.Called x.state.1 c.2 c.1 s' new) : (x.step c).Spaced s' := by
  cases hcalled with
  | pumped hpumps hlogs hsilent hlast hsub hawake =>
      obtain ⟨hclock, hcovers⟩ := h.clock hnow
      refine h.log hnow hstream hframes (fun g hg hbeat f hf => ?_) hlogs.later ?_ fun hne => ?_
      · have hlate := hlogs.beats g hg hbeat
        have hf := hcovers f hf
        dsimp only at hlate
        rw [elapsedNs_of_le hclock hword] at hlate
        omega
      · rw [hlast]
        by_cases hnone : new = []
        · rw [(hlogs.none hnone).1]
          exact hclock
        · exact (hlogs.some hnone).le
      · rw [hlast]
        by_cases hnone : new = []
        · rw [(hlogs.none hnone).1]
          exact ⟨hcovers, fun hne => absurd hnone hne⟩
        · rw [hlogs.some hnone]
          exact ⟨fun f hf => (h.le f hf).trans hnow, fun _ => le_rfl⟩
  | joined hpumps hbefore hsub hstart =>
      rcases hstart with ⟨rfl, hlast, -⟩ | ⟨g, rfl, hplain, hlast⟩
      · refine h.log hnow hstream hframes (fun g hg => absurd hg List.not_mem_nil) List.Pairwise.nil ?_ fun hne => ?_
        · rw [hlast]
          exact h.lastTx.trans hnow
        · rw [hlast] at hne ⊢
          exact ⟨h.covered hne, fun hnone => absurd rfl hnone⟩
      · refine h.log hnow hstream hframes (fun g' hg hbeat => ?_) (List.pairwise_singleton _ _) ?_ fun hne => absurd hlast hne
        · rw [List.mem_singleton.1 hg, hplain] at hbeat
          cases hbeat
        · rw [hlast]
          exact Nat.zero_le _
  | other hpumps hnew hlast hsub hidle =>
      subst hnew
      refine h.log hnow hstream hframes (fun g hg => absurd hg List.not_mem_nil) List.Pairwise.nil ?_ fun hne => ?_
      · rw [hlast]
        exact h.lastTx.trans hnow
      · rw [hlast] at hne ⊢
        exact ⟨h.covered hne, fun hnone => absurd rfl hnone⟩

/-- What holds of the publisher as a whole. -/
structure Sound (cfg : Config) (x : Paced) : Prop where
  distinct : x.state.1.Distinct
  plain : x.state.1.ring.Plain
  slim : x.state.1.Slim
  cfg : x.state.1.cfg = cfg

theorem step_plain {r : Publisher × Poller} (h : r.1.ring.Plain) {a : Action} (ha : ∀ m ∈ a.published, m.isData = true) :
    (Publisher.step r a).1.ring.Plain := by
  by_cases hpublish : ∃ m, a = .publish m
  · obtain ⟨m, rfl⟩ := hpublish
    exact h.append (ha m (List.mem_singleton.2 rfl))
  · rw [(step_same r a fun m hm => hpublish ⟨m, hm⟩).ring]
    exact h

theorem Sound.step {cfg : Config} (h : x.Sound cfg) (hdata : ∀ m ∈ c.2.published, m.isData = true) :
    (x.step c).Sound cfg :=
  ⟨h.distinct.step c.2, step_plain h.plain hdata, h.slim.step h.distinct c.2, (Publisher.step_cfg x.state c.2).trans h.cfg⟩

theorem Sound.start (cfg : Config) (since : Nat) : (start cfg since).Sound cfg :=
  ⟨List.nodup_nil, .init cfg.ringLog2, ⟨.init cfg.ringLog2, fun _ hs => absurd hs List.not_mem_nil,
    fun _ hs => absurd hs List.not_mem_nil⟩, rfl⟩

theorem Sound.mem_step {cfg : Config} (h : x.Sound cfg) (hat : c.2.At c.1) {s' : Subscriber} (hs' : s' ∈ (x.step c).state.1.subs) :
    (∃ s ∈ x.state.1.subs, ∃ new, s'.fd = s.fd ∧ s.Called x.state.1 c.2 c.1 s' new ∧ s' = (s.after x.state.1 c.2).1 ∧
        s'.stream.map Prod.snd = s.stream.map Prod.snd ++ new ∧
        (x.step c).frames s'.fd = x.frames s.fd ++ new.map fun f => (c.1, f)) ∨
      s' = { fd := s'.fd } ∧ (x.step c).frames s'.fd = [] := by
  have hsubs := (step_lists h.distinct c.2).subs
  change s' ∈ (Publisher.step x.state c.2).1.subs at hs'
  rw [hsubs] at hs'
  rcases List.mem_append.1 hs' with hkept | hfresh
  · left
    obtain ⟨s, hs, hafter⟩ := mem_kept.1 hkept
    obtain rfl : (s.after x.state.1 c.2).1 = s' := congrArg Prod.fst hafter
    obtain ⟨new, hstream, hcalled⟩ := Subscriber.after_called h.plain hat s
    refine ⟨s, hs, new, Subscriber.after_fd _ _ _, hcalled, rfl, hstream, ?_⟩
    rw [Subscriber.after_fd]
    exact frames_step h.distinct hs hstream
  · right
    cases ha : c.2 with
    | subscribe fd =>
        rw [ha, fresh] at hfresh
        split at hfresh
        · cases hfresh
        · rename_i hnew
          rw [List.mem_singleton.1 hfresh]
          have hnone : x.state.1.find fd = none := by
            rw [find, List.find?_eq_none]
            intro t ht hfd
            exact hnew (List.any_eq_true.2 ⟨t, ht, hfd⟩)
          refine ⟨rfl, ?_⟩
          rw [Paced.step]
          dsimp only
          rw [hnone]
    | _ =>
        rw [ha] at hfresh
        cases hfresh

theorem timely_iff : x.timely c = true ↔ x.now ≤ c.1 ∧ c.1 < word64 ∧ c.2.At c.1 ∧ ∀ m ∈ c.2.published, m.isData = true := by
  rw [timely, decide_eq_true_eq]

/-- The distance of the Heartbeats, for every subscriber. -/
structure Regular (cfg : Config) (x : Paced) : Prop extends x.Sound cfg where
  spaced : ∀ s ∈ x.state.1.subs, x.Spaced s

theorem Regular.step {cfg : Config} (h : x.Regular cfg) (htimely : x.timely c = true) : (x.step c).Regular cfg := by
  obtain ⟨hnow, hword, hat, hdata⟩ := timely_iff.1 htimely
  refine ⟨h.toSound.step hdata, fun s' hs' => ?_⟩
  rcases h.toSound.mem_step hat hs' with ⟨s, hs, new, hfd, hcalled, -, hstream, hframes⟩ | ⟨heq, hnone⟩
  · exact (h.spaced s hs).after hnow hword hstream hframes hcalled
  · rw [heq] at hnone ⊢
    refine ⟨?_, fun f hf => ?_, ?_, Nat.zero_le _, fun hne => absurd rfl hne⟩
    · rw [hnone, List.map_nil]
    · rw [hnone] at hf
      cases hf
    · rw [hnone]
      exact List.Pairwise.nil

/-! ### No silence -/

/-- `flush_all` is called in time, and the subscriber with this descriptor has taken everything after each walk. -/
def attended (span fd : Nat) (x : Paced) (c : Nat × Action) : Bool :=
  x.timely c && decide (c.1 ≤ x.calledAt + span) &&
    decide (x.state.1.pumps c.2 = true →
      ∀ s ∈ x.state.1.subs, s.fd = fd → (s.after x.state.1 c.2).1.pending = false)

/-- When the subscriber was last sent a frame, or sent its Subscribe. -/
def heardAt (x : Paced) (fd : Nat) : Nat := max (x.joinedAt fd) (((x.frames fd).getLast?.map Prod.fst).getD 0)

/-- Nothing but a walk of `flush_all` clears `dirty_` and sets the next tick. -/
theorem step_dirty (r : Publisher × Poller) {a : Action} (ha : r.1.pumps a = false) :
    (r.1.dirty = true → (Publisher.step r a).1.dirty = true) ∧ (Publisher.step r a).1.nextTickNs = r.1.nextTickNs := by
  cases a with
  | publish m => exact ⟨fun _ => rfl, rfl⟩
  | subscribe fd =>
      rw [Publisher.step, subscribe]
      split <;> exact ⟨id, rfl⟩
  | onReadable fd reads =>
      rw [Publisher.step, onReadable]
      split
      · exact ⟨id, rfl⟩
      · dsimp only
        split
        · exact ⟨id, rfl⟩
        · split
          · exact ⟨id, rfl⟩
          · split
            · exact ⟨id, rfl⟩
            · exact ⟨fun _ => rfl, rfl⟩
  | onWritable fd writes =>
      rw [Publisher.step, onWritable]
      split
      · exact ⟨id, rfl⟩
      · dsimp only
        split <;> exact ⟨fun _ => rfl, rfl⟩
  | flushAll now writes =>
      rw [pumps, Bool.not_eq_false', decide_eq_true_eq] at ha
      have hstep : Publisher.step r (.flushAll now writes) = r := if_pos ha
      rw [hstep]
      exact ⟨id, rfl⟩

/-- A client that subscribes is noticed by the next `flush_all`. -/
theorem dirty_of_joined {r : Publisher × Poller} (hdistinct : r.1.Distinct) {a : Action} {s : Subscriber} (hs : s ∈ r.1.subs)
    (hpumps : r.1.pumps a = false) (hbefore : s.subscribed = false) (hsub : (s.after r.1 a).1.subscribed = true) :
    (Publisher.step r a).1.dirty = true := by
  have hsame : (s.after r.1 a).1 ≠ s := by
    intro hsame
    rw [hsame, hbefore] at hsub
    cases hsub
  cases a with
  | publish m => exact absurd rfl hsame
  | subscribe fd => exact absurd rfl hsame
  | onReadable fd reads =>
      by_cases hfd : s.fd = fd
      · subst hfd
        have hafter : s.after r.1 (.onReadable s.fd reads) = s.afterReadable r.1.ring reads := if_pos rfl
        have hread : (s.readLoop reads).1.subscribed = false := by
          rw [Subscriber.readLoop_received]
          exact hbefore
        have hkeep : ∀ b, s.afterReadable r.1.ring reads = ((s.readLoop reads).1, b) → False := by
          intro b hb
          rw [hafter, hb, hread] at hsub
          cases hsub
        rcases onReadable_cases (find_of_mem hdistinct hs) r.2 reads with ⟨-, hb, -⟩ | ⟨-, hb, -⟩ | ⟨-, hstep⟩
        · exact (hkeep _ hb).elim
        · exact (hkeep _ hb).elim
        · rw [Publisher.step, hstep]
      · exact absurd (congrArg Prod.fst (if_neg hfd)) hsame
  | onWritable fd writes =>
      rw [Subscriber.after, Subscriber.only] at hsub
      split at hsub
      · rw [Subscriber.afterWritable] at hsub
        exact absurd (hbefore.symm.trans hsub) (by decide)
      · exact absurd (hbefore.symm.trans hsub) (by decide)
  | flushAll now writes =>
      rw [pumps, Bool.not_eq_false', decide_eq_true_eq] at hpumps
      exact absurd (congrArg Prod.fst (if_pos hpumps)) hsame

/-- The rest of `flush_all` after a walk lasts a millisecond. -/
structure Ticks (x : Paced) : Prop where
  called : x.calledAt ≤ x.now
  tick : ∀ at', x.pumpedAt = some at' →
    at' ≤ x.calledAt ∧ x.calledAt ≤ at' + 1000000 ∧ x.state.1.nextTickNs ≤ at' + 1000000
  never : x.pumpedAt = none → x.state.1.nextTickNs = 0

theorem Ticks.start (cfg : Config) (since : Nat) : (start cfg since).Ticks where
  called := le_rfl
  tick := fun _ hnone => by cases hnone
  never := fun _ => rfl

theorem calledAt_step_of_not_flush (h : ∀ now writes, c.2 ≠ .flushAll now writes) : (x.step c).calledAt = x.calledAt := by
  rw [step]
  dsimp only
  split
  · rename_i now writes hflush
    exact absurd hflush (h now writes)
  · rfl

theorem dropAll_nextTickNs (p : Publisher) (poller : Poller) (dead : List Nat) :
    (p.dropAll poller dead).1.nextTickNs = p.nextTickNs := by
  induction dead generalizing p poller with
  | nil => rfl
  | cons fd dead ih => exact ih (p.drop poller fd).1 (p.drop poller fd).2

theorem pumps_eq (h : x.state.1.pumps c.2 = true) (hat : c.2.At c.1) :
    (∃ writes, c.2 = .flushAll c.1 writes) ∧ (x.step c).calledAt = c.1 ∧ (x.step c).pumpedAt = some c.1 ∧
      (x.step c).state.1.nextTickNs ≤ c.1 + 1000000 := by
  obtain ⟨t, a⟩ := c
  cases a with
  | flushAll now writes =>
      obtain rfl : now = t := hat
      refine ⟨⟨writes, rfl⟩, rfl, if_pos h, ?_⟩
      rw [pumps, Bool.not_eq_true', decide_eq_false_iff_not] at h
      have hstep : (Publisher.step x.state (.flushAll now writes)).1.nextTickNs = (now + 1000000) % word64 := by
        rw [Publisher.step, flushAll, if_neg h]
        exact dropAll_nextTickNs _ _ _
      change (Publisher.step x.state (.flushAll now writes)).1.nextTickNs ≤ _
      rw [hstep]
      exact Nat.mod_le _ _
  | _ => cases h

theorem Ticks.step (h : x.Ticks) (hnow : x.now ≤ c.1) (hat : c.2.At c.1) : (x.step c).Ticks := by
  cases hpumps : x.state.1.pumps c.2 with
  | true =>
      obtain ⟨-, hcalled, hpumped, htick⟩ := pumps_eq hpumps hat
      refine ⟨hcalled.le, fun at' hat' => ?_, fun hnone => ?_⟩
      · rw [hpumped, Option.some.injEq] at hat'
        subst hat'
        rw [hcalled]
        exact ⟨le_rfl, Nat.le_add_right _ _, htick⟩
      · rw [hpumped] at hnone
        cases hnone
  | false =>
      have hpumped : (x.step c).pumpedAt = x.pumpedAt := if_neg (by rw [hpumps]; decide)
      have htick : (x.step c).state.1.nextTickNs = x.state.1.nextTickNs := (step_dirty x.state hpumps).2
      have hnow' : (x.step c).now = c.1 := rfl
      by_cases hflush : ∃ now writes, c.2 = .flushAll now writes
      · obtain ⟨now, writes, hflush⟩ := hflush
        have hcalled : (x.step c).calledAt = c.1 := by
          rw [Paced.step]
          dsimp only
          rw [hflush]
        rw [hflush] at hat hpumps
        obtain rfl : now = c.1 := hat
        rw [pumps, Bool.not_eq_false', decide_eq_true_eq] at hpumps
        refine ⟨hcalled.le, fun at' hat' => ?_, fun hnone => ?_⟩
        · rw [hpumped] at hat'
          obtain ⟨hle, -, hnext⟩ := h.tick at' hat'
          have hcalledAt := h.called
          rw [hcalled, htick]
          omega
        · rw [htick]
          exact h.never (hpumped ▸ hnone)
      · have hcalled : (x.step c).calledAt = x.calledAt :=
          calledAt_step_of_not_flush fun now writes heq => hflush ⟨now, writes, heq⟩
        refine ⟨?_, fun at' hat' => ?_, fun hnone => ?_⟩
        · rw [hcalled, hnow']
          exact h.called.trans hnow
        · rw [hcalled, htick]
          exact h.tick at' (hpumped ▸ hat')
        · rw [htick]
          exact h.never (hpumped ▸ hnone)

/-- Why a subscriber is not silent for long. -/
inductive Awake (span : Nat) (x : Paced) (s : Subscriber) : Prop
  /-- It has subscribed since the last `flush_all`, and the next one walks. -/
  | waiting (hdirty : x.state.1.dirty = true) (hcalled : x.calledAt ≤ x.joinedAt s.fd) (hjoined : x.joinedAt s.fd ≤ x.now)
      (hlast : s.lastTxNs ≤ x.joinedAt s.fd) (hidle : s.pending = false ∨ s.lastTxNs = 0)
  /-- The last walk left its clock within the interval. -/
  | pumped {at' : Nat} (hat : x.pumpedAt = some at') (hdue : at' ≤ s.lastTxNs + msToNs x.state.1.cfg.heartbeatMs)
      (hlast : s.lastTxNs ≤ x.heardAt s.fd + span) (hset : s.lastTxNs ≠ 0) (hidle : s.pending = false)

theorem Awake.now_le {span : Nat} (h : x.Awake span s) (hticks : x.Ticks) (hspan : x.now ≤ x.calledAt + span) :
    x.now ≤ x.heardAt s.fd + msToNs x.state.1.cfg.heartbeatMs + 1000000 + 2 * span := by
  cases h with
  | waiting hdirty hcalled hjoined hlast hidle =>
      have hheard : x.joinedAt s.fd ≤ x.heardAt s.fd := Nat.le_max_left _ _
      omega
  | pumped hat hdue hlast hset hidle =>
      have htick := hticks.tick _ hat
      omega

theorem joinedAt_step (hdistinct : x.state.1.Distinct) (hs : s ∈ x.state.1.subs) :
    (x.step c).joinedAt s.fd =
      if s.subscribed = false ∧ (s.after x.state.1 c.2).1.subscribed = true then c.1 else x.joinedAt s.fd := by
  rw [step]
  dsimp only
  rw [find_of_mem hdistinct hs]

theorem heardAt_step {fd : Nat} {new : List (List UInt8)} (hjoined : (x.step c).joinedAt fd = x.joinedAt fd)
    (hframes : (x.step c).frames fd = x.frames fd ++ new.map fun f => (c.1, f)) :
    (new = [] → (x.step c).heardAt fd = x.heardAt fd) ∧ (new ≠ [] → c.1 ≤ (x.step c).heardAt fd) := by
  rw [heardAt, heardAt, hjoined, hframes]
  constructor
  · rintro rfl
    rw [List.map_nil, List.append_nil]
  · intro hne
    have hlast : (x.frames fd ++ new.map fun f => (c.1, f)).getLast?.map Prod.fst = some c.1 := by
      obtain ⟨f, hf⟩ := Option.ne_none_iff_exists'.1 (fun hnone => hne (List.getLast?_eq_none_iff.1 hnone))
      rw [List.getLast?_append, List.getLast?_map, hf]
      rfl
    rw [hlast]
    exact Nat.le_max_right _ _

theorem Awake.walk {span : Nat} {s' : Subscriber} {new : List (List UInt8)} (hspaced : x.Spaced s) (hnow : x.now ≤ c.1)
    (hword : c.1 < word64) (hpos : 1 ≤ c.1) (hat : c.2.At c.1) (hpumps : x.state.1.pumps c.2 = true)
    (hcalled : s.Called x.state.1 c.2 c.1 s' new) (hsub : s.subscribed = true) (hfd : s'.fd = s.fd)
    (hjoined : (x.step c).joinedAt s.fd = x.joinedAt s.fd)
    (hframes : (x.step c).frames s.fd = x.frames s.fd ++ new.map fun f => (c.1, f))
    (hidle : s.pending = false ∨ s.lastTxNs = 0) (hclock : s.clock c.1 ≤ x.heardAt s.fd + span)
    (hprompt : s'.pending = false) : (x.step c).Awake span s' := by
  obtain ⟨-, -, hpumped, -⟩ := pumps_eq hpumps hat
  obtain ⟨hclockle, -⟩ := hspaced.clock hnow
  obtain ⟨hsame, hnew⟩ := heardAt_step hjoined hframes
  have hcfg : (x.step c).state.1.cfg = x.state.1.cfg := Publisher.step_cfg x.state c.2
  cases hcalled with
  | joined hno => exact absurd (hpumps.symm.trans hno) (by decide)
  | other hno => exact absurd (hpumps.symm.trans hno) (by decide)
  | pumped _ hlogs _ hlast _ hawake =>
      by_cases hnone : new = []
      · have hlast' : s'.lastTxNs = s.clock c.1 := hlast.trans (hlogs.none hnone).1
        refine .pumped hpumped ?_ ?_ ?_ hprompt
        · rw [hcfg]
          rcases hidle with hidle | hzero
          · rcases hawake hsub hidle with hearly | hnow'
            · rw [hlast', elapsedNs_of_le hclockle hword] at hearly
              omega
            · omega
          · rw [hlast', Subscriber.clock, if_pos hzero]
            exact Nat.le_add_right _ _
        · rw [hlast', hfd, hsame hnone]
          exact hclock
        · rw [hlast', Subscriber.clock]
          split
          · omega
          · assumption
      · have hlast' : s'.lastTxNs = c.1 := hlast.trans (hlogs.some hnone)
        have hheard := hnew hnone
        refine .pumped hpumped ?_ ?_ ?_ hprompt
        · rw [hlast']
          exact Nat.le_add_right _ _
        · rw [hlast', hfd]
          omega
        · omega

theorem Awake.step_pumped {span : Nat} {new : List (List UInt8)} (h : x.Awake span s) (hspaced : x.Spaced s)
    (hnow : x.now ≤ c.1) (hword : c.1 < word64) (hpos : 1 ≤ c.1) (hspan : c.1 ≤ x.calledAt + span) (hat : c.2.At c.1)
    (hpumps : x.state.1.pumps c.2 = true) {s' : Subscriber} (hcalled : s.Called x.state.1 c.2 c.1 s' new)
    (hsub : s.subscribed = true) (hfd : s'.fd = s.fd) (hjoined : (x.step c).joinedAt s.fd = x.joinedAt s.fd)
    (hframes : (x.step c).frames s.fd = x.frames s.fd ++ new.map fun f => (c.1, f)) (hprompt : s'.pending = false) :
    (x.step c).Awake span s' := by
  cases h with
  | waiting hdirty hcalledAt hjoinedAt hlast hidle =>
      refine .walk hspaced hnow hword hpos hat hpumps hcalled hsub hfd hjoined hframes hidle ?_ hprompt
      have hheard : x.joinedAt s.fd ≤ x.heardAt s.fd := Nat.le_max_left _ _
      rw [Subscriber.clock]
      split <;> omega
  | pumped hat' hdue hlast hset hidle =>
      refine .walk hspaced hnow hword hpos hat hpumps hcalled hsub hfd hjoined hframes (.inl hidle) ?_ hprompt
      rw [Subscriber.clock, if_neg hset]
      exact hlast

theorem Awake.step_other {span : Nat} (h : x.Awake span s) (hnow : x.now ≤ c.1) (hpumps : x.state.1.pumps c.2 = false)
    {s' : Subscriber} (hlast' : s'.lastTxNs = s.lastTxNs) (hidle' : s.pending = false → s'.pending = false)
    (hfd : s'.fd = s.fd) (hjoined : (x.step c).joinedAt s.fd = x.joinedAt s.fd)
    (hframes : (x.step c).frames s.fd = x.frames s.fd) : (x.step c).Awake span s' := by
  cases h with
  | waiting hdirty hcalledAt hjoinedAt hlast hidle =>
      -- a `flush_all` would have walked
      have hsame : (x.step c).calledAt = x.calledAt := by
        refine calledAt_step_of_not_flush fun now writes hflush => ?_
        rw [hflush, pumps, Bool.not_eq_false', decide_eq_true_eq, hdirty] at hpumps
        cases hpumps.1
      refine .waiting ((step_dirty x.state hpumps).1 hdirty) ?_ ?_ ?_ ?_
      · rw [hsame, hfd, hjoined]
        exact hcalledAt
      · rw [hfd, hjoined]
        exact hjoinedAt.trans hnow
      · rw [hlast', hfd, hjoined]
        exact hlast
      · rw [hlast']
        exact hidle.imp_left hidle'
  | pumped hat hdue hlast hset hidle =>
      have hpumped : (x.step c).pumpedAt = x.pumpedAt := if_neg (by rw [hpumps]; decide)
      have hcfg : (x.step c).state.1.cfg = x.state.1.cfg := Publisher.step_cfg x.state c.2
      refine .pumped (hpumped.trans hat) ?_ ?_ ?_ (hidle' hidle)
      · rw [hlast', hcfg]
        exact hdue
      · rw [hlast', hfd, heardAt, hjoined, hframes]
        exact hlast
      · rw [hlast']
        exact hset

/-- Its Subscribe marks the publisher, so that the next `flush_all` walks. -/
theorem Awake.step_joined {span : Nat} {new : List (List UInt8)} (hspaced : x.Spaced s) (hnow : x.now ≤ c.1)
    (hticks : (x.step c).Ticks) (hdirty : (x.step c).state.1.dirty = true) (hidle : s.pending = false) {s' : Subscriber}
    (hjoined : (x.step c).joinedAt s'.fd = c.1)
    (hstart : (new = [] ∧ s'.lastTxNs = s.lastTxNs ∧ s'.toConn = { s.toConn with rx := s'.rx }) ∨
      ∃ g, new = [g] ∧ isHeartbeat g = false ∧ s'.lastTxNs = 0) : (x.step c).Awake span s' := by
  have hlast := hspaced.lastTx
  refine .waiting hdirty ?_ hjoined.le ?_ ?_
  · rw [hjoined]
    exact hticks.called
  · rw [hjoined]
    rcases hstart with ⟨-, hsame, -⟩ | ⟨_, -, -, hzero⟩ <;> omega
  · rcases hstart with ⟨-, -, hconn⟩ | ⟨_, -, -, hzero⟩
    · left
      rw [hconn]
      exact hidle
    · exact .inr hzero

/-- The account of one descriptor. -/
structure Watched (cfg : Config) (span fd : Nat) (x : Paced) : Prop extends x.Regular cfg where
  ticks : x.Ticks
  pos : 1 ≤ x.now
  called : x.now ≤ x.calledAt + span
  awake : ∀ s ∈ x.state.1.subs, s.fd = fd → s.subscribed = true → x.Awake span s

theorem now_le_calledAt_step {span : Nat} (hspan : c.1 ≤ x.calledAt + span) : (x.step c).now ≤ (x.step c).calledAt + span := by
  change c.1 ≤ (match c.2 with | .flushAll _ _ => c.1 | _ => x.calledAt) + span
  split
  · exact Nat.le_add_right _ _
  · exact hspan

theorem Watched.step {cfg : Config} {span fd : Nat} (h : x.Watched cfg span fd) (hattended : attended span fd x c = true) :
    (x.step c).Watched cfg span fd := by
  rw [attended, Bool.and_eq_true, Bool.and_eq_true, decide_eq_true_eq, decide_eq_true_eq] at hattended
  obtain ⟨⟨htimely, hspan⟩, hprompt⟩ := hattended
  obtain ⟨hnow, hword, hat, hdata⟩ := timely_iff.1 htimely
  have hpos : 1 ≤ c.1 := h.pos.trans hnow
  have hticks := h.ticks.step hnow hat
  refine ⟨h.toRegular.step htimely, hticks, hpos, now_le_calledAt_step hspan, fun s' hs' hfd hsub' => ?_⟩
  rcases h.toSound.mem_step hat hs' with ⟨s, hs, new, hfd', hcalled, hafter, -, hframes⟩ | ⟨heq, -⟩
  · rw [hfd'] at hframes
    have hjoined := joinedAt_step (c := c) h.distinct hs
    rw [← hafter] at hjoined
    have hkeep : s.subscribed = true → (x.step c).joinedAt s.fd = x.joinedAt s.fd := by
      intro hsub
      rw [hjoined, hsub]
      exact if_neg fun hboth => Bool.noConfusion hboth.1
    cases hcalled with
    | pumped hpumps hlogs hsilent hlast hsub hawake =>
        rw [hsub] at hsub'
        have hidle : s'.pending = false := by
          rw [hafter]
          exact hprompt hpumps s hs (hfd'.symm.trans hfd)
        exact (h.awake s hs (hfd'.symm.trans hfd) hsub').step_pumped (h.spaced s hs) hnow hword hpos hspan hat hpumps
          (.pumped hpumps hlogs hsilent hlast hsub hawake) hsub' hfd' (hkeep hsub') hframes hidle
    | joined hpumps hbefore hsub hstart =>
        have hjoinedAt : (x.step c).joinedAt s'.fd = c.1 := by
          rw [hfd', hjoined]
          exact if_pos ⟨hbefore, hsub⟩
        have hdirty := dirty_of_joined h.distinct hs hpumps hbefore (hafter ▸ hsub)
        have hempty := (Subscriber.pending_eq_false_iff _).2 ((h.slim.subs s hs).silent hbefore)
        exact .step_joined (h.spaced s hs) hnow hticks hdirty hempty hjoinedAt hstart
    | other hpumps hnew hlast hsub hidle =>
        rw [hsub] at hsub'
        rw [hnew, List.map_nil, List.append_nil] at hframes
        exact (h.awake s hs (hfd'.symm.trans hfd) hsub').step_other hnow hpumps hlast hidle hfd' (hkeep hsub') hframes
  · rw [heq] at hsub'
    cases hsub'

/-- A subscriber is sent no Heartbeat sooner after another frame than the interval. While `flush_all` is called every `span` nanoseconds and a walk never leaves it with bytes pending, it is not silent for more than the interval, the rest between two walks and two spans. -/
theorem run_paced (cfg : Config) (hms : cfg.heartbeatMs * 1000000 < word64) {since : Nat} (hsince : 1 ≤ since)
    (calls : List (Nat × Action)) (htimely : Along step (fun x c => timely x c) (start cfg since) calls) :
    let x := (start cfg since).run calls
    ∀ s ∈ x.state.1.subs,
      (x.frames s.fd).map Prod.snd = s.stream.map Prod.snd ∧
      (x.frames s.fd).Pairwise (fun f g => f.1 ≤ g.1 ∧ (isHeartbeat g.2 = true → f.1 + cfg.heartbeatMs * 1000000 ≤ g.1)) ∧
      ∀ span, Along step (fun x c => attended span s.fd x c) (start cfg since) calls → s.subscribed = true →
        x.now ≤ x.heardAt s.fd + cfg.heartbeatMs * 1000000 + 1000000 + 2 * span := by
  intro x s hs
  have hns : msToNs cfg.heartbeatMs = cfg.heartbeatMs * 1000000 := Nat.mod_eq_of_lt hms
  have hstart : (start cfg since).Regular cfg := ⟨.start cfg since, fun _ ht => absurd ht List.not_mem_nil⟩
  have hregular : x.Regular cfg := run_rule (fun _ _ hc h => h.step hc) htimely hstart
  have hspaced := hregular.spaced s hs
  refine ⟨hspaced.logged, ?_, fun span hattended hsub => ?_⟩
  · rw [← hns, ← hregular.cfg]
    exact hspaced.spaced
  · have hwatched : x.Watched cfg span s.fd :=
      run_rule (fun _ _ hc h => h.step hc) hattended
        ⟨hstart, .start cfg since, hsince, Nat.le_add_right _ _,
          fun _ ht => absurd ht List.not_mem_nil⟩
    rw [← hns, ← hregular.cfg]
    exact (hwatched.awake s hs rfl hsub).now_le hwatched.ticks hwatched.called

/-- A subscriber that is sent an update, and a Heartbeat when nothing else was published for the interval. -/
theorem run_paced_beat :
    let cfg : Config := {}
    let request : List UInt8 := [16, 0, 4, 1, 0, 0, 0, 0, 1, 0, 0, 0, 0, 0, 0, 0]
    let calls := [(1, .publish (.top 0 10 (-1) 5 0)), (1, .subscribe 7), (1, .onReadable 7 [.bytes request]),
      (2, .flushAll 2 fun _ => [.wrote 40]), (500000000, .flushAll 500000000 fun _ => []),
      (1000000002, .flushAll 1000000002 fun _ => [.wrote 24])]
    let x := (start cfg 1).run calls
    (x.frames 7).map (fun f => (f.1, isHeartbeat f.2)) = [(2, false), (1000000002, true)] ∧
      Along step (fun x c => attended 500000002 7 x c) (start cfg 1) calls ∧ (∃ s ∈ x.state.1.subs, s.fd = 7 ∧ s.subscribed = true) ∧
      ∀ s ∈ x.state.1.subs,
        (x.frames s.fd).map Prod.snd = s.stream.map Prod.snd ∧
        (x.frames s.fd).Pairwise
          (fun f g => f.1 ≤ g.1 ∧ (isHeartbeat g.2 = true → f.1 + cfg.heartbeatMs * 1000000 ≤ g.1)) ∧
        ∀ span, Along step (fun x c => attended span s.fd x c) (start cfg 1) calls → s.subscribed = true →
          x.now ≤ x.heardAt s.fd + cfg.heartbeatMs * 1000000 + 1000000 + 2 * span := by
  intro cfg request calls
  have htimely : Along step (fun x c => timely x c) (start cfg 1) calls := by decide +kernel
  have hpaced := run_paced cfg (by decide) (Nat.le_refl 1) calls htimely
  exact ⟨by decide +kernel, by decide +kernel, by decide +kernel, hpaced⟩

end Paced

end Publisher

end Matchbox
