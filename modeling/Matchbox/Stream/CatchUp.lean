import Matchbox.Stream.Interest
import Matchbox.Stream.OneGap
import Matchbox.Stream.Pace

/-!
# Catching up

A walk of `flush_all` copies frames for a subscriber until it is at the head or `max_backlog` bytes are pending. So a subscriber that takes what it is sent gains on the publisher by the frames that fit into `max_backlog`, less those published since the walk before. `Race` counts beside the publisher what this needs: the frames published since the last walk, how far behind the subscriber was when it subscribed, and the walks since.

`run_catchesUp` is the sizing rule that follows. As long as no more frames are published between two walks than one walk copies, and the ring has room for them beside the frames the subscriber is behind at first, it loses nothing and is at the head after a number of walks that depends only on how far it was behind.
-/

namespace Matchbox

open Wire Guarded

theorem ReplayRing.oldest_le_of {r : ReplayRing} {n : Nat} (hone : 1 ≤ n) (hle : r.head + 1 ≤ n + r.capacity) : r.oldest ≤ n := by
  rw [oldest]
  split <;> omega

/-! ### One pump -/

namespace Subscriber

variable {cfg : Publisher.Config} {ring : ReplayRing} {s : Subscriber}

theorem pumpGap_of_held (now : Nat) (hheld : ring.oldest ≤ s.nextSeq) : s.pumpGap cfg ring now = s := by
  rw [pumpGap]
  exact if_neg fun hlap => absurd hlap.2 (Nat.not_lt.2 hheld)

theorem backlog_copy (hring : ring.Short) (now : Nat) : (s.copy ring now).backlog ≤ s.backlog + 40 := by
  have hlength := hring s.nextSeq
  change (s.tx ++ ring.frame s.nextSeq).length - s.txOff ≤ s.tx.length - s.txOff + 40
  rw [List.length_append]
  omega

/-- The copy loop does not pass the head, and what it adds to the backlog are whole frames. -/
theorem pumpFrames_moves (hring : ring.Short) (hhead : ring.head + 1 < word32) (now fuel : Nat) (s : Subscriber)
    (hle : s.nextSeq ≤ ring.head + 1) :
    s.nextSeq ≤ (pumpFrames cfg ring now fuel s).nextSeq ∧ (pumpFrames cfg ring now fuel s).nextSeq ≤ ring.head + 1 ∧
      (pumpFrames cfg ring now fuel s).backlog + 40 * s.nextSeq ≤
        s.backlog + 40 * (pumpFrames cfg ring now fuel s).nextSeq := by
  induction fuel generalizing s with
  | zero => exact ⟨le_rfl, hle, le_rfl⟩
  | succ fuel ih =>
      rw [pumpFrames]
      split
      · rename_i hloop
        have hnext : (s.copy ring now).nextSeq = s.nextSeq + 1 := Nat.mod_eq_of_lt (by omega)
        have hbacklog := s.backlog_copy hring now
        obtain ⟨hgrow, hbound, hframes⟩ := ih (s.copy ring now) (by omega)
        rw [hnext] at hgrow hframes
        refine ⟨by omega, hbound, by omega⟩
      · exact ⟨le_rfl, hle, le_rfl⟩

theorem pumpHeartbeat_nextSeq (now : Nat) : (s.pumpHeartbeat cfg ring now).nextSeq = s.nextSeq := by
  rw [pumpHeartbeat]
  split <;> rfl

end Subscriber

/-- The frames that a walk copies at least for a subscriber with no more than a Gap pending, unless it comes to the head. -/
def Publisher.Config.perWalk (cfg : Publisher.Config) : Nat := (cfg.maxBacklog + 15) / 40

namespace Subscriber

variable {cfg : Publisher.Config} {ring : ReplayRing} {s : Subscriber}

theorem pumpFrames_gains (hring : ring.Short) (hhead : ring.head + 1 < word32) (now : Nat) (hsub : s.subscribed = true)
    (hheld : ring.oldest ≤ s.nextSeq) (hle : s.nextSeq ≤ ring.head + 1) (hbacklog : s.backlog ≤ 24) :
    let t := pumpFrames cfg ring now (ring.head + 1 + cfg.maxBacklog) s
    t.nextSeq = ring.head + 1 ∨ s.nextSeq + cfg.perWalk ≤ t.nextSeq ∧ t.nextSeq ≤ ring.head + 1 := by
  intro t
  obtain ⟨-, hbound, hframes⟩ : s.nextSeq ≤ t.nextSeq ∧ t.nextSeq ≤ ring.head + 1 ∧
    t.backlog + 40 * s.nextSeq ≤ s.backlog + 40 * t.nextSeq := pumpFrames_moves hring hhead now _ s hle
  have hdone : t.backlog < cfg.maxBacklog → ring.head < t.nextSeq :=
    (pumpFrames_appends hhead now _ hsub (fun _ => hheld) (by omega)).2.2
  rw [Publisher.Config.perWalk]
  omega

theorem pumpTx_gains (hring : ring.Short) (hhead : ring.head + 1 < word32) (now : Nat) (hsub : s.subscribed = true)
    (hheld : ring.oldest ≤ s.nextSeq) (hle : s.nextSeq ≤ ring.head + 1) (hbacklog : s.backlog ≤ 24) :
    (s.pumpTx cfg ring now).nextSeq = ring.head + 1 ∨
      s.nextSeq + cfg.perWalk ≤ (s.pumpTx cfg ring now).nextSeq ∧ (s.pumpTx cfg ring now).nextSeq ≤ ring.head + 1 := by
  have hgap : pumpGap { s with lastTxNs := s.clock now } cfg ring now = { s with lastTxNs := s.clock now } :=
    pumpGap_of_held now hheld
  rw [pumpTx, clocked_eq, if_pos hsub, pumpHeartbeat_nextSeq, hgap]
  exact pumpFrames_gains hring hhead now hsub hheld hle hbacklog

/-- What a call does to the cursor of a subscriber. -/
inductive Gains (p : Publisher) (a : Publisher.Action) (s s' : Subscriber) : Prop
  /-- A walk. -/
  | pumped (hpumps : p.pumps a = true) {now : Nat} (hnext : s'.nextSeq = (s.pumpTx p.cfg p.ring now).nextSeq)
      (hsub : s'.subscribed = s.subscribed)
  /-- Its Subscribe is accepted. -/
  | joined (hpumps : p.pumps a = false) (hbefore : s.subscribed = false) (hsub : s'.subscribed = true)
      (hone : 1 ≤ s'.nextSeq) (hbacklog : s'.backlog ≤ s.backlog + 24)
  /-- Anything else. -/
  | other (hpumps : p.pumps a = false) (hnext : s'.nextSeq = s.nextSeq) (hsub : s'.subscribed = s.subscribed)
      (hbacklog : s'.backlog ≤ s.backlog)

theorem start_backlog (s : Subscriber) (ring : ReplayRing) : (s.start ring).backlog ≤ s.backlog + 24 := by
  rw [start]
  dsimp only
  split
  · split
    · change (s.tx ++ (Message.gap (subscribeFrom s.rx) ((ring.head + 1) % word32)).make 0).length - s.txOff ≤
        s.tx.length - s.txOff + 24
      rw [List.length_append, Message.length_make]
      change s.tx.length + 24 - s.txOff ≤ _
      omega
    · exact Nat.le_add_right _ _
  · exact Nat.le_add_right _ _

theorem one_le_start (s : Subscriber) (hhead : ring.head + 1 < word32) : 1 ≤ (s.start ring).nextSeq := by
  have hnext : (ring.head + 1) % word32 = ring.head + 1 := Nat.mod_eq_of_lt hhead
  rw [start, hnext]
  dsimp only
  split
  · split <;> exact Nat.le_add_left _ _
  · rename_i hfirst
    change 1 ≤ subscribeFrom s.rx % word32
    rw [Nat.mod_eq_of_lt (by omega)]
    omega

theorem start_subscribed (s : Subscriber) (ring : ReplayRing) : (s.start ring).subscribed = true := by
  rw [start]
  dsimp only
  split
  · split <;> rfl
  · rfl

theorem Appended.subscribed {now : Nat} {s' : Subscriber} (h : s.Appended cfg ring now s') : s'.subscribed = s.subscribed := by
  cases h <;> rfl

theorem pumpTx_subscribed (s : Subscriber) (cfg : Publisher.Config) (hhead : ring.head + 1 < word32) (now : Nat) :
    (s.pumpTx cfg ring now).subscribed = s.subscribed := by
  have happends := s.pumpTx_appends cfg now hhead
  generalize s.pumpTx cfg ring now = t at happends ⊢
  induction happends with
  | refl => rfl
  | tail _ hlast ih => exact hlast.subscribed.trans ih

theorem after_gains {p : Publisher} (hhead : p.ring.head + 1 < word32) (a : Publisher.Action) (s : Subscriber) :
    Gains p a s (s.after p a).1 := by
  have hafter := s.after_cases p a
  generalize (s.after p a).1 = s' at hafter ⊢
  cases hafter with
  | pumped hact hpumps => exact .pumped hpumps rfl (s.pumpTx_subscribed p.cfg hhead _)
  | joined hpumps hbefore => exact .joined hpumps hbefore (start_subscribed _ _) (one_le_start _ hhead) (start_backlog _ _)
  | read hpumps => exact .other hpumps rfl rfl le_rfl
  | flushed hpumps => exact .other hpumps rfl rfl (s.toConn.flushAndArm_tx _ _).2.1
  | same hpumps => exact .other hpumps rfl rfl le_rfl

/-! ### Nothing lost -/

/-- The ring has all that the subscriber has still to get, and every Gap it was sent points back: it was ahead. -/
structure Whole (ring : ReplayRing) (s : Subscriber) : Prop where
  held : s.subscribed = true → ring.oldest ≤ s.nextSeq
  gaps : ∀ f ∈ s.appended, IsControl .gap f → (Gap.ofBytes f).resumedAt < (Gap.ofBytes f).first

variable {published : List Message}

theorem Whole.congr (h : s.Whole ring) {s' : Subscriber} (happended : s'.appended = s.appended)
    (hsub : s'.subscribed = s.subscribed) (hnext : s'.nextSeq = s.nextSeq) : s'.Whole ring := by
  refine ⟨?_, ?_⟩
  · rw [hsub, hnext]
    exact h.held
  · rw [happended]
    exact h.gaps

theorem Whole.put (h : s.Whole ring) {s' : Subscriber} {f : List UInt8} (happended : s'.appended = s.appended ++ [f])
    (hgap : ¬ IsControl .gap f) (hheld : ring.oldest ≤ s'.nextSeq) : s'.Whole ring := by
  refine ⟨fun _ => hheld, fun g hg hcontrol => ?_⟩
  rw [happended, List.mem_append, List.mem_singleton] at hg
  rcases hg with hg | rfl
  · exact h.gaps g hg hcontrol
  · exact absurd hcontrol hgap

theorem Whole.append (h : s.Whole ring) (hring : ring.Holds published) (hhead : ring.head + 1 < word32) {now : Nat}
    {s' : Subscriber} (happended : s.Appended cfg ring now s') : s'.Whole ring := by
  cases happended with
  | clock => exact ⟨h.held, h.gaps⟩
  | gap hsub hroom hlap => exact absurd (h.held hsub) (Nat.not_le.2 hlap)
  | data hsub hroom hold hle =>
      have hone := ring.one_le_oldest
      have hlt : s.nextSeq < word32 := by omega
      obtain ⟨m, -, hframe⟩ := hring.bytes s.nextSeq (by rw [ReplayRing.holds_iff]; exact ⟨hold, hle, by omega⟩)
      have hnext : (s.nextSeq + 1) % word32 = s.nextSeq + 1 := Nat.mod_eq_of_lt (by omega)
      refine h.put rfl ?_ ?_
      · rw [hframe]
        exact m.not_isControl_make (by omega) hlt .gap
      · change ring.oldest ≤ (s.nextSeq + 1) % word32
        omega
  | heartbeat hsub hempty hdone =>
      refine h.put rfl (not_gap_of_heartbeat ?_) (h.held hsub)
      rw [Message.isControl_make]
      rfl

theorem Whole.start (h : s.Whole ring) (hhead : ring.head + 1 < word32) (hheld : ring.oldest ≤ (s.start ring).nextSeq) :
    (s.start ring).Whole ring := by
  refine ⟨fun _ => hheld, ?_⟩
  have hnext : (ring.head + 1) % word32 = ring.head + 1 := Nat.mod_eq_of_lt hhead
  rw [Subscriber.start, hnext]
  dsimp only
  split
  · split
    · rename_i hahead
      intro f hf hgap
      change f ∈ s.appended ++ [_] at hf
      rw [List.mem_append, List.mem_singleton] at hf
      rcases hf with hf | rfl
      · exact h.gaps f hf hgap
      · rw [Gap.ofBytes_make]
        change (ring.head + 1) % 2 ^ 64 < subscribeFrom s.rx % 2 ^ 64
        rw [Nat.mod_eq_of_lt (hhead.trans (by decide)), Nat.mod_eq_of_lt (subscribeFrom_lt s.rx)]
        exact hahead
    · exact h.gaps
  · exact h.gaps

theorem Whole.pumpTx (h : s.Whole ring) (hring : ring.Holds published) (hhead : ring.head + 1 < word32) (now : Nat) :
    (s.pumpTx cfg ring now).Whole ring := by
  have happends := s.pumpTx_appends cfg now hhead
  generalize s.pumpTx cfg ring now = t at happends ⊢
  induction happends with
  | refl => exact h
  | tail _ hlast ih => exact ih.append hring hhead hlast

theorem Whole.after {p : Publisher} (h : s.Whole p.ring) (hring : p.ring.Holds p.published)
    (hhead : p.ring.head + 1 < word32) (a : Publisher.Action)
    (hheld : s.subscribed = false → (s.after p a).1.subscribed = true → p.ring.oldest ≤ (s.after p a).1.nextSeq) :
    (s.after p a).1.Whole p.ring := by
  have hafter := s.after_cases p a
  generalize (s.after p a).1 = s' at hafter hheld ⊢
  cases hafter with
  | pumped hact hpumps => exact (h.pumpTx hring hhead _).congr (Conn.flushAndArm_appended _ _ _) rfl rfl
  | joined hpumps hbefore =>
      rename_i rx
      have hread : Whole p.ring { s with rx := rx } := h.congr rfl rfl rfl
      exact hread.start hhead (hheld hbefore (start_subscribed _ _))
  | read hpumps => exact h.congr rfl rfl rfl
  | flushed hpumps => exact h.congr (Conn.flushAndArm_appended _ _ _) rfl rfl
  | same hpumps => exact h

end Subscriber

/-- The frames of a stream that are no control frames. -/
def Wire.dataFrames (frames : List (List UInt8)) : List (List UInt8) := frames.filter fun f => (Header.ofBytes f).seq ≠ 0

theorem Wire.dataFrames_concat_control (frames : List (List UInt8)) (m : Message) :
    dataFrames (frames ++ [m.make 0]) = dataFrames frames := by
  have hseq : (Header.ofBytes (m.make 0)).seq = 0 := by
    rw [m.ofBytes_make_self]
    rfl
  rw [dataFrames, List.filter_append, List.filter_singleton, hseq]
  exact List.append_nil _

theorem Wire.dataFrames_concat_data (frames : List (List UInt8)) (m : Message) {seq : Nat} (hpos : 0 < seq) (hlt : seq < word32) :
    dataFrames (frames ++ [m.make seq]) = dataFrames frames ++ [m.make seq] := by
  have hseq : (Header.ofBytes (m.make seq)).seq = seq := by
    rw [m.ofBytes_make_self]
    exact Nat.mod_eq_of_lt hlt
  rw [dataFrames, List.filter_append, List.filter_singleton, hseq, decide_eq_true (by omega)]
  rfl

/-- Without a Gap that skips anything they are the published ones between the two cursors. -/
theorem Streams.dataFrames_eq {capacity start e : Nat} {published : List Message} {items : List (Nat × List UInt8)}
    (h : Streams capacity published start items e) (hstart : 1 ≤ start) (he : e < word32)
    (hgaps : ∀ x ∈ items, IsControl .gap x.2 → (Gap.ofBytes x.2).resumedAt < (Gap.ofBytes x.2).first) :
    start ≤ e ∧ dataFrames (items.map Prod.snd) = numbered start ((published.take (e - 1)).drop (start - 1)) := by
  induction h with
  | nil =>
      refine ⟨le_rfl, ?_⟩
      rw [List.drop_of_length_le (List.length_take_le _ _)]
      rfl
  | @data items i head m h hm hhead ih =>
      obtain ⟨hle, hframes⟩ := ih (by omega) fun x hx => hgaps x (List.mem_append_left _ hx)
      have hlt := (List.getElem?_eq_some_iff.1 hm).1
      have hlength : (published.take i).length = i := List.length_take_of_le hlt.le
      refine ⟨by omega, ?_⟩
      rw [List.map_append, List.map_singleton, dataFrames_concat_data _ m (Nat.succ_pos i) (by omega), hframes]
      rw [show i + 2 - 1 = i + 1 from rfl, show i + 1 - 1 = i from rfl, List.take_add_one, hm, Option.toList_some,
        List.drop_append_of_le_length (by omega), numbered, numbered, List.mapIdx_concat, List.length_drop, hlength]
      rw [show start + (i - (start - 1)) = i + 1 by omega, Nat.mod_eq_of_lt (by omega)]
  | @gap items e head h hlt ih =>
      have hgap : IsControl .gap ((Message.gap e (oldestAt capacity head)).make 0) := by
        rw [Message.isControl_make]
        rfl
      have hback := hgaps _ (List.mem_append_right _ (List.mem_singleton.2 rfl)) hgap
      have hword : word32 ≤ 2 ^ 64 := by decide
      rw [Gap.ofBytes_make, Nat.mod_eq_of_lt (by omega), Nat.mod_eq_of_lt (by omega)] at hback
      exact absurd hback (Nat.not_lt.2 hlt.le)
  | @heartbeat items i head ts h ih =>
      obtain ⟨hle, hframes⟩ := ih he fun x hx => hgaps x (List.mem_append_left _ hx)
      refine ⟨hle, ?_⟩
      rw [List.map_append, List.map_singleton, dataFrames_concat_control, hframes]

theorem Subscriber.Whole.dataFrames_eq {ring : ReplayRing} {published : List Message} {s : Subscriber} (h : s.Whole ring)
    (htracks : s.Tracks ring published) (hsub : s.subscribed = true) (hhead : ring.head + 1 < word32) :
    dataFrames s.appended = numbered s.startSeq ((published.take (s.nextSeq - 1)).drop (s.startSeq - 1)) := by
  obtain ⟨hone, lead, items, hstream, hlead, hitems⟩ := htracks.ordered hsub
  have happended : s.appended = lead.map Prod.snd ++ items.map Prod.snd := by
    rw [htracks.appended, hstream, List.map_append]
  have hgaps : ∀ x ∈ items, IsControl .gap x.2 → (Gap.ofBytes x.2).resumedAt < (Gap.ofBytes x.2).first := by
    intro x hx
    apply h.gaps
    rw [happended]
    exact List.mem_append_right _ (List.mem_map_of_mem hx)
  have hdata := (hitems.dataFrames_eq hone ((htracks.cursor hsub).trans_lt hhead) hgaps).2
  have hlead' : dataFrames (lead.map Prod.snd) = [] := by
    cases hlead with
    | none => rfl
    | ahead hlt => exact dataFrames_concat_control [] _
  rw [happended, dataFrames, List.filter_append]
  change dataFrames _ ++ dataFrames _ = _
  rw [hlead', hdata, List.nil_append]

/-! ### The race -/

namespace Publisher

/-- The publisher, and what is counted beside it of the subscriber with one descriptor. -/
structure Race where
  state : Publisher × Poller
  /-- The frames published since the last walk. -/
  burst : Nat := 0
  /-- How many frames the subscriber was behind when its Subscribe was accepted. -/
  behind : Nat := 0
  /-- The walks since then. -/
  walks : Nat := 0

namespace Race

/-- The call accepts the Subscribe of the subscriber with this descriptor: where its cursor is then. -/
def joins (fd : Nat) (p : Publisher) (a : Action) : Option Nat :=
  (p.find fd).bind fun s =>
    if s.subscribed = false ∧ (s.after p a).1.subscribed = true then some (s.after p a).1.nextSeq else none

def step (fd : Nat) (x : Race) (a : Action) : Race where
  state := Publisher.step x.state a
  burst := if x.state.1.pumps a then 0 else x.burst + a.published.length
  behind :=
    match joins fd x.state.1 a with
    | some next => x.state.1.ring.head + 1 - next
    | none => x.behind
  walks :=
    match joins fd x.state.1 a with
    | some _ => 0
    | none => if x.state.1.pumps a then x.walks + 1 else x.walks

def start (cfg : Config) : Race where
  state := (init cfg, Poller.init)

def run (cfg : Config) (fd : Nat) (actions : List Action) : Race := actions.foldl (step fd) (start cfg)

/-- No more than `most` frames are published between two walks, the ring has room for them beside those that the subscriber is behind at first, and a walk leaves it with nothing pending. -/
def prompt (most fd : Nat) (x : Race) (a : Action) : Bool :=
  decide ((x.step fd a).burst ≤ most ∧ (x.step fd a).behind + most ≤ x.state.1.ring.capacity ∧
    (x.state.1.pumps a = true → ∀ s ∈ x.state.1.subs, s.fd = fd → (s.after x.state.1 a).1.pending = false))

/-- How far behind the subscriber may be just after a walk. -/
def lag (most : Nat) (x : Race) : Nat := x.behind - x.walks * (x.state.1.cfg.perWalk - most)

variable {x : Race} {a : Action} {most fd : Nat}

/-- What holds of the subscriber with the descriptor. -/
structure Near (most : Nat) (x : Race) (s : Subscriber) : Prop extends s.Whole x.state.1.ring where
  backlog : s.backlog ≤ 24
  near : s.subscribed = true → x.state.1.ring.head + 1 ≤ s.nextSeq + x.lag most + x.burst

/-- What holds of the whole. -/
structure Keeps (most fd : Nat) (x : Race) : Prop where
  distinct : x.state.1.Distinct
  inv : x.state.1.Inv
  slim : x.state.1.Slim
  burst : x.burst ≤ most
  near : ∀ s ∈ x.state.1.subs, s.fd = fd → x.Near most s

theorem joins_of_mem (hdistinct : x.state.1.Distinct) {s : Subscriber} (hs : s ∈ x.state.1.subs) (hfd : s.fd = fd) :
    joins fd x.state.1 a =
      if s.subscribed = false ∧ (s.after x.state.1 a).1.subscribed = true then some (s.after x.state.1 a).1.nextSeq
      else none := by
  subst hfd
  rw [joins, find_of_mem hdistinct hs]
  rfl

theorem joins_eq_none (hdistinct : x.state.1.Distinct) {s : Subscriber} (hs : s ∈ x.state.1.subs) (hfd : s.fd = fd)
    (hsub : (s.after x.state.1 a).1.subscribed = s.subscribed) : joins fd x.state.1 a = none := by
  rw [joins_of_mem hdistinct hs hfd, hsub]
  exact if_neg fun hboth => Bool.noConfusion (hboth.1.symm.trans hboth.2)

theorem lag_step_of_none (hnone : joins fd x.state.1 a = none) (hpumps : x.state.1.pumps a = false) :
    (x.step fd a).lag most = x.lag most := by
  rw [lag, lag, step, hnone, hpumps]
  dsimp only
  rw [Publisher.step_cfg]
  rfl

theorem lag_step_of_pumps (hnone : joins fd x.state.1 a = none) (hpumps : x.state.1.pumps a = true) :
    (x.step fd a).lag most = x.lag most - (x.state.1.cfg.perWalk - most) := by
  have hcfg : (x.step fd a).state.1.cfg = x.state.1.cfg := Publisher.step_cfg x.state a
  have hwalks : (x.step fd a).walks = x.walks + 1 := by
    rw [step, hnone, hpumps]
    rfl
  have hbehind : (x.step fd a).behind = x.behind := by
    rw [step, hnone]
  rw [lag, lag, hcfg, hwalks, hbehind, Nat.add_mul, Nat.one_mul, Nat.sub_sub]

/-- The race starts when the subscriber joins. -/
theorem lag_step_of_joins (most : Nat) {next : Nat} (hjoins : joins fd x.state.1 a = some next) :
    (x.step fd a).behind = x.state.1.ring.head + 1 - next ∧ (x.step fd a).lag most = x.state.1.ring.head + 1 - next := by
  have hbehind : (x.step fd a).behind = x.state.1.ring.head + 1 - next := by
    rw [step, hjoins]
  have hwalks : (x.step fd a).walks = 0 := by
    rw [step, hjoins]
  refine ⟨hbehind, ?_⟩
  rw [lag, hbehind, hwalks, Nat.zero_mul, Nat.sub_zero]

theorem lag_le (x : Race) (most : Nat) : x.lag most ≤ x.behind := Nat.sub_le _ _

theorem Near.publish {s : Subscriber} (h : x.Near most s) (hdistinct : x.state.1.Distinct) (hs : s ∈ x.state.1.subs)
    (hfd : s.fd = fd) {m : Message} (hfew : x.state.1.ring.head + 1 < word32) (hburst : (x.step fd (.publish m)).burst ≤ most)
    (hroom : (x.step fd (.publish m)).behind + most ≤ x.state.1.ring.capacity) : (x.step fd (.publish m)).Near most s := by
  have hnone : joins fd x.state.1 (.publish m) = none := joins_eq_none hdistinct hs hfd rfl
  have hlag : (x.step fd (.publish m)).lag most = x.lag most := lag_step_of_none hnone rfl
  have hbehind := (x.step fd (.publish m)).lag_le most
  have hburst' : (x.step fd (.publish m)).burst = x.burst + 1 := rfl
  have hhead : (x.state.1.ring.append m).head = x.state.1.ring.head + 1 := Nat.mod_eq_of_lt hfew
  have hnear : s.subscribed = true →
      (x.state.1.ring.append m).head + 1 ≤ s.nextSeq + (x.step fd (.publish m)).lag most + (x.step fd (.publish m)).burst := by
    intro hsub
    have hnear := h.near hsub
    omega
  refine ⟨⟨fun hsub => ReplayRing.oldest_le_of ?_ ?_, h.gaps⟩, h.backlog, hnear⟩
  · exact x.state.1.ring.one_le_oldest.trans (h.held hsub)
  · have hle := hnear hsub
    change (x.state.1.ring.append m).head + 1 ≤ s.nextSeq + x.state.1.ring.capacity
    omega

theorem Near.after {s : Subscriber} (h : x.Near most s) (hkeeps : x.Keeps most fd) (hs : s ∈ x.state.1.subs)
    (hfd : s.fd = fd) (hsame : SameRing x.state.1 (x.step fd a).state.1) (hnone : a.published = [])
    (hmost : most ≤ x.state.1.cfg.perWalk) (hfew : x.state.1.published.length + 1 < word32)
    (hprompt : prompt most fd x a = true) : (x.step fd a).Near most (s.after x.state.1 a).1 := by
  obtain ⟨-, hroom, hpending⟩ := of_decide_eq_true hprompt
  have hhead : x.state.1.ring.head + 1 < word32 := by
    rw [hkeeps.inv.ring.head]
    exact hfew
  have hcursor := (hkeeps.inv.subs s (List.mem_append_left _ hs)).cursor
  have hwhole := h.toWhole.after hkeeps.inv.ring hhead a
  have hring : (x.step fd a).state.1.ring = x.state.1.ring := hsame.ring
  have hquiet : (s.after x.state.1 a).1.subscribed = s.subscribed → s.subscribed = false →
      (s.after x.state.1 a).1.subscribed = true → x.state.1.ring.oldest ≤ (s.after x.state.1 a).1.nextSeq := by
    intro hsub hbefore hafter
    rw [hsub, hbefore] at hafter
    cases hafter
  cases s.after_gains hhead a with
  | pumped hpumps hnext hsub =>
      have hidle := Subscriber.backlog_of_not_pending (hpending hpumps s hs hfd)
      have hburst : (x.step fd a).burst = 0 := if_pos hpumps
      have hlag : (x.step fd a).lag most = x.lag most - (x.state.1.cfg.perWalk - most) :=
        lag_step_of_pumps (joins_eq_none hkeeps.distinct hs hfd hsub) hpumps
      refine ⟨by rw [hring]; exact hwhole (hquiet hsub), by rw [hidle]; exact Nat.zero_le _, fun hsub' => ?_⟩
      rw [hsub] at hsub'
      have hnear := h.near hsub'
      have hfull := hkeeps.burst
      have hgains : (s.after x.state.1 a).1.nextSeq = x.state.1.ring.head + 1 ∨
          s.nextSeq + x.state.1.cfg.perWalk ≤ (s.after x.state.1 a).1.nextSeq ∧
            (s.after x.state.1 a).1.nextSeq ≤ x.state.1.ring.head + 1 := by
        rw [hnext]
        exact Subscriber.pumpTx_gains hkeeps.slim.ring hhead _ hsub' (h.held hsub') (hcursor hsub') h.backlog
      rw [hring, hlag, hburst]
      omega
  | joined hpumps hbefore hsub hone hbacklog =>
      have hjoins := joins_of_mem (a := a) hkeeps.distinct hs hfd
      rw [if_pos ⟨hbefore, hsub⟩] at hjoins
      obtain ⟨hbehind, hlag⟩ := lag_step_of_joins most hjoins
      have hempty := (hkeeps.slim.subs s hs).silent hbefore
      refine ⟨?_, by omega, fun _ => ?_⟩
      · rw [hring]
        exact hwhole fun _ _ => ReplayRing.oldest_le_of hone (by omega)
      · rw [hring, hlag]
        omega
  | other hpumps hnext hsub hbacklog =>
      have hburst : (x.step fd a).burst = x.burst := by
        rw [step, hpumps, hnone]
        rfl
      have hlag : (x.step fd a).lag most = x.lag most :=
        lag_step_of_none (joins_eq_none hkeeps.distinct hs hfd hsub) hpumps
      refine ⟨by rw [hring]; exact hwhole (hquiet hsub), hbacklog.trans h.backlog, fun hsub' => ?_⟩
      rw [hring, hlag, hburst, hnext]
      exact h.near (hsub ▸ hsub')

theorem Keeps.step (h : x.Keeps most fd) (hbacklog : 1 ≤ x.state.1.cfg.maxBacklog) (hmost : most ≤ x.state.1.cfg.perWalk)
    (hfew : (x.step fd a).state.1.published.length + 1 < word32) (hprompt : prompt most fd x a = true) :
    (x.step fd a).Keeps most fd := by
  have hless : x.state.1.published.length + 1 < word32 := by
    change (Publisher.step x.state a).1.published.length + 1 < word32 at hfew
    rw [step_published, List.length_append] at hfew
    omega
  obtain ⟨hburst, hroom, -⟩ := of_decide_eq_true hprompt
  refine ⟨h.distinct.step a, h.inv.step h.distinct hbacklog a hfew, h.slim.step h.distinct a, hburst, fun s' hs' hfd => ?_⟩
  rcases mem_subs_step h.distinct a hs' with ⟨s, hs, hafter⟩ | ⟨fd, -, rfl⟩
  · obtain rfl : (s.after x.state.1 a).1 = s' := congrArg Prod.fst hafter
    rw [Subscriber.after_fd] at hfd
    by_cases hpublish : ∃ m, a = .publish m
    · obtain ⟨m, rfl⟩ := hpublish
      exact (h.near s hs hfd).publish h.distinct hs hfd (by rw [h.inv.ring.head]; exact hless) hburst hroom
    · have hnone : a.published = [] := by
        cases a with
        | publish m => exact absurd ⟨m, rfl⟩ hpublish
        | _ => rfl
      exact (h.near s hs hfd).after h hs hfd (step_same x.state a fun m hm => hpublish ⟨m, hm⟩) hnone hmost hless hprompt
  · exact ⟨⟨fun hsub => Bool.noConfusion hsub, fun f hf => absurd hf List.not_mem_nil⟩, Nat.zero_le _,
      fun hsub => Bool.noConfusion hsub⟩

theorem run_state (cfg : Config) (fd : Nat) (actions : List Action) : (run cfg fd actions).state = Publisher.run cfg actions := by
  induction actions using List.reverseRecOn with
  | nil => rfl
  | append_singleton actions a ih =>
      rw [Publisher.run_concat, ← ih, run, List.foldl_append]
      rfl

/-- A subscriber that takes what it is sent, with no more than `most` frames published between two walks and a ring with room for them and for those it was behind at first: it has been sent every frame from where it started, and each walk makes up for what one can copy more than `most`, until nothing but the last frames published is left. -/
theorem run_catchesUp (cfg : Config) (hbacklog : 1 ≤ cfg.maxBacklog) {most : Nat} (hmost : most ≤ cfg.perWalk) (fd : Nat)
    (actions : List Action) (hfew : (actions.flatMap Action.published).length < 2 ^ 32 - 1)
    (hprompt : Along (step fd) (fun x a => prompt most fd x a) (start cfg) actions) :
    let x := run cfg fd actions
    ∀ s ∈ x.state.1.subs, s.fd = fd → s.subscribed = true →
      dataFrames s.appended =
          numbered s.startSeq (((actions.flatMap Action.published).take (s.nextSeq - 1)).drop (s.startSeq - 1)) ∧
        (actions.flatMap Action.published).length + 1 ≤
          s.nextSeq + (x.behind - x.walks * (cfg.perWalk - most)) + x.burst := by
  intro x s hs hfd hsub
  rw [← run_published cfg actions] at hfew ⊢
  have hkeeps : x.state.1.cfg = cfg ∧ (x.state.1.published.length + 1 < word32 → x.Keeps most fd) := by
    refine run_rule (P := fun x => x.state.1.cfg = cfg ∧ (x.state.1.published.length + 1 < word32 → x.Keeps most fd))
      (fun x a ha h => ?_) hprompt ⟨rfl, fun _ => ?_⟩
    · obtain ⟨hcfg, hkeeps⟩ := h
      refine ⟨(Publisher.step_cfg x.state a).trans hcfg, fun hfew => ?_⟩
      have hless : x.state.1.published.length + 1 < word32 := by
        change (Publisher.step x.state a).1.published.length + 1 < word32 at hfew
        rw [step_published, List.length_append] at hfew
        omega
      exact (hkeeps hless).step (by rw [hcfg]; exact hbacklog) (by rw [hcfg]; exact hmost) hfew ha
    · exact ⟨List.nodup_nil, init_inv cfg, run_slim cfg [], Nat.zero_le _, fun _ hs => absurd hs List.not_mem_nil⟩
  obtain ⟨hcfg, hkeeps⟩ := hkeeps
  have hless : x.state.1.published.length + 1 < word32 := by
    rw [show x.state = Publisher.run cfg actions from run_state cfg fd actions]
    simp only [word32]
    omega
  have hkeeps := hkeeps hless
  have hnear := hkeeps.near s hs hfd
  have hhead := hkeeps.inv.ring.head
  have htracks := hkeeps.inv.subs s (List.mem_append_left _ hs)
  rw [← show x.state = Publisher.run cfg actions from run_state cfg fd actions]
  refine ⟨hnear.toWhole.dataFrames_eq htracks hsub (by rw [hhead]; exact hless), ?_⟩
  have hle := hnear.near hsub
  rw [hhead, lag, hcfg] at hle
  exact hle

/-- Two frames a walk, one frame published between two: a subscriber three frames behind gains one frame in each walk. -/
theorem run_catchesUp_threeBehind :
    let cfg : Config := { maxBacklog := 65 }
    let top := fun bid => Message.top 0 bid (-1) 5 0
    let request : List UInt8 := [16, 0, 4, 1, 0, 0, 0, 0, 1, 0, 0, 0, 0, 0, 0, 0]
    let walk := fun now => Action.flushAll now fun _ => [.wrote 80]
    let actions := [.publish (top 10), walk 1, .publish (top 11), walk 2, .publish (top 12), walk 3, .subscribe 7,
      .onReadable 7 [.bytes request], walk 4, .publish (top 13), walk 5, .publish (top 14), walk 6]
    let x := run cfg 7 actions
    cfg.perWalk = 2 ∧ (x.behind, x.walks, x.burst) = (3, 3, 0) ∧
      x.state.1.subs.map (fun s => (s.fd, s.subscribed, s.startSeq, s.nextSeq)) = [(7, true, 1, 6)] ∧
      ∀ s ∈ x.state.1.subs, s.fd = 7 → s.subscribed = true →
        dataFrames s.appended =
            numbered s.startSeq (((actions.flatMap Action.published).take (s.nextSeq - 1)).drop (s.startSeq - 1)) ∧
          (actions.flatMap Action.published).length + 1 ≤ s.nextSeq + (x.behind - x.walks * (cfg.perWalk - 1)) + x.burst := by
  intro cfg top request walk actions
  have hprompt : Along (step 7) (fun x a => prompt 1 7 x a) (start cfg) actions := by decide +kernel
  have hcatches := run_catchesUp cfg (by decide) (by decide) 7 actions (by decide) hprompt
  exact ⟨by decide, by decide +kernel, by decide +kernel, hcatches⟩

end Race

end Publisher

end Matchbox
