import Matchbox.Gateway.Frames
import Matchbox.System.Step

/-!
# Waiting on both rings

The gateway submits a whole batch of commands before it drains the outbox again, and the engine pushes all events of a command before it takes the next one. Both wait by spinning. When the events the engine has yet to push do not fit into the outbox, and the commands the gateway has yet to submit do not fit into the inbox, neither side will ever get through: `Doomed`. Only two kinds of steps can lead there, the start of a batch and the taking of a command, and `Fits` is the inequality that keeps each of them from it.
-/

namespace Matchbox

open BoundedFifo Wire LittleEndian Resumable

namespace System

/-- The gateway waits in `submit` on a full inbox and the engine waits in `on_event` on a full outbox. -/
structure Deadlocked (s : System) : Prop where
  submitting : ∃ sid c cmds ok evs, s.gateway = .submit sid (c :: cmds) ok evs
  inboxFull : s.inbox.length = s.inboxSize
  emitting : ∃ e events, s.thread = .emit (e :: events)
  outboxFull : s.outbox.length = s.outboxSize

/-- Before a batch begins, and before a command is taken: the events the engine has to push fit into the outbox as it stands, or the commands the gateway has to submit fit into the inbox. -/
def Fits (s : System) : Action → Prop
  | .gateway env => ∀ ev evs, s.gateway = .events (ev :: evs) → s.server.kindOf ev.fd = .session →
      s.outbox.length + s.thread.events.length ≤ s.outboxSize ∨
        s.inbox.length + (s.batch ev env).length ≤ s.inboxSize
  | .engine now => ∀ c rest, s.thread = .top → s.stop = false → s.inbox = c :: rest →
      s.outbox.length + (s.engine.process now c).2.length ≤ s.outboxSize ∨
        rest.length + s.gateway.commands.length ≤ s.inboxSize

/-- Neither side can get through with what it has begun. -/
structure Doomed (s : System) : Prop where
  outbox : s.outboxSize < s.outbox.length + s.thread.events.length
  inbox : s.inboxSize < s.inbox.length + s.gateway.commands.length

/-- The rings hold no more than they can. -/
structure Bounded (s : System) : Prop where
  inbox : s.inbox.length ≤ s.inboxSize
  outbox : s.outbox.length ≤ s.outboxSize

/-! ### Getting through -/

theorem Stepped.bounded {s s' : System} {a : Action} (h : Stepped s a s') (hb : s.Bounded) : s'.Bounded := by
  obtain ⟨hin, hout⟩ := hb
  cases h with
  | handled _ _ _ _ _ => exact ⟨hin, hout⟩
  | tended _ _ => exact ⟨hin, hout⟩
  | accepted _ => exact ⟨hin, hout⟩
  | submitted _ hroom =>
      refine ⟨?_, hout⟩
      rw [List.length_append]
      exact hroom
  | drained _ houtbox =>
      refine ⟨hin, Nat.le_of_succ_le ?_⟩
      rw [houtbox] at hout
      exact hout
  | taken _ _ hinbox =>
      refine ⟨Nat.le_of_succ_le ?_, hout⟩
      rw [hinbox] at hin
      exact hin
  | pushed _ hroom =>
      refine ⟨hin, ?_⟩
      rw [List.length_append]
      exact hroom
  | returned _ _ => exact ⟨hin, hout⟩
  | waited => exact ⟨hin, hout⟩

theorem Bounded.run {s : System} (hb : s.Bounded) (actions : List Action) : (s.run actions).Bounded := by
  induction actions generalizing s with
  | nil => exact hb
  | cons a actions ih => exact ih ((s.step_stepped a).bounded hb)

theorem init_bounded (scfg : Server.Config) (ecfg : Engine.Config) (ringLog2 listenFd mdListenFd : Nat) :
    (init scfg ecfg ringLog2 listenFd mdListenFd).Bounded :=
  ⟨Nat.zero_le _, Nat.zero_le _⟩

/-- A step that fits keeps both sides able to get through: a push moves one unit between the two terms of its sum. -/
theorem Stepped.not_doomed {s s' : System} {a : Action} (h : Stepped s a s') (hb : s.Bounded) (hfits : s.Fits a)
    (hdoomed : ¬ s.Doomed) : ¬ s'.Doomed := by
  obtain ⟨hin, hout⟩ := hb
  rintro ⟨hout', hin'⟩
  cases h with
  | handled hat hkind _ hbatch _ =>
      change s.inboxSize < _ at hin'
      rw [hbatch] at hin'
      rcases hfits _ _ hat hkind with hfit | hfit
      · exact absurd hfit (Nat.not_le.2 hout')
      · exact absurd hfit (Nat.not_le.2 hin')
  | tended _ hnone =>
      rw [hnone] at hin'
      exact absurd hin (Nat.not_le.2 hin')
  | accepted hat => exact hdoomed ⟨hout', hin'⟩
  | submitted hat _ =>
      refine hdoomed ⟨hout', ?_⟩
      change s.inboxSize < _ at hin'
      rw [List.length_append, List.length_singleton] at hin'
      simp only [hat, GatewayAt.commands, List.length_cons] at hin' ⊢
      omega
  | drained hat _ =>
      change s.inboxSize < s.inbox.length + s.gateway.commands.length at hin'
      rw [hat] at hin'
      exact absurd hin (Nat.not_le.2 hin')
  | taken hat hstop hinbox =>
      simp only [EngineAt.events, List.length_map] at hout'
      rcases hfits _ _ hat hstop hinbox with hfit | hfit
      · exact absurd hfit (Nat.not_le.2 hout')
      · exact absurd hfit (Nat.not_le.2 hin')
  | pushed hat _ =>
      refine hdoomed ⟨?_, hin'⟩
      change s.outboxSize < _ at hout'
      rw [List.length_append, List.length_singleton] at hout'
      simp only [hat, EngineAt.events, List.length_cons] at hout' ⊢
      omega
  | returned _ hnone =>
      rw [hnone] at hout'
      exact absurd hout (Nat.not_le.2 hout')
  | waited => exact hdoomed ⟨hout', hin'⟩

theorem Deadlocked.doomed {s : System} (h : s.Deadlocked) : s.Doomed := by
  obtain ⟨sid, c, cmds, ok, evs, hgateway⟩ := h.submitting
  obtain ⟨e, events, hthread⟩ := h.emitting
  refine ⟨?_, ?_⟩
  · rw [h.outboxFull, hthread]
    exact Nat.lt_add_of_pos_right (Nat.succ_pos _)
  · rw [h.inboxFull, hgateway]
    exact Nat.lt_add_of_pos_right (Nat.succ_pos _)

theorem Deadlocked.step_eq {s : System} (h : s.Deadlocked) (a : Action) : s.step a = s := by
  obtain ⟨sid, c, cmds, ok, evs, hgateway⟩ := h.submitting
  obtain ⟨e, events, hthread⟩ := h.emitting
  cases a with
  | gateway env => exact step_submit_full hgateway (by rw [h.inboxFull]; exact Nat.lt_irrefl _) env
  | engine now => exact step_emit_full hthread (by rw [h.outboxFull]; exact Nat.lt_irrefl _) now

theorem Deadlocked.run_eq {s : System} (h : s.Deadlocked) (actions : List Action) : s.run actions = s := by
  induction actions with
  | nil => rfl
  | cons a actions ih =>
      change (s.step a).run actions = s
      rw [h.step_eq, ih]

/-! ### Not getting through -/

theorem exists_submit {g : GatewayAt} (h : 0 < g.commands.length) :
    ∃ sid c cmds ok evs, g = .submit sid (c :: cmds) ok evs := by
  cases g with
  | submit sid cmds ok evs =>
      cases cmds with
      | nil => exact absurd h (Nat.lt_irrefl 0)
      | cons c cmds => exact ⟨sid, c, cmds, ok, evs, rfl⟩
  | _ => exact absurd h (Nat.lt_irrefl 0)

theorem exists_emit {t : EngineAt} (h : 0 < t.events.length) : ∃ e events, t = .emit (e :: events) := by
  cases t with
  | emit events =>
      cases events with
      | nil => exact absurd h (Nat.lt_irrefl 0)
      | cons e events => exact ⟨e, events, rfl⟩
  | _ => exact absurd h (Nat.lt_irrefl 0)

/-- Nobody but the gateway runs until the inbox is full, then nobody but the engine until the outbox is. -/
def rush (s : System) : List Action :=
  List.replicate (s.inboxSize - s.inbox.length) (.gateway {}) ++ List.replicate (s.outboxSize - s.outbox.length) (.engine 0)

/-- The gateway goes on submitting until the inbox is full. -/
theorem Doomed.fillInbox {s : System} (h : s.Doomed) (hb : s.Bounded) {n : Nat} (hn : s.inbox.length + n = s.inboxSize) :
    let s' := s.run (List.replicate n (.gateway {}))
    s'.Doomed ∧ s'.Bounded ∧ s'.inbox.length = s'.inboxSize ∧ s'.outbox = s.outbox ∧ s'.ringLog2 = s.ringLog2 := by
  induction n generalizing s with
  | zero => exact ⟨h, hb, hn, rfl, rfl⟩
  | succ n ih =>
      have hin := h.inbox
      obtain ⟨sid, c, cmds, ok, evs, hgateway⟩ := exists_submit (g := s.gateway) (by omega)
      have hstep := step_submit hgateway (by omega) {}
      have hbounded := (s.step_stepped (.gateway {})).bounded hb
      have hdoomed : (s.step (.gateway {})).Doomed := by
        rw [hstep]
        refine ⟨h.outbox, ?_⟩
        rw [hgateway] at hin
        simp only [GatewayAt.commands, List.length_cons, List.length_append, List.length_nil] at hin ⊢
        change s.inboxSize < _
        omega
      have hlength : (s.step (.gateway {})).inbox.length + n = (s.step (.gateway {})).inboxSize := by
        rw [hstep]
        simp only [List.length_append, List.length_singleton]
        change _ = s.inboxSize
        omega
      obtain ⟨hdoomed', hbounded', hfull, houtbox, hring⟩ := ih hdoomed hbounded hlength
      refine ⟨hdoomed', hbounded', hfull, houtbox.trans ?_, hring.trans ?_⟩
      · rw [hstep]
      · rw [hstep]

/-- The engine goes on pushing until the outbox is full too. -/
theorem Doomed.fillOutbox {s : System} (h : s.Doomed) (hb : s.Bounded) (hfull : s.inbox.length = s.inboxSize) {n : Nat}
    (hn : s.outbox.length + n = s.outboxSize) : (s.run (List.replicate n (.engine 0))).Deadlocked := by
  induction n generalizing s with
  | zero =>
      have hout := h.outbox
      have hin := h.inbox
      exact ⟨exists_submit (g := s.gateway) (by omega), hfull, exists_emit (t := s.thread) (by omega), hn⟩
  | succ n ih =>
      have hout := h.outbox
      obtain ⟨e, events, hthread⟩ := exists_emit (t := s.thread) (by omega)
      have hstep := step_emit hthread (by omega) 0
      have hbounded := (s.step_stepped (.engine 0)).bounded hb
      have hdoomed : (s.step (.engine 0)).Doomed := by
        rw [hstep]
        refine ⟨?_, h.inbox⟩
        rw [hthread] at hout
        simp only [EngineAt.events, List.length_cons, List.length_append, List.length_nil] at hout ⊢
        change s.outboxSize < _
        omega
      have hlength : (s.step (.engine 0)).outbox.length + n = (s.step (.engine 0)).outboxSize := by
        rw [hstep]
        simp only [List.length_append, List.length_singleton]
        change _ = s.outboxSize
        omega
      exact ih hdoomed hbounded (by rw [hstep]; exact hfull) hlength

theorem Doomed.deadlock {s : System} (h : s.Doomed) (hb : s.Bounded) : (s.run s.rush).Deadlocked := by
  have hin := hb.inbox
  have hout := hb.outbox
  obtain ⟨hdoomed, hbounded, hfull, houtbox, hring⟩ := h.fillInbox hb (n := s.inboxSize - s.inbox.length) (by omega)
  rw [rush, run_append]
  refine hdoomed.fillOutbox hbounded hfull ?_
  have hsize := congrArg (fun k => 2 ^ (k + 2)) hring
  change outboxSize _ = s.outboxSize at hsize
  rw [hsize, houtbox]
  omega

/-- A step that does not fit leads where neither side gets through. -/
theorem doomed_of_not_fits {s : System} {a : Action} (hfits : ¬ s.Fits a) : (s.step a).Doomed := by
  cases a with
  | gateway env =>
      simp only [Fits, not_forall, not_or, Nat.not_le] at hfits
      obtain ⟨ev, evs, hat, hkind, hout, hin⟩ := hfits
      obtain ⟨sv, g, hhandle, hbatch⟩ := handle_session evs env hkind
      rw [step_handle hat, hhandle]
      refine ⟨hout, ?_⟩
      change s.inboxSize < s.inbox.length + g.commands.length
      rw [hbatch]
      exact hin
  | engine now =>
      simp only [Fits, not_forall, not_or, Nat.not_le] at hfits
      obtain ⟨c, rest, hat, hstop, hinbox, hout, hin⟩ := hfits
      rw [step_take hat hstop hinbox]
      refine ⟨?_, hin⟩
      simp only [EngineAt.events, List.length_map]
      exact hout

/-! ### A burst of cancels -/

/-- A CancelOrder for an order that nobody has. The engine answers it with one event. -/
def cancelFrame (seq : Nat) : List UInt8 :=
  Header.bytes ⟨MsgType.cancelOrder.size, MsgType.cancelOrder.code, kVersion, seq⟩ ++ encode 16 0

def cancelFrames : Nat → Nat → List UInt8
  | _, 0 => []
  | seq, n + 1 => cancelFrame seq ++ cancelFrames ((seq + 1) % word32) n

/-- The command it decodes to, for the first session. -/
def strayCancel : Command := { kind := .cancel, session := 1 }

/-- What `::read` returns when all bytes have arrived: full buffers, and then the rest. -/
def readsOf : Nat → List UInt8 → List ReadResult
  | 0, _ => [.again]
  | n + 1, bytes => if bytes = [] then [.again] else .bytes (bytes.take (2 ^ 16)) :: readsOf n (bytes.drop (2 ^ 16))

/-- A client connects, and the gateway goes once around its loop. -/
def connect : List Action :=
  [.gateway { polled := some [{ fd := 3, readable := true }] }, .gateway {}, .gateway { accepted := .connected 5 },
    .gateway {}, .gateway {}, .gateway {}, .gateway {}]

/-- The gateway submits a command, and the engine takes it, pushes its event and returns to the top. -/
def round : List Action := [.gateway {}, .engine 0, .engine 0, .engine 0]

/-- All the cancels arrive in one call of `read_session`. After `2 ^ (k + 2)` rounds the outbox is full, the engine takes one more command, and the gateway fills the inbox. -/
def burst (k : Nat) : List Action :=
  let bytes := cancelFrames 1 (2 ^ (k + 2) + (2 ^ k + 2))
  connect ++
    [.gateway { polled := some [{ fd := 5, readable := true }] }, .gateway { reads := readsOf bytes.length bytes }] ++
    (List.replicate (2 ^ (k + 2)) round).flatten ++ [.gateway {}, .engine 0] ++ List.replicate (2 ^ k) (.gateway {})

theorem nextFrame_cancelFrame {seq : Nat} (hseq : seq < word32) (back : List UInt8) :
    nextFrame 1 seq (cancelFrame seq ++ back) =
      .item ((seq + 1) % word32) (.submit strayCancel) (cancelFrame seq).length := by
  have hreply : frameReply 1 (cancelFrame seq) = .submit strayCancel := rfl
  have hnext := nextFrame_blankFrame 1 .cancelOrder hseq back
  change nextFrame 1 seq (cancelFrame seq ++ back) = .item _ (frameReply 1 (cancelFrame seq)) (cancelFrame seq).length at hnext
  rw [hnext, hreply]

theorem parse_cancelFrames (n : Nat) {seq : Nat} (hseq : seq < word32) :
    ∃ seq', Parse (nextFrame 1) seq (cancelFrames seq n) (List.replicate n (.submit strayCancel)) seq' [] true := by
  induction n generalizing seq with
  | zero => exact ⟨seq, .more (Looked.eq (.short (Nat.zero_lt_succ 7)))⟩
  | succ n ih =>
      have hnext : (seq + 1) % word32 < word32 := Nat.mod_lt _ (by decide)
      obtain ⟨seq', hparse⟩ := ih hnext
      refine ⟨seq', .item (nextFrame_cancelFrame hseq _) ?_⟩
      change Parse _ _ ((cancelFrame seq ++ cancelFrames ((seq + 1) % word32) n).drop _) _ _ _ _
      rw [List.drop_left]
      exact hparse

theorem readLoop_readsOf (s : Session) {n : Nat} {bytes : List UInt8} (hn : bytes.length ≤ n) :
    s.readLoop (readsOf n bytes) = (s.receive bytes, true) := by
  induction n generalizing s bytes with
  | zero =>
      rw [List.length_eq_zero_iff.1 (Nat.le_zero.1 hn)]
      simp [readsOf, Session.readLoop, Session.receive]
  | succ n ih =>
      rw [readsOf]
      by_cases hnil : bytes = []
      · rw [if_pos hnil, hnil]
        simp [Session.readLoop, Session.receive]
      · have hpos := List.length_pos_iff.2 hnil
        rw [if_neg hnil, Session.readLoop, List.take_take, Nat.min_self, if_neg (by simp [hnil])]
        by_cases hlast : (bytes.take (2 ^ 16)).length < 2 ^ 16
        · rw [if_pos hlast]
          rw [List.length_take] at hlast
          rw [List.take_of_length_le (by omega)]
        · rw [if_neg hlast, ih _ (by rw [List.length_drop]; omega)]
          simp [Session.receive, List.append_assoc, List.take_append_drop]

/-- In the middle of the burst: this many cancels are left, and this many answers are in the outbox. -/
structure Flooded (s : System) (k left answers : Nat) : Prop where
  ring : s.ringLog2 = k
  gateway : s.gateway = .submit 1 (List.replicate left strayCancel) true []
  thread : s.thread = .top
  stop : s.stop = false
  inbox : s.inbox = []
  outbox : s.outbox.length = answers
  unknown : s.engine.pool.find 0 = none

theorem process_strayCancel {e : Engine} (h : e.pool.find 0 = none) (now : Nat) :
    e.process now strayCancel =
      ({ e with nowNs := now }, [⟨Engine.reject now strayCancel .unknownOrder, e.pool⟩]) := by
  simp only [Engine.process, strayCancel, h]

theorem Flooded.take {s : System} {k left answers : Nat} (h : s.Flooded k (left + 1) answers) :
    s.run [.gateway {}, .engine 0] = { s with
      gateway := .submit 1 (List.replicate left strayCancel) true []
      engine := { s.engine with nowNs := 0 }
      thread := .emit [Engine.reject 0 strayCancel .unknownOrder]
      inboxCalls := s.inboxCalls ++ [.pushed strayCancel] ++ [.popped strayCancel]
      processed := s.processed ++ [(0, strayCancel)]
      emitted := s.emitted ++ [Engine.reject 0 strayCancel .unknownOrder] } := by
  have hroom : s.inbox.length < s.inboxSize := by
    rw [h.inbox]
    exact Nat.two_pow_pos _
  change (s.step (.gateway {})).step (.engine 0) = _
  rw [step_submit (h.gateway.trans rfl) hroom, step, engineStep]
  dsimp only
  rw [h.thread]
  dsimp only
  rw [h.stop, if_neg (by decide), takeCommand, h.inbox]
  dsimp only [tryPop, List.nil_append]
  rw [process_strayCancel h.unknown]
  simp

theorem Flooded.round {s : System} {k left answers : Nat} (h : s.Flooded k (left + 1) answers)
    (hroom : answers < 2 ^ (k + 2)) : (s.run round).Flooded k left (answers + 1) := by
  have hthread : (s.run [.gateway {}, .engine 0]).thread = .emit [Engine.reject 0 strayCancel .unknownOrder] := by
    rw [h.take]
  have hroom' : (s.run [.gateway {}, .engine 0]).outbox.length < (s.run [.gateway {}, .engine 0]).outboxSize := by
    rw [h.take]
    change s.outbox.length < 2 ^ (s.ringLog2 + 2)
    rw [h.outbox, h.ring]
    exact hroom
  change (((s.run [.gateway {}, .engine 0]).step (.engine 0)).step (.engine 0)).Flooded k left (answers + 1)
  rw [step_emit hthread hroom', h.take]
  exact ⟨h.ring, rfl, rfl, h.stop, h.inbox, by simp [step, engineStep, h.outbox], h.unknown⟩

theorem Flooded.rounds {s : System} {k left answers : Nat} (n : Nat) (h : s.Flooded k (n + left) answers)
    (hroom : answers + n ≤ 2 ^ (k + 2)) :
    (s.run (List.replicate n System.round).flatten).Flooded k left (answers + n) := by
  induction n generalizing s answers with
  | zero =>
      rw [Nat.zero_add] at h
      exact h
  | succ n ih =>
      rw [Nat.add_right_comm] at h
      have hnext := ih (h.round (by omega)) (by omega)
      rw [List.replicate_succ, List.flatten_cons, run_append]
      rw [Nat.add_right_comm] at hnext
      exact hnext

/-- With a full outbox one more command is one too many, if the rest does not fit into the inbox. -/
theorem Flooded.doomed {s : System} {k left : Nat} (h : s.Flooded k (left + 1) (2 ^ (k + 2))) (hleft : 2 ^ k < left) :
    (s.run [.gateway {}, .engine 0]).Doomed := by
  rw [h.take]
  refine ⟨?_, ?_⟩
  · change 2 ^ (s.ringLog2 + 2) < s.outbox.length + 1
    rw [h.ring, h.outbox]
    exact Nat.lt_succ_self _
  · change 2 ^ s.ringLog2 < s.inbox.length + (List.replicate left strayCancel).length
    rw [h.ring, h.inbox, List.length_nil, Nat.zero_add, List.length_replicate]
    exact hleft

theorem Flooded.rush {s : System} {k left : Nat} (h : s.Flooded k (left + 1) (2 ^ (k + 2))) :
    (s.run [.gateway {}, .engine 0]).rush = List.replicate (2 ^ k) (.gateway {}) := by
  rw [h.take]
  change List.replicate (2 ^ s.ringLog2 - s.inbox.length) _ ++
    List.replicate (2 ^ (s.ringLog2 + 2) - s.outbox.length) _ = _
  rw [h.ring, h.inbox, h.outbox, Nat.sub_self, List.length_nil, Nat.sub_zero, List.replicate_zero, List.append_nil]

/-- A fresh engine has not taken anything yet: these commands of the first session are in the inbox, and these are still to be submitted. -/
structure Batched (s : System) (k : Nat) (inbox left : List Command) : Prop where
  ring : s.ringLog2 = k
  gateway : s.gateway = .submit 1 left true []
  thread : s.thread = .top
  stop : s.stop = false
  engine : s.engine = Engine.init {}
  inbox : s.inbox = inbox
  outbox : s.outbox = []

/-- A client connects and sends some bytes, all of which arrive in one call of `read_session`. -/
def receive (bytes : List UInt8) : List Action :=
  connect ++
    [.gateway { polled := some [{ fd := 5, readable := true }] }, .gateway { reads := readsOf bytes.length bytes }]

theorem receive_batched (k : Nat) {bytes : List UInt8} {outs : List Reply} {seq' : Nat}
    (hparse : Parse (nextFrame 1) 1 bytes outs seq' [] true) :
    ((init {} {} k 3 4).run (receive bytes)).Batched k [] (outs.filterMap Reply.command?) := by
  have hread := readLoop_readsOf (Session.accepted 5 1) (le_refl bytes.length)
  have hframes := Session.parseFrames_eq (s := (Session.accepted 5 1).receive bytes) hparse
  rw [receive, ← List.singleton_append, ← List.append_assoc, run_concat]
  have hat : ((init {} {} k 3 4).run
      (connect ++ [.gateway { polled := some [{ fd := 5, readable := true }] }])).gateway =
        .events [{ fd := 5, readable := true }] := rfl
  have hkind : ((init {} {} k 3 4).run
      (connect ++ [.gateway { polled := some [{ fd := 5, readable := true }] }])).server.kindOf 5 = .session := rfl
  have hsession : ((init {} {} k 3 4).run
      (connect ++ [.gateway { polled := some [{ fd := 5, readable := true }] }])).server.sessionByFd 5 =
        some (Session.accepted 5 1) := rfl
  rw [step, gatewayStep, hat]
  dsimp only
  rw [handle, hkind]
  dsimp only
  rw [if_pos (Or.inl rfl), Server.onSessionWritable, if_neg (by decide), hsession]
  dsimp only
  rw [Server.readSession, hread]
  dsimp only
  rw [if_neg (by decide), hframes]
  exact ⟨rfl, rfl, rfl, rfl, rfl, rfl, rfl⟩

theorem flooded_read (k n : Nat) : ((init {} {} k 3 4).run (receive (cancelFrames 1 n))).Flooded k n 0 := by
  have hone : 1 < word32 := by decide
  obtain ⟨seq', hparse⟩ := parse_cancelFrames n hone
  have hbatched := receive_batched k hparse
  have hcommands : (List.replicate n (Reply.submit strayCancel)).filterMap Reply.command? = List.replicate n strayCancel := by
    simp [List.filterMap_replicate, Reply.command?]
  rw [hcommands] at hbatched
  refine ⟨hbatched.ring, hbatched.gateway, hbatched.thread, hbatched.stop, hbatched.inbox, ?_, ?_⟩
  · rw [hbatched.outbox]
    rfl
  · rw [hbatched.engine]
    rfl

/-- Whatever the size of the rings, a client that sends enough cancels at once can bring both threads to a halt. -/
theorem burst_deadlocked (k : Nat) : ((init {} {} k 3 4).run (burst k)).Deadlocked := by
  have hflooded := (flooded_read k (2 ^ (k + 2) + (2 ^ k + 2))).rounds _ (Nat.le_of_eq (Nat.zero_add _))
  rw [Nat.zero_add, ← run_append] at hflooded
  have hbounded := (init_bounded {} {} k 3 4).run
  have hdead := (hflooded.doomed (Nat.lt_succ_self _)).deadlock (by rw [← run_append]; exact hbounded _)
  rw [hflooded.rush, ← run_append, ← run_append, ← List.append_assoc] at hdead
  exact hdead

/-- The rings as `EngineThread` makes them when nothing else is asked for. -/
theorem burst_deadlocked_default : ((init {} {} 16 3 4).run (burst 16)).Deadlocked := burst_deadlocked 16

/-! ### Whole runs -/

/-- Every step of the run fits the state it starts from. -/
abbrev Careful (s : System) (actions : List Action) : Prop := s.Along Fits actions

theorem careful_not_doomed {s : System} {actions : List Action} (h : s.Careful actions) (hb : s.Bounded)
    (hdoomed : ¬ s.Doomed) : ¬ (s.run actions).Doomed :=
  (Guarded.run_rule (P := fun s => s.Bounded ∧ ¬ s.Doomed)
    (fun s a hfits h => ⟨(s.step_stepped a).bounded h.1, (s.step_stepped a).not_doomed h.1 hfits h.2⟩) h ⟨hb, hdoomed⟩).2

variable (scfg : Server.Config) (ecfg : Engine.Config) (ringLog2 listenFd mdListenFd : Nat)

theorem init_not_doomed : ¬ (init scfg ecfg ringLog2 listenFd mdListenFd).Doomed := fun h =>
  Nat.not_lt_zero _ h.inbox

/-- A run whose steps all fit never deadlocks. A step that does not fit is fatal: from there the two threads can always run into each other. -/
theorem run_not_deadlocked (actions : List Action) :
    ((init scfg ecfg ringLog2 listenFd mdListenFd).Careful actions →
        ∀ front, front <+: actions → ¬ ((init scfg ecfg ringLog2 listenFd mdListenFd).run front).Deadlocked) ∧
      ∀ a, ¬ ((init scfg ecfg ringLog2 listenFd mdListenFd).run actions).Fits a →
        ∃ more, ((init scfg ecfg ringLog2 listenFd mdListenFd).run (actions ++ a :: more)).Deadlocked := by
  have hbounded := init_bounded scfg ecfg ringLog2 listenFd mdListenFd
  refine ⟨fun hcareful front hfront hdead => ?_, fun a hfits => ?_⟩
  · have hdoomed := init_not_doomed scfg ecfg ringLog2 listenFd mdListenFd
    exact careful_not_doomed (hcareful.of_isPrefix hfront) hbounded hdoomed hdead.doomed
  · have hdead := (doomed_of_not_fits hfits).deadlock ((step_stepped _ a).bounded (hbounded.run actions))
    rw [← run_concat, ← run_append, List.append_assoc] at hdead
    exact ⟨_, hdead⟩

instance decidableFits (s : System) : (a : Action) → Decidable (s.Fits a)
  | .gateway env =>
      match hat : s.gateway with
      | .events (ev :: evs) =>
          decidable_of_iff (s.server.kindOf ev.fd = .session →
              s.outbox.length + s.thread.events.length ≤ s.outboxSize ∨
                s.inbox.length + (s.batch ev env).length ≤ s.inboxSize)
            ⟨fun h ev' evs' heq => by cases hat.symm.trans heq; exact h, fun h => h ev evs hat⟩
      | .poll | .events [] | .accepting _ _ | .submit _ _ _ _ | .drain | .flush | .stopped =>
          .isTrue fun ev evs heq => by cases hat.symm.trans heq
  | .engine now =>
      match htop : s.thread, hat : s.inbox with
      | .top, c :: rest =>
          decidable_of_iff (s.stop = false →
              s.outbox.length + (s.engine.process now c).2.length ≤ s.outboxSize ∨
                rest.length + s.gateway.commands.length ≤ s.inboxSize)
            ⟨fun h c' rest' _ hstop heq => by cases hat.symm.trans heq; exact h hstop,
              fun h hstop => h c rest htop hstop hat⟩
      | .top, [] => .isTrue fun c rest _ _ heq => by cases hat.symm.trans heq
      | .emit _, _ | .exited, _ => .isTrue fun c rest heq => by cases htop.symm.trans heq

/-- A burst one command short of a deadlock. The engine waits with the event of the fifth cancel before a full outbox, and the sixth one fills the inbox. -/
def brink : List Action :=
  receive (cancelFrames 1 6) ++ (List.replicate 4 round).flatten ++ [.gateway {}, .engine 0, .gateway {}]

/-- The gateway has submitted everything, so it goes on to drain the outbox, and all six cancels are answered. -/
theorem run_not_deadlocked_brink :
    let s := (init {} {} 0 3 4).run brink
    let more := List.replicate 6 (.gateway {}) ++ List.replicate 5 (.engine 0) ++ List.replicate 2 (.gateway {})
    (init {} {} 0 3 4).Careful (brink ++ more) ∧
      (s.inbox.length, s.inboxSize, s.outbox.length, s.outboxSize, s.thread.events.length) = (1, 1, 4, 4, 1) ∧
      (∀ front, front <+: brink ++ more → ¬ ((init {} {} 0 3 4).run front).Deadlocked) ∧
      (s.run more).server.drained.length = 6 := by
  intro s more
  have hcareful : (init {} {} 0 3 4).Careful (brink ++ more) := by decide +kernel
  exact ⟨hcareful, by decide +kernel, (run_not_deadlocked {} {} 0 3 4 (brink ++ more)).1 hcareful, by decide +kernel⟩

end System

end Matchbox
