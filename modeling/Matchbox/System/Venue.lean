import Matchbox.Reference.Refines
import Matchbox.System.Dialog

/-!
# The server is one exchange

All sessions at once, each with what its client has written and read, around the whole system: poller, parser, two rings, two threads, buffers. `Venue.run_linearizes` says that the clients cannot tell it from the reference engine working on one command after the other. The order is the one in which the engine takes the commands. Of every session it has the first commands that its bytes ask for, and what the client has read are the frames of the reference's events for it, between the rejects that its bytes deserve.

An answer that was read is about a command in the order, and a command in the order was written. As the order only grows at its end, a command that is written after an answer was read comes after the answered one.
-/

namespace Matchbox

open Wire Resumable

/-! ### What a client's bytes ask for -/

namespace Wire

variable {sid seq : Nat} {bytes rest : List UInt8} {outs : List Reply} {alive alive' : Bool} {asked : List Command}
  {refused : List Rendering}

theorem Means.eq (hmeans : Means sid bytes asked refused alive') (h : Parse (nextFrame sid) 1 bytes outs seq rest alive) :
    outs.filterMap Reply.command? = asked ∧ (outs.filterMap Reply.message?).map Message.make = refused := by
  obtain ⟨outs', seq', rest', hparse, hasked, hrefused⟩ := means_iff.1 hmeans
  obtain ⟨rfl, -⟩ := h.unique hparse
  exact ⟨hasked, hrefused⟩

theorem Means.isPrefix {back : List UInt8} (hmeans : Means sid (bytes ++ back) asked refused alive')
    (h : Parse (nextFrame sid) 1 bytes outs seq rest alive) :
    outs.filterMap Reply.command? <+: asked ∧ (outs.filterMap Reply.message?).map Message.make <+: refused := by
  cases alive with
  | false =>
      obtain ⟨rest', hsame⟩ := h.ignore (nextFrame_stable sid) back
      obtain ⟨rfl, rfl⟩ := hmeans.eq hsame
      exact ⟨List.prefix_rfl, List.prefix_rfl⟩
  | true =>
      obtain ⟨more, seq', rest', alive', hmore⟩ := (nextFrame_stable sid).exists_parse seq (rest ++ back)
      obtain ⟨rfl, rfl⟩ := hmeans.eq (h.resume (nextFrame_stable sid) hmore)
      rw [List.filterMap_append, List.filterMap_append, List.map_append]
      exact ⟨List.prefix_append _ _, List.prefix_append _ _⟩

end Wire

/-! ### All sessions -/

/-- The system and the byte streams of every session. -/
structure Venue where
  system : System
  /-- What the client of a session has written. -/
  written : Nat → List UInt8 := fun _ => []
  /-- What the gateway has read of it. -/
  received : Nat → List UInt8 := fun _ => []
  /-- What the client has read. -/
  heard : Nat → List UInt8 := fun _ => []

namespace Venue

inductive Action where
  | system (a : System.Action)
  | write (sid : Nat) (bytes : List UInt8)
  /-- The client reads at most `n` bytes. -/
  | hear (sid n : Nat)

/-- One session's part. -/
def dialog (v : Venue) (sid : Nat) : Dialog := ⟨sid, v.system, v.written sid, v.received sid, v.heard sid⟩

/-- The gateway can only read what the clients have written; a step that would read anything else does not happen. -/
def step (v : Venue) : Action → Venue
  | .system a =>
      let received := fun sid => v.received sid ++ v.system.reads sid a
      if (List.range (v.system.server.opened + 1)).all fun sid => (received sid).isPrefixOf (v.written sid) then
        { v with system := v.system.step a, received := received }
      else v
  | .write sid bytes => { v with written := Function.update v.written sid (v.written sid ++ bytes) }
  | .hear sid k => { v with heard := Function.update v.heard sid (v.heard sid ++ (v.dialog sid).incoming k) }

def run (v : Venue) (actions : List Action) : Venue := actions.foldl step v

@[simp] theorem run_concat (v : Venue) (actions : List Action) (a : Action) :
    v.run (actions ++ [a]) = (v.run actions).step a := by
  simp [run]

theorem run_append (v : Venue) (actions more : List Action) : v.run (actions ++ more) = (v.run actions).run more :=
  List.foldl_append

def Inv (ecfg : Engine.Config) (v : Venue) : Prop := ∀ sid, (v.dialog sid).Inv ecfg

variable {ecfg : Engine.Config} {v : Venue}

/-- A step is at most one step of each session's part. -/
theorem Inv.dialog_step (h : v.Inv ecfg) (a : Action) (sid : Nat) :
    (v.step a).dialog sid = v.dialog sid ∨ ∃ b, (v.step a).dialog sid = (v.dialog sid).step b := by
  cases a with
  | system a =>
      rw [step]
      dsimp only
      split
      · rename_i hfeasible
        right
        refine ⟨.system a, ?_⟩
        have hreads : (v.received sid ++ v.system.reads sid a).isPrefixOf (v.written sid) = true := by
          by_cases hsid : sid < v.system.server.opened + 1
          · exact List.all_eq_true.1 hfeasible sid (List.mem_range.2 hsid)
          · have hsystem : v.system.Inv ecfg := (h sid).system
            rw [System.reads_eq_nil hsystem (by omega), List.append_nil, List.isPrefixOf_iff_prefix]
            exact (h sid).received
        exact (if_pos hreads).symm
      · exact .inl rfl
  | write sid' bytes =>
      by_cases hsid : sid = sid'
      · subst hsid
        exact .inr ⟨.write bytes, by simp [step, dialog, Dialog.step]⟩
      · exact .inl (by simp [step, dialog, Function.update_of_ne hsid])
  | hear sid' k =>
      by_cases hsid : sid = sid'
      · subst hsid
        exact .inr ⟨.hear k, by simp [step, dialog, Dialog.step]⟩
      · exact .inl (by simp [step, dialog, Function.update_of_ne hsid])

theorem step_system (v : Venue) (a : Action) :
    (v.step a).system = v.system ∨ ∃ b, (v.step a).system = v.system.step b := by
  cases a with
  | system a =>
      rw [step]
      dsimp only
      split
      · exact .inr ⟨a, rfl⟩
      · exact .inl rfl
  | write sid bytes => exact .inl rfl
  | hear sid k => exact .inl rfl

theorem step_grows (v : Venue) (a : Action) :
    v.system.server.opened ≤ (v.step a).system.server.opened ∧ v.system.processed <+: (v.step a).system.processed := by
  rcases v.step_system a with hsame | ⟨b, hstep⟩
  · rw [hsame]
    exact ⟨le_rfl, List.prefix_rfl⟩
  · rw [hstep]
    have hstepped := v.system.step_stepped b
    refine ⟨hstepped.opened_le, ?_⟩
    generalize v.system.step b = s' at hstepped
    cases hstepped with
    | taken _ _ _ => exact List.prefix_append _ _
    | _ => exact List.prefix_rfl

theorem run_grows (v : Venue) (actions : List Action) :
    v.system.server.opened ≤ (v.run actions).system.server.opened ∧ v.system.processed <+: (v.run actions).system.processed := by
  induction actions using List.reverseRecOn with
  | nil => exact ⟨le_rfl, List.prefix_rfl⟩
  | append_singleton actions a ih =>
      rw [run_concat]
      obtain ⟨hopened, hprocessed⟩ := (v.run actions).step_grows a
      exact ⟨ih.1.trans hopened, ih.2.trans hprocessed⟩

theorem Inv.step (h : v.Inv ecfg) (a : Action) (hfew : (v.step a).system.server.opened < word32) : (v.step a).Inv ecfg := by
  intro sid
  rcases h.dialog_step a sid with hsame | ⟨b, hstep⟩
  · rw [hsame]
    exact h sid
  · have hsystem : ((v.dialog sid).step b).system = (v.step a).system := congrArg Dialog.system hstep.symm
    rw [hstep]
    exact (h sid).step b (by rw [hsystem]; exact hfew)

def start (scfg : Server.Config) (ecfg : Engine.Config) (ringLog2 listenFd mdListenFd : Nat) : Venue where
  system := System.init scfg ecfg ringLog2 listenFd mdListenFd

theorem run_inv (scfg : Server.Config) (ecfg : Engine.Config) (ringLog2 listenFd mdListenFd : Nat) (actions : List Action)
    (hfew : ((start scfg ecfg ringLog2 listenFd mdListenFd).run actions).system.server.opened < word32) :
    ((start scfg ecfg ringLog2 listenFd mdListenFd).run actions).Inv ecfg := by
  induction actions using List.reverseRecOn with
  | nil => exact fun sid => Dialog.init_inv sid scfg ecfg ringLog2 listenFd mdListenFd
  | append_singleton actions a ih =>
      rw [run_concat] at hfew ⊢
      exact (ih ((step_grows _ a).1.trans_lt hfew)).step a hfew

/-! ### One order -/

/-- The commands in the order in which the engine took them, each with the identifier of the order if it was accepted. -/
def order (ecfg : Engine.Config) (v : Venue) : List (Command × Nat) := (Engine.init ecfg).withIds v.system.processed

/-- Those of a session. -/
def executed (ecfg : Engine.Config) (v : Venue) (sid : Nat) : List Command :=
  ((v.order ecfg).map Prod.fst).filter fun c => c.session = sid

/-- What the reference engine tells a session when it is given the commands in this order. -/
def answers (ecfg : Engine.Config) (v : Venue) (sid : Nat) : List Rendering :=
  privateFrames sid ((Reference.init ecfg).log (v.order ecfg))

end Venue

theorem Engine.withIds_append (e : Engine) (cmds more : List (Nat × Command)) :
    e.withIds (cmds ++ more) = e.withIds cmds ++ (e.run cmds).withIds more := by
  induction cmds generalizing e with
  | nil => rfl
  | cons cmd cmds ih =>
      obtain ⟨now, c⟩ := cmd
      simp only [List.cons_append, withIds, ih, run]

theorem Engine.withIds_fst (e : Engine) (cmds : List (Nat × Command)) :
    (e.withIds cmds).map Prod.fst = cmds.map Prod.snd := by
  induction cmds generalizing e with
  | nil => rfl
  | cons cmd cmds ih =>
      obtain ⟨now, c⟩ := cmd
      rw [withIds, List.map_cons, List.map_cons, ih]

/-- A trade without its time. -/
def Wire.Message.traded? : Message → Option (Nat × Side × Int × Nat)
  | .trade symbol aggressor price qty _ => some (symbol, aggressor, price, qty)
  | _ => none

def Event.traded? (e : Event) : Option (Nat × Side × Int × Nat) :=
  if e.kind = .trade then some (e.symbol, e.side, e.price, e.qty) else none

theorem Event.traded?_eq (e : Event) : e.marketData?.bind Message.traded? = e.traded? := by
  rw [Event.marketData?, Event.traded?]
  cases e.kind <;> rfl

theorem visible_cons_event (t : Emission) (log : List Emission) :
    visible (t :: log) = (if t.event.kind = .top then [] else [t.event.untimed]) ++ visible log := by
  by_cases hkind : t.event.kind = .top <;> simp [visible, hkind]

/-- What is sent to a session depends neither on the times nor on the Top events. -/
theorem visible_private (log : List Emission) (sid : Nat) :
    ((visible log).filter fun e => e.session = sid).filterMap Event.private? =
      ((log.map Emission.event).filter fun e => e.session = sid).filterMap Event.private? := by
  induction log with
  | nil => rfl
  | cons t log ih =>
      have hsession : t.event.untimed.session = t.event.session := rfl
      have hprivate : t.event.untimed.private? = t.event.private? := rfl
      rw [visible_cons_event, List.filter_append, List.filterMap_append, ih, List.map_cons, List.filter_cons]
      by_cases hkind : t.event.kind = .top
      · have hnone : t.event.private? = none := by rw [Event.private?, hkind]
        by_cases hsid : t.event.session = sid <;> simp [hkind, hsid, hnone]
      · by_cases hsid : t.event.session = sid
        · cases hmessage : t.event.private? <;> simp [hkind, hsid, hsession, hprivate, hmessage]
        · simp [hkind, hsid, hsession]

theorem visible_traded (log : List Emission) :
    (visible log).filterMap Event.traded? = (log.map Emission.event).filterMap Event.traded? := by
  induction log with
  | nil => rfl
  | cons t log ih =>
      have huntimed : t.event.untimed.traded? = t.event.traded? := rfl
      rw [visible_cons_event, List.filterMap_append, ih, List.map_cons, List.filterMap_cons]
      by_cases hkind : t.event.kind = .top
      · simp [hkind, Event.traded?]
      · cases htraded : t.event.traded? <;> simp [hkind, huntimed, htraded]

namespace Venue

variable {ecfg : Engine.Config} {v : Venue}

/-- The reference reports what the engine reports. -/
theorem log_order (ecfg : Engine.Config) (v : Venue) :
    (Reference.init ecfg).log (v.order ecfg) = visible ((Engine.init ecfg).log v.system.processed) :=
  (Ledger.run_reference v.system.processed (Ledger.init ecfg) _ rfl (Abstracts.init ecfg)).1

theorem Inv.answers_eq (h : v.Inv ecfg) (sid : Nat) : v.answers ecfg sid = (v.dialog sid).told.map Message.make := by
  have hlog : v.system.emitted = ((Engine.init ecfg).log v.system.processed).map fun em => em.event := (h sid).system.log
  rw [answers, log_order, privateFrames_eq, visible_private, Dialog.told]
  change _ = ((v.system.emitted.filter fun e => e.session = sid).filterMap Event.private?).map Message.make
  rw [hlog]

theorem executed_eq (ecfg : Engine.Config) (v : Venue) (sid : Nat) :
    v.executed ecfg sid = (v.system.processed.map Prod.snd).filter fun c => c.session = sid := by
  rw [executed, order, Engine.withIds_fst]

/-- Frames for a session by who they are from. -/
def sentBy (origin : Origin) (queued : List (Origin × Rendering)) : List Rendering :=
  (queued.filter fun x => x.1 = origin).map Prod.snd

/-- A beginning of frames numbered from one, the first of `answers` and the first of `refused`, each in their order. -/
def Hears (heard : List UInt8) (answers refused : List Rendering) : Prop :=
  ∃ queued, heard <+: (stamped (queued.map Prod.snd)).flatten ∧ sentBy .engine queued <+: answers ∧
    sentBy .gateway queued <+: refused

/-- All of them. -/
def HearsAll (heard : List UInt8) (answers refused : List Rendering) : Prop :=
  ∃ queued, heard = (stamped (queued.map Prod.snd)).flatten ∧ sentBy .engine queued = answers ∧
    sentBy .gateway queued = refused

/-- The clients cannot tell the server from the reference engine. -/
structure Linearized (ecfg : Engine.Config) (v : Venue) : Prop where
  /-- Every client's bytes have a meaning. -/
  readable : ∀ sid, ∃ asked refused alive, Means sid (v.written sid) asked refused alive
  /-- The order has the first commands that each session's bytes ask for. -/
  executed : ∀ sid asked refused alive, Means sid (v.written sid) asked refused alive → v.executed ecfg sid <+: asked
  /-- A client hears the reference's answers and between them the rejects of its bytes. -/
  heard : ∀ sid asked refused alive, Means sid (v.written sid) asked refused alive →
    Hears (v.heard sid) (v.answers ecfg sid) refused
  /-- When all has gone through the system, all was executed, all answers were heard and all trades are published. -/
  settled : ∀ sid, (v.dialog sid).Quiet → ∀ asked refused alive, Means sid (v.written sid) asked refused alive →
    v.executed ecfg sid = asked ∧ HearsAll (v.heard sid) (v.answers ecfg sid) refused ∧
      v.system.server.publisher.published.filterMap Message.traded? =
        ((Reference.init ecfg).log (v.order ecfg)).filterMap Event.traded?
  /-- The trades on the market-data stream are the reference's. -/
  traded : v.system.server.publisher.published.filterMap Message.traded? <+:
    ((Reference.init ecfg).log (v.order ecfg)).filterMap Event.traded?

theorem sentBy_make (origin : Origin) (queued : List (Origin × Message)) :
    sentBy origin (queued.map fun x => (x.1, x.2.make)) = ((queued.filter fun x => x.1 = origin).map Prod.snd).map Message.make := by
  rw [sentBy, List.filter_map, List.map_map, List.map_map]
  rfl

theorem stamped_make (queued : List (Origin × Message)) :
    stamped ((queued.map fun x => (x.1, x.2.make)).map Prod.snd) = numbered 1 (queued.map Prod.snd) := by
  rw [numbered_eq_stamped, List.map_map, List.map_map]
  rfl

variable {sid : Nat} {asked : List Command} {refused : List Rendering} {alive : Bool}

theorem Inv.executed_isPrefix (h : v.Inv ecfg) (hmeans : Means sid (v.written sid) asked refused alive) :
    v.executed ecfg sid <+: asked := by
  have hsystem : v.system.Inv ecfg := (h sid).system
  obtain ⟨n, outs, seq, rest, alive, hfollowed⟩ := (h sid).followed
  obtain ⟨back, hback⟩ : (v.received sid).take n <+: v.written sid := (List.take_prefix n _).trans (h sid).received
  have hsubmitted : v.system.submitted sid = outs.filterMap Reply.command? := hfollowed.commands
  rw [← hback] at hmeans
  refine List.IsPrefix.trans ?_ (hmeans.isPrefix hfollowed.parse).1
  rw [← hsubmitted, executed_eq, System.submitted]
  exact (hsystem.faithful.processed.trans (List.prefix_append _ _)).filter _

theorem Inv.hears (h : v.Inv ecfg) (hmeans : Means sid (v.written sid) asked refused alive) :
    Hears (v.heard sid) (v.answers ecfg sid) refused := by
  have hsystem : v.system.Inv ecfg := (h sid).system
  obtain ⟨n, outs, seq, rest, alive, hfollowed⟩ := (h sid).followed
  obtain ⟨back, hback⟩ : (v.received sid).take n <+: v.written sid := (List.take_prefix n _).trans (h sid).received
  have hheard : v.heard sid <+: v.system.server.sentTo sid := hfollowed.heard
  by_cases hmet : ∃ session, v.system.server.Met sid session
  · obtain ⟨session, hmet⟩ := hmet
    obtain ⟨hid, front, hfront, hrouted, -⟩ := hsystem.routes.met_routed hmet
    have hbytes := hrouted.numbered.conserved.bytes
    rw [hrouted.numbered.appended, ← stamped_make] at hbytes
    rw [hsystem.routes.sentTo_eq hmet] at hheard
    refine ⟨_, hheard.trans ⟨_, hbytes⟩, ?_, ?_⟩
    · have hengine : (session.queued.filter fun x => x.1 = .engine).map Prod.snd = _ := hrouted.fromEngine
      rw [sentBy_make, h.answers_eq, hengine, hid]
      exact (((hfront.trans hsystem.isPrefix_drained).filter _).filterMap _).map _
    · have hgateway : (session.queued.filter fun x => x.1 = .gateway).map Prod.snd = _ := hfollowed.refused session hmet
      rw [← hback] at hmeans
      rw [sentBy_make, hgateway]
      exact (hmeans.isPrefix hfollowed.parse).2
  · rw [Server.sentTo_eq_nil fun session hsession => hmet ⟨session, hsession⟩] at hheard
    exact ⟨[], hheard.trans List.nil_prefix, List.nil_prefix, List.nil_prefix⟩

theorem Inv.published_traded (h : v.Inv ecfg) :
    v.system.server.publisher.published.filterMap Message.traded? = v.system.server.drained.filterMap Event.traded? := by
  have hsystem : v.system.Inv ecfg := (h 0).system
  rw [hsystem.routes.published, List.filterMap_filterMap]
  exact congrArg (List.filterMap · _) (funext Event.traded?_eq)

theorem Inv.reference_traded (h : v.Inv ecfg) :
    ((Reference.init ecfg).log (v.order ecfg)).filterMap Event.traded? = v.system.emitted.filterMap Event.traded? := by
  have hsystem : v.system.Inv ecfg := (h 0).system
  rw [log_order, visible_traded, hsystem.log]

theorem Inv.settles (h : v.Inv ecfg) (hquiet : (v.dialog sid).Quiet) (hmeans : Means sid (v.written sid) asked refused alive) :
    v.executed ecfg sid = asked ∧ HearsAll (v.heard sid) (v.answers ecfg sid) refused := by
  have hsystem : v.system.Inv ecfg := (h sid).system
  obtain ⟨n, outs, seq, rest, alive, hfollowed⟩ := (h sid).followed
  obtain ⟨session, hsession, hpending, hheard⟩ := hquiet.flushed
  have hmet : v.system.server.Met sid session := .inl hsession
  obtain ⟨hid, front, -, hrouted, hopen⟩ := hsystem.routes.met_routed hmet
  have hparse := hfollowed.parse
  rw [hfollowed.whole session hsession, List.take_length, hquiet.received] at hparse
  obtain ⟨rfl, rfl⟩ := hmeans.eq hparse
  have hleft : session.tx.drop session.txOff = [] := by
    rw [List.drop_eq_nil_iff]
    simpa [Conn.pending] using hpending
  have hbytes := hrouted.numbered.conserved.bytes
  rw [hrouted.numbered.appended, hleft, List.append_nil, ← stamped_make] at hbytes
  refine ⟨?_, _, hheard.trans hbytes, ?_, ?_⟩
  · rw [executed_eq, ← hfollowed.commands]
    exact (h sid).processed_eq hquiet
  · have hengine : (session.queued.filter fun x => x.1 = .engine).map Prod.snd = _ := hrouted.fromEngine
    have hdrained : v.system.server.drained = v.system.emitted := (h sid).drained_eq hquiet
    rw [sentBy_make, h.answers_eq, hengine, hid, hopen hsession]
    change ((v.system.server.drained.filter _).filterMap _).map _ = _
    rw [hdrained]
    rfl
  · have hgateway : (session.queued.filter fun x => x.1 = .gateway).map Prod.snd = _ := hfollowed.refused session hmet
    rw [sentBy_make, hgateway]

theorem Inv.linearized (h : v.Inv ecfg) : v.Linearized ecfg where
  readable := fun sid => by
    obtain ⟨outs, seq, rest, alive, hparse⟩ := (nextFrame_stable sid).exists_parse 1 (v.written sid)
    exact ⟨_, _, _, parse_means hparse⟩
  executed := fun _ _ _ _ hmeans => h.executed_isPrefix hmeans
  heard := fun _ _ _ _ hmeans => h.hears hmeans
  settled := fun sid hquiet _ _ _ hmeans => by
    obtain ⟨hexecuted, hheard⟩ := h.settles hquiet hmeans
    refine ⟨hexecuted, hheard, ?_⟩
    rw [h.published_traded, h.reference_traded]
    exact congrArg _ ((h sid).drained_eq hquiet)
  traded := by
    rw [h.published_traded, h.reference_traded]
    exact (h 0).system.isPrefix_drained.filterMap _

theorem order_isPrefix (ecfg : Engine.Config) (v : Venue) (actions : List Action) :
    v.order ecfg <+: (v.run actions).order ecfg := by
  obtain ⟨more, hmore⟩ := (v.run_grows actions).2
  rw [order, order, ← hmore, Engine.withIds_append]
  exact List.prefix_append _ _

/-- Linearizability of the whole server, with the reference engine as the sequential object: at every moment of every run the order explains what all clients have read, and later it has grown at its end. -/
theorem run_linearizes (scfg : Server.Config) (ecfg : Engine.Config) (ringLog2 listenFd mdListenFd : Nat)
    (actions more : List Action)
    (hfew : ((start scfg ecfg ringLog2 listenFd mdListenFd).run (actions ++ more)).system.server.opened < 2 ^ 32) :
    let now := (start scfg ecfg ringLog2 listenFd mdListenFd).run actions
    let later := (start scfg ecfg ringLog2 listenFd mdListenFd).run (actions ++ more)
    now.Linearized ecfg ∧ later.Linearized ecfg ∧ now.order ecfg <+: later.order ecfg := by
  intro now later
  have hlater : later = now.run more := run_append _ actions more
  have hopened : now.system.server.opened ≤ later.system.server.opened := by
    rw [hlater]
    exact (now.run_grows more).1
  refine ⟨(run_inv scfg ecfg ringLog2 listenFd mdListenFd actions (hopened.trans_lt hfew)).linearized,
    (run_inv scfg ecfg ringLog2 listenFd mdListenFd (actions ++ more) hfew).linearized, ?_⟩
  rw [hlater]
  exact now.order_isPrefix ecfg more

/-- Two clients, a buyer and a seller. The seller's order is read first. -/
def crossing : List Action :=
  let buy := (Request.newOrder ⟨1, 0, 0, 0, 0, 5, 1⟩).make 1
  let sell := (Request.newOrder ⟨2, 0, 1, 0, 0, 5, 1⟩).make 1
  let idle (n : Nat) : List Action := List.replicate n (.system (.gateway {}))
  [.write 1 buy, .write 2 sell, .system (.gateway { polled := some [{ fd := 3, readable := true }] }),
    .system (.gateway {}), .system (.gateway { accepted := .connected 5 }),
    .system (.gateway { accepted := .connected 6 })] ++ idle 4 ++
    [.system (.gateway { polled := some [{ fd := 6, readable := true }, { fd := 5, readable := true }] }),
      .system (.gateway { reads := [.bytes sell] })] ++ idle 2 ++ [.system (.gateway { reads := [.bytes buy] })] ++ idle 2 ++
    List.replicate 20 (.system (.engine 7)) ++ idle 9 ++
    [.system (.gateway { writes := fun _ => [.wrote 100] }), .hear 1 100, .hear 2 100]

/-- The seller comes first in the order, and each hears of its order and of the trade. -/
theorem run_linearizes_crossing :
    let now := (start {} { maxPrice := 10, maxOrders := 4 } 2 3 4).run crossing
    let later := (start {} { maxPrice := 10, maxOrders := 4 } 2 3 4).run (crossing ++ [])
    later.system.server.opened < 2 ^ 32 ∧
      (now.Linearized { maxPrice := 10, maxOrders := 4 } ∧ later.Linearized { maxPrice := 10, maxOrders := 4 } ∧
        now.order { maxPrice := 10, maxOrders := 4 } <+: later.order { maxPrice := 10, maxOrders := 4 }) ∧
      ((now.order { maxPrice := 10, maxOrders := 4 }).map fun x => (x.1.session, x.2)) = [(2, 2 ^ 32), (1, 2 ^ 32 + 1)] ∧
      now.heard 1 = (numbered 1 [.ack 1 (2 ^ 32 + 1), .fill (2 ^ 32 + 1) 5 1 0 false]).flatten ∧
      now.heard 2 = (numbered 1 [.ack 2 (2 ^ 32), .fill (2 ^ 32) 5 1 0 true]).flatten := by
  intro now later
  have hfew : later.system.server.opened < 2 ^ 32 := by decide +kernel
  exact ⟨hfew, run_linearizes {} { maxPrice := 10, maxOrders := 4 } 2 3 4 crossing [] hfew, by decide +kernel,
    by decide +kernel, by decide +kernel⟩

end Venue

end Matchbox
