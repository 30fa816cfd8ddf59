import Matchbox.Stream.Backlog
import Matchbox.System.Dialog
import Matchbox.System.Wakeup

/-!
# The memory of a slow client

A client that sends orders and reads no answers fills the `tx` of its session. `flush_dirty` closes a session that has more than `max_backlog` bytes pending after its flush; since whoever queues a frame lists the session for it, and nothing else grows `tx`, a session that is not listed is within the limit. What is read is parsed at once, so that less than a frame is left in `rx`, unless the session is about to be closed.
-/

namespace Matchbox

open Wire Resumable

/-! ### One session -/

/-- A parse that goes on leaves less than a frame. -/
theorem Wire.parse_rest_lt {session seq seq' : Nat} {bytes rest : List UInt8} {outs : List Reply}
    (h : Parse (nextFrame session) seq bytes outs seq' rest true) : rest.length < 40 := by
  generalize halive : true = alive at h
  induction h with
  | @more seq bytes hnext =>
      have hlooked := nextFrame_looked session seq bytes
      rw [hnext] at hlooked
      cases hlooked with
      | short h => exact h.trans (by decide)
      | waiting h hok hlen =>
          simp only [Header.ok, decide_eq_true_eq] at hok
          have hsize : sizeFor (Header.ofBytes bytes).type ≤ 40 := by
            rw [sizeFor]
            cases MsgType.ofCode (Header.ofBytes bytes).type with
            | none => exact Nat.zero_le _
            | some t => exact t.size_le_forty
          omega
  | item hnext hrest ih => exact ih halive
  | stop hnext => cases halive

namespace Session

/-- The bound on the output of a session that is not listed for a flush. -/
structure Slim (limit : Nat) (s : Session) : Prop where
  backlog : s.dirty = false → s.backlog ≤ limit
  txOff : s.txOff ≤ 65536

variable {limit : Nat} {s : Session}

theorem Slim.accepted (limit fd id : Nat) : (Session.accepted fd id).Slim limit := ⟨fun _ => Nat.zero_le _, Nat.zero_le _⟩

theorem Slim.send (h : s.Slim limit) (origin : Origin) (m : Message) : (s.send origin m).Slim limit :=
  ⟨fun hclean => Bool.noConfusion hclean, h.txOff⟩

theorem Slim.reading (limit : Nat) : Reading fun s s' => s.Slim limit → s'.Slim limit where
  refl := fun _ h => h
  trans := fun h h' => h' ∘ h
  reject := fun _ m h => h.send .gateway m
  moved := fun _ _ _ h => ⟨h.backlog, h.txOff⟩

theorem Slim.flushAndArm (h : s.Slim limit) (poller : Poller) (writes : List WriteResult)
    (hok : (s.toConn.flushAndArm poller writes).2.2 = true) :
    Slim limit { s with toConn := (s.toConn.flushAndArm poller writes).1 } := by
  obtain ⟨-, hbacklog, hoff⟩ := s.toConn.flushAndArm_tx poller writes
  exact ⟨fun hclean => hbacklog.trans (h.backlog hclean), hoff hok⟩

end Session

/-! ### The server -/

namespace Server

/-- The bounds, for every open session; the input of a session that is about to be closed does not count. -/
structure Modest (limit : Nat) (closing : Option Nat) (sv : Server) : Prop where
  cfg : sv.cfg.maxBacklog = limit
  slim : ∀ sid s, sv.sessions sid = some s → s.Slim limit
  rx : ∀ sid s, sv.sessions sid = some s → closing ≠ some sid → s.rx.length < 40

variable {sv sv' : Server} {limit sid : Nat} {s : Session} {closing closing' : Option Nat}

theorem Modest.change (h : sv.Modest limit closing) (hcfg : sv'.cfg = sv.cfg) {id : Nat} {x : Option Session}
    (hsessions : sv'.sessions = Function.update sv.sessions id x)
    (hclosing : ∀ sid, sid ≠ id → closing' ≠ some sid → closing ≠ some sid)
    (hx : ∀ s', x = some s' → s'.Slim limit ∧ (closing' ≠ some id → s'.rx.length < 40)) : sv'.Modest limit closing' := by
  have hmem : ∀ sid t, sv'.sessions sid = some t → sid = id ∧ x = some t ∨ sid ≠ id ∧ sv.sessions sid = some t := by
    intro sid t ht
    rw [hsessions] at ht
    by_cases heq : sid = id
    · subst heq
      rw [Function.update_self] at ht
      exact .inl ⟨rfl, ht⟩
    · rw [Function.update_of_ne heq] at ht
      exact .inr ⟨heq, ht⟩
  refine ⟨by rw [hcfg]; exact h.cfg, fun sid t ht => ?_, fun sid t ht hopen => ?_⟩
  · rcases hmem sid t ht with ⟨-, hx'⟩ | ⟨-, ht⟩
    · exact (hx t hx').1
    · exact h.slim sid t ht
  · rcases hmem sid t ht with ⟨rfl, hx'⟩ | ⟨hne, ht⟩
    · exact (hx t hx').2 hopen
    · exact h.rx sid t ht (hclosing sid hne hopen)

theorem Modest.congr (h : sv.Modest limit closing) (hcfg : sv'.cfg = sv.cfg) (hsessions : sv'.sessions = sv.sessions) :
    sv'.Modest limit closing := by
  refine ⟨by rw [hcfg]; exact h.cfg, ?_, ?_⟩
  · rw [hsessions]
    exact h.slim
  · rw [hsessions]
    exact h.rx

theorem Modest.put (h : sv.Modest limit closing) (hkeyed : sv.Keyed) (hs : sv.sessions sid = some s) {s' : Session}
    (hunread : Unread s s') (hslim : s'.Slim limit) (hcfg : sv'.cfg = sv.cfg)
    (hsessions : sv'.sessions = Function.update sv.sessions s'.id (some s')) : sv'.Modest limit closing := by
  refine h.change hcfg hsessions (fun _ _ hopen => hopen) fun t ht => ?_
  cases ht
  refine ⟨hslim, fun hopen => ?_⟩
  rw [hunread.id, hkeyed sid s hs] at hopen
  rw [hunread.rx]
  exact h.rx sid s hs hopen

/-- Flushing keeps the bounds; `flush_dirty` brings a session that it keeps below the limit. -/
theorem Modest.served (h : sv.Modest limit closing) (hkeyed : sv.Keyed) (hserved : sv.Served sv') :
    sv'.Modest limit closing := by
  cases hserved with
  | @flushed sid s hs writes hok =>
      have hunread := Unread.flushed (s.flushed_flushAndArm sv.poller writes s.dirty)
      exact h.put hkeyed hs hunread ((h.slim sid s hs).flushAndArm sv.poller writes hok) rfl rfl
  | @relieved sid s rest hlisted hs writes hok hlimit =>
      have hunread := Unread.flushed (s.flushed_flushAndArm sv.poller writes false)
      refine h.put hkeyed hs hunread ⟨fun _ => ?_, (s.toConn.flushAndArm_tx sv.poller writes).2.2 hok⟩ rfl rfl
      rw [← h.cfg]
      exact hlimit
  | closed hs hflushed hpoller hlisted =>
      rw [closeSession_eq]
      exact h.change rfl rfl (fun _ _ hopen => hopen) fun t ht => by cases ht
  | skipped hlisted hs => exact h.congr rfl rfl

theorem Modest.serves (h : sv.Modest limit closing) (hkeyed : sv.Keyed) (hserves : sv.Serves sv') :
    sv'.Modest limit closing := by
  induction hserves with
  | refl => exact h
  | tail hbefore hserved ih => exact ih.served ((Serves.asides hbefore).spec hkeyed).1 hserved

/-- After a protocol error the session is the one that is about to be closed. -/
theorem Modest.reads (h : sv.Modest limit none) (hs : sv.sessions sid = some s) {reads : List ReadResult}
    {r : Server × List Command × Bool} (hreads : Reads sv s reads r) :
    r.1.Modest limit (if r.2.2 then none else some s.id) := by
  cases hreads with
  | failed htaken =>
      rw [closeSession_eq]
      exact h.change rfl rfl (fun _ _ _ hno => by cases hno) fun t ht => by cases ht
  | @parsed outs seq rest rx alive htaken hparse hrx =>
      refine h.change rfl (sv.resend_parsed s outs seq rx) (fun _ _ _ hno => by cases hno) fun t ht => ?_
      cases ht
      refine ⟨(Session.Slim.reading limit).parsed s outs seq rx (h.slim sid s hs), fun hopen => ?_⟩
      cases alive with
      | true =>
          change rx.length < 40
          rw [hrx rfl]
          exact parse_rest_lt hparse
      | false => exact absurd rfl hopen

theorem Modest.hangUp (h : sv.Modest limit (some sid)) (hkeyed : sv.Keyed) (writes : List WriteResult) :
    (sv.hangUp sid writes).Modest limit none := by
  have hserved := h.serves hkeyed (sv.hangUp_serves sid writes)
  refine ⟨hserved.cfg, hserved.slim, fun sid' t ht _ => hserved.rx sid' t ht fun hsame => ?_⟩
  cases hsame
  cases (sv.hangUp_sessions hkeyed sid writes).symm.trans ht

theorem Modest.noted (h : sv.Modest limit none) (hkeyed : sv.Keyed) {e : Event} (hnoted : sv.Noted e sv') :
    sv'.Modest limit none := by
  cases hnoted with
  | published | dropped => exact h.congr rfl rfl
  | @sent s m hmarket hs hm => exact h.put hkeyed hs (.send s m) ((h.slim _ s hs).send .engine m) rfl rfl

theorem Modest.acceptOne (h : sv.Modest limit none) (fd : Nat) (kind : Kind) : (sv.acceptOne fd kind).Modest limit none := by
  have hcfg : (sv.acceptOne fd kind).cfg = sv.cfg := by
    by_cases hkind : kind = .session
    · rw [hkind, acceptOne_eq]
    · rw [sv.subscribe_eq fd hkind]
      rfl
  rcases sv.acceptOne_cases fd kind with hsessions | ⟨-, hsessions⟩
  · exact h.congr hcfg hsessions
  · refine h.change hcfg hsessions (fun _ _ hopen => hopen) fun t ht => ?_
    cases ht
    exact ⟨Session.Slim.accepted limit fd sv.nextSid, fun _ => (by decide : 0 < 40)⟩

theorem Modest.onSubscriber (h : sv.Modest limit none) (ev : PollEvent) (reads : List ReadResult)
    (writes : List WriteResult) : (sv.onSubscriber ev reads writes).Modest limit none := by
  rw [Server.onSubscriber]
  split <;> exact h.congr rfl rfl

theorem modest_init (scfg : Config) (listenFd mdListenFd : Nat) :
    (Server.init scfg listenFd mdListenFd).Modest scfg.maxBacklog none := by
  rw [init_eq]
  refine ⟨rfl, ?_, ?_⟩
  · intro sid s hs
    cases hs
  · intro sid s hs
    cases hs

end Server

/-! ### The two threads -/

theorem GatewayAt.eq_submit_of_closing {gateway : GatewayAt} {sid : Nat} (h : gateway.closing = some sid) :
    ∃ cmds evs, gateway = .submit sid cmds false evs := by
  cases gateway with
  | submit sid' cmds ok evs =>
      cases ok with
      | false =>
          cases h
          exact ⟨cmds, evs, rfl⟩
      | true => cases h
  | _ => cases h

namespace System

variable {s : System} {limit : Nat}

theorem Looped.modest {env : Env} {s' : System} (hlooped : Looped s env s')
    (h : s.server.Modest limit s.gateway.closing) (hkeyed : s.server.Keyed) :
    s'.server.Modest limit s'.gateway.closing := by
  cases hlooped with
  | quit hat | polled hat | walked hat | listened hat | unknown hat | acceptedAll hat | submittedAll hat
  | drainedAll hat =>
      rw [hat] at h
      exact h
  | subscriber hat =>
      rw [hat] at h
      exact h.onSubscriber _ env.reads _
  | @written ev evs hat =>
      rw [hat] at h
      exact h.serves hkeyed (s.server.onSessionWritable_serves ev (env.writes ev.fd))
  | @read ev evs sv session r hat hkind hready hsv hsession hread =>
      rw [hat] at h
      have hwritten := h.serves hkeyed (s.server.onSessionWritable_serves ev (env.writes ev.fd))
      rw [hsv] at hwritten
      obtain ⟨sid, hs⟩ := Server.exists_of_sessionByFd hsession
      have hmodest := hwritten.reads hs (hread ▸ sv.readSession_reads session env.reads)
      obtain ⟨sv', cmds, ok⟩ := r
      cases ok <;> exact hmodest
  | @accepted kind evs fd hat =>
      rw [hat] at h ⊢
      exact h.acceptOne fd kind
  | @submitted sid c cmds ok evs hat =>
      rw [hat] at h
      cases ok <;> exact h
  | hungUp hat =>
      rw [hat] at h
      exact h.hangUp hkeyed _
  | drained hat =>
      rw [hat] at h ⊢
      exact h.noted hkeyed (s.server.onEvent_noted _)
  | flushed hat =>
      rw [hat] at h
      exact (h.serves hkeyed (s.server.flushDirty_serves env.writes)).congr rfl rfl
  | interrupted | full | returned => exact h

theorem step_modest (h : s.server.Modest limit s.gateway.closing) (hkeyed : s.server.Keyed) (a : Action) :
    (s.step a).server.Modest limit (s.step a).gateway.closing := by
  cases a with
  | gateway env => exact (s.gatewayStep_looped env).modest h hkeyed
  | engine now =>
      obtain ⟨hserver, hgateway⟩ := s.engineStep_server now
      rw [hserver, hgateway]
      exact h

theorem modest_run (h : s.server.Modest limit s.gateway.closing) (hwakes : s.Wakes) {actions : List Action}
    (hfresh : s.FreshAccepts actions) : (s.run actions).server.Modest limit (s.run actions).gateway.closing :=
  (Guarded.run_rule (P := fun s => s.Wakes ∧ s.server.Modest limit s.gateway.closing)
    (fun _ a ha h => ⟨h.1.step ha, step_modest h.2 h.1.wired.keyed a⟩) hfresh ⟨hwakes, h⟩).2

/-- A session never keeps more than 65536 bytes that were already sent, has less than a frame of input outside its own `read_session`, and has more than `max_backlog` bytes pending only while it is listed for the flush that closes it if they stay; at the top of the loop it is within the limit. -/
theorem run_modest (scfg : Server.Config) (ecfg : Engine.Config) (ringLog2 listenFd mdListenFd : Nat)
    (actions : List Action) (hfresh : (init scfg ecfg ringLog2 listenFd mdListenFd).FreshAccepts actions) :
    let s := (init scfg ecfg ringLog2 listenFd mdListenFd).run actions
    ∀ sid session, s.server.sessions sid = some session →
      session.tx.length ≤ session.backlog + 65536 ∧
        ((∀ cmds ok evs, s.gateway ≠ .submit sid cmds ok evs) → session.rx.length < 40) ∧
        (scfg.maxBacklog < session.backlog → sid ∈ s.server.dirty) ∧
        (s.gateway = .poll → session.backlog ≤ scfg.maxBacklog) := by
  intro s sid session hopen
  have hwakes₀ : (init scfg ecfg ringLog2 listenFd mdListenFd).Wakes := init_wakes rfl
  have hwakes : s.Wakes := hwakes₀.run hfresh
  have hmodest : s.server.Modest scfg.maxBacklog s.gateway.closing :=
    modest_run (Server.modest_init scfg listenFd mdListenFd) hwakes₀ hfresh
  have hslim := hmodest.slim sid session hopen
  refine ⟨?_, fun helsewhere => hmodest.rx sid session hopen fun hclosing => ?_, fun hover => ?_, fun hend => ?_⟩
  · have hoff := hslim.txOff
    rw [Conn.backlog]
    omega
  · obtain ⟨cmds, evs, hat⟩ := GatewayAt.eq_submit_of_closing hclosing
    exact helsewhere cmds false evs hat
  · have hdirty : session.dirty = true := by
      by_contra hclean
      exact absurd (hslim.backlog (Bool.eq_false_of_not_eq_true hclean)) (Nat.not_le.2 hover)
    have hlisted := (hwakes.wired.sessions sid session hopen).listed hdirty
    rwa [hwakes.wired.keyed sid session hopen] at hlisted
  · exact hslim.backlog ((hwakes.settled hend).sessions sid session hopen).2

/-- A client that reads nothing, at a limit of one answer: the answer is kept, and its session stays open. -/
theorem run_modest_refusedFull :
    (init { maxBacklog := 24 } {} 0 3 4).FreshAccepts refusedFull ∧
      ∃ session, ((init { maxBacklog := 24 } {} 0 3 4).run refusedFull).server.sessions 1 = some session ∧
        session.backlog = 24 ∧ session.tx.length ≤ session.backlog + 65536 ∧ session.rx.length < 40 := by
  have hfresh : (init { maxBacklog := 24 } {} 0 3 4).FreshAccepts refusedFull := by decide +kernel
  have hbacklog : (((init { maxBacklog := 24 } {} 0 3 4).run refusedFull).server.sessions 1).map
      (fun session => session.backlog) = some 24 := by decide +kernel
  obtain ⟨session, hopen, hsize⟩ := Option.map_eq_some_iff.1 hbacklog
  have hbounds := run_modest { maxBacklog := 24 } {} 0 3 4 refusedFull hfresh 1 session hopen
  have hend : ((init { maxBacklog := 24 } {} 0 3 4).run refusedFull).gateway = .poll := rfl
  exact ⟨hfresh, session, hopen, hsize, hbounds.1, hbounds.2.1 fun _ _ _ => by rw [hend]; exact GatewayAt.noConfusion⟩

end System

end Matchbox
