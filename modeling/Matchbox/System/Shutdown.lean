import Matchbox.Engine.Clock
import Matchbox.System.Deadlock
import Matchbox.Wire.Python

/-!
# Shutting down

When `Server::run` has returned, `main` sets `stop_` and joins the engine thread. Nobody drains the outbox any more, and the engine looks at `stop_` between two commands only, possibly long after it was set. `owed` counts the events it may push until then. If they fit into the outbox the engine exits, and if they do not it can end up waiting for room that nobody makes: `Hung`.
-/

namespace Matchbox

open BoundedFifo Wire Resumable

namespace System

/-- `run` has returned, and the engine waits in `on_event` on a full outbox. -/
structure Hung (s : System) : Prop where
  returned : s.gateway = .stopped
  emitting : ∃ e events, s.thread = .emit (e :: events)
  outboxFull : s.outbox.length = s.outboxSize

/-- How many events the engine pushes if nothing more is submitted: those of the command it is at, and those of the commands in the inbox if it does not see `stop_` before. -/
def owed (s : System) : Nat :=
  let later := if s.stop then 0 else s.engine.count s.inbox
  match s.thread with
  | .top => later
  | .emit events => events.length + later
  | .exited => 0

/-- An engine step would change nothing. -/
inductive Waits (s : System) : Prop
  | full {e : Event} {events : List Event} (hat : s.thread = .emit (e :: events))
      (hfull : s.outbox.length = s.outboxSize)
  | idle (hat : s.thread = .top) (hstop : s.stop = false) (hinbox : s.inbox = [])
  | exited (hat : s.thread = .exited)

/-- A bound on the steps until the engine waits. -/
def remaining (s : System) : Nat :=
  s.owed + 2 * s.inbox.length +
    match s.thread with
    | .exited => 0
    | .top => 1
    | .emit _ => 2

/-- What the steps of the engine leave as it is. The events in the outbox and those still owed count together. -/
structure Unmoved (s s' : System) : Prop where
  gateway : s'.gateway = s.gateway
  stop : s'.stop = s.stop
  outboxSize : s'.outboxSize = s.outboxSize
  load : s'.outbox.length + s'.owed = s.outbox.length + s.owed

theorem Unmoved.trans {s s' s'' : System} (h : s.Unmoved s') (h' : s'.Unmoved s'') : s.Unmoved s'' :=
  ⟨h'.gateway.trans h.gateway, h'.stop.trans h.stop, h'.outboxSize.trans h.outboxSize, h'.load.trans h.load⟩

/-- The engine waits, or it comes nearer to waiting. -/
theorem engineStep_spec {s : System} (hb : s.Bounded) (now : Nat) :
    s.Unmoved (s.step (.engine now)) ∧ (s.Waits ∨ (s.step (.engine now)).remaining < s.remaining) := by
  cases hat : s.thread with
  | top =>
      cases hstop : s.stop with
      | true =>
          have hstep : s.step (.engine now) = { s with thread := .exited } := by
            rw [step, engineStep, hat]
            exact if_pos hstop
          rw [hstep]
          refine ⟨⟨rfl, rfl, rfl, ?_⟩, Or.inr ?_⟩
          · simp [owed, hat, hstop]
          · simp [remaining, owed, hat, hstop]
      | false =>
          cases hinbox : s.inbox with
          | nil =>
              have hstep : s.step (.engine now) = s := by
                rw [step, engineStep, hat]
                dsimp only
                rw [if_neg (by rw [hstop]; decide), takeCommand, hinbox]
                rfl
              rw [hstep]
              exact ⟨⟨rfl, rfl, rfl, rfl⟩, Or.inl (.idle hat hstop hinbox)⟩
          | cons c rest =>
              have hcount := s.engine.count_cons now c rest
              rw [step_take hat hstop hinbox]
              refine ⟨⟨rfl, rfl, rfl, ?_⟩, Or.inr ?_⟩
              · simp [owed, hat, hstop, hinbox, hcount]
              · simp only [remaining, owed, hat, hstop, hinbox, hcount, List.length_map, List.length_cons]
                simp
                omega
  | emit events =>
      cases events with
      | nil =>
          have hstep : s.step (.engine now) = { s with thread := .top } := by
            rw [step, engineStep, hat]
          rw [hstep]
          refine ⟨⟨rfl, rfl, rfl, ?_⟩, Or.inr ?_⟩
          · simp [owed, hat]
          · simp [remaining, owed, hat]
      | cons e events =>
          by_cases hroom : s.outbox.length < s.outboxSize
          · rw [step_emit hat hroom]
            refine ⟨⟨rfl, rfl, rfl, ?_⟩, Or.inr ?_⟩
            · simp only [owed, hat, List.length_append, List.length_cons, List.length_nil]
              omega
            · simp only [remaining, owed, hat, List.length_cons]
              omega
          · rw [step_emit_full hat hroom]
            exact ⟨⟨rfl, rfl, rfl, rfl⟩, Or.inl (.full hat (Nat.le_antisymm hb.outbox (Nat.not_lt.1 hroom)))⟩
  | exited =>
      have hstep : s.step (.engine now) = s := by rw [step, engineStep, hat]
      rw [hstep]
      exact ⟨⟨rfl, rfl, rfl, rfl⟩, Or.inl (.exited hat)⟩

/-- Left to itself the engine waits in the end. -/
theorem exists_waits {s : System} (hb : s.Bounded) :
    ∃ n, s.Unmoved (s.run (List.replicate n (.engine 0))) ∧ (s.run (List.replicate n (.engine 0))).Waits := by
  induction hm : s.remaining using Nat.strong_induction_on generalizing s with
  | _ m ih =>
      subst hm
      obtain ⟨hunmoved, hwaits | hless⟩ := engineStep_spec hb 0
      · exact ⟨0, ⟨rfl, rfl, rfl, rfl⟩, hwaits⟩
      · obtain ⟨n, hrest, hwaits⟩ := ih _ hless ((s.step_stepped (.engine 0)).bounded hb) rfl
        exact ⟨n + 1, hunmoved.trans hrest, hwaits⟩

/-- After `run` has returned nothing is owed that was not owed before. -/
theorem load_step {s : System} (hat : s.gateway = .stopped) (hb : s.Bounded) (a : Action) :
    (s.step a).gateway = .stopped ∧ (s.step a).outboxSize = s.outboxSize ∧
      (s.step a).outbox.length + (s.step a).owed ≤ s.outbox.length + s.owed := by
  cases a with
  | gateway env =>
      rw [step_returned hat]
      refine ⟨hat, rfl, Nat.add_le_add_left ?_ _⟩
      cases hthread : s.thread <;> simp [owed, hthread]
  | engine now =>
      obtain ⟨hunmoved, -⟩ := engineStep_spec hb now
      exact ⟨hunmoved.gateway.trans hat, hunmoved.outboxSize, hunmoved.load.le⟩

theorem load_run {s : System} (hat : s.gateway = .stopped) (hb : s.Bounded) (actions : List Action) :
    (s.run actions).gateway = .stopped ∧ (s.run actions).outboxSize = s.outboxSize ∧
      (s.run actions).outbox.length + (s.run actions).owed ≤ s.outbox.length + s.owed := by
  induction actions generalizing s with
  | nil => exact ⟨hat, rfl, le_refl _⟩
  | cons a actions ih =>
      obtain ⟨hat', hsize, hload⟩ := load_step hat hb a
      obtain ⟨hat'', hsize', hload'⟩ := ih hat' ((s.step_stepped a).bounded hb)
      exact ⟨hat'', hsize'.trans hsize, hload'.trans hload⟩

theorem Hung.lt_load {s : System} (h : s.Hung) : s.outboxSize < s.outbox.length + s.owed := by
  obtain ⟨e, events, hthread⟩ := h.emitting
  simp only [owed, hthread, h.outboxFull, List.length_cons]
  omega

/-- Nothing gets the engine out of there. -/
theorem Hung.run {s : System} (h : s.Hung) (actions : List Action) : (s.run actions).Hung := by
  induction actions generalizing s with
  | nil => exact h
  | cons a actions ih =>
      refine ih ?_
      obtain ⟨e, events, hthread⟩ := h.emitting
      cases a with
      | gateway env =>
          rw [step_returned h.returned]
          exact ⟨h.returned, h.emitting, h.outboxFull⟩
      | engine now =>
          rw [step_emit_full hthread (by rw [h.outboxFull]; exact Nat.lt_irrefl _)]
          exact h

theorem exists_hung {s : System} (hat : s.gateway = .stopped) (hb : s.Bounded)
    (hload : s.outboxSize < s.outbox.length + s.owed) : ∃ n, (s.run (List.replicate n (.engine 0))).Hung := by
  obtain ⟨n, hunmoved, hwaits⟩ := exists_waits hb
  have hout := (hb.run (List.replicate n (.engine 0))).outbox
  have hgateway := hunmoved.gateway
  rw [← hunmoved.load, ← hunmoved.outboxSize] at hload
  refine ⟨n, ?_⟩
  cases hwaits with
  | full hthread hfull => exact ⟨hgateway.trans hat, ⟨_, _, hthread⟩, hfull⟩
  | idle hthread hstop hinbox =>
      rw [owed, hthread, hstop, hinbox] at hload
      exact absurd hload (Nat.not_lt.2 hout)
  | exited hthread =>
      rw [owed, hthread] at hload
      exact absurd hload (Nat.not_lt.2 hout)

/-- With room for all that is owed, the engine exits once `stop_` is set. -/
theorem exists_exited {s : System} (hb : s.Bounded) (hstop : s.stop = true)
    (hload : s.outbox.length + s.owed ≤ s.outboxSize) : ∃ n, (s.run (List.replicate n (.engine 0))).thread = .exited := by
  obtain ⟨n, hunmoved, hwaits⟩ := exists_waits hb
  have hstop' := hunmoved.stop
  rw [← hunmoved.load, ← hunmoved.outboxSize] at hload
  refine ⟨n, ?_⟩
  cases hwaits with
  | full hthread hfull =>
      simp only [owed, hthread, hfull, List.length_cons] at hload
      omega
  | idle hthread hrunning hinbox =>
      rw [hrunning, hstop] at hstop'
      cases hstop'
  | exited hthread => exact hthread

/-! ### Whole runs -/

/-- Once `run` has returned, the engine can end up waiting for ever exactly if what it owes does not fit into the outbox; if it does fit, `join` returns. -/
theorem run_hangs_iff (scfg : Server.Config) (ecfg : Engine.Config) (ringLog2 listenFd mdListenFd : Nat)
    (actions : List Action) (hat : ((init scfg ecfg ringLog2 listenFd mdListenFd).run actions).gateway = .stopped) :
    let s := (init scfg ecfg ringLog2 listenFd mdListenFd).run actions
    ((∃ more, (s.run more).Hung) ↔ s.outboxSize < s.outbox.length + s.owed) ∧
      (∀ more, (s.run more).Hung → ∀ later, ((s.run more).run later).Hung) ∧
      (s.outbox.length + s.owed ≤ s.outboxSize → ∀ more, (s.run more).stop = true →
        ∃ n, ((s.run more).run (List.replicate n (.engine 0))).thread = .exited) := by
  intro s
  have hb : s.Bounded := (init_bounded scfg ecfg ringLog2 listenFd mdListenFd).run actions
  refine ⟨⟨?_, fun hload => ?_⟩, fun more hhung later => hhung.run later, fun hload more hstop => ?_⟩
  · rintro ⟨more, hhung⟩
    obtain ⟨-, hsize, hload⟩ := load_run hat hb more
    have hlt := hhung.lt_load
    rw [hsize] at hlt
    exact hlt.trans_le hload
  · obtain ⟨n, hhung⟩ := exists_hung hat hb hload
    exact ⟨_, hhung⟩
  · obtain ⟨-, hsize, hload'⟩ := load_run hat hb more
    refine exists_exited (hb.run more) hstop ?_
    rw [hsize]
    exact hload'.trans hload

/-! ### A full inbox at the end -/

/-- The frames of some requests, numbered from `seq` on. -/
def requestFrames : Nat → List Request → List UInt8
  | _, [] => []
  | seq, r :: rs => r.make seq ++ requestFrames ((seq + 1) % word32) rs

theorem parse_requestFrames (session : Nat) {rs : List Request} (hrs : ∀ r ∈ rs, r.InRange) {seq : Nat}
    (hseq : seq < word32) :
    ∃ seq', Parse (nextFrame session) seq (requestFrames seq rs) (rs.map (Request.reply session)) seq' [] true := by
  induction rs generalizing seq with
  | nil => exact ⟨seq, .more (Looked.eq (.short (Nat.zero_lt_succ 7)))⟩
  | cons r rs ih =>
      have hnext : (seq + 1) % word32 < word32 := Nat.mod_lt _ (by decide)
      obtain ⟨seq', hparse⟩ := ih (fun r' hr' => hrs r' (List.mem_cons_of_mem r hr')) hnext
      have hitem := nextFrame_frame session r.type hseq (Eq.refl (r.make seq)) (r.length_make seq)
        (requestFrames ((seq + 1) % word32) rs)
      rw [Request.frameReply_make (hrs r List.mem_cons_self) session hseq] at hitem
      refine ⟨seq', .item hitem ?_⟩
      rw [requestFrames, List.drop_left]
      exact hparse

/-- An offer that all the bids after it trade with. -/
def offer : Request := .newOrder { tag := 0, symbol := 0, side := 1, type := 0, tif := 0, price := 1, qty := 2 ^ 16 }

def bid : Request := .newOrder { tag := 0, symbol := 0, side := 0, type := 0, tif := 0, price := 1, qty := 1 }

def offerCommand : Command := { kind := .new, side := .sell, session := 1, price := 1, qty := 2 ^ 16 }

def bidCommand : Command := { kind := .new, side := .buy, session := 1, price := 1, qty := 1 }

end System

namespace Engine

/-- The offer rests with this quantity, alone in front of its side. -/
structure Offered (e : Engine) (q : Nat) : Prop where
  symbols : 0 < e.cfg.symbols
  maxPrice : 1 ≤ (e.books 0).maxPrice
  free : e.pool.freeHead = 1
  best : (e.books 0).best .sell = 1
  head : ((e.books 0).levels .sell 1).head = 0
  qty : ((e.books 0).levels .sell 1).qty = q
  offer : (e.pool.slots 0).qty = q

theorem offered_init : ((init {}).process 0 System.offerCommand).1.Offered (2 ^ 16) ∧
    ((init {}).process 0 System.offerCommand).2.length = 2 := by
  refine ⟨⟨by decide, by decide, rfl, rfl, rfl, rfl, rfl⟩, rfl⟩

theorem matchAndRest_bid {pool : OrderPool} {book : Book} {q : Nat} (htaker : (pool.slots 1).side = .buy)
    (htype : (pool.slots 1).type = .limit) (hprice : (pool.slots 1).price = 1) (hone : (pool.slots 1).qty = 1)
    (hoffer : (pool.slots 0).qty = q + 2) (hbest : book.best .sell = 1) (hhead : (book.levels .sell 1).head = 0)
    (now : Nat) (log : List Emission) :
    let out := matchAndRest now pool book 1 log
    out.pool.freeHead = 1 ∧ (out.pool.slots 0).qty = q + 1 ∧
      out.book = book.setLevel .sell 1 { book.levels .sell 1 with qty := Book.sub32 (book.levels .sell 1).qty 1 } ∧
      out.log.length = log.length + 3 := by
  have hcrosses : Book.crosses .buy 1 1 = true := by decide
  have hpx : (1 : Int) ≠ kNoPrice := by decide
  have hnull : (0 : Nat) ≠ kNull := by decide
  have hfill : book.matchTaker (onFill now 1) pool 1 log =
      Book.fillHead (onFill now 1) 1 .sell 1 { pool := pool, book := book, filled := 0, acc := log } := by
    simp [Book.matchTaker, Book.matchLoop, Book.matchLevel, htaker, htype, hprice, hone, hbest, hhead, hcrosses, hpx, hnull,
      opposite]
  simp [matchAndRest, hfill, Book.fillHead, OrderPool.modify, OrderPool.free, onFill, fillEvents, hhead, hone, hoffer]

variable {e : Engine} {q : Nat}

theorem Offered.onNew (h : e.Offered (q + 2)) (now : Nat) :
    let out := Engine.onNew now e.pool (e.books 0) System.bidCommand
    out.pool.freeHead = 1 ∧ (out.pool.slots 0).qty = q + 1 ∧
      out.book = (e.books 0).setLevel .sell 1
        { (e.books 0).levels .sell 1 with qty := Book.sub32 ((e.books 0).levels .sell 1).qty 1 } ∧
      out.log.length = 4 := by
  have hnull : (1 : Nat) ≠ kNull := by decide
  have hvalid : ¬ (System.bidCommand.type = .limit ∧ ¬ (e.books 0).validPrice System.bidCommand.price) := by
    simp [System.bidCommand, Book.validPrice, h.maxPrice]
  rw [Engine.onNew, if_neg (by decide), if_neg hvalid, OrderPool.alloc, h.free, if_neg hnull]
  refine matchAndRest_bid ?_ ?_ ?_ ?_ ?_ h.best h.head now _
  · simp [OrderPool.modify, System.bidCommand]
  · simp [OrderPool.modify, System.bidCommand]
  · simp [OrderPool.modify, System.bidCommand]
  · simp [OrderPool.modify, System.bidCommand]
  · simp [OrderPool.modify, h.offer]

theorem Offered.bid (h : e.Offered (q + 2)) (hq : q + 2 < word32) (now : Nat) :
    (e.process now System.bidCommand).1.Offered (q + 1) ∧ (e.process now System.bidCommand).2.length = 5 := by
  have hsub : Book.sub32 (q + 2) 1 = q + 1 := by
    simp only [Book.sub32, word32] at hq ⊢
    omega
  obtain ⟨hfree, hmaker, hbook, hlog⟩ := h.onNew now
  have hprocess : e.process now System.bidCommand =
      e.finish now 0 (Engine.onNew now e.pool (e.books 0) System.bidCommand) :=
    if_neg (Nat.not_le.2 h.symbols)
  rw [h.qty, hsub] at hbook
  rw [hprocess, finish, hbook]
  have hpx : (1 : Int) ≠ kNoPrice := by decide
  have hmoved : ((e.books 0).setLevel .sell 1 { (e.books 0).levels .sell 1 with qty := q + 1 }).top ≠ (e.books 0).top := by
    intro hsame
    have hask := congrArg TopOfBook.askQty hsame
    simp [Book.top, Book.setLevel, h.best, hpx, h.qty] at hask
  refine ⟨⟨h.symbols, ?_, hfree, ?_, ?_, ?_, hmaker⟩, ?_⟩
  · simp [store, Book.setLevel, h.maxPrice]
  · simp [store, Book.setLevel, h.best]
  · simp [store, Book.setLevel, h.head]
  · simp [store, Book.setLevel]
  · rw [if_pos hmoved, List.length_append, hlog]
    rfl

theorem Offered.count {n : Nat} (h : e.Offered q) (hn : n < q) (hq : q < word32) :
    e.count (List.replicate n System.bidCommand) = 5 * n := by
  induction n generalizing e q with
  | zero => rfl
  | succ n ih =>
      obtain ⟨q, rfl⟩ := Nat.exists_eq_add_of_le' (Nat.succ_le_of_lt hn)
      rw [Nat.add_succ, Nat.add_succ] at h hn
      obtain ⟨hoffered, hlength⟩ := h.bid hq 0
      rw [List.replicate_succ, e.count_cons 0, hlength, ih hoffered (by omega) (by omega)]
      omega

end Engine

namespace System

variable {s : System} {k : Nat} {inbox left : List Command} {c : Command}

theorem Batched.submit (h : s.Batched k inbox (c :: left)) (hroom : inbox.length < 2 ^ k) :
    (s.step (.gateway {})).Batched k (inbox ++ [c]) left := by
  have hroom' : s.inbox.length < s.inboxSize := by
    rw [h.inbox, inboxSize, h.ring]
    exact hroom
  rw [step_submit h.gateway hroom']
  exact ⟨h.ring, rfl, h.thread, h.stop, h.engine, congrArg (· ++ [c]) h.inbox, h.outbox⟩

theorem Batched.submitAll (h : s.Batched k inbox left) (hroom : inbox.length + left.length ≤ 2 ^ k) :
    (s.run (List.replicate left.length (.gateway {}))).Batched k (inbox ++ left) [] := by
  induction left generalizing s inbox with
  | nil =>
      rw [List.append_nil]
      exact h
  | cons c left ih =>
      rw [List.length_cons] at hroom
      have hrest := ih (h.submit (by omega)) (by rw [List.length_append, List.length_singleton]; omega)
      rw [List.append_assoc] at hrest
      exact hrest

/-- The gateway finds nothing to drain, flushes and sees the signal. -/
def leave : List Action := [.gateway {}, .gateway {}, .gateway {}, .gateway {}, .gateway { stop := true }]

theorem Batched.leave (h : s.Batched k inbox []) :
    s.run System.leave = { s with
      server := (s.server.flushDirty fun _ => []).flushMarketData 0 fun _ => []
      gateway := .stopped } := by
  simp only [run, System.leave, List.foldl_cons, List.foldl_nil, step, gatewayStep, h.gateway, if_true, drainOne, h.outbox,
    tryPop]

/-- An offer and some bids arrive before the signal. The engine has not begun with them when the gateway leaves. -/
def closing (n : Nat) : List Action :=
  receive (requestFrames 1 (offer :: List.replicate n bid)) ++ List.replicate (n + 1) (.gateway {}) ++ leave

theorem closing_batched {n : Nat} (hroom : n + 1 ≤ 2 ^ k) :
    ((init {} {} k 3 4).run (receive (requestFrames 1 (offer :: List.replicate n bid)) ++
      List.replicate (n + 1) (.gateway {}))).Batched k (offerCommand :: List.replicate n bidCommand) [] := by
  have hone : 1 < word32 := by decide
  have hrange : ∀ r ∈ offer :: List.replicate n bid, r.InRange := by
    intro r hr
    rcases List.mem_cons.1 hr with rfl | hr
    · simp [offer, Request.InRange]
    · rw [List.eq_of_mem_replicate hr]
      simp [bid, Request.InRange]
  obtain ⟨seq', hparse⟩ := parse_requestFrames 1 hrange hone
  have hcommands : ((offer :: List.replicate n bid).map (Request.reply 1)).filterMap Reply.command? =
      offerCommand :: List.replicate n bidCommand := by
    have hoffer : (offer.reply 1).command? = some offerCommand := rfl
    have hbid : (bid.reply 1).command? = some bidCommand := rfl
    rw [List.map_cons, List.map_replicate, List.filterMap_cons_some hoffer, List.filterMap_replicate_of_some hbid]
  have hbatched := receive_batched k hparse
  rw [hcommands] at hbatched
  have hlength : (offerCommand :: List.replicate n bidCommand).length = n + 1 := by
    rw [List.length_cons, List.length_replicate]
  have hfull := hbatched.submitAll (by rw [hlength, List.length_nil, Nat.zero_add]; exact hroom)
  rw [hlength, List.nil_append, ← run_append] at hfull
  exact hfull

/-- The gateway has left, all commands are in the inbox, and every bid will lead to five events. -/
theorem closing_owed {n : Nat} (hroom : n + 1 ≤ 2 ^ k) (hn : n < 2 ^ 16) :
    let s := (init {} {} k 3 4).run (closing n)
    s.gateway = .stopped ∧ s.inbox.length = n + 1 ∧ s.outbox = [] ∧ s.owed = 2 + 5 * n ∧ s.outboxSize = 2 ^ (k + 2) := by
  intro s
  have hfull := closing_batched hroom
  have hleft := hfull.leave
  rw [← run_append] at hleft
  have hs : s = (init {} {} k 3 4).run (closing n) := rfl
  rw [hs, closing, hleft]
  refine ⟨rfl, ?_, hfull.outbox, ?_, ?_⟩
  · rw [hfull.inbox, List.length_cons, List.length_replicate]
  · obtain ⟨hoffered, hfirst⟩ := Engine.offered_init
    rw [owed]
    dsimp only
    rw [hfull.thread, hfull.stop, hfull.engine, hfull.inbox]
    dsimp only
    rw [if_neg (by decide), (Engine.init {}).count_cons 0, hfirst, hoffered.count hn (by decide)]
  · rw [outboxSize]
    dsimp only
    rw [hfull.ring]

theorem closing_hung {n : Nat} (hroom : n + 1 ≤ 2 ^ k) (hn : n < 2 ^ 16) (hload : 2 ^ (k + 2) < 5 * n + 2) :
    ∃ m, ((init {} {} k 3 4).run (closing n ++ List.replicate m (.engine 0))).Hung := by
  obtain ⟨hat, -, -, howed, hsize⟩ := closing_owed hroom hn
  obtain ⟨m, hhung⟩ := exists_hung hat ((init_bounded {} {} k 3 4).run (closing n)) (by omega)
  rw [← run_append] at hhung
  exact ⟨m, hhung⟩

/-- With the rings as `EngineThread` makes them, `join` does not return. -/
theorem closing_hangs_default :
    ∃ m, ((init {} {} 16 3 4).run (closing (2 ^ 16 - 1) ++ List.replicate m (.engine 0))).Hung :=
  closing_hung (by decide) (by decide) (by decide)

/-- Seven commands are left for the engine, and their 32 events just fit into the outbox: `join` returns, whenever the engine sees the flag. -/
theorem run_hangs_iff_closing :
    let s := (init {} {} 3 3 4).run (closing 6)
    s.gateway = .stopped ∧ s.inbox.length = 7 ∧ s.owed = 32 ∧ s.outbox.length + s.owed = s.outboxSize ∧
      (¬ ∃ more, (s.run more).Hung) ∧
      (∀ m, ∃ n, (s.run (List.replicate m (.engine 0) ++ [.gateway {}] ++ List.replicate n (.engine 0))).thread = .exited) := by
  intro s
  obtain ⟨hat, hinbox, houtbox, howed, hsize⟩ := closing_owed (k := 3) (n := 6) (by decide) (by decide)
  have hfits : s.outbox.length + s.owed = s.outboxSize := by
    change ((init {} {} 3 3 4).run (closing 6)).outbox.length + ((init {} {} 3 3 4).run (closing 6)).owed = _
    rw [houtbox, howed, hsize]
    rfl
  obtain ⟨hhangs, -, hexits⟩ := run_hangs_iff {} {} 3 3 4 (closing 6) hat
  refine ⟨hat, hinbox, howed, hfits, fun hhung => absurd (hhangs.1 hhung) (Nat.not_lt.2 hfits.le), fun m => ?_⟩
  have hstop : (s.run (List.replicate m (.engine 0) ++ [.gateway {}])).stop = true := by
    obtain ⟨hat', -, -⟩ := load_run hat ((init_bounded {} {} 3 3 4).run (closing 6)) (List.replicate m (.engine 0))
    rw [run_concat, step_returned hat']
  obtain ⟨n, hexited⟩ := hexits hfits.le _ hstop
  rw [← run_append] at hexited
  exact ⟨n, hexited⟩

end System

end Matchbox
