import Matchbox.Reference.Refines
import Matchbox.Rep.Unique
import Matchbox.Safety.Rejects

/-!
# A Replace is a Cancel and a New

A Replace that loses its place in the queue keeps its slot all the way through `remove`, `match` and `insert`. A Cancel frees the slot and the New that follows takes it from the front of the free list again, under the next generation. Both go through the same reference engine: without the order, and then with it under one of two identifiers. A sweep does not look at the identifier of the taker, so the trades are the same, and so is what comes to rest.

Back in the engine, equal queues of slots with equal quantities are equal books, since a book is its queues.
-/

namespace Matchbox

open Sweep

/-! ### What the rest of the market sees -/

/-- The fill of a maker, or a trade. -/
def Event.onTape (ev : Event) : Bool :=
  match ev.kind with
  | .trade => true
  | .fill => ev.maker
  | .accepted | .rejected | .cancelled | .replaced | .top => false

/-- The fills of makers and the trades among these events, times aside. -/
def tape (events : List Event) : List Event := (events.filter Event.onTape).map Event.untimed

theorem tape_append (events events' : List Event) : tape (events ++ events') = tape events ++ tape events' := by
  rw [tape, List.filter_append, List.map_append]
  rfl

theorem tape_cons {ev : Event} (hev : ev.onTape = false) (events : List Event) : tape (ev :: events) = tape events := by
  rw [tape, List.filter_cons_of_neg (by simp [hev])]
  rfl

theorem tape_visible (log : List Emission) : tape (visible log) = tape (log.map Emission.event) := by
  rw [visible, tape, List.filter_map, List.map_map, List.filter_filter, tape]
  apply congrArg
  apply List.filter_congr
  intro ev _
  change (ev.onTape && decide (ev.kind ≠ .top)) = ev.onTape
  by_cases htop : ev.kind = .top
  · simp [Event.onTape, htop]
  · rw [decide_eq_true htop, Bool.and_true]

theorem tape_tops {tops : List Emission} (htops : ∀ t ∈ tops, IsTop t) : tape (tops.map Emission.event) = [] := by
  rw [← tape_visible, visible_tops htops]
  rfl

namespace Reference

/-! ### One order under two identifiers -/

variable (id id' : Nat) (t : Ticket)

theorem tape_tradeEvents (m : Ticket) (trade : Trade Int Nat) :
    tape (tradeEvents id' t m trade) = tape (tradeEvents id t m trade) := rfl

theorem settle_renamed (trades : List (Trade Int Nat)) (r : Reference) :
    (settle id' t trades r).1 = (settle id t trades r).1 ∧
      tape (settle id' t trades r).2 = tape (settle id t trades r).2 := by
  induction trades generalizing r with
  | nil => exact ⟨rfl, rfl⟩
  | cons trade trades ih =>
      obtain ⟨hstate, htape⟩ := ih (if trade.makerLeft = 0 then r.close trade.maker else r)
      refine ⟨hstate, ?_⟩
      rw [settle, settle, tape_append, tape_append, htape]
      cases r.tickets trade.maker with
      | none => rfl
      | some m => exact congrArg (· ++ _) (tape_tradeEvents id id' t m trade)

/-- The identifier of an entry in the one book and in the other. -/
def Renamed (a b : Nat) : Prop := b = a ∨ a = id ∧ b = id'

theorem renamed_self (xs : List (Entry Nat)) : List.Forall₂ (Entry.Rel (Renamed id id')) xs xs :=
  List.forall₂_same.2 fun _ _ => ⟨Or.inl rfl, rfl⟩

theorem rest_renamed (r : Reference) (left k : Nat) (s : Side) (p : Int) :
    List.Forall₂ (Entry.Rel (Renamed id id')) ((r.rest id t left).books k s p) ((r.rest id' t left).books k s p) := by
  rw [rest, rest]
  dsimp only
  rw [setQueue_books, setQueue_books]
  split
  · exact List.rel_append (renamed_self id id' _) (.cons ⟨Or.inr ⟨rfl, rfl⟩, rfl⟩ .nil)
  · exact renamed_self id id' _

theorem execute_renamed (r : Reference) (qty : Nat) :
    (∀ k s p, List.Forall₂ (Entry.Rel (Renamed id id')) ((r.execute id t .limit .gtc qty).1.books k s p)
        ((r.execute id' t .limit .gtc qty).1.books k s p)) ∧
      tape (r.execute id' t .limit .gtc qty).2 = tape (r.execute id t .limit .gtc qty).2 := by
  let swept := sweep (reaches .limit t) (prices r.cfg (opposite t.side)) (r.books t.symbol (opposite t.side)) qty
  obtain ⟨hstate, htape⟩ := settle_renamed id id' t swept.trades r
  rw [execute, execute, hstate]
  by_cases hleft : swept.left = 0
  · rw [if_pos hleft, if_pos hleft]
    exact ⟨fun _ _ _ => renamed_self id id' _, htape⟩
  · rw [if_neg hleft, if_neg hleft, if_pos ⟨rfl, rfl⟩, if_pos ⟨rfl, rfl⟩]
    exact ⟨rest_renamed id id' t _ _, htape⟩

end Reference

/-! ### Equal queues are equal books -/

section Queues

variable {w w' : Ledger} {r r' : Reference} {id id' : Nat}

/-- The lower half of an identifier is the slot. -/
theorem Ledger.id_mod (w : Ledger) {j : Nat} (hlt : j < w.e.pool.capacity) (hlive : (w.e.pool.slots j).live = true) :
    (w.e.pool.slots j).id % word32 = j := by
  rw [w.rep.id j hlt hlive]
  exact OrderPool.idOf_mod (w.rep.lt_word32 hlt)

theorem Ledger.id_mod_of_mem (w : Ledger) {j k : Nat} {s : Side} {p : Int} (hj : j ∈ w.q k s p) :
    (w.e.pool.slots j).id % word32 = j :=
  w.id_mod (w.rep.queued k s p j hj).lt (w.rep.queued k s p j hj).live

theorem Abstracts.queue_eq (h : Abstracts w r) (k : Nat) (s : Side) (p : Int) :
    w.q k s p = (r.books k s p).map fun x => x.id % word32 := by
  rw [h.books, List.map_map]
  conv_lhs => rw [← List.map_id (w.q k s p)]
  exact List.map_congr_left fun j hj => (w.id_mod_of_mem hj).symm

/-- Two ledgers for the same queues under two identifiers with one slot. -/
theorem Abstracts.renamed (h : Abstracts w r) (h' : Abstracts w' r') (hslot : id' % word32 = id % word32)
    (hbooks : ∀ k s p, List.Forall₂ (Entry.Rel (Reference.Renamed id id')) (r.books k s p) (r'.books k s p)) :
    w'.q = w.q ∧ ∀ k s p, ∀ j ∈ w.q k s p, (w'.e.pool.slots j).qty = (w.e.pool.slots j).qty ∧
      Reference.Renamed id id' (w.e.pool.slots j).id (w'.e.pool.slots j).id := by
  have hqueues : ∀ k s p, w'.q k s p = w.q k s p := by
    intro k s p
    rw [h.queue_eq, h'.queue_eq, ← List.forall₂_eq_eq_eq, List.forall₂_map_left_iff, List.forall₂_map_right_iff]
    refine List.Forall₂.flip ((hbooks k s p).imp fun x y hxy => ?_)
    show y.id % word32 = x.id % word32
    rcases hxy.id with hsame | ⟨hx, hy⟩
    · rw [hsame]
    · rw [hx, hy, hslot]
  refine ⟨?_, fun k s p j hj => ?_⟩
  · funext k s p
    exact hqueues k s p
  · have hboth := hbooks k s p
    rw [h.books, h'.books, hqueues, List.forall₂_map_left_iff, List.forall₂_map_right_iff, List.forall₂_same] at hboth
    exact ⟨(hboth j hj).qty, (hboth j hj).id⟩

theorem Ledger.books_eq (hcfg : w'.e.cfg = w.e.cfg) (hqueues : w'.q = w.q)
    (hqty : ∀ k s p, ∀ j ∈ w.q k s p, (w'.e.pool.slots j).qty = (w.e.pool.slots j).qty) : w'.e.books = w.e.books := by
  funext k
  have hbook' := w'.rep.book k
  rw [hqueues] at hbook'
  refine (w.rep.book k).unique hbook' ?_ (hqty k)
  rw [w.rep.maxPrice, w'.rep.maxPrice, hcfg]

end Queues

/-! ### What the three commands do -/

section Commands

variable {now i : Nat} {c : Command} {w w' : Ledger} {log : List Emission}

theorem Owned.unique {j : Nat} (h : Owned w c i) (h' : Owned w c j) : j = i :=
  w.rep.id_inj h'.lt h.lt h'.live h.live (h'.id.trans h.id.symm)

theorem Refused.absurd {reason : RejectReason} (h : Refused w c reason) (hloose : w.loose = [])
    (hnone : w.e.refusal c = none) : False := by
  rw [h.refusal hloose] at hnone
  cases hnone

theorem Processed.of_cancel (h : Processed now c w w' log) (hloose : w.loose = []) (hkind : c.kind = .cancel)
    (howned : Owned w c i) :
    ∃ w₁, Taken i w w₁ ∧ Freed i w₁ w' ∧ log = [⟨Engine.base now .cancelled (w₁.e.pool.slots i), w₁.e.pool⟩] := by
  cases h with
  | refused hrefused _ => exact (hrefused.absurd hloose (howned.refusal hkind)).elim
  | accepted hnew _ _ => exact absurd (hnew.kind.symm.trans hkind) (by decide)
  | cancelled _ howned' htaken hfreed =>
      cases howned.unique howned'
      exact ⟨_, htaken, hfreed, rfl⟩
  | reduced hreplaces _ _ _ => exact absurd (hreplaces.kind.symm.trans hkind) (by decide)
  | replaced hreplaces _ _ _ _ => exact absurd (hreplaces.kind.symm.trans hkind) (by decide)

theorem Processed.of_replace (h : Processed now c w w' log) (hloose : w.loose = []) (hreplaces : Replaces w c i)
    (hmoves : ¬ (c.price = (w.e.pool.slots i).price ∧ c.qty ≤ (w.e.pool.slots i).qty)) :
    ∃ w₁ w₂ log', Taken i w w₁ ∧ Repriced i c.price c.qty w₁ w₂ ∧ Matched now i w₂ w' log' ∧
      log = ⟨Engine.base now .replaced (w₂.e.pool.slots i), w₂.e.pool⟩ :: log' := by
  cases h with
  | refused hrefused _ => exact (hrefused.absurd hloose hreplaces.refusal).elim
  | accepted hnew _ _ => exact absurd (hnew.kind.symm.trans hreplaces.kind) (by decide)
  | cancelled hkind _ _ _ => exact absurd (hkind.symm.trans hreplaces.kind) (by decide)
  | reduced hreplaces' hprice hqty _ =>
      cases hreplaces.owned.unique hreplaces'.owned
      exact absurd ⟨hprice, hqty⟩ hmoves
  | replaced hreplaces' _ htaken hrepriced hmatched =>
      cases hreplaces.owned.unique hreplaces'.owned
      exact ⟨_, _, _, htaken, hrepriced, hmatched, rfl⟩

theorem Processed.of_new (h : Processed now c w w' log) (hloose : w.loose = []) (hnew : WellFormed w c) {free : List Nat}
    (hfree : w.free = i :: free) :
    ∃ w₁ log', Admitted c i w w₁ ∧ Matched now i w₁ w' log' ∧
      log = ⟨Engine.base now .accepted (w₁.e.pool.slots i), w₁.e.pool⟩ :: log' := by
  have hroom : w.free ≠ [] := by
    rw [hfree]
    exact List.cons_ne_nil _ _
  cases h with
  | refused hrefused _ => exact (hrefused.absurd hloose (hnew.refusal hloose hroom)).elim
  | accepted _ hadmitted hmatched =>
      cases (List.cons.inj (hfree.symm.trans hadmitted.free)).1
      exact ⟨_, _, hadmitted, hmatched, rfl⟩
  | cancelled hkind _ _ _ => exact absurd (hkind.symm.trans hnew.kind) (by decide)
  | reduced hreplaces _ _ _ => exact absurd (hreplaces.kind.symm.trans hnew.kind) (by decide)
  | replaced hreplaces _ _ _ _ => exact absurd (hreplaces.kind.symm.trans hnew.kind) (by decide)

theorem Matched.id (h : Matched now i w w' log) : (w'.e.pool.slots i).id = (w.e.pool.slots i).id := by
  cases h with
  | @intro w₁ fills ending hfills _ hended =>
      have hsame := hfills.taker_read Order.id (fun _ _ _ => rfl) fun _ _ => rfl
      have hfreed : Freed i w₁ w' → (w'.e.pool.slots i).id = (w₁.e.pool.slots i).id := by
        intro hfreed
        rw [hfreed.pool', OrderPool.free_slots_self]
      cases hended with
      | done _ hfree => exact (hfreed hfree).trans hsame
      | killed _ _ hfree => exact (hfreed hfree).trans hsame
      | rested _ _ _ hrested => exact ((hrested.slots i).read Order.id fun _ _ => rfl).trans hsame

end Commands

/-! ### The two runs -/

/-- A Replace of the order `o` by its owner, and the Cancel and the New that do the same. -/
structure Order.Exchange (o : Order) (replace cancel new : Command) : Prop where
  replaces : replace.kind = .replace ∧ replace.session = o.session ∧ replace.orderId = o.id
  cancels : cancel.kind = .cancel ∧ cancel.session = o.session ∧ cancel.orderId = o.id
  renews : new.kind = .new ∧ new.session = o.session ∧ new.tag = o.tag ∧ new.symbol = o.symbol ∧ new.side = o.side
  rests : new.type = .limit ∧ new.tif = .gtc
  same : new.price = replace.price ∧ new.qty = replace.qty

/-- What the Replace of the order `id` left behind, compared with the Cancel and with the New that was accepted as `id'`. -/
structure Exchanged (id id' : Nat) (replaced cancelled renewed : Engine × List Emission) : Prop where
  tapes : tape ((cancelled.2 ++ renewed.2).map Emission.event) = tape (replaced.2.map Emission.event)
  accepted : (renewed.2.head?.map fun t => (t.event.kind, t.event.orderId)) = some (.accepted, id')
  not_rejected : ∀ t ∈ renewed.2, t.event.kind ≠ .rejected
  books : renewed.1.books = replaced.1.books
  queues : ∀ k s p, renewed.1.queue k s p = replaced.1.queue k s p
  /-- The new identifier stands where the old one stands. -/
  ids : ∀ k s p, (renewed.1.queue k s p).map (fun j => (renewed.1.pool.slots j).id) =
    (replaced.1.queue k s p).map fun j =>
      if (replaced.1.pool.slots j).id = id then id' else (replaced.1.pool.slots j).id
  qtys : ∀ k s p, ∀ j ∈ replaced.1.queue k s p, (renewed.1.pool.slots j).qty = (replaced.1.pool.slots j).qty

section Exchange

variable {w wR wN : Ledger} {r : Reference} {now i : Nat} {replace cancel new : Command} {log logR logN : List Emission}

theorem Admitted.execute {w₁ wC w₂ : Ledger} (htaken : Taken i w w₁) (hfreed : Freed i w₁ wC)
    (hadmitted : Admitted new i wC w₂) (hmatched : Matched now i w₂ wN logN)
    (hcmds : (w.e.pool.slots i).Exchange replace cancel new) (habs : Abstracts w r) :
    ∃ rN, Abstracts wN rN ∧ (r.delete (w.e.pool.slots i).id (w.e.pool.slots i).ticket).execute (w₂.e.pool.slots i).id
      { (w.e.pool.slots i).ticket with price := replace.price } .limit .gtc replace.qty = (rN, visible logN) := by
  obtain ⟨rN, hN, hexecute⟩ := hmatched.execute (hadmitted.abstracts (hfreed.abstracts (htaken.abstracts habs)))
  obtain ⟨-, hsession, htag, hsymbol, hside⟩ := hcmds.renews
  obtain ⟨htype, htif⟩ := hcmds.rests
  obtain ⟨hprice, hqty⟩ := hcmds.same
  refine ⟨rN, hN, ?_⟩
  rw [← hexecute, hadmitted.slots', Function.update_self]
  simp only [Command.order, Order.ticket, hsession, htag, hsymbol, hside, htype, htif, hprice, hqty, if_true]

/-- In the two ends, the identifiers differ in the slot of the order. -/
theorem Ledger.ids_renamed {id id' k : Nat} {s : Side} {p : Int} (hi : id % word32 = i)
    (hid' : (wN.e.pool.slots i).id = id') {j : Nat} (hj : j ∈ wR.q k s p)
    (hrenamed : Reference.Renamed id id' (wR.e.pool.slots j).id (wN.e.pool.slots j).id) :
    (wN.e.pool.slots j).id = if (wR.e.pool.slots j).id = id then id' else (wR.e.pool.slots j).id := by
  by_cases hid : (wR.e.pool.slots j).id = id
  · have hji : j = i := by rw [← wR.id_mod_of_mem hj, hid, hi]
    rw [if_pos hid, hji, hid']
  · rw [if_neg hid]
    rcases hrenamed with hsame | ⟨hold, -⟩
    · exact hsame
    · exact absurd hold hid

theorem Ledger.exchanged (w : Ledger) (hloose : w.loose = []) (habs : Abstracts w r) (hlt : i < w.e.pool.capacity)
    (hlive : (w.e.pool.slots i).live = true) (hcmds : (w.e.pool.slots i).Exchange replace cancel new)
    (hprice : w.e.cfg.Valid replace.price) (hqty : 1 ≤ replace.qty)
    (hmoves : ¬ (replace.price = (w.e.pool.slots i).price ∧ replace.qty ≤ (w.e.pool.slots i).qty)) (now₁ now₂ now₃ : Nat) :
    ∃ id', Exchanged (w.e.pool.slots i).id id' (w.e.process now₁ replace) (w.e.process now₂ cancel)
      ((w.e.process now₂ cancel).1.process now₃ new) := by
  obtain ⟨hkindR, hsessionR, hidR⟩ := hcmds.replaces
  obtain ⟨hkindC, hsessionC, hidC⟩ := hcmds.cancels
  -- the Replace
  obtain ⟨wR, logR, topsR, hprocR, hwR, hlogR, htopsR⟩ := w.process hloose now₁ replace
  have hreplaces : Replaces w replace i :=
    ⟨hkindR, ⟨hlt, hlive, hidR.symm, hsessionR.symm⟩, Nat.one_le_iff_ne_zero.1 hqty, hprice⟩
  obtain ⟨w₁, w₂, fillsR, htakenR, hrepriced, hmatchedR, rfl⟩ := hprocR.of_replace hloose hreplaces hmoves
  -- the Cancel
  obtain ⟨wC, logC, topsC, hprocC, hwC, hlogC, htopsC⟩ := w.process hloose now₂ cancel
  obtain ⟨w₃, htakenC, hfreed, rfl⟩ := hprocC.of_cancel hloose hkindC ⟨hlt, hlive, hidC.symm, hsessionC.symm⟩
  -- the New, which finds the slot of the cancelled order in front of the free list
  obtain ⟨wN, logN, topsN, hprocN, hwN, hlogN, htopsN⟩ := wC.process hfreed.loose' now₃ new
  have hcfg : wC.e.cfg = w.e.cfg := hfreed.cfg'.trans htakenC.cfg'
  have hnew : WellFormed wC new := by
    refine ⟨hcmds.renews.1, ?_, ?_, fun _ => ?_⟩
    · rw [hcfg, hcmds.renews.2.2.2.1]
      exact (w.rep.queued _ _ _ _ htakenC.mem).symbol_lt
    · rw [hcmds.same.2]
      exact hreplaces.qty
    · rw [hcfg, hcmds.same.1]
      exact hprice
  have hroom : wC.free ≠ [] := by
    rw [hfreed.free']
    exact List.cons_ne_nil _ _
  obtain ⟨w₄, fillsN, hadmitted, hmatchedN, rfl⟩ := hprocN.of_new hfreed.loose' hnew hfreed.free'
  -- both at the reference
  obtain ⟨rR, hR, hexecR⟩ := hrepriced.execute htakenR hmatchedR habs
  obtain ⟨rN, hN, hexecN⟩ := Admitted.execute htakenC hfreed hadmitted hmatchedN hcmds habs
  obtain ⟨hbooks, htape⟩ := Reference.execute_renamed (w.e.pool.slots i).id (w₄.e.pool.slots i).id
    { (w.e.pool.slots i).ticket with price := replace.price }
    (r.delete (w.e.pool.slots i).id (w.e.pool.slots i).ticket) replace.qty
  rw [hexecR, hexecN] at hbooks htape
  rw [tape_visible, tape_visible] at htape
  have hlive₄ := w₄.rep.loose_mem i (by rw [hadmitted.loose']; exact List.mem_singleton_self i)
  have hslot : (w₄.e.pool.slots i).id % word32 = (w.e.pool.slots i).id % word32 :=
    (w₄.id_mod hlive₄.1 hlive₄.2.1).trans (w.id_mod hlt hlive).symm
  obtain ⟨hqueues, hslots⟩ := hR.renamed hN hslot hbooks
  have hcfgs : wN.e.cfg = wR.e.cfg := by rw [hwN, hwR, Engine.process_cfg, Engine.process_cfg, hcfg]
  rw [hwC] at hwN hlogN
  refine ⟨(w₄.e.pool.slots i).id, ?_, ?_, ?_, ?_, ?_, ?_, ?_⟩
  · rw [hlogR, hlogC, hlogN]
    simp only [List.map_append, List.map_cons, List.map_nil, tape_append, tape_tops htopsR, tape_tops htopsC,
      tape_tops htopsN, List.append_nil]
    rw [tape_cons rfl, tape_cons rfl, tape_cons rfl]
    exact htape
  · rw [hlogN]
    rfl
  · intro t ht
    rw [hlogN] at ht
    rcases List.mem_append.1 ht with ht | ht
    · rcases hprocN.refusal hfreed.loose' with ⟨_, hsome, -⟩ | ⟨-, hkinds⟩
      · rw [hnew.refusal hfreed.loose' hroom] at hsome
        cases hsome
      · exact hkinds t ht
    · rw [(htopsN t ht).1]
      decide
  · rw [← hwN, ← hwR]
    exact Ledger.books_eq hcfgs hqueues fun k s p j hj => (hslots k s p j hj).1
  · intro k s p
    rw [← hwN, ← hwR, wN.queue_eq, wR.queue_eq, hqueues]
  · intro k s p
    rw [← hwN, ← hwR, wN.queue_eq, wR.queue_eq, hqueues]
    apply List.map_congr_left
    intro j hj
    exact Ledger.ids_renamed (w.id_mod hlt hlive) hmatchedN.id hj (hslots k s p j hj).2
  · intro k s p j hj
    rw [← hwR, wR.queue_eq] at hj
    rw [← hwN, ← hwR]
    exact (hslots k s p j hj).1

end Exchange

theorem Engine.run_cfg (e : Engine) (cmds : List (Nat × Command)) : (e.run cmds).cfg = e.cfg := by
  induction cmds generalizing e with
  | nil => rfl
  | cons c cmds ih => exact (ih _).trans (e.process_cfg c.1 c.2)

/-- In every state that a run of a fresh engine reaches, a Replace of a live order that does not keep its place leaves the books that a Cancel and a New leave, with the same fills and trades on the way. -/
theorem Engine.run_exchange (cfg : Engine.Config) (cmds : List (Nat × Command)) {e : Engine}
    (he : e = (Engine.init cfg).run cmds) (i : Nat) (hlt : i < e.pool.capacity) (hlive : (e.pool.slots i).live = true)
    (replace cancel new : Command) (hcmds : (e.pool.slots i).Exchange replace cancel new)
    (hprice : 1 ≤ replace.price ∧ replace.price ≤ cfg.maxPrice) (hqty : 1 ≤ replace.qty)
    (hmoves : ¬ (replace.price = (e.pool.slots i).price ∧ replace.qty ≤ (e.pool.slots i).qty)) (now₁ now₂ now₃ : Nat) :
    ∃ id', Exchanged (e.pool.slots i).id id' (e.process now₁ replace) (e.process now₂ cancel)
      ((e.process now₂ cancel).1.process now₃ new) := by
  obtain ⟨w, hw, hloose, r, habs⟩ := Ledger.run_inv (P := fun w => ∃ r, Abstracts w r)
    (fun hloose ⟨r, habs⟩ hprocessed => (hprocessed.reference hloose habs).imp fun _ h => h.1)
    cmds (Ledger.init cfg) rfl ⟨_, Abstracts.init cfg⟩
  have hcfg : e.cfg = cfg := by
    rw [he]
    exact (Engine.init cfg).run_cfg cmds
  obtain rfl : w.e = e := hw.trans he.symm
  rw [← hcfg] at hprice
  exact w.exchanged hloose habs hlt hlive hcmds hprice hqty hmoves now₁ now₂ now₃

/-- A resting bid that is raised through an offer: two of its five trade, and three rest at the new price. -/
theorem Engine.run_exchange_crossing :
    let cfg : Engine.Config := { maxPrice := 5, maxOrders := 3 }
    let e := (Engine.init cfg).run
      [(1, { session := 7, price := 3, qty := 4 }), (2, { session := 8, side := .sell, price := 4, qty := 2 })]
    let replace : Command := { kind := .replace, session := 7, orderId := 2 ^ 32, price := 5, qty := 5 }
    let cancel : Command := { kind := .cancel, session := 7, orderId := 2 ^ 32 }
    let new : Command := { session := 7, price := 5, qty := 5 }
    (tape ((e.process 3 replace).2.map Emission.event)).length = 2 ∧
      ∃ id', Exchanged (e.pool.slots 0).id id' (e.process 3 replace) (e.process 4 cancel)
        ((e.process 4 cancel).1.process 5 new) := by
  intro cfg e replace cancel new
  have hcmds : (e.pool.slots 0).Exchange replace cancel new :=
    ⟨by decide +kernel, by decide +kernel, by decide +kernel, by decide, by decide⟩
  have hlive : (e.pool.slots 0).live = true := by decide +kernel
  have hmoves : ¬ (replace.price = (e.pool.slots 0).price ∧ replace.qty ≤ (e.pool.slots 0).qty) := by decide +kernel
  exact ⟨by decide +kernel, Engine.run_exchange cfg _ (Eq.refl e) 0 (by decide +kernel) hlive replace cancel new hcmds
    (by decide) (by decide) hmoves 3 4 5⟩

end Matchbox
