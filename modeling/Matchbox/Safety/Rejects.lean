import Matchbox.Safety.Consistent

/-!
# Rejections

The checks of a command are spread over `process`, `on_new`, `on_replace`, `alloc` and `find`. `Engine.refusal` is the list of them in words of the orders alone: the first that fails decides. The book is full when every slot holds a live order, which is when the free list is empty, since that list neither loses nor doubles a slot over any run. A rejected command leaves nothing behind but the time it read.
-/

namespace Matchbox

/-- The slots of the live orders. -/
def OrderPool.liveSlots (pool : OrderPool) : List Nat :=
  (List.range pool.capacity).filter fun i => (pool.slots i).live

namespace Engine

/-- What a Cancel and a Replace ask for: a live order with the identifier, and it is the session's own. -/
def foreignRefusal (e : Engine) (c : Command) : Option RejectReason :=
  if ∀ i ∈ e.pool.liveSlots, (e.pool.slots i).id ≠ c.orderId then some .unknownOrder
  else if ∃ i ∈ e.pool.liveSlots, (e.pool.slots i).id = c.orderId ∧ (e.pool.slots i).session ≠ c.session then
    some .notOwner
  else none

/-- Why a command is rejected, if it is. -/
def refusal (e : Engine) (c : Command) : Option RejectReason :=
  match c.kind with
  | .new =>
      if e.cfg.symbols ≤ c.symbol then some .badSymbol
      else if c.qty = 0 then some .badQty
      else if c.type = .limit ∧ ¬ (1 ≤ c.price ∧ c.price ≤ e.cfg.maxPrice) then some .badPrice
      else if e.pool.liveSlots.length = e.pool.capacity then some .bookFull
      else none
  | .cancel => e.foreignRefusal c
  | .replace =>
      match e.foreignRefusal c with
      | some r => some r
      | none =>
          if c.qty = 0 then some .badQty
          else if ¬ (1 ≤ c.price ∧ c.price ≤ e.cfg.maxPrice) then some .badPrice
          else none

end Engine

/-- The event says that the command is rejected for this reason. -/
structure Event.Rejects (now : Nat) (c : Command) (r : RejectReason) (e : Event) : Prop where
  kind : e.kind = .rejected
  reason : e.reason = r
  session : e.session = c.session
  tag : e.tag = c.tag
  orderId : e.orderId = c.orderId
  symbol : e.symbol = c.symbol
  tsNs : e.tsNs = now

section Checks

variable {w : Ledger} {c : Command} {i : Nat} {r : RejectReason}

theorem OrderPool.mem_liveSlots {pool : OrderPool} : i ∈ pool.liveSlots ↔ i < pool.capacity ∧ (pool.slots i).live = true := by
  simp [OrderPool.liveSlots]

/-- Every slot is live exactly when the free list is empty. -/
theorem Ledger.full_iff (w : Ledger) (hloose : w.loose = []) :
    w.e.pool.liveSlots.length = w.e.pool.capacity ↔ w.free = [] := by
  have hfree := (w.consistentWith hloose).free_mem
  have hall : w.e.pool.liveSlots.length = w.e.pool.capacity ↔
      ∀ i < w.e.pool.capacity, (w.e.pool.slots i).live = true := by
    have hlength := List.length_filter_eq_length_iff (p := fun i => (w.e.pool.slots i).live)
      (l := List.range w.e.pool.capacity)
    rw [List.length_range] at hlength
    rw [OrderPool.liveSlots, hlength]
    simp only [List.mem_range]
  rw [hall]
  constructor
  · intro h
    apply List.eq_nil_iff_forall_not_mem.2
    intro i hi
    obtain ⟨hlt, hdead⟩ := (hfree i).1 hi
    rw [h i hlt] at hdead
    cases hdead
  · intro h i hlt
    by_contra hdead
    rw [Bool.not_eq_true] at hdead
    have hi := (hfree i).2 ⟨hlt, hdead⟩
    rw [h] at hi
    cases hi

theorem Owned.foreignRefusal (h : Owned w c i) : w.e.foreignRefusal c = none := by
  have hi : i ∈ w.e.pool.liveSlots := OrderPool.mem_liveSlots.2 ⟨h.lt, h.live⟩
  rw [Engine.foreignRefusal, if_neg, if_neg]
  · rintro ⟨j, hj, hid, hsession⟩
    obtain ⟨hlt, hlive⟩ := OrderPool.mem_liveSlots.1 hj
    rw [w.rep.id_inj hlt h.lt hlive h.live (hid.trans h.id.symm)] at hsession
    exact hsession h.session
  · intro hall
    exact hall i hi h.id

/-- The checks of the code, in the order in which it makes them, are those of `refusal`. -/
theorem Refused.refusal (h : Refused w c r) (hloose : w.loose = []) : w.e.refusal c = some r := by
  cases h with
  | badSymbol hkind hsymbol => simp only [Engine.refusal, hkind, if_pos hsymbol]
  | newQty hkind hsymbol hqty => simp only [Engine.refusal, hkind, if_neg (Nat.not_le.2 hsymbol), if_pos hqty]
  | newPrice hkind hsymbol hqty htype hprice =>
      simp only [Engine.refusal, hkind, if_neg (Nat.not_le.2 hsymbol), if_neg hqty]
      exact if_pos ⟨htype, hprice⟩
  | bookFull hnew hfree =>
      have hprice : ¬ (c.type = .limit ∧ ¬ (1 ≤ c.price ∧ c.price ≤ w.e.cfg.maxPrice)) := fun hbad =>
        hbad.2 (hnew.price hbad.1)
      simp only [Engine.refusal, hnew.kind, if_neg (Nat.not_le.2 hnew.symbol), if_neg hnew.qty, if_neg hprice]
      exact if_pos ((w.full_iff hloose).2 hfree)
  | unknownOrder hkind hnone =>
      have hforeign : w.e.foreignRefusal c = some .unknownOrder := by
        apply if_pos
        intro i hi
        obtain ⟨hlt, hlive⟩ := OrderPool.mem_liveSlots.1 hi
        exact hnone i hlt hlive
      cases hc : c.kind with
      | new => exact absurd hc hkind
      | cancel => simp only [Engine.refusal, hc, hforeign]
      | replace => simp only [Engine.refusal, hc, hforeign]
  | @notOwner i hkind hlt hlive hid hsession =>
      have hi : i ∈ w.e.pool.liveSlots := OrderPool.mem_liveSlots.2 ⟨hlt, hlive⟩
      have hforeign : w.e.foreignRefusal c = some .notOwner := by
        rw [Engine.foreignRefusal, if_neg fun hall => hall i hi hid, if_pos ⟨i, hi, hid, hsession⟩]
      cases hc : c.kind with
      | new => exact absurd hc hkind
      | cancel => simp only [Engine.refusal, hc, hforeign]
      | replace => simp only [Engine.refusal, hc, hforeign]
  | replaceQty hkind howned hqty => simp only [Engine.refusal, hkind, howned.foreignRefusal, if_pos hqty]
  | replacePrice hkind howned hqty hprice =>
      simp only [Engine.refusal, hkind, howned.foreignRefusal, if_neg hqty]
      exact if_pos hprice

theorem Replaces.refusal (h : Replaces w c i) : w.e.refusal c = none := by
  simp only [Engine.refusal, h.kind, h.owned.foreignRefusal, if_neg h.qty]
  exact if_neg (not_not.2 h.price)

theorem Owned.refusal (h : Owned w c i) (hkind : c.kind = .cancel) : w.e.refusal c = none := by
  simp only [Engine.refusal, hkind, h.foreignRefusal]

theorem WellFormed.refusal (h : WellFormed w c) (hloose : w.loose = []) (hfree : w.free ≠ []) :
    w.e.refusal c = none := by
  have hprice : ¬ (c.type = .limit ∧ ¬ (1 ≤ c.price ∧ c.price ≤ w.e.cfg.maxPrice)) := fun hbad =>
    hbad.2 (h.price hbad.1)
  simp only [Engine.refusal, h.kind, if_neg (Nat.not_le.2 h.symbol), if_neg h.qty, if_neg hprice]
  exact if_neg (mt (w.full_iff hloose).1 hfree)

/-- A command does what `refusal` says: it is rejected for that reason and leaves everything as it was, or nothing it reports is a rejection. -/
theorem Processed.refusal {now : Nat} {w' : Ledger} {log : List Emission} (h : Processed now c w w' log)
    (hloose : w.loose = []) :
    (∃ r, w.e.refusal c = some r ∧ log = [⟨Engine.reject now c r, w.e.pool⟩] ∧ Idle w w') ∨
      w.e.refusal c = none ∧ ∀ t ∈ log, t.event.kind ≠ .rejected := by
  cases h with
  | @refused r hrefused hidle => exact .inl ⟨r, hrefused.refusal hloose, rfl, hidle⟩
  | accepted hnew hadmitted hmatched =>
      right
      refine ⟨hnew.refusal hloose ?_, List.forall_mem_cons.2 ⟨by simp [Engine.base], fun t ht => ?_⟩⟩
      · rw [hadmitted.free]
        exact List.cons_ne_nil _ _
      · rcases hmatched.kind t ht with hkind | hkind | hkind <;> simp [hkind]
  | cancelled hkind howned _ _ =>
      exact .inr ⟨howned.refusal hkind, by simp [Engine.base]⟩
  | reduced hreplaces _ _ _ => exact .inr ⟨hreplaces.refusal, by simp [Engine.base]⟩
  | replaced hreplaces _ _ _ hmatched =>
      refine .inr ⟨hreplaces.refusal, List.forall_mem_cons.2 ⟨by simp [Engine.base], fun t ht => ?_⟩⟩
      rcases hmatched.kind t ht with hkind | hkind | hkind <;> simp [hkind]

end Checks

theorem Engine.process_nowNs (e : Engine) (now : Nat) (c : Command) : (e.process now c).1.nowNs = now := by
  rw [Engine.process]
  split
  · split <;> rfl
  all_goals
    split
    · rfl
    · dsimp only
      split <;> rfl

/-- In every state that a run of a fresh engine reaches, a command is rejected exactly for the first of its reasons that holds. The rejection is then the only event, with the session and the tag of the command, and nothing but the clock has changed. -/
theorem Engine.run_rejects (cfg : Engine.Config) (cmds : List (Nat × Command)) (now : Nat) (c : Command) :
    let e := (Engine.init cfg).run cmds
    match e.refusal c with
    | some r => (e.process now c).1 = { e with nowNs := now } ∧
        ∃ event, (e.process now c).2 = [⟨event, e.pool⟩] ∧ event.Rejects now c r
    | none => ∀ t ∈ (e.process now c).2, t.event.kind ≠ .rejected := by
  intro e
  obtain ⟨w, hw, hloose⟩ := Engine.run_ledger cfg cmds
  have hwe : w.e = e := hw
  rw [← hwe]
  obtain ⟨w', log, tops, hprocessed, hw', hlog, hreported⟩ := w.process_reported hloose now c
  rcases hprocessed.refusal hloose with ⟨r, hr, hlog', hidle⟩ | ⟨hnone, hkinds⟩
  · rw [hr]
    have htops : tops = [] := hreported.tops.trans (Reported.idle hidle.books').tops.symm
    refine ⟨?_, Engine.reject now c r, ?_, ⟨rfl, rfl, rfl, rfl, rfl, rfl, rfl⟩⟩
    · have hnow := w.e.process_nowNs now c
      rw [← hw'] at hnow ⊢
      change (⟨w'.e.cfg, w'.e.pool, w'.e.books, w'.e.nowNs⟩ : Engine) = _
      rw [hidle.cfg', hidle.pool', hidle.books', hnow]
    · rw [hlog, hlog', htops, List.append_nil]
  · rw [hnone]
    intro t ht
    rw [hlog] at ht
    rcases List.mem_append.1 ht with ht | ht
    · exact hkinds t ht
    · rw [(hreported.isTop t ht).1]
      decide

end Matchbox
