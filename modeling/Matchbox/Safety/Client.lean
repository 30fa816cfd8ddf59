import Matchbox.Safety.Consistent

/-!
# A client reconstructs its orders from its events

`Client.apply` is what a client does with one event addressed to it; it fails on an event about an order it does not hold, on one whose quantities do not add up, and on an acceptance under an identifier it has already seen. Along every run in which no slot is freed often enough to repeat a generation, no client ever fails, and between commands it holds exactly its live orders.

The client drops an order at its last fill, while the engine frees the slot a moment later. So the comparison during a command is with the live orders that have something left.
-/

namespace Matchbox

structure Holding where
  price : Int
  qty : Nat
deriving DecidableEq

structure Client where
  orders : Nat → Option Holding := fun _ => none
  /-- The orders that have ended. -/
  closed : Nat → Bool := fun _ => false

namespace Client

def hold (cl : Client) (id : Nat) (h : Holding) : Client :=
  { cl with orders := Function.update cl.orders id (some h) }

def close (cl : Client) (id : Nat) : Client where
  orders := Function.update cl.orders id none
  closed := Function.update cl.closed id true

/-- What the client makes of one event, or `none` when the event makes no sense to it. -/
def apply (cl : Client) (ev : Event) : Option Client :=
  match ev.kind with
  | .accepted =>
      if cl.orders ev.orderId = none ∧ cl.closed ev.orderId = false then
        some (cl.hold ev.orderId ⟨ev.price, ev.qty⟩)
      else none
  | .fill =>
      match cl.orders ev.orderId with
      | none => none
      | some h =>
          if h.qty = ev.remaining + ev.qty then
            some (if ev.remaining = 0 then cl.close ev.orderId else cl.hold ev.orderId ⟨h.price, ev.remaining⟩)
          else none
  | .replaced =>
      match cl.orders ev.orderId with
      | none => none
      | some _ => some (cl.hold ev.orderId ⟨ev.price, ev.qty⟩)
  | .cancelled =>
      match cl.orders ev.orderId with
      | none => none
      | some h => if ev.remaining = h.qty then some (cl.close ev.orderId) else none
  | .rejected | .trade | .top => some cl

/-- The client after all these events. -/
def fold (cl : Client) (events : List Event) : Option Client := events.foldlM apply cl

/-- The client of session `s` in front of an event for anyone. -/
def see (s : Nat) (cl : Client) (ev : Event) : Option Client :=
  if ev.session = s then cl.apply ev else some cl

theorem fold_filter (s : Nat) (cl : Client) (events : List Event) :
    cl.fold (events.filter fun ev => ev.session = s) = events.foldlM (see s) cl := by
  induction events generalizing cl with
  | nil => rfl
  | cons ev events ih =>
    by_cases hs : ev.session = s
    · simp only [fold, hs, decide_true, List.filter_cons_of_pos, List.foldlM_cons, see, if_true] at ih ⊢
      exact congrArg _ (funext ih)
    · simp only [fold, hs, decide_false, Bool.false_eq_true, not_false_eq_true, List.filter_cons_of_neg,
        List.foldlM_cons, see, if_false] at ih ⊢
      exact ih cl

/-- The client changed what it holds under `id` to `h`, and closed no other order. -/
structure Moved (cl cl' : Client) (id : Nat) (h : Option Holding) : Prop where
  orders : cl'.orders = Function.update cl.orders id h
  closed : ∀ j, cl'.closed j = true → cl.closed j = true ∨ j = id

theorem moved_hold (cl : Client) (id : Nat) (h : Holding) : Moved cl (cl.hold id h) id (some h) :=
  ⟨rfl, fun _ => Or.inl⟩

theorem moved_close (cl : Client) (id : Nat) : Moved cl (cl.close id) id none := by
  refine ⟨rfl, fun j hj => ?_⟩
  by_cases heq : j = id
  · exact Or.inr heq
  · left
    simpa only [close, Function.update_of_ne heq] using hj

theorem moved_self {cl : Client} {id : Nat} {h : Option Holding} (hid : cl.orders id = h) : Moved cl cl id h :=
  ⟨by rw [← hid, Function.update_eq_self], fun _ => Or.inl⟩

end Client

/-- What session `s` holds of an order. -/
def Order.holding (s : Nat) (o : Order) : Option Holding :=
  if o.session = s ∧ o.qty ≠ 0 then some ⟨o.price, o.qty⟩ else none

/-! ### The client in front of each event -/

namespace Client

variable {s : Nat} {cl : Client} {o : Order}

theorem see_other {o' : Order} (ev : Event) (hsession : ev.session ≠ s) (horders : cl.orders o.id = o.holding s) (hs : o.session = ev.session)
    (hs' : o'.session = ev.session) :
    ∃ cl', cl.see s ev = some cl' ∧ Moved cl cl' o.id (o'.holding s) := by
  refine ⟨cl, if_neg hsession, moved_self ?_⟩
  rw [horders, Order.holding, Order.holding, hs, hs', if_neg (fun h => hsession h.1), if_neg (fun h => hsession h.1)]

theorem see_accepted (now : Nat) (hqty : o.qty ≠ 0) (hfresh : cl.orders o.id = none)
    (hopen : cl.closed o.id = false) :
    ∃ cl', cl.see s (Engine.base now .accepted o) = some cl' ∧ Moved cl cl' o.id (o.holding s) := by
  by_cases hsession : o.session = s
  · refine ⟨cl.hold o.id ⟨o.price, o.qty⟩, ?_, ?_⟩
    · simp [see, apply, Engine.base, hsession, hfresh, hopen]
    · rw [Order.holding, if_pos ⟨hsession, hqty⟩]
      exact moved_hold _ _ _
  · refine ⟨cl, ?_, moved_self ?_⟩
    · simp [see, Engine.base, hsession]
    · rw [hfresh, Order.holding, if_neg fun h => hsession h.1]

theorem see_fill (ev : Event) {x : Nat} (hkind : ev.kind = .fill) (hs : ev.session = o.session) (hid : ev.orderId = o.id)
    (hremaining : ev.remaining = o.qty - x) (hx : ev.qty = x) (hpos : 0 < x) (hle : x ≤ o.qty)
    (horders : cl.orders o.id = o.holding s) :
    ∃ cl', cl.see s ev = some cl' ∧ Moved cl cl' o.id ((o.trade x).holding s) := by
  by_cases hsession : o.session = s
  · have hholding : o.holding s = some ⟨o.price, o.qty⟩ := if_pos ⟨hsession, by omega⟩
    rw [hholding] at horders
    have happly : cl.see s ev = some (if ev.remaining = 0 then cl.close o.id else cl.hold o.id ⟨o.price, ev.remaining⟩) := by
      have hsum : o.qty = ev.remaining + ev.qty := by omega
      simp [see, apply, hkind, hs, hid, hsession, horders, ← hsum]
    refine ⟨_, happly, ?_⟩
    by_cases hzero : ev.remaining = 0
    · rw [if_pos hzero, Order.holding, if_neg (by simp [Order.trade]; omega)]
      exact moved_close _ _
    · rw [if_neg hzero, Order.holding, if_pos (by simp [Order.trade]; omega), hremaining]
      exact moved_hold _ _ _
  · exact see_other ev (fun h => hsession (hs ▸ h)) horders hs.symm hs.symm

theorem see_cancelled (now : Nat) (hqty : o.qty ≠ 0)
    (horders : cl.orders o.id = o.holding s) :
    ∃ cl', cl.see s (Engine.base now .cancelled o) = some cl' ∧ Moved cl cl' o.id none := by
  by_cases hsession : o.session = s
  · have hholding : o.holding s = some ⟨o.price, o.qty⟩ := if_pos ⟨hsession, hqty⟩
    rw [hholding] at horders
    refine ⟨cl.close o.id, ?_, moved_close _ _⟩
    simp [see, apply, Engine.base, hsession, horders]
  · refine ⟨cl, ?_, moved_self ?_⟩
    · simp [see, Engine.base, hsession]
    · rw [horders, Order.holding, if_neg fun h => hsession h.1]

theorem see_replaced (o' : Order) (now : Nat) (hid : o'.id = o.id) (hs : o'.session = o.session)
    (hqty : o.qty ≠ 0) (hqty' : o'.qty ≠ 0) (horders : cl.orders o.id = o.holding s) :
    ∃ cl', cl.see s (Engine.base now .replaced o') = some cl' ∧ Moved cl cl' o.id (o'.holding s) := by
  by_cases hsession : o.session = s
  · have hholding : o.holding s = some ⟨o.price, o.qty⟩ := if_pos ⟨hsession, hqty⟩
    rw [hholding] at horders
    refine ⟨cl.hold o.id ⟨o'.price, o'.qty⟩, ?_, ?_⟩
    · simp [see, apply, Engine.base, hs, hid, hsession, horders]
    · rw [Order.holding, if_pos ⟨hs.trans hsession, hqty'⟩]
      exact moved_hold _ _ _
  · exact see_other (Engine.base now .replaced o') (fun h => hsession (hs.symm.trans h)) horders hs.symm rfl

end Client

/-! ### Generations -/

/-- `pool'` comes after `pool`: slots are freed, and a live order stays until its slot is freed. -/
structure Later (pool pool' : OrderPool) : Prop where
  capacity : pool'.capacity = pool.capacity
  frees : ∀ i, pool.frees i ≤ pool'.frees i
  live : ∀ i, (pool.slots i).live = true → (pool'.slots i).live = true ∨ pool.frees i < pool'.frees i

theorem Later.refl (pool : OrderPool) : Later pool pool := ⟨rfl, fun _ => le_rfl, fun _ => Or.inl⟩

theorem Later.trans {pool pool' pool'' : OrderPool} (h : Later pool pool') (h' : Later pool' pool'') :
    Later pool pool'' := by
  refine ⟨h'.capacity.trans h.capacity, fun i => (h.frees i).trans (h'.frees i), fun i hlive => ?_⟩
  rcases h.live i hlive with hlive | hlt
  · exact (h'.live i hlive).imp_right fun hlt => lt_of_le_of_lt (h.frees i) hlt
  · exact Or.inr (lt_of_lt_of_le hlt (h'.frees i))

theorem Later.of_live {pool pool' : OrderPool} (hcapacity : pool'.capacity = pool.capacity)
    (hfrees : pool'.frees = pool.frees) (hlive : ∀ i, (pool.slots i).live = true → (pool'.slots i).live = true) :
    Later pool pool' :=
  ⟨hcapacity, fun i => by rw [hfrees], fun i hi => Or.inl (hlive i hi)⟩

theorem Later.of_free (pool : OrderPool) (i : Nat) : Later pool (pool.free i) := by
  refine ⟨rfl, fun j => ?_, fun j hj => ?_⟩
  · by_cases hji : j = i
    · simp [OrderPool.free, hji]
    · simp [OrderPool.free, hji]
  · by_cases hji : j = i
    · simp [OrderPool.free, hji]
    · rw [OrderPool.free_slots_of_ne _ hji]
      exact Or.inl hj

/-- No slot has used up its generations. -/
def Bounded (pool : OrderPool) : Prop := ∀ i < pool.capacity, pool.frees i < 2 ^ 32 - 1

theorem Later.bounded {pool pool' : OrderPool} (h : Later pool pool') (hbounded : Bounded pool') : Bounded pool :=
  fun i hi => lt_of_le_of_lt (h.frees i) (hbounded i (h.capacity ▸ hi))

theorem Fill.later {now i m : Nat} {w w' : Ledger} {rest : List Nat} {px : Int} {x : Nat} {pool : OrderPool}
    (h : Fill now i w w' m rest px x pool) : Later w.e.pool w'.e.pool := by
  have hseen : Later w.e.pool pool := by
    refine .of_live h.traded.capacity h.traded.frees fun j hj => ?_
    rw [(h.traded.slots j).read Order.live fun _ _ => rfl]
    split <;> exact hj
  rw [h.pool']
  split
  · exact hseen.trans (.of_free pool m)
  · exact hseen

theorem Fills.later {now i : Nat} {w w' : Ledger} {log : List Emission} (h : Fills now i w w' log) :
    Later w.e.pool w'.e.pool := by
  induction h with
  | refl => exact .refl _
  | head hfill _ ih => exact hfill.later.trans ih

theorem later_of_relinked {w w' : Ledger} (hslots : ∀ j, Relinked (w.e.pool.slots j) (w'.e.pool.slots j))
    (hcapacity : w'.e.pool.capacity = w.e.pool.capacity) (hfrees : w'.e.pool.frees = w.e.pool.frees) :
    Later w.e.pool w'.e.pool := by
  refine .of_live hcapacity hfrees fun j hj => ?_
  rwa [(hslots j).read Order.live fun _ _ => rfl]

theorem later_of_modify {i : Nat} {f : Order → Order} {w w' : Ledger} (hpool : w'.e.pool = w.e.pool.modify i f)
    (hf : ∀ o, (f o).live = o.live) : Later w.e.pool w'.e.pool := by
  rw [hpool]
  refine .of_live rfl rfl fun j hj => ?_
  rw [OrderPool.modify_slots]
  split
  · rwa [hf]
  · exact hj

theorem Ended.later {now i : Nat} {w w' : Ledger} {log : List Emission} (h : Ended now i w w' log) :
    Later w.e.pool w'.e.pool := by
  cases h with
  | done _ hfreed => exact hfreed.pool' ▸ .of_free _ _
  | killed _ _ hfreed => exact hfreed.pool' ▸ .of_free _ _
  | rested _ _ _ hrested => exact later_of_relinked hrested.slots hrested.capacity hrested.frees

theorem Admitted.later {c : Command} {i : Nat} {w w' : Ledger} (h : Admitted c i w w') : Later w.e.pool w'.e.pool := by
  refine .of_live h.capacity h.frees fun j hj => ?_
  rw [h.slots']
  by_cases hji : j = i
  · rw [hji, Function.update_self]
    rfl
  · rwa [Function.update_of_ne hji]

theorem Matched.later {now i : Nat} {w w' : Ledger} {log : List Emission} (h : Matched now i w w' log) :
    Later w.e.pool w'.e.pool := by
  obtain ⟨hfills, _, hended⟩ := h
  exact hfills.later.trans hended.later

theorem Processed.later {now : Nat} {c : Command} {w w' : Ledger} {log : List Emission} (h : Processed now c w w' log) :
    Later w.e.pool w'.e.pool := by
  cases h with
  | refused _ hidle => exact hidle.pool' ▸ .refl _
  | accepted _ hadmitted hmatched => exact hadmitted.later.trans hmatched.later
  | cancelled _ _ htaken hfreed =>
    exact (later_of_relinked htaken.slots htaken.capacity htaken.frees).trans (hfreed.pool' ▸ .of_free _ _)
  | reduced _ _ _ hreduced => exact later_of_modify hreduced.pool' fun _ => rfl
  | replaced _ _ htaken hrepriced hmatched =>
    exact (later_of_relinked htaken.slots htaken.capacity htaken.frees).trans
      ((later_of_modify hrepriced.pool' fun _ => rfl).trans hmatched.later)

/-- `id` has been given out: under an earlier generation of its slot, or under the current one of a live slot. -/
def Issued (pool : OrderPool) (id : Nat) : Prop :=
  ∃ i < pool.capacity, ∃ g, id = OrderPool.idOf g i ∧
    (g ≤ pool.frees i ∨ g = pool.frees i + 1 ∧ (pool.slots i).live = true)

theorem Issued.later {pool pool' : OrderPool} {id : Nat} (h : Issued pool id) (hlater : Later pool pool') :
    Issued pool' id := by
  obtain ⟨i, hlt, g, hid, hgen⟩ := h
  refine ⟨i, hlater.capacity ▸ hlt, g, hid, ?_⟩
  have hfrees := hlater.frees i
  rcases hgen with hle | ⟨hgen, hlive⟩
  · exact Or.inl (hle.trans hfrees)
  · rcases hlater.live i hlive with hlive | hlt
    · by_cases heq : pool'.frees i = pool.frees i
      · exact Or.inr ⟨by rw [hgen, heq], hlive⟩
      · exact Or.inl (by omega)
    · exact Or.inl (by omega)

/-- While generations last, a slot's generation is one more than the number of times it was freed. -/
theorem Ledger.gen_eq (w : Ledger) (hbounded : Bounded w.e.pool) {i : Nat} (hlt : i < w.e.pool.capacity) :
    (w.e.pool.slots i).gen = w.e.pool.frees i + 1 := by
  rw [w.rep.gen i hlt, Nat.mod_eq_of_lt (hbounded i hlt)]

theorem Ledger.issued (w : Ledger) (hbounded : Bounded w.e.pool) {i : Nat} (hlt : i < w.e.pool.capacity)
    (hlive : (w.e.pool.slots i).live = true) : Issued w.e.pool (w.e.pool.slots i).id :=
  ⟨i, hlt, _, w.rep.id i hlt hlive, Or.inr ⟨w.gen_eq hbounded hlt, hlive⟩⟩

/-- The next identifier of a free slot is new. -/
theorem Ledger.not_issued (w : Ledger) (hbounded : Bounded w.e.pool) {i : Nat} (hlt : i < w.e.pool.capacity)
    (hdead : (w.e.pool.slots i).live = false) :
    ¬ Issued w.e.pool (OrderPool.idOf (w.e.pool.slots i).gen i) := by
  rintro ⟨j, hj, g, hid, hgen⟩
  obtain ⟨hg, hij⟩ := OrderPool.idOf_inj (w.rep.lt_word32 hlt) (w.rep.lt_word32 hj) hid
  subst hij
  rw [w.gen_eq hbounded hlt] at hg
  rcases hgen with hle | ⟨_, hlive⟩
  · omega
  · rw [hdead] at hlive
    exact absurd hlive (by decide)

/-! ### The client and the pool -/

/-- The client of session `s` holds what the live orders of the pool have left. -/
structure Tracks (s : Nat) (cl : Client) (pool : OrderPool) : Prop where
  live : ∀ i < pool.capacity, (pool.slots i).live = true → cl.orders (pool.slots i).id = (pool.slots i).holding s
  dead : ∀ id, (∀ i < pool.capacity, (pool.slots i).live = true → (pool.slots i).id ≠ id) → cl.orders id = none

theorem Tracks.moved {s i id : Nat} {cl cl' : Client} {h : Option Holding} {pool pool' : OrderPool}
    (htracks : Tracks s cl pool) (hmoved : cl.Moved cl' id h) (hcapacity : pool'.capacity = pool.capacity)
    (hother : ∀ j, j ≠ i → (pool'.slots j).live = (pool.slots j).live ∧ (pool'.slots j).id = (pool.slots j).id ∧
      (pool'.slots j).holding s = (pool.slots j).holding s)
    (hunique : ∀ j < pool.capacity, j ≠ i → (pool.slots j).live = true → (pool.slots j).id ≠ id)
    (hbefore : (pool.slots i).live = true → (pool.slots i).id = id)
    (hself : i < pool.capacity ∧ (pool'.slots i).live = true ∧ (pool'.slots i).id = id ∧ (pool'.slots i).holding s = h ∨
      (pool'.slots i).live = false ∧ h = none) :
    Tracks s cl' pool' := by
  constructor
  case live =>
    intro j hlt hlive
    rw [hcapacity] at hlt
    rw [hmoved.orders]
    by_cases hji : j = i
    · subst hji
      rcases hself with ⟨_, _, hid, hholding⟩ | ⟨hdead, _⟩
      · rw [hid, Function.update_self, hholding]
      · rw [hlive] at hdead
        exact absurd hdead (by decide)
    · obtain ⟨hlive', hid, hholding⟩ := hother j hji
      rw [hlive'] at hlive
      rw [hid, hholding, Function.update_of_ne (hunique j hlt hji hlive)]
      exact htracks.live j hlt hlive
  case dead =>
    intro id' hnone
    rw [hcapacity] at hnone
    rw [hmoved.orders]
    by_cases heq : id' = id
    · rw [heq, Function.update_self]
      rcases hself with ⟨hlt, hlive, hid, _⟩ | ⟨_, hh⟩
      · exact absurd (hid.trans heq.symm) (hnone i hlt hlive)
      · exact hh
    · rw [Function.update_of_ne heq]
      refine htracks.dead id' fun j hlt hlive => ?_
      by_cases hji : j = i
      · subst hji
        rw [hbefore hlive]
        exact Ne.symm heq
      · obtain ⟨hlive', hid, _⟩ := hother j hji
        rw [← hid]
        exact hnone j hlt (hlive'.trans hlive)

theorem Order.holding_relinked {s : Nat} {o o' : Order} (h : Relinked o o') : o'.holding s = o.holding s :=
  h.read (Order.holding s) fun _ _ => rfl

theorem Tracks.congr {s : Nat} {cl : Client} {pool pool' : OrderPool} (h : Tracks s cl pool)
    (hcapacity : pool'.capacity = pool.capacity) (hslots : ∀ j, Relinked (pool.slots j) (pool'.slots j)) :
    Tracks s cl pool' := by
  have hlive : ∀ j, (pool'.slots j).live = (pool.slots j).live := fun j => (hslots j).read _ fun _ _ => rfl
  have hid : ∀ j, (pool'.slots j).id = (pool.slots j).id := fun j => (hslots j).read _ fun _ _ => rfl
  constructor
  case live =>
    intro i hlt hi
    rw [hid, Order.holding_relinked (hslots i)]
    exact h.live i (hcapacity ▸ hlt) (hlive i ▸ hi)
  case dead =>
    intro id hnone
    refine h.dead id fun i hlt hi => ?_
    rw [← hid]
    exact hnone i (hcapacity.symm ▸ hlt) ((hlive i).trans hi)

/-! ### The client along a command -/

/-- The client of session `s` and the ledger agree, and every order it has closed had been issued. -/
structure InStep (s : Nat) (cl : Client) (w : Ledger) : Prop where
  tracks : Tracks s cl w.e.pool
  closed : ∀ id, cl.closed id = true → Issued w.e.pool id

/-- The client of session `s` gets through these events. -/
def Follows (s : Nat) (cl : Client) (log : List Emission) (w' : Ledger) : Prop :=
  ∃ cl', (log.map Emission.event).foldlM (Client.see s) cl = some cl' ∧ InStep s cl' w'

theorem Follows.cons {s : Nat} {cl cl' : Client} {t : Emission} {log : List Emission} {w' : Ledger}
    (hsee : cl.see s t.event = some cl') (h : Follows s cl' log w') : Follows s cl (t :: log) w' := by
  obtain ⟨cl'', hfold, hin⟩ := h
  refine ⟨cl'', ?_, hin⟩
  rw [List.map_cons, List.foldlM_cons, hsee]
  exact hfold

theorem Follows.append {s : Nat} {cl cl' : Client} {log log' : List Emission} {w' : Ledger}
    (hfold : (log.map Emission.event).foldlM (Client.see s) cl = some cl') (h : Follows s cl' log' w') :
    Follows s cl (log ++ log') w' := by
  obtain ⟨cl'', hfold', hin⟩ := h
  refine ⟨cl'', ?_, hin⟩
  rw [List.map_append, List.foldlM_append, hfold]
  exact hfold'

theorem Client.see_ignored {s : Nat} {cl : Client} {ev : Event}
    (hkind : ev.kind = .rejected ∨ ev.kind = .trade ∨ ev.kind = .top) : cl.see s ev = some cl := by
  rw [see]
  split
  · rcases hkind with hkind | hkind | hkind <;> rw [apply, hkind]
  · rfl

/-- An exhausted maker is freed; the client has dropped it already. -/
theorem Fill.tracks {now i m s : Nat} {w w' : Ledger} {rest : List Nat} {px : Int} {x : Nat} {pool : OrderPool}
    {cl : Client} (h : Fill now i w w' m rest px x pool) (htracks : Tracks s cl pool) : Tracks s cl w'.e.pool := by
  have hmaker := h.queued
  have hlive := h.seen_read Order.live (fun _ _ _ => rfl) fun _ _ => rfl
  have hid := h.seen_read Order.id (fun _ _ _ => rfl) fun _ _ => rfl
  rw [h.pool']
  split
  · rename_i hzero
    have hnone : (pool.slots m).holding s = none := if_neg fun hh => hh.2 hzero
    have hmlt : m < pool.capacity := h.traded.capacity ▸ hmaker.lt
    have hmlive : (pool.slots m).live = true := (hlive m).trans hmaker.live
    refine htracks.moved (i := m) (Client.moved_self ((htracks.live m hmlt hmlive).trans hnone)) rfl (fun j hj => ?_)
      (fun j hlt hj hl heq => ?_) (fun _ => rfl) (Or.inr ⟨?_, rfl⟩)
    · rw [OrderPool.free_slots_of_ne _ hj]
      exact ⟨rfl, rfl, rfl⟩
    · rw [hid, hid] at heq
      exact hj (w.rep.id_inj (h.traded.capacity ▸ hlt) hmaker.lt (hlive j ▸ hl) hmaker.live heq)
    · rw [OrderPool.free_slots_self]
  · exact htracks

theorem Fill.follows {now i m s : Nat} {w w' : Ledger} {rest : List Nat} {px : Int} {x : Nat} {pool : OrderPool}
    {cl : Client} (h : Fill now i w w' m rest px x pool) (hin : InStep s cl w) (hbounded : Bounded w.e.pool) :
    Follows s cl (fillEmissions now m i px x pool) w' := by
  have hmaker := h.queued
  have htaker := w.rep.loose_mem i (by simp [h.loose])
  have hamount := h.amount
  have hpos := h.amount_pos
  have hlive := h.seen_read Order.live (fun _ _ _ => rfl) fun _ _ => rfl
  have hid := h.seen_read Order.id (fun _ _ _ => rfl) fun _ _ => rfl
  have hsession := h.seen_read Order.session (fun _ _ _ => rfl) fun _ _ => rfl
  have hunique : ∀ {a b : Nat}, a < w.e.pool.capacity → b < w.e.pool.capacity → a ≠ b →
      (w.e.pool.slots a).live = true → (w.e.pool.slots b).live = true →
      (w.e.pool.slots a).id ≠ (w.e.pool.slots b).id :=
    fun ha hb hne hlive hlive' heq => hne (w.rep.id_inj ha hb hlive hlive' heq)
  -- The maker's fill.
  obtain ⟨cl₁, hsee₁, hmoved₁⟩ := Client.see_fill (s := s)
    { Engine.base now .fill (pool.slots m) with maker := true, price := px, qty := x }
    rfl (hsession m) (hid m) h.maker_seen.qty rfl hpos (by omega) (hin.tracks.live m hmaker.lt hmaker.live)
  have htracks₁ : Tracks s cl₁ (w.e.pool.modify m (Order.trade · x)) := by
    refine hin.tracks.moved (i := m) hmoved₁ rfl (fun j hj => ?_)
      (fun j hlt hj hl => hunique hlt hmaker.lt hj hl hmaker.live) (fun _ => rfl) (Or.inl ⟨hmaker.lt, ?_⟩)
    · rw [OrderPool.modify_slots, if_neg hj]
      exact ⟨rfl, rfl, rfl⟩
    · rw [OrderPool.modify_slots, if_pos rfl]
      exact ⟨hmaker.live, rfl, rfl⟩
  -- The taker's fill.
  have htaker₁ : (w.e.pool.modify m (Order.trade · x)).slots i = w.e.pool.slots i := by
    rw [OrderPool.modify_slots, if_neg h.ne.symm]
  obtain ⟨cl₂, hsee₂, hmoved₂⟩ := Client.see_fill (s := s)
    { Engine.base now .fill (pool.slots i) with price := px, qty := x }
    rfl (hsession i) (hid i) h.taker_seen.qty rfl hpos (by omega)
    (htaker₁ ▸ htracks₁.live i htaker.1 (htaker₁.symm ▸ htaker.2.1))
  have hids₁ : ∀ j, ((w.e.pool.modify m (Order.trade · x)).slots j).id = (w.e.pool.slots j).id ∧
      ((w.e.pool.modify m (Order.trade · x)).slots j).live = (w.e.pool.slots j).live := by
    intro j
    rw [OrderPool.modify_slots]
    split <;> exact ⟨rfl, rfl⟩
  have htracks₂ : Tracks s cl₂ pool := by
    refine htracks₁.moved (i := i) hmoved₂ h.traded.capacity (fun j hj => ⟨?_, ?_, ?_⟩) (fun j hlt hj hl => ?_)
      (fun _ => congrArg Order.id htaker₁) (Or.inl ⟨htaker.1, (hlive i).trans htaker.2.1, hid i, ?_⟩)
    · rw [hlive, (hids₁ j).2]
    · rw [hid, (hids₁ j).1]
    · have hslot := h.traded.slots j
      rw [Order.holding_relinked hslot, OrderPool.modify_slots]
      by_cases hjm : j = m
      · rw [if_pos (Or.inl hjm), if_pos hjm]
      · rw [if_neg (by simp [hjm, hj]), if_neg hjm]
    · rw [(hids₁ j).1]
      exact hunique hlt htaker.1 hj ((hids₁ j).2 ▸ hl) htaker.2.1
    · exact Order.holding_relinked h.taker_seen
  refine .cons hsee₁ (.cons hsee₂ (.cons (Client.see_ignored (Or.inr (Or.inl rfl))) ⟨cl₂, rfl, h.tracks htracks₂, fun id hclosed => ?_⟩))
  refine Issued.later ?_ h.later
  rcases hmoved₂.closed id hclosed with hclosed | rfl
  · rcases hmoved₁.closed id hclosed with hclosed | rfl
    · exact hin.closed id hclosed
    · exact w.issued hbounded hmaker.lt hmaker.live
  · exact w.issued hbounded htaker.1 htaker.2.1

theorem Fills.follows {now i s : Nat} {w w' : Ledger} {log : List Emission} (h : Fills now i w w' log) (cl : Client)
    (hin : InStep s cl w) (hbounded : Bounded w'.e.pool) : Follows s cl log w' := by
  induction h generalizing cl with
  | refl => exact ⟨cl, rfl, hin⟩
  | head hfill hfills ih =>
    have hbounded₁ := hfills.later.bounded hbounded
    obtain ⟨cl₁, hfold, hin₁⟩ := hfill.follows hin (hfill.later.bounded hbounded₁)
    exact .append hfold (ih cl₁ hin₁ hbounded)

theorem Freed.inStep {i s : Nat} {cl cl' : Client} {w w' : Ledger} (h : Freed i w w') (hin : InStep s cl w)
    (hmoved : cl.Moved cl' (w.e.pool.slots i).id none) (hbounded : Bounded w.e.pool) : InStep s cl' w' := by
  obtain ⟨hlt, hlive, _⟩ := w.rep.loose_mem i (by simp [h.loose])
  constructor
  · rw [h.pool']
    refine hin.tracks.moved (i := i) hmoved rfl (fun j hj => ?_)
      (fun j hjlt hj hl heq => hj (w.rep.id_inj hjlt hlt hl hlive heq)) (fun _ => rfl) (Or.inr ⟨?_, rfl⟩)
    · rw [OrderPool.free_slots_of_ne _ hj]
      exact ⟨rfl, rfl, rfl⟩
    · rw [OrderPool.free_slots_self]
  · intro id hclosed
    rw [h.pool']
    refine Issued.later ?_ (.of_free _ _)
    rcases hmoved.closed id hclosed with hclosed | rfl
    · exact hin.closed id hclosed
    · exact w.issued hbounded hlt hlive

theorem InStep.relinked {s : Nat} {cl : Client} {w w' : Ledger} (h : InStep s cl w)
    (hslots : ∀ j, Relinked (w.e.pool.slots j) (w'.e.pool.slots j))
    (hcapacity : w'.e.pool.capacity = w.e.pool.capacity) (hfrees : w'.e.pool.frees = w.e.pool.frees) : InStep s cl w' :=
  ⟨h.tracks.congr hcapacity hslots,
    fun id hclosed => (h.closed id hclosed).later (later_of_relinked hslots hcapacity hfrees)⟩

theorem InStep.modified {i s : Nat} {cl cl' : Client} {f : Order → Order} {w w' : Ledger} (h : InStep s cl w)
    (hlt : i < w.e.pool.capacity) (hlive : (w.e.pool.slots i).live = true) (hpool : w'.e.pool = w.e.pool.modify i f)
    (hf : ∀ o, (f o).live = o.live ∧ (f o).id = o.id)
    (hmoved : cl.Moved cl' (w.e.pool.slots i).id ((w'.e.pool.slots i).holding s)) (hbounded : Bounded w.e.pool) :
    InStep s cl' w' := by
  constructor
  · rw [hpool] at hmoved ⊢
    refine h.tracks.moved (i := i) hmoved rfl (fun j hj => ?_)
      (fun j hjlt hj hl heq => hj (w.rep.id_inj hjlt hlt hl hlive heq)) (fun _ => rfl) (Or.inl ⟨hlt, ?_, ?_, rfl⟩)
    · rw [OrderPool.modify_slots, if_neg hj]
      exact ⟨rfl, rfl, rfl⟩
    · rw [OrderPool.modify_slots, if_pos rfl, (hf _).1, hlive]
    · rw [OrderPool.modify_slots, if_pos rfl, (hf _).2]
  · intro id hclosed
    refine Issued.later ?_ (later_of_modify hpool fun o => (hf o).1)
    rcases hmoved.closed id hclosed with hclosed | rfl
    · exact h.closed id hclosed
    · exact w.issued hbounded hlt hlive

theorem Ended.follows {now i s : Nat} {cl : Client} {w w' : Ledger} {log : List Emission} (h : Ended now i w w' log)
    (hin : InStep s cl w) (hbounded : Bounded w'.e.pool) : Follows s cl log w' := by
  have hbounded₀ := h.later.bounded hbounded
  have htracks : w.loose = [i] → cl.orders (w.e.pool.slots i).id = (w.e.pool.slots i).holding s := by
    intro hloose
    obtain ⟨hlt, hlive, _⟩ := w.rep.loose_mem i (by simp [hloose])
    exact hin.tracks.live i hlt hlive
  cases h with
  | done hqty hfreed =>
    have hnone : (w.e.pool.slots i).holding s = none := if_neg fun h => h.2 hqty
    exact ⟨cl, rfl, hfreed.inStep hin (Client.moved_self ((htracks hfreed.loose).trans hnone)) hbounded₀⟩
  | killed hqty _ hfreed =>
    obtain ⟨cl', hsee, hmoved⟩ := Client.see_cancelled (s := s) (o := w.e.pool.slots i) now hqty (htracks hfreed.loose)
    exact .cons hsee ⟨cl', rfl, hfreed.inStep hin hmoved hbounded₀⟩
  | rested _ _ _ hrested => exact ⟨cl, rfl, hin.relinked hrested.slots hrested.capacity hrested.frees⟩

theorem Matched.follows {now i s : Nat} {cl : Client} {w w' : Ledger} {log : List Emission} (h : Matched now i w w' log)
    (hin : InStep s cl w) (hbounded : Bounded w'.e.pool) : Follows s cl log w' := by
  obtain ⟨hfills, _, hended⟩ := h
  obtain ⟨cl₁, hfold, hin₁⟩ := hfills.follows cl hin (hended.later.bounded hbounded)
  exact .append hfold (hended.follows hin₁ hbounded)

theorem Admitted.follows {now i s : Nat} {c : Command} {cl : Client} {w w' : Ledger} (h : Admitted c i w w')
    (hqty : c.qty ≠ 0) (hin : InStep s cl w) (hbounded : Bounded w.e.pool) :
    ∃ cl', cl.see s (Engine.base now .accepted (w'.e.pool.slots i)) = some cl' ∧ InStep s cl' w' := by
  obtain ⟨hlt, hdead⟩ := w.rep.free_mem i (by simp [h.free])
  have hnew := w.not_issued hbounded hlt hdead
  have hslot : w'.e.pool.slots i = c.order (w.e.pool.slots i).gen i := by
    rw [h.slots', Function.update_self]
  have hfresh : ∀ j < w.e.pool.capacity, (w.e.pool.slots j).live = true →
      (w.e.pool.slots j).id ≠ OrderPool.idOf (w.e.pool.slots i).gen i :=
    fun j hj hlive heq => hnew (heq ▸ w.issued hbounded hj hlive)
  have hopen : cl.closed (OrderPool.idOf (w.e.pool.slots i).gen i) = false :=
    Bool.eq_false_iff.mpr fun hclosed => hnew (hin.closed _ hclosed)
  obtain ⟨cl', hsee, hmoved⟩ := Client.see_accepted (s := s) (o := c.order (w.e.pool.slots i).gen i)
    now hqty (hin.tracks.dead _ hfresh) hopen
  rw [hslot]
  refine ⟨cl', hsee, ?_, fun id hclosed => ?_⟩
  · refine hin.tracks.moved (i := i) hmoved h.capacity (fun j hj => ?_) (fun j hj _ => hfresh j hj)
      (fun hlive => ?_) (Or.inl ⟨hlt, ?_⟩)
    · rw [h.slots', Function.update_of_ne hj]
      exact ⟨rfl, rfl, rfl⟩
    · rw [hdead] at hlive
      exact absurd hlive (by decide)
    · rw [hslot]
      exact ⟨rfl, rfl, rfl⟩
  · rcases hmoved.closed id hclosed with hclosed | rfl
    · exact (hin.closed id hclosed).later h.later
    · refine ⟨i, h.capacity ▸ hlt, _, rfl, Or.inr ⟨?_, by rw [hslot]; rfl⟩⟩
      rw [w.gen_eq hbounded hlt, h.frees]

theorem Processed.follows {now s : Nat} {c : Command} {cl : Client} {w w' : Ledger} {log : List Emission}
    (h : Processed now c w w' log) (hin : InStep s cl w) (hbounded : Bounded w'.e.pool) : Follows s cl log w' := by
  have hbounded₀ := h.later.bounded hbounded
  cases h with
  | refused _ hidle =>
    refine .cons (Client.see_ignored (Or.inl rfl)) ⟨cl, rfl, ?_, ?_⟩
    · rw [hidle.pool']
      exact hin.tracks
    · rw [hidle.pool']
      exact hin.closed
  | accepted hnew hadmitted hmatched =>
    obtain ⟨cl₁, hsee, hin₁⟩ := hadmitted.follows hnew.qty hin hbounded₀
    exact .cons hsee (hmatched.follows hin₁ hbounded)
  | @cancelled i w₁ _ howned htaken hfreed =>
    have hin₁ := hin.relinked htaken.slots htaken.capacity htaken.frees
    have hlive : (w₁.e.pool.slots i).live = true := by
      rw [(htaken.slots i).read Order.live fun _ _ => rfl, howned.live]
    have hqty : (w₁.e.pool.slots i).qty ≠ 0 := by
      rw [(htaken.slots i).qty]
      exact (w.pos _ _ _ i htaken.mem).ne'
    obtain ⟨cl', hsee, hmoved⟩ := Client.see_cancelled (s := s) (o := w₁.e.pool.slots i) now hqty
      (hin₁.tracks.live i (htaken.capacity.symm ▸ howned.lt) hlive)
    refine .cons hsee ⟨cl', rfl, hfreed.inStep hin₁ hmoved ?_⟩
    exact (hfreed.pool' ▸ Later.of_free _ _ : Later w₁.e.pool w'.e.pool).bounded hbounded
  | @reduced i hreplaces _ _ hreduced =>
    obtain ⟨hlt, hlive, _, _⟩ := hreplaces.owned
    have hslot := hreduced.slot
    obtain ⟨cl', hsee, hmoved⟩ := Client.see_replaced (s := s) (w'.e.pool.slots i) now
      (by rw [hslot]) (by rw [hslot]) (w.pos _ _ _ i hreduced.mem).ne' (by rw [hslot]; exact hreplaces.qty)
      (hin.tracks.live i hlt hlive)
    exact .cons hsee ⟨cl', rfl, hin.modified hlt hlive hreduced.pool' (fun _ => ⟨rfl, rfl⟩) hmoved hbounded₀⟩
  | @replaced i w₁ w₂ log hreplaces _ htaken hrepriced hmatched =>
    obtain ⟨hlt, hlive, _, _⟩ := hreplaces.owned
    have hin₁ := hin.relinked htaken.slots htaken.capacity htaken.frees
    have hlt₁ : i < w₁.e.pool.capacity := htaken.capacity.symm ▸ hlt
    have hlive₁ : (w₁.e.pool.slots i).live = true := by
      rw [(htaken.slots i).read Order.live fun _ _ => rfl, hlive]
    have hqty₁ : (w₁.e.pool.slots i).qty ≠ 0 := by
      rw [(htaken.slots i).qty]
      exact (w.pos _ _ _ i htaken.mem).ne'
    have hslot := hrepriced.slot
    obtain ⟨cl', hsee, hmoved⟩ := Client.see_replaced (s := s) (w₂.e.pool.slots i) now
      (by rw [hslot]) (by rw [hslot]) hqty₁ (by rw [hslot]; exact hreplaces.qty) (hin₁.tracks.live i hlt₁ hlive₁)
    have hlater : Later w₁.e.pool w₂.e.pool := later_of_modify hrepriced.pool' fun _ => rfl
    have hin₂ := hin₁.modified hlt₁ hlive₁ hrepriced.pool' (fun _ => ⟨rfl, rfl⟩) hmoved
      ((hlater.trans hmatched.later).bounded hbounded)
    exact .cons hsee (hmatched.follows hin₂ hbounded)

/-! ### Runs -/

theorem Ledger.run_later (w : Ledger) (hloose : w.loose = []) (cmds : List (Nat × Command)) :
    Later w.e.pool (w.e.run cmds).pool := by
  obtain ⟨w', hw', _, hlater⟩ := Ledger.run_inv (P := fun w' => Later w.e.pool w'.e.pool)
    (fun _ hlater hprocessed => hlater.trans hprocessed.later) cmds w hloose (.refl _)
  rwa [hw'] at hlater

theorem Ledger.run_follows {s : Nat} (cmds : List (Nat × Command)) (w : Ledger) (hloose : w.loose = []) (cl : Client)
    (hin : InStep s cl w) (hbounded : Bounded (w.e.run cmds).pool) :
    ∃ w', w'.e = w.e.run cmds ∧ w'.loose = [] ∧ Follows s cl (w.e.log cmds) w' := by
  induction cmds generalizing w cl with
  | nil => exact ⟨w, rfl, hloose, cl, rfl, hin⟩
  | cons cmd cmds ih =>
    obtain ⟨now, c⟩ := cmd
    obtain ⟨w₁, log, tops, hprocessed, hw₁, hlog, htops⟩ := w.process hloose now c
    have hloose₁ := hprocessed.loose hloose
    have hbounded₁ : Bounded (w₁.e.run cmds).pool := hw₁.symm ▸ hbounded
    obtain ⟨cl₁, hfold, hin₁⟩ := hprocessed.follows hin ((w₁.run_later hloose₁ cmds).bounded hbounded₁)
    have htops' : (tops.map Emission.event).foldlM (Client.see s) cl₁ = some cl₁ := by
      clear hlog
      induction tops with
      | nil => rfl
      | cons t tops ih =>
        rw [List.map_cons, List.foldlM_cons, Client.see_ignored (Or.inr (Or.inr (htops t (by simp)).1))]
        exact ih fun u hu => htops u (by simp [hu])
    obtain ⟨w', hw', hloose', hfollows⟩ := ih w₁ hloose₁ cl₁ hin₁ hbounded₁
    rw [hw₁] at hw' hfollows
    refine ⟨w', hw', hloose', ?_⟩
    change Follows s cl ((w.e.process now c).2 ++ _) w'
    rw [hlog, List.append_assoc]
    exact .append hfold (.append htops' hfollows)

/-- The client holds exactly the live orders of session `s`, at their prices and with what remains of them. -/
def Client.Exact (s : Nat) (cl : Client) (pool : OrderPool) : Prop :=
  ∀ id h, cl.orders id = some h ↔ ∃ i < pool.capacity, (pool.slots i).live = true ∧ (pool.slots i).session = s ∧
    (pool.slots i).id = id ∧ (pool.slots i).price = h.price ∧ (pool.slots i).qty = h.qty

theorem InStep.exact {s : Nat} {cl : Client} {w : Ledger} (h : InStep s cl w) (hloose : w.loose = []) :
    cl.Exact s w.e.pool := by
  intro id x
  constructor
  · intro hx
    by_cases hnone : ∀ i < w.e.pool.capacity, (w.e.pool.slots i).live = true → (w.e.pool.slots i).id ≠ id
    · rw [h.tracks.dead id hnone] at hx
      exact absurd hx (by simp)
    · push Not at hnone
      obtain ⟨i, hlt, hlive, rfl⟩ := hnone
      rw [h.tracks.live i hlt hlive, Order.holding] at hx
      split at hx
      · rename_i hmine
        cases hx
        exact ⟨i, hlt, hlive, hmine.1, rfl, rfl, rfl⟩
      · exact absurd hx (by simp)
  · rintro ⟨i, hlt, hlive, hsession, rfl, hprice, hqty⟩
    have hpos := w.pos _ _ _ i ((w.mem_iff hloose i _ _ _).mpr ⟨hlt, hlive, rfl, rfl, rfl⟩)
    rw [h.tracks.live i hlt hlive, Order.holding, if_pos ⟨hsession, hpos.ne'⟩, hprice, hqty]

/-- In every run of a fresh engine in which no slot is freed `2 ^ 32 - 1` times, the client of every session gets through the events addressed to it and then holds exactly its live orders. -/
theorem Engine.run_client (cfg : Engine.Config) (cmds : List (Nat × Command))
    (hfrees : ∀ i < cfg.maxOrders, ((Engine.init cfg).run cmds).pool.frees i < 2 ^ 32 - 1) (s : Nat) :
    ∃ cl, Client.fold {} ((((Engine.init cfg).log cmds).map Emission.event).filter fun ev => ev.session = s) = some cl ∧
      cl.Exact s ((Engine.init cfg).run cmds).pool := by
  have hlater := (Ledger.init cfg).run_later rfl cmds
  have hcapacity : ((Engine.init cfg).run cmds).pool.capacity = cfg.maxOrders := hlater.capacity
  have hin : InStep s {} (Ledger.init cfg) :=
    ⟨⟨fun _ _ hlive => absurd hlive (by simp [Ledger.init, Engine.init, OrderPool.init]), fun _ _ => rfl⟩,
      fun _ hclosed => absurd hclosed (by simp)⟩
  obtain ⟨w, hw, hloose, cl, hfold, hin'⟩ := Ledger.run_follows cmds (Ledger.init cfg) rfl {} hin
    (fun i hi => hfrees i (hcapacity ▸ hi))
  refine ⟨cl, by rw [Client.fold_filter]; exact hfold, ?_⟩
  have hexact := hin'.exact hloose
  rwa [hw] at hexact

/-- Session 1 sells four, session 2 buys one of them; session 1 is left with three. -/
theorem Engine.run_client_partial_fill :
    ∃ cl, Client.fold {} ((((Engine.init { maxPrice := 5, maxOrders := 2 }).log
        [(0, { side := .sell, session := 1, price := 4, qty := 4 }),
          (0, { session := 2, price := 4, qty := 1 })]).map Emission.event).filter fun ev => ev.session = 1) = some cl ∧
      cl.Exact 1 ((Engine.init { maxPrice := 5, maxOrders := 2 }).run
        [(0, { side := .sell, session := 1, price := 4, qty := 4 }), (0, { session := 2, price := 4, qty := 1 })]).pool :=
  Engine.run_client { maxPrice := 5, maxOrders := 2 } _ (by decide +kernel) 1

end Matchbox
