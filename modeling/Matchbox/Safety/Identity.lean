import Matchbox.Safety.Consistent

/-!
# An identifier is an order for life

An identifier is the generation of a slot and the slot. Counting per slot how many identifiers were given out and how many of them have ended says everything about the log of a run: the identifiers of its Accepted events are the generations up to the first count, each once, and the orders that have had a last event are the generations up to the second. Between commands the two counts of a slot differ by one exactly when the slot is live, so that `find` knows the orders that were accepted and have not ended.

The last fill of an order is reported before its slot is freed. So within a command an order with nothing left counts as ended.
-/

namespace Matchbox

/-! ### Identifiers in a log -/

/-- The event that issues the identifier `id`. -/
def Emission.Accepts (t : Emission) (id : Nat) : Prop := t.event.kind = .accepted ∧ t.event.orderId = id

/-- The last event of the order `id`. -/
def Emission.Ends (t : Emission) (id : Nat) : Prop :=
  (t.event.kind = .cancelled ∨ t.event.kind = .fill ∧ t.event.remaining = 0) ∧ t.event.orderId = id

/-- What an order keeps for life, with its identifier. -/
def Order.label (o : Order) : Nat × Nat × Side × Nat := (o.session, o.symbol, o.side, o.tag)

def Event.label (ev : Event) : Nat × Nat × Side × Nat := (ev.session, ev.symbol, ev.side, ev.tag)

/-- The identifiers of the Accepted events. -/
def issued (log : List Emission) : List Nat :=
  (log.filter fun t => t.event.kind = .accepted).map fun t => t.event.orderId

theorem mem_issued {log : List Emission} {id : Nat} : id ∈ issued log ↔ ∃ t ∈ log, t.Accepts id := by
  simp only [issued, List.mem_map, List.mem_filter, decide_eq_true_eq, Emission.Accepts]
  constructor
  · intro h
    obtain ⟨t, ⟨ht, hkind⟩, hid⟩ := h
    exact ⟨t, ht, hkind, hid⟩
  · intro h
    obtain ⟨t, ht, hkind, hid⟩ := h
    exact ⟨t, ⟨ht, hkind⟩, hid⟩

theorem issued_append (log more : List Emission) : issued (log ++ more) = issued log ++ issued more := by
  rw [issued, issued, issued, List.filter_append, List.map_append]

theorem issued_of_accepts {t : Emission} {id : Nat} (h : t.Accepts id) : issued [t] = [id] := by
  simp [issued, h.1, h.2]

theorem issued_of_ne {t : Emission} (h : t.event.kind ≠ .accepted) : issued [t] = [] := by
  simp [issued, h]

theorem Emission.Accepts.not_ends {t : Emission} {id id' : Nat} (h : t.Accepts id) : ¬ t.Ends id' := by
  intro hends
  rw [Ends, h.1] at hends
  rcases hends.1 with hkind | hkind
  · cases hkind
  · cases hkind.1

/-- The identifiers up to the count of each slot. -/
def Numbered (capacity : Nat) (count : Nat → Nat) (id : Nat) : Prop :=
  ∃ i < capacity, ∃ g, 1 ≤ g ∧ g ≤ count i ∧ id = OrderPool.idOf g i

theorem numbered_update {capacity i : Nat} (hi : i < capacity) (count : Nat → Nat) (id : Nat) :
    Numbered capacity (Function.update count i (count i + 1)) id ↔
      Numbered capacity count id ∨ id = OrderPool.idOf (count i + 1) i := by
  constructor
  · intro h
    obtain ⟨j, hj, g, hpos, hle, rfl⟩ := h
    by_cases hji : j = i
    · subst hji
      rw [Function.update_self] at hle
      by_cases hg : g = count j + 1
      · exact .inr (by rw [hg])
      · exact .inl ⟨j, hj, g, hpos, by omega, rfl⟩
    · rw [Function.update_of_ne hji] at hle
      exact .inl ⟨j, hj, g, hpos, hle, rfl⟩
  · intro h
    rcases h with ⟨j, hj, g, hpos, hle, rfl⟩ | rfl
    · refine ⟨j, hj, g, hpos, ?_, rfl⟩
      by_cases hji : j = i
      · subst hji
        rw [Function.update_self]
        omega
      · rw [Function.update_of_ne hji]
        exact hle
    · exact ⟨i, hi, count i + 1, by omega, by rw [Function.update_self], rfl⟩

/-- One more has ended in a slot whose order has nothing left. -/
def spend (spent : Nat → Nat) (i left : Nat) : Nat → Nat :=
  if left = 0 then Function.update spent i (spent i + 1) else spent

theorem spend_self (spent : Nat → Nat) (i left : Nat) :
    spend spent i left i = spent i + if left = 0 then 1 else 0 := by
  rw [spend]
  split
  · exact Function.update_self _ _ _
  · rfl

theorem spend_of_ne (spent : Nat → Nat) {i j : Nat} (hji : j ≠ i) (left : Nat) : spend spent i left j = spent j := by
  rw [spend]
  split
  · exact Function.update_of_ne hji _ _
  · rfl

/-- The log of a pool whose slots have given out `given` identifiers each, of which `spent` have ended. -/
structure Accounts (capacity : Nat) (given spent : Nat → Nat) (log : List Emission) : Prop where
  issued : ∀ id, id ∈ issued log ↔ Numbered capacity given id
  ended : ∀ id, (∃ t ∈ log, t.Ends id) ↔ Numbered capacity spent id
  nodup : (Matchbox.issued log).Nodup
  after : ∀ front t back id, log = front ++ t :: back → t.Ends id → id ∈ Matchbox.issued front
  count : ∀ i < capacity, given i ≤ (Matchbox.issued log).length

namespace Accounts

variable {capacity i : Nat} {given spent : Nat → Nat} {log : List Emission} {t : Emission}

theorem nil (capacity : Nat) : Accounts capacity (fun _ => 0) (fun _ => 0) [] := by
  have hnone : ∀ id, ¬ Numbered capacity (fun _ => 0) id := by
    intro id h
    obtain ⟨i, _, g, hpos, hle, _⟩ := h
    exact Nat.not_succ_le_zero 0 (hpos.trans hle)
  refine ⟨fun id => ?_, fun id => ?_, List.nodup_nil, fun front t back id h => ?_, fun i _ => le_rfl⟩
  · exact iff_of_false List.not_mem_nil (hnone id)
  · exact iff_of_false (fun ⟨t, ht, _⟩ => List.not_mem_nil ht) (hnone id)
  · simp at h

theorem after_concat (h : Accounts capacity given spent log) (ht : ∀ id, t.Ends id → id ∈ Matchbox.issued log) :
    ∀ front u back id, log ++ [t] = front ++ u :: back → u.Ends id → id ∈ Matchbox.issued front := by
  intro front u back id heq hends
  cases back using List.reverseRecOn with
  | nil =>
    obtain ⟨rfl, hlast⟩ := List.append_inj' heq rfl
    rw [List.cons.injEq] at hlast
    rw [← hlast.1] at hends
    exact ht id hends
  | append_singleton back last =>
    have hsplit : log ++ [t] = (front ++ u :: back) ++ [last] := by rw [heq]; simp
    obtain ⟨hfront, -⟩ := List.append_inj' hsplit rfl
    exact h.after front u back id hfront hends

theorem skip (h : Accounts capacity given spent log) (hkind : t.event.kind ≠ .accepted) (hends : ∀ id, ¬ t.Ends id) :
    Accounts capacity given spent (log ++ [t]) := by
  have hsame : Matchbox.issued (log ++ [t]) = Matchbox.issued log := by
    rw [issued_append, issued_of_ne hkind, List.append_nil]
  refine ⟨fun id => ?_, fun id => ?_, ?_, h.after_concat fun id ht => absurd ht (hends id), fun i hi => ?_⟩
  · rw [hsame]
    exact h.issued id
  · rw [← h.ended id]
    simp [hends]
  · rw [hsame]
    exact h.nodup
  · rw [hsame]
    exact h.count i hi

theorem accept (h : Accounts capacity given spent log) (hcapacity : capacity ≤ word32) (hi : i < capacity)
    (ht : t.Accepts (OrderPool.idOf (given i + 1) i)) :
    Accounts capacity (Function.update given i (given i + 1)) spent (log ++ [t]) := by
  have hissued : Matchbox.issued (log ++ [t]) = Matchbox.issued log ++ [OrderPool.idOf (given i + 1) i] := by
    rw [issued_append, issued_of_accepts ht]
  have hfresh : OrderPool.idOf (given i + 1) i ∉ Matchbox.issued log := by
    rw [h.issued]
    intro hold
    obtain ⟨j, hj, g, _, hle, heq⟩ := hold
    obtain ⟨hg, hij⟩ := OrderPool.idOf_inj (hi.trans_le hcapacity) (hj.trans_le hcapacity) heq
    rw [← hij, ← hg] at hle
    omega
  refine ⟨fun id => ?_, fun id => ?_, ?_, h.after_concat fun id hends => absurd hends ht.not_ends, fun j hj => ?_⟩
  · rw [hissued, List.mem_append, List.mem_singleton, h.issued id, numbered_update hi]
  · rw [← h.ended id]
    simp [ht.not_ends]
  · rw [hissued]
    exact List.nodup_append.mpr ⟨h.nodup, List.nodup_singleton _, fun a ha b hb hab => by
      rw [hab, List.mem_singleton.mp hb] at ha
      exact hfresh ha⟩
  · have hcount := h.count j hj
    rw [hissued, List.length_append, List.length_singleton]
    by_cases hji : j = i
    · rw [hji, Function.update_self]
      rw [hji] at hcount
      omega
    · rw [Function.update_of_ne hji]
      omega

theorem finish (h : Accounts capacity given spent log) (hi : i < capacity) (hopen : spent i < given i)
    (ht : t.Ends (OrderPool.idOf (spent i + 1) i)) :
    Accounts capacity given (Function.update spent i (spent i + 1)) (log ++ [t]) := by
  have hkind : t.event.kind ≠ .accepted := fun hkind => Emission.Accepts.not_ends ⟨hkind, rfl⟩ ht
  have hsame : Matchbox.issued (log ++ [t]) = Matchbox.issued log := by
    rw [issued_append, issued_of_ne hkind, List.append_nil]
  have hid : ∀ id, t.Ends id ↔ id = OrderPool.idOf (spent i + 1) i := by
    intro id
    constructor
    · intro hends
      exact hends.2.symm.trans ht.2
    · intro heq
      rw [heq]
      exact ht
  have hold : OrderPool.idOf (spent i + 1) i ∈ Matchbox.issued log :=
    (h.issued _).mpr ⟨i, hi, spent i + 1, by omega, hopen, rfl⟩
  refine ⟨fun id => ?_, fun id => ?_, ?_, h.after_concat fun id hends => ?_, fun j hj => ?_⟩
  · rw [hsame]
    exact h.issued id
  · rw [numbered_update hi, ← h.ended id, ← hid id]
    simp only [List.mem_append, List.mem_singleton, or_and_right, exists_or, exists_eq_left]
  · rw [hsame]
    exact h.nodup
  · rw [(hid id).mp hends]
    exact hold
  · rw [hsame]
    exact h.count j hj

theorem fill (h : Accounts capacity given spent log) (hi : i < capacity) (hopen : spent i < given i)
    (hkind : t.event.kind = .fill) (hid : t.event.orderId = OrderPool.idOf (spent i + 1) i) :
    Accounts capacity given (spend spent i t.event.remaining) (log ++ [t]) := by
  rw [spend]
  split
  · rename_i hzero
    exact h.finish hi hopen ⟨.inr ⟨hkind, hzero⟩, hid⟩
  · rename_i hleft
    refine h.skip (by rw [hkind]; decide) fun id hends => ?_
    rcases hends.1 with hcancelled | hfill
    · rw [hkind] at hcancelled
      cases hcancelled
    · exact hleft hfill.2

/-- An order is open when it was accepted and no event after that is its last: exactly when it is issued and has not ended. -/
theorem open_iff (h : Accounts capacity given spent log) (id : Nat) :
    (∃ front t back, log = front ++ t :: back ∧ t.Accepts id ∧ ∀ u ∈ back, ¬ u.Ends id) ↔
      Numbered capacity given id ∧ ¬ Numbered capacity spent id := by
  rw [← h.issued, ← h.ended]
  constructor
  · intro hopen
    obtain ⟨front, t, back, rfl, ht, hback⟩ := hopen
    refine ⟨mem_issued.mpr ⟨t, by simp, ht⟩, fun hended => ?_⟩
    obtain ⟨u, hu, hends⟩ := hended
    rcases List.mem_append.mp hu with hfront | hrest
    · -- an end before the acceptance would need an earlier acceptance
      obtain ⟨xs, ys, rfl⟩ := List.append_of_mem hfront
      have hearlier := h.after xs u (ys ++ t :: back) id (by simp) hends
      have hnodup := h.nodup
      rw [issued_append, issued_append, List.nodup_append] at hnodup
      refine hnodup.2.2 id (List.mem_append_left _ hearlier) id ?_ rfl
      exact mem_issued.mpr ⟨t, by simp, ht⟩
    · rcases List.mem_cons.mp hrest with rfl | hback'
      · exact ht.not_ends hends
      · exact hback u hback' hends
  · intro hopen
    obtain ⟨t, ht, haccepts⟩ := mem_issued.mp hopen.1
    obtain ⟨front, back, rfl⟩ := List.append_of_mem ht
    exact ⟨front, t, back, rfl, haccepts, fun u hu hends => hopen.2 ⟨u, by simp [hu], hends⟩⟩

end Accounts

/-! ### The counts of a pool -/

namespace OrderPool

/-- How many identifiers a slot has given out. -/
def given (pool : OrderPool) (i : Nat) : Nat := pool.frees i + if (pool.slots i).live = true then 1 else 0

/-- How many of them have ended: the earlier ones, and the last if nothing is left of its order. -/
def spent (pool : OrderPool) (i : Nat) : Nat :=
  pool.frees i + if (pool.slots i).live = true ∧ (pool.slots i).qty = 0 then 1 else 0

variable {pool pool' : OrderPool} {i : Nat}

theorem given_congr (hfrees : pool'.frees = pool.frees) (hlive : ∀ j, (pool'.slots j).live = (pool.slots j).live) :
    pool'.given = pool.given := by
  funext j
  rw [given, given, hfrees, hlive]

theorem spent_congr (hfrees : pool'.frees = pool.frees) (hlive : ∀ j, (pool'.slots j).live = (pool.slots j).live)
    (hqty : ∀ j, (pool.slots j).live = true → ((pool'.slots j).qty = 0 ↔ (pool.slots j).qty = 0)) :
    pool'.spent = pool.spent := by
  funext j
  have hcond : ((pool'.slots j).live = true ∧ (pool'.slots j).qty = 0) ↔
      ((pool.slots j).live = true ∧ (pool.slots j).qty = 0) := by
    rw [hlive]
    exact and_congr_right (hqty j)
  rw [spent, spent, hfrees, if_congr hcond rfl rfl]

theorem given_of_live (hlive : (pool.slots i).live = true) : pool.given i = pool.frees i + 1 := by
  rw [given, if_pos hlive]

theorem spent_of_left (hqty : (pool.slots i).qty ≠ 0) : pool.spent i = pool.frees i := by
  rw [spent, if_neg fun h => hqty h.2, Nat.add_zero]

theorem given_free (hlive : (pool.slots i).live = true) : (pool.free i).given = pool.given := by
  funext j
  by_cases hji : j = i
  · subst hji
    rw [given_of_live hlive, given, free_slots_self]
    simp [free]
  · rw [given, given, free_slots_of_ne _ hji]
    simp [free, hji]

theorem spent_free : (pool.free i).spent = Function.update pool.spent i (pool.frees i + 1) := by
  funext j
  by_cases hji : j = i
  · subst hji
    rw [Function.update_self, spent, free_slots_self]
    simp [free]
  · rw [Function.update_of_ne hji, spent, spent, free_slots_of_ne _ hji]
    simp [free, hji]

/-- An order with nothing left has ended already. -/
theorem spent_free_of_empty (hlive : (pool.slots i).live = true) (hqty : (pool.slots i).qty = 0) :
    (pool.free i).spent = pool.spent := by
  have hspent : pool.spent i = pool.frees i + 1 := by rw [spent, if_pos ⟨hlive, hqty⟩]
  rw [spent_free, ← hspent, Function.update_eq_self]

end OrderPool

/-! ### The log of a ledger -/

/-- What a log and the ledger it led to say about each other. -/
structure Known (w : Ledger) (log : List Emission) : Prop where
  accounts : Accounts w.e.pool.capacity w.e.pool.given w.e.pool.spent log
  few : (issued log).length ≤ 2 ^ 32 - 1
  /-- Every live order has the owner, symbol, side and tag of its Accepted event. -/
  signed : ∀ i < w.e.pool.capacity, (w.e.pool.slots i).live = true → ∃ t ∈ log, t.Accepts (w.e.pool.slots i).id ∧
    t.event.label = (w.e.pool.slots i).label

namespace Known

variable {w w' : Ledger} {log more : List Emission} {t : Emission} {i : Nat}

theorem init (cfg : Engine.Config) : Known (Ledger.init cfg) [] := by
  have hgiven : (Ledger.init cfg).e.pool.given = fun _ => 0 := rfl
  have hspent : (Ledger.init cfg).e.pool.spent = fun _ => 0 := by
    funext i
    simp [OrderPool.spent, Ledger.init, Engine.init, OrderPool.init]
  refine ⟨?_, by decide, fun i _ hlive => ?_⟩
  · rw [hgiven, hspent]
    exact .nil _
  · cases hlive

theorem ne_zero (h : Known w log) {id : Nat} (hid : id ∈ issued log) : id ≠ 0 := by
  obtain ⟨i, hlt, g, hpos, -, rfl⟩ := (h.accounts.issued id).mp hid
  rw [OrderPool.idOf_eq (w.rep.lt_word32 hlt)]
  have hword : 0 < g * word32 := Nat.mul_pos hpos (by decide)
  omega

/-- The identifier of a live order is the last one its slot has given out. -/
theorem id_eq (h : Known w log) (hi : i < w.e.pool.capacity) (hlive : (w.e.pool.slots i).live = true) :
    (w.e.pool.slots i).id = OrderPool.idOf (w.e.pool.frees i + 1) i := by
  have hcount := h.accounts.count i hi
  have hfew := h.few
  rw [OrderPool.given_of_live hlive] at hcount
  rw [w.rep.id i hi hlive, w.rep.gen i hi, Nat.mod_eq_of_lt]
  simp only [word32]
  omega

theorem move (h : Known w log) (hcapacity : w'.e.pool.capacity = w.e.pool.capacity)
    (hkept : ∀ j, (w'.e.pool.slots j).live = true → (w.e.pool.slots j).live = true ∧
      (w'.e.pool.slots j).id = (w.e.pool.slots j).id ∧ (w'.e.pool.slots j).label = (w.e.pool.slots j).label)
    (haccounts : Accounts w.e.pool.capacity w'.e.pool.given w'.e.pool.spent (log ++ more)) (hmore : issued more = []) :
    Known w' (log ++ more) := by
  refine ⟨hcapacity ▸ haccounts, ?_, fun j hj hlive => ?_⟩
  · rw [issued_append, hmore, List.append_nil]
    exact h.few
  · obtain ⟨hlive', hid, hlabel⟩ := hkept j hlive
    obtain ⟨t, ht, haccepts, hsigned⟩ := h.signed j (hcapacity ▸ hj) hlive'
    rw [hid, hlabel]
    exact ⟨t, List.mem_append_left _ ht, haccepts, hsigned⟩

theorem congr (h : Known w log) (hcapacity : w'.e.pool.capacity = w.e.pool.capacity)
    (hfrees : w'.e.pool.frees = w.e.pool.frees)
    (hsame : ∀ j, (w'.e.pool.slots j).live = (w.e.pool.slots j).live ∧
      (w'.e.pool.slots j).id = (w.e.pool.slots j).id ∧ (w'.e.pool.slots j).label = (w.e.pool.slots j).label)
    (hqty : ∀ j, (w.e.pool.slots j).live = true → ((w'.e.pool.slots j).qty = 0 ↔ (w.e.pool.slots j).qty = 0)) :
    Known w' log := by
  have haccounts := h.accounts
  rw [← OrderPool.given_congr hfrees fun j => (hsame j).1, ← OrderPool.spent_congr hfrees (fun j => (hsame j).1) hqty,
    ← List.append_nil log] at haccounts
  have hmove := h.move hcapacity (fun j hlive => ⟨(hsame j).1 ▸ hlive, (hsame j).2⟩) haccounts rfl
  rw [List.append_nil] at hmove
  exact hmove

theorem relinked (h : Known w log) (hcapacity : w'.e.pool.capacity = w.e.pool.capacity)
    (hfrees : w'.e.pool.frees = w.e.pool.frees) (hslots : ∀ j, Relinked (w.e.pool.slots j) (w'.e.pool.slots j)) :
    Known w' log := by
  apply h.congr hcapacity hfrees
  · intro j
    exact ⟨(hslots j).read Order.live fun _ _ => rfl, (hslots j).read Order.id fun _ _ => rfl,
      (hslots j).read Order.label fun _ _ => rfl⟩
  · intro j _
    rw [(hslots j).qty]

theorem skip (h : Known w log) (hkind : t.event.kind ≠ .accepted) (hends : ∀ id, ¬ t.Ends id) : Known w (log ++ [t]) :=
  h.move rfl (fun _ hlive => ⟨hlive, rfl, rfl⟩) (h.accounts.skip hkind hends) (issued_of_ne hkind)

theorem resized (h : Known w log) {f : Order → Order} (hpool : w'.e.pool = w.e.pool.modify i f)
    (hf : ∀ o, (f o).live = o.live ∧ (f o).id = o.id ∧ (f o).label = o.label) (hqty : (w.e.pool.slots i).qty ≠ 0)
    (hqty' : (f (w.e.pool.slots i)).qty ≠ 0) : Known w' log := by
  apply h.congr (by rw [hpool]; rfl) (by rw [hpool]; rfl)
  · intro j
    rw [hpool, OrderPool.modify_slots]
    split
    · exact hf _
    · exact ⟨rfl, rfl, rfl⟩
  · intro j _
    rw [hpool, OrderPool.modify_slots]
    split
    · rename_i hji
      subst hji
      exact iff_of_false hqty' hqty
    · exact Iff.rfl

theorem freed (h : Known w log) (hfreed : Freed i w w') (hmore : issued more = [])
    (haccounts : Accounts w.e.pool.capacity w.e.pool.given
      (Function.update w.e.pool.spent i (w.e.pool.frees i + 1)) (log ++ more)) : Known w' (log ++ more) := by
  obtain ⟨hlt, hlive, -⟩ := w.rep.loose_mem i (by rw [hfreed.loose]; exact List.mem_singleton_self i)
  apply h.move (by rw [hfreed.pool']; rfl) _ _ hmore
  · intro j hj
    rw [hfreed.pool'] at hj ⊢
    by_cases hji : j = i
    · rw [hji, OrderPool.free_slots_self] at hj
      cases hj
    · rw [OrderPool.free_slots_of_ne _ hji] at hj ⊢
      exact ⟨hj, rfl, rfl⟩
  · rw [hfreed.pool', OrderPool.given_free hlive, OrderPool.spent_free]
    exact haccounts

end Known

section Moves

variable {now i : Nat} {c : Command} {w w' : Ledger} {log more : List Emission}

theorem Admitted.known (h : Admitted c i w w') (hknown : Known w log) (hqty : c.qty ≠ 0) {t : Emission}
    (ht : t.event = Engine.base now .accepted (w'.e.pool.slots i)) (hfew : (issued (log ++ [t])).length ≤ 2 ^ 32 - 1) :
    Known w' (log ++ [t]) := by
  obtain ⟨hlt, hdead⟩ := w.rep.free_mem i (by rw [h.free]; exact List.mem_cons_self)
  have hslot : w'.e.pool.slots i = c.order (w.e.pool.slots i).gen i := by
    rw [h.slots', Function.update_self]
  have hother : ∀ j, j ≠ i → w'.e.pool.slots j = w.e.pool.slots j := by
    intro j hji
    rw [h.slots', Function.update_of_ne hji]
  have hgiven : w.e.pool.given i = w.e.pool.frees i := by
    rw [OrderPool.given, hdead]
    rfl
  have hkind : t.event.kind = .accepted := by rw [ht]; rfl
  -- there is room for one more identifier, so the generation has not wrapped
  have hgen : (w.e.pool.slots i).gen = w.e.pool.given i + 1 := by
    have hcount := hknown.accounts.count i hlt
    rw [issued_append, issued_of_accepts ⟨hkind, rfl⟩, List.length_append, List.length_singleton] at hfew
    rw [w.rep.gen i hlt, hgiven, Nat.mod_eq_of_lt]
    simp only [word32]
    omega
  have hid : (w'.e.pool.slots i).id = OrderPool.idOf (w.e.pool.given i + 1) i := by
    rw [hslot, ← hgen]
    rfl
  have haccepts : t.Accepts (w'.e.pool.slots i).id := ⟨hkind, by rw [ht]; rfl⟩
  have haccounts := hknown.accounts.accept (w.rep.capacity ▸ w.e.cfg.maxOrders_lt.le) hlt (hid ▸ haccepts)
  refine ⟨?_, hfew, fun j hj hlive => ?_⟩
  · have hgiven' : w'.e.pool.given = Function.update w.e.pool.given i (w.e.pool.given i + 1) := by
      funext j
      by_cases hji : j = i
      · subst hji
        rw [Function.update_self, OrderPool.given, hslot, h.frees, hgiven]
        rfl
      · rw [Function.update_of_ne hji, OrderPool.given, OrderPool.given, hother j hji, h.frees]
    have hspent : w'.e.pool.spent = w.e.pool.spent := by
      funext j
      by_cases hji : j = i
      · subst hji
        rw [OrderPool.spent_of_left (by rw [hslot]; exact hqty), OrderPool.spent, h.frees, hdead]
        simp
      · rw [OrderPool.spent, OrderPool.spent, hother j hji, h.frees]
    rw [h.capacity, hgiven', hspent]
    exact haccounts
  · by_cases hji : j = i
    · subst hji
      exact ⟨t, by simp, haccepts, by rw [ht]; rfl⟩
    · rw [hother j hji] at hlive ⊢
      obtain ⟨u, hu, haccepts', hlabel⟩ := hknown.signed j (h.capacity ▸ hj) hlive
      exact ⟨u, List.mem_append_left _ hu, haccepts', hlabel⟩

theorem fillEmissions_eq (now m i : Nat) (px : Int) (x : Nat) (pool : OrderPool) :
    ∃ maker taker trade, fillEmissions now m i px x pool = [maker, taker, trade] ∧
      maker.event.kind = .fill ∧ maker.event.orderId = (pool.slots m).id ∧ maker.event.remaining = (pool.slots m).qty ∧
      taker.event.kind = .fill ∧ taker.event.orderId = (pool.slots i).id ∧ taker.event.remaining = (pool.slots i).qty ∧
      trade.event.kind = .trade :=
  ⟨_, _, _, rfl, rfl, rfl, rfl, rfl, rfl, rfl, rfl⟩

/-- The counts that the sink sees in a fill: either order may have had its last event. -/
theorem Fill.spent {m : Nat} {rest : List Nat} {px : Int} {x : Nat} {pool : OrderPool}
    (h : Fill now i w w' m rest px x pool) (hi : (w.e.pool.slots i).live = true) (hqty : (w.e.pool.slots i).qty ≠ 0) :
    pool.spent = spend (spend w.e.pool.spent m (pool.slots m).qty) i (pool.slots i).qty := by
  have hlive : ∀ j, (pool.slots j).live = (w.e.pool.slots j).live :=
    h.seen_read Order.live (fun _ _ _ => rfl) fun _ _ => rfl
  have hmqty := (w.pos _ _ _ m h.mem).ne'
  funext j
  by_cases hji : j = i
  · subst hji
    rw [spend_self, spend_of_ne _ h.ne.symm, OrderPool.spent_of_left hqty, OrderPool.spent, hlive, hi, h.traded.frees]
    simp
  · rw [spend_of_ne _ hji]
    by_cases hjm : j = m
    · subst hjm
      rw [spend_self, OrderPool.spent_of_left hmqty, OrderPool.spent, hlive, h.queued.live, h.traded.frees]
      simp
    · have hrel := h.traded.slots j
      rw [if_neg (by simp [hji, hjm])] at hrel
      rw [spend_of_ne _ hjm, OrderPool.spent, OrderPool.spent, hlive, hrel.qty, h.traded.frees]

theorem Fill.known {m : Nat} {rest : List Nat} {px : Int} {x : Nat} {pool : OrderPool}
    (h : Fill now i w w' m rest px x pool) (hknown : Known w log) :
    Known w' (log ++ fillEmissions now m i px x pool) := by
  obtain ⟨hlt, hi, -⟩ := w.rep.loose_mem i (by rw [h.loose]; exact List.mem_singleton_self i)
  have hqty : (w.e.pool.slots i).qty ≠ 0 := by
    have hamount := h.amount
    have hpos := h.amount_pos
    omega
  have hlive : ∀ j, (pool.slots j).live = (w.e.pool.slots j).live :=
    h.seen_read Order.live (fun _ _ _ => rfl) fun _ _ => rfl
  have hid : ∀ j, (pool.slots j).id = (w.e.pool.slots j).id :=
    h.seen_read Order.id (fun _ _ _ => rfl) fun _ _ => rfl
  have hlabel : ∀ j, (pool.slots j).label = (w.e.pool.slots j).label :=
    h.seen_read Order.label (fun _ _ _ => rfl) fun _ _ => rfl
  have hnext : ∀ j < w.e.pool.capacity, (w.e.pool.slots j).live = true → (w.e.pool.slots j).qty ≠ 0 →
      w.e.pool.spent j < w.e.pool.given j ∧ (pool.slots j).id = OrderPool.idOf (w.e.pool.spent j + 1) j := by
    intro j hj hjlive hjqty
    rw [OrderPool.spent_of_left hjqty, OrderPool.given_of_live hjlive, hid, hknown.id_eq hj hjlive]
    exact ⟨Nat.lt_succ_self _, rfl⟩
  obtain ⟨hmopen, hmid⟩ := hnext m h.queued.lt h.queued.live (w.pos _ _ _ m h.mem).ne'
  obtain ⟨hopen, hiid⟩ := hnext i hlt hi hqty
  rw [← spend_of_ne w.e.pool.spent h.ne.symm (pool.slots m).qty] at hopen hiid
  -- the maker's event, the taker's event, the trade
  have haccounts : Accounts w.e.pool.capacity w.e.pool.given pool.spent (log ++ fillEmissions now m i px x pool) := by
    obtain ⟨maker, taker, trade, hthree, hmkind, hmorder, hmleft, hikind, hiorder, hileft, htkind⟩ :=
      fillEmissions_eq now m i px x pool
    have hmaker := hknown.accounts.fill h.queued.lt hmopen hmkind (hmorder.trans hmid)
    rw [hmleft] at hmaker
    have htaker := hmaker.fill hlt hopen hikind (hiorder.trans hiid)
    rw [hileft] at htaker
    have htrade := htaker.skip (t := trade) (by rw [htkind]; decide) fun id hends => by
      rcases hends.1 with hkind | hkind <;> simp [htkind] at hkind
    rw [h.spent hi hqty, hthree]
    rw [List.append_assoc, List.append_assoc] at htrade
    exact htrade
  apply hknown.move
  · rw [h.pool']
    split <;> exact h.traded.capacity
  · intro j hj
    rw [h.pool'] at hj ⊢
    split at hj
    · rename_i hzero
      rw [if_pos hzero]
      by_cases hjm : j = m
      · rw [hjm, OrderPool.free_slots_self] at hj
        cases hj
      · rw [OrderPool.free_slots_of_ne _ hjm] at hj ⊢
        exact ⟨hlive j ▸ hj, hid j, hlabel j⟩
    · rename_i hzero
      rw [if_neg hzero]
      exact ⟨hlive j ▸ hj, hid j, hlabel j⟩
  · have hmlive : (pool.slots m).live = true := (hlive m).trans h.queued.live
    have hgiven : pool.given = w.e.pool.given := OrderPool.given_congr h.traded.frees hlive
    rw [h.pool']
    split
    · rename_i hzero
      rw [OrderPool.given_free hmlive, OrderPool.spent_free_of_empty hmlive hzero, hgiven]
      exact haccounts
    · rw [hgiven]
      exact haccounts
  · rfl

theorem Fills.known (h : Fills now i w w' more) (hknown : Known w log) : Known w' (log ++ more) := by
  induction h generalizing log with
  | refl w =>
    rw [List.append_nil]
    exact hknown
  | head hfill _ ih =>
    rw [← List.append_assoc]
    exact ih (hfill.known hknown)

theorem Freed.known_cancelled (h : Freed i w w') (hknown : Known w log) (hqty : (w.e.pool.slots i).qty ≠ 0) :
    Known w' (log ++ [⟨Engine.base now .cancelled (w.e.pool.slots i), w.e.pool⟩]) := by
  obtain ⟨hlt, hlive, -⟩ := w.rep.loose_mem i (by rw [h.loose]; exact List.mem_singleton_self i)
  have hspent := w.e.pool.spent_of_left hqty
  have hfinish := hknown.accounts.finish (t := ⟨Engine.base now .cancelled (w.e.pool.slots i), w.e.pool⟩) hlt
    (by rw [hspent, OrderPool.given_of_live hlive]; exact Nat.lt_succ_self _)
    ⟨.inl rfl, by rw [hspent]; exact hknown.id_eq hlt hlive⟩
  rw [hspent] at hfinish
  exact hknown.freed h rfl hfinish

theorem Ended.known (h : Ended now i w w' more) (hknown : Known w log) : Known w' (log ++ more) := by
  cases h with
  | done hqty hfreed =>
    obtain ⟨-, hlive, -⟩ := w.rep.loose_mem i (by rw [hfreed.loose]; exact List.mem_singleton_self i)
    apply hknown.freed hfreed rfl
    rw [← OrderPool.spent_free, OrderPool.spent_free_of_empty hlive hqty, List.append_nil]
    exact hknown.accounts
  | killed hqty _ hfreed => exact hfreed.known_cancelled hknown hqty
  | rested _ _ _ hrested =>
    rw [List.append_nil]
    exact hknown.relinked hrested.capacity hrested.frees hrested.slots

theorem Matched.known (h : Matched now i w w' more) (hknown : Known w log) : Known w' (log ++ more) := by
  obtain ⟨hfills, -, hended⟩ := h
  rw [← List.append_assoc]
  exact hended.known (hfills.known hknown)

theorem Known.skip_replaced (h : Known w log) (o : Order) (pool : OrderPool) :
    Known w (log ++ [⟨Engine.base now .replaced o, pool⟩]) :=
  h.skip (by simp [Engine.base]) fun id hends => by rcases hends.1 with hkind | hkind <;> simp [Engine.base] at hkind

theorem Processed.known (h : Processed now c w w' more) (hknown : Known w log)
    (hfew : (issued (log ++ more)).length ≤ 2 ^ 32 - 1) : Known w' (log ++ more) := by
  cases h with
  | refused _ hidle =>
    have hidle' : Known w' log := by
      apply hknown.relinked (by rw [hidle.pool']) (by rw [hidle.pool'])
      intro j
      rw [hidle.pool']
      exact Order.link_self _
    exact hidle'.skip (by simp [Engine.reject]) fun id hends => by
      rcases hends.1 with hkind | hkind <;> simp [Engine.reject] at hkind
  | @accepted i w₁ rest hnew hadmitted hmatched =>
    rw [List.append_cons] at hfew ⊢
    rw [issued_append, List.length_append] at hfew
    exact hmatched.known (hadmitted.known hknown hnew.qty rfl (by omega))
  | cancelled _ _ htaken hfreed =>
    have htaken' := hknown.relinked htaken.capacity htaken.frees htaken.slots
    have hpos := w.pos _ _ _ _ htaken.mem
    exact hfreed.known_cancelled htaken' (by rw [(htaken.slots _).qty]; exact hpos.ne')
  | reduced hreplaces _ _ hreduced =>
    have hpos := w.pos _ _ _ _ hreduced.mem
    have hreduced' : Known w' log := hknown.resized hreduced.pool' (fun _ => ⟨rfl, rfl, rfl⟩) hpos.ne' hreplaces.qty
    exact hreduced'.skip_replaced _ _
  | replaced hreplaces _ htaken hrepriced hmatched =>
    have htaken' := hknown.relinked htaken.capacity htaken.frees htaken.slots
    have hpos := w.pos _ _ _ _ htaken.mem
    have hrepriced' := htaken'.resized hrepriced.pool' (fun _ => ⟨rfl, rfl, rfl⟩)
      (by rw [(htaken.slots _).qty]; exact hpos.ne') hreplaces.qty
    rw [List.append_cons]
    exact hmatched.known (hrepriced'.skip_replaced _ _)

theorem Known.skip_tops (h : Known w log) {tops : List Emission} (htops : ∀ t ∈ tops, IsTop t) : Known w (log ++ tops) := by
  induction tops generalizing log with
  | nil =>
    rw [List.append_nil]
    exact h
  | cons t tops ih =>
    have hkind := (htops t (by simp)).1
    have hskip := h.skip (t := t) (by rw [hkind]; decide) fun id hends => by
      rcases hends.1 with hends | hends <;> simp [hkind] at hends
    rw [List.append_cons]
    exact ih hskip fun u hu => htops u (List.mem_cons_of_mem t hu)

/-! ### Who was accepted -/

theorem Fills.issued (h : Fills now i w w' more) : Matchbox.issued more = [] := by
  induction h with
  | refl => rfl
  | head _ _ ih =>
    rw [issued_append, ih]
    rfl

theorem Matched.issued (h : Matched now i w w' more) : Matchbox.issued more = [] := by
  obtain ⟨hfills, -, hended⟩ := h
  rw [issued_append, hfills.issued]
  cases hended <;> rfl

/-- Only a New is answered with an Accepted event, and the event says what the New said. -/
theorem Processed.accepts (h : Processed now c w w' more) {t : Emission} (ht : t ∈ more) {id : Nat} (haccepts : t.Accepts id) :
    c.kind = .new ∧ t.event.label = (c.session, c.symbol, c.side, c.tag) := by
  have hissued : id ∈ Matchbox.issued more := mem_issued.mpr ⟨t, ht, haccepts⟩
  cases h with
  | refused _ _ => cases hissued
  | @accepted i w₁ rest hnew hadmitted hmatched =>
    refine ⟨hnew.kind, ?_⟩
    rcases List.mem_cons.mp ht with rfl | hrest
    · change (w₁.e.pool.slots i).label = _
      rw [hadmitted.slots', Function.update_self]
      rfl
    · have hnone := mem_issued.mpr ⟨t, hrest, haccepts⟩
      rw [hmatched.issued] at hnone
      cases hnone
  | cancelled _ _ _ _ => cases hissued
  | reduced _ _ _ _ => cases hissued
  | @replaced i w₁ w₂ rest _ _ _ _ hmatched =>
    have hrest : id ∈ Matchbox.issued rest := hissued
    rw [hmatched.issued] at hrest
    cases hrest

end Moves

/-! ### Whole runs -/

theorem Ledger.run_known (cmds : List (Nat × Command)) (w : Ledger) (hloose : w.loose = []) {log : List Emission}
    (hknown : Known w log) (hfew : (Matchbox.issued (log ++ w.e.log cmds)).length ≤ 2 ^ 32 - 1) :
    ∃ w', w'.e = w.e.run cmds ∧ w'.loose = [] ∧ Known w' (log ++ w.e.log cmds) := by
  induction cmds generalizing w log with
  | nil =>
    refine ⟨w, rfl, hloose, ?_⟩
    rw [Engine.log, List.append_nil]
    exact hknown
  | cons cmd cmds ih =>
    obtain ⟨now, c⟩ := cmd
    obtain ⟨w₁, more, tops, hprocessed, hw₁, hlog, htops⟩ := w.process hloose now c
    rw [Engine.log, hlog, ← hw₁] at hfew ⊢
    rw [← List.append_assoc, ← List.append_assoc] at hfew ⊢
    have hmore : (Matchbox.issued (log ++ more)).length ≤ 2 ^ 32 - 1 := by
      rw [issued_append, issued_append, List.length_append, List.length_append] at hfew
      omega
    have hknown₁ := (hprocessed.known hknown hmore).skip_tops htops
    obtain ⟨w', hw', hloose', hknown'⟩ := ih w₁ (hprocessed.loose hloose) hknown₁ hfew
    refine ⟨w', ?_, hloose', hknown'⟩
    rw [hw', hw₁]
    rfl

/-- Every call of the sink belongs to a command. -/
theorem Engine.mem_log {e : Engine} {cmds : List (Nat × Command)} {t : Emission} (ht : t ∈ e.log cmds) :
    ∃ before now c after, cmds = before ++ (now, c) :: after ∧ t ∈ ((e.run before).process now c).2 := by
  induction cmds generalizing e with
  | nil => cases ht
  | cons cmd cmds ih =>
    obtain ⟨now, c⟩ := cmd
    rcases List.mem_append.mp ht with hnow | hlater
    · exact ⟨[], now, c, cmds, rfl, hnow⟩
    · obtain ⟨before, now', c', after, rfl, ht'⟩ := ih hlater
      exact ⟨(now, c) :: before, now', c', after, rfl, ht'⟩

/-- The order was accepted, and no event since was its last. -/
def OpenIn (log : List Emission) (id : Nat) : Prop :=
  ∃ front t back, log = front ++ t :: back ∧ t.Accepts id ∧ ∀ u ∈ back, ¬ u.Ends id

/-- The order `o` is the one that a New of the run was accepted as, under the identifier `id`. -/
def AcceptedAs (e : Engine) (cmds : List (Nat × Command)) (id : Nat) (o : Order) : Prop :=
  ∃ before now c after, cmds = before ++ (now, c) :: after ∧ c.kind = .new ∧
    (∃ t ∈ ((e.run before).process now c).2, t.Accepts id) ∧ o.id = id ∧
    o.session = c.session ∧ o.symbol = c.symbol ∧ o.side = c.side ∧ o.tag = c.tag

theorem Known.find_iff {w : Ledger} {log : List Emission} (h : Known w log) (hloose : w.loose = []) (id : Nat) :
    (w.e.pool.find id).isSome = true ↔ OpenIn log id := by
  rw [OpenIn, h.accounts.open_iff, Option.isSome_iff_exists]
  constructor
  · intro hfind
    obtain ⟨i, hi⟩ := hfind
    obtain ⟨hlt, hlive, rfl⟩ := (w.rep.find_eq_some_iff id).mp hi
    have hid := h.id_eq hlt hlive
    have hpos := w.pos _ _ _ i ((w.mem_iff hloose i _ _ _).mpr ⟨hlt, hlive, rfl, rfl, rfl⟩)
    refine ⟨⟨i, hlt, _, Nat.succ_pos _, (OrderPool.given_of_live hlive).ge, hid⟩, fun hspent => ?_⟩
    obtain ⟨j, hj, g, _, hle, heq⟩ := hspent
    rw [hid] at heq
    obtain ⟨hg, hij⟩ := OrderPool.idOf_inj (w.rep.lt_word32 hlt) (w.rep.lt_word32 hj) heq
    rw [← hij, OrderPool.spent_of_left hpos.ne'] at hle
    omega
  · intro hopen
    obtain ⟨⟨i, hlt, g, hpos, hle, rfl⟩, hspent⟩ := hopen
    have hlast : w.e.pool.spent i < g := by
      by_contra hnot
      exact hspent ⟨i, hlt, g, hpos, not_lt.mp hnot, rfl⟩
    rw [OrderPool.given] at hle
    rw [OrderPool.spent] at hlast
    by_cases hlive : (w.e.pool.slots i).live = true
    · rw [if_pos hlive] at hle
      have hg : g = w.e.pool.frees i + 1 := by omega
      refine ⟨i, (w.rep.find_eq_some_iff _).mpr ⟨hlt, hlive, ?_⟩⟩
      rw [h.id_eq hlt hlive, hg]
    · rw [if_neg hlive] at hle
      omega

/-- Along every run with at most `2 ^ 32 - 1` accepted orders: the identifiers are distinct and not zero, `find` returns an order exactly for those that are open, and it is the order accepted under this identifier. -/
theorem Engine.run_identifies (cfg : Engine.Config) (cmds : List (Nat × Command))
    (hfew : (issued ((Engine.init cfg).log cmds)).length ≤ 2 ^ 32 - 1) :
    (∀ id ∈ issued ((Engine.init cfg).log cmds), id ≠ 0) ∧ (issued ((Engine.init cfg).log cmds)).Nodup ∧
      (∀ id, (((Engine.init cfg).run cmds).pool.find id).isSome = true ↔ OpenIn ((Engine.init cfg).log cmds) id) ∧
      ∀ id i, ((Engine.init cfg).run cmds).pool.find id = some i →
        AcceptedAs (Engine.init cfg) cmds id (((Engine.init cfg).run cmds).pool.slots i) := by
  obtain ⟨w, hw, hloose, hknown⟩ := Ledger.run_known cmds (Ledger.init cfg) rfl (Known.init cfg) hfew
  rw [List.nil_append] at hknown
  refine ⟨fun id hid => hknown.ne_zero hid, hknown.accounts.nodup, fun id => ?_, fun id i hfind => ?_⟩
  · have hopen := hknown.find_iff hloose id
    rw [hw] at hopen
    exact hopen
  · change (((Ledger.init cfg).e.run cmds).pool.find id) = some i at hfind
    change AcceptedAs _ _ _ (((Ledger.init cfg).e.run cmds).pool.slots i)
    rw [← hw] at hfind ⊢
    obtain ⟨hlt, hlive, hid⟩ := (w.rep.find_eq_some_iff id).mp hfind
    obtain ⟨t, ht, haccepts, hlabel⟩ := hknown.signed i hlt hlive
    obtain ⟨before, now, c, after, rfl, hprocess⟩ := Engine.mem_log ht
    obtain ⟨w₀, hw₀, hloose₀⟩ := Engine.run_ledger cfg before
    obtain ⟨w₁, more, tops, hprocessed, -, hlog, htops⟩ := w₀.process hloose₀ now c
    rw [hw₀] at hlog
    have hmore : t ∈ more := by
      change t ∈ (((Engine.init cfg).run before).process now c).2 at hprocess
      rw [hlog] at hprocess
      rcases List.mem_append.mp hprocess with hmore | htop
      · exact hmore
      · have hkind := (htops t htop).1
        rw [haccepts.1] at hkind
        cases hkind
    obtain ⟨hkind, hcommand⟩ := hprocessed.accepts hmore haccepts
    rw [hlabel] at hcommand
    simp only [Order.label, Prod.mk.injEq] at hcommand
    obtain ⟨hsession, hsymbol, hside, htag⟩ := hcommand
    rw [hid] at haccepts
    exact ⟨before, now, c, after, rfl, hkind, ⟨t, hprocess, haccepts⟩, hid, hsession, hsymbol, hside, htag⟩

/-- One slot, used twice: the identifier of the cancelled order stays dead when the slot is used again. -/
theorem Engine.run_identifies_reused :
    let cfg : Engine.Config := { symbols := 1, maxPrice := 1, maxOrders := 1 }
    let cmds : List (Nat × Command) := [(0, { session := 1, price := 1, qty := 3 }),
      (0, { kind := .cancel, session := 1, orderId := 2 ^ 32 }), (0, { session := 2, price := 1, qty := 4 })]
    let log := (Engine.init cfg).log cmds
    let pool := ((Engine.init cfg).run cmds).pool
    issued log = [2 ^ 32, 2 ^ 33] ∧ (issued log).length ≤ 2 ^ 32 - 1 ∧ pool.find (2 ^ 33) = some 0 ∧
      OpenIn log (2 ^ 33) ∧ ¬ OpenIn log (2 ^ 32) ∧ AcceptedAs (Engine.init cfg) cmds (2 ^ 33) (pool.slots 0) := by
  intro cfg cmds log pool
  have hfew : (issued log).length ≤ 2 ^ 32 - 1 := by decide +kernel
  have hfind : pool.find (2 ^ 33) = some 0 := by decide +kernel
  have hstale : (pool.find (2 ^ 32)).isSome = false := by decide +kernel
  obtain ⟨-, -, hopen, haccepted⟩ := Engine.run_identifies cfg cmds hfew
  refine ⟨by decide +kernel, hfew, hfind, (hopen _).mp ?_, fun hold => ?_, haccepted _ _ hfind⟩
  · change (pool.find (2 ^ 33)).isSome = true
    rw [hfind]
    rfl
  · have hsome : (pool.find (2 ^ 32)).isSome = true := (hopen _).mpr hold
    rw [hstale] at hsome
    cases hsome

end Matchbox
