import Matchbox.Reference.Execute
import Matchbox.Safety.Uncrossed

/-!
# The engine refines the reference

`Abstracts w r` says that the reference `r` is what the ledger `w` stands for: every queue of slots is the reference's queue of entries, and the tickets are those of the queued orders. Each move of the ledger is a move of the reference, so every command is, and with it every run: same events, same best prices.
-/

namespace Matchbox

open Sweep

/-! ### The abstraction -/

def Order.entry (o : Order) : Entry Nat := ⟨o.id, o.qty⟩

def Order.ticket (o : Order) : Ticket := ⟨o.tag, o.session, o.symbol, o.side, o.price⟩

/-- The order is in a queue. -/
def Ledger.Resting (w : Ledger) (i : Nat) : Prop := ∃ k s p, i ∈ w.q k s p

theorem Ledger.Resting.queued {w : Ledger} {i : Nat} (h : w.Resting i) :
    i < w.e.pool.capacity ∧ (w.e.pool.slots i).live = true := by
  obtain ⟨k, s, p, hi⟩ := h
  exact ⟨(w.rep.queued k s p i hi).lt, (w.rep.queued k s p i hi).live⟩

theorem Ledger.Resting.id_inj {w : Ledger} {i j : Nat} (hi : w.Resting i) (hj : w.Resting j)
    (heq : (w.e.pool.slots i).id = (w.e.pool.slots j).id) : i = j :=
  w.rep.id_inj hi.queued.1 hj.queued.1 hi.queued.2 hj.queued.2 heq

/-- The tickets are those of the queued orders. -/
structure Directory (w : Ledger) (tickets : Nat → Option Ticket) : Prop where
  found : ∀ i, w.Resting i → tickets (w.e.pool.slots i).id = some (w.e.pool.slots i).ticket
  missing : ∀ id, (∀ i, w.Resting i → (w.e.pool.slots i).id ≠ id) → tickets id = none

namespace Directory

variable {w w' : Ledger} {tickets : Nat → Option Ticket} {i : Nat}

theorem congr (h : Directory w tickets) (hresting : ∀ j, w'.Resting j ↔ w.Resting j)
    (hsame : ∀ j, w.Resting j → (w'.e.pool.slots j).id = (w.e.pool.slots j).id ∧
      (w'.e.pool.slots j).ticket = (w.e.pool.slots j).ticket) : Directory w' tickets where
  found := fun j hj => by
    have hj' := (hresting j).mp hj
    rw [(hsame j hj').1, (hsame j hj').2]
    exact h.found j hj'
  missing := fun id hnone => h.missing id fun j hj => (hsame j hj).1 ▸ hnone j ((hresting j).mpr hj)

theorem close (h : Directory w tickets) (hi : w.Resting i) (hresting : ∀ j, w'.Resting j ↔ w.Resting j ∧ j ≠ i)
    (hsame : ∀ j, w.Resting j → j ≠ i → (w'.e.pool.slots j).id = (w.e.pool.slots j).id ∧
      (w'.e.pool.slots j).ticket = (w.e.pool.slots j).ticket) :
    Directory w' (Function.update tickets (w.e.pool.slots i).id none) where
  found := fun j hj => by
    obtain ⟨hj', hji⟩ := (hresting j).mp hj
    obtain ⟨hid, hticket⟩ := hsame j hj' hji
    rw [hid, hticket, Function.update_of_ne fun heq => hji (hj'.id_inj hi heq)]
    exact h.found j hj'
  missing := fun id hnone => by
    by_cases heq : id = (w.e.pool.slots i).id
    · rw [heq, Function.update_self]
    · rw [Function.update_of_ne heq]
      apply h.missing
      intro j hj hid
      have hji : j ≠ i := fun hji => heq (hji ▸ hid.symm)
      exact hnone j ((hresting j).mpr ⟨hj, hji⟩) ((hsame j hj hji).1.trans hid)

theorem add (h : Directory w tickets) (hlt : i < w.e.pool.capacity) (hlive : (w.e.pool.slots i).live = true)
    (hnot : ¬ w.Resting i) (hresting : ∀ j, w'.Resting j ↔ w.Resting j ∨ j = i)
    (hsame : ∀ j, (w'.e.pool.slots j).id = (w.e.pool.slots j).id ∧
      (w'.e.pool.slots j).ticket = (w.e.pool.slots j).ticket) :
    Directory w' (Function.update tickets (w.e.pool.slots i).id (some (w.e.pool.slots i).ticket)) where
  found := fun j hj => by
    rw [(hsame j).1, (hsame j).2]
    rcases (hresting j).mp hj with hj' | rfl
    · rw [Function.update_of_ne]
      · exact h.found j hj'
      · intro heq
        have hji := w.rep.id_inj hj'.queued.1 hlt hj'.queued.2 hlive heq
        exact hnot (hji ▸ hj')
    · rw [Function.update_self]
  missing := fun id hnone => by
    have hne := hnone i ((hresting i).mpr (Or.inr rfl))
    rw [(hsame i).1] at hne
    rw [Function.update_of_ne (Ne.symm hne)]
    exact h.missing id fun j hj => (hsame j).1 ▸ hnone j ((hresting j).mpr (Or.inl hj))

end Directory

structure Abstracts (w : Ledger) (r : Reference) : Prop where
  cfg : r.cfg = w.e.cfg
  books : ∀ k s p, r.books k s p = (w.q k s p).map fun i => (w.e.pool.slots i).entry
  directory : Directory w r.tickets
  live : r.live + w.free.length + w.loose.length = w.e.pool.capacity

theorem Ledger.count_le (w : Ledger) : w.free.length + w.loose.length ≤ w.e.pool.capacity := by
  have hfree := w.rep.live_free
  have hresting := w.rep.live_resting
  omega

namespace Abstracts

variable {w w' : Ledger} {r : Reference}

theorem init (cfg : Engine.Config) : Abstracts (Ledger.init cfg) (Reference.init cfg) :=
  ⟨rfl, fun _ _ _ => rfl, ⟨fun _ ⟨_, _, _, hi⟩ => absurd hi List.not_mem_nil, fun _ _ => rfl⟩, by
    simp [Ledger.init, Reference.init, Engine.init, OrderPool.init]⟩

theorem setQueue_books (h : Abstracts w r) {k : Nat} {s : Side} {p : Int} {queue : List Nat} {entries : List (Entry Nat)}
    (hqueues : w'.q = Function.update w.q k ((w.q k).set s p queue))
    (hentries : entries = queue.map fun j => (w.e.pool.slots j).entry)
    (hentry : ∀ j, (w'.e.pool.slots j).entry = (w.e.pool.slots j).entry) (k' : Nat) (s' : Side) (p' : Int) :
    (r.setQueue k s p entries).books k' s' p' = (w'.q k' s' p').map fun j => (w'.e.pool.slots j).entry := by
  simp only [hentry]
  rw [Reference.setQueue_books, hqueues]
  split
  · rename_i heq
    obtain ⟨rfl, rfl, rfl⟩ := heq
    rw [Queues.update_set_same, hentries]
  · rename_i hne
    rw [h.books]
    exact congrArg _ (Queues.update_set_of_ne _ hne).symm

theorem congr (h : Abstracts w r) (hcfg : w'.e.cfg = w.e.cfg) (hcapacity : w'.e.pool.capacity = w.e.pool.capacity)
    (hqueues : w'.q = w.q) (hcount : w'.free.length + w'.loose.length = w.free.length + w.loose.length)
    (hsame : ∀ j, w.Resting j → (w'.e.pool.slots j).entry = (w.e.pool.slots j).entry ∧
      (w'.e.pool.slots j).ticket = (w.e.pool.slots j).ticket) : Abstracts w' r where
  cfg := h.cfg.trans hcfg.symm
  books := fun k s p => by
    rw [h.books, hqueues]
    exact List.map_congr_left fun j hj => (hsame j ⟨k, s, p, hj⟩).1.symm
  directory := h.directory.congr (fun j => by rw [Ledger.Resting, hqueues]; rfl)
    fun j hj => ⟨congrArg Entry.id (hsame j hj).1, (hsame j hj).2⟩
  live := by
    have hlive := h.live
    omega

theorem valid (h : Abstracts w r) {k : Nat} {s : Side} {p : Int} (hne : r.books k s p ≠ []) :
    1 ≤ p ∧ p ≤ r.cfg.maxPrice := by
  rw [h.books, ne_eq, List.map_eq_nil_iff] at hne
  rw [h.cfg]
  exact (w.occupied hne).2

theorem best (h : Abstracts w r) (k : Nat) (s : Side) : r.best k s = (w.e.books k).best s := by
  apply Reference.best_eq fun p hne => h.valid hne
  have hsame : (fun p => r.books k s p ≠ []) = fun p => w.q k s p ≠ [] := by
    funext p
    rw [h.books, ne_eq, ne_eq, List.map_eq_nil_iff]
  rw [hsame]
  exact (w.rep.book k).best s

end Abstracts

/-! ### Every move of the ledger is one of the reference -/

section Moves

variable {w w' : Ledger} {r : Reference} {i : Nat}

theorem Order.entry_relinked {o o' : Order} (h : Relinked o o') : o'.entry = o.entry :=
  h.read Order.entry fun _ _ => rfl

theorem Order.ticket_relinked {o o' : Order} (h : Relinked o o') : o'.ticket = o.ticket :=
  h.read Order.ticket fun _ _ => rfl

section Trade

variable {now m : Nat} {rest : List Nat} {px : Int} {x : Nat} {pool : OrderPool}

theorem Fill.resting (h : Fill now i w w' m rest px x pool) (j : Nat) :
    w'.Resting j ↔ w.Resting j ∧ ((pool.slots m).qty = 0 → j ≠ m) := by
  simp only [Ledger.Resting, h.mem_iff]
  exact ⟨fun ⟨k, s, p, hj, hne⟩ => ⟨⟨k, s, p, hj⟩, hne⟩, fun ⟨⟨k, s, p, hj⟩, hne⟩ => ⟨k, s, p, hj, hne⟩⟩

theorem Fill.entry_of_ne (h : Fill now i w w' m rest px x pool) {k : Nat} {s : Side} {p : Int} {j : Nat}
    (hj : j ∈ w.q k s p) (hjm : j ≠ m) : (w'.e.pool.slots j).entry = (w.e.pool.slots j).entry := by
  refine Order.entry_relinked (h.other hjm ?_)
  rintro rfl
  exact (w.rep.loose_mem j (by simp [h.loose])).2.2 k s p hj

theorem Fill.entries (h : Fill now i w w' m rest px x pool) :
    (w'.q (w.e.pool.slots i).symbol (opposite (w.e.pool.slots i).side) px).map (fun j => (w'.e.pool.slots j).entry) =
      shrink (w.e.pool.slots m).entry (rest.map fun j => (w.e.pool.slots j).entry) x := by
  have hleft : (w.e.pool.slots m).entry.qty - x = (pool.slots m).qty := h.maker_seen.qty.symm
  have hnodup := (w.rep.book (w.e.pool.slots i).symbol).nodup (opposite (w.e.pool.slots i).side) px
  rw [h.queue] at hnodup
  have hrest : rest.map (fun j => (w'.e.pool.slots j).entry) = rest.map fun j => (w.e.pool.slots j).entry := by
    refine List.map_congr_left fun j hj => h.entry_of_ne (by rw [h.queue]; exact List.mem_cons_of_mem m hj) ?_
    rintro rfl
    exact (List.nodup_cons.mp hnodup).1 hj
  rw [h.queue_same, shrink, hleft]
  split
  · exact hrest
  · rename_i hne
    have hm : (w'.e.pool.slots m).entry = ⟨(w.e.pool.slots m).entry.id, (pool.slots m).qty⟩ := by
      rw [h.pool', if_neg hne, Order.entry, h.seen_read Order.id (fun _ _ _ => rfl) (fun _ _ => rfl) m]
      rfl
    rw [List.map_cons, hrest, hm]

theorem Fill.abstracts (h : Fill now i w w' m rest px x pool) (habs : Abstracts w r) :
    Abstracts w' (r.afterTrade (w.e.pool.slots i).symbol (opposite (w.e.pool.slots i).side) px (w.e.pool.slots m).entry
      (rest.map fun j => (w.e.pool.slots j).entry) x) := by
  have hleft : (w.e.pool.slots m).entry.qty - x = (pool.slots m).qty := h.maker_seen.qty.symm
  have hsame : ∀ j, ((pool.slots m).qty = 0 → j ≠ m) → (w'.e.pool.slots j).id = (w.e.pool.slots j).id ∧
      (w'.e.pool.slots j).ticket = (w.e.pool.slots j).ticket :=
    fun j hj => ⟨h.read Order.id (fun _ _ _ => rfl) (fun _ _ => rfl) hj,
      h.read Order.ticket (fun _ _ _ => rfl) (fun _ _ => rfl) hj⟩
  constructor
  case cfg =>
    rw [h.cfg', ← habs.cfg, Reference.afterTrade]
    split <;> rfl
  case books =>
    intro k s p
    rw [Reference.afterTrade, Reference.setQueue_books]
    split
    · rename_i heq
      obtain ⟨rfl, rfl, rfl⟩ := heq
      exact h.entries.symm
    · rename_i hne
      have hbooks : (if (w.e.pool.slots m).entry.qty - x = 0 then r.close (w.e.pool.slots m).entry.id else r).books
          = r.books := by
        split <;> rfl
      rw [hbooks, habs.books, h.queue_of_ne hne]
      refine List.map_congr_left fun j hj => (h.entry_of_ne hj ?_).symm
      rintro rfl
      exact hne (w.rep.queue_unique h.mem hj)
  case directory =>
    rw [Reference.afterTrade, hleft]
    by_cases hzero : (pool.slots m).qty = 0
    · rw [if_pos hzero]
      exact habs.directory.close ⟨_, _, _, h.mem⟩ (fun j => by rw [h.resting]; simp [hzero])
        fun j _ hj => hsame j fun _ => hj
    · rw [if_neg hzero]
      exact habs.directory.congr (fun j => by rw [h.resting]; simp [hzero])
        fun j _ => hsame j fun hz => absurd hz hzero
  case live =>
    have hcapacity : w'.e.pool.capacity = w.e.pool.capacity := by
      rw [← h.traded.capacity, h.pool']
      split <;> rfl
    have hcount := w'.count_le
    have hlive := habs.live
    rw [h.loose] at hlive
    rw [h.loose', h.free', hcapacity] at hcount
    rw [Reference.afterTrade, hleft, h.loose', h.free', hcapacity]
    by_cases hzero : (pool.slots m).qty = 0
    · rw [if_pos hzero] at hcount ⊢
      rw [if_pos hzero]
      change r.live - 1 + _ + _ = _
      simp only [List.length_cons, List.length_nil] at *
      omega
    · rw [if_neg hzero, if_neg hzero]
      exact hlive

end Trade

theorem Abstracts.remaining (h : Abstracts w r)
    (hi : i ∈ w.q (w.e.pool.slots i).symbol (w.e.pool.slots i).side (w.e.pool.slots i).price) :
    r.remaining (w.e.pool.slots i).id (w.e.pool.slots i).ticket = (w.e.pool.slots i).qty := by
  have hfind : (w.q (w.e.pool.slots i).symbol (w.e.pool.slots i).side (w.e.pool.slots i).price).find?
      (fun j => decide ((w.e.pool.slots j).id = (w.e.pool.slots i).id)) = some i := by
    cases hfound : (w.q (w.e.pool.slots i).symbol (w.e.pool.slots i).side (w.e.pool.slots i).price).find?
        (fun j => decide ((w.e.pool.slots j).id = (w.e.pool.slots i).id)) with
    | none => exact absurd (List.find?_eq_none.mp hfound i hi) (by simp)
    | some j =>
      have hj : w.Resting j := ⟨_, _, _, List.mem_of_find?_eq_some hfound⟩
      have hid : (w.e.pool.slots j).id = (w.e.pool.slots i).id := by simpa using List.find?_some hfound
      rw [hj.id_inj ⟨_, _, _, hi⟩ hid]
  change ((r.books (w.e.pool.slots i).symbol (w.e.pool.slots i).side (w.e.pool.slots i).price).find? _).elim 0 _ = _
  rw [h.books, List.find?_map]
  have hcomp : ((fun x : Entry Nat => decide (x.id = (w.e.pool.slots i).id)) ∘ fun j => (w.e.pool.slots j).entry)
      = fun j => decide ((w.e.pool.slots j).id = (w.e.pool.slots i).id) := rfl
  rw [hcomp, hfind]
  rfl

theorem Taken.resting (h : Taken i w w') (j : Nat) : w'.Resting j ↔ w.Resting j ∧ j ≠ i := by
  constructor
  · rintro ⟨k, s, p, hj⟩
    refine ⟨⟨k, s, p, (h.sublist k s p).subset hj⟩, ?_⟩
    rintro rfl
    exact (w'.rep.loose_mem j (by simp [h.loose'])).2.2 k s p hj
  · rintro ⟨⟨k, s, p, hj⟩, hji⟩
    exact ⟨k, s, p, h.mem_of_ne hji hj⟩

theorem Taken.abstracts (h : Taken i w w') (habs : Abstracts w r) :
    Abstracts w' (r.delete (w.e.pool.slots i).id (w.e.pool.slots i).ticket) := by
  have hentry : ∀ j, (w'.e.pool.slots j).entry = (w.e.pool.slots j).entry := fun j => Order.entry_relinked (h.slots j)
  have hticket : ∀ j, (w'.e.pool.slots j).ticket = (w.e.pool.slots j).ticket := fun j => Order.ticket_relinked (h.slots j)
  constructor
  case cfg => exact habs.cfg.trans h.cfg'.symm
  case books =>
    refine habs.setQueue_books h.queues' ?_ hentry
    change List.filter _ (r.books (w.e.pool.slots i).symbol (w.e.pool.slots i).side (w.e.pool.slots i).price) = _
    have hnodup := (w.rep.book (w.e.pool.slots i).symbol).nodup (w.e.pool.slots i).side (w.e.pool.slots i).price
    rw [habs.books, hnodup.erase_eq_filter, List.filter_map]
    refine congrArg _ (List.filter_congr fun j hj => ?_)
    have hiff : (w.e.pool.slots j).id ≠ (w.e.pool.slots i).id ↔ j ≠ i := by
      refine not_congr ⟨fun heq => ?_, fun heq => heq ▸ rfl⟩
      exact Ledger.Resting.id_inj ⟨_, _, _, hj⟩ ⟨_, _, _, h.mem⟩ heq
    rw [Bool.eq_iff_iff, bne_iff_ne, ← hiff]
    exact decide_eq_true_iff
  case directory =>
    exact habs.directory.close ⟨_, _, _, h.mem⟩ h.resting fun j _ _ => ⟨congrArg Entry.id (hentry j), hticket j⟩
  case live =>
    have hcount := w'.count_le
    have hlive := habs.live
    rw [h.loose', h.free', h.capacity] at *
    rw [h.loose] at hlive
    change r.live - 1 + _ + _ = _
    simp only [List.length_cons, List.length_nil] at *
    omega

theorem Rested.resting (h : Rested i w w') (j : Nat) : w'.Resting j ↔ w.Resting j ∨ j = i := by
  constructor
  · rintro ⟨k, s, p, hj⟩
    rcases h.mem_of_mem hj with hj | ⟨rfl, _⟩
    · exact Or.inl ⟨k, s, p, hj⟩
    · exact Or.inr rfl
  · rintro (⟨k, s, p, hj⟩ | rfl)
    · refine ⟨k, s, p, ?_⟩
      rw [h.queues']
      by_cases heq : k = (w.e.pool.slots i).symbol ∧ s = (w.e.pool.slots i).side ∧ p = (w.e.pool.slots i).price
      · obtain ⟨rfl, rfl, rfl⟩ := heq
        rw [Queues.update_set_same]
        exact List.mem_append_left _ hj
      · rwa [Queues.update_set_of_ne _ heq]
    · refine ⟨(w.e.pool.slots j).symbol, (w.e.pool.slots j).side, (w.e.pool.slots j).price, ?_⟩
      rw [h.queues', Queues.update_set_same]
      exact List.mem_append_right _ (List.mem_singleton_self j)

theorem Rested.abstracts (h : Rested i w w') (habs : Abstracts w r) :
    Abstracts w' (r.rest (w.e.pool.slots i).id (w.e.pool.slots i).ticket (w.e.pool.slots i).qty) := by
  have hentry : ∀ j, (w'.e.pool.slots j).entry = (w.e.pool.slots j).entry := fun j => Order.entry_relinked (h.slots j)
  have hticket : ∀ j, (w'.e.pool.slots j).ticket = (w.e.pool.slots j).ticket := fun j => Order.ticket_relinked (h.slots j)
  obtain ⟨hlt, hlive, hfresh⟩ := w.rep.loose_mem i (by simp [h.loose])
  constructor
  case cfg => exact habs.cfg.trans h.cfg'.symm
  case books =>
    refine habs.setQueue_books h.queues' ?_ hentry
    change r.books (w.e.pool.slots i).symbol (w.e.pool.slots i).side (w.e.pool.slots i).price ++ _ = _
    rw [habs.books, List.map_append]
    rfl
  case directory =>
    exact habs.directory.add hlt hlive (fun ⟨k, s, p, hi⟩ => hfresh k s p hi) h.resting
      fun j => ⟨congrArg Entry.id (hentry j), hticket j⟩
  case live =>
    have hcount := habs.live
    rw [h.loose] at hcount
    rw [h.loose', h.free', h.capacity]
    change r.live + 1 + _ + _ = _
    simp only [List.length_cons, List.length_nil] at *
    omega

theorem Reduced.abstracts {qty : Nat} (h : Reduced i qty w w') (habs : Abstracts w r) :
    Abstracts w' (r.setQueue (w.e.pool.slots i).symbol (w.e.pool.slots i).side (w.e.pool.slots i).price
      ((r.books (w.e.pool.slots i).symbol (w.e.pool.slots i).side (w.e.pool.slots i).price).map fun x =>
        if x.id = (w.e.pool.slots i).id then ⟨(w.e.pool.slots i).id, qty⟩ else x)) := by
  have hself : (w'.e.pool.slots i).entry = ⟨(w.e.pool.slots i).id, qty⟩ := by
    rw [h.slot]
    rfl
  have hother : ∀ j, j ≠ i → w'.e.pool.slots j = w.e.pool.slots j := by
    intro j hj
    rw [h.pool', OrderPool.modify_slots, if_neg hj]
  have hticket : ∀ j, (w'.e.pool.slots j).id = (w.e.pool.slots j).id ∧
      (w'.e.pool.slots j).ticket = (w.e.pool.slots j).ticket := by
    intro j
    rw [h.pool', OrderPool.modify_slots]
    split <;> exact ⟨rfl, rfl⟩
  constructor
  case cfg => exact habs.cfg.trans h.cfg'.symm
  case books =>
    intro k s p
    rw [Reference.setQueue_books, h.queues']
    split
    · rename_i heq
      obtain ⟨rfl, rfl, rfl⟩ := heq
      rw [habs.books, List.map_map]
      refine List.map_congr_left fun j hj => ?_
      by_cases hji : j = i
      · subst hji
        exact (if_pos rfl).trans hself.symm
      · rw [hother j hji]
        exact if_neg fun heq => hji (Ledger.Resting.id_inj ⟨_, _, _, hj⟩ ⟨_, _, _, h.mem⟩ heq)
    · rename_i hne
      rw [habs.books]
      refine List.map_congr_left fun j hj => ?_
      rw [hother]
      rintro rfl
      exact hne (w.rep.queue_unique h.mem hj)
  case directory =>
    exact habs.directory.congr (fun j => by rw [Ledger.Resting, h.queues']; rfl) fun j _ => hticket j
  case live =>
    have hlive := habs.live
    rw [h.loose] at hlive
    rw [h.loose', h.free', h.pool']
    exact hlive

theorem Idle.abstracts (h : Idle w w') (habs : Abstracts w r) : Abstracts w' r :=
  habs.congr h.cfg' (by rw [h.pool']) h.queues' (by rw [h.free', h.loose']) fun j _ => by
    rw [h.pool']
    exact ⟨rfl, rfl⟩

theorem Freed.abstracts (h : Freed i w w') (habs : Abstracts w r) : Abstracts w' r := by
  refine habs.congr h.cfg' (by rw [h.pool']; rfl) h.queues' ?_ fun j ⟨k, s, p, hj⟩ => ?_
  · rw [h.free', h.loose', h.loose]
    simp only [List.length_cons, List.length_nil]
  · have hji : j ≠ i := by
      rintro rfl
      exact (w.rep.loose_mem j (by simp [h.loose])).2.2 k s p hj
    rw [h.pool', OrderPool.free_slots_of_ne _ hji]
    exact ⟨rfl, rfl⟩

theorem Repriced.abstracts {price : Int} {qty : Nat} (h : Repriced i price qty w w') (habs : Abstracts w r) :
    Abstracts w' r := by
  refine habs.congr h.cfg' (by rw [h.pool']; rfl) h.queues' (by rw [h.free', h.loose', h.loose])
    fun j ⟨k, s, p, hj⟩ => ?_
  have hji : j ≠ i := by
    rintro rfl
    exact (w.rep.loose_mem j (by simp [h.loose])).2.2 k s p hj
  rw [h.pool', OrderPool.modify_slots, if_neg hji]
  exact ⟨rfl, rfl⟩

theorem Admitted.abstracts {c : Command} (h : Admitted c i w w') (habs : Abstracts w r) : Abstracts w' r := by
  refine habs.congr h.cfg' h.capacity h.queues' ?_ fun j ⟨k, s, p, hj⟩ => ?_
  · rw [h.free, h.loose', h.loose]
    simp only [List.length_cons, List.length_nil]
  · have hji : j ≠ i := by
      rintro rfl
      exact w.rep.not_mem_queue_of_free (by simp [h.free]) k s p hj
    rw [h.slots', Function.update_of_ne hji]
    exact ⟨rfl, rfl⟩

end Moves

/-! ### Events -/

/-- An event without its time. -/
def Event.untimed (ev : Event) : Event := { ev with tsNs := 0 }

/-- The order and trade events of a log, times aside. -/
def visible (log : List Emission) : List Event :=
  ((log.map Emission.event).filter fun ev => ev.kind ≠ .top).map Event.untimed

/-- The identifier of the accepted order, if any. -/
def assigned (log : List Emission) : Nat :=
  match log.head? with
  | none => 0
  | some t => if t.event.kind = .accepted then t.event.orderId else 0

theorem visible_append (log log' : List Emission) : visible (log ++ log') = visible log ++ visible log' := by
  simp [visible]

theorem visible_tops {tops : List Emission} (htops : ∀ t ∈ tops, IsTop t) : visible tops = [] := by
  simp only [visible, List.map_eq_nil_iff, List.filter_eq_nil_iff, List.mem_map]
  rintro ev ⟨t, ht, rfl⟩
  simp [(htops t ht).1]

theorem visible_cons {t : Emission} (log : List Emission) (ht : t.event.kind ≠ .top) :
    visible (t :: log) = t.event.untimed :: visible log := by
  simp [visible, ht]

theorem base_untimed (now : Nat) (k : Event.Kind) (o : Order) :
    (Engine.base now k o).untimed = Reference.event k o.id o.ticket o.qty := rfl

theorem base_relinked {now : Nat} {k : Event.Kind} {o o' : Order} (h : Relinked o o') :
    Engine.base now k o' = Engine.base now k o :=
  h.read (Engine.base now k) fun _ _ => rfl

/-! ### Matching -/

theorem Reference.reaches_eq_true {type : OrderType} {t : Ticket} {p : Int} :
    reaches type t p = true ↔ (type = .limit → Book.crosses t.side t.price p = true) := by
  cases type with
  | market => simp [reaches]
  | limit => cases hside : t.side <;> simp [reaches, Book.crosses, hside]

/-- One fill is one trade of the reference. -/
theorem Fill.execute {now i m : Nat} {w w' : Ledger} {rest : List Nat} {px : Int} {x : Nat} {pool : OrderPool}
    {r : Reference} (h : Fill now i w w' m rest px x pool) (habs : Abstracts w r) :
    ∃ r', Abstracts w' r' ∧
      r.execute (w.e.pool.slots i).id (w.e.pool.slots i).ticket (w.e.pool.slots i).type (w.e.pool.slots i).tif
          (w.e.pool.slots i).qty =
        ((r'.execute (w'.e.pool.slots i).id (w'.e.pool.slots i).ticket (w'.e.pool.slots i).type (w'.e.pool.slots i).tif
          (w'.e.pool.slots i).qty).1,
        visible (fillEmissions now m i px x pool) ++
          (r'.execute (w'.e.pool.slots i).id (w'.e.pool.slots i).ticket (w'.e.pool.slots i).type
            (w'.e.pool.slots i).tif (w'.e.pool.slots i).qty).2) := by
  refine ⟨_, h.abstracts habs, ?_⟩
  rw [h.taker_read Order.id (fun _ _ _ => rfl) fun _ _ => rfl,
    h.taker_read Order.ticket (fun _ _ _ => rfl) fun _ _ => rfl, h.type, h.tif, h.qty]
  have hvalid := w.occupied (List.ne_nil_of_mem h.mem)
  have hpos := h.amount_pos
  have hamount := h.amount
  have hevents : visible (fillEmissions now m i px x pool) =
      Reference.tradeEvents (w.e.pool.slots i).id (w.e.pool.slots i).ticket (w.e.pool.slots m).ticket
        ⟨px, (w.e.pool.slots m).entry.id, x, (w.e.pool.slots m).entry.qty - x, (w.e.pool.slots i).qty - x⟩ := by
    rw [fillEmissions, Engine.fillEvents, base_relinked h.maker_seen, base_relinked h.taker_seen,
      h.seen_read Order.side (fun _ _ _ => rfl) (fun _ _ => rfl) i,
      h.seen_read Order.symbol (fun _ _ _ => rfl) (fun _ _ => rfl) i]
    rfl
  rw [hevents]
  refine Reference.execute_trade hvalid.2.1 (by rw [habs.cfg]; exact hvalid.2.2)
    (Reference.reaches_eq_true.mpr h.crosses) (fun a hbetter => ?_) ?_
    (habs.directory.found m ⟨_, _, _, h.mem⟩) (by omega) hamount
  · rw [habs.books, List.map_eq_nil_iff]
    by_contra hne
    have hbest := (w.rep.book (w.e.pool.slots i).symbol).best (opposite (w.e.pool.slots i).side)
    rw [h.best] at hbest
    have hnot := hbest.not_better hne
    rw [show Book.better (opposite (w.e.pool.slots i).side) a px = true from hbetter] at hnot
    exact absurd hnot (by decide)
  · rw [habs.books]
    exact congrArg _ h.queue

theorem Fills.execute {now i : Nat} {w w' : Ledger} {log : List Emission} (h : Fills now i w w' log) (r : Reference)
    (habs : Abstracts w r) :
    ∃ r', Abstracts w' r' ∧
      r.execute (w.e.pool.slots i).id (w.e.pool.slots i).ticket (w.e.pool.slots i).type (w.e.pool.slots i).tif
          (w.e.pool.slots i).qty =
        ((r'.execute (w'.e.pool.slots i).id (w'.e.pool.slots i).ticket (w'.e.pool.slots i).type (w'.e.pool.slots i).tif
          (w'.e.pool.slots i).qty).1,
        visible log ++
          (r'.execute (w'.e.pool.slots i).id (w'.e.pool.slots i).ticket (w'.e.pool.slots i).type
            (w'.e.pool.slots i).tif (w'.e.pool.slots i).qty).2) := by
  induction h generalizing r with
  | refl => exact ⟨r, habs, rfl⟩
  | head hfill _ ih =>
    obtain ⟨r₁, habs₁, hexec₁⟩ := hfill.execute habs
    obtain ⟨r', habs', hexec'⟩ := ih r₁ habs₁
    refine ⟨r', habs', ?_⟩
    rw [hexec₁, hexec', visible_append, List.append_assoc]

/-- The order that stopped finds nothing to trade with in the reference either. -/
theorem Stopped.reaches {i : Nat} {w : Ledger} {r : Reference} (h : Stopped i w) (habs : Abstracts w r) :
    (w.e.pool.slots i).qty = 0 ∨ ∀ p, Reference.reaches (w.e.pool.slots i).type (w.e.pool.slots i).ticket p = true →
      r.books (w.e.pool.slots i).symbol (opposite (w.e.pool.slots i).side) p = [] := by
  by_cases hqty : (w.e.pool.slots i).qty = 0
  · exact Or.inl hqty
  · refine Or.inr fun p hreach => ?_
    rw [habs.books, List.map_eq_nil_iff]
    by_contra hne
    rcases h with hzero | hnone | ⟨hlimit, hcross⟩
    · exact hqty hzero
    · exact hne (((w.rep.book _).best_eq_kNoPrice_iff _).mp hnone p)
    · have hnot := Stopped.not_crosses (Or.inr (Or.inr ⟨hlimit, hcross⟩)) hqty hne
      rw [show Book.crosses (w.e.pool.slots i).side (w.e.pool.slots i).price p = true from
        Reference.reaches_eq_true.mp hreach hlimit] at hnot
      exact absurd hnot (by decide)

theorem Ended.execute {now i : Nat} {w w' : Ledger} {log : List Emission} {r : Reference} (h : Ended now i w w' log)
    (hstopped : Stopped i w) (habs : Abstracts w r) :
    ∃ r', Abstracts w' r' ∧
      r.execute (w.e.pool.slots i).id (w.e.pool.slots i).ticket (w.e.pool.slots i).type (w.e.pool.slots i).tif
        (w.e.pool.slots i).qty = (r', visible log) := by
  rw [Reference.execute_stop (hstopped.reaches habs)]
  cases h with
  | done hqty hfreed =>
    rw [if_pos hqty]
    exact ⟨r, hfreed.abstracts habs, rfl⟩
  | killed hqty hkill hfreed =>
    rw [if_neg hqty, if_neg]
    · exact ⟨r, hfreed.abstracts habs, rfl⟩
    · rintro ⟨hlimit, hgtc⟩
      rcases hkill with hmarket | hioc
      · rw [hlimit] at hmarket
        exact OrderType.noConfusion hmarket
      · rw [hgtc] at hioc
        exact Tif.noConfusion hioc
  | rested hqty htype htif hrested =>
    rw [if_neg hqty, if_pos ⟨htype, htif⟩]
    exact ⟨_, hrested.abstracts habs, rfl⟩

theorem Matched.execute {now i : Nat} {w w' : Ledger} {log : List Emission} {r : Reference} (h : Matched now i w w' log)
    (habs : Abstracts w r) :
    ∃ r', Abstracts w' r' ∧
      r.execute (w.e.pool.slots i).id (w.e.pool.slots i).ticket (w.e.pool.slots i).type (w.e.pool.slots i).tif
        (w.e.pool.slots i).qty = (r', visible log) := by
  obtain ⟨hfills, hstopped, hended⟩ := h
  obtain ⟨r₁, habs₁, hexec₁⟩ := hfills.execute r habs
  obtain ⟨r', habs', hexec'⟩ := hended.execute hstopped habs₁
  refine ⟨r', habs', ?_⟩
  rw [hexec₁, hexec', visible_append]

theorem Repriced.ticket {i qty : Nat} {price : Int} {w w₁ w₂ : Ledger} (h : Repriced i price qty w₁ w₂)
    (htaken : Taken i w w₁) : (w₂.e.pool.slots i).ticket = { (w.e.pool.slots i).ticket with price := price } := by
  rw [h.slot, ← Order.ticket_relinked (htaken.slots i)]
  rfl

/-- The order on its way through a Replace, as the reference matches it. -/
theorem Repriced.execute {now i qty : Nat} {price : Int} {w w₁ w₂ w' : Ledger} {log : List Emission} {r : Reference}
    (h : Repriced i price qty w₁ w₂) (htaken : Taken i w w₁) (hmatched : Matched now i w₂ w' log) (habs : Abstracts w r) :
    ∃ r', Abstracts w' r' ∧ (r.delete (w.e.pool.slots i).id (w.e.pool.slots i).ticket).execute (w.e.pool.slots i).id
      { (w.e.pool.slots i).ticket with price := price } .limit .gtc qty = (r', visible log) := by
  obtain ⟨r', habs', hexec⟩ := hmatched.execute (h.abstracts (htaken.abstracts habs))
  obtain ⟨htype, htif⟩ := h.limit htaken
  have hqty : (w₂.e.pool.slots i).qty = qty := by rw [h.slot]
  rw [h.id htaken, h.ticket htaken, htype, htif, hqty] at hexec
  exact ⟨r', habs', hexec⟩

/-! ### Commands -/

section Commands

variable {now : Nat} {c : Command} {w w' : Ledger} {r : Reference} {log : List Emission}

theorem Owned.ticket {i : Nat} (h : Owned w c i) (hloose : w.loose = []) (habs : Abstracts w r) :
    r.tickets c.orderId = some (w.e.pool.slots i).ticket := by
  rw [← h.id]
  exact habs.directory.found i ⟨_, _, _, h.mem hloose⟩

theorem Owned.process {i : Nat} (h : Owned w c i) (hkind : c.kind ≠ .new) (hloose : w.loose = []) (habs : Abstracts w r)
    (id : Nat) :
    r.process c id = if c.kind = .cancel then r.onCancel c (w.e.pool.slots i).ticket
      else r.onReplace c (w.e.pool.slots i).ticket := by
  have hsession : ¬ (w.e.pool.slots i).ticket.session ≠ c.session := not_not.mpr h.session
  cases hc : c.kind with
  | new => exact absurd hc hkind
  | cancel => simp only [Reference.process, hc, h.ticket hloose habs, if_neg hsession]
  | replace => simp only [Reference.process, hc, h.ticket hloose habs, if_neg hsession]

theorem Refused.reference {reason : RejectReason} (h : Refused w c reason) (hloose : w.loose = [])
    (habs : Abstracts w r) (id : Nat) : r.process c id = (r, [Reference.reject c reason]) := by
  have hlive := habs.live
  rw [hloose] at hlive
  simp only [List.length_nil, Nat.add_zero] at hlive
  cases h with
  | badSymbol hkind hsymbol =>
    rw [← habs.cfg] at hsymbol
    simp only [Reference.process, hkind, Reference.onNew, if_pos hsymbol]
  | newQty hkind hsymbol hqty =>
    rw [← habs.cfg, ← not_le] at hsymbol
    simp only [Reference.process, hkind, Reference.onNew, if_neg hsymbol, if_pos hqty]
  | newPrice hkind hsymbol hqty htype hprice =>
    rw [← habs.cfg] at hsymbol hprice
    rw [← not_le] at hsymbol
    simp only [Reference.process, hkind, Reference.onNew, if_neg hsymbol, if_neg hqty]
    exact if_pos ⟨htype, hprice⟩
  | bookFull hnew hfree =>
    have hsymbol : ¬ r.cfg.symbols ≤ c.symbol := not_le.mpr (habs.cfg.symm ▸ hnew.symbol)
    have hprice : ¬ (c.type = .limit ∧ ¬ (1 ≤ c.price ∧ c.price ≤ r.cfg.maxPrice)) :=
      fun hbad => hbad.2 (habs.cfg.symm ▸ hnew.price hbad.1)
    have hfull : r.live = r.cfg.maxOrders := by
      rw [hfree, w.rep.capacity] at hlive
      rw [habs.cfg]
      exact hlive
    simp only [Reference.process, hnew.kind, Reference.onNew, if_neg hsymbol, if_neg hnew.qty, if_neg hprice,
      if_pos hfull]
  | unknownOrder hkind hnone =>
    have hmissing : r.tickets c.orderId = none :=
      habs.directory.missing _ fun i hi => hnone i hi.queued.1 hi.queued.2
    cases hc : c.kind with
    | new => exact absurd hc hkind
    | cancel => simp only [Reference.process, hc, hmissing]
    | replace => simp only [Reference.process, hc, hmissing]
  | @notOwner i hkind hlt hlive hid hsession =>
    have hmem := (w.mem_iff hloose i _ _ _).mpr ⟨hlt, hlive, rfl, rfl, rfl⟩
    have hfound : r.tickets c.orderId = some (w.e.pool.slots i).ticket := by
      rw [← hid]
      exact habs.directory.found i ⟨_, _, _, hmem⟩
    have hother : (w.e.pool.slots i).ticket.session ≠ c.session := hsession
    cases hc : c.kind with
    | new => exact absurd hc hkind
    | cancel => simp only [Reference.process, hc, hfound, if_pos hother]
    | replace => simp only [Reference.process, hc, hfound, if_pos hother]
  | replaceQty hkind howned hqty =>
    rw [howned.process (by simp [hkind]) hloose habs, if_neg (by simp [hkind]), Reference.onReplace, if_pos hqty]
  | replacePrice hkind howned hqty hprice =>
    rw [howned.process (by simp [hkind]) hloose habs, if_neg (by simp [hkind]), Reference.onReplace, if_neg hqty]
    rw [← habs.cfg] at hprice
    exact if_pos hprice

/-- Every command is the same command of the reference. -/
theorem Processed.reference (h : Processed now c w w' log) (hloose : w.loose = []) (habs : Abstracts w r) :
    ∃ r', Abstracts w' r' ∧ r.process c (assigned log) = (r', visible log) := by
  cases h with
  | refused hrefused hidle => exact ⟨r, hidle.abstracts habs, hrefused.reference hloose habs _⟩
  | @accepted i w₁ log hnew hadmitted hmatched =>
    have hslot : w₁.e.pool.slots i = c.order (w.e.pool.slots i).gen i := by
      rw [hadmitted.slots', Function.update_self]
    obtain ⟨r', habs', hexec⟩ := hmatched.execute (hadmitted.abstracts habs)
    rw [hslot] at hexec
    refine ⟨r', habs', ?_⟩
    have hsymbol : ¬ r.cfg.symbols ≤ c.symbol := not_le.mpr (habs.cfg.symm ▸ hnew.symbol)
    have hprice : ¬ (c.type = .limit ∧ ¬ (1 ≤ c.price ∧ c.price ≤ r.cfg.maxPrice)) :=
      fun hbad => hbad.2 (habs.cfg.symm ▸ hnew.price hbad.1)
    have hroom : r.live ≠ r.cfg.maxOrders := by
      have hlive := habs.live
      rw [hadmitted.free, w.rep.capacity, ← habs.cfg] at hlive
      simp only [List.length_cons] at hlive
      omega
    rw [visible_cons _ (by simp [Engine.base]), base_untimed, hslot]
    simp only [Reference.process, hnew.kind, Reference.onNew, if_neg hsymbol, if_neg hnew.qty, if_neg hprice,
      if_neg hroom]
    exact congrArg (fun done : Reference × List Event => (done.1, Reference.event .accepted _ _ c.qty :: done.2)) hexec
  | @cancelled i w₁ hkind howned htaken hfreed =>
    refine ⟨_, hfreed.abstracts (htaken.abstracts habs), ?_⟩
    rw [howned.process (by simp [hkind]) hloose habs, if_pos hkind, Reference.onCancel,
      visible_cons _ (by simp [Engine.base]), base_relinked (htaken.slots i), base_untimed, ← howned.id,
      habs.remaining htaken.mem]
    rfl
  | @reduced i hreplaces hprice hqty hreduced =>
    obtain ⟨hkind, howned, hzero, hvalid⟩ := hreplaces
    have hkeeps : c.price = (w.e.pool.slots i).ticket.price ∧
        c.qty ≤ r.remaining (w.e.pool.slots i).id (w.e.pool.slots i).ticket := by
      rw [habs.remaining hreduced.mem]
      exact ⟨hprice, hqty⟩
    refine ⟨_, hreduced.abstracts habs, ?_⟩
    rw [howned.process (by simp [hkind]) hloose habs, if_neg (by simp [hkind]), Reference.onReplace, if_neg hzero,
      if_neg (not_not.mpr (habs.cfg.symm ▸ hvalid)), ← howned.id, if_pos hkeeps, visible_cons _ (by simp [Engine.base]),
      base_untimed, hreduced.slot]
    rfl
  | @replaced i w₁ w₂ log hreplaces hmoves htaken hrepriced hmatched =>
    obtain ⟨hkind, howned, hzero, hvalid⟩ := hreplaces
    have hkeeps : ¬ (c.price = (w.e.pool.slots i).ticket.price ∧
        c.qty ≤ r.remaining (w.e.pool.slots i).id (w.e.pool.slots i).ticket) := by
      rw [habs.remaining htaken.mem]
      exact hmoves
    obtain ⟨r', habs', hexec⟩ := hrepriced.execute htaken hmatched habs
    have hqty : (w₂.e.pool.slots i).qty = c.qty := by rw [hrepriced.slot]
    refine ⟨r', habs', ?_⟩
    rw [howned.process (by simp [hkind]) hloose habs, if_neg (by simp [hkind]), Reference.onReplace, if_neg hzero,
      if_neg (not_not.mpr (habs.cfg.symm ▸ hvalid)), ← howned.id, if_neg hkeeps, visible_cons _ (by simp [Engine.base]),
      base_untimed, hrepriced.id htaken, hrepriced.ticket htaken, hqty]
    exact congrArg (fun done : Reference × List Event => (done.1, Reference.event .replaced _ _ c.qty :: done.2)) hexec

end Commands

/-! ### Runs -/

/-- The commands with the identifiers the pool assigned. -/
def Engine.withIds (e : Engine) : List (Nat × Command) → List (Command × Nat)
  | [] => []
  | (now, c) :: cmds => (c, assigned (e.process now c).2) :: (e.process now c).1.withIds cmds

theorem assigned_append {now : Nat} {c : Command} {w w' : Ledger} {log : List Emission} (h : Processed now c w w' log)
    (tops : List Emission) : assigned (log ++ tops) = assigned log := by
  cases h <;> rfl

theorem Ledger.run_reference (cmds : List (Nat × Command)) (w : Ledger) (r : Reference) (hloose : w.loose = [])
    (habs : Abstracts w r) :
    r.log (w.e.withIds cmds) = visible (w.e.log cmds) ∧
      ∃ w', w'.e = w.e.run cmds ∧ Abstracts w' (r.run (w.e.withIds cmds)) := by
  induction cmds generalizing w r with
  | nil => exact ⟨rfl, w, rfl, habs⟩
  | cons cmd cmds ih =>
    obtain ⟨now, c⟩ := cmd
    obtain ⟨w₁, log, tops, hprocessed, hw₁, hlog, htops⟩ := w.process hloose now c
    obtain ⟨r₁, habs₁, href⟩ := hprocessed.reference hloose habs
    obtain ⟨hevents, w', hw', habs'⟩ := ih w₁ r₁ (hprocessed.loose hloose) habs₁
    rw [hw₁] at hevents hw' habs'
    have hid : assigned (w.e.process now c).2 = assigned log := by rw [hlog, assigned_append hprocessed]
    simp only [Engine.withIds, Reference.log, Reference.run, Engine.log, Engine.run, hid, href]
    refine ⟨?_, w', hw', habs'⟩
    rw [hevents, hlog, visible_append, visible_append, visible_tops htops, List.append_nil]

/-- Along every run of a fresh engine, the order and trade events and the best prices of all books are the reference's. -/
theorem Engine.run_refines (cfg : Engine.Config) (cmds : List (Nat × Command)) :
    visible ((Engine.init cfg).log cmds) = (Reference.init cfg).log ((Engine.init cfg).withIds cmds) ∧
      ∀ k s, (((Engine.init cfg).run cmds).books k).best s
        = ((Reference.init cfg).run ((Engine.init cfg).withIds cmds)).best k s := by
  obtain ⟨hevents, w', hw', habs'⟩ := Ledger.run_reference cmds (Ledger.init cfg) _ rfl (Abstracts.init cfg)
  refine ⟨hevents.symm, fun k s => ?_⟩
  have hbest := habs'.best k s
  rw [hw'] at hbest
  exact hbest.symm

end Matchbox
