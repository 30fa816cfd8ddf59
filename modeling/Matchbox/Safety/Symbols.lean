import Mathlib.Algebra.Order.BigOperators.Group.Finset
import Matchbox.Reference.Mirror
import Matchbox.Reference.Refines
import Matchbox.Safety.Identity
import Matchbox.Safety.Top

/-!
# Symbols do not see each other

All books take their orders from one pool, so a command on one symbol decides which slots and identifiers the orders of another get. Nothing else crosses over. `project` picks the commands that concern a symbol out of a history and runs them on an engine of their own, with the identifiers of the one run replaced by those of the other; `run_project` says that this engine answers them alike and ends with the same queues.

The two engines are compared through their references: `Alike` carries `Mirror` along both runs, with what the logs say about the identifiers given out so far.
-/

namespace Matchbox

open Sweep Reference

/-! ### The commands of one symbol -/

/-- A New on symbol `k`, or a Cancel or Replace of an order that has a name, which the orders accepted on `k` have. -/
def Command.concerns (k : Nat) (names : Nat → Option Nat) (c : Command) : Bool :=
  match c.kind with
  | .new => c.symbol = k
  | .cancel | .replace => (names c.orderId).isSome

/-- The command with the identifier of the other run. -/
def Command.rename (names : Nat → Option Nat) (c : Command) : Command :=
  match c.kind with
  | .new => c
  | .cancel | .replace => { c with orderId := (names c.orderId).getD c.orderId }

section Kinds

variable {k : Nat} {names : Nat → Option Nat} {c : Command}

theorem Command.concerns_of_new (hkind : c.kind = .new) : c.concerns k names = decide (c.symbol = k) := by
  rw [concerns, hkind]

theorem Command.concerns_of_ne_new (hkind : c.kind ≠ .new) : c.concerns k names = (names c.orderId).isSome := by
  rw [concerns]
  cases hc : c.kind with
  | new => exact absurd hc hkind
  | cancel => rfl
  | replace => rfl

theorem Command.rename_of_ne_new (hkind : c.kind ≠ .new) :
    c.rename names = { c with orderId := (names c.orderId).getD c.orderId } := by
  rw [rename]
  cases hc : c.kind with
  | new => exact absurd hc hkind
  | cancel => rfl
  | replace => rfl

end Kinds

/-- An order that both runs accept gets its name. -/
def nameOrder (names : Nat → Option Nat) (log log' : List Emission) : Nat → Option Nat :=
  match issued log, issued log' with
  | id :: _, id' :: _ => Function.update names id (some id')
  | _, _ => names

/-- The commands of a history that concern a symbol, renamed; how the engine of the whole history answered them; and the names at the end. -/
structure Projection where
  commands : List (Nat × Command)
  answers : List (List Emission)
  names : Nat → Option Nat

/-- Run the history on `e` and the commands that concern symbol `k` on `e'`. -/
def Engine.project (k : Nat) (e e' : Engine) (names : Nat → Option Nat) : List (Nat × Command) → Projection
  | [] => ⟨[], [], names⟩
  | (now, c) :: cmds =>
      let out := e.process now c
      if c.concerns k names then
        let out' := e'.process now (c.rename names)
        let rest := Engine.project k out.1 out'.1 (nameOrder names out.2 out'.2) cmds
        ⟨(now, c.rename names) :: rest.commands, out.2 :: rest.answers, rest.names⟩
      else Engine.project k out.1 e' names cmds

/-- The events of a run, command by command. -/
def Engine.answers (e : Engine) : List (Nat × Command) → List (List Emission)
  | [] => []
  | (now, c) :: cmds => (e.process now c).2 :: (e.process now c).1.answers cmds

/-- The same event at the same place, under the other identifier. -/
def Emission.Matches (names : Nat → Option Nat) (t t' : Emission) : Prop :=
  t.event.untimed.Matches names t'.event.untimed

/-- The same order under the other identifier: owner, tag, symbol, side, price and what remains. -/
structure Order.Matches (names : Nat → Option Nat) (o o' : Order) : Prop where
  id : names o.id = some o'.id
  qty : o'.qty = o.qty
  ticket : o'.ticket = o.ticket

/-! ### Names -/

section Names

variable {names names' : Nat → Option Nat} {log log' : List Emission}

theorem Event.Matches.mono {ev ev' : Event} (h : ev.Matches names ev')
    (hsub : ∀ {a a'}, names a = some a' → names' a = some a') : ev.Matches names' ev' :=
  ⟨h.same, fun hkind => hsub (h.renamed hkind), fun hkind => (h.repeated hkind).imp id hsub⟩

theorem Emission.Matches.kind_eq {t t' : Emission} (h : t.Matches names t') : t'.event.kind = t.event.kind := by
  have hkind := congrArg Event.kind h.same
  exact hkind

theorem nameOrder_nil (hnone : issued log = []) : nameOrder names log log' = names := by
  rw [nameOrder, hnone]

theorem nameOrder_cons {id id' : Nat} {rest rest' : List Nat} (hissued : issued log = id :: rest)
    (hissued' : issued log' = id' :: rest') : nameOrder names log log' = Function.update names id (some id') := by
  rw [nameOrder, hissued, hissued']

theorem nameOrder_cases {a a' : Nat} (h : nameOrder names log log' a = some a') :
    names a = some a' ∨ a ∈ issued log ∧ a' ∈ issued log' := by
  cases hissued : issued log with
  | nil =>
    rw [nameOrder_nil hissued] at h
    exact .inl h
  | cons id rest =>
    cases hissued' : issued log' with
    | nil =>
      rw [nameOrder, hissued, hissued'] at h
      exact .inl h
    | cons id' rest' =>
      rw [nameOrder_cons hissued hissued'] at h
      by_cases heq : a = id
      · rw [heq, Function.update_self] at h
        rw [heq, ← Option.some.inj h]
        exact .inr ⟨List.mem_cons_self, List.mem_cons_self⟩
      · rw [Function.update_of_ne heq] at h
        exact .inl h

theorem nameOrder_mono (hfresh : ∀ id ∈ issued log, names id = none) {a a' : Nat} (h : names a = some a') :
    nameOrder names log log' a = some a' := by
  cases hissued : issued log with
  | nil =>
    rw [nameOrder_nil hissued]
    exact h
  | cons id rest =>
    cases hissued' : issued log' with
    | nil =>
      rw [nameOrder, hissued, hissued']
      exact h
    | cons id' rest' =>
      have hne : a ≠ id := by
        rintro rfl
        rw [hfresh a (by rw [hissued]; exact List.mem_cons_self)] at h
        cases h
      rw [nameOrder_cons hissued hissued', Function.update_of_ne hne]
      exact h

theorem issued_matches (h : List.Forall₂ (Emission.Matches names) log log') :
    List.Forall₂ (fun id id' => names id = some id') (issued log) (issued log') := by
  induction h with
  | nil => exact .nil
  | @cons t t' log log' ht _ ih =>
    have hkind := ht.kind_eq
    by_cases haccepted : t.event.kind = .accepted
    · have huntimed : t.event.untimed.Matches names t'.event.untimed := ht
      have hname : names t.event.orderId = some t'.event.orderId := by
        apply huntimed.renamed
        change t.event.kind.ofOrder = true
        rw [haccepted]
        rfl
      simp only [issued, List.filter_cons, hkind, haccepted, decide_true, if_true, List.map_cons]
      exact .cons hname ih
    · simp only [issued, List.filter_cons, hkind, haccepted, decide_false]
      exact ih

theorem issued_named (h : List.Forall₂ (Emission.Matches names) log log') :
    (∀ id ∈ issued log, ∃ id', names id = some id') ∧ ∀ id' ∈ issued log', ∃ id, names id = some id' := by
  have hmatches := issued_matches h
  generalize issued log = ids, issued log' = ids' at hmatches ⊢
  induction hmatches with
  | nil => exact ⟨fun _ hid => absurd hid List.not_mem_nil, fun _ hid' => absurd hid' List.not_mem_nil⟩
  | @cons id id' ids ids' hname _ ih =>
    refine ⟨fun a ha => ?_, fun a' ha' => ?_⟩
    · rcases List.mem_cons.mp ha with rfl | ha
      · exact ⟨id', hname⟩
      · exact ih.1 a ha
    · rcases List.mem_cons.mp ha' with rfl | ha'
      · exact ⟨id, hname⟩
      · exact ih.2 a' ha'

theorem visible_eq (h : ∀ t ∈ log, t.event.kind ≠ .top) : visible log = log.map fun t => t.event.untimed := by
  have hall : (log.map Emission.event).filter (fun ev => decide (ev.kind ≠ .top)) = log.map Emission.event := by
    apply List.filter_eq_self.mpr
    intro ev hev
    obtain ⟨t, ht, rfl⟩ := List.mem_map.mp hev
    exact decide_eq_true (h t ht)
  rw [visible, hall, List.map_map]
  rfl

theorem issued_eq_visible (log : List Emission) :
    issued log = ((visible log).filter fun ev => ev.kind = .accepted).map Event.orderId := by
  induction log with
  | nil => rfl
  | cons t log ih =>
    by_cases htop : t.event.kind = .top
    · have hskip : visible (t :: log) = visible log := by simp [visible, htop]
      rw [hskip, ← ih, issued, issued, List.filter_cons_of_neg (by simp [htop])]
    · have hkind : t.event.untimed.kind = t.event.kind := rfl
      rw [visible_cons log htop, issued, List.filter_cons, List.filter_cons, hkind]
      by_cases haccepted : t.event.kind = .accepted
      · rw [if_pos (decide_eq_true haccepted), if_pos (decide_eq_true haccepted), List.map_cons, List.map_cons, ← ih]
        rfl
      · have hnot : ¬ decide (t.event.kind = .accepted) = true := fun h => haccepted (of_decide_eq_true h)
        rw [if_neg hnot, if_neg hnot, ← ih]
        rfl

end Names

/-! ### Fresh identifiers -/

theorem assigned_cases (log : List Emission) : assigned log = 0 ∨ assigned log ∈ issued log := by
  cases log with
  | nil => exact .inl rfl
  | cons t log =>
    rw [assigned, List.head?_cons]
    dsimp only
    split
    · rename_i hkind
      exact .inr (mem_issued.mpr ⟨t, List.mem_cons_self, hkind, rfl⟩)
    · exact .inl rfl

/-- The identifier of a command was not given out before. -/
theorem Processed.assigned_fresh {now : Nat} {c : Command} {w w' : Ledger} {log more : List Emission}
    (h : Processed now c w w' more) (hknown : Known w log) (hfew : (issued (log ++ more)).length ≤ 2 ^ 32 - 1) :
    assigned more ∉ issued log := by
  intro hold
  rcases assigned_cases more with hzero | hnew
  · exact hknown.ne_zero hold hzero
  · have hnodup := (h.known hknown hfew).accounts.nodup
    rw [issued_append] at hnodup
    exact (List.nodup_append.mp hnodup).2.2 _ hold _ hnew rfl

theorem Processed.accepted_new {now : Nat} {c : Command} {w w' : Ledger} {e e' : Engine} {more tops : List Emission}
    (h : Processed now c w w' more) (hreported : Reported now c e e' tops) {t : Emission} (ht : t ∈ more ++ tops) {id : Nat}
    (haccepts : t.Accepts id) : c.kind = .new ∧ t.event.symbol = c.symbol := by
  rcases List.mem_append.mp ht with hmem | htop
  · obtain ⟨hkind, hlabel⟩ := h.accepts hmem haccepts
    exact ⟨hkind, congrArg (fun label => label.2.1) hlabel⟩
  · have hkind := (hreported.isTop t htop).1
    rw [haccepts.1] at hkind
    cases hkind

theorem Processed.issued_of_ne_new {now : Nat} {c : Command} {w w' : Ledger} {more : List Emission}
    (h : Processed now c w w' more) (hkind : c.kind ≠ .new) : issued more = [] := by
  apply List.eq_nil_iff_forall_not_mem.mpr
  intro id hid
  obtain ⟨t, ht, haccepts⟩ := mem_issued.mp hid
  exact hkind (h.accepts ht haccepts).1

theorem Reported.issued {now : Nat} {c : Command} {e e' : Engine} {tops : List Emission} (h : Reported now c e e' tops) :
    Matchbox.issued tops = [] := by
  apply List.eq_nil_iff_forall_not_mem.mpr
  intro id hid
  obtain ⟨t, ht, hkind, -⟩ := mem_issued.mp hid
  rw [(h.isTop t ht).1] at hkind
  cases hkind

/-- A command issues one identifier at most. -/
theorem Processed.issued_length {now : Nat} {c : Command} {w w' : Ledger} {more : List Emission}
    (h : Processed now c w w' more) : (issued more).length ≤ 1 := by
  cases h with
  | refused _ _ => exact Nat.zero_le 1
  | @accepted i w₁ rest _ _ hmatched =>
    rw [← List.singleton_append, issued_append, hmatched.issued, List.append_nil, issued_of_accepts ⟨rfl, rfl⟩]
    exact le_rfl
  | cancelled _ _ _ _ => exact Nat.zero_le 1
  | reduced _ _ _ _ => exact Nat.zero_le 1
  | @replaced i w₁ w₂ rest _ _ _ _ hmatched =>
    change (issued rest).length ≤ 1
    rw [hmatched.issued]
    exact Nat.zero_le 1

theorem Known.ticket_eq_none {w : Ledger} {r : Reference} {log : List Emission} (h : Known w log) (habs : Abstracts w r)
    {id : Nat} (hid : id ∉ issued log) : r.tickets id = none := by
  apply habs.directory.missing
  rintro i hi rfl
  obtain ⟨t, ht, haccepts, -⟩ := h.signed i hi.queued.1 hi.queued.2
  exact hid (mem_issued.mpr ⟨t, ht, haccepts⟩)

/-! ### What the references say about the engines -/

namespace Abstracts

variable {w : Ledger} {r : Reference}

theorem ticket_of_mem (h : Abstracts w r) {k : Nat} {s : Side} {p : Int} {x : Entry Nat} (hx : x ∈ r.books k s p) :
    ∃ t, r.tickets x.id = some t ∧ t.symbol = k := by
  rw [h.books] at hx
  obtain ⟨i, hi, rfl⟩ := List.mem_map.mp hx
  exact ⟨_, h.directory.found i ⟨k, s, p, hi⟩, (w.rep.queued k s p i hi).symbol⟩

theorem level_qty (h : Abstracts w r) (k : Nat) (s : Side) (p : Int) :
    ((w.e.books k).levels s p).qty = ((r.books k s p).map Entry.qty).sum % word32 := by
  rw [(w.rep.book k).qty, h.books, List.map_map]
  rfl

theorem subject_eq (h : Abstracts w r) (hloose : w.loose = []) {c : Command} (hkind : c.kind ≠ .new) :
    w.e.subject c = (r.tickets c.orderId).map Ticket.symbol := by
  rw [w.e.subject_of_ne_new hkind]
  cases hfind : w.e.pool.find c.orderId with
  | none =>
    rw [h.directory.missing c.orderId fun i hi hid => ?_]
    · rfl
    · rw [(w.rep.find_eq_some_iff c.orderId).mpr ⟨hi.queued.1, hi.queued.2, hid⟩] at hfind
      cases hfind
  | some i =>
    obtain ⟨hlt, hlive, hid⟩ := (w.rep.find_eq_some_iff c.orderId).mp hfind
    have hmem := (w.mem_iff hloose i _ _ _).mpr ⟨hlt, hlive, rfl, rfl, rfl⟩
    rw [← hid, h.directory.found i ⟨_, _, _, hmem⟩]
    rfl

theorem live_eq (h : Abstracts w r) (hloose : w.loose = []) :
    r.live = ∑ k ∈ Finset.range w.e.cfg.symbols, (w.q k).size w.e.cfg.maxPrice := by
  have hlive := h.live
  have hfree := w.rep.live_free
  have hresting := w.rep.live_resting
  rw [hloose] at hlive hresting
  have hsame : ∑ k ∈ Finset.range w.e.cfg.symbols, (w.e.books k).resting
      = ∑ k ∈ Finset.range w.e.cfg.symbols, (w.q k).size w.e.cfg.maxPrice := by
    refine Finset.sum_congr rfl fun k _ => ?_
    rw [(w.rep.book k).resting, w.rep.maxPrice]
  rw [hsame] at hresting
  simp only [List.length_nil, Nat.add_zero] at hlive hresting
  omega

end Abstracts

namespace Reference.Mirror

variable {k : Nat} {names : Nat → Option Nat} {r r' : Reference} {w w' : Ledger}

theorem best_eq (h : Mirror k names r r') (s : Side) : r'.best k s = r.best k s := by
  have hsame : (fun p => decide (r'.books k s p ≠ [])) = fun p => decide (r.books k s p ≠ []) := by
    funext p
    have hlength := (h.books s p).length_eq
    rw [decide_eq_decide, ← List.length_pos_iff, ← List.length_pos_iff, hlength]
  rw [best, best, h.cfg, hsame]

theorem qty_eq (h : Mirror k names r r') (s : Side) (p : Int) :
    (r'.books k s p).map Entry.qty = (r.books k s p).map Entry.qty := by
  have hbooks := h.books s p
  generalize r.books k s p = xs at hbooks
  generalize r'.books k s p = ys at hbooks
  induction hbooks with
  | nil => rfl
  | cons hxy _ ih => rw [List.map_cons, List.map_cons, hxy.qty, ih]

theorem top_eq (h : Mirror k names r r') (habs : Abstracts w r) (habs' : Abstracts w' r') :
    (w'.e.books k).top = (w.e.books k).top := by
  have hbest : ∀ s, (w'.e.books k).best s = (w.e.books k).best s := by
    intro s
    rw [← habs.best, ← habs'.best, h.best_eq]
  have hqty : ∀ s p, ((w'.e.books k).levels s p).qty = ((w.e.books k).levels s p).qty := by
    intro s p
    rw [habs.level_qty, habs'.level_qty, h.qty_eq]
  simp only [Book.top, hbest, hqty]

/-- The mirror has no more orders than the whole. -/
theorem live_le (h : Mirror k names r r') (habs : Abstracts w r) (habs' : Abstracts w' r') (hloose : w.loose = [])
    (hloose' : w'.loose = []) (hk : k < r.cfg.symbols) : r'.live ≤ r.live := by
  have hcfg : w'.e.cfg = w.e.cfg := by rw [← habs'.cfg, ← habs.cfg, h.cfg]
  have hlength : ∀ s p, (w'.q k s p).length = (w.q k s p).length := by
    intro s p
    have hsame := (h.books s p).length_eq
    rw [habs.books, habs'.books, List.length_map, List.length_map] at hsame
    exact hsame.symm
  have hown : (w'.q k).size w.e.cfg.maxPrice = (w.q k).size w.e.cfg.maxPrice := by
    simp only [Queues.size, Queues.sideSize, hlength]
  have hnone : ∀ j, j ≠ k → (w'.q j).size w.e.cfg.maxPrice = 0 := by
    intro j hj
    have hempty : ∀ s p, w'.q j s p = [] := by
      intro s p
      have halone := h.alone j hj s p
      rw [habs'.books, List.map_eq_nil_iff] at halone
      exact halone
    simp only [Queues.size, Queues.sideSize, hempty, List.length_nil, Finset.sum_const_zero, Nat.add_zero]
  rw [habs.live_eq hloose, habs'.live_eq hloose', hcfg, Finset.sum_eq_single k (fun j _ hj => hnone j hj), hown]
  · rw [habs.cfg] at hk
    exact Finset.single_le_sum (f := fun j => (w.q j).size w.e.cfg.maxPrice) (fun j _ => Nat.zero_le _)
      (Finset.mem_range.mpr hk)
  · intro hnot
    rw [habs.cfg] at hk
    exact absurd (Finset.mem_range.mpr hk) hnot

/-- Where a New finds room in the whole, it does in the mirror. -/
theorem room (h : Mirror k names r r') (habs : Abstracts w r) (habs' : Abstracts w' r') (hloose : w.loose = [])
    (hloose' : w'.loose = []) (hk : k < r.cfg.symbols) (hroom : r.live ≠ r.cfg.maxOrders) : r'.live ≠ r.cfg.maxOrders := by
  have hle := h.live_le habs habs' hloose hloose' hk
  have hlive := habs.live
  rw [w.rep.capacity, ← habs.cfg] at hlive
  omega

end Reference.Mirror

/-! ### The two runs -/

/-- The engine of the history and that of symbol `k`, after logs `log` and `log'`. -/
structure Alike (k : Nat) (names : Nat → Option Nat) (w w' : Ledger) (log log' : List Emission) : Prop where
  loose : w.loose = []
  loose' : w'.loose = []
  known : Known w log
  known' : Known w' log'
  mirror : ∃ r r', Abstracts w r ∧ Abstracts w' r' ∧ Mirror k names r r'
  /-- The orders accepted on the symbol have names. -/
  named : ∀ id, (∃ id', names id = some id') ↔ ∃ t ∈ log, t.Accepts id ∧ t.event.symbol = k
  /-- The names are what the other engine has given out. -/
  given : ∀ id', (∃ id, names id = some id') ↔ id' ∈ issued log'
  fewer : (issued log').length ≤ (issued log).length

namespace Alike

variable {k now : Nat} {names : Nat → Option Nat} {w w' w₁ w₁' : Ledger} {log log' more more' tops tops' : List Emission}
  {c c' : Command}

theorem names_eq_none (h : Alike k names w w' log log') {id : Nat} (hid : id ∉ issued log) : names id = none := by
  cases hname : names id with
  | none => rfl
  | some id' =>
    obtain ⟨t, ht, haccepts, -⟩ := (h.named id).mp ⟨id', hname⟩
    exact absurd (mem_issued.mpr ⟨t, ht, haccepts⟩) hid

theorem reports {e e' e₁ e₁' : Engine} (hreported : Reported now c e e₁ tops) (hreported' : Reported now c' e' e₁' tops')
    (hsubject : e'.subject c' = e.subject c) (hk : ∀ j, e.subject c = some j → j = k)
    (hbefore : (e'.books k).top = (e.books k).top) (hafter : (e₁'.books k).top = (e₁.books k).top) :
    List.Forall₂ (Emission.Matches names) tops tops' := by
  rw [hreported.tops, hreported'.tops, hsubject]
  cases hcase : e.subject c with
  | none => exact .nil
  | some j =>
    rw [hk j hcase]
    change List.Forall₂ _ (e.report e₁ now k) (e'.report e₁' now k)
    rw [Engine.report, Engine.report, hbefore, hafter]
    split
    · exact .cons ⟨rfl, fun hkind => (by cases hkind), fun _ => .inl rfl⟩ .nil
    · exact .nil

theorem advance (h : Alike k names w w' log log') (hprocessed : Processed now c w w₁ more)
    (hprocessed' : Processed now c' w' w₁' more') (hreported : Reported now c w.e w₁.e tops)
    (hreported' : Reported now c' w'.e w₁'.e tops')
    (hfew : (issued (log ++ (more ++ tops))).length < 2 ^ 32 - 1) (hsymbol : c.kind = .new → c.symbol = k)
    (hmirror : ∃ r r', Abstracts w₁ r ∧ Abstracts w₁' r' ∧ Mirror k (nameOrder names (more ++ tops) (more' ++ tops')) r r')
    (hevents : List.Forall₂ (Emission.Matches (nameOrder names (more ++ tops) (more' ++ tops'))) (more ++ tops)
      (more' ++ tops')) :
    Alike k (nameOrder names (more ++ tops) (more' ++ tops')) w₁ w₁' (log ++ (more ++ tops)) (log' ++ (more' ++ tops')) := by
  have hlength := (issued_matches hevents).length_eq
  obtain ⟨hleft, hright⟩ := issued_named hevents
  have hfewer := h.fewer
  have hmore : (issued (log ++ more)).length ≤ 2 ^ 32 - 1 := by
    rw [issued_append, issued_append, List.length_append, List.length_append] at hfew
    rw [issued_append, List.length_append]
    omega
  have hmore' : (issued (log' ++ more')).length ≤ 2 ^ 32 - 1 := by
    rw [issued_append, List.length_append] at hfew
    rw [issued_append more', List.length_append] at hlength
    rw [issued_append, List.length_append]
    omega
  have hknown := (hprocessed.known h.known hmore).skip_tops hreported.isTop
  have hknown' := (hprocessed'.known h.known' hmore').skip_tops hreported'.isTop
  rw [List.append_assoc] at hknown hknown'
  have hfresh : ∀ id ∈ issued (more ++ tops), names id = none := by
    intro id hid
    apply h.names_eq_none
    intro hold
    have hnodup := hknown.accounts.nodup
    rw [issued_append] at hnodup
    exact (List.nodup_append.mp hnodup).2.2 _ hold _ hid rfl
  have haccepted : ∀ t ∈ more ++ tops, ∀ id, t.Accepts id → t.event.symbol = k := by
    intro t ht id haccepts
    obtain ⟨hkind, hsame⟩ := hprocessed.accepted_new hreported ht haccepts
    rw [hsame]
    exact hsymbol hkind
  refine ⟨hprocessed.loose h.loose, hprocessed'.loose h.loose', hknown, hknown', hmirror, fun id => ?_, fun id' => ?_, ?_⟩
  · constructor
    · rintro ⟨id', hname⟩
      rcases nameOrder_cases hname with hold | ⟨hnew, -⟩
      · obtain ⟨t, ht, haccepts, hsymbol⟩ := (h.named id).mp ⟨id', hold⟩
        exact ⟨t, List.mem_append_left _ ht, haccepts, hsymbol⟩
      · obtain ⟨t, ht, haccepts⟩ := mem_issued.mp hnew
        exact ⟨t, List.mem_append_right _ ht, haccepts, haccepted t ht id haccepts⟩
    · rintro ⟨t, ht, haccepts, hsymbol⟩
      rcases List.mem_append.mp ht with hold | hnew
      · obtain ⟨id', hname⟩ := (h.named id).mpr ⟨t, hold, haccepts, hsymbol⟩
        exact ⟨id', nameOrder_mono hfresh hname⟩
      · exact hleft id (mem_issued.mpr ⟨t, hnew, haccepts⟩)
  · rw [issued_append, List.mem_append, ← h.given id']
    constructor
    · rintro ⟨id, hname⟩
      rcases nameOrder_cases hname with hold | ⟨-, hnew⟩
      · exact .inl ⟨id, hold⟩
      · exact .inr hnew
    · rintro (⟨id, hold⟩ | hnew)
      · exact ⟨id, nameOrder_mono hfresh hold⟩
      · exact hright id' hnew
  · rw [issued_append log', issued_append log, List.length_append, List.length_append]
    omega

theorem visible_matches (hprocessed : Processed now c w w₁ more) (hprocessed' : Processed now c' w' w₁' more')
    (h : List.Forall₂ (Event.Matches names) (visible more) (visible more')) :
    List.Forall₂ (Emission.Matches names) more more' := by
  rw [visible_eq hprocessed.not_top, visible_eq hprocessed'.not_top, List.forall₂_map_left_iff,
    List.forall₂_map_right_iff] at h
  exact h

theorem found (h : Alike k names w w' log log') (hkind : c.kind ≠ .new) {id' : Nat} (hid : names c.orderId = some id')
    (hprocessed : Processed now c w w₁ more) (hprocessed' : Processed now { c with orderId := id' } w' w₁' more')
    (hreported : Reported now c w.e w₁.e tops) (hreported' : Reported now { c with orderId := id' } w'.e w₁'.e tops') :
    (∃ r r', Abstracts w₁ r ∧ Abstracts w₁' r' ∧ Mirror k names r r') ∧
      List.Forall₂ (Emission.Matches names) (more ++ tops) (more' ++ tops') := by
  obtain ⟨r, r', habs, habs', hmirror⟩ := h.mirror
  obtain ⟨r₁, habs₁, hprocess⟩ := hprocessed.reference h.loose habs
  obtain ⟨r₁', habs₁', hprocess'⟩ := hprocessed'.reference h.loose' habs'
  obtain ⟨hmirror₁, hevents⟩ := hmirror.process hkind hid (assigned more) (assigned more')
  rw [hprocess, hprocess'] at hmirror₁ hevents
  refine ⟨⟨r₁, r₁', habs₁, habs₁', hmirror₁⟩, List.rel_append (visible_matches hprocessed hprocessed' hevents) ?_⟩
  have hsubject := habs.subject_eq h.loose hkind
  have hsubject' := habs'.subject_eq (c := { c with orderId := id' }) h.loose' hkind
  apply reports hreported hreported' _ _ (hmirror.top_eq habs habs') (hmirror₁.top_eq habs₁ habs₁')
  · rw [hsubject, hsubject', hmirror.ticket hid]
  · intro j hj
    rw [hsubject, Option.map_eq_some_iff] at hj
    obtain ⟨t, ht, rfl⟩ := hj
    exact hmirror.symbol hid ht

theorem new (h : Alike k names w w' log log') (hkind : c.kind = .new) (hsymbol : c.symbol = k)
    (hprocessed : Processed now c w w₁ more) (hprocessed' : Processed now c w' w₁' more')
    (hreported : Reported now c w.e w₁.e tops) (hreported' : Reported now c w'.e w₁'.e tops')
    (hfew : (issued (log ++ more)).length < 2 ^ 32 - 1) (hnotFull : ∀ t ∈ more, t.event.reason ≠ .bookFull) :
    (∃ r r', Abstracts w₁ r ∧ Abstracts w₁' r' ∧ Mirror k (nameOrder names more more') r r') ∧
      List.Forall₂ (Emission.Matches (nameOrder names more more')) (more ++ tops) (more' ++ tops') := by
  obtain ⟨r, r', habs, habs', hmirror⟩ := h.mirror
  obtain ⟨r₁, habs₁, hprocess⟩ := hprocessed.reference h.loose habs
  obtain ⟨r₁', habs₁', hprocess'⟩ := hprocessed'.reference h.loose' habs'
  have hnew : ∀ (q : Reference) id, q.process c id = q.onNew c id := fun q id => by rw [Reference.process, hkind]
  rw [hnew] at hprocess hprocess'
  -- the second engine has given out no more identifiers, so it can give out one
  have hfew' : (issued (log' ++ more')).length ≤ 2 ^ 32 - 1 := by
    have hone := hprocessed'.issued_length
    have hfewer := h.fewer
    rw [issued_append, List.length_append] at hfew
    rw [issued_append, List.length_append]
    omega
  have hfresh := hprocessed.assigned_fresh h.known hfew.le
  have hfresh' := hprocessed'.assigned_fresh h.known' hfew'
  have hnotFull' : ∀ ev ∈ (r.onNew c (assigned more)).2, ev.reason ≠ .bookFull := by
    rw [hprocess, visible_eq hprocessed.not_top]
    intro ev hev
    obtain ⟨t, ht, rfl⟩ := List.mem_map.mp hev
    exact hnotFull t ht
  have hanswers := hmirror.onNew hsymbol (h.names_eq_none hfresh) (fun x hx => hfresh' ((h.given _).mp ⟨x, hx⟩))
    (h.known.ticket_eq_none habs hfresh) (h.known'.ticket_eq_none habs' hfresh')
    (fun hk => hmirror.room habs habs' h.loose h.loose' (hsymbol ▸ hk)) hnotFull'
  rw [hprocess, hprocess'] at hanswers
  have hmatched : Mirror k (nameOrder names more more') r₁ r₁' ∧
      List.Forall₂ (Event.Matches (nameOrder names more more')) (visible more) (visible more') := by
    rcases hanswers with ⟨reason, hrejected, hrejected'⟩ | ⟨hmirror₁, t, events, events', haccepted, haccepted', hevents⟩
    · obtain ⟨rfl, hvisible⟩ := Prod.mk.inj hrejected
      obtain ⟨rfl, hvisible'⟩ := Prod.mk.inj hrejected'
      have hnone : issued more = [] := by rw [issued_eq_visible, hvisible]; rfl
      rw [nameOrder_nil hnone, hvisible, hvisible']
      exact ⟨hmirror, .cons ⟨rfl, fun hkind => (by cases hkind), fun _ => .inl rfl⟩ .nil⟩
    · dsimp only at haccepted haccepted'
      have hissued : issued more = assigned more :: ((events.filter fun ev => ev.kind = .accepted).map Event.orderId) := by
        rw [issued_eq_visible, haccepted]
        rfl
      have hissued' : issued more' =
          assigned more' :: ((events'.filter fun ev => ev.kind = .accepted).map Event.orderId) := by
        rw [issued_eq_visible, haccepted']
        rfl
      rw [nameOrder_cons hissued hissued', haccepted, haccepted']
      exact ⟨hmirror₁, .cons (Mirror.event_matches _ (Function.update_self _ _ _) t _) hevents⟩
  obtain ⟨hmirror₁, hevents⟩ := hmatched
  refine ⟨⟨r₁, r₁', habs₁, habs₁', hmirror₁⟩, List.rel_append (visible_matches hprocessed hprocessed' hevents) ?_⟩
  have hsubject : ∀ e : Engine, e.subject c = if e.cfg.symbols ≤ c.symbol then none else some c.symbol := by
    intro e
    rw [Engine.subject, hkind]
  apply reports hreported hreported' _ _ (hmirror.top_eq habs habs') (hmirror₁.top_eq habs₁ habs₁')
  · rw [hsubject, hsubject, ← habs.cfg, ← habs'.cfg, hmirror.cfg]
  · intro j hj
    rw [hsubject] at hj
    split at hj
    · cases hj
    · rw [← Option.some.inj hj, hsymbol]

/-- A command that concerns the symbol is answered alike by both engines. -/
theorem both (h : Alike k names w w' log log') (hconcerns : c.concerns k names = true)
    (hfew : (issued (log ++ (w.e.process now c).2)).length < 2 ^ 32 - 1)
    (hnotFull : ∀ t ∈ (w.e.process now c).2, t.event.reason ≠ .bookFull) :
    ∃ w₁ w₁', w₁.e = (w.e.process now c).1 ∧ w₁'.e = (w'.e.process now (c.rename names)).1 ∧
      Alike k (nameOrder names (w.e.process now c).2 (w'.e.process now (c.rename names)).2) w₁ w₁'
        (log ++ (w.e.process now c).2) (log' ++ (w'.e.process now (c.rename names)).2) ∧
      List.Forall₂ (Emission.Matches (nameOrder names (w.e.process now c).2 (w'.e.process now (c.rename names)).2))
        (w.e.process now c).2 (w'.e.process now (c.rename names)).2 := by
  obtain ⟨w₁, more, tops, hprocessed, hw₁, hlog, hreported⟩ := w.process_reported h.loose now c
  obtain ⟨w₁', more', tops', hprocessed', hw₁', hlog', hreported'⟩ := w'.process_reported h.loose' now (c.rename names)
  refine ⟨w₁, w₁', hw₁, hw₁', ?_⟩
  rw [hlog] at hfew hnotFull
  rw [hlog, hlog']
  have hnames : nameOrder names (more ++ tops) (more' ++ tops') = nameOrder names more more' := by
    rw [nameOrder, issued_append, issued_append, hreported.issued, hreported'.issued, List.append_nil, List.append_nil]
    rfl
  by_cases hkind : c.kind = .new
  · have hsymbol : c.symbol = k := by
      rw [Command.concerns_of_new hkind] at hconcerns
      exact of_decide_eq_true hconcerns
    have hsame : c.rename names = c := by rw [Command.rename, hkind]
    rw [hsame] at hprocessed' hreported'
    have hmore : (issued (log ++ more)).length < 2 ^ 32 - 1 := by
      rw [← List.append_assoc, issued_append, List.length_append] at hfew
      omega
    obtain ⟨hmirror, hevents⟩ := h.new hkind hsymbol hprocessed hprocessed' hreported hreported' hmore
      fun t ht => hnotFull t (List.mem_append_left _ ht)
    rw [← hnames] at hmirror hevents
    exact ⟨h.advance hprocessed hprocessed' hreported hreported' hfew (fun _ => hsymbol) hmirror hevents, hevents⟩
  · rw [Command.concerns_of_ne_new hkind] at hconcerns
    obtain ⟨id', hid⟩ := Option.isSome_iff_exists.mp hconcerns
    have hsame : c.rename names = { c with orderId := id' } := by
      rw [Command.rename_of_ne_new hkind, hid]
      rfl
    rw [hsame] at hprocessed' hreported'
    obtain ⟨hmirror, hevents⟩ := h.found hkind hid hprocessed hprocessed' hreported hreported'
    have hkept : nameOrder names (more ++ tops) (more' ++ tops') = names := by
      rw [hnames, nameOrder_nil (hprocessed.issued_of_ne_new hkind)]
    rw [← hkept] at hmirror hevents
    exact ⟨h.advance hprocessed hprocessed' hreported hreported' hfew (fun hnew => absurd hnew hkind) hmirror hevents,
      hevents⟩

/-- A command that does not concern the symbol is none of the second engine's business. -/
theorem skip (h : Alike k names w w' log log') (hconcerns : c.concerns k names = false)
    (hfew : (issued (log ++ (w.e.process now c).2)).length < 2 ^ 32 - 1) :
    ∃ w₁, w₁.e = (w.e.process now c).1 ∧ Alike k names w₁ w' (log ++ (w.e.process now c).2) log' := by
  obtain ⟨w₁, more, tops, hprocessed, hw₁, hlog, hreported⟩ := w.process_reported h.loose now c
  obtain ⟨r, r', habs, habs', hmirror⟩ := h.mirror
  obtain ⟨r₁, habs₁, hprocess⟩ := hprocessed.reference h.loose habs
  rw [hlog] at hfew ⊢
  have hmore : (issued (log ++ more)).length ≤ 2 ^ 32 - 1 := by
    rw [← List.append_assoc, issued_append, List.length_append] at hfew
    omega
  have hnew : c.kind = .new → c.symbol ≠ k := by
    intro hkind
    rw [Command.concerns_of_new hkind] at hconcerns
    exact of_decide_eq_false hconcerns
  have hother : c.kind ≠ .new → names c.orderId = none := by
    intro hkind
    rw [Command.concerns_of_ne_new hkind] at hconcerns
    exact Option.isSome_eq_false_iff.mp hconcerns |> Option.isNone_iff_eq_none.mp
  -- the makers on another symbol have no names
  have hmakers : ∀ j, j ≠ k → ∀ s p, ∀ x ∈ r.books j s p, names x.id = none := by
    intro j hj s p x hx
    obtain ⟨t, ht, hsymbol⟩ := habs.ticket_of_mem hx
    cases hname : names x.id with
    | none => rfl
    | some id' => exact absurd (hsymbol.symm.trans (hmirror.symbol hname ht)) hj
  have hmirror₁ := hmirror.process_other hnew hother (h.names_eq_none (hprocessed.assigned_fresh h.known hmore)) hmakers
  rw [hprocess] at hmirror₁
  have hknown := (hprocessed.known h.known hmore).skip_tops hreported.isTop
  rw [List.append_assoc] at hknown
  refine ⟨w₁, hw₁, hprocessed.loose h.loose, h.loose', hknown, h.known', ⟨r₁, r', habs₁, habs', hmirror₁⟩, fun id => ?_,
    h.given, ?_⟩
  · rw [h.named id]
    constructor
    · rintro ⟨t, ht, haccepts, hsymbol⟩
      exact ⟨t, List.mem_append_left _ ht, haccepts, hsymbol⟩
    · rintro ⟨t, ht, haccepts, hsymbol⟩
      rcases List.mem_append.mp ht with hold | hlast
      · exact ⟨t, hold, haccepts, hsymbol⟩
      · obtain ⟨hkind, hsame⟩ := hprocessed.accepted_new hreported hlast haccepts
        exact absurd (hsame.symm.trans hsymbol) (hnew hkind)
  · have hfewer := h.fewer
    rw [issued_append, List.length_append]
    omega

theorem kept (h : Alike k names w w' log log') {more more' : List Emission} {w₁ w₁' : Ledger}
    (h₁ : Alike k (nameOrder names more more') w₁ w₁' (log ++ more) (log' ++ more')) {a a' : Nat}
    (ha : names a = some a') : nameOrder names more more' a = some a' := by
  apply nameOrder_mono _ ha
  intro id hid
  apply h.names_eq_none
  intro hold
  have hnodup := h₁.known.accounts.nodup
  rw [issued_append] at hnodup
  exact (List.nodup_append.mp hnodup).2.2 _ hold _ hid rfl

/-- What the projection of a history does, from any point on. -/
theorem project (cmds : List (Nat × Command)) (h : Alike k names w w' log log')
    (hfew : (issued (log ++ w.e.log cmds)).length < 2 ^ 32 - 1)
    (hnotFull : ∀ t ∈ w.e.log cmds, t.event.reason ≠ .bookFull) :
    (∃ w₁ w₁', w₁.e = w.e.run cmds ∧ w₁'.e = w'.e.run (Engine.project k w.e w'.e names cmds).commands ∧
      Alike k (Engine.project k w.e w'.e names cmds).names w₁ w₁' (log ++ w.e.log cmds)
        (log' ++ w'.e.log (Engine.project k w.e w'.e names cmds).commands)) ∧
      (∀ {a a'}, names a = some a' → (Engine.project k w.e w'.e names cmds).names a = some a') ∧
      List.Forall₂ (List.Forall₂ (Emission.Matches (Engine.project k w.e w'.e names cmds).names))
        (Engine.project k w.e w'.e names cmds).answers
        (w'.e.answers (Engine.project k w.e w'.e names cmds).commands) := by
  induction cmds generalizing w w' names log log' with
  | nil =>
    refine ⟨⟨w, w', rfl, rfl, ?_⟩, fun ha => ha, .nil⟩
    rw [Engine.log, Engine.project, Engine.log, List.append_nil, List.append_nil]
    exact h
  | cons cmd cmds ih =>
    obtain ⟨now, c⟩ := cmd
    rw [Engine.log, ← List.append_assoc] at hfew
    rw [Engine.log, List.forall_mem_append] at hnotFull
    have hfirst : (issued (log ++ (w.e.process now c).2)).length < 2 ^ 32 - 1 := by
      rw [issued_append, List.length_append] at hfew
      omega
    by_cases hconcerns : c.concerns k names = true
    · obtain ⟨w₁, w₁', hw₁, hw₁', hstep, hevents⟩ := h.both hconcerns hfirst hnotFull.1
      rw [← hw₁] at hfew hnotFull
      obtain ⟨⟨w₂, w₂', hw₂, hw₂', hrest⟩, hkept, hanswers⟩ := ih hstep hfew hnotFull.2
      rw [hw₁] at hw₂
      rw [hw₁, hw₁'] at hw₂' hrest hkept hanswers
      simp only [Engine.project, if_pos hconcerns, Engine.run, Engine.log, Engine.answers]
      refine ⟨⟨w₂, w₂', hw₂, hw₂', ?_⟩, fun ha => hkept (h.kept hstep ha), .cons ?_ hanswers⟩
      · rw [← List.append_assoc, ← List.append_assoc]
        exact hrest
      · exact hevents.imp fun t t' ht => Event.Matches.mono ht hkept
    · rw [Bool.not_eq_true] at hconcerns
      obtain ⟨w₁, hw₁, hstep⟩ := h.skip hconcerns hfirst
      rw [← hw₁] at hfew hnotFull
      obtain ⟨⟨w₂, w₂', hw₂, hw₂', hrest⟩, hkept, hanswers⟩ := ih hstep hfew hnotFull.2
      rw [hw₁] at hw₂ hw₂' hrest hkept hanswers
      have hskip : Engine.project k w.e w'.e names ((now, c) :: cmds)
          = Engine.project k (w.e.process now c).1 w'.e names cmds := by
        rw [Engine.project, hconcerns]
        rfl
      rw [hskip, Engine.run, Engine.log, ← List.append_assoc]
      exact ⟨⟨w₂, w₂', hw₂, hw₂', hrest⟩, hkept, hanswers⟩

theorem init (cfg : Engine.Config) (k : Nat) :
    Alike k (fun _ => none) (Ledger.init cfg) (Ledger.init cfg) [] [] := by
  refine ⟨rfl, rfl, Known.init cfg, Known.init cfg, ⟨_, _, Abstracts.init cfg, Abstracts.init cfg, ?_⟩, fun id => ?_,
    fun id' => ?_, le_rfl⟩
  · exact ⟨rfl, fun ha => (by cases ha), fun _ _ => .nil, fun _ _ _ _ => rfl, fun ha => (by cases ha),
      fun ha => (by cases ha), fun ht => (by cases ht)⟩
  · simp
  · simp [issued]

theorem queues (h : Alike k names w w' log log') (s : Side) (p : Int) :
    List.Forall₂ (Order.Matches names) ((w.e.queue k s p).map w.e.pool.slots) ((w'.e.queue k s p).map w'.e.pool.slots) := by
  obtain ⟨r, r', habs, habs', hmirror⟩ := h.mirror
  have hbooks := hmirror.books s p
  rw [habs.books, habs'.books, List.forall₂_map_left_iff, List.forall₂_map_right_iff] at hbooks
  rw [w.queue_eq, w'.queue_eq, List.forall₂_map_left_iff, List.forall₂_map_right_iff]
  have hqueued : ∀ i ∈ w.q k s p, w.Resting i := fun i hi => ⟨k, s, p, hi⟩
  have hqueued' : ∀ i ∈ w'.q k s p, w'.Resting i := fun i hi => ⟨k, s, p, hi⟩
  generalize w.q k s p = xs at hbooks hqueued
  generalize w'.q k s p = ys at hbooks hqueued'
  induction hbooks with
  | nil => exact .nil
  | @cons i j xs ys hij _ ih =>
    have hticket := hmirror.ticket hij.id
    have hfound := habs.directory.found i (hqueued i List.mem_cons_self)
    have hfound' := habs'.directory.found j (hqueued' j List.mem_cons_self)
    refine .cons ⟨hij.id, hij.qty, ?_⟩ (ih (fun a ha => hqueued a (List.mem_cons_of_mem i ha))
      fun a ha => hqueued' a (List.mem_cons_of_mem j ha))
    change r'.tickets (w'.e.pool.slots j).id = r.tickets (w.e.pool.slots i).id at hticket
    rw [hfound, hfound'] at hticket
    exact Option.some.inj hticket

end Alike

/-- For every history with fewer than `2 ^ 32 - 1` accepted orders and no rejection for a full pool, and every symbol `k`: a fresh engine that is given only the commands that concern `k` answers each of them with the same events up to the names of the orders, and ends with the same queues at every price of book `k`. The names go from the orders accepted on `k` one to one to the identifiers given out by the second engine. -/
theorem Engine.run_project (cfg : Engine.Config) (cmds : List (Nat × Command)) (k : Nat)
    (hfew : (issued ((Engine.init cfg).log cmds)).length < 2 ^ 32 - 1)
    (hnotFull : ∀ t ∈ (Engine.init cfg).log cmds, t.event.reason ≠ .bookFull) :
    let alone := Engine.project k (Engine.init cfg) (Engine.init cfg) (fun _ => none) cmds
    List.Forall₂ (List.Forall₂ (Emission.Matches alone.names)) alone.answers
        ((Engine.init cfg).answers alone.commands) ∧
      (∀ s p, List.Forall₂ (Order.Matches alone.names)
        ((((Engine.init cfg).run cmds).queue k s p).map ((Engine.init cfg).run cmds).pool.slots)
        ((((Engine.init cfg).run alone.commands).queue k s p).map ((Engine.init cfg).run alone.commands).pool.slots)) ∧
      (∀ id, (alone.names id).isSome = true ↔ ∃ t ∈ (Engine.init cfg).log cmds, t.Accepts id ∧ t.event.symbol = k) ∧
      (∀ id', id' ∈ issued ((Engine.init cfg).log alone.commands) ↔ ∃ id, alone.names id = some id') ∧
      ∀ a b x, alone.names a = some x → alone.names b = some x → a = b := by
  intro alone
  have hinit := Alike.init cfg k
  obtain ⟨⟨w, w', hw, hw', halike⟩, -, hanswers⟩ := hinit.project cmds (by rw [List.nil_append]; exact hfew) hnotFull
  rw [List.nil_append, List.nil_append] at halike
  refine ⟨hanswers, fun s p => ?_, fun id => ?_, fun id' => (halike.given id').symm, fun a b x ha hb => ?_⟩
  · have hqueues := halike.queues s p
    rw [hw, hw'] at hqueues
    exact hqueues
  · rw [Option.isSome_iff_exists]
    exact halike.named id
  · obtain ⟨r, r', -, -, hmirror⟩ := halike.mirror
    exact hmirror.inj ha hb

/-- Two symbols share the pool. On its own, the order of the second symbol gets the slot that the first symbol took, and its Cancel is sent with that identifier. -/
theorem Engine.run_project_second_symbol :
    let cfg : Engine.Config := { symbols := 2, maxPrice := 1, maxOrders := 2 }
    let cmds : List (Nat × Command) := [(0, { session := 1, price := 1, qty := 3 }),
      (0, { symbol := 1, session := 2, price := 1, qty := 4 }),
      (0, { kind := .cancel, symbol := 1, session := 2, orderId := 2 ^ 32 + 1 })]
    let alone := Engine.project 1 (Engine.init cfg) (Engine.init cfg) (fun _ => none) cmds
    alone.commands = [(0, { symbol := 1, session := 2, price := 1, qty := 4 }),
        (0, { kind := .cancel, symbol := 1, session := 2, orderId := 2 ^ 32 })] ∧
      alone.names (2 ^ 32 + 1) = some (2 ^ 32) ∧ alone.answers.map List.length = [2, 2] ∧
      List.Forall₂ (List.Forall₂ (Emission.Matches alone.names)) alone.answers
        ((Engine.init cfg).answers alone.commands) := by
  intro cfg cmds alone
  have hfew : (issued ((Engine.init cfg).log cmds)).length < 2 ^ 32 - 1 := by decide +kernel
  have hnotFull : ∀ t ∈ (Engine.init cfg).log cmds, t.event.reason ≠ .bookFull := by decide +kernel
  obtain ⟨hanswers, -⟩ := Engine.run_project cfg cmds 1 hfew hnotFull
  exact ⟨by decide +kernel, by decide +kernel, by decide +kernel, hanswers⟩

end Matchbox
