import Mathlib.Data.List.Forall2
import Mathlib.Logic.Function.Basic

/-!
# Sweeping priority queues

A demand is served from queues that are visited in a fixed order, each queue from its front, as long as the queue is open to it. This is the declarative side of any price-time matching loop: `sweep` recurses over the list of prices and `fifo` over one queue, so both terminate without any measure.

Matching loops work one trade at a time. `sweep_trade` says that the first trade of a sweep is the one with the front of the first occupied queue, and that what follows is the sweep of what remains; `sweep_stop` says when there is no trade at all.

A sweep compares quantities and copies identifiers. So queues that differ only in their identifiers are swept alike, which is `sweep_rel`.
-/

namespace Sweep

structure Entry (ι : Type) where
  id : ι
  qty : Nat
deriving DecidableEq

/-- One trade: where, with whom, how much, and what it leaves on both sides. -/
structure Trade (π ι : Type) where
  price : π
  maker : ι
  qty : Nat
  makerLeft : Nat
  takerLeft : Nat
deriving DecidableEq

structure Served (π ι : Type) where
  queue : List (Entry ι)
  trades : List (Trade π ι)
  left : Nat

structure Swept (π ι : Type) where
  queues : π → List (Entry ι)
  trades : List (Trade π ι)
  left : Nat

variable {π ι : Type}

/-- Serve `want` from the front of one queue. -/
def fifo (p : π) : List (Entry ι) → Nat → Served π ι
  | [], want => ⟨[], [], want⟩
  | x :: xs, want =>
      if want = 0 then ⟨x :: xs, [], 0⟩
      else if x.qty ≤ want then
        let rest := fifo p xs (want - x.qty)
        { rest with trades := ⟨p, x.id, x.qty, 0, want - x.qty⟩ :: rest.trades }
      else ⟨⟨x.id, x.qty - want⟩ :: xs, [⟨p, x.id, want, x.qty - want, 0⟩], 0⟩

/-- Serve `want` from the queues in the order of the list, as long as they are open. -/
def sweep [DecidableEq π] (isOpen : π → Bool) : List π → (π → List (Entry ι)) → Nat → Swept π ι
  | [], queues, want => ⟨queues, [], want⟩
  | p :: ps, queues, want =>
      if want = 0 ∨ isOpen p = false then ⟨queues, [], want⟩
      else
        let here := fifo p (queues p) want
        let rest := sweep isOpen ps (Function.update queues p here.queue) here.left
        { rest with trades := here.trades ++ rest.trades }

/-- Put a trade in front of what follows it. -/
def Swept.after (trade : Trade π ι) (rest : Swept π ι) : Swept π ι := { rest with trades := trade :: rest.trades }

@[simp] theorem fifo_zero (p : π) (xs : List (Entry ι)) : fifo p xs 0 = ⟨xs, [], 0⟩ := by
  cases xs <;> simp [fifo]

/-- What a queue looks like after its front gave `x`. -/
def shrink (e : Entry ι) (xs : List (Entry ι)) (x : Nat) : List (Entry ι) :=
  if e.qty - x = 0 then xs else ⟨e.id, e.qty - x⟩ :: xs

theorem fifo_trade (p : π) (e : Entry ι) (xs : List (Entry ι)) {want x : Nat} (hwant : want ≠ 0)
    (hx : x = min want e.qty) :
    fifo p (e :: xs) want =
      { fifo p (shrink e xs x) (want - x) with
        trades := ⟨p, e.id, x, e.qty - x, want - x⟩ :: (fifo p (shrink e xs x) (want - x)).trades } := by
  rw [fifo, if_neg hwant]
  by_cases hle : e.qty ≤ want
  · have hxe : x = e.qty := by omega
    rw [if_pos hle, hxe, shrink, if_pos (Nat.sub_self _), Nat.sub_self]
  · have hxw : x = want := by omega
    rw [if_neg hle, hxw, shrink, if_neg (by omega), Nat.sub_self, fifo_zero]

variable [DecidableEq π] {isOpen : π → Bool}

@[simp] theorem sweep_zero (ps : List π) (queues : π → List (Entry ι)) : sweep isOpen ps queues 0 = ⟨queues, [], 0⟩ := by
  cases ps <;> simp [sweep]

theorem sweep_append (front ps : List π) (queues : π → List (Entry ι)) (want : Nat)
    (hopen : ∀ p ∈ front, isOpen p = true) (hempty : ∀ p ∈ front, queues p = []) :
    sweep isOpen (front ++ ps) queues want = sweep isOpen ps queues want := by
  induction front with
  | nil => rfl
  | cons p front ih =>
    by_cases hwant : want = 0
    · rw [hwant, sweep_zero, sweep_zero]
    · rw [List.cons_append, sweep, if_neg (by simp [hwant, hopen p]), hempty p (by simp)]
      have hsame : Function.update queues p [] = queues := by
        rw [← hempty p (by simp), Function.update_eq_self]
      simp only [fifo, hsame, List.nil_append]
      exact ih (fun q hq => hopen q (by simp [hq])) fun q hq => hempty q (by simp [hq])

/-- The first trade of a sweep, and the sweep of what remains. -/
theorem sweep_trade (front back : List π) {p : π} (queues : π → List (Entry ι)) {e : Entry ι} {xs : List (Entry ι)}
    {want x : Nat} (hopen : ∀ q ∈ front, isOpen q = true) (hempty : ∀ q ∈ front, queues q = []) (hp : isOpen p = true)
    (hfront : p ∉ front) (hqueue : queues p = e :: xs) (hwant : want ≠ 0) (hx : x = min want e.qty) :
    sweep isOpen (front ++ p :: back) queues want =
      (sweep isOpen (front ++ p :: back) (Function.update queues p (shrink e xs x)) (want - x)).after
        ⟨p, e.id, x, e.qty - x, want - x⟩ := by
  have hempty' : ∀ q ∈ front, Function.update queues p (shrink e xs x) q = [] := by
    intro q hq
    have hne : q ≠ p := fun heq => hfront (heq ▸ hq)
    rw [Function.update_of_ne hne]
    exact hempty q hq
  rw [sweep_append front _ _ _ hopen hempty, sweep_append front _ _ _ hopen hempty', sweep, sweep,
    if_neg (by simp [hwant, hp]), hqueue, fifo_trade p e xs hwant hx, Function.update_self]
  simp only [Function.update_idem]
  by_cases hleft : want - x = 0
  · simp [hleft, Swept.after]
  · rw [if_neg (by simp [hleft, hp])]
    rfl

theorem sweep_stop (ps : List π) (queues : π → List (Entry ι)) (want : Nat)
    (hnone : ∀ p ∈ ps, isOpen p = true → queues p = []) : sweep isOpen ps queues want = ⟨queues, [], want⟩ := by
  induction ps with
  | nil => rfl
  | cons p ps ih =>
    rw [sweep]
    split
    · rfl
    · rename_i hopen
      simp only [not_or, Bool.not_eq_false] at hopen
      have hempty := hnone p (by simp) hopen.2
      have hsame : Function.update queues p [] = queues := by
        rw [← hempty, Function.update_eq_self]
      rw [hempty]
      simp only [fifo, hsame, List.nil_append]
      rw [ih fun q hq => hnone q (by simp [hq])]

/-! ### Queues with related identifiers -/

section Related

variable {κ : Type} {R : ι → κ → Prop}

structure Entry.Rel (R : ι → κ → Prop) (x : Entry ι) (y : Entry κ) : Prop where
  id : R x.id y.id
  qty : y.qty = x.qty

structure Trade.Rel (R : ι → κ → Prop) (x : Trade π ι) (y : Trade π κ) : Prop where
  price : y.price = x.price
  maker : R x.maker y.maker
  qty : y.qty = x.qty
  makerLeft : y.makerLeft = x.makerLeft
  takerLeft : y.takerLeft = x.takerLeft

structure Served.Rel (R : ι → κ → Prop) (x : Served π ι) (y : Served π κ) : Prop where
  queue : List.Forall₂ (Entry.Rel R) x.queue y.queue
  trades : List.Forall₂ (Trade.Rel R) x.trades y.trades
  left : y.left = x.left

structure Swept.Rel (R : ι → κ → Prop) (x : Swept π ι) (y : Swept π κ) : Prop where
  queues : ∀ p, List.Forall₂ (Entry.Rel R) (x.queues p) (y.queues p)
  trades : List.Forall₂ (Trade.Rel R) x.trades y.trades
  left : y.left = x.left

omit [DecidableEq π] in
theorem fifo_rel (p : π) {xs : List (Entry ι)} {ys : List (Entry κ)} (h : List.Forall₂ (Entry.Rel R) xs ys) (want : Nat) :
    (fifo p xs want).Rel R (fifo p ys want) := by
  induction h generalizing want with
  | nil => exact ⟨.nil, .nil, rfl⟩
  | @cons x y xs ys hxy hrest ih =>
    rw [fifo, fifo, hxy.qty]
    by_cases hwant : want = 0
    · rw [if_pos hwant, if_pos hwant]
      exact ⟨.cons hxy hrest, .nil, rfl⟩
    · rw [if_neg hwant, if_neg hwant]
      by_cases hle : x.qty ≤ want
      · rw [if_pos hle, if_pos hle]
        obtain ⟨hqueue, htrades, hleft⟩ := ih (want - x.qty)
        exact ⟨hqueue, .cons ⟨rfl, hxy.id, rfl, rfl, rfl⟩ htrades, hleft⟩
      · rw [if_neg hle, if_neg hle]
        exact ⟨.cons ⟨hxy.id, rfl⟩ hrest, .cons ⟨rfl, hxy.id, rfl, rfl, rfl⟩ .nil, rfl⟩

theorem sweep_rel (isOpen : π → Bool) (ps : List π) {queues : π → List (Entry ι)} {queues' : π → List (Entry κ)}
    (h : ∀ p, List.Forall₂ (Entry.Rel R) (queues p) (queues' p)) (want : Nat) :
    (sweep isOpen ps queues want).Rel R (sweep isOpen ps queues' want) := by
  induction ps generalizing queues queues' want with
  | nil => exact ⟨h, .nil, rfl⟩
  | cons p ps ih =>
    rw [sweep, sweep]
    by_cases hstop : want = 0 ∨ isOpen p = false
    · rw [if_pos hstop, if_pos hstop]
      exact ⟨h, .nil, rfl⟩
    · rw [if_neg hstop, if_neg hstop]
      obtain ⟨hqueue, htrades, hleft⟩ := fifo_rel p (h p) want
      have hupdate : ∀ q, List.Forall₂ (Entry.Rel R) (Function.update queues p (fifo p (queues p) want).queue q)
          (Function.update queues' p (fifo p (queues' p) want).queue q) := by
        intro q
        by_cases hq : q = p
        · subst hq
          rw [Function.update_self, Function.update_self]
          exact hqueue
        · rw [Function.update_of_ne hq, Function.update_of_ne hq]
          exact h q
      obtain ⟨hqueues, hrest, hleft'⟩ := ih hupdate (fifo p (queues p) want).left
      dsimp only
      rw [hleft]
      exact ⟨hqueues, List.rel_append htrades hrest, hleft'⟩

theorem sweep_makers (isOpen : π → Bool) (ps : List π) {P : ι → Prop} {queues : π → List (Entry ι)}
    (h : ∀ p, ∀ x ∈ queues p, P x.id) (want : Nat) : ∀ trade ∈ (sweep isOpen ps queues want).trades, P trade.maker := by
  have hsame : ∀ p, List.Forall₂ (Entry.Rel fun a b : ι => a = b ∧ P a) (queues p) (queues p) :=
    fun p => List.forall₂_same.mpr fun x hx => ⟨⟨rfl, h p x hx⟩, rfl⟩
  have hrel := sweep_rel isOpen ps hsame want
  exact fun trade htrade => (List.forall₂_same.mp hrel.trades trade htrade).maker.2

end Related

end Sweep
