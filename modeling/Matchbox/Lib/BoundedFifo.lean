import Mathlib.Data.List.Basic

/-!
# Bounded first-in first-out queues

The sequential queue that a concurrent ring is compared with. An operation carries its own result: a push that returned true, a push refused because the queue was full, a pop with the value it returned, a pop refused because the queue was empty. `Run` says that a list of operations with their results is one that the sequential queue can produce.
-/

namespace BoundedFifo

inductive Op (α : Type) where
  | pushed (v : α)
  | full (v : α)
  | popped (v : α)
  | empty
deriving DecidableEq

variable {α : Type}

def Op.pushed? : Op α → Option α
  | .pushed v => some v
  | _ => none

def Op.popped? : Op α → Option α
  | .popped v => some v
  | _ => none

/-- The values that went in, in order. -/
def pushes (ops : List (Op α)) : List α := ops.filterMap Op.pushed?

/-- The values that came out, in order. -/
def pops (ops : List (Op α)) : List α := ops.filterMap Op.popped?

/-- The calls that were not refused. -/
def accepted (ops : List (Op α)) : List (Op α) := ops.filter fun op => op.pushed?.isSome || op.popped?.isSome

inductive Step (capacity : Nat) : List α → Op α → List α → Prop
  | pushed {q : List α} (v : α) (hlt : q.length < capacity) : Step capacity q (.pushed v) (q ++ [v])
  | full {q : List α} (v : α) (hfull : q.length = capacity) : Step capacity q (.full v) q
  | popped (v : α) (q : List α) : Step capacity (v :: q) (.popped v) q
  | empty : Step capacity [] .empty []

inductive Run (capacity : Nat) : List α → List (Op α) → List α → Prop
  | refl (q : List α) : Run capacity q [] q
  | head {q q' q'' : List α} {op : Op α} {ops : List (Op α)} (hstep : Step capacity q op q')
      (hrun : Run capacity q' ops q'') : Run capacity q (op :: ops) q''

/-- A push on the sequential queue, with its result. -/
def tryPush (capacity : Nat) (q : List α) (v : α) : List α × Op α :=
  if q.length < capacity then (q ++ [v], .pushed v) else (q, .full v)

/-- A pop on the sequential queue, with its result. -/
def tryPop : List α → List α × Op α
  | [] => ([], .empty)
  | v :: q => (q, .popped v)

@[simp] theorem pushes_append (ops ops' : List (Op α)) : pushes (ops ++ ops') = pushes ops ++ pushes ops' :=
  List.filterMap_append

@[simp] theorem pops_append (ops ops' : List (Op α)) : pops (ops ++ ops') = pops ops ++ pops ops' :=
  List.filterMap_append

@[simp] theorem accepted_append (ops ops' : List (Op α)) : accepted (ops ++ ops') = accepted ops ++ accepted ops' :=
  List.filter_append ..

@[simp] theorem pushes_accepted (ops : List (Op α)) : pushes (accepted ops) = pushes ops := by
  induction ops with
  | nil => rfl
  | cons op ops ih =>
      cases op <;> simpa [accepted, pushes, List.filterMap_cons, Op.pushed?, Op.popped?] using ih

@[simp] theorem pops_accepted (ops : List (Op α)) : pops (accepted ops) = pops ops := by
  induction ops with
  | nil => rfl
  | cons op ops ih =>
      cases op <;> simpa [accepted, pops, List.filterMap_cons, Op.pushed?, Op.popped?] using ih

theorem Step.flow {capacity : Nat} {q q' : List α} {op : Op α} (h : Step capacity q op q') :
    q ++ pushes [op] = pops [op] ++ q' := by
  cases h <;> simp [pushes, pops, List.filterMap_cons, Op.pushed?, Op.popped?]

variable {capacity : Nat} {q q' q'' : List α} {op : Op α} {ops ops' : List (Op α)}

theorem Step.length_of_full {v : α} (h : Step capacity q (.full v) q') : q.length = capacity := by
  cases h with
  | full v hfull => exact hfull

theorem Step.length_of_empty (h : Step capacity q .empty q') : q.length = 0 := by
  cases h with
  | empty => rfl

theorem Run.trans (h : Run capacity q ops q') (h' : Run capacity q' ops' q'') :
    Run capacity q (ops ++ ops') q'' := by
  induction h with
  | refl q => exact h'
  | head hstep _ ih => exact .head hstep (ih h')

theorem Step.run (h : Step capacity q op q') : Run capacity q [op] q' := .head h (.refl _)

theorem Run.step (h : Run capacity q [op] q') : Step capacity q op q' := by
  cases h with
  | head hstep hrun =>
      cases hrun
      exact hstep

/-- Nothing is lost, duplicated or reordered: what was inside and went in is what came out and is inside. -/
theorem Run.flow (h : Run capacity q ops q') : q ++ pushes ops = pops ops ++ q' := by
  induction h with
  | refl q => simp [pushes, pops]
  | @head q q' q'' op ops hstep _ ih =>
      calc q ++ pushes (op :: ops) = (q ++ pushes [op]) ++ pushes ops := by
            rw [List.append_assoc, ← pushes_append, List.singleton_append]
        _ = pops [op] ++ (q' ++ pushes ops) := by rw [hstep.flow, List.append_assoc]
        _ = pops (op :: ops) ++ q'' := by
            rw [ih, ← List.append_assoc, ← pops_append, List.singleton_append]

/-- From the empty queue, the values that came out and those inside are the values that went in. -/
theorem Run.pushes_eq (h : Run capacity [] ops q) : pushes ops = pops ops ++ q := by
  simpa using h.flow

theorem Run.isPrefix_pops (h : Run capacity [] ops q) : pops ops <+: pushes ops := ⟨q, h.pushes_eq.symm⟩

end BoundedFifo
