import Mathlib.Data.List.Induction

/-!
# Machines with outputs

A machine takes actions one at a time and answers each with a list of outputs. `run` collects the state and all outputs, and `run_induct` is the invariant rule: a relation between the state and the outputs so far holds after every run when one step keeps it.
-/

namespace Machine

variable {σ α ο : Type} (step : σ → α → σ × List ο)

/-- The state and the outputs after a list of actions. -/
def run (s : σ) (actions : List α) : σ × List ο :=
  actions.foldl (fun r a => ((step r.1 a).1, r.2 ++ (step r.1 a).2)) (s, [])

@[simp] theorem run_concat (s : σ) (actions : List α) (a : α) :
    run step s (actions ++ [a]) =
      ((step (run step s actions).1 a).1, (run step s actions).2 ++ (step (run step s actions).1 a).2) := by
  simp [run]

/-- What holds at the start and is kept by each step, whatever came before it, holds after every run. -/
theorem run_induct {R : σ → List ο → Prop} {s : σ} (hinit : R s [])
    (hstep : ∀ s' os a, R s' os → R (step s' a).1 (os ++ (step s' a).2)) (actions : List α) :
    R (run step s actions).1 (run step s actions).2 := by
  induction actions using List.reverseRecOn with
  | nil => exact hinit
  | append_singleton actions a ih =>
      rw [run_concat]
      exact hstep _ _ a ih

end Machine
