import Mathlib.Init

/-!
# Runs under a condition

A machine that takes actions one at a time, run along actions that each meet a condition on the state they find. `run_rule` is the invariant rule: an action that meets the condition need keep the invariant, no other.
-/

namespace Guarded

variable {σ α : Type} (step : σ → α → σ)

/-- Every action of a run meets the condition. -/
def Along (C : σ → α → Prop) (s : σ) : List α → Prop
  | [] => True
  | a :: actions => C s a ∧ Along C (step s a) actions

variable {step} {C : σ → α → Prop} {s : σ} {actions : List α}

instance decidableAlong [∀ s a, Decidable (C s a)] : ∀ (s : σ) (actions : List α), Decidable (Along step C s actions)
  | _, [] => .isTrue trivial
  | s, a :: actions => @instDecidableAnd _ _ _ (decidableAlong (step s a) actions)

theorem along_append {more : List α} :
    Along step C s (actions ++ more) ↔ Along step C s actions ∧ Along step C (actions.foldl step s) more := by
  induction actions generalizing s with
  | nil => exact ⟨fun h => ⟨trivial, h⟩, fun h => h.2⟩
  | cons a actions ih => exact (and_congr_right fun _ => ih).trans and_assoc.symm

theorem along_concat {a : α} :
    Along step C s (actions ++ [a]) ↔ Along step C s actions ∧ C (actions.foldl step s) a :=
  along_append.trans (and_congr_right fun _ => ⟨fun h => h.1, fun h => ⟨h, trivial⟩⟩)

theorem Along.of_isPrefix {front : List α} (h : Along step C s actions) (hfront : front <+: actions) :
    Along step C s front := by
  obtain ⟨more, rfl⟩ := hfront
  exact (along_append.1 h).1

/-- What such an action keeps is kept by the run. -/
theorem run_rule {P : σ → Prop} (hstep : ∀ s a, C s a → P s → P (step s a)) (halong : Along step C s actions) (h : P s) :
    P (actions.foldl step s) := by
  induction actions generalizing s with
  | nil => exact h
  | cons a actions ih => exact ih halong.2 (hstep s a halong.1 h)

end Guarded
