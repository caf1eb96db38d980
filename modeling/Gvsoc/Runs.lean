import Mathlib.Data.List.Basic

/-! Runs of a step function that is total, and what holds in every state of a run. -/
namespace Gvsoc.Runs

variable {σ α : Type}

def run (step : σ → α → σ) : σ → List α → σ := List.foldl step

def AllSteps (step : σ → α → σ) (ok : σ → α → Prop) : σ → List α → Prop
  | _, [] => True
  | s, a :: rest => ok s a ∧ AllSteps step ok (step s a) rest

instance instDecidableAllSteps (step : σ → α → σ) (ok : σ → α → Prop) [∀ s a, Decidable (ok s a)] : ∀ (s : σ) (actions : List α), Decidable (AllSteps step ok s actions)
  | _, [] => .isTrue trivial
  | s, a :: rest =>
      have := instDecidableAllSteps step ok (step s a) rest
      inferInstanceAs (Decidable (_ ∧ _))

variable {step : σ → α → σ} {ok : σ → α → Prop} {P I : σ → Prop}

theorem runInvariant (invariant : ∀ s a, I s → I (step s a)) {s : σ} (inside : I s) (actions : List α) : I (run step s actions) := by
  induction actions generalizing s with
  | nil => exact inside
  | cons a rest rec => exact rec (invariant s a inside)

theorem alwaysIff (keeps : ∀ s a, I s → P s → (P (step s a) ↔ ok s a)) (invariant : ∀ s a, I s → I (step s a)) {s : σ} (inside : I s)
    (start : P s) (actions : List α) : (∀ n, P (run step s (actions.take n))) ↔ AllSteps step ok s actions := by
  induction actions generalizing s with
  | nil =>
      refine iff_of_true (fun n => ?_) trivial
      rw [List.take_nil]
      exact start
  | cons a rest rec =>
      have next := rec (invariant s a inside)
      constructor
      · intro all
        have after : P (step s a) := all 1
        exact ⟨(keeps s a inside start).mp after, (next after).mp fun n => all (n + 1)⟩
      · rintro ⟨allowed, later⟩ n
        have after := (keeps s a inside start).mpr allowed
        cases n with
        | zero => exact start
        | succ n => exact (next after).mpr later n

end Gvsoc.Runs
