import Mathlib.Data.List.Basic

/-! Machines that read a word and write one, letter by letter. -/
namespace Gvsoc.Transducer

variable {σ α β : Type}

def run (step : σ → α → σ × List β) : σ → List α → σ × List β
  | s, [] => (s, [])
  | s, a :: rest => ((run step (step s a).1 rest).1, (step s a).2 ++ (run step (step s a).1 rest).2)

section Run

variable (step : σ → α → σ × List β)

theorem runAppend (s : σ) (left right : List α) :
    run step s (left ++ right) =
      ((run step (run step s left).1 right).1, (run step s left).2 ++ (run step (run step s left).1 right).2) := by
  induction left generalizing s with
  | nil => simp [run]
  | cons a rest ih => simp [run, ih]

end Run

section Simulation

variable {τ : Type} (step : σ → α → σ × List β) (spec : τ → α → τ × List β)

def Allowed (ok : σ → α → Prop) : σ → List α → Prop
  | _, [] => True
  | s, a :: rest => ok s a ∧ Allowed ok (step s a).1 rest

instance decideAllowed (ok : σ → α → Prop) [∀ s a, Decidable (ok s a)] : (s : σ) → (word : List α) → Decidable (Allowed step ok s word)
  | _, [] => .isTrue trivial
  | s, a :: rest =>
      have := decideAllowed ok (step s a).1 rest
      inferInstanceAs (Decidable (ok s a ∧ Allowed step ok (step s a).1 rest))

def both (p : σ × τ) (a : α) : (σ × τ) × List β := (((step p.1 a).1, (spec p.2 a).1), (step p.1 a).2)

theorem runSimulates {related : σ → τ → Prop} {ok : σ × τ → α → Prop}
    (keeps : ∀ s t a, related s t → ok (s, t) a → related (step s a).1 (spec t a).1 ∧ (step s a).2 = (spec t a).2)
    {s : σ} {t : τ} {word : List α} (start : related s t) (allowed : Allowed (both step spec) ok (s, t) word) :
    related (run step s word).1 (run spec t word).1 ∧ (run step s word).2 = (run spec t word).2 := by
  induction word generalizing s t with
  | nil => exact ⟨start, rfl⟩
  | cons a rest ih =>
      obtain ⟨here, later⟩ := allowed
      obtain ⟨next, same⟩ := keeps s t a start here
      obtain ⟨last, others⟩ := ih next later
      exact ⟨last, by simp only [run, same, others]⟩

theorem allowedBoth {ok : σ → α → Prop} {s : σ} {word : List α} (t : τ) (allowed : Allowed step ok s word) :
    Allowed (both step spec) (fun p => ok p.1) (s, t) word := by
  induction word generalizing s t with
  | nil => trivial
  | cons a rest ih => exact ⟨allowed.1, ih _ allowed.2⟩

end Simulation

section Stop

variable (step : σ → α → σ × List β) (stops : σ → α → Bool)

def firstStop : σ → List α → Option Nat
  | _, [] => none
  | s, a :: rest => if stops s a then some 1 else (firstStop (step s a).1 rest).map (· + 1)

theorem firstStopAppend (s : σ) (left right : List α) (passes : firstStop step stops s left = none) :
    firstStop step stops s (left ++ right) =
      (firstStop step stops (run step s left).1 right).map (· + left.length) := by
  induction left generalizing s with
  | nil => simp [run]
  | cons a rest ih =>
      simp only [firstStop] at passes
      split at passes
      · contradiction
      · rename_i goes
        simp only [Option.map_eq_none_iff] at passes
        simp only [List.cons_append, firstStop, if_neg goes, ih _ passes, run, Option.map_map, List.length_cons]
        congr 1

theorem firstStopBound {s : σ} {word : List α} {n : Nat} (found : firstStop step stops s word = some n) :
    n ≤ word.length := by
  induction word generalizing s n with
  | nil => simp [firstStop] at found
  | cons a rest ih =>
      simp only [firstStop] at found
      split at found
      · cases found
        simp
      · obtain ⟨m, later, rfl⟩ := Option.map_eq_some_iff.mp found
        simpa using ih later

theorem firstStopPositive {s : σ} {word : List α} {n : Nat} (found : firstStop step stops s word = some n) : 0 < n := by
  cases word with
  | nil => simp [firstStop] at found
  | cons a rest =>
      simp only [firstStop] at found
      split at found
      · cases found
        exact Nat.one_pos
      · obtain ⟨m, later, rfl⟩ := Option.map_eq_some_iff.mp found
        exact Nat.succ_pos m

end Stop

end Gvsoc.Transducer
