import Mathlib.Data.List.Range
import Mathlib.Data.List.Basic

/-! A machine that moves by itself and may stop, and what it shows of the states that it reaches. -/
namespace Gvsoc.Emission

variable {σ β : Type}

inductive Emits (step : σ → Option σ) (shows : σ → β) : σ → List β → σ → Prop
  | nil (s : σ) : Emits step shows s [] s
  | cons {s t u : σ} {out : List β} (moves : step s = some t) (rest : Emits step shows t out u) : Emits step shows s (shows t :: out) u

variable {step : σ → Option σ} {shows : σ → β}

theorem emitsOne {s t : σ} (moves : step s = some t) : Emits step shows s [shows t] t := .cons moves (.nil t)

theorem emitsAppend {s t u : σ} {first second : List β} (one : Emits step shows s first t) (two : Emits step shows t second u) :
    Emits step shows s (first ++ second) u := by
  induction one with
  | nil => exact two
  | cons moves _ later => exact .cons moves (later two)

theorem emitsCounted {P : Nat → σ → Prop} {word : Nat → β} {n : Nat}
    (each : ∀ i < n, ∀ s, P i s → ∃ t, step s = some t ∧ shows t = word i ∧ P (i + 1) t) {s : σ} (start : P 0 s) :
    ∃ t, Emits step shows s ((List.range n).map word) t ∧ P n t := by
  induction n with
  | zero => exact ⟨s, .nil s, start⟩
  | succ n before =>
      obtain ⟨t, emitted, reached⟩ := before fun i small => each i (Nat.lt_succ_of_lt small)
      obtain ⟨u, moves, shown, next⟩ := each n (Nat.lt_succ_self n) t reached
      refine ⟨u, ?_, next⟩
      rw [List.range_succ, List.map_append, List.map_singleton, ← shown]
      exact emitsAppend emitted (emitsOne moves)

theorem emitsRounds {P : Nat → σ → Prop} {word : Nat → List β} {n : Nat}
    (each : ∀ i < n, ∀ s, P i s → ∃ t, Emits step shows s (word i) t ∧ P (i + 1) t) {s : σ} (start : P 0 s) :
    ∃ t, Emits step shows s ((List.range n).flatMap word) t ∧ P n t := by
  induction n with
  | zero => exact ⟨s, .nil s, start⟩
  | succ n before =>
      obtain ⟨t, emitted, reached⟩ := before fun i small => each i (Nat.lt_succ_of_lt small)
      obtain ⟨u, more, next⟩ := each n (Nat.lt_succ_self n) t reached
      refine ⟨u, ?_, next⟩
      rw [List.range_succ, List.flatMap_append, List.flatMap_singleton]
      exact emitsAppend emitted more

theorem emitsConstant {P : Nat → σ → Prop} {b : β} {n : Nat}
    (each : ∀ i < n, ∀ s, P i s → ∃ t, step s = some t ∧ shows t = b ∧ P (i + 1) t) {s : σ} (start : P 0 s) :
    ∃ t, Emits step shows s (List.replicate n b) t ∧ P n t := by
  have counted := emitsCounted (P := P) each start
  rwa [List.map_const', List.length_range] at counted

theorem emitsUntil {P : Nat → σ → Prop} {Q : σ → Prop} {b : β} {n : Nat}
    (each : ∀ i < n, ∀ s, P i s → ∃ t, step s = some t ∧ shows t = b ∧ P (i + 1) t)
    (ends : ∀ s, P n s → ∃ t, step s = some t ∧ shows t = b ∧ Q t) {s : σ} (start : P 0 s) :
    ∃ t, Emits step shows s (List.replicate (n + 1) b) t ∧ Q t := by
  obtain ⟨t, emitted, reached⟩ := emitsConstant each start
  obtain ⟨u, moves, shown, done⟩ := ends t reached
  refine ⟨u, ?_, done⟩
  rw [List.replicate_succ', ← shown]
  exact emitsAppend (shown ▸ emitted) (emitsOne moves)

end Gvsoc.Emission
