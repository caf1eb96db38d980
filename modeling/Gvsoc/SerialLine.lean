import Mathlib.Data.List.Basic

/-! A serial line that is high when nothing is sent. An item begins with a low bit, and its body follows. -/
namespace Gvsoc.SerialLine

variable {α : Type} {body : α → List Bool} {a : α} {items rest : List α} {line : List Bool}

def Framed (body : α → List Bool) : List α → List Bool → Prop
  | [], line => line = List.replicate line.length true
  | a :: rest, line => ∃ idle later, line = List.replicate idle true ++ false :: (body a ++ later) ∧ Framed body rest later

theorem highCons : (true :: line) = List.replicate (true :: line).length true ↔ line = List.replicate line.length true := by
  rw [List.length_cons, List.replicate_succ, List.cons_inj_right]

theorem framedHigh : Framed body items (true :: line) ↔ Framed body items line := by
  cases items with
  | nil => exact highCons
  | cons a rest =>
      constructor
      · rintro ⟨idle, later, shape, framed⟩
        cases idle with
        | zero => simp at shape
        | succ idle =>
            rw [List.replicate_succ, List.cons_append, List.cons_inj_right] at shape
            exact ⟨idle, later, shape, framed⟩
      · rintro ⟨idle, later, rfl, framed⟩
        exact ⟨idle + 1, later, rfl, framed⟩

theorem framedIdle (n : Nat) : Framed body items (List.replicate n true ++ line) ↔ Framed body items line := by
  induction n with
  | zero => rfl
  | succ n ih => rw [List.replicate_succ, List.cons_append, framedHigh, ih]

theorem framedStart : Framed body (a :: rest) (false :: line) ↔ ∃ later, line = body a ++ later ∧ Framed body rest later := by
  constructor
  · rintro ⟨idle, later, shape, framed⟩
    cases idle with
    | zero => exact ⟨later, by simpa using shape, framed⟩
    | succ idle => simp [List.replicate_succ] at shape
  · rintro ⟨later, rfl, framed⟩
    exact ⟨0, later, rfl, framed⟩

def evenParity (bits : List Bool) : Bool := bits.count true % 2 = 1

theorem evenParityConcat (bits : List Bool) (b : Bool) : evenParity (bits ++ [b]) = (evenParity bits ^^ b) := by
  unfold evenParity
  rw [List.count_append]
  cases b with
  | false => simp
  | true =>
      rw [List.count_singleton_self, Bool.xor_true, ← decide_not, decide_eq_decide]
      omega

end Gvsoc.SerialLine
