import Mathlib.Data.List.Basic
import Mathlib.Tactic.Linarith

/-! Pieces that follow one another without gap or overlap and fill a range. -/
namespace Gvsoc.Tiling

variable {α : Type} {start size : α → Nat}

inductive Tiles (start size : α → Nat) : Nat → List α → Nat → Prop where
  | nil (a) : Tiles start size a [] a
  | cons {a piece rest stop} (here : start piece = a) (positive : 0 < size piece)
      (tail : Tiles start size (a + size piece) rest stop) : Tiles start size a (piece :: rest) stop

theorem tilesMono {a pieces stop} (tiles : Tiles start size a pieces stop) : a ≤ stop := by
  induction tiles with
  | nil => exact Nat.le_refl _
  | cons here positive tail ih => omega

theorem tilesSnoc {a pieces stop} (piece : α) (tiles : Tiles start size a pieces stop) (here : start piece = stop)
    (positive : 0 < size piece) : Tiles start size a (pieces ++ [piece]) (stop + size piece) := by
  induction tiles with
  | nil => exact .cons here positive (.nil _)
  | cons first before tail ih => exact .cons first before (ih here)

theorem tilesBounds {a pieces stop piece} (tiles : Tiles start size a pieces stop) (member : piece ∈ pieces) :
    a ≤ start piece ∧ 0 < size piece ∧ start piece + size piece ≤ stop := by
  induction tiles with
  | nil => contradiction
  | cons here positive tail ih =>
      rcases List.mem_cons.mp member with rfl | later
      · have := tilesMono tail
        omega
      · have := ih later
        omega

theorem tilesTotal {a pieces stop} (tiles : Tiles start size a pieces stop) : a + (pieces.map size).sum = stop := by
  induction tiles with
  | nil => simp
  | cons here positive tail ih =>
      rw [List.map_cons, List.sum_cons]
      omega

theorem tilesLength {a pieces stop} (tiles : Tiles start size a pieces stop) : a + pieces.length ≤ stop := by
  induction tiles with
  | nil => simp
  | cons here positive tail ih =>
      rw [List.length_cons]
      omega

theorem tilesCover {a pieces stop x} (tiles : Tiles start size a pieces stop) (low : a ≤ x) (high : x < stop) :
    ∃ piece ∈ pieces, start piece ≤ x ∧ x < start piece + size piece := by
  induction tiles with
  | nil => omega
  | @cons a piece rest stop here positive tail ih =>
      rcases Nat.lt_or_ge x (a + size piece) with inside | after
      · exact ⟨piece, List.mem_cons_self, by omega, by omega⟩
      · obtain ⟨later, member, bounds⟩ := ih after high
        exact ⟨later, List.mem_cons_of_mem _ member, bounds⟩

end Gvsoc.Tiling
