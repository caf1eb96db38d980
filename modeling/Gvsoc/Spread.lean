import Gvsoc.Bytes

/-! Bytes at addresses that are kept in several memories, each address at a place of its own. -/
namespace Gvsoc.Spread
open Bytes (Byte)

structure Layout (α ι : Type) where
  id : α → ι
  place : α → Nat

variable {α ι : Type} {l : Layout α ι} (memories : ι → Nat → Byte)

def Layout.Apart (l : Layout α ι) : Prop := ∀ x y, l.id x = l.id y → l.place x = l.place y → x = y

def gather (l : Layout α ι) (memories : ι → Nat → Byte) (x : α) : Byte := memories (l.id x) (l.place x)

section Piece

variable {address : Nat → α} {bank : ι} {start n : Nat}

def Layout.Row (l : Layout α ι) (address : Nat → α) (bank : ι) (start n : Nat) : Prop :=
  ∀ i < n, l.id (address i) = bank ∧ l.place (address i) = start + i

theorem rowLoaded (row : l.Row address bank start n) {i : Nat} (inside : i < n) : memories bank (start + i) = gather l memories (address i) := by
  obtain ⟨id, place⟩ := row i inside
  unfold gather
  rw [id, place]

variable [DecidableEq ι] {memory : Nat → Byte} (data : Nat → Byte)
  (stored : ∀ p, memory p = if start ≤ p ∧ p < start + n then data (p - start) else memories bank p)

include stored in
theorem rowStored (row : l.Row address bank start n) {i : Nat} (inside : i < n) :
    gather l (Function.update memories bank memory) (address i) = data i := by
  obtain ⟨id, place⟩ := row i inside
  unfold gather
  rw [id, Function.update_self, place, stored, if_pos (by omega), Nat.add_sub_cancel_left]

include stored in
theorem rowOthers (apart : l.Apart) (row : l.Row address bank start n) {x : α} (other : ∀ i < n, x ≠ address i) :
    gather l (Function.update memories bank memory) x = gather l memories x := by
  unfold gather
  by_cases same : l.id x = bank
  · rw [same, Function.update_self, stored]
    refine if_neg fun inside => ?_
    obtain ⟨id, place⟩ := row (l.place x - start) (by omega)
    exact other _ (by omega) (apart _ _ (same.trans id.symm) (by omega))
  · rw [Function.update_of_ne same]

end Piece

end Gvsoc.Spread
