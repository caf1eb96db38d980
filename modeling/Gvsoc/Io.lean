import Gvsoc.Bytes

/-! What the memory ports of the components have in common, and runs of bytes in a memory. -/
namespace Gvsoc.Io
open Bytes (Byte)

inductive IoStatus where
  | ok
  | invalid
  | denied
  | pending
  deriving DecidableEq, Repr

def bytesFrom (memory : Nat → Byte) (addr n : Nat) : List Byte := (List.range n).map (fun i => memory (addr + i))

end Gvsoc.Io

namespace Gvsoc.Cells
open Bytes (Byte)
open Io (bytesFrom)

variable {m : Nat → Byte} {start : Nat} {s left right : List Byte}

def write (m : Nat → Byte) (start : Nat) (s : List Byte) : Nat → Byte :=
  fun i => if start ≤ i ∧ i < start + s.length then s.getD (i - start) 0 else m i

def Holds (m : Nat → Byte) (start : Nat) (s : List Byte) : Prop := bytesFrom m start s.length = s

theorem writeCons (m : Nat → Byte) (start : Nat) (b : Byte) (rest : List Byte) :
    write m start (b :: rest) = write (Function.update m start b) (start + 1) rest := by
  funext i
  unfold write
  rw [List.length_cons]
  by_cases first : i = start
  · subst first
    rw [if_pos (by omega), if_neg (by omega), Function.update_self, Nat.sub_self, List.getD_cons_zero]
  · by_cases inside : start ≤ i ∧ i < start + (rest.length + 1)
    · have place : i - start = i - (start + 1) + 1 := by omega
      rw [if_pos inside, if_pos (by omega), place, List.getD_cons_succ]
    · rw [if_neg inside, if_neg (by omega), Function.update_of_ne first]

theorem holdsIff : Holds m start s ↔ ∀ i (inside : i < s.length), m (start + i) = s[i] := by
  unfold Holds bytesFrom
  constructor
  · intro same i inside
    have entry := congrArg (fun l => l[i]?) same
    simpa [inside] using entry
  · intro entries
    apply List.ext_getElem
    · simp
    · intro i _ inside
      simpa using entries i inside

theorem holdsAppend : Holds m start (left ++ right) ↔ Holds m start left ∧ Holds m (start + left.length) right := by
  simp only [holdsIff]
  constructor
  · intro entries
    constructor
    · intro i inside
      have entry := entries i (by rw [List.length_append]; omega)
      rwa [List.getElem_append_left inside] at entry
    · intro i inside
      have entry := entries (left.length + i) (by rw [List.length_append]; omega)
      rw [List.getElem_append_right (by omega)] at entry
      simpa [Nat.add_assoc] using entry
  · rintro ⟨first, second⟩ i inside
    by_cases low : i < left.length
    · rw [List.getElem_append_left low]
      exact first i low
    · rw [List.length_append] at inside
      have entry := second (i - left.length) (by omega)
      rw [List.getElem_append_right (by omega), ← entry]
      congr 1
      omega

theorem holdsWrite : Holds (write m start s) start s := by
  rw [holdsIff]
  intro i inside
  simp [write, inside]

theorem writeOutside {i n : Nat} (short : s.length ≤ n) (apart : i ∉ List.range' start n) : write m start s i = m i := by
  refine if_neg fun inside => apart (List.mem_range'_1.mpr ?_)
  omega

theorem holdsBefore {first : Nat} (before : first + left.length ≤ start) (held : Holds m first left) :
    Holds (write m start s) first left := by
  rw [holdsIff] at held ⊢
  intro i inside
  unfold write
  rw [if_neg (by omega)]
  exact held i inside

end Gvsoc.Cells
