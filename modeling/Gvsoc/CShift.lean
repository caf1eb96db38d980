import Mathlib.Logic.Basic
import Mathlib.Data.Nat.Bitwise

/-! Words of any width and their shifts as C has them: by less than the width. -/
namespace Gvsoc.CShift

variable {w : Nat}

def shl (a : BitVec w) (n : Nat) : Option (BitVec w) := if n < w then some (a <<< n) else none

def shr (a : BitVec w) (n : Nat) : Option (BitVec w) := if n < w then some (a >>> n) else none

def sar (a : BitVec w) (n : Nat) : Option (BitVec w) := if n < w then some (a.sshiftRight n) else none

section Shifts

variable {a : BitVec w} {n : Nat}

theorem shlBelow (short : n < w) : shl a n = some (a <<< n) := if_pos short

theorem shrBelow (short : n < w) : shr a n = some (a >>> n) := if_pos short

theorem sarBelow (short : n < w) : sar a n = some (a.sshiftRight n) := if_pos short

theorem shlBeyond (long : w ≤ n) : shl a n = none := if_neg (by omega)

theorem shrBeyond (long : w ≤ n) : shr a n = none := if_neg (by omega)

theorem sarBeyond (long : w ≤ n) : sar a n = none := if_neg (by omega)

end Shifts

theorem onesNumber {n : Nat} (short : n < w) : ((1#w <<< n) - 1#w).toNat = 2 ^ n - 1 := by
  have bound : 2 ^ n < 2 ^ w := Nat.pow_lt_pow_right (by omega) short
  have positive : 0 < 2 ^ n := Nat.two_pow_pos n
  have one : (1#w).toNat = 1 := by
    rw [BitVec.toNat_ofNat, Nat.mod_eq_of_lt (Nat.one_lt_two_pow (by omega))]
  rw [BitVec.toNat_sub, BitVec.toNat_shiftLeft, one, Nat.one_shiftLeft, Nat.mod_eq_of_lt bound]
  have above : 2 ^ w - 1 + 2 ^ n = 2 ^ w + (2 ^ n - 1) := by omega
  rw [above, Nat.add_mod_left, Nat.mod_eq_of_lt (by omega)]

theorem onesBit {n : Nat} (short : n < w) (k : Nat) : ((1#w <<< n) - 1#w).getLsbD k = decide (k < n) := by
  unfold BitVec.getLsbD
  rw [onesNumber short, Nat.testBit_two_pow_sub_one]

end Gvsoc.CShift
