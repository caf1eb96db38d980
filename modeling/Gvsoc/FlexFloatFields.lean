import Gvsoc.FlexFloat
import Mathlib.Tactic.NormNum
import Mathlib.Tactic.Linarith

/-! The fields of the doubles as numbers. -/
namespace Gvsoc.FlexFloat

section Fields

variable {a sig : Bits} {sign : Bool} {exp : Int}

theorem exponentNumber (a : Bits) : exponent a = (a.toNat / 2 ^ 52 % 2 ^ 11 : Nat) := by
  unfold exponent
  rw [BitVec.toNat_and, BitVec.toNat_ushiftRight, Nat.shiftRight_eq_div_pow]
  exact congrArg _ (Nat.and_two_pow_sub_one_eq_mod _ 11)

theorem fractionNumber (a : Bits) : (a &&& maskFrac).toNat = a.toNat % 2 ^ 52 := by
  rw [BitVec.toNat_and]
  exact Nat.and_two_pow_sub_one_eq_mod _ 52

theorem fractionBound (a : Bits) : (a &&& maskFrac).toNat < 2 ^ 52 := by
  rw [fractionNumber]
  exact Nat.mod_lt _ (by norm_num)

theorem exponentBound (a : Bits) : 0 ≤ exponent a ∧ exponent a < 2048 := by
  rw [exponentNumber]
  omega

theorem signMsb (a : Bits) : flexfloatSign a = a.msb := by
  unfold flexfloatSign
  cases high : a.msb with
  | true =>
      refine decide_eq_true fun zero => ?_
      have bit : (a.sshiftRight 63).getLsbD 0 = false := by
        rw [zero]
        rfl
      have top : a.getLsbD 63 = true := by rwa [BitVec.msb_eq_getLsbD_last] at high
      rw [BitVec.getLsbD_sshiftRight, Nat.add_zero, if_pos (by norm_num), top] at bit
      contradiction
  | false =>
      refine decide_eq_false (not_not_intro ?_)
      refine BitVec.eq_of_getLsbD_eq fun i small => ?_
      rw [BitVec.getLsbD_sshiftRight, high]
      rw [BitVec.msb_eq_getLsbD_last] at high
      rcases Nat.eq_zero_or_pos i with rfl | more
      · simpa using high
      · simp
        omega

theorem signNumber (a : Bits) : flexfloatSign a = decide (2 ^ 63 ≤ a.toNat) := by
  rw [signMsb, BitVec.msb_eq_decide]

theorem packNumber (low : 0 ≤ exp) (high : exp < 2048) (small : sig.toNat < 2 ^ 52) :
    (pack sign exp sig).toNat = sign.toNat * 2 ^ 63 + exp.toNat * 2 ^ 52 + sig.toNat := by
  obtain ⟨e, rfl⟩ := Int.eq_ofNat_of_zero_le low
  have bit := Bool.toNat_le sign
  unfold pack
  rw [BitVec.toNat_add, BitVec.toNat_add, BitVec.toNat_shiftLeft, BitVec.toNat_shiftLeft, BitVec.toNat_setWidth,
    BitVec.toNat_ofBool, BitVec.ofInt_natCast, BitVec.toNat_ofNat, Nat.shiftLeft_eq, Nat.shiftLeft_eq]
  rw [Int.toNat_natCast]
  omega

theorem packExponent (low : 0 ≤ exp) (high : exp < 2048) (small : sig.toNat < 2 ^ 52) : exponent (pack sign exp sig) = exp := by
  rw [exponentNumber, packNumber low high small]
  omega

theorem packFraction (low : 0 ≤ exp) (high : exp < 2048) (small : sig.toNat < 2 ^ 52) : pack sign exp sig &&& maskFrac = sig := by
  refine BitVec.eq_of_toNat_eq ?_
  rw [fractionNumber, packNumber low high small]
  omega

theorem packSign (low : 0 ≤ exp) (high : exp < 2048) (small : sig.toNat < 2 ^ 52) : flexfloatSign (pack sign exp sig) = sign := by
  rw [signNumber, packNumber low high small]
  cases sign with
  | true => exact decide_eq_true (by rw [Bool.toNat_true]; omega)
  | false => exact decide_eq_false (by rw [Bool.toNat_false]; omega)

theorem packFields (a : Bits) : pack (flexfloatSign a) (exponent a) (a &&& maskFrac) = a := by
  refine BitVec.eq_of_toNat_eq ?_
  obtain ⟨low, high⟩ := exponentBound a
  rw [packNumber low high (fractionBound a), fractionNumber, exponentNumber, Int.toNat_natCast, signNumber]
  have whole := a.isLt
  by_cases negative : 2 ^ 63 ≤ a.toNat
  · rw [decide_eq_true negative, Bool.toNat_true]
    omega
  · rw [decide_eq_false negative, Bool.toNat_false]
    omega

end Fields

end Gvsoc.FlexFloat
