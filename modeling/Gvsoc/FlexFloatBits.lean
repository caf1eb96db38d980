import Gvsoc.FlexFloatFields

/-! The bits of a small format are read back from the double that keeps them. -/
namespace Gvsoc.FlexFloat

section Sizes

variable {d : Desc}

theorem biasBounds (supported : d.Supported) :
    1 ≤ flexfloatBias d ∧ flexfloatBias d ≤ 511 ∧ flexfloatInfExp d = 2 * flexfloatBias d + 1 := by
  obtain ⟨low, high, -, -⟩ := supported
  have least : (2 : Int) ^ 1 ≤ 2 ^ (d.expBits - 1) := pow_le_pow_right₀ (by norm_num) (by omega)
  have most : (2 : Int) ^ (d.expBits - 1) ≤ 2 ^ 9 := pow_le_pow_right₀ (by norm_num) (by omega)
  have double : (2 : Int) ^ d.expBits = 2 ^ (d.expBits - 1) * 2 := by
    rw [← pow_succ]
    congr 1
    omega
  unfold flexfloatBias flexfloatInfExp
  omega

theorem fracShift {frac : Bits} (supported : d.Supported) (small : frac.toNat < 2 ^ d.fracBits) :
    (frac <<< (52 - d.fracBits)).toNat = frac.toNat * 2 ^ (52 - d.fracBits) ∧ frac.toNat * 2 ^ (52 - d.fracBits) < 2 ^ 52 := by
  have fits : frac.toNat * 2 ^ (52 - d.fracBits) < 2 ^ 52 := by
    have whole : 2 ^ d.fracBits * 2 ^ (52 - d.fracBits) = 2 ^ 52 := by
      rw [← Nat.pow_add, Nat.add_sub_cancel' (supported.fracHigh.trans (by norm_num))]
    rw [← whole]
    exact Nat.mul_lt_mul_of_pos_right small (Nat.two_pow_pos _)
  refine ⟨?_, fits⟩
  rw [BitVec.toNat_shiftLeft, Nat.shiftLeft_eq, Nat.mod_eq_of_lt (fits.trans (by norm_num))]

end Sizes

section Assembled

theorem assembled {bits frac : Bits} {exp : Int} {f w : Nat} (low : 0 ≤ exp) (narrow : w < 63) (high : exp.toNat * 2 ^ f < 2 ^ 63)
    (parts : exp.toNat * 2 ^ f + frac.toNat = bits.toNat % 2 ^ w) :
    (((BitVec.ofBool (bits.getLsbD w)).setWidth 64 <<< w) + (BitVec.ofInt 64 exp <<< f) + frac) |||
      (if bits.getLsbD w then (-1 : Bits) <<< w else 0) = (bits.setWidth (w + 1)).signExtend 64 := by
  obtain ⟨e, rfl⟩ := Int.eq_ofNat_of_zero_le low
  rw [Int.toNat_natCast] at high parts
  have power : 2 ^ w < 2 ^ 63 := Nat.pow_lt_pow_right (by norm_num) narrow
  have bit := Bool.toNat_le (bits.getLsbD w)
  have top : (bits.getLsbD w).toNat * 2 ^ w ≤ 2 ^ w := by
    calc (bits.getLsbD w).toNat * 2 ^ w ≤ 1 * 2 ^ w := Nat.mul_le_mul_right _ bit
      _ = 2 ^ w := Nat.one_mul _
  have below := Nat.mod_lt bits.toNat (Nat.two_pow_pos w)
  have small : e < 2 ^ 64 := by
    have least := Nat.le_mul_of_pos_right e (Nat.two_pow_pos f)
    omega
  have sum : ((BitVec.ofBool (bits.getLsbD w)).setWidth 64 <<< w) + (BitVec.ofInt 64 e <<< f) + frac =
      (bits.setWidth (w + 1)).setWidth 64 := by
    have split : bits.toNat % 2 ^ (w + 1) = bits.toNat % 2 ^ w + 2 ^ w * (bits.getLsbD w).toNat := by
      rw [Nat.mod_pow_succ, ← Nat.toNat_testBit, BitVec.testBit_toNat]
    have one : (bits.getLsbD w).toNat % 2 ^ 64 = (bits.getLsbD w).toNat := Nat.mod_eq_of_lt (by omega)
    refine BitVec.eq_of_toNat_eq ?_
    rw [BitVec.toNat_add, BitVec.toNat_add, BitVec.toNat_shiftLeft, BitVec.toNat_shiftLeft, BitVec.toNat_setWidth,
      BitVec.toNat_ofBool, BitVec.ofInt_natCast, BitVec.toNat_ofNat, Nat.shiftLeft_eq, Nat.shiftLeft_eq,
      BitVec.toNat_setWidth, BitVec.toNat_setWidth, split, Nat.mod_eq_of_lt small, Nat.mul_comm (2 ^ w), one]
    omega
  rw [sum]
  refine BitVec.eq_of_getLsbD_eq fun i inside => ?_
  rw [BitVec.getLsbD_or, BitVec.getLsbD_setWidth, BitVec.getLsbD_signExtend, BitVec.msb_setWidth]
  have negative : (-1 : Bits) = BitVec.allOnes 64 := rfl
  have mask : (if bits.getLsbD w then (-1 : Bits) <<< w else 0).getLsbD i = (bits.getLsbD w && decide (w ≤ i)) := by
    cases bits.getLsbD w with
    | true => rw [if_pos rfl, negative, BitVec.getLsbD_shiftLeft, BitVec.getLsbD_allOnes]; grind
    | false => simp
  rw [mask, BitVec.getLsbD_setWidth]
  rcases Nat.lt_trichotomy i w with less | rfl | more
  · simp [inside, Nat.not_le.mpr less, show i < w + 1 by omega]
  · simp [inside]
  · simp [inside, Nat.le_of_lt more, show ¬i < w + 1 by omega]

end Assembled

section Fields

variable {d : Desc} {a sig : Bits}

theorem lowNumber {n : Nat} (short : n ≤ 63) (bits : Bits) : (bits &&& ((1 : Bits) <<< n - 1)).toNat = bits.toNat % 2 ^ n := by
  have ones : ((1 : Bits) <<< n - 1).toNat = 2 ^ n - 1 := CShift.onesNumber (by omega)
  rw [BitVec.toNat_and, ones, Nat.and_two_pow_sub_one_eq_mod]

theorem significandNumber (a : Bits) : ((a &&& maskFrac) ||| maskFracMsb).toNat = 2 ^ 52 + (a &&& maskFrac).toNat := by
  rw [BitVec.toNat_or, Nat.or_comm]
  have top : maskFracMsb.toNat = 2 ^ 52 * 1 := rfl
  rw [top, ← Nat.two_pow_add_eq_or_of_lt (fractionBound a), Nat.mul_one]

theorem denormShiftNumber (supported : d.Supported) (exp : Int) (low : -2 ^ 12 ≤ exp) (high : exp ≤ 0) :
    (denormShift d exp : Int) = 53 - d.fracBits - exp := by
  have short := supported.fracHigh
  unfold denormShift
  omega

theorem denormFracNumber (exp : Int) (normal : exponent a ≠ 0) :
    (flexfloatDenormFrac d a exp).toNat = (2 ^ 52 + (a &&& maskFrac).toNat) / 2 ^ denormShift d exp := by
  have bound := fractionBound a
  unfold flexfloatDenormFrac
  rw [if_neg normal]
  split
  next far =>
    have power : 2 ^ 53 ≤ 2 ^ denormShift d exp := Nat.pow_le_pow_right (by norm_num) (by omega)
    refine (Nat.div_eq_of_lt ?_).symm
    omega
  next near => rw [BitVec.toNat_ushiftRight, Nat.shiftRight_eq_div_pow, significandNumber]

theorem fracNumber (a : Bits) : (flexfloatFrac d a).toNat = (a &&& maskFrac).toNat / 2 ^ (52 - d.fracBits) := by
  unfold flexfloatFrac
  rw [BitVec.toNat_ushiftRight, Nat.shiftRight_eq_div_pow]

theorem fracLess (supported : d.Supported) (a : Bits) : (flexfloatFrac d a).toNat < 2 ^ d.fracBits := by
  have short := supported.fracHigh
  rw [fracNumber, Nat.div_lt_iff_lt_mul (Nat.two_pow_pos _), ← Nat.pow_add, Nat.add_sub_cancel' (by omega)]
  exact fractionBound a

theorem flexfloatExpNormal (low : 0 < exponent a) (high : exponent a < infExp) : flexfloatExp d a = exponent a - 1023 + flexfloatBias d := by
  unfold flexfloatExp
  exact if_neg (by omega)

end Fields

section Packed

variable {d : Desc} {sign : Bool} {exp : Int} {frac : Bits}

theorem packFinite (other : exp ≠ flexfloatInfExp d) :
    flexfloatPack d sign exp frac = pack sign (exp - flexfloatBias d + 1023) (frac <<< (52 - d.fracBits)) := by
  unfold flexfloatPack
  simp only [if_neg other]

theorem packParts (supported : d.Supported) (sign : Bool) (exp : Int) (small : frac.toNat < 2 ^ d.fracBits) (low : -62 ≤ exp) (high : exp < flexfloatInfExp d) :
    exponent (flexfloatPack d sign exp frac) = exp - flexfloatBias d + 1023 ∧
      flexfloatExp d (flexfloatPack d sign exp frac) = exp ∧
      (flexfloatPack d sign exp frac &&& maskFrac).toNat = frac.toNat * 2 ^ (52 - d.fracBits) ∧
      flexfloatSign (flexfloatPack d sign exp frac) = sign := by
  obtain ⟨some, most, double⟩ := biasBounds supported
  obtain ⟨shifted, fits⟩ := fracShift supported small
  rw [packFinite (Int.ne_of_lt high)]
  have small' : (frac <<< (52 - d.fracBits)).toNat < 2 ^ 52 := by omega
  have field : exponent (pack sign (exp - flexfloatBias d + 1023) (frac <<< (52 - d.fracBits))) = exp - flexfloatBias d + 1023 :=
    packExponent (by omega) (by omega) small'
  refine ⟨field, ?_, ?_, packSign (by omega) (by omega) small'⟩
  · rw [flexfloatExpNormal (by omega) (by unfold infExp; omega), field]
    omega
  · rw [packFraction (by omega) (by omega) small', shifted]

theorem packInf (supported : d.Supported) (sign : Bool) (small : frac.toNat < 2 ^ d.fracBits) :
    exponent (flexfloatPack d sign (flexfloatInfExp d) frac) = infExp ∧
      (flexfloatPack d sign (flexfloatInfExp d) frac &&& maskFrac).toNat = frac.toNat * 2 ^ (52 - d.fracBits) ∧
      flexfloatSign (flexfloatPack d sign (flexfloatInfExp d) frac) = sign := by
  obtain ⟨shifted, fits⟩ := fracShift supported small
  unfold flexfloatPack
  rw [if_pos rfl]
  have small' : (frac <<< (52 - d.fracBits)).toNat < 2 ^ 52 := by omega
  refine ⟨packExponent (by decide) (by decide) small', ?_, packSign (by decide) (by decide) small'⟩
  rw [packFraction (by decide) (by decide) small', shifted]

end Packed

end Gvsoc.FlexFloat
