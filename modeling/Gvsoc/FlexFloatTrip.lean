import Gvsoc.FlexFloatBits

/-! The bits of a small format are read back from the double that keeps them. -/
namespace Gvsoc.FlexFloat

section Normalized

variable {d : Desc}

theorem bitMask {n : Nat} (inside : n < 64) (a : Bits) : a &&& ((1 : Bits) <<< n) ≠ 0 ↔ a.toNat / 2 ^ n % 2 = 1 := by
  have power : (1 : Bits) <<< n = BitVec.twoPow 64 n := rfl
  have bit : a.getLsbD n = decide (a.toNat / 2 ^ n % 2 = 1) := Nat.testBit_eq_decide_div_mod_eq
  have other : BitVec.twoPow 64 n ≠ 0 := by
    intro zero
    have one := congrArg (·.getLsbD n) zero
    simp [inside] at one
  rw [power, BitVec.and_twoPow, bit]
  by_cases set : a.toNat / 2 ^ n % 2 = 1
  · simp only [set, decide_true, if_true, other, ne_eq, not_false_eq_true]
  · simp only [set, decide_false, Bool.false_eq_true, if_false, iff_false, ne_eq, not_not]
    rfl

theorem doubledNumber {n : Nat} {frac : Bits} (short : n ≤ 62) (small : frac.toNat < 2 ^ n) : (frac <<< 1).toNat = frac.toNat * 2 := by
  have power : 2 ^ n ≤ 2 ^ 62 := Nat.pow_le_pow_right (by norm_num) short
  rw [BitVec.toNat_shiftLeft, Nat.shiftLeft_eq, Nat.mod_eq_of_lt (by omega), Nat.pow_one]

theorem normalizeMeets (supported : d.Supported) (fuel : Nat) (exp : Int) (frac : Bits) (positive : 0 < frac.toNat)
    (small : frac.toNat < 2 ^ d.fracBits) (enough : 2 ^ d.fracBits ≤ frac.toNat * 2 ^ fuel) :
    ∃ j : Nat, ∃ whole : Bits, normalize d fuel exp frac = some (exp - j, whole) ∧ j < d.fracBits ∧
      whole.toNat = frac.toNat * 2 ^ (j + 1) ∧ 2 ^ d.fracBits ≤ whole.toNat ∧ whole.toNat < 2 ^ (d.fracBits + 1) := by
  have short := supported.fracHigh
  induction fuel generalizing exp frac with
  | zero => omega
  | succ fuel shifts =>
      have double := doubledNumber (show d.fracBits ≤ 62 by omega) small
      have other : frac ≠ 0 := by
        rintro rfl
        exact Nat.lt_irrefl 0 positive
      have room := Nat.pow_succ 2 d.fracBits
      simp only [normalize, if_neg other]
      by_cases full : 2 ^ d.fracBits ≤ frac.toNat * 2
      · have bit : frac <<< 1 &&& ((1 : Bits) <<< d.fracBits) ≠ 0 := by
          rw [bitMask (by omega), double, @Nat.div_eq_of_lt_le 1 _ _ (by omega) (by omega)]
        rw [if_pos bit]
        refine ⟨0, frac <<< 1, by rw [Nat.cast_zero, Int.sub_zero], supported.fracLow, ?_, ?_, ?_⟩ <;> rw [double] <;> omega
      · have bit : ¬frac <<< 1 &&& ((1 : Bits) <<< d.fracBits) ≠ 0 := by
          rw [bitMask (by omega), double, Nat.div_eq_of_lt (by omega)]
          omega
        rw [if_neg bit]
        have enough' : 2 ^ d.fracBits ≤ (frac <<< 1).toNat * 2 ^ fuel := by
          rw [double]
          refine enough.trans (Nat.le_of_eq ?_)
          ring
        obtain ⟨j, whole, result, -, number, least, most⟩ := shifts (exp - 1) (frac <<< 1) (by omega) (by omega) enough'
        have number' : whole.toNat = frac.toNat * 2 ^ (j + 2) := by
          rw [number, double]
          ring
        refine ⟨j + 1, whole, ?_, ?_, number', least, most⟩
        · rw [result, Nat.cast_add, Nat.cast_one]
          congr 2
          omega
        · -- The fraction has a bit, so that the shift is not longer than the field.
          by_contra long
          have powers : 2 ^ (d.fracBits + 1) ≤ 2 ^ (j + 2) := Nat.pow_le_pow_right (by norm_num) (by omega)
          have more := Nat.le_mul_of_pos_left (2 ^ (j + 2)) positive
          omega

end Normalized

section Trip

variable {d : Desc}

theorem getBits {a bits : Bits} (supported : d.Supported) (exp : Int) (frac : Bits)
    (fields : bitsFields d a = some (exp, frac))
    (sign : flexfloatSign a = bits.getLsbD (d.expBits + d.fracBits)) (low : 0 ≤ exp)
    (expParts : exp.toNat = bits.toNat / 2 ^ d.fracBits % 2 ^ d.expBits) (fracParts : frac.toNat = bits.toNat % 2 ^ d.fracBits) :
    flexfloatGetBits d a = some ((bits.setWidth (d.expBits + d.fracBits + 1)).signExtend 64) := by
  have narrow := supported.expHigh
  have short := supported.fracHigh
  have parts : exp.toNat * 2 ^ d.fracBits + frac.toNat = bits.toNat % 2 ^ (d.expBits + d.fracBits) := by
    rw [expParts, fracParts, Nat.add_comm d.expBits, Nat.pow_add, Nat.mod_mul, Nat.mul_comm, Nat.add_comm]
  have high : exp.toNat * 2 ^ d.fracBits < 2 ^ 63 := by
    have below := Nat.mod_lt bits.toNat (Nat.two_pow_pos (d.expBits + d.fracBits))
    have power : 2 ^ (d.expBits + d.fracBits) ≤ 2 ^ 62 := Nat.pow_le_pow_right (by norm_num) (by omega)
    omega
  unfold flexfloatGetBits
  rw [fields, sign]
  exact congrArg some (assembled low (by omega) high parts)

variable {bits : Bits}

theorem signField (bits : Bits) (n : Nat) : (bits >>> n).getLsbD 0 = bits.getLsbD n := by
  rw [BitVec.getLsbD_ushiftRight, Nat.add_zero]

theorem expField (supported : d.Supported) (bits : Bits) :
    ((bits >>> d.fracBits) &&& (((1 : Bits) <<< d.expBits) - 1)).toNat = bits.toNat / 2 ^ d.fracBits % 2 ^ d.expBits := by
  have narrow := supported.expHigh
  rw [lowNumber (by omega), BitVec.toNat_ushiftRight, Nat.shiftRight_eq_div_pow]

theorem fracField (supported : d.Supported) (bits : Bits) :
    (bits &&& (((1 : Bits) <<< d.fracBits) - 1)).toNat = bits.toNat % 2 ^ d.fracBits :=
  lowNumber (by have short := supported.fracHigh; omega) bits

theorem zeroTrip (supported : d.Supported) (exp : bits.toNat / 2 ^ d.fracBits % 2 ^ d.expBits = 0)
    (frac : bits.toNat % 2 ^ d.fracBits = 0) :
    flexfloatGetBits d (pack (bits.getLsbD (d.expBits + d.fracBits)) 0 0) =
      some ((bits.setWidth (d.expBits + d.fracBits + 1)).signExtend 64) := by
  generalize sign : bits.getLsbD (d.expBits + d.fracBits) = negative
  have field : exponent (pack negative 0 0) = 0 := packExponent (by decide) (by decide) (by decide)
  have rest : pack negative 0 0 &&& maskFrac = 0 := packFraction (by decide) (by decide) (by decide)
  have power : flexfloatExp d (pack negative 0 0) = 0 := by
    unfold flexfloatExp
    rw [field]
    exact if_pos (.inl rfl)
  refine getBits supported 0 0 ?_ ?_ (by decide) exp.symm frac.symm
  · unfold bitsFields flexfloatDenormFrac
    rw [power, field, rest, if_neg (by decide), if_neg (by simp), if_pos (by decide), if_pos rfl]
    exact congrArg (fun frac => some (0, frac)) BitVec.zero_ushiftRight
  · rw [packSign (by decide) (by decide) (by decide), sign]

theorem normalTrip (supported : d.Supported) (other : bits.toNat / 2 ^ d.fracBits % 2 ^ d.expBits ≠ 0) :
    flexfloatGetBits d (flexfloatPack d (bits.getLsbD (d.expBits + d.fracBits))
      (bits.toNat / 2 ^ d.fracBits % 2 ^ d.expBits : Nat) (bits &&& (((1 : Bits) <<< d.fracBits) - 1))) =
      some ((bits.setWidth (d.expBits + d.fracBits + 1)).signExtend 64) := by
  have short := supported.fracHigh
  obtain ⟨least, most, double⟩ := biasBounds supported
  have fraction := fracField supported bits
  have small : (bits &&& (((1 : Bits) <<< d.fracBits) - 1)).toNat < 2 ^ d.fracBits := by
    rw [fraction]
    exact Nat.mod_lt _ (Nat.two_pow_pos _)
  have bound : bits.toNat / 2 ^ d.fracBits % 2 ^ d.expBits < 2 ^ d.expBits := Nat.mod_lt _ (Nat.two_pow_pos _)
  have top : flexfloatInfExp d = (2 ^ d.expBits : Nat) - 1 := by
    unfold flexfloatInfExp
    push_cast
    rfl
  have back {sign : Bool} {exp : Int} (number : (flexfloatPack d sign exp (bits &&& (((1 : Bits) <<< d.fracBits) - 1)) &&& maskFrac).toNat =
      (bits &&& (((1 : Bits) <<< d.fracBits) - 1)).toNat * 2 ^ (52 - d.fracBits)) :
      flexfloatFrac d (flexfloatPack d sign exp (bits &&& (((1 : Bits) <<< d.fracBits) - 1))) = bits &&& (((1 : Bits) <<< d.fracBits) - 1) := by
    refine BitVec.eq_of_toNat_eq ?_
    rw [fracNumber, number, Nat.mul_div_cancel _ (Nat.two_pow_pos _)]
  generalize whole : bits.toNat / 2 ^ d.fracBits % 2 ^ d.expBits = e at *
  by_cases last : (e : Int) = flexfloatInfExp d
  · rw [last]
    obtain ⟨field, number, sign⟩ := packInf supported (bits.getLsbD (d.expBits + d.fracBits)) small
    have power : flexfloatExp d (flexfloatPack d (bits.getLsbD (d.expBits + d.fracBits)) (flexfloatInfExp d)
        (bits &&& (((1 : Bits) <<< d.fracBits) - 1))) = infExp := by
      unfold flexfloatExp
      rw [field]
      exact if_pos (.inr rfl)
    refine getBits supported (flexfloatInfExp d) _ ?_ sign (by omega) (by omega) fraction
    unfold bitsFields
    rw [power, if_pos rfl, back number]
  · obtain ⟨field, power, number, sign⟩ :=
      packParts supported (bits.getLsbD (d.expBits + d.fracBits)) e small (by omega) (by omega)
    refine getBits supported e _ ?_ sign (by omega) (by omega) fraction
    unfold bitsFields
    rw [power, back number, if_neg (by unfold infExp; omega), if_neg (by omega), if_neg (by omega)]

theorem oneNumber {n : Nat} (short : n ≤ 63) : ((1 : Bits) <<< n).toNat = 2 ^ n := by
  have power : 2 ^ n < 2 ^ 64 := Nat.pow_lt_pow_right (by norm_num) (by omega)
  have one : (1 : Bits).toNat = 1 := rfl
  rw [BitVec.toNat_shiftLeft, Nat.shiftLeft_eq, one, Nat.one_mul, Nat.mod_eq_of_lt power]

theorem implicitNumber (supported : d.Supported) {whole : Bits} (least : 2 ^ d.fracBits ≤ whole.toNat)
    (most : whole.toNat < 2 ^ (d.fracBits + 1)) :
    (whole &&& (((1 : Bits) <<< d.fracBits) - 1)).toNat = whole.toNat - 2 ^ d.fracBits := by
  have short := supported.fracHigh
  rw [lowNumber (by omega), Nat.mod_eq_sub_mod least, Nat.mod_eq_of_lt]
  rw [Nat.pow_succ] at most
  omega

/- The normalized number of a subnormal one: its exponent tells how far the fraction goes back. -/
theorem subnormalTrip (supported : d.Supported) {j : Nat} {whole : Bits} (exp : bits.toNat / 2 ^ d.fracBits % 2 ^ d.expBits = 0)
    (near : j < d.fracBits) (number : whole.toNat = bits.toNat % 2 ^ d.fracBits * 2 ^ (j + 1)) (least : 2 ^ d.fracBits ≤ whole.toNat)
    (most : whole.toNat < 2 ^ (d.fracBits + 1)) :
    flexfloatGetBits d (flexfloatPack d (bits.getLsbD (d.expBits + d.fracBits)) (-j) (whole &&& (((1 : Bits) <<< d.fracBits) - 1))) =
      some ((bits.setWidth (d.expBits + d.fracBits + 1)).signExtend 64) := by
  have short := supported.fracHigh
  obtain ⟨low, high, double⟩ := biasBounds supported
  have implicit := implicitNumber supported least most
  have small : (whole &&& (((1 : Bits) <<< d.fracBits) - 1)).toNat < 2 ^ d.fracBits := by
    rw [Nat.pow_succ] at most
    omega
  obtain ⟨field, power, fraction, sign⟩ :=
    packParts supported (bits.getLsbD (d.expBits + d.fracBits)) (-j) small (by omega) (by omega)
  generalize flexfloatPack d (bits.getLsbD (d.expBits + d.fracBits)) (-j) (whole &&& (((1 : Bits) <<< d.fracBits) - 1)) = a at *
  have back : (flexfloatFrac d a).toNat = whole.toNat - 2 ^ d.fracBits := by
    rw [fracNumber, fraction, Nat.mul_div_cancel _ (Nat.two_pow_pos _), implicit]
  have shift : denormShift d (-j) = 52 - d.fracBits + (j + 1) := by
    have number := denormShiftNumber supported (-j) (by omega) (by omega)
    omega
  have denorm : (flexfloatDenormFrac d a (-j)).toNat = bits.toNat % 2 ^ d.fracBits := by
    have significand : 2 ^ 52 + (whole.toNat - 2 ^ d.fracBits) * 2 ^ (52 - d.fracBits) =
        bits.toNat % 2 ^ d.fracBits * 2 ^ (52 - d.fracBits + (j + 1)) := by
      have full : 2 ^ 52 = 2 ^ d.fracBits * 2 ^ (52 - d.fracBits) := by
        rw [← Nat.pow_add, Nat.add_sub_cancel' (by omega)]
      rw [full, ← Nat.add_mul, Nat.add_sub_cancel' least, number, Nat.mul_assoc, ← Nat.pow_add, Nat.add_comm (j + 1)]
    rw [denormFracNumber _ (by omega), fraction, implicit, shift, significand, Nat.mul_div_cancel _ (Nat.two_pow_pos _)]
  by_cases edge : (-j : Int) < 0 ∧ flexfloatFrac d a = 0
  · -- The fraction is one bit. It is shifted back from the exponent.
    have one : whole.toNat = 2 ^ d.fracBits := by
      have zero := congrArg BitVec.toNat edge.2
      rw [back] at zero
      exact Nat.le_antisymm (Nat.le_of_sub_eq_zero zero) least
    have split : 2 ^ d.fracBits = 2 ^ (d.fracBits - j - 1) * 2 ^ (j + 1) := by
      rw [← Nat.pow_add]
      congr 1
      omega
    have bit : 2 ^ (d.fracBits - j - 1) = bits.toNat % 2 ^ d.fracBits := by
      refine Nat.eq_of_mul_eq_mul_right (Nat.two_pow_pos (j + 1)) ?_
      exact split.symm.trans (one.symm.trans number)
    refine getBits supported 0 ((1 : Bits) <<< (d.fracBits - j - 1)) ?_ sign (by decide) exp.symm ?_
    · unfold bitsFields oneShifted
      rw [power, if_neg (by unfold infExp; omega), if_pos edge, if_pos (by omega), if_pos (by omega), Option.map_some]
      have places : ((d.fracBits : Int) + -j - 1).toNat = d.fracBits - j - 1 := by omega
      rw [places]
    · rw [oneNumber (by omega), bit]
  · refine getBits supported 0 (flexfloatDenormFrac d a (-j)) ?_ sign (by decide) exp.symm denorm
    unfold bitsFields
    rw [power, if_neg (by unfold infExp; omega), if_neg edge, if_pos (by omega)]

theorem setCases (supported : d.Supported) (bits : Bits) :
    (bits.toNat / 2 ^ d.fracBits % 2 ^ d.expBits = 0 ∧ bits.toNat % 2 ^ d.fracBits = 0 ∧
      flexfloatSetBits d bits = some (pack (bits.getLsbD (d.expBits + d.fracBits)) 0 0)) ∨
    (bits.toNat / 2 ^ d.fracBits % 2 ^ d.expBits = 0 ∧ ∃ j : Nat, ∃ whole : Bits, j < d.fracBits ∧
      whole.toNat = bits.toNat % 2 ^ d.fracBits * 2 ^ (j + 1) ∧ 2 ^ d.fracBits ≤ whole.toNat ∧ whole.toNat < 2 ^ (d.fracBits + 1) ∧
      flexfloatSetBits d bits = some (flexfloatPack d (bits.getLsbD (d.expBits + d.fracBits)) (-j)
        (whole &&& (((1 : Bits) <<< d.fracBits) - 1)))) ∨
    (bits.toNat / 2 ^ d.fracBits % 2 ^ d.expBits ≠ 0 ∧
      flexfloatSetBits d bits = some (flexfloatPack d (bits.getLsbD (d.expBits + d.fracBits))
        (bits.toNat / 2 ^ d.fracBits % 2 ^ d.expBits : Nat) (bits &&& (((1 : Bits) <<< d.fracBits) - 1)))) := by
  have fraction := fracField supported bits
  have power := expField supported bits
  unfold flexfloatSetBits flexfloatPackBits
  simp only [signField, power]
  by_cases exp : bits.toNat / 2 ^ d.fracBits % 2 ^ d.expBits = 0
  · rw [exp]
    by_cases zero : bits &&& (((1 : Bits) <<< d.fracBits) - 1) = 0
    · left
      rw [if_pos ⟨rfl, zero⟩, ← fraction, zero]
      exact ⟨rfl, rfl, rfl⟩
    · right
      left
      have positive : 0 < (bits &&& (((1 : Bits) <<< d.fracBits) - 1)).toNat := by
        refine Nat.pos_of_ne_zero fun none => zero ?_
        exact BitVec.eq_of_toNat_eq none
      have small : (bits &&& (((1 : Bits) <<< d.fracBits) - 1)).toNat < 2 ^ d.fracBits := by
        rw [fraction]
        exact Nat.mod_lt _ (Nat.two_pow_pos _)
      have enough : 2 ^ d.fracBits ≤ (bits &&& (((1 : Bits) <<< d.fracBits) - 1)).toNat * 2 ^ 64 := by
        have short := supported.fracHigh
        have least : 2 ^ d.fracBits ≤ 2 ^ 64 := Nat.pow_le_pow_right (by norm_num) (by omega)
        omega
      obtain ⟨j, whole, result, near, number, least, most⟩ := normalizeMeets supported 64 0 _ positive small enough
      rw [fraction] at number
      rw [if_neg fun both => zero both.2, if_pos (by decide), Nat.cast_zero, result]
      have place : (0 : Int) - j = -j := Int.zero_sub _
      rw [place]
      exact ⟨rfl, j, whole, near, number, least, most, rfl⟩
  · right
    right
    rw [if_neg (by omega), if_neg (by omega)]
    exact ⟨exp, rfl⟩

/- What `flexfloat_set_bits` keeps is what `flexfloat_get_bits` gives back, with copies of the sign above it. -/
theorem bitsReadBack (supported : d.Supported) (bits : Bits) :
    (flexfloatSetBits d bits).bind (flexfloatGetBits d) = some ((bits.setWidth (d.expBits + d.fracBits + 1)).signExtend 64) := by
  rcases setCases supported bits with ⟨exp, frac, result⟩ | ⟨exp, j, whole, near, number, least, most, result⟩ | ⟨exp, result⟩
  · rw [result, Option.bind_some]
    exact zeroTrip supported exp frac
  · rw [result, Option.bind_some]
    exact subnormalTrip supported exp near number least most
  · rw [result, Option.bind_some]
    exact normalTrip supported exp

theorem bitsReadBackLeast :
    (flexfloatSetBits ⟨8, 23⟩ 0x80000001).bind (flexfloatGetBits ⟨8, 23⟩) = some 0xFFFFFFFF80000001 :=
  bitsReadBack ⟨by decide, by decide, by decide, by decide⟩ 0x80000001

end Trip

end Gvsoc.FlexFloat
