import Gvsoc.FlexFloatBits

/-! A finite double is a sign and a magnitude of up to 53 places. -/
namespace Gvsoc.FlexFloat
open Rounding (Direction Floating roundTo)

section Doubles

variable {a b : Bits} {dir : Direction} {sign : Bool} {n : Nat}

theorem magnitudeNormal (normal : exponent a ≠ 0) :
    magnitude a = (2 ^ 52 + (a &&& maskFrac).toNat) * 2 ^ ((exponent a).toNat - 1) := if_neg normal

theorem sizePower {m : Nat} (low : 2 ^ 52 ≤ m) (high : m < 2 ^ 53) (x : Nat) : (m * 2 ^ x).size = 53 + x := by
  have most : (m * 2 ^ x).size ≤ 53 + x := by
    rw [Nat.size_le, Nat.pow_add]
    exact Nat.mul_lt_mul_of_pos_right high (Nat.two_pow_pos x)
  have least : 52 + x < (m * 2 ^ x).size := by
    rw [Nat.lt_size, Nat.pow_add]
    exact Nat.mul_le_mul_right _ low
  omega

theorem exponentSize (a : Bits) : (exponent a).toNat = (magnitude a).size - 52 := by
  have bound := fractionBound a
  obtain ⟨low, -⟩ := exponentBound a
  by_cases normal : exponent a = 0
  · have small : (magnitude a).size ≤ 52 := by
      unfold magnitude
      rw [if_pos normal]
      exact Nat.size_le.mpr bound
    omega
  · rw [magnitudeNormal normal, sizePower (by omega) (by omega)]
    omega

theorem sizeNormal (normal : exponent a ≠ 0) : (magnitude a).size = 52 + (exponent a).toNat := by
  have bound := fractionBound a
  obtain ⟨low, -⟩ := exponentBound a
  rw [magnitudeNormal normal, sizePower (by omega) (by omega)]
  omega

theorem magnitudeFloating (a : Bits) : Floating 53 0 (magnitude a) := by
  have bound := fractionBound a
  unfold magnitude
  split
  · exact ⟨(a &&& maskFrac).toNat, 0, by omega, Nat.le_refl 0, by rw [Nat.pow_zero, Nat.mul_one]⟩
  · exact ⟨_, _, by omega, Nat.zero_le _, rfl⟩

theorem doubleSame (signs : flexfloatSign a = flexfloatSign b) (magnitudes : magnitude a = magnitude b) : a = b := by
  obtain ⟨low, -⟩ := exponentBound a
  obtain ⟨low', -⟩ := exponentBound b
  have exps : exponent a = exponent b := by
    have first := exponentSize a
    have second := exponentSize b
    rw [magnitudes] at first
    omega
  have fracs : a &&& maskFrac = b &&& maskFrac := by
    refine BitVec.eq_of_toNat_eq ?_
    unfold magnitude at magnitudes
    rw [exps] at magnitudes
    split at magnitudes
    · exact magnitudes
    · exact Nat.add_left_cancel (Nat.eq_of_mul_eq_mul_right (Nat.two_pow_pos _) magnitudes)
  rw [← packFields a, ← packFields b, signs, exps, fracs]

theorem finiteSize (finite : exponent a < infExp) : (magnitude a).size ≤ 2098 := by
  have size := exponentSize a
  unfold infExp at finite
  omega

theorem encodeMeets (dir : Direction) (sign : Bool) (float : Floating 53 0 n) (high : n.size ≤ 2098) :
    flexfloatSign (encode dir sign n) = sign ∧ magnitude (encode dir sign n) = n ∧ exponent (encode dir sign n) < infExp := by
  unfold encode
  simp only [if_pos high]
  split
  next short =>
    have small : n < 2 ^ 52 := Nat.size_le.mp short
    have number : (BitVec.ofNat 64 n).toNat = n := by
      rw [BitVec.toNat_ofNat]
      omega
    have fits : (BitVec.ofNat 64 n).toNat < 2 ^ 52 := by omega
    have field : exponent (pack sign 0 (BitVec.ofNat 64 n)) = 0 := packExponent (by decide) (by decide) fits
    refine ⟨packSign (by decide) (by decide) fits, ?_, by rw [field]; decide⟩
    unfold magnitude
    rw [if_pos field, packFraction (by decide) (by decide) fits, number]
  next long =>
    have least : 2 ^ 52 ≤ n / 2 ^ (n.size - 53) := by
      rw [Nat.le_div_iff_mul_le (Nat.two_pow_pos _), ← Nat.pow_add]
      exact Nat.lt_size.mp (by omega)
    have most : n / 2 ^ (n.size - 53) < 2 ^ 53 := by
      rw [Nat.div_lt_iff_lt_mul (Nat.two_pow_pos _), ← Nat.pow_add]
      exact Nat.size_le.mp (by omega)
    have number : (BitVec.ofNat 64 (n / 2 ^ (n.size - 53) - 2 ^ 52)).toNat = n / 2 ^ (n.size - 53) - 2 ^ 52 := by
      rw [BitVec.toNat_ofNat]
      omega
    have fits : (BitVec.ofNat 64 (n / 2 ^ (n.size - 53) - 2 ^ 52)).toNat < 2 ^ 52 := by omega
    have low : (0 : Int) ≤ n.size - 52 := by omega
    have top : (n.size : Int) - 52 < 2048 := by omega
    have field : exponent (pack sign (n.size - 52) (BitVec.ofNat 64 (n / 2 ^ (n.size - 53) - 2 ^ 52))) = n.size - 52 :=
      packExponent low top fits
    refine ⟨packSign low top fits, ?_, by rw [field]; unfold infExp; omega⟩
    have whole := Rounding.roundZero (p := 53) (q := 0) (n := n)
    rw [Rounding.roundSelf float] at whole
    have weight : Rounding.place 53 0 n = n.size - 53 := by
      unfold Rounding.place
      omega
    rw [weight] at whole
    unfold magnitude
    rw [if_neg (by omega), packFraction low top fits, number, field, Nat.add_sub_cancel' least]
    have last : ((n.size : Int) - 52).toNat - 1 = n.size - 53 := by omega
    rw [last, ← whole]

theorem encodeDouble (dir : Direction) (finite : exponent a < infExp) : encode dir (flexfloatSign a) (magnitude a) = a := by
  obtain ⟨signs, magnitudes, -⟩ := encodeMeets dir (flexfloatSign a) (magnitudeFloating a) (finiteSize finite)
  exact doubleSame signs magnitudes

theorem encodeHigh (up : dir ≠ .zero) (high : 2098 < n.size) : encode dir sign n = pack sign infExp 0 := by
  unfold encode
  rw [if_neg (by omega), if_neg (by omega), if_neg up]

end Doubles

end Gvsoc.FlexFloat
