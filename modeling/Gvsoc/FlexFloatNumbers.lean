import Gvsoc.FlexFloatSanitize

/-! The numbers that the bits of a small format stand for, and the doubles that keep them. -/
namespace Gvsoc.FlexFloat
open Rounding (Floating)

section Numbers

variable (d : Desc) (bits : Bits)

def numberSign : Bool := bits.getLsbD (d.expBits + d.fracBits)

def numberExp : Nat := bits.toNat / 2 ^ d.fracBits % 2 ^ d.expBits

def numberFrac : Nat := bits.toNat % 2 ^ d.fracBits

def IsNumber : Prop := numberExp d bits ≠ 2 ^ d.expBits - 1

def number : Nat :=
  if numberExp d bits = 0 then numberFrac d bits * 2 ^ leastPlace d
  else (2 ^ d.fracBits + numberFrac d bits) * 2 ^ (leastPlace d + (numberExp d bits - 1))

/- A number of the format, or the infinity if it has no such number. -/
def Denotes (sign : Bool) (n : Nat) : Prop :=
  numberSign d bits = sign ∧
    if n < 2 ^ endPlace d then IsNumber d bits ∧ number d bits = n
    else numberExp d bits = 2 ^ d.expBits - 1 ∧ numberFrac d bits = 0

end Numbers

section Kept

variable {d : Desc} {bits : Bits}

theorem numberExpBound (d : Desc) (bits : Bits) : numberExp d bits < 2 ^ d.expBits := Nat.mod_lt _ (Nat.two_pow_pos _)

theorem numberFracBound (d : Desc) (bits : Bits) : numberFrac d bits < 2 ^ d.fracBits := Nat.mod_lt _ (Nat.two_pow_pos _)

theorem infExpNumber (d : Desc) : flexfloatInfExp d = (2 ^ d.expBits - 1 : Nat) := by
  have positive := Nat.two_pow_pos d.expBits
  unfold flexfloatInfExp
  rw [Nat.cast_sub positive]
  push_cast
  rfl

theorem numberFloating (d : Desc) (bits : Bits) : Floating (d.fracBits + 1) (leastPlace d) (number d bits) := by
  have bound := numberFracBound d bits
  have double := Nat.pow_succ 2 d.fracBits
  unfold number
  split
  · exact ⟨_, _, by omega, Nat.le_refl _, rfl⟩
  · exact ⟨_, _, by omega, Nat.le_add_right _ _, rfl⟩

theorem numberBound (supported : d.Supported) (finite : IsNumber d bits) : number d bits < 2 ^ endPlace d := by
  obtain ⟨least, ending⟩ := placeBounds supported
  obtain ⟨low, most, double⟩ := biasBounds supported
  have short := supported.fracHigh
  have bound := numberFracBound d bits
  have bound' := numberExpBound d bits
  have top := infExpNumber d
  have next := Nat.pow_succ 2 d.fracBits
  unfold IsNumber at finite
  have room : number d bits < 2 ^ (d.fracBits + 1 + (leastPlace d + (numberExp d bits - 1))) := by
    unfold number
    rw [Nat.pow_add 2 (d.fracBits + 1)]
    split
    next zero =>
      rw [zero, Nat.zero_sub, Nat.add_zero]
      exact Nat.mul_lt_mul_of_pos_right (by omega) (Nat.two_pow_pos _)
    next normal => exact Nat.mul_lt_mul_of_pos_right (by omega) (Nat.two_pow_pos _)
  exact room.trans_le (Nat.pow_le_pow_right (by norm_num) (by omega))

theorem setNumber (supported : d.Supported) (finite : IsNumber d bits) :
    ∃ a, flexfloatSetBits d bits = some a ∧ flexfloatSign a = numberSign d bits ∧ magnitude a = number d bits ∧ exponent a < infExp := by
  obtain ⟨least, ending⟩ := placeBounds supported
  obtain ⟨low, most, double⟩ := biasBounds supported
  have short := supported.fracHigh
  have top := infExpNumber d
  have bound := numberExpBound d bits
  have fraction := fracField supported bits
  unfold IsNumber at finite
  unfold number
  rcases setCases supported bits with ⟨exp, frac, result⟩ | ⟨exp, j, whole, near, size, full, room, result⟩ | ⟨exp, result⟩
  · change numberExp d bits = 0 at exp
    change numberFrac d bits = 0 at frac
    have field : exponent (pack (numberSign d bits) 0 0) = 0 := packExponent (by decide) (by decide) (by decide)
    refine ⟨_, result, packSign (by decide) (by decide) (by decide), ?_, ?_⟩
    · change magnitude (pack (numberSign d bits) 0 0) = _
      unfold magnitude
      rw [if_pos field, packFraction (by decide) (by decide) (by decide), if_pos exp, frac, Nat.zero_mul]
      rfl
    · change exponent (pack (numberSign d bits) 0 0) < infExp
      rw [field]
      decide
  · change numberExp d bits = 0 at exp
    have implicit := implicitNumber supported full room
    have small : (whole &&& (((1 : Bits) <<< d.fracBits) - 1)).toNat < 2 ^ d.fracBits := by
      rw [Nat.pow_succ] at room
      omega
    obtain ⟨signs, magnitudes⟩ := packMagnitude supported (numberSign d bits) (-j) small (by omega) (by omega)
    obtain ⟨field, -⟩ := packParts supported (numberSign d bits) (-j) small (by omega) (by omega)
    refine ⟨_, result, signs, magnitudes.trans ?_, Int.lt_of_le_of_lt (Int.le_of_eq field) (by unfold infExp; omega)⟩
    rw [if_pos exp, implicit, Nat.add_sub_cancel' full, size, Nat.mul_assoc, Nat.mul_assoc, ← Nat.pow_add, ← Nat.pow_add]
    unfold numberFrac
    congr 2
    omega
  · change numberExp d bits ≠ 0 at exp
    have small : (bits &&& (((1 : Bits) <<< d.fracBits) - 1)).toNat < 2 ^ d.fracBits := by
      rw [fraction]
      exact numberFracBound d bits
    obtain ⟨signs, magnitudes⟩ :=
      packMagnitude supported (numberSign d bits) (numberExp d bits) small (by omega) (by omega)
    obtain ⟨field, -⟩ := packParts supported (numberSign d bits) (numberExp d bits) small (by omega) (by omega)
    refine ⟨_, result, signs, magnitudes.trans ?_, Int.lt_of_le_of_lt (Int.le_of_eq field) (by unfold infExp; omega)⟩
    rw [if_neg exp, fraction, Nat.mul_assoc, ← Nat.pow_add]
    unfold numberFrac
    congr 2
    omega

theorem fieldBits (supported : d.Supported) (sign : Bool) {e f : Nat} (small : e < 2 ^ d.expBits) (small' : f < 2 ^ d.fracBits) :
    ∃ bits, numberSign d bits = sign ∧ numberExp d bits = e ∧ numberFrac d bits = f := by
  have narrow := supported.expHigh
  have short := supported.fracHigh
  have bit := Bool.toNat_lt sign
  have low : e + 2 ^ d.expBits * sign.toNat < 2 ^ (d.expBits + 1) := by
    rw [Nat.pow_succ]
    nlinarith
  have fits : f + 2 ^ d.fracBits * (e + 2 ^ d.expBits * sign.toNat) < 2 ^ (d.fracBits + (d.expBits + 1)) := by
    have most : (e + 2 ^ d.expBits * sign.toNat + 1) * 2 ^ d.fracBits ≤ 2 ^ (d.expBits + 1) * 2 ^ d.fracBits := Nat.mul_le_mul_right _ low
    rw [Nat.pow_add, Nat.mul_comm (2 ^ d.fracBits) (2 ^ (d.expBits + 1))]
    rw [Nat.add_mul, Nat.one_mul, Nat.mul_comm _ (2 ^ d.fracBits)] at most
    omega
  have power : 2 ^ (d.fracBits + (d.expBits + 1)) ≤ 2 ^ 64 := Nat.pow_le_pow_right (by norm_num) (by omega)
  refine ⟨BitVec.ofNat 64 (f + 2 ^ d.fracBits * (e + 2 ^ d.expBits * sign.toNat)), ?_, ?_, ?_⟩
  all_goals
    have number : (BitVec.ofNat 64 (f + 2 ^ d.fracBits * (e + 2 ^ d.expBits * sign.toNat))).toNat =
        f + 2 ^ d.fracBits * (e + 2 ^ d.expBits * sign.toNat) := by
      rw [BitVec.toNat_ofNat, Nat.mod_eq_of_lt (fits.trans_le power)]
  · unfold numberSign
    rw [← BitVec.testBit_toNat, Nat.testBit_eq_decide_div_mod_eq, number, Nat.add_comm d.expBits, Nat.pow_add, ← Nat.div_div_eq_div_mul,
      Nat.add_mul_div_left _ _ (Nat.two_pow_pos _), Nat.div_eq_of_lt small', Nat.zero_add,
      Nat.add_mul_div_left _ _ (Nat.two_pow_pos _), Nat.div_eq_of_lt small, Nat.zero_add]
    cases sign <;> rfl
  · unfold numberExp
    rw [number, Nat.add_mul_div_left _ _ (Nat.two_pow_pos _), Nat.div_eq_of_lt small', Nat.zero_add, Nat.add_mul_mod_self_left,
      Nat.mod_eq_of_lt small]
  · unfold numberFrac
    rw [number, Nat.add_mul_mod_self_left, Nat.mod_eq_of_lt small']

theorem numberBits (supported : d.Supported) (sign : Bool) {n : Nat} (float : Floating (d.fracBits + 1) (leastPlace d) n)
    (small : n < 2 ^ endPlace d) : ∃ bits, IsNumber d bits ∧ numberSign d bits = sign ∧ number d bits = n := by
  obtain ⟨least, ending⟩ := placeBounds supported
  obtain ⟨low, most, double⟩ := biasBounds supported
  have top := infExpNumber d
  have next := Nat.pow_succ 2 d.fracBits
  have exact := Rounding.roundZero (p := d.fracBits + 1) (q := leastPlace d) (n := n)
  rw [Rounding.roundSelf float] at exact
  have bound := Rounding.significandBound (p := d.fracBits + 1) (q := leastPlace d) (n := n)
  have size := Nat.size_le.mpr small
  have positive := Nat.two_pow_pos d.expBits
  unfold IsNumber number
  rcases Nat.lt_or_ge (leastPlace d + d.fracBits) n.size with long | short
  · have last : Rounding.place (d.fracBits + 1) (leastPlace d) n = leastPlace d + (n.size - leastPlace d - d.fracBits - 1) := by
      unfold Rounding.place
      omega
    have full : 2 ^ d.fracBits ≤ n / 2 ^ Rounding.place (d.fracBits + 1) (leastPlace d) n := by
      rw [Nat.le_div_iff_mul_le (Nat.two_pow_pos _), ← Nat.pow_add]
      exact Nat.lt_size.mp (by omega)
    obtain ⟨bits, signs, exps, fracs⟩ := fieldBits supported sign (e := n.size - leastPlace d - d.fracBits)
      (f := n / 2 ^ Rounding.place (d.fracBits + 1) (leastPlace d) n - 2 ^ d.fracBits) (by omega) (by omega)
    refine ⟨bits, by omega, signs, ?_⟩
    rw [if_neg (by omega), exps, fracs, Nat.add_sub_cancel' full, ← last]
    exact exact.symm
  · have last : Rounding.place (d.fracBits + 1) (leastPlace d) n = leastPlace d := by
      unfold Rounding.place
      omega
    rw [last] at exact bound
    have less : n / 2 ^ leastPlace d < 2 ^ d.fracBits := by
      rw [Nat.div_lt_iff_lt_mul (Nat.two_pow_pos _), ← Nat.pow_add, Nat.add_comm d.fracBits]
      exact Nat.size_le.mp short
    obtain ⟨bits, signs, exps, fracs⟩ := fieldBits supported sign positive less
    refine ⟨bits, by omega, signs, ?_⟩
    rw [if_pos exps, fracs]
    exact exact.symm

theorem fieldsSame {x y : Bits} (same : ∀ i < d.expBits + d.fracBits + 1, x.getLsbD i = y.getLsbD i) :
    numberSign d x = numberSign d y ∧ numberExp d x = numberExp d y ∧ numberFrac d x = numberFrac d y := by
  have low : x.toNat % 2 ^ (d.fracBits + d.expBits) = y.toNat % 2 ^ (d.fracBits + d.expBits) := by
    refine Nat.eq_of_testBit_eq fun i => ?_
    rw [Nat.testBit_mod_two_pow, Nat.testBit_mod_two_pow, BitVec.testBit_toNat, BitVec.testBit_toNat]
    by_cases inside : i < d.fracBits + d.expBits
    · rw [same i (by omega)]
    · rw [decide_eq_false inside, Bool.false_and, Bool.false_and]
  refine ⟨same _ (Nat.lt_succ_self _), ?_, ?_⟩
  · unfold numberExp
    rw [← Nat.mod_mul_right_div_self, ← Nat.mod_mul_right_div_self, ← Nat.pow_add, low]
  · unfold numberFrac
    have part : 2 ^ d.fracBits ∣ 2 ^ (d.fracBits + d.expBits) := Nat.pow_dvd_pow 2 (Nat.le_add_right _ _)
    rw [← Nat.mod_mod_of_dvd _ part, low, Nat.mod_mod_of_dvd _ part]

theorem denotesSame {x y : Bits} {sign : Bool} {n : Nat} (same : ∀ i < d.expBits + d.fracBits + 1, x.getLsbD i = y.getLsbD i)
    (denotes : Denotes d y sign n) : Denotes d x sign n := by
  obtain ⟨signs, exps, fracs⟩ := fieldsSame same
  unfold Denotes IsNumber number at *
  rwa [signs, exps, fracs]

theorem registerBits (word : d.expBits + d.fracBits < 32) (bits : Bits) (i : Nat) (inside : i < d.expBits + d.fracBits + 1) :
    ((((bits.setWidth (d.expBits + d.fracBits + 1)).signExtend 64).setWidth 32).setWidth 64).getLsbD i = bits.getLsbD i := by
  rw [BitVec.getLsbD_setWidth, BitVec.getLsbD_setWidth, BitVec.getLsbD_signExtend, if_pos inside, BitVec.getLsbD_setWidth]
  simp [inside, show i < 64 by omega, show i < 32 by omega]

theorem getKept (supported : d.Supported) (word : d.expBits + d.fracBits < 32) (sign : Bool) {n : Nat}
    (float : Floating (d.fracBits + 1) (leastPlace d) n) :
    ∃ bits : Bits, flexfloatGetBits d (keeps d sign n) = some bits ∧ Denotes d ((bits.setWidth 32).setWidth 64) sign n := by
  have short := supported.fracHigh
  have narrow := supported.expHigh
  obtain ⟨low, most, double⟩ := biasBounds supported
  obtain ⟨least, ending⟩ := placeBounds supported
  unfold keeps
  by_cases small : n < 2 ^ endPlace d
  · rw [if_pos small]
    obtain ⟨bits, finite, signs, magnitudes⟩ := numberBits supported sign float small
    obtain ⟨a, result, signs', magnitudes', -⟩ := setNumber supported finite
    have size := Nat.size_le.mpr small
    obtain ⟨signs'', magnitudes'', -⟩ :=
      encodeMeets .zero sign (Rounding.floatingFiner (show d.fracBits + 1 ≤ 53 by omega) float) (by omega)
    have same : a = encode .zero sign n :=
      doubleSame (signs'.trans (signs.trans signs''.symm)) (magnitudes'.trans (magnitudes.trans magnitudes''.symm))
    have back := bitsReadBack supported bits
    rw [result, Option.bind_some, same] at back
    refine ⟨_, back, denotesSame (registerBits word bits) ⟨signs, ?_⟩⟩
    rw [if_pos small]
    exact ⟨finite, magnitudes⟩
  · rw [if_neg small]
    have top := infExpNumber d
    obtain ⟨bits, signs, exps, fracs⟩ :=
      fieldBits supported sign (e := 2 ^ d.expBits - 1) (f := 0) (Nat.sub_lt (Nat.two_pow_pos _) Nat.one_pos) (Nat.two_pow_pos _)
    have frac : bits &&& (((1 : Bits) <<< d.fracBits) - 1) = 0 := by
      refine BitVec.eq_of_toNat_eq ?_
      rw [fracField supported]
      exact fracs
    have result : flexfloatSetBits d bits = some (pack sign infExp 0) := by
      rcases setCases supported bits with ⟨exp, -⟩ | ⟨exp, -⟩ | ⟨-, result⟩
      · have other : numberExp d bits = 0 := exp
        omega
      · have other : numberExp d bits = 0 := exp
        omega
      · change flexfloatSetBits d bits = some (flexfloatPack d (numberSign d bits) (numberExp d bits) _) at result
        rw [result, frac, signs, exps, ← top, packInfinity]
    have back := bitsReadBack supported bits
    rw [result, Option.bind_some] at back
    refine ⟨_, back, denotesSame (registerBits word bits) ⟨signs, ?_⟩⟩
    rw [if_neg small]
    exact ⟨exps, fracs⟩

end Kept

end Gvsoc.FlexFloat
