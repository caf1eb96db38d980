import Gvsoc.FlexFloatTrip
import Gvsoc.FlexFloatDoubles

/-! A double is rounded to what the small format has. -/
namespace Gvsoc.FlexFloat
open Rounding (Direction Floating roundTo goesUp place)

section Limits

variable {d : Desc}

def leastPlace (d : Desc) : Nat := 1076 - 2 ^ (d.expBits - 1) - d.fracBits

def endPlace (d : Desc) : Nat := 1074 + 2 ^ (d.expBits - 1)

theorem placeBounds (supported : d.Supported) :
    (leastPlace d : Int) = 1075 - flexfloatBias d - d.fracBits ∧ (endPlace d : Int) = 1075 + flexfloatBias d := by
  have short := supported.fracHigh
  obtain ⟨-, most, -⟩ := biasBounds supported
  unfold leastPlace endPlace
  unfold flexfloatBias at *
  have cast : ((2 ^ (d.expBits - 1) : Nat) : Int) = 2 ^ (d.expBits - 1) := by push_cast; rfl
  omega

def keeps (d : Desc) (sign : Bool) (n : Nat) : Bits :=
  if n < 2 ^ endPlace d then encode .zero sign n else pack sign infExp 0

end Limits

section RoundBits

variable {d : Desc} {a : Bits}

def cutPlaces (d : Desc) (exp : Int) : Nat := if exp ≤ 0 then denormShift d exp else 52 - d.fracBits

def significand (a : Bits) : Nat := 2 ^ 52 + (a &&& maskFrac).toNat

theorem significandBounds (a : Bits) : 2 ^ 52 ≤ significand a ∧ significand a < 2 ^ 53 := by
  have bound := fractionBound a
  unfold significand
  omega

theorem cutPositive (supported : d.Supported) {exp : Int} (low : -2 ^ 12 ≤ exp) : 0 < cutPlaces d exp := by
  have short := supported.fracHigh
  unfold cutPlaces
  split
  next sub =>
    have number := denormShiftNumber supported _ low sub
    omega
  next normal => omega

theorem lowBits {n : Nat} (short : n ≤ 52) (a : Bits) : significand a % 2 ^ n = a.toNat % 2 ^ n := by
  have whole : 2 ^ 52 = 2 ^ n * 2 ^ (52 - n) := by rw [← Nat.pow_add, Nat.add_sub_cancel' short]
  unfold significand
  rw [fractionNumber, whole, Nat.mul_add_mod, Nat.mod_mul_right_mod]

theorem lowBit {n : Nat} (short : n < 52) (a : Bits) : significand a / 2 ^ n % 2 = a.toNat / 2 ^ n % 2 := by
  have low := lowBits (n := n + 1) short a
  rw [Rounding.lostBits, Rounding.lostBits, lowBits (Nat.le_of_lt short)] at low
  exact Nat.eq_of_mul_eq_mul_right (Nat.two_pow_pos n) (Nat.add_right_cancel low)

theorem roundBitMeets (supported : d.Supported) (exp : Int) (normal : exponent a ≠ 0) :
    flexfloatRoundBit d a exp = decide (significand a / 2 ^ (cutPlaces d exp - 1) % 2 = 1) := by
  obtain ⟨-, bound⟩ := significandBounds a
  have short := supported.fracHigh
  unfold flexfloatRoundBit cutPlaces
  by_cases sub : exp ≤ 0
  · simp only [if_pos (And.intro sub normal), if_pos sub]
    split
    next far =>
      have power : 2 ^ 53 ≤ 2 ^ (denormShift d exp - 1) := Nat.pow_le_pow_right (by norm_num) (by omega)
      rw [Nat.div_eq_of_lt (bound.trans_le power)]
      rfl
    next near =>
      rw [Bool.eq_iff_iff, decide_eq_true_eq, decide_eq_true_eq, bitMask (by omega), significandNumber]
      rfl
  · simp only [if_neg (fun both : exp ≤ 0 ∧ _ => sub both.1), if_neg sub]
    rw [Bool.eq_iff_iff, decide_eq_true_eq, decide_eq_true_eq, bitMask (by omega), lowBit (by omega)]

theorem andZero {n : Nat} (short : n ≤ 63) (a : Bits) : a &&& ((1 : Bits) <<< n - 1) ≠ 0 ↔ a.toNat % 2 ^ n ≠ 0 := by
  rw [← lowNumber short, not_iff_not]
  constructor
  · intro zero
    rw [zero]
    rfl
  · exact fun none => BitVec.eq_of_toNat_eq none

theorem stickyMask (supported : d.Supported) : maskFrac >>> (d.fracBits + 1) = (1 : Bits) <<< (52 - d.fracBits - 1) - 1 := by
  have short := supported.fracHigh
  refine BitVec.eq_of_toNat_eq ?_
  have ones : ((1 : Bits) <<< (52 - d.fracBits - 1) - 1).toNat = 2 ^ (52 - d.fracBits - 1) - 1 := CShift.onesNumber (by omega)
  rw [ones, BitVec.toNat_ushiftRight, Nat.shiftRight_eq_div_pow]
  have all : maskFrac.toNat = 2 ^ 52 - 1 := rfl
  have whole : 2 ^ 52 = 2 ^ (52 - d.fracBits - 1) * 2 ^ (d.fracBits + 1) := by
    rw [← Nat.pow_add]
    congr 1
    omega
  have positive := Nat.two_pow_pos (d.fracBits + 1)
  have positive' := Nat.two_pow_pos (52 - d.fracBits - 1)
  rw [all, whole]
  refine Nat.div_eq_of_lt_le ?_ ?_
  · rw [Nat.sub_mul]
    omega
  · rw [Nat.sub_add_cancel positive']
    have some : 0 < 2 ^ (52 - d.fracBits - 1) * 2 ^ (d.fracBits + 1) := Nat.mul_pos positive' positive
    omega

theorem stickyBitMeets (supported : d.Supported) (exp : Int) (normal : exponent a ≠ 0) (near : cutPlaces d exp < 64) :
    flexfloatStickyBit d a exp = decide (significand a % 2 ^ (cutPlaces d exp - 1) ≠ 0) := by
  have short := supported.fracHigh
  unfold cutPlaces at near
  unfold flexfloatStickyBit cutPlaces
  by_cases sub : exp ≤ 0
  · rw [if_pos sub] at near
    simp only [if_pos (And.intro sub normal), if_pos sub, if_neg (Nat.not_le.mpr near)]
    rw [Bool.eq_iff_iff, decide_eq_true_eq, decide_eq_true_eq, andZero (by omega), significandNumber]
    rfl
  · simp only [if_neg (fun both : exp ≤ 0 ∧ _ => sub both.1), if_neg sub]
    rw [stickyMask supported, Bool.eq_iff_iff, decide_eq_true_eq, decide_eq_true_eq, andZero (by omega), lowBits (by omega)]

theorem fracCut (supported : d.Supported) (a : Bits) :
    significand a / 2 ^ (52 - d.fracBits) = 2 ^ d.fracBits + (flexfloatFrac d a).toNat := by
  have short := supported.fracHigh
  have whole : 2 ^ 52 = 2 ^ (52 - d.fracBits) * 2 ^ d.fracBits := by rw [← Nat.pow_add, Nat.sub_add_cancel (by omega)]
  unfold significand
  rw [whole, Nat.mul_add_div (Nat.two_pow_pos _), fracNumber]

theorem bitZero (a : Bits) : a.getLsbD 0 = decide (a.toNat % 2 = 1) := by
  have bit : a.getLsbD 0 = decide (a.toNat / 2 ^ 0 % 2 = 1) := Nat.testBit_eq_decide_div_mod_eq
  rwa [Nat.pow_zero, Nat.div_one] at bit

theorem lastMeets (supported : d.Supported) (exp : Int) (normal : exponent a ≠ 0) :
    (if exp ≤ 0 then (flexfloatDenormFrac d a exp).getLsbD 0 else (flexfloatFrac d a).getLsbD 0) =
      decide (significand a / 2 ^ cutPlaces d exp % 2 = 1) := by
  have some := supported.fracLow
  unfold cutPlaces
  split
  next sub =>
    rw [bitZero, denormFracNumber _ normal]
    rfl
  next high =>
    have even : 2 ^ d.fracBits = 2 * 2 ^ (d.fracBits - 1) := by
      rw [← Nat.pow_succ']
      congr 1
      omega
    rw [bitZero, fracCut supported, even, Nat.mul_add_mod]

theorem nearestMeets (supported : d.Supported) {exp : Int} (normal : exponent a ≠ 0) (low : -2 ^ 12 ≤ exp) :
    flexfloatNearestRounding d a exp =
      Direction.nearest.up (significand a / 2 ^ cutPlaces d exp) (significand a % 2 ^ cutPlaces d exp) (cutPlaces d exp) := by
  have last := lastMeets supported exp normal
  have round := roundBitMeets supported exp normal
  have sticky := stickyBitMeets supported exp normal
  obtain ⟨c, more⟩ := Nat.exists_eq_add_of_lt (cutPositive supported low)
  obtain ⟨-, bound⟩ := significandBounds a
  rw [Nat.zero_add] at more
  unfold flexfloatNearestRounding
  rw [more] at last round sticky ⊢
  rw [Nat.add_sub_cancel] at round sticky
  rw [Rounding.upNearestBits, round, last]
  by_cases near : c + 1 < 64
  · rw [sticky near]
    cases decide (significand a / 2 ^ c % 2 = 1) <;> cases decide (significand a % 2 ^ c ≠ 0) <;> rfl
  · have zero : significand a / 2 ^ c = 0 := by
      refine Nat.div_eq_of_lt (bound.trans_le ?_)
      exact Nat.pow_le_pow_right (by norm_num) (by omega)
    rw [zero]
    rfl

theorem infMeets (supported : d.Supported) {exp : Int} {sign plus : Bool} (normal : exponent a ≠ 0) (low : -2 ^ 12 ≤ exp)
    (near : cutPlaces d exp < 64) :
    flexfloatInfRounding d a exp sign plus =
      ((plus ^^ sign) &&
        Direction.away.up (significand a / 2 ^ cutPlaces d exp) (significand a % 2 ^ cutPlaces d exp) (cutPlaces d exp)) := by
  have round := roundBitMeets supported exp normal
  have sticky := stickyBitMeets supported exp normal near
  obtain ⟨c, more⟩ := Nat.exists_eq_add_of_lt (cutPositive supported low)
  rw [Nat.zero_add] at more
  unfold flexfloatInfRounding
  rw [more] at round sticky ⊢
  rw [Nat.add_sub_cancel] at round sticky
  rw [Rounding.upAwayBits, round, sticky]
  cases decide (significand a / 2 ^ c % 2 = 1) || decide (significand a % 2 ^ c ≠ 0) <;> simp

/- A direction away from zero needs the places that are not further away than the code looks. -/
theorem roundsUpMeets (supported : d.Supported) {exp : Int} {sign : Bool} (mode : Mode) (normal : exponent a ≠ 0) (low : -2 ^ 12 ≤ exp)
    (near : mode.dir sign = .away → cutPlaces d exp < 64) :
    roundsUp d mode a exp sign =
      (mode.dir sign).up (significand a / 2 ^ cutPlaces d exp) (significand a % 2 ^ cutPlaces d exp) (cutPlaces d exp) := by
  unfold roundsUp
  cases mode with
  | toNearest => exact nearestMeets supported normal low
  | upward =>
      cases sign with
      | false => exact (infMeets supported normal low (near rfl)).trans (Bool.true_and _)
      | true =>
          unfold flexfloatInfRounding
          exact ite_self _
  | downward =>
      cases sign with
      | false =>
          unfold flexfloatInfRounding
          exact ite_self _
      | true => exact (infMeets supported normal low (near rfl)).trans (Bool.true_and _)
  | towardZero => rfl

end RoundBits

section Added

variable {d : Desc} {a : Bits} {sign : Bool}

theorem magnitudeSignificand (normal : exponent a ≠ 0) : magnitude a = significand a * 2 ^ ((exponent a).toNat - 1) :=
  magnitudeNormal normal

theorem expRange (supported : d.Supported) (normal : exponent a ≠ 0) (finite : exponent a < infExp) :
    flexfloatExp d a = exponent a - 1023 + flexfloatBias d ∧ -2 ^ 12 ≤ flexfloatExp d a ∧ flexfloatExp d a < infExp := by
  obtain ⟨low, -⟩ := exponentBound a
  obtain ⟨least, most, -⟩ := biasBounds supported
  rw [flexfloatExpNormal (by omega) finite]
  unfold infExp at *
  omega

theorem placeMeets (supported : d.Supported) (normal : exponent a ≠ 0) (finite : exponent a < infExp) :
    place (d.fracBits + 1) (leastPlace d) (magnitude a) = cutPlaces d (flexfloatExp d a) + ((exponent a).toNat - 1) := by
  obtain ⟨low, -⟩ := exponentBound a
  obtain ⟨least, -⟩ := placeBounds supported
  obtain ⟨exp, above, -⟩ := expRange supported normal finite
  have short := supported.fracHigh
  unfold place cutPlaces
  rw [sizeNormal normal]
  split
  next sub =>
    have number := denormShiftNumber supported _ above sub
    omega
  next high => omega

theorem goesUpMeets (supported : d.Supported) (sign : Bool) (mode : Mode) (normal : exponent a ≠ 0) (finite : exponent a < infExp)
    (near : mode.dir sign = .away → leastPlace d ≤ (magnitude a).size + 10) :
    roundsUp d mode a (flexfloatExp d a) sign = goesUp (mode.dir sign) (d.fracBits + 1) (leastPlace d) (magnitude a) := by
  have last := placeMeets supported normal finite
  obtain ⟨low, -⟩ := exponentBound a
  obtain ⟨-, above, -⟩ := expRange supported normal finite
  rw [roundsUpMeets supported mode normal above]
  · rw [magnitudeSignificand normal] at last ⊢
    rw [Rounding.goesUpCut last]
  · intro away
    have size := sizeNormal normal
    have near := near away
    unfold place at last
    have some := supported.fracLow
    omega

theorem roundingValueMeets (supported : d.Supported) (sign : Bool) (normal : exponent a ≠ 0) (finite : exponent a < infExp)
    (other : flexfloatExp d a - d.fracBits ≠ flexfloatInfExp d) :
    flexfloatSign (flexfloatRoundingValue d a (flexfloatExp d a) sign) = sign ∧
      magnitude (flexfloatRoundingValue d a (flexfloatExp d a) sign) = 2 ^ place (d.fracBits + 1) (leastPlace d) (magnitude a) ∧
      exponent (flexfloatRoundingValue d a (flexfloatExp d a) sign) < infExp := by
  have last := placeMeets supported normal finite
  obtain ⟨low, -⟩ := exponentBound a
  obtain ⟨least, -⟩ := placeBounds supported
  obtain ⟨exp, above, -⟩ := expRange supported normal finite
  obtain ⟨some, most, double⟩ := biasBounds supported
  have short := supported.fracHigh
  have weight {x : Int} (positive : 0 < x) (high : x < infExp) (y : Nat) (same : x.toNat + 51 = y) :
      flexfloatSign (pack sign x 0) = sign ∧ magnitude (pack sign x 0) = 2 ^ y ∧ exponent (pack sign x 0) < infExp := by
    unfold infExp at *
    have field : exponent (pack sign x 0) = x := packExponent (Int.le_of_lt positive) (by omega) (by decide)
    refine ⟨packSign (Int.le_of_lt positive) (by omega) (by decide), ?_, by omega⟩
    rw [magnitudeNormal (by omega), packFraction (Int.le_of_lt positive) (by omega) (by decide), field]
    have none : (0 : Bits).toNat = 0 := rfl
    rw [none, Nat.add_zero, ← Nat.pow_add]
    congr 1
    omega
  have shifted : (0 : Bits) <<< (52 - d.fracBits) = 0 := BitVec.zero_shiftLeft _
  unfold flexfloatRoundingValue
  rw [if_neg normal]
  unfold cutPlaces at last
  by_cases sub : flexfloatExp d a ≤ 0
  · have number := denormShiftNumber supported _ above sub
    rw [if_pos sub] at last ⊢
    rw [packFinite (by omega), shifted]
    exact weight (by omega) (by unfold infExp; omega) _ (by omega)
  · rw [if_neg sub] at last ⊢
    rw [packFinite other, shifted]
    unfold infExp at *
    exact weight (by omega) (by omega) _ (by omega)

end Added

section Sum

variable {a b : Bits} {dir : Direction} {sign : Bool} {n : Nat}

theorem finiteParts (finite : exponent a < infExp) : isNan a = false ∧ isInf a = false := by
  unfold isNan isInf
  simp [Int.ne_of_lt finite]

theorem addSame (mode : Mode) (finite : exponent a < infExp) (finite' : exponent b < infExp) (signs : flexfloatSign b = flexfloatSign a) :
    fpAdd mode a b = encode (mode.dir (flexfloatSign a)) (flexfloatSign a)
      (roundTo (mode.dir (flexfloatSign a)) 53 0 (magnitude a + magnitude b)) := by
  obtain ⟨number, bounded⟩ := finiteParts finite
  obtain ⟨number', bounded'⟩ := finiteParts finite'
  unfold fpAdd value
  rw [number, number', bounded, bounded', signs]
  cases sign : flexfloatSign a with
  | true =>
      have sum : -(magnitude a : Int) + -(magnitude b : Int) = -((magnitude a + magnitude b : Nat) : Int) := by
        push_cast
        ring
      simp only [Bool.or_self, Bool.false_eq_true, Bool.and_self, if_false, if_true, Bool.false_and, sum, Int.natAbs_neg, Int.natAbs_natCast]
      by_cases zero : magnitude a + magnitude b = 0
      · simp [zero]
      · have less : -((magnitude a + magnitude b : Nat) : Int) < 0 := by omega
        rw [if_neg (by omega), decide_eq_true less]
  | false =>
      have sum : (magnitude a : Int) + (magnitude b : Int) = ((magnitude a + magnitude b : Nat) : Int) := by
        push_cast
        rfl
      simp only [Bool.or_self, Bool.false_eq_true, Bool.and_self, if_false, Bool.false_and, if_true, sum, Int.natAbs_natCast]
      have less : ¬((magnitude a + magnitude b : Nat) : Int) < 0 := by omega
      rw [decide_eq_false less, ite_self]

theorem infinityParts (sign : Bool) : isNan (pack sign infExp 0) = false ∧ isInf (pack sign infExp 0) = true := by
  unfold isNan isInf
  rw [packExponent (by decide) (by decide) (by decide), packFraction (by decide) (by decide) (by decide)]
  decide

theorem addInf {mode : Mode} (number : isNan a = false) (bounded : isInf a = false) :
    fpAdd mode a (pack sign infExp 0) = pack sign infExp 0 := by
  obtain ⟨number', infinite⟩ := infinityParts sign
  unfold fpAdd
  rw [number, number', bounded, infinite]
  simp

end Sum

section Cut

variable {d : Desc} {b : Bits} {sign : Bool}

theorem packMagnitude (supported : d.Supported) (sign : Bool) (exp : Int) {frac : Bits} (small : frac.toNat < 2 ^ d.fracBits) (low : -62 ≤ exp)
    (high : exp < flexfloatInfExp d) :
    flexfloatSign (flexfloatPack d sign exp frac) = sign ∧
      magnitude (flexfloatPack d sign exp frac) =
        (2 ^ d.fracBits + frac.toNat) * 2 ^ (52 - d.fracBits) * 2 ^ ((exp - flexfloatBias d + 1023).toNat - 1) := by
  have short := supported.fracHigh
  obtain ⟨some, most, double⟩ := biasBounds supported
  obtain ⟨field, -, fraction, signs⟩ := packParts supported sign exp small low high
  have whole : 2 ^ 52 = 2 ^ d.fracBits * 2 ^ (52 - d.fracBits) := by rw [← Nat.pow_add, Nat.add_sub_cancel' (by omega)]
  refine ⟨signs, ?_⟩
  rw [magnitudeNormal (by omega), fraction, field, whole, ← Nat.add_mul]

theorem subnormalCut (supported : d.Supported) {s : Nat} (near : s ≤ d.fracBits) (b : Bits) :
    (2 ^ d.fracBits + ((flexfloatFrac d b >>> s) <<< s).toNat) * 2 ^ (52 - d.fracBits) =
      significand b / 2 ^ (52 - d.fracBits + s) * 2 ^ (52 - d.fracBits + s) := by
  have short := supported.fracHigh
  have less := fracLess supported b
  have power : 2 ^ d.fracBits ≤ 2 ^ 31 := Nat.pow_le_pow_right (by norm_num) short
  have below := Nat.div_mul_le_self (flexfloatFrac d b).toNat (2 ^ s)
  have number : ((flexfloatFrac d b >>> s) <<< s).toNat = (flexfloatFrac d b).toNat / 2 ^ s * 2 ^ s := by
    rw [BitVec.toNat_shiftLeft, BitVec.toNat_ushiftRight, Nat.shiftLeft_eq, Nat.shiftRight_eq_div_pow, Nat.mod_eq_of_lt (by omega)]
  have whole : 2 ^ d.fracBits = 2 ^ s * 2 ^ (d.fracBits - s) := by rw [← Nat.pow_add, Nat.add_sub_cancel' near]
  rw [number, Nat.pow_add, ← Nat.div_div_eq_div_mul, fracCut supported, whole, Nat.mul_add_div (Nat.two_pow_pos s), Nat.add_mul,
    Nat.mul_comm (2 ^ (52 - d.fracBits)) (2 ^ s), ← Nat.mul_assoc, Nat.add_mul, Nat.mul_comm (2 ^ s) (2 ^ (d.fracBits - s)), Nat.add_mul]

theorem cutMeets (supported : d.Supported) (sign : Bool) (normal : exponent b ≠ 0) (finite : exponent b < infExp)
    (small : magnitude b < 2 ^ endPlace d) :
    sanitizeCut d sign b = encode .zero sign (roundTo .zero (d.fracBits + 1) (leastPlace d) (magnitude b)) := by
  have short := supported.fracHigh
  have last := placeMeets supported normal finite
  obtain ⟨low, -⟩ := exponentBound b
  obtain ⟨least, ending⟩ := placeBounds supported
  obtain ⟨exp, above, bounded⟩ := expRange supported normal finite
  obtain ⟨some, most, double⟩ := biasBounds supported
  have size := sizeNormal normal
  have top : (magnitude b).size ≤ endPlace d := Nat.size_le.mpr small
  obtain ⟨float, under, -⟩ := Rounding.roundMeets (p := d.fracBits + 1) (q := leastPlace d) (n := magnitude b) (Nat.succ_pos _) .zero
  obtain ⟨signs, magnitudes, -⟩ := encodeMeets .zero sign (Rounding.floatingFiner (by omega) float)
    ((Nat.size_le_size under).trans (finiteSize finite))
  rw [Rounding.roundZero, last, magnitudeSignificand normal] at magnitudes signs ⊢
  rw [Nat.pow_add, Nat.mul_div_mul_right _ _ (Nat.two_pow_pos _)] at magnitudes signs ⊢
  unfold sanitizeCut
  simp only [if_neg normal]
  by_cases sub : flexfloatExp d b ≤ 0
  · have number := denormShiftNumber supported _ above sub
    have places : cutPlaces d (flexfloatExp d b) = denormShift d (flexfloatExp d b) := if_pos sub
    have denorm := denormFracNumber (d := d) (flexfloatExp d b) normal
    rw [places] at magnitudes signs ⊢
    rw [if_pos sub]
    by_cases zero : flexfloatDenormFrac d b (flexfloatExp d b) = 0
    · rw [zero] at denorm
      have none : significand b / 2 ^ denormShift d (flexfloatExp d b) = 0 := denorm.symm
      rw [if_pos zero, none, Nat.zero_mul]
      rfl
    · obtain ⟨-, bound⟩ := significandBounds b
      have near : denormShift d (flexfloatExp d b) ≤ 52 := by
        by_contra far
        refine zero (BitVec.eq_of_toNat_eq (denorm.trans (Nat.div_eq_of_lt ?_)))
        exact bound.trans_le (Nat.pow_le_pow_right (by norm_num) (by omega))
      rw [if_neg zero, if_pos (by omega), if_pos (by omega)]
      have split : denormShift d (flexfloatExp d b) = 52 - d.fracBits + (-flexfloatExp d b + 1).toNat := by omega
      have cut := subnormalCut supported (s := (-flexfloatExp d b + 1).toNat) (by omega) b
      have less : ((flexfloatFrac d b >>> (-flexfloatExp d b + 1).toNat) <<< (-flexfloatExp d b + 1).toNat).toNat < 2 ^ d.fracBits := by
        refine Nat.lt_of_le_of_lt ?_ (fracLess supported b)
        rw [BitVec.toNat_shiftLeft, BitVec.toNat_ushiftRight, Nat.shiftLeft_eq, Nat.shiftRight_eq_div_pow]
        exact (Nat.mod_le _ _).trans (Nat.div_mul_le_self _ _)
      obtain ⟨signs', magnitudes'⟩ := packMagnitude supported sign (flexfloatExp d b) less (by omega) (by omega)
      refine doubleSame (signs'.trans signs.symm) ?_
      rw [magnitudes', magnitudes, cut, ← split, Nat.mul_assoc]
      have exponents : (flexfloatExp d b - flexfloatBias d + 1023).toNat - 1 = (exponent b).toNat - 1 := by omega
      rw [exponents]
  · have places : cutPlaces d (flexfloatExp d b) = 52 - d.fracBits := if_neg sub
    rw [places] at magnitudes signs ⊢
    rw [if_neg sub, if_neg (by omega), if_neg (by omega), if_neg (by omega)]
    obtain ⟨signs', magnitudes'⟩ :=
      packMagnitude supported sign (flexfloatExp d b) (fracLess supported b) (by omega) (by omega)
    refine doubleSame (signs'.trans signs.symm) ?_
    rw [magnitudes', magnitudes, fracCut supported, Nat.mul_assoc]
    have exponents : (flexfloatExp d b - flexfloatBias d + 1023).toNat - 1 = (exponent b).toNat - 1 := by omega
    rw [exponents]

theorem packInfinity (d : Desc) (sign : Bool) : flexfloatPack d sign (flexfloatInfExp d) 0 = pack sign infExp 0 := by
  unfold flexfloatPack
  have shifted : (0 : Bits) <<< (52 - d.fracBits) = 0 := BitVec.zero_shiftLeft _
  rw [if_pos rfl, shifted]

theorem cutInf (supported : d.Supported) (large : isInf b = true ∨ exponent b < infExp ∧ 2 ^ endPlace d ≤ magnitude b) :
    sanitizeCut d sign b = pack sign infExp 0 := by
  obtain ⟨least, ending⟩ := placeBounds supported
  obtain ⟨some, most, double⟩ := biasBounds supported
  unfold sanitizeCut
  rcases large with infinite | ⟨finite, high⟩
  · obtain ⟨top, none⟩ := of_decide_eq_true infinite
    have exp : flexfloatExp d b = infExp := by
      unfold flexfloatExp
      rw [top]
      exact if_pos (.inr rfl)
    have frac : flexfloatFrac d b = 0 := by
      unfold flexfloatFrac
      rw [none]
      exact BitVec.zero_ushiftRight
    simp only [top, exp, frac, none]
    rw [if_neg (by decide), if_neg (by decide), if_neg (by simp), if_pos trivial]
    exact packInfinity d sign
  · obtain ⟨low, -⟩ := exponentBound b
    have size := Nat.lt_size.mpr high
    have long := exponentSize b
    have normal : exponent b ≠ 0 := by omega
    obtain ⟨exp, above, bounded⟩ := expRange supported normal finite
    simp only [if_neg normal]
    rw [if_neg (by omega), if_neg (by omega), if_neg (by omega), if_pos (by omega)]
    exact packInfinity d sign

end Cut

section Sanitized

variable {d : Desc} {a : Bits}

theorem cutEncoded (supported : d.Supported) (sign : Bool) {dir : Direction} {n : Nat} (float : Floating 53 0 n) (up : dir ≠ .zero)
    (high : 2 ^ 52 ≤ n) :
    sanitizeCut d sign (encode dir sign n) = keeps d sign (roundTo .zero (d.fracBits + 1) (leastPlace d) n) := by
  obtain ⟨least, ending⟩ := placeBounds supported
  obtain ⟨some, most, double⟩ := biasBounds supported
  have short := supported.fracHigh
  unfold keeps
  rcases Nat.lt_or_ge n (2 ^ endPlace d) with less | large
  · have size := Nat.size_le.mpr less
    obtain ⟨signs, magnitudes, finite⟩ := encodeMeets dir sign float (by omega)
    have long := exponentSize (encode dir sign n)
    rw [magnitudes] at long
    have least' := Nat.lt_size.mpr high
    obtain ⟨-, under, -⟩ := Rounding.roundMeets (p := d.fracBits + 1) (q := leastPlace d) (n := n) (Nat.succ_pos _) .zero
    have cut := cutMeets supported sign (b := encode dir sign n) (by omega) finite (by rwa [magnitudes])
    rw [cut, magnitudes, if_pos (Nat.lt_of_le_of_lt under less)]
  · have power : Floating (d.fracBits + 1) (leastPlace d) (2 ^ endPlace d) :=
      ⟨1, endPlace d, Nat.one_lt_two_pow (by omega), by omega, (Nat.one_mul _).symm⟩
    rw [if_neg (Nat.not_lt.mpr (Rounding.roundOver power large))]
    refine cutInf supported ?_
    rcases Nat.lt_or_ge 2098 n.size with far | near
    · left
      rw [encodeHigh up far]
      exact (infinityParts _).2
    · obtain ⟨signs, magnitudes, finite⟩ := encodeMeets dir sign float near
      exact .inr ⟨finite, by rwa [magnitudes]⟩

theorem sanitizeRounds (supported : d.Supported) (mode : Mode) (normal : exponent a ≠ 0) (finite : exponent a < infExp)
    (near : mode.dir (flexfloatSign a) = .away → leastPlace d ≤ (magnitude a).size + 10)
    (ordinary : (magnitude a).size < leastPlace d + (d.fracBits + 1) → ∀ y, magnitude a ≠ (2 ^ 53 - 1) * 2 ^ y) :
    flexfloatSanitize d mode a =
      keeps d (flexfloatSign a) (roundTo (mode.dir (flexfloatSign a)) (d.fracBits + 1) (leastPlace d) (magnitude a)) := by
  obtain ⟨low, -⟩ := exponentBound a
  obtain ⟨least, ending⟩ := placeBounds supported
  obtain ⟨exp, above, bounded⟩ := expRange supported normal finite
  obtain ⟨some, most, double⟩ := biasBounds supported
  have short := supported.fracHigh
  have size := sizeNormal normal
  have high : 2 ^ 52 ≤ magnitude a := Nat.lt_size.mp (by omega)
  have carry := Rounding.roundByCarry (mode.dir (flexfloatSign a)) (mode.dir (flexfloatSign a)) (p := d.fracBits + 1)
    (q := leastPlace d) (P := 53) (n := magnitude a) (Nat.succ_pos _) (by omega) (magnitudeFloating a) ordinary
  have up := goesUpMeets supported (flexfloatSign a) mode normal finite near
  have narrow := supported.expHigh
  unfold flexfloatSanitize sanitizeRound
  simp only [if_neg (fun both : d.expBits = 11 ∧ d.fracBits = 52 => by omega),
    if_neg (fun either : flexfloatExp d a = infExp ∨ d.fracBits = 52 => by omega), up]
  rw [← carry]
  cases more : goesUp (mode.dir (flexfloatSign a)) (d.fracBits + 1) (leastPlace d) (magnitude a) with
  | false =>
      have cut := cutEncoded supported (flexfloatSign a) (magnitudeFloating a) (show Direction.nearest ≠ .zero by decide) high
      rw [if_neg (by decide), if_neg (by decide)]
      rwa [encodeDouble _ finite] at cut
  | true =>
      rw [if_pos rfl, if_pos rfl]
      have away : mode.dir (flexfloatSign a) ≠ .zero := by
        intro zero
        rw [zero] at more
        exact Bool.false_ne_true more
      by_cases other : flexfloatExp d a - d.fracBits = flexfloatInfExp d
      · -- The value of the last place would be past the greatest exponent, and so is the number.
        have value : flexfloatRoundingValue d a (flexfloatExp d a) (flexfloatSign a) = pack (flexfloatSign a) infExp 0 := by
          unfold flexfloatRoundingValue
          rw [if_neg normal, if_neg (by omega), other, packInfinity]
        obtain ⟨number, bounded⟩ := finiteParts finite
        have power : Floating 53 0 (2 ^ endPlace d) := ⟨1, endPlace d, by decide, Nat.zero_le _, (Nat.one_mul _).symm⟩
        have power' : Floating (d.fracBits + 1) (leastPlace d) (2 ^ endPlace d) :=
          ⟨1, endPlace d, Nat.one_lt_two_pow (by omega), by omega, (Nat.one_mul _).symm⟩
        have large : 2 ^ endPlace d ≤ magnitude a := Nat.lt_size.mp (by omega)
        have sum : 2 ^ endPlace d ≤ roundTo (mode.dir (flexfloatSign a)) 53 0
            (magnitude a + 2 ^ place (d.fracBits + 1) (leastPlace d) (magnitude a)) :=
          Rounding.roundOver power (large.trans (Nat.le_add_right _ _))
        unfold keeps
        rw [value, addInf number bounded, if_neg (Nat.not_lt.mpr (Rounding.roundOver power' sum))]
        exact cutInf supported (.inl (infinityParts _).2)
      · obtain ⟨signs, magnitudes, finite'⟩ := roundingValueMeets supported (flexfloatSign a) normal finite other
        rw [addSame mode finite finite' signs, magnitudes]
        refine cutEncoded supported _ (Rounding.roundFloating (by decide)) away ?_
        have power : Floating 53 0 (2 ^ 52) := ⟨1, 52, by decide, Nat.zero_le _, (Nat.one_mul _).symm⟩
        exact Rounding.roundOver power (high.trans (Nat.le_add_right _ _))

end Sanitized

end Gvsoc.FlexFloat
