import Gvsoc.FlexFloatOps

/-! The instructions that compute with a small format give the number that the exact result is rounded to. -/
namespace Gvsoc.FlexFloat
open Rounding (Direction Floating Rounds roundTo)

section Operands

variable {d : Desc} {x : Word}

abbrev bitsOf (x : Word) : Bits := x.setWidth 64

def numberValue (d : Desc) (bits : Bits) : Int := if numberSign d bits then -number d bits else number d bits

structure Operand (d : Desc) (bits a : Bits) : Prop where
  set : flexfloatSetBits d bits = some a
  signs : flexfloatSign a = numberSign d bits
  magnitudes : magnitude a = number d bits
  finite : exponent a < infExp
  float : Floating (d.fracBits + 1) (leastPlace d) (magnitude a)
  small : magnitude a < 2 ^ endPlace d

theorem operand (supported : d.Supported) {bits : Bits} (finite : IsNumber d bits) : ∃ a, Operand d bits a := by
  obtain ⟨a, set, sign, magnitudes, bounded⟩ := setNumber supported finite
  refine ⟨a, set, sign, magnitudes, bounded, ?_, ?_⟩
  · rw [magnitudes]
    exact numberFloating d bits
  · rw [magnitudes]
    exact numberBound supported finite

theorem Operand.value {bits a : Bits} (kept : Operand d bits a) : value a = numberValue d bits := by
  unfold FlexFloat.value numberValue
  rw [kept.signs, kept.magnitudes]

theorem maskedXor (a b m : Bits) : (a ^^^ b) &&& m = (a &&& m) ^^^ (b &&& m) := by
  refine BitVec.eq_of_getLsbD_eq fun i _ => ?_
  rw [BitVec.getLsbD_and, BitVec.getLsbD_xor, BitVec.getLsbD_xor, BitVec.getLsbD_and, BitVec.getLsbD_and, Bool.and_xor_distrib_right]

theorem negatedParts (a : Bits) :
    flexfloatSign (a ^^^ 0x8000000000000000) = !flexfloatSign a ∧ magnitude (a ^^^ 0x8000000000000000) = magnitude a ∧
      exponent (a ^^^ 0x8000000000000000) = exponent a := by
  have exps : exponent (a ^^^ 0x8000000000000000) = exponent a := by
    unfold exponent
    have none : (0x8000000000000000 : Bits) >>> 52 &&& 0x7FF = 0#64 := by decide
    rw [BitVec.ushiftRight_xor_distrib, maskedXor, none, BitVec.xor_zero]
  have fracs : (a ^^^ 0x8000000000000000) &&& maskFrac = a &&& maskFrac := by
    have none : (0x8000000000000000 : Bits) &&& maskFrac = 0#64 := by decide
    rw [maskedXor, none, BitVec.xor_zero]
  have top : (0x8000000000000000 : Bits).msb = true := by decide
  refine ⟨?_, ?_, exps⟩
  · rw [signMsb, signMsb, BitVec.msb_xor, top, Bool.xor_true]
  · unfold magnitude
    rw [exps, fracs]

theorem negatedValue (a : Bits) : value (a ^^^ 0x8000000000000000) = -value a := by
  obtain ⟨signs, magnitudes, -⟩ := negatedParts a
  unfold value
  rw [signs, magnitudes]
  cases flexfloatSign a with
  | true => exact (Int.neg_neg _).symm
  | false => rfl

theorem resultBits (supported : d.Supported) (word : d.expBits + d.fracBits < 32) {op : Mode → Bits → Bits → Bits} {mode : Mode}
    {x y : Word} {a b : Bits} {sign : Bool} {n : Nat} (first : Operand d (bitsOf x) a) (second : Operand d (bitsOf y) b)
    (result : op mode a b = keeps d sign (roundTo (mode.dir sign) (d.fracBits + 1) (leastPlace d) n)) :
    ∃ z r, libFlexfloat d op mode x y = some z ∧ Rounds (mode.dir sign) (d.fracBits + 1) (leastPlace d) n r ∧
      Denotes d (bitsOf z) sign r := by
  have float : Floating (d.fracBits + 1) (leastPlace d) (roundTo (mode.dir sign) (d.fracBits + 1) (leastPlace d) n) :=
    Rounding.roundFloating (Nat.succ_pos _)
  obtain ⟨bits, read, denotes⟩ := getKept supported word sign float
  refine ⟨bits.setWidth 32, _, ?_, Rounding.roundMeets (Nat.succ_pos _) _, denotes⟩
  unfold libFlexfloat
  simp only [first.set, second.set, Option.bind_eq_bind, Option.bind_some, result, read]

end Operands

section Instructions

variable {d : Desc}

/- The sum is the one of real numbers, rounded once. -/
theorem libFlexfloatAddRounds (supported : d.Supported) (short : d.fracBits ≤ 24) (word : d.expBits + d.fracBits < 32) (mode : Mode)
    (x y : Word) (finite : IsNumber d (bitsOf x)) (finite' : IsNumber d (bitsOf y)) :
    ∃ z r, libFlexfloatAdd d mode x y = some z ∧
      Rounds (mode.dir (sumSign mode (numberSign d (bitsOf x)) (numberSign d (bitsOf y)) (numberValue d (bitsOf x) + numberValue d (bitsOf y))))
        (d.fracBits + 1) (leastPlace d) (numberValue d (bitsOf x) + numberValue d (bitsOf y)).natAbs r ∧
      Denotes d (bitsOf z)
        (sumSign mode (numberSign d (bitsOf x)) (numberSign d (bitsOf y)) (numberValue d (bitsOf x) + numberValue d (bitsOf y))) r := by
  obtain ⟨a, first⟩ := operand supported finite
  obtain ⟨b, second⟩ := operand supported finite'
  have result := addRounds supported short mode first.finite second.finite first.float second.float first.small second.small
  rw [first.value, second.value, first.signs, second.signs] at result
  exact resultBits supported word first second result

theorem libFlexfloatSubRounds (supported : d.Supported) (short : d.fracBits ≤ 24) (word : d.expBits + d.fracBits < 32) (mode : Mode)
    (x y : Word) (finite : IsNumber d (bitsOf x)) (finite' : IsNumber d (bitsOf y)) :
    ∃ z r, libFlexfloatSub d mode x y = some z ∧
      Rounds (mode.dir (sumSign mode (numberSign d (bitsOf x)) (!numberSign d (bitsOf y)) (numberValue d (bitsOf x) - numberValue d (bitsOf y))))
        (d.fracBits + 1) (leastPlace d) (numberValue d (bitsOf x) - numberValue d (bitsOf y)).natAbs r ∧
      Denotes d (bitsOf z)
        (sumSign mode (numberSign d (bitsOf x)) (!numberSign d (bitsOf y)) (numberValue d (bitsOf x) - numberValue d (bitsOf y))) r := by
  obtain ⟨a, first⟩ := operand supported finite
  obtain ⟨b, second⟩ := operand supported finite'
  obtain ⟨signs, magnitudes, exps⟩ := negatedParts b
  have result := addRounds supported short mode (b := b ^^^ 0x8000000000000000) first.finite (by rw [exps]; exact second.finite) first.float
    (by rw [magnitudes]; exact second.float) first.small (by rw [magnitudes]; exact second.small)
  rw [negatedValue, first.value, second.value, signs, first.signs, second.signs, ← Int.sub_eq_add_neg] at result
  exact resultBits supported word first second result

theorem libFlexfloatAddHalf :
    ∃ z r, libFlexfloatAdd ⟨5, 10⟩ .toNearest 0x3C00 0x9001 = some z ∧
      Rounds (Mode.toNearest.dir (sumSign .toNearest (numberSign ⟨5, 10⟩ (bitsOf 0x3C00)) (numberSign ⟨5, 10⟩ (bitsOf 0x9001))
        (numberValue ⟨5, 10⟩ (bitsOf 0x3C00) + numberValue ⟨5, 10⟩ (bitsOf 0x9001))))
        (10 + 1) (leastPlace ⟨5, 10⟩) (numberValue ⟨5, 10⟩ (bitsOf 0x3C00) + numberValue ⟨5, 10⟩ (bitsOf 0x9001)).natAbs r ∧
      Denotes ⟨5, 10⟩ (bitsOf z)
        (sumSign .toNearest (numberSign ⟨5, 10⟩ (bitsOf 0x3C00)) (numberSign ⟨5, 10⟩ (bitsOf 0x9001))
          (numberValue ⟨5, 10⟩ (bitsOf 0x3C00) + numberValue ⟨5, 10⟩ (bitsOf 0x9001))) r :=
  libFlexfloatAddRounds ⟨by decide, by decide, by decide, by decide⟩ (by decide) (by decide) .toNearest 0x3C00 0x9001
    (by unfold IsNumber; decide) (by unfold IsNumber; decide)

def productNumber (d : Desc) (x y : Bits) : Nat := number d x * number d y / 2 ^ unitPlace

/- The product is the one of real numbers, rounded once. A direction away from zero needs a product that is not too small. -/
theorem libFlexfloatMulRounds (supported : d.Supported) (narrow : d.expBits ≤ 9) (short : d.fracBits ≤ 25)
    (word : d.expBits + d.fracBits < 32) (mode : Mode) (x y : Word) (finite : IsNumber d (bitsOf x)) (finite' : IsNumber d (bitsOf y))
    (near : productNumber d (bitsOf x) (bitsOf y) ≠ 0 → mode.dir (numberSign d (bitsOf x) != numberSign d (bitsOf y)) = .away →
      leastPlace d ≤ (productNumber d (bitsOf x) (bitsOf y)).size + 10) :
    number d (bitsOf x) * number d (bitsOf y) = productNumber d (bitsOf x) (bitsOf y) * 2 ^ unitPlace ∧
      ∃ z r, libFlexfloatMul d mode x y = some z ∧
        Rounds (mode.dir (numberSign d (bitsOf x) != numberSign d (bitsOf y))) (d.fracBits + 1) (leastPlace d)
          (productNumber d (bitsOf x) (bitsOf y)) r ∧
        Denotes d (bitsOf z) (numberSign d (bitsOf x) != numberSign d (bitsOf y)) r := by
  obtain ⟨a, first⟩ := operand supported finite
  obtain ⟨b, second⟩ := operand supported finite'
  obtain ⟨n, product, result⟩ :=
    mulRounds supported narrow short mode first.finite second.finite first.float second.float first.small second.small
  rw [first.signs, second.signs] at result
  rw [first.magnitudes, second.magnitudes] at product
  have units : productNumber d (bitsOf x) (bitsOf y) = n := by
    unfold productNumber
    rw [product, Nat.mul_div_cancel _ (Nat.two_pow_pos _)]
  rw [units] at near ⊢
  exact ⟨product, resultBits supported word first second (result near)⟩

theorem libFlexfloatMulHalf :
    number ⟨5, 10⟩ (bitsOf 0x3555) * number ⟨5, 10⟩ (bitsOf 0xC200) =
        productNumber ⟨5, 10⟩ (bitsOf 0x3555) (bitsOf 0xC200) * 2 ^ unitPlace ∧
      ∃ z r, libFlexfloatMul ⟨5, 10⟩ .toNearest 0x3555 0xC200 = some z ∧
        Rounds (Mode.toNearest.dir (numberSign ⟨5, 10⟩ (bitsOf 0x3555) != numberSign ⟨5, 10⟩ (bitsOf 0xC200))) (10 + 1)
          (leastPlace ⟨5, 10⟩) (productNumber ⟨5, 10⟩ (bitsOf 0x3555) (bitsOf 0xC200)) r ∧
        Denotes ⟨5, 10⟩ (bitsOf z) (numberSign ⟨5, 10⟩ (bitsOf 0x3555) != numberSign ⟨5, 10⟩ (bitsOf 0xC200)) r :=
  libFlexfloatMulRounds ⟨by decide, by decide, by decide, by decide⟩ (by decide) (by decide) (by decide) .toNearest 0x3555 0xC200
    (by unfold IsNumber; decide) (by unfold IsNumber; decide) (fun _ other => Direction.noConfusion other)

/- A number of one format becomes the one of another format that it is rounded to. -/
theorem libFlexfloatCvtFfRounds {source : Desc} (supported : source.Supported) (supported' : d.Supported)
    (word : d.expBits + d.fracBits < 32) (mode : Mode) (x : Word) (finite : IsNumber source (bitsOf x))
    (near : number source (bitsOf x) ≠ 0 → mode.dir (numberSign source (bitsOf x)) = .away →
      leastPlace d ≤ (number source (bitsOf x)).size + 10) :
    ∃ z r, libFlexfloatCvtFf d source mode x = some z ∧
      Rounds (mode.dir (numberSign source (bitsOf x))) (d.fracBits + 1) (leastPlace d) (number source (bitsOf x)) r ∧
      Denotes d (bitsOf z) (numberSign source (bitsOf x)) r := by
  obtain ⟨a, kept⟩ := operand supported finite
  obtain ⟨least, ending⟩ := placeBounds supported
  obtain ⟨low, most, double⟩ := biasBounds supported
  have short := supported.fracHigh
  have float := kept.float
  have small := kept.small
  rw [kept.magnitudes] at float small
  have cast : ffCast d source mode a = keeps d (numberSign source (bitsOf x))
      (roundTo (mode.dir (numberSign source (bitsOf x))) (d.fracBits + 1) (leastPlace d) (number source (bitsOf x))) := by
    unfold ffCast
    by_cases other : d.expBits ≠ source.expBits ∨ d.fracBits ≠ source.fracBits
    · rw [if_pos other, sanitizeNumber supported' mode kept.finite, kept.signs, kept.magnitudes]
      · rw [kept.magnitudes]
        intro some
        obtain ⟨k, multiple⟩ := floatingMultiple float
        have positive : 0 < k := Nat.pos_of_ne_zero fun none => some (by rw [multiple, none, Nat.zero_mul])
        rw [multiple]
        calc 2 ^ 52 ≤ 2 ^ leastPlace source := Nat.pow_le_pow_right (by norm_num) (by omega)
          _ ≤ k * 2 ^ leastPlace source := Nat.le_mul_of_pos_left _ positive
      · rw [kept.magnitudes, kept.signs]
        exact near
      · rw [kept.magnitudes]
        obtain ⟨m, y, less, -, number⟩ := float
        have places : 2 ^ (source.fracBits + 1) ≤ 2 ^ 32 := Nat.pow_le_pow_right (by norm_num) (by omega)
        exact fun _ => notOnes number (by omega)
    · -- The formats are the same, and the number is one of them.
      have same : source = d := by
        cases source
        cases d
        simp only [not_or, not_not] at other
        rw [other.1, other.2]
      subst same
      rw [if_neg other, Rounding.roundSelf float]
      unfold keeps
      rw [if_pos small]
      refine (encodeDouble .zero kept.finite).symm.trans ?_
      rw [kept.signs, kept.magnitudes]
  have rounded : Floating (d.fracBits + 1) (leastPlace d)
      (roundTo (mode.dir (numberSign source (bitsOf x))) (d.fracBits + 1) (leastPlace d) (number source (bitsOf x))) :=
    Rounding.roundFloating (Nat.succ_pos _)
  obtain ⟨bits, read, denotes⟩ := getKept supported' word (numberSign source (bitsOf x)) rounded
  refine ⟨bits.setWidth 32, _, ?_, Rounding.roundMeets (Nat.succ_pos _) _, denotes⟩
  unfold libFlexfloatCvtFf
  simp only [kept.set, Option.bind_eq_bind, Option.bind_some, cast, read]

theorem libFlexfloatCvtFfHalf :
    ∃ z r, libFlexfloatCvtFf ⟨5, 10⟩ ⟨8, 23⟩ .upward 0x3DCCCCCD = some z ∧
      Rounds (Mode.upward.dir (numberSign ⟨8, 23⟩ (bitsOf 0x3DCCCCCD))) (10 + 1) (leastPlace ⟨5, 10⟩) (number ⟨8, 23⟩ (bitsOf 0x3DCCCCCD)) r ∧
      Denotes ⟨5, 10⟩ (bitsOf z) (numberSign ⟨8, 23⟩ (bitsOf 0x3DCCCCCD)) r :=
  libFlexfloatCvtFfRounds ⟨by decide, by decide, by decide, by decide⟩ ⟨by decide, by decide, by decide, by decide⟩ (by decide) .upward 0x3DCCCCCD
    (by unfold IsNumber; decide) (fun _ _ => Nat.le_add_right_of_le (Nat.le_of_lt (Nat.lt_size.mpr (by decide +kernel))))

end Instructions

end Gvsoc.FlexFloat
