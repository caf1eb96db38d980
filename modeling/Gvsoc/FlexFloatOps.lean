import Gvsoc.FlexFloatNumbers

/-! The operations on the numbers of a small format are rounded once, although they are done on doubles first. -/
namespace Gvsoc.FlexFloat
open Rounding (Direction Floating Rounds Sums roundTo)

section Sanitized

variable {d : Desc} {a : Bits}

theorem zeroDouble (zero : magnitude a = 0) : a = pack (flexfloatSign a) 0 0 := by
  have signs : flexfloatSign (pack (flexfloatSign a) 0 0) = flexfloatSign a := packSign (by decide) (by decide) (by decide)
  refine doubleSame signs.symm ?_
  have field : exponent (pack (flexfloatSign a) 0 0) = 0 := packExponent (by decide) (by decide) (by decide)
  unfold magnitude at zero ⊢
  rw [zero, if_pos field, packFraction (by decide) (by decide) (by decide)]
  rfl

theorem sanitizeZero (supported : d.Supported) (mode : Mode) (sign : Bool) : flexfloatSanitize d mode (pack sign 0 0) = pack sign 0 0 := by
  have narrow := supported.expHigh
  have short := supported.fracHigh
  have field : exponent (pack sign 0 0) = 0 := packExponent (by decide) (by decide) (by decide)
  have rest : pack sign 0 0 &&& maskFrac = 0 := packFraction (by decide) (by decide) (by decide)
  have signs : flexfloatSign (pack sign 0 0) = sign := packSign (by decide) (by decide) (by decide)
  have exp : flexfloatExp d (pack sign 0 0) = 0 := by
    unfold flexfloatExp
    rw [field]
    exact if_pos (.inl rfl)
  have none (n : Nat) (low : n ≤ 52) : (pack sign 0 0).toNat % 2 ^ n = 0 := by
    have fraction := fractionNumber (pack sign 0 0)
    rw [rest] at fraction
    rw [← Nat.mod_mod_of_dvd _ (Nat.pow_dvd_pow 2 low), ← fraction]
    exact Nat.zero_mod _
  have round : flexfloatRoundBit d (pack sign 0 0) 0 = false := by
    unfold flexfloatRoundBit
    rw [if_neg fun both => both.2 field]
    refine decide_eq_false fun bit => ?_
    rw [bitMask (by omega)] at bit
    have lost := Rounding.lostBits (52 - d.fracBits - 1) (pack sign 0 0).toNat
    rw [none _ (by omega), none _ (by omega), bit] at lost
    have positive := Nat.two_pow_pos (52 - d.fracBits - 1)
    omega
  have sticky : flexfloatStickyBit d (pack sign 0 0) 0 = false := by
    unfold flexfloatStickyBit
    rw [if_neg fun both => both.2 field, stickyMask supported]
    refine decide_eq_false fun bits => ?_
    exact (andZero (by omega) _).mp bits (none _ (by omega))
  have up : roundsUp d mode (pack sign 0 0) 0 sign = false := by
    unfold roundsUp flexfloatNearestRounding flexfloatInfRounding
    rw [round, sticky]
    cases mode <;> rfl
  have kept : sanitizeRound d mode (pack sign 0 0) = pack sign 0 0 := by
    unfold sanitizeRound
    simp only [exp, signs, up, Bool.false_eq_true, if_false, ite_self]
  unfold flexfloatSanitize
  rw [if_neg (fun both : d.expBits = 11 ∧ d.fracBits = 52 => by omega), kept, signs]
  unfold sanitizeCut flexfloatDenormPack flexfloatFrac
  simp only [if_pos field, rest]
  have shifted : (0 : Bits) >>> (52 - d.fracBits) <<< (52 - d.fracBits) = 0 := by
    rw [show (0 : Bits) >>> (52 - d.fracBits) = 0 from BitVec.zero_ushiftRight]
    exact BitVec.zero_shiftLeft _
  rw [shifted]

theorem sanitizeNumber (supported : d.Supported) (mode : Mode) (finite : exponent a < infExp)
    (normal : magnitude a ≠ 0 → 2 ^ 52 ≤ magnitude a)
    (near : magnitude a ≠ 0 → mode.dir (flexfloatSign a) = .away → leastPlace d ≤ (magnitude a).size + 10)
    (ordinary : (magnitude a).size < leastPlace d + (d.fracBits + 1) → ∀ y, magnitude a ≠ (2 ^ 53 - 1) * 2 ^ y) :
    flexfloatSanitize d mode a =
      keeps d (flexfloatSign a) (roundTo (mode.dir (flexfloatSign a)) (d.fracBits + 1) (leastPlace d) (magnitude a)) := by
  by_cases zero : magnitude a = 0
  · have float : Floating (d.fracBits + 1) (leastPlace d) 0 := ⟨0, _, Nat.two_pow_pos _, Nat.le_refl _, (Nat.zero_mul _).symm⟩
    have same := zeroDouble zero
    rw [zero, Rounding.roundSelf float]
    unfold keeps
    rw [if_pos (Nat.two_pow_pos _), same, sanitizeZero supported, ← same]
    exact same
  · have size := exponentSize a
    have long := Nat.lt_size.mpr (normal zero)
    exact sanitizeRounds supported mode (by omega) finite (near zero) ordinary

end Sanitized

section Multiplied

variable {d : Desc} {a b : Bits}

theorem notOnes {n k q : Nat} (number : n = k * 2 ^ q) (small : k < 2 ^ 53 - 1) (y : Nat) : n ≠ (2 ^ 53 - 1) * 2 ^ y := by
  intro same
  rw [number] at same
  rcases Nat.lt_or_ge y q with less | more
  · -- An odd number is no multiple of two.
    obtain ⟨g, rfl⟩ := Nat.exists_eq_add_of_lt less
    have cancel : k * 2 ^ g * 2 = 2 ^ 53 - 1 := by
      refine Nat.eq_of_mul_eq_mul_right (Nat.two_pow_pos y) ?_
      rw [← same]
      ring
    omega
  · obtain ⟨g, rfl⟩ := Nat.exists_eq_add_of_le more
    have cancel : k = (2 ^ 53 - 1) * 2 ^ g := by
      refine Nat.eq_of_mul_eq_mul_right (Nat.two_pow_pos q) ?_
      rw [same]
      ring
    have positive := Nat.two_pow_pos g
    omega

theorem productExact (supported : d.Supported) (narrow : d.expBits ≤ 9) (short : d.fracBits ≤ 25)
    (float : Floating (d.fracBits + 1) (leastPlace d) (magnitude a)) (float' : Floating (d.fracBits + 1) (leastPlace d) (magnitude b))
    (small : magnitude a < 2 ^ endPlace d) (small' : magnitude b < 2 ^ endPlace d) :
    ∃ k x : Nat, magnitude a * magnitude b = k * 2 ^ x * 2 ^ unitPlace ∧ k < 2 ^ 52 ∧ 52 ≤ x ∧ (k * 2 ^ x).size ≤ 2098 := by
  obtain ⟨least, ending⟩ := placeBounds supported
  have most : flexfloatBias d ≤ 255 := by
    have power : (2 : Int) ^ (d.expBits - 1) ≤ 2 ^ 8 := pow_le_pow_right₀ (by norm_num) (by omega)
    unfold flexfloatBias
    omega
  have unit : unitPlace = 1074 := rfl
  generalize unitPlace = u at *
  obtain ⟨limit, longest⟩ : ∃ limit, limit = 2098 := ⟨_, rfl⟩
  obtain ⟨m, x, high, low, number⟩ := float
  obtain ⟨m', x', high', low', number'⟩ := float'
  have split : magnitude a * magnitude b = m * m' * 2 ^ (x + x' - u) * 2 ^ u := by
    rw [number, number', Nat.mul_assoc (m * m'), ← Nat.pow_add, Nat.sub_add_cancel (by omega)]
    ring
  refine ⟨m * m', x + x' - u, split, ?_, by omega, ?_⟩
  · calc m * m' < 2 ^ (d.fracBits + 1) * 2 ^ (d.fracBits + 1) := Nat.mul_lt_mul'' high high'
      _ = 2 ^ (2 * (d.fracBits + 1)) := by ring
      _ ≤ 2 ^ 52 := Nat.pow_le_pow_right (by norm_num) (by omega)
  · rw [← longest, Nat.size_le]
    refine Nat.lt_of_mul_lt_mul_right (a := 2 ^ u) ?_
    calc m * m' * 2 ^ (x + x' - u) * 2 ^ u = magnitude a * magnitude b := split.symm
      _ < 2 ^ endPlace d * 2 ^ endPlace d := Nat.mul_lt_mul'' small small'
      _ = 2 ^ (2 * endPlace d) := by ring
      _ ≤ 2 ^ (limit + u) := Nat.pow_le_pow_right (by norm_num) (by omega)
      _ = 2 ^ limit * 2 ^ u := Nat.pow_add 2 limit u

theorem fpMulExact (mode : Mode) (finite : exponent a < infExp) (finite' : exponent b < infExp) {n : Nat}
    (product : magnitude a * magnitude b = n * 2 ^ unitPlace) (float : Floating 53 0 n) :
    fpMul mode a b = encode (mode.dir (flexfloatSign a != flexfloatSign b)) (flexfloatSign a != flexfloatSign b) n := by
  obtain ⟨number, bounded⟩ := finiteParts finite
  obtain ⟨number', bounded'⟩ := finiteParts finite'
  unfold fpMul
  generalize unitPlace = u at *
  obtain ⟨k, x, small, -, rfl⟩ := float
  have double : Floating 53 u (magnitude a * magnitude b) :=
    ⟨k, x + u, small, Nat.le_add_left _ _, by rw [product, Nat.pow_add, Nat.mul_assoc]⟩
  simp only [number, number', bounded, bounded', Rounding.roundSelf double, Bool.or_self, Bool.false_and, Bool.false_eq_true, if_false]
  rw [product, Nat.mul_div_cancel _ (Nat.two_pow_pos _)]

theorem mulRounds (supported : d.Supported) (narrow : d.expBits ≤ 9) (short : d.fracBits ≤ 25) (mode : Mode)
    (finite : exponent a < infExp) (finite' : exponent b < infExp)
    (float : Floating (d.fracBits + 1) (leastPlace d) (magnitude a)) (float' : Floating (d.fracBits + 1) (leastPlace d) (magnitude b))
    (small : magnitude a < 2 ^ endPlace d) (small' : magnitude b < 2 ^ endPlace d) :
    ∃ n, magnitude a * magnitude b = n * 2 ^ unitPlace ∧
      ((n ≠ 0 → mode.dir (flexfloatSign a != flexfloatSign b) = .away → leastPlace d ≤ n.size + 10) →
        ffMul d mode a b = keeps d (flexfloatSign a != flexfloatSign b)
          (roundTo (mode.dir (flexfloatSign a != flexfloatSign b)) (d.fracBits + 1) (leastPlace d) n)) := by
  obtain ⟨k, x, product, less, low, size⟩ := productExact supported narrow short float float' small small'
  refine ⟨k * 2 ^ x, product, fun near => ?_⟩
  have whole : Floating 53 0 (k * 2 ^ x) := ⟨k, x, less.trans (by norm_num), Nat.zero_le _, rfl⟩
  unfold ffMul
  rw [fpMulExact mode finite finite' product whole]
  generalize (flexfloatSign a != flexfloatSign b) = s at *
  obtain ⟨signs, magnitudes, finite''⟩ := encodeMeets (mode.dir s) s whole size
  rw [sanitizeNumber supported mode finite'', signs, magnitudes]
  · rw [magnitudes]
    intro some
    have positive : 0 < k := Nat.pos_of_ne_zero fun none => some (by rw [none, Nat.zero_mul])
    calc 2 ^ 52 ≤ 2 ^ x := Nat.pow_le_pow_right (by norm_num) low
      _ ≤ k * 2 ^ x := Nat.le_mul_of_pos_left _ positive
  · rw [magnitudes, signs]
    exact near
  · rw [magnitudes]
    exact fun _ => notOnes rfl (by omega)

end Multiplied

section Added

variable {d : Desc} {a b : Bits}

def sumSign (mode : Mode) (sign sign' : Bool) (sum : Int) : Bool :=
  if sum = 0 then (if sign = sign' then sign else mode = .downward) else decide (sum < 0)

theorem addFinite (mode : Mode) (finite : exponent a < infExp) (finite' : exponent b < infExp) :
    fpAdd mode a b =
      encode (mode.dir (sumSign mode (flexfloatSign a) (flexfloatSign b) (value a + value b)))
        (sumSign mode (flexfloatSign a) (flexfloatSign b) (value a + value b))
        (roundTo (mode.dir (sumSign mode (flexfloatSign a) (flexfloatSign b) (value a + value b))) 53 0 (value a + value b).natAbs) := by
  obtain ⟨number, bounded⟩ := finiteParts finite
  obtain ⟨number', bounded'⟩ := finiteParts finite'
  unfold fpAdd
  simp only [number, number', bounded, bounded', Bool.or_self, Bool.false_and, Bool.false_eq_true, if_false]
  rfl

theorem floatingMultiple {p q n : Nat} (float : Floating p q n) : ∃ k, n = k * 2 ^ q := by
  obtain ⟨m, x, -, low, rfl⟩ := float
  refine ⟨m * 2 ^ (x - q), ?_⟩
  rw [Nat.mul_assoc, ← Nat.pow_add, Nat.sub_add_cancel low]

theorem valueSums (a b : Bits) : Sums (max (magnitude a) (magnitude b)) (min (magnitude a) (magnitude b)) (value a + value b).natAbs := by
  unfold Sums value
  cases flexfloatSign a <;> cases flexfloatSign b <;> simp only [Bool.false_eq_true, if_false, if_true] <;> omega

theorem addRounds (supported : d.Supported) (short : d.fracBits ≤ 24) (mode : Mode)
    (finite : exponent a < infExp) (finite' : exponent b < infExp)
    (float : Floating (d.fracBits + 1) (leastPlace d) (magnitude a)) (float' : Floating (d.fracBits + 1) (leastPlace d) (magnitude b))
    (small : magnitude a < 2 ^ endPlace d) (small' : magnitude b < 2 ^ endPlace d) :
    ffAdd d mode a b = keeps d (sumSign mode (flexfloatSign a) (flexfloatSign b) (value a + value b))
      (roundTo (mode.dir (sumSign mode (flexfloatSign a) (flexfloatSign b) (value a + value b))) (d.fracBits + 1) (leastPlace d)
        (value a + value b).natAbs) := by
  obtain ⟨least, ending⟩ := placeBounds supported
  obtain ⟨low, most, double⟩ := biasBounds supported
  have sums := valueSums a b
  unfold ffAdd
  rw [addFinite mode finite finite']
  generalize sumSign mode (flexfloatSign a) (flexfloatSign b) (value a + value b) = s
  generalize (value a + value b).natAbs = n at *
  have first : Floating (d.fracBits + 1) (leastPlace d) (max (magnitude a) (magnitude b)) := by
    rcases max_choice (magnitude a) (magnitude b) with left | right
    · rwa [left]
    · rwa [right]
  have second : Floating (d.fracBits + 1) (leastPlace d) (min (magnitude a) (magnitude b)) := by
    rcases min_choice (magnitude a) (magnitude b) with left | right
    · rwa [left]
    · rwa [right]
  have twice := Rounding.roundTwice (mode.dir s) (Nat.succ_pos d.fracBits) (show 2 * (d.fracBits + 1) + 2 ≤ 53 by omega) first second
    (min_le_max) sums
  -- The sum has the last place of the subnormal numbers, or a higher one.
  obtain ⟨k, multiple⟩ : ∃ k, n = k * 2 ^ leastPlace d := by
    obtain ⟨k, one⟩ := floatingMultiple first
    obtain ⟨l, two⟩ := floatingMultiple second
    rw [one, two] at sums
    rcases sums with rfl | rfl
    · exact ⟨k + l, (Nat.add_mul _ _ _).symm⟩
    · exact ⟨k - l, (Nat.sub_mul _ _ _).symm⟩
  have bound : n < 2 ^ (endPlace d + 1) := by
    rw [Nat.pow_succ]
    rcases sums with rfl | rfl <;> omega
  have whole : Floating 53 0 (roundTo (mode.dir s) 53 0 n) := Rounding.roundFloating (by decide)
  have size : (roundTo (mode.dir s) 53 0 n).size ≤ 2098 := by
    have power : Floating 53 0 (2 ^ (endPlace d + 1)) := ⟨1, _, by decide, Nat.zero_le _, (Nat.one_mul _).symm⟩
    have under : roundTo (mode.dir s) 53 0 n ≤ 2 ^ (endPlace d + 1) := Rounding.roundUnder power (Nat.le_of_lt bound)
    have sizes := Nat.size_le_size under
    rw [Nat.size_pow] at sizes
    omega
  have high : roundTo (mode.dir s) 53 0 n ≠ 0 → 2 ^ leastPlace d ≤ roundTo (mode.dir s) 53 0 n := by
    intro some
    have power : Floating 53 0 (2 ^ leastPlace d) := ⟨1, _, by decide, Nat.zero_le _, (Nat.one_mul _).symm⟩
    refine Rounding.roundOver power ?_
    have positive : 0 < k := by
      refine Nat.pos_of_ne_zero fun none => some ?_
      rw [multiple, none, Nat.zero_mul]
      exact Rounding.roundSelf ⟨0, 0, by decide, Nat.le_refl _, rfl⟩
    rw [multiple]
    exact Nat.le_mul_of_pos_left _ positive
  obtain ⟨signs, magnitudes, finite''⟩ := encodeMeets (mode.dir s) s whole size
  rw [sanitizeNumber supported mode finite'', signs, magnitudes, twice]
  · rw [magnitudes]
    intro some
    exact Nat.le_trans (Nat.pow_le_pow_right (by norm_num) (by omega)) (high some)
  · rw [magnitudes, signs]
    intro some _
    have long := Nat.lt_size.mpr (high some)
    omega
  · -- Below the normal numbers the sum is a number itself.
    rw [magnitudes]
    intro subnormal
    have less : n < 2 ^ (leastPlace d + d.fracBits) := by
      by_contra large
      have power : Floating 53 0 (2 ^ (leastPlace d + d.fracBits)) := ⟨1, _, by decide, Nat.zero_le _, (Nat.one_mul _).symm⟩
      have above : 2 ^ (leastPlace d + d.fracBits) ≤ roundTo (mode.dir s) 53 0 n := Rounding.roundOver power (Nat.not_lt.mp large)
      have long := Nat.lt_size.mpr above
      omega
    have few : k < 2 ^ d.fracBits := by
      rw [multiple, Nat.add_comm, Nat.pow_add] at less
      exact Nat.lt_of_mul_lt_mul_right less
    have places : 2 ^ d.fracBits ≤ 2 ^ 24 := Nat.pow_le_pow_right (by norm_num) short
    have exact : roundTo (mode.dir s) 53 0 n = n := Rounding.roundSelf ⟨k, leastPlace d, by omega, Nat.zero_le _, multiple⟩
    rw [exact]
    exact notOnes multiple (by omega)

end Added

end Gvsoc.FlexFloat
