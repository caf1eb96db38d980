import Gvsoc.Rv32m
import Gvsoc.Xint64

/-! That the instructions on pairs of registers set what the reference says. The shifts by a pair take the whole amount,
and one extension builds a mask that an `int` cannot hold. -/
namespace Gvsoc.Isa
open CShift (shl shr sar)
open Spec (Operands pairOf put flag)

section Pairs

variable (s : Cpu) {r : Nat}

theorem pairRead (real : 1 ≤ r) : issGetReg64 s r = pairOf s.regs r := by
  have low := (s.regs r).isLt
  have high := (s.regs (r + 1)).isLt
  apply BitVec.eq_of_toNat_eq
  rw [issGetReg64, if_neg (by omega), pairOf, BitVec.toNat_append, BitVec.toNat_add, BitVec.toNat_shiftLeft, BitVec.toNat_setWidth,
    BitVec.toNat_setWidth, ← Nat.shiftLeft_add_eq_or_of_lt low, Nat.shiftLeft_eq, Nat.shiftLeft_eq]
  omega

theorem lowHalf (value : Double) : (value &&& 0xFFFFFFFF).setWidth 32 = value.extractLsb' 0 32 := by
  apply BitVec.eq_of_toNat_eq
  rw [BitVec.toNat_setWidth, BitVec.toNat_and, BitVec.extractLsb'_toNat]
  change (value.toNat &&& 2 ^ 32 - 1) % 2 ^ 32 = _
  rw [Nat.and_two_pow_sub_one_eq_mod, Nat.mod_mod, Nat.shiftRight_zero]

theorem highHalf (value : Double) : (value >>> 32).setWidth 32 = value.extractLsb' 32 32 := by
  apply BitVec.eq_of_toNat_eq
  rw [BitVec.toNat_setWidth, BitVec.toNat_ushiftRight, BitVec.extractLsb'_toNat]

theorem pairWritten (real : 1 ≤ r) (value : Double) : issSetReg64 s r value = { s with regs := put s.regs r (.pair value) } := by
  have regs : Function.update (Function.update s.regs r (value.extractLsb' 0 32)) (r + 1) (value.extractLsb' 32 32) =
      put s.regs r (.pair value) := by
    funext k
    rw [put]
    by_cases upper : k = r + 1
    · rw [upper, Function.update_self, if_neg (by omega), if_pos rfl]
    · rw [Function.update_of_ne upper]
      by_cases lower : k = r
      · rw [lower, Function.update_self, if_pos rfl]
      · rw [Function.update_of_ne lower, if_neg lower, if_neg upper]
  rw [issSetReg64, if_pos (by omega), lowHalf, highHalf, ← regs]

theorem singleWritten (real : 1 ≤ r) (value : Word) : issSetReg s r value = { s with regs := put s.regs r (.single value) } := by
  rw [issSetReg, if_pos (by omega)]
  congr 1
  funext k
  rw [put]
  by_cases here : k = r
  · rw [here, Function.update_self, if_pos rfl]
  · rw [Function.update_of_ne here, if_neg here]

end Pairs

inductive Shape where
  | one
  | two
  | unsigned
  | signed
  | three
  deriving DecidableEq

def Xint64.shape : Xint64 → Shape
  | pAbsD | pCntD | pExthsD | pExthzD | pExtbsD | pExtbzD | pExtwsD | pExtwzD => .one
  | slliD | srliD | sraiD | sltiuD | xoriD | oriD | andiD => .unsigned
  | addiD | sltiD => .signed
  | pMacD | pMsuD | pMacuD | pMsuuD => .three
  | _ => .two

/- A pair at `x0` would have a half that is always zero, and one at `x31` a half behind the registers. -/
structure Real (r : Nat) : Prop where
  first : 1 ≤ r
  last : r ≤ 30

structure Has (shape : Shape) (insn : Insn) (d r0 r1 r2 : Nat) (imm : BitVec 5) : Prop where
  target : insn.outRegs 0 = some d
  first : insn.inRegs 0 = some r0
  second : shape = .two ∨ shape = .three → insn.inRegs 1 = some r1
  third : shape = .three → insn.inRegs 2 = some r2
  unsigned : shape = .unsigned → insn.uim 0 = some (imm.setWidth 32)
  signed : shape = .signed → insn.sim 0 = some (imm.signExtend 32)
  real : Real d ∧ Real r0 ∧ Real r1 ∧ Real r2

def operands (s : Cpu) (r0 r1 r2 : Nat) (imm : BitVec 5) : Operands :=
  ⟨pairOf s.regs r0, pairOf s.regs r1, pairOf s.regs r2, s.regs r0, s.regs r1, imm⟩

def Sets (h : Handler) (insn : Insn) (s : Cpu) (d : Nat) (result : Spec.Result) : Prop :=
  h insn s = some ({ s with regs := put s.regs d result }, insn.next)

section Families

variable {shape : Shape} {insn : Insn} {s : Cpu} {d r0 r1 r2 : Nat} {imm : BitVec 5}

theorem firstPair (has : Has shape insn d r0 r1 r2 imm) : reg64Get insn s 0 = some (pairOf s.regs r0) := by
  rw [reg64Get, has.first, Option.map_some, pairRead s has.real.2.1.first]

theorem firstReg (has : Has shape insn d r0 r1 r2 imm) : regGet insn s 0 = some (s.regs r0) := by
  rw [regGet, has.first, Option.map_some]

theorem secondPair (has : Has .two insn d r0 r1 r2 imm) : reg64Get insn s 1 = some (pairOf s.regs r1) := by
  rw [reg64Get, has.second (.inl rfl), Option.map_some, pairRead s has.real.2.2.1.first]

theorem secondReg (has : Has shape insn d r0 r1 r2 imm) (several : shape = .two ∨ shape = .three) :
    regGet insn s 1 = some (s.regs r1) := by
  rw [regGet, has.second several, Option.map_some]

theorem thirdPair (has : Has .three insn d r0 r1 r2 imm) : reg64Get insn s 2 = some (pairOf s.regs r2) := by
  rw [reg64Get, has.third rfl, Option.map_some, pairRead s has.real.2.2.2.first]

theorem setsPair (has : Has shape insn d r0 r1 r2 imm) {value : Insn → Cpu → Option Double} {v : Double}
    (made : value insn s = some v) : Sets (computes64 value) insn s d (.pair v) := by
  simp only [Sets, computes64, made, reg64Set, has.target, Option.bind_eq_bind, Option.bind_some, Option.map_some,
    pairWritten s has.real.1.first]

theorem setsSingle (has : Has shape insn d r0 r1 r2 imm) {value : Insn → Cpu → Option Word} {v : Word}
    (made : value insn s = some v) : Sets (computes value) insn s d (.single v) := by
  simp only [Sets, computes, made, regSet, has.target, Option.bind_eq_bind, Option.bind_some, Option.map_some,
    singleWritten s has.real.1.first]

theorem pairsSet (has : Has .two insn d r0 r1 r2 imm) {f : Double → Double → Option Double} {v : Double}
    (made : f (pairOf s.regs r0) (pairOf s.regs r1) = some v) : Sets (withPairs f) insn s d (.pair v) :=
  setsPair has (by simp only [firstPair has, secondPair has, Option.bind_eq_bind, Option.bind_some, made])

theorem pairsFail (has : Has .two insn d r0 r1 r2 imm) {f : Double → Double → Option Double} {result : Spec.Result}
    (undefined : f (pairOf s.regs r0) (pairOf s.regs r1) = none) : ¬Sets (withPairs f) insn s d result := by
  simp [Sets, withPairs, computes64, firstPair has, secondPair has, undefined]

theorem comparesSet (has : Has .two insn d r0 r1 r2 imm) {f : Double → Double → Bool} {b : Bool}
    (same : f (pairOf s.regs r0) (pairOf s.regs r1) = b) : Sets (comparePairs f) insn s d (flag b) :=
  setsSingle has (by simp only [firstPair has, secondPair has, Option.bind_eq_bind, Option.bind_some, truth, same])

theorem uimSets (has : Has .unsigned insn d r0 r1 r2 imm) {f : Double → Double → Option Double} {v : Double}
    (made : f (pairOf s.regs r0) (imm.setWidth 64) = some v) : Sets (withPairUim f) insn s d (.pair v) := by
  have widened : (imm.setWidth 32).setWidth 64 = imm.setWidth 64 := BitVec.setWidth_setWidth (by omega)
  exact setsPair has (by simp only [firstPair has, has.unsigned rfl, widened, Option.bind_eq_bind, Option.bind_some, made])

theorem simSets (has : Has .signed insn d r0 r1 r2 imm) {f : Double → Double → Option Double} {v : Double}
    (made : f (pairOf s.regs r0) (imm.signExtend 64) = some v) : Sets (withPairSim f) insn s d (.pair v) := by
  have widened : (imm.signExtend 32).signExtend 64 = imm.signExtend 64 := by
    rw [BitVec.signExtend, BitVec.toInt_signExtend_of_le (by decide)]
    rfl
  exact setsPair has (by simp only [firstPair has, has.signed rfl, widened, Option.bind_eq_bind, Option.bind_some, made])

theorem pairSets (has : Has shape insn d r0 r1 r2 imm) {f : Double → Option Double} {v : Double}
    (made : f (pairOf s.regs r0) = some v) : Sets (onPair f) insn s d (.pair v) :=
  setsPair has (by simp only [firstPair has, Option.bind_eq_bind, Option.bind_some, made])

theorem regSets (has : Has shape insn d r0 r1 r2 imm) {f : Word → Option Double} {v : Double}
    (made : f (s.regs r0) = some v) : Sets (onReg f) insn s d (.pair v) :=
  setsPair has (by simp only [firstReg has, Option.bind_eq_bind, Option.bind_some, made])

theorem regsSet (has : Has .two insn d r0 r1 r2 imm) {f : Word → Word → Option Double} {v : Double}
    (made : f (s.regs r0) (s.regs r1) = some v) : Sets (withRegs f) insn s d (.pair v) :=
  setsPair has (by simp only [firstReg has, secondReg has (.inl rfl), Option.bind_eq_bind, Option.bind_some, made])

theorem accumulateSets (has : Has .three insn d r0 r1 r2 imm) {f : Double → Word → Word → Option Double} {v : Double}
    (made : f (pairOf s.regs r2) (s.regs r0) (s.regs r1) = some v) : Sets (accumulates f) insn s d (.pair v) :=
  setsPair has (by
    simp only [firstReg has, secondReg has (.inr rfl), thirdPair has, Option.bind_eq_bind, Option.bind_some, made])

end Families

section Values

variable (x y z : Double) (a b : Word)

theorem shiftLeftNumber {n : Nat} (short : n < 64) : shl x n = some (BitVec.ofNat 64 (x.toNat * 2 ^ n)) := by
  rw [CShift.shlBelow short]
  congr 1
  apply BitVec.eq_of_toNat_eq
  rw [BitVec.toNat_shiftLeft, BitVec.toNat_ofNat, Nat.shiftLeft_eq]

theorem shiftRightNumber {n : Nat} (short : n < 64) : shr x n = some (BitVec.ofNat 64 (x.toNat / 2 ^ n)) := by
  rw [CShift.shrBelow short]
  congr 1
  apply BitVec.eq_of_toNat_eq
  rw [BitVec.toNat_ushiftRight, BitVec.toNat_ofNat, Nat.shiftRight_eq_div_pow, Nat.mod_eq_of_lt]
  exact Nat.lt_of_le_of_lt (Nat.div_le_self _ _) x.isLt

theorem shiftSignedNumber {n : Nat} (short : n < 64) : sar x n = some (BitVec.ofInt 64 (x.toInt / 2 ^ n)) := by
  rw [CShift.sarBelow short, BitVec.sshiftRight, Int.shiftRight_eq_div_pow]
  rfl

theorem immediateAmount (imm : BitVec 5) : (imm.setWidth 64).toNat = imm.toNat ∧ imm.toNat < 64 := by
  have small := imm.isLt
  rw [BitVec.toNat_setWidth]
  omega

theorem addNumber : libAdd64 x y = some (BitVec.ofInt 64 (x.toInt + y.toInt)) := by
  rw [BitVec.ofInt_add, BitVec.ofInt_toInt, BitVec.ofInt_toInt, libAdd64]

theorem ofIntSub (i j : Int) : BitVec.ofInt 64 (i - j) = BitVec.ofInt 64 i - BitVec.ofInt 64 j := by
  rw [Int.sub_eq_add_neg, BitVec.ofInt_add, BitVec.ofInt_neg, BitVec.sub_eq_add_neg]

theorem subNumber : libSub64 x y = some (BitVec.ofInt 64 (x.toInt - y.toInt)) := by
  rw [ofIntSub, BitVec.ofInt_toInt, BitVec.ofInt_toInt, libSub64]

theorem addImmediate (imm : BitVec 5) : libAdd64 x (imm.signExtend 64) = some (BitVec.ofInt 64 (x.toInt + imm.toInt)) := by
  rw [BitVec.ofInt_add, BitVec.ofInt_toInt, libAdd64]
  rfl

theorem minsNumber : libMins64 x y = some (BitVec.ofInt 64 (min x.toInt y.toInt)) := by
  rw [libMins64, BitVec.slt_eq_decide]
  by_cases less : x.toInt < y.toInt
  · rw [decide_eq_true less, if_pos rfl, min_eq_left (le_of_lt less), BitVec.ofInt_toInt]
  · rw [decide_eq_false less, if_neg (by decide), min_eq_right (not_lt.mp less), BitVec.ofInt_toInt]

theorem maxsNumber : libMaxs64 x y = some (BitVec.ofInt 64 (max x.toInt y.toInt)) := by
  rw [libMaxs64, BitVec.slt_eq_decide]
  by_cases less : y.toInt < x.toInt
  · rw [decide_eq_true less, if_pos rfl, max_eq_left (le_of_lt less), BitVec.ofInt_toInt]
  · rw [decide_eq_false less, if_neg (by decide), max_eq_right (not_lt.mp less), BitVec.ofInt_toInt]

theorem minuNumber : libMinu64 x y = some (BitVec.ofNat 64 (min x.toNat y.toNat)) := by
  rw [libMinu64]
  by_cases less : x < y
  · rw [if_pos less, Nat.min_eq_left (le_of_lt less), BitVec.ofNat_toNat, BitVec.setWidth_eq]
  · rw [if_neg less, Nat.min_eq_right (not_lt.mp less), BitVec.ofNat_toNat, BitVec.setWidth_eq]

theorem maxuNumber : libMaxu64 x y = some (BitVec.ofNat 64 (max x.toNat y.toNat)) := by
  rw [libMaxu64]
  by_cases less : y < x
  · rw [if_pos less, Nat.max_eq_left (le_of_lt less), BitVec.ofNat_toNat, BitVec.setWidth_eq]
  · rw [if_neg less, Nat.max_eq_right (not_lt.mp less), BitVec.ofNat_toNat, BitVec.setWidth_eq]

theorem absNumber : libAbs64 x = some (BitVec.ofInt 64 |x.toInt|) := by
  rw [libAbs64, BitVec.slt_eq_decide, show (0 : Double).toInt = 0 from rfl]
  by_cases negative : x.toInt < 0
  · rw [decide_eq_true negative, if_pos rfl, abs_of_neg negative, BitVec.ofInt_neg, BitVec.ofInt_toInt]
  · rw [decide_eq_false negative, if_neg (by decide), abs_of_nonneg (not_lt.mp negative), BitVec.ofInt_toInt]

/- The bits are counted in two halves. -/
theorem cntNumber : libCnt64 x = some (BitVec.ofNat 32 ((List.range 64).countP x.getLsbD)) := by
  have low : (List.range 32).countP ((x &&& 0xFFFFFFFF).setWidth 32).getLsbD = (List.range 32).countP x.getLsbD := by
    refine List.countP_congr fun k member => ?_
    have small := List.mem_range.mp member
    rw [lowHalf, BitVec.getLsbD_extractLsb']
    simp [small]
  have same : ((x >>> 32 &&& 0xFFFFFFFF).setWidth 32) = x.extractLsb' 32 32 := by
    rw [lowHalf, ← highHalf]
    apply BitVec.eq_of_toNat_eq
    rw [BitVec.extractLsb'_toNat, BitVec.toNat_setWidth, Nat.shiftRight_zero]
  have high : (List.range 32).countP ((x >>> 32 &&& 0xFFFFFFFF).setWidth 32).getLsbD =
      (List.range 32).countP (fun k => x.getLsbD (32 + k)) := by
    refine List.countP_congr fun k member => ?_
    have small := List.mem_range.mp member
    rw [same, BitVec.getLsbD_extractLsb']
    simp [small]
  have all : (List.range 64).countP x.getLsbD =
      (List.range 32).countP x.getLsbD + (List.range 32).countP (fun k => x.getLsbD (32 + k)) := by
    have split : List.range (32 + 32) = List.range 32 ++ (List.range 32).map (32 + ·) := List.range_add
    change (List.range (32 + 32)).countP x.getLsbD = _
    rw [split, List.countP_append, List.countP_map]
    rfl
  rw [libCnt64, builtinPopcount, builtinPopcount, low, high, all, BitVec.ofNat_add, BitVec.add_comm]

theorem getField64Number {bits : Nat} (short : bits < 32) : issGetField64 a 0 bits = some (BitVec.ofNat 64 (a.toNat % 2 ^ bits)) := by
  have bound : a.toNat % 2 ^ bits < 2 ^ 32 := Nat.lt_of_le_of_lt (Nat.mod_le _ _) a.isLt
  simp only [issGetField64, CShift.shrBelow (by decide : 0 < 32), CShift.shlBelow short, Option.bind_eq_bind, Option.bind_some]
  congr 1
  apply BitVec.eq_of_toNat_eq
  rw [BitVec.toNat_setWidth, BitVec.toNat_and, CShift.onesNumber short, BitVec.toNat_ushiftRight, Nat.shiftRight_zero,
    Nat.and_two_pow_sub_one_eq_mod, BitVec.toNat_ofNat]

theorem getSigned64Number (a : Word) {bits : Nat} (some : 0 < bits) (short : bits ≤ 32) :
    issGetSignedValue64 a bits = Option.some (BitVec.ofInt 64 (a.setWidth bits).toInt) := by
  simp only [issGetSignedValue64, CShift.shlBelow (by omega : 64 - bits < 64), CShift.sarBelow (by omega : 64 - bits < 64),
    Option.bind_eq_bind, Option.bind_some]
  congr 1
  change _ = (a.setWidth bits).signExtend 64
  apply BitVec.eq_of_getLsbD_eq
  intro k small
  have sign : (a.setWidth 64 <<< (64 - bits)).msb = a.getLsbD (bits - 1) := by
    rw [BitVec.msb_eq_getLsbD_last, BitVec.getLsbD_shiftLeft, BitVec.getLsbD_setWidth, show 64 - 1 - (64 - bits) = bits - 1 by omega]
    simp [(by omega : bits - 1 < 64), (by omega : 64 ≤ 63 + bits)]
  have top : (a.setWidth bits).msb = a.getLsbD (bits - 1) := by
    rw [BitVec.msb_eq_getLsbD_last, BitVec.getLsbD_setWidth]
    simp [(by omega : bits - 1 < bits)]
  rw [BitVec.getLsbD_sshiftRight, BitVec.getLsbD_signExtend, sign, top]
  by_cases low : k < bits
  · rw [if_pos (by omega), if_pos low, BitVec.getLsbD_shiftLeft, BitVec.getLsbD_setWidth, BitVec.getLsbD_setWidth,
      show 64 - bits + k - (64 - bits) = k by omega]
    simp [small, low, (by omega : 64 - bits + k < 64)]
  · rw [if_neg (by omega), if_neg low]
    simp [small]

theorem sameNumber : (x == y) = decide (x.toNat = y.toNat) := by
  rw [Bool.eq_iff_iff, beq_iff_eq, decide_eq_true_iff, BitVec.toNat_inj]

theorem otherNumber : (x != y) = decide (x.toNat ≠ y.toNat) := by
  rw [bne, sameNumber, decide_not]

theorem macsNumber : libMacs64 z a b = some (BitVec.ofInt 64 (z.toInt + a.toInt * b.toInt)) := by
  rw [BitVec.ofInt_add, BitVec.ofInt_mul, BitVec.ofInt_toInt]
  rfl

theorem msusNumber : libMsus64 z a b = some (BitVec.ofInt 64 (z.toInt - a.toInt * b.toInt)) := by
  rw [ofIntSub, BitVec.ofInt_mul, BitVec.ofInt_toInt]
  rfl

theorem natural (v : Double) : BitVec.ofInt 64 v.toNat = v := by
  rw [BitVec.ofInt_natCast, BitVec.ofNat_toNat, BitVec.setWidth_eq]

theorem macuNumber : libMacu64 z a b = some (BitVec.ofInt 64 (z.toNat + a.toNat * b.toNat)) := by
  rw [BitVec.ofInt_add, BitVec.ofInt_mul, natural, ← extendedNumber, ← extendedNumber, libMacu64]

theorem msuuNumber : libMsuu64 z a b = some (BitVec.ofInt 64 (z.toNat - a.toNat * b.toNat)) := by
  rw [ofIntSub, BitVec.ofInt_mul, natural, ← extendedNumber, ← extendedNumber, libMsuu64]

theorem mulsNumber : libMuls64 a b = some (BitVec.ofInt 64 (a.toInt * b.toInt)) := by
  rw [BitVec.ofInt_mul]
  rfl

theorem muluNumber : libMulu64 a b = some (BitVec.ofNat 64 (a.toNat * b.toNat)) := by
  rw [← BitVec.ofInt_natCast, Int.natCast_mul, BitVec.ofInt_mul, ← extendedNumber, ← extendedNumber, libMulu64]

end Values

section Instructions

variable {insn : Insn} {d r0 r1 r2 : Nat} {imm : BitVec 5}

def Xint64.Agrees (o : Operands) : Xint64 → Prop
  | sllD | srlD | sraD => o.y.toNat < 64
  | pExtwzD => False
  | _ => True

theorem shiftMeetsAmount (s : Cpu) (has : Has .two insn d r0 r1 r2 imm) {f : Double → Double → Option Double} {v : Nat → Double}
    (below : (pairOf s.regs r1).toNat < 64 → f (pairOf s.regs r0) (pairOf s.regs r1) = some (v (pairOf s.regs r1).toNat))
    (beyond : 64 ≤ (pairOf s.regs r1).toNat → f (pairOf s.regs r0) (pairOf s.regs r1) = none) :
    Sets (withPairs f) insn s d (.pair (v ((pairOf s.regs r1).toNat % 64))) ↔ (pairOf s.regs r1).toNat < 64 := by
  constructor
  · intro sets
    by_contra large
    exact pairsFail has (beyond (Nat.le_of_not_lt large)) sets
  · intro short
    rw [Nat.mod_eq_of_lt short]
    exact pairsSet has (below short)

theorem extwzFails (s : Cpu) (has : Has .one insn d r0 r1 r2 imm) (result : Spec.Result) : ¬Sets pExtwzDExec insn s d result := by
  have undefined : issGetField64 (s.regs r0) 0 32 = none := by
    rw [issGetField64, CShift.shrBelow (by decide : 0 < 32), CShift.shlBeyond (le_refl 32)]
    rfl
  simp [Sets, pExtwzDExec, onReg, computes64, firstReg has, undefined]

theorem xint64Meets (op : Xint64) (s : Cpu) (has : Has op.shape insn d r0 r1 r2 imm) :
    Sets op.exec insn s d (Spec.xint64 (operands s r0 r1 r2 imm) op) ↔ op.Agrees (operands s r0 r1 r2 imm) := by
  obtain ⟨amount, short⟩ := immediateAmount imm
  cases op with
  | addD => exact iff_of_true (pairsSet has (addNumber _ _)) trivial
  | subD => exact iff_of_true (pairsSet has (subNumber _ _)) trivial
  | sllD =>
      exact shiftMeetsAmount s has (v := fun n => BitVec.ofNat 64 ((pairOf s.regs r0).toNat * 2 ^ n)) (shiftLeftNumber _)
        CShift.shlBeyond
  | sltD => exact iff_of_true (comparesSet has BitVec.slt_eq_decide) trivial
  | sltuD => exact iff_of_true (comparesSet has BitVec.ult_eq_decide) trivial
  | xorD => exact iff_of_true (pairsSet has rfl) trivial
  | srlD =>
      exact shiftMeetsAmount s has (v := fun n => BitVec.ofNat 64 ((pairOf s.regs r0).toNat / 2 ^ n)) (shiftRightNumber _)
        CShift.shrBeyond
  | sraD =>
      exact shiftMeetsAmount s has (v := fun n => BitVec.ofInt 64 ((pairOf s.regs r0).toInt / 2 ^ n)) (shiftSignedNumber _)
        CShift.sarBeyond
  | orD => exact iff_of_true (pairsSet has rfl) trivial
  | andD => exact iff_of_true (pairsSet has rfl) trivial
  | slliD => exact iff_of_true (uimSets has (by rw [libSll64, amount, shiftLeftNumber _ short]; rfl)) trivial
  | srliD => exact iff_of_true (uimSets has (by rw [libSrl64, amount, shiftRightNumber _ short]; rfl)) trivial
  | sraiD => exact iff_of_true (uimSets has (by rw [libSra64, amount, shiftSignedNumber _ short]; rfl)) trivial
  | addiD => exact iff_of_true (simSets has (addImmediate _ imm)) trivial
  | sltiD =>
      have less : (pairOf s.regs r0).slt ((imm.signExtend 32).signExtend 64) = decide ((pairOf s.regs r0).toInt < imm.toInt) := by
        rw [BitVec.slt_eq_decide, BitVec.toInt_signExtend_of_le (by decide), BitVec.toInt_signExtend_of_le (by decide)]
      refine iff_of_true (setsSingle has ?_) trivial
      simp only [firstPair has, has.signed rfl, Option.bind_eq_bind, Option.bind_some, truth, less]
      rfl
  | sltiuD =>
      have less : (pairOf s.regs r0).ult ((imm.setWidth 32).setWidth 64) = decide ((pairOf s.regs r0).toNat < imm.toNat) := by
        rw [BitVec.ult_eq_decide, BitVec.setWidth_setWidth (by omega), amount]
      refine iff_of_true (setsSingle has ?_) trivial
      simp only [firstPair has, has.unsigned rfl, Option.bind_eq_bind, Option.bind_some, truth, less]
      rfl
  | xoriD => exact iff_of_true (uimSets has rfl) trivial
  | oriD => exact iff_of_true (uimSets has rfl) trivial
  | andiD => exact iff_of_true (uimSets has rfl) trivial
  | pAbsD => exact iff_of_true (pairSets has (absNumber _)) trivial
  | pSeqD => exact iff_of_true (comparesSet has (sameNumber _ _)) trivial
  | pSneD => exact iff_of_true (comparesSet has (otherNumber _ _)) trivial
  | pSletD => exact iff_of_true (comparesSet has BitVec.sle_eq_decide) trivial
  | pSletuD => exact iff_of_true (comparesSet has BitVec.ule_eq_decide) trivial
  | pMinD => exact iff_of_true (pairsSet has (minsNumber _ _)) trivial
  | pMinuD => exact iff_of_true (pairsSet has (minuNumber _ _)) trivial
  | pMaxD => exact iff_of_true (pairsSet has (maxsNumber _ _)) trivial
  | pMaxuD => exact iff_of_true (pairsSet has (maxuNumber _ _)) trivial
  | pCntD =>
      exact iff_of_true (setsSingle has (by simp only [firstPair has, Option.bind_eq_bind, Option.bind_some, cntNumber]; rfl)) trivial
  | pExthsD => exact iff_of_true (regSets has (getSigned64Number _ (by decide) (by decide))) trivial
  | pExthzD => exact iff_of_true (regSets has (getField64Number _ (by decide))) trivial
  | pExtbsD => exact iff_of_true (regSets has (getSigned64Number _ (by decide) (by decide))) trivial
  | pExtbzD => exact iff_of_true (regSets has (getField64Number _ (by decide))) trivial
  | pExtwsD =>
      have whole : _ = Option.some (BitVec.ofInt 64 ((s.regs r0).setWidth 32).toInt) :=
        getSigned64Number (s.regs r0) (by decide) (by decide)
      rw [BitVec.setWidth_eq] at whole
      exact iff_of_true (regSets has whole) trivial
  | pExtwzD => exact iff_of_false (extwzFails s has _) id
  | pMacD => exact iff_of_true (accumulateSets has (macsNumber _ _ _)) trivial
  | pMsuD => exact iff_of_true (accumulateSets has (msusNumber _ _ _)) trivial
  | pMacuD => exact iff_of_true (accumulateSets has (macuNumber _ _ _)) trivial
  | pMsuuD => exact iff_of_true (accumulateSets has (msuuNumber _ _ _)) trivial
  | pMulsD => exact iff_of_true (regsSet has (mulsNumber _ _)) trivial
  | pMuluD => exact iff_of_true (regsSet has (muluNumber _ _)) trivial
  | pMulshD =>
      refine iff_of_true (setsSingle has ?_) trivial
      simp only [firstReg has, secondReg has (.inl rfl), libMuls64, Option.bind_eq_bind, Option.bind_some]
      exact mulhProduct _ _
  | pMuluhD =>
      refine iff_of_true (setsSingle has ?_) trivial
      simp only [firstReg has, secondReg has (.inl rfl), libMulu64, Option.bind_eq_bind, Option.bind_some]
      exact mulhuProduct _ _

def pairsInsn : Insn := threeRegs 4 0 2 4 6

theorem pairsHave (shape : Shape) (registers : shape = .one ∨ shape = .two) : Has shape pairsInsn 2 4 6 1 0 := by
  have real : Real 2 ∧ Real 4 ∧ Real 6 ∧ Real 1 :=
    ⟨⟨by decide, by decide⟩, ⟨by decide, by decide⟩, ⟨by decide, by decide⟩, by decide, by decide⟩
  refine ⟨rfl, rfl, fun _ => rfl, ?_, ?_, ?_, real⟩
  · rintro rfl
    simp at registers
  · rintro rfl
    simp at registers
  · rintro rfl
    simp at registers

theorem xint64MeetsShift : Sets sllDExec pairsInsn (quietCpu fun _ => 0) 2 (Spec.xint64 (operands (quietCpu fun _ => 0) 4 6 1 0) .sllD) :=
  (xint64Meets .sllD (quietCpu fun _ => 0) (pairsHave _ (.inr rfl))).mpr (by
    change (0 : Double).toNat < 64
    decide)

/- The extension of a register that holds five. -/
theorem extensionUndefined : Has Xint64.pExtwzD.shape pairsInsn 2 4 6 1 0 ∧
    ¬Sets pExtwzDExec pairsInsn (quietCpu fun r => if r = 4 then 5 else 0) 2
      (Spec.xint64 (operands (quietCpu fun r => if r = 4 then 5 else 0) 4 6 1 0) .pExtwzD) :=
  ⟨pairsHave _ (.inl rfl), extwzFails _ (pairsHave .one (.inl rfl)) _⟩

end Instructions

end Gvsoc.Isa
