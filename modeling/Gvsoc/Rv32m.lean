import Gvsoc.Rv32iSpec

/-! The multiplications and divisions of `rv32m.hpp`, and that they write what the M extension says. -/
namespace Gvsoc.Isa

def issPerfAccountDependencyStall (s : Cpu) (latency : Nat) : Cpu := { s with insnCycles := s.insnCycles + (latency - 1) }

/- The builtin has no defined result for zero. -/
def builtinClz (ofZero : Nat) (x : Word) : Nat := if x = 0 then ofZero else x.clz.toNat

section Values

def libMulu (a b : Word) : Option Word := some (a * b)

/- The products are made with 64 bits; a signed factor of an unsigned one is converted. -/
def mulhValue (a b : Word) : Option Word := some (((a.signExtend 64 * b.signExtend 64).sshiftRight 32).setWidth 32)

def mulhsuValue (a b : Word) : Option Word := some (((a.signExtend 64 * b.setWidth 64) >>> 32).setWidth 32)

def mulhuValue (a b : Word) : Option Word := some (((a.setWidth 64 * b.setWidth 64) >>> 32).setWidth 32)

def divValue (dividend divider : Word) : Word :=
  if divider = 0 then -1
  else if divider = 1 <<< 31 ∧ dividend = -1 then 0
  else if dividend = 1 <<< 31 ∧ divider = -1 then 1 <<< 31
  else dividend.sdiv divider

def divuValue (dividend divider : Word) : Word := if divider = 0 then -1 else dividend / divider

def remValue (dividend divider : Word) : Word :=
  if divider = 0 then dividend
  else if divider = 1 <<< 31 ∧ dividend = -1 then -1
  else if dividend = 1 <<< 31 ∧ divider = -1 then 0
  else dividend.srem divider

def remuValue (dividend divider : Word) : Word := if divider = 0 then dividend else dividend % divider

end Values

section Handlers

variable (ofZero : Nat)

def divCycles (divider : Word) : Nat :=
  if (0 : Word).sle divider then builtinClz ofZero divider + 3 else builtinClz ofZero (~~~divider + 1) + 2

def divuCycles (divider : Word) : Nat := builtinClz ofZero divider + 3

def divides (value : Word → Word → Word) (cycles : Word → Nat) : Handler := fun insn s => do
  let divider ← regGet insn s 1
  let dividend ← regGet insn s 0
  let s ← regSet insn s 0 (value dividend divider)
  some (issPerfAccountDependencyStall s (cycles divider), insn.next)

def mulExec : Handler := withReg libMulu

def mulhExec : Handler := withReg mulhValue

def mulhsuExec : Handler := withReg mulhsuValue

def mulhuExec : Handler := withReg mulhuValue

def divExec : Handler := divides divValue (divCycles ofZero)

def divuExec : Handler := divides divuValue (divuCycles ofZero)

def remExec : Handler := divides remValue (divCycles ofZero)

def remuExec : Handler := divides remuValue (divuCycles ofZero)

end Handlers

section Table

variable (ofZero : Nat)

namespace R5

def mul : R5 := .new "mul" .r "0000001 ----- ----- 000 ----- 0110011" (fun _ => mulExec)

def mulh : R5 := .new "mulh" .r "0000001 ----- ----- 001 ----- 0110011" (fun _ => mulhExec)

def mulhsu : R5 := .new "mulhsu" .r "0000001 ----- ----- 010 ----- 0110011" (fun _ => mulhsuExec)

def mulhu : R5 := .new "mulhu" .r "0000001 ----- ----- 011 ----- 0110011" (fun _ => mulhuExec)

def div : R5 := .new "div" .r "0000001 ----- ----- 100 ----- 0110011" (fun _ => divExec ofZero)

def divu : R5 := .new "divu" .r "0000001 ----- ----- 101 ----- 0110011" (fun _ => divuExec ofZero)

def rem : R5 := .new "rem" .r "0000001 ----- ----- 110 ----- 0110011" (fun _ => remExec ofZero)

def remu : R5 := .new "remu" .r "0000001 ----- ----- 111 ----- 0110011" (fun _ => remuExec ofZero)

end R5

def rv32m : List R5 := [.mul, .mulh, .mulhsu, .mulhu, .div ofZero, .divu ofZero, .rem ofZero, .remu ofZero]

end Table

namespace Spec

/- The extension on numbers: the divisions round towards zero, and the most negative number divided by minus one
overflows. -/
def mulDiv (funct3 : BitVec 3) (a b : Word) : Word :=
  if funct3 = 0b000#3 then BitVec.ofInt 32 (a.toInt * b.toInt)
  else if funct3 = 0b001#3 then BitVec.ofInt 32 (a.toInt * b.toInt / 2 ^ 32)
  else if funct3 = 0b010#3 then BitVec.ofInt 32 (a.toInt * b.toNat / 2 ^ 32)
  else if funct3 = 0b011#3 then BitVec.ofNat 32 (a.toNat * b.toNat / 2 ^ 32)
  else if funct3 = 0b100#3 then
    if b.toInt = 0 then BitVec.ofInt 32 (-1)
    else if a.toInt = -2 ^ 31 ∧ b.toInt = -1 then BitVec.ofInt 32 (-2 ^ 31)
    else BitVec.ofInt 32 (a.toInt.tdiv b.toInt)
  else if funct3 = 0b101#3 then
    if b.toNat = 0 then BitVec.ofNat 32 (2 ^ 32 - 1) else BitVec.ofNat 32 (a.toNat / b.toNat)
  else if funct3 = 0b110#3 then
    if b.toInt = 0 then a
    else if a.toInt = -2 ^ 31 ∧ b.toInt = -1 then BitVec.ofInt 32 0
    else BitVec.ofInt 32 (a.toInt.tmod b.toInt)
  else if b.toNat = 0 then a else BitVec.ofNat 32 (a.toNat % b.toNat)

end Spec

section Products

theorem upperHalf (z : Int) : ((BitVec.ofInt 64 z) >>> 32).setWidth 32 = BitVec.ofInt 32 (z / 2 ^ 32) := by
  apply BitVec.eq_of_toNat_eq
  rw [BitVec.toNat_setWidth, BitVec.toNat_ushiftRight, Nat.shiftRight_eq_div_pow, BitVec.toNat_ofInt, BitVec.toNat_ofInt]
  omega

theorem upperHalfSigned (x : BitVec 64) : (x.sshiftRight 32).setWidth 32 = (x >>> 32).setWidth 32 := by
  apply BitVec.eq_of_getLsbD_eq
  intro k small
  rw [BitVec.getLsbD_setWidth, BitVec.getLsbD_setWidth, BitVec.getLsbD_sshiftRight, BitVec.getLsbD_ushiftRight]
  have inside : ¬64 ≤ k := by omega
  simp [inside, (by omega : 32 + k < 64)]

theorem extendedNumber (a : Word) : a.setWidth 64 = BitVec.ofInt 64 a.toNat := by
  apply BitVec.eq_of_toNat_eq
  rw [BitVec.toNat_setWidth, BitVec.ofInt_natCast, BitVec.toNat_ofNat]

end Products

section Functions

open Spec

variable (a b : Word)

theorem muluProduct : libMulu a b = some (mulDiv 0b000#3 a b) := by
  change some (a * b) = some (BitVec.ofInt 32 (a.toInt * b.toInt))
  rw [BitVec.ofInt_mul, BitVec.ofInt_toInt, BitVec.ofInt_toInt]

theorem mulhProduct : mulhValue a b = some (mulDiv 0b001#3 a b) := by
  change some _ = some (BitVec.ofInt 32 (a.toInt * b.toInt / 2 ^ 32))
  rw [upperHalfSigned, BitVec.signExtend, BitVec.signExtend, ← BitVec.ofInt_mul, upperHalf]

theorem mulhsuProduct : mulhsuValue a b = some (mulDiv 0b010#3 a b) := by
  change some _ = some (BitVec.ofInt 32 (a.toInt * b.toNat / 2 ^ 32))
  rw [BitVec.signExtend, extendedNumber, ← BitVec.ofInt_mul, upperHalf]

theorem mulhuProduct : mulhuValue a b = some (mulDiv 0b011#3 a b) := by
  change some _ = some (BitVec.ofNat 32 (a.toNat * b.toNat / 2 ^ 32))
  rw [extendedNumber, extendedNumber, ← BitVec.ofInt_mul, upperHalf, ← BitVec.ofInt_natCast]
  rfl

theorem mostNegative : a = 1 <<< 31 ↔ a.toInt = -2 ^ 31 := by
  rw [← BitVec.toInt_inj]
  rfl

theorem minusOne : a = -1 ↔ a.toInt = -1 := by
  rw [← BitVec.toInt_inj]
  rfl

theorem zeroNumber : a = 0 ↔ a.toInt = 0 := by
  rw [← BitVec.toInt_inj]
  rfl

theorem zeroNatural : a = 0 ↔ a.toNat = 0 := by
  rw [← BitVec.toNat_inj]
  rfl

theorem divQuotient : divValue a b = mulDiv 0b100#3 a b := by
  change divValue a b = if b.toInt = 0 then BitVec.ofInt 32 (-1)
    else if a.toInt = -2 ^ 31 ∧ b.toInt = -1 then BitVec.ofInt 32 (-2 ^ 31) else BitVec.ofInt 32 (a.toInt.tdiv b.toInt)
  unfold divValue
  by_cases none : b = 0
  · rw [if_pos none, if_pos ((zeroNumber b).mp none)]
    rfl
  rw [if_neg none, if_neg (mt (zeroNumber b).mpr none)]
  by_cases small : b = 1 <<< 31 ∧ a = -1
  · obtain ⟨rfl, rfl⟩ := small
    rfl
  rw [if_neg small]
  by_cases overflow : a = 1 <<< 31 ∧ b = -1
  · obtain ⟨rfl, rfl⟩ := overflow
    rfl
  have exact : a ≠ BitVec.intMin 32 ∨ b ≠ -1#32 := by
    by_contra both
    rw [not_or, not_not, not_not] at both
    exact overflow both
  rw [if_neg overflow, if_neg (mt (and_congr (mostNegative a) (minusOne b)).mpr overflow),
    ← BitVec.toInt_sdiv_of_ne_or_ne a b exact, BitVec.ofInt_toInt]

theorem divuQuotient : divuValue a b = mulDiv 0b101#3 a b := by
  change divuValue a b = if b.toNat = 0 then BitVec.ofNat 32 (2 ^ 32 - 1) else BitVec.ofNat 32 (a.toNat / b.toNat)
  unfold divuValue
  by_cases none : b = 0
  · rw [if_pos none, if_pos ((zeroNatural b).mp none)]
    rfl
  · rw [if_neg none, if_neg (mt (zeroNatural b).mpr none), ← BitVec.toNat_udiv, BitVec.ofNat_toNat, BitVec.setWidth_eq]

theorem remRemainder : remValue a b = mulDiv 0b110#3 a b := by
  change remValue a b = if b.toInt = 0 then a
    else if a.toInt = -2 ^ 31 ∧ b.toInt = -1 then BitVec.ofInt 32 0 else BitVec.ofInt 32 (a.toInt.tmod b.toInt)
  unfold remValue
  by_cases none : b = 0
  · rw [if_pos none, if_pos ((zeroNumber b).mp none)]
  rw [if_neg none, if_neg (mt (zeroNumber b).mpr none)]
  by_cases small : b = 1 <<< 31 ∧ a = -1
  · obtain ⟨rfl, rfl⟩ := small
    rfl
  rw [if_neg small]
  by_cases overflow : a = 1 <<< 31 ∧ b = -1
  · obtain ⟨rfl, rfl⟩ := overflow
    rfl
  rw [if_neg overflow, if_neg (mt (and_congr (mostNegative a) (minusOne b)).mpr overflow), ← BitVec.toInt_srem,
    BitVec.ofInt_toInt]

theorem remuRemainder : remuValue a b = mulDiv 0b111#3 a b := by
  change remuValue a b = if b.toNat = 0 then a else BitVec.ofNat 32 (a.toNat % b.toNat)
  unfold remuValue
  by_cases none : b = 0
  · rw [if_pos none, if_pos ((zeroNatural b).mp none)]
  · rw [if_neg none, if_neg (mt (zeroNatural b).mpr none), ← BitVec.toNat_umod, BitVec.ofNat_toNat, BitVec.setWidth_eq]

end Functions

section Instructions

open Spec

def MultipliesDivides (r : R5) (perf : Bool) (op : Word) (slot : Slot) (s : Cpu) : Prop :=
  ∃ after, r.run perf op slot s = some (after, insnCacheGet (slot.addr + 4)) ∧
    after.regs = write s.regs (rd op) (mulDiv (funct3 op) (s.regs (rs1 op)) (s.regs (rs2 op)))

variable {instr : Decoder.Instr} {op : Word} {slot : Slot} {s : Cpu} {perf : Bool}

theorem multiplies (code : BitVec 3) {f : Word → Word → Option Word} (shape : instr.len = 32 ∧ Fixes instr 12 code)
    (same : ∀ a b, f a b = some (mulDiv code a b)) (fits : instr.Matches op.toNat) :
    MultipliesDivides ⟨instr, Format.r.args, some, fun _ => withReg f⟩ perf op slot s := by
  have three : funct3 op = code := patternField 12 fits shape.2
  refine ⟨issSetReg s (rd op) (mulDiv code (s.regs (rs1 op)) (s.regs (rs2 op))), ?_, ?_⟩
  · simp only [R5.run, R5.runSized, shape.1, decodeR, Option.bind_eq_bind, Option.bind_some]
    refine computesWrites ?_ rfl
    simp [regGet, threeRegs, same]
  · rw [setRegWrite, three]

theorem divideRuns (code : BitVec 3) {value : Word → Word → Word} {cycles : Word → Nat}
    (shape : instr.len = 32 ∧ Fixes instr 12 code) (same : ∀ a b, value a b = mulDiv code a b)
    (fits : instr.Matches op.toNat) :
    MultipliesDivides ⟨instr, Format.r.args, some, fun _ => divides value cycles⟩ perf op slot s := by
  have three : funct3 op = code := patternField 12 fits shape.2
  refine ⟨issPerfAccountDependencyStall (issSetReg s (rd op) (mulDiv code (s.regs (rs1 op)) (s.regs (rs2 op))))
    (cycles (s.regs (rs2 op))), ?_, ?_⟩
  · simp only [R5.run, R5.runSized, shape.1, decodeR, Option.bind_eq_bind, Option.bind_some]
    simp [divides, regGet, regSet, threeRegs, plain, same]
  · rw [three]
    exact setRegWrite s _ _

theorem rv32mMeetsSpec (ofZero : Nat) {r : R5} (entry : r ∈ rv32m ofZero) {op : Word} (fits : r.instr.Matches op.toNat)
    (slot : Slot) (s : Cpu) (perf : Bool) : MultipliesDivides r perf op slot s := by
  simp only [rv32m, List.mem_cons, List.not_mem_nil, or_false] at entry
  rcases entry with rfl | rfl | rfl | rfl | rfl | rfl | rfl | rfl
  · exact multiplies 0b000#3 (by decide +kernel) muluProduct fits
  · exact multiplies 0b001#3 (by decide +kernel) mulhProduct fits
  · exact multiplies 0b010#3 (by decide +kernel) mulhsuProduct fits
  · exact multiplies 0b011#3 (by decide +kernel) mulhuProduct fits
  · exact divideRuns 0b100#3 (by decide +kernel) divQuotient fits
  · exact divideRuns 0b101#3 (by decide +kernel) divuQuotient fits
  · exact divideRuns 0b110#3 (by decide +kernel) remRemainder fits
  · exact divideRuns 0b111#3 (by decide +kernel) remuRemainder fits

def divideOpcode : Word := 0b0000001_00010_00001_100_00011_0110011

def overflowing : Cpu := quietCpu (fun reg => if reg = 1 then 0x80000000 else if reg = 2 then 0xffffffff else 0)

theorem rv32mMeetsSpecOverflow : MultipliesDivides (R5.div 31) true divideOpcode 0 overflowing :=
  rv32mMeetsSpec 31 (by simp [rv32m]) (by decide +kernel) 0 overflowing true

end Instructions

end Gvsoc.Isa
