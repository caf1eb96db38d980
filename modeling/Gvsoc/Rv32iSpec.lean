import Gvsoc.Rv32i
import Mathlib.Tactic.IntervalCases

/-! RV32I: what the specification says an opcode does to the registers and where the next instruction is, and that the
decoded instructions do that, up to the shifts whose amount is a register. -/
namespace Gvsoc.Isa

namespace Spec

section Fields

variable (op : Word)

def major : BitVec 7 := op.extractLsb' 0 7

def rd : Nat := (op.extractLsb' 7 5).toNat

def funct3 : BitVec 3 := op.extractLsb' 12 3

def rs1 : Nat := (op.extractLsb' 15 5).toNat

def rs2 : Nat := (op.extractLsb' 20 5).toNat

def funct7 : BitVec 7 := op.extractLsb' 25 7

def immI : Word := (op.extractLsb' 20 12).signExtend 32

def immS : Word := (op.extractLsb' 25 7 ++ op.extractLsb' 7 5).signExtend 32

def immB : Word :=
  (op.extractLsb' 31 1 ++ op.extractLsb' 7 1 ++ op.extractLsb' 25 6 ++ op.extractLsb' 8 4 ++ 0#1).signExtend 32

def immU : Word := op.extractLsb' 12 20 ++ 0#12

def immJ : Word :=
  (op.extractLsb' 31 1 ++ op.extractLsb' 12 8 ++ op.extractLsb' 20 1 ++ op.extractLsb' 21 10 ++ 0#1).signExtend 32

def shamt : Word := (op.extractLsb' 20 5).setWidth 32

end Fields

abbrev Regs := Nat → Word

def write (regs : Regs) (rd : Nat) (value : Word) : Regs := if rd = 0 then regs else Function.update regs rd value

/- `alternate` is set for the subtraction and the arithmetic shift. A shift uses the low five bits of its amount. -/
def alu (funct3 : BitVec 3) (alternate : Bool) (a b : Word) : Word :=
  if funct3 = 0b000#3 then if alternate then a - b else a + b
  else if funct3 = 0b001#3 then a <<< (b.toNat % 32)
  else if funct3 = 0b010#3 then if a.toInt < b.toInt then 1 else 0
  else if funct3 = 0b011#3 then if a.toNat < b.toNat then 1 else 0
  else if funct3 = 0b100#3 then a ^^^ b
  else if funct3 = 0b101#3 then if alternate then a.sshiftRight (b.toNat % 32) else a >>> (b.toNat % 32)
  else if funct3 = 0b110#3 then a ||| b
  else a &&& b

def takes (funct3 : BitVec 3) (a b : Word) : Option Bool :=
  if funct3 = 0b000#3 then some (a = b)
  else if funct3 = 0b001#3 then some (a ≠ b)
  else if funct3 = 0b100#3 then some (a.toInt < b.toInt)
  else if funct3 = 0b101#3 then some (b.toInt ≤ a.toInt)
  else if funct3 = 0b110#3 then some (a.toNat < b.toNat)
  else if funct3 = 0b111#3 then some (b.toNat ≤ a.toNat)
  else none

def isShift (funct3 : BitVec 3) : Bool := funct3 = 0b001#3 || funct3 = 0b101#3

/- The bits of `funct7` that an instruction with this `funct3` may have. -/
def alternate (funct3 : BitVec 3) (funct7 : BitVec 7) (subtracts : Bool) : Option Bool :=
  if funct7 = 0b0000000#7 then some false
  else if funct7 = 0b0100000#7 ∧ (funct3 = 0b101#3 ∨ funct3 = 0b000#3 ∧ subtracts) then some true
  else none

def step (op addr : Word) (regs : Regs) : Option (Regs × Word) :=
  let result (value : Word) := some (write regs (rd op) value, addr + 4)
  if major op = 0b0110111#7 then result (immU op)
  else if major op = 0b0010111#7 then result (addr + immU op)
  else if major op = 0b1101111#7 then some (write regs (rd op) (addr + 4), addr + immJ op)
  else if major op = 0b1100111#7 then
    if funct3 op = 0b000#3 then some (write regs (rd op) (addr + 4), (regs (rs1 op) + immI op) &&& ~~~1) else none
  else if major op = 0b1100011#7 then
    (takes (funct3 op) (regs (rs1 op)) (regs (rs2 op))).map (fun taken => (regs, if taken then addr + immB op else addr + 4))
  else if major op = 0b0010011#7 then
    if isShift (funct3 op) then
      (alternate (funct3 op) (funct7 op) false).bind (fun alternate => result (alu (funct3 op) alternate (regs (rs1 op)) (shamt op)))
    else result (alu (funct3 op) false (regs (rs1 op)) (immI op))
  else if major op = 0b0110011#7 then
    (alternate (funct3 op) (funct7 op) true).bind (fun alternate => result (alu (funct3 op) alternate (regs (rs1 op)) (regs (rs2 op))))
  else none

end Spec

section Decoded

open Spec

variable {op : Word}

theorem simI : decodeRanges op [⟨20, 12, 0⟩] true = some (immI op) := by
  refine decodeSigned (by decide) rfl (by decide) (by decide) (gatherSame (by decide) fun k small => ?_)
  simp [Range.reads, small]

theorem simS : decodeRanges op [⟨7, 5, 0⟩, ⟨25, 7, 5⟩] true = some (immS op) := by
  refine decodeSigned (by decide) rfl (by decide) (by decide) (gatherSame (by decide) fun k small => ?_)
  simp only [Range.reads, List.any_cons, List.any_nil, BitVec.getLsbD_append, BitVec.getLsbD_extractLsb']
  interval_cases k <;> simp

theorem simB : decodeRanges op [⟨7, 1, 11⟩, ⟨8, 4, 1⟩, ⟨25, 6, 5⟩, ⟨31, 1, 12⟩] true = some (immB op) := by
  refine decodeSigned (by decide) rfl (by decide) (by decide) (gatherSame (by decide) fun k small => ?_)
  simp only [Range.reads, List.any_cons, List.any_nil, BitVec.getLsbD_append, BitVec.getLsbD_extractLsb', BitVec.getLsbD_zero]
  interval_cases k <;> simp

theorem simJ : decodeRanges op [⟨12, 8, 12⟩, ⟨20, 1, 11⟩, ⟨21, 10, 1⟩, ⟨31, 1, 20⟩] true = some (immJ op) := by
  refine decodeSigned (by decide) rfl (by decide) (by decide) (gatherSame (by decide) fun k small => ?_)
  simp only [Range.reads, List.any_cons, List.any_nil, BitVec.getLsbD_append, BitVec.getLsbD_extractLsb', BitVec.getLsbD_zero]
  interval_cases k <;> simp

theorem uimU : decodeRanges op [⟨12, 20, 12⟩] false = some (immU op) := by
  have same : (gather op [⟨12, 20, 12⟩]).setWidth 32 = immU op := by
    refine gatherSame (by decide) fun k small => ?_
    simp only [immU, Range.reads, List.any_cons, List.any_nil, BitVec.getLsbD_append, BitVec.getLsbD_extractLsb', BitVec.getLsbD_zero]
    interval_cases k <;> simp
  rw [decodeUnsigned (by decide), ← same, BitVec.setWidth_eq]

theorem uimShamt : decodeRanges op [⟨20, 5, 0⟩] false = some (shamt op) := by
  rw [decodeUnsigned (by decide)]
  simp [gather, shamt]

end Decoded

section Instructions

variable (size : Nat) (slot : Slot)

def plain : Insn := { slot, size, next := insnCacheGet (slot.addr + BitVec.ofNat 32 size) }

def threeRegs (rd rs1 rs2 : Nat) : Insn :=
  { plain size slot with
    outRegs := Function.update (fun _ => none) 0 (some rd)
    inRegs := Function.update (Function.update (fun _ => none) 0 (some rs1)) 1 (some rs2) }

def twoRegsSigned (rd rs1 : Nat) (imm : Word) : Insn :=
  { plain size slot with
    outRegs := Function.update (fun _ => none) 0 (some rd)
    inRegs := Function.update (fun _ => none) 0 (some rs1)
    sim := Function.update (fun _ => none) 0 (some imm) }

def twoRegsUnsigned (rd rs1 : Nat) (imm : Word) : Insn :=
  { plain size slot with
    outRegs := Function.update (fun _ => none) 0 (some rd)
    inRegs := Function.update (fun _ => none) 0 (some rs1)
    uim := Function.update (fun _ => none) 0 (some imm) }

def sourcesSigned (rs1 rs2 : Nat) (imm : Word) : Insn :=
  { plain size slot with
    inRegs := Function.update (Function.update (fun _ => none) 0 (some rs1)) 1 (some rs2)
    sim := Function.update (fun _ => none) 0 (some imm) }

def targetUnsigned (rd : Nat) (imm : Word) : Insn :=
  { plain size slot with
    outRegs := Function.update (fun _ => none) 0 (some rd)
    uim := Function.update (fun _ => none) 0 (some imm) }

def targetSigned (rd : Nat) (imm : Word) : Insn :=
  { plain size slot with
    outRegs := Function.update (fun _ => none) 0 (some rd)
    sim := Function.update (fun _ => none) 0 (some imm) }

end Instructions

section Decoded

open Spec

variable {op : Word} (size : Nat) (decode : Insn → Option Insn) (slot : Slot)

theorem decodeR : decodeInsn size Format.r.args decode slot op = decode (threeRegs size slot (rd op) (rs1 op) (rs2 op)) := by
  simp [decodeFew, Format.args, Format.out, Format.input, decodeArg, decodeRegField, threeRegs, plain, rd, rs1, rs2]

theorem decodeI : decodeInsn size Format.i.args decode slot op = decode (twoRegsSigned size slot (rd op) (rs1 op) (immI op)) := by
  simp [decodeFew, Format.args, Format.out, Format.input, decodeArg, decodeRegField, Info.rangeSet, simI, twoRegsSigned, plain, rd, rs1]

theorem decodeI1u : decodeInsn size Format.i1u.args decode slot op = decode (twoRegsUnsigned size slot (rd op) (rs1 op) (shamt op)) := by
  simp [decodeFew, Format.args, Format.out, Format.input, decodeArg, decodeRegField, Info.rangeSet, uimShamt, twoRegsUnsigned, plain, rd, rs1]

theorem decodeSb : decodeInsn size Format.sb.args decode slot op = decode (sourcesSigned size slot (rs1 op) (rs2 op) (immB op)) := by
  simp [decodeFew, Format.args, Format.input, decodeArg, decodeRegField, Info.rangeSet, simB, sourcesSigned, plain, rs1, rs2]

theorem decodeU : decodeInsn size Format.u.args decode slot op = decode (targetUnsigned size slot (rd op) (immU op)) := by
  simp [decodeFew, Format.args, Format.out, decodeArg, decodeRegField, Info.rangeSet, uimU, targetUnsigned, plain, rd]

theorem decodeUj : decodeInsn size Format.uj.args decode slot op = decode (targetSigned size slot (rd op) (immJ op)) := by
  simp [decodeFew, Format.args, Format.out, decodeArg, decodeRegField, Info.rangeSet, simJ, targetSigned, plain, rd]

theorem decodeL : decodeInsn size Format.l.args decode slot op = decode (twoRegsSigned size slot (rd op) (rs1 op) (immI op)) := by
  simp [decodeFew, Format.args, Format.out, decodeArg, decodeRegField, decodeInfo, simI, twoRegsSigned, plain, rd, rs1]

theorem decodeS : decodeInsn size Format.s.args decode slot op = decode (sourcesSigned size slot (rs1 op) (rs2 op) (immS op)) := by
  simp [decodeFew, Format.args, Format.input, decodeArg, decodeRegField, decodeInfo, simS, sourcesSigned, plain, rs1, rs2,
    Function.update_comm (show (1 : Nat) ≠ 0 by decide)]

theorem decodeZ : decodeInsn size Format.z.args decode slot op = decode (plain size slot) := by
  simp [decodeFew, Format.args, plain]

end Decoded

section Addresses

def Even (pc : Word) : Prop := pc.toNat % 2 = 0

theorem addrNumber (slot : Slot) : slot.addr.toNat = 2 * slot.toNat := by
  rw [Slot.addr, BitVec.toNat_append, BitVec.toNat_ofNat, Nat.or_zero, Nat.shiftLeft_eq]
  omega

theorem addrGet (pc : Word) : (insnCacheGet pc).addr = pc &&& ~~~1 := by
  apply BitVec.eq_of_getLsbD_eq
  intro k small
  have one : (1 : Word).getLsbD k = decide (k = 0) := by
    rw [show (1 : Word) = 1#32 from rfl, BitVec.getLsbD_one]
    simp
  simp only [Slot.addr, insnCacheGet, BitVec.getLsbD_append, BitVec.getLsbD_extractLsb', BitVec.getLsbD_and, BitVec.getLsbD_not, one]
  rcases Nat.eq_zero_or_pos k with rfl | positive
  · simp
  · simp [small, show ¬ k < 1 by omega, show k - 1 < 31 by omega, show 1 + (k - 1) = k by omega, show k ≠ 0 by omega]

theorem addrGetEven {pc : Word} (even : Even pc) : (insnCacheGet pc).addr = pc := by
  have bound := pc.isLt
  apply BitVec.eq_of_toNat_eq
  rw [addrNumber, insnCacheGet, BitVec.extractLsb'_toNat, Nat.shiftRight_eq_div_pow]
  unfold Even at even
  omega

theorem evenAddr (slot : Slot) : Even slot.addr := by
  rw [Even, addrNumber]
  omega

theorem evenAdd {a b : Word} (first : Even a) (second : Even b) : Even (a + b) := by
  unfold Even at *
  rw [BitVec.toNat_add]
  omega

theorem evenExtend {n : Nat} (value : BitVec n) : Even ((value ++ 0#1).signExtend 32) := by
  have low : ((value ++ 0#1).signExtend 32).getLsbD 0 = false := by
    rw [BitVec.getLsbD_signExtend, BitVec.getLsbD_append]
    simp
  have number : ((value ++ 0#1).signExtend 32).toNat.testBit 0 = false := by
    rw [BitVec.testBit_toNat, low]
  simpa [Even, Nat.testBit_zero] using number

end Addresses

def Computes (r : R5) (perf : Bool) (op : Word) (slot : Slot) (s : Cpu) : Prop :=
  ∃ after next, r.run perf op slot s = some (after, next) ∧
    Spec.step op slot.addr s.regs = some (after.regs, Slot.addr next) ∧ after.regs 0 = 0

def AmountFits (op : Word) (regs : Spec.Regs) : Prop :=
  Spec.major op = 0b0110011#7 → Spec.isShift (Spec.funct3 op) = true → (regs (Spec.rs2 op)).toNat < 32

def Fixes (instr : Decoder.Instr) (start : Nat) {len : Nat} (value : BitVec len) : Prop :=
  ∀ k, k < len → instr.fixed (start + k) = some (value.getLsbD k)

instance (instr : Decoder.Instr) (start : Nat) {len : Nat} (value : BitVec len) : Decidable (Fixes instr start value) :=
  inferInstanceAs (Decidable (∀ k, k < len → _))

section Families

open Spec

variable {instr : Decoder.Instr} {op : Word} {slot : Slot} {s : Cpu} {perf : Bool}

theorem setRegWrite (s : Cpu) (reg : Nat) (value : Word) : (issSetReg s reg value).regs = write s.regs reg value := by
  unfold issSetReg write
  by_cases zero : reg = 0
  · simp [zero]
  · simp [zero]

theorem writeZero {regs : Regs} (zero : regs 0 = 0) (reg : Nat) (value : Word) : write regs reg value 0 = 0 := by
  unfold write
  split_ifs with none
  · exact zero
  · rw [Function.update_of_ne (Ne.symm none), zero]

theorem computesWrites {value : Insn → Cpu → Option Word} {insn : Insn} {d : Nat} {v : Word} (made : value insn s = some v)
    (target : insn.outRegs 0 = some d) : computes value insn s = some (issSetReg s d v, insn.next) := by
  simp [computes, regSet, made, target]

theorem nextAddr (slot : Slot) : (insnCacheGet (slot.addr + BitVec.ofNat 32 4)).addr = slot.addr + 4 :=
  addrGetEven (evenAdd (evenAddr slot) (by rfl))

theorem computesResult {r : R5} {v : Word} (zero : s.regs 0 = 0)
    (ran : r.run perf op slot s = some (issSetReg s (rd op) v, insnCacheGet (slot.addr + BitVec.ofNat 32 4)))
    (told : Spec.step op slot.addr s.regs = some (write s.regs (rd op) v, slot.addr + 4)) : Computes r perf op slot s := by
  refine ⟨_, _, ran, ?_, ?_⟩
  · rw [told, setRegWrite, nextAddr]
  · rw [setRegWrite]
    exact writeZero zero _ _

theorem unlessShift {P : Prop} (holds : P) (other : major op ≠ 0b0110011#7 ∨ isShift (funct3 op) = false) (regs : Regs) :
    P ↔ AmountFits op regs := by
  refine iff_of_true holds (fun register shift => ?_)
  rcases other with differs | not
  · contradiction
  · rw [not] at shift
    contradiction

theorem immediateMeets (code : BitVec 3) {f : Word → Word → Option Word}
    (shape : instr.len = 32 ∧ Fixes instr 0 0b0010011#7 ∧ Fixes instr 12 code) (kind : isShift code = false)
    (same : ∀ a b, f a b = some (alu code false a b)) (fits : instr.Matches op.toNat) (zero : s.regs 0 = 0) :
    Computes ⟨instr, Format.i.args, some, fun _ => withSim f⟩ perf op slot s ↔ AmountFits op s.regs := by
  obtain ⟨length, low, middle⟩ := shape
  have opcode : major op = 0b0010011#7 := patternField 0 fits low
  have three : funct3 op = code := patternField 12 fits middle
  refine unlessShift (computesResult (v := alu code false (s.regs (rs1 op)) (immI op)) zero ?_ ?_) (.inl (by simp [opcode])) _
  · simp only [R5.run, R5.runSized, length, decodeI, Option.bind_eq_bind, Option.bind_some]
    refine computesWrites ?_ rfl
    simp [regGet, twoRegsSigned, same]
  · simp [Spec.step, opcode, three, kind]

theorem shamtBelow (op : Word) : (shamt op).toNat < 32 := by
  rw [shamt, BitVec.toNat_setWidth]
  omega

theorem shiftMeets (code : BitVec 3) (upper : BitVec 7) (other : Bool) {f : Word → Word → Option Word}
    (shape : instr.len = 32 ∧ Fixes instr 0 0b0010011#7 ∧ Fixes instr 12 code ∧ Fixes instr 25 upper) (kind : isShift code = true)
    (variant : alternate code upper false = some other)
    (same : ∀ a b : Word, f a b = if isShift code = true ∧ 32 ≤ b.toNat then none else some (alu code other a b))
    (fits : instr.Matches op.toNat) (zero : s.regs 0 = 0) :
    Computes ⟨instr, Format.i1u.args, some, fun _ => withUim f⟩ perf op slot s ↔ AmountFits op s.regs := by
  obtain ⟨length, low, middle, high⟩ := shape
  have opcode : major op = 0b0010011#7 := patternField 0 fits low
  have three : funct3 op = code := patternField 12 fits middle
  have seven : funct7 op = upper := patternField 25 fits high
  refine unlessShift (computesResult (v := alu code other (s.regs (rs1 op)) (shamt op)) zero ?_ ?_) (.inl (by simp [opcode])) _
  · simp only [R5.run, R5.runSized, length, decodeI1u, Option.bind_eq_bind, Option.bind_some]
    refine computesWrites ?_ rfl
    simp [regGet, twoRegsUnsigned, same, not_le.mpr (shamtBelow op)]
  · simp [Spec.step, opcode, three, seven, kind, variant]

theorem registerMeets (code : BitVec 3) (upper : BitVec 7) (other : Bool) {f : Word → Word → Option Word}
    (shape : instr.len = 32 ∧ Fixes instr 0 0b0110011#7 ∧ Fixes instr 12 code ∧ Fixes instr 25 upper)
    (variant : alternate code upper true = some other)
    (same : ∀ a b : Word, f a b = if isShift code = true ∧ 32 ≤ b.toNat then none else some (alu code other a b))
    (fits : instr.Matches op.toNat) (zero : s.regs 0 = 0) :
    Computes ⟨instr, Format.r.args, some, fun _ => withReg f⟩ perf op slot s ↔ AmountFits op s.regs := by
  obtain ⟨length, low, middle, high⟩ := shape
  have opcode : major op = 0b0110011#7 := patternField 0 fits low
  have three : funct3 op = code := patternField 12 fits middle
  have seven : funct7 op = upper := patternField 25 fits high
  constructor
  · intro computes register shift
    by_contra large
    obtain ⟨after, next, ran, -⟩ := computes
    simp only [R5.run, R5.runSized, length, decodeR, Option.bind_eq_bind, Option.bind_some, withReg, Isa.computes] at ran
    rw [three] at shift
    simp [regGet, threeRegs, same, shift, not_lt.mp large] at ran
  · intro below
    have inside : ¬ (isShift code = true ∧ 32 ≤ (s.regs (rs2 op)).toNat) := by
      rintro ⟨shift, large⟩
      rw [← three] at shift
      have small := below opcode shift
      omega
    refine computesResult (v := alu code other (s.regs (rs1 op)) (s.regs (rs2 op))) zero ?_ ?_
    · simp only [R5.run, R5.runSized, length, decodeR, Option.bind_eq_bind, Option.bind_some]
      refine computesWrites ?_ rfl
      simp [regGet, threeRegs, same, inside]
    · simp [Spec.step, opcode, three, seven, variant]

theorem accountRegs (perf : Bool) (s : Cpu) (event : Pcer) : (account perf s event).regs = s.regs := by
  unfold account issPccrAccountEvent
  split_ifs <;> rfl

theorem branchMeets (code : BitVec 3) {f : Word → Word → Bool}
    (shape : instr.len = 32 ∧ Fixes instr 0 0b1100011#7 ∧ Fixes instr 12 code) (same : ∀ a b, takes code a b = some (f a b))
    (fits : instr.Matches op.toNat) (zero : s.regs 0 = 0) :
    Computes ⟨instr, Format.sb.args, bxxDecode, bxxExec f⟩ perf op slot s ↔ AmountFits op s.regs := by
  obtain ⟨length, low, middle⟩ := shape
  have opcode : major op = 0b1100011#7 := patternField 0 fits low
  have three : funct3 op = code := patternField 12 fits middle
  have target : (insnCacheGet (slot.addr + immB op)).addr = slot.addr + immB op := addrGetEven (evenAdd (evenAddr slot) (evenExtend _))
  refine unlessShift ?_ (.inl (by simp [opcode])) _
  simp only [Computes, R5.run, R5.runSized, length, decodeSb, Option.bind_eq_bind]
  cases taken : f (s.regs (rs1 op)) (s.regs (rs2 op)) with
  | true =>
      refine ⟨_, insnCacheGet (slot.addr + immB op), by simp [bxxDecode, bxxExec, regGet, sourcesSigned, plain, taken]; rfl, ?_, ?_⟩
      · simp [Spec.step, opcode, three, same, taken, issPerfAccountTakenBranch, accountRegs, target]
      · simp [issPerfAccountTakenBranch, accountRegs, zero]
  | false =>
      refine ⟨_, insnCacheGet (slot.addr + BitVec.ofNat 32 4), by simp [bxxDecode, bxxExec, regGet, sourcesSigned, plain, taken]; rfl, ?_, ?_⟩
      · rw [nextAddr]
        simp [Spec.step, opcode, three, same, taken, accountRegs]
      · rw [accountRegs, zero]

theorem luiMeets (shape : instr.len = 32 ∧ Fixes instr 0 0b0110111#7) (fits : instr.Matches op.toNat) (zero : s.regs 0 = 0) :
    Computes ⟨instr, Format.u.args, some, fun _ => luiExec⟩ perf op slot s ↔ AmountFits op s.regs := by
  have opcode : major op = 0b0110111#7 := patternField 0 fits shape.2
  refine unlessShift (computesResult (v := immU op) zero ?_ (by simp [Spec.step, opcode])) (.inl (by simp [opcode])) _
  simp only [R5.run, R5.runSized, shape.1, decodeU, Option.bind_eq_bind, Option.bind_some]
  exact computesWrites rfl rfl

theorem auipcMeets (shape : instr.len = 32 ∧ Fixes instr 0 0b0010111#7) (fits : instr.Matches op.toNat) (zero : s.regs 0 = 0) :
    Computes ⟨instr, Format.u.args, auipcDecode, fun _ => auipcExec⟩ perf op slot s ↔ AmountFits op s.regs := by
  have opcode : major op = 0b0010111#7 := patternField 0 fits shape.2
  refine unlessShift (computesResult (v := slot.addr + immU op) zero ?_ (by simp [Spec.step, opcode])) (.inl (by simp [opcode])) _
  simp only [R5.run, R5.runSized, shape.1, decodeU, Option.bind_eq_bind]
  simp only [auipcDecode, targetUnsigned, Function.update_self, Option.bind_eq_bind, Option.bind_some]
  refine computesWrites ?_ rfl
  rw [BitVec.add_comm slot.addr]
  rfl

theorem jumpResult {r : R5} {next : Slot} {target : Word} (zero : s.regs 0 = 0)
    (ran : r.run perf op slot s =
      some (issPerfAccountJump (account perf (issSetReg s (rd op) (slot.addr + BitVec.ofNat 32 4)) .jump), next))
    (told : Spec.step op slot.addr s.regs = some (write s.regs (rd op) (slot.addr + 4), target)) (same : next.addr = target) :
    Computes r perf op slot s := by
  refine ⟨_, _, ran, ?_, ?_⟩
  · rw [told, same, issPerfAccountJump, accountRegs, setRegWrite]
    rfl
  · rw [issPerfAccountJump, accountRegs, setRegWrite]
    exact writeZero zero _ _

theorem setLink (s : Cpu) (d : Nat) (value : Word) : (if d ≠ 0 then issSetReg s d value else s) = issSetReg s d value := by
  unfold issSetReg
  split_ifs <;> rfl

theorem jalMeets (shape : instr.len = 32 ∧ Fixes instr 0 0b1101111#7) (fits : instr.Matches op.toNat) (zero : s.regs 0 = 0) :
    Computes ⟨instr, Format.uj.args, jalDecode, jalExec⟩ perf op slot s ↔ AmountFits op s.regs := by
  have opcode : major op = 0b1101111#7 := patternField 0 fits shape.2
  refine unlessShift (jumpResult zero ?_ (by simp [Spec.step, opcode]; rfl) (addrGetEven (evenAdd (evenAddr slot) (evenExtend _))))
    (.inl (by simp [opcode])) _
  simp only [R5.run, R5.runSized, shape.1, decodeUj, Option.bind_eq_bind]
  simp only [jalDecode, jalExec, targetSigned, plain, Function.update_self, Option.bind_eq_bind, Option.bind_some, link]
  rw [setLink]
  rfl

theorem jalrMeets (shape : instr.len = 32 ∧ Fixes instr 0 0b1100111#7 ∧ Fixes instr 12 0b000#3) (fits : instr.Matches op.toNat)
    (zero : s.regs 0 = 0) : Computes ⟨instr, Format.i.args, some, jalrExec⟩ perf op slot s ↔ AmountFits op s.regs := by
  have opcode : major op = 0b1100111#7 := patternField 0 fits shape.2.1
  have three : funct3 op = 0b000#3 := patternField 12 fits shape.2.2
  refine unlessShift (jumpResult zero ?_ (by simp [Spec.step, opcode, three]; rfl) (addrGet _)) (.inl (by simp [opcode])) _
  simp only [R5.run, R5.runSized, shape.1, decodeI, Option.bind_eq_bind, Option.bind_some]
  simp only [jalrExec, twoRegsSigned, plain, regGet, Function.update_self, Option.map_some, Option.bind_eq_bind, Option.bind_some, link]
  rw [setLink, BitVec.add_comm (immI op)]

theorem nopMeets (shape : instr.len = 32 ∧ Fixes instr 0 0b0010011#32) (fits : instr.Matches op.toNat) (zero : s.regs 0 = 0) :
    Computes ⟨instr, Format.z.args, some, fun _ => nopExec⟩ perf op slot s ↔ AmountFits op s.regs := by
  have word : op.extractLsb' 0 32 = 0b0010011#32 := patternField 0 fits shape.2
  have code : op = 0b0010011#32 := by simpa using word
  refine unlessShift ?_ (.inl (by subst code; decide)) _
  refine ⟨s, insnCacheGet (slot.addr + BitVec.ofNat 32 4), ?_, ?_, zero⟩
  · simp only [R5.run, R5.runSized, shape.1, decodeZ, Option.bind_eq_bind, Option.bind_some]
    rfl
  · rw [nextAddr, code]
    rfl

end Families

section Functions

open Spec

variable (a b : Word)

/- The specification takes five bits of an amount, and the library takes it whole when it is that small. -/
theorem amountInside (shift : Nat → Word) : (if b.toNat < 32 then some (shift b.toNat) else none) =
    if 32 ≤ b.toNat then none else some (shift (b.toNat % 32)) := by
  by_cases small : b.toNat < 32
  · rw [if_pos small, if_neg (Nat.not_le.mpr small), Nat.mod_eq_of_lt small]
  · rw [if_neg small, if_pos (Nat.not_lt.mp small)]

theorem sllInside : libSll a b = if isShift 0b001#3 = true ∧ 32 ≤ b.toNat then none else some (alu 0b001#3 false a b) := by
  simpa [libSll, CShift.shl, isShift, alu] using amountInside b fun n => a <<< n

theorem srlInside : libSrl a b = if isShift 0b101#3 = true ∧ 32 ≤ b.toNat then none else some (alu 0b101#3 false a b) := by
  simpa [libSrl, CShift.shr, isShift, alu] using amountInside b fun n => a >>> n

theorem sraInside : libSra a b = if isShift 0b101#3 = true ∧ 32 ≤ b.toNat then none else some (alu 0b101#3 true a b) := by
  simpa [libSra, CShift.sar, isShift, alu] using amountInside b fun n => a.sshiftRight n

theorem lessSignedAlu : lessSigned a b = some (alu 0b010#3 false a b) := by
  simp [lessSigned, truth, alu, BitVec.slt]

theorem lessUnsignedAlu : lessUnsigned a b = some (alu 0b011#3 false a b) := by
  simp [lessUnsigned, truth, alu, BitVec.ult]

end Functions

/- An opcode of the table does what the specification says, without a shift by 32 or more, if and only if it is no shift
by a register that holds 32 or more. -/
theorem rv32iMeetsSpec {r : R5} (entry : r ∈ rv32i) {op : Word} (fits : r.instr.Matches op.toNat) (slot : Slot) {s : Cpu}
    (zero : s.regs 0 = 0) (perf : Bool) : Computes r perf op slot s ↔ AmountFits op s.regs := by
  simp only [rv32i, List.mem_cons, List.not_mem_nil, or_false] at entry
  rcases entry with rfl | rfl | rfl | rfl | rfl | rfl | rfl | rfl | rfl | rfl | rfl | rfl | rfl | rfl | rfl | rfl | rfl | rfl |
    rfl | rfl | rfl | rfl | rfl | rfl | rfl | rfl | rfl | rfl | rfl | rfl
  · exact luiMeets (by decide +kernel) fits zero
  · exact auipcMeets (by decide +kernel) fits zero
  · exact jalMeets (by decide +kernel) fits zero
  · exact jalrMeets (by decide +kernel) fits zero
  · exact branchMeets 0b000#3 (by decide +kernel) (fun _ _ => rfl) fits zero
  · exact branchMeets 0b001#3 (by decide +kernel) (fun a b => by simp [Spec.takes, bne, BEq.beq]) fits zero
  · exact branchMeets 0b100#3 (by decide +kernel) (fun a b => by simp [Spec.takes, BitVec.slt]) fits zero
  · exact branchMeets 0b101#3 (by decide +kernel) (fun a b => by simp [Spec.takes, BitVec.sle]) fits zero
  · exact branchMeets 0b110#3 (by decide +kernel) (fun a b => by simp [Spec.takes, BitVec.ult]) fits zero
  · exact branchMeets 0b111#3 (by decide +kernel) (fun a b => by simp [Spec.takes, BitVec.ule]) fits zero
  · exact immediateMeets 0b000#3 (by decide +kernel) rfl (fun _ _ => rfl) fits zero
  · exact nopMeets (by decide +kernel) fits zero
  · exact immediateMeets 0b010#3 (by decide +kernel) rfl lessSignedAlu fits zero
  · exact immediateMeets 0b011#3 (by decide +kernel) rfl lessUnsignedAlu fits zero
  · exact immediateMeets 0b100#3 (by decide +kernel) rfl (fun _ _ => rfl) fits zero
  · exact immediateMeets 0b110#3 (by decide +kernel) rfl (fun _ _ => rfl) fits zero
  · exact immediateMeets 0b111#3 (by decide +kernel) rfl (fun _ _ => rfl) fits zero
  · exact shiftMeets 0b001#3 0b0000000#7 false (by decide +kernel) rfl rfl sllInside fits zero
  · exact shiftMeets 0b101#3 0b0000000#7 false (by decide +kernel) rfl rfl srlInside fits zero
  · exact shiftMeets 0b101#3 0b0100000#7 true (by decide +kernel) rfl rfl sraInside fits zero
  · exact registerMeets 0b000#3 0b0000000#7 false (by decide +kernel) rfl (fun _ _ => rfl) fits zero
  · exact registerMeets 0b000#3 0b0100000#7 true (by decide +kernel) rfl (fun _ _ => rfl) fits zero
  · exact registerMeets 0b001#3 0b0000000#7 false (by decide +kernel) rfl sllInside fits zero
  · exact registerMeets 0b010#3 0b0000000#7 false (by decide +kernel) rfl lessSignedAlu fits zero
  · exact registerMeets 0b011#3 0b0000000#7 false (by decide +kernel) rfl lessUnsignedAlu fits zero
  · exact registerMeets 0b100#3 0b0000000#7 false (by decide +kernel) rfl (fun _ _ => rfl) fits zero
  · exact registerMeets 0b101#3 0b0000000#7 false (by decide +kernel) rfl srlInside fits zero
  · exact registerMeets 0b101#3 0b0100000#7 true (by decide +kernel) rfl sraInside fits zero
  · exact registerMeets 0b110#3 0b0000000#7 false (by decide +kernel) rfl (fun _ _ => rfl) fits zero
  · exact registerMeets 0b111#3 0b0000000#7 false (by decide +kernel) rfl (fun _ _ => rfl) fits zero

def quietCpu (regs : Spec.Regs) : Cpu := ⟨regs, fun _ => 0, false, 0, fun _ => 0, 0, false, 0, 0⟩

def shiftLeftOpcode : Word := 0b0000000_00010_00001_001_00011_0110011

def shiftedBy (amount : Word) : Cpu := quietCpu (fun reg => if reg = 1 then 5 else if reg = 2 then amount else 0)

theorem rv32iMeetsSpecShift : Computes R5.sll true shiftLeftOpcode 0 (shiftedBy 31) := by
  have entry : R5.sll ∈ rv32i := by
    simp [rv32i]
  have fits : R5.sll.instr.Matches shiftLeftOpcode.toNat := by decide +kernel
  refine (rv32iMeetsSpec entry fits 0 rfl true).2 (fun _ _ => ?_)
  decide +kernel

theorem shiftByWidth :
    R5.sll ∈ rv32i ∧ R5.sll.instr.Matches shiftLeftOpcode.toNat ∧ (shiftedBy 32).regs 0 = 0 ∧
      ¬ Computes R5.sll true shiftLeftOpcode 0 (shiftedBy 32) := by
  refine ⟨?_, by decide +kernel, rfl, ?_⟩
  · simp [rv32i]
  · rintro ⟨after, next, ran, -⟩
    have stops : (R5.sll.run true shiftLeftOpcode 0 (shiftedBy 32)).isNone = true := by decide +kernel
    rw [ran] at stops
    contradiction

end Gvsoc.Isa
