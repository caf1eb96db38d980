import Gvsoc.Rv32cDecode

/-! A compressed instruction does what its expansion does. -/
namespace Gvsoc.Isa
open Decoder (Instr Item decodeItem decodeOpcodeGroup)

section Immediates

open Spec.Compressed

variable {op : Word}

theorem extendTwice {n m w : Nat} (value : BitVec n) (some : 0 < n) (more : n ≤ m) :
    (value.signExtend m).signExtend w = value.signExtend w := by
  apply BitVec.eq_of_getLsbD_eq
  intro k small
  have sign : (value.signExtend m).msb = value.msb := by
    rw [BitVec.msb_eq_getLsbD_last, BitVec.getLsbD_signExtend]
    by_cases same : n = m
    · subst same
      simp [BitVec.msb_eq_getLsbD_last, some]
    · simp [show ¬ m - 1 < n by omega, show 0 < m by omega]
  simp only [BitVec.getLsbD_signExtend, sign]
  by_cases low : k < n
  · simp [low, show k < m by omega]
  · by_cases middle : k < m
    · simp [low, middle]
    · simp [low, middle]

theorem simImm6 : decodeRanges op [⟨2, 5, 0⟩, ⟨12, 1, 5⟩] true = some ((imm6 op).signExtend 32) := by
  refine decodeSigned (by decide) rfl (by decide) (by decide) (gatherSame (by decide) fun k small => ?_)
  simp only [imm6, Range.reads, List.any_cons, List.any_nil, BitVec.getLsbD_append, BitVec.getLsbD_extractLsb']
  interval_cases k <;> simp

theorem simStack : decodeRanges op [⟨6, 1, 4⟩, ⟨2, 1, 5⟩, ⟨5, 1, 6⟩, ⟨3, 2, 7⟩, ⟨12, 1, 9⟩] true = some ((stackImm op).signExtend 32) := by
  refine decodeSigned (by decide) rfl (by decide) (by decide) (gatherSame (by decide) fun k small => ?_)
  simp only [stackImm, Range.reads, List.any_cons, List.any_nil, BitVec.getLsbD_append, BitVec.getLsbD_extractLsb', BitVec.getLsbD_zero]
  interval_cases k <;> simp

theorem simJump : decodeRanges op CompressedFormat.jumpRanges true = some ((jumpOffset op).signExtend 32) := by
  refine decodeSigned (by decide) rfl (by decide) (by decide) (gatherSame (by decide) fun k small => ?_)
  simp only [jumpOffset, CompressedFormat.jumpRanges, Range.reads, List.any_cons, List.any_nil, BitVec.getLsbD_append,
    BitVec.getLsbD_extractLsb', BitVec.getLsbD_zero]
  interval_cases k <;> simp

theorem simBranch : decodeRanges op [⟨3, 2, 1⟩, ⟨10, 2, 3⟩, ⟨2, 1, 5⟩, ⟨5, 2, 6⟩, ⟨12, 1, 8⟩] true =
    some ((branchOffset op).signExtend 32) := by
  refine decodeSigned (by decide) rfl (by decide) (by decide) (gatherSame (by decide) fun k small => ?_)
  simp only [branchOffset, Range.reads, List.any_cons, List.any_nil, BitVec.getLsbD_append, BitVec.getLsbD_extractLsb', BitVec.getLsbD_zero]
  interval_cases k <;> simp

theorem extendUpper (value : BitVec 6) : (value ++ 0#12).signExtend 32 = value.signExtend 20 ++ 0#12 := by
  have sign : (value ++ 0#12).msb = value.msb := by rw [BitVec.msb_append, if_neg (by decide)]
  apply BitVec.eq_of_getLsbD_eq
  intro k small
  rw [BitVec.getLsbD_signExtend, sign, BitVec.getLsbD_append, BitVec.getLsbD_append, BitVec.getLsbD_signExtend]
  by_cases low : k < 12
  · simp [low, show k < 18 by omega]
  · by_cases middle : k < 18
    · simp [low, middle, small, show k - 12 < 6 by omega, show k - 12 < 20 by omega]
    · simp [low, middle, small, show ¬ k - 12 < 6 by omega, show k - 12 < 20 by omega]

theorem uimUpper : decodeRanges op [⟨2, 5, 12⟩, ⟨12, 1, 17⟩] true = some ((imm6 op).signExtend 20 ++ 0#12) := by
  rw [← extendUpper]
  refine decodeSigned (by decide) rfl (by decide) (by decide) (gatherSame (by decide) fun k small => ?_)
  simp only [imm6, Range.reads, List.any_cons, List.any_nil, BitVec.getLsbD_append, BitVec.getLsbD_extractLsb', BitVec.getLsbD_zero]
  interval_cases k <;> simp

theorem decodePositive {ranges : List Range} {value : BitVec 12} (fits : Fits ranges) (positive : value.getLsbD 11 = false)
    (bits : ∀ k, k < 32 → ranges.any (Range.reads op k) = value.getLsbD k) :
    decodeRanges op ranges false = some (value.signExtend 32) := by
  have sign : value.msb = false := by rw [BitVec.msb_eq_getLsbD_last, positive]
  have same : (gather op ranges).setWidth 32 = value.setWidth 32 := by
    refine gatherSame (le_refl _) fun k small => ?_
    rw [bits k small, BitVec.getLsbD_setWidth]
    simp [small]
  rw [decodeUnsigned fits, BitVec.signExtend_eq_setWidth_of_msb_false sign, ← same, BitVec.setWidth_eq]

theorem simWide : decodeRanges op [⟨6, 1, 2⟩, ⟨5, 1, 3⟩, ⟨11, 2, 4⟩, ⟨7, 4, 6⟩] false = some ((wideImm op).signExtend 32) := by
  refine decodePositive (by decide) (by simp only [wideImm, BitVec.getLsbD_append]; simp) fun k small => ?_
  simp only [wideImm, Range.reads, List.any_cons, List.any_nil, BitVec.getLsbD_append, BitVec.getLsbD_extractLsb', BitVec.getLsbD_zero]
  interval_cases k <;> simp

theorem simWord : decodeRanges op [⟨6, 1, 2⟩, ⟨10, 3, 3⟩, ⟨5, 1, 6⟩] false = some ((wordOffset op).signExtend 32) := by
  refine decodePositive (by decide) (by simp only [wordOffset, BitVec.getLsbD_append]; simp) fun k small => ?_
  simp only [wordOffset, Range.reads, List.any_cons, List.any_nil, BitVec.getLsbD_append, BitVec.getLsbD_extractLsb', BitVec.getLsbD_zero]
  interval_cases k <;> simp

theorem simLoad : decodeRanges op [⟨4, 3, 2⟩, ⟨12, 1, 5⟩, ⟨2, 2, 6⟩] false = some ((loadOffset op).signExtend 32) := by
  refine decodePositive (by decide) (by simp only [loadOffset, BitVec.getLsbD_append]; simp) fun k small => ?_
  simp only [loadOffset, Range.reads, List.any_cons, List.any_nil, BitVec.getLsbD_append, BitVec.getLsbD_extractLsb', BitVec.getLsbD_zero]
  interval_cases k <;> simp

theorem simStore : decodeRanges op [⟨9, 4, 2⟩, ⟨7, 2, 6⟩] false = some ((storeOffset op).signExtend 32) := by
  refine decodePositive (by decide) (by simp only [storeOffset, BitVec.getLsbD_append]; simp) fun k small => ?_
  simp only [storeOffset, Range.reads, List.any_cons, List.any_nil, BitVec.getLsbD_append, BitVec.getLsbD_extractLsb', BitVec.getLsbD_zero]
  interval_cases k <;> simp

theorem uimAmount (below : high op = 0) : decodeRanges op [⟨2, 5, 0⟩, ⟨12, 1, 5⟩] false = some ((rs2 op).setWidth 32) := by
  have zero : op[12] = false := by
    have bit := congrArg (fun v => BitVec.getLsbD v 0) below
    simpa [high] using bit
  have same : (gather op [⟨2, 5, 0⟩, ⟨12, 1, 5⟩]).setWidth 32 = (rs2 op).setWidth 32 := by
    refine gatherSame (by decide) fun k small => ?_
    simp only [rs2, Range.reads, List.any_cons, List.any_nil, BitVec.getLsbD_setWidth, BitVec.getLsbD_extractLsb']
    interval_cases k <;> simp [zero]
  rw [decodeUnsigned (by decide), ← same, BitVec.setWidth_eq]

end Immediates

section Formats

open CompressedFormat
open Spec.Compressed

variable {op : Word} (size : Nat) (decode : Insn → Option Insn) (slot : Slot)

theorem shortNumber (field : BitVec 3) : (0b01#2 ++ field).toNat = field.toNat + 8 := by
  rw [BitVec.toNat_append, ← Nat.shiftLeft_add_eq_or_of_lt field.isLt, Nat.add_comm]
  rfl

theorem decodeRegConst {id value : Nat} (small : value < 32) : decodeReg op ⟨id, .const value, false⟩ = some value := by
  simp [decodeReg, decodeInfo, Nat.mod_eq_of_lt (show value < 4294967296 by omega)]

theorem decodeCr : decodeInsn size CompressedFormat.cr.args decode slot op =
    decode (threeRegs size slot (rd op).toNat (rd op).toNat (rs2 op).toNat) := by
  simp [decodeFew, CompressedFormat.args, Format.out, Format.input, decodeArg, decodeRegField, threeRegs, plain, rd, rs2]

theorem decodeCr2 : decodeInsn size CompressedFormat.cr2.args decode slot op =
    decode (threeRegs size slot (rd op).toNat 0 (rs2 op).toNat) := by
  simp [decodeFew, CompressedFormat.args, inConst, Format.out, Format.input, decodeArg, decodeRegField, decodeRegConst, threeRegs, plain, rd, rs2]

theorem decodeCi1 : decodeInsn size CompressedFormat.ci1.args decode slot op =
    decode (twoRegsSigned size slot (rd op).toNat (rd op).toNat ((imm6 op).signExtend 32)) := by
  simp [decodeFew, CompressedFormat.args, signed, Format.out, Format.input, decodeArg, decodeRegField, Info.rangeSet, simImm6, twoRegsSigned, plain, rd]

theorem decodeCi1u (below : high op = 0) : decodeInsn size CompressedFormat.ci1u.args decode slot op =
    decode (twoRegsUnsigned size slot (rd op).toNat (rd op).toNat ((rs2 op).setWidth 32)) := by
  simp [decodeFew, CompressedFormat.args, unsigned, Format.out, Format.input, decodeArg, decodeRegField, Info.rangeSet, uimAmount below,
    twoRegsUnsigned, plain, rd]

theorem decodeCi3 : decodeInsn size CompressedFormat.ci3.args decode slot op =
    decode (twoRegsSigned size slot (rd op).toNat 2 ((loadOffset op).signExtend 32)) := by
  simp [decodeFew, CompressedFormat.args, Format.out, decodeArg, decodeRegField, decodeRegConst, decodeInfo, simLoad, twoRegsSigned, plain, rd]

theorem decodeCi4 : decodeInsn size CompressedFormat.ci4.args decode slot op =
    decode (twoRegsSigned size slot 2 2 ((stackImm op).signExtend 32)) := by
  simp [decodeFew, CompressedFormat.args, outConst, inConst, signed, decodeArg, decodeRegConst, Info.rangeSet, simStack, twoRegsSigned, plain]

theorem decodeCi5 : decodeInsn size CompressedFormat.ci5.args decode slot op =
    decode (targetUnsigned size slot (rd op).toNat ((imm6 op).signExtend 20 ++ 0#12)) := by
  simp [decodeFew, CompressedFormat.args, unsigned, Format.out, decodeArg, decodeRegField, Info.rangeSet, uimUpper, targetUnsigned, plain, rd]

theorem decodeCi6 : decodeInsn size CompressedFormat.ci6.args decode slot op =
    decode (twoRegsSigned size slot (rd op).toNat 0 ((imm6 op).signExtend 32)) := by
  simp [decodeFew, CompressedFormat.args, inConst, signed, Format.out, decodeArg, decodeRegField, decodeRegConst, Info.rangeSet, simImm6,
    twoRegsSigned, plain, rd]

theorem decodeCss : decodeInsn size CompressedFormat.css.args decode slot op =
    decode (sourcesSigned size slot 2 (rs2 op).toNat ((storeOffset op).signExtend 32)) := by
  simp [decodeFew, CompressedFormat.args, Format.input, decodeArg, decodeRegField, decodeRegConst, decodeInfo, simStore, sourcesSigned, plain, rs2,
    Function.update_comm (show (1 : Nat) ≠ 0 by decide)]

theorem decodeCiw : decodeInsn size CompressedFormat.ciw.args decode slot op =
    decode (twoRegsSigned size slot (lower op).toNat 2 ((wideImm op).signExtend 32)) := by
  simp [decodeFew, CompressedFormat.args, outComp, inConst, signed, decodeArg, decodeRegField, decodeRegConst, Info.rangeSet, simWide,
    twoRegsSigned, plain, lower, shortNumber]

theorem decodeCl : decodeInsn size CompressedFormat.cl.args decode slot op =
    decode (twoRegsSigned size slot (lower op).toNat (upper op).toNat ((wordOffset op).signExtend 32)) := by
  simp [decodeFew, CompressedFormat.args, outComp, decodeArg, decodeRegField, decodeInfo, simWord, twoRegsSigned, plain, lower, upper, shortNumber]

theorem decodeCs : decodeInsn size CompressedFormat.cs.args decode slot op =
    decode (sourcesSigned size slot (upper op).toNat (lower op).toNat ((wordOffset op).signExtend 32)) := by
  simp [decodeFew, CompressedFormat.args, inComp, decodeArg, decodeRegField, decodeInfo, simWord, sourcesSigned, plain, lower, upper, shortNumber,
    Function.update_comm (show (1 : Nat) ≠ 0 by decide)]

theorem decodeCs2 : decodeInsn size CompressedFormat.cs2.args decode slot op =
    decode (threeRegs size slot (upper op).toNat (upper op).toNat (lower op).toNat) := by
  simp [decodeFew, CompressedFormat.args, outComp, inComp, decodeArg, decodeRegField, threeRegs, plain, lower, upper, shortNumber]

theorem decodeCb1 : decodeInsn size CompressedFormat.cb1.args decode slot op =
    decode (sourcesSigned size slot (upper op).toNat 0 ((branchOffset op).signExtend 32)) := by
  simp [decodeFew, CompressedFormat.args, inComp, inConst, signed, decodeArg, decodeRegField, decodeRegConst, Info.rangeSet, simBranch,
    sourcesSigned, plain, upper, shortNumber]

theorem decodeCb2 (below : high op = 0) : decodeInsn size CompressedFormat.cb2.args decode slot op =
    decode (twoRegsUnsigned size slot (upper op).toNat (upper op).toNat ((rs2 op).setWidth 32)) := by
  simp [decodeFew, CompressedFormat.args, outComp, inComp, unsigned, decodeArg, decodeRegField, Info.rangeSet, uimAmount below, twoRegsUnsigned,
    plain, upper, shortNumber]

theorem decodeCb2s : decodeInsn size CompressedFormat.cb2s.args decode slot op =
    decode (twoRegsSigned size slot (upper op).toNat (upper op).toNat ((imm6 op).signExtend 32)) := by
  simp [decodeFew, CompressedFormat.args, outComp, inComp, signed, decodeArg, decodeRegField, Info.rangeSet, simImm6, twoRegsSigned, plain, upper,
    shortNumber]

theorem decodeCj : decodeInsn size CompressedFormat.cj.args decode slot op = decode (targetSigned size slot 0 ((jumpOffset op).signExtend 32)) := by
  simp [decodeFew, CompressedFormat.args, outConst, signed, decodeArg, decodeRegConst, Info.rangeSet, simJump, targetSigned, plain]

theorem decodeCj1 : decodeInsn size CompressedFormat.cj1.args decode slot op = decode (targetSigned size slot 1 ((jumpOffset op).signExtend 32)) := by
  simp [decodeFew, CompressedFormat.args, outConst, signed, decodeArg, decodeRegConst, Info.rangeSet, simJump, targetSigned, plain]

/- The four operands of a jump to a register: the last one has cleared the first immediate. -/
def jumpRegs (target source second : Nat) : Insn :=
  { threeRegs size slot target source second with
    uim := Function.update (fun _ => none) 0 (some (-1))
    sim := Function.update (fun _ => none) 0 (some 0) }

theorem decodeCr1 : decodeInsn size CompressedFormat.cr1.args decode slot op = decode (jumpRegs size slot 0 (rd op).toNat 0) := by
  have four : CompressedFormat.cr1.args.length = 4 := rfl
  rw [decodeInsn, four, clearFour rfl rfl]
  simp [CompressedFormat.args, outConst, inConst, Format.input, decodeArg, decodeRegField, decodeRegConst, Info.rangeSet, decodeNothing, jumpRegs,
    threeRegs, plain, rd]

theorem decodeCr3 : decodeInsn size CompressedFormat.cr3.args decode slot op = decode (jumpRegs size slot 1 (rd op).toNat (rs2 op).toNat) := by
  have four : CompressedFormat.cr3.args.length = 4 := rfl
  rw [decodeInsn, four, clearFour rfl rfl]
  simp [CompressedFormat.args, outConst, Format.input, decodeArg, decodeRegField, decodeRegConst, Info.rangeSet, decodeNothing, jumpRegs,
    threeRegs, plain, rd, rs2]

end Formats

section Handlers

def effect (result : Option (Cpu × Slot)) : Option (Spec.Regs × (Word → Bytes.Byte) × Slot) :=
  result.map (fun (s, next) => (s.regs, s.mem, next))

def Blind (handler : Bool → Handler) : Prop :=
  ∀ perf insn s event, effect (handler perf insn (account perf s event)) = effect (handler perf insn s)

theorem accountCpu (perf : Bool) (s : Cpu) (event : Pcer) : ∃ pccr, account perf s event = { s with pccr := pccr } := by
  unfold account issPccrAccountEvent
  split_ifs
  · exact ⟨_, rfl⟩
  · exact ⟨s.pccr, rfl⟩
  · exact ⟨s.pccr, rfl⟩

theorem accountEffect (perf : Bool) (s : Cpu) (event : Pcer) (next : Slot) :
    effect (some (account perf s event, next)) = effect (some (s, next)) := by
  obtain ⟨pccr, same⟩ := accountCpu perf s event
  rw [same]
  rfl

theorem setRegCounters (s : Cpu) (pccr : Pcer → Word) (reg : Nat) (value : Word) :
    issSetReg { s with pccr := pccr } reg value = { issSetReg s reg value with pccr := pccr } := by
  unfold issSetReg
  split_ifs <;> rfl

theorem blindOf {handler : Bool → Handler}
    (counters : ∀ perf insn s pccr, effect (handler perf insn { s with pccr := pccr }) = effect (handler perf insn s)) : Blind handler := by
  intro perf insn s event
  obtain ⟨pccr, same⟩ := accountCpu perf s event
  rw [same, counters]

theorem computesBlind {value : Insn → Cpu → Option Word} (counters : ∀ insn s pccr, value insn { s with pccr := pccr } = value insn s) :
    Blind (fun _ => computes value) := by
  refine blindOf fun perf insn s pccr => ?_
  simp only [computes, regSet, counters, setRegCounters]
  cases value insn s with
  | none => rfl
  | some made => cases insn.outRegs 0 <;> rfl

theorem jumpEffect (perf : Bool) (s : Cpu) (next : Slot) :
    effect (some (issPerfAccountJump (account perf s .jump), next)) = effect (some (s, next)) := accountEffect perf s .jump next

theorem jalBlind : Blind jalExec := by
  refine blindOf fun perf insn s pccr => ?_
  simp only [jalExec, setLink]
  cases insn.outRegs 0 with
  | none => rfl
  | some target =>
      simp only [Option.bind_eq_bind, Option.bind_some, jumpEffect, setRegCounters]
      rfl

theorem jalrBlind : Blind jalrExec := by
  refine blindOf fun perf insn s pccr => ?_
  simp only [jalrExec, setLink, regGet]
  cases insn.sim 0 with
  | none => rfl
  | some offset =>
      cases insn.inRegs 0 with
      | none => rfl
      | some source =>
          cases insn.outRegs 0 with
          | none => rfl
          | some target =>
              simp only [Option.map_some, Option.bind_eq_bind, Option.bind_some, jumpEffect, setRegCounters]
              rfl

theorem bxxBlind (takes : Word → Word → Bool) : Blind (bxxExec takes) := by
  refine blindOf fun perf insn s pccr => ?_
  simp only [bxxExec, regGet]
  cases insn.inRegs 0 with
  | none => rfl
  | some first =>
      cases insn.inRegs 1 with
      | none => rfl
      | some second =>
          simp only [Option.map_some, Option.bind_eq_bind, Option.bind_some]
          split_ifs
          · cases insn.branch with
            | none => rfl
            | some target =>
                simp only [Option.bind_some]
                exact (accountEffect perf (account perf { s with pccr := pccr } .branch) .takenBranch target).trans
                  ((accountEffect perf _ .branch target).trans
                    ((accountEffect perf s .branch target).symm.trans (accountEffect perf (account perf s .branch) .takenBranch target).symm))
          · rw [accountEffect, accountEffect]
            rfl

theorem loadBlind : Blind lwExec := by
  refine blindOf fun perf insn s pccr => ?_
  obtain ⟨counted, same⟩ := accountCpu perf s .ld
  obtain ⟨recounted, again⟩ := accountCpu perf { s with pccr := pccr } .ld
  simp only [lwExec, load, issLsuLoad, same, again, setRegCounters, regGet]
  cases insn.inRegs 0 with
  | none => rfl
  | some base =>
      cases insn.sim 0 with
      | none => rfl
      | some offset =>
          cases insn.outRegs 0 with
          | none => cases perf <;> rfl
          | some target =>
              cases perf with
              | false => rfl
              | true =>
                  simp only [issLsuCheckStackAccess, Option.map_some, Option.bind_eq_bind, Option.bind_some, if_true]
                  split_ifs <;> rfl

theorem storeBlind : Blind swExec := by
  refine blindOf fun perf insn s pccr => ?_
  obtain ⟨counted, same⟩ := accountCpu perf s .st
  obtain ⟨recounted, again⟩ := accountCpu perf { s with pccr := pccr } .st
  simp only [swExec, store, issLsuStore, same, again, regGet]
  cases insn.inRegs 0 with
  | none => rfl
  | some base =>
      cases insn.sim 0 with
      | none => rfl
      | some offset =>
          cases insn.inRegs 1 with
          | none => cases perf <;> rfl
          | some source =>
              cases perf with
              | false => rfl
              | true =>
                  simp only [issLsuCheckStackAccess, Option.map_some, Option.bind_eq_bind, Option.bind_some, if_true]
                  split_ifs <;> rfl

end Handlers

section Runs

open Spec Spec.Compressed

variable {op : Word}

/- A compressed instruction has the effect of a wide one with this opcode, but for the size. -/
def SameEffect (c r : R5) (op wide : Word) : Prop :=
  ∀ perf slot s, effect (c.run perf op slot s) = effect (r.runSized 2 perf wide slot s)

theorem sameEffect {c r : R5} {wide : Word} (length : c.instr.len = 16) (counted : c.handler = compressed r.handler)
    (blind : Blind r.handler) (decoded : ∀ slot, decodeInsn 2 c.args c.decode slot op = decodeInsn 2 r.args r.decode slot wide) :
    SameEffect c r op wide := by
  intro perf slot s
  simp only [R5.run, R5.runSized, length, counted, ← decoded, Option.bind_eq_bind]
  cases decodeInsn 2 c.args c.decode slot op with
  | none => rfl
  | some insn => exact blind perf insn s .rvc

theorem simBlind (f : Word → Word → Option Word) : Blind (fun _ => withSim f) := computesBlind fun _ _ _ => rfl

theorem uimBlind (f : Word → Word → Option Word) : Blind (fun _ => withUim f) := computesBlind fun _ _ _ => rfl

theorem regBlind (f : Word → Word → Option Word) : Blind (fun _ => withReg f) := computesBlind fun _ _ _ => rfl

theorem luiBlind : Blind (fun _ => luiExec) := computesBlind fun _ _ _ => rfl

/- An offset that was extended to the width of its field is even, still. -/
theorem evenOffset {n m : Nat} (value : BitVec n) : ((value ++ 0#1).signExtend m).getLsbD 0 = false := by
  rw [BitVec.getLsbD_signExtend, BitVec.getLsbD_append]
  simp

section Encoded

variable (size : Nat) (decode : Insn → Option Insn) (slot : Slot) (imm : BitVec 12) (first second target : BitVec 5) (three : BitVec 3)
  (seven code : BitVec 7)

theorem decodeEncodedR : decodeInsn size Format.r.args decode slot (encodeR seven second first three target code) =
    decode (threeRegs size slot target.toNat first.toNat second.toNat) := by
  obtain ⟨-, rd, -, rs1, rs2, -⟩ := encodedR
  rw [decodeR, rd, rs1, rs2]

theorem decodeEncodedShift : decodeInsn size Format.i1u.args decode slot (encodeR seven second first three target code) =
    decode (twoRegsUnsigned size slot target.toNat first.toNat (second.setWidth 32)) := by
  obtain ⟨-, rd, -, rs1, -, -, shamt⟩ := encodedR
  rw [decodeI1u, rd, rs1, shamt]

theorem decodeEncodedI : decodeInsn size Format.i.args decode slot (encodeI imm first three target code) =
    decode (twoRegsSigned size slot target.toNat first.toNat (imm.signExtend 32)) := by
  obtain ⟨-, rd, -, rs1, same⟩ := encodedI
  rw [decodeI, rd, rs1, same]

theorem decodeEncodedL : decodeInsn size Format.l.args decode slot (encodeI imm first three target code) =
    decode (twoRegsSigned size slot target.toNat first.toNat (imm.signExtend 32)) := by
  obtain ⟨-, rd, -, rs1, same⟩ := encodedI
  rw [decodeL, rd, rs1, same]

theorem decodeEncodedS : decodeInsn size Format.s.args decode slot (encodeS imm second first three code) =
    decode (sourcesSigned size slot first.toNat second.toNat (imm.signExtend 32)) := by
  obtain ⟨-, -, rs1, rs2, same⟩ := encodedS
  rw [decodeS, rs1, rs2, same]

theorem decodeEncodedB {imm : BitVec 13} (even : imm.getLsbD 0 = false) :
    decodeInsn size Format.sb.args decode slot (encodeB imm second first three code) =
      decode (sourcesSigned size slot first.toNat second.toNat (imm.signExtend 32)) := by
  obtain ⟨-, -, rs1, rs2, same⟩ := encodedB ((BitVec.getLsbD_eq_getElem _).symm.trans even)
  rw [decodeSb, rs1, rs2, same]

theorem decodeEncodedU (imm : BitVec 20) : decodeInsn size Format.u.args decode slot (encodeU imm target code) =
    decode (targetUnsigned size slot target.toNat (imm ++ 0#12)) := by
  obtain ⟨-, rd, same⟩ := encodedU
  rw [decodeU, rd, same]

theorem decodeEncodedJ {imm : BitVec 21} (even : imm.getLsbD 0 = false) : decodeInsn size Format.uj.args decode slot (encodeJ imm target code) =
    decode (targetSigned size slot target.toNat (imm.signExtend 32)) := by
  obtain ⟨-, rd, same⟩ := encodedJ ((BitVec.getLsbD_eq_getElem _).symm.trans even)
  rw [decodeUj, rd, same]

end Encoded

theorem addi4spnEffect : SameEffect .cAddi4spn .addi op (Row.addi4spn.expansion op) := by
  refine sameEffect (lengthNew.trans rfl) rfl (simBlind _) fun slot => ?_
  exact (decodeCiw 2 some slot).trans (decodeEncodedI 2 some slot _ 2 _ _ _).symm

theorem lwEffect : SameEffect .cLw .lw op (Row.lw.expansion op) := by
  refine sameEffect (lengthNew.trans rfl) rfl loadBlind fun slot => ?_
  exact (decodeCl 2 some slot).trans (decodeEncodedL 2 some slot _ _ _ _ _).symm

theorem swEffect : SameEffect .cSw .sw op (Row.sw.expansion op) := by
  refine sameEffect (lengthNew.trans rfl) rfl storeBlind fun slot => ?_
  exact (decodeCs 2 some slot).trans (decodeEncodedS 2 some slot _ _ _ _ _).symm

theorem addiEffect : SameEffect .cAddi .addi op (Row.addi.expansion op) := by
  refine sameEffect (lengthNew.trans rfl) rfl (simBlind _) fun slot => (decodeCi1 2 some slot).trans ?_
  rw [← extendTwice (imm6 op) (by decide) (show 6 ≤ 12 by decide)]
  exact (decodeEncodedI 2 some slot _ _ _ _ _).symm

theorem jalEffect : SameEffect .cJal .jal op (Row.jal.expansion op) := by
  refine sameEffect (lengthNew.trans rfl) rfl jalBlind fun slot => (decodeCj1 2 jalDecode slot).trans ?_
  rw [← extendTwice (jumpOffset op) (by decide) (show 12 ≤ 21 by decide)]
  exact (decodeEncodedJ 2 jalDecode slot 1 _ (evenOffset _)).symm

theorem liEffect : SameEffect .cLi .addi op (Row.li.expansion op) := by
  refine sameEffect (lengthNew.trans rfl) rfl (simBlind _) fun slot => (decodeCi6 2 some slot).trans ?_
  rw [← extendTwice (imm6 op) (by decide) (show 6 ≤ 12 by decide)]
  exact (decodeEncodedI 2 some slot _ 0 _ _ _).symm

theorem addi16spEffect : SameEffect .cAddi16sp .addi op (Row.addi16sp.expansion op) := by
  refine sameEffect (lengthNew.trans rfl) rfl (simBlind _) fun slot => (decodeCi4 2 some slot).trans ?_
  rw [← extendTwice (stackImm op) (by decide) (show 10 ≤ 12 by decide)]
  exact (decodeEncodedI 2 some slot _ 2 2 _ _).symm

theorem luiEffect : SameEffect .cLui .lui op (Row.lui.expansion op) := by
  refine sameEffect (lengthNew.trans rfl) rfl luiBlind fun slot => ?_
  exact (decodeCi5 2 some slot).trans (decodeEncodedU 2 some slot _ _ _).symm

theorem srliEffect (below : high op = 0) : SameEffect .cSrli .srli op (Row.srli.expansion op) := by
  refine sameEffect (lengthNew.trans rfl) rfl (uimBlind _) fun slot => ?_
  exact (decodeCb2 2 some slot below).trans (decodeEncodedShift 2 some slot _ _ _ _ _ _).symm

theorem sraiEffect (below : high op = 0) : SameEffect .cSrai .srai op (Row.srai.expansion op) := by
  refine sameEffect (lengthNew.trans rfl) rfl (uimBlind _) fun slot => ?_
  exact (decodeCb2 2 some slot below).trans (decodeEncodedShift 2 some slot _ _ _ _ _ _).symm

theorem andiEffect : SameEffect .cAndi .andi op (Row.andi.expansion op) := by
  refine sameEffect (lengthNew.trans rfl) rfl (simBlind _) fun slot => (decodeCb2s 2 some slot).trans ?_
  rw [← extendTwice (imm6 op) (by decide) (show 6 ≤ 12 by decide)]
  exact (decodeEncodedI 2 some slot _ _ _ _ _).symm

theorem arithmeticEffect {instr wide : Instr} {f : Word → Word → Option Word} {code : BitVec 2} {seven : BitVec 7} {three : BitVec 3}
    (length : instr.len = 16) :
    SameEffect ⟨instr, CompressedFormat.cs2.args, some, compressed (fun _ => withReg f)⟩
      ⟨wide, Format.r.args, some, fun _ => withReg f⟩ op ((Row.arithmetic code seven three).expansion op) := by
  refine sameEffect length rfl (regBlind f) fun slot => ?_
  exact (decodeCs2 2 some slot).trans (decodeEncodedR 2 some slot _ _ _ _ _ _).symm

theorem jEffect : SameEffect .cJ .jal op (Row.j.expansion op) := by
  refine sameEffect (lengthNew.trans rfl) rfl jalBlind fun slot => (decodeCj 2 jalDecode slot).trans ?_
  rw [← extendTwice (jumpOffset op) (by decide) (show 12 ≤ 21 by decide)]
  exact (decodeEncodedJ 2 jalDecode slot 0 _ (evenOffset _)).symm

theorem branchEffect {instr wide : Instr} {f : Word → Word → Bool} (three : BitVec 3) (length : instr.len = 16) :
    SameEffect ⟨instr, CompressedFormat.cb1.args, bxxDecode, compressed (bxxExec f)⟩ ⟨wide, Format.sb.args, bxxDecode, bxxExec f⟩ op
      (encodeB ((branchOffset op).signExtend 13) 0 (upper op) three 0b1100011#7) := by
  refine sameEffect length rfl (bxxBlind f) fun slot => (decodeCb1 2 bxxDecode slot).trans ?_
  rw [← extendTwice (branchOffset op) (by decide) (show 9 ≤ 13 by decide)]
  exact (decodeEncodedB 2 bxxDecode slot _ 0 three _ (evenOffset _)).symm

theorem slliEffect (below : high op = 0) : SameEffect .cSlli .slli op (Row.slli.expansion op) := by
  refine sameEffect (lengthNew.trans rfl) rfl (uimBlind _) fun slot => ?_
  exact (decodeCi1u 2 some slot below).trans (decodeEncodedShift 2 some slot _ _ _ _ _ _).symm

theorem lwspEffect : SameEffect .cLwsp .lw op (Row.lwsp.expansion op) := by
  refine sameEffect (lengthNew.trans rfl) rfl loadBlind fun slot => ?_
  exact (decodeCi3 2 some slot).trans (decodeEncodedL 2 some slot _ 2 _ _ _).symm

theorem jumpSame {second : Nat} (perf : Bool) (slot : Slot) (target source : Nat) (s : Cpu) :
    jalrExec perf (jumpRegs 2 slot target source second) s = jalrExec perf (twoRegsSigned 2 slot target source ((0 : BitVec 12).signExtend 32)) s := rfl

theorem jumpRegister {c : R5} (source target : BitVec 5) (second : Nat) (length : c.instr.len = 16) (handler : c.handler = compressed jalrExec)
    (decoded : ∀ slot, decodeInsn 2 c.args c.decode slot op = some (jumpRegs 2 slot target.toNat source.toNat second)) :
    SameEffect c .jalr op (encodeI 0 source 0b000#3 target 0b1100111#7) := by
  intro perf slot s
  have wide : R5.jalr.runSized 2 perf (encodeI 0 source 0b000#3 target 0b1100111#7) slot s =
      jalrExec perf (jumpRegs 2 slot target.toNat source.toNat second) s := by
    simp only [R5.runSized]
    rw [show R5.jalr.args = Format.i.args from rfl, show R5.jalr.decode = some from rfl, decodeEncodedI, jumpSame]
    rfl
  have short : c.run perf op slot s = jalrExec perf (jumpRegs 2 slot target.toNat source.toNat second) (account perf s .rvc) := by
    simp only [R5.run, R5.runSized, length, handler]
    rw [decoded]
    rfl
  rw [wide, short]
  exact jalrBlind perf _ s .rvc

theorem jrEffect : SameEffect .cJr .jalr op (Row.jr.expansion op) := by
  refine jumpRegister (Spec.Compressed.rd op) 0 0 (lengthNew.trans rfl) rfl fun slot => ?_
  exact decodeCr1 2 some slot

theorem jalrEffect : SameEffect .cJalr .jalr op (Row.jalr.expansion op) := by
  refine jumpRegister (Spec.Compressed.rd op) 1 (Spec.Compressed.rs2 op).toNat (lengthNew.trans rfl) rfl fun slot => ?_
  exact decodeCr3 2 some slot

theorem mvEffect : SameEffect .cMv .add op (Row.mv.expansion op) := by
  refine sameEffect (lengthNew.trans rfl) rfl (regBlind _) fun slot => ?_
  exact (decodeCr2 2 some slot).trans (decodeEncodedR 2 some slot 0 _ _ _ _ _).symm

theorem addEffect : SameEffect .cAdd .add op (Row.add.expansion op) := by
  refine sameEffect (lengthNew.trans rfl) rfl (regBlind _) fun slot => ?_
  exact (decodeCr 2 some slot).trans (decodeEncodedR 2 some slot _ _ _ _ _ _).symm

theorem swspEffect : SameEffect .cSwsp .sw op (Row.swsp.expansion op) := by
  refine sameEffect (lengthNew.trans rfl) rfl storeBlind fun slot => ?_
  exact (decodeCss 2 some slot).trans (decodeEncodedS 2 some slot _ 2 _ _ _).symm

/- Both do nothing, where the wide opcode is `nop`. -/
theorem nopRuns (perf : Bool) (wide : Word) (slot : Slot) (s : Cpu) :
    R5.nop.runSized 2 perf wide slot s = some (s, insnCacheGet (slot.addr + BitVec.ofNat 32 2)) := by
  simp only [R5.runSized]
  rw [show R5.nop.args = Format.z.args from rfl, show R5.nop.decode = some from rfl, decodeZ]
  rfl

theorem addiRuns (perf : Bool) (slot : Slot) (s : Cpu) :
    R5.addi.runSized 2 perf (encodeI 0 0 0b000#3 0 0b0010011#7) slot s = some (s, insnCacheGet (slot.addr + BitVec.ofNat 32 2)) := by
  simp only [R5.runSized]
  rw [show R5.addi.args = Format.i.args from rfl, show R5.addi.decode = some from rfl, decodeEncodedI]
  rfl

theorem nopEffect : SameEffect .cNop .addi op (Row.nop.expansion op) := by
  intro perf slot s
  have wide := addiRuns perf slot s
  rw [show Row.nop.expansion op = encodeI 0 0 0b000#3 0 0b0010011#7 from rfl, wide]
  have length : R5.cNop.instr.len = 16 := lengthNew.trans rfl
  simp only [R5.run, R5.runSized, length]
  rw [show R5.cNop.args = CompressedFormat.ci1.args from rfl, show R5.cNop.decode = some from rfl, decodeCi1]
  exact accountEffect perf s .rvc _

theorem nopOpcode {wide : Word} (fits : R5.nop.instr.Matches wide.toNat) : wide = encodeI 0 0 0b000#3 0 0b0010011#7 := by
  have mask : pattern R5.nop.instr = (0xffffffff, 0x13) := patternNew.trans rfl
  rw [matchesPattern, mask] at fits
  apply BitVec.eq_of_toNat_eq
  have number : wide.toNat = 0x13 := by
    rw [← show _ = 0x13 from fits, show (0xffffffff : Nat) = 2 ^ 32 - 1 by rfl, Nat.and_two_pow_sub_one_eq_mod, Nat.mod_eq_of_lt wide.isLt]
  rw [number]
  decide +kernel

end Runs

section Expansion

open Spec Spec.Compressed

variable {row : Row} {op : Word}

def Expands (row : Row) (op : Word) : Prop :=
  ∃ tree, rv32cTree = .ok tree ∧ ∃ c ∈ rv32c, decodeItem (fun _ => true) op.toNat tree = some c.instr ∧
    (∃ r ∈ wideTable, r.instr.Matches (row.expansion op).toNat) ∧
    ∀ r ∈ wideTable, r.instr.Matches (row.expansion op).toNat → ∀ perf slot s, s.regs 0 = 0 →
      effect (c.run perf op slot s) = effect (r.runSized 2 perf (row.expansion op) slot s)

theorem expands {c x : R5} (entry : c ∈ rv32c) (walks : Walks op c) (decodes : DecodesTo (row.expansion op) x)
    (same : SameEffect c x op (row.expansion op)) : Expands row op := by
  refine ⟨_, rv32cBuilt, c, entry, walks, ⟨x, decodes.known, decodes.fits⟩, fun r member fits perf slot s zero => ?_⟩
  rcases decodes.sole r member fits with rfl | ⟨rfl, rfl⟩
  · exact same perf slot s
  · rw [same perf slot s, nopRuns, nopOpcode fits, addiRuns]

section Entries

variable {imm : BitVec 12} {first second target : BitVec 5} {three : BitVec 3} {seven code : BitVec 7}

theorem fieldsI : major (encodeI imm first three target code) = code ∧ Spec.funct3 (encodeI imm first three target code) = three :=
  ⟨encodedI.1, encodedI.2.2.1⟩

theorem fieldsR : major (encodeR seven second first three target code) = code ∧
    Spec.funct3 (encodeR seven second first three target code) = three ∧ funct7 (encodeR seven second first three target code) = seven :=
  ⟨encodedR.1, encodedR.2.2.1, encodedR.2.2.2.2.2.1⟩

theorem entryLui {imm : BitVec 20} : DecodesTo (encodeU imm target 0b0110111#7) .lui :=
  decodesMajor (i := 0) encodedU.1 rfl rfl rfl (by decide)

theorem entryJal {imm : BitVec 21} (even : imm.getLsbD 0 = false) : DecodesTo (encodeJ imm target 0b1101111#7) .jal :=
  decodesMajor (i := 2) (encodedJ ((BitVec.getLsbD_eq_getElem _).symm.trans even)).1 rfl rfl rfl (by decide)

theorem entryAddi : DecodesTo (encodeI imm first 0b000#3 target 0b0010011#7) .addi :=
  decodesThree (i := 10) fieldsI rfl rfl rfl (by decide)

theorem entryLw : DecodesTo (encodeI imm first 0b010#3 target 0b0000011#7) .lw :=
  decodesThree (i := 32) fieldsI rfl rfl rfl (by decide)

theorem entrySw : DecodesTo (encodeS imm second first 0b010#3 0b0100011#7) .sw :=
  decodesThree (i := 37) ⟨encodedS.1, encodedS.2.1⟩ rfl rfl rfl (by decide)

theorem entryAdd : DecodesTo (encodeR 0b0000000#7 second first 0b000#3 target 0b0110011#7) .add :=
  decodesSeven (i := 20) fieldsR rfl rfl rfl (by decide)

theorem entryJalr : DecodesTo (encodeI imm first 0b000#3 target 0b1100111#7) .jalr :=
  decodesThree (i := 3) fieldsI rfl rfl rfl (by decide)

end Entries

theorem tableEntry {c : R5} {i : Nat} (known : rv32c[i]? = some c) : c ∈ rv32c := List.mem_of_getElem? known

/- A legal opcode does what its expansion does. -/
theorem rv32cExpands (member : row ∈ rows) (legal : row.legal op) : Expands row op := by
  have target : ((jumpOffset op).signExtend 21).getLsbD 0 = false := evenOffset _
  have branch : ((branchOffset op).signExtend 13).getLsbD 0 = false := evenOffset _
  simp only [rows, List.mem_cons, List.not_mem_nil, or_false] at member
  rcases member with rfl | rfl | rfl | rfl | rfl | rfl | rfl | rfl | rfl | rfl | rfl | rfl | rfl | rfl | rfl | rfl | rfl | rfl | rfl |
    rfl | rfl | rfl | rfl | rfl | rfl | rfl
  · exact expands (tableEntry (i := 0) rfl) (leafWalks legal.1 legal.2.1 rfl rfl) entryAddi addi4spnEffect
  · exact expands (tableEntry (i := 1) rfl) (leafWalks legal.1 legal.2 rfl rfl) entryLw lwEffect
  · exact expands (tableEntry (i := 2) rfl) (leafWalks legal.1 legal.2 rfl rfl) entrySw swEffect
  · exact expands (tableEntry (i := 3) rfl) (nopWalks legal) entryAddi nopEffect
  · exact expands (tableEntry (i := 4) rfl) (addiWalks legal) entryAddi addiEffect
  · exact expands (tableEntry (i := 5) rfl) (leafWalks legal.1 legal.2 rfl rfl) (entryJal target) jalEffect
  · exact expands (tableEntry (i := 6) rfl) (leafWalks legal.1 legal.2 rfl rfl) entryAddi liEffect
  · exact expands (tableEntry (i := 7) rfl) (addi16spWalks legal) entryAddi addi16spEffect
  · exact expands (tableEntry (i := 8) rfl) (luiWalks legal) entryLui luiEffect
  · exact expands (tableEntry (i := 9) rfl) (codeWalks legal.1 legal.2.1 legal.2.2.1 rfl) (decodesSeven (i := 18) fieldsR rfl rfl rfl (by decide))
      (srliEffect legal.2.2.2)
  · exact expands (tableEntry (i := 10) rfl) (codeWalks legal.1 legal.2.1 legal.2.2.1 rfl) (decodesSeven (i := 19) fieldsR rfl rfl rfl (by decide))
      (sraiEffect legal.2.2.2)
  · exact expands (tableEntry (i := 11) rfl) (codeWalks legal.1 legal.2.1 legal.2.2 rfl) (decodesThree (i := 16) fieldsI rfl rfl rfl (by decide))
      andiEffect
  · exact expands (tableEntry (i := 12) rfl) (arithmeticWalks legal rfl) (decodesSeven (i := 21) fieldsR rfl rfl rfl (by decide))
      (arithmeticEffect (lengthNew.trans rfl))
  · exact expands (tableEntry (i := 13) rfl) (arithmeticWalks legal rfl) (decodesSeven (i := 25) fieldsR rfl rfl rfl (by decide))
      (arithmeticEffect (lengthNew.trans rfl))
  · exact expands (tableEntry (i := 14) rfl) (arithmeticWalks legal rfl) (decodesSeven (i := 28) fieldsR rfl rfl rfl (by decide))
      (arithmeticEffect (lengthNew.trans rfl))
  · exact expands (tableEntry (i := 15) rfl) (arithmeticWalks legal rfl) (decodesSeven (i := 29) fieldsR rfl rfl rfl (by decide))
      (arithmeticEffect (lengthNew.trans rfl))
  · exact expands (tableEntry (i := 16) rfl) (leafWalks legal.1 legal.2 rfl rfl) (entryJal target) jEffect
  · exact expands (tableEntry (i := 17) rfl) (leafWalks legal.1 legal.2 rfl rfl)
      (decodesThree (i := 4) ⟨(encodedB branch).1, (encodedB branch).2.1⟩ rfl rfl rfl (by decide)) (branchEffect 0b000#3 (lengthNew.trans rfl))
  · exact expands (tableEntry (i := 18) rfl) (leafWalks legal.1 legal.2 rfl rfl)
      (decodesThree (i := 5) ⟨(encodedB branch).1, (encodedB branch).2.1⟩ rfl rfl rfl (by decide)) (branchEffect 0b001#3 (lengthNew.trans rfl))
  · exact expands (tableEntry (i := 19) rfl) (leafWalks legal.1 legal.2.1 rfl rfl) (decodesSeven (i := 17) fieldsR rfl rfl rfl (by decide))
      (slliEffect legal.2.2)
  · exact expands (tableEntry (i := 20) rfl) (leafWalks legal.1 legal.2.1 rfl rfl) entryLw lwspEffect
  · exact expands (tableEntry (i := 21) rfl) (jrWalks legal) entryJalr jrEffect
  · exact expands (tableEntry (i := 22) rfl) (mvWalks legal) entryAdd mvEffect
  · exact expands (tableEntry (i := 23) rfl) (jalrWalks legal) entryJalr jalrEffect
  · exact expands (tableEntry (i := 24) rfl) (addWalks legal) entryAdd addEffect
  · exact expands (tableEntry (i := 25) rfl) (leafWalks legal.1 legal.2 rfl rfl) entrySw swspEffect

/- `c.jr x1`, the return from a function. -/
theorem rv32cExpandsReturn : Expands .jr 0x8082 := by
  have legal : Row.jr.legal 0x8082 := ⟨by decide, by decide, by decide, by decide, by decide⟩
  exact rv32cExpands (by simp [rows]) legal

end Expansion

end Gvsoc.Isa
