import Gvsoc.Rv32c
import Gvsoc.Rv32iSpec

/-! The instructions that the specification expands the compressed ones to. -/
namespace Gvsoc.Isa

namespace Spec

section Encodings

def encodeR (funct7 : BitVec 7) (rs2 rs1 : BitVec 5) (funct3 : BitVec 3) (rd : BitVec 5) (major : BitVec 7) : Word :=
  funct7 ++ rs2 ++ rs1 ++ funct3 ++ rd ++ major

def encodeI (imm : BitVec 12) (rs1 : BitVec 5) (funct3 : BitVec 3) (rd : BitVec 5) (major : BitVec 7) : Word :=
  imm ++ rs1 ++ funct3 ++ rd ++ major

def encodeS (imm : BitVec 12) (rs2 rs1 : BitVec 5) (funct3 : BitVec 3) (major : BitVec 7) : Word :=
  imm.extractLsb' 5 7 ++ rs2 ++ rs1 ++ funct3 ++ imm.extractLsb' 0 5 ++ major

def encodeB (imm : BitVec 13) (rs2 rs1 : BitVec 5) (funct3 : BitVec 3) (major : BitVec 7) : Word :=
  imm.extractLsb' 12 1 ++ imm.extractLsb' 5 6 ++ rs2 ++ rs1 ++ funct3 ++ imm.extractLsb' 1 4 ++ imm.extractLsb' 11 1 ++ major

def encodeU (imm : BitVec 20) (rd : BitVec 5) (major : BitVec 7) : Word := imm ++ rd ++ major

def encodeJ (imm : BitVec 21) (rd : BitVec 5) (major : BitVec 7) : Word :=
  imm.extractLsb' 20 1 ++ imm.extractLsb' 1 10 ++ imm.extractLsb' 11 1 ++ imm.extractLsb' 12 8 ++ rd ++ major

end Encodings

section Fields

variable {imm : BitVec 12} {first second target : BitVec 5} {three : BitVec 3} {seven code : BitVec 7}

theorem encodedR : major (encodeR seven second first three target code) = code ∧ rd (encodeR seven second first three target code) = target.toNat ∧
    funct3 (encodeR seven second first three target code) = three ∧ rs1 (encodeR seven second first three target code) = first.toNat ∧
    rs2 (encodeR seven second first three target code) = second.toNat ∧ funct7 (encodeR seven second first three target code) = seven ∧
    shamt (encodeR seven second first three target code) = second.setWidth 32 := by
  refine ⟨?_, congrArg BitVec.toNat ?_, ?_, congrArg BitVec.toNat ?_, congrArg BitVec.toNat ?_, ?_, congrArg (BitVec.setWidth 32) ?_⟩
  all_goals
    apply BitVec.eq_of_getLsbD_eq
    intro k small
    simp only [major, funct3, funct7, encodeR, BitVec.getLsbD_extractLsb', BitVec.getLsbD_append]
    interval_cases k <;> simp

theorem encodedI : major (encodeI imm first three target code) = code ∧ rd (encodeI imm first three target code) = target.toNat ∧
    funct3 (encodeI imm first three target code) = three ∧ rs1 (encodeI imm first three target code) = first.toNat ∧
    immI (encodeI imm first three target code) = imm.signExtend 32 := by
  refine ⟨?_, congrArg BitVec.toNat ?_, ?_, congrArg BitVec.toNat ?_, congrArg (BitVec.signExtend 32) ?_⟩
  all_goals
    apply BitVec.eq_of_getLsbD_eq
    intro k small
    simp only [major, funct3, encodeI, BitVec.getLsbD_extractLsb', BitVec.getLsbD_append]
    interval_cases k <;> simp

theorem encodedS : major (encodeS imm second first three code) = code ∧ funct3 (encodeS imm second first three code) = three ∧
    rs1 (encodeS imm second first three code) = first.toNat ∧ rs2 (encodeS imm second first three code) = second.toNat ∧
    immS (encodeS imm second first three code) = imm.signExtend 32 := by
  refine ⟨?_, ?_, congrArg BitVec.toNat ?_, congrArg BitVec.toNat ?_, congrArg (BitVec.signExtend 32) ?_⟩
  all_goals
    apply BitVec.eq_of_getLsbD_eq
    intro k small
    simp only [major, funct3, encodeS, BitVec.getLsbD_extractLsb', BitVec.getLsbD_append]
    interval_cases k <;> simp

theorem encodedB {imm : BitVec 13} (even : imm[0] = false) :
    major (encodeB imm second first three code) = code ∧ funct3 (encodeB imm second first three code) = three ∧
    rs1 (encodeB imm second first three code) = first.toNat ∧ rs2 (encodeB imm second first three code) = second.toNat ∧
    immB (encodeB imm second first three code) = imm.signExtend 32 := by
  refine ⟨?_, ?_, congrArg BitVec.toNat ?_, congrArg BitVec.toNat ?_, congrArg (BitVec.signExtend 32) ?_⟩
  all_goals
    apply BitVec.eq_of_getLsbD_eq
    intro k small
    simp only [major, funct3, encodeB, BitVec.getLsbD_extractLsb', BitVec.getLsbD_append, BitVec.getLsbD_zero]
    interval_cases k <;> simp [even]

theorem encodedU {imm : BitVec 20} : major (encodeU imm target code) = code ∧ rd (encodeU imm target code) = target.toNat ∧
    immU (encodeU imm target code) = imm ++ 0#12 := by
  refine ⟨?_, congrArg BitVec.toNat ?_, congrArg (· ++ 0#12) ?_⟩
  all_goals
    apply BitVec.eq_of_getLsbD_eq
    intro k small
    simp only [major, encodeU, BitVec.getLsbD_extractLsb', BitVec.getLsbD_append]
    interval_cases k <;> simp

theorem encodedJ {imm : BitVec 21} (even : imm[0] = false) :
    major (encodeJ imm target code) = code ∧ rd (encodeJ imm target code) = target.toNat ∧
    immJ (encodeJ imm target code) = imm.signExtend 32 := by
  refine ⟨?_, congrArg BitVec.toNat ?_, congrArg (BitVec.signExtend 32) ?_⟩
  all_goals
    apply BitVec.eq_of_getLsbD_eq
    intro k small
    simp only [major, encodeJ, BitVec.getLsbD_extractLsb', BitVec.getLsbD_append, BitVec.getLsbD_zero]
    interval_cases k <;> simp [even]

end Fields

namespace Compressed

section Operands

variable (op : Word)

def quadrant : BitVec 2 := op.extractLsb' 0 2

def funct3 : BitVec 3 := op.extractLsb' 13 3

def high : BitVec 1 := op.extractLsb' 12 1

def rd : BitVec 5 := op.extractLsb' 7 5

def rs2 : BitVec 5 := op.extractLsb' 2 5

/- The registers of the short fields are `x8` to `x15`. -/
def upper : BitVec 5 := 0b01#2 ++ op.extractLsb' 7 3

def lower : BitVec 5 := 0b01#2 ++ op.extractLsb' 2 3

def imm6 : BitVec 6 := op.extractLsb' 12 1 ++ op.extractLsb' 2 5

def wideImm : BitVec 12 :=
  0#2 ++ op.extractLsb' 7 4 ++ op.extractLsb' 11 2 ++ op.extractLsb' 5 1 ++ op.extractLsb' 6 1 ++ 0#2

def wordOffset : BitVec 12 := 0#5 ++ op.extractLsb' 5 1 ++ op.extractLsb' 10 3 ++ op.extractLsb' 6 1 ++ 0#2

def loadOffset : BitVec 12 := 0#4 ++ op.extractLsb' 2 2 ++ op.extractLsb' 12 1 ++ op.extractLsb' 4 3 ++ 0#2

def storeOffset : BitVec 12 := 0#4 ++ op.extractLsb' 7 2 ++ op.extractLsb' 9 4 ++ 0#2

def stackImm : BitVec 10 :=
  op.extractLsb' 12 1 ++ op.extractLsb' 3 2 ++ op.extractLsb' 5 1 ++ op.extractLsb' 2 1 ++ op.extractLsb' 6 1 ++ 0#4

def jumpOffset : BitVec 12 :=
  op.extractLsb' 12 1 ++ op.extractLsb' 8 1 ++ op.extractLsb' 9 2 ++ op.extractLsb' 6 1 ++ op.extractLsb' 7 1 ++
    op.extractLsb' 2 1 ++ op.extractLsb' 11 1 ++ op.extractLsb' 3 3 ++ 0#1

def branchOffset : BitVec 9 :=
  op.extractLsb' 12 1 ++ op.extractLsb' 5 2 ++ op.extractLsb' 2 1 ++ op.extractLsb' 10 2 ++ op.extractLsb' 3 2 ++ 0#1

end Operands

/- A compressed instruction: which opcodes it has, and what it expands to. The encodings that are reserved, and the shifts
by 32 or more, are no instruction. -/
structure Row where
  legal : Word → Prop
  expansion : Word → Word

namespace Row

def addi4spn : Row :=
  ⟨fun op => quadrant op = 0b00#2 ∧ funct3 op = 0b000#3 ∧ wideImm op ≠ 0,
   fun op => encodeI (wideImm op) 2 0b000#3 (lower op) 0b0010011#7⟩

def lw : Row :=
  ⟨fun op => quadrant op = 0b00#2 ∧ funct3 op = 0b010#3,
   fun op => encodeI (wordOffset op) (upper op) 0b010#3 (lower op) 0b0000011#7⟩

def sw : Row :=
  ⟨fun op => quadrant op = 0b00#2 ∧ funct3 op = 0b110#3,
   fun op => encodeS (wordOffset op) (lower op) (upper op) 0b010#3 0b0100011#7⟩

def nop : Row :=
  ⟨fun op => quadrant op = 0b01#2 ∧ funct3 op = 0b000#3 ∧ op.extractLsb' 2 11 = 0,
   fun _ => encodeI 0 0 0b000#3 0 0b0010011#7⟩

/- A `c.nop` with an immediate is one, too. -/
def addi : Row :=
  ⟨fun op => quadrant op = 0b01#2 ∧ funct3 op = 0b000#3 ∧ op.extractLsb' 2 11 ≠ 0,
   fun op => encodeI ((imm6 op).signExtend 12) (rd op) 0b000#3 (rd op) 0b0010011#7⟩

def jal : Row :=
  ⟨fun op => quadrant op = 0b01#2 ∧ funct3 op = 0b001#3,
   fun op => encodeJ ((jumpOffset op).signExtend 21) 1 0b1101111#7⟩

def li : Row :=
  ⟨fun op => quadrant op = 0b01#2 ∧ funct3 op = 0b010#3,
   fun op => encodeI ((imm6 op).signExtend 12) 0 0b000#3 (rd op) 0b0010011#7⟩

def addi16sp : Row :=
  ⟨fun op => quadrant op = 0b01#2 ∧ funct3 op = 0b011#3 ∧ rd op = 2 ∧ stackImm op ≠ 0,
   fun op => encodeI ((stackImm op).signExtend 12) 2 0b000#3 2 0b0010011#7⟩

def lui : Row :=
  ⟨fun op => quadrant op = 0b01#2 ∧ funct3 op = 0b011#3 ∧ rd op ≠ 2 ∧ imm6 op ≠ 0,
   fun op => encodeU ((imm6 op).signExtend 20) (rd op) 0b0110111#7⟩

def srli : Row :=
  ⟨fun op => quadrant op = 0b01#2 ∧ funct3 op = 0b100#3 ∧ op.extractLsb' 10 2 = 0b00#2 ∧ high op = 0,
   fun op => encodeR 0b0000000#7 (rs2 op) (upper op) 0b101#3 (upper op) 0b0010011#7⟩

def srai : Row :=
  ⟨fun op => quadrant op = 0b01#2 ∧ funct3 op = 0b100#3 ∧ op.extractLsb' 10 2 = 0b01#2 ∧ high op = 0,
   fun op => encodeR 0b0100000#7 (rs2 op) (upper op) 0b101#3 (upper op) 0b0010011#7⟩

def andi : Row :=
  ⟨fun op => quadrant op = 0b01#2 ∧ funct3 op = 0b100#3 ∧ op.extractLsb' 10 2 = 0b10#2,
   fun op => encodeI ((imm6 op).signExtend 12) (upper op) 0b111#3 (upper op) 0b0010011#7⟩

def arithmetic (code : BitVec 2) (funct7 : BitVec 7) (three : BitVec 3) : Row :=
  ⟨fun op => quadrant op = 0b01#2 ∧ funct3 op = 0b100#3 ∧ op.extractLsb' 10 2 = 0b11#2 ∧ high op = 0 ∧ op.extractLsb' 5 2 = code,
   fun op => encodeR funct7 (lower op) (upper op) three (upper op) 0b0110011#7⟩

def sub : Row := arithmetic 0b00#2 0b0100000#7 0b000#3

def xor : Row := arithmetic 0b01#2 0b0000000#7 0b100#3

def or : Row := arithmetic 0b10#2 0b0000000#7 0b110#3

def and : Row := arithmetic 0b11#2 0b0000000#7 0b111#3

def j : Row :=
  ⟨fun op => quadrant op = 0b01#2 ∧ funct3 op = 0b101#3,
   fun op => encodeJ ((jumpOffset op).signExtend 21) 0 0b1101111#7⟩

def beqz : Row :=
  ⟨fun op => quadrant op = 0b01#2 ∧ funct3 op = 0b110#3,
   fun op => encodeB ((branchOffset op).signExtend 13) 0 (upper op) 0b000#3 0b1100011#7⟩

def bnez : Row :=
  ⟨fun op => quadrant op = 0b01#2 ∧ funct3 op = 0b111#3,
   fun op => encodeB ((branchOffset op).signExtend 13) 0 (upper op) 0b001#3 0b1100011#7⟩

def slli : Row :=
  ⟨fun op => quadrant op = 0b10#2 ∧ funct3 op = 0b000#3 ∧ high op = 0,
   fun op => encodeR 0b0000000#7 (rs2 op) (rd op) 0b001#3 (rd op) 0b0010011#7⟩

def lwsp : Row :=
  ⟨fun op => quadrant op = 0b10#2 ∧ funct3 op = 0b010#3 ∧ rd op ≠ 0,
   fun op => encodeI (loadOffset op) 2 0b010#3 (rd op) 0b0000011#7⟩

def jr : Row :=
  ⟨fun op => quadrant op = 0b10#2 ∧ funct3 op = 0b100#3 ∧ high op = 0 ∧ rs2 op = 0 ∧ rd op ≠ 0,
   fun op => encodeI 0 (rd op) 0b000#3 0 0b1100111#7⟩

def mv : Row :=
  ⟨fun op => quadrant op = 0b10#2 ∧ funct3 op = 0b100#3 ∧ high op = 0 ∧ rs2 op ≠ 0,
   fun op => encodeR 0b0000000#7 (rs2 op) 0 0b000#3 (rd op) 0b0110011#7⟩

def jalr : Row :=
  ⟨fun op => quadrant op = 0b10#2 ∧ funct3 op = 0b100#3 ∧ high op = 1 ∧ rs2 op = 0 ∧ rd op ≠ 0,
   fun op => encodeI 0 (rd op) 0b000#3 1 0b1100111#7⟩

def add : Row :=
  ⟨fun op => quadrant op = 0b10#2 ∧ funct3 op = 0b100#3 ∧ high op = 1 ∧ rs2 op ≠ 0,
   fun op => encodeR 0b0000000#7 (rs2 op) (rd op) 0b000#3 (rd op) 0b0110011#7⟩

def swsp : Row :=
  ⟨fun op => quadrant op = 0b10#2 ∧ funct3 op = 0b110#3,
   fun op => encodeS (storeOffset op) (rs2 op) 2 0b010#3 0b0100011#7⟩

end Row

/- All but `c.ebreak`. -/
def rows : List Row :=
  [.addi4spn, .lw, .sw, .nop, .addi, .jal, .li, .addi16sp, .lui, .srli, .srai, .andi, .sub, .xor, .or, .and, .j, .beqz, .bnez,
    .slli, .lwsp, .jr, .mv, .jalr, .add, .swsp]

end Compressed

end Spec

end Gvsoc.Isa
