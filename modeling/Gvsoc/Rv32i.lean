import Gvsoc.InsnDecode

/-! The instructions of RV32I that compute, jump, branch and access the memory: their handlers, the fast ones without the
performance counters, and their entries in the table. The data port answers at once. -/
namespace Gvsoc.Isa
open Bytes (Byte littleEndian byteOf putBytes)
open CShift (shl shr sar)

section Core

inductive Pcer where
  | ld
  | st
  | jump
  | branch
  | takenBranch
  | rvc
  deriving DecidableEq

def Pcer.bit : Pcer → Nat
  | .ld => 5
  | .st => 6
  | .jump => 7
  | .branch => 8
  | .takenBranch => 9
  | .rvc => 10

structure Cpu where
  regs : Nat → Word
  mem : Word → Byte
  pcmrActive : Bool
  pcer : Word
  pccr : Pcer → Word
  insnCycles : Nat
  stackConf : Bool
  stackStart : Word
  stackEnd : Word

def issSetReg (s : Cpu) (reg : Nat) (value : Word) : Cpu :=
  if reg ≠ 0 then { s with regs := Function.update s.regs reg value } else s

def issPccrAccountEvent (s : Cpu) (event : Pcer) : Cpu :=
  if s.pcmrActive && s.pcer.getLsbD event.bit then { s with pccr := Function.update s.pccr event (s.pccr event + 1) } else s

def account (perf : Bool) (s : Cpu) (event : Pcer) : Cpu := if perf then issPccrAccountEvent s event else s

def issPerfAccountTakenBranch (s : Cpu) : Cpu := { s with insnCycles := s.insnCycles + 2 }

def issPerfAccountJump (s : Cpu) : Cpu := { s with insnCycles := s.insnCycles + 1 }

/- The bytes of a load go straight to the register, which was cleared. -/
def issLsuLoad (s : Cpu) (addr : Word) (size reg : Nat) : Option Cpu :=
  some (issSetReg s reg (BitVec.ofNat 32 (littleEndian (fun i => s.mem (addr + BitVec.ofNat 32 i)) size)))

def issLsuLoadSigned (s : Cpu) (addr : Word) (size reg : Nat) : Option Cpu := do
  let value ← issGetSignedValue (putBytes (s.regs reg) 0 size (fun i => s.mem (addr + BitVec.ofNat 32 i))) (size * 8)
  some (issSetReg s reg value)

def issLsuStore (s : Cpu) (addr : Word) (size reg : Nat) : Option Cpu :=
  some { s with mem := fun a => if (a - addr).toNat < size then byteOf (s.regs reg) (a - addr).toNat else s.mem a }

/- The simulation ends when the stack pointer leaves the stack. -/
def issLsuCheckStackAccess (s : Cpu) (reg : Option Nat) (addr : Word) : Option Unit :=
  if s.stackConf = true ∧ reg = some 2 ∧ (addr < s.stackStart ∨ s.stackEnd ≤ addr) then none else some ()

end Core

section Library

def libAdd (a b : Word) : Option Word := some (a + b)

def libSub (a b : Word) : Option Word := some (a - b)

def libXor (a b : Word) : Option Word := some (a ^^^ b)

def libOr (a b : Word) : Option Word := some (a ||| b)

def libAnd (a b : Word) : Option Word := some (a &&& b)

def libSll (a b : Word) : Option Word := shl a b.toNat

def libSrl (a b : Word) : Option Word := shr a b.toNat

def libSra (a b : Word) : Option Word := sar a b.toNat

def truth (b : Bool) : Option Word := some (if b then 1 else 0)

def lessSigned (a b : Word) : Option Word := truth (a.slt b)

def lessUnsigned (a b : Word) : Option Word := truth (a.ult b)

end Library

section Handlers

abbrev Handler := Insn → Cpu → Option (Cpu × Slot)

def regGet (insn : Insn) (s : Cpu) (i : Nat) : Option Word := (insn.inRegs i).map s.regs

def regSet (insn : Insn) (s : Cpu) (i : Nat) (value : Word) : Option Cpu := (insn.outRegs i).map (fun reg => issSetReg s reg value)

def computes (value : Insn → Cpu → Option Word) : Handler := fun insn s => do
  let s ← regSet insn s 0 (← value insn s)
  some (s, insn.next)

def withReg (f : Word → Word → Option Word) : Handler :=
  computes (fun insn s => do f (← regGet insn s 0) (← regGet insn s 1))

def withSim (f : Word → Word → Option Word) : Handler :=
  computes (fun insn s => do f (← regGet insn s 0) (← insn.sim 0))

def withUim (f : Word → Word → Option Word) : Handler :=
  computes (fun insn s => do f (← regGet insn s 0) (← insn.uim 0))

def luiExec : Handler := computes (fun insn _ => insn.uim 0)

def auipcExec : Handler := computes (fun insn _ => insn.uim 0)

def auipcDecode (insn : Insn) : Option Insn := do
  let uim ← insn.uim 0
  some { insn with uim := Function.update insn.uim 0 (some (uim + insn.slot.addr)) }

def link (insn : Insn) : Word := insn.slot.addr + BitVec.ofNat 32 insn.size

def jalExec (perf : Bool) : Handler := fun insn s => do
  let d ← insn.outRegs 0
  let s := if d ≠ 0 then issSetReg s d (link insn) else s
  some (issPerfAccountJump (account perf s .jump), insn.next)

def jalDecode (insn : Insn) : Option Insn := do
  some { insn with next := insnCacheGet (insn.slot.addr + (← insn.sim 0)) }

def jalrExec (perf : Bool) : Handler := fun insn s => do
  let next := insnCacheGet ((← insn.sim 0) + (← regGet insn s 0))
  let d ← insn.outRegs 0
  let s := if d ≠ 0 then issSetReg s d (link insn) else s
  some (issPerfAccountJump (account perf s .jump), next)

def bxxDecode (insn : Insn) : Option Insn := do
  some { insn with branch := some (insnCacheGet (insn.slot.addr + (← insn.sim 0))) }

def bxxExec (takes : Word → Word → Bool) (perf : Bool) : Handler := fun insn s => do
  if takes (← regGet insn s 0) (← regGet insn s 1) then
    some (issPerfAccountTakenBranch (account perf (account perf s .branch) .takenBranch), ← insn.branch)
  else some (account perf s .branch, insn.next)

def beqExec := bxxExec (fun a b => a == b)

def bneExec := bxxExec (fun a b => a != b)

def bltExec := bxxExec (fun a b => a.slt b)

def bgeExec := bxxExec (fun a b => b.sle a)

def bltuExec := bxxExec (fun a b => a.ult b)

def bgeuExec := bxxExec (fun a b => b.ule a)

def load (access : Cpu → Word → Nat → Nat → Option Cpu) (size : Nat) (perf : Bool) : Handler := fun insn s => do
  let addr := (← regGet insn s 0) + (← insn.sim 0)
  if perf then issLsuCheckStackAccess s (insn.inRegs 0) addr
  let s ← access (account perf s .ld) addr size (← insn.outRegs 0)
  some (s, insn.next)

def lbExec := load issLsuLoadSigned 1

def lhExec := load issLsuLoadSigned 2

def lwExec := load issLsuLoad 4

def lbuExec := load issLsuLoad 1

def lhuExec := load issLsuLoad 2

/- The stores check the register that they would set: they have none. -/
def store (size : Nat) (perf : Bool) : Handler := fun insn s => do
  let addr := (← regGet insn s 0) + (← insn.sim 0)
  if perf then issLsuCheckStackAccess s (insn.outRegs 0) addr
  let s ← issLsuStore (account perf s .st) addr size (← insn.inRegs 1)
  some (s, insn.next)

def sbExec := store 1

def shExec := store 2

def swExec := store 4

def addiExec := withSim libAdd

def nopExec : Handler := fun insn s => some (s, insn.next)

def sltiExec := withSim lessSigned

def sltiuExec := withSim lessUnsigned

def xoriExec := withSim libXor

def oriExec := withSim libOr

def andiExec := withSim libAnd

def slliExec := withUim libSll

def srliExec := withUim libSrl

def sraiExec := withUim libSra

def addExec := withReg libAdd

def subExec := withReg libSub

def sllExec := withReg libSll

def sltExec := withReg lessSigned

def sltuExec := withReg lessUnsigned

def xorExec := withReg libXor

def srlExec := withReg libSrl

def sraExec := withReg libSra

def orExec := withReg libOr

def andExec := withReg libAnd

end Handlers

section Table

inductive Format where
  | r
  | i
  | z
  | l
  | i1u
  | s
  | sb
  | u
  | uj

namespace Format

def out (ranges : List Range) : Arg := .outReg ⟨0, .range ranges, false⟩

def input (id : Nat) (ranges : List Range) : Arg := .inReg ⟨id, .range ranges, false⟩

def args : Format → List Arg
  | .r => [out [⟨7, 5, 0⟩], input 0 [⟨15, 5, 0⟩], input 1 [⟨20, 5, 0⟩]]
  | .i => [out [⟨7, 5, 0⟩], input 0 [⟨15, 5, 0⟩], .signedImm ⟨0, .range [⟨20, 12, 0⟩], true⟩]
  | .z => []
  | .l => [out [⟨7, 5, 0⟩], .indirect ⟨0, .range [⟨15, 5, 0⟩], false⟩ ⟨0, .range [⟨20, 12, 0⟩], true⟩]
  | .i1u => [out [⟨7, 5, 0⟩], input 0 [⟨15, 5, 0⟩], .unsignedImm ⟨0, .range [⟨20, 5, 0⟩], false⟩]
  | .s => [input 1 [⟨20, 5, 0⟩], .indirect ⟨0, .range [⟨15, 5, 0⟩], false⟩ ⟨0, .range [⟨7, 5, 0⟩, ⟨25, 7, 5⟩], true⟩]
  | .sb => [input 0 [⟨15, 5, 0⟩], input 1 [⟨20, 5, 0⟩],
      .signedImm ⟨0, .range [⟨7, 1, 11⟩, ⟨8, 4, 1⟩, ⟨25, 6, 5⟩, ⟨31, 1, 12⟩], true⟩]
  | .u => [out [⟨7, 5, 0⟩], .unsignedImm ⟨0, .range [⟨12, 20, 12⟩], false⟩]
  | .uj => [out [⟨7, 5, 0⟩], .signedImm ⟨0, .range [⟨12, 8, 12⟩, ⟨20, 1, 11⟩, ⟨21, 10, 1⟩, ⟨31, 1, 20⟩], true⟩]

end Format

/- An entry of the table: `handler false` is the fast handler. -/
structure R5 where
  instr : Decoder.Instr
  args : List Arg
  decode : Insn → Option Insn
  handler : Bool → Handler

def R5.new (label : String) (format : Format) (encoding : String) (handler : Bool → Handler)
    (decode : Insn → Option Insn := some) : R5 :=
  ⟨Decoder.Instr.new label encoding.toList, format.args, decode, handler⟩

def R5.runSized (r : R5) (size : Nat) (perf : Bool) (opcode : Word) (slot : Slot) (s : Cpu) : Option (Cpu × Slot) := do
  r.handler perf (← decodeInsn size r.args r.decode slot opcode) s

def R5.run (r : R5) : Bool → Word → Slot → Cpu → Option (Cpu × Slot) := r.runSized (r.instr.len / 8)

namespace R5

def lui : R5 := .new "lui" .u "------- ----- ----- --- ----- 0110111" (fun _ => luiExec)

def auipc : R5 := .new "auipc" .u "------- ----- ----- --- ----- 0010111" (fun _ => auipcExec) auipcDecode

def jal : R5 := .new "jal" .uj "------- ----- ----- --- ----- 1101111" jalExec jalDecode

def jalr : R5 := .new "jalr" .i "------- ----- ----- 000 ----- 1100111" jalrExec

def beq : R5 := .new "beq" .sb "------- ----- ----- 000 ----- 1100011" beqExec bxxDecode

def bne : R5 := .new "bne" .sb "------- ----- ----- 001 ----- 1100011" bneExec bxxDecode

def blt : R5 := .new "blt" .sb "------- ----- ----- 100 ----- 1100011" bltExec bxxDecode

def bge : R5 := .new "bge" .sb "------- ----- ----- 101 ----- 1100011" bgeExec bxxDecode

def bltu : R5 := .new "bltu" .sb "------- ----- ----- 110 ----- 1100011" bltuExec bxxDecode

def bgeu : R5 := .new "bgeu" .sb "------- ----- ----- 111 ----- 1100011" bgeuExec bxxDecode

def addi : R5 := .new "addi" .i "------- ----- ----- 000 ----- 0010011" (fun _ => addiExec)

def nop : R5 := .new "nop" .z "0000000 00000 00000 000 00000 0010011" (fun _ => nopExec)

def slti : R5 := .new "slti" .i "------- ----- ----- 010 ----- 0010011" (fun _ => sltiExec)

def sltiu : R5 := .new "sltiu" .i "------- ----- ----- 011 ----- 0010011" (fun _ => sltiuExec)

def xori : R5 := .new "xori" .i "------- ----- ----- 100 ----- 0010011" (fun _ => xoriExec)

def ori : R5 := .new "ori" .i "------- ----- ----- 110 ----- 0010011" (fun _ => oriExec)

def andi : R5 := .new "andi" .i "------- ----- ----- 111 ----- 0010011" (fun _ => andiExec)

def slli : R5 := .new "slli" .i1u "0000000 ----- ----- 001 ----- 0010011" (fun _ => slliExec)

def srli : R5 := .new "srli" .i1u "0000000 ----- ----- 101 ----- 0010011" (fun _ => srliExec)

def srai : R5 := .new "srai" .i1u "0100000 ----- ----- 101 ----- 0010011" (fun _ => sraiExec)

def add : R5 := .new "add" .r "0000000 ----- ----- 000 ----- 0110011" (fun _ => addExec)

def sub : R5 := .new "sub" .r "0100000 ----- ----- 000 ----- 0110011" (fun _ => subExec)

def sll : R5 := .new "sll" .r "0000000 ----- ----- 001 ----- 0110011" (fun _ => sllExec)

def slt : R5 := .new "slt" .r "0000000 ----- ----- 010 ----- 0110011" (fun _ => sltExec)

def sltu : R5 := .new "sltu" .r "0000000 ----- ----- 011 ----- 0110011" (fun _ => sltuExec)

def xor : R5 := .new "xor" .r "0000000 ----- ----- 100 ----- 0110011" (fun _ => xorExec)

def srl : R5 := .new "srl" .r "0000000 ----- ----- 101 ----- 0110011" (fun _ => srlExec)

def sra : R5 := .new "sra" .r "0100000 ----- ----- 101 ----- 0110011" (fun _ => sraExec)

def or : R5 := .new "or" .r "0000000 ----- ----- 110 ----- 0110011" (fun _ => orExec)

def and : R5 := .new "and" .r "0000000 ----- ----- 111 ----- 0110011" (fun _ => andExec)

def lb : R5 := .new "lb" .l "------- ----- ----- 000 ----- 0000011" lbExec

def lh : R5 := .new "lh" .l "------- ----- ----- 001 ----- 0000011" lhExec

def lw : R5 := .new "lw" .l "------- ----- ----- 010 ----- 0000011" lwExec

def lbu : R5 := .new "lbu" .l "------- ----- ----- 100 ----- 0000011" lbuExec

def lhu : R5 := .new "lhu" .l "------- ----- ----- 101 ----- 0000011" lhuExec

def sb : R5 := .new "sb" .s "------- ----- ----- 000 ----- 0100011" sbExec

def sh : R5 := .new "sh" .s "------- ----- ----- 001 ----- 0100011" shExec

def sw : R5 := .new "sw" .s "------- ----- ----- 010 ----- 0100011" swExec

end R5

/- The fences and the system instructions are left out: they neither compute nor access the memory. -/
def rv32i : List R5 :=
    [.lui, .auipc, .jal, .jalr, .beq, .bne, .blt, .bge, .bltu, .bgeu, .addi, .nop, .slti, .sltiu, .xori, .ori, .andi,
    .slli, .srli, .srai, .add, .sub, .sll, .slt, .sltu, .xor, .srl, .sra, .or, .and]

def rv32iAccesses : List R5 :=
    [.lb, .lh, .lw, .lbu, .lhu, .sb, .sh, .sw]

end Table

end Gvsoc.Isa
