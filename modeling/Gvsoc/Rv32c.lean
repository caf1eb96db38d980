import Gvsoc.Rv32i

/-! The compressed instructions: their formats, their handlers, which are those of RV32I, and their decode tree. -/
namespace Gvsoc.Isa
open Decoder (Instr Item dumpTree decodeItem)

section Handlers

def compressed (handler : Bool → Handler) (perf : Bool) : Handler := fun insn s => handler perf insn (account perf s .rvc)

def cAddi4spnExec := compressed (fun _ => addiExec)

def cLwExec := compressed lwExec

def cSwExec := compressed swExec

def cNopExec := compressed (fun _ => nopExec)

def cAddiExec := compressed (fun _ => addiExec)

def cJalExec := compressed jalExec

def cLiExec := compressed (fun _ => addiExec)

def cAddi16spExec := compressed (fun _ => addiExec)

def cLuiExec := compressed (fun _ => luiExec)

def cSrliExec := compressed (fun _ => srliExec)

def cSraiExec := compressed (fun _ => sraiExec)

def cAndiExec := compressed (fun _ => andiExec)

def cSubExec := compressed (fun _ => subExec)

def cXorExec := compressed (fun _ => xorExec)

def cOrExec := compressed (fun _ => orExec)

def cAndExec := compressed (fun _ => andExec)

def cJExec := compressed jalExec

def cBeqzExec := compressed beqExec

def cBnezExec := compressed bneExec

def cSlliExec := compressed (fun _ => slliExec)

def cLwspExec := compressed lwExec

def cJrExec := compressed jalrExec

def cMvExec := compressed (fun _ => addExec)

def cJalrExec := compressed jalrExec

def cAddExec := compressed (fun _ => addExec)

def cSwspExec := compressed swExec

end Handlers

section Table

inductive CompressedFormat where
  | cr
  | cr1
  | cr2
  | cr3
  | ci1
  | ci1u
  | ci3
  | ci4
  | ci5
  | ci6
  | css
  | ciw
  | cl
  | cs
  | cs2
  | cb1
  | cb2
  | cb2s
  | cj
  | cj1

namespace CompressedFormat
open Format (out input)

def outConst (value : Nat) : Arg := .outReg ⟨0, .const value, false⟩

def outComp (ranges : List Range) : Arg := .outReg ⟨0, .range ranges, true⟩

def inConst (id value : Nat) : Arg := .inReg ⟨id, .const value, false⟩

def inComp (id : Nat) (ranges : List Range) : Arg := .inReg ⟨id, .range ranges, true⟩

def signed (ranges : List Range) (isSigned : Bool := true) : Arg := .signedImm ⟨0, .range ranges, isSigned⟩

def unsigned (ranges : List Range) (isSigned : Bool := false) : Arg := .unsignedImm ⟨0, .range ranges, isSigned⟩

def jumpRanges : List Range :=
  [⟨3, 3, 1⟩, ⟨11, 1, 4⟩, ⟨2, 1, 5⟩, ⟨7, 1, 6⟩, ⟨6, 1, 7⟩, ⟨9, 2, 8⟩, ⟨8, 1, 10⟩, ⟨12, 1, 11⟩]

def args : CompressedFormat → List Arg
  | .cr => [out [⟨7, 5, 0⟩], input 0 [⟨7, 5, 0⟩], input 1 [⟨2, 5, 0⟩]]
  | .cr1 => [outConst 0, input 0 [⟨7, 5, 0⟩], inConst 1 0, .signedImm ⟨0, .const 0, true⟩]
  | .cr2 => [out [⟨7, 5, 0⟩], inConst 0 0, input 1 [⟨2, 5, 0⟩]]
  | .cr3 => [outConst 1, input 0 [⟨7, 5, 0⟩], input 1 [⟨2, 5, 0⟩], .signedImm ⟨0, .const 0, true⟩]
  | .ci1 => [out [⟨7, 5, 0⟩], input 0 [⟨7, 5, 0⟩], signed [⟨2, 5, 0⟩, ⟨12, 1, 5⟩]]
  | .ci1u => [out [⟨7, 5, 0⟩], input 0 [⟨7, 5, 0⟩], unsigned [⟨2, 5, 0⟩, ⟨12, 1, 5⟩]]
  | .ci3 => [out [⟨7, 5, 0⟩],
      .indirect ⟨0, .const 2, false⟩ ⟨0, .range [⟨4, 3, 2⟩, ⟨12, 1, 5⟩, ⟨2, 2, 6⟩], false⟩]
  | .ci4 => [outConst 2, inConst 0 2, signed [⟨6, 1, 4⟩, ⟨2, 1, 5⟩, ⟨5, 1, 6⟩, ⟨3, 2, 7⟩, ⟨12, 1, 9⟩]]
  | .ci5 => [out [⟨7, 5, 0⟩], unsigned [⟨2, 5, 12⟩, ⟨12, 1, 17⟩] true]
  | .ci6 => [out [⟨7, 5, 0⟩], inConst 0 0, signed [⟨2, 5, 0⟩, ⟨12, 1, 5⟩]]
  | .css => [input 1 [⟨2, 5, 0⟩], .indirect ⟨0, .const 2, false⟩ ⟨0, .range [⟨9, 4, 2⟩, ⟨7, 2, 6⟩], false⟩]
  | .ciw => [outComp [⟨2, 3, 0⟩], inConst 0 2, signed [⟨6, 1, 2⟩, ⟨5, 1, 3⟩, ⟨11, 2, 4⟩, ⟨7, 4, 6⟩] false]
  | .cl => [outComp [⟨2, 3, 0⟩],
      .indirect ⟨0, .range [⟨7, 3, 0⟩], true⟩ ⟨0, .range [⟨6, 1, 2⟩, ⟨10, 3, 3⟩, ⟨5, 1, 6⟩], false⟩]
  | .cs => [inComp 1 [⟨2, 3, 0⟩],
      .indirect ⟨0, .range [⟨7, 3, 0⟩], true⟩ ⟨0, .range [⟨6, 1, 2⟩, ⟨10, 3, 3⟩, ⟨5, 1, 6⟩], false⟩]
  | .cs2 => [outComp [⟨7, 3, 0⟩], inComp 0 [⟨7, 3, 0⟩], inComp 1 [⟨2, 3, 0⟩]]
  | .cb1 => [inComp 0 [⟨7, 3, 0⟩], inConst 1 0, signed [⟨3, 2, 1⟩, ⟨10, 2, 3⟩, ⟨2, 1, 5⟩, ⟨5, 2, 6⟩, ⟨12, 1, 8⟩]]
  | .cb2 => [outComp [⟨7, 3, 0⟩], inComp 0 [⟨7, 3, 0⟩], unsigned [⟨2, 5, 0⟩, ⟨12, 1, 5⟩]]
  | .cb2s => [outComp [⟨7, 3, 0⟩], inComp 0 [⟨7, 3, 0⟩], signed [⟨2, 5, 0⟩, ⟨12, 1, 5⟩]]
  | .cj => [outConst 0, signed jumpRanges]
  | .cj1 => [outConst 1, signed jumpRanges]

end CompressedFormat

def R5.compressed (label : String) (format : CompressedFormat) (encoding : String) (handler : Bool → Handler)
    (decode : Insn → Option Insn := some) : R5 :=
  ⟨Instr.new label encoding.toList, format.args, decode, handler⟩

namespace R5

def cAddi4spn : R5 := .compressed "c.addi4spn" .ciw "000 --- --- -- --- 00" cAddi4spnExec

def cLw : R5 := .compressed "c.lw" .cl "010 --- --- -- --- 00" cLwExec

def cSw : R5 := .compressed "c.sw" .cs "110 --- --- -- --- 00" cSwExec

def cNop : R5 := .compressed "c.nop" .ci1 "000 000 000 00 000 01" cNopExec

def cAddi : R5 := .compressed "c.addi" .ci1 "000 --- --- -- --- 01" cAddiExec

def cJal : R5 := .compressed "c.jal" .cj1 "001 --- --- -- --- 01" cJalExec jalDecode

def cLi : R5 := .compressed "c.li" .ci6 "010 --- --- -- --- 01" cLiExec

def cAddi16sp : R5 := .compressed "c.addi16sp" .ci4 "011 -00 010 -- --- 01" cAddi16spExec

def cLui : R5 := .compressed "c.lui" .ci5 "011 --- --- -- --- 01" cLuiExec

def cSrli : R5 := .compressed "c.srli" .cb2 "100 -00 --- -- --- 01" cSrliExec

def cSrai : R5 := .compressed "c.srai" .cb2 "100 -01 --- -- --- 01" cSraiExec

def cAndi : R5 := .compressed "c.andi" .cb2s "100 -10 --- -- --- 01" cAndiExec

def cSub : R5 := .compressed "c.sub" .cs2 "100 011 --- 00 --- 01" cSubExec

def cXor : R5 := .compressed "c.xor" .cs2 "100 011 --- 01 --- 01" cXorExec

def cOr : R5 := .compressed "c.or" .cs2 "100 011 --- 10 --- 01" cOrExec

def cAnd : R5 := .compressed "c.and" .cs2 "100 011 --- 11 --- 01" cAndExec

def cJ : R5 := .compressed "c.j" .cj "101 --- --- -- --- 01" cJExec jalDecode

def cBeqz : R5 := .compressed "c.beqz" .cb1 "110 --- --- -- --- 01" cBeqzExec bxxDecode

def cBnez : R5 := .compressed "c.bnez" .cb1 "111 --- --- -- --- 01" cBnezExec bxxDecode

def cSlli : R5 := .compressed "c.slli" .ci1u "000 --- --- -- --- 10" cSlliExec

def cLwsp : R5 := .compressed "c.lwsp" .ci3 "010 --- --- -- --- 10" cLwspExec

def cJr : R5 := .compressed "c.jr" .cr1 "100 0-- --- 00 000 10" cJrExec

def cMv : R5 := .compressed "c.mv" .cr2 "100 0-- --- -- --- 10" cMvExec

def cJalr : R5 := .compressed "c.jalr" .cr3 "100 1-- --- 00 000 10" cJalrExec

def cAdd : R5 := .compressed "c.add" .cr "100 1-- --- -- --- 10" cAddExec

def cSwsp : R5 := .compressed "c.swsp" .css "110 --- --- -- --- 10" cSwspExec

end R5

def rv32c : List R5 :=
    [.cAddi4spn, .cLw, .cSw, .cNop, .cAddi, .cJal, .cLi, .cAddi16sp, .cLui, .cSrli, .cSrai, .cAndi, .cSub, .cXor,
    .cOr, .cAnd, .cJ, .cBeqz, .cBnez, .cSlli, .cLwsp, .cJr, .cMv, .cJalr, .cAdd, .cSwsp]

/- The two breakpoints are in the tree, but not modelled further: they neither compute nor access the memory. -/
def cEbreak : Instr := Instr.new "c.ebreak" "100 100 000 00 000 10".toList

def cSbreak : Instr := Instr.new "c.sbreak" "100 000 000 00 000 10".toList

def rv32cEncodings : List Instr := (rv32c.map R5.instr).insertIdx 23 cEbreak ++ [cSbreak]

def rv32cTree : Except Decoder.BuildError Item := dumpTree rv32cEncodings

end Table

end Gvsoc.Isa
