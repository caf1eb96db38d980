import Gvsoc.CShift
import Gvsoc.Rv32i

/-! The instructions of `rvXint64.hpp` on pairs of registers, the low word in the first of the two. -/
namespace Gvsoc.Isa
open CShift (shl shr sar)

abbrev Double := BitVec 64

section Pairs

def issGetReg64 (s : Cpu) (reg : Nat) : Double :=
  if reg = 0 then 0 else ((s.regs (reg + 1)).setWidth 64 <<< 32) + (s.regs reg).setWidth 64

def issSetReg64 (s : Cpu) (reg : Nat) (value : Double) : Cpu :=
  if reg ≠ 0 then
    let low := Function.update s.regs reg ((value &&& 0xFFFFFFFF).setWidth 32)
    { s with regs := Function.update low (reg + 1) ((value >>> 32).setWidth 32) }
  else s

def reg64Get (insn : Insn) (s : Cpu) (i : Nat) : Option Double := (insn.inRegs i).map (issGetReg64 s)

def reg64Set (insn : Insn) (s : Cpu) (i : Nat) (value : Double) : Option Cpu :=
  (insn.outRegs i).map (fun reg => issSetReg64 s reg value)

def computes64 (value : Insn → Cpu → Option Double) : Handler := fun insn s => do
  let s ← reg64Set insn s 0 (← value insn s)
  some (s, insn.next)

end Pairs

section Library

/- A field is masked by an `int`; the operands of these two have 32 bits. -/
def issGetField64 (val : Word) (shift bits : Nat) : Option Double := do
  let field ← shr val shift
  let mask ← shl 1#32 bits
  some ((field &&& (mask - 1#32)).setWidth 64)

def issGetSignedValue64 (val : Word) (bits : Nat) : Option Double := do
  sar (← shl (val.setWidth 64) (64 - bits)) (64 - bits)

def libSll64 (a b : Double) : Option Double := shl a b.toNat

def libSrl64 (a b : Double) : Option Double := shr a b.toNat

def libSra64 (a b : Double) : Option Double := sar a b.toNat

def libXor64 (a b : Double) : Option Double := some (a ^^^ b)

def libOr64 (a b : Double) : Option Double := some (a ||| b)

def libAnd64 (a b : Double) : Option Double := some (a &&& b)

def libAdd64 (a b : Double) : Option Double := some (a + b)

def libSub64 (a b : Double) : Option Double := some (a - b)

def libMinu64 (a b : Double) : Option Double := some (if a < b then a else b)

def libMins64 (a b : Double) : Option Double := some (if a.slt b then a else b)

def libMaxu64 (a b : Double) : Option Double := some (if b < a then a else b)

def libMaxs64 (a b : Double) : Option Double := some (if b.slt a then a else b)

def libAbs64 (a : Double) : Option Double := some (if a.slt 0 then -a else a)

def builtinPopcount (x : Word) : Word := BitVec.ofNat 32 ((List.range 32).countP x.getLsbD)

def libCnt64 (t : Double) : Option Word :=
  some (builtinPopcount ((t >>> 32 &&& 0xFFFFFFFF).setWidth 32) + builtinPopcount ((t &&& 0xFFFFFFFF).setWidth 32))

def libMacs64 (a : Double) (b c : Word) : Option Double := some (a + b.signExtend 64 * c.signExtend 64)

def libMsus64 (a : Double) (b c : Word) : Option Double := some (a - b.signExtend 64 * c.signExtend 64)

def libMacu64 (a : Double) (b c : Word) : Option Double := some (a + b.setWidth 64 * c.setWidth 64)

def libMsuu64 (a : Double) (b c : Word) : Option Double := some (a - b.setWidth 64 * c.setWidth 64)

def libMuls64 (a b : Word) : Option Double := some (a.signExtend 64 * b.signExtend 64)

def libMulu64 (a b : Word) : Option Double := some (a.setWidth 64 * b.setWidth 64)

end Library

section Handlers

def withPairs (f : Double → Double → Option Double) : Handler :=
  computes64 (fun insn s => do f (← reg64Get insn s 0) (← reg64Get insn s 1))

def comparePairs (f : Double → Double → Bool) : Handler :=
  computes (fun insn s => do truth (f (← reg64Get insn s 0) (← reg64Get insn s 1)))

def withPairUim (f : Double → Double → Option Double) : Handler :=
  computes64 (fun insn s => do f (← reg64Get insn s 0) ((← insn.uim 0).setWidth 64))

def withPairSim (f : Double → Double → Option Double) : Handler :=
  computes64 (fun insn s => do f (← reg64Get insn s 0) ((← insn.sim 0).signExtend 64))

def onPair (f : Double → Option Double) : Handler := computes64 (fun insn s => do f (← reg64Get insn s 0))

def onReg (f : Word → Option Double) : Handler := computes64 (fun insn s => do f (← regGet insn s 0))

def withRegs (f : Word → Word → Option Double) : Handler :=
  computes64 (fun insn s => do f (← regGet insn s 0) (← regGet insn s 1))

def accumulates (f : Double → Word → Word → Option Double) : Handler :=
  computes64 (fun insn s => do f (← reg64Get insn s 2) (← regGet insn s 0) (← regGet insn s 1))

def addDExec : Handler := withPairs libAdd64

def subDExec : Handler := withPairs libSub64

def sllDExec : Handler := withPairs libSll64

def sltDExec : Handler := comparePairs (fun a b => a.slt b)

def sltuDExec : Handler := comparePairs (fun a b => a.ult b)

def xorDExec : Handler := withPairs libXor64

def srlDExec : Handler := withPairs libSrl64

def sraDExec : Handler := withPairs libSra64

def orDExec : Handler := withPairs libOr64

def andDExec : Handler := withPairs libAnd64

def slliDExec : Handler := withPairUim libSll64

def srliDExec : Handler := withPairUim libSrl64

def sraiDExec : Handler := withPairUim libSra64

def addiDExec : Handler := withPairSim libAdd64

def sltiDExec : Handler :=
  computes (fun insn s => do truth ((← reg64Get insn s 0).slt ((← insn.sim 0).signExtend 64)))

def sltiuDExec : Handler :=
  computes (fun insn s => do truth ((← reg64Get insn s 0).ult ((← insn.uim 0).setWidth 64)))

def xoriDExec : Handler := withPairUim libXor64

def oriDExec : Handler := withPairUim libOr64

def andiDExec : Handler := withPairUim libAnd64

def pAbsDExec : Handler := onPair libAbs64

def pSeqDExec : Handler := comparePairs (fun a b => a == b)

def pSneDExec : Handler := comparePairs (fun a b => a != b)

def pSletDExec : Handler := comparePairs (fun a b => a.sle b)

def pSletuDExec : Handler := comparePairs (fun a b => a.ule b)

def pMinDExec : Handler := withPairs libMins64

def pMinuDExec : Handler := withPairs libMinu64

def pMaxDExec : Handler := withPairs libMaxs64

def pMaxuDExec : Handler := withPairs libMaxu64

def pCntDExec : Handler := computes (fun insn s => do libCnt64 (← reg64Get insn s 0))

def pExthsDExec : Handler := onReg (issGetSignedValue64 · 16)

def pExthzDExec : Handler := onReg (issGetField64 · 0 16)

def pExtbsDExec : Handler := onReg (issGetSignedValue64 · 8)

def pExtbzDExec : Handler := onReg (issGetField64 · 0 8)

def pExtwsDExec : Handler := onReg (issGetSignedValue64 · 32)

def pExtwzDExec : Handler := onReg (issGetField64 · 0 32)

def pMacDExec : Handler := accumulates libMacs64

def pMsuDExec : Handler := accumulates libMsus64

def pMacuDExec : Handler := accumulates libMacu64

def pMsuuDExec : Handler := accumulates libMsuu64

def pMulsDExec : Handler := withRegs libMuls64

def pMuluDExec : Handler := withRegs libMulu64

def pMulshDExec : Handler :=
  computes (fun insn s => do some (((← libMuls64 (← regGet insn s 0) (← regGet insn s 1)).sshiftRight 32).setWidth 32))

def pMuluhDExec : Handler :=
  computes (fun insn s => do some (((← libMulu64 (← regGet insn s 0) (← regGet insn s 1)) >>> 32).setWidth 32))

end Handlers

inductive Xint64 where
  | addD
  | subD
  | sllD
  | sltD
  | sltuD
  | xorD
  | srlD
  | sraD
  | orD
  | andD
  | slliD
  | srliD
  | sraiD
  | addiD
  | sltiD
  | sltiuD
  | xoriD
  | oriD
  | andiD
  | pAbsD
  | pSeqD
  | pSneD
  | pSletD
  | pSletuD
  | pMinD
  | pMinuD
  | pMaxD
  | pMaxuD
  | pCntD
  | pExthsD
  | pExthzD
  | pExtbsD
  | pExtbzD
  | pExtwsD
  | pExtwzD
  | pMacD
  | pMsuD
  | pMacuD
  | pMsuuD
  | pMulsD
  | pMuluD
  | pMulshD
  | pMuluhD
  deriving DecidableEq

def Xint64.exec : Xint64 → Handler
  | addD => addDExec
  | subD => subDExec
  | sllD => sllDExec
  | sltD => sltDExec
  | sltuD => sltuDExec
  | xorD => xorDExec
  | srlD => srlDExec
  | sraD => sraDExec
  | orD => orDExec
  | andD => andDExec
  | slliD => slliDExec
  | srliD => srliDExec
  | sraiD => sraiDExec
  | addiD => addiDExec
  | sltiD => sltiDExec
  | sltiuD => sltiuDExec
  | xoriD => xoriDExec
  | oriD => oriDExec
  | andiD => andiDExec
  | pAbsD => pAbsDExec
  | pSeqD => pSeqDExec
  | pSneD => pSneDExec
  | pSletD => pSletDExec
  | pSletuD => pSletuDExec
  | pMinD => pMinDExec
  | pMinuD => pMinuDExec
  | pMaxD => pMaxDExec
  | pMaxuD => pMaxuDExec
  | pCntD => pCntDExec
  | pExthsD => pExthsDExec
  | pExthzD => pExthzDExec
  | pExtbsD => pExtbsDExec
  | pExtbzD => pExtbzDExec
  | pExtwsD => pExtwsDExec
  | pExtwzD => pExtwzDExec
  | pMacD => pMacDExec
  | pMsuD => pMsuDExec
  | pMacuD => pMacuDExec
  | pMsuuD => pMsuuDExec
  | pMulsD => pMulsDExec
  | pMuluD => pMuluDExec
  | pMulshD => pMulshDExec
  | pMuluhD => pMuluhDExec

namespace Spec

structure Operands where
  x : Double
  y : Double
  z : Double
  a : Word
  b : Word
  imm : BitVec 5

inductive Result where
  | pair (value : Double)
  | single (value : Word)

def flag (b : Bool) : Result := .single (if b then 1 else 0)

def xint64 (o : Operands) : Xint64 → Result
  | .addD => .pair (BitVec.ofInt 64 (o.x.toInt + o.y.toInt))
  | .subD => .pair (BitVec.ofInt 64 (o.x.toInt - o.y.toInt))
  | .sllD => .pair (BitVec.ofNat 64 (o.x.toNat * 2 ^ (o.y.toNat % 64)))
  | .sltD => flag (o.x.toInt < o.y.toInt)
  | .sltuD => flag (o.x.toNat < o.y.toNat)
  | .xorD => .pair (o.x ^^^ o.y)
  | .srlD => .pair (BitVec.ofNat 64 (o.x.toNat / 2 ^ (o.y.toNat % 64)))
  | .sraD => .pair (BitVec.ofInt 64 (o.x.toInt / 2 ^ (o.y.toNat % 64)))
  | .orD => .pair (o.x ||| o.y)
  | .andD => .pair (o.x &&& o.y)
  | .slliD => .pair (BitVec.ofNat 64 (o.x.toNat * 2 ^ o.imm.toNat))
  | .srliD => .pair (BitVec.ofNat 64 (o.x.toNat / 2 ^ o.imm.toNat))
  | .sraiD => .pair (BitVec.ofInt 64 (o.x.toInt / 2 ^ o.imm.toNat))
  | .addiD => .pair (BitVec.ofInt 64 (o.x.toInt + o.imm.toInt))
  | .sltiD => flag (o.x.toInt < o.imm.toInt)
  | .sltiuD => flag (o.x.toNat < o.imm.toNat)
  | .xoriD => .pair (o.x ^^^ o.imm.setWidth 64)
  | .oriD => .pair (o.x ||| o.imm.setWidth 64)
  | .andiD => .pair (o.x &&& o.imm.setWidth 64)
  | .pAbsD => .pair (BitVec.ofInt 64 |o.x.toInt|)
  | .pSeqD => flag (o.x.toNat = o.y.toNat)
  | .pSneD => flag (o.x.toNat ≠ o.y.toNat)
  | .pSletD => flag (o.x.toInt ≤ o.y.toInt)
  | .pSletuD => flag (o.x.toNat ≤ o.y.toNat)
  | .pMinD => .pair (BitVec.ofInt 64 (min o.x.toInt o.y.toInt))
  | .pMinuD => .pair (BitVec.ofNat 64 (min o.x.toNat o.y.toNat))
  | .pMaxD => .pair (BitVec.ofInt 64 (max o.x.toInt o.y.toInt))
  | .pMaxuD => .pair (BitVec.ofNat 64 (max o.x.toNat o.y.toNat))
  | .pCntD => .single (BitVec.ofNat 32 ((List.range 64).countP o.x.getLsbD))
  | .pExthsD => .pair (BitVec.ofInt 64 (o.a.setWidth 16).toInt)
  | .pExthzD => .pair (BitVec.ofNat 64 (o.a.toNat % 2 ^ 16))
  | .pExtbsD => .pair (BitVec.ofInt 64 (o.a.setWidth 8).toInt)
  | .pExtbzD => .pair (BitVec.ofNat 64 (o.a.toNat % 2 ^ 8))
  | .pExtwsD => .pair (BitVec.ofInt 64 o.a.toInt)
  | .pExtwzD => .pair (BitVec.ofNat 64 o.a.toNat)
  | .pMacD => .pair (BitVec.ofInt 64 (o.z.toInt + o.a.toInt * o.b.toInt))
  | .pMsuD => .pair (BitVec.ofInt 64 (o.z.toInt - o.a.toInt * o.b.toInt))
  | .pMacuD => .pair (BitVec.ofInt 64 (o.z.toNat + o.a.toNat * o.b.toNat))
  | .pMsuuD => .pair (BitVec.ofInt 64 (o.z.toNat - o.a.toNat * o.b.toNat))
  | .pMulsD => .pair (BitVec.ofInt 64 (o.a.toInt * o.b.toInt))
  | .pMuluD => .pair (BitVec.ofNat 64 (o.a.toNat * o.b.toNat))
  | .pMulshD => .single (BitVec.ofInt 32 (o.a.toInt * o.b.toInt / 2 ^ 32))
  | .pMuluhD => .single (BitVec.ofNat 32 (o.a.toNat * o.b.toNat / 2 ^ 32))

def pairOf (regs : Nat → Word) (r : Nat) : Double := regs (r + 1) ++ regs r

def put (regs : Nat → Word) (d : Nat) : Result → Nat → Word
  | .pair value, r => if r = d then value.extractLsb' 0 32 else if r = d + 1 then value.extractLsb' 32 32 else regs r
  | .single value, r => if r = d then value else regs r

end Spec

end Gvsoc.Isa
