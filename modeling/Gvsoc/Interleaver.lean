import Gvsoc.Io

/-! The interleaver: consecutive blocks of an address range go to the slaves in turn. Shifts and
masks are made of the 32-bit integer 1; the language leaves open what a shift of it by 32 and
more gives, and `beyond` stands for that. -/
namespace Gvsoc.Interleave
open Io (IoStatus)

abbrev Word := BitVec 64

structure Config where
  nbSlaves : Nat
  configBits : Nat
  interleavingBits : Nat
  removeOffset : Word
  slaves : nbSlaves < 2 ^ 31

variable (beyond : Nat → BitVec 32) (c : Config)

def Config.stageBits : Nat := if c.configBits = 0 then Nat.log2 c.nbSlaves else c.configBits

def one (bits : Nat) : BitVec 32 := if bits < 32 then 1#32 <<< bits else beyond bits

def Config.portSize : BitVec 32 := one beyond c.interleavingBits

def Config.offsetMask : Word := (~~~(one beyond (c.interleavingBits + c.stageBits) - 1)).signExtend 64

def Config.outputId (offset : Word) : Nat :=
  ((offset >>> c.interleavingBits) &&& (one beyond c.stageBits - 1).signExtend 64).toNat

def Config.newOffset (offset : Word) : Word :=
  ((offset &&& c.offsetMask beyond) >>> c.stageBits) + (offset &&& (one beyond c.interleavingBits - 1).signExtend 64)

structure Req where
  addr : Word
  size : Word
  data : Word
  deriving DecidableEq, Repr

structure Forward where
  input : Word
  output : Nat
  addr : Word
  size : Word
  data : Word
  deriving DecidableEq, Repr

structure Loop where
  req : Req
  offset : Word
  size : Word
  data : Word
  alignSize : BitVec 32
  forwards : List Forward
  deriving DecidableEq, Repr

structure Returned where
  status : IoStatus
  req : Req
  forwards : List Forward
  deriving DecidableEq, Repr

/- The bytes up to the next block, or a whole one, or what is left. -/
def Loop.loopSize (s : Loop) : Word :=
  let size := if s.alignSize ≠ 0 then s.alignSize else c.portSize beyond
  (if s.size < size.signExtend 64 then s.size.setWidth 32 else size).signExtend 64

def Loop.forward (s : Loop) : Loop :=
  let size := s.loopSize beyond c
  let piece : Forward := ⟨s.offset + c.removeOffset, c.outputId beyond s.offset, c.newOffset beyond s.offset, size, s.data⟩
  { req := ⟨piece.addr, size, s.data⟩
    offset := s.offset + size
    size := s.size - size
    data := if s.data = 0 then s.data else s.data + size
    alignSize := 0
    forwards := s.forwards ++ [piece] }

/- The loop, if it ends within `fuel` turns; the slaves answer in turn. -/
def Loop.run (answers : Nat → IoStatus) (first : Req) : Nat → Loop → Option Returned
  | fuel, s =>
      if s.size = 0 then some ⟨.ok, first, s.forwards⟩
      else
        match fuel with
        | 0 => none
        | fuel + 1 =>
            let next := s.forward beyond c
            match answers s.forwards.length with
            | .ok => next.run answers first fuel
            | .pending =>
                some ⟨if s.size = s.loopSize beyond c then .pending else .invalid, next.req, next.forwards⟩
            | _ => some ⟨.invalid, next.req, next.forwards⟩

def Config.alignSize (offset : Word) : BitVec 32 :=
  let align : BitVec 32 := (offset &&& (c.portSize beyond - 1).signExtend 64).setWidth 32
  if align ≠ 0 then c.portSize beyond - align else align

def Config.req (answers : Nat → IoStatus) (fuel : Nat) (r : Req) : Option Returned :=
  Loop.run beyond c answers r fuel ⟨r, r.addr - c.removeOffset, r.size, r.data, c.alignSize beyond r.addr, []⟩

end Gvsoc.Interleave
