import Gvsoc.Bytes
import Gvsoc.ShiftRegister

/-! `spiflash`: a serial flash, which takes bits and drives its lines at the rising edges of the clock. -/
namespace Gvsoc.SpiFlash
open Bytes (Byte)
open ShiftRegister (bit)

structure Lines where
  data0 : Bool
  data1 : Bool
  data2 : Bool
  data3 : Bool
  deriving DecidableEq, Repr

inductive Output
  | sync (lines : Lines) (mask : BitVec 4)
  | unknownCommand (cmd : Byte)
  | outOfBound (address size : BitVec 32)
  deriving DecidableEq, Repr

inductive Handler
  | writeAnyRegister
  | pageProgram
  | quadRead
  | singleRead
  | sectorErase
  | readSr2v
  deriving DecidableEq, Repr

inductive StartHandler
  | readSr2vStart
  deriving DecidableEq, Repr

structure Command where
  id : Byte
  desc : String
  handler : Option Handler
  startHandler : Option StartHandler
  deriving DecidableEq, Repr

def commandsDescs : List Command :=
  [⟨0x9f, "read ID", none, none⟩,
   ⟨0x35, "read config", none, none⟩,
   ⟨0x06, "write enable", none, none⟩,
   ⟨0x48, "write register", none, none⟩,
   ⟨0x71, "write any register", some .writeAnyRegister, none⟩,
   ⟨0x05, "read status register", none, none⟩,
   ⟨0x20, "parameter 4k erase", none, none⟩,
   ⟨0x02, "page program", some .pageProgram, none⟩,
   ⟨0xEB, "quad IO read", none, none⟩,
   ⟨0xEC, "quad IO read", some .quadRead, none⟩,
   ⟨0x0C, "IO read", some .singleRead, none⟩,
   ⟨0x03, "IO read", some .singleRead, none⟩,
   ⟨0x66, "Reset enable", none, none⟩,
   ⟨0x99, "Reset", none, none⟩,
   ⟨0xD8, "Sector erase", some .sectorErase, none⟩,
   ⟨0x07, "Read SR2V", some .readSr2v, some .readSr2vStart⟩]

def commands : Byte → Option Command :=
  commandsDescs.foldl (fun table command => Function.update table command.id (some command)) fun _ => none

/- Only the first `size` bytes of `memData` are used. -/
structure Flash where
  size : BitVec 32
  memData : Nat → Byte
  pendingWord : BitVec 32
  pendingBits : Int
  pendingCommandId : Byte
  pendingCommand : Option Command
  cr1 : Byte
  sr2v : Byte
  quad : Bool
  read : Bool
  waitingCommand : Bool
  currentAddr : BitVec 32
  sectorEraseEvent : Option Nat

def line (value : BitVec 32) : Bool := value != 0

namespace Flash

variable (s : Flash)

/- `pending_bits` is an `int`, and nothing is promised once it overflows. -/
def count (n : Int) : Option Flash :=
  if -2147483648 ≤ s.pendingBits + n ∧ s.pendingBits + n ≤ 2147483647 then some { s with pendingBits := s.pendingBits + n } else none

def enqueueBits (lines : Lines) : Option Flash :=
  if s.quad = false then
    (if s.read = false then { s with pendingWord := s.pendingWord <<< 1 ||| bit 32 lines.data0 } else s).count 1
  else
    (if s.read = false then { s with
      pendingWord := s.pendingWord <<< 4 ||| bit 32 lines.data3 <<< 3 ||| bit 32 lines.data2 <<< 2 ||| bit 32 lines.data1 <<< 1 |||
        bit 32 lines.data0 <<< 0 } else s).count 4

def sendBits : Flash × List Output :=
  if s.read = true then
    if s.quad = false then
      let value := s.pendingWord >>> 7 &&& 0x1
      ({ s with pendingWord := s.pendingWord <<< 1 }, [.sync ⟨false, line value, false, false⟩ 2])
    else
      let value := s.pendingWord >>> 4 &&& 0xf
      ({ s with pendingWord := s.pendingWord <<< 4 },
        [.sync ⟨line (value >>> 0 &&& 1), line (value >>> 1 &&& 1), line (value >>> 2 &&& 1), line (value >>> 3 &&& 1)⟩ 0xf])
  else (s, [])

def startCommand : Flash :=
  { s with waitingCommand := true, pendingBits := 8, quad := false, read := false, pendingWord := 0 }

def pageProgram (lines : Lines) : Option (Flash × List Output) :=
  (s.enqueueBits lines).map fun s =>
    let s := if s.pendingBits = 24 then { s with currentAddr := s.pendingWord &&& 0xffffff, read := false } else s
    if 32 ≤ s.pendingBits ∧ s.pendingBits.tmod 8 = 0 then
      if s.size ≤ s.currentAddr then (s, [.outOfBound s.currentAddr s.size])
      else ({ s with
        memData := Function.update s.memData s.currentAddr.toNat (s.pendingWord.setWidth 8)
        currentAddr := s.currentAddr + 1 }, [])
    else (s, [])

def sectorEraseDone : Flash := { s with sr2v := s.sr2v ||| (1 : Byte) <<< 2, sectorEraseEvent := none }

def sectorErase (lines : Lines) : Option (Flash × List Output) :=
  let s := if s.pendingBits = 0 then { s with sr2v := s.sr2v &&& ~~~((1 : Byte) <<< 2) } else s
  (s.enqueueBits lines).map fun s =>
    (if s.pendingBits = 24 then { s with currentAddr := s.pendingWord, sectorEraseEvent := some 1000000 } else s, [])

def readSr2vStart : Flash × List Output := { s with pendingWord := s.sr2v.setWidth 32, read := true }.sendBits

def readSr2v (_lines : Lines) : Option (Flash × List Output) := some s.sendBits

/- The end of both reads: a byte of the memory is loaded at its first bit, from the bit `first` on. -/
def readOut (first : Int) : Flash × List Output :=
  if first ≤ s.pendingBits ∧ s.pendingBits.tmod 8 = 0 then
    if s.size ≤ s.currentAddr then (s, [.outOfBound s.currentAddr s.size])
    else { s with pendingWord := (s.memData s.currentAddr.toNat).setWidth 32, currentAddr := s.currentAddr + 1 }.sendBits
  else s.sendBits

def quadRead (lines : Lines) : Option (Flash × List Output) :=
  let s := if s.pendingBits = 0 then { s with quad := true } else s
  (s.enqueueBits lines).map fun s =>
    let s := if s.pendingBits = 32 then { s with currentAddr := s.pendingWord } else s
    let s := if s.pendingBits = 40 then { s with read := true } else s
    s.readOut 40

def singleRead (lines : Lines) : Option (Flash × List Output) :=
  (s.enqueueBits lines).map fun s =>
    let s := if s.pendingBits = 24 then { s with currentAddr := s.pendingWord &&& 0xffffff, read := true } else s
    s.readOut 24

def writeAnyRegister (lines : Lines) : Option (Flash × List Output) :=
  (s.enqueueBits lines).map fun (s : Flash) =>
    if s.pendingBits = 32 then
      let addr := s.pendingWord >>> 8
      let value := s.pendingWord &&& 0xff
      ((if addr = 0x800002 then { s with cr1 := value.setWidth 8 } else s).startCommand, [])
    else (s, [])

def handle : Handler → Lines → Option (Flash × List Output)
  | .writeAnyRegister => s.writeAnyRegister
  | .pageProgram => s.pageProgram
  | .quadRead => s.quadRead
  | .singleRead => s.singleRead
  | .sectorErase => s.sectorErase
  | .readSr2v => s.readSr2v

def selectCommand : Flash × List Output :=
  let id : Byte := (s.pendingWord &&& 0xff).setWidth 8
  let s := { s with waitingCommand := false, pendingCommandId := id, pendingCommand := commands id }
  match s.pendingCommand with
  | none => (s.startCommand, [.unknownCommand id])
  | some command =>
      match command.startHandler with
      | some .readSr2vStart => s.readSr2vStart
      | none => (s, [])

/- Data has no meaning before the first command. -/
def handleData (lines : Lines) : Option (Flash × List Output) :=
  if s.waitingCommand = true then
    (count { s with pendingWord := s.pendingWord <<< 1 ||| bit 32 lines.data0 } (-1)).map fun s =>
      if s.pendingBits = 0 then s.selectCommand else (s, [])
  else
    match s.pendingCommand with
    | none => none
    | some command =>
        match command.handler with
        | none => some (s, [])
        | some handler => s.handle handler lines

def csSync (active : Bool) : Flash := if active = false then s.startCommand else s

def clock : Flash → List Lines → Option (Flash × List (List Output))
  | s, [] => some (s, [])
  | s, lines :: rest => do
      let (s, sent) ← s.handleData lines
      let (s, later) ← clock s rest
      some (s, sent :: later)

end Flash

inductive Event
  | cs (active : Bool)
  | edge (sck : Bool) (lines : Lines)
  | sectorEraseDone
  deriving DecidableEq, Repr

def run : Flash → List Event → Option (Flash × List (List Output))
  | s, [] => some (s, [])
  | s, .cs active :: rest => run (s.csSync active) rest
  | s, .edge false _ :: rest => run s rest
  | s, .edge true lines :: rest => do
      let (s, sent) ← s.handleData lines
      let (s, later) ← run s rest
      some (s, sent :: later)
  | s, .sectorEraseDone :: rest => run s.sectorEraseDone rest

end Gvsoc.SpiFlash
