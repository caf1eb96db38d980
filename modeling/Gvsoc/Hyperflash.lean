import Gvsoc.Bytes
import Gvsoc.Machine

/-! `Hyperflash`: commands come as 16-bit words over an 8-bit bus, erase commands only after
an unlock sequence. -/
namespace Gvsoc.Hyperflash
open Bytes (Byte putByte)

inductive State where
  | waitCmd0
  | waitCmd1
  | waitCmd2
  | waitCmd3
  | waitCmd4
  | waitCmd5
  | programStart
  | program
  | getStatusReg
  deriving DecidableEq, Repr

inductive HyperState where
  | ca
  | data
  deriving DecidableEq, Repr

/- `data` is all that can be addressed from the data pointer; the flash array is its part from
0 up to `size`. -/
structure Flash where
  size : BitVec 32
  data : Int → Byte
  state : State
  hyperState : HyperState
  pendingBytes : BitVec 32
  pendingCmd : BitVec 16
  ca : BitVec 48
  caCount : Int
  currentAddress : BitVec 32
  regAccess : Bool
  burstWrite : Bool
  nbWord : BitVec 32
  sector : BitVec 32

/- A command word with its word address, `address >> 1` of a signed address. -/
structure Word where
  address : BitVec 32
  cmd : BitVec 16
  deriving DecidableEq

def sectorSize : BitVec 32 := 0x40000

namespace Flash

variable (s : Flash)

def lowAddr : BitVec 3 := s.ca.extractLsb' 0 3
def highAddr : BitVec 29 := s.ca.extractLsb' 16 29
def addressSpace : Bool := s.ca.getLsbD 46
def read : Bool := s.ca.getLsbD 47

def eraseSector (addr : BitVec 32) : Flash :=
  let addr := addr &&& ~~~(sectorSize - 1)
  if s.size ≤ addr then s
  else {s with data := fun i => if addr.toNat ≤ i ∧ i < addr.toNat + sectorSize.toNat then 0xff else s.data i}

/- `addr < addr + size` over unsigned numbers: the loop ends when the sum wraps. There are
2 ^ 14 sector addresses; a loop that has seen them all is back at the first one, for good. -/
def eraseChipFrom (s : Flash) (addr : BitVec 32) : Nat → Option Flash
  | 0 => none
  | left + 1 =>
      if addr < addr + s.size then eraseChipFrom (s.eraseSector addr) (addr + sectorSize) left else some s

def eraseChip : Option Flash := s.eraseChipFrom 0 (2 ^ 14 + 1)

def andByte (address : BitVec 32) (value : Byte) : Flash :=
  {s with data := Function.update s.data address.toInt (s.data address.toInt &&& value)}

def programByte (address : BitVec 32) (data : Byte) : Flash :=
  let newValue := s.data address.toInt &&& data
  if s.burstWrite then
    if address.sshiftRight 1 = s.sector ∧ data = 0x29 then {s with burstWrite := false, nbWord := -1}
    else
      let s := s.andByte address newValue
      if s.pendingBytes ≠ 0 then {s with nbWord := s.nbWord - 1, pendingBytes := 0} else {s with pendingBytes := 1}
  else s.andByte address data

def command (address : BitVec 32) (word : Word) : Option Flash :=
  match s.state with
  | .waitCmd0 =>
      if word.address = 0x555 ∧ word.cmd = 0xAA then some {s with state := .waitCmd1}
      else if word.address = 0x555 ∧ word.cmd = 0x70 then
        some {s with state := .getStatusReg, pendingBytes := 2, pendingCmd := 0x80}
      else some s
  | .waitCmd1 =>
      if word.address = 0x2AA ∧ word.cmd = 0x55 then some {s with state := .waitCmd2} else some s
  | .waitCmd2 =>
      if word.address = 0x555 ∧ word.cmd = 0xA0 then some {s with state := .programStart}
      else if word.address = 0x555 ∧ word.cmd = 0x80 then some {s with state := .waitCmd3}
      else if word.address = 0x555 ∧ word.cmd = 0x38 then some {s with state := .waitCmd0}
      else if word.cmd = 0x25 then
        some {s with burstWrite := true, sector := word.address, state := .waitCmd2}
      else if word.address = s.sector ∧ s.burstWrite then
        some {s with nbWord := word.cmd.setWidth 32, state := .programStart}
      else some s
  | .waitCmd3 =>
      if word.address = 0x555 ∧ word.cmd = 0xAA then some {s with state := .waitCmd4} else some s
  | .waitCmd4 =>
      if word.address = 0x2AA ∧ word.cmd = 0x55 then some {s with state := .waitCmd5} else some s
  | .waitCmd5 =>
      if word.address = 0x555 ∧ word.cmd = 0x10 then
        s.eraseChip.map (fun s => {s with state := .waitCmd0})
      else if word.cmd = 0x30 then some {s.eraseSector address with state := .waitCmd0}
      else some s
  | _ => some s

def wordOf (address : BitVec 32) (data : Byte) : Word :=
  ⟨address.sshiftRight 1, s.pendingCmd ||| data.setWidth 16 <<< 8⟩

/- With the byte sent back on a read. Below zero an address is not out of bounds. -/
def handleAccess (_regAccess : Bool) (address : BitVec 32) (read : Bool) (data : Byte) :
    Option (Flash × Option Byte) :=
  if s.size.sle address then some (s, none)
  else if read then
    match s.state with
    | .getStatusReg =>
        let sent := s.pendingCmd.setWidth 8
        let s := {s with pendingBytes := s.pendingBytes - 1, pendingCmd := s.pendingCmd >>> 8}
        some (if s.pendingBytes = 0 then {s with state := .waitCmd0} else s, some sent)
    | _ => some (s, some (s.data address.toInt))
  else if s.state = .program then some (s.programByte address data, none)
  else if s.pendingBytes = 0 then some ({s with pendingCmd := data.setWidth 16, pendingBytes := 1}, none)
  else ({s with pendingCmd := 0, pendingBytes := 0}.command address (s.wordOf address data)).map (fun s => (s, none))

/- One byte of the bus. A command byte outside `ca.raw` has no meaning; it can only come
before the first edge of the chip select. -/
def syncCycle (data : Byte) : Option (Flash × Option Byte) :=
  match s.hyperState with
  | .ca =>
      let count := s.caCount - 1
      if 0 ≤ count ∧ count < 6 then
        let s := {s with caCount := count, ca := putByte s.ca count.toNat data}
        some (if count = 0 then {s with
          hyperState := .data
          currentAddress := s.lowAddr.setWidth 32 ||| s.highAddr.setWidth 32 <<< 3
          regAccess := s.addressSpace} else s, none)
      else none
  | .data =>
      (s.handleAccess s.regAccess s.currentAddress s.read data).map
        (fun done => ({done.1 with currentAddress := done.1.currentAddress + 1}, done.2))

def csSync (value : Bool) : Flash :=
  let s := {s with hyperState := .ca, caCount := 6}
  if value then s
  else match s.state with
    | .programStart => {s with state := .program}
    | .program => if s.nbWord.slt 0 then {s with state := .waitCmd0} else {s with state := .program}
    | _ => s

structure Built : Prop where
  state : s.state = .waitCmd0
  pendingBytes : s.pendingBytes = 0
  pendingCmd : s.pendingCmd = 0
  burstWrite : s.burstWrite = false
  nbWord : s.nbWord = -1

end Flash

inductive Action where
  | byte (data : Byte)
  | cs (value : Bool)
  deriving DecidableEq

def Flash.completes (s : Flash) (data : Byte) : Option Word :=
  if s.hyperState = .data ∧ s.read = false ∧ s.state ≠ .program ∧ s.pendingBytes ≠ 0 ∧
      s.size.sle s.currentAddress = false
  then some (s.wordOf s.currentAddress data) else none

def Flash.erases (s : Flash) (word : Word) : Bool :=
  s.state = .waitCmd5 ∧ ((word.address = 0x555 ∧ word.cmd = 0x10) ∨ word.cmd = 0x30)

/- The flash, and the command words it has received since it was last told to erase. -/
structure Session where
  flash : Flash
  words : List Word

def Session.log (s : Session) (word : Word) : List Word :=
  if s.flash.erases word then [] else s.words ++ [word]

def step (s : Session) : Action → Option Session
  | .byte data => (s.flash.syncCycle data).map
      (fun done => ⟨done.1, match s.flash.completes data with
        | some word => s.log word
        | none => s.words⟩)
  | .cs value => some ⟨s.flash.csSync value, s.words⟩

end Gvsoc.Hyperflash
