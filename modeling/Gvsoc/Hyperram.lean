import Gvsoc.Hyperflash

/-! `Hyperram`: the same bus as the flash, and bytes that are read and written as they are. -/
namespace Gvsoc.Hyperram
open Bytes (Byte putByte)
open Hyperflash (HyperState Action)

structure Ram where
  size : BitVec 32
  data : Int → Byte
  ca : BitVec 48
  caCount : Int
  currentAddress : BitVec 32
  regAccess : Bool
  state : HyperState

namespace Ram

variable (s : Ram)

def lowAddr : BitVec 3 := s.ca.extractLsb' 0 3
def highAddr : BitVec 29 := s.ca.extractLsb' 16 29
def addressSpace : Bool := s.ca.getLsbD 46
def read : Bool := s.ca.getLsbD 47

def handleAccess (_regAccess : Bool) (address : BitVec 32) (read : Bool) (data : Byte) : Ram × Option Byte :=
  if s.size.sle address then (s, none)
  else if read then (s, some (s.data address.toInt))
  else ({ s with data := Function.update s.data address.toInt data }, none)

def syncCycle (data : Byte) : Option (Ram × Option Byte) :=
  match s.state with
  | .ca =>
      let count := s.caCount - 1
      if 0 ≤ count ∧ count < 6 then
        let s := { s with caCount := count, ca := putByte s.ca count.toNat data }
        some (if count = 0 then { s with
          state := .data
          currentAddress := s.lowAddr.setWidth 32 ||| s.highAddr.setWidth 32 <<< 3
          regAccess := s.addressSpace } else s, none)
      else none
  | .data =>
      let (s, sent) := s.handleAccess s.regAccess s.currentAddress s.read data
      some ({ s with currentAddress := s.currentAddress + 1 }, sent)

def csSync (_value : Bool) : Ram := { s with state := .ca, caCount := 6 }

def act : Action → Option Ram
  | .byte data => (s.syncCycle data).map Prod.fst
  | .cs value => some (s.csSync value)

end Ram

end Gvsoc.Hyperram
