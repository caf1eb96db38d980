import Gvsoc.Bytes

/-! `Fxl6408`, an I2C port expander, and the two-wire bus between it and its master. -/
namespace Gvsoc.Fxl6408
open Bytes (Byte)

inductive I2cState where
  | waitStart
  | waitAddress
  | getData
  | sampleData
  | ack
  | readAck
  deriving DecidableEq, Repr

structure Registers where
  deviceId : Byte
  ioDir : Byte
  outputState : Byte
  outputHighZ : Byte
  inputDefaultState : Byte
  pullEnable : Byte
  pullDownUp : Byte
  inputStatus : Byte
  interruptMask : Byte
  interruptStatus : Byte
  deriving DecidableEq, Repr

structure Slave where
  deviceAddress : BitVec 32
  beingAddressed : Bool
  i2cAddress : BitVec 32
  pendingData : Byte
  isRead : Bool
  state : I2cState
  pendingBits : Int
  pendingSendByte : BitVec 32
  regAddress : Byte
  waitingRegAddress : Bool
  regs : Registers
  deriving DecidableEq, Repr

structure Expander extends Slave where
  prevSda : Bool
  prevScl : Bool
  deriving DecidableEq, Repr

/- The other addresses are reported and ignored. -/
def Registers.handleRegWrite (r : Registers) (address value : Byte) : Registers :=
  if address = 0x01 then {r with deviceId := value}
  else if address = 0x03 then {r with ioDir := value}
  else if address = 0x05 then {r with outputState := value}
  else if address = 0x07 then {r with outputHighZ := value}
  else if address = 0x09 then {r with inputDefaultState := value}
  else if address = 0x0B then {r with pullEnable := value}
  else if address = 0x0D then {r with pullDownUp := value}
  else if address = 0x0F then {r with inputStatus := value}
  else if address = 0x11 then {r with interruptMask := value}
  else if address = 0x13 then {r with interruptStatus := value}
  else r

def Registers.handleRegRead (r : Registers) (address : Byte) : Byte :=
  if address = 0x01 then r.deviceId
  else if address = 0x03 then r.ioDir
  else if address = 0x05 then r.outputState
  else if address = 0x07 then r.outputHighZ
  else if address = 0x09 then r.inputDefaultState
  else if address = 0x0B then r.pullEnable
  else if address = 0x0D then r.pullDownUp
  else if address = 0x0F then r.inputStatus
  else if address = 0x11 then r.interruptMask
  else if address = 0x13 then r.interruptStatus
  else 0xFF

namespace Slave

variable (s : Slave)

def i2cSendByte (byte : Byte) : Slave := {s with pendingSendByte := byte.setWidth 32}

def i2cStart (address : BitVec 32) (isRead : Bool) : Slave :=
  let s := {s with beingAddressed := address = s.deviceAddress}
  if s.beingAddressed ∧ isRead then s.i2cSendByte (s.regs.handleRegRead s.regAddress) else s

def i2cHandleByte (byte : Byte) : Slave :=
  if s.waitingRegAddress then {s with regAddress := byte, waitingRegAddress := false}
  else {s with regs := s.regs.handleRegWrite s.regAddress byte, waitingRegAddress := true}

def started : Slave := {s with state := .waitAddress, i2cAddress := 0, pendingBits := 8}

def stopped : Slave := {s with state := .waitStart}

def rising (sda : Bool) : Slave :=
  match s.state with
  | .waitAddress =>
      let s := if 1 < s.pendingBits
        then {s with i2cAddress := s.i2cAddress <<< 1 ||| (BitVec.ofBool sda).setWidth 32}
        else {s with isRead := sda}
      let s := {s with pendingBits := s.pendingBits - 1}
      if s.pendingBits = 0 then {s.i2cStart s.i2cAddress s.isRead with state := .ack, pendingBits := 8} else s
  | .sampleData =>
      let s := {s with
        pendingData := s.pendingData <<< 1 ||| (BitVec.ofBool sda).setWidth 8
        pendingBits := s.pendingBits - 1}
      if s.pendingBits = 0 then {{s with pendingBits := 8}.i2cHandleByte s.pendingData with state := .ack} else s
  | .ack =>
      if s.beingAddressed then
        if s.isRead then {s with state := .getData, pendingBits := 8} else {s with state := .sampleData}
      else {s with state := .waitStart}
  | .readAck => {s with state := .waitStart}
  | _ => s

def falling : Slave × Bool :=
  match s.state with
  | .ack => (s, !s.beingAddressed)
  | .readAck => (s, false)
  | .getData =>
      let sdo := s.pendingSendByte.getLsbD 7
      let s := {s with pendingSendByte := s.pendingSendByte <<< 1, pendingBits := s.pendingBits - 1}
      (if s.pendingBits = 0 then {s with state := .readAck} else s, sdo)
  | _ => (s, true)

end Slave

def Expander.i2cSync (s : Expander) (scl sda : Bool) : Expander × Option Bool :=
  if scl && s.prevSda != sda then
    (⟨if s.prevSda then s.started else s.stopped, sda, scl⟩, none)
  else if !s.prevScl && scl then (⟨s.rising sda, sda, scl⟩, none)
  else if s.prevScl && !scl then (⟨s.falling.1, sda, scl⟩, some s.falling.2)
  else (⟨s.toSlave, sda, scl⟩, none)

structure Slave.Built (s : Slave) : Prop where
  state : s.state = .waitStart
  beingAddressed : s.beingAddressed = false
  deviceAddress : s.deviceAddress = 0x43
  waitingRegAddress : s.waitingRegAddress = true
  regs : s.regs = ⟨0xC2, 0x00, 0x00, 0xFF, 0x00, 0xFF, 0x00, 0xFF, 0x00, 0xFF⟩

/- `I2c_bus` between the master and the expander. SDA is low when one of them pulls it low;
the expander never pulls SCL. -/
structure Bus where
  expander : Expander
  driven : Bool
  scl : Bool
  sda : Bool
  deriving DecidableEq, Repr

structure Drive where
  scl : Bool
  sda : Bool
  deriving DecidableEq, Repr

/- One turn of the loop in `I2c_bus::sync`: only changes are propagated. -/
def Bus.resolve (s : Bus) (d : Drive) : Bus :=
  let sda := d.sda && s.driven
  if d.scl = s.scl ∧ sda = s.sda then s
  else
    let (expander, sdo) := s.expander.i2cSync d.scl sda
    ⟨expander, sdo.getD s.driven, d.scl, sda⟩

/- The expander answers a falling edge of SCL only, so the loop ends with its second turn. -/
def Bus.drive (s : Bus) (d : Drive) : Bus := (s.resolve d).resolve d

def Bus.run (s : Bus) (wave : List Drive) : Bus := wave.foldl Bus.drive s

def Bus.samples (s : Bus) : List Drive → List Bool
  | [] => []
  | d :: rest =>
      let next := s.drive d
      if !s.scl && d.scl then next.sda :: next.samples rest else next.samples rest

def Bus.initial (s : Slave) : Bus := ⟨⟨s, true, true⟩, true, true, true⟩

end Gvsoc.Fxl6408
