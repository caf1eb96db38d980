import Gvsoc.Io

/-! The SPI master of the testbench and the boot loading that runs over it. One exec drives one
edge of the clock, and starts the next transfer when there is none. What it puts on the pins is
returned beside the state; times and traces are left out. -/
namespace Gvsoc.Spim
open Bytes (Byte wordBytes)

def cmdBufferSize : Nat := 256

/- The memory, and behind it the buffer of the boot commands. -/
def memSize (memSizeLog2 : Nat) : Nat := 2 ^ memSizeLog2 + cmdBufferSize

inductive SpisState where
  | idle
  | startWaitCycles
  | csStartPreStartCycles
  | csStart
  | csStartPostWaitCycles
  | transfer
  | csEndWaitCycles
  | csEnd
  | endWaitCycles
  deriving DecidableEq, Repr

inductive SpisBootState where
  | idle
  | sendSof
  | checkSof
  | getAckStep0
  | getAckStep1
  | getAckStep2
  | receiveCrc
  | receiveData
  | receiveDataCrc
  | sendDataCrc
  | sendData
  | sendDataDone
  | sendWakeupCmd
  | sendWakeupStatus
  | sendWakeupStatusResponse
  | sendWakeupExit
  | sendWakeupDoLoad
  deriving DecidableEq, Repr

structure SpiLoaderSection where
  access : Bool
  buffer : List Byte
  addr : BitVec 32
  size : Nat
  deriving DecidableEq, Repr

structure SpiLoadConfig where
  stimuli : List (BitVec 32 × BitVec 32)
  entry : BitVec 32

structure Transfer where
  data : Nat → Byte
  slaveSck : Bool
  slaveWaitCycles : Int
  slavePendingRxBits : Nat
  slavePendingRxByte : BitVec 32
  slavePendingRxAddr : Nat
  slavePendingRxSize : Int
  slavePendingTxBits : Nat
  slavePendingTxByte : BitVec 32
  slavePendingTxAddr : Nat
  slavePendingTxSize : Int
  slavePendingIsTx : Bool
  slavePendingIsRx : Bool
  slavePendingMiso : BitVec 32
  slavePendingMosi : Nat
  slaveState : SpisState
  isEnqueued : Bool

structure SpimVerif extends Transfer where
  slaveBootAddress : BitVec 32
  slaveBootVerifAddress : Nat
  slaveBootSize : Int
  slaveBootIsRx : Bool
  slaveBootState : SpisBootState
  slaveBootJump : Bool
  sections : List SpiLoaderSection
  currentSectionLoad : Nat
  initPads : Bool
  spiLoadConfig : Option SpiLoadConfig
  handleWakeup : Bool
  doSpiLoad : Bool
  reloadSpi : Bool

/- What the master drives: the chip select, or the clock with the line to the slave (2 when it is
not driven). -/
inductive Pin where
  | cs (value : Nat)
  | sync (sck : Bool) (mosi : Nat)
  deriving DecidableEq, Repr

def enqueueTransfer (address : Nat) (size : Int) (isRx isDuplex : Bool) (t : Transfer) : Transfer :=
  { t with
    slavePendingMosi := 2
    slavePendingRxAddr := address
    slavePendingTxAddr := address
    slaveWaitCycles := 4
    slavePendingIsRx := isRx || isDuplex
    slavePendingIsTx := !isRx || isDuplex
    slavePendingRxSize := if isRx || isDuplex then size else 0
    slavePendingTxSize := if !isRx || isDuplex then size else 0
    slavePendingRxBits := 0
    slavePendingTxBits := 0
    slaveSck := false
    slaveState := .startWaitCycles
    isEnqueued := true }

def loadByte (t : Transfer) : Transfer :=
  if t.slavePendingTxBits = 0 then
    { t with
      slavePendingTxBits := 8
      slavePendingTxByte := (t.data t.slavePendingTxAddr).setWidth 32
      slavePendingTxAddr := t.slavePendingTxAddr + 1 }
  else t

def shiftBit (t : Transfer) : Transfer :=
  { t with
    slavePendingMosi := (t.slavePendingTxByte >>> 7 &&& 1).toNat
    slavePendingTxByte := t.slavePendingTxByte <<< 1
    slavePendingTxBits := t.slavePendingTxBits - 1
    slavePendingTxSize :=
      if t.slavePendingTxBits - 1 = 0 then t.slavePendingTxSize - 1 else t.slavePendingTxSize }

/- The next bit to the slave; the transfer ends with it when nothing is received. -/
def pushBit (t : Transfer) : Transfer :=
  let t := shiftBit (loadByte t)
  if t.slavePendingTxSize = 0 ∧ t.slavePendingIsRx = false then
    { t with slaveState := .csEndWaitCycles, slaveWaitCycles := 5 }
  else t

def sampleBit (t : Transfer) : Transfer :=
  let t := { t with
    slavePendingRxByte := t.slavePendingRxByte <<< 1 ||| t.slavePendingMiso
    slavePendingRxBits := t.slavePendingRxBits + 1 }
  if t.slavePendingRxBits = 8 then
    let t := { t with
      data := Function.update t.data t.slavePendingRxAddr (t.slavePendingRxByte.setWidth 8)
      slavePendingRxSize := t.slavePendingRxSize - 1
      slavePendingRxAddr := t.slavePendingRxAddr + 1
      slavePendingRxBits := 0 }
    if t.slavePendingRxSize = 0 then { t with slaveState := .csEndWaitCycles, slaveWaitCycles := 5 } else t
  else t

def execLow (t : Transfer) : Transfer × Bool × List Pin :=
  match t.slaveState with
  | .idle => (t, false, [])
  | .startWaitCycles =>
      let t := { t with slaveWaitCycles := t.slaveWaitCycles - 1 }
      (if t.slaveWaitCycles = 0 then { t with slaveState := .csStartPreStartCycles, slaveWaitCycles := 5 } else t, true, [])
  | .csStartPreStartCycles =>
      let t := { t with slaveWaitCycles := t.slaveWaitCycles - 1 }
      (if t.slaveWaitCycles = 0 then { t with slaveState := .csStart } else t, false, [])
  | .csStart => ({ t with slaveState := .csStartPostWaitCycles, slaveWaitCycles := 5 }, false, [.cs 0])
  | .csStartPostWaitCycles =>
      let t := { t with slaveWaitCycles := t.slaveWaitCycles - 1 }
      (if t.slaveWaitCycles = 0 then { t with slaveState := .transfer } else t, false, [])
  | .transfer => (if t.slavePendingIsTx then pushBit t else t, true, [])
  | .csEndWaitCycles =>
      let t := { t with slaveWaitCycles := t.slaveWaitCycles - 1, slavePendingMosi := 2 }
      (if t.slaveWaitCycles = 0 then { t with slaveState := .csEnd } else t, false, [])
  | .csEnd => ({ t with slaveState := .endWaitCycles, slaveWaitCycles := 4 }, false, [.cs 1])
  | .endWaitCycles =>
      (if t.slaveWaitCycles = 0 then { t with slaveState := .idle }
        else { t with slaveWaitCycles := t.slaveWaitCycles - 1 }, true, [])

def execHigh (t : Transfer) : Transfer :=
  if t.slaveState = .transfer ∧ t.slavePendingIsRx then sampleBit t else t

def execEdge (t : Transfer) : Transfer × List Pin :=
  if t.slaveSck then
    let t := execHigh t
    ({ t with slaveSck := false }, [.sync true t.slavePendingMosi])
  else
    let (t, clockToggle, pins) := execLow t
    ({ t with slaveSck := clockToggle }, pins ++ [.sync false t.slavePendingMosi])

section Boot

variable (memSizeLog2 : Nat)

def chunkSize (s : SpimVerif) : Int := if s.slaveBootSize < cmdBufferSize then s.slaveBootSize else cmdBufferSize

def enqueue (address : Nat) (size : Int) (isRx isDuplex : Bool) (next : SpisBootState) (s : SpimVerif) : SpimVerif :=
  { s with toTransfer := enqueueTransfer address size isRx isDuplex s.toTransfer, slaveBootState := next }

/- The first seven bytes of spi_boot_req_t; its crc keeps what was there. -/
def bootReq (s : SpimVerif) : List Byte :=
  [0x5A, if s.slaveBootJump then 0x3 else if s.slaveBootIsRx then 0x01 else 0x02] ++ wordBytes s.slaveBootAddress 4 ++
    [BitVec.ofInt 8 (chunkSize s - 1)]

def sendSof (s : SpimVerif) : SpimVerif :=
  enqueue (memSize memSizeLog2) 1 false true .checkSof { s with data := Cells.write s.data (memSize memSizeLog2) (bootReq s) }

def nextChunk (s : SpimVerif) : SpimVerif :=
  let s := { s with slaveBootSize := s.slaveBootSize - cmdBufferSize }
  if 0 < s.slaveBootSize then
    { s with
      slaveBootVerifAddress := s.slaveBootVerifAddress + cmdBufferSize
      slaveBootAddress := s.slaveBootAddress + cmdBufferSize
      slaveBootState := .sendSof }
  else { s with slaveBootState := .idle }

def startBootProtocolTransfer (address : BitVec 32) (size : Int) (isRx : Bool) (s : SpimVerif) : SpimVerif :=
  sendSof memSizeLog2 { s with
    slaveBootVerifAddress := 0
    slaveBootAddress := address
    slaveBootSize := size
    slaveBootIsRx := isRx
    slaveBootState := .sendSof }

def enqueueBootProtocolTransfer (buffer : List Byte) (address : BitVec 32) (size : Nat) (isRx : Bool) (s : SpimVerif) : SpimVerif :=
  if memSize memSizeLog2 < size then s
  else startBootProtocolTransfer memSizeLog2 address size isRx { s with data := Cells.write s.data 0 (buffer.take size) }

def enqueueBootProtocolJump (address : BitVec 32) (s : SpimVerif) : SpimVerif :=
  sendSof memSizeLog2 { s with slaveBootAddress := address, slaveBootJump := true, slaveBootState := .sendSof }

def startSpiLoad (s : SpimVerif) : SpimVerif :=
  if s.doSpiLoad then
    match s.sections[s.currentSectionLoad]? with
    | some sec =>
        let s :=
          if sec.access then enqueueBootProtocolTransfer memSizeLog2 sec.buffer sec.addr sec.size false s
          else enqueueBootProtocolJump memSizeLog2 sec.addr s
        { s with currentSectionLoad := s.currentSectionLoad + 1 }
    | none => { s with currentSectionLoad := 0, doSpiLoad := false, slaveBootState := .idle }
  else s

def handleBootProtocolTransfer (s : SpimVerif) : SpimVerif :=
  let buffer := memSize memSizeLog2
  let command (value : Byte) : SpimVerif := { s with data := Function.update s.data buffer value }
  match s.slaveBootState with
  | .idle => s
  | .sendWakeupCmd => enqueue buffer 1 false true .sendWakeupStatus (command 0x3F)
  | .sendWakeupStatus => enqueue buffer 2 false true .sendWakeupStatusResponse (command 0x05)
  | .sendWakeupStatusResponse =>
      { s with slaveBootState := if s.data (buffer + 1) = 1 then .sendWakeupExit else .sendWakeupStatus }
  | .sendWakeupExit =>
      enqueue buffer 1 false false (if s.reloadSpi then .sendWakeupDoLoad else .idle) (command 0x71)
  | .sendWakeupDoLoad => startSpiLoad memSizeLog2 { s with slaveBootState := .idle, doSpiLoad := true }
  | .sendSof => sendSof memSizeLog2 s
  | .checkSof =>
      if s.data buffer = 0xA5 then
        if s.slaveBootJump then { enqueue (buffer + 1) 7 false true .idle s with slaveBootJump := false }
        else enqueue (buffer + 1) 7 false true .getAckStep0 s
      else { s with slaveBootState := .sendSof }
  | .getAckStep0 => { s with slaveBootState := if s.data buffer = 0xA5 then .getAckStep1 else .sendSof }
  | .getAckStep1 => enqueue buffer 1 false true .getAckStep2 (command 0x00)
  | .getAckStep2 =>
      { s with
        slaveBootState :=
          if s.data buffer = 0x79 then if s.slaveBootIsRx then .receiveCrc else .sendDataCrc else .getAckStep1 }
  | .receiveCrc => enqueue buffer 1 true false .receiveData s
  | .receiveData => enqueue s.slaveBootVerifAddress (chunkSize s) true false .receiveDataCrc s
  | .receiveDataCrc => nextChunk s
  | .sendDataDone => nextChunk s
  | .sendDataCrc => enqueue buffer 1 false false .sendData s
  | .sendData => enqueue s.slaveBootVerifAddress (chunkSize s) false false .sendDataDone s

structure LoadLoop where
  sections : List SpiLoaderSection
  buffer : List (BitVec 32) := []
  pendingAddr : BitVec 32 := 0
  pendingStartAddr : BitVec 32 := 0

def bufferSize : Nat := 64

def LoadLoop.pushed (l : LoadLoop) : LoadLoop :=
  { l with
    sections := l.sections ++
      [⟨true, l.buffer.flatMap (wordBytes · 4), l.pendingStartAddr, l.buffer.length * 4⟩]
    buffer := [] }

def LoadLoop.read (l : LoadLoop) (stimulus : BitVec 32 × BitVec 32) : LoadLoop :=
  let (addr, value) := stimulus
  let l :=
    if l.buffer ≠ [] ∧ (addr ≠ l.pendingAddr + 4 ∨ l.buffer.length = bufferSize) then
      { l.pushed with pendingStartAddr := addr }
    else if l.buffer = [] then { l with pendingStartAddr := addr }
    else l
  { l with buffer := l.buffer ++ [value], pendingAddr := addr }

def loadSections (config : SpiLoadConfig) (sections : List SpiLoaderSection) : List SpiLoaderSection :=
  let l := config.stimuli.foldl LoadLoop.read { sections }
  let l := if l.buffer ≠ [] then l.pushed else l
  l.sections ++ [⟨false, [], config.entry, 0⟩]

def spiLoad (config : SpiLoadConfig) (s : SpimVerif) : SpimVerif :=
  startSpiLoad memSizeLog2
    { s with currentSectionLoad := 0, sections := loadSections config s.sections, doSpiLoad := true }

def execIdle (s : SpimVerif) : SpimVerif :=
  if s.slaveBootState ≠ .idle then handleBootProtocolTransfer memSizeLog2 s
  else if s.doSpiLoad then startSpiLoad memSizeLog2 s
  else { s with isEnqueued := false }

def exec (s : SpimVerif) : SpimVerif × List Pin :=
  let pads : List Pin := if s.initPads then [.sync false 2, .cs 1] else []
  let s := { s with initPads := false }
  match s.spiLoadConfig with
  | some config => ({ spiLoad memSizeLog2 config s with spiLoadConfig := none }, pads)
  | none =>
      let s :=
        if s.handleWakeup then
          handleBootProtocolTransfer memSizeLog2 { s with handleWakeup := false, slaveBootState := .sendWakeupCmd }
        else s
      let (t, pins) := execEdge s.toTransfer
      let s := { s with toTransfer := t }
      (if s.slaveState = .idle then execIdle memSizeLog2 s else s, pads ++ pins)

end Boot

end Gvsoc.Spim
