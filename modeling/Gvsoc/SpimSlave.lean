import Gvsoc.SpimVerif
import Gvsoc.ShiftRegister

/-! The slave of the SPI testbench model. It takes commands of 64 bits at the sampling edges of the clock, and writes the bits that
follow into its memory or drives bits of it. The dump into a file is never opened. -/
namespace Gvsoc.SpimSlave
open Bytes (Byte)

structure Setup where
  memSizeLog2 : Nat
  polarity : BitVec 32
  phase : BitVec 32
  isMaster : Bool
  sized : memSizeLog2 ≤ 30

def Setup.memSize (setup : Setup) : Nat := Spim.memSize setup.memSizeLog2

inductive Mode where
  | getCmd
  | writeCmd
  | fullDuplexCmd
  | readCmd
  deriving DecidableEq, Repr

structure Lanes where
  sdio0 : BitVec 32
  sdio1 : BitVec 32
  sdio2 : BitVec 32
  sdio3 : BitVec 32
  deriving DecidableEq, Repr

structure Reader where
  dummyCycles : BitVec 32
  currentAddr : BitVec 32
  currentSize : BitVec 32
  nbBits : BitVec 32
  byte : BitVec 32
  deriving DecidableEq, Repr

structure Seen where
  driven : List (Lanes × BitVec 32)
  used : List Int
  deriving DecidableEq, Repr

structure Slave extends Reader, Seen where
  setup : Setup
  state : Mode
  currentCmd : BitVec 64
  prevSck : BitVec 32
  cmdCount : Nat
  waitCs : Bool
  commandAddr : BitVec 32
  currentWriteAddr : BitVec 32
  currentWriteSize : BitVec 32
  data : Nat → Byte
  nbWriteBits : BitVec 32
  pendingWrite : BitVec 32
  currentCs : BitVec 32
  isQuad : Bool

/- `SPIM_VERIF_FIELD_GET`, into an `int`. -/
def fieldGet (value : BitVec 64) (bit width : Nat) : BitVec 32 := (value >>> bit &&& (1#64 <<< width - 1)).setWidth 32

def infoField (cmd : BitVec 64) : BitVec 32 := fieldGet cmd 32 24

def addrField (cmd : BitVec 64) : BitVec 32 := fieldGet cmd 0 32

def cmdField (cmd : BitVec 64) : BitVec 32 := fieldGet cmd 56 8

namespace Slave

variable (s : Slave)

def use (address : BitVec 32) : Slave := { s with used := s.used ++ [address.toInt] }

def outside (address : BitVec 32) : Bool := (s.setup.memSize : Int) ≤ address.toInt

def handleRead (cmd : BitVec 64) (isQuad : Bool) : Slave :=
  { s with
    isQuad := isQuad, currentAddr := addrField cmd, commandAddr := addrField cmd, state := .readCmd
    currentSize := infoField cmd, nbBits := 0, waitCs := true }

def handleWrite (cmd : BitVec 64) (isQuad : Bool) : Slave :=
  { s with
    isQuad := isQuad, currentWriteAddr := addrField cmd, commandAddr := addrField cmd, state := .writeCmd
    currentWriteSize := infoField cmd, nbWriteBits := 0 }

def handleFullDuplex (cmd : BitVec 64) : Slave :=
  { s with
    currentAddr := addrField cmd, commandAddr := addrField cmd, state := .fullDuplexCmd, currentWriteAddr := addrField cmd
    currentSize := infoField cmd, currentWriteSize := infoField cmd, nbBits := 0, nbWriteBits := 0, waitCs := true }

/- The next byte to drive; behind the memory it is the one that is left. -/
def loadByte : Slave :=
  let s := if s.outside s.currentAddr then s
    else { s.use s.currentAddr with byte := (s.data s.currentAddr.toNat).setWidth 32 }
  { s with nbBits := 8, currentAddr := s.currentAddr + 1 }

def driveBits : Slave :=
  if s.isQuad then
    { s with
      byte := s.byte <<< 4, nbBits := s.nbBits - 4, currentSize := s.currentSize - 4
      driven := s.driven ++ [(⟨s.byte >>> 4 &&& 1, s.byte >>> 5 &&& 1, s.byte >>> 6 &&& 1, s.byte >>> 7 &&& 1⟩, 0xf)] }
  else
    { s with
      byte := s.byte <<< 1, nbBits := s.nbBits - 1, currentSize := s.currentSize - 1
      driven := s.driven ++ [(⟨2, s.byte >>> 7 &&& 1, 2, 2⟩, 0x2)] }

def execRead : Slave :=
  if s.dummyCycles ≠ 0 then { s with dummyCycles := s.dummyCycles - 1 }
  else
    let s := (if s.nbBits = 0 then s.loadByte else s).driveBits
    if s.currentSize = 0 ∧ s.state = .readCmd then { s with waitCs := true, state := .getCmd } else s

def collect (lanes : Lanes) : Slave :=
  if s.isQuad then
    { s with
      pendingWrite := s.pendingWrite <<< 4 ||| lanes.sdio3 <<< 3 ||| lanes.sdio2 <<< 2 ||| lanes.sdio1 <<< 1 ||| lanes.sdio0 <<< 0
      nbWriteBits := s.nbWriteBits + 4, currentWriteSize := s.currentWriteSize - 4 }
  else
    { s with
      pendingWrite := s.pendingWrite <<< 1 ||| lanes.sdio0
      nbWriteBits := s.nbWriteBits + 1, currentWriteSize := s.currentWriteSize - 1 }

def storeByte : Slave :=
  if s.nbWriteBits = 8 then
    let s := if s.outside s.currentWriteAddr then s
      else { s.use s.currentWriteAddr with data := Function.update s.data s.currentWriteAddr.toNat (s.pendingWrite.setWidth 8) }
    { s with nbWriteBits := 0, currentWriteAddr := s.currentWriteAddr + 1 }
  else s

/- The end of a command. The byte of the last bits is put together, and not stored. -/
def finish : Slave :=
  let s := if s.nbWriteBits ≠ 0 then
      let shift := 8 - s.nbWriteBits
      { s.use s.currentWriteAddr with
        pendingWrite := (s.data s.currentWriteAddr.toNat).setWidth 32 &&& ~~~(1#32 <<< shift - 1) ||| s.pendingWrite <<< shift }
    else s
  { s with waitCs := true, state := .getCmd }

def execWrite (lanes : Lanes) : Slave :=
  let s := (s.collect lanes).storeByte
  if s.currentWriteSize = 0 then s.finish else s

def handleCommand (cmd : BitVec 64) : Slave :=
  match (cmdField cmd).toNat with
  | 1 => s.handleWrite cmd false
  | 2 => s.handleRead cmd false
  | 3 => s.handleFullDuplex cmd
  | 4 => s.handleWrite cmd true
  | 5 => s.handleRead cmd true
  | _ => s

def csSync (cs : BitVec 32) : Slave :=
  if s.setup.isMaster ∨ s.currentCs = cs then s
  else
    let s := { s with currentCs := cs }
    let s := if cs = 1 then
        { s with
          currentWriteAddr := s.commandAddr, currentAddr := s.commandAddr, waitCs := false
          driven := s.driven ++ [(⟨2, 2, 2, 2⟩, 0x1)] }
      else s
    if cs = 0 ∧ (s.state = .readCmd ∨ s.state = .fullDuplexCmd) ∧ s.setup.phase = 0 then s.execRead else s

def getBit (sdio0 : BitVec 32) : Slave :=
  let s := { s with currentCmd := s.currentCmd <<< 1 ||| sdio0.signExtend 64, cmdCount := s.cmdCount + 1 }
  if s.cmdCount = 64 then { s with cmdCount := 0 }.handleCommand s.currentCmd else s

def handleClkHigh (lanes : Lanes) : Slave :=
  if s.waitCs then s
  else match s.state with
    | .getCmd => s.getBit lanes.sdio0
    | .writeCmd | .fullDuplexCmd => s.execWrite lanes
    | .readCmd => s

def handleClkLow : Slave :=
  if s.waitCs then s
  else match s.state with
    | .readCmd | .fullDuplexCmd => s.execRead
    | .getCmd | .writeCmd => s

/- The one who is the master only keeps the line of the slave. -/
def sync (sck : BitVec 32) (lanes : Lanes) : Slave :=
  if s.setup.isMaster then s
  else
    let level := sck ^^^ s.setup.polarity
    let s := if s.prevSck = level then s
      else if level ^^^ s.setup.phase = 0 then s.handleClkLow else s.handleClkHigh lanes
    { s with prevSck := level }

end Slave

inductive Call where
  | sync (sck : BitVec 32) (lanes : Lanes)
  | csSync (cs : BitVec 32)
  deriving DecidableEq

def Slave.call (s : Slave) : Call → Slave
  | .sync sck lanes => s.sync sck lanes
  | .csSync cs => s.csSync cs

def Slave.calls (s : Slave) (calls : List Call) : Slave := calls.foldl Slave.call s

def Setup.Sampling (setup : Setup) (prevSck sck : BitVec 32) : Prop :=
  prevSck ≠ sck ^^^ setup.polarity ∧ (sck ^^^ setup.polarity) ^^^ setup.phase ≠ 0

instance (setup : Setup) (prevSck sck : BitVec 32) : Decidable (setup.Sampling prevSck sck) := by
  unfold Setup.Sampling
  infer_instance

def samples (setup : Setup) : BitVec 32 → List Call → List Lanes
  | _, [] => []
  | prevSck, .sync sck lanes :: rest =>
      let later := samples setup (sck ^^^ setup.polarity) rest
      if setup.Sampling prevSck sck then lanes :: later else later
  | prevSck, .csSync _ :: rest => samples setup prevSck rest

def lastSck (setup : Setup) : BitVec 32 → List Call → BitVec 32
  | prevSck, [] => prevSck
  | _, .sync sck _ :: rest => lastSck setup (sck ^^^ setup.polarity) rest
  | prevSck, .csSync _ :: rest => lastSck setup prevSck rest

end Gvsoc.SpimSlave
