import Gvsoc.Io
import Gvsoc.Machine

/-! Loads of the instruction set simulator: the register file, the data port of the wrapper
with its split of accesses that cross a word, and the callbacks that finish a stalled load.
The memory behind the port copies straight into the register, at once or while the request is
in flight. Cycle counts, performance counters, traces and the scheduling of the next
instruction are left out: none of them is read on the way of a value into a register. -/
namespace Gvsoc.Iss
open Bytes (Byte putByte)
open Io (IoStatus)

abbrev Addr := BitVec 32
abbrev Reg := BitVec 32

/- A `uint8_t *` into the registers: `none` is the static `null_reg`. -/
structure Pointer where
  reg : Option Nat
  offset : Nat
  deriving DecidableEq, Repr

def Pointer.add (p : Pointer) (n : Nat) : Pointer := { p with offset := p.offset + n }

structure IoReq where
  addr : Addr
  size : Nat
  isWrite : Bool
  data : Pointer
  deriving DecidableEq, Repr

inductive StallCallback where
  | issLsuLoadResume
  | issLsuElwResume
  | issLsuLoadSignedResume
  deriving DecidableEq, Repr

structure Core where
  regs : Nat → Reg
  nullReg : Reg
  elwInsn : Option Addr
  stallCallback : Option StallCallback
  stallReg : Nat
  stallSize : Nat
  stalled : BitVec 8
  misalignedAccess : Bool
  misalignedSize : Nat
  misalignedData : Pointer
  misalignedAddr : Addr
  misalignedIsWrite : Bool
  misalignedEvent : Bool
  ioReq : IoReq

/- The core and what is behind its ports: `inFlight` counts the data requests without response,
`fetching` tells that the fetch of the next instruction has none. -/
structure System where
  core : Core
  memory : Addr → Byte
  inFlight : Nat
  fetching : Bool

def issRegRef (reg : Nat) : Pointer := ⟨if reg = 0 then none else some reg, 0⟩

def Core.issSetReg (c : Core) (reg : Nat) (value : Reg) : Core :=
  if reg ≠ 0 then { c with regs := Function.update c.regs reg value } else c

def Core.issGetRegUntimed (c : Core) (reg : Nat) : Reg := c.regs reg

def issGetSignedValue (val : Reg) (bits : Nat) : Reg := (val <<< (32 - bits)).sshiftRight (32 - bits)

def Core.word (c : Core) : Option Nat → Reg
  | none => c.nullReg
  | some reg => c.regs reg

def Core.read (c : Core) (p : Pointer) : Byte := (c.word p.reg >>> (8 * p.offset)).setWidth 8

def Core.write (c : Core) (p : Pointer) (b : Byte) : Core :=
  match p.reg with
  | none => { c with nullReg := putByte c.nullReg p.offset b }
  | some reg => { c with regs := Function.update c.regs reg (putByte (c.regs reg) p.offset b) }

def System.copyByte (s : System) (i : Nat) : System :=
  let req := s.core.ioReq
  let addr := req.addr + BitVec.ofNat 32 i
  if req.isWrite then { s with memory := Function.update s.memory addr (s.core.read (req.data.add i)) }
  else { s with core := s.core.write (req.data.add i) (s.memory addr) }

def System.copy (s : System) : Nat → System
  | 0 => s
  | n + 1 => (s.copy n).copyByte n

def System.dataReqAligned (s : System) (addr : Addr) (data : Pointer) (size : Nat) (isWrite : Bool)
    (answer : IoStatus) : System × IoStatus :=
  let s := { s with core := { s.core with ioReq := ⟨addr, size, isWrite, data⟩ } }
  match answer with
  | .ok => (s.copy size, .ok)
  | .invalid => (s, .invalid)
  | .denied => ({ s with inFlight := s.inFlight + 1 }, .denied)
  | .pending => ({ s with inFlight := s.inFlight + 1 }, .pending)

def addrMask : Addr := ~~~3#32

/- `addr1`: the word of the last byte, where the second access of a split one starts. -/
def lastWord (addr : Addr) (size : Nat) : Addr := (addr + BitVec.ofNat 32 size - 1) &&& addrMask

def System.dataMisalignedReq (s : System) (addr : Addr) (data : Pointer) (size : Nat) (isWrite : Bool)
    (answer : IoStatus) : System × IoStatus :=
  let addr1 := lastWord addr size
  let size0 := (addr1 - addr).toNat
  let size1 := size - size0
  let c := { s.core with
    misalignedAccess := true
    misalignedSize := size1
    misalignedData := data.add size0
    misalignedAddr := addr1
    misalignedIsWrite := isWrite }
  let (s, err) := { s with core := c }.dataReqAligned addr data size0 isWrite answer
  -- Anything but a synchronous answer is reported as unimplemented, and as done.
  if err = .ok then (s, .pending) else (s, .ok)

def System.dataReq (s : System) (addr : Addr) (data : Pointer) (size : Nat) (isWrite : Bool)
    (answer : IoStatus) : System × IoStatus :=
  if addr &&& addrMask = lastWord addr size then s.dataReqAligned addr data size isWrite answer
  else s.dataMisalignedReq addr data size isWrite answer

def Core.issExecInsnStall (c : Core) : Core := { c with stalled := c.stalled + 1 }

/- Common to `iss_lsu_load` and `iss_lsu_elw`: the register is cleared for the zero-extension. -/
def System.loadCleared (callback : StallCallback) (s : System) (addr : Addr) (size reg : Nat)
    (answer : IoStatus) : System :=
  let (s, err) := { s with core := s.core.issSetReg reg 0 }.dataReq addr (issRegRef reg) size false answer
  if err = .ok then s
  else { s with core := { s.core with stallCallback := some callback, stallReg := reg }.issExecInsnStall }

def System.issLsuLoad : System → Addr → Nat → Nat → IoStatus → System := System.loadCleared .issLsuLoadResume

def System.issLsuElw : System → Addr → Nat → Nat → IoStatus → System := System.loadCleared .issLsuElwResume

def System.issLsuLoadSigned (s : System) (addr : Addr) (size reg : Nat) (answer : IoStatus) : System :=
  let (s, err) := s.dataReq addr (issRegRef reg) size false answer
  if err = .ok then
    { s with core := s.core.issSetReg reg (issGetSignedValue (s.core.issGetRegUntimed reg) (size * 8)) }
  else
    { s with core := { s.core with
      stallCallback := some .issLsuLoadSignedResume
      stallReg := reg
      stallSize := size }.issExecInsnStall }

def Core.callback (c : Core) : StallCallback → Core
  | .issLsuLoadResume => c
  | .issLsuElwResume => { c with elwInsn := none }
  | .issLsuLoadSignedResume =>
      c.issSetReg c.stallReg (issGetSignedValue (c.issGetRegUntimed c.stallReg) (c.stallSize * 8))

inductive Load where
  | plain
  | signed
  | elw
  deriving DecidableEq, Repr

inductive Width where
  | byte
  | half
  | word
  deriving DecidableEq, Repr

def Width.bytes : Width → Nat
  | .byte => 1
  | .half => 2
  | .word => 4

def System.load (s : System) : Load → Addr → Nat → Nat → IoStatus → System
  | .plain => s.issLsuLoad
  | .signed => s.issLsuLoadSigned
  | .elw => s.issLsuElw

/- The end of an instruction event: the fetch of the next instruction, which may stall the core
too, then the second access is scheduled if the core is stalled on a misaligned one. -/
def System.afterInsn (s : System) (fetchStalls : Bool) : System :=
  let c := if fetchStalls then { s.core with stalled := s.core.stalled + 1 } else s.core
  let event := c.misalignedEvent || (c.stalled ≠ 0 && c.misalignedAccess)
  { s with core := { c with misalignedEvent := event }, fetching := s.fetching || fetchStalls }

def System.execInstr (s : System) (kind : Load) (addr : Addr) (size reg : Nat) (answer : IoStatus)
    (fetchStalls : Bool) : System :=
  (s.load kind addr size reg answer).afterInsn fetchStalls

def System.execMisaligned (s : System) (answer : IoStatus) : System :=
  let c := { s.core with stalled := s.core.stalled - 1, misalignedEvent := false }
  let (s, err) := { s with core := c }.dataReqAligned c.misalignedAddr c.misalignedData c.misalignedSize
    c.misalignedIsWrite answer
  if err = .ok then { s with core := { s.core with misalignedAccess := false } } else s

def Core.dataResponse (c : Core) : Core :=
  let c := { c with stalled := c.stalled - 1 }
  if c.misalignedAccess then { c with misalignedAccess := false }
  else match c.stallCallback with
    | none => c
    | some f => c.callback f

def System.fetchResponse (s : System) : System :=
  { s with core := { s.core with stalled := s.core.stalled - 1 }, fetching := false }

/- What can happen after a load was issued; the target may move a byte at any time while it holds the request. -/
inductive Action where
  | misaligned (answer : IoStatus)
  | moves (i : Nat)
  | response
  | fetchResponse
  deriving DecidableEq, Repr

def step (s : System) : Action → Option System
  | .misaligned answer => if s.core.misalignedEvent then some (s.execMisaligned answer) else none
  | .moves i => if 0 < s.inFlight ∧ i < s.core.ioReq.size then some (s.copyByte i) else none
  | .response =>
      if 0 < s.inFlight then
        let s := s.copy s.core.ioReq.size
        some { s with core := s.core.dataResponse, inFlight := s.inFlight - 1 }
      else none
  | .fetchResponse => if s.fetching then some s.fetchResponse else none

end Gvsoc.Iss
