import Gvsoc.Io
import Gvsoc.Machine

/-! The set-associative cache: lines with their tags, one refill at a time, and a queue of the
requests that wait for it. The memory behind the refill port does not change. Latencies and
timestamps are left out: they move no data. `replies` is history: the reads and writes that
were answered, with the data that the requester has then. -/
namespace Gvsoc.Cache
open Bytes (Byte)
open Io (IoStatus bytesFrom)

structure Config where
  nbWaysBits : Nat
  nbSetsBits : Nat
  lineSizeBits : Nat
  refillShift : Nat
  addOffset : BitVec 32

def Config.nbWays (c : Config) : Nat := 2 ^ c.nbWaysBits
def Config.nbSets (c : Config) : Nat := 2 ^ c.nbSetsBits
def Config.lineSize (c : Config) : Nat := 2 ^ c.lineSizeBits

structure Line where
  tag : BitVec 32
  data : Nat → Byte

/- A request, with a 64-bit address; `data` is what its buffer holds, or none for a null pointer. -/
structure Req where
  addr : Nat
  size : Nat
  isWrite : Bool
  data : Option (List Byte)
  deriving DecidableEq, Repr

structure Refill where
  addr : BitVec 32
  line : Nat
  deriving DecidableEq, Repr

structure State where
  lines : Nat → Line
  lruOut : BitVec 8
  enabled : Bool
  refillPendingReqs : List Req
  refillReq : Refill
  refillLine : Nat
  refillTag : BitVec 32
  pendingRefill : Bool
  fsmEvent : Bool
  flushLineAddr : BitVec 32
  replies : List Req

variable (c : Config) (memory : Nat → Byte)

/- `get_line`: the address is cut to 32 bits only after the shift. -/
def Config.tagOf (addr : Nat) : BitVec 32 := BitVec.ofNat 32 (addr / c.lineSize)

def Config.lineIndexOf (tag : BitVec 32) : Nat := (tag &&& BitVec.ofNat 32 (c.nbSets - 1)).toNat

def Config.getLineBase (addr : BitVec 32) : BitVec 32 := addr &&& ~~~(BitVec.ofNat 32 (c.lineSize - 1))

def State.getLine (s : State) (r : Req) : Option Nat :=
  let tag := c.tagOf r.addr
  let first := c.lineIndexOf tag * c.nbWays
  ((List.range c.nbWays).find? (fun way => (s.lines (first + way)).tag = tag)).map (first + ·)

def State.stepLru (s : State) : State × Nat :=
  let feedback := !(s.lruOut.getLsbD 7 ^^ s.lruOut.getLsbD 3 ^^ s.lruOut.getLsbD 2 ^^ s.lruOut.getLsbD 1)
  let lruOut := (s.lruOut <<< 1) ||| (if feedback then 1 else 0)
  ({ s with lruOut := lruOut }, (lruOut >>> 1).toNat &&& (c.nbWays - 1))

def State.setLine (s : State) (j : Nat) (line : Line) : State := { s with lines := Function.update s.lines j line }

def State.loaded (s : State) : Nat → Byte := fun i =>
  if i < c.lineSize then memory (s.refillReq.addr.toNat + i) else (s.lines s.refillReq.line).data i

def State.transfer (s : State) (j : Nat) (r : Req) (isWrite : Bool) : State :=
  match r.data with
  | none => { s with replies := s.replies ++ [r] }
  | some bytes =>
      if isWrite then
        let data := fun i => if i < r.size then bytes.getD i 0 else (s.lines j).data i
        { s.setLine j { s.lines j with data := data } with replies := s.replies ++ [r] }
      else
        let data := (List.range r.size).map (s.lines j).data
        { s with replies := s.replies ++ [{ r with data := some data }] }

/- `refill`: none for a request that waits, and for one that failed. -/
def State.refill (s : State) (r : Req) (answer : IoStatus) : State × Option Nat × Bool :=
  if s.pendingRefill then ({ s with refillPendingReqs := s.refillPendingReqs ++ [r] }, none, true)
  else
    let tag := c.tagOf r.addr
    let (s, way) := s.stepLru c
    let j := c.lineIndexOf tag * c.nbWays + way % c.nbWays
    let fullAddr := c.getLineBase (BitVec.ofNat 32 r.addr <<< c.refillShift) + c.addOffset
    let s := { s with refillReq := ⟨fullAddr, j⟩ }
    match answer with
    | .ok => (s.setLine j ⟨tag, s.loaded c memory⟩, some j, false)
    | .pending =>
        ({ s with
          refillPendingReqs := r :: s.refillPendingReqs
          refillLine := j
          refillTag := tag
          pendingRefill := true }, none, true)
    | .invalid => (s, none, false)
    | .denied => (s, none, false)

def State.handleReq (s : State) (r : Req) (answer : IoStatus) : State × IoStatus :=
  match s.getLine c r with
  | some j => (s.transfer j r r.isWrite, .ok)
  | none =>
      match s.refill c memory r answer with
      | (s, some j, _) => (s.transfer j r r.isWrite, .ok)
      | (s, none, true) => (s, .pending)
      | (s, none, false) => (s, .invalid)

def Config.directAddr (addr : Nat) : Nat := (addr * 2 ^ c.refillShift + c.addOffset.toNat) % 2 ^ 64

def State.req (s : State) (r : Req) (answer : IoStatus) : State × IoStatus :=
  if s.enabled then s.handleReq c memory r answer
  else
    -- The target answers the request itself; nothing of it stays here.
    match answer, r.isWrite with
    | .ok, false =>
        let data := r.data.map (fun _ => bytesFrom memory (c.directAddr r.addr) r.size)
        ({ s with replies := s.replies ++ [{ r with data := data }] }, .ok)
    | status, _ => (s, status)

def State.checkState (s : State) : State :=
  if !s.pendingRefill && !s.refillPendingReqs.isEmpty then { s with fsmEvent := true } else s

def State.refillResponse (s : State) : Option State :=
  match s.refillPendingReqs with
  | [] => none
  | r :: rest =>
      let line := { s.lines s.refillReq.line with data := s.loaded c memory }
      let s := { s.setLine s.refillReq.line line with refillPendingReqs := rest, pendingRefill := false }
      match r.data with
      | none => some { s with replies := s.replies ++ [r] }.checkState
      | some _ =>
          let s := s.setLine s.refillLine { s.lines s.refillLine with tag := s.refillTag }
          -- The direction is read from the refill request, which is never a write.
          some (s.transfer s.refillLine r false).checkState

def State.fsmHandler (s : State) (answer : IoStatus) : State :=
  let s := { s with fsmEvent := false }
  match s.pendingRefill, s.refillPendingReqs with
  | false, r :: rest => ({ s with refillPendingReqs := rest }.handleReq c memory r answer).1.checkState
  | _, _ => s.checkState

def State.flushLine (s : State) (addr : BitVec 32) : State :=
  let tag := addr >>> c.lineSizeBits
  let first := c.lineIndexOf tag * c.nbWays
  let lines := fun j =>
    if first ≤ j ∧ j < first + c.nbWays ∧ (s.lines j).tag = tag then { s.lines j with tag := -1 } else s.lines j
  { s with lines := lines }

def State.flush (s : State) : State :=
  { s with lines := fun j => if j < c.nbSets * c.nbWays then { s.lines j with tag := -1 } else s.lines j }

inductive Action where
  | req (r : Req) (answer : IoStatus)
  | moves (i : Nat)
  | refillResponse
  | fsm (answer : IoStatus)
  | flush
  | flushLineAddr (addr : BitVec 32)
  | flushLine
  | enable (active : Bool)
  deriving DecidableEq, Repr

def step (s : State) : Action → Option State
  | .req r answer => some (s.req c memory r answer).1
  | .moves i =>
      if s.pendingRefill ∧ i < c.lineSize then
        let line := s.lines s.refillReq.line
        let data := Function.update line.data i (memory (s.refillReq.addr.toNat + i))
        some (s.setLine s.refillReq.line { line with data := data })
      else none
  | .refillResponse => if s.pendingRefill then s.refillResponse c memory else none
  | .fsm answer => if s.fsmEvent then some (s.fsmHandler c memory answer) else none
  | .flush => some (s.flush c)
  | .flushLineAddr addr => some { s with flushLineAddr := addr }
  | .flushLine => some (s.flushLine c s.flushLineAddr)
  | .enable active => some { s with enabled := active }

end Gvsoc.Cache
