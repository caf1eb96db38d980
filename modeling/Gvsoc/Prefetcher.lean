import Gvsoc.Bytes
import Gvsoc.CShift
import Gvsoc.Machine

/-! The instruction prefetcher: one line of 16 bytes, filled through the fetch port at once or
later. A cached instruction is known by its address. The core is stalled while a fill is
pending, so no fetch starts then; a flush can come at any time. `beyond` and `undefinedShift` are
what a read next to the buffer and a shift by 32 or more give. `returned`, `decoded` and `reads`
are history: what the port returned since the last flush, the opcodes handed to the decoder and
the indices used into the buffer. -/
namespace Gvsoc.Prefetch
open Bytes (Byte littleEndian)

abbrev Addr := BitVec 32
abbrev Opcode := BitVec 32

def opcodeSize : Nat := 4
def prefetcherSize : Nat := 16

structure Prefetcher where
  addr : Addr
  data : Nat → Byte

inductive Resume where
  | prefetcherFetchValueResume0
  | prefetcherFetchValueResume1
  deriving DecidableEq, Repr

/- An opcode handed to the decoder, and what the port had returned for its address. -/
structure Decoded where
  insn : Addr
  opcode : Opcode
  expected : List (Option Byte)
  deriving DecidableEq, Repr

structure State where
  prefetcher : Prefetcher
  beyond : Int → Byte
  undefinedShift : Opcode → Nat → Opcode
  fetched : Addr → Bool
  callback : Option Resume
  prefetchInsn : Addr
  fetchStallOpcode : Opcode
  pending : Option Addr
  returned : Addr → Option Byte
  decoded : List Decoded
  reads : List (Int × Nat)

inductive Answer where
  | now (bytes : Nat → Byte)
  | invalid
  | later

/- The value at an index of the buffer, or next to it. -/
def State.byteAt (s : State) (index : Int) : Byte :=
  if 0 ≤ index ∧ index < prefetcherSize then s.prefetcher.data index.toNat else s.beyond index

def State.opcodeAt (s : State) (index : Int) (n : Nat) : Opcode :=
  BitVec.ofNat 32 (littleEndian (fun i => s.byteAt (index + i)) n)

def State.shl (s : State) (opcode : Opcode) (n : Nat) : Opcode := (CShift.shl opcode n).getD (s.undefinedShift opcode n)

def State.noteRead (s : State) (index : Int) (n : Nat) : State := { s with reads := s.reads ++ [(index, n)] }

def State.issDecodePcNoexec (s : State) (insn : Addr) (opcode : Opcode) : State :=
  let expected := (List.range opcodeSize).map (fun i => s.returned (insn + BitVec.ofNat 32 i))
  { s with decoded := s.decoded ++ [⟨insn, opcode, expected⟩] }

def State.receive (s : State) (line : Addr) (bytes : Nat → Byte) : State :=
  { s with
    prefetcher := { s.prefetcher with data := bytes }
    returned := fun a => if (a - line).toNat < prefetcherSize then some (bytes (a - line).toNat) else s.returned a }

def lineOf (addr : Addr) : Addr := addr &&& ~~~15#32

/- The result tells that the fill is pending; an invalid access is reported and taken as done. -/
def State.prefetcherFill (s : State) (addr : Addr) (answer : Answer) : State × Bool :=
  let alignedAddr := lineOf addr
  let s := { s with prefetcher := { s.prefetcher with addr := alignedAddr } }
  match answer with
  | .now bytes => (s.receive alignedAddr bytes, false)
  | .invalid => (s, false)
  | .later => ({ s with pending := some alignedAddr }, true)

def nextLine (addr : Addr) : Addr := lineOf (addr + 16 - 1)

def nbBytes (addr : Addr) : Nat := (nextLine addr - addr).toNat

def State.prefetcherFetchValueResume1 (s : State) : State :=
  let insn := s.prefetchInsn
  let opcode := s.fetchStallOpcode ||| s.shl (s.opcodeAt 0 4) (nbBytes insn * 8)
  (s.noteRead 0 4).issDecodePcNoexec insn opcode

def State.prefetcherFetchValueAfterFill0 (s : State) (insn : Addr) (index : Int) (next : Answer) : State :=
  if index + opcodeSize ≤ prefetcherSize then
    (s.noteRead index 4).issDecodePcNoexec insn (s.opcodeAt index 4)
  else
    let opcode := s.opcodeAt index (nbBytes insn)
    let (s, pending) := (s.noteRead index (nbBytes insn)).prefetcherFill (nextLine insn) next
    if pending then
      { s with callback := some .prefetcherFetchValueResume1, fetchStallOpcode := opcode, prefetchInsn := insn }
    else
      (s.noteRead 0 4).issDecodePcNoexec insn (opcode ||| s.shl (s.opcodeAt 0 4) (nbBytes insn * 8))

def State.index (s : State) (addr : Addr) : Int := (addr - s.prefetcher.addr).toInt

def State.prefetcherFetchValueResume0 (s : State) (next : Answer) : State :=
  s.prefetcherFetchValueAfterFill0 s.prefetchInsn (s.index s.prefetchInsn) next

def State.prefetcherFetchValue (s : State) (insn : Addr) (line next : Answer) : State :=
  let index := s.index insn
  if 0 ≤ index ∧ index ≤ 12 then (s.noteRead index 4).issDecodePcNoexec insn (s.opcodeAt index 4)
  else if index < 0 ∨ index ≥ prefetcherSize then
    let (s, pending) := s.prefetcherFill insn line
    if pending then { s with callback := some .prefetcherFetchValueResume0, prefetchInsn := insn }
    else s.prefetcherFetchValueAfterFill0 insn (s.index insn) next
  else s.prefetcherFetchValueAfterFill0 insn index next

def State.prefetcherFetchNovalueCheckOverflow (s : State) (insn : Addr) (index : Int) (next : Answer) : State :=
  if index + opcodeSize > prefetcherSize then
    let (s, pending) := s.prefetcherFill (s.prefetcher.addr + 16) next
    if pending then { s with callback := none, prefetchInsn := insn } else s
  else s

def State.prefetcherFetchNovalue (s : State) (insn : Addr) (line next : Answer) : State :=
  let index := s.index insn
  if 0 ≤ index ∧ index ≤ 12 then s
  else if index < 0 ∨ index ≥ prefetcherSize then
    let (s, pending) := s.prefetcherFill insn line
    -- The callback is set and cleared again at once.
    if pending then { s with callback := none, prefetchInsn := insn }
    else s.prefetcherFetchNovalueCheckOverflow insn (s.index insn) next
  else s.prefetcherFetchNovalueCheckOverflow insn index next

def State.prefetcherFetch (s : State) (insn : Addr) (line next : Answer) : State :=
  if s.fetched insn then s.prefetcherFetchNovalue insn line next
  else { s with fetched := Function.update s.fetched insn true }.prefetcherFetchValue insn line next

def State.prefetcherFlush (s : State) : State :=
  { s with prefetcher := { s.prefetcher with addr := -1 }, returned := fun _ => none }

/- The instructions are to be decoded again, but for the one that the core is on. -/
def State.flushCache (s : State) (current : Option Addr) : State :=
  { s.prefetcherFlush with fetched := fun insn => current = some insn }

def State.fetchResponse (s : State) (line : Addr) (bytes : Nat → Byte) (next : Answer) : State :=
  let s := { s.receive line bytes with pending := none }
  match s.callback with
  | none => s
  | some .prefetcherFetchValueResume0 => s.prefetcherFetchValueResume0 next
  | some .prefetcherFetchValueResume1 => s.prefetcherFetchValueResume1

/- `next` is the answer for the following line, if the fetch or the response asks for it. -/
inductive Action where
  | fetch (insn : Addr) (line next : Answer)
  | response (bytes : Nat → Byte) (next : Answer)
  | flush (current : Option Addr)

def step (s : State) : Action → Option State
  | .fetch insn line next =>
      if s.pending = none ∧ insn.toNat % 2 = 0 then some (s.prefetcherFetch insn line next) else none
  | .response bytes next => s.pending.map (fun line => s.fetchResponse line bytes next)
  | .flush current => some (s.flushCache current)

end Gvsoc.Prefetch
