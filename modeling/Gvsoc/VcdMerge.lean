import Gvsoc.Pointers
import Gvsoc.TraceBuffer

/-! The dumper thread, which merges the events of a timestamp. -/
namespace Gvsoc.VcdMerge
open Bytes (Byte)
open Io (bytesFrom)
open Tracing (TraceKind Traces Event Buffer unpack)

structure EventTrace (ε : Type) where
  width : Nat
  bytes : Nat
  buffer : Nat → Byte
  flags : Byte
  flagsMask : Nat → Byte
  isEnqueued : Bool
  next : Option ε

structure Call (ε : Type) where
  timestamp : BitVec 64
  trace : ε
  event : Nat → Byte
  width : Nat
  isReal : Bool
  isString : Bool
  flags : Byte
  flagsMask : Nat → Byte

/- The width that `get_trace`, `get_trace_real` and `get_trace_string` make an event trace with. -/
def fileWidth : TraceKind → Nat
  | .bits width => width
  | .real => 8
  | .string => 0

/- `trace->width` when an event is registered. The one of a string has just been set from its size. -/
def recordedWidth (traces : Traces) (event : Event) : Nat :=
  match traces event.trace with
  | .bits width => width
  | .real => 64
  | .string => event.value.length * 8

namespace EventTrace

variable {ε : Type} (t : EventTrace ε)

/- What the constructor does not set is left as `memory` has it. -/
def create (memory : EventTrace ε) (width : Nat) : EventTrace ε :=
  { memory with width := width, bytes := (width + 7) / 8, isEnqueued := false }

def reg (fresh : Nat → Byte) (event : List Byte) (width : Nat) (flags : Byte) (flagsMask : List Byte) : EventTrace ε :=
  let bytes := (width + 7) / 8
  let t := if t.bytes < bytes then { t with bytes := bytes, buffer := fresh, flagsMask := fresh } else t
  let t := { t with buffer := Cells.write t.buffer 0 (event.take bytes), flags := flags }
  if flags = 1 then { t with flagsMask := Cells.write t.flagsMask 0 (flagsMask.take bytes) } else t

def dump (declared : ε → TraceKind) (timestamp : BitVec 64) (e : ε) : Call ε :=
  ⟨timestamp, e, t.buffer, t.width, decide (declared e = .real), (declared e).isString, t.flags, t.flagsMask⟩

end EventTrace

structure Dumper (ε : Type) where
  lastTimestamp : BitVec 64
  firstTraceToDump : Option ε
  eventTraces : ε → EventTrace ε
  calls : List (Call ε)

section Thread

variable {ε : Type} [DecidableEq ε] (traces : Traces) (eventTrace : BitVec 64 → Option ε) (declared : ε → TraceKind)
  (fresh : Nat → Byte) (rounds : Nat)

namespace Dumper

def initial (memory : ε → EventTrace ε) : Dumper ε :=
  ⟨-1, none, fun e => (memory e).create (fileWidth (declared e)), []⟩

/- The loop of `flush_event_traces`, without an end when the rounds do not suffice. -/
def flushLoop (timestamp : BitVec 64) : Nat → Option ε → Dumper ε → Option (Dumper ε)
  | _, none, s => some { s with firstTraceToDump := none }
  | 0, some _, _ => none
  | rounds + 1, some current, s =>
      let t := s.eventTraces current
      flushLoop timestamp rounds t.next { s with
        calls := s.calls ++ [t.dump declared timestamp current]
        eventTraces := Function.update s.eventTraces current { t with isEnqueued := false } }

def flushEventTraces (timestamp : BitVec 64) (s : Dumper ε) : Option (Dumper ε) :=
  flushLoop declared timestamp rounds s.firstTraceToDump s

def detect (timestamp : BitVec 64) (s : Dumper ε) : Option (Dumper ε) :=
  let last := if s.lastTimestamp = -1 then timestamp else s.lastTimestamp
  if last.slt timestamp then (s.flushEventTraces declared rounds last).map (fun s => { s with lastTimestamp := timestamp })
  else some { s with lastTimestamp := last }

/- The event trace goes to the front, unless it is in the list already. -/
def enqueue (e : ε) (s : Dumper ε) : Dumper ε :=
  if (s.eventTraces e).isEnqueued then s
  else
    let t := { s.eventTraces e with isEnqueued := true, next := s.firstTraceToDump }
    { s with eventTraces := Function.update s.eventTraces e t, firstTraceToDump := some e }

def register (event : Event) (s : Dumper ε) : Dumper ε :=
  match eventTrace event.trace with
  | none => s
  | some e =>
      let width := recordedWidth traces event
      let t := if (traces event.trace).isString then { s.eventTraces e with width := width } else s.eventTraces e
      enqueue e { s with
        eventTraces := Function.update s.eventTraces e (t.reg fresh event.value width event.flags event.mask) }

def merge (s : Dumper ε) (event : Event) : Option (Dumper ε) :=
  (s.detect declared rounds event.timestamp).map (register traces eventTrace fresh event)

end Dumper

def vcdRoutine (memory : ε → EventTrace ε) (bufs : List Buffer) : Option (Dumper ε) := do
  let s ← bufs.foldlM (fun s buf => (unpack traces buf).1.foldlM (Dumper.merge traces eventTrace declared fresh rounds) s)
    (Dumper.initial declared memory)
  s.flushEventTraces declared rounds s.lastTimestamp

end Thread

end Gvsoc.VcdMerge
