import Gvsoc.Io
import Gvsoc.Machine

/-! The buffers of events between the engine and the thread that dumps them. -/
namespace Gvsoc.Tracing
open Bytes (Byte byteOf wordBytes wordOf)
open Io (bytesFrom)

def traceEventBufferSize : Nat := 65536
def traceEventNbBuffer : Nat := 4

inductive TraceKind where
  | bits (width : Nat)
  | real
  | string
  deriving DecidableEq, Repr

def TraceKind.bytes : TraceKind → Nat
  | .bits width => (width + 7) / 8
  | .real => 8
  | .string => 0

def TraceKind.isString : TraceKind → Bool
  | .string => true
  | _ => false

abbrev TracePtr := { p : BitVec 64 // p ≠ 0 }

theorem oneValid : (1 : BitVec 64) ≠ 0 := by decide

theorem twoValid : (2 : BitVec 64) ≠ 0 := by decide

theorem threeValid : (3 : BitVec 64) ≠ 0 := by decide

abbrev Traces := BitVec 64 → TraceKind

/- What `event` points to, or how many bytes it would have. -/
inductive Payload where
  | unset (bytes : Nat)
  | data (value : List Byte)
  deriving DecidableEq, Repr

def Payload.bytes : Payload → Nat
  | .unset bytes => bytes
  | .data value => value.length

structure Dump where
  trace : TracePtr
  timestamp : BitVec 64
  payload : Payload
  includeSize : Bool

structure Event where
  trace : BitVec 64
  timestamp : BitVec 64
  flags : Byte
  mask : List Byte
  value : List Byte
  deriving DecidableEq, Repr

namespace Dump

variable (d : Dump)

def flags : Byte := match d.payload with
  | .unset _ => 1
  | .data _ => 0

/- The special value applies everywhere. -/
def mask : List Byte := match d.payload with
  | .unset bytes => List.replicate bytes 0xff
  | .data _ => []

def value : List Byte := match d.payload with
  | .unset bytes => List.replicate bytes 0
  | .data value => value

def event : Event := ⟨d.trace, d.timestamp, d.flags, d.mask, d.value⟩

def size : Nat :=
  let size := d.payload.bytes + 8 + 8 + 1
  let size := if d.includeSize then size + 4 else size
  match d.payload with
  | .unset bytes => size + bytes
  | .data _ => size

def layout : List Byte :=
  wordBytes d.trace.val 8 ++ ([d.flags] ++ (d.mask ++ (wordBytes d.timestamp 8 ++
    ((if d.includeSize then wordBytes (BitVec.ofNat 32 d.payload.bytes) 4 else []) ++ d.value))))

end Dump

section Calls

variable (traces : Traces) (p : TracePtr) (timestamp : BitVec 64)

/- `vp::trace::event`, for a value that may be null. -/
def dumpEvent (value : Option (Nat → Byte)) : Dump :=
  ⟨p, timestamp, match value with
    | none => .unset (traces p).bytes
    | some memory => .data (bytesFrom memory 0 (traces p).bytes), false⟩

def dumpEventReal (value : BitVec 64) : Dump := ⟨p, timestamp, .data (wordBytes value 8), false⟩

def dumpEventString (text : List Byte) : Dump := ⟨p, timestamp, .data (text ++ [0]), true⟩

end Calls

abbrev Buffer := Nat → Byte

def put (buf : Buffer) (offset : Nat) (s : List Byte) : Buffer × Bool :=
  (Cells.write buf offset s, decide (traceEventBufferSize < offset + s.length))

def nullTrace : List Byte := List.replicate 8 0

section Unpack

variable (traces : Traces) (buf : Buffer)

/- One round of the loop of `vcd_routine`: the event, where the next one starts, and whether a byte outside of the
buffer was read. -/
def unpackOne (offset : Nat) : Option (Event × Nat × Bool) :=
  let p := wordOf 64 (bytesFrom buf offset 8)
  if p = 0 then none
  else
    let bytes := (traces p).bytes
    let flags := buf (offset + 8)
    let offset := offset + 8 + 1
    let mask := if flags = 1 then bytesFrom buf offset bytes else []
    let offset := offset + mask.length
    let timestamp := wordOf 64 (bytesFrom buf offset 8)
    let offset := offset + 8
    let bytes := if (traces p).isString then (wordOf 32 (bytesFrom buf offset 4)).toNat else bytes
    let offset := if (traces p).isString then offset + 4 else offset
    let value := bytesFrom buf offset bytes
    let offset := offset + bytes
    some (⟨p, timestamp, flags, mask, value⟩, offset, decide (traceEventBufferSize < offset))

def unpackLoop : Nat → Nat → List Event × Bool
  | 0, _ => ([], false)
  | fuel + 1, offset =>
      if offset < traceEventBufferSize - 8 then
        match unpackOne traces buf offset with
        | none => ([], false)
        | some (event, next, outside) =>
            let (events, later) := unpackLoop fuel next
            (event :: events, outside || later)
      else ([], false)

/- Every round moves on, so it cannot take more rounds than there are bytes. -/
def unpack : List Event × Bool := unpackLoop traces buf traceEventBufferSize 0

end Unpack

/- `trace_engine` and the two threads. The engine thread waits inside `get_event_buffer` while `waiting` holds its
record; the dumper thread is on the buffer in `unpacking`. `dumped`, `decoded` and `outside` are what happened so far. -/
structure State where
  eventBuffers : List Buffer
  readyEventBuffers : List Buffer
  currentBuffer : Option Buffer
  currentBufferSize : Nat
  globalEnable : Bool
  waiting : Option Dump
  unpacking : Option Buffer
  dumped : List Event
  decoded : List Event
  outside : Bool

namespace State

variable (s : State)

def initial (memory : Nat → Buffer) : State :=
  ⟨(List.range (traceEventNbBuffer - 1)).map (fun i => memory (i + 1)), [], some (memory 0), 0, true, none, none, [], [], false⟩

def record (d : Dump) : State :=
  match s.currentBuffer with
  | none => s
  | some buf =>
      let (buf, outside) := put buf s.currentBufferSize d.layout
      { s with currentBuffer := some buf, currentBufferSize := s.currentBufferSize + d.size,
               outside := s.outside || outside }

/- The current buffer is handed over in `get_event_buffer`. The room left is compared as an unsigned number. -/
def retire : State :=
  match s.currentBuffer with
  | none => s
  | some buf =>
      if traceEventBufferSize < s.currentBufferSize ∨ 8 < traceEventBufferSize - s.currentBufferSize then
        let (buf, outside) := put buf s.currentBufferSize nullTrace
        { s with readyEventBuffers := s.readyEventBuffers ++ [buf], currentBuffer := none, outside := s.outside || outside }
      else { s with readyEventBuffers := s.readyEventBuffers ++ [buf], currentBuffer := none }

def dumpEventToBuffer (d : Dump) : State :=
  if s.globalEnable then
    let s := { s with dumped := s.dumped ++ [d.event] }
    if s.currentBuffer.isNone ∨ traceEventBufferSize < s.currentBufferSize + d.size then { s.retire with waiting := some d }
    else s.record d
  else s

def flush : State :=
  if s.currentBufferSize ≠ 0 then
    match s.currentBuffer with
    | none => s
    | some buf =>
        let (buf, outside) := put buf s.currentBufferSize nullTrace
        { s with readyEventBuffers := s.readyEventBuffers ++ [buf], currentBuffer := none, outside := s.outside || outside }
  else s

end State

inductive Action where
  | event (p : TracePtr) (timestamp : BitVec 64) (value : Option (Nat → Byte))
  | eventReal (p : TracePtr) (timestamp value : BitVec 64)
  | eventString (p : TracePtr) (timestamp : BitVec 64) (text : List Byte)
  | setGlobalEnable (enable : Bool)
  | flush
  | acquire
  | pop
  | unpack

def Action.dump (traces : Traces) : Action → Option Dump
  | .event p timestamp value => some (dumpEvent traces p timestamp value)
  | .eventReal p timestamp value => some (dumpEventReal p timestamp value)
  | .eventString p timestamp text => some (dumpEventString p timestamp text)
  | _ => none

/- Between two turns of the mutex. The engine thread does nothing else while it waits for a free buffer. -/
def step (traces : Traces) (s : State) (a : Action) : Option State :=
  match a with
  | .acquire => match s.waiting, s.eventBuffers with
      | some d, buf :: rest =>
          some ({ s with currentBuffer := some buf, eventBuffers := rest, currentBufferSize := 0, waiting := none }.record d)
      | _, _ => none
  | .pop => match s.unpacking, s.readyEventBuffers with
      | none, buf :: rest => some { s with unpacking := some buf, readyEventBuffers := rest }
      | _, _ => none
  | .unpack => match s.unpacking with
      | some buf =>
          let (events, outside) := unpack traces buf
          some { s with unpacking := none, eventBuffers := s.eventBuffers ++ [buf], decoded := s.decoded ++ events,
                        outside := s.outside || outside }
      | none => none
  | .flush => if s.waiting.isNone then some s.flush else none
  | .setGlobalEnable enable => if s.waiting.isNone then some { s with globalEnable := enable } else none
  | a => if s.waiting.isNone then (a.dump traces).map s.dumpEventToBuffer else none

end Gvsoc.Tracing
