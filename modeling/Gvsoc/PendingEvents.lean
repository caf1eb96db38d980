import Gvsoc.DoubleLinks
import Gvsoc.Machine
import Gvsoc.TraceBuffer

/-! The pulses of a trace engine whose second value waits for its timestamp. -/
namespace Gvsoc.PendingEvents
open Bytes (Byte)
open DoubleLinks (onward backward)
open Tracing (TracePtr Traces Payload)

structure Record where
  trace : TracePtr
  timestamp : Int
  payload : Payload
  includeSize : Bool

/- The engine, with the fields of the traces that it links. `pulses` counts the pulses that were dumped, and `now` and
`stopped` are the last timestamp of a call and whether there was a stop. -/
structure Engine where
  firstPendingEvent : Option TracePtr
  next : TracePtr → Option TracePtr
  prev : TracePtr → Option TracePtr
  pendingTimestamp : TracePtr → Int
  buffer : TracePtr → List Byte
  globalEnable : Bool
  records : List Record
  pulses : Nat
  now : Int
  stopped : Bool

/- `new_trace_event` leaves the links of a trace and its buffer as they are. -/
def Engine.initial (next prev : TracePtr → Option TracePtr) (buffer : TracePtr → List Byte) : Engine :=
  { firstPendingEvent := none, next := next, prev := prev, pendingTimestamp := fun _ => -1, buffer := buffer
    globalEnable := true, records := [], pulses := 0, now := 0, stopped := false }

namespace Engine

variable (traces : Traces) (s : Engine)

def dumpEventToBuffer (r : Record) : Engine := if s.globalEnable then { s with records := s.records ++ [r] } else s

def pendingRecord (trace : TracePtr) : Record :=
  ⟨trace, s.pendingTimestamp trace, if (traces trace).isString then .unset 0 else .data (s.buffer trace), false⟩

def expire (trace : TracePtr) : Engine :=
  let s := s.dumpEventToBuffer (s.pendingRecord traces trace)
  { s with pendingTimestamp := Function.update s.pendingTimestamp trace (-1) }

/- The loop, with the pointer it ends at. There is no end when the rounds do not suffice. -/
def checkLoop (timestamp : Int) : Nat → Engine → Option TracePtr → Option (Engine × Option TracePtr)
  | 0, _, _ => none
  | _ + 1, s, none => some (s, none)
  | rounds + 1, s, some trace =>
      if timestamp = -1 ∨ s.pendingTimestamp trace ≤ timestamp then
        checkLoop timestamp rounds (s.expire traces trace) (s.next trace)
      else some (s, some trace)

def checkPendingEvents (timestamp : Int) : Option Engine := do
  let (s, trace) ← checkLoop traces timestamp (s.pulses + 1) s s.firstPendingEvent
  some { s with firstPendingEvent := trace, prev := backward s.prev trace none }

def dequeue (trace : TracePtr) : Engine :=
  { s with next := onward s.next (s.prev trace) (s.next trace)
           firstPendingEvent := if s.prev trace = none then s.next trace else s.firstPendingEvent
           prev := backward s.prev (s.next trace) (s.prev trace) }

def enqueueLoop (timestamp : Int) : Nat → Option TracePtr → Option TracePtr → Option (Option TracePtr × Option TracePtr)
  | 0, _, _ => none
  | _ + 1, prev, none => some (prev, none)
  | rounds + 1, prev, some current =>
      if s.pendingTimestamp current < timestamp then enqueueLoop timestamp rounds (some current) (s.next current)
      else some (prev, some current)

def enqueuePending (trace : TracePtr) (timestamp : Int) (event : List Byte) : Option Engine := do
  let (prev, current) ← s.enqueueLoop timestamp (s.pulses + 1) none s.firstPendingEvent
  some { s with next := Function.update (onward s.next prev (some trace)) trace current
                firstPendingEvent := if prev = none then some trace else s.firstPendingEvent
                prev := backward (Function.update s.prev trace prev) current (some trace)
                pendingTimestamp := Function.update s.pendingTimestamp trace timestamp
                buffer := Function.update s.buffer trace event
                pulses := s.pulses + 1 }

/- `dump_event` and `dump_event_delayed`, and with the size `dump_event_string`. -/
def dumpEvent (r : Record) : Option Engine := do
  let s ← s.checkPendingEvents traces r.timestamp
  some (s.dumpEventToBuffer r)

def dumpEventPulse (trace : TracePtr) (timestamp endTimestamp : Int) (pulseEvent : Payload) (event : List Byte) : Option Engine := do
  let s ← s.checkPendingEvents traces timestamp
  let s := if s.pendingTimestamp trace ≠ -1 then s.dequeue trace else s
  let s := s.dumpEventToBuffer ⟨trace, timestamp, pulseEvent, false⟩
  s.enqueuePending trace endTimestamp event

def flush (time : Int) : Option Engine := s.checkPendingEvents traces time

def stop (time : Int) : Option Engine := do
  let s ← s.checkPendingEvents traces (-1)
  s.flush traces time

end Engine

inductive Action where
  | event (trace : TracePtr) (timestamp : Int) (payload : Payload)
  | eventString (trace : TracePtr) (timestamp : Int) (payload : Payload)
  | eventPulse (trace : TracePtr) (timestamp endTimestamp : Int) (pulseEvent : Payload) (event : List Byte)
  | flush (time : Int)
  | stop (time : Int)
  | setGlobalEnable (enable : Bool)

def Action.time : Action → Option Int
  | .event _ timestamp _ => some timestamp
  | .eventString _ timestamp _ => some timestamp
  | .eventPulse _ timestamp _ _ _ => some timestamp
  | .flush time => some time
  | .stop time => some time
  | .setGlobalEnable _ => none

def call (traces : Traces) (s : Engine) : Action → Option Engine
  | .event trace timestamp payload => s.dumpEvent traces ⟨trace, timestamp, payload, false⟩
  | .eventString trace timestamp payload => s.dumpEvent traces ⟨trace, timestamp, payload, true⟩
  | .eventPulse trace timestamp endTimestamp pulseEvent event => s.dumpEventPulse traces trace timestamp endTimestamp pulseEvent event
  | .flush time => s.flush traces time
  | .stop time => (s.stop traces time).map fun s => { s with stopped := true }
  | .setGlobalEnable enable => some { s with globalEnable := enable }

def step (traces : Traces) (s : Engine) (a : Action) : Option Engine :=
  (call traces s a).map fun s => { s with now := a.time.getD s.now }

def Timed (s : Engine) (a : Action) : Prop :=
  (∀ time ∈ a.time, s.now ≤ time) ∧
    match a with
    | .eventPulse _ timestamp endTimestamp _ _ => timestamp ≤ endTimestamp
    | _ => True

instance (s : Engine) (a : Action) : Decidable (Timed s a) :=
  match a with
  | .event _ _ _ => inferInstanceAs (Decidable (_ ∧ True))
  | .eventString _ _ _ => inferInstanceAs (Decidable (_ ∧ True))
  | .eventPulse _ _ _ _ _ => inferInstanceAs (Decidable (_ ∧ _ ≤ _))
  | .flush _ => inferInstanceAs (Decidable (_ ∧ True))
  | .stop _ => inferInstanceAs (Decidable (_ ∧ True))
  | .setGlobalEnable _ => inferInstanceAs (Decidable (_ ∧ True))

end Gvsoc.PendingEvents
