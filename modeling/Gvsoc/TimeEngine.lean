import Gvsoc.Chain
import Gvsoc.Machine

/-! The global time engine without SystemC: `time_engine::enqueue`, `dequeue` and the
scheduling part of `run_loop`. Clients are named by `ι`; the chain from `first_client`
along `next` is kept as a list. Times are picoseconds as integers: a sum that leaves
`int64_t` is undefined in the source and has no counterpart here. -/
namespace Gvsoc.TimeEngine
open Machine (Run anyStep)

structure Client where
  nextEventTime : Int
  running : Bool
  isEnqueued : Bool
  deriving DecidableEq, Repr

structure Engine (ι : Type) where
  time : Int
  firstClient : List ι
  client : ι → Client
  runReq : Bool

inductive Control (ι : Type) where
  | waiting
  | executing (i : ι)
  deriving DecidableEq, Repr

section Operations

variable {ι : Type} [DecidableEq ι]

def Engine.set (e : Engine ι) (i : ι) (c : Client) : Engine ι :=
  {e with client := Function.update e.client i c}

def Engine.nextTime (e : Engine ι) (i : ι) : Int := (e.client i).nextEventTime

/- Inserting walks past the clients whose event comes strictly earlier. -/
def Engine.link (e : Engine ι) (i : ι) (t : Int) : Engine ι :=
  {e.set i {e.client i with nextEventTime := t, isEnqueued := true} with
    firstClient := Chain.insert e.nextTime t i e.firstClient}

/- The walk stops at the client: a flagged client is on the chain (`Linked` below). -/
def Engine.dequeue (e : Engine ι) (i : ι) : Engine ι :=
  if (e.client i).isEnqueued then
    {e.set i {e.client i with isEnqueued := false} with firstClient := e.firstClient.erase i}
  else e

def Engine.enqueue (e : Engine ι) (i : ι) (t : Int) : Engine ι :=
  let fullTime := e.time + t
  if (e.client i).running then e
  else if (e.client i).isEnqueued then
    if (e.client i).nextEventTime ≤ fullTime then e
    else (e.dequeue i).link i fullTime
  else e.link i fullTime

def Engine.pop (e : Engine ι) (current : ι) (rest : List ι) : Engine ι :=
  {e.set current {e.client current with isEnqueued := false, running := true} with
    firstClient := rest, time := e.nextTime current}

def Engine.takeFirst (e : Engine ι) : Engine ι × Control ι :=
  match e.firstClient with
  | [] => (e, .waiting)
  | current :: rest => (e.pop current rest, .executing current)

def Engine.nextNotBefore (e : Engine ι) (t : Int) : Bool :=
  match e.firstClient with
  | [] => true
  | next :: _ => decide (t ≤ e.nextTime next)

/- The stop-requested exit of the shortcut: back to the front of the chain. -/
def Engine.pushFront (e : Engine ι) (current : ι) (t : Int) : Engine ι :=
  {e.set current ⟨t, false, true⟩ with firstClient := current :: e.firstClient}

/- The optimised reinsertion. It starts behind `next`, which the failed shortcut has shown
to exist and to come strictly earlier. -/
def Engine.reinsert (e : Engine ι) (current : ι) (t : Int) : Engine ι :=
  match e.firstClient with
  | [] => e
  | next :: rest =>
      {e.set current {e.client current with nextEventTime := t, isEnqueued := true} with
        firstClient := next :: Chain.insert e.nextTime t current rest}

def Engine.leave (e : Engine ι) (current : ι) (ret : Int) : Engine ι :=
  let e := if 0 < ret then e.reinsert current (ret + e.time) else e
  e.set current {e.client current with running := false}

/- What `run_loop` does with the value `exec` returned, up to the next call of an `exec`
or to the exit of the inner loop. -/
def Engine.endExec (e : Engine ι) (current : ι) (ret : Int) : Engine ι × Control ι :=
  let time := ret + e.time
  if 0 < ret ∧ e.nextNotBefore time = true then
    if e.runReq then ({e with time := time}, .executing current)
    else (e.pushFront current time, .waiting)
  else
    let e := e.leave current ret
    if e.runReq then e.takeFirst else (e, .waiting)

/- The condition of `vp_assert(..., "event time is before vp time")`, where it is tested. -/
def Engine.eventTimeAssert (e : Engine ι) (current : ι) (ret : Int) : Prop :=
  ∀ next ∈ (e.leave current ret).firstClient.head?,
    (e.leave current ret).time ≤ (e.leave current ret).nextTime next

end Operations

/- One run of the engine thread. `enqueue` and `dequeue` come from anywhere, so also from
inside the `exec` that is running; `request` is another thread moving `run_req`. -/
inductive Action (ι : Type) where
  | enqueue (i : ι) (t : Int)
  | dequeue (i : ι)
  | request (run : Bool)
  | start
  | finish (ret : Int)
  deriving DecidableEq, Repr

structure State (ι : Type) where
  engine : Engine ι
  control : Control ι

def initial (ι : Type) : State ι :=
  ⟨⟨0, [], fun _ => ⟨0, false, false⟩, false⟩, .waiting⟩

section Behaviour

variable {ι : Type} [DecidableEq ι]

def step (s : State ι) : Action ι → Option (State ι)
  | .enqueue i t => if 0 ≤ t then some {s with engine := s.engine.enqueue i t} else none
  | .dequeue i => some {s with engine := s.engine.dequeue i}
  | .request run => some {s with engine := {s.engine with runReq := run}}
  | .start =>
      match s.control with
      | .waiting => if s.engine.runReq then some ⟨s.engine.takeFirst.1, s.engine.takeFirst.2⟩ else none
      | .executing _ => none
  | .finish ret =>
      match s.control with
      | .waiting => none
      | .executing i => some ⟨(s.engine.endExec i ret).1, (s.engine.endExec i ret).2⟩

end Behaviour

structure Linked {ι : Type} (e : Engine ι) : Prop where
  nodup : e.firstClient.Nodup
  flag : ∀ i, i ∈ e.firstClient ↔ (e.client i).isEnqueued = true
  running : ∀ i, (e.client i).running = true → i ∉ e.firstClient

structure Scheduled {ι : Type} (e : Engine ι) : Prop where
  sorted : Chain.Sorted e.nextTime e.firstClient
  future : ∀ i ∈ e.firstClient, e.time ≤ e.nextTime i

def Owned {ι : Type} (e : Engine ι) (c : Control ι) : Prop :=
  ∀ i, (e.client i).running = true ↔ c = .executing i

end Gvsoc.TimeEngine
