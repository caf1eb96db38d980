import Gvsoc.TimeEngine

/-! One `clock_engine` under the time engine. Its own state is `Clock`; the time engine
holds the client part (`running`, `is_enqueued`, `next_event_time`). Other clients are
arbitrary: another clock engine or a time scheduler is one of them. Callbacks of the
events are not functions but open intervals of the run, between `callback` and
`callbackReturn`, in which any operation may happen. -/
namespace Gvsoc.ClockEngine
open TimeEngine (Engine Client)

structure Event where
  enqueued : Bool
  cycle : Int
  deriving DecidableEq, Repr

/- The slots of `event_queue` and `delayed_queue` are chains of events, `next` being the
link. `freq` is never read and left out. -/
structure Clock (ε : Type) where
  eventQueue : Fin 32 → List ε
  delayedQueue : List ε
  currentCycle : Fin 32
  period : Int
  cycles : Int
  nbEnqueuedToCycle : Int
  stopTime : Int
  mustFlushDelayedQueue : Bool
  event : ε → Event

/- `(current_cycle + n) & CLOCK_EVENT_QUEUE_MASK` -/
def slotAt (current : Fin 32) (n : Int) : Fin 32 :=
  ⟨((current.val + n) % 32).toNat, by omega⟩

def ahead (current slot : Fin 32) : Int := ((slot.val : Int) - current.val) % 32

section Clock

variable {ε : Type}

def Clock.initial (ε : Type) (period : Int) : Clock ε where
  eventQueue := fun _ => []
  delayedQueue := []
  currentCycle := 0
  period := period
  cycles := 0
  nbEnqueuedToCycle := 0
  stopTime := 0
  mustFlushDelayedQueue := true
  event := fun _ => ⟨false, 0⟩

def Clock.hasEvents (k : Clock ε) : Bool := k.nbEnqueuedToCycle != 0 || !k.delayedQueue.isEmpty

def Clock.cycleOf (k : Clock ε) (e : ε) : Int := (k.event e).cycle

def Clock.getNextEvent (k : Clock ε) : Option ε :=
  if k.nbEnqueuedToCycle != 0 then
    (List.range 32).findSome? (fun i : Nat => (k.eventQueue (slotAt k.currentCycle i)).head?)
  else k.delayedQueue.head?

def Clock.update (k : Clock ε) (time : Int) : Clock ε :=
  if k.period = 0 then k
  else
    let diff := time - k.stopTime
    if 0 < diff then
      let cycles := (diff + k.period - 1).tdiv k.period
      {k with stopTime := k.stopTime + cycles * k.period, cycles := k.cycles + cycles}
    else k

def Clock.sync (k : Clock ε) (running : Bool) (time : Int) : Clock ε :=
  if !running && k.nbEnqueuedToCycle == 0 then k.update time else k

/- The return value of `exec`, with what it leaves behind. The delayed queue is flushed
again when the position wraps or nothing is left in the slots. -/
def Clock.finish (k : Clock ε) (time : Int) : Clock ε × Int :=
  if k.nbEnqueuedToCycle != 0 then
    let current := slotAt k.currentCycle 1
    ({k with
      cycles := k.cycles + 1
      currentCycle := current
      mustFlushDelayedQueue := k.mustFlushDelayedQueue || decide (current = 0)}, k.period)
  else
    let k := {k with mustFlushDelayedQueue := true, stopTime := time}
    match k.delayedQueue with
    | [] => (k, -1)
    | head :: _ => (k, (k.cycleOf head - k.cycles) * k.period)

variable [DecidableEq ε]

def Clock.setEvent (k : Clock ε) (e : ε) (v : Event) : Clock ε :=
  {k with event := Function.update k.event e v}

def Clock.enqueueToCycle (k : Clock ε) (e : ε) (n : Int) : Clock ε :=
  let slot := slotAt k.currentCycle n
  {k.setEvent e {k.event e with cycle := n + k.cycles} with
    eventQueue := Function.update k.eventQueue slot (e :: k.eventQueue slot)
    nbEnqueuedToCycle := k.nbEnqueuedToCycle + 1}

def Clock.enqueueDelayed (k : Clock ε) (e : ε) (n : Int) : Clock ε :=
  let fullCycle := n + k.cycles
  {k.setEvent e {k.event e with cycle := fullCycle} with
    mustFlushDelayedQueue := true
    delayedQueue := Chain.insert k.cycleOf fullCycle e k.delayedQueue}

/- Moves events while they fit the window. The difference is unsigned in the source, so an
event of the past does not fit either. -/
def Clock.flushFrom (k : Clock ε) : List ε → Clock ε
  | [] => {k with delayedQueue := []}
  | e :: rest =>
      let k := if k.nbEnqueuedToCycle == 0 then {k with cycles := k.cycleOf e} else k
      let diff := k.cycleOf e - k.cycles
      if diff < 0 ∨ 32 ≤ diff then {k with delayedQueue := e :: rest}
      else (k.enqueueToCycle e diff).flushFrom rest

def Clock.flushDelayedQueue (k : Clock ε) : Clock ε :=
  {k with mustFlushDelayedQueue := false}.flushFrom k.delayedQueue

/- First the delayed queue, then the slots in index order. -/
def Clock.unlink (k : Clock ε) (e : ε) : Clock ε :=
  if e ∈ k.delayedQueue then {k with delayedQueue := k.delayedQueue.erase e}
  else match (List.finRange 32).find? (fun i => decide (e ∈ k.eventQueue i)) with
    | some i => {k with
        eventQueue := Function.update k.eventQueue i ((k.eventQueue i).erase e)
        nbEnqueuedToCycle := k.nbEnqueuedToCycle - 1}
    | none => k

def Clock.popEvent (k : Clock ε) (e : ε) (rest : List ε) : Clock ε :=
  {k.setEvent e {k.event e with enqueued := false} with
    eventQueue := Function.update k.eventQueue k.currentCycle rest
    nbEnqueuedToCycle := k.nbEnqueuedToCycle - 1}

end Clock

inductive ClientId (κ : Type) where
  | clock
  | other (k : κ)
  deriving DecidableEq, Repr

/- `entry` is the point where `exec` is about to be called; no code runs there. -/
inductive Control (ε κ : Type) where
  | waiting
  | entry
  | callback (e : ε)
  | other (k : κ)
  deriving DecidableEq, Repr

def Control.of {ε κ : Type} : TimeEngine.Control (ClientId κ) → Control ε κ
  | .waiting => .waiting
  | .executing .clock => .entry
  | .executing (.other k) => .other k

structure System (ε κ : Type) where
  engine : Engine (ClientId κ)
  clock : Clock ε
  control : Control ε κ

def periodOf (frequency : Int) : Int := 1000000000000 / frequency

section System

variable {ε κ : Type} [DecidableEq ε] [DecidableEq κ]

def System.running (s : System ε κ) : Bool := (s.engine.client .clock).running

def System.sync (s : System ε κ) : System ε κ :=
  {s with clock := s.clock.sync s.running s.engine.time}

/- `can_enqueue_to_cycle` is always false in the source: the slow path is this one. -/
def System.enqueueOther (s : System ε κ) (e : ε) (n : Int) : System ε κ :=
  {s with
    engine := if s.clock.period ≠ 0 then s.engine.enqueue .clock (n * s.clock.period) else s.engine
    clock := s.clock.enqueueDelayed e n}

def System.enqueue (s : System ε κ) (e : ε) (n : Int) : System ε κ :=
  let s := {s with clock := s.clock.setEvent e {s.clock.event e with enqueued := true}}
  let s := if !s.running then s.sync else s
  if s.running ∧ n < 32 then {s with clock := s.clock.enqueueToCycle e n}
  else s.enqueueOther e n

def System.enqueueExt (s : System ε κ) (e : ε) (n : Int) : System ε κ := s.sync.enqueue e n

def System.dequeueFromEngine (s : System ε κ) : System ε κ × Bool :=
  if s.running || !(s.engine.client .clock).isEnqueued then (s, false)
  else ({s with engine := s.engine.dequeue .clock}, true)

def System.cancel (s : System ε κ) (e : ε) : System ε κ :=
  if (s.clock.event e).enqueued then
    let k := s.clock.unlink e
    let s := {s with clock := k.setEvent e {k.event e with enqueued := false}}
    if s.clock.hasEvents then s else s.dequeueFromEngine.1
  else s

def System.reenqueue (s : System ε κ) (e : ε) (n : Int) : System ε κ :=
  let cycles := s.clock.cycles + n
  if (s.clock.event e).enqueued ∧ (s.clock.event e).cycle ≤ cycles then s
  else
    let s := if (s.clock.event e).enqueued then s.cancel e else s
    let s := s.enqueue e n
    {s with clock := s.clock.setEvent e {s.clock.event e with cycle := cycles}}

def System.reenqueueExt (s : System ε κ) (e : ε) (n : Int) : System ε κ := s.sync.reenqueue e n

def System.reenqueueToEngine (s : System ε κ) (t : Int) : System ε κ :=
  {s with engine :=
    (s.engine.set .clock {s.engine.client .clock with nextEventTime := t}).enqueue .clock t}

def System.applyFrequency (s : System ε κ) (frequency : Int) : System ε κ :=
  if 0 < frequency then
    let (s, reenqueue) := s.dequeueFromEngine
    let period := s.clock.period
    let s := {s with clock := {s.clock with period := periodOf frequency}}
    if reenqueue ∧ 0 < period then
      let cycles := (s.engine.nextTime .clock - s.engine.time).tdiv period
      s.reenqueueToEngine (cycles * s.clock.period)
    else if period = 0 then
      if s.clock.hasEvents then
        match s.clock.getNextEvent with
        | some e => s.reenqueueToEngine ((s.clock.cycleOf e - s.clock.cycles) * s.clock.period)
        | none => s
      else s
    else s
  else if frequency = 0 then
    let s := s.dequeueFromEngine.1
    {s with clock := {s.clock with period := 0}}
  else s

def System.execLoop (s : System ε κ) : System ε κ :=
  match s.clock.eventQueue s.clock.currentCycle with
  | e :: rest => {s with clock := s.clock.popEvent e rest, control := .callback e}
  | [] =>
      let done := s.clock.finish s.engine.time
      let next := s.engine.endExec .clock done.2
      ⟨next.1, done.1, .of next.2⟩

def Clock.enter (k : Clock ε) : Clock ε :=
  if k.mustFlushDelayedQueue then k.flushDelayedQueue else k

def System.exec (s : System ε κ) : System ε κ := {s with clock := s.clock.enter}.execLoop

end System

inductive Op (ε : Type) where
  | enqueue (e : ε) (n : Int)
  | enqueueExt (e : ε) (n : Int)
  | reenqueue (e : ε) (n : Int)
  | reenqueueExt (e : ε) (n : Int)
  | cancel (e : ε)
  | sync
  | applyFrequency (frequency : Int)
  deriving DecidableEq, Repr

inductive Action (ε κ : Type) where
  | op (o : Op ε)
  | timeEnqueue (k : κ) (t : Int)
  | timeDequeue (k : κ)
  | request (run : Bool)
  | start
  | exec
  | callbackReturn
  | otherReturn (ret : Int)
  deriving DecidableEq, Repr

section Behaviour

variable {ε κ : Type} [DecidableEq ε] [DecidableEq κ]

def System.perform (s : System ε κ) : Op ε → System ε κ
  | .enqueue e n => s.enqueue e n
  | .enqueueExt e n => s.enqueueExt e n
  | .reenqueue e n => s.reenqueue e n
  | .reenqueueExt e n => s.reenqueueExt e n
  | .cancel e => s.cancel e
  | .sync => s.sync
  | .applyFrequency f => s.applyFrequency f

/- The contract of the callers: what is asserted of the arguments. A frequency is an `int`. -/
def Op.legal (k : Clock ε) : Op ε → Bool
  | .enqueue e n => !(k.event e).enqueued && decide (0 ≤ n)
  | .enqueueExt e n => !(k.event e).enqueued && decide (0 ≤ n)
  | .reenqueue _ n => decide (0 ≤ n)
  | .reenqueueExt _ n => decide (0 ≤ n)
  | .applyFrequency f => decide (-2147483648 ≤ f ∧ f ≤ 2147483647)
  | _ => true

def step (s : System ε κ) : Action ε κ → Option (System ε κ)
  | .op o => if s.control ≠ .entry ∧ o.legal s.clock then some (s.perform o) else none
  | .timeEnqueue k t =>
      if s.control ≠ .entry ∧ 0 ≤ t then some {s with engine := s.engine.enqueue (.other k) t} else none
  | .timeDequeue k =>
      if s.control ≠ .entry then some {s with engine := s.engine.dequeue (.other k)} else none
  | .request run => some {s with engine := {s.engine with runReq := run}}
  | .start =>
      if s.control = .waiting ∧ s.engine.runReq = true then
        some {s with engine := s.engine.takeFirst.1, control := .of s.engine.takeFirst.2}
      else none
  | .exec => if s.control = .entry then some s.exec else none
  | .callbackReturn =>
      match s.control with
      | .callback _ => some s.execLoop
      | _ => none
  | .otherReturn ret =>
      match s.control with
      | .other k =>
          let next := s.engine.endExec (.other k) ret
          some {s with engine := next.1, control := .of next.2}
      | _ => none

end Behaviour

def initial (ε κ : Type) (period : Int) : System ε κ :=
  ⟨(TimeEngine.initial (ClientId κ)).engine, .initial ε period, .waiting⟩

end Gvsoc.ClockEngine
