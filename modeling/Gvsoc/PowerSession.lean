import Gvsoc.Machine
import Gvsoc.PowerLoad

/-! Runs of a hierarchy of power traces whose components share one clock. The history keeps the
calls with their times, the last one first; everything a trace was given is counted there. -/
namespace Gvsoc.Power

open Hierarchy

inductive Call (α : Type) where
  | energy (i : List α) (quantum : Rat)
  | power (i : List α) (powerIncr : Rat)
  | leakage (i : List α) (powerIncr : Rat)
  | report (i : List α)
  deriving DecidableEq, Repr

variable {α : Type} [DecidableEq α]

def Call.node : Call α → List α
  | .energy i _ | .power i _ | .leakage i _ | .report i => i

def Call.legal : Call α → Bool
  | .energy _ quantum => decide (0 ≤ quantum)
  | _ => true

def Call.run (top : Top α) : Call α → State α → State α
  | .energy i quantum => incDynamicEnergy top i quantum
  | .power i powerIncr => incDynamicPower top i powerIncr
  | .leakage i powerIncr => incLeakagePower top i powerIncr
  | .report i => reportStart top i

structure Session (α : Type) where
  state : State α := {}
  history : List (Int × Call α) := []

inductive Action (α : Type) where
  | call (c : Call α)
  | handler (i : List α)
  | query (i : List α)
  | advance (time : Int)

/- The clock engine takes an event out of its queue before it calls the handler. -/
def runHandler (top : Top α) (i : List α) (s : State α) : State α :=
  traceHandler top i (s.modify i fun t => { t with traceEvent := none })

/- Calls come at the cycles of the clock, handlers when they are due, and no time passes over a
handler. -/
def step (top : Top α) (tree : Rooted α) (phase : Int) (s : Session α) : Action α → Option (Session α)
  | .call c =>
      if c.node ∈ tree.nodes ∧ top.period ∣ s.state.time - phase ∧ c.legal then
        some { state := c.run top s.state, history := (s.state.time, c) :: s.history }
      else none
  | .handler i =>
      if (s.state.trace i).traceEvent = some s.state.time ∧ i ∈ tree.nodes then
        some { s with state := runHandler top i s.state }
      else none
  | .query i => some { s with state := (getReportEnergy i s.state).2 }
  | .advance time =>
      if s.state.time < time ∧ ∀ i ∈ tree.nodes, (s.state.trace i).traceEvent.all (fun due => decide (time ≤ due)) then
        some { s with state := { s.state with time := time } }
      else none

def lastReport : List (Int × Call α) → List α → Option Int
  | [], _ => none
  | (time, .report i) :: rest, x => if i = x then some time else lastReport rest x
  | _ :: rest, x => lastReport rest x

def tally (f : Int → Call α → Rat) (history : List (Int × Call α)) : Rat := (history.map fun e => f e.1 e.2).sum

def quantumAt (x : List α) (time made : Int) : Call α → Rat
  | .energy i quantum => if i = x ∧ made = time then quantum else 0
  | _ => 0

/- What a call made on a trace has given it at a later time, in a report that started at `start`:
a quantum, or power over the time since then. -/
def givenBy (x : List α) (start time made : Int) : Call α → Rat
  | .energy i quantum => if i = x ∧ start ≤ made then quantum else 0
  | .power i powerIncr => if i = x then powerIncr * ((time - max made start : Int) : Rat) else 0
  | _ => 0

def notElapsedOf (period : Int) (x : List α) (time made : Int) : Call α → Rat
  | .energy i quantum =>
      if i = x ∧ time < made + period then quantum * (1 - ((time - made : Int) : Rat) / period) else 0
  | _ => 0

def leakageGivenBy (x : List α) (start time made : Int) : Call α → Rat
  | .leakage i powerIncr => if i = x then powerIncr * ((time - max made start : Int) : Rat) else 0
  | _ => 0

def given (history : List (Int × Call α)) (x : List α) (start time : Int) : Rat := tally (givenBy x start time) history

def notElapsed (period : Int) (history : List (Int × Call α)) (x : List α) (time : Int) : Rat :=
  tally (notElapsedOf period x time) history

def leakageGiven (history : List (Int × Call α)) (x : List α) (start time : Int) : Rat :=
  tally (leakageGivenBy x start time) history

def reported (s : State α) (x : List α) : Rat × Rat := (getReportEnergy x s).1

end Gvsoc.Power
