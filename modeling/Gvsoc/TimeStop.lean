import Gvsoc.Machine

/-! Stop requests to the time engine. `run_req` is cleared by the ones who want the engine to stop,
and also by `lock` and `lock_step`, which keep its value aside for `unlock` and `lock_step_cancel`.
Each action is one critical section; `quit` has three. -/
namespace Gvsoc.TimeStop
open Machine (Run endOf runInvariant runRestrict runPrefix runEnd traceOf reach reachTrace)

/- The fields of `time_engine` that the requests use. The last three count the callers: sections between
`lock` and `unlock`, calls of `quit` that hold the lock, and those that have also requested the stop. -/
structure Engine where
  locked : Bool
  lockedRunReq : Bool
  runReq : Bool
  stopReq : Bool
  pauseReq : Bool
  stopStatus : BitVec 32
  engineHasBeenStopped : Bool
  noExit : Bool
  stopRetainCount : Int
  sections : Nat
  quitLocked : Nat
  quitStopped : Nat
  deriving DecidableEq

/- After the constructor and `start`. `locked_run_req` is not initialised. -/
def Engine.start (noExit lockedRunReq : Bool) : Engine :=
  { locked := false, lockedRunReq := lockedRunReq, runReq := false, stopReq := false, pauseReq := false
    stopStatus := -1, engineHasBeenStopped := false, noExit := noExit, stopRetainCount := 0
    sections := 0, quitLocked := 0, quitStopped := 0 }

namespace Engine

variable (e : Engine)

def run : Engine := { e with runReq := true, pauseReq := false }

def lockStep : Engine :=
  if e.locked then e else { e with locked := true, lockedRunReq := e.runReq, runReq := false }

def lockStepCancel : Engine :=
  if e.locked then { e with runReq := e.lockedRunReq, locked := false } else e

def lock : Engine :=
  if e.locked then e else { e with lockedRunReq := e.runReq, runReq := false, locked := true }

def unlock : Engine := { e with runReq := e.lockedRunReq, locked := false }

def pause : Engine := { e with runReq := false }

def stopExec : Engine := { e with pauseReq := true, runReq := false }

def stopRetain (count : Int) : Engine := { e with stopRetainCount := e.stopRetainCount + count }

def mergedStatus (status : BitVec 32) : BitVec 32 := if e.engineHasBeenStopped then e.stopStatus ||| status else status

def stops (status : BitVec 32) (force noRetain : Bool) : Bool :=
  (noRetain || e.stopRetainCount == 0 || e.mergedStatus status != 0) && (force || !e.noExit)

def stopEngine (status : BitVec 32) (force noRetain : Bool) : Engine :=
  let noted := { e with engineHasBeenStopped := true, stopStatus := e.mergedStatus status }
  if e.stops status force noRetain then { noted with stopReq := true, runReq := false } else noted

end Engine

inductive Action where
  | run
  | lock
  | unlock
  | lockStep
  | lockStepCancel
  | pause
  | stopEngine (status : BitVec 32) (force noRetain : Bool)
  | stopExec
  | stopRetain (count : Int)
  | quitLock
  | quitStop (status : BitVec 32)
  | quitUnlock
  deriving DecidableEq

/- `run` waits until the engine is not locked. Every `unlock` has its `lock`. -/
def step (e : Engine) : Action → Option Engine
  | .run => if e.locked then none else some e.run
  | .lock => some { e.lock with sections := e.sections + 1 }
  | .unlock => if 0 < e.sections then some { e.unlock with sections := e.sections - 1 } else none
  | .lockStep => some e.lockStep
  | .lockStepCancel => some e.lockStepCancel
  | .pause => some e.pause
  | .stopEngine status force noRetain => some (e.stopEngine status force noRetain)
  | .stopExec => some e.stopExec
  | .stopRetain count => some (e.stopRetain count)
  | .quitLock => some { e.lock with quitLocked := e.quitLocked + 1 }
  | .quitStop status =>
      if 0 < e.quitLocked then
        some { e.stopEngine status true true with quitLocked := e.quitLocked - 1, quitStopped := e.quitStopped + 1 }
      else none
  | .quitUnlock => if 0 < e.quitStopped then some { e.unlock with quitStopped := e.quitStopped - 1 } else none

def StopRequest (e : Engine) : Action → Prop
  | .pause | .stopExec | .quitStop _ | .quitUnlock => True
  | .stopEngine status force noRetain => e.stops status force noRetain = true
  | _ => False

instance (e : Engine) (a : Action) : Decidable (StopRequest e a) := by
  cases a <;> unfold StopRequest <;> infer_instance

def NothingSaved (e : Engine) : Prop := e.locked = true → e.lockedRunReq = false

instance (e : Engine) : Decidable (NothingSaved e) := inferInstanceAs (Decidable (_ → _))

/- A stop is requested while nothing is saved, and an `unlock` of an engine that is not locked any more
has nothing to write back. -/
def Careful (e : Engine) : Action → Prop
  | .unlock => e.locked = false → e.lockedRunReq = false ∨ e.runReq = true
  | .quitUnlock => e.lockedRunReq = false
  | a => StopRequest e a → NothingSaved e

instance (e : Engine) (a : Action) : Decidable (Careful e a) := by
  cases a <;> unfold Careful <;> infer_instance

def Stopped (e : Engine) : Prop := e.runReq = false ∧ NothingSaved e

section Steps

variable {e e' : Engine} {a : Action}

theorem lockStopped (stopped : Stopped e) : Stopped e.lock := by
  obtain ⟨still, nothing⟩ := stopped
  cases locked : e.locked with
  | true => simpa [Stopped, Engine.lock, locked] using ⟨still, nothing⟩
  | false => simp [Stopped, NothingSaved, Engine.lock, locked, still]

theorem lockStepStopped (stopped : Stopped e) : Stopped e.lockStep := by
  obtain ⟨still, nothing⟩ := stopped
  cases locked : e.locked with
  | true => simpa [Stopped, Engine.lockStep, locked] using ⟨still, nothing⟩
  | false => simp [Stopped, NothingSaved, Engine.lockStep, locked, still]

theorem stopEngineStopped (status : BitVec 32) (force noRetain : Bool) (stopped : Stopped e) :
    Stopped (e.stopEngine status force noRetain) := by
  obtain ⟨still, nothing⟩ := stopped
  unfold Engine.stopEngine
  cases e.stops status force noRetain with
  | true => exact ⟨rfl, nothing⟩
  | false => exact ⟨still, nothing⟩

theorem requestStopped (careful : Careful e a) (request : StopRequest e a) (taken : step e a = some e') : Stopped e' := by
  cases a with
  | pause =>
      cases taken
      exact ⟨rfl, careful request⟩
  | stopExec =>
      cases taken
      exact ⟨rfl, careful request⟩
  | stopEngine status force noRetain =>
      have nothing : NothingSaved e := careful request
      have stops : e.stops status force noRetain = true := request
      simp only [step, Option.some.injEq, Engine.stopEngine, stops, if_true] at taken
      subst taken
      exact ⟨rfl, nothing⟩
  | quitStop status =>
      have nothing : NothingSaved e := careful request
      obtain ⟨-, done⟩ := Option.ite_none_right_eq_some.mp taken
      cases done
      exact ⟨rfl, nothing⟩
  | quitUnlock =>
      obtain ⟨-, done⟩ := Option.ite_none_right_eq_some.mp taken
      cases done
      exact ⟨careful, by simp [NothingSaved, Engine.unlock]⟩
  | run | lock | unlock | lockStep | lockStepCancel | stopRetain | quitLock => exact request.elim

theorem stepStopped (stopped : Stopped e) (careful : Careful e a) (other : a ≠ .run) (taken : step e a = some e') :
    Stopped e' := by
  by_cases request : StopRequest e a
  · exact requestStopped careful request taken
  · cases a with
    | run => contradiction
    | lock =>
        cases taken
        exact lockStopped stopped
    | quitLock =>
        cases taken
        exact lockStopped stopped
    | lockStep =>
        cases taken
        exact lockStepStopped stopped
    | unlock =>
        obtain ⟨still, nothing⟩ := stopped
        obtain ⟨-, done⟩ := Option.ite_none_right_eq_some.mp taken
        cases done
        refine ⟨?_, by simp [NothingSaved, Engine.unlock]⟩
        show e.lockedRunReq = false
        cases locked : e.locked with
        | true => exact nothing locked
        | false => exact (careful locked).resolve_right (by simp [still])
    | lockStepCancel =>
        obtain ⟨still, nothing⟩ := stopped
        cases taken
        unfold Engine.lockStepCancel
        cases locked : e.locked with
        | true => exact ⟨nothing locked, by simp [NothingSaved]⟩
        | false => exact ⟨still, nothing⟩
    | stopEngine status force noRetain =>
        cases taken
        exact stopEngineStopped status force noRetain stopped
    | stopRetain count =>
        cases taken
        exact stopped
    | pause | stopExec | quitStop | quitUnlock => exact absurd trivial request

end Steps

/- After a stop request the engine does not want to run until `run` is called. -/
theorem stopNotUndone (noExit lockedRunReq : Bool) (left : List (Action × Engine)) {right : List (Action × Engine)} {mid last : Engine} {a : Action}
    (run : Run step Careful (.start noExit lockedRunReq) (left ++ (a, mid) :: right) last)
    (request : StopRequest (endOf (.start noExit lockedRunReq) left) a) (noRun : ∀ p ∈ right, p.1 ≠ .run) :
    last.runReq = false := by
  obtain ⟨before, first, careful, taken, later⟩ := runPrefix run
  rw [runEnd first] at request
  have stopped := requestStopped careful request taken
  have invariant := runInvariant (runRestrict (· ≠ .run) later noRun) stopped
    (fun _ _ _ stopped allowed => stepStopped stopped allowed.1 allowed.2)
  exact invariant.1

/- The engine is paused, and then locked and unlocked; the pause survives. -/
theorem stopNotUndonePause : (reach step Careful (.start false true) [.run, .pause, .lock, .unlock]).runReq = false := by
  obtain ⟨run, -⟩ := reachTrace step Careful (.start false true) [.run, .pause, .lock, .unlock] (by decide +kernel)
  exact stopNotUndone false true (traceOf step (.start false true) [.run]) run trivial (by decide +kernel)

/- `quit` of an engine that runs: its own `unlock` writes the saved request back. -/
theorem quitUndone :
    Run step Machine.anyStep (.start false true) (traceOf step (.start false true) [.run, .quitLock, .quitStop 0, .quitUnlock])
        (reach step Machine.anyStep (.start false true) [.run, .quitLock, .quitStop 0, .quitUnlock]) ∧
      (reach step Machine.anyStep (.start false true) [.run, .quitLock, .quitStop 0, .quitUnlock]).stopReq = true ∧
      (reach step Machine.anyStep (.start false true) [.run, .quitLock, .quitStop 0, .quitUnlock]).runReq = true := by
  obtain ⟨run, -⟩ := reachTrace step Machine.anyStep (.start false true) [.run, .quitLock, .quitStop 0, .quitUnlock]
    (by decide +kernel)
  exact ⟨run, by decide +kernel⟩

end Gvsoc.TimeStop
