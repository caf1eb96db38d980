import Mathlib.Algebra.Order.Ring.Rat
import Mathlib.Tactic.Ring
import Gvsoc.Hierarchy

/-! The power traces of a component hierarchy. An energy quantum is energy for the trace that
receives it and power for every trace above it, until a later call, the event handler or a report
flushes it. Energies and powers are rationals, times are picoseconds; a trace is named by its path,
its own name first. -/
namespace Gvsoc.Power

structure Trace where
  quantumPowerForCycle : Rat := 0
  curentCycleTimestamp : Int := 0
  reportDynamicEnergy : Rat := 0
  reportLeakageEnergy : Rat := 0
  reportStartTimestamp : Int := 0
  currentDynamicPower : Rat := 0
  currentDynamicPowerTimestamp : Int := 0
  currentLeakagePower : Rat := 0
  currentLeakagePowerTimestamp : Int := 0
  currentPower : Rat := 0
  -- The time at which the queued handler runs.
  traceEvent : Option Int := none
  deriving DecidableEq, Repr

structure State (α : Type) where
  time : Int := 0
  trace : List α → Trace := fun _ => {}

structure Top (α : Type) where
  period : Int
  hasPath : List α → Bool

variable {α : Type} [DecidableEq α] (top : Top α)

def State.modify (s : State α) (i : List α) (f : Trace → Trace) : State α :=
  { s with trace := Function.update s.trace i (f (s.trace i)) }

@[simp] theorem modifyTime (s : State α) (i : List α) (f : Trace → Trace) : (s.modify i f).time = s.time := rfl

@[simp] theorem modifySelf (s : State α) (i : List α) (f : Trace → Trace) : (s.modify i f).trace i = f (s.trace i) := by
  simp [State.modify]

theorem modifyOther {s : State α} {i x : List α} {f : Trace → Trace} (different : x ≠ i) :
    (s.modify i f).trace x = s.trace x := by simp [State.modify, different]

def accountDynamicPower (time : Int) (t : Trace) : Trace :=
  let diff := time - t.currentDynamicPowerTimestamp
  if 0 < diff then
    { t with
      reportDynamicEnergy := t.reportDynamicEnergy + t.currentDynamicPower * diff
      currentDynamicPowerTimestamp := time }
  else t

def accountLeakagePower (time : Int) (t : Trace) : Trace :=
  let diff := time - t.currentLeakagePowerTimestamp
  if 0 < diff then
    { t with
      reportLeakageEnergy := t.reportLeakageEnergy + t.currentLeakagePower * diff
      currentLeakagePowerTimestamp := time }
  else t

@[simp] theorem accountDynamicQuantum (time : Int) (t : Trace) :
    (accountDynamicPower time t).quantumPowerForCycle = t.quantumPowerForCycle := by
  simp only [accountDynamicPower]
  split <;> rfl

@[simp] theorem accountDynamicCurrent (time : Int) (t : Trace) :
    (accountDynamicPower time t).currentDynamicPower = t.currentDynamicPower := by
  simp only [accountDynamicPower]
  split <;> rfl

@[simp] theorem accountDynamicLeakage (time : Int) (t : Trace) :
    (accountDynamicPower time t).currentLeakagePower = t.currentLeakagePower := by
  simp only [accountDynamicPower]
  split <;> rfl

@[simp] theorem accountLeakageQuantum (time : Int) (t : Trace) :
    (accountLeakagePower time t).quantumPowerForCycle = t.quantumPowerForCycle := by
  simp only [accountLeakagePower]
  split <;> rfl

@[simp] theorem accountLeakageDynamic (time : Int) (t : Trace) :
    (accountLeakagePower time t).currentDynamicPower = t.currentDynamicPower := by
  simp only [accountLeakagePower]
  split <;> rfl

@[simp] theorem accountLeakageCurrent (time : Int) (t : Trace) :
    (accountLeakagePower time t).currentLeakagePower = t.currentLeakagePower := by
  simp only [accountLeakagePower]
  split <;> rfl

/- `parent` is inc_dynamic_power of the parent, and does nothing at the root. -/
def flushQuantumPowerForCycle (parent : Rat → State α → State α) (i : List α) (s : State α) : State α :=
  let t := s.trace i
  let s :=
    if t.quantumPowerForCycle ≠ 0 ∧ t.curentCycleTimestamp < s.time then
      (parent (-t.quantumPowerForCycle) s).modify i fun t => { t with quantumPowerForCycle := 0 }
    else s
  s.modify i fun t => { t with curentCycleTimestamp := s.time }

def getQuantumPowerForCycle (parent : Rat → State α → State α) (i : List α) (s : State α) : Rat × State α :=
  let s := flushQuantumPowerForCycle parent i s
  ((s.trace i).quantumPowerForCycle, s)

def getQuantumEnergyForCycle (parent : Rat → State α → State α) (i : List α) (s : State α) : Rat × State α :=
  let (power, s) := getQuantumPowerForCycle parent i s
  (if power ≠ 0 then power * top.period else 0, s)

def dumpInstant (time : Int) (t : Trace) : Trace :=
  { t with
    currentPower := t.quantumPowerForCycle + (t.currentDynamicPower + t.currentLeakagePower)
    traceEvent := if t.traceEvent.isNone ∧ 0 < t.quantumPowerForCycle then some (time + top.period) else t.traceEvent }

def dumpVcdTrace (parent : Rat → State α → State α) (i : List α) (s : State α) : State α :=
  if top.hasPath i then
    let (_, s) := getQuantumPowerForCycle parent i s
    s.modify i (dumpInstant top s.time)
  else s

def addDynamicPower (time : Int) (powerIncr : Rat) (t : Trace) : Trace :=
  let t := accountDynamicPower time t
  { t with currentDynamicPower := t.currentDynamicPower + powerIncr }

def incDynamicPower : List α → Rat → State α → State α
  | [], powerIncr, s => dumpVcdTrace top (fun _ s => s) [] (s.modify [] (addDynamicPower s.time powerIncr))
  | a :: i, powerIncr, s =>
      incDynamicPower i powerIncr
        (dumpVcdTrace top (incDynamicPower i) (a :: i) (s.modify (a :: i) (addDynamicPower s.time powerIncr)))

def parentIncDynamicPower : List α → Rat → State α → State α
  | [] => fun _ s => s
  | _ :: i => incDynamicPower top i

def addQuantum (quantum power : Rat) (t : Trace) : Trace :=
  { t with
    quantumPowerForCycle := t.quantumPowerForCycle + power
    reportDynamicEnergy := t.reportDynamicEnergy + quantum }

def incDynamicEnergy (i : List α) (quantum : Rat) (s : State α) : State α :=
  if top.period = 0 then s
  else
    let s := flushQuantumPowerForCycle (parentIncDynamicPower top i) i s
    let power := quantum / top.period
    let s := s.modify i (addQuantum quantum power)
    parentIncDynamicPower top i power (dumpVcdTrace top (parentIncDynamicPower top i) i s)

def addLeakagePower (time : Int) (powerIncr : Rat) (t : Trace) : Trace :=
  let t := accountLeakagePower time t
  { t with currentLeakagePower := t.currentLeakagePower + powerIncr }

def incLeakagePower : List α → Rat → State α → State α
  | [], powerIncr, s =>
      if top.hasPath [] then
        dumpVcdTrace top (parentIncDynamicPower top []) [] (s.modify [] (addLeakagePower s.time powerIncr))
      else s
  | a :: i, powerIncr, s =>
      if top.hasPath (a :: i) then
        incLeakagePower i powerIncr
          (dumpVcdTrace top (parentIncDynamicPower top (a :: i)) (a :: i)
            (s.modify (a :: i) (addLeakagePower s.time powerIncr)))
      else s

def startReport (time : Int) (energy : Rat) (t : Trace) : Trace :=
  { t with reportDynamicEnergy := energy, reportLeakageEnergy := 0, reportStartTimestamp := time }

def reportStart (i : List α) (s : State α) : State α :=
  let s := s.modify i (accountDynamicPower s.time)
  let s := s.modify i (accountLeakagePower s.time)
  let (energy, s) := getQuantumEnergyForCycle top (parentIncDynamicPower top i) i s
  s.modify i (startReport s.time energy)

def traceHandler (i : List α) (s : State α) : State α := dumpVcdTrace top (parentIncDynamicPower top i) i s

def getReportDynamicEnergy (i : List α) (s : State α) : Rat × State α :=
  let s := s.modify i (accountDynamicPower s.time)
  ((s.trace i).reportDynamicEnergy, s)

def getReportLeakageEnergy (i : List α) (s : State α) : Rat × State α :=
  let s := s.modify i (accountLeakagePower s.time)
  ((s.trace i).reportLeakageEnergy, s)

def getReportEnergy (i : List α) (s : State α) : (Rat × Rat) × State α :=
  let (dynamic, s) := getReportDynamicEnergy i s
  let (leakage, s) := getReportLeakageEnergy i s
  ((dynamic, leakage), s)

def settled (time : Int) (t : Trace) : Trace :=
  { t with
    quantumPowerForCycle := if t.quantumPowerForCycle ≠ 0 ∧ t.curentCycleTimestamp < time then 0 else t.quantumPowerForCycle
    curentCycleTimestamp := time }

structure Above (parent : Rat → State α → State α) (i : List α) : Prop where
  time : ∀ w s, (parent w s).time = s.time
  trace : ∀ w s x, i.length ≤ x.length → (parent w s).trace x = s.trace x

section Calls

variable {top} {parent : Rat → State α → State α} {i : List α}

omit [DecidableEq α] in
theorem aboveRoot : Above (fun _ s => s : Rat → State α → State α) i := ⟨fun _ _ => rfl, fun _ _ _ _ => rfl⟩

theorem flushEq (above : Above parent i) (s : State α) :
    flushQuantumPowerForCycle parent i s =
      (if (s.trace i).quantumPowerForCycle ≠ 0 ∧ (s.trace i).curentCycleTimestamp < s.time then
        parent (-(s.trace i).quantumPowerForCycle) s else s).modify i (settled s.time) := by
  have self := fun w => above.trace w s i (Nat.le_refl _)
  unfold flushQuantumPowerForCycle
  split
  · rename_i stale
    simp only [State.modify, Function.update_self, Function.update_idem, above.time, self, settled, if_pos stale]
  · rename_i fresh
    simp only [State.modify, settled, if_neg fresh]

theorem flushTime (above : Above parent i) (s : State α) : (flushQuantumPowerForCycle parent i s).time = s.time := by
  rw [flushEq above, modifyTime]
  split
  · exact above.time _ _
  · rfl

theorem flushSelf (above : Above parent i) (s : State α) :
    (flushQuantumPowerForCycle parent i s).trace i = settled s.time (s.trace i) := by
  rw [flushEq above, modifySelf]
  split
  · rw [above.trace _ _ _ (Nat.le_refl _)]
  · rfl

theorem flushBelow (above : Above parent i) (s : State α) {x : List α} (below : i.length < x.length) :
    (flushQuantumPowerForCycle parent i s).trace x = s.trace x := by
  have different : x ≠ i := fun same => by simp [same] at below
  rw [flushEq above, modifyOther different]
  split
  · exact above.trace _ _ _ (by omega)
  · rfl

theorem dumpTime (above : Above parent i) (s : State α) : (dumpVcdTrace top parent i s).time = s.time := by
  unfold dumpVcdTrace
  split
  · exact flushTime above s
  · rfl

theorem dumpSelf (above : Above parent i) (s : State α) (path : top.hasPath i) :
    (dumpVcdTrace top parent i s).trace i = dumpInstant top s.time (settled s.time (s.trace i)) := by
  simp only [dumpVcdTrace, if_pos path, getQuantumPowerForCycle, modifySelf, flushTime above, flushSelf above]

theorem dumpBelow (above : Above parent i) (s : State α) {x : List α} (below : i.length < x.length) :
    (dumpVcdTrace top parent i s).trace x = s.trace x := by
  have different : x ≠ i := fun same => by simp [same] at below
  unfold dumpVcdTrace
  split
  · exact (modifyOther different).trans (flushBelow above s below)
  · rfl

end Calls

theorem incDynamicPowerAbove (i : List α) :
    (∀ w s, (incDynamicPower top i w s).time = s.time) ∧
      ∀ w s x, i.length < x.length → (incDynamicPower top i w s).trace x = s.trace x := by
  induction i with
  | nil =>
      refine ⟨fun w s => dumpTime aboveRoot _, fun w s x below => ?_⟩
      have different : x ≠ [] := fun same => by simp [same] at below
      exact (dumpBelow aboveRoot _ below).trans (modifyOther different)
  | cons a i ih =>
      have above : Above (incDynamicPower top i) (a :: i) := ⟨ih.1, fun w s x below => ih.2 w s x below⟩
      refine ⟨fun w s => (ih.1 _ _).trans (dumpTime above _), fun w s x below => ?_⟩
      have different : x ≠ a :: i := fun same => by simp [same] at below
      have further : i.length < x.length := Nat.lt_of_succ_lt below
      exact (ih.2 _ _ x further).trans ((dumpBelow above _ below).trans (modifyOther different))

theorem parentAbove (i : List α) : Above (parentIncDynamicPower top i) i := by
  cases i with
  | nil => exact aboveRoot
  | cons a i => exact ⟨(incDynamicPowerAbove top i).1, fun w s x below => (incDynamicPowerAbove top i).2 w s x below⟩

structure Kept (time : Int) (P : List α → Trace → Prop) : Prop where
  power : ∀ x t w, P x t → P x (addDynamicPower time w t)
  settled : ∀ x t, P x t → P x (settled time t)
  instant : ∀ x t, t.curentCycleTimestamp = time → P x t → P x (dumpInstant top time t)

def All (P : List α → Trace → Prop) (s : State α) : Prop := ∀ x, P x (s.trace x)

theorem modifyAll {P Q : List α → Trace → Prop} {s : State α} {i : List α} {f : Trace → Trace} (all : All P s)
    (others : ∀ x t, x ≠ i → P x t → Q x t) (here : Q i (f (s.trace i))) : All Q (s.modify i f) := by
  intro x
  by_cases same : x = i
  · subst same
    simpa using here
  · rw [modifyOther same]
    exact others x _ same (all x)

theorem allModify {P : List α → Trace → Prop} {s : State α} {i : List α} {f : Trace → Trace} (all : All P s)
    (here : P i (f (s.trace i))) : All P (s.modify i f) := modifyAll all (fun _ _ _ same => same) here

section Rule

variable {top} {time : Int} {P : List α → Trace → Prop} {parent : Rat → State α → State α} {i : List α} {s : State α}

theorem flushKeeps (kept : Kept top time P) (above : Above parent i)
    (calls : ∀ w s, s.time = time → All P s → All P (parent w s)) (now : s.time = time) (all : All P s) :
    All P (flushQuantumPowerForCycle parent i s) := by
  have here := kept.settled i _ (all i)
  rw [flushEq above, now]
  split
  · refine allModify (calls _ s now all) ?_
    rwa [above.trace _ _ _ (Nat.le_refl _)]
  · exact allModify all here

theorem dumpKeeps (kept : Kept top time P) (above : Above parent i)
    (calls : ∀ w s, s.time = time → All P s → All P (parent w s)) (now : s.time = time) (all : All P s) :
    All P (dumpVcdTrace top parent i s) := by
  have flushed := flushKeeps kept above calls now all
  have fresh : ((flushQuantumPowerForCycle parent i s).trace i).curentCycleTimestamp = time := by
    rw [flushSelf above, now]
    rfl
  unfold dumpVcdTrace
  split
  · simp only [getQuantumPowerForCycle, flushTime above, now]
    exact allModify flushed (kept.instant i _ fresh (flushed i))
  · exact all

theorem incDynamicPowerKeeps (kept : Kept top time P) (w : Rat) (now : s.time = time) (all : All P s) :
    All P (incDynamicPower top i w s) := by
  induction i generalizing s w with
  | nil =>
      have added : All P (s.modify [] (addDynamicPower s.time w)) := allModify all (now ▸ kept.power _ _ _ (all []))
      exact dumpKeeps kept aboveRoot (fun _ _ _ same => same) now added
  | cons a i ih =>
      have above : Above (incDynamicPower top i) (a :: i) := parentAbove top (a :: i)
      have added : All P (s.modify (a :: i) (addDynamicPower s.time w)) := allModify all (now ▸ kept.power _ _ _ (all _))
      have later : (s.modify (a :: i) (addDynamicPower s.time w)).time = time := now
      have dumped := dumpKeeps kept above (fun w s => ih w) later added
      exact ih w ((dumpTime above _).trans now) dumped

theorem parentKeeps (kept : Kept top time P) (w : Rat) (now : s.time = time) (all : All P s) :
    All P (parentIncDynamicPower top i w s) := by
  cases i with
  | nil => exact all
  | cons a i => exact incDynamicPowerKeeps kept w now all

theorem ownDumpKeeps (kept : Kept top time P) (now : s.time = time) (all : All P s) :
    All P (dumpVcdTrace top (parentIncDynamicPower top i) i s) :=
  dumpKeeps kept (parentAbove top i) (fun w _ => parentKeeps kept w) now all

theorem ownFlushKeeps (kept : Kept top time P) (now : s.time = time) (all : All P s) :
    All P (flushQuantumPowerForCycle (parentIncDynamicPower top i) i s) :=
  flushKeeps kept (parentAbove top i) (fun w _ => parentKeeps kept w) now all

theorem incDynamicEnergyKeeps {Q : List α → Trace → Prop} {quantum : Rat} (running : top.period ≠ 0) (kept : Kept top time P)
    (later : Kept top time Q) (others : ∀ x t, x ≠ i → P x t → Q x t) (here : ∀ t power, P i t → Q i (addQuantum quantum power t))
    (now : s.time = time) (all : All P s) : All Q (incDynamicEnergy top i quantum s) := by
  have flushed := ownFlushKeeps (i := i) kept now all
  have added : All Q ((flushQuantumPowerForCycle (parentIncDynamicPower top i) i s).modify i (addQuantum quantum (quantum / top.period))) :=
    modifyAll flushed others (here _ _ (flushed i))
  have same : ((flushQuantumPowerForCycle (parentIncDynamicPower top i) i s).modify i
      (addQuantum quantum (quantum / top.period))).time = time := (flushTime (parentAbove top i) s).trans now
  simp only [incDynamicEnergy, if_neg running]
  exact parentKeeps later _ ((dumpTime (parentAbove top i) _).trans same) (ownDumpKeeps later same added)

theorem incLeakagePowerKeeps (kept : Kept top time P) (leakage : ∀ x t w, P x t → P x (addLeakagePower time w t))
    (w : Rat) (now : s.time = time) (all : All P s) : All P (incLeakagePower top i w s) := by
  induction i generalizing s w with
  | nil =>
      have added : All P (s.modify [] (addLeakagePower s.time w)) := allModify all (now ▸ leakage _ _ _ (all []))
      simp only [incLeakagePower]
      split
      · exact ownDumpKeeps kept now added
      · exact all
  | cons a i ih =>
      have added : All P (s.modify (a :: i) (addLeakagePower s.time w)) := allModify all (now ▸ leakage _ _ _ (all _))
      have later : (s.modify (a :: i) (addLeakagePower s.time w)).time = time := now
      simp only [incLeakagePower]
      split
      · exact ih w ((dumpTime (parentAbove top _) _).trans now) (ownDumpKeeps kept later added)
      · exact all

end Rule

theorem incLeakagePowerTime (i : List α) (w : Rat) (s : State α) : (incLeakagePower top i w s).time = s.time := by
  induction i generalizing s with
  | nil =>
      simp only [incLeakagePower]
      split
      · exact dumpTime (parentAbove top _) _
      · rfl
  | cons a i ih =>
      simp only [incLeakagePower]
      split
      · exact (ih _).trans (dumpTime (parentAbove top _) _)
      · rfl

end Gvsoc.Power
