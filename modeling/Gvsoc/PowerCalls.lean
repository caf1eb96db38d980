import Mathlib.Tactic.FieldSimp
import Mathlib.Tactic.Linarith
import Gvsoc.PowerSession

/-! What each call does to the energies and to the own power of the traces. A quantum stays with its
trace for one cycle: the handler that flushes it is queued. -/
namespace Gvsoc.Power

open Hierarchy

variable {α : Type} [DecidableEq α] {top : Top α} {tree : Rooted α} {phase : Int} {history : List (Int × Call α)}

omit [DecidableEq α] in
@[simp] theorem tallyCons (f : Int → Call α → Rat) (e : Int × Call α) (history : List (Int × Call α)) :
    tally f (e :: history) = f e.1 e.2 + tally f history := by simp [tally]

omit [DecidableEq α] in
theorem tallyLinear {f g h : Int → Call α → Rat} {k : Rat} (each : ∀ e ∈ history, f e.1 e.2 = g e.1 e.2 + k * h e.1 e.2) :
    tally f history = tally g history + k * tally h history := by
  induction history with
  | nil => simp [tally]
  | cons e rest ih =>
      rw [tallyCons, tallyCons, tallyCons, each e (by simp), ih (fun e inside => each e (by simp [inside]))]
      ring

omit [DecidableEq α] in
theorem tallyZero {f : Int → Call α → Rat} (each : ∀ e ∈ history, f e.1 e.2 = 0) : tally f history = 0 := by
  induction history with
  | nil => rfl
  | cons e rest ih => rw [tallyCons, each e (by simp), ih (fun e inside => each e (by simp [inside])), add_zero]

omit [DecidableEq α] in
theorem tallySame {f g : Int → Call α → Rat} (each : ∀ e ∈ history, f e.1 e.2 = g e.1 e.2) : tally f history = tally g history := by
  induction history with
  | nil => rfl
  | cons e rest ih => rw [tallyCons, tallyCons, each e (by simp), ih (fun e inside => each e (by simp [inside]))]

def quantaAt (history : List (Int × Call α)) (x : List α) (time : Int) : Rat := tally (quantumAt x time) history

def powerOf (x : List α) (_ : Int) : Call α → Rat
  | .power i powerIncr => if i = x then powerIncr else 0
  | _ => 0

def leakageOf (x : List α) (_ : Int) : Call α → Rat
  | .leakage i powerIncr => if i = x then powerIncr else 0
  | _ => 0

def Dated (period phase time : Int) (history : List (Int × Call α)) : Prop :=
  ∀ e ∈ history, e.1 ≤ time ∧ period ∣ e.1 - phase

omit [DecidableEq α] in
theorem datedCall {period phase time : Int} {history : List (Int × Call α)} (c : Call α) (dated : Dated period phase time history) (cycle : period ∣ time - phase) :
    Dated period phase time ((time, c) :: history) := by
  intro e inside
  rcases List.mem_cons.mp inside with rfl | before
  · exact ⟨Int.le_refl _, cycle⟩
  · exact dated e before

structure Steady (tree : Rooted α) (period phase : Int) (history : List (Int × Call α)) (time : Int) (x : List α) (t : Trace) : Prop where
  dynamicPast : t.currentDynamicPowerTimestamp ≤ time
  leakagePast : t.currentLeakagePowerTimestamp ≤ time
  cyclePast : t.curentCycleTimestamp ≤ time
  positive : 0 ≤ t.quantumPowerForCycle
  quantum : t.quantumPowerForCycle * period = quantaAt history x t.curentCycleTimestamp
  elapsed : ∀ e ∈ history, ∀ quantum, e.2 = .energy x quantum →
    e.1 = t.curentCycleTimestamp ∨ e.1 + period ≤ t.curentCycleTimestamp
  queued : x ∈ tree.nodes → ∀ due, t.traceEvent = some due → time ≤ due ∧ due ≤ time + period ∧ period ∣ due - phase

/- A quantum is there for one cycle: the handler that flushes it is queued. -/
def Pending (top : Top α) (x : List α) (t : Trace) : Prop :=
  top.hasPath x = true → 0 < t.quantumPowerForCycle →
    ∃ due, t.traceEvent = some due ∧ due ≤ t.curentCycleTimestamp + top.period

def Watched (top : Top α) (tree : Rooted α) (phase : Int) (history : List (Int × Call α)) (time : Int) (busy : Option (List α))
    (x : List α) (t : Trace) : Prop :=
  Steady tree top.period phase history time x t ∧ (x ∈ tree.nodes → busy ≠ some x → Pending top x t)

theorem cyclesApart {period phase a b : Int} (first : period ∣ a - phase) (second : period ∣ b - phase) (before : a < b) :
    a + period ≤ b := by
  have apart : period ∣ b - a := by
    have difference := Int.dvd_sub second first
    rwa [show b - phase - (a - phase) = b - a by ring] at difference
  have := Int.le_of_dvd (by omega) apart
  omega

theorem quantaLater {x : List α} {time : Int} (before : ∀ e ∈ history, ∀ quantum, e.2 = .energy x quantum → e.1 ≠ time) :
    quantaAt history x time = 0 := by
  refine tallyZero fun e inside => ?_
  obtain ⟨made, c⟩ := e
  cases c with
  | energy i quantum =>
      simp only [quantumAt]
      split
      · rename_i here
        exact absurd here.2 (before _ inside quantum (by rw [here.1]))
      · rfl
  | power | leakage | report => rfl

section Settling

variable {time : Int} {x : List α} {t : Trace}

theorem steadySettled (positive : 0 < top.period) (dated : Dated top.period phase time history) (cycle : top.period ∣ time - phase)
    (steady : Steady tree top.period phase history time x t) :
    Steady tree top.period phase history time x (settled time t) := by
  rcases Int.lt_or_eq_of_le steady.cyclePast with old | now
  · have none : (settled time t).quantumPowerForCycle = 0 := by
      simp only [settled, old, and_true]
      split
      · rfl
      · rename_i zero
        simpa using zero
    have apart : ∀ e ∈ history, ∀ quantum, e.2 = .energy x quantum → e.1 + top.period ≤ time := by
      intro e inside quantum shape
      have past : e.1 < time := by
        have := steady.elapsed e inside quantum shape
        omega
      exact cyclesApart (dated e inside).2 cycle past
    refine ⟨steady.dynamicPast, steady.leakagePast, Int.le_refl _, none.ge, ?_, ?_, steady.queued⟩
    · rw [none, zero_mul]
      refine (quantaLater fun e inside quantum shape => ?_).symm
      have := apart e inside quantum shape
      simp only [settled]
      omega
    · exact fun e inside quantum shape => .inr (apart e inside quantum shape)
  · have same : settled time t = t := by
      simp only [settled, now, Int.lt_irrefl, and_false, if_false]
      rw [← now]
    rwa [same]

omit [DecidableEq α] in
theorem pendingSettled (past : t.curentCycleTimestamp ≤ time) (pending : Pending top x t) :
    Pending top x (settled time t) := by
  intro path some
  rcases Int.lt_or_eq_of_le past with old | now
  · simp only [settled, old, and_true, ne_eq, ite_not] at some
    split at some <;> simp_all
  · have same : settled time t = t := by
      simp only [settled, now, Int.lt_irrefl, and_false, if_false]
      rw [← now]
    rw [same] at some ⊢
    exact pending path some

theorem steadyInstant (positive : 0 < top.period) (cycle : top.period ∣ time - phase) (now : t.curentCycleTimestamp = time)
    (steady : Steady tree top.period phase history time x t) :
    Steady tree top.period phase history time x (dumpInstant top time t) ∧
      (x ∈ tree.nodes → Pending top x (dumpInstant top time t)) := by
  obtain ⟨dynamicPast, leakagePast, cyclePast, positive', quantum, elapsed, queued⟩ := steady
  refine ⟨⟨dynamicPast, leakagePast, cyclePast, positive', quantum, elapsed, fun member due found => ?_⟩, fun member _ some => ?_⟩
  · simp only [dumpInstant] at found
    split at found
    · cases found
      refine ⟨by omega, by omega, ?_⟩
      rw [show time + top.period - phase = time - phase + top.period by ring]
      exact Int.dvd_add cycle (Int.dvd_refl _)
    · exact queued member due found
  · cases event : t.traceEvent with
    | none =>
        have positive : 0 < t.quantumPowerForCycle := some
        exact ⟨time + top.period, by simp [dumpInstant, event, positive], by simp [dumpInstant, now]⟩
    | some due =>
        exact ⟨due, by simp [dumpInstant, event], by simpa [dumpInstant, now] using (queued member due event).2.1⟩

theorem watchedKept (positive : 0 < top.period) (dated : Dated top.period phase time history) (cycle : top.period ∣ time - phase)
    (busy : Option (List α)) : Kept top time (Watched top tree phase history time busy) where
  power x t w watched := by
    obtain ⟨steady, pending⟩ := watched
    rw [addDynamicPower, accountDynamic steady.dynamicPast]
    exact ⟨⟨Int.le_refl _, steady.2, steady.3, steady.4, steady.5, steady.6, steady.7⟩, pending⟩
  settled x t watched := by
    obtain ⟨steady, pending⟩ := watched
    exact ⟨steadySettled positive dated cycle steady, fun member free => pendingSettled steady.cyclePast (pending member free)⟩
  instant x t now watched := by
    obtain ⟨again, pending⟩ := steadyInstant positive cycle now watched.1
    exact ⟨again, fun member _ => pending member⟩

end Settling

def quantumOf (x : List α) : Call α → Rat
  | .energy i quantum => if x = i then quantum else 0
  | _ => 0

section Calls

variable {time : Int} {s : State α} {i : List α}

theorem steadyExtend {x : List α} {t : Trace} {made : Int} {c : Call α} (steady : Steady tree top.period phase history time x t)
    (other : ∀ quantum, c ≠ .energy x quantum) : Steady tree top.period phase ((made, c) :: history) time x t := by
  refine { steady with quantum := ?_, elapsed := ?_ }
  · have nothing : quantumAt x t.curentCycleTimestamp made c = 0 := by
      cases c with
      | energy i quantum =>
          have different : i ≠ x := fun same => other quantum (by rw [same])
          simp [quantumAt, different]
      | power | leakage | report => rfl
    rw [steady.quantum, quantaAt, quantaAt, tallyCons, nothing, zero_add]
  · intro e inside quantum shape
    rcases List.mem_cons.mp inside with rfl | before
    · exact absurd shape (other quantum)
    · exact steady.elapsed e before quantum shape

theorem steadyQuantum {t : Trace} {quantum : Rat} (positive : 0 < top.period) (more : 0 ≤ quantum)
    (now : t.curentCycleTimestamp = time) (steady : Steady tree top.period phase history time i t) :
    Steady tree top.period phase ((time, .energy i quantum) :: history) time i (addQuantum quantum (quantum / top.period) t) := by
  have period : (0 : Rat) < top.period := by exact_mod_cast positive
  refine { steady with positive := ?_, quantum := ?_, elapsed := ?_ }
  · exact add_nonneg steady.positive (div_nonneg more period.le)
  · have before := steady.quantum
    simp only [addQuantum, now] at before ⊢
    rw [quantaAt, tallyCons, ← quantaAt, ← before]
    simp only [quantumAt, and_self, if_true]
    field_simp
    ring
  · intro e inside other shape
    rcases List.mem_cons.mp inside with rfl | before
    · exact .inl now.symm
    · exact steady.elapsed e before other shape

theorem watchedDump (positive : 0 < top.period) (dated : Dated top.period phase time history) (cycle : top.period ∣ time - phase)
    (now : s.time = time) (all : All (Watched top tree phase history time (some i)) s) :
    All (Watched top tree phase history time none) (dumpVcdTrace top (parentIncDynamicPower top i) i s) := by
  have dumped := ownDumpKeeps (i := i) (watchedKept positive dated cycle (some i)) now all
  intro x
  by_cases same : x = i
  · subst same
    refine ⟨(dumped x).1, fun member _ path => ?_⟩
    have settled := steadySettled positive dated cycle (all x).1
    rw [dumpSelf (parentAbove top x) s path, now]
    exact (steadyInstant positive cycle rfl settled).2 member path
  · exact ⟨(dumped x).1, fun member _ => (dumped x).2 member (fun other => same (Option.some.inj other).symm)⟩

theorem watchedEnergy {quantum : Rat} (positive : 0 < top.period) (more : 0 ≤ quantum)
    (dated : Dated top.period phase time history) (cycle : top.period ∣ time - phase) (now : s.time = time)
    (all : All (Watched top tree phase history time none) s) :
    All (Watched top tree phase ((time, .energy i quantum) :: history) time none) (incDynamicEnergy top i quantum s) := by
  have dated' := datedCall (.energy i quantum) dated cycle
  have flushed := ownFlushKeeps (i := i) (watchedKept positive dated cycle none) now all
  have fresh : ((flushQuantumPowerForCycle (parentIncDynamicPower top i) i s).trace i).curentCycleTimestamp = time := by
    rw [flushSelf (parentAbove top i), now]
    rfl
  have added := modifyAll (f := addQuantum quantum (quantum / top.period))
    (Q := Watched top tree phase ((time, .energy i quantum) :: history) time (some i)) flushed
    (fun x t different watched =>
      ⟨steadyExtend watched.1 (fun q shape => different (Call.energy.inj shape).1.symm), fun member _ => watched.2 member nofun⟩)
    ⟨steadyQuantum positive more fresh (flushed i).1, fun _ other => absurd rfl other⟩
  have later : ((flushQuantumPowerForCycle (parentIncDynamicPower top i) i s).modify i
      (addQuantum quantum (quantum / top.period))).time = time := (flushTime (parentAbove top i) s).trans now
  have dumped := watchedDump positive dated' cycle later added
  simp only [incDynamicEnergy, if_neg (show ¬ top.period = 0 by omega)]
  exact parentKeeps (watchedKept positive dated' cycle none) _ ((dumpTime (parentAbove top i) _).trans later) dumped

theorem watchedExtend {made : Int} {c : Call α} (other : ∀ i quantum, c ≠ .energy i quantum)
    (all : All (Watched top tree phase history time none) s) : All (Watched top tree phase ((made, c) :: history) time none) s :=
  fun x => ⟨steadyExtend (all x).1 (other x), (all x).2⟩

def windowEnd (i : List α) (s : State α) : State α :=
  (s.modify i (accountDynamicPower s.time)).modify i (accountLeakagePower s.time)

@[simp] theorem windowEndTime (i : List α) (s : State α) : (windowEnd i s).time = s.time := rfl

theorem windowEndKeeps {P : List α → Trace → Prop} (dynamic : ∀ t, P i t → P i (accountDynamicPower s.time t))
    (leakage : ∀ t, P i t → P i (accountLeakagePower s.time t)) (all : All P s) : All P (windowEnd i s) := by
  have first : All P (s.modify i (accountDynamicPower s.time)) := allModify all (dynamic _ (all i))
  exact allModify first (leakage _ (first i))

theorem windowEndWatched (all : All (Watched top tree phase history s.time none) s) :
    All (Watched top tree phase history s.time none) (windowEnd i s) := by
  refine windowEndKeeps (fun t watched => ?_) (fun t watched => ?_) all
  · obtain ⟨steady, pending⟩ := watched
    rw [accountDynamic steady.1]
    exact ⟨{ steady with dynamicPast := Int.le_refl _ }, pending⟩
  · obtain ⟨steady, pending⟩ := watched
    rw [accountLeakage steady.2]
    exact ⟨{ steady with leakagePast := Int.le_refl _ }, pending⟩

theorem windowEndOwn (s : State α) (x : List α) : own tree (windowEnd i s) x = own tree s x := by
  rw [windowEnd, ownSame (by simp) (by simp), ownSame (by simp) (by simp)]

theorem windowEndLeakage (s : State α) : All (fun x t => t.currentLeakagePower = (s.trace x).currentLeakagePower) (windowEnd i s) :=
  windowEndKeeps (fun t same => by simpa using same) (fun t same => by simpa using same) fun _ => rfl

theorem windowEndEnergies {dynamic leakage : List α → Rat} (all : All (Energies s.time dynamic leakage) s) :
    All (Energies s.time dynamic leakage) (windowEnd i s) :=
  windowEndKeeps (fun _ => energiesAccountDynamic) (fun _ => energiesAccountLeakage) all

def reportFlushed (top : Top α) (i : List α) (s : State α) : State α :=
  flushQuantumPowerForCycle (parentIncDynamicPower top i) i (windowEnd i s)

theorem reportStartEq (top : Top α) (i : List α) (s : State α) :
    reportStart top i s = (reportFlushed top i s).modify i
      (startReport (reportFlushed top i s).time
        (if ((reportFlushed top i s).trace i).quantumPowerForCycle ≠ 0 then
          ((reportFlushed top i s).trace i).quantumPowerForCycle * top.period else 0)) := rfl

theorem watchedReport (positive : 0 < top.period) (dated : Dated top.period phase time history) (cycle : top.period ∣ time - phase)
    (now : s.time = time) (all : All (Watched top tree phase history time none) s) :
    All (Watched top tree phase history time none) (reportStart top i s) := by
  subst now
  have flushed : All (Watched top tree phase history s.time none) (reportFlushed top i s) :=
    ownFlushKeeps (watchedKept positive dated cycle none) (windowEndTime i s) (windowEndWatched all)
  rw [reportStartEq]
  exact allModify flushed ⟨{ (flushed i).1 with }, (flushed i).2⟩

theorem watchedCall {c : Call α} (positive : 0 < top.period) (dated : Dated top.period phase time history)
    (cycle : top.period ∣ time - phase) (now : s.time = time) (legal : c.legal = true)
    (all : All (Watched top tree phase history time none) s) :
    All (Watched top tree phase ((time, c) :: history) time none) (c.run top s) := by
  have kept : Kept top time (Watched top tree phase history time none) := watchedKept positive dated cycle none
  cases c with
  | energy i quantum => exact watchedEnergy positive (of_decide_eq_true legal) dated cycle now all
  | power i w => exact watchedExtend (by simp) (incDynamicPowerKeeps kept w now all)
  | leakage i w =>
      refine watchedExtend (by simp) (incLeakagePowerKeeps kept ?_ w now all)
      intro x t w watched
      obtain ⟨steady, pending⟩ := watched
      rw [addLeakagePower, accountLeakage steady.2]
      exact ⟨{ steady with leakagePast := Int.le_refl _ }, pending⟩
  | report i => exact watchedExtend (by simp) (watchedReport positive dated cycle now all)

end Calls

theorem callTime (c : Call α) (s : State α) : (c.run top s).time = s.time := by
  cases c with
  | energy i quantum =>
      have above := parentAbove top i
      simp only [Call.run, incDynamicEnergy]
      split
      · rfl
      · rw [above.time, dumpTime above, modifyTime, flushTime above]
  | power i w => exact (incDynamicPowerAbove top i).1 w s
  | leakage i w => exact incLeakagePowerTime top i w s
  | report i =>
      rw [Call.run, reportStartEq, modifyTime, reportFlushed, flushTime (parentAbove top i), windowEndTime]

theorem callOwn {c : Call α} (positive : 0 < top.period) (member : c.node ∈ tree.nodes) (s : State α) (x : List α) :
    own tree (c.run top s) x = own tree s x + powerOf x s.time c := by
  cases c with
  | energy i quantum =>
      change i ∈ tree.nodes at member
      have raises : Raises tree (parentIncDynamicPower top i) i := parentRaises member
      simp only [Call.run, incDynamicEnergy, if_neg (show ¬ top.period = 0 by omega)]
      rw [raises, dumpOwn (parentAbove top i) raises,
        ownModify (d := 0) (e := quantum / top.period) (by simp [addQuantum]) (by simp [addQuantum]),
        flushOwn (parentAbove top i) raises]
      simp [powerOf]
  | power i w =>
      simp only [Call.run, powerOf, eq_comm (a := i)]
      exact incDynamicPowerOwn member w s x
  | leakage i w =>
      simp only [Call.run, powerOf, add_zero]
      exact incLeakagePowerKeepsOwn member w s x
  | report i =>
      change i ∈ tree.nodes at member
      simp only [Call.run, reportStartEq, powerOf, add_zero]
      rw [ownSame rfl rfl, reportFlushed, flushOwn (parentAbove top i) (parentRaises member), windowEndOwn]

theorem callOwnLeakage {c : Call α} (positive : 0 < top.period) (member : c.node ∈ tree.nodes) (s : State α) {x : List α}
    (path : top.hasPath x) : ownLeakage tree (c.run top s) x = ownLeakage tree s x + leakageOf x s.time c := by
  have running : top.period ≠ 0 := by omega
  have kept := leakageKept top s.time fun x => (s.trace x).currentLeakagePower
  cases c with
  | energy i quantum =>
      simp only [leakageOf, add_zero]
      exact ownLeakageSame (incDynamicEnergyKeeps running kept kept (fun _ _ _ same => same) (fun _ _ same => same) rfl fun _ => rfl) x
  | power i w =>
      simp only [leakageOf, add_zero]
      exact ownLeakageSame (incDynamicPowerKeeps kept w rfl fun _ => rfl) x
  | leakage i w =>
      simp only [Call.run, leakageOf, eq_comm (a := i)]
      exact incLeakagePowerOwn member w s path
  | report i =>
      have flushed : All (fun x t => t.currentLeakagePower = (s.trace x).currentLeakagePower) (reportFlushed top i s) :=
        ownFlushKeeps kept (windowEndTime i s) (windowEndLeakage s)
      simp only [leakageOf, add_zero]
      exact ownLeakageSame (allModify flushed (flushed i)) x

theorem callEnergies {c : Call α} {time : Int} {s : State α} {dynamic leakage : List α → Rat} (positive : 0 < top.period)
    (now : s.time = time) (window : ∀ i, c ≠ .report i) (all : All (Energies time dynamic leakage) s) :
    All (Energies time (fun x => dynamic x + quantumOf x c) leakage) (c.run top s) := by
  have running : top.period ≠ 0 := by omega
  have kept := energiesKept top time dynamic leakage
  cases c with
  | energy i quantum =>
      refine incDynamicEnergyKeeps running kept (energiesKept top time _ leakage) ?_ ?_ now all
      · intro x t different energies
        exact { energies with dynamic := by simp [quantumOf, different, energies.dynamic] }
      · intro t power energies
        refine { energies with dynamic := ?_ }
        simp only [quantumOf, if_true, ← energies.dynamic, dynamicEnergy, addQuantum]
        ring
  | power i w =>
      simp only [quantumOf, add_zero]
      exact incDynamicPowerKeeps kept w now all
  | leakage i w =>
      simp only [quantumOf, add_zero]
      exact incLeakagePowerKeeps kept (fun _ _ w => energiesLeakage w) w now all
  | report i => exact absurd rfl (window i)

theorem startReportEnergies {time : Int} {t : Trace} (period : Int) (dynamic : t.currentDynamicPowerTimestamp = time)
    (leakage : t.currentLeakagePowerTimestamp = time) :
    dynamicEnergy time (startReport time (if t.quantumPowerForCycle ≠ 0 then t.quantumPowerForCycle * period else 0) t) =
        t.quantumPowerForCycle * period ∧
      leakageEnergy time (startReport time (if t.quantumPowerForCycle ≠ 0 then t.quantumPowerForCycle * period else 0) t) = 0 := by
  simp only [dynamicEnergy, leakageEnergy, startReport, dynamic, leakage, sub_self, Int.cast_zero, mul_zero, add_zero, and_true]
  split
  · rfl
  · rename_i zero
    rw [not_not.mp zero, zero_mul]

theorem reportSelf {i : List α} {s : State α} (dynamic : (s.trace i).currentDynamicPowerTimestamp ≤ s.time)
    (leakage : (s.trace i).currentLeakagePowerTimestamp ≤ s.time) :
    let t := (reportStart top i s).trace i
    t.curentCycleTimestamp = s.time ∧ dynamicEnergy s.time t = t.quantumPowerForCycle * top.period ∧ leakageEnergy s.time t = 0 := by
  have above := parentAbove top i
  have self : (reportFlushed top i s).trace i =
      settled s.time { s.trace i with
        reportDynamicEnergy := dynamicEnergy s.time (s.trace i)
        currentDynamicPowerTimestamp := s.time
        reportLeakageEnergy := leakageEnergy s.time (s.trace i)
        currentLeakagePowerTimestamp := s.time } := by
    simp only [reportFlushed, windowEnd, flushSelf above, modifySelf, modifyTime, accountDynamic dynamic]
    exact congrArg (settled s.time) (accountLeakage leakage)
  have time : (reportFlushed top i s).time = s.time := flushTime above _
  have cycle := congrArg Trace.curentCycleTimestamp self
  have dynamicNow : ((reportFlushed top i s).trace i).currentDynamicPowerTimestamp = s.time :=
    congrArg Trace.currentDynamicPowerTimestamp self
  have leakageNow : ((reportFlushed top i s).trace i).currentLeakagePowerTimestamp = s.time :=
    congrArg Trace.currentLeakagePowerTimestamp self
  rw [reportStartEq, time]
  simp only [modifySelf]
  exact ⟨cycle, startReportEnergies top.period dynamicNow leakageNow⟩

theorem reportOthers {i : List α} {s : State α} {time : Int} {dynamic leakage : List α → Rat} (now : s.time = time)
    (all : All (Energies time dynamic leakage) s) {x : List α} (different : x ≠ i) :
    Energies time dynamic leakage x ((reportStart top i s).trace x) := by
  subst now
  have flushed : All (Energies s.time dynamic leakage) (reportFlushed top i s) :=
    ownFlushKeeps (energiesKept top s.time dynamic leakage) (windowEndTime i s) (windowEndEnergies all)
  rw [reportStartEq, modifyOther different]
  exact flushed x

end Gvsoc.Power
