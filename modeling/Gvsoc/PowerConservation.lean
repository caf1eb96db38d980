import Mathlib.Algebra.BigOperators.Ring.Finset
import Gvsoc.PowerCalls

/-! The energy that a trace reports is what it was given and what its children report, less the part
of their quanta whose cycle is not over. -/
namespace Gvsoc.Power

open Hierarchy Machine

variable {α : Type} [DecidableEq α] {top : Top α} {tree : Rooted α} {phase : Int} {history : List (Int × Call α)}
  {x : List α} {start time later : Int}

theorem lastReportMember (found : lastReport history x = some time) : ∃ c, (time, c) ∈ history := by
  induction history with
  | nil => contradiction
  | cons e rest ih =>
      obtain ⟨made, c⟩ := e
      cases c with
      | report i =>
          simp only [lastReport] at found
          split at found
          · cases found
            exact ⟨_, List.mem_cons_self⟩
          · obtain ⟨c, inside⟩ := ih found
            exact ⟨c, List.mem_cons_of_mem _ inside⟩
      | energy | power | leakage =>
          obtain ⟨c, inside⟩ := ih found
          exact ⟨c, List.mem_cons_of_mem _ inside⟩

theorem givenLater (history : List (Int × Call α)) (x : List α) (start time later : Int) :
    given history x start later = given history x start time + (later - time : Int) * tally (powerOf x) history := by
  refine tallyLinear fun e _ => ?_
  obtain ⟨made, c⟩ := e
  cases c with
  | power i w =>
      simp only [givenBy, powerOf]
      split
      · push_cast
        ring
      · ring
  | energy | leakage | report => simp [givenBy, powerOf]

theorem leakageGivenLater (history : List (Int × Call α)) (x : List α) (start time later : Int) :
    leakageGiven history x start later = leakageGiven history x start time + (later - time : Int) * tally (leakageOf x) history := by
  refine tallyLinear fun e _ => ?_
  obtain ⟨made, c⟩ := e
  cases c with
  | leakage i w =>
      simp only [leakageGivenBy, leakageOf]
      split
      · push_cast
        ring
      · ring
  | energy | power | report => simp [leakageGivenBy, leakageOf]

theorem givenNow {c : Call α} (past : start ≤ time) : givenBy x start time time c = quantumOf x c := by
  cases c with
  | energy i quantum => simp [givenBy, quantumOf, past, eq_comm]
  | power i w => simp [givenBy, quantumOf, past]
  | leakage | report => rfl

theorem leakageGivenNow {c : Call α} (past : start ≤ time) : leakageGivenBy x start time time c = 0 := by
  cases c with
  | leakage i w => simp [leakageGivenBy, past]
  | energy | power | report => rfl

theorem notElapsedNow {c : Call α} {period : Int} (positive : 0 < period) : notElapsedOf period x time time c = quantumOf x c := by
  cases c with
  | energy i quantum => simp [notElapsedOf, quantumOf, positive, eq_comm]
  | power | leakage | report => rfl

theorem quantumNow {c : Call α} : quantumAt x time time c = quantumOf x c := by
  cases c with
  | energy i quantum => simp [quantumAt, quantumOf, eq_comm]
  | power | leakage | report => rfl

theorem givenStart {period : Int} (dated : Dated period phase time history) : given history x time time = quantaAt history x time := by
  refine tallySame fun e inside => ?_
  have past := (dated e inside).1
  obtain ⟨made, c⟩ := e
  cases c with
  | energy i quantum =>
      have now : time ≤ made ↔ made = time := ⟨fun after => Int.le_antisymm past after, fun same => same.ge⟩
      simp only [givenBy, quantumAt, now]
  | power i w => simp [givenBy, quantumAt, max_eq_right past]
  | leakage | report => rfl

theorem leakageGivenStart {period : Int} (dated : Dated period phase time history) : leakageGiven history x time time = 0 := by
  refine tallyZero fun e inside => ?_
  have past := (dated e inside).1
  obtain ⟨made, c⟩ := e
  cases c with
  | leakage i w => simp [leakageGivenBy, max_eq_right past]
  | energy | power | report => rfl

theorem notElapsedStart {period : Int} (positive : 0 < period) (dated : Dated period phase time history) (cycle : period ∣ time - phase) :
    notElapsed period history x time = quantaAt history x time := by
  refine tallySame fun e inside => ?_
  obtain ⟨past, aligned⟩ := dated e inside
  obtain ⟨made, c⟩ := e
  cases c with
  | energy i quantum =>
      have now : time < made + period ↔ made = time := by
        refine ⟨fun unfinished => ?_, fun same => by omega⟩
        rcases Int.lt_or_eq_of_le past with before | same
        · have := cyclesApart aligned cycle before
          simp only at this
          omega
        · exact same
      simp only [notElapsedOf, quantumAt, now]
      split
      · rename_i here
        simp [here.2]
      · rfl
  | power | leakage | report => rfl

theorem notElapsedEq {t : Trace} (positive : 0 < top.period) (steady : Steady tree top.period phase history time x t)
    (past : time ≤ later) (unfinished : 0 < t.quantumPowerForCycle → later ≤ t.curentCycleTimestamp + top.period) :
    notElapsed top.period history x later =
      t.quantumPowerForCycle * ((t.curentCycleTimestamp + top.period - later : Int) : Rat) := by
  have period : (top.period : Rat) ≠ 0 := by exact_mod_cast positive.ne'
  have cyclePast := steady.cyclePast
  -- Only the last cycle of the trace can still be open.
  have last : notElapsed top.period history x later = tally (fun _ _ => 0) history +
      (if later < t.curentCycleTimestamp + top.period then 1 - ((later - t.curentCycleTimestamp : Int) : Rat) / top.period else 0) *
        quantaAt history x t.curentCycleTimestamp := by
    refine tallyLinear fun e inside => ?_
    have elapsed := steady.elapsed e inside
    obtain ⟨made, c⟩ := e
    cases c with
    | energy i quantum =>
        simp only [notElapsedOf, quantumAt, zero_add]
        rcases eq_or_ne i x with rfl | different
        · rcases elapsed quantum rfl with rfl | past
          · simp only [true_and, and_self, if_true]
            split
            · ring
            · ring
          · have old : made ≠ t.curentCycleTimestamp := by
              simp only at past
              omega
            have done : ¬ later < made + top.period := by
              simp only at past
              omega
            simp [old, done]
        · simp [different]
    | power | leakage | report => simp [notElapsedOf, quantumAt]
  rw [last, tallyZero (fun _ _ => rfl), zero_add, ← steady.quantum]
  split
  · push_cast
    field_simp
    ring
  · rename_i finished
    rcases steady.positive.eq_or_lt with none | some
    · rw [← none, zero_mul, zero_mul]
    · have past : t.curentCycleTimestamp + top.period - later = 0 := by
        have := unfinished some
        omega
      rw [past, zero_mul, Int.cast_zero, mul_zero]

def dynamicOf (s : State α) (x : List α) : Rat := dynamicEnergy s.time (s.trace x)

def leakageEnergyOf (s : State α) (x : List α) : Rat := leakageEnergy s.time (s.trace x)

structure Balanced (top : Top α) (tree : Rooted α) (s : Session α) (start : Int) (x : List α) : Prop where
  dynamic : (∀ c ∈ tree.children x, top.hasPath c = true) →
    dynamicOf s.state x = given s.history x start s.state.time +
      ∑ c ∈ tree.children x, (dynamicOf s.state c - notElapsed top.period s.history c s.state.time)
  leakage : top.hasPath x = true →
    leakageEnergyOf s.state x = leakageGiven s.history x start s.state.time + ∑ c ∈ tree.children x, leakageEnergyOf s.state c

structure Accounted (top : Top α) (tree : Rooted α) (phase : Int) (s : Session α) : Prop where
  dated : Dated top.period phase s.state.time s.history
  watched : All (Watched top tree phase s.history s.state.time none) s.state
  own : ∀ x, own tree s.state x = tally (powerOf x) s.history
  ownLeakage : ∀ x, top.hasPath x = true → ownLeakage tree s.state x = tally (leakageOf x) s.history
  current : ∀ x ∈ tree.nodes, lastReport s.history x = some s.state.time →
    dynamicOf s.state x = quantaAt s.history x s.state.time ∧ leakageEnergyOf s.state x = 0
  window : ∀ start, start < s.state.time → (∀ x ∈ tree.nodes, lastReport s.history x = some start) →
    ∀ x ∈ tree.nodes, Balanced top tree s start x

theorem childNode {c : List α} (child : c ∈ tree.children x) : c ∈ tree.nodes := (childrenMember.mp child).1

theorem startBalanced {s : Session α} (positive : 0 < top.period) (accounted : Accounted top tree phase s)
    (all : ∀ x ∈ tree.nodes, lastReport s.history x = some s.state.time) (member : x ∈ tree.nodes) :
    Balanced top tree s s.state.time x := by
  obtain ⟨c, inside⟩ := lastReportMember (all x member)
  have cycle := (accounted.dated _ inside).2
  constructor
  · intro _
    have nothing : ∀ c ∈ tree.children x, dynamicOf s.state c - notElapsed top.period s.history c s.state.time = 0 := by
      intro c child
      have node := childNode child
      rw [(accounted.current c node (all c node)).1, notElapsedStart positive accounted.dated cycle, sub_self]
    rw [(accounted.current x member (all x member)).1, givenStart accounted.dated, Finset.sum_eq_zero nothing, add_zero]
  · intro _
    have nothing : ∀ c ∈ tree.children x, leakageEnergyOf s.state c = 0 :=
      fun c child => (accounted.current c (childNode child) (all c (childNode child))).2
    rw [(accounted.current x member (all x member)).2, leakageGivenStart accounted.dated, Finset.sum_eq_zero nothing, add_zero]

omit [DecidableEq α] in
theorem dynamicLater (s : State α) (x : List α) (later : Int) :
    dynamicOf { s with time := later } x = dynamicOf s x + (s.trace x).currentDynamicPower * ((later - s.time : Int) : Rat) := by
  simp only [dynamicOf, dynamicEnergy]
  push_cast
  ring

omit [DecidableEq α] in
theorem leakageLater (s : State α) (x : List α) (later : Int) :
    leakageEnergyOf { s with time := later } x = leakageEnergyOf s x + (s.trace x).currentLeakagePower * ((later - s.time : Int) : Rat) := by
  simp only [leakageEnergyOf, leakageEnergy]
  push_cast
  ring

theorem notElapsedLater {s : Session α} (positive : 0 < top.period) (accounted : Accounted top tree phase s)
    (free : ∀ i ∈ tree.nodes, (s.state.trace i).traceEvent.all (fun due => decide (later ≤ due)) = true)
    (after : s.state.time ≤ later) (node : x ∈ tree.nodes) (path : top.hasPath x = true) :
    notElapsed top.period s.history x later =
      notElapsed top.period s.history x s.state.time - (s.state.trace x).quantumPowerForCycle * ((later - s.state.time : Int) : Rat) := by
  obtain ⟨steady, pending⟩ := accounted.watched x
  have before : 0 < (s.state.trace x).quantumPowerForCycle →
      later ≤ (s.state.trace x).curentCycleTimestamp + top.period := by
    intro some
    obtain ⟨due, event, bound⟩ := pending node nofun path some
    have allowed := free x node
    rw [event] at allowed
    exact le_trans (of_decide_eq_true allowed) bound
  rw [notElapsedEq positive steady after before,
    notElapsedEq positive steady (Int.le_refl _) (fun some => le_trans after (before some))]
  push_cast
  ring

theorem advanceBalanced {s : Session α} (positive : 0 < top.period) (accounted : Accounted top tree phase s)
    (free : ∀ i ∈ tree.nodes, (s.state.trace i).traceEvent.all (fun due => decide (later ≤ due)) = true)
    (after : s.state.time ≤ later) (balanced : Balanced top tree s start x) :
    Balanced top tree { s with state := { s.state with time := later } } start x := by
  constructor
  · intro paths
    have children : ∀ c ∈ tree.children x,
        dynamicOf { s.state with time := later } c - notElapsed top.period s.history c later =
          (dynamicOf s.state c - notElapsed top.period s.history c s.state.time) +
            load (s.state.trace c) * ((later - s.state.time : Int) : Rat) := by
      intro c child
      rw [dynamicLater, notElapsedLater positive accounted free after (childNode child) (paths c child), load]
      ring
    rw [dynamicLater, balanced.dynamic paths, ownPower tree s.state x, accounted.own, givenLater s.history x start s.state.time later,
      Finset.sum_congr rfl children, Finset.sum_add_distrib, ← Finset.sum_mul]
    ring
  · intro path
    have children : ∀ c ∈ tree.children x,
        leakageEnergyOf { s.state with time := later } c =
          leakageEnergyOf s.state c + (s.state.trace c).currentLeakagePower * ((later - s.state.time : Int) : Rat) :=
      fun c _ => leakageLater s.state c later
    rw [leakageLater, balanced.leakage path, leakagePower tree s.state x, accounted.ownLeakage x path,
      leakageGivenLater s.history x start s.state.time later, Finset.sum_congr rfl children, Finset.sum_add_distrib, ← Finset.sum_mul]
    ring

theorem energiesNow {s : Session α} (accounted : Accounted top tree phase s) :
    All (Energies s.state.time (dynamicOf s.state) (leakageEnergyOf s.state)) s.state :=
  fun x => ⟨(accounted.watched x).1.dynamicPast, (accounted.watched x).1.leakagePast, rfl, rfl⟩

theorem accountedSame {s : Session α} {state : State α} (accounted : Accounted top tree phase s)
    (now : state.time = s.state.time) (watched : All (Watched top tree phase s.history s.state.time none) state)
    (own' : ∀ x, own tree state x = own tree s.state x) (ownLeakage' : ∀ x, ownLeakage tree state x = ownLeakage tree s.state x)
    (energies : All (Energies s.state.time (dynamicOf s.state) (leakageEnergyOf s.state)) state) :
    Accounted top tree phase { s with state } := by
  have dynamic : ∀ x, dynamicOf state x = dynamicOf s.state x := fun x => by
    rw [dynamicOf, now, (energies x).dynamic]
  have leakage : ∀ x, leakageEnergyOf state x = leakageEnergyOf s.state x := fun x => by
    rw [leakageEnergyOf, now, (energies x).leakage]
  constructor
  · simpa only [now] using accounted.dated
  · simpa only [now] using watched
  · intro x
    rw [own', accounted.own]
  · intro x path
    rw [ownLeakage', accounted.ownLeakage x path]
  · intro x member found
    simp only [now] at found ⊢
    rw [dynamic, leakage]
    exact accounted.current x member found
  · intro start before all x member
    simp only [now] at before
    obtain ⟨first, second⟩ := accounted.window start before all x member
    constructor
    · simpa only [now, dynamic] using first
    · simpa only [now, leakage] using second

theorem handlerAccounted {s : Session α} {i : List α} (positive : 0 < top.period) (accounted : Accounted top tree phase s)
    (due : (s.state.trace i).traceEvent = some s.state.time) (member : i ∈ tree.nodes) :
    Accounted top tree phase { s with state := runHandler top i s.state } := by
  have cycle := ((accounted.watched i).1.queued member _ due).2.2
  have now : (s.state.modify i fun t => { t with traceEvent := none }).time = s.state.time := rfl
  have free : All (Watched top tree phase s.history s.state.time (some i)) (s.state.modify i fun t => { t with traceEvent := none }) :=
    modifyAll accounted.watched (fun _ _ _ watched => ⟨watched.1, fun inside _ => watched.2 inside nofun⟩)
      ⟨{ (accounted.watched i).1 with queued := nofun }, fun _ other => absurd rfl other⟩
  have energies : All (Energies s.state.time (dynamicOf s.state) (leakageEnergyOf s.state))
      (s.state.modify i fun t => { t with traceEvent := none }) :=
    allModify (energiesNow accounted) { energiesNow accounted i with }
  have above := parentAbove top i
  refine accountedSame accounted (dumpTime above _) (watchedDump positive accounted.dated cycle now free) ?_ ?_
    (ownDumpKeeps (energiesKept top _ _ _) now energies)
  · intro x
    rw [runHandler, traceHandler, dumpOwn above (parentRaises member), ownSame rfl rfl]
  · have leakage : All (fun x t => t.currentLeakagePower = (s.state.trace x).currentLeakagePower)
        (s.state.modify i fun t => { t with traceEvent := none }) := allModify (fun _ => rfl) rfl
    exact ownLeakageSame (ownDumpKeeps (leakageKept top _ _) now leakage)

theorem queryAccounted {s : Session α} (i : List α) (accounted : Accounted top tree phase s) :
    Accounted top tree phase { s with state := (getReportEnergy i s.state).2 } :=
  accountedSame accounted rfl (windowEndWatched accounted.watched) (windowEndOwn s.state) (ownLeakageSame (windowEndLeakage s.state))
    (windowEndEnergies (energiesNow accounted))

theorem advanceAccounted {s : Session α} (positive : 0 < top.period) (accounted : Accounted top tree phase s)
    (free : ∀ i ∈ tree.nodes, (s.state.trace i).traceEvent.all (fun due => decide (later ≤ due)) = true)
    (after : s.state.time < later) : Accounted top tree phase { s with state := { s.state with time := later } } := by
  constructor
  · exact fun e inside => ⟨le_trans (accounted.dated e inside).1 after.le, (accounted.dated e inside).2⟩
  · intro x
    obtain ⟨steady, pending⟩ := accounted.watched x
    refine ⟨⟨le_trans steady.1 after.le, le_trans steady.2 after.le, le_trans steady.3 after.le, steady.4, steady.5, steady.6, ?_⟩, pending⟩
    intro member due event
    obtain ⟨_, bound, cycle⟩ := steady.queued member due event
    have allowed := free x member
    rw [event] at allowed
    exact ⟨of_decide_eq_true allowed, by simp only; omega, cycle⟩
  · exact accounted.own
  · exact accounted.ownLeakage
  · intro x _ found
    obtain ⟨c, inside⟩ := lastReportMember found
    have past := (accounted.dated _ inside).1
    simp only at past
    omega
  · intro start before all x member
    refine advanceBalanced positive accounted free after.le ?_
    rcases Int.lt_trichotomy start s.state.time with earlier | rfl | ahead
    · exact accounted.window start earlier all x member
    · exact startBalanced positive accounted all member
    · obtain ⟨c, inside⟩ := lastReportMember (all x member)
      have past := (accounted.dated _ inside).1
      simp only at past
      omega

theorem lastReportCall {c : Call α} (window : ∀ i, c ≠ .report i) (history : List (Int × Call α)) (x : List α) :
    lastReport ((time, c) :: history) x = lastReport history x := by
  cases c with
  | report i => exact absurd rfl (window i)
  | energy | power | leakage => rfl

theorem callBalanced {s : Session α} {c : Call α} {state : State α} (positive : 0 < top.period) (now : state.time = s.state.time)
    (past : start ≤ s.state.time)
    (energies : All (Energies s.state.time (fun x => dynamicOf s.state x + quantumOf x c) (leakageEnergyOf s.state)) state)
    (balanced : Balanced top tree s start x) :
    Balanced top tree { state, history := (s.state.time, c) :: s.history } start x := by
  have dynamic : ∀ x, dynamicOf state x = dynamicOf s.state x + quantumOf x c := fun x => by
    rw [dynamicOf, now, (energies x).dynamic]
  have leakage : ∀ x, leakageEnergyOf state x = leakageEnergyOf s.state x := fun x => by
    rw [leakageEnergyOf, now, (energies x).leakage]
  constructor
  · intro paths
    have children : ∀ y ∈ tree.children x,
        dynamicOf state y - notElapsed top.period ((s.state.time, c) :: s.history) y s.state.time =
          dynamicOf s.state y - notElapsed top.period s.history y s.state.time := by
      intro y _
      rw [dynamic, notElapsed, tallyCons, notElapsedNow positive, notElapsed]
      ring
    simp only [now]
    rw [Finset.sum_congr rfl children, dynamic, balanced.dynamic paths, given, given, tallyCons, givenNow past]
    ring
  · intro path
    simp only [now, leakage]
    rw [balanced.leakage path, leakageGiven, leakageGiven, tallyCons, leakageGivenNow past, zero_add]

theorem currentCall {s : Session α} {c : Call α} (positive : 0 < top.period) (accounted : Accounted top tree phase s)
    (cycle : top.period ∣ s.state.time - phase) (member : c.node ∈ tree.nodes) (legal : c.legal = true) (node : x ∈ tree.nodes)
    (found : lastReport ((s.state.time, c) :: s.history) x = some s.state.time) :
    dynamicEnergy s.state.time ((c.run top s.state).trace x) = quantaAt ((s.state.time, c) :: s.history) x s.state.time ∧
      leakageEnergy s.state.time ((c.run top s.state).trace x) = 0 := by
  have quanta : quantaAt ((s.state.time, c) :: s.history) x s.state.time = quantumOf x c + quantaAt s.history x s.state.time := by
    rw [quantaAt, tallyCons, quantumNow, quantaAt]
  have others : (∀ i, c ≠ .report i) →
      All (Energies s.state.time (fun x => dynamicOf s.state x + quantumOf x c) (leakageEnergyOf s.state)) (c.run top s.state) :=
    fun window => callEnergies positive rfl window (energiesNow accounted)
  cases c with
  | report i =>
      rcases eq_or_ne x i with rfl | different
      · have steady := (accounted.watched x).1
        have again := (watchedCall positive accounted.dated cycle rfl legal accounted.watched x).1
        have quantum := again.quantum
        simp only [Call.run] at quantum ⊢
        obtain ⟨same, dynamic, leakage⟩ := @reportSelf _ _ top x s.state steady.dynamicPast steady.leakagePast
        rw [dynamic, quantum, same]
        exact ⟨rfl, leakage⟩
      · have energies : Energies s.state.time (dynamicOf s.state) (leakageEnergyOf s.state) x ((reportStart top i s.state).trace x) :=
          reportOthers rfl (energiesNow accounted) different
        have before : lastReport s.history x = some s.state.time := by
          simpa [lastReport, different.symm] using found
        obtain ⟨dynamic, leakage⟩ := accounted.current x node before
        simp only [Call.run]
        rw [energies.dynamic, energies.leakage, dynamic, leakage, quanta]
        exact ⟨(zero_add _).symm, rfl⟩
  | energy | power | leakage =>
      have energies := others (by simp) x
      obtain ⟨dynamic, leakage⟩ := accounted.current x node found
      rw [energies.dynamic, energies.leakage, dynamic, leakage, quanta, add_comm]
      exact ⟨rfl, rfl⟩

theorem callAccounted {s : Session α} {c : Call α} (positive : 0 < top.period) (accounted : Accounted top tree phase s)
    (cycle : top.period ∣ s.state.time - phase) (member : c.node ∈ tree.nodes) (legal : c.legal = true) :
    Accounted top tree phase { state := c.run top s.state, history := (s.state.time, c) :: s.history } := by
  have now : (c.run top s.state).time = s.state.time := callTime c s.state
  constructor
  · simpa only [now] using datedCall c accounted.dated cycle
  · simpa only [now] using watchedCall positive accounted.dated cycle rfl legal accounted.watched
  · intro x
    rw [callOwn positive member, accounted.own, tallyCons, add_comm]
  · intro x path
    rw [callOwnLeakage positive member _ path, accounted.ownLeakage x path, tallyCons, add_comm]
  · intro x node found
    simp only [dynamicOf, leakageEnergyOf, now] at found ⊢
    exact currentCall positive accounted cycle member legal node found
  · intro start before all x node
    simp only [now] at before
    have window : ∀ i, c ≠ .report i := by
      rintro i rfl
      have restarted := all i member
      simp only [lastReport, if_true, Option.some.injEq] at restarted
      omega
    have earlier : ∀ x ∈ tree.nodes, lastReport s.history x = some start := by
      intro x inside
      rw [← all x inside, lastReportCall window]
    exact callBalanced positive now before.le (callEnergies positive rfl window (energiesNow accounted))
      (accounted.window start before earlier x node)

theorem runAccounted {s : Session α} {trace} (positive : 0 < top.period) (run : Run (step top tree phase) anyStep {} trace s) :
    Accounted top tree phase s := by
  refine runInvariant run ?_ ?_
  · constructor
    · simp [Dated]
    · intro x
      exact ⟨⟨Int.le_refl _, Int.le_refl _, Int.le_refl _, le_refl _, by simp [quantaAt, tally], by simp, by simp⟩,
        fun _ _ _ some => absurd some (lt_irrefl _)⟩
    · intro x
      simp [own, excess, load, tally]
    · intro x _
      simp [ownLeakage, excess, tally]
    · simp [lastReport]
    · intro start _ all x member
      exact absurd (all x member) (by simp [lastReport])
  · intro s action next accounted _ taken
    cases action with
    | call c =>
        obtain ⟨guard, done⟩ := Option.ite_none_right_eq_some.mp taken
        cases done
        exact callAccounted positive accounted guard.2.1 guard.1 guard.2.2
    | handler i =>
        obtain ⟨guard, done⟩ := Option.ite_none_right_eq_some.mp taken
        cases done
        exact handlerAccounted positive accounted guard.1 guard.2
    | query i =>
        cases taken
        exact queryAccounted i accounted
    | advance later =>
        obtain ⟨guard, done⟩ := Option.ite_none_right_eq_some.mp taken
        cases done
        exact advanceAccounted positive accounted guard.2 guard.1

theorem reportedEq {s : State α} {x : List α} (dynamic : (s.trace x).currentDynamicPowerTimestamp ≤ s.time)
    (leakage : (s.trace x).currentLeakagePowerTimestamp ≤ s.time) : reported s x = (dynamicOf s x, leakageEnergyOf s x) := by
  simp only [reported, getReportEnergy, getReportDynamicEnergy, getReportLeakageEnergy, modifySelf, modifyTime,
    accountDynamic dynamic]
  have second := accountLeakage (t := { s.trace x with
    reportDynamicEnergy := dynamicEnergy s.time (s.trace x)
    currentDynamicPowerTimestamp := s.time }) leakage
  exact congrArg (fun t => (dynamicOf s x, t.reportLeakageEnergy)) second

/- In every run, from the moment at which all the traces have started their report. -/
theorem energyConserved {s : Session α} {trace} (positive : 0 < top.period) (run : Run (step top tree phase) anyStep {} trace s)
    (reports : ∀ x ∈ tree.nodes, lastReport s.history x = some start) (member : x ∈ tree.nodes) :
    ((∀ c ∈ tree.children x, top.hasPath c = true) →
      (reported s.state x).1 = given s.history x start s.state.time + ∑ c ∈ tree.children x, (reported s.state c).1 -
        ∑ c ∈ tree.children x, notElapsed top.period s.history c s.state.time) ∧
    (top.hasPath x = true →
      (reported s.state x).2 =
        leakageGiven s.history x start s.state.time + ∑ c ∈ tree.children x, (reported s.state c).2) := by
  have accounted := runAccounted positive run
  have energies : ∀ x, reported s.state x = (dynamicOf s.state x, leakageEnergyOf s.state x) :=
    fun x => reportedEq (accounted.watched x).1.dynamicPast (accounted.watched x).1.leakagePast
  obtain ⟨c, inside⟩ := lastReportMember (reports x member)
  have balanced : Balanced top tree s start x := by
    rcases Int.lt_or_eq_of_le (accounted.dated _ inside).1 with before | now
    · exact accounted.window start before reports x member
    · simp only at now
      subst now
      exact startBalanced positive accounted reports member
  simp only [energies]
  constructor
  · intro paths
    rw [balanced.dynamic paths, Finset.sum_sub_distrib]
    ring
  · exact balanced.leakage

def pair : Rooted Unit where
  nodes := {[], [()]}
  closed := by
    intro a i inside
    simp only [Finset.mem_insert, Finset.mem_singleton] at inside ⊢
    rcases inside with first | second
    · contradiction
    · exact .inl (List.cons.inj second).2

def pairTop (rootPath childPath : Bool) : Top Unit := ⟨2, fun i => if i.isEmpty then rootPath else childPath⟩

def pairCalls : List (Action Unit) :=
  [.call (.energy [()] 6), .call (.power [] 1), .call (.leakage [()] 1), .call (.report []), .call (.report [()])]

def pairRun (top : Top Unit) (later : List (Action Unit)) : Session Unit :=
  reach (step top pair 0) anyStep {} (pairCalls ++ later)

/- In the middle of its cycle, half of the quantum is left. -/
theorem energyConservedPair :
    let s := pairRun (pairTop true true) [.advance 1]
    (reported s.state []).1 = given s.history [] 0 s.state.time + ∑ c ∈ pair.children [], (reported s.state c).1 -
        ∑ c ∈ pair.children [], notElapsed 2 s.history c s.state.time ∧
      (reported s.state []).2 = leakageGiven s.history [] 0 s.state.time + ∑ c ∈ pair.children [], (reported s.state c).2 := by
  obtain ⟨trace, run, -⟩ := reachRun (step (pairTop true true) pair 0) anyStep {} (pairCalls ++ [.advance 1]) (by decide +kernel)
  have reports : ∀ x ∈ pair.nodes, lastReport (pairRun (pairTop true true) [.advance 1]).history x = some 0 := by decide +kernel
  have conserved := energyConserved (x := []) (by decide) run reports (by decide)
  exact ⟨conserved.1 (by decide), conserved.2 rfl⟩

/- Without a path, the root takes no leakage power of its components, and a component leaves its quantum with its parent. -/
theorem pathlessLost :
    let root := pairRun (pairTop false true) [.advance 1]
    let child := pairRun (pairTop true false) [.advance 4]
    ((∃ trace, Run (step (pairTop false true) pair 0) anyStep {} trace root) ∧
      (∀ x ∈ pair.nodes, lastReport root.history x = some 0) ∧
      (reported root.state []).2 ≠ leakageGiven root.history [] 0 root.state.time + ∑ c ∈ pair.children [], (reported root.state c).2) ∧
    (∃ trace, Run (step (pairTop true false) pair 0) anyStep {} trace child) ∧
      (∀ x ∈ pair.nodes, lastReport child.history x = some 0) ∧
      (reported child.state []).1 ≠ given child.history [] 0 child.state.time + ∑ c ∈ pair.children [], (reported child.state c).1 -
        ∑ c ∈ pair.children [], notElapsed 2 child.history c child.state.time := by
  obtain ⟨trace, run, -⟩ := reachRun (step (pairTop false true) pair 0) anyStep {} (pairCalls ++ [.advance 1]) (by decide +kernel)
  obtain ⟨trace', run', -⟩ := reachRun (step (pairTop true false) pair 0) anyStep {} (pairCalls ++ [.advance 4]) (by decide +kernel)
  exact ⟨⟨⟨trace, run⟩, by decide +kernel, by decide +kernel⟩, ⟨trace', run'⟩, by decide +kernel, by decide +kernel⟩

end Gvsoc.Power
