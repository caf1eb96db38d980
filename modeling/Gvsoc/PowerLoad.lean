import Mathlib.Tactic.Linarith
import Gvsoc.Power

/-! The power of a trace is its own power, the power of its children and the quanta that the
children have not flushed. The calls change the own power of the trace they are made on, and the
energy of none. -/
namespace Gvsoc.Power

open Hierarchy

variable {α : Type} [DecidableEq α] {top : Top α} {tree : Rooted α}

def load (t : Trace) : Rat := t.currentDynamicPower + t.quantumPowerForCycle

def own (tree : Rooted α) (s : State α) (x : List α) : Rat :=
  excess tree (fun x => load (s.trace x)) x - (s.trace x).quantumPowerForCycle

theorem ownPower (tree : Rooted α) (s : State α) (x : List α) :
    (s.trace x).currentDynamicPower = own tree s x + ∑ c ∈ tree.children x, load (s.trace c) := by
  simp only [own, excess, load]
  ring

theorem ownModify {s : State α} {i : List α} {f : Trace → Trace} {d e : Rat}
    (dynamic : (f (s.trace i)).currentDynamicPower = (s.trace i).currentDynamicPower + d)
    (quantum : (f (s.trace i)).quantumPowerForCycle = (s.trace i).quantumPowerForCycle + e) (x : List α) :
    own tree (s.modify i f) x =
      own tree s x + (if x = i then d else 0) - if i ∈ tree.children x then d + e else 0 := by
  have loads : (fun x => load ((s.modify i f).trace x)) = (fun x => load (s.trace x)) + Pi.single i (d + e) := by
    funext x
    by_cases same : x = i
    · subst same
      simp only [modifySelf, Pi.add_apply, Pi.single_eq_same, load, dynamic, quantum]
      ring
    · simp [modifyOther same, same]
  rw [own, loads, excessAdded]
  by_cases same : x = i
  · subst same
    simp only [own, modifySelf, quantum, if_true]
    ring
  · simp only [own, modifyOther same, if_neg same]
    ring

theorem ownSame {s : State α} {i : List α} {f : Trace → Trace}
    (dynamic : (f (s.trace i)).currentDynamicPower = (s.trace i).currentDynamicPower)
    (quantum : (f (s.trace i)).quantumPowerForCycle = (s.trace i).quantumPowerForCycle) (x : List α) :
    own tree (s.modify i f) x = own tree s x := by
  rw [ownModify (d := 0) (e := 0) (by rw [dynamic, add_zero]) (by rw [quantum, add_zero])]
  simp

def Raises (tree : Rooted α) (parent : Rat → State α → State α) (i : List α) : Prop :=
  ∀ w s x, own tree (parent w s) x = own tree s x + if i ∈ tree.children x then w else 0

section Calls

variable {parent : Rat → State α → State α} {i : List α}

theorem flushOwn (above : Above parent i) (raises : Raises tree parent i) (s : State α) (x : List α) :
    own tree (flushQuantumPowerForCycle parent i s) x = own tree s x := by
  rw [flushEq above]
  split
  · rename_i stale
    have self := above.trace (-(s.trace i).quantumPowerForCycle) s i (Nat.le_refl _)
    rw [ownModify (d := 0) (e := -(s.trace i).quantumPowerForCycle) (by rw [self]; simp [settled])
      (by rw [self]; simp [settled, stale]), raises]
    split <;> simp
  · rename_i fresh
    rw [ownSame (by simp [settled]) (by simp only [settled, if_neg fresh])]

theorem dumpOwn (above : Above parent i) (raises : Raises tree parent i) (s : State α) (x : List α) :
    own tree (dumpVcdTrace top parent i s) x = own tree s x := by
  unfold dumpVcdTrace
  split
  · simp only [getQuantumPowerForCycle]
    rw [ownSame rfl rfl, flushOwn above raises]
  · rfl

theorem addDynamicPowerOwn (s : State α) (w : Rat) (x : List α) :
    own tree (s.modify i (addDynamicPower s.time w)) x =
      own tree s x + (if x = i then w else 0) - if i ∈ tree.children x then w else 0 := by
  rw [ownModify (d := w) (e := 0) (by simp [addDynamicPower]) (by simp [addDynamicPower]), add_zero]

end Calls

theorem rootRaises : Raises tree (fun _ s => s : Rat → State α → State α) [] := by
  intro w s x
  rw [if_neg (rootNoChild x), add_zero]

theorem incDynamicPowerOwn {i : List α} (member : i ∈ tree.nodes) (w : Rat) (s : State α) (x : List α) :
    own tree (incDynamicPower top i w s) x = own tree s x + if x = i then w else 0 := by
  induction i generalizing w s x with
  | nil =>
      simp only [incDynamicPower]
      rw [dumpOwn aboveRoot rootRaises, addDynamicPowerOwn, if_neg (rootNoChild x), sub_zero]
  | cons a i ih =>
      have raises : Raises tree (incDynamicPower top i) (a :: i) := by
        intro w s x
        simp only [childOf member]
        exact ih (tree.closed a i member) w s x
      have above : Above (incDynamicPower top i) (a :: i) := parentAbove top (a :: i)
      simp only [incDynamicPower]
      rw [ih (tree.closed a i member), dumpOwn above raises, addDynamicPowerOwn]
      simp only [childOf member]
      ring

theorem parentRaises {i : List α} (member : i ∈ tree.nodes) : Raises tree (parentIncDynamicPower top i) i := by
  cases i with
  | nil => exact rootRaises
  | cons a i =>
      intro w s x
      simp only [childOf member]
      exact incDynamicPowerOwn (tree.closed a i member) w s x

theorem incLeakagePowerKeepsOwn {i : List α} (member : i ∈ tree.nodes) (w : Rat) (s : State α) (x : List α) :
    own tree (incLeakagePower top i w s) x = own tree s x := by
  induction i generalizing s with
  | nil =>
      simp only [incLeakagePower]
      split
      · rw [dumpOwn (parentAbove top []) (parentRaises member), ownSame (by simp [addLeakagePower]) (by simp [addLeakagePower])]
      · rfl
  | cons a i ih =>
      simp only [incLeakagePower]
      split
      · rw [ih (tree.closed a i member), dumpOwn (parentAbove top (a :: i)) (parentRaises member),
          ownSame (by simp [addLeakagePower]) (by simp [addLeakagePower])]
      · rfl

def ownLeakage (tree : Rooted α) (s : State α) (x : List α) : Rat :=
  excess tree (fun x => (s.trace x).currentLeakagePower) x

theorem leakagePower (tree : Rooted α) (s : State α) (x : List α) :
    (s.trace x).currentLeakagePower = ownLeakage tree s x + ∑ c ∈ tree.children x, (s.trace c).currentLeakagePower := by
  simp only [ownLeakage, excess]
  ring

theorem ownLeakageSame {s other : State α} (same : ∀ x, (other.trace x).currentLeakagePower = (s.trace x).currentLeakagePower)
    (x : List α) : ownLeakage tree other x = ownLeakage tree s x := by
  simp only [ownLeakage, excess, same]

omit [DecidableEq α] in
theorem leakageKept (top : Top α) (time : Int) (w : List α → Rat) : Kept top time fun x t => t.currentLeakagePower = w x where
  power x t _ same := by
    simpa [addDynamicPower] using same
  settled _ _ same := same
  instant _ _ _ same := same

theorem addLeakagePowerOwn {i : List α} (s : State α) (w : Rat) (x : List α) :
    ownLeakage tree (s.modify i (addLeakagePower s.time w)) x =
      ownLeakage tree s x + (if x = i then w else 0) - if i ∈ tree.children x then w else 0 := by
  have added : (fun x => ((s.modify i (addLeakagePower s.time w)).trace x).currentLeakagePower) =
      (fun x => (s.trace x).currentLeakagePower) + Pi.single i w := by
    funext x
    by_cases same : x = i
    · subst same
      simp [addLeakagePower]
    · simp [modifyOther same, same]
  rw [ownLeakage, added, excessAdded, ownLeakage]

/- Above a component without a path nothing is added, and at that component neither. -/
theorem incLeakagePowerOwn {i : List α} (member : i ∈ tree.nodes) (w : Rat) (s : State α) {x : List α} (path : top.hasPath x) :
    ownLeakage tree (incLeakagePower top i w s) x = ownLeakage tree s x + if x = i then w else 0 := by
  have dumped : ∀ i (s : State α), ownLeakage tree (dumpVcdTrace top (parentIncDynamicPower top i) i s) x = ownLeakage tree s x :=
    fun i s => ownLeakageSame (ownDumpKeeps (leakageKept top s.time _) rfl (fun _ => rfl)) x
  induction i generalizing s with
  | nil =>
      simp only [incLeakagePower]
      split
      · rw [dumped, addLeakagePowerOwn, if_neg (rootNoChild x), sub_zero]
      · rename_i pathless
        have different : x ≠ [] := fun same => pathless (same ▸ path)
        rw [if_neg different, add_zero]
  | cons a i ih =>
      simp only [incLeakagePower]
      split
      · rw [ih (tree.closed a i member), dumped, addLeakagePowerOwn]
        simp only [childOf member]
        ring
      · rename_i pathless
        have different : x ≠ a :: i := fun same => pathless (same ▸ path)
        rw [if_neg different, add_zero]

def dynamicEnergy (time : Int) (t : Trace) : Rat :=
  t.reportDynamicEnergy + t.currentDynamicPower * ((time - t.currentDynamicPowerTimestamp : Int) : Rat)

def leakageEnergy (time : Int) (t : Trace) : Rat :=
  t.reportLeakageEnergy + t.currentLeakagePower * ((time - t.currentLeakagePowerTimestamp : Int) : Rat)

theorem accountDynamic {time : Int} {t : Trace} (past : t.currentDynamicPowerTimestamp ≤ time) :
    accountDynamicPower time t =
      { t with reportDynamicEnergy := dynamicEnergy time t, currentDynamicPowerTimestamp := time } := by
  unfold accountDynamicPower
  simp only []
  split
  · rfl
  · have now : t.currentDynamicPowerTimestamp = time := by omega
    simp [dynamicEnergy, ← now]

theorem accountLeakage {time : Int} {t : Trace} (past : t.currentLeakagePowerTimestamp ≤ time) :
    accountLeakagePower time t =
      { t with reportLeakageEnergy := leakageEnergy time t, currentLeakagePowerTimestamp := time } := by
  unfold accountLeakagePower
  simp only []
  split
  · rfl
  · have now : t.currentLeakagePowerTimestamp = time := by omega
    simp [leakageEnergy, ← now]

structure Energies (time : Int) (dynamic leakage : List α → Rat) (x : List α) (t : Trace) : Prop where
  dynamicPast : t.currentDynamicPowerTimestamp ≤ time
  leakagePast : t.currentLeakagePowerTimestamp ≤ time
  dynamic : dynamicEnergy time t = dynamic x
  leakage : leakageEnergy time t = leakage x

section Energies

variable {time : Int} {dynamic leakage : List α → Rat} {x : List α} {t : Trace}

omit [DecidableEq α]

theorem energiesAccountDynamic (energies : Energies time dynamic leakage x t) :
    Energies time dynamic leakage x (accountDynamicPower time t) := by
  obtain ⟨past, leak, dynamic, leakage⟩ := energies
  rw [accountDynamic past]
  exact ⟨Int.le_refl _, leak, by simpa [dynamicEnergy] using dynamic, leakage⟩

theorem energiesAccountLeakage (energies : Energies time dynamic leakage x t) :
    Energies time dynamic leakage x (accountLeakagePower time t) := by
  obtain ⟨past, leak, dynamic, leakage⟩ := energies
  rw [accountLeakage leak]
  exact ⟨past, Int.le_refl _, dynamic, by simpa [leakageEnergy] using leakage⟩

theorem energiesKept (top : Top α) (time : Int) (dynamic leakage : List α → Rat) : Kept top time (Energies time dynamic leakage) where
  power x t w energies := by
    obtain ⟨past, leak, dynamic, leakage⟩ := energies
    rw [addDynamicPower, accountDynamic past]
    exact ⟨Int.le_refl _, leak, by simpa [dynamicEnergy] using dynamic, leakage⟩
  settled _ _ energies := ⟨energies.1, energies.2, energies.3, energies.4⟩
  instant _ _ _ energies := ⟨energies.1, energies.2, energies.3, energies.4⟩

theorem energiesLeakage (w : Rat) (energies : Energies time dynamic leakage x t) :
    Energies time dynamic leakage x (addLeakagePower time w t) := by
  obtain ⟨past, leak, dynamic, leakage⟩ := energies
  rw [addLeakagePower, accountLeakage leak]
  exact ⟨past, Int.le_refl _, dynamic, by simpa [leakageEnergy] using leakage⟩

end Energies

end Gvsoc.Power
