import Gvsoc.ClockSystem

/-! The cycle counter has three writers: `exec` adds one, `update` adds the elapsed cycles,
and a flush with empty slots assigns the cycle of the first delayed event. Only the last
can move it back, and only when `update` has gone past a delayed event. -/
namespace Gvsoc.ClockEngine
open Machine (Run)

def notPast (_ : Bool) (gap : Int) : Prop := 0 ≤ gap

instance (flush : Bool) (gap : Int) : Decidable (notPast flush gap) := inferInstanceAs (Decidable (0 ≤ gap))

theorem notPastRule : IdleRule notPast where
  positive := fun _ _ apart => le_trans (by omega) apart
  flushed := fun _ apart => apart
  weaken := fun _ _ apart => apart

section Share

variable {ε : Type} {k : Clock ε} {time : Int} {running : Bool}

theorem syncCounter (positive : 0 ≤ k.period) : k.cycles ≤ (k.sync running time).cycles := by
  by_cases none : Settled k running time
  · rw [syncSettled none]
  · obtain ⟨_, _, ticking, elapsed, moved⟩ := syncUnsettled none
    rw [moved]
    have some : 0 ≤ k.elapsed time := Int.tdiv_nonneg (by omega) positive
    change k.cycles ≤ k.cycles + k.elapsed time
    omega

variable [DecidableEq ε] {e : ε} {n : Int}

theorem enqueueCounter (k : Clock ε) (running : Bool) (time : Int) (e : ε) (n : Int) :
    (k.enqueue running time e n).cycles = (k.sync running time).cycles := by
  unfold Clock.enqueue
  dsimp only
  rw [syncSetEvent]
  split <;> rfl

theorem reenqueueCounter (positive : 0 ≤ k.period) : k.cycles ≤ (k.reenqueue running time e n).cycles := by
  obtain ⟨counter, period, _⟩ := cancelClockFrame k e
  unfold Clock.reenqueue
  split
  · exact le_refl _
  · change k.cycles ≤ ((k.cancel e).enqueue running time e n).cycles
    rw [enqueueCounter, ← counter]
    exact syncCounter (by omega)

theorem performCounter (positive : 0 ≤ k.period) (o : Op ε) : k.cycles ≤ (k.perform running time o).cycles := by
  have synced : k.cycles ≤ (k.sync running time).cycles := syncCounter positive
  have ticking : 0 ≤ (k.sync running time).period := by rwa [syncPeriod]
  cases o with
  | enqueue e n => exact le_of_le_of_eq synced (enqueueCounter k running time e n).symm
  | enqueueExt e n =>
      change k.cycles ≤ ((k.sync running time).enqueue running time e n).cycles
      rw [enqueueCounter]
      exact le_trans synced (syncCounter ticking)
  | reenqueue e n => exact reenqueueCounter positive
  | reenqueueExt e n => exact le_trans synced (reenqueueCounter ticking)
  | cancel e => exact le_of_eq (cancelClockFrame k e).1.symm
  | sync => exact synced
  | applyFrequency f =>
      change k.cycles ≤ (k.applyFrequency f).cycles
      unfold Clock.applyFrequency
      split
      · exact le_refl _
      · split <;> exact le_refl _

theorem enterCounter (linked : WellLinked k) (good : Ahead notPast false k) : k.cycles ≤ k.enter.cycles := by
  cases flush : k.mustFlushDelayedQueue with
  | false => rw [enterSame flush]
  | true =>
      have done := enterFlushed linked good flush
      by_cases none : k.nbEnqueuedToCycle = 0
      · rw [done.empty none]
        cases queue : k.delayedQueue with
        | nil => exact le_refl _
        | cons e rest =>
            have due : 0 ≤ k.cycleOf e - k.cycles := good.idle rfl none e (queue ▸ List.mem_cons_self)
            change k.cycles ≤ k.cycleOf e
            omega
      · exact le_of_eq (done.used none).symm

omit [DecidableEq ε] in
theorem finishCounter (k : Clock ε) (time : Int) : k.cycles ≤ (k.finish time).1.cycles := by
  obtain ⟨_, turned⟩ | ⟨_, stopped⟩ := finishCases k time
  · rw [turned]
    change k.cycles ≤ k.cycles + 1
    omega
  · rw [stopped]

end Share

section Runs

variable {ε κ : Type} [DecidableEq ε] [DecidableEq κ] {s next : System ε κ}

theorem execLoopCounter (s : System ε κ) : s.clock.cycles ≤ s.execLoop.clock.cycles := by
  obtain ⟨e, rest, _, popped⟩ | ⟨_, ended⟩ := execLoopCases s
  · rw [popped]
    exact le_refl _
  · rw [ended]
    exact finishCounter _ _

theorem stepCounter {a : Action ε κ} (sound : Sound s) (good : Ahead notPast s.control.busy s.clock)
    (taken : step s a = some next) : s.clock.cycles ≤ next.clock.cycles := by
  cases stepped taken with
  | op o outside legal =>
      rw [performClock]
      exact performCounter sound.period o
  | exec entry =>
      rw [entry] at good
      exact le_trans (enterCounter sound.linked good) (execLoopCounter {s with clock := s.clock.enter})
  | callbackReturn e inside => exact execLoopCounter s
  | timeEnqueue | timeDequeue | request | start | otherReturn => exact le_refl _

/- Wherever a run stands, the counter only grows from there on, as long as no `update`
takes it past a delayed event and no `reenqueue` writes a cycle other than the one its
event is queued with. -/
theorem counterNeverBack {early later period} (positive : 0 ≤ period)
    (before : Run step (Allowed notPast) (initial ε κ period) early s)
    (after : Run step (Allowed notPast) s later next) : s.clock.cycles ≤ next.clock.cycles := by
  have here : Sound s ∧ Ahead notPast s.control.busy s.clock :=
    ⟨runSound positive before, runAhead notPastRule positive before⟩
  have all : (Sound next ∧ Ahead notPast next.control.busy next.clock) ∧ s.clock.cycles ≤ next.clock.cycles :=
    Machine.runInvariant
      (P := fun u => (Sound u ∧ Ahead notPast u.control.busy u.clock) ∧ s.clock.cycles ≤ u.clock.cycles)
      after ⟨here, le_refl _⟩
      (fun _ _ _ both allowed taken =>
        ⟨⟨stepSound both.1.1 taken, stepAhead notPastRule both.1.1 both.1.2 allowed taken⟩,
          le_trans both.2 (stepCounter both.1.1 both.1.2 taken)⟩)
  exact all.2

/- At 100 MHz: event 0 is ten cycles away, and another client synchronises after 4.5. -/
def syncedEarly : List (Action (Fin 1) (Fin 1)) :=
  [.op (.enqueue 0 10), .timeEnqueue 0 45000, .request true, .start, .op .sync]

theorem counterSyncedEarly : ∃ early later s next,
    Run step (Allowed notPast) (initial (Fin 1) (Fin 1) 10000) early s ∧
    Run step (Allowed notPast) s later next ∧ s.clock.cycles = 5 ∧ next.clock.cycles = 10 ∧
    s.clock.cycles ≤ next.clock.cycles := by
  have first : (Machine.follow step (Allowed notPast) (initial (Fin 1) (Fin 1) 10000) syncedEarly).isSome = true := rfl
  obtain ⟨early, before, _⟩ := Machine.followRun (Option.some_get first).symm
  have second : (Machine.follow step (Allowed notPast) (Option.get _ first) [.otherReturn (-1), .exec]).isSome = true := rfl
  obtain ⟨later, after, _⟩ := Machine.followRun (Option.some_get second).symm
  exact ⟨early, later, _, _, before, after, rfl, rfl, counterNeverBack (by decide) before after⟩

/- The frequency goes from 100 MHz to 1 GHz while event 0 is ten cycles away. The elapsed
time is then counted in the new period, to 90 cycles, and the flush goes back to 10. -/
def raisedWhileIdle : List (Action (Fin 1) (Fin 1)) :=
  [.op (.enqueue 0 10), .timeEnqueue 0 90000, .request true, .start, .op (.applyFrequency 1000000000), .op .sync]

theorem counterGoesBack : ∃ early later s next,
    Run step Machine.anyStep (initial (Fin 1) (Fin 1) 10000) early s ∧
    Run step Machine.anyStep s later next ∧ s.clock.cycles = 90 ∧ next.clock.cycles = 10 := by
  have first : (Machine.follow step Machine.anyStep (initial (Fin 1) (Fin 1) 10000) raisedWhileIdle).isSome = true := rfl
  obtain ⟨early, before, _⟩ := Machine.followRun (Option.some_get first).symm
  have second : (Machine.follow step Machine.anyStep (Option.get _ first) [.otherReturn (-1), .exec]).isSome = true := rfl
  obtain ⟨later, after, _⟩ := Machine.followRun (Option.some_get second).symm
  exact ⟨early, later, _, _, before, after, rfl, rfl⟩

end Runs

end Gvsoc.ClockEngine
