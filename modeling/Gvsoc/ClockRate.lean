import Gvsoc.ClockPhase

/-! Cycles against time at a constant period. The counter of an idle engine is brought up to
date only when somebody needs it, so it is the up-to-date counter that follows the time: it
is at most one period ahead of the engine time and never behind it. -/
namespace Gvsoc.ClockEngine
open TimeEngine (Engine Placed Linked Scheduled)
open Machine (Run)

variable {ε κ : Type} [DecidableEq ε] [DecidableEq κ] {s next : System ε κ} {p : Int}

def System.syncedCycles (s : System ε κ) : Int :=
  match s.control with
  | .entry => s.clock.enter.cycles
  | _ => (s.clock.sync s.running s.engine.time).cycles

/- An operation from outside the engine leaves it on its grid of cycles: an event is
enqueued at a cycle boundary, or does not bring the wake-up forward, and an event is
cancelled only when the slots do not become empty and the wake-up stays right. -/
def OnGrid (s : System ε κ) : Action ε κ → Prop
  | .op (.enqueue _ n) | .op (.enqueueExt _ n) => s.running = true ∨
      ((s.engine.client .clock).isEnqueued = true ∧
        s.engine.nextTime .clock ≤ s.engine.time + n * s.clock.period) ∨
      (s.clock.nbEnqueuedToCycle = 0 ∧ s.clock.stopTime ≤ s.engine.time ∧
        (s.engine.time - s.clock.stopTime) % s.clock.period = 0)
  | .op (.cancel e) => s.running = true ∨
      (s.clock.cancelKeepsWake e ∧ (e ∈ s.clock.delayedQueue ∨ s.clock.nbEnqueuedToCycle ≠ 1))
  | .op .sync => True
  | .op _ => False
  | _ => True

instance (s : System ε κ) : ∀ a, Decidable (OnGrid s a)
  | .op (.enqueue _ _) | .op (.enqueueExt _ _) => inferInstanceAs (Decidable (_ ∨ _ ∨ _))
  | .op (.cancel _) => inferInstanceAs (Decidable (_ ∨ _))
  | .op (.reenqueue ..) | .op (.reenqueueExt ..) | .op (.applyFrequency _) => .isFalse (fun h => h)
  | .op .sync | .timeEnqueue .. | .timeDequeue _ | .request _ | .start | .exec | .callbackReturn | .otherReturn _ =>
      .isTrue trivial

structure OnTime (p : Int) (s : System ε κ) : Prop where
  phase : InPhase p 0 s
  used : s.running = false → s.clock.nbEnqueuedToCycle ≠ 0 → s.engine.nextTime .clock ≤ s.engine.time + p
  idle : s.running = false → s.clock.nbEnqueuedToCycle = 0 → s.clock.mustFlushDelayedQueue = true ∧
    s.clock.stopTime = s.clock.cycles * p ∧ s.clock.stopTime < s.engine.time + p

section Sync

variable {k : Clock ε} {time : Int}

omit [DecidableEq ε] in
theorem elapsedBounds (positive : 0 < k.period) (later : k.stopTime ≤ time) :
    time ≤ k.stopTime + k.elapsed time * k.period ∧ k.stopTime + k.elapsed time * k.period < time + k.period := by
  unfold Clock.elapsed
  rw [Int.tdiv_eq_ediv_of_nonneg (by omega)]
  have split := Int.mul_ediv_add_emod (time - k.stopTime + k.period - 1) k.period
  have low := Int.emod_nonneg (time - k.stopTime + k.period - 1) (show k.period ≠ 0 by omega)
  have high := Int.emod_lt_of_pos (time - k.stopTime + k.period - 1) positive
  rw [Int.mul_comm] at split
  omega

omit [DecidableEq ε] in
theorem syncEdge (positive : 0 < k.period) (none : k.nbEnqueuedToCycle = 0) (on : k.stopTime = k.cycles * k.period)
    (near : k.stopTime < time + k.period) :
    (k.sync false time).stopTime = (k.sync false time).cycles * k.period ∧
    time ≤ (k.sync false time).stopTime ∧ (k.sync false time).stopTime < time + k.period := by
  by_cases settled : Settled k false time
  · rw [syncSettled settled]
    have : time ≤ k.stopTime := by
      rcases settled with h | h | h | h
      · contradiction
      · exact absurd none h
      · omega
      · exact h
    exact ⟨on, this, near⟩
  · obtain ⟨_, _, _, passed, moved⟩ := syncUnsettled settled
    rw [moved]
    obtain ⟨low, high⟩ := elapsedBounds positive (le_of_lt passed)
    refine ⟨?_, low, high⟩
    change k.stopTime + k.elapsed time * k.period = (k.cycles + k.elapsed time) * k.period
    rw [on, Int.add_mul]

omit [DecidableEq ε] in
theorem syncBoundary (positive : 0 < k.period) (none : k.nbEnqueuedToCycle = 0) (later : k.stopTime ≤ time)
    (boundary : (time - k.stopTime) % k.period = 0) : (k.sync false time).stopTime = time := by
  by_cases settled : Settled k false time
  · rw [syncSettled settled]
    rcases settled with h | h | h | h
    · contradiction
    · exact absurd none h
    · omega
    · omega
  · obtain ⟨_, _, _, passed, moved⟩ := syncUnsettled settled
    rw [moved]
    obtain ⟨low, high⟩ := elapsedBounds positive (le_of_lt passed)
    change k.stopTime + k.elapsed time * k.period = time
    have whole := Int.mul_ediv_add_emod (time - k.stopTime) k.period
    rw [boundary, Int.mul_comm] at whole
    have close : (k.elapsed time - (time - k.stopTime) / k.period) * k.period < 1 * k.period := by
      rw [Int.sub_mul]
      omega
    have below := Int.lt_of_mul_lt_mul_right close (by omega)
    have far : 0 * k.period ≤ (k.elapsed time - (time - k.stopTime) / k.period) * k.period := by
      rw [Int.sub_mul]
      omega
    have above := Int.le_of_mul_le_mul_right far positive
    have same : k.elapsed time = (time - k.stopTime) / k.period := by omega
    rw [same]
    omega

end Sync

section Bounds

omit [DecidableEq κ] in
theorem syncedBounds (positive : 0 < p) (ready : Ready p s) (good : OnTime p s) :
    s.engine.time ≤ s.syncedCycles * p ∧ s.syncedCycles * p ≤ s.engine.time + p := by
  have sound := ready.sound
  have outside : s.running = false →
      s.engine.time ≤ (s.clock.sync s.running s.engine.time).cycles * p ∧
      (s.clock.sync s.running s.engine.time).cycles * p ≤ s.engine.time + p := by
    intro idle
    rw [idle]
    by_cases none : s.clock.nbEnqueuedToCycle = 0
    · obtain ⟨_, on, near⟩ := good.idle idle none
      rw [← ready.period] at on near
      obtain ⟨edge, low, high⟩ := syncEdge (by rw [ready.period]; exact positive) none on near
      rw [ready.period] at edge high
      rw [← edge]
      omega
    · rw [syncSettled (.inr (.inl none))]
      have flag : (s.engine.client .clock).isEnqueued = true :=
        (ready.awake.listed idle).mpr ⟨by rw [ready.period]; omega, (hasEventsIff _).mpr (.inl none)⟩
      have line := good.phase.waiting idle flag
      rw [wakeUsed none] at line
      have future := ready.scheduled.future .clock ((sound.placed.linked.flag .clock).mpr flag)
      have near := good.used idle none
      omega
  unfold System.syncedCycles
  cases control : s.control with
  | entry =>
      have ahead := ready.ahead
      rw [control] at ahead
      have now := good.phase.entry control
      simp only [enterWake sound.linked ahead]
      omega
  | callback e =>
      have running := soundRunning sound (by simp [control])
      rw [control] at running
      have now := good.phase.callback e control
      simp only [running, Control.busy, syncRunning]
      omega
  | waiting =>
      have running := soundRunning sound (by simp [control])
      rw [control] at running
      exact outside running
  | other k =>
      have running := soundRunning sound (by simp [control])
      rw [control] at running
      exact outside running

end Bounds

section Steps

omit [DecidableEq κ] in
theorem gridAllowed {a : Action ε κ} (good : OnTime p s) (grid : OnGrid s a) :
    Allowed aheadUnlessFlushed s a ∧ a.changesFrequency = false := by
  have free : ResyncOk aheadUnlessFlushed true s.clock s.running s.engine.time :=
    .inr (fun _ _ => by simp [aheadUnlessFlushed])
  cases a with
  | op o =>
      cases o with
      | enqueue e n => exact ⟨free, rfl⟩
      | enqueueExt e n => exact ⟨free, rfl⟩
      | cancel e => exact ⟨trivial, rfl⟩
      | sync =>
          refine ⟨?_, rfl⟩
          change ResyncOk aheadUnlessFlushed s.clock.mustFlushDelayedQueue s.clock s.running s.engine.time
          cases idle : s.running with
          | true => exact .inl (.inl rfl)
          | false =>
              by_cases none : s.clock.nbEnqueuedToCycle = 0
              · rw [(good.idle idle none).1, ← idle]
                exact free
              · exact .inl (.inr (.inl none))
      | reenqueue e n => exact absurd grid (by simp [OnGrid])
      | reenqueueExt e n => exact absurd grid (by simp [OnGrid])
      | applyFrequency f => exact absurd grid (by simp [OnGrid])
  | timeEnqueue | timeDequeue | request | start | exec | callbackReturn | otherReturn => exact ⟨trivial, rfl⟩

omit [DecidableEq κ] in
theorem enqueueOutsideFrame (k : Clock ε) (time : Int) (e : ε) (n : Int) :
    (k.enqueue false time e n).nbEnqueuedToCycle = k.nbEnqueuedToCycle ∧
    (k.enqueue false time e n).mustFlushDelayedQueue = true ∧
    (k.enqueue false time e n).stopTime = (k.sync false time).stopTime := by
  rw [enqueueSlow (by simp)]
  exact ⟨(syncFrame k false time).2.2.1, rfl, rfl⟩

omit [DecidableEq κ] in
/- On the grid means on the line of phase 0. -/
theorem gridFits {n : Int} (positive : 0 < p) (ready : Ready p s) (good : OnTime p s) (idle : s.running = false)
    (grid : ((s.engine.client .clock).isEnqueued = true ∧
        s.engine.nextTime .clock ≤ s.engine.time + n * s.clock.period) ∨
      (s.clock.nbEnqueuedToCycle = 0 ∧ s.clock.stopTime ≤ s.engine.time ∧
        (s.engine.time - s.clock.stopTime) % s.clock.period = 0)) : EnqueueFits p 0 s n := by
  have period := ready.period
  have ticking : 0 < s.clock.period := by omega
  rcases grid with ⟨flag, early⟩ | ⟨none, later, boundary⟩
  · rw [period] at early
    refine .inl ⟨flag, early, fun none => ?_⟩
    obtain ⟨flush, on, near⟩ := good.idle idle none
    rw [← period] at on near
    obtain ⟨edge, low, _⟩ := syncEdge ticking none on near
    have line := good.phase.waiting idle flag
    refine ⟨flush, Int.le_of_mul_le_mul_right ?_ positive⟩
    rw [Int.add_mul, ← period, ← edge, period]
    omega
  · obtain ⟨flush, on, near⟩ := good.idle idle none
    rw [← period] at on near
    obtain ⟨edge, _, _⟩ := syncEdge ticking none on near
    refine .inr ⟨none, flush, ?_⟩
    rw [← period, ← edge, syncBoundary ticking none later boundary]
    omega

theorem enqueueOnTime {e : ε} {n : Int} (positive : 0 < p) (ready : Ready p s) (good : OnTime p s)
    (outside : s.control ≠ .entry) (idle : s.running = false) (clear : (s.clock.event e).enqueued = false)
    (fits : EnqueueFits p 0 s n) : OnTime p (s.enqueue e n) := by
  obtain ⟨clock, engine, _⟩ := enqueueParts s e n
  obtain ⟨count, flush, stop⟩ := enqueueOutsideFrame s.clock s.engine.time e n
  have counter := enqueueCounter s.clock false s.engine.time e n
  obtain ⟨time, _, _, _⟩ := movedFrame (enqueueMoved (s := s) (e := e) (n := n) .same)
  have period := ready.period
  refine ⟨enqueueInPhase ready.sound outside idle (ready.awake.listed idle) period positive good.phase clear fits,
    fun _ used => ?_, fun _ none => ?_⟩
  · rw [clock, idle, count] at used
    obtain ⟨flag, early, _⟩ := fits.resolve_right (fun h => used h.1)
    rw [time, engine, if_neg (by simp [idle]; omega), (TimeEngine.enqueueSelf idle).2, period, if_pos ⟨flag, early⟩]
    exact good.used idle used
  · rw [clock, idle, count] at none
    obtain ⟨_, on, near⟩ := good.idle idle none
    rw [← period] at on near
    obtain ⟨edge, _, high⟩ := syncEdge (by omega) none on near
    rw [clock, idle, flush, stop, counter, time]
    rw [period] at edge high
    exact ⟨rfl, edge, high⟩

omit [DecidableEq κ] in
theorem syncOnTime (positive : 0 < p) (ready : Ready p s) (good : OnTime p s) (outside : s.control ≠ .entry)
    (idle : s.running = false) : OnTime p s.sync := by
  obtain ⟨_, _, count, _, flushes⟩ := syncFrame s.clock s.running s.engine.time
  have period := ready.period
  refine ⟨syncInPhase ready.sound outside idle (ready.awake.listed idle) good.phase ?_, fun _ used => ?_,
    fun _ none => ?_⟩
  · by_cases none : s.clock.nbEnqueuedToCycle = 0
    · exact .inr (good.idle idle none).1
    · exact .inl (.inr (.inl none))
  · exact good.used idle (fun none => used (count.trans none))
  · have none : s.clock.nbEnqueuedToCycle = 0 := count.symm.trans none
    obtain ⟨flush, on, near⟩ := good.idle idle none
    rw [← period] at on near
    obtain ⟨edge, _, high⟩ := (syncEdge (by omega) none on near : (s.clock.sync false s.engine.time).stopTime = _ ∧ _)
    rw [period] at edge high
    change (s.clock.sync s.running s.engine.time).mustFlushDelayedQueue = true ∧
      (s.clock.sync s.running s.engine.time).stopTime = (s.clock.sync s.running s.engine.time).cycles * p ∧
      (s.clock.sync s.running s.engine.time).stopTime < s.engine.time + p
    rw [flushes, idle]
    exact ⟨flush, edge, high⟩

theorem cancelOnTime {e : ε} (ready : Ready p s) (good : OnTime p s) (outside : s.control ≠ .entry)
    (idle : s.running = false) (keeps : s.clock.cancelKeepsWake e)
    (stays : e ∈ s.clock.delayedQueue ∨ s.clock.nbEnqueuedToCycle ≠ 1) : OnTime p (s.cancel e) := by
  obtain ⟨clock, _, engine⟩ := cancelParts s e
  obtain ⟨counter, _, stop, _, flushes⟩ := cancelClockFrame s.clock e
  have time := (cancelFrame s e).2
  have used : (s.clock.cancel e).nbEnqueuedToCycle ≠ 0 → s.clock.nbEnqueuedToCycle ≠ 0 :=
    fun some none => some (cancelEmpty ready.sound.linked none)
  have idleStays : (s.clock.cancel e).nbEnqueuedToCycle = 0 → s.clock.nbEnqueuedToCycle = 0 := by
    intro none
    cases flag : (s.clock.event e).enqueued with
    | false =>
        unfold Clock.cancel at none
        rwa [if_neg (by simp [flag])] at none
    | true =>
        rw [(cancelFlagged flag).2] at none
        obtain ⟨_, gone⟩ | ⟨away, _, _, gone⟩ | ⟨_, _, gone⟩ := unlinkCases s.clock e
        · rwa [gone] at none
        · rw [gone] at none
          simp only at none
          have := stays.resolve_left away
          omega
        · rwa [gone] at none
  refine ⟨cancelInPhase ready.sound outside idle good.phase keeps, fun _ some => ?_, fun _ none => ?_⟩
  · rw [clock] at some
    have left : (s.clock.cancel e).hasEvents = true := (hasEventsIff _).mpr (.inl some)
    rw [engine, if_pos (.inr (.inl left))]
    exact good.used idle (used some)
  · rw [clock] at none
    rw [clock, flushes, stop, counter, time]
    exact good.idle idle (idleStays none)

theorem execLoopOnTime (ready : Scheduled s.engine) (placed : Placed s.engine (.executing .clock))
    (positive : 0 < p) (period : s.clock.period = p) (now : s.engine.time = s.clock.cycles * p) :
    OnTime p s.execLoop := by
  have phase : InPhase p 0 s.execLoop := execLoopInPhase placed period (by omega)
  have later := (execLoopSchedule placed ready).2
  refine ⟨phase, ?_, ?_⟩
  · intro idle used
    have ended := execLoopEnds placed idle
    rw [ended] at idle used later ⊢
    obtain ⟨some, turned⟩ | ⟨none, stopped⟩ := finishCases s.clock s.engine.time
    · obtain ⟨_, inside, _⟩ | ⟨_, _, aim⟩ := TimeEngine.endExecSelf placed (s.clock.finish s.engine.time).2
      · have running := (TimeEngine.endExecPlaced placed (s.clock.finish s.engine.time).2).owned .clock
        rw [System.running, running.mpr inside] at idle
        contradiction
      · have ret : (s.clock.finish s.engine.time).2 = p := by rw [turned]; exact period
        change (s.engine.endExec .clock (s.clock.finish s.engine.time).2).1.nextTime .clock ≤ _
        rw [aim (by omega)]
        change _ ≤ (s.engine.endExec .clock (s.clock.finish s.engine.time).2).1.time + p
        change s.engine.time ≤ (s.engine.endExec .clock (s.clock.finish s.engine.time).2).1.time at later
        omega
    · rw [stopped] at used
      exact absurd none used
  · intro idle none
    have ended := execLoopEnds placed idle
    rw [ended] at none later ⊢
    obtain ⟨some, turned⟩ | ⟨_, stopped⟩ := finishCases s.clock s.engine.time
    · rw [turned] at none
      exact absurd none some
    · rw [stopped] at later ⊢
      refine ⟨rfl, now, ?_⟩
      change s.engine.time < _ + p
      change s.engine.time ≤ _ at later
      omega

omit [DecidableEq ε] [DecidableEq κ] in
theorem onTimeKept {engine : Engine (ClientId κ)} {control : Control ε κ} (good : OnTime p s)
    (phase : InPhase p 0 ⟨engine, s.clock, control⟩)
    (kept : (engine.client .clock).running = false → engine.client .clock = s.engine.client .clock)
    (later : s.engine.time ≤ engine.time) : OnTime p (⟨engine, s.clock, control⟩ : System ε κ) := by
  have before : (engine.client .clock).running = false → s.running = false := by
    intro still
    rw [kept still] at still
    exact still
  refine ⟨phase, fun still used => ?_, fun still none => ?_⟩
  · have near := good.used (before still) used
    unfold Engine.nextTime at near ⊢
    rw [kept still]
    exact le_trans near (by simpa using later)
  · obtain ⟨flush, on, near⟩ := good.idle (before still) none
    exact ⟨flush, on, lt_of_lt_of_le near (by simpa using later)⟩

theorem stepOnTime {a : Action ε κ} (positive : 0 < p) (ready : Ready p s) (good : OnTime p s) (grid : OnGrid s a)
    (taken : step s a = some next) : OnTime p next := by
  have sound := ready.sound
  have placed := sound.placed
  have ahead := ready.ahead
  have later := (stepSchedule sound ready.scheduled (gridAllowed good grid).2 taken).2
  cases stepped taken with
  | op o outside legal =>
      cases idle : s.running with
      | true =>
          have still : (s.perform o).running = true := ((movedFrame (performMoved s o)).2.2.1 .clock).trans idle
          exact ⟨insideInPhase idle outside good.phase o, by simp [still], by simp [still]⟩
      | false =>
          cases o with
          | enqueue e n =>
              simp only [Op.legal, Bool.and_eq_true, Bool.not_eq_true', decide_eq_true_eq] at legal
              exact enqueueOnTime positive ready good outside idle legal.1
                (gridFits positive ready good idle (grid.resolve_left (by simp [idle])))
          | enqueueExt e n =>
              simp only [Op.legal, Bool.and_eq_true, Bool.not_eq_true', decide_eq_true_eq] at legal
              change OnTime p (s.enqueueExt e n)
              rw [enqueueExtSame sound.period]
              exact enqueueOnTime positive ready good outside idle legal.1
                (gridFits positive ready good idle (grid.resolve_left (by simp [idle])))
          | cancel e =>
              obtain ⟨keeps, stays⟩ := grid.resolve_left (by simp [idle])
              exact cancelOnTime ready good outside idle keeps stays
          | sync => exact syncOnTime positive ready good outside idle
          | reenqueue e n => exact absurd grid (by simp [OnGrid])
          | reenqueueExt e n => exact absurd grid (by simp [OnGrid])
          | applyFrequency f => exact absurd grid (by simp [OnGrid])
  | timeEnqueue k t outside low =>
      exact onTimeKept good (quietInPhase ready good.phase (by simp) taken)
        (fun _ => TimeEngine.enqueueClientOther (by simp)) later
  | timeDequeue k outside =>
      exact onTimeKept good (quietInPhase ready good.phase (by simp) taken)
        (fun _ => TimeEngine.dequeueOther (by simp)) later
  | request run => exact ⟨quietInPhase ready good.phase (by simp) taken, good.used, good.idle⟩
  | start waiting wanted =>
      refine onTimeKept good (quietInPhase ready good.phase (by simp) taken) ?_ later
      intro still
      have owner := (TimeEngine.takeFirstPlaced placed.linked (fun j => by
        rw [ne_eq, placed.owned j, waiting]; simp [Control.engine])).owned ClientId.clock
      obtain ⟨now, _⟩ | ⟨_, kept⟩ := TimeEngine.takeFirstClient placed.linked .clock
      · rw [owner.mpr now] at still
        contradiction
      · exact kept
  | exec entry =>
      rw [entry] at placed ahead
      refine execLoopOnTime (s := {s with clock := s.clock.enter}) ready.scheduled placed positive
        ((enterPeriod _).trans ready.period) ?_
      change s.engine.time = s.clock.enter.cycles * p
      rw [enterWake sound.linked ahead]
      have := good.phase.entry entry
      omega
  | callbackReturn e inside =>
      rw [inside] at placed
      refine execLoopOnTime ready.scheduled placed positive ready.period ?_
      have := good.phase.callback e inside
      omega
  | otherReturn k ret inside =>
      refine onTimeKept good (quietInPhase ready good.phase (by simp) taken) ?_ later
      intro still
      rw [inside] at placed
      have owner := (TimeEngine.endExecPlaced placed ret).owned ClientId.clock
      obtain ⟨now, _⟩ | ⟨_, kept⟩ := TimeEngine.endExecOther (j := ClientId.clock) placed (by simp) ret
      · rw [owner.mpr now] at still
        contradiction
      · exact kept

omit [DecidableEq ε] [DecidableEq κ] in
theorem initialOnTime (positive : 0 < p) : OnTime p (initial ε κ p) where
  phase := ⟨by simp [initial], by simp [initial], by simp [initial, TimeEngine.initial]⟩
  used := by simp [initial, Clock.initial]
  idle := fun _ _ => ⟨rfl, by simp [initial, Clock.initial], by simpa [initial, Clock.initial, TimeEngine.initial]⟩

theorem runOnTime {trace} (positive : 0 < p) (run : Run step OnGrid (initial ε κ p) trace s) :
    Ready p s ∧ OnTime p s :=
  Machine.runInvariant (P := fun s => Ready p s ∧ OnTime p s) run
    ⟨initialReady (le_of_lt positive), initialOnTime positive⟩
    (fun _ _ _ both grid taken =>
      ⟨stepReady both.1 (gridAllowed both.2 grid).2 (gridAllowed both.2 grid).1 taken,
        stepOnTime positive both.1 both.2 grid taken⟩)

/- Two states of a run on the grid: the up-to-date counter grows by no more than the cycles
that the time between them has, rounded up, and one. -/
theorem clockRate {early later : List (Action ε κ × System ε κ)} (positive : 0 < p)
    (before : Run step OnGrid (initial ε κ p) early s) (after : Run step OnGrid s later next) :
    next.syncedCycles - s.syncedCycles ≤ (next.engine.time - s.engine.time + p - 1) / p + 1 := by
  obtain ⟨readyS, goodS⟩ := runOnTime positive before
  obtain ⟨readyN, goodN⟩ := runOnTime positive (Machine.runAppend before after)
  obtain ⟨low, _⟩ := syncedBounds positive readyS goodS
  obtain ⟨_, high⟩ := syncedBounds positive readyN goodN
  have scaled : (next.syncedCycles - s.syncedCycles - 1) * p ≤ next.engine.time - s.engine.time + p - 1 := by
    rw [Int.sub_mul, Int.sub_mul]
    omega
  have := (Int.le_ediv_iff_mul_le positive).mpr scaled
  omega

/- At 100 MHz: event 0 is ten cycles away, another client asks for event 1 at the third
edge, and the engine sleeps until the tenth. -/
def twoDomains : List (Action (Fin 2) (Fin 1)) :=
  [.op (.enqueue 0 10), .timeEnqueue 0 30000, .request true, .start, .op (.enqueueExt 1 9)]

theorem clockRateTwoDomains : ∃ early later s next,
    Run step OnGrid (initial (Fin 2) (Fin 1) 10000) early s ∧ Run step OnGrid s later next ∧
    s.engine.time = 30000 ∧ s.syncedCycles = 3 ∧ next.engine.time = 100000 ∧ next.syncedCycles = 10 ∧
    next.syncedCycles - s.syncedCycles ≤ (next.engine.time - s.engine.time + 10000 - 1) / 10000 + 1 := by
  have first : (Machine.follow step OnGrid (initial (Fin 2) (Fin 1) 10000) twoDomains).isSome = true := rfl
  obtain ⟨early, before, _⟩ := Machine.followRun (Option.some_get first).symm
  have second : (Machine.follow step OnGrid (Option.get _ first) [.otherReturn (-1), .exec]).isSome = true := rfl
  obtain ⟨later, after, _⟩ := Machine.followRun (Option.some_get second).symm
  exact ⟨early, later, _, _, before, after, rfl, rfl, rfl, rfl, clockRate (by decide) before after⟩

/- The stored counter of an idle engine is old: a `sync` at one and the same time moves it
by all the cycles slept, here a hundred. -/
def idleSync : List (Action (Fin 1) (Fin 1)) := [.timeEnqueue 0 1000000, .request true, .start]

theorem storedCounterJumps : ∃ early later s next,
    Run step OnGrid (initial (Fin 1) (Fin 1) 10000) early s ∧ Run step OnGrid s later next ∧
    later.map Prod.fst = [.op .sync] ∧ next.engine.time = s.engine.time ∧
    ¬next.clock.cycles - s.clock.cycles ≤ (next.engine.time - s.engine.time + 10000 - 1) / 10000 + 1 := by
  have first : (Machine.follow step OnGrid (initial (Fin 1) (Fin 1) 10000) idleSync).isSome = true := rfl
  obtain ⟨early, before, _⟩ := Machine.followRun (Option.some_get first).symm
  have second : (Machine.follow step OnGrid (Option.get _ first) [.op .sync]).isSome = true := rfl
  obtain ⟨later, after, labels⟩ := Machine.followRun (Option.some_get second).symm
  refine ⟨early, later, _, _, before, after, labels, rfl, ?_⟩
  exact show ¬(100 : Int) - 0 ≤ (1000000 - 1000000 + 10000 - 1) / 10000 + 1 by decide

end Steps

end Gvsoc.ClockEngine
