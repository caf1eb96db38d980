import Gvsoc.ClockCancel

/-! Frequency changes of an engine that is not running. A history variable counts the whole
cycles that the engine has been through since its counter was last right: it stops while the
engine is gated and starts again at every call. The schedule of the engine agrees with that
count as long as every call meets `FrequencyOk`. -/
namespace Gvsoc.ClockEngine
open TimeEngine (Engine Placed Linked Scheduled)
open Machine (Run)

def onTrack (flush : Bool) (gap : Int) : Prop := 0 ≤ gap ∧ (flush = false → 1 ≤ gap)

instance (flush : Bool) (gap : Int) : Decidable (onTrack flush gap) :=
  inferInstanceAs (Decidable (0 ≤ gap ∧ (flush = false → 1 ≤ gap)))

theorem onTrackRule : IdleRule onTrack where
  positive := fun _ _ apart => ⟨by omega, fun _ => apart⟩
  flushed := fun _ apart => ⟨apart, by simp⟩
  weaken := fun _ _ apart => ⟨apart.1, by simp⟩

theorem aheadMono {ε : Type} {k : Clock ε} {busy : Bool} {strong weak : Bool → Int → Prop}
    (implies : ∀ flush gap, strong flush gap → weak flush gap) (good : Ahead strong busy k) : Ahead weak busy k :=
  ⟨good.sorted, good.window, good.slots, fun outside none e inside => implies _ _ (good.idle outside none e inside)⟩

section Schedule

variable {ε κ : Type} [DecidableEq ε] [DecidableEq κ] {s next : System ε κ}

omit [DecidableEq ε] in
theorem wakeInScheduled {e : Engine (ClientId κ)} {t : Int} (linked : Linked e) (sched : Scheduled e)
    (clear : (e.client .clock).isEnqueued = false) (low : 0 ≤ t) : Scheduled (wakeIn e t) := by
  have absent := TimeEngine.notListed linked clear
  exact TimeEngine.enqueueScheduled (TimeEngine.setLinked linked absent clear)
    (TimeEngine.setScheduled sched absent _) low

theorem nextEventNotPast {k : Clock ε} {busy : Bool} {e : ε} (linked : WellLinked k) (good : Ahead onTrack busy k)
    (found : k.getNextEvent = some e) : k.cycles ≤ k.cycleOf e := by
  unfold Clock.getNextEvent at found
  split at found
  · obtain ⟨i, _, head⟩ := List.exists_of_findSome?_eq_some found
    rw [linked.slots _ e (List.mem_of_mem_head? head)]
    unfold ahead
    omega
  · rename_i none
    have none : k.nbEnqueuedToCycle = 0 := by simpa using none
    have inside := List.mem_of_mem_head? found
    cases busy with
    | true => exact le_of_lt (windowSlots (good.window (.inl rfl)) e inside)
    | false =>
        have gap := (good.idle rfl none e inside).1
        omega

theorem applyFrequencyScheduled {busy : Bool} (sound : Sound s) (sched : Scheduled s.engine)
    (good : Ahead onTrack busy s.clock) (f : Int) : Scheduled (s.applyFrequency f).engine := by
  have linked := movedLinked sound.placed.linked (dequeueFromEngineMoved s)
  have clear := dequeueFromEngineClear s sound.placed.linked
  obtain ⟨clock, _, engine, again⟩ := dequeueFromEngineParts s
  have away : Scheduled s.dequeueFromEngine.1.engine := by
    rw [engine]
    split
    · exact sched
    · exact TimeEngine.dequeueScheduled sched
  unfold System.applyFrequency
  dsimp only
  split
  · rename_i positive
    have period := periodOfNonneg positive
    split
    · rename_i both
      refine wakeInScheduled linked away clear (Int.mul_nonneg (Int.tdiv_nonneg ?_ (by omega)) period)
      rw [again] at both
      simp only [Bool.and_eq_true, Bool.not_eq_true'] at both
      have future := sched.future .clock ((sound.placed.linked.flag .clock).mpr both.1.2)
      change 0 ≤ s.dequeueFromEngine.1.engine.nextTime .clock - s.dequeueFromEngine.1.engine.time
      rw [engine, if_neg (by simp [both.1.1]), (TimeEngine.dequeueClient _).2, TimeEngine.dequeueTime]
      omega
    · split
      · split
        · split
          · rename_i e found
            refine wakeInScheduled linked away clear (Int.mul_nonneg ?_ period)
            change s.dequeueFromEngine.1.clock.getNextEvent = some e at found
            change 0 ≤ s.dequeueFromEngine.1.clock.cycleOf e - s.dequeueFromEngine.1.clock.cycles
            rw [clock] at found ⊢
            have := nextEventNotPast sound.linked good found
            omega
          · exact away
        · exact away
      · exact away
  · split
    · exact away
    · exact sched

structure Tuned (s : System ε κ) : Prop where
  sound : Sound s
  ahead : Ahead onTrack s.control.busy s.clock
  awake : Awake s
  scheduled : Scheduled s.engine

theorem stepTuned {a : Action ε κ} (tuned : Tuned s) (allowed : Allowed onTrack s a) (taken : step s a = some next) :
    Tuned next where
  sound := stepSound tuned.sound taken
  ahead := stepAhead onTrackRule tuned.sound tuned.ahead allowed taken
  awake := stepAwake tuned.sound (aheadMono (fun _ _ gap => gap.2) tuned.ahead) tuned.awake taken
  scheduled := by
    by_cases change : ∃ f, a = .op (.applyFrequency f)
    · obtain ⟨f, rfl⟩ := change
      cases stepped taken with
      | op _ outside legal => exact applyFrequencyScheduled tuned.sound tuned.scheduled tuned.ahead f
    · refine (stepSchedule tuned.sound tuned.scheduled ?_ taken).1
      cases a with
      | op o =>
          cases o with
          | applyFrequency f => exact absurd ⟨f, rfl⟩ change
          | _ => rfl
      | _ => rfl

theorem runTuned {trace period} (positive : 0 ≤ period)
    (run : Run step (Allowed onTrack) (initial ε κ period) trace s) : Tuned s :=
  Machine.runInvariant (P := Tuned) run
    ⟨initialSound positive, initialAhead period, initialAwake period, TimeEngine.initialGood.scheduled⟩
    (fun _ _ _ tuned allowed taken => stepTuned tuned allowed taken)

omit [DecidableEq κ] in
theorem tunedReady (tuned : Tuned s) : Ready s.clock.period s :=
  ⟨tuned.sound, aheadMono (fun _ _ gap => gap.2) tuned.ahead, tuned.awake, tuned.scheduled, rfl⟩

end Schedule

section Count

structure Progress where
  ref : Int
  elapsed : Int
  deriving DecidableEq, Repr

variable {ε κ : Type} [DecidableEq ε] [DecidableEq κ] {s next : System ε κ} {g : Progress} {f : Int} {z : ε}

def System.progress (s : System ε κ) : Progress :=
  ⟨if s.clock.nbEnqueuedToCycle = 0 ∧ s.clock.mustFlushDelayedQueue = true then s.clock.stopTime
    else s.engine.nextTime .clock, 0⟩

def Progress.whole (g : Progress) (s : System ε κ) : Int :=
  if s.clock.period = 0 ∨ s.engine.time ≤ g.ref then 0 else (s.engine.time - g.ref) / s.clock.period

/- A call counts the whole cycles of the old period and starts again from its own time; the
engine's own `exec` brings the counter up to date. -/
def Progress.after (g : Progress) (s : System ε κ) : Action ε κ → System ε κ → Progress
  | .op (.applyFrequency _), _ => ⟨s.engine.time, g.elapsed + g.whole s⟩
  | .exec, next => next.progress
  | .callbackReturn, next => next.progress
  | _, _ => g

def counted (x : System ε κ × Progress) (a : Action ε κ) : Option (System ε κ × Progress) :=
  (step x.1 a).map (fun next => (next, x.2.after x.1 a next))

/- A call finds the engine with no started cycle that rounding would lose. While it ticks,
the distance to the wake-up is a whole number of periods, or nothing has elapsed yet; to gate
it, no whole cycle has elapsed; when it is gated, its next event is what it will wake up for:
in the current slot, or first of the delayed ones with a flush due. -/
def FrequencyOk (s : System ε κ) (frequency : Int) : Prop :=
  let distance := s.engine.nextTime .clock - s.engine.time
  let cycles := s.clock.wakeCycle - s.clock.cycles
  if 0 < s.clock.period then
    if 0 < frequency then distance / s.clock.period = cycles ∨
      (distance % s.clock.period = 0 ∧ distance ≤ cycles * s.clock.period)
    else (cycles - 1) * s.clock.period < distance
  else 0 < frequency → ∀ e ∈ s.clock.getNextEvent, s.clock.cycleOf e = s.clock.wakeCycle

def CallOk (x : System ε κ × Progress) : Action ε κ → Prop
  | .op (.applyFrequency f) => x.1.running = false ∧ 0 ≤ f ∧ FrequencyOk x.1 f
  | .op _ => False
  | _ => True

def Quiet (_ : System ε κ) : Action ε κ → Prop
  | .op _ => False
  | _ => True

section Decidable

instance (s : System ε κ) (f : Int) : Decidable (FrequencyOk s f) := by
  unfold FrequencyOk
  infer_instance

instance (x : System ε κ × Progress) : ∀ a, Decidable (CallOk x a)
  | .op (.applyFrequency _) => inferInstanceAs (Decidable (_ ∧ _))
  | .op (.enqueue ..) | .op (.enqueueExt ..) | .op (.reenqueue ..) | .op (.reenqueueExt ..) | .op (.cancel _)
  | .op .sync => .isFalse (fun h => h)
  | .timeEnqueue .. | .timeDequeue _ | .request _ | .start | .exec | .callbackReturn | .otherReturn _ =>
      .isTrue trivial

instance (s : System ε κ) : ∀ a, Decidable (Quiet s a)
  | .op _ => .isFalse (fun h => h)
  | .timeEnqueue .. | .timeDequeue _ | .request _ | .start | .exec | .callbackReturn | .otherReturn _ =>
      .isTrue trivial

end Decidable

def System.inStep (s : System ε κ) : Prop :=
  s.clock.period ≠ 0 → s.clock.nbEnqueuedToCycle = 0 → s.clock.mustFlushDelayedQueue = true →
    s.engine.nextTime .clock = s.clock.stopTime + (s.clock.wakeCycle - s.clock.cycles) * s.clock.period

structure Tracks (g : Progress) (s : System ε κ) : Prop where
  ticking : s.clock.period ≠ 0 → s.engine.nextTime .clock =
    g.ref + (s.clock.wakeCycle - s.clock.cycles - g.elapsed) * s.clock.period
  low : 0 ≤ g.elapsed
  early : s.engine.time < g.ref → g.elapsed = 0
  gated : s.clock.period = 0 → g.elapsed = 0

omit [DecidableEq ε] [DecidableEq κ] in
theorem freshTracks (inStep : s.inStep) : Tracks s.progress s where
  ticking := by
    intro ticking
    unfold System.progress
    dsimp only
    split
    · rename_i sleeping
      rw [Int.sub_zero]
      exact inStep ticking sleeping.1 sleeping.2
    · rename_i awake
      rw [Clock.wakeCycle, if_neg awake]
      simp
  low := le_refl _
  early := fun _ => rfl
  gated := fun _ => rfl

section Arithmetic

variable {wake time ref cycles elapsed p : Int}

theorem wholeLeft (positive : 0 < p) (line : wake = ref + (cycles - elapsed) * p) (low : 0 ≤ elapsed)
    (early : time < ref → elapsed = 0)
    (ok : (wake - time) / p = cycles ∨ ((wake - time) % p = 0 ∧ wake - time ≤ cycles * p)) :
    (wake - time) / p = cycles - (elapsed + if time ≤ ref then 0 else (time - ref) / p) := by
  have lost : 0 ≤ elapsed * p := Int.mul_nonneg low (Int.le_of_lt positive)
  rw [Int.sub_mul] at line
  rcases ok with full | ⟨exact, near⟩
  · have floor := Int.mul_ediv_add_emod (wake - time) p
    have rest := Int.emod_nonneg (wake - time) (show p ≠ 0 by omega)
    rw [full, Int.mul_comm] at floor
    rw [if_pos (by omega), full]
    rcases lt_or_eq_of_le (show time ≤ ref by omega) with before | now
    · rw [early before]
      omega
    · have none : elapsed * p ≤ 0 * p := by omega
      have := Int.le_of_mul_le_mul_right none positive
      omega
  · have whole := Int.mul_ediv_add_emod (wake - time) p
    rw [exact, Int.mul_comm] at whole
    split
    · rename_i notLater
      rcases lt_or_eq_of_le notLater with before | now
      · rw [early before, Int.zero_mul] at line
        omega
      · have same : (wake - time) / p * p = (cycles - elapsed) * p := by
          rw [Int.sub_mul]
          omega
        rw [Int.eq_of_mul_eq_mul_right (by omega) same]
        omega
    · have gone : time - ref = (cycles - elapsed - (wake - time) / p) * p := by
        rw [Int.sub_mul, Int.sub_mul]
        omega
      rw [gone, Int.mul_ediv_cancel _ (by omega)]
      omega

/- Nothing is lost when the engine is gated before a whole cycle has elapsed. -/
theorem nothingElapsed (positive : 0 < p) (line : wake = ref + (cycles - elapsed) * p) (low : 0 ≤ elapsed)
    (early : time < ref → elapsed = 0) (ok : (cycles - 1) * p < wake - time) :
    elapsed + (if time ≤ ref then 0 else (time - ref) / p) = 0 := by
  rw [Int.sub_mul] at line ok
  split
  · rename_i notLater
    rcases lt_or_eq_of_le notLater with before | now
    · rw [early before]
      rfl
    · have below : elapsed * p < 1 * p := by omega
      have := Int.lt_of_mul_lt_mul_right below (by omega)
      omega
  · have below : elapsed * p < 1 * p := by omega
    have := Int.lt_of_mul_lt_mul_right below (by omega)
    have none : elapsed = 0 := by omega
    rw [none] at line ⊢
    rw [Int.ediv_eq_zero_of_lt (by omega) (by omega)]
    rfl

end Arithmetic

omit [DecidableEq ε] in
theorem applyFrequencyClockFrame (k : Clock ε) (f : Int) : (k.applyFrequency f).wakeCycle = k.wakeCycle ∧
    (k.applyFrequency f).cycles = k.cycles ∧ (0 < f → (k.applyFrequency f).period = periodOf f) ∧
    (f = 0 → (k.applyFrequency f).period = 0) := by
  unfold Clock.applyFrequency
  split
  · exact ⟨rfl, rfl, fun _ => rfl, by omega⟩
  · split
    · exact ⟨rfl, rfl, by omega, fun _ => rfl⟩
    · exact ⟨rfl, rfl, by omega, by omega⟩

theorem applyFrequencyWake (tuned : Tuned s) (idle : s.running = false) (tracks : Tracks g s)
    (some : s.clock.hasEvents = true) (ok : FrequencyOk s f) (positive : 0 < f) :
    (s.applyFrequency f).engine.nextTime .clock = s.engine.time +
      (s.clock.wakeCycle - s.clock.cycles - (g.elapsed + g.whole s)) * periodOf f := by
  have listed := tuned.awake.listed idle
  have low := tuned.sound.period
  have away : ((s.engine.dequeue .clock).client .clock).running = false := (TimeEngine.dequeueClient _).1.trans idle
  have landing : ∀ t, (wakeIn (s.engine.dequeue .clock) t).nextTime .clock = s.engine.time + t := by
    intro t
    rw [(wakeInSelf away TimeEngine.dequeueFlag).2, TimeEngine.dequeueTime]
  unfold FrequencyOk at ok
  obtain ⟨_, flag, ticking, moved⟩ | ⟨_, gated, _, e, found, moved⟩ | ⟨off, _, _⟩ | ⟨negative, _⟩ :=
    applyFrequencyEngine idle f
  · have future := tuned.scheduled.future .clock ((tuned.sound.placed.linked.flag .clock).mpr flag)
    simp only [if_pos ticking, if_pos positive] at ok
    rw [moved, landing, Int.tdiv_eq_ediv_of_nonneg (by omega),
      wholeLeft ticking (tracks.ticking (by omega)) tracks.low tracks.early ok, Progress.whole]
    simp only [show s.clock.period ≠ 0 by omega, false_or]
  · simp only [gated, lt_irrefl, if_false] at ok
    have next := ok positive e (by simp [found])
    rw [moved, landing, next, tracks.gated gated, Progress.whole, if_pos (.inl gated), Int.add_zero, Int.sub_zero]
  · obtain ⟨late, none⟩ := off positive
    by_cases gated : s.clock.period = 0
    · have next := nextEventSome tuned.sound.linked some
      rw [none gated some] at next
      contradiction
    · have := late (listed.mpr ⟨gated, some⟩)
      omega
  · omega

omit [DecidableEq ε] [DecidableEq κ] in
theorem wholeNonneg (low : 0 ≤ s.clock.period) : 0 ≤ g.whole s := by
  unfold Progress.whole
  split
  · exact le_refl _
  · exact Int.ediv_nonneg (by omega) low

theorem callTracks (tuned : Tuned s) (idle : s.running = false) (tracks : Tracks g s)
    (some : s.clock.hasEvents = true) (ok : FrequencyOk s f) (low : 0 ≤ f) (small : f ≤ 2147483647) :
    Tracks ⟨s.engine.time, g.elapsed + g.whole s⟩ (s.applyFrequency f) := by
  obtain ⟨wake, counter, up, down⟩ := applyFrequencyClockFrame s.clock f
  have time : (s.applyFrequency f).engine.time = s.engine.time := (movedFrame (applyFrequencyMoved s f)).1
  have period := tuned.sound.period
  refine ⟨fun ticking => ?_, ?_, ?_, fun gated => ?_⟩
  · rw [(applyFrequencyClock s f).1] at ticking ⊢
    have positive : 0 < f := by
      rcases lt_or_eq_of_le low with positive | zero
      · exact positive
      · exact absurd (down zero.symm) ticking
    rw [wake, counter, up positive]
    exact applyFrequencyWake tuned idle tracks some ok positive
  · have := wholeNonneg (g := g) period
    exact Int.add_nonneg tracks.low this
  · rw [time]
    exact fun before => absurd before (lt_irrefl _)
  · rw [(applyFrequencyClock s f).1] at gated
    have zero : f = 0 := by
      rcases lt_or_eq_of_le low with positive | zero
      · rw [up positive] at gated
        exact absurd gated (periodOfNeZero positive small)
      · exact zero.symm
    change g.elapsed + g.whole s = 0
    by_cases before : s.clock.period = 0
    · rw [tracks.gated before, Progress.whole, if_pos (.inl before)]
      rfl
    · unfold FrequencyOk at ok
      simp only [if_pos (show 0 < s.clock.period by omega), zero, lt_irrefl, if_false] at ok
      have none := nothingElapsed (by omega) (tracks.ticking before) tracks.low tracks.early ok
      unfold Progress.whole
      simpa only [before, false_or] using none

omit [DecidableEq ε] [DecidableEq κ] in
theorem keptTracks {engine : Engine (ClientId κ)} {control : Control ε κ} (tracks : Tracks g s)
    (kept : engine.client .clock = s.engine.client .clock) (later : s.engine.time ≤ engine.time) :
    Tracks g (⟨engine, s.clock, control⟩ : System ε κ) where
  ticking := by
    intro ticking
    unfold Engine.nextTime
    rw [kept]
    exact tracks.ticking ticking
  low := tracks.low
  early := fun before => tracks.early (lt_of_le_of_lt later before)
  gated := tracks.gated

theorem execLoopInStep (placed : Placed s.engine (.executing .clock)) (awake : Awake s.execLoop)
    (idle : s.execLoop.running = false) (some : s.execLoop.clock.hasEvents = true) : s.execLoop.inStep := by
  intro ticking none flush
  have flagged := (awake.listed idle).mpr ⟨ticking, some⟩
  have ended := execLoopEnds placed idle
  rw [ended] at idle none flagged ⊢
  obtain ⟨used, turned⟩ | ⟨empty, stopped⟩ := finishCases s.clock s.engine.time
  · rw [turned] at none
    exact absurd none used
  · obtain ⟨_, inside, _⟩ | ⟨_, flag, aim⟩ := TimeEngine.endExecSelf placed (s.clock.finish s.engine.time).2
    · have running := (TimeEngine.endExecPlaced placed (s.clock.finish s.engine.time).2).owned .clock
      rw [System.running, running.mpr inside] at idle
      contradiction
    · have later : 0 < (s.clock.finish s.engine.time).2 := by
        change ((s.engine.endExec .clock (s.clock.finish s.engine.time).2).1.client .clock).isEnqueued = true at flagged
        rw [flag] at flagged
        simpa using flagged
      have wake := finishWake s.engine.time later
      have next := aim later
      change (s.engine.endExec .clock (s.clock.finish s.engine.time).2).1.nextTime .clock =
        (s.clock.finish s.engine.time).1.stopTime + ((s.clock.finish s.engine.time).1.wakeCycle -
          (s.clock.finish s.engine.time).1.cycles) * (s.clock.finish s.engine.time).1.period
      rw [next, wake, stopped]
      change _ = s.engine.time + (_ - s.clock.cycles) * s.clock.period
      omega

omit [DecidableEq κ] in
theorem callAllowed {a : Action ε κ} (ok : CallOk (s, g) a) : Allowed onTrack s a := by
  cases a with
  | op o =>
      cases o with
      | applyFrequency f => exact trivial
      | _ => exact absurd ok (by simp [CallOk])
  | _ => exact trivial

omit [DecidableEq ε] [DecidableEq κ] in
theorem callUntouched {a : Action ε κ} (ok : CallOk (s, g) a) (z : ε) : ∀ o, a = .op o → o.target ≠ some z := by
  rintro o rfl
  cases o with
  | applyFrequency f => simp [Op.target]
  | _ => exact absurd ok (by simp [CallOk])

def Counts (z : ε) (x : System ε κ × Progress) : Prop :=
  (x.1.clock.event z).enqueued = true → x.1.running = false → Tracks x.2 x.1

theorem stepCounts {a : Action ε κ} (tuned : Tuned s) (counts : Counts z (s, g)) (ok : CallOk (s, g) a)
    (taken : step s a = some next) : Counts z (next, g.after s a next) := by
  intro pending idle
  have tunedNext := stepTuned tuned (callAllowed ok) taken
  have same := untouchedEvent (callUntouched ok z) taken pending
  have before : (s.clock.event z).enqueued = true := by rwa [same] at pending
  have placed := tuned.sound.placed
  have some := pendingHasEvents tuned.sound.linked before
  cases stepped taken with
  | op o outside legal =>
      cases o with
      | applyFrequency f =>
          obtain ⟨still, low, fits⟩ := ok
          simp only [Op.legal, decide_eq_true_eq] at legal
          exact callTracks tuned still (counts before still) some fits low legal.2
      | _ => exact absurd ok (by simp [CallOk])
  | timeEnqueue k t outside positive =>
      have kept := TimeEngine.enqueueClientOther (e := s.engine) (i := .other k) (j := .clock) (t := t) (by simp)
      refine keptTracks (counts before ?_) kept (le_of_eq TimeEngine.enqueueTime.symm)
      exact (congrArg TimeEngine.Client.running kept).symm.trans idle
  | timeDequeue k outside =>
      have kept := TimeEngine.dequeueOther (e := s.engine) (i := .other k) (j := .clock) (by simp)
      refine keptTracks (counts before ?_) kept (le_of_eq TimeEngine.dequeueTime.symm)
      exact (congrArg TimeEngine.Client.running kept).symm.trans idle
  | request run => exact keptTracks (counts before idle) rfl (le_refl _)
  | start waiting wanted =>
      have still : s.running = false := (soundRunning tuned.sound (by simp [waiting])).trans (by rw [waiting]; rfl)
      have owner := (TimeEngine.takeFirstPlaced placed.linked (fun j => by
        rw [ne_eq, placed.owned j, waiting]; simp [Control.engine])).owned ClientId.clock
      obtain ⟨now, _⟩ | ⟨_, kept⟩ := TimeEngine.takeFirstClient placed.linked .clock
      · rw [System.running, owner.mpr now] at idle
        contradiction
      · exact keptTracks (counts before still) kept (TimeEngine.takeFirstScheduled placed.linked tuned.scheduled).2
  | exec entry =>
      rw [entry] at placed
      refine freshTracks (execLoopInStep (s := {s with clock := s.clock.enter}) placed tunedNext.awake idle ?_)
      exact pendingHasEvents tunedNext.sound.linked pending
  | callbackReturn e inside =>
      rw [inside] at placed
      exact freshTracks (execLoopInStep placed tunedNext.awake idle (pendingHasEvents tunedNext.sound.linked pending))
  | otherReturn k ret inside =>
      have still : s.running = false := (soundRunning tuned.sound (by simp [inside])).trans (by rw [inside]; rfl)
      rw [inside] at placed
      have owner := (TimeEngine.endExecPlaced placed ret).owned ClientId.clock
      obtain ⟨now, _⟩ | ⟨_, kept⟩ := TimeEngine.endExecOther (j := ClientId.clock) placed (by simp) ret
      · rw [System.running, owner.mpr now] at idle
        contradiction
      · exact keptTracks (counts before still) kept (TimeEngine.endExecGood ⟨placed, tuned.scheduled⟩ ret).2

theorem countedTuned {trace : List (Action ε κ × (System ε κ × Progress))} {last : System ε κ × Progress}
    {ok : System ε κ × Progress → Action ε κ → Prop} (calls : ∀ x a, ok x a → CallOk x a) (tuned : Tuned s)
    (run : Run counted ok (s, g) trace last) : Tuned last.1 :=
  Machine.runInvariant (P := fun x => Tuned x.1) run tuned
    (by
      rintro ⟨u, g⟩ a ⟨v, h⟩ tuned allowed taken
      obtain ⟨next, moved, same⟩ := Option.map_eq_some_iff.mp taken
      obtain ⟨rfl, rfl⟩ := Prod.mk.inj same
      exact stepTuned tuned (callAllowed (calls _ _ allowed)) moved)

theorem countedRun {trace : List (Action ε κ × (System ε κ × Progress))} {last : System ε κ × Progress}
    (tuned : Tuned s) (inStep : s.inStep) (run : Run counted CallOk (s, s.progress) trace last) : Counts z last := by
  induction run with
  | nil => exact fun _ _ => freshTracks inStep
  | @snoc trace mid a last before ok taken ih =>
      obtain ⟨next, moved, same⟩ := Option.map_eq_some_iff.mp taken
      rw [← same]
      exact stepCounts (countedTuned (fun _ _ ok => ok) tuned before) ih ok moved

theorem gatedStep {a : Action ε κ} (tuned : Tuned s) (idle : s.running = false) (gated : s.clock.period = 0)
    (ok : CallOk (s, g) a) (taken : step s a = some next) :
    next.running = false ∧ next.clock.cycles = s.clock.cycles := by
  have placed := tuned.sound.placed
  have off : (s.engine.client .clock).isEnqueued ≠ true := fun flag => ((tuned.awake.listed idle).mp flag).1 gated
  cases stepped taken with
  | op o outside legal =>
      cases o with
      | applyFrequency f =>
          refine ⟨((movedFrame (applyFrequencyMoved s f)).2.2.1 .clock).trans idle, ?_⟩
          exact (congrArg Clock.cycles (applyFrequencyClock s f).1).trans (applyFrequencyClockFrame s.clock f).2.1
      | _ => exact absurd ok (by simp [CallOk])
  | timeEnqueue k t outside positive =>
      refine ⟨?_, rfl⟩
      exact (congrArg TimeEngine.Client.running (TimeEngine.enqueueClientOther (by simp))).trans idle
  | timeDequeue k outside =>
      refine ⟨?_, rfl⟩
      exact (congrArg TimeEngine.Client.running (TimeEngine.dequeueOther (by simp))).trans idle
  | request run => exact ⟨idle, rfl⟩
  | start waiting wanted =>
      obtain ⟨_, flag, _⟩ | ⟨_, kept⟩ := TimeEngine.takeFirstClient placed.linked .clock
      · exact absurd flag off
      · exact ⟨(congrArg TimeEngine.Client.running kept).trans idle, rfl⟩
  | exec entry =>
      rw [System.running, (placed.owned .clock).mpr (by rw [entry]; rfl)] at idle
      contradiction
  | callbackReturn e inside =>
      rw [System.running, (placed.owned .clock).mpr (by rw [inside]; rfl)] at idle
      contradiction
  | otherReturn k ret inside =>
      rw [inside] at placed
      obtain ⟨_, flag, _⟩ | ⟨_, kept⟩ := TimeEngine.endExecOther (j := ClientId.clock) placed (by simp) ret
      · exact absurd flag off
      · exact ⟨(congrArg TimeEngine.Client.running kept).trans idle, rfl⟩

theorem gatedRun {trace : List (Action ε κ × (System ε κ × Progress))} {last : System ε κ × Progress}
    (tuned : Tuned s) (idle : s.running = false)
    (run : Run counted (fun x a => CallOk x a ∧ x.1.clock.period = 0) (s, g) trace last) :
    last.1.running = false ∧ last.1.clock.cycles = s.clock.cycles := by
  induction run with
  | nil => exact ⟨idle, rfl⟩
  | @snoc trace mid a last before ok taken ih =>
      obtain ⟨next, moved, same⟩ := Option.map_eq_some_iff.mp taken
      rw [← same]
      have tunedMid := countedTuned (fun _ _ ok => ok.1) tuned before
      obtain ⟨still, counter⟩ := gatedStep tunedMid ih.1 ok.2 ok.1 moved
      exact ⟨still, counter.trans ih.2⟩

omit [DecidableEq κ] in
theorem quietSteady (s : System ε κ) (a : Action ε κ) (quiet : Quiet s a) : Steady z s a := by
  cases a with
  | op o => exact absurd quiet (by simp [Quiet])
  | _ => exact trivial

/- The last call of a sequence re-enables or changes the clock at time `T`. Each pending
event is then executed its remaining cycles of the new period later: its cycle less the
counter and the whole cycles elapsed. The counter does not move while the engine is gated,
and the time handed to the time engine is not negative. -/
theorem frequencyKeepsCycles {early : List (Action ε κ × System ε κ)} {period : Int}
    {trace : List (Action ε κ × (System ε κ × Progress))} {before after last : System ε κ}
    {rest : List (Action ε κ × System ε κ)} (positive : 0 ≤ period)
    (reached : Run step (Allowed onTrack) (initial ε κ period) early s) (inStep : s.inStep)
    (calls : Run counted CallOk (s, s.progress) trace (before, g))
    (idle : before.running = false) (on : 0 < f) (ok : FrequencyOk before f)
    (taken : step before (.op (.applyFrequency f)) = some after) (quiet : Run step Quiet after rest last) :
    (∀ z, (after.clock.event z).enqueued = true → Executes z
      (before.engine.time +
        ((after.clock.event z).cycle - (before.clock.cycles + g.elapsed + g.whole before)) * periodOf f)
      (after.clock.event z).cycle rest last) ∧
    (∀ interval later, Run counted (fun x a => CallOk x a ∧ x.1.clock.period = 0) (before, g) interval later →
      later.1.clock.cycles = before.clock.cycles) ∧
    ((after.engine.client .clock).isEnqueued = true → before.engine.time ≤ after.engine.nextTime .clock) := by
  have tuned : Tuned before := countedTuned (fun _ _ ok => ok) (runTuned positive reached) calls
  have tunedAfter : Tuned after := stepTuned (a := .op (.applyFrequency f)) tuned trivial taken
  have split : after = before.applyFrequency f ∧ before.control ≠ .entry ∧ f ≤ 2147483647 := by
    cases stepped taken with
    | op _ outside legal =>
        simp only [Op.legal, decide_eq_true_eq] at legal
        exact ⟨rfl, outside, legal.2⟩
  obtain ⟨rfl, outside, small⟩ := split
  obtain ⟨clock, control⟩ := applyFrequencyClock before f
  obtain ⟨wake, counter, up, _⟩ := applyFrequencyClockFrame before.clock f
  have time : (before.applyFrequency f).engine.time = before.engine.time := (movedFrame (applyFrequencyMoved before f)).1
  refine ⟨fun z pending => ?_, fun interval later run => (gatedRun tuned idle run).2, fun flag => ?_⟩
  · have same : (before.applyFrequency f).clock.event z = before.clock.event z := by
      rw [clock]
      exact congrFun (applyFrequencyEvent _ _) z
    have was : (before.clock.event z).enqueued = true := by rwa [same] at pending
    have tracks : Tracks g before := countedRun (runTuned positive reached) inStep calls was idle
    have line := applyFrequencyWake tuned idle tracks (pendingHasEvents tuned.sound.linked was) ok on
    have ready := tunedReady tunedAfter
    rw [clock, up on] at ready
    have ticking : 0 < periodOf f := lt_of_le_of_ne (periodOfNonneg on) (Ne.symm (periodOfNeZero on small))
    have phase : InPhase (periodOf f)
        (before.engine.time - (before.clock.cycles + g.elapsed + g.whole before) * periodOf f)
        (before.applyFrequency f) := by
      refine outsideInPhase tuned.sound outside idle control (fun _ => ?_)
      rw [line, clock, wake, Int.sub_mul, Int.sub_mul, Int.add_mul, Int.add_mul, Int.add_mul]
      omega
    have executes := phaseExecutes ticking ready phase pending (Machine.runWeaken quietSteady quiet)
    rw [Int.sub_mul]
    rwa [show before.engine.time + (((before.applyFrequency f).clock.event z).cycle * periodOf f -
        (before.clock.cycles + g.elapsed + g.whole before) * periodOf f) =
      ((before.applyFrequency f).clock.event z).cycle * periodOf f + (before.engine.time -
        (before.clock.cycles + g.elapsed + g.whole before) * periodOf f) by omega]
  · have future := tunedAfter.scheduled.future .clock ((tunedAfter.sound.placed.linked.flag .clock).mpr flag)
    rwa [time] at future

def tenCycles : System (Fin 1) (Fin 1) := Machine.reach step (Allowed onTrack) (initial (Fin 1) (Fin 1) 10000)
  [.op (.enqueue 0 10), .timeEnqueue 0 30000, .request true]

/- Down to 50 MHz at the third edge, and two slow cycles later about to go up again. -/
def slowed : System (Fin 1) (Fin 1) × Progress := Machine.reach counted CallOk (tenCycles, tenCycles.progress)
  [.start, .op (.applyFrequency 50000000), .otherReturn 40000]

/- Five of the ten cycles have elapsed, and five are left. -/
theorem frequencySlowed : ∃ early trace rest last,
    Run step (Allowed onTrack) (initial (Fin 1) (Fin 1) 10000) early tenCycles ∧
    Run counted CallOk (tenCycles, tenCycles.progress) trace slowed ∧
    slowed.1.engine.time = 70000 ∧ slowed.2.elapsed = 3 ∧
    step slowed.1 (.op (.applyFrequency 100000000)) = some (slowed.1.applyFrequency 100000000) ∧
    Run step Quiet (slowed.1.applyFrequency 100000000) rest last ∧ last.control = .callback 0 ∧
    Executes 0 (70000 + 5 * 10000) 10 rest last := by
  obtain ⟨early, reached, _⟩ := Machine.reachRun step (Allowed onTrack) (initial (Fin 1) (Fin 1) 10000)
    [.op (.enqueue 0 10), .timeEnqueue 0 30000, .request true] rfl
  obtain ⟨trace, calls, _⟩ := Machine.reachRun counted CallOk (tenCycles, tenCycles.progress)
    [.start, .op (.applyFrequency 50000000), .otherReturn 40000] rfl
  have taken : step slowed.1 (.op (.applyFrequency 100000000)) = some (slowed.1.applyFrequency 100000000) :=
    stepOp (by decide +kernel) (by decide +kernel)
  obtain ⟨rest, quiet, _⟩ := Machine.reachRun step Quiet (slowed.1.applyFrequency 100000000)
    [.otherReturn (-1), .exec] (by decide +kernel)
  have executes := (frequencyKeepsCycles (by decide) reached (fun _ _ _ => by decide +kernel) calls
    (by decide +kernel) (by decide) (by decide +kernel) taken quiet).1 0 (by decide +kernel)
  exact ⟨early, trace, rest, _, reached, calls, by decide +kernel, by decide +kernel, taken, quiet,
    by decide +kernel, executes⟩

/- An idle engine with event 0 in a hundred cycles is gated half way there. -/
def hundredCycles : System (Fin 1) (Fin 1) := Machine.reach step (Allowed onTrack) (initial (Fin 1) (Fin 1) 10000)
  [.op (.enqueue 0 100), .timeEnqueue 0 500000, .request true]

def gatedHalfWay : System (Fin 1) (Fin 1) × Progress :=
  Machine.reach counted Machine.anyStep (hundredCycles, hundredCycles.progress)
    [.start, .op (.applyFrequency 0), .otherReturn 100000]

/- The fifty cycles elapsed are forgotten: the event comes a hundred cycles after the clock
is back, at 1600000 and not at 600000 + 50 * 10000. -/
theorem gatingForgetsCycles : ∃ early trace rest last,
    Run step (Allowed onTrack) (initial (Fin 1) (Fin 1) 10000) early hundredCycles ∧ hundredCycles.inStep ∧
    hundredCycles.running = false ∧ (hundredCycles.clock.event 0).enqueued = true ∧
    Run counted Machine.anyStep (hundredCycles, hundredCycles.progress) trace gatedHalfWay ∧
    trace.map Prod.fst = [.start, .op (.applyFrequency 0), .otherReturn 100000] ∧
    gatedHalfWay.1.engine.time = 600000 ∧
    (gatedHalfWay.1.clock.event 0).cycle - (gatedHalfWay.1.clock.cycles + gatedHalfWay.2.elapsed +
      gatedHalfWay.2.whole gatedHalfWay.1) = 50 ∧
    step gatedHalfWay.1 (.op (.applyFrequency 100000000)) = some (gatedHalfWay.1.applyFrequency 100000000) ∧
    Run step Quiet (gatedHalfWay.1.applyFrequency 100000000) rest last ∧
    last.control = .callback 0 ∧ last.engine.time = 1600000 := by
  obtain ⟨early, reached, _⟩ := Machine.reachRun step (Allowed onTrack) (initial (Fin 1) (Fin 1) 10000)
    [.op (.enqueue 0 100), .timeEnqueue 0 500000, .request true] rfl
  obtain ⟨trace, calls, labels⟩ := Machine.reachRun counted Machine.anyStep
    (hundredCycles, hundredCycles.progress) [.start, .op (.applyFrequency 0), .otherReturn 100000] rfl
  obtain ⟨rest, quiet, _⟩ := Machine.reachRun step Quiet (gatedHalfWay.1.applyFrequency 100000000)
    [.otherReturn (-1), .exec] (by decide +kernel)
  exact ⟨early, trace, rest, _, reached, fun _ _ _ => by decide +kernel, by decide +kernel, by decide +kernel, calls,
    labels, by decide +kernel, by decide +kernel, stepOp (by decide +kernel) (by decide +kernel), quiet, by decide +kernel,
    by decide +kernel⟩

end Count

end Gvsoc.ClockEngine
