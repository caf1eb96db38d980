import Gvsoc.ClockAhead

/-! The clock engine as a client of the time engine. What an operation does to the time
engine is a sequence of `enqueue`, `dequeue` and, on an unlinked client, a new
`next_event_time`; none of them moves time or touches another client. -/
namespace Gvsoc.ClockEngine
open TimeEngine (Engine Placed Linked)
open Machine (Run)

def Control.engine {ε κ : Type} : Control ε κ → TimeEngine.Control (ClientId κ)
  | .waiting => .waiting
  | .entry => .executing .clock
  | .callback _ => .executing .clock
  | .other k => .executing (.other k)

def Control.busy {ε κ : Type} : Control ε κ → Bool
  | .callback _ => true
  | _ => false

theorem controlOf {ε κ : Type} (c : TimeEngine.Control (ClientId κ)) : (Control.of c : Control ε κ).engine = c := by
  cases c with
  | waiting => rfl
  | executing i => cases i <;> rfl

theorem busyOf {ε κ : Type} (c : TimeEngine.Control (ClientId κ)) : (Control.of c : Control ε κ).busy = false := by
  cases c with
  | waiting => rfl
  | executing i => cases i <;> rfl

theorem entryOf {ε κ : Type} (c : TimeEngine.Control (ClientId κ)) :
    (Control.of c : Control ε κ) = .entry ↔ c = .executing .clock := by
  cases c with
  | waiting => simp [Control.of]
  | executing i => cases i <;> simp [Control.of]

section Moves

variable {κ : Type} [DecidableEq κ]

inductive Moved (e : Engine (ClientId κ)) : Engine (ClientId κ) → Prop where
  | same : Moved e e
  | enqueue {f : Engine (ClientId κ)} (before : Moved e f) (t : Int) : Moved e (f.enqueue .clock t)
  | dequeue {f : Engine (ClientId κ)} (before : Moved e f) : Moved e (f.dequeue .clock)
  | aim {f : Engine (ClientId κ)} (before : Moved e f)
      (clear : Linked e → (f.client .clock).isEnqueued = false) (t : Int) :
      Moved e (f.set .clock {f.client .clock with nextEventTime := t})

variable {e f : Engine (ClientId κ)}

theorem movedLinked (linked : Linked e) (moved : Moved e f) : Linked f := by
  induction moved with
  | same => exact linked
  | enqueue before t ih => exact TimeEngine.enqueueLinked ih
  | dequeue before ih => exact TimeEngine.dequeueLinked ih
  | aim before clear t ih => exact TimeEngine.setLinked ih (TimeEngine.notListed ih (clear linked)) (clear linked)

theorem movedFrame (moved : Moved e f) : f.time = e.time ∧ f.runReq = e.runReq ∧
    (∀ i, (f.client i).running = (e.client i).running) ∧ ∀ k, f.client (.other k) = e.client (.other k) := by
  induction moved with
  | same => exact ⟨rfl, rfl, fun _ => rfl, fun _ => rfl⟩
  | enqueue before t ih =>
      exact ⟨TimeEngine.enqueueTime.trans ih.1, TimeEngine.enqueueRunReq.trans ih.2.1,
        fun i => (TimeEngine.enqueueRunning i).trans (ih.2.2.1 i),
        fun k => (TimeEngine.enqueueClientOther (by simp)).trans (ih.2.2.2 k)⟩
  | dequeue before ih =>
      exact ⟨TimeEngine.dequeueTime.trans ih.1, TimeEngine.dequeueRunReq.trans ih.2.1,
        fun i => (TimeEngine.dequeueClient i).1.trans (ih.2.2.1 i),
        fun k => (TimeEngine.dequeueOther (by simp)).trans (ih.2.2.2 k)⟩
  | aim before clear t ih =>
      refine ⟨ih.1, ih.2.1, ?_, ?_⟩
      · intro i
        rw [← ih.2.2.1 i, TimeEngine.setClient]
        split
        · rename_i same; rw [same]
        · rfl
      · intro k
        rw [TimeEngine.setClient, if_neg (by simp)]
        exact ih.2.2.2 k

theorem movedPlaced {c : TimeEngine.Control (ClientId κ)} (placed : Placed e c) (moved : Moved e f) : Placed f c := by
  refine ⟨movedLinked placed.linked moved, ?_⟩
  intro i
  rw [(movedFrame moved).2.2.1 i]
  exact placed.owned i

end Moves

section Operations

variable {ε κ : Type} [DecidableEq ε] [DecidableEq κ] {s : System ε κ} {e : ε} {n : Int} {engine : Engine (ClientId κ)}

theorem enqueueMoved (before : Moved engine s.engine) : Moved engine (s.enqueue e n).engine := by
  rw [(enqueueParts s e n).2.1]
  split
  · exact before
  · exact .enqueue before _

theorem cancelMoved (before : Moved engine s.engine) : Moved engine (s.cancel e).engine := by
  rw [(cancelParts s e).2.2]
  split
  · exact before
  · exact .dequeue before

theorem reenqueueMoved (before : Moved engine s.engine) : Moved engine (s.reenqueue e n).engine := by
  rw [reenqueueSplit]
  split
  · exact before
  · exact enqueueMoved (cancelMoved before)

omit [DecidableEq ε] in
theorem dequeueFromEngineMoved (s : System ε κ) : Moved s.engine s.dequeueFromEngine.1.engine := by
  rw [(dequeueFromEngineParts s).2.2.1]
  split
  · exact .same
  · exact .dequeue .same

omit [DecidableEq ε] in
theorem dequeueFromEngineClear (s : System ε κ) (linked : Linked s.engine) :
    (s.dequeueFromEngine.1.engine.client .clock).isEnqueued = false := by
  rw [(dequeueFromEngineParts s).2.2.1]
  cases running : s.running with
  | true => exact TimeEngine.notFlagged linked (linked.running _ running)
  | false => exact TimeEngine.dequeueFlag

omit [DecidableEq ε] in
theorem applyFrequencyMoved (s : System ε κ) (f : Int) : Moved s.engine (s.applyFrequency f).engine := by
  have away := dequeueFromEngineMoved s
  have clear := dequeueFromEngineClear s
  unfold System.applyFrequency
  dsimp only
  split
  · split
    · exact .enqueue (.aim away clear _) _
    · split
      · split
        · split
          · exact .enqueue (.aim away clear _) _
          · exact away
        · exact away
      · exact away
  · split
    · exact away
    · exact .same

/- `next_event_time = t; reenqueue_to_engine()`, as the time engine sees it. -/
def wakeIn (e : Engine (ClientId κ)) (t : Int) : Engine (ClientId κ) :=
  (e.set .clock {e.client .clock with nextEventTime := t}).enqueue .clock t

omit [DecidableEq ε] in
theorem wakeInSelf {e : Engine (ClientId κ)} {t : Int} (idle : (e.client .clock).running = false)
    (clear : (e.client .clock).isEnqueued = false) :
    ((wakeIn e t).client .clock).isEnqueued = true ∧ (wakeIn e t).nextTime .clock = e.time + t := by
  have still : ((e.set .clock {e.client .clock with nextEventTime := t}).client .clock).running = false := by
    rw [TimeEngine.setClient, if_pos rfl]
    exact idle
  obtain ⟨flag, time⟩ := TimeEngine.enqueueSelf (t := t) still
  refine ⟨flag, time.trans (if_neg ?_)⟩
  rw [TimeEngine.setClient, if_pos rfl]
  simp [clear]

omit [DecidableEq ε] in
theorem applyFrequencyEngine (idle : s.running = false) (f : Int) :
    (0 < f ∧ (s.engine.client .clock).isEnqueued = true ∧ 0 < s.clock.period ∧
      (s.applyFrequency f).engine = wakeIn (s.engine.dequeue .clock)
        ((s.engine.nextTime .clock - s.engine.time).tdiv s.clock.period * periodOf f)) ∨
    (0 < f ∧ s.clock.period = 0 ∧ s.clock.hasEvents = true ∧ ∃ e, s.clock.getNextEvent = some e ∧
      (s.applyFrequency f).engine = wakeIn (s.engine.dequeue .clock)
        ((s.clock.cycleOf e - s.clock.cycles) * periodOf f)) ∨
    ((0 < f → ((s.engine.client .clock).isEnqueued = true → s.clock.period ≤ 0) ∧
        (s.clock.period = 0 → s.clock.hasEvents = true → s.clock.getNextEvent = none)) ∧ 0 ≤ f ∧
      (s.applyFrequency f).engine = s.engine.dequeue .clock) ∨
    (f < 0 ∧ s.applyFrequency f = s) := by
  obtain ⟨clock, control, engine, again⟩ := dequeueFromEngineParts s
  rw [idle] at engine again
  simp only [Bool.false_eq_true, if_false] at engine
  simp only [Bool.not_false, Bool.true_and] at again
  unfold System.applyFrequency
  generalize s.dequeueFromEngine = away at clock control engine again
  obtain ⟨⟨engine', clock', control'⟩, flag⟩ := away
  simp only at clock control engine again
  subst clock control engine again
  have time : (s.engine.dequeue .clock).nextTime .clock - (s.engine.dequeue .clock).time =
      s.engine.nextTime .clock - s.engine.time := by
    rw [(TimeEngine.dequeueClient _).2, TimeEngine.dequeueTime]
  dsimp only
  split
  · rename_i positive
    split
    · rename_i both
      refine .inl ⟨positive, both.1, both.2, ?_⟩
      rw [← time]
      rfl
    · rename_i off
      have late : (s.engine.client .clock).isEnqueued = true → s.clock.period ≤ 0 := fun flag => by
        by_contra ticking
        exact off ⟨flag, by omega⟩
      split
      · rename_i gated
        split
        · rename_i some
          split
          · rename_i e next
            exact .inr (.inl ⟨positive, gated, some, e, next, rfl⟩)
          · rename_i none
            exact .inr (.inr (.inl ⟨fun _ => ⟨late, fun _ _ => none⟩, by omega, rfl⟩))
        · rename_i none
          exact .inr (.inr (.inl ⟨fun _ => ⟨late, fun _ some => absurd some none⟩, by omega, rfl⟩))
      · rename_i ungated
        exact .inr (.inr (.inl ⟨fun _ => ⟨late, fun gated => absurd gated ungated⟩, by omega, rfl⟩))
  · rename_i stopped
    split
    · exact .inr (.inr (.inl ⟨fun positive => absurd positive stopped, by omega, rfl⟩))
    · exact .inr (.inr (.inr ⟨by omega, rfl⟩))

theorem performMoved (s : System ε κ) (o : Op ε) : Moved s.engine (s.perform o).engine := by
  cases o with
  | enqueue e n => exact enqueueMoved .same
  | enqueueExt e n => exact enqueueMoved (s := s.sync) .same
  | reenqueue e n => exact reenqueueMoved .same
  | reenqueueExt e n => exact reenqueueMoved (s := s.sync) .same
  | cancel e => exact cancelMoved .same
  | sync => exact .same
  | applyFrequency f => exact applyFrequencyMoved s f

end Operations

section Steps

variable {ε κ : Type} [DecidableEq ε] [DecidableEq κ] {s next : System ε κ}

structure Sound (s : System ε κ) : Prop where
  placed : Placed s.engine s.control.engine
  linked : WellLinked s.clock
  period : 0 ≤ s.clock.period

omit [DecidableEq κ] in
theorem soundRunning (sound : Sound s) (outside : s.control ≠ .entry) : s.running = s.control.busy := by
  have owner := sound.placed.owned .clock
  unfold System.running
  cases control : s.control with
  | entry => exact absurd control outside
  | callback e => exact owner.mpr (by rw [control]; rfl)
  | waiting => simpa [control, Control.engine, Control.busy] using owner
  | other k => simpa [control, Control.engine, Control.busy] using owner

omit [DecidableEq ε] in
theorem periodOfNonneg {frequency : Int} (positive : 0 < frequency) : 0 ≤ periodOf frequency :=
  Int.ediv_nonneg (by omega) (by omega)

omit [DecidableEq ε] in
theorem applyFrequencyPeriod {k : Clock ε} (positive : 0 ≤ k.period) (frequency : Int) :
    0 ≤ (k.applyFrequency frequency).period := by
  unfold Clock.applyFrequency
  split
  · rename_i ticking
    exact periodOfNonneg ticking
  · split
    · exact le_refl _
    · exact positive

theorem enqueuePeriod (k : Clock ε) (running : Bool) (time : Int) (e : ε) (n : Int) :
    (k.enqueue running time e n).period = k.period := by
  unfold Clock.enqueue
  dsimp only
  rw [syncSetEvent]
  split <;> exact syncPeriod k

theorem reenqueuePeriod (k : Clock ε) (running : Bool) (time : Int) (e : ε) (n : Int) :
    (k.reenqueue running time e n).period = k.period := by
  unfold Clock.reenqueue
  split
  · rfl
  · exact (enqueuePeriod _ _ _ _ _).trans (cancelClockFrame k e).2.1

theorem performPeriod (k : Clock ε) (running : Bool) (time : Int) (o : Op ε) :
    (k.perform running time o).period =
      match o with | .applyFrequency f => (k.applyFrequency f).period | _ => k.period := by
  cases o with
  | enqueue e n => exact enqueuePeriod _ _ _ _ _
  | enqueueExt e n => exact (enqueuePeriod _ _ _ _ _).trans (syncPeriod k)
  | reenqueue e n => exact reenqueuePeriod _ _ _ _ _
  | reenqueueExt e n => exact (reenqueuePeriod _ _ _ _ _).trans (syncPeriod k)
  | cancel e => exact (cancelClockFrame k e).2.1
  | sync => exact syncPeriod k
  | applyFrequency f => rfl

theorem performPeriodNonneg {k : Clock ε} (positive : 0 ≤ k.period) (running : Bool) (time : Int) (o : Op ε) :
    0 ≤ (k.perform running time o).period := by
  rw [performPeriod]
  cases o with
  | applyFrequency f => exact applyFrequencyPeriod positive f
  | _ => exact positive

theorem flushFromPeriod (waiting : List ε) : ∀ k : Clock ε, (k.flushFrom waiting).period = k.period := by
  induction waiting with
  | nil => exact fun k => rfl
  | cons e rest ih =>
      intro k
      have jumped : (k.jump e).period = k.period := by
        obtain ⟨_, moved⟩ | ⟨_, moved⟩ := jumpCases k e <;> rw [moved]
      obtain ⟨_, stays⟩ | ⟨_, _, moves⟩ := flushFromCons k e rest
      · rw [stays]
        exact jumped
      · rw [moves, ih]
        exact jumped

theorem enterPeriod (k : Clock ε) : k.enter.period = k.period := by
  unfold Clock.enter
  split
  · exact flushFromPeriod _ _
  · rfl

theorem execLoopPeriod (s : System ε κ) : s.execLoop.clock.period = s.clock.period := by
  obtain ⟨e, rest, _, popped⟩ | ⟨_, ended⟩ := execLoopCases s
  · rw [popped]
    rfl
  · rw [ended]
    obtain ⟨_, turned⟩ | ⟨_, stopped⟩ := finishCases s.clock s.engine.time
    · rw [turned]
    · rw [stopped]

theorem execLoopPlaced (placed : Placed s.engine (.executing .clock)) :
    Placed s.execLoop.engine s.execLoop.control.engine := by
  obtain ⟨e, rest, _, popped⟩ | ⟨_, ended⟩ := execLoopCases s
  · rw [popped]
    exact placed
  · rw [ended]
    change Placed _ (Control.of _ : Control ε κ).engine
    rw [controlOf]
    exact TimeEngine.endExecPlaced placed _

theorem stepPlaced {a : Action ε κ} (placed : Placed s.engine s.control.engine) (taken : step s a = some next) :
    Placed next.engine next.control.engine := by
  cases stepped taken with
  | op o outside legal =>
      rw [performControl]
      exact movedPlaced placed (performMoved s o)
  | timeEnqueue k t outside positive =>
      refine ⟨TimeEngine.enqueueLinked placed.linked, fun i => ?_⟩
      rw [TimeEngine.enqueueRunning]
      exact placed.owned i
  | timeDequeue k outside =>
      refine ⟨TimeEngine.dequeueLinked placed.linked, fun i => ?_⟩
      rw [(TimeEngine.dequeueClient i).1]
      exact placed.owned i
  | request run => exact ⟨⟨placed.linked.nodup, placed.linked.flag, placed.linked.running⟩, placed.owned⟩
  | start idle wanted =>
      change Placed _ (Control.of _ : Control ε κ).engine
      rw [controlOf]
      refine TimeEngine.takeFirstPlaced placed.linked (fun j => ?_)
      rw [ne_eq, placed.owned j, idle]
      simp [Control.engine]
  | exec entry =>
      rw [entry] at placed
      exact execLoopPlaced (s := {s with clock := s.clock.enter}) placed
  | callbackReturn e inside =>
      rw [inside] at placed
      exact execLoopPlaced placed
  | otherReturn k ret inside =>
      rw [inside] at placed
      change Placed _ (Control.of _ : Control ε κ).engine
      rw [controlOf]
      exact TimeEngine.endExecPlaced placed _

theorem stepPeriod {a : Action ε κ} (positive : 0 ≤ s.clock.period) (taken : step s a = some next) :
    0 ≤ next.clock.period := by
  cases stepped taken with
  | op o outside legal =>
      rw [performClock]
      exact performPeriodNonneg positive _ _ _
  | exec entry =>
      rw [show s.exec.clock.period = s.clock.period from (execLoopPeriod _).trans (enterPeriod _)]
      exact positive
  | callbackReturn e inside => rwa [execLoopPeriod]
  | timeEnqueue | timeDequeue | request | start | otherReturn => exact positive

theorem stepSound {a : Action ε κ} (sound : Sound s) (taken : step s a = some next) : Sound next :=
  ⟨stepPlaced sound.placed taken, stepWellLinked sound.linked taken, stepPeriod sound.period taken⟩

omit [DecidableEq κ] in
theorem initialSound {period : Int} (positive : 0 ≤ period) : Sound (initial ε κ period) where
  placed := TimeEngine.initialGood.toPlaced
  linked := initialWellLinked period
  period := positive

theorem runSound {ok : System ε κ → Action ε κ → Prop} {trace period} (positive : 0 ≤ period)
    (run : Run step ok (initial ε κ period) trace s) : Sound s :=
  Machine.runInvariant (P := Sound) run (initialSound positive)
    (fun _ _ _ sound _ taken => stepSound sound taken)

end Steps

section Ahead

variable {ε κ : Type} [DecidableEq ε] [DecidableEq κ] {s next : System ε κ} {Idle : Bool → Int → Prop}

def Allowed (Idle : Bool → Int → Prop) (s : System ε κ) : Action ε κ → Prop
  | .op o => OpOk Idle s.clock s.running s.engine.time o
  | _ => True

section Decidable

variable [∀ flush gap, Decidable (Idle flush gap)]

instance (flush : Bool) (k : Clock ε) (running : Bool) (time : Int) : Decidable (ResyncOk Idle flush k running time) :=
  inferInstanceAs (Decidable (_ ∨ _))

instance (k : Clock ε) (running : Bool) (time : Int) (e : ε) (n : Int) :
    Decidable (ReenqueueOk Idle k running time e n) := inferInstanceAs (Decidable (_ ∨ _ ∨ _))

instance (k : Clock ε) (running : Bool) (time : Int) : ∀ o, Decidable (OpOk Idle k running time o)
  | .enqueue _ _ | .enqueueExt _ _ | .sync => inferInstanceAs (Decidable (ResyncOk ..))
  | .reenqueue _ _ => inferInstanceAs (Decidable (ReenqueueOk ..))
  | .reenqueueExt _ _ => inferInstanceAs (Decidable (_ ∧ _))
  | .cancel _ | .applyFrequency _ => .isTrue trivial

instance (s : System ε κ) : ∀ a, Decidable (Allowed Idle s a)
  | .op o => inferInstanceAs (Decidable (OpOk Idle s.clock s.running s.engine.time o))
  | .timeEnqueue .. | .timeDequeue _ | .request _ | .start | .exec | .callbackReturn | .otherReturn _ =>
      .isTrue trivial

end Decidable

theorem execLoopAhead (rule : IdleRule Idle) (linked : WellLinked s.clock)
    (good : Ahead Idle true s.clock ∨ (Ahead Idle false s.clock ∧ s.clock.nbEnqueuedToCycle = 0 ∧
      s.clock.mustFlushDelayedQueue = false)) :
    Ahead Idle s.execLoop.control.busy s.execLoop.clock := by
  obtain ⟨e, rest, head, popped⟩ | ⟨_, ended⟩ := execLoopCases s
  · rw [popped]
    rcases good with inside | ⟨_, none, _⟩
    · exact aheadPop rule inside
    · rw [slotsEmpty linked.count none] at head
      contradiction
  · rw [ended]
    change Ahead Idle (Control.of _ : Control ε κ).busy _
    rw [busyOf]
    rcases good with inside | ⟨outside, none, _⟩
    · exact aheadFinish rule inside _
    · exact aheadFinishIdle rule outside none _

omit [DecidableEq κ] in
theorem enterAhead (linked : WellLinked s.clock) (good : Ahead Idle false s.clock) :
    Ahead Idle true s.clock.enter ∨ (Ahead Idle false s.clock.enter ∧ s.clock.enter.nbEnqueuedToCycle = 0 ∧
      s.clock.enter.mustFlushDelayedQueue = false) := by
  by_cases used : s.clock.mustFlushDelayedQueue = true ∨ s.clock.nbEnqueuedToCycle ≠ 0
  · exact .inl (aheadEnter linked good used)
  · simp only [not_or, Bool.not_eq_true, not_not] at used
    rw [enterSame used.1]
    exact .inr ⟨good, used.2, used.1⟩

theorem stepAhead {a : Action ε κ} (rule : IdleRule Idle) (sound : Sound s)
    (good : Ahead Idle s.control.busy s.clock) (allowed : Allowed Idle s a) (taken : step s a = some next) :
    Ahead Idle next.control.busy next.clock := by
  cases stepped taken with
  | op o outside legal =>
      rw [performControl, performClock, ← soundRunning sound outside]
      rw [← soundRunning sound outside] at good
      exact aheadPerform rule good sound.linked sound.period o legal allowed
  | timeEnqueue | timeDequeue | request => exact good
  | start idle wanted =>
      rw [idle] at good
      change Ahead Idle (Control.of _ : Control ε κ).busy _
      rwa [busyOf]
  | exec entry =>
      rw [entry] at good
      exact execLoopAhead (s := {s with clock := s.clock.enter}) rule (enterWellLinked sound.linked)
        (enterAhead sound.linked good)
  | callbackReturn e inside =>
      rw [inside] at good
      exact execLoopAhead rule sound.linked (.inl good)
  | otherReturn k ret inside =>
      rw [inside] at good
      change Ahead Idle (Control.of _ : Control ε κ).busy _
      rwa [busyOf]

omit [DecidableEq ε] [DecidableEq κ] in
theorem initialAhead (period : Int) : Ahead Idle (initial ε κ period).control.busy (initial ε κ period).clock :=
  ⟨List.Pairwise.nil, fun _ _ inside => by simp [initial, Clock.initial] at inside,
    fun _ _ inside => by simp [initial, Clock.initial] at inside,
    fun _ _ _ inside => by simp [initial, Clock.initial] at inside⟩

theorem runAhead {trace period} (rule : IdleRule Idle) (positive : 0 ≤ period)
    (run : Run step (Allowed Idle) (initial ε κ period) trace s) : Ahead Idle s.control.busy s.clock := by
  have both : Sound s ∧ Ahead Idle s.control.busy s.clock :=
    Machine.runInvariant (P := fun s => Sound s ∧ Ahead Idle s.control.busy s.clock) run
      ⟨initialSound positive, initialAhead period⟩
      (fun _ _ _ both allowed taken =>
        ⟨stepSound both.1 taken, stepAhead rule both.1 both.2 allowed taken⟩)
  exact both.2

end Ahead

end Gvsoc.ClockEngine
