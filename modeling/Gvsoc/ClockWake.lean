import Gvsoc.ClockSystem

/-! No lost wake-up. Outside its `exec` the clock engine is on the chain of the time engine
exactly when it ticks and has an event. Inside, the return value of `exec` decides: it is
positive exactly then too, as long as the first delayed event is ahead of the counter. -/
namespace Gvsoc.ClockEngine
open TimeEngine (Engine Placed Linked)
open Machine (Run)

def aheadUnlessFlushed (flush : Bool) (gap : Int) : Prop := flush = false → 1 ≤ gap

instance (flush : Bool) (gap : Int) : Decidable (aheadUnlessFlushed flush gap) :=
  inferInstanceAs (Decidable (flush = false → 1 ≤ gap))

theorem aheadUnlessFlushedRule : IdleRule aheadUnlessFlushed where
  positive := fun _ _ apart _ => apart
  flushed := by simp [aheadUnlessFlushed]
  weaken := by simp [aheadUnlessFlushed]

section Events

variable {ε : Type} {k : Clock ε} {e : ε}

theorem hasEventsIff (k : Clock ε) : k.hasEvents = true ↔ k.nbEnqueuedToCycle ≠ 0 ∨ k.delayedQueue ≠ [] := by
  simp [Clock.hasEvents]

theorem slotFound (current slot : Fin 32) : ∃ i < 32, slotAt current (i : Nat) = slot := by
  refine ⟨(ahead current slot).toNat, ?_, Fin.ext ?_⟩
  · unfold ahead
    omega
  · have := slot.isLt
    have := current.isLt
    unfold slotAt ahead
    simp only
    omega

variable [DecidableEq ε]

theorem pendingHasEvents (linked : WellLinked k) (pending : (k.event e).enqueued = true) : k.hasEvents = true := by
  rw [hasEventsIff]
  by_cases inside : e ∈ k.delayedQueue
  · exact .inr (List.ne_nil_of_mem inside)
  · obtain ⟨i, _, slot⟩ := flaggedPlace linked pending inside
    refine .inl (fun none => ?_)
    rw [slotsEmpty linked.count none i] at slot
    contradiction

/- The first two assertions of `exec` are one: an engine with events has a next event. -/
theorem nextEventSome (linked : WellLinked k) (some : k.hasEvents = true) : k.getNextEvent.isSome = true := by
  unfold Clock.getNextEvent
  by_cases used : k.nbEnqueuedToCycle = 0
  · rw [if_neg (by simpa using used)]
    have queue := ((hasEventsIff k).mp some).resolve_left (fun h => h used)
    simpa [List.isSome_head?] using queue
  · rw [if_pos (by simpa using used)]
    have filled : ∃ slot, k.eventQueue slot ≠ [] := by
      by_contra nothing
      refine used ?_
      rw [linked.count]
      unfold Clock.slotLength
      rw [Finset.sum_eq_zero (fun slot _ => ?_), Nat.cast_zero]
      exact List.length_eq_zero_iff.mpr (by simpa using fun h => nothing ⟨slot, h⟩)
    obtain ⟨slot, filled⟩ := filled
    obtain ⟨i, low, here⟩ := slotFound k.currentCycle slot
    rw [List.findSome?_isSome_iff]
    refine ⟨i, List.mem_range.mpr low, ?_⟩
    rw [here]
    simpa [List.isSome_head?] using filled

theorem enterHasEvents (linked : WellLinked k) {Idle : Bool → Int → Prop} (good : Ahead Idle false k)
    (some : k.hasEvents = true) : k.enter.hasEvents = true := by
  cases flush : k.mustFlushDelayedQueue with
  | false => rwa [enterSame flush]
  | true =>
      rw [hasEventsIff] at some ⊢
      exact .inl ((enterFlushed linked good flush).count some)

omit [DecidableEq ε] in
theorem finishReturn (positive : 0 ≤ k.period) (time : Int)
    (apart : k.nbEnqueuedToCycle = 0 → ∀ e ∈ k.delayedQueue, k.cycles < k.cycleOf e) :
    0 < (k.finish time).2 ↔ (k.finish time).1.period ≠ 0 ∧ (k.finish time).1.hasEvents = true := by
  rw [hasEventsIff]
  obtain ⟨used, turned⟩ | ⟨none, stopped⟩ := finishCases k time
  · rw [turned]
    simp only [used, ne_eq, not_false_eq_true, true_or, and_true]
    omega
  · rw [stopped]
    simp only [none, ne_eq, not_true_eq_false, false_or]
    unfold Clock.stopReturn
    cases queue : k.delayedQueue with
    | nil => simp
    | cons e rest =>
        have gap := apart none e (queue ▸ List.mem_cons_self)
        simp only [reduceCtorEq, not_false_eq_true, and_true]
        constructor
        · intro later gated
          simp [gated] at later
        · intro ticking
          exact Int.mul_pos (by omega) (by omega)

end Events

section Operations

variable {ε κ : Type} [DecidableEq ε] [DecidableEq κ] {s : System ε κ} {e : ε} {n : Int}

def Listed (s : System ε κ) : Prop :=
  (s.engine.client .clock).isEnqueued = true ↔ s.clock.period ≠ 0 ∧ s.clock.hasEvents = true

theorem enqueueListed (idle : s.running = false) (listed : Listed s) : Listed (s.enqueue e n) := by
  obtain ⟨clock, engine, _⟩ := enqueueParts s e n
  have some : (s.enqueue e n).clock.hasEvents = true := by
    rw [clock, idle, enqueueSlow (by simp), hasEventsIff]
    exact .inr (Chain.insertNeNil _ _ _ _)
  have period : (s.enqueue e n).clock.period = s.clock.period := by rw [clock, enqueuePeriod]
  unfold Listed at listed ⊢
  rw [some, period, engine]
  by_cases gated : s.clock.period = 0
  · rw [if_pos (.inr gated), listed]
    simp [gated]
  · rw [if_neg (by simp [idle, gated])]
    simp [gated, (TimeEngine.enqueueSelf (t := n * s.clock.period) idle).1]

theorem cancelListed (linked : WellLinked s.clock) (idle : s.running = false) (listed : Listed s) :
    Listed (s.cancel e) := by
  obtain ⟨clock, _, engine⟩ := cancelParts s e
  cases flag : (s.clock.event e).enqueued with
  | false => rwa [cancelUnflagged flag]
  | true =>
      unfold Listed at listed ⊢
      rw [engine, clock, (cancelClockFrame s.clock e).2.1]
      cases left : (s.clock.cancel e).hasEvents with
      | true =>
          rw [if_pos (.inr (.inl rfl)), listed, pendingHasEvents linked flag]
      | false =>
          rw [if_neg (by simp [flag, idle])]
          simp [TimeEngine.dequeueFlag]

omit [DecidableEq ε] [DecidableEq κ] in
theorem syncListed (listed : Listed s) : Listed s.sync := by
  obtain ⟨queue, _, count, _⟩ := syncFrame s.clock s.running s.engine.time
  unfold Listed System.sync Clock.hasEvents at *
  rw [queue, count, syncPeriod]
  exact listed

theorem reenqueueListed (linked : WellLinked s.clock) (idle : s.running = false) (listed : Listed s) :
    Listed (s.reenqueue e n) := by
  rw [reenqueueSplit]
  split
  · exact listed
  · exact enqueueListed ((cancelFrame s e).1.trans idle) (cancelListed linked idle listed)

theorem periodOfNeZero {frequency : Int} (positive : 0 < frequency) (small : frequency ≤ 2147483647) :
    periodOf frequency ≠ 0 := by
  have : 465 ≤ periodOf frequency := (Int.le_ediv_iff_mul_le positive).mpr (by omega)
  omega

theorem applyFrequencyListed {f : Int} (sound : Sound s) (idle : s.running = false) (listed : Listed s)
    (small : f ≤ 2147483647) : Listed (s.applyFrequency f) := by
  have positive := sound.period
  have idleAway : ((s.engine.dequeue .clock).client .clock).running = false :=
    (TimeEngine.dequeueClient _).1.trans idle
  unfold Listed at listed ⊢
  rw [(applyFrequencyClock s f).1]
  have events : (s.clock.applyFrequency f).hasEvents = s.clock.hasEvents := by
    unfold Clock.applyFrequency
    split
    · rfl
    · split <;> rfl
  have period : 0 < f → (s.clock.applyFrequency f).period ≠ 0 := by
    intro ticking
    unfold Clock.applyFrequency
    rw [if_pos ticking]
    exact periodOfNeZero ticking small
  rw [events]
  obtain ⟨ticking, flag, _, moved⟩ | ⟨ticking, _, some, e, _, moved⟩ | ⟨off, low, moved⟩ | ⟨_, same⟩ :=
    applyFrequencyEngine idle f
  · rw [moved, (wakeInSelf idleAway TimeEngine.dequeueFlag).1]
    simp [period ticking, (listed.mp flag).2]
  · rw [moved, (wakeInSelf idleAway TimeEngine.dequeueFlag).1]
    simp [period ticking, some]
  · rw [moved, TimeEngine.dequeueFlag]
    simp only [Bool.false_eq_true, ne_eq, false_iff, not_and, Bool.not_eq_true]
    intro nonzero
    by_contra some
    simp only [Bool.not_eq_false] at some
    by_cases ticking : 0 < f
    · obtain ⟨late, none⟩ := off ticking
      by_cases gated : s.clock.period = 0
      · have next := nextEventSome sound.linked some
        rw [none gated some] at next
        contradiction
      · have := late (listed.mpr ⟨gated, some⟩)
        omega
    · refine nonzero ?_
      unfold Clock.applyFrequency
      rw [if_neg ticking, if_pos (by omega)]
  · have clock : s.clock.applyFrequency f = s.clock := by rw [← (applyFrequencyClock s f).1, same]
    rw [same, clock]
    exact listed

theorem performListed (sound : Sound s) (idle : s.running = false) (listed : Listed s) (o : Op ε)
    (legal : o.legal s.clock = true) : Listed (s.perform o) := by
  cases o with
  | enqueue e n => exact enqueueListed idle listed
  | enqueueExt e n => exact enqueueListed (s := s.sync) idle (syncListed listed)
  | reenqueue e n => exact reenqueueListed sound.linked idle listed
  | reenqueueExt e n =>
      exact reenqueueListed (s := s.sync) (syncWellLinked sound.linked) idle (syncListed listed)
  | cancel e => exact cancelListed sound.linked idle listed
  | sync => exact syncListed listed
  | applyFrequency f =>
      simp only [Op.legal, decide_eq_true_eq] at legal
      exact applyFrequencyListed sound idle listed legal.2

end Operations

section Runs

variable {ε κ : Type} [DecidableEq ε] [DecidableEq κ] {s next : System ε κ}

structure Awake (s : System ε κ) : Prop where
  listed : s.running = false → Listed s
  entry : s.control = .entry → s.clock.hasEvents = true

omit [DecidableEq ε] [DecidableEq κ] in
theorem awakeOf {engine : Engine (ClientId κ)} {clock : Clock ε} {c : TimeEngine.Control (ClientId κ)}
    (wanted : c = .executing .clock → clock.hasEvents = true)
    (away : c ≠ .executing .clock →
      ((engine.client .clock).isEnqueued = true ↔ clock.period ≠ 0 ∧ clock.hasEvents = true))
    (placed : Placed engine c) : Awake (⟨engine, clock, .of c⟩ : System ε κ) where
  listed := by
    intro idle
    refine away (fun now => ?_)
    rw [System.running, (placed.owned .clock).mpr now] at idle
    contradiction
  entry := fun now => wanted ((entryOf c).mp now)

theorem execLoopAwake (placed : Placed s.engine (.executing .clock)) (positive : 0 ≤ s.clock.period)
    (apart : s.clock.nbEnqueuedToCycle = 0 → ∀ e ∈ s.clock.delayedQueue, s.clock.cycles < s.clock.cycleOf e) :
    Awake s.execLoop := by
  obtain ⟨e, rest, _, popped⟩ | ⟨_, ended⟩ := execLoopCases s
  · rw [popped]
    refine ⟨fun idle => ?_, by simp⟩
    have running : (s.engine.client .clock).running = true := (placed.owned .clock).mpr rfl
    change (s.engine.client .clock).running = false at idle
    simp [running] at idle
  · rw [ended]
    have wanted := finishReturn positive s.engine.time apart
    have after := TimeEngine.endExecPlaced placed (s.clock.finish s.engine.time).2
    obtain ⟨later, now, _⟩ | ⟨away, flag, _⟩ := TimeEngine.endExecSelf placed (s.clock.finish s.engine.time).2
    · exact awakeOf (fun _ => (wanted.mp later).2) (fun away => absurd now away) after
    · refine awakeOf (fun now => absurd now away) (fun _ => ?_) after
      rw [flag, decide_eq_true_eq]
      exact wanted

theorem stepAwake {a : Action ε κ} (sound : Sound s) (ahead : Ahead aheadUnlessFlushed s.control.busy s.clock)
    (awake : Awake s) (taken : step s a = some next) : Awake next := by
  have placedNext := stepPlaced sound.placed taken
  cases stepped taken with
  | op o outside legal =>
      have running : (s.perform o).running = s.running := (movedFrame (performMoved s o)).2.2.1 .clock
      refine ⟨fun idle => ?_, fun now => absurd ((performControl s o).symm.trans now) outside⟩
      rw [running] at idle
      exact performListed sound idle (awake.listed idle) o legal
  | timeEnqueue k t outside positive =>
      refine ⟨fun idle => ?_, awake.entry⟩
      have same := TimeEngine.enqueueClientOther (e := s.engine) (i := .other k) (j := .clock) (t := t) (by simp)
      unfold System.running at idle
      unfold Listed
      rw [same] at idle ⊢
      exact awake.listed idle
  | timeDequeue k outside =>
      refine ⟨fun idle => ?_, awake.entry⟩
      have same := TimeEngine.dequeueOther (e := s.engine) (i := .other k) (j := .clock) (by simp)
      unfold System.running at idle
      unfold Listed
      rw [same] at idle ⊢
      exact awake.listed idle
  | request run => exact ⟨awake.listed, awake.entry⟩
  | start idle wanted =>
      have listed := awake.listed ((soundRunning sound (by simp [idle])).trans (by rw [idle]; rfl))
      rw [show (Control.of _ : Control ε κ).engine = _ from controlOf _] at placedNext
      obtain ⟨now, flag, _⟩ | ⟨away, kept⟩ := TimeEngine.takeFirstClient sound.placed.linked .clock
      · exact awakeOf (fun _ => (listed.mp flag).2) (fun away => absurd now away) placedNext
      · refine awakeOf (fun now => absurd now away) (fun _ => ?_) placedNext
        rw [kept]
        exact listed
  | exec entry =>
      have placed := sound.placed
      rw [entry] at placed ahead
      refine execLoopAwake (s := {s with clock := s.clock.enter}) placed ?_ ?_
      · exact le_of_le_of_eq sound.period (enterPeriod _).symm
      · intro none e inside
        rcases enterAhead sound.linked ahead with inside' | ⟨outside, _, fresh⟩
        · exact windowSlots (inside'.window (.inl rfl)) e inside
        · have := outside.idle rfl none e inside fresh
          change s.clock.enter.cycles < s.clock.enter.cycleOf e
          omega
  | callbackReturn e inside =>
      have placed := sound.placed
      rw [inside] at placed ahead
      exact execLoopAwake placed sound.period (fun _ => windowSlots (ahead.window (.inl rfl)))
  | otherReturn k ret inside =>
      have placed := sound.placed
      have listed := awake.listed ((soundRunning sound (by simp [inside])).trans (by rw [inside]; rfl))
      rw [inside] at placed
      rw [show (Control.of _ : Control ε κ).engine = _ from controlOf _] at placedNext
      obtain ⟨now, flag, _⟩ | ⟨away, kept⟩ :=
        TimeEngine.endExecOther (j := ClientId.clock) placed (by simp) ret
      · exact awakeOf (fun _ => (listed.mp flag).2) (fun away => absurd now away) placedNext
      · refine awakeOf (fun now => absurd now away) (fun _ => ?_) placedNext
        rw [kept]
        exact listed

omit [DecidableEq ε] [DecidableEq κ] in
theorem initialAwake (period : Int) : Awake (initial ε κ period) where
  listed := by simp [Listed, initial, TimeEngine.initial, Clock.initial, Clock.hasEvents]
  entry := by simp [initial]

theorem runAwake {trace period} (positive : 0 ≤ period)
    (run : Run step (Allowed aheadUnlessFlushed) (initial ε κ period) trace s) : Awake s := by
  have all : (Sound s ∧ Ahead aheadUnlessFlushed s.control.busy s.clock) ∧ Awake s :=
    Machine.runInvariant
      (P := fun s => (Sound s ∧ Ahead aheadUnlessFlushed s.control.busy s.clock) ∧ Awake s) run
      ⟨⟨initialSound positive, initialAhead period⟩, initialAwake period⟩
      (fun _ _ _ both allowed taken =>
        ⟨⟨stepSound both.1.1 taken, stepAhead aheadUnlessFlushedRule both.1.1 both.1.2 allowed taken⟩,
          stepAwake both.1.1 both.1.2 both.2 taken⟩)
  exact all.2

/- In every state of such a run: outside its `exec` the engine is on the chain exactly when
it ticks and has an event, so no event of a ticking engine is left unscheduled, and every
`exec` is entered with its three assertions true. -/
theorem noLostWakeUp {trace period} (positive : 0 ≤ period)
    (run : Run step (Allowed aheadUnlessFlushed) (initial ε κ period) trace s) :
    (s.running = false →
      (ClientId.clock ∈ s.engine.firstClient ↔ s.clock.period ≠ 0 ∧ s.clock.hasEvents = true)) ∧
    (∀ e, (s.clock.event e).enqueued = true → s.clock.period ≠ 0 →
      s.running = true ∨ ClientId.clock ∈ s.engine.firstClient) ∧
    (s.control = .entry → s.clock.hasEvents = true ∧ s.clock.getNextEvent.isSome = true ∧
      s.clock.enter.getNextEvent.isSome = true) := by
  have sound := runSound positive run
  have ahead := runAhead aheadUnlessFlushedRule positive run
  have awake := runAwake positive run
  have listed : s.running = false →
      (ClientId.clock ∈ s.engine.firstClient ↔ s.clock.period ≠ 0 ∧ s.clock.hasEvents = true) :=
    fun idle => (sound.placed.linked.flag .clock).trans (awake.listed idle)
  refine ⟨listed, ?_, ?_⟩
  · intro e pending ticking
    cases running : s.running with
    | true => exact .inl rfl
    | false => exact .inr ((listed running).mpr ⟨ticking, pendingHasEvents sound.linked pending⟩)
  · intro entry
    have some := awake.entry entry
    rw [entry] at ahead
    exact ⟨some, nextEventSome sound.linked some,
      nextEventSome (enterWellLinked sound.linked) (enterHasEvents sound.linked ahead some)⟩

/- At 100 MHz: event 0 in 50 cycles, event 1 asked for by another client 40 cycles later,
and by then the counter is up to date. -/
def synchronised : List (Action (Fin 2) (Fin 1)) :=
  [.op (.enqueue 0 50), .timeEnqueue 0 400000, .request true, .start, .op (.reenqueueExt 1 20), .otherReturn (-1),
    .exec, .callbackReturn]

theorem noLostWakeUpSynchronised : ∃ trace s,
    Run step (Allowed aheadUnlessFlushed) (initial (Fin 2) (Fin 1) 10000) trace s ∧
    trace.map Prod.fst = synchronised ∧ s.clock.cycles = 51 ∧ (s.clock.event 1).enqueued = true ∧
    (s.running = true ∨ ClientId.clock ∈ s.engine.firstClient) := by
  have done : (Machine.follow step (Allowed aheadUnlessFlushed) (initial (Fin 2) (Fin 1) 10000)
    synchronised).isSome = true := rfl
  obtain ⟨trace, run, labels⟩ := Machine.followRun (Option.some_get done).symm
  exact ⟨trace, _, run, labels, rfl, rfl, (noLostWakeUp (by decide) run).2.1 1 rfl (by show (10000 : Int) ≠ 0; decide)⟩

/- The same with a plain `reenqueue`: event 1 is queued behind event 0, for cycle 60, and
then given cycle 20. After event 0 it is in the past, `exec` returns a negative time, and
the engine is dropped with event 1 pending. -/
def unsynchronised : List (Action (Fin 2) (Fin 1)) :=
  [.op (.enqueue 0 50), .timeEnqueue 0 400000, .request true, .start, .op (.reenqueue 1 20), .otherReturn (-1),
    .exec, .callbackReturn]

theorem wakeUpLost : ∃ trace s,
    Run step Machine.anyStep (initial (Fin 2) (Fin 1) 10000) trace s ∧ trace.map Prod.fst = unsynchronised ∧
    s.control = .waiting ∧ s.running = false ∧ s.clock.period = 10000 ∧ s.clock.hasEvents = true ∧
    (s.clock.event 1).enqueued = true ∧ s.engine.firstClient = [] := by
  have done : (Machine.follow step Machine.anyStep (initial (Fin 2) (Fin 1) 10000) unsynchronised).isSome = true := rfl
  obtain ⟨trace, run, labels⟩ := Machine.followRun (Option.some_get done).symm
  exact ⟨trace, _, run, labels, rfl, rfl, rfl, rfl, rfl, rfl⟩

end Runs

end Gvsoc.ClockEngine
