import Gvsoc.ClockWake
import Gvsoc.ClockCounter

/-! The phase of a clock engine. At a constant period `p` the counter and the engine time
run on one line `time = cycle * p + phase`, whatever the engine is doing: ticking through
its slots, or sleeping until the first delayed event. An event then runs at the time its
cycle has on that line. -/
namespace Gvsoc.ClockEngine
open TimeEngine (Engine Placed Linked Scheduled)
open Machine (Run)

section Wake

variable {ε : Type} {k : Clock ε}

def Clock.wakeCycle (k : Clock ε) : Int :=
  if k.nbEnqueuedToCycle = 0 ∧ k.mustFlushDelayedQueue = true then
    (k.delayedQueue.head?.map k.cycleOf).getD k.cycles
  else k.cycles

theorem wakeUsed (used : k.nbEnqueuedToCycle ≠ 0) : k.wakeCycle = k.cycles := if_neg (fun both => used both.1)

theorem wakeFresh (fresh : k.mustFlushDelayedQueue = false) : k.wakeCycle = k.cycles := if_neg (by simp [fresh])

theorem wakeHead {e : ε} {rest : List ε} (none : k.nbEnqueuedToCycle = 0) (flush : k.mustFlushDelayedQueue = true)
    (queue : k.delayedQueue = e :: rest) : k.wakeCycle = k.cycleOf e := by
  unfold Clock.wakeCycle
  rw [if_pos ⟨none, flush⟩, queue]
  rfl

theorem finishWake (time : Int) (later : 0 < (k.finish time).2) :
    (k.finish time).2 = ((k.finish time).1.wakeCycle - k.cycles) * k.period := by
  obtain ⟨used, turned⟩ | ⟨none, stopped⟩ := finishCases k time
  · have wake : (k.finish time).1.wakeCycle = k.cycles + 1 := by
      rw [turned]
      exact wakeUsed used
    rw [wake, turned, show k.cycles + 1 - k.cycles = 1 by omega, Int.one_mul]
  · cases queue : k.delayedQueue with
    | nil => simp [stopped, Clock.stopReturn, queue] at later
    | cons e rest =>
        have wake : (k.finish time).1.wakeCycle = k.cycleOf e := by
          rw [stopped]
          exact wakeHead none rfl queue
        rw [wake, stopped]
        simp only [Clock.stopReturn, queue]

variable [DecidableEq ε]

theorem enterWake {Idle : Bool → Int → Prop} (linked : WellLinked k) (good : Ahead Idle false k) :
    k.enter.cycles = k.wakeCycle := by
  cases flush : k.mustFlushDelayedQueue with
  | false => rw [enterSame flush, wakeFresh flush]
  | true =>
      have done := enterFlushed linked good flush
      by_cases none : k.nbEnqueuedToCycle = 0
      · rw [done.empty none, Clock.wakeCycle, if_pos ⟨none, flush⟩]
      · rw [done.used none, wakeUsed none]

theorem wakeFirst {e : ε} (linked : WellLinked k) (good : Ahead aheadUnlessFlushed false k)
    (pending : (k.event e).enqueued = true) : k.wakeCycle ≤ k.cycleOf e := by
  by_cases inside : e ∈ k.delayedQueue
  · by_cases none : k.nbEnqueuedToCycle = 0
    · cases flush : k.mustFlushDelayedQueue with
      | false =>
          have gap := good.idle rfl none e inside flush
          rw [wakeFresh flush]
          omega
      | true =>
          cases queue : k.delayedQueue with
          | nil => simp [queue] at inside
          | cons f rest =>
              rw [wakeHead none flush queue]
              exact Chain.sortedHead (queue ▸ good.sorted) e (queue ▸ inside)
    · rw [wakeUsed none]
      exact good.slots none e inside
  · obtain ⟨i, _, slot⟩ := flaggedPlace linked pending inside
    have used : k.nbEnqueuedToCycle ≠ 0 := by
      intro none
      rw [slotsEmpty linked.count none i] at slot
      contradiction
    rw [wakeUsed used, linked.slots i e slot]
    unfold ahead
    omega

end Wake

section Phase

variable {ε κ : Type} [DecidableEq ε] [DecidableEq κ] {s next : System ε κ} {p phase : Int}

structure InPhase (p phase : Int) (s : System ε κ) : Prop where
  callback : ∀ e, s.control = .callback e → s.engine.time = s.clock.cycles * p + phase
  entry : s.control = .entry → s.engine.time = s.clock.wakeCycle * p + phase
  waiting : s.running = false → (s.engine.client .clock).isEnqueued = true →
    s.engine.nextTime .clock = s.clock.wakeCycle * p + phase

omit [DecidableEq κ] in
theorem phaseExists (sound : Sound s) (p : Int) : ∃ phase, InPhase p phase s := by
  cases control : s.control with
  | callback e =>
      have running := soundRunning sound (by simp [control])
      rw [control] at running
      exact ⟨s.engine.time - s.clock.cycles * p, fun _ _ => by omega, by simp [control], by simp [running, Control.busy]⟩
  | entry =>
      have running : s.running = true := (sound.placed.owned .clock).mpr (by rw [control]; rfl)
      exact ⟨s.engine.time - s.clock.wakeCycle * p, by simp [control], fun _ => by omega, by simp [running]⟩
  | waiting =>
      exact ⟨s.engine.nextTime .clock - s.clock.wakeCycle * p, by simp [control], by simp [control], fun _ _ => by omega⟩
  | other k =>
      exact ⟨s.engine.nextTime .clock - s.clock.wakeCycle * p, by simp [control], by simp [control], fun _ _ => by omega⟩

omit [DecidableEq ε] [DecidableEq κ] in
theorem inPhaseOf {engine : Engine (ClientId κ)} {clock : Clock ε} {c : TimeEngine.Control (ClientId κ)}
    (now : c = .executing .clock → engine.time = clock.wakeCycle * p + phase)
    (away : c ≠ .executing .clock → (engine.client .clock).isEnqueued = true →
      engine.nextTime .clock = clock.wakeCycle * p + phase)
    (placed : Placed engine c) : InPhase p phase (⟨engine, clock, .of c⟩ : System ε κ) where
  callback := fun e inside => absurd inside (controlNotCallback c e)
  entry := fun inside => now ((entryOf c).mp inside)
  waiting := by
    intro idle
    refine away (fun now => ?_)
    rw [System.running, (placed.owned .clock).mpr now] at idle
    contradiction

theorem execLoopInPhase (placed : Placed s.engine (.executing .clock)) (period : s.clock.period = p)
    (now : s.engine.time = s.clock.cycles * p + phase) : InPhase p phase s.execLoop := by
  obtain ⟨e, rest, _, popped⟩ | ⟨_, ended⟩ := execLoopCases s
  · rw [popped]
    refine ⟨fun _ _ => now, by simp, fun idle => ?_⟩
    have running : (s.engine.client .clock).running = true := (placed.owned .clock).mpr rfl
    change (s.engine.client .clock).running = false at idle
    simp [running] at idle
  · rw [ended]
    have wake := finishWake (k := s.clock) s.engine.time
    have line : 0 < (s.clock.finish s.engine.time).2 →
        (s.clock.finish s.engine.time).2 + s.engine.time = (s.clock.finish s.engine.time).1.wakeCycle * p + phase := by
      intro later
      rw [wake later, now, period, Int.sub_mul]
      omega
    have after := TimeEngine.endExecPlaced placed (s.clock.finish s.engine.time).2
    obtain ⟨later, now, time⟩ | ⟨away, flag, time⟩ := TimeEngine.endExecSelf placed (s.clock.finish s.engine.time).2
    · exact inPhaseOf (fun _ => time.trans (line later)) (fun away => absurd now away) after
    · refine inPhaseOf (fun now => absurd now away) (fun _ flagged => ?_) after
      have later : 0 < (s.clock.finish s.engine.time).2 := by
        rw [flag] at flagged
        simpa using flagged
      exact (time later).trans (line later)

end Phase

section Share

variable {ε : Type} [DecidableEq ε] {k : Clock ε} {e : ε} {n time : Int}

/- A cancelled event is not the one the next wake-up is for: a flush is not due, or the
slots stay in use, or what the flush will find first has the cycle of the wake-up. -/
def Clock.cancelKeepsWake (k : Clock ε) (e : ε) : Prop :=
  (k.event e).enqueued = false ∨ k.mustFlushDelayedQueue = false ∨
  if e ∈ k.delayedQueue then
    k.nbEnqueuedToCycle ≠ 0 ∨
    ∀ f ∈ (k.delayedQueue.erase e).head?, ∀ g ∈ k.delayedQueue.head?, k.cycleOf f = k.cycleOf g
  else k.nbEnqueuedToCycle ≠ 1 ∨ ∀ f ∈ k.delayedQueue.head?, k.cycleOf f = k.cycles

instance (k : Clock ε) (e : ε) : Decidable (k.cancelKeepsWake e) := inferInstanceAs (Decidable (_ ∨ _ ∨ _))

theorem cancelFlagged (flag : (k.event e).enqueued = true) :
    (k.cancel e).delayedQueue = (k.unlink e).delayedQueue ∧
    (k.cancel e).nbEnqueuedToCycle = (k.unlink e).nbEnqueuedToCycle := by
  unfold Clock.cancel
  rw [if_pos flag]
  exact ⟨rfl, rfl⟩

theorem cancelWake (linked : WellLinked k) (keeps : k.cancelKeepsWake e) (left : (k.cancel e).hasEvents = true) :
    (k.cancel e).wakeCycle = k.wakeCycle := by
  obtain ⟨counter, _, _, _, flushes⟩ := cancelClockFrame k e
  cases flush : k.mustFlushDelayedQueue with
  | false => rw [wakeFresh flush, wakeFresh (flushes.trans flush), counter]
  | true =>
      rw [flush] at flushes
      cases flag : (k.event e).enqueued with
      | false =>
          unfold Clock.cancel
          rw [if_neg (by simp [flag])]
      | true =>
          have keeps := (keeps.resolve_left (by simp [flag])).resolve_left (by simp [flush])
          obtain ⟨queue, number⟩ := cancelFlagged flag
          rw [hasEventsIff, queue, number] at left
          obtain ⟨inside, gone⟩ | ⟨away, i, slot, gone⟩ | ⟨away, nowhere, _⟩ := unlinkCases k e
          · rw [gone] at queue number left
            rw [if_pos inside] at keeps
            by_cases used : k.nbEnqueuedToCycle = 0
            · obtain ⟨f, rest, first⟩ := List.exists_cons_of_ne_nil (left.resolve_left (fun h => h used))
              obtain ⟨g, tail, before⟩ := List.exists_cons_of_ne_nil (List.ne_nil_of_mem inside)
              rw [wakeHead (number.trans used) flushes (queue.trans first), wakeHead used flush before, cancelCycle]
              exact keeps.resolve_left (fun h => h used) f (by simpa using congrArg List.head? first) g (by simp [before])
            · rw [wakeUsed used, wakeUsed (by rwa [number]), counter]
          · rw [gone] at queue number left
            rw [if_neg away] at keeps
            have used : k.nbEnqueuedToCycle ≠ 0 := by
              intro none
              rw [slotsEmpty linked.count none i] at slot
              contradiction
            simp only at queue number left
            by_cases last : k.nbEnqueuedToCycle = 1
            · have none : (k.cancel e).nbEnqueuedToCycle = 0 := by omega
              obtain ⟨f, rest, first⟩ := List.exists_cons_of_ne_nil (left.resolve_left (fun h => h (by omega)))
              rw [wakeHead none flushes (queue.trans first), wakeUsed used, cancelCycle]
              exact keeps.resolve_left (fun h => h last) f (by simp [first])
            · rw [wakeUsed used, wakeUsed (by omega), counter]
          · obtain ⟨i, _, slot⟩ := flaggedPlace linked flag away
            exact absurd slot (nowhere i)

/- Otherwise the flush of the next wake-up finds another cycle than the one it is for. -/
theorem cancelMissesWake (linked : WellLinked k) (misses : ¬k.cancelKeepsWake e) :
    (k.cancel e).hasEvents = true ∧ (k.cancel e).wakeCycle ≠ k.wakeCycle := by
  obtain ⟨_, _, _, _, flushes⟩ := cancelClockFrame k e
  unfold Clock.cancelKeepsWake at misses
  simp only [not_or, Bool.not_eq_false] at misses
  obtain ⟨flag, flush, misses⟩ := misses
  rw [flush] at flushes
  obtain ⟨queue, number⟩ := cancelFlagged flag
  rw [hasEventsIff, queue, number]
  obtain ⟨inside, gone⟩ | ⟨away, i, slot, gone⟩ | ⟨away, nowhere, _⟩ := unlinkCases k e
  · rw [gone] at queue number ⊢
    rw [if_pos inside] at misses
    simp only [not_or, not_not, not_forall] at misses
    obtain ⟨none, f, first, g, head, apart⟩ := misses
    obtain ⟨rest, first⟩ := List.head?_eq_some_iff.mp first
    obtain ⟨tail, head⟩ := List.head?_eq_some_iff.mp head
    refine ⟨.inr (by simp [first]), ?_⟩
    rw [wakeHead (number.trans none) flushes (queue.trans first), wakeHead none flush head, cancelCycle]
    exact apart
  · rw [gone] at queue number ⊢
    rw [if_neg away] at misses
    simp only [not_or, not_not, not_forall] at misses
    obtain ⟨last, f, first, apart⟩ := misses
    obtain ⟨rest, first⟩ := List.head?_eq_some_iff.mp first
    refine ⟨.inr (by simp [first]), ?_⟩
    simp only at queue number
    rw [wakeHead (by omega) flushes (queue.trans first), wakeUsed (by omega), cancelCycle]
    exact apart
  · obtain ⟨i, _, slot⟩ := flaggedPlace linked flag away
    exact absurd slot (nowhere i)

theorem enqueueDelayedWake (fresh : e ∉ k.delayedQueue) (empty : k.nbEnqueuedToCycle = 0) :
    (k.enqueueDelayed e n).wakeCycle =
      ((k.delayedQueue.head?.map k.cycleOf).map (min · (n + k.cycles))).getD (n + k.cycles) := by
  have self : (k.enqueueDelayed e n).cycleOf e = n + k.cycles := by
    unfold Clock.cycleOf
    rw [enqueueDelayedEvent, if_pos rfl]
  have none : (k.enqueueDelayed e n).nbEnqueuedToCycle = 0 := empty
  have shape : (k.enqueueDelayed e n).delayedQueue = Chain.insert k.cycleOf (n + k.cycles) e k.delayedQueue := rfl
  cases queue : k.delayedQueue with
  | nil =>
      rw [queue] at shape
      rw [wakeHead none rfl shape, self]
      rfl
  | cons f rest =>
      have kept : (k.enqueueDelayed e n).cycleOf f = k.cycleOf f :=
        enqueueDelayedCycle fresh f (queue ▸ List.mem_cons_self)
      rw [queue] at shape
      simp only [Chain.insert] at shape
      change _ = min (k.cycleOf f) (n + k.cycles)
      split at shape
      · rename_i early
        rw [wakeHead none rfl shape, kept]
        omega
      · rename_i late
        rw [wakeHead none rfl shape, self]
        omega

theorem enqueueWake (fresh : e ∉ k.delayedQueue) (none : k.nbEnqueuedToCycle = 0) :
    (k.enqueue false time e n).wakeCycle = ((k.delayedQueue.head?.map k.cycleOf).map
      (min · (n + (k.sync false time).cycles))).getD (n + (k.sync false time).cycles) := by
  obtain ⟨queue, _, count, _, _⟩ := syncFrame k false time
  have keys : k.delayedQueue.head?.map ((k.sync false time).setEvent e {k.event e with enqueued := true}).cycleOf =
      k.delayedQueue.head?.map k.cycleOf := by
    refine Option.map_congr (fun f head => ?_)
    rw [setEventCycle, if_neg (ne_of_mem_of_not_mem (List.mem_of_mem_head? head) fresh)]
    exact congrArg Event.cycle (congrFun (syncEvent _ _ _) f)
  rw [enqueueSlow (by simp), ← keys, ← queue]
  refine enqueueDelayedWake ?_ (count.trans none)
  change e ∉ (k.sync false time).delayedQueue
  rwa [queue]

theorem enqueueWakeUsed (used : k.nbEnqueuedToCycle ≠ 0) : (k.enqueue false time e n).wakeCycle = k.cycles := by
  rw [enqueueSlow (by simp), syncSettled (.inr (.inl used))]
  exact wakeUsed used

omit [DecidableEq ε] in
theorem syncWake {running : Bool} (steady : Settled k running time ∨ k.mustFlushDelayedQueue = true)
    (some : k.hasEvents = true) : (k.sync running time).wakeCycle = k.wakeCycle := by
  by_cases settled : Settled k running time
  · rw [syncSettled settled]
  · obtain ⟨_, none, _, _, moved⟩ := syncUnsettled settled
    have flush := steady.resolve_left settled
    have queue := ((hasEventsIff k).mp some).resolve_left (fun h => h none)
    obtain ⟨f, rest, queue⟩ := List.exists_cons_of_ne_nil queue
    rw [wakeHead none flush queue, moved]
    exact wakeHead none flush queue

theorem performCounterRunning (k : Clock ε) (time : Int) (o : Op ε) : (k.perform true time o).cycles = k.cycles := by
  have again : ∀ e n, (k.reenqueue true time e n).cycles = k.cycles := by
    intro e n
    unfold Clock.reenqueue
    split
    · rfl
    · exact (enqueueCounter _ _ _ _ _).trans (cancelClockFrame k e).1
  cases o with
  | enqueue e n => exact enqueueCounter k true time e n
  | enqueueExt e n => exact enqueueCounter k true time e n
  | reenqueue e n => exact again e n
  | reenqueueExt e n => exact again e n
  | cancel e => exact (cancelClockFrame k e).1
  | sync => rfl
  | applyFrequency f =>
      change (k.applyFrequency f).cycles = k.cycles
      unfold Clock.applyFrequency
      split
      · rfl
      · split <;> rfl

end Share

section Operations

variable {ε κ : Type} [DecidableEq ε] [DecidableEq κ] {s : System ε κ} {e : ε} {n p phase : Int}

theorem insideInPhase (inside : s.running = true) (outside : s.control ≠ .entry)
    (good : InPhase p phase s) (o : Op ε) : InPhase p phase (s.perform o) := by
  obtain ⟨time, _, running, _⟩ := movedFrame (performMoved s o)
  have counter : (s.perform o).clock.cycles = s.clock.cycles := by
    rw [performClock, inside]
    exact performCounterRunning _ _ _
  refine ⟨fun f now => ?_, fun now => absurd ((performControl s o).symm.trans now) outside, fun idle => ?_⟩
  · rw [time, counter]
    exact good.callback f ((performControl s o).symm.trans now)
  · unfold System.running at idle inside
    rw [running, inside] at idle
    contradiction

omit [DecidableEq κ] in
theorem outsideInPhase {next : System ε κ} (sound : Sound s) (outside : s.control ≠ .entry)
    (idle : s.running = false) (control : next.control = s.control)
    (waiting : (next.engine.client .clock).isEnqueued = true →
      next.engine.nextTime .clock = next.clock.wakeCycle * p + phase) : InPhase p phase next where
  callback := by
    intro e now
    rw [soundRunning sound outside, ← control, now] at idle
    contradiction
  entry := fun now => absurd (control.symm.trans now) outside
  waiting := fun _ => waiting

theorem cancelInPhase (sound : Sound s) (outside : s.control ≠ .entry) (idle : s.running = false)
    (good : InPhase p phase s) (keeps : s.clock.cancelKeepsWake e) : InPhase p phase (s.cancel e) := by
  obtain ⟨clock, control, engine⟩ := cancelParts s e
  by_cases left : (s.clock.event e).enqueued = false ∨ (s.clock.cancel e).hasEvents = true ∨ s.running = true
  · refine outsideInPhase sound outside idle control (fun flag => ?_)
    rw [engine, if_pos left] at flag ⊢
    rw [clock, good.waiting idle flag]
    rcases left with clear | left | running
    · unfold Clock.cancel
      rw [if_neg (by simp [clear])]
    · rw [cancelWake sound.linked keeps left]
    · simp [idle] at running
  · refine outsideInPhase sound outside idle control (fun flag => ?_)
    rw [engine, if_neg left, TimeEngine.dequeueFlag] at flag
    contradiction

omit [DecidableEq κ] in
theorem syncInPhase (sound : Sound s) (outside : s.control ≠ .entry) (idle : s.running = false) (listed : Listed s)
    (good : InPhase p phase s)
    (steady : Settled s.clock s.running s.engine.time ∨ s.clock.mustFlushDelayedQueue = true) :
    InPhase p phase s.sync := by
  refine outsideInPhase sound outside idle rfl (fun flag => ?_)
  change s.engine.nextTime .clock = (s.clock.sync s.running s.engine.time).wakeCycle * p + phase
  rw [good.waiting idle flag, syncWake steady (listed.mp flag).2]

/- An event from outside is on the line: the wake-up stays and nothing comes before it, or
the current time is a cycle of the phase. -/
def EnqueueFits (p phase : Int) (s : System ε κ) (n : Int) : Prop :=
  ((s.engine.client .clock).isEnqueued = true ∧ s.engine.nextTime .clock ≤ s.engine.time + n * p ∧
    (s.clock.nbEnqueuedToCycle = 0 → s.clock.mustFlushDelayedQueue = true ∧
      s.clock.wakeCycle ≤ (s.clock.sync false s.engine.time).cycles + n)) ∨
  (s.clock.nbEnqueuedToCycle = 0 ∧ s.clock.mustFlushDelayedQueue = true ∧
    s.engine.time = (s.clock.sync false s.engine.time).cycles * p + phase)

theorem enqueueLine {head counter next time : Int} (positive : 0 < p) (aim : next = head * p + phase)
    (line : time = counter * p + phase) :
    (if next ≤ time + n * p then next else time + n * p) = min head (n + counter) * p + phase := by
  have order : next ≤ time + n * p ↔ head ≤ n + counter := by
    constructor
    · intro early
      refine Int.le_of_mul_le_mul_right ?_ positive
      rw [Int.add_mul]
      omega
    · intro early
      have := Int.mul_le_mul_of_nonneg_right early (Int.le_of_lt positive)
      rw [Int.add_mul] at this
      omega
  by_cases early : head ≤ n + counter
  · rw [if_pos (order.mpr early), Int.min_eq_left early, aim]
  · rw [if_neg (fun h => early (order.mp h)), Int.min_eq_right (by omega), line, Int.add_mul]
    omega

theorem enqueueInPhase (sound : Sound s) (outside : s.control ≠ .entry) (idle : s.running = false)
    (listed : Listed s) (period : s.clock.period = p) (positive : 0 < p) (good : InPhase p phase s)
    (clear : (s.clock.event e).enqueued = false) (fits : EnqueueFits p phase s n) :
    InPhase p phase (s.enqueue e n) := by
  obtain ⟨clock, engine, control⟩ := enqueueParts s e n
  have fresh : e ∉ s.clock.delayedQueue := unflaggedAway sound.linked clear
  refine outsideInPhase sound outside idle control (fun _ => ?_)
  rw [engine, if_neg (by simp [idle]; omega), period, (TimeEngine.enqueueSelf idle).2, clock, idle]
  by_cases none : s.clock.nbEnqueuedToCycle = 0
  · rw [enqueueWake fresh none]
    cases before : s.clock.delayedQueue with
    | nil =>
        have off : ¬(s.engine.client .clock).isEnqueued = true := by
          intro flag
          simpa [none, before] using (hasEventsIff _).mp (listed.mp flag).2
        obtain ⟨_, _, line⟩ := fits.resolve_left (fun h => off h.1)
        rw [if_neg (fun both => off both.1)]
        change s.engine.time + n * p = (n + (s.clock.sync false s.engine.time).cycles) * p + phase
        rw [Int.add_mul]
        omega
    | cons f rest =>
        have on : (s.engine.client .clock).isEnqueued = true :=
          listed.mpr ⟨by omega, (hasEventsIff _).mpr (.inr (by simp [before]))⟩
        have aim := good.waiting idle on
        simp only [on, true_and, List.head?_cons, Option.map_some, Option.getD_some]
        rcases fits with ⟨_, early, low⟩ | ⟨_, flush, line⟩
        · obtain ⟨flush, low⟩ := low none
          rw [wakeHead none flush before] at aim low
          rw [if_pos early, aim, Int.min_eq_left (by omega)]
        · rw [wakeHead none flush before] at aim
          exact enqueueLine positive aim line
  · obtain ⟨on, early, _⟩ := fits.resolve_right (fun h => none h.1)
    rw [if_pos ⟨on, early⟩, good.waiting idle on, wakeUsed none, enqueueWakeUsed none]

theorem enqueueExtSame (positive : 0 ≤ s.clock.period) : s.enqueueExt e n = s.enqueue e n := by
  obtain ⟨clock, engine, control⟩ := enqueueParts s e n
  obtain ⟨clock', engine', control'⟩ := enqueueParts s.sync e n
  have synced : s.sync.clock.enqueue s.sync.running s.sync.engine.time e n =
      s.clock.enqueue s.running s.engine.time e n := enqueueSynced positive
  have period : s.sync.clock.period = s.clock.period := syncPeriod _
  have running : s.sync.running = s.running := rfl
  have before : s.sync.engine = s.engine := rfl
  have who : s.sync.control = s.control := rfl
  rw [synced, ← clock] at clock'
  rw [period, running, before, ← engine] at engine'
  rw [who, ← control] at control'
  unfold System.enqueueExt
  cases h : s.sync.enqueue e n
  cases h' : s.enqueue e n
  rw [h, h'] at clock' engine' control'
  simp only at clock' engine' control'
  rw [clock', engine', control']

end Operations

section Ready

variable {ε κ : Type} [DecidableEq ε] [DecidableEq κ] {s next : System ε κ} {p phase : Int}

def Action.changesFrequency : Action ε κ → Bool
  | .op (.applyFrequency _) => true
  | _ => false

structure Ready (p : Int) (s : System ε κ) : Prop where
  sound : Sound s
  ahead : Ahead aheadUnlessFlushed s.control.busy s.clock
  awake : Awake s
  scheduled : Scheduled s.engine
  period : s.clock.period = p

theorem enqueueKeepsSchedule {e : ε} {n : Int} (linked : Linked s.engine) (sched : Scheduled s.engine)
    (ticking : 0 ≤ s.clock.period) (low : 0 ≤ n) : Scheduled (s.enqueue e n).engine := by
  rw [(enqueueParts s e n).2.1]
  split
  · exact sched
  · exact TimeEngine.enqueueScheduled linked sched (Int.mul_nonneg low ticking)

theorem cancelKeepsSchedule {e : ε} (sched : Scheduled s.engine) : Scheduled (s.cancel e).engine := by
  rw [(cancelParts s e).2.2]
  split
  · exact sched
  · exact TimeEngine.dequeueScheduled sched

theorem reenqueueKeepsSchedule {e : ε} {n : Int} (linked : Linked s.engine) (sched : Scheduled s.engine)
    (ticking : 0 ≤ s.clock.period) (low : 0 ≤ n) : Scheduled (s.reenqueue e n).engine := by
  rw [reenqueueSplit]
  split
  · exact sched
  · refine enqueueKeepsSchedule (movedLinked linked (cancelMoved .same)) (cancelKeepsSchedule sched) ?_ low
    rw [(cancelParts s e).1, (cancelClockFrame _ e).2.1]
    exact ticking

theorem performKeepsSchedule (linked : Linked s.engine) (sched : Scheduled s.engine) (ticking : 0 ≤ s.clock.period)
    (o : Op ε) (legal : o.legal s.clock = true) (steady : (Action.op o : Action ε κ).changesFrequency = false) :
    Scheduled (s.perform o).engine := by
  have synced : 0 ≤ s.sync.clock.period := le_of_le_of_eq ticking (syncPeriod _).symm
  cases o with
  | enqueue e n =>
      simp only [Op.legal, Bool.and_eq_true, decide_eq_true_eq] at legal
      exact enqueueKeepsSchedule linked sched ticking legal.2
  | enqueueExt e n =>
      simp only [Op.legal, Bool.and_eq_true, decide_eq_true_eq] at legal
      exact enqueueKeepsSchedule (s := s.sync) linked sched synced legal.2
  | reenqueue e n => exact reenqueueKeepsSchedule linked sched ticking (by simpa [Op.legal] using legal)
  | reenqueueExt e n =>
      exact reenqueueKeepsSchedule (s := s.sync) linked sched synced (by simpa [Op.legal] using legal)
  | cancel e => exact cancelKeepsSchedule sched
  | sync => exact sched
  | applyFrequency f => simp [Action.changesFrequency] at steady

theorem execLoopSchedule (placed : Placed s.engine (.executing .clock)) (sched : Scheduled s.engine) :
    Scheduled s.execLoop.engine ∧ s.engine.time ≤ s.execLoop.engine.time := by
  obtain ⟨e, rest, _, popped⟩ | ⟨_, ended⟩ := execLoopCases s
  · rw [popped]
    exact ⟨sched, le_refl _⟩
  · rw [ended]
    obtain ⟨good, later⟩ := TimeEngine.endExecGood ⟨placed, sched⟩ (s.clock.finish s.engine.time).2
    exact ⟨good.scheduled, later⟩

theorem stepSchedule {a : Action ε κ} (sound : Sound s) (sched : Scheduled s.engine)
    (steady : a.changesFrequency = false) (taken : step s a = some next) :
    Scheduled next.engine ∧ s.engine.time ≤ next.engine.time := by
  have placed := sound.placed
  cases stepped taken with
  | op o outside legal =>
      exact ⟨performKeepsSchedule placed.linked sched sound.period o legal steady,
        le_of_eq (movedFrame (performMoved s o)).1.symm⟩
  | timeEnqueue k t outside positive =>
      exact ⟨TimeEngine.enqueueScheduled placed.linked sched positive, le_of_eq TimeEngine.enqueueTime.symm⟩
  | timeDequeue k outside => exact ⟨TimeEngine.dequeueScheduled sched, le_of_eq TimeEngine.dequeueTime.symm⟩
  | request run => exact ⟨⟨sched.sorted, sched.future⟩, le_refl _⟩
  | start idle wanted => exact TimeEngine.takeFirstScheduled placed.linked sched
  | exec entry =>
      rw [entry] at placed
      exact execLoopSchedule (s := {s with clock := s.clock.enter}) placed sched
  | callbackReturn e inside =>
      rw [inside] at placed
      exact execLoopSchedule placed sched
  | otherReturn k ret inside =>
      rw [inside] at placed
      obtain ⟨good, later⟩ := TimeEngine.endExecGood ⟨placed, sched⟩ ret
      exact ⟨good.scheduled, later⟩

theorem stepSamePeriod {a : Action ε κ} (steady : a.changesFrequency = false) (taken : step s a = some next) :
    next.clock.period = s.clock.period := by
  cases stepped taken with
  | op o outside legal =>
      rw [performClock, performPeriod]
      cases o with
      | applyFrequency f => simp [Action.changesFrequency] at steady
      | _ => rfl
  | exec entry => exact (execLoopPeriod _).trans (enterPeriod _)
  | callbackReturn e inside => exact execLoopPeriod s
  | timeEnqueue | timeDequeue | request | start | otherReturn => rfl

theorem stepReady {a : Action ε κ} (ready : Ready p s) (steady : a.changesFrequency = false)
    (allowed : Allowed aheadUnlessFlushed s a) (taken : step s a = some next) : Ready p next where
  sound := stepSound ready.sound taken
  ahead := stepAhead aheadUnlessFlushedRule ready.sound ready.ahead allowed taken
  awake := stepAwake ready.sound ready.ahead ready.awake taken
  scheduled := (stepSchedule ready.sound ready.scheduled steady taken).1
  period := (stepSamePeriod steady taken).trans ready.period

omit [DecidableEq κ] in
theorem initialReady (positive : 0 ≤ p) : Ready p (initial ε κ p) :=
  ⟨initialSound positive, initialAhead p, initialAwake p, TimeEngine.initialGood.scheduled, rfl⟩

theorem quietInPhase {a : Action ε κ} (ready : Ready p s) (good : InPhase p phase s)
    (quiet : ∀ o, a ≠ .op o) (taken : step s a = some next) : InPhase p phase next := by
  have sound := ready.sound
  have placed := sound.placed
  have placedNext := stepPlaced sound.placed taken
  have ahead := ready.ahead
  cases stepped taken with
  | op o outside legal => exact absurd rfl (quiet o)
  | timeEnqueue k t outside positive =>
      have same := TimeEngine.enqueueClientOther (e := s.engine) (i := .other k) (j := .clock) (t := t) (by simp)
      refine ⟨fun e now => ?_, fun now => absurd now outside, fun idle flag => ?_⟩
      · exact (TimeEngine.enqueueTime).trans (good.callback e now)
      · unfold System.running at idle
        unfold Engine.nextTime
        rw [same] at idle flag ⊢
        exact good.waiting idle flag
  | timeDequeue k outside =>
      have same := TimeEngine.dequeueOther (e := s.engine) (i := .other k) (j := .clock) (by simp)
      refine ⟨fun e now => ?_, fun now => absurd now outside, fun idle flag => ?_⟩
      · exact (TimeEngine.dequeueTime).trans (good.callback e now)
      · unfold System.running at idle
        unfold Engine.nextTime
        rw [same] at idle flag ⊢
        exact good.waiting idle flag
  | request run => exact ⟨good.callback, good.entry, good.waiting⟩
  | start waiting wanted =>
      have idle : s.running = false := (soundRunning sound (by simp [waiting])).trans (by rw [waiting]; rfl)
      rw [show (Control.of _ : Control ε κ).engine = _ from controlOf _] at placedNext
      obtain ⟨now, flag, time⟩ | ⟨away, kept⟩ := TimeEngine.takeFirstClient placed.linked .clock
      · exact inPhaseOf (fun _ => time.trans (good.waiting idle flag)) (fun away => absurd now away) placedNext
      · refine inPhaseOf (fun now => absurd now away) (fun _ flag => ?_) placedNext
        unfold Engine.nextTime
        rw [kept] at flag ⊢
        exact good.waiting idle flag
  | exec entry =>
      rw [entry] at placed ahead
      refine execLoopInPhase (s := {s with clock := s.clock.enter}) placed ?_ ?_
      · exact (enterPeriod _).trans ready.period
      · change s.engine.time = s.clock.enter.cycles * p + phase
        rw [enterWake sound.linked ahead]
        exact good.entry entry
  | callbackReturn e inside =>
      rw [inside] at placed
      exact execLoopInPhase placed ready.period (good.callback e inside)
  | otherReturn k ret inside =>
      have idle : s.running = false := (soundRunning sound (by simp [inside])).trans (by rw [inside]; rfl)
      rw [inside] at placed
      rw [show (Control.of _ : Control ε κ).engine = _ from controlOf _] at placedNext
      obtain ⟨now, flag, time⟩ | ⟨away, kept⟩ := TimeEngine.endExecOther (j := ClientId.clock) placed (by simp) ret
      · exact inPhaseOf (fun _ => time.trans (good.waiting idle flag)) (fun away => absurd now away) placedNext
      · refine inPhaseOf (fun now => absurd now away) (fun _ flag => ?_) placedNext
        unfold Engine.nextTime
        rw [kept] at flag ⊢
        exact good.waiting idle flag

end Ready

end Gvsoc.ClockEngine
