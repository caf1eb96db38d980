import Gvsoc.ClockDelivery

/-! The delayed queue stays ahead of the counter. While the slots are in use the ring turns
one slot a cycle, and a flush on each wrap must not come too late for any delayed event:
after a flush they are all a full window away. With empty slots the counter is moved by
`update`, and how far it may go is a parameter here (`Idle`), because what follows from
going too far differs: a lost wake-up, or a counter that goes back. -/
namespace Gvsoc.ClockEngine

/- What is asked of the distance to a delayed event while the slots are empty; the flag is
`must_flush_delayed_queue`. -/
structure IdleRule (Idle : Bool → Int → Prop) : Prop where
  positive : ∀ flush gap, 1 ≤ gap → Idle flush gap
  flushed : ∀ gap, 0 ≤ gap → Idle true gap
  weaken : ∀ flush gap, Idle flush gap → Idle true gap

variable {ε : Type}

def Window (k : Clock ε) : Prop :=
  ∀ e ∈ k.delayedQueue, k.cycles + 32 - k.currentCycle.val ≤ k.cycleOf e

/- `busy` is the time inside a callback, after the flush of that `exec`. -/
structure Ahead (Idle : Bool → Int → Prop) (busy : Bool) (k : Clock ε) : Prop where
  sorted : Chain.Sorted k.cycleOf k.delayedQueue
  window : busy = true ∨ (k.nbEnqueuedToCycle ≠ 0 ∧ k.mustFlushDelayedQueue = false) → Window k
  slots : k.nbEnqueuedToCycle ≠ 0 → ∀ e ∈ k.delayedQueue, k.cycles ≤ k.cycleOf e
  idle : busy = false → k.nbEnqueuedToCycle = 0 →
    ∀ e ∈ k.delayedQueue, Idle k.mustFlushDelayedQueue (k.cycleOf e - k.cycles)

def Clock.elapsed (k : Clock ε) (time : Int) : Int := (time - k.stopTime + k.period - 1).tdiv k.period

def Settled (k : Clock ε) (running : Bool) (time : Int) : Prop :=
  running = true ∨ k.nbEnqueuedToCycle ≠ 0 ∨ k.period = 0 ∨ time ≤ k.stopTime

instance (k : Clock ε) (running : Bool) (time : Int) : Decidable (Settled k running time) :=
  inferInstanceAs (Decidable (_ ∨ _ ∨ _ ∨ _))

def ResyncOk (Idle : Bool → Int → Prop) (flush : Bool) (k : Clock ε) (running : Bool) (time : Int) : Prop :=
  Settled k running time ∨ ∀ e ∈ k.delayedQueue, Idle flush (k.cycleOf e - (k.cycles + k.elapsed time))

/- `reenqueue` returns at once: the event comes early enough as it is. -/
def Clock.keepsEarlier (k : Clock ε) (e : ε) (n : Int) : Bool :=
  (k.event e).enqueued && decide ((k.event e).cycle ≤ k.cycles + n)

variable [DecidableEq ε]

/- Otherwise `reenqueue` writes the cycle counted from before the `sync` of its `enqueue`,
which must still be ahead, and no delayed event may lie between it and the cycle the event
was queued with. -/
def ReenqueueOk (Idle : Bool → Int → Prop) (k : Clock ε) (running : Bool) (time : Int) (e : ε) (n : Int) : Prop :=
  k.keepsEarlier e n = true ∨ Settled (k.cancel e) running time ∨
  (Idle true (n - k.elapsed time) ∧ ∀ f ∈ (k.cancel e).delayedQueue,
    Idle true (k.cycleOf f - (k.cycles + k.elapsed time)) ∧
    (k.cycleOf f ≤ k.cycles + n ∨ k.cycles + n + k.elapsed time ≤ k.cycleOf f))

def OpOk (Idle : Bool → Int → Prop) (k : Clock ε) (running : Bool) (time : Int) : Op ε → Prop
  | .enqueue _ _ => ResyncOk Idle true k running time
  | .enqueueExt _ _ => ResyncOk Idle true k running time
  | .reenqueue e n => ReenqueueOk Idle k running time e n
  | .reenqueueExt e n => ResyncOk Idle k.mustFlushDelayedQueue k running time ∧
      ReenqueueOk Idle (k.sync running time) running time e n
  | .sync => ResyncOk Idle k.mustFlushDelayedQueue k running time
  | .cancel _ => True
  | .applyFrequency _ => True

section Share

variable {Idle : Bool → Int → Prop} {busy running : Bool} {k : Clock ε} {e f : ε} {n time : Int}

omit [DecidableEq ε] in
theorem syncSettled (none : Settled k running time) : k.sync running time = k := by
  obtain ⟨_, same⟩ | ⟨idle, empty, ticking, elapsed, _⟩ := syncCases k running time
  · exact same
  · rcases none with h | h | h | h
    · simp [idle] at h
    · exact absurd empty h
    · exact absurd h ticking
    · omega

omit [DecidableEq ε] in
theorem syncUnsettled (some : ¬Settled k running time) :
    running = false ∧ k.nbEnqueuedToCycle = 0 ∧ k.period ≠ 0 ∧ k.stopTime < time ∧
    k.sync running time = {k with
      stopTime := k.stopTime + k.elapsed time * k.period, cycles := k.cycles + k.elapsed time} := by
  obtain ⟨none, _⟩ | moved := syncCases k running time
  · exact absurd none some
  · exact moved

omit [DecidableEq ε] in
theorem syncFrame (k : Clock ε) (running : Bool) (time : Int) :
    (k.sync running time).delayedQueue = k.delayedQueue ∧ (k.sync running time).eventQueue = k.eventQueue ∧
    (k.sync running time).nbEnqueuedToCycle = k.nbEnqueuedToCycle ∧
    (k.sync running time).currentCycle = k.currentCycle ∧
    (k.sync running time).mustFlushDelayedQueue = k.mustFlushDelayedQueue := by
  by_cases none : Settled k running time
  · simp only [syncSettled none, and_self]
  · simp only [(syncUnsettled none).2.2.2.2, and_self]

theorem syncSetEvent (k : Clock ε) (e : ε) (v : Event) (running : Bool) (time : Int) :
    (k.setEvent e v).sync running time = (k.sync running time).setEvent e v := by
  by_cases none : Settled k running time
  · rw [syncSettled none]
    exact syncSettled none
  · have same : ¬Settled (k.setEvent e v) running time := none
    rw [(syncUnsettled none).2.2.2.2, (syncUnsettled same).2.2.2.2]
    rfl

theorem enqueueSlow (slow : ¬(running = true ∧ n < 32)) : k.enqueue running time e n =
    ((k.sync running time).setEvent e {k.event e with enqueued := true}).enqueueDelayed e n := by
  rw [enqueueOtherwise slow, syncSetEvent]

omit [DecidableEq ε] in
theorem cyclePositive (k : Clock ε) : (k.currentCycle.val : Int) < 32 := by
  have := k.currentCycle.isLt
  omega

omit [DecidableEq ε] in
theorem windowSlots (far : Window k) : ∀ e ∈ k.delayedQueue, k.cycles < k.cycleOf e := by
  intro e inside
  have := far e inside
  have := cyclePositive k
  omega

omit [DecidableEq ε] in
theorem aheadCongr {j : Clock ε} (rule : IdleRule Idle) (good : Ahead Idle busy k)
    (queue : j.delayedQueue.Sublist k.delayedQueue) (keys : ∀ e ∈ k.delayedQueue, j.cycleOf e = k.cycleOf e)
    (counter : j.cycles = k.cycles) (position : j.currentCycle = k.currentCycle)
    (count : k.nbEnqueuedToCycle = 0 → busy = false → j.nbEnqueuedToCycle = 0)
    (flush : j.mustFlushDelayedQueue = k.mustFlushDelayedQueue) : Ahead Idle busy j := by
  have far : Window k → Window j := by
    intro far e inside
    have inside := queue.subset inside
    rw [counter, position, keys e inside]
    exact far e inside
  refine ⟨List.Pairwise.sublist queue (Chain.sortedCongr keys good.sorted), ?_, ?_, ?_⟩
  · intro when
    refine far (good.window ?_)
    rcases when with inside | ⟨some, fresh⟩
    · exact .inl inside
    · cases busy with
      | true => exact .inl rfl
      | false => exact .inr ⟨fun none => some (count none rfl), flush ▸ fresh⟩
  · intro some e inside
    have inside := queue.subset inside
    rw [counter, keys e inside]
    cases busy with
    | true => exact le_of_lt (windowSlots (good.window (.inl rfl)) e inside)
    | false => exact good.slots (fun none => some (count none rfl)) e inside
  · intro outside none e inside
    have inside := queue.subset inside
    rw [counter, keys e inside, flush]
    by_cases before : k.nbEnqueuedToCycle = 0
    · exact good.idle outside before e inside
    · have low := good.slots before e inside
      cases old : k.mustFlushDelayedQueue with
      | true => exact rule.flushed _ (by omega)
      | false =>
          have := windowSlots (good.window (.inr ⟨before, old⟩)) e inside
          exact rule.positive _ _ (by omega)

omit [DecidableEq ε] in
theorem aheadSync (good : Ahead Idle false k)
    (allowed : ResyncOk Idle k.mustFlushDelayedQueue k running time) : Ahead Idle false (k.sync running time) := by
  by_cases none : Settled k running time
  · rwa [syncSettled none]
  · have bound := allowed.resolve_left none
    obtain ⟨_, empty, _, _, moved⟩ := syncUnsettled none
    rw [moved]
    refine ⟨good.sorted, ?_, fun some => absurd empty some, fun _ _ => bound⟩
    rintro (inside | ⟨some, _⟩)
    · contradiction
    · exact absurd empty some

theorem enqueueDelayedCycle (fresh : e ∉ k.delayedQueue) : ∀ f ∈ k.delayedQueue,
    (k.enqueueDelayed e n).cycleOf f = k.cycleOf f := by
  intro f inside
  have other : f ≠ e := fun same => fresh (same ▸ inside)
  unfold Clock.cycleOf
  rw [enqueueDelayedEvent, if_neg other]

theorem enqueueDelayedSorted (fresh : e ∉ k.delayedQueue) (sorted : Chain.Sorted k.cycleOf k.delayedQueue) :
    Chain.Sorted (k.enqueueDelayed e n).cycleOf (k.enqueueDelayed e n).delayedQueue := by
  have keys := enqueueDelayedCycle (n := n) fresh
  change Chain.Sorted _ (Chain.insert k.cycleOf (n + k.cycles) e k.delayedQueue)
  rw [← Chain.insertCongr keys]
  refine Chain.insertSortedAt ?_ (Chain.sortedCongr keys sorted)
  unfold Clock.cycleOf
  rw [enqueueDelayedEvent, if_pos rfl]

theorem enqueueDelayedEach {P : Int → Prop} (fresh : e ∉ k.delayedQueue)
    (old : ∀ f ∈ k.delayedQueue, P (k.cycleOf f)) (new : P (n + k.cycles)) :
    ∀ f ∈ (k.enqueueDelayed e n).delayedQueue, P ((k.enqueueDelayed e n).cycleOf f) := by
  intro f inside
  rcases Chain.memInsert.mp inside with rfl | inside
  · unfold Clock.cycleOf
    rw [enqueueDelayedEvent, if_pos rfl]
    exact new
  · rw [enqueueDelayedCycle fresh f inside]
    exact old f inside

theorem aheadEnqueueOutside (rule : IdleRule Idle) (good : Ahead Idle false k) (fresh : e ∉ k.delayedQueue)
    (low : 0 ≤ n) (allowed : ResyncOk Idle true k running time) :
    Ahead Idle false (((k.sync running time).setEvent e {k.event e with enqueued := true}).enqueueDelayed e n) := by
  obtain ⟨queue, _, count, _, _⟩ := syncFrame k running time
  have keys : ∀ f ∈ k.delayedQueue, ((k.sync running time).setEvent e {k.event e with enqueued := true}).cycleOf f =
      k.cycleOf f := by
    intro f inside
    rw [setEventCycle, if_neg (ne_of_mem_of_not_mem inside fresh)]
    exact congrArg Event.cycle (congrFun (syncEvent k running time) f)
  have freshSynced : e ∉ ((k.sync running time).setEvent e {k.event e with enqueued := true}).delayedQueue := by
    change e ∉ (k.sync running time).delayedQueue
    rwa [queue]
  refine ⟨?_, ?_, ?_, ?_⟩
  · refine enqueueDelayedSorted freshSynced ?_
    change Chain.Sorted _ (k.sync running time).delayedQueue
    rw [queue]
    exact Chain.sortedCongr keys good.sorted
  · rintro (inside | ⟨_, stale⟩)
    · contradiction
    · exact absurd stale (by simp [Clock.enqueueDelayed])
  · intro some
    have before : k.nbEnqueuedToCycle ≠ 0 := by
      change (k.sync running time).nbEnqueuedToCycle ≠ 0 at some
      rwa [count] at some
    have same : k.sync running time = k := syncSettled (.inr (.inl before))
    refine enqueueDelayedEach (P := fun c => (k.sync running time).cycles ≤ c) freshSynced ?_ ?_
    · intro f inside
      change f ∈ (k.sync running time).delayedQueue at inside
      rw [queue] at inside
      rw [keys f inside, same]
      exact good.slots before f inside
    · change (k.sync running time).cycles ≤ n + (k.sync running time).cycles
      omega
  · intro _ none
    have before : k.nbEnqueuedToCycle = 0 := by
      change (k.sync running time).nbEnqueuedToCycle = 0 at none
      rwa [count] at none
    refine enqueueDelayedEach (P := fun c => Idle true (c - (k.sync running time).cycles)) freshSynced ?_ ?_
    · intro f inside
      change f ∈ (k.sync running time).delayedQueue at inside
      rw [queue] at inside
      rw [keys f inside]
      by_cases settled : Settled k running time
      · rw [syncSettled settled]
        exact rule.weaken _ _ (good.idle rfl before f inside)
      · rw [(syncUnsettled settled).2.2.2.2]
        exact allowed.resolve_left settled f inside
    · refine rule.flushed _ ?_
      change 0 ≤ n + (k.sync running time).cycles - (k.sync running time).cycles
      omega

theorem aheadEnqueueInside (rule : IdleRule Idle) (good : Ahead Idle true k) (fresh : e ∉ k.delayedQueue) :
    Ahead Idle true (k.enqueue true time e n) := by
  have keys : ∀ f ∈ k.delayedQueue, (k.setEvent e {k.event e with enqueued := true}).cycleOf f = k.cycleOf f := by
    intro f inside
    rw [setEventCycle, if_neg (ne_of_mem_of_not_mem inside fresh)]
  by_cases short : n < 32
  · rw [enqueueRunningShort _ _ _ short]
    refine aheadCongr rule good (List.Sublist.refl _) ?_ rfl rfl (by simp) rfl
    intro f inside
    unfold Clock.cycleOf
    rw [enqueueToCycleEvent, if_neg (ne_of_mem_of_not_mem inside fresh)]
    exact keys f inside
  · rw [enqueueSlow (by simp [short]), syncRunning]
    have far : Window ((k.setEvent e {k.event e with enqueued := true}).enqueueDelayed e n) := by
      refine enqueueDelayedEach (P := fun c => k.cycles + 32 - k.currentCycle.val ≤ c) fresh ?_ ?_
      · intro f inside
        rw [keys f inside]
        exact good.window (.inl rfl) f inside
      · change k.cycles + 32 - k.currentCycle.val ≤ n + k.cycles
        omega
    exact ⟨enqueueDelayedSorted fresh (Chain.sortedCongr keys good.sorted), fun _ => far,
      fun _ f inside => le_of_lt (windowSlots far f inside), by simp⟩

theorem unflaggedAway (linked : WellLinked k) (clear : (k.event e).enqueued = false) : e ∉ k.delayedQueue := by
  intro inside
  rw [linkedFlag linked (delayedLinked inside)] at clear
  contradiction

theorem aheadEnqueue (rule : IdleRule Idle) (good : Ahead Idle running k) (linked : WellLinked k)
    (clear : (k.event e).enqueued = false) (low : 0 ≤ n) (allowed : ResyncOk Idle true k running time) :
    Ahead Idle running (k.enqueue running time e n) := by
  have fresh := unflaggedAway linked clear
  cases running with
  | true => exact aheadEnqueueInside rule good fresh
  | false =>
      rw [enqueueSlow (by simp)]
      exact aheadEnqueueOutside rule good fresh low allowed

theorem unlinkCases (k : Clock ε) (e : ε) :
    (e ∈ k.delayedQueue ∧ k.unlink e = {k with delayedQueue := k.delayedQueue.erase e}) ∨
    (e ∉ k.delayedQueue ∧ ∃ i, e ∈ k.eventQueue i ∧ k.unlink e = {k with
      eventQueue := Function.update k.eventQueue i ((k.eventQueue i).erase e)
      nbEnqueuedToCycle := k.nbEnqueuedToCycle - 1}) ∨
    (e ∉ k.delayedQueue ∧ (∀ i, e ∉ k.eventQueue i) ∧ k.unlink e = k) := by
  unfold Clock.unlink
  split
  · rename_i inside
    exact .inl ⟨inside, rfl⟩
  · rename_i away
    split
    · rename_i i found
      exact .inr (.inl ⟨away, i, by simpa using List.find?_some found, rfl⟩)
    · rename_i none
      refine .inr (.inr ⟨away, fun i inside => ?_, rfl⟩)
      simpa [inside] using List.find?_eq_none.mp none i (List.mem_finRange i)

theorem cancelCycle (k : Clock ε) (e f : ε) : (k.cancel e).cycleOf f = k.cycleOf f := by
  have same := (unlinkFrame k e).2.1
  unfold Clock.cancel
  split
  · rw [setEventCycle]
    unfold Clock.cycleOf
    rw [same]
    split
    · rename_i here; rw [here]
    · rfl
  · rfl

theorem cancelQueue (k : Clock ε) (e : ε) : (k.cancel e).delayedQueue.Sublist k.delayedQueue := by
  unfold Clock.cancel
  split
  · change (k.unlink e).delayedQueue.Sublist _
    obtain ⟨_, gone⟩ | ⟨_, _, _, gone⟩ | ⟨_, _, gone⟩ := unlinkCases k e
    · rw [gone]
      exact List.erase_sublist
    · rw [gone]
    · rw [gone]
  · exact List.Sublist.refl _

theorem cancelEmpty (linked : WellLinked k) (none : k.nbEnqueuedToCycle = 0) :
    (k.cancel e).nbEnqueuedToCycle = 0 := by
  unfold Clock.cancel
  split
  · change (k.unlink e).nbEnqueuedToCycle = 0
    obtain ⟨_, gone⟩ | ⟨_, i, inside, _⟩ | ⟨_, _, gone⟩ := unlinkCases k e
    · rw [gone]
      exact none
    · rw [slotsEmpty linked.count none i] at inside
      contradiction
    · rw [gone]
      exact none
  · exact none

theorem aheadCancel (rule : IdleRule Idle) (good : Ahead Idle busy k) (linked : WellLinked k) :
    Ahead Idle busy (k.cancel e) := by
  obtain ⟨counter, _, _, position, flush⟩ := cancelClockFrame k e
  exact aheadCongr rule good (cancelQueue k e) (fun f _ => cancelCycle k e f) counter position
    (fun none _ => cancelEmpty linked none) flush

/- Between its `cancel` and its `enqueue` the counter does not move, so the cycle that
`reenqueue` writes is the one the event was queued with. -/
theorem reenqueueSettled (late : k.keepsEarlier e n = false) (settled : Settled (k.cancel e) running time) :
    k.reenqueue running time e n = (k.cancel e).enqueue running time e n := by
  unfold Clock.reenqueue
  rw [if_neg (by simpa [Clock.keepsEarlier] using late)]
  dsimp only
  refine setEventSame _ ?_
  have due := enqueueEventSelf (k.cancel e) running time e n
  have counter : ((k.cancel e).enqueue running time e n).cycles = k.cycles := by
    unfold Clock.enqueue
    dsimp only
    rw [syncSetEvent, syncSettled settled]
    split <;> exact (cancelClockFrame k e).1
  rw [counter] at due
  rw [← due]

/- The counter moves in between, and the cycle written is smaller than the one the event
was queued with. -/
theorem aheadReenqueueMoved (good : Ahead Idle false k) (linked : WellLinked k)
    (late : k.keepsEarlier e n = false) (moving : ¬Settled (k.cancel e) running time)
    (near : Idle true (n - k.elapsed time)) (positive : 0 ≤ k.period)
    (others : ∀ f ∈ (k.cancel e).delayedQueue, Idle true (k.cycleOf f - (k.cycles + k.elapsed time)) ∧
      (k.cycleOf f ≤ k.cycles + n ∨ k.cycles + n + k.elapsed time ≤ k.cycleOf f)) :
    Ahead Idle false (k.reenqueue running time e n) := by
  obtain ⟨counter, period, stop, _, _⟩ := cancelClockFrame k e
  obtain ⟨idle, none, ticking, passed, moved⟩ := syncUnsettled moving
  have elapsed : (k.cancel e).elapsed time = k.elapsed time := by
    unfold Clock.elapsed
    rw [period, stop]
  have forward : 0 ≤ k.elapsed time := Int.tdiv_nonneg (by omega) positive
  have fresh := unflaggedAway (cancelWellLinked linked) (cancelClear k e)
  unfold Clock.reenqueue
  rw [if_neg (by simpa [Clock.keepsEarlier] using late)]
  dsimp only
  rw [enqueueSlow (by simp [idle]), moved, elapsed, counter]
  generalize result : Clock.setEvent (Clock.enqueueDelayed _ e n) e _ = j
  have queue : j.delayedQueue =
      Chain.insert k.cycleOf (n + (k.cycles + k.elapsed time)) e (k.cancel e).delayedQueue := by
    rw [← result]
    refine Chain.insertCongr (fun f inside => ?_)
    exact (setEventCycle _ f).trans ((if_neg (ne_of_mem_of_not_mem inside fresh)).trans (cancelCycle k e f))
  have self : j.cycleOf e = k.cycles + n := by
    rw [← result, setEventCycle, if_pos rfl]
  have keys : ∀ f ∈ (k.cancel e).delayedQueue, j.cycleOf f = k.cycleOf f := by
    intro f inside
    have other := ne_of_mem_of_not_mem inside fresh
    rw [← result, setEventCycle, if_neg other]
    unfold Clock.cycleOf
    rw [enqueueDelayedEvent, if_neg other]
    exact (setEventCycle _ f).trans ((if_neg other).trans (cancelCycle k e f))
  have flush : j.mustFlushDelayedQueue = true := by rw [← result]; rfl
  have count : j.nbEnqueuedToCycle = 0 := by rw [← result]; exact none
  have now : j.cycles = k.cycles + k.elapsed time := by rw [← result]; rfl
  refine ⟨?_, ?_, fun some => absurd count some, ?_⟩
  · rw [queue, ← Chain.insertCongr keys]
    have sorted : Chain.Sorted k.cycleOf (k.cancel e).delayedQueue :=
      List.Pairwise.sublist (cancelQueue k e) good.sorted
    refine Chain.insertSorted (by omega) ?_ (Chain.sortedCongr keys sorted)
    intro f inside
    rw [keys f inside, self]
    have := (others f inside).2
    omega
  · rintro (inside | ⟨some, _⟩)
    · contradiction
    · exact absurd count some
  · intro _ _ f inside
    rw [queue] at inside
    rw [flush, now]
    rcases Chain.memInsert.mp inside with rfl | inside
    · rw [self, show k.cycles + n - (k.cycles + k.elapsed time) = n - k.elapsed time by omega]
      exact near
    · rw [keys f inside]
      exact (others f inside).1

theorem aheadReenqueue (rule : IdleRule Idle) (good : Ahead Idle running k) (linked : WellLinked k) (low : 0 ≤ n)
    (positive : 0 ≤ k.period) (allowed : ReenqueueOk Idle k running time e n) :
    Ahead Idle running (k.reenqueue running time e n) := by
  cases early : k.keepsEarlier e n with
  | true =>
      unfold Clock.reenqueue
      rw [if_pos (by simpa [Clock.keepsEarlier] using early)]
      exact good
  | false =>
      by_cases settled : Settled (k.cancel e) running time
      · rw [reenqueueSettled early settled]
        exact aheadEnqueue rule (aheadCancel rule good linked) (cancelWellLinked linked) (cancelClear k e) low
          (.inl settled)
      · obtain ⟨near, others⟩ := (allowed.resolve_left (by simp [early])).resolve_left settled
        have idle := (syncUnsettled settled).1
        subst idle
        exact aheadReenqueueMoved good linked early settled near positive others

omit [DecidableEq ε] in
theorem aheadApplyFrequency (rule : IdleRule Idle) (good : Ahead Idle busy k) (frequency : Int) :
    Ahead Idle busy (k.applyFrequency frequency) := by
  unfold Clock.applyFrequency
  split
  · exact aheadCongr rule good (List.Sublist.refl _) (fun _ _ => rfl) rfl rfl (fun none _ => none) rfl
  · split
    · exact aheadCongr rule good (List.Sublist.refl _) (fun _ _ => rfl) rfl rfl (fun none _ => none) rfl
    · exact good

omit [DecidableEq ε] in
theorem aheadResync (good : Ahead Idle running k)
    (allowed : ResyncOk Idle k.mustFlushDelayedQueue k running time) : Ahead Idle running (k.sync running time) := by
  cases running with
  | true => exact good
  | false => exact aheadSync good allowed

omit [DecidableEq ε] in
theorem syncSettles (positive : 0 ≤ k.period) (running : Bool) (time : Int) :
    Settled (k.sync running time) running time := by
  by_cases none : Settled k running time
  · rwa [syncSettled none]
  · obtain ⟨_, _, ticking, elapsed, moved⟩ := syncUnsettled none
    rw [moved]
    refine .inr (.inr (.inr ?_))
    change time ≤ k.stopTime + (time - k.stopTime + k.period - 1).tdiv k.period * k.period
    rw [Int.tdiv_eq_ediv_of_nonneg (by omega)]
    have split := Int.mul_ediv_add_emod (time - k.stopTime + k.period - 1) k.period
    have low := Int.emod_lt_of_pos (time - k.stopTime + k.period - 1) (show 0 < k.period by omega)
    rw [Int.mul_comm] at split
    omega

/- The `sync` of `enqueue` has nothing left to do in `enqueue_ext`. -/
theorem enqueueSynced (positive : 0 ≤ k.period) :
    (k.sync running time).enqueue running time e n = k.enqueue running time e n := by
  unfold Clock.enqueue
  rw [syncSetEvent, syncSetEvent, syncSettled (syncSettles positive running time), syncEvent]

theorem aheadPerform (rule : IdleRule Idle) (good : Ahead Idle running k) (linked : WellLinked k)
    (positive : 0 ≤ k.period) (o : Op ε) (legal : o.legal k = true) (allowed : OpOk Idle k running time o) :
    Ahead Idle running (k.perform running time o) := by
  cases o with
  | enqueue e n =>
      simp only [Op.legal, Bool.and_eq_true, Bool.not_eq_true', decide_eq_true_eq] at legal
      exact aheadEnqueue rule good linked legal.1 legal.2 allowed
  | enqueueExt e n =>
      simp only [Op.legal, Bool.and_eq_true, Bool.not_eq_true', decide_eq_true_eq] at legal
      change Ahead Idle running ((k.sync running time).enqueue running time e n)
      rw [enqueueSynced positive]
      exact aheadEnqueue rule good linked legal.1 legal.2 allowed
  | reenqueue e n => exact aheadReenqueue rule good linked (by simpa [Op.legal] using legal) positive allowed
  | reenqueueExt e n =>
      exact aheadReenqueue rule (aheadResync good allowed.1) (syncWellLinked linked)
        (by simpa [Op.legal] using legal) (by rwa [syncPeriod]) allowed.2
  | cancel e => exact aheadCancel rule good linked
  | sync => exact aheadResync good allowed
  | applyFrequency f => exact aheadApplyFrequency rule good f

end Share

section Exec

variable {Idle : Bool → Int → Prop} {k : Clock ε} {e : ε}

/- What a flush of the events `waiting` leaves: those a window away, and the counter moved
to the first of them if the slots were empty. -/
structure Flushed (waiting : List ε) (k j : Clock ε) : Prop where
  event : j.event = k.event
  suffix : j.delayedQueue <:+ waiting
  far : ∀ e ∈ j.delayedQueue, j.cycles + 32 ≤ k.cycleOf e
  used : k.nbEnqueuedToCycle ≠ 0 → j.cycles = k.cycles
  empty : k.nbEnqueuedToCycle = 0 → j.cycles = (waiting.head?.map k.cycleOf).getD k.cycles
  count : k.nbEnqueuedToCycle ≠ 0 ∨ waiting ≠ [] → j.nbEnqueuedToCycle ≠ 0
  position : j.currentCycle = k.currentCycle
  period : j.period = k.period
  stop : j.stopTime = k.stopTime

omit [DecidableEq ε] in
theorem linkedCount [DecidableEq ε] (linked : WellLinked k) : 0 ≤ k.nbEnqueuedToCycle := by
  rw [linked.count]
  exact Int.natCast_nonneg _

/- Induction on the events the walk has still to pass. Once one has been moved the slots
are in use and the counter stays. -/
theorem flushFromFlushed (waiting : List ε) : ∀ k : Clock ε, WellLinked {k with delayedQueue := waiting} →
    Chain.Sorted k.cycleOf waiting → (k.nbEnqueuedToCycle ≠ 0 → ∀ e ∈ waiting, k.cycles ≤ k.cycleOf e) →
    Flushed waiting k (k.flushFrom waiting) := by
  induction waiting with
  | nil =>
      intro k _ _ _
      exact ⟨rfl, List.suffix_refl _, by simp [Clock.flushFrom], fun _ => rfl, fun _ => rfl, by simp [Clock.flushFrom],
        rfl, rfl, rfl⟩
  | cons e rest ih =>
      intro k linked sorted low
      have count := linkedCount (jumpLinked linked)
      have first := Chain.sortedHead sorted
      have reached : (k.jump e).cycles ≤ k.cycleOf e ∧ (k.nbEnqueuedToCycle = 0 → (k.jump e).cycles = k.cycleOf e) ∧
          (k.nbEnqueuedToCycle ≠ 0 → (k.jump e).cycles = k.cycles) ∧ (k.jump e).currentCycle = k.currentCycle ∧
          (k.jump e).period = k.period ∧ (k.jump e).stopTime = k.stopTime ∧ (k.jump e).nbEnqueuedToCycle = k.nbEnqueuedToCycle := by
        obtain ⟨none, moved⟩ | ⟨some, moved⟩ := jumpCases k e
        · rw [moved]
          exact ⟨le_refl _, fun _ => rfl, fun some => absurd none some, rfl, rfl, rfl, rfl⟩
        · rw [moved]
          exact ⟨low some e List.mem_cons_self, fun none => absurd none some, fun _ => rfl, rfl, rfl, rfl, rfl⟩
      obtain ⟨below, jumped, kept, position, period, stop, number⟩ := reached
      obtain ⟨apart, stays⟩ | ⟨_, high, moves⟩ := flushFromCons k e rest
      · rw [stays]
        have far : (k.jump e).cycles + 32 ≤ k.cycleOf e := by omega
        refine ⟨jumpEvent k e, List.suffix_refl _, ?_, kept, ?_, ?_, position, period, stop⟩
        · intro f inside
          exact le_trans far (first f inside)
        · intro none
          have := jumped none
          omega
        · intro _ none
          have := jumped (number.symm.trans none)
          omega
      · rw [moves]
        have keys : ∀ f, ((k.jump e).enqueueToCycle e (k.cycleOf e - (k.jump e).cycles)).cycleOf f = k.cycleOf f :=
          fun f => congrArg Event.cycle (congrFun (moveEvent k e) f)
        have done := ih _ (moveLinked (jumpLinked linked) (by omega) (by omega))
          (Chain.sortedCongr (fun f _ => keys f) (List.Pairwise.of_cons sorted))
          (fun _ f inside => by rw [keys]; exact le_trans below (first f (List.mem_cons_of_mem e inside)))
        have used : ((k.jump e).enqueueToCycle e (k.cycleOf e - (k.jump e).cycles)).nbEnqueuedToCycle ≠ 0 := by
          change (k.jump e).nbEnqueuedToCycle + 1 ≠ 0
          change 0 ≤ (k.jump e).nbEnqueuedToCycle at count
          omega
        refine ⟨done.event.trans (moveEvent k e), done.suffix.trans (List.suffix_cons e rest), ?_, ?_, ?_, ?_,
          done.position.trans position, done.period.trans period, done.stop.trans stop⟩
        · intro f inside
          exact le_of_le_of_eq (done.far f inside) (keys f)
        · exact fun some => (done.used used).trans (kept some)
        · exact fun none => (done.used used).trans (jumped none)
        · exact fun _ => done.count (.inl used)

theorem enterFlushed (linked : WellLinked k) (good : Ahead Idle false k) (flush : k.mustFlushDelayedQueue = true) :
    Flushed k.delayedQueue k k.enter := by
  unfold Clock.enter Clock.flushDelayedQueue
  rw [if_pos flush]
  have done := flushFromFlushed k.delayedQueue {k with mustFlushDelayedQueue := false}
    ⟨linked.links, linked.count, linked.slots⟩ good.sorted good.slots
  exact ⟨done.event, done.suffix, done.far, done.used, done.empty, done.count, done.position, done.period, done.stop⟩

omit [DecidableEq ε] in
theorem enterSame [DecidableEq ε] (fresh : k.mustFlushDelayedQueue = false) : k.enter = k := by
  unfold Clock.enter
  rw [if_neg (by simp [fresh])]

theorem aheadEnter (linked : WellLinked k) (good : Ahead Idle false k)
    (used : k.mustFlushDelayedQueue = true ∨ k.nbEnqueuedToCycle ≠ 0) : Ahead Idle true k.enter := by
  cases flush : k.mustFlushDelayedQueue with
  | true =>
      have done := enterFlushed linked good flush
      have keys : ∀ f, k.enter.cycleOf f = k.cycleOf f := fun f => congrArg Event.cycle (congrFun done.event f)
      have far : Window k.enter := by
        intro f inside
        have := done.far f inside
        rw [keys]
        omega
      exact ⟨Chain.sortedCongr (fun f _ => keys f) (List.Pairwise.sublist done.suffix.sublist good.sorted),
        fun _ => far, fun _ f inside => le_of_lt (windowSlots far f inside), by simp⟩
  | false =>
      have some := used.resolve_left (by simp [flush])
      rw [enterSame flush]
      exact ⟨good.sorted, fun _ => good.window (.inr ⟨some, flush⟩), good.slots, by simp⟩

theorem aheadPop {rest : List ε} (rule : IdleRule Idle) (good : Ahead Idle true k) :
    Ahead Idle true (k.popEvent e rest) := by
  refine aheadCongr rule good (List.Sublist.refl _) ?_ rfl rfl (by simp) rfl
  intro f _
  unfold Clock.cycleOf
  rw [popEventEvent]
  split
  · rename_i same; rw [same]
  · rfl

def Clock.stopReturn (k : Clock ε) : Int :=
  match k.delayedQueue with
  | [] => -1
  | head :: _ => (k.cycleOf head - k.cycles) * k.period

omit [DecidableEq ε] in
theorem finishCases (k : Clock ε) (time : Int) :
    (k.nbEnqueuedToCycle ≠ 0 ∧ k.finish time = ({k with
      cycles := k.cycles + 1
      currentCycle := slotAt k.currentCycle 1
      mustFlushDelayedQueue := k.mustFlushDelayedQueue || decide (slotAt k.currentCycle 1 = 0)}, k.period)) ∨
    (k.nbEnqueuedToCycle = 0 ∧
      k.finish time = ({k with mustFlushDelayedQueue := true, stopTime := time}, k.stopReturn)) := by
  unfold Clock.finish
  split
  · rename_i some
    exact .inl ⟨by simpa using some, rfl⟩
  · rename_i none
    refine .inr ⟨by simpa using none, ?_⟩
    dsimp only
    unfold Clock.stopReturn
    split
    · rename_i done
      simp only [done]
    · rename_i head rest queue
      simp only [queue]
      rfl

omit [DecidableEq ε] in
theorem aheadStop (good : ∀ e ∈ k.delayedQueue, Idle true (k.cycleOf e - k.cycles))
    (sorted : Chain.Sorted k.cycleOf k.delayedQueue) (none : k.nbEnqueuedToCycle = 0) (time : Int) :
    Ahead Idle false {k with mustFlushDelayedQueue := true, stopTime := time} :=
  ⟨sorted, by simp, fun some => absurd none some, fun _ _ => good⟩

omit [DecidableEq ε] in
theorem aheadFinish (rule : IdleRule Idle) (good : Ahead Idle true k) (time : Int) :
    Ahead Idle false (k.finish time).1 := by
  have far := good.window (.inl rfl)
  obtain ⟨some, turned⟩ | ⟨none, stopped⟩ := finishCases k time
  · rw [turned]
    refine ⟨good.sorted, ?_, ?_, fun _ none => absurd none some⟩
    · rintro (inside | ⟨_, fresh⟩) e inside
      · contradiction
      · simp only [Bool.or_eq_false_iff, decide_eq_false_iff_not] at fresh
        have next : (slotAt k.currentCycle 1).val = k.currentCycle.val + 1 := by
          have wrapped := fresh.2
          have := k.currentCycle.isLt
          rw [Fin.ext_iff] at wrapped
          simp only [slotAt, Fin.val_zero] at wrapped ⊢
          omega
        have := far e inside
        change k.cycles + 1 + 32 - ((slotAt k.currentCycle 1).val : Int) ≤ k.cycleOf e
        omega
    · intro _ e inside
      exact windowSlots far e inside
  · rw [stopped]
    refine aheadStop (fun e inside => rule.positive _ _ ?_) good.sorted none time
    have := windowSlots far e inside
    omega

omit [DecidableEq ε] in
theorem aheadFinishIdle (rule : IdleRule Idle) (good : Ahead Idle false k) (none : k.nbEnqueuedToCycle = 0)
    (time : Int) : Ahead Idle false (k.finish time).1 := by
  obtain ⟨some, _⟩ | ⟨_, stopped⟩ := finishCases k time
  · exact absurd none some
  · rw [stopped]
    exact aheadStop (fun e inside => rule.weaken _ _ (good.idle rfl none e inside)) good.sorted none time

end Exec

end Gvsoc.ClockEngine
