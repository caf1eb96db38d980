import Gvsoc.ClockWake
import Gvsoc.ClockCounter

/-! What one call of `reenqueue` leaves behind. The cycle it writes is counted from the
stored counter, before `enqueue` synchronises it, so the call does what it is for exactly
when that `sync` finds nothing to do. -/
namespace Gvsoc.ClockEngine

section Contract

variable {ε κ : Type} [DecidableEq ε] [DecidableEq κ]

def System.edge (s : System ε κ) : Int :=
  if s.clock.nbEnqueuedToCycle = 0 then s.clock.stopTime else s.engine.nextTime .clock

def Planned (s : System ε κ) (e : ε) : Prop :=
  s.running = true ∨ ((s.engine.client .clock).isEnqueued = true ∧
    s.engine.nextTime .clock ≤ s.edge + (s.clock.cycleOf e - s.clock.cycles) * s.clock.period)

structure Reenqueued (s next : System ε κ) (e : ε) (n : Int) : Prop where
  pending : (next.clock.event e).enqueued = true
  once : next.clock.links e = 1
  cycle : next.clock.cycleOf e = if (s.clock.event e).enqueued then
    min (s.clock.cycleOf e) (next.clock.cycles + n) else next.clock.cycles + n
  sorted : Chain.Sorted next.clock.cycleOf next.clock.delayedQueue
  planned : Planned next e
  sameAsExt : next = s.reenqueueExt e n

/- The stored counter is up to date where the call reads it. An event that stays where it
is keeps the wake-up it had. An event that moves is cancelled first, which may empty the
slots and so expose an old counter. -/
def UpToDate (s : System ε κ) (e : ε) (n : Int) : Prop :=
  if s.clock.keepsEarlier e n = true then Settled s.clock s.running s.engine.time ∧ Planned s e
  else Settled (s.clock.cancel e) s.running s.engine.time

section Share

variable {k : Clock ε} {e : ε} {n time : Int} {running : Bool}

omit [DecidableEq ε] in
theorem elapsedPositive (positive : 0 < k.period) (some : ¬Settled k running time) : 1 ≤ k.elapsed time := by
  obtain ⟨_, _, _, passed, _⟩ := syncUnsettled some
  unfold Clock.elapsed
  rw [Int.tdiv_eq_ediv_of_nonneg (by omega)]
  exact Int.le_ediv_of_mul_le positive (by omega)

omit [DecidableEq ε] in
theorem syncMoves (positive : 0 < k.period) (some : ¬Settled k running time) :
    (k.sync running time).cycles ≠ k.cycles := by
  have moved := elapsedPositive positive some
  rw [(syncUnsettled some).2.2.2.2]
  change k.cycles + k.elapsed time ≠ k.cycles
  omega

omit [DecidableEq ε] in
theorem settledIff (positive : 0 < k.period) :
    (k.sync running time).cycles = k.cycles ↔ Settled k running time := by
  refine ⟨fun same => ?_, fun settled => by rw [syncSettled settled]⟩
  by_contra some
  exact syncMoves positive some same

/- `cancel` can only uncover an old counter, never bring one up to date. -/
theorem settledBefore (linked : WellLinked k) (settled : Settled (k.cancel e) running time) :
    Settled k running time := by
  obtain ⟨_, period, stop, _⟩ := cancelClockFrame k e
  rcases settled with inside | used | gated | late
  · exact .inl inside
  · exact .inr (.inl (fun none => used (cancelEmpty linked none)))
  · exact .inr (.inr (.inl (period ▸ gated)))
  · exact .inr (.inr (.inr (stop ▸ late)))

theorem reenqueueKept (early : k.keepsEarlier e n = true) : k.reenqueue running time e n = k := by
  unfold Clock.reenqueue
  rw [if_pos (by simpa [Clock.keepsEarlier] using early)]

theorem reenqueueMoves (running : Bool) (time : Int) (late : k.keepsEarlier e n = false) :
    (k.reenqueue running time e n).cycleOf e = k.cycles + n ∧
    (k.reenqueue running time e n).cycles = ((k.cancel e).sync running time).cycles := by
  unfold Clock.reenqueue
  rw [if_neg (by simpa [Clock.keepsEarlier] using late)]
  dsimp only
  exact ⟨by rw [setEventCycle, if_pos rfl], enqueueCounter _ _ _ _ _⟩

theorem enqueueFlag (k : Clock ε) (running : Bool) (time : Int) (e : ε) (n : Int) :
    ((k.enqueue running time e n).event e).enqueued = true := by
  unfold Clock.enqueue
  dsimp only
  rw [syncSetEvent]
  split
  · change (((((k.sync running time).setEvent e _).setEvent e _)).event e).enqueued = true
    simp [setEventEvent]
  · rw [enqueueDelayedEvent, if_pos rfl]
    simp [setEventEvent]

theorem reenqueueFlag (k : Clock ε) (running : Bool) (time : Int) (e : ε) (n : Int) :
    ((k.reenqueue running time e n).event e).enqueued = true := by
  cases early : k.keepsEarlier e n with
  | true =>
      rw [reenqueueKept early]
      simp only [Clock.keepsEarlier, Bool.and_eq_true] at early
      exact early.1
  | false =>
      unfold Clock.reenqueue
      rw [if_neg (by simpa [Clock.keepsEarlier] using early)]
      dsimp only
      rw [setEventEvent, if_pos rfl]
      exact enqueueFlag _ _ _ _ _

theorem enqueueSorted (linked : WellLinked k) (clear : (k.event e).enqueued = false)
    (settled : Settled k running time) (sorted : Chain.Sorted k.cycleOf k.delayedQueue) :
    Chain.Sorted (k.enqueue running time e n).cycleOf (k.enqueue running time e n).delayedQueue := by
  have fresh := unflaggedAway linked clear
  have keys : ∀ v : Event, ∀ f ∈ k.delayedQueue, (k.setEvent e v).cycleOf f = k.cycleOf f := by
    intro v f inside
    rw [setEventCycle, if_neg (ne_of_mem_of_not_mem inside fresh)]
  by_cases short : running = true ∧ n < 32
  · obtain ⟨rfl, short⟩ := short
    rw [enqueueRunningShort k time e short]
    refine Chain.sortedCongr (fun f inside => ?_) sorted
    change ((k.setEvent e _).setEvent e _).cycleOf f = k.cycleOf f
    rw [setEventCycle, if_neg (ne_of_mem_of_not_mem inside fresh)]
    exact keys _ f inside
  · rw [enqueueSlow short, syncSettled settled]
    exact enqueueDelayedSorted fresh (Chain.sortedCongr (keys _) sorted)

end Share

variable {s : System ε κ} {e : ε} {n : Int}

theorem keptSystem (early : s.clock.keepsEarlier e n = true) : s.reenqueue e n = s := by
  rw [reenqueueSplit]
  exact if_pos (by simpa [Clock.keepsEarlier] using early)

theorem keptExt (positive : 0 < s.clock.period) (early : s.clock.keepsEarlier e n = true) :
    s.reenqueueExt e n = s.sync := by
  have forward : s.clock.cycles ≤ (s.clock.sync s.running s.engine.time).cycles := syncCounter (by omega)
  refine keptSystem ?_
  simp only [Clock.keepsEarlier, Bool.and_eq_true, decide_eq_true_eq] at early ⊢
  change ((s.clock.sync s.running s.engine.time).event e).enqueued = true ∧
    ((s.clock.sync s.running s.engine.time).event e).cycle ≤ (s.clock.sync s.running s.engine.time).cycles + n
  rw [syncEvent]
  exact ⟨early.1, by omega⟩

omit [DecidableEq ε] [DecidableEq κ] in
theorem syncSystem (settled : Settled s.clock s.running s.engine.time) : s.sync = s := by
  unfold System.sync
  rw [syncSettled settled]

theorem enqueuePlanned (positive : 0 < s.clock.period) (low : 0 ≤ n)
    (settled : Settled s.clock s.running s.engine.time) : Planned (s.enqueue e n) e := by
  obtain ⟨clock, engine, _⟩ := enqueueParts s e n
  cases idle : s.running with
  | true =>
      refine .inl ?_
      have busy : (s.engine.client .clock).running = true := idle
      change ((s.enqueue e n).engine.client .clock).running = true
      rw [engine]
      split
      · exact busy
      · unfold TimeEngine.Engine.enqueue
        simp [busy]
  | false =>
      have gated : s.clock.period ≠ 0 := by omega
      rw [idle, enqueueSlow (by simp), syncSettled (idle ▸ settled)] at clock
      rw [if_neg (by simp [idle, gated])] at engine
      obtain ⟨flag, time⟩ := TimeEngine.enqueueSelf (t := n * s.clock.period) idle
      have soon : (s.enqueue e n).engine.nextTime .clock ≤ s.engine.time + n * s.clock.period := by
        rw [engine, time]
        split <;> omega
      have ahead : 0 ≤ n * s.clock.period := Int.mul_nonneg low (by omega)
      have gap : (s.enqueue e n).clock.cycleOf e - (s.enqueue e n).clock.cycles = n := by
        have due := enqueueDelayedEvent (s.clock.setEvent e {s.clock.event e with enqueued := true}) e e n
        rw [clock]
        unfold Clock.cycleOf
        rw [due, if_pos rfl]
        exact Int.add_sub_cancel n s.clock.cycles
      have period : (s.enqueue e n).clock.period = s.clock.period := by rw [clock]; rfl
      have count : (s.enqueue e n).clock.nbEnqueuedToCycle = s.clock.nbEnqueuedToCycle := by rw [clock]; rfl
      have stop : (s.enqueue e n).clock.stopTime = s.clock.stopTime := by rw [clock]; rfl
      refine .inr ⟨by rw [engine]; exact flag, ?_⟩
      rw [gap, period]
      unfold System.edge
      rw [count, stop]
      split
      · rename_i none
        rcases settled with inside | used | still | late
        · simp [idle] at inside
        · exact absurd none used
        · exact absurd still gated
        · omega
      · omega

theorem reenqueueSystem (late : s.clock.keepsEarlier e n = false)
    (settled : Settled (s.clock.cancel e) s.running s.engine.time) :
    s.reenqueue e n = (s.cancel e).enqueue e n := by
  obtain ⟨clock, _⟩ := cancelParts s e
  obtain ⟨running, time⟩ := cancelFrame s e
  have same := (reenqueueClock s e n).trans (reenqueueSettled late settled)
  have parts := (enqueueParts (s.cancel e) e n).1
  rw [clock, running, time, ← same] at parts
  rw [reenqueueSplit, if_neg (by simpa [Clock.keepsEarlier] using late)] at same parts ⊢
  dsimp only at same parts ⊢
  rw [← parts]

theorem movedReenqueued (linked : WellLinked s.clock) (sorted : Chain.Sorted s.clock.cycleOf s.clock.delayedQueue)
    (positive : 0 < s.clock.period) (low : 0 ≤ n) (late : s.clock.keepsEarlier e n = false) :
    Reenqueued s (s.reenqueue e n) e n ↔ Settled (s.clock.cancel e) s.running s.engine.time := by
  obtain ⟨counter, period, _⟩ := cancelClockFrame s.clock e
  obtain ⟨written, after⟩ := reenqueueMoves s.running s.engine.time late
  rw [← reenqueueClock] at written after
  constructor
  · intro good
    have cycle := good.cycle
    rw [written] at cycle
    refine (settledIff (period.symm ▸ positive)).mp ?_
    rw [← after, counter]
    split at cycle
    · rename_i flag
      have far : s.clock.cycles + n < s.clock.cycleOf e := by
        simpa [Clock.keepsEarlier, Clock.cycleOf, flag] using late
      omega
    · omega
  · intro settled
    have before := settledBefore linked settled
    have same := reenqueueSystem late settled
    obtain ⟨clock, _⟩ := cancelParts s e
    obtain ⟨running, time⟩ := cancelFrame s e
    rw [syncSettled settled, counter] at after
    have flag := reenqueueFlag s.clock s.running s.engine.time e n
    have good : WellLinked (s.clock.reenqueue s.running s.engine.time e n) := reenqueueWellLinked linked low
    have links := good.links e
    have queue := enqueueSorted (n := n) (cancelWellLinked (e := e) linked) (cancelClear s.clock e) settled
      (List.Pairwise.sublist (cancelQueue s.clock e) (Chain.sortedCongr (fun f _ => cancelCycle s.clock e f) sorted))
    rw [← reenqueueSettled late settled] at queue
    rw [← reenqueueClock] at flag links queue
    refine ⟨flag, by rw [links, if_pos flag], ?_, queue, ?_, ?_⟩
    · rw [written, after]
      split
      · rename_i pending
        have far : s.clock.cycles + n < s.clock.cycleOf e := by
          simpa [Clock.keepsEarlier, Clock.cycleOf, pending] using late
        omega
      · rfl
    · rw [same]
      refine enqueuePlanned ?_ low ?_
      · rw [clock, period]
        exact positive
      · rw [clock, running, time]
        exact settled
    · unfold System.reenqueueExt
      rw [syncSystem before]

theorem keptReenqueued (linked : WellLinked s.clock) (sorted : Chain.Sorted s.clock.cycleOf s.clock.delayedQueue)
    (positive : 0 < s.clock.period) (early : s.clock.keepsEarlier e n = true) :
    Reenqueued s (s.reenqueue e n) e n ↔ Settled s.clock s.running s.engine.time ∧ Planned s e := by
  have kept := keptSystem early
  have ext := keptExt positive early
  rw [kept]
  constructor
  · intro good
    refine ⟨(settledIff positive).mp ?_, good.planned⟩
    exact (congrArg (fun t : System ε κ => t.clock.cycles) (good.sameAsExt.trans ext)).symm
  · rintro ⟨settled, planned⟩
    simp only [Clock.keepsEarlier, Bool.and_eq_true, decide_eq_true_eq] at early
    obtain ⟨flag, near⟩ := early
    refine ⟨flag, by rw [linked.links, if_pos flag], ?_, sorted, planned, ?_⟩
    · rw [if_pos flag]
      exact (min_eq_left near).symm
    · rw [ext, syncSystem settled]

theorem reenqueueContract (linked : WellLinked s.clock)
    (sorted : Chain.Sorted s.clock.cycleOf s.clock.delayedQueue) (positive : 0 < s.clock.period) (low : 0 ≤ n) :
    Reenqueued s (s.reenqueue e n) e n ↔ UpToDate s e n := by
  unfold UpToDate
  cases early : s.clock.keepsEarlier e n with
  | true => simpa using keptReenqueued linked sorted positive early
  | false => simpa using movedReenqueued linked sorted positive low early

/- At 100 MHz, event 0 is due at cycle 50 and another client runs at the time of cycle 40,
which the idle engine has not counted yet. -/
def lagging : System (Fin 2) (Fin 1) := Machine.reach step Machine.anyStep (initial (Fin 2) (Fin 1) 10000)
  [.op (.enqueue 0 50), .timeEnqueue 0 400000, .request true, .start]

theorem laggingReached : ∃ trace,
    Machine.Run step Machine.anyStep (initial (Fin 2) (Fin 1) 10000) trace lagging := by
  obtain ⟨trace, run, _⟩ := Machine.reachRun step Machine.anyStep (initial (Fin 2) (Fin 1) 10000)
    [.op (.enqueue 0 50), .timeEnqueue 0 400000, .request true, .start] rfl
  exact ⟨trace, run⟩

/- Once synchronised, the engine gives event 1 cycle 60, behind event 0. -/
theorem reenqueueContractSynced :
    Reenqueued lagging.sync (lagging.sync.reenqueue 1 20) 1 20 ∧
    (lagging.sync.reenqueue 1 20).clock.cycleOf 1 = 60 := by
  obtain ⟨_, run⟩ := laggingReached
  have linked : WellLinked (lagging.clock.sync lagging.running lagging.engine.time) :=
    syncWellLinked (runWellLinked run)
  have sorted : Chain.Sorted lagging.sync.clock.cycleOf lagging.sync.clock.delayedQueue := by
    unfold Chain.Sorted
    decide +kernel
  have fresh : UpToDate lagging.sync 1 20 := by
    change Settled _ _ _
    decide +kernel
  exact ⟨(reenqueueContract (s := lagging.sync) linked sorted (by decide +kernel) (by decide)).mpr fresh, by decide +kernel⟩

/- Without the `sync`, event 1 gets cycle 20 while the counter is 40, and stands behind
event 0 in the queue. -/
theorem reenqueueStale : ∃ trace,
    Machine.Run step Machine.anyStep (initial (Fin 2) (Fin 1) 10000) trace lagging ∧
    WellLinked lagging.clock ∧ Chain.Sorted lagging.clock.cycleOf lagging.clock.delayedQueue ∧
    lagging.clock.period = 10000 ∧ (lagging.clock.event 1).enqueued = false ∧
    (lagging.reenqueue 1 20).clock.cycles = 40 ∧ (lagging.reenqueue 1 20).clock.cycleOf 1 = 20 ∧
    (lagging.reenqueueExt 1 20).clock.cycleOf 1 = 60 ∧
    ¬Chain.Sorted (lagging.reenqueue 1 20).clock.cycleOf (lagging.reenqueue 1 20).clock.delayedQueue ∧
    ¬Reenqueued lagging (lagging.reenqueue 1 20) 1 20 := by
  obtain ⟨trace, run⟩ := laggingReached
  have unsorted : ¬Chain.Sorted (lagging.reenqueue 1 20).clock.cycleOf
      (lagging.reenqueue 1 20).clock.delayedQueue := by
    unfold Chain.Sorted
    decide +kernel
  refine ⟨trace, run, runWellLinked run, ?_, by decide +kernel, by decide +kernel, by decide +kernel,
    by decide +kernel, by decide +kernel, unsorted, fun good => unsorted good.sorted⟩
  unfold Chain.Sorted
  decide +kernel

end Contract

end Gvsoc.ClockEngine
