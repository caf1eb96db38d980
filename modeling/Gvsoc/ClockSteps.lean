import Gvsoc.ClockOps

/-! What one step of the system can do, said once: `Stepped` inverts `step`, and every
step of the clock engine keeps its events linked as their flags say. -/
namespace Gvsoc.ClockEngine

section Inversion

variable {ε κ : Type} [DecidableEq ε] [DecidableEq κ]

inductive Stepped (s : System ε κ) : Action ε κ → System ε κ → Prop where
  | op (o : Op ε) (outside : s.control ≠ .entry) (legal : o.legal s.clock = true) :
      Stepped s (.op o) (s.perform o)
  | timeEnqueue (k t) (outside : s.control ≠ .entry) (positive : 0 ≤ t) :
      Stepped s (.timeEnqueue k t) {s with engine := s.engine.enqueue (.other k) t}
  | timeDequeue (k) (outside : s.control ≠ .entry) :
      Stepped s (.timeDequeue k) {s with engine := s.engine.dequeue (.other k)}
  | request (run) : Stepped s (.request run) {s with engine := {s.engine with runReq := run}}
  | start (idle : s.control = .waiting) (wanted : s.engine.runReq = true) :
      Stepped s .start {s with engine := s.engine.takeFirst.1, control := .of s.engine.takeFirst.2}
  | exec (entry : s.control = .entry) : Stepped s .exec s.exec
  | callbackReturn (e) (inside : s.control = .callback e) : Stepped s .callbackReturn s.execLoop
  | otherReturn (k ret) (inside : s.control = .other k) :
      Stepped s (.otherReturn ret) {s with
        engine := (s.engine.endExec (.other k) ret).1, control := .of (s.engine.endExec (.other k) ret).2}

theorem stepped {s next : System ε κ} {a : Action ε κ} (taken : step s a = some next) : Stepped s a next := by
  cases a with
  | op o =>
      obtain ⟨guard, done⟩ := Option.ite_none_right_eq_some.mp taken
      cases done
      exact .op o guard.1 guard.2
  | timeEnqueue k t =>
      obtain ⟨guard, done⟩ := Option.ite_none_right_eq_some.mp taken
      cases done
      exact .timeEnqueue k t guard.1 guard.2
  | timeDequeue k =>
      obtain ⟨guard, done⟩ := Option.ite_none_right_eq_some.mp taken
      cases done
      exact .timeDequeue k guard
  | request run => cases taken; exact .request run
  | start =>
      obtain ⟨guard, done⟩ := Option.ite_none_right_eq_some.mp taken
      cases done
      exact .start guard.1 guard.2
  | exec =>
      obtain ⟨guard, done⟩ := Option.ite_none_right_eq_some.mp taken
      cases done
      exact .exec guard
  | callbackReturn =>
      simp only [step] at taken
      split at taken
      · rename_i e inside
        cases taken
        exact .callbackReturn e inside
      · contradiction
  | otherReturn ret =>
      simp only [step] at taken
      split at taken
      · rename_i k inside
        cases taken
        exact .otherReturn k ret inside
      · contradiction

theorem stepOp {s : System ε κ} {o : Op ε} (outside : s.control ≠ .entry) (legal : o.legal s.clock = true) :
    step s (.op o) = some (s.perform o) := if_pos ⟨outside, legal⟩

omit [DecidableEq ε] [DecidableEq κ] in
theorem controlNotCallback (c : TimeEngine.Control (ClientId κ)) (e : ε) :
    (Control.of c : Control ε κ) ≠ .callback e := by
  cases c with
  | waiting => simp [Control.of]
  | executing i => cases i <;> simp [Control.of]

theorem execLoopCases (s : System ε κ) :
    (∃ e rest, s.clock.eventQueue s.clock.currentCycle = e :: rest ∧
      s.execLoop = {s with clock := s.clock.popEvent e rest, control := .callback e}) ∨
    (s.clock.eventQueue s.clock.currentCycle = [] ∧
      s.execLoop = ⟨(s.engine.endExec .clock (s.clock.finish s.engine.time).2).1,
        (s.clock.finish s.engine.time).1, .of (s.engine.endExec .clock (s.clock.finish s.engine.time).2).2⟩) := by
  unfold System.execLoop
  cases h : s.clock.eventQueue s.clock.currentCycle with
  | nil => exact .inr ⟨rfl, rfl⟩
  | cons e rest => exact .inl ⟨e, rest, rfl, rfl⟩

theorem execLoopEnds {s : System ε κ} (placed : TimeEngine.Placed s.engine (.executing .clock)) (idle : s.execLoop.running = false) :
    s.execLoop = ⟨(s.engine.endExec .clock (s.clock.finish s.engine.time).2).1,
      (s.clock.finish s.engine.time).1, .of (s.engine.endExec .clock (s.clock.finish s.engine.time).2).2⟩ := by
  obtain ⟨e, rest, _, popped⟩ | ⟨_, ended⟩ := execLoopCases s
  · rw [popped] at idle
    change (s.engine.client .clock).running = false at idle
    rw [(placed.owned .clock).mpr rfl] at idle
    contradiction
  · exact ended

end Inversion

section Links

variable {ε : Type} [DecidableEq ε] {k : Clock ε} {e f : ε} {n time : Int} {running : Bool}

omit [DecidableEq ε] in
theorem updateCases (k : Clock ε) (time : Int) :
    ((k.period = 0 ∨ time ≤ k.stopTime) ∧ k.update time = k) ∨
    (k.period ≠ 0 ∧ k.stopTime < time ∧
      k.update time = {k with
        stopTime := k.stopTime + (time - k.stopTime + k.period - 1).tdiv k.period * k.period
        cycles := k.cycles + (time - k.stopTime + k.period - 1).tdiv k.period}) := by
  unfold Clock.update
  split
  · rename_i gated
    exact .inl ⟨.inl gated, rfl⟩
  · rename_i ticking
    dsimp only
    split
    · rename_i elapsed
      exact .inr ⟨ticking, by omega, rfl⟩
    · rename_i still
      exact .inl ⟨.inr (by omega), rfl⟩

omit [DecidableEq ε] in
theorem syncCases (k : Clock ε) (running : Bool) (time : Int) :
    ((running = true ∨ k.nbEnqueuedToCycle ≠ 0 ∨ k.period = 0 ∨ time ≤ k.stopTime) ∧ k.sync running time = k) ∨
    (running = false ∧ k.nbEnqueuedToCycle = 0 ∧ k.period ≠ 0 ∧ k.stopTime < time ∧
      k.sync running time = {k with
        stopTime := k.stopTime + (time - k.stopTime + k.period - 1).tdiv k.period * k.period
        cycles := k.cycles + (time - k.stopTime + k.period - 1).tdiv k.period}) := by
  unfold Clock.sync
  by_cases idle : running = false ∧ k.nbEnqueuedToCycle = 0
  · rw [if_pos (by simp [idle])]
    obtain ⟨none, same⟩ | ⟨ticking, elapsed, moved⟩ := updateCases k time
    · exact .inl ⟨.inr (.inr none), same⟩
    · exact .inr ⟨idle.1, idle.2, ticking, elapsed, moved⟩
  · rw [if_neg (by simpa using idle)]
    refine .inl ⟨?_, rfl⟩
    by_cases active : running = true
    · exact .inl active
    · exact .inr (.inl (fun empty => idle ⟨by simpa using active, empty⟩))

omit [DecidableEq ε] in
theorem slotsEmpty (count : k.nbEnqueuedToCycle = k.slotLength) (none : k.nbEnqueuedToCycle = 0) (s : Fin 32) :
    k.eventQueue s = [] := by
  have below := Chain.sumPositive k.eventQueue List.length s
  unfold Clock.slotLength at count
  exact List.length_eq_zero_iff.mp (by omega)

theorem detachedMoved (free : Detached k e) (none : k.nbEnqueuedToCycle = 0) (stop counter : Int) :
    Detached {k with stopTime := stop, cycles := counter} e where
  links := free.links
  count := free.count
  slots := by
    intro s f inside
    rw [show ({k with stopTime := stop, cycles := counter} : Clock ε).eventQueue s = [] from
      slotsEmpty free.count none s] at inside
    contradiction

theorem wellLinkedMoved (good : WellLinked k) (none : k.nbEnqueuedToCycle = 0) (stop counter : Int) :
    WellLinked {k with stopTime := stop, cycles := counter} where
  links := good.links
  count := good.count
  slots := by
    intro s f inside
    rw [show ({k with stopTime := stop, cycles := counter} : Clock ε).eventQueue s = [] from
      slotsEmpty good.count none s] at inside
    contradiction

theorem syncDetached (free : Detached k e) : Detached (k.sync running time) e := by
  obtain ⟨_, same⟩ | ⟨_, none, _, _, moved⟩ := syncCases k running time
  · rwa [same]
  · rw [moved]
    exact detachedMoved free none _ _

theorem syncWellLinked (good : WellLinked k) : WellLinked (k.sync running time) := by
  obtain ⟨_, same⟩ | ⟨_, none, _, _, moved⟩ := syncCases k running time
  · rwa [same]
  · rw [moved]
    exact wellLinkedMoved good none _ _

omit [DecidableEq ε] in
theorem syncEvent (k : Clock ε) (running : Bool) (time : Int) : (k.sync running time).event = k.event := by
  obtain ⟨_, same⟩ | ⟨_, _, _, _, moved⟩ := syncCases k running time
  · rw [same]
  · rw [moved]

theorem enqueueWellLinked (good : WellLinked k) (clear : (k.event e).enqueued = false) (low : 0 ≤ n) :
    WellLinked (k.enqueue running time e n) := by
  have free : Detached ((k.setEvent e {k.event e with enqueued := true}).sync running time) e :=
    syncDetached (detachedSet (detachUnflagged good clear) _)
  have flag : (((k.setEvent e {k.event e with enqueued := true}).sync running time).event e).enqueued = true := by
    rw [syncEvent, setEventEvent, if_pos rfl]
  unfold Clock.enqueue
  dsimp only
  split
  · rename_i short
    exact enqueueToCycleLinked free flag low short.2
  · exact enqueueDelayedLinked free flag

/- Where a flagged event is found: in the delayed queue, or in exactly the slot the search
stops at. -/
theorem flaggedPlace (good : WellLinked k) (flag : (k.event e).enqueued = true) (away : e ∉ k.delayedQueue) :
    ∃ i, (List.finRange 32).find? (fun i => decide (e ∈ k.eventQueue i)) = some i ∧ e ∈ k.eventQueue i := by
  have linked := good.links e
  rw [if_pos flag] at linked
  unfold Clock.links at linked
  rw [List.count_eq_zero_of_not_mem away] at linked
  have somewhere : ∃ i, e ∈ k.eventQueue i := by
    by_contra nowhere
    have none : ∀ i ∈ Finset.univ, (k.eventQueue i).count e = 0 := by
      intro i _
      exact List.count_eq_zero_of_not_mem (fun inside => nowhere ⟨i, inside⟩)
    rw [Finset.sum_eq_zero none] at linked
    omega
  obtain ⟨i, inside⟩ := somewhere
  cases found : (List.finRange 32).find? (fun i => decide (e ∈ k.eventQueue i)) with
  | none =>
      have := List.find?_eq_none.mp found i (List.mem_finRange i)
      simp [inside] at this
  | some j => exact ⟨j, rfl, by simpa using List.find?_some found⟩

theorem unlinkDetached (good : WellLinked k) (flag : (k.event e).enqueued = true) :
    Detached (k.unlink e) e := by
  unfold Clock.unlink
  split
  · rename_i inside
    exact delayedDetached good inside (fun f => Chain.countErase e f _ inside)
  · rename_i away
    obtain ⟨i, found, inside⟩ := flaggedPlace good flag away
    rw [found]
    refine slotDetached good inside (fun f => Chain.countErase e f _ inside)
      (fun f kept => List.mem_of_mem_erase kept) ?_
    have := List.length_erase_of_mem inside
    have := List.length_pos_of_mem inside
    omega

theorem cancelWellLinked (good : WellLinked k) : WellLinked (k.cancel e) := by
  unfold Clock.cancel
  split
  · rename_i flag
    refine wellLinkedUnflagged (detachedSet (unlinkDetached good flag) _) ?_
    rw [setEventEvent, if_pos rfl]
  · exact good

theorem cancelClear (k : Clock ε) (e : ε) : ((k.cancel e).event e).enqueued = false := by
  unfold Clock.cancel
  split
  · rw [setEventEvent, if_pos rfl]
  · rename_i clear
    simpa using clear

omit [DecidableEq ε] in
theorem delayedNotSlot [DecidableEq ε] (good : WellLinked k) (delayed : e ∈ k.delayedQueue) {i : Fin 32} :
    e ∉ k.eventQueue i := by
  intro inside
  have linked := good.links e
  rw [if_pos (linkedFlag good (delayedLinked delayed))] at linked
  have here : 0 < (k.eventQueue i).count e := List.count_pos_iff.mpr inside
  have there : 0 < k.delayedQueue.count e := List.count_pos_iff.mpr delayed
  have below := Chain.sumPositive k.eventQueue (fun xs => xs.count e) i
  unfold Clock.links at linked
  omega

/- Outside the slots the cycle of an event is not tied to the counter. -/
theorem wellLinkedCycle (good : WellLinked k) (away : ∀ i, e ∉ k.eventQueue i) (c : Int) :
    WellLinked (k.setEvent e {k.event e with cycle := c}) where
  links := by
    intro f
    rw [setEventLinks, good.links, setEventEvent]
    by_cases same : f = e
    · subst f; simp
    · simp [same]
  count := good.count
  slots := by
    intro s f inside
    have other : f ≠ e := by
      rintro rfl
      exact away s inside
    rw [setEventCycle, if_neg other]
    exact good.slots s f inside

theorem enqueueToCycleEvent (k : Clock ε) (e f : ε) (n : Int) : (k.enqueueToCycle e n).event f =
    if f = e then {k.event e with cycle := n + k.cycles} else k.event f := setEventEvent _ _

theorem enqueueDelayedEvent (k : Clock ε) (e f : ε) (n : Int) : (k.enqueueDelayed e n).event f =
    if f = e then {k.event e with cycle := n + k.cycles} else k.event f := setEventEvent _ _

theorem enqueueRunningShort (k : Clock ε) (time : Int) (e : ε) (short : n < 32) :
    k.enqueue true time e n =
      (k.setEvent e {k.event e with enqueued := true}).enqueueToCycle e n := by
  unfold Clock.enqueue
  simp only [syncRunning, short, and_self, if_true]

theorem enqueueOtherwise (slow : ¬(running = true ∧ n < 32)) :
    k.enqueue running time e n =
      ((k.setEvent e {k.event e with enqueued := true}).sync running time).enqueueDelayed e n := by
  unfold Clock.enqueue
  dsimp only
  rw [if_neg slow]

omit [DecidableEq ε] in
theorem setEventSame [DecidableEq ε] (v : Event) (same : k.event e = v) : k.setEvent e v = k := by
  unfold Clock.setEvent
  rw [← same, Function.update_eq_self]

theorem unlinkFrame (k : Clock ε) (e : ε) : (k.unlink e).cycles = k.cycles ∧ (k.unlink e).event = k.event ∧
    (k.unlink e).period = k.period ∧ (k.unlink e).stopTime = k.stopTime ∧
    (k.unlink e).currentCycle = k.currentCycle ∧
    (k.unlink e).mustFlushDelayedQueue = k.mustFlushDelayedQueue := by
  unfold Clock.unlink
  split
  · exact ⟨rfl, rfl, rfl, rfl, rfl, rfl⟩
  · split <;> exact ⟨rfl, rfl, rfl, rfl, rfl, rfl⟩

theorem cancelClockFrame (k : Clock ε) (e : ε) : (k.cancel e).cycles = k.cycles ∧
    (k.cancel e).period = k.period ∧ (k.cancel e).stopTime = k.stopTime ∧
    (k.cancel e).currentCycle = k.currentCycle ∧
    (k.cancel e).mustFlushDelayedQueue = k.mustFlushDelayedQueue := by
  obtain ⟨cycles, _, period, stop, current, flush⟩ := unlinkFrame k e
  unfold Clock.cancel
  split
  · exact ⟨cycles, period, stop, current, flush⟩
  · exact ⟨rfl, rfl, rfl, rfl, rfl⟩

theorem reenqueueWellLinked (good : WellLinked k) (low : 0 ≤ n) : WellLinked (k.reenqueue running time e n) := by
  have linked : WellLinked ((k.cancel e).enqueue running time e n) :=
    enqueueWellLinked (cancelWellLinked good) (cancelClear k e) low
  unfold Clock.reenqueue
  split
  · exact good
  · dsimp only
    by_cases short : running = true ∧ n < 32
    · rw [short.1] at linked ⊢
      rw [enqueueRunningShort _ _ _ short.2] at linked ⊢
      rw [setEventSame]
      · exact linked
      · rw [enqueueToCycleEvent, if_pos rfl]
        simp only [Event.mk.injEq, true_and]
        change n + (k.cancel e).cycles = k.cycles + n
        rw [(cancelClockFrame k e).1, Int.add_comm]
    · rw [enqueueOtherwise short] at linked ⊢
      refine wellLinkedCycle linked (fun i => delayedNotSlot linked ?_) _
      exact Chain.memInsert.mpr (Or.inl rfl)

theorem applyFrequencyWellLinked (good : WellLinked k) (frequency : Int) :
    WellLinked (k.applyFrequency frequency) := by
  unfold Clock.applyFrequency
  split
  · exact ⟨good.links, good.count, good.slots⟩
  · split
    · exact ⟨good.links, good.count, good.slots⟩
    · exact good

theorem performWellLinked (good : WellLinked k) (o : Op ε) (legal : o.legal k = true) :
    WellLinked (k.perform running time o) := by
  cases o with
  | enqueue e n =>
      simp only [Op.legal, Bool.and_eq_true, Bool.not_eq_true', decide_eq_true_eq] at legal
      exact enqueueWellLinked good legal.1 legal.2
  | enqueueExt e n =>
      simp only [Op.legal, Bool.and_eq_true, Bool.not_eq_true', decide_eq_true_eq] at legal
      exact enqueueWellLinked (syncWellLinked good) (by rw [syncEvent]; exact legal.1) legal.2
  | reenqueue e n => exact reenqueueWellLinked good (by simpa [Op.legal] using legal)
  | reenqueueExt e n => exact reenqueueWellLinked (syncWellLinked good) (by simpa [Op.legal] using legal)
  | cancel e => exact cancelWellLinked good
  | sync => exact syncWellLinked good
  | applyFrequency f => exact applyFrequencyWellLinked good f

theorem popEventWellLinked {rest : List ε} (good : WellLinked k)
    (head : k.eventQueue k.currentCycle = e :: rest) : WellLinked (k.popEvent e rest) := by
  have inside : e ∈ k.eventQueue k.currentCycle := by rw [head]; exact List.mem_cons_self
  have removed : ∀ f, rest.count f + (if f = e then 1 else 0) = (k.eventQueue k.currentCycle).count f := by
    intro f
    rw [head, List.count_cons]
    by_cases same : f = e
    · simp [same]
    · simp [same, Ne.symm same]
  have free := slotDetached good inside removed
    (by intro f kept; rw [head]; exact List.mem_cons_of_mem e kept)
    (by rw [head]; rfl)
  refine wellLinkedUnflagged (e := e) (detachedSet free {k.event e with enqueued := false}) ?_
  change ((k.setEvent e _).event e).enqueued = false
  rw [setEventEvent, if_pos rfl]

def Clock.jump (k : Clock ε) (e : ε) : Clock ε :=
  if k.nbEnqueuedToCycle == 0 then {k with cycles := k.cycleOf e} else k

omit [DecidableEq ε] in
theorem jumpCases (k : Clock ε) (e : ε) :
    (k.nbEnqueuedToCycle = 0 ∧ k.jump e = {k with cycles := k.cycleOf e}) ∨
    (k.nbEnqueuedToCycle ≠ 0 ∧ k.jump e = k) := by
  unfold Clock.jump
  split
  · rename_i none
    exact .inl ⟨by simpa using none, rfl⟩
  · rename_i some
    exact .inr ⟨by simpa using some, rfl⟩

theorem flushFromCons (k : Clock ε) (e : ε) (rest : List ε) :
    ((k.cycleOf e < (k.jump e).cycles ∨ (k.jump e).cycles + 32 ≤ k.cycleOf e) ∧
      k.flushFrom (e :: rest) = {k.jump e with delayedQueue := e :: rest}) ∨
    ((k.jump e).cycles ≤ k.cycleOf e ∧ k.cycleOf e < (k.jump e).cycles + 32 ∧
      k.flushFrom (e :: rest) =
        ((k.jump e).enqueueToCycle e (k.cycleOf e - (k.jump e).cycles)).flushFrom rest) := by
  have same : (k.jump e).cycleOf e = k.cycleOf e := by
    obtain ⟨_, moved⟩ | ⟨_, moved⟩ := jumpCases k e
    · rw [moved]; rfl
    · rw [moved]
  have turn : k.flushFrom (e :: rest) =
      if (k.jump e).cycleOf e - (k.jump e).cycles < 0 ∨ 32 ≤ (k.jump e).cycleOf e - (k.jump e).cycles then
        {k.jump e with delayedQueue := e :: rest}
      else ((k.jump e).enqueueToCycle e ((k.jump e).cycleOf e - (k.jump e).cycles)).flushFrom rest := rfl
  rw [same] at turn
  rw [turn]
  split
  · rename_i stays
    exact .inl ⟨by omega, rfl⟩
  · rename_i fits
    exact .inr ⟨by omega, by omega, rfl⟩

theorem moveLinked {rest : List ε} (good : WellLinked {k with delayedQueue := e :: rest})
    (low : 0 ≤ n) (high : n < 32) : WellLinked {k.enqueueToCycle e n with delayedQueue := rest} := by
  have inside : e ∈ ({k with delayedQueue := e :: rest} : Clock ε).delayedQueue := List.mem_cons_self
  have flag := linkedFlag good (delayedLinked inside)
  have free : Detached {k with delayedQueue := rest} e := by
    refine delayedDetached good inside (fun f => ?_)
    rw [List.count_cons]
    by_cases same : f = e
    · simp [same]
    · simp [same, Ne.symm same]
  exact enqueueToCycleLinked free flag low high

theorem jumpLinked {rest : List ε} (good : WellLinked {k with delayedQueue := e :: rest}) :
    WellLinked {k.jump e with delayedQueue := e :: rest} := by
  obtain ⟨none, moved⟩ | ⟨_, moved⟩ := jumpCases k e
  · rw [moved]
    exact wellLinkedMoved good none k.stopTime (k.cycleOf e)
  · rwa [moved]

/- The walk of the flush, with the part of the delayed queue that is still ahead of it. -/
theorem flushFromWellLinked (waiting : List ε) :
    ∀ k : Clock ε, WellLinked {k with delayedQueue := waiting} → WellLinked (k.flushFrom waiting) := by
  induction waiting with
  | nil => exact fun k good => good
  | cons e rest ih =>
      intro k good
      have jump := jumpLinked good
      obtain ⟨_, stays⟩ | ⟨low, high, moves⟩ := flushFromCons k e rest
      · rwa [stays]
      · rw [moves]
        exact ih _ (moveLinked jump (by omega) (by omega))

theorem enterWellLinked (good : WellLinked k) : WellLinked k.enter := by
  unfold Clock.enter
  split
  · exact flushFromWellLinked _ _ ⟨good.links, good.count, good.slots⟩
  · exact good

theorem aheadStep {current slot : Fin 32} (other : slot ≠ current) :
    ahead (slotAt current 1) slot = ahead current slot - 1 := by
  have := current.isLt
  have := slot.isLt
  have different : slot.val ≠ current.val := fun same => other (Fin.ext same)
  unfold ahead slotAt
  simp only
  omega

/- The current slot is empty when the loop ends, so every event comes one cycle closer. -/
theorem finishWellLinked (good : WellLinked k) (done : k.eventQueue k.currentCycle = []) (time : Int) :
    WellLinked (k.finish time).1 := by
  unfold Clock.finish
  split
  · refine ⟨good.links, good.count, ?_⟩
    intro s f inside
    change k.cycleOf f = k.cycles + 1 + ahead (slotAt k.currentCycle 1) s
    have other : s ≠ k.currentCycle := by
      rintro rfl
      rw [show ({k with cycles := _, currentCycle := _, mustFlushDelayedQueue := _} : Clock ε).eventQueue _ =
        k.eventQueue k.currentCycle from rfl, done] at inside
      contradiction
    rw [aheadStep other, good.slots s f inside]
    omega
  · dsimp only
    split <;> exact ⟨good.links, good.count, good.slots⟩

end Links

section Run

variable {ε κ : Type} [DecidableEq ε] [DecidableEq κ] {s next : System ε κ}

theorem execLoopWellLinked (good : WellLinked s.clock) : WellLinked s.execLoop.clock := by
  obtain ⟨e, rest, head, popped⟩ | ⟨done, ended⟩ := execLoopCases s
  · rw [popped]
    exact popEventWellLinked good head
  · rw [ended]
    exact finishWellLinked good done _

theorem stepWellLinked {a : Action ε κ} (good : WellLinked s.clock) (taken : step s a = some next) :
    WellLinked next.clock := by
  cases stepped taken with
  | op o outside legal =>
      rw [performClock]
      exact performWellLinked good o legal
  | exec entry => exact execLoopWellLinked (s := {s with clock := s.clock.enter}) (enterWellLinked good)
  | callbackReturn e inside => exact execLoopWellLinked good
  | timeEnqueue | timeDequeue | request | start | otherReturn => exact good

omit [DecidableEq κ] in
theorem initialWellLinked (period : Int) : WellLinked (initial ε κ period).clock where
  links := by intro f; simp [initial, Clock.initial, Clock.links]
  count := by simp [initial, Clock.initial, Clock.slotLength]
  slots := by intro s f inside; simp [initial, Clock.initial] at inside

theorem runWellLinked {ok : System ε κ → Action ε κ → Prop} {trace period}
    (run : Machine.Run step ok (initial ε κ period) trace s) : WellLinked s.clock :=
  Machine.runInvariant (P := fun s => WellLinked s.clock) run (initialWellLinked period)
    (fun _ _ _ good _ taken => stepWellLinked good taken)

end Run

end Gvsoc.ClockEngine
