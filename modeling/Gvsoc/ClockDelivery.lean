import Gvsoc.ClockSteps

/-! Every callback answers one `enqueue`: the last one of its event, not yet answered and
not cancelled, and the counter then shows the cycle that call asked for. -/
namespace Gvsoc.ClockEngine
open Machine (Run)

variable {ε κ : Type} [DecidableEq ε] [DecidableEq κ]

def Action.enqueues : Action ε κ → Option (ε × Int)
  | .op (.enqueue e n) => some (e, n)
  | .op (.enqueueExt e n) => some (e, n)
  | _ => none

def delivered (a : Action ε κ) (after : System ε κ) : Option ε :=
  match a, after.control with
  | .exec, .callback e => some e
  | .callbackReturn, .callback e => some e
  | _, _ => none

def touches (e : ε) (x : Action ε κ × System ε κ) : Prop :=
  (∃ n, x.1.enqueues = some (e, n)) ∨ x.1 = .op (.cancel e) ∨ delivered x.1 x.2 = some e

def Action.reenqueues : Action ε κ → Bool
  | .op (.reenqueue _ _) => true
  | .op (.reenqueueExt _ _) => true
  | _ => false

def withoutReenqueue (_ : System ε κ) (a : Action ε κ) : Prop := a.reenqueues = false

instance (s : System ε κ) (a : Action ε κ) : Decidable (withoutReenqueue s a) :=
  inferInstanceAs (Decidable (a.reenqueues = false))

section Events

variable {k : Clock ε} {e f : ε} {n time : Int} {running : Bool}

omit [DecidableEq ε] in
theorem jumpEvent (k : Clock ε) (e : ε) : (k.jump e).event = k.event := by
  obtain ⟨_, moved⟩ | ⟨_, moved⟩ := jumpCases k e
  · rw [moved]
  · rw [moved]

/- A flush writes back the cycle an event already has. -/
theorem moveEvent (k : Clock ε) (e : ε) :
    ((k.jump e).enqueueToCycle e (k.cycleOf e - (k.jump e).cycles)).event = k.event := by
  funext f
  rw [enqueueToCycleEvent, jumpEvent]
  split
  · rename_i same
    rw [same]
    simp [Clock.cycleOf]
  · rfl

theorem flushFromEvent (waiting : List ε) : ∀ k : Clock ε, (k.flushFrom waiting).event = k.event := by
  induction waiting with
  | nil => exact fun k => rfl
  | cons e rest ih =>
      intro k
      obtain ⟨_, stays⟩ | ⟨_, _, moves⟩ := flushFromCons k e rest
      · rw [stays]
        exact jumpEvent k e
      · rw [moves, ih, moveEvent]

theorem enterEvent (k : Clock ε) : k.enter.event = k.event := by
  unfold Clock.enter
  split
  · exact flushFromEvent _ _
  · rfl

omit [DecidableEq ε] in
theorem finishEvent (k : Clock ε) (time : Int) : (k.finish time).1.event = k.event := by
  unfold Clock.finish
  split
  · rfl
  · dsimp only
    split <;> rfl

theorem enqueueEventSelf (k : Clock ε) (running : Bool) (time : Int) (e : ε) (n : Int) :
    ((k.enqueue running time e n).event e).cycle = (k.enqueue running time e n).cycles + n := by
  unfold Clock.enqueue
  dsimp only
  split
  · rw [enqueueToCycleEvent, if_pos rfl]
    exact Int.add_comm _ _
  · rw [enqueueDelayedEvent, if_pos rfl]
    exact Int.add_comm _ _

theorem enqueueEventOther (other : f ≠ e) : (k.enqueue running time e n).event f = k.event f := by
  have flagged : ((k.setEvent e {k.event e with enqueued := true}).sync running time).event f = k.event f := by
    rw [syncEvent, setEventEvent, if_neg other]
  unfold Clock.enqueue
  dsimp only
  split
  · rw [enqueueToCycleEvent, if_neg other, flagged]
  · rw [enqueueDelayedEvent, if_neg other, flagged]

theorem cancelEventOther (other : f ≠ e) : (k.cancel e).event f = k.event f := by
  unfold Clock.cancel
  split
  · rw [setEventEvent, if_neg other, (unlinkFrame k e).2.1]
  · rfl

theorem popEventEvent {rest : List ε} : (k.popEvent e rest).event f =
    if f = e then {k.event e with enqueued := false} else k.event f := setEventEvent _ _

omit [DecidableEq ε] in
theorem applyFrequencyEvent (k : Clock ε) (frequency : Int) : (k.applyFrequency frequency).event = k.event := by
  unfold Clock.applyFrequency
  split
  · rfl
  · split <;> rfl

end Events

section History

variable {s next : System ε κ} {e : ε}

theorem execLoopPending (pending : (s.execLoop.clock.event e).enqueued = true) :
    s.execLoop.clock.event e = s.clock.event e ∧ s.execLoop.control ≠ .callback e := by
  obtain ⟨f, rest, head, popped⟩ | ⟨_, ended⟩ := execLoopCases s
  · rw [popped] at pending ⊢
    change ((s.clock.popEvent f rest).event e).enqueued = true at pending
    change (s.clock.popEvent f rest).event e = _ ∧ Control.callback f ≠ Control.callback e
    rw [popEventEvent] at pending ⊢
    by_cases same : e = f
    · simp [same] at pending
    · exact ⟨if_neg same, fun h => same (Control.callback.inj h).symm⟩
  · rw [ended]
    exact ⟨congrFun (finishEvent _ _) e, controlNotCallback _ e⟩

theorem stepPending {a : Action ε κ} (allowed : withoutReenqueue s a) (taken : step s a = some next)
    (pending : (next.clock.event e).enqueued = true) (kept : ∀ n, a.enqueues ≠ some (e, n)) :
    next.clock.event e = s.clock.event e ∧ ¬touches e (a, next) := by
  have quiet : a ≠ .op (.cancel e) → delivered a next ≠ some e → ¬touches e (a, next) := by
    intro h1 h2 h
    rcases h with ⟨n, h⟩ | h | h
    · exact kept n h
    · exact h1 h
    · exact h2 h
  cases stepped taken with
  | op o outside legal =>
      rw [performClock] at pending ⊢
      cases o with
      | enqueue f n =>
          have other : e ≠ f := fun same => kept n (by simp [Action.enqueues, same])
          exact ⟨enqueueEventOther other, quiet (by simp) (by simp [delivered])⟩
      | enqueueExt f n =>
          have other : e ≠ f := fun same => kept n (by simp [Action.enqueues, same])
          refine ⟨(enqueueEventOther other).trans ?_, quiet (by simp) (by simp [delivered])⟩
          rw [syncEvent]
      | reenqueue f n => exact absurd allowed (by simp [withoutReenqueue, Action.reenqueues])
      | reenqueueExt f n => exact absurd allowed (by simp [withoutReenqueue, Action.reenqueues])
      | cancel f =>
          by_cases same : e = f
          · subst f
            rw [show ((s.clock.perform s.running s.engine.time (.cancel e)).event e).enqueued = false from
              cancelClear _ _] at pending
            contradiction
          · exact ⟨cancelEventOther same, quiet (by simp [Ne.symm same]) (by simp [delivered])⟩
      | sync => exact ⟨congrFun (syncEvent _ _ _) e, quiet (by simp) (by simp [delivered])⟩
      | applyFrequency f => exact ⟨congrFun (applyFrequencyEvent _ _) e, quiet (by simp) (by simp [delivered])⟩
  | exec entry =>
      obtain ⟨same, away⟩ := execLoopPending (s := {s with clock := s.clock.enter}) pending
      refine ⟨same.trans (congrFun (enterEvent _) e), quiet (by simp) ?_⟩
      intro now
      simp only [delivered] at now
      split at now <;> simp_all [System.exec]
  | callbackReturn f inside =>
      obtain ⟨same, away⟩ := execLoopPending pending
      refine ⟨same, quiet (by simp) ?_⟩
      intro now
      simp only [delivered] at now
      split at now <;> simp_all
  | timeEnqueue | timeDequeue | request | start | otherReturn =>
      exact ⟨rfl, quiet (by simp) (by simp [delivered])⟩

theorem stepEnqueues {a : Action ε κ} {n : Int} (taken : step s a = some next)
    (now : a.enqueues = some (e, n)) : (next.clock.event e).cycle = next.clock.cycles + n := by
  cases stepped taken with
  | op o outside legal =>
      rw [performClock]
      cases o with
      | enqueue f m =>
          simp only [Action.enqueues, Option.some.injEq, Prod.mk.injEq] at now
          rw [← now.1, ← now.2]
          exact enqueueEventSelf _ _ _ _ _
      | enqueueExt f m =>
          simp only [Action.enqueues, Option.some.injEq, Prod.mk.injEq] at now
          rw [← now.1, ← now.2]
          exact enqueueEventSelf _ _ _ _ _
      | _ => simp [Action.enqueues] at now
  | _ => simp [Action.enqueues] at now

def Asked (trace : List (Action ε κ × System ε κ)) (e : ε) (due : Int) : Prop :=
  ∃ before a after rest n, trace = before ++ (a, after) :: rest ∧ a.enqueues = some (e, n) ∧
    due = after.clock.cycles + n ∧ ∀ x ∈ rest, ¬touches e x

theorem pendingAsked {period trace} (run : Run step withoutReenqueue (initial ε κ period) trace s) :
    ∀ e, (s.clock.event e).enqueued = true → Asked trace e (s.clock.event e).cycle := by
  induction run with
  | nil => intro e pending; simp [initial, Clock.initial] at pending
  | @snoc trace mid a last before allowed taken ih =>
      intro e pending
      by_cases now : ∃ n, a.enqueues = some (e, n)
      · obtain ⟨n, now⟩ := now
        exact ⟨trace, a, last, [], n, rfl, now, stepEnqueues taken now, by simp⟩
      · have kept : ∀ n, a.enqueues ≠ some (e, n) := fun n h => now ⟨n, h⟩
        obtain ⟨same, untouched⟩ := stepPending allowed taken pending kept
        rw [same] at pending ⊢
        obtain ⟨early, b, after, rest, n, shape, asked, due, quiet⟩ := ih e pending
        refine ⟨early, b, after, rest ++ [(a, last)], n, by simp [shape], asked, due, ?_⟩
        intro x inside
        rcases List.mem_append.mp inside with old | new
        · exact quiet x old
        · rw [List.mem_singleton.mp new]
          exact untouched

theorem execLoopDelivers (good : WellLinked s.clock) (now : s.execLoop.control = .callback e) :
    (s.clock.event e).enqueued = true ∧ s.execLoop.clock.cycles = (s.clock.event e).cycle := by
  obtain ⟨f, rest, head, popped⟩ | ⟨_, ended⟩ := execLoopCases s
  · rw [popped] at now ⊢
    have same : f = e := Control.callback.inj now
    subst f
    have inside : e ∈ s.clock.eventQueue s.clock.currentCycle := by rw [head]; exact List.mem_cons_self
    refine ⟨linkedFlag good (slotLinked inside), ?_⟩
    have due := good.slots _ e inside
    rw [show ahead s.clock.currentCycle s.clock.currentCycle = 0 by simp [ahead], Int.add_zero] at due
    exact due.symm
  · rw [ended] at now
    exact absurd now (controlNotCallback _ e)

theorem stepDelivers {a : Action ε κ} (good : WellLinked s.clock) (taken : step s a = some next)
    (now : delivered a next = some e) :
    (s.clock.event e).enqueued = true ∧ next.clock.cycles = (s.clock.event e).cycle := by
  cases stepped taken with
  | exec entry =>
      have here : s.exec.control = .callback e := by
        simp only [delivered] at now
        split at now <;> simp_all
      have := execLoopDelivers (s := {s with clock := s.clock.enter}) (enterWellLinked good) here
      rwa [enterEvent] at this
  | callbackReturn f inside =>
      have here : s.execLoop.control = .callback e := by
        simp only [delivered] at now
        split at now <;> simp_all
      exact execLoopDelivers good here
  | _ => simp [delivered] at now

/- In every state each event is linked once if its flag is set and nowhere otherwise, the
counts agree, and a slot holds the events of its cycle. Each callback in the run comes
after an `enqueue` of its event that nothing has answered or cancelled since, and runs
when the counter is that call's counter plus its delay. -/
theorem eventDelivery {period trace} (run : Run step withoutReenqueue (initial ε κ period) trace s) :
    (∀ e, s.clock.links e = if (s.clock.event e).enqueued = true then 1 else 0) ∧
    s.clock.nbEnqueuedToCycle = s.clock.slotLength ∧
    (∀ slot, ∀ e ∈ s.clock.eventQueue slot,
      (s.clock.event e).cycle = s.clock.cycles + ((slot.val : Int) - s.clock.currentCycle.val) % 32) ∧
    (∀ before a after rest e, trace = before ++ (a, after) :: rest → delivered a after = some e →
      ∃ early b asked mid n, before = early ++ (b, asked) :: mid ∧ b.enqueues = some (e, n) ∧
        after.clock.cycles = asked.clock.cycles + n ∧ ∀ x ∈ mid, ¬touches e x) := by
  have good := runWellLinked run
  refine ⟨good.links, good.count, good.slots, ?_⟩
  rintro before a after rest e rfl now
  obtain ⟨start, earlier, _, taken, _⟩ := Machine.runPrefix run
  obtain ⟨pending, due⟩ := stepDelivers (runWellLinked earlier) taken now
  obtain ⟨early, b, asked, mid, n, shape, enqueues, cycle, quiet⟩ := pendingAsked earlier e pending
  exact ⟨early, b, asked, mid, n, shape, enqueues, due.trans cycle, quiet⟩

def twoEvents : List (Action (Fin 2) (Fin 1)) :=
  [.op (.enqueue 0 0), .request true, .start, .exec, .op (.enqueue 1 3), .callbackReturn,
    .exec, .exec, .exec]

theorem eventDeliveryTwoEvents : ∃ trace s,
    Run step withoutReenqueue (initial (Fin 2) (Fin 1) 1000) trace s ∧ trace.map Prod.fst = twoEvents ∧
    s.control = .callback 1 ∧ s.clock.cycles = 3 ∧ s.engine.time = 3000 ∧
    (∀ e, s.clock.links e = if (s.clock.event e).enqueued = true then 1 else 0) := by
  have done : (Machine.follow step withoutReenqueue (initial (Fin 2) (Fin 1) 1000) twoEvents).isSome = true := rfl
  obtain ⟨trace, run, labels⟩ := Machine.followRun (Option.some_get done).symm
  exact ⟨trace, _, run, labels, rfl, rfl, rfl, (eventDelivery run).1⟩

end History

end Gvsoc.ClockEngine
