import Gvsoc.ClockPhase

/-! Cancelling an event and the others. As long as the engine keeps its phase an event runs
at the time its own cycle has on the line, so what one run does differently from another
does not matter to it. A `cancel` keeps the phase unless it takes away the event that the
next wake-up was scheduled for. -/
namespace Gvsoc.ClockEngine
open TimeEngine (Engine Placed Linked Scheduled)
open Machine (Run)

def Op.target {ε : Type} : Op ε → Option ε
  | .enqueue e _ | .enqueueExt e _ | .reenqueue e _ | .reenqueueExt e _ | .cancel e => some e
  | .sync | .applyFrequency _ => none

variable {ε κ : Type} [DecidableEq ε] [DecidableEq κ] {s next : System ε κ} {p phase : Int} {z : ε}

/- An operation keeps the phase: it comes from the engine's own callbacks, or leaves the
wake-up right. -/
def InStep (s : System ε κ) : Op ε → Prop
  | .enqueue _ n | .enqueueExt _ n => s.running = true ∨ EnqueueFits s.clock.period
      (s.engine.nextTime .clock - s.clock.wakeCycle * s.clock.period) s n
  | .reenqueue e n => s.running = true ∨ s.clock.keepsEarlier e n = true
  | .reenqueueExt e n => s.running = true ∨
      ((Settled s.clock s.running s.engine.time ∨ s.clock.mustFlushDelayedQueue = true) ∧
        (s.clock.sync s.running s.engine.time).keepsEarlier e n = true)
  | .cancel e => s.running = true ∨ s.clock.cancelKeepsWake e
  | .sync => s.running = true ∨ Settled s.clock s.running s.engine.time ∨ s.clock.mustFlushDelayedQueue = true
  | .applyFrequency _ => False

def Steady (z : ε) (s : System ε κ) : Action ε κ → Prop
  | .op o => o.target ≠ some z ∧ InStep s o
  | _ => True

def ConstantFrequency (s : System ε κ) (a : Action ε κ) : Prop :=
  Allowed aheadUnlessFlushed s a ∧ a.changesFrequency = false

section Decidable

instance (p phase : Int) (s : System ε κ) (n : Int) : Decidable (EnqueueFits p phase s n) :=
  inferInstanceAs (Decidable (_ ∨ _))

instance (s : System ε κ) : ∀ o, Decidable (InStep s o)
  | .enqueue _ _ | .enqueueExt _ _ | .reenqueue _ _ | .reenqueueExt _ _ | .cancel _ | .sync =>
      inferInstanceAs (Decidable (_ ∨ _))
  | .applyFrequency _ => .isFalse (fun h => h)

instance (z : ε) (s : System ε κ) : ∀ a, Decidable (Steady z s a)
  | .op _ => inferInstanceAs (Decidable (_ ∧ _))
  | .timeEnqueue .. | .timeDequeue _ | .request _ | .start | .exec | .callbackReturn | .otherReturn _ =>
      .isTrue trivial

instance (s : System ε κ) (a : Action ε κ) : Decidable (ConstantFrequency s a) :=
  inferInstanceAs (Decidable (_ ∧ _))

end Decidable

section Steps

omit [DecidableEq κ] in
theorem stepInAllowed {a : Action ε κ} (steady : Steady z s a) : ConstantFrequency s a := by
  have resync : s.running = true ∨ Settled s.clock s.running s.engine.time ∨ s.clock.mustFlushDelayedQueue = true →
      ResyncOk aheadUnlessFlushed s.clock.mustFlushDelayedQueue s.clock s.running s.engine.time := by
    rintro (running | settled | flush)
    · exact .inl (.inl running)
    · exact .inl settled
    · exact .inr (fun _ _ fresh => by simp [flush] at fresh)
  cases a with
  | op o =>
      obtain ⟨_, inStep⟩ := steady
      cases o with
      | enqueue e n => exact ⟨.inr (fun _ _ => by simp [aheadUnlessFlushed]), rfl⟩
      | enqueueExt e n => exact ⟨.inr (fun _ _ => by simp [aheadUnlessFlushed]), rfl⟩
      | reenqueue e n =>
          refine ⟨?_, rfl⟩
          rcases inStep with running | early
          · exact .inr (.inl (.inl running))
          · exact .inl early
      | reenqueueExt e n =>
          refine ⟨?_, rfl⟩
          rcases inStep with running | ⟨calm, early⟩
          · exact ⟨.inl (.inl running), .inr (.inl (.inl running))⟩
          · exact ⟨resync (.inr calm), .inl early⟩
      | cancel e => exact ⟨trivial, rfl⟩
      | sync => exact ⟨resync inStep, rfl⟩
      | applyFrequency f => exact absurd inStep (by simp [InStep])
  | timeEnqueue | timeDequeue | request | start | exec | callbackReturn | otherReturn => exact ⟨trivial, rfl⟩

theorem performEventOther (k : Clock ε) (running : Bool) (time : Int) (o : Op ε) (other : o.target ≠ some z) :
    (k.perform running time o).event z = k.event z := by
  have again : ∀ (k : Clock ε) e n, z ≠ e → (k.reenqueue running time e n).event z = k.event z := by
    intro k e n other
    unfold Clock.reenqueue
    split
    · rfl
    · dsimp only
      rw [setEventEvent, if_neg other, enqueueEventOther other, cancelEventOther other]
  cases o with
  | enqueue e n => exact enqueueEventOther (fun same => other (by simp [Op.target, same]))
  | enqueueExt e n =>
      exact (enqueueEventOther (fun same => other (by simp [Op.target, same]))).trans (congrFun (syncEvent _ _ _) z)
  | reenqueue e n => exact again _ e n (fun same => other (by simp [Op.target, same]))
  | reenqueueExt e n =>
      exact (again _ e n (fun same => other (by simp [Op.target, same]))).trans (congrFun (syncEvent _ _ _) z)
  | cancel e => exact cancelEventOther (fun same => other (by simp [Op.target, same]))
  | sync => exact congrFun (syncEvent _ _ _) z
  | applyFrequency f => exact congrFun (applyFrequencyEvent _ _) z

theorem untouchedEvent {a : Action ε κ} (untouched : ∀ o, a = .op o → o.target ≠ some z) (taken : step s a = some next)
    (pending : (next.clock.event z).enqueued = true) : next.clock.event z = s.clock.event z := by
  cases stepped taken with
  | op o outside legal =>
      rw [performClock]
      exact performEventOther _ _ _ o (untouched o rfl)
  | exec entry =>
      exact (execLoopPending (s := {s with clock := s.clock.enter}) pending).1.trans (congrFun (enterEvent _) z)
  | callbackReturn e inside => exact (execLoopPending pending).1
  | timeEnqueue | timeDequeue | request | start | otherReturn => rfl

omit [DecidableEq κ] in
theorem steadyUntouched {a : Action ε κ} (steady : Steady z s a) : ∀ o, a = .op o → o.target ≠ some z := by
  rintro o rfl
  exact steady.1

theorem performInPhase (positive : 0 < p) (ready : Ready p s) (good : InPhase p phase s) (outside : s.control ≠ .entry)
    (some : s.clock.hasEvents = true) (o : Op ε) (legal : o.legal s.clock = true) (inStep : InStep s o) :
    InPhase p phase (s.perform o) := by
  cases idle : s.running with
  | true => exact insideInPhase idle outside good o
  | false =>
      have listed := ready.awake.listed idle
      have flag := listed.mpr ⟨by rw [ready.period]; omega, some⟩
      have fits : ∀ n, EnqueueFits s.clock.period
          (s.engine.nextTime .clock - s.clock.wakeCycle * s.clock.period) s n → EnqueueFits p phase s n := by
        intro n
        have aim := good.waiting idle flag
        rw [ready.period, aim, show s.clock.wakeCycle * p + phase - s.clock.wakeCycle * p = phase by omega]
        exact id
      cases o with
      | enqueue e n =>
          simp only [Op.legal, Bool.and_eq_true, Bool.not_eq_true', decide_eq_true_eq] at legal
          exact enqueueInPhase ready.sound outside idle listed ready.period positive good legal.1
            (fits n (inStep.resolve_left (by simp [idle])))
      | enqueueExt e n =>
          simp only [Op.legal, Bool.and_eq_true, Bool.not_eq_true', decide_eq_true_eq] at legal
          change InPhase p phase (s.enqueueExt e n)
          rw [enqueueExtSame ready.sound.period]
          exact enqueueInPhase ready.sound outside idle listed ready.period positive good legal.1
            (fits n (inStep.resolve_left (by simp [idle])))
      | reenqueue e n =>
          have early := inStep.resolve_left (by simp [idle])
          change InPhase p phase (s.reenqueue e n)
          rw [reenqueueSplit, if_pos (by simpa [Clock.keepsEarlier] using early)]
          exact good
      | reenqueueExt e n =>
          obtain ⟨calm, early⟩ := inStep.resolve_left (by simp [idle])
          change s.sync.clock.keepsEarlier e n = true at early
          change InPhase p phase (s.sync.reenqueue e n)
          rw [reenqueueSplit, if_pos (by simpa [Clock.keepsEarlier] using early)]
          exact syncInPhase ready.sound outside idle listed good calm
      | cancel e => exact cancelInPhase ready.sound outside idle good (inStep.resolve_left (by simp [idle]))
      | sync => exact syncInPhase ready.sound outside idle listed good (inStep.resolve_left (by simp [idle]))
      | applyFrequency f => exact absurd inStep (by simp [InStep])

theorem steadyInPhase {a : Action ε κ} (positive : 0 < p) (ready : Ready p s) (good : InPhase p phase s)
    (pending : (s.clock.event z).enqueued = true) (steady : Steady z s a) (taken : step s a = some next) :
    InPhase p phase next := by
  by_cases quiet : ∃ o, a = .op o
  · obtain ⟨o, rfl⟩ := quiet
    cases stepped taken with
    | op _ outside legal =>
        exact performInPhase positive ready good outside (pendingHasEvents ready.sound.linked pending) o legal steady.2
  · exact quietInPhase ready good (fun o h => quiet ⟨o, h⟩) taken

omit [DecidableEq κ] in
theorem pendingDeadline (positive : 0 < p) (ready : Ready p s) (good : InPhase p phase s)
    (pending : (s.clock.event z).enqueued = true) : s.engine.time ≤ (s.clock.event z).cycle * p + phase := by
  have sound := ready.sound
  have ahead := ready.ahead
  have scaled : ∀ c, c ≤ (s.clock.event z).cycle → c * p + phase ≤ (s.clock.event z).cycle * p + phase := by
    intro c low
    have := Int.mul_le_mul_of_nonneg_right low (Int.le_of_lt positive)
    omega
  have outside : s.control ≠ .entry → s.control.busy = false →
      s.engine.time ≤ (s.clock.event z).cycle * p + phase := by
    intro outside idle
    rw [idle] at ahead
    have idle : s.running = false := (soundRunning sound outside).trans idle
    have flag := (ready.awake.listed idle).mpr
      ⟨by rw [ready.period]; omega, pendingHasEvents sound.linked pending⟩
    have future := ready.scheduled.future .clock ((sound.placed.linked.flag .clock).mpr flag)
    rw [good.waiting idle flag] at future
    exact le_trans future (scaled _ (wakeFirst sound.linked ahead pending))
  cases control : s.control with
  | entry =>
      rw [control] at ahead
      rw [good.entry control]
      exact scaled _ (wakeFirst sound.linked ahead pending)
  | callback e =>
      rw [control] at ahead
      rw [good.callback e control]
      refine scaled _ ?_
      by_cases inside : z ∈ s.clock.delayedQueue
      · exact le_of_lt (windowSlots (ahead.window (.inl rfl)) z inside)
      · obtain ⟨i, _, slot⟩ := flaggedPlace sound.linked pending inside
        have due := sound.linked.slots i z slot
        unfold Clock.cycleOf ClockEngine.ahead at due
        omega
  | waiting => exact outside (by simp [control]) (by rw [control]; rfl)
  | other k => exact outside (by simp [control]) (by rw [control]; rfl)

end Steps

section Runs

variable {trace : List (Action ε κ × System ε κ)} {last : System ε κ}

theorem steadyRun (positive : 0 < p) (ready : Ready p s) (good : InPhase p phase s)
    (run : Run step (Steady z) s trace last) :
    Ready p last ∧ ((last.clock.event z).enqueued = true →
      InPhase p phase last ∧ last.clock.event z = s.clock.event z) :=
  Machine.runInvariant
    (P := fun u => Ready p u ∧ ((u.clock.event z).enqueued = true →
      InPhase p phase u ∧ u.clock.event z = s.clock.event z))
    run ⟨ready, fun _ => ⟨good, rfl⟩⟩
    (by
      intro u a v both steady taken
      obtain ⟨allowed, constant⟩ := stepInAllowed steady
      refine ⟨stepReady both.1 constant allowed taken, fun pending => ?_⟩
      have same := untouchedEvent (steadyUntouched steady) taken pending
      have before : (u.clock.event z).enqueued = true := by rwa [same] at pending
      obtain ⟨phase, first⟩ := both.2 before
      exact ⟨steadyInPhase positive both.1 phase before steady taken, same.trans first⟩)

omit [DecidableEq ε] [DecidableEq κ] in
theorem deliveredQuiet {a : Action ε κ} (now : delivered a next = some z) :
    (∀ o, a ≠ .op o) ∧ next.control = .callback z := by
  unfold delivered at now
  split at now <;> simp_all

theorem execLoopLeaves (pending : (s.clock.event z).enqueued = true) (gone : (s.execLoop.clock.event z).enqueued = false) :
    s.execLoop.control = .callback z := by
  obtain ⟨e, rest, _, popped⟩ | ⟨_, ended⟩ := execLoopCases s
  · rw [popped] at gone ⊢
    change ((s.clock.popEvent e rest).event z).enqueued = false at gone
    rw [popEventEvent] at gone
    by_cases same : z = e
    · rw [same]
    · rw [if_neg same, pending] at gone
      contradiction
  · rw [ended] at gone
    change ((s.clock.finish s.engine.time).1.event z).enqueued = false at gone
    rw [finishEvent, pending] at gone
    contradiction

theorem steadyLeaves {a : Action ε κ} (steady : Steady z s a) (taken : step s a = some next)
    (pending : (s.clock.event z).enqueued = true) (gone : (next.clock.event z).enqueued = false) :
    delivered a next = some z := by
  cases stepped taken with
  | op o outside legal =>
      rw [performClock, performEventOther _ _ _ o steady.1, pending] at gone
      contradiction
  | exec entry =>
      have inside := execLoopLeaves (s := {s with clock := s.clock.enter}) (z := z)
        (by change (s.clock.enter.event z).enqueued = true; rwa [enterEvent]) gone
      unfold delivered System.exec
      rw [inside]
  | callbackReturn e inside =>
      have inside := execLoopLeaves pending gone
      unfold delivered
      rw [inside]
  | timeEnqueue | timeDequeue | request | start | otherReturn =>
      rw [show _ = s.clock from rfl, pending] at gone
      contradiction

structure Executes (z : ε) (time cycles : Int) (trace : List (Action ε κ × System ε κ)) (last : System ε κ) : Prop where
  moment : ∀ x ∈ trace, delivered x.1 x.2 = some z → x.2.engine.time = time ∧ x.2.clock.cycles = cycles
  done : (∃ x ∈ trace, delivered x.1 x.2 = some z) ∨
    ((last.clock.event z).enqueued = true ∧ last.engine.time ≤ time)

theorem steadyDone (run : Run step (Steady z) s trace last) (pending : (s.clock.event z).enqueued = true) :
    (∃ x ∈ trace, delivered x.1 x.2 = some z) ∨ (last.clock.event z).enqueued = true := by
  induction run with
  | nil => exact .inr pending
  | @snoc trace mid a last before steady taken ih =>
      rcases ih with ⟨x, inside, now⟩ | still
      · exact .inl ⟨x, List.mem_append_left _ inside, now⟩
      · cases after : (last.clock.event z).enqueued with
        | true => exact .inr rfl
        | false => exact .inl ⟨(a, last), by simp, steadyLeaves steady taken still after⟩

theorem phaseExecutes (positive : 0 < p) (ready : Ready p s) (good : InPhase p phase s)
    (pending : (s.clock.event z).enqueued = true) (run : Run step (Steady z) s trace last) :
    Executes z ((s.clock.event z).cycle * p + phase) (s.clock.event z).cycle trace last where
  moment := by
    rintro ⟨a, after⟩ inside now
    obtain ⟨before, rest, rfl⟩ := List.append_of_mem inside
    obtain ⟨start, earlier, _, taken, _⟩ := Machine.runPrefix run
    obtain ⟨readyStart, kept⟩ := steadyRun positive ready good earlier
    obtain ⟨waiting, due⟩ := stepDelivers readyStart.sound.linked taken now
    obtain ⟨phase, same⟩ := kept waiting
    obtain ⟨quiet, inside⟩ := deliveredQuiet now
    have line := (quietInPhase readyStart phase quiet taken).callback z inside
    rw [same] at due
    rw [due] at line
    exact ⟨line, due⟩
  done := by
    rcases steadyDone run pending with now | still
    · exact .inl now
    · obtain ⟨readyLast, kept⟩ := steadyRun positive ready good run
      obtain ⟨phase, same⟩ := kept still
      have deadline := pendingDeadline positive readyLast phase still
      rw [same] at deadline
      exact .inr ⟨still, deadline⟩

theorem runReady {early : List (Action ε κ × System ε κ)} (positive : 0 < p)
    (run : Run step ConstantFrequency (initial ε κ p) early s) : Ready p s :=
  Machine.runInvariant (P := Ready p) run (initialReady (le_of_lt positive))
    (fun _ _ _ ready allowed taken => stepReady ready allowed.2 allowed.1 taken)

/- The cancel of an idle engine that misses the wake-up moves the phase. -/
theorem cancelMoves (positive : 0 < p) (ready : Ready p s) (good : InPhase p phase s) (idle : s.running = false) {x : ε}
    (misses : ¬s.clock.cancelKeepsWake x) {moved : Int} (after : InPhase p moved (s.cancel x)) : moved ≠ phase := by
  obtain ⟨left, apart⟩ := cancelMissesWake ready.sound.linked misses
  obtain ⟨clock, _, engine⟩ := cancelParts s x
  have pending : (s.clock.event x).enqueued = true := by
    cases flag : (s.clock.event x).enqueued with
    | true => rfl
    | false => exact absurd (.inl flag) misses
  have flag : (s.engine.client .clock).isEnqueued = true := (ready.awake.listed idle).mpr
    ⟨by rw [ready.period]; omega, pendingHasEvents ready.sound.linked pending⟩
  have still : (s.cancel x).running = false := (cancelFrame s x).1.trans idle
  have before := good.waiting idle flag
  have later := after.waiting still (by rw [engine, if_pos (.inr (.inl left))]; exact flag)
  rw [engine, if_pos (.inr (.inl left)), clock] at later
  intro same
  have line : (s.clock.cancel x).wakeCycle * p = s.clock.wakeCycle * p := by omega
  exact apart (Int.eq_of_mul_eq_mul_right (by omega) line)

/- From one state, one run goes on and another first cancels `x`. Every other pending event
is executed at the same time and at the same count of cycles in both if the cancel leaves
the wake-up right, and when it does not, never. -/
theorem cancelUndisturbed {early left right : List (Action ε κ × System ε κ)} {mid a b : System ε κ} {x : ε}
    (positive : 0 < p) (reached : Run step ConstantFrequency (initial ε κ p) early s) (other : z ≠ x)
    (pending : (s.clock.event z).enqueued = true) (runA : Run step (Steady z) s left a)
    (cancelled : step s (.op (.cancel x)) = some mid) (runB : Run step (Steady z) mid right b) :
    (s.running = true ∨ s.clock.cancelKeepsWake x →
      ∃ time cycles, Executes z time cycles left a ∧ Executes z time cycles right b) ∧
    ((∃ time cycles, Executes z time cycles left a ∧ Executes z time cycles right b) →
      (∃ i ∈ left, delivered i.1 i.2 = some z) → (∃ i ∈ right, delivered i.1 i.2 = some z) →
      s.running = true ∨ s.clock.cancelKeepsWake x) := by
  have ready := runReady positive reached
  obtain ⟨phase, good⟩ := phaseExists ready.sound p
  have readyMid : Ready p mid := stepReady (a := .op (.cancel x)) ready rfl trivial cancelled
  have split : mid = s.cancel x ∧ s.control ≠ .entry := by
    cases stepped cancelled with
    | op _ outside _ => exact ⟨rfl, outside⟩
  obtain ⟨rfl, outside⟩ := split
  have same : (s.cancel x).clock.event z = s.clock.event z := by
    rw [(cancelParts s x).1]
    exact cancelEventOther other
  have executesA := phaseExecutes positive ready good pending runA
  constructor
  · intro keeps
    have goodMid : InPhase p phase (s.cancel x) := by
      cases idle : s.running with
      | true => exact insideInPhase idle outside good (.cancel x)
      | false => exact cancelInPhase ready.sound outside idle good (keeps.resolve_left (by simp [idle]))
    have executesB := phaseExecutes positive readyMid goodMid (by rwa [same]) runB
    rw [same] at executesB
    exact ⟨_, _, executesA, executesB⟩
  · rintro ⟨time, cycles, both, bothB⟩ ⟨i, inA, nowA⟩ ⟨j, inB, nowB⟩
    by_contra misses
    simp only [not_or, Bool.not_eq_true] at misses
    obtain ⟨moved, goodMid⟩ := phaseExists readyMid.sound p
    have apart := cancelMoves positive ready good misses.1 misses.2 goodMid
    have executesB := phaseExecutes positive readyMid goodMid (by rwa [same]) runB
    rw [same] at executesB
    have timeA := (both.moment i inA nowA).1.symm.trans (executesA.moment i inA nowA).1
    have timeB := (bothB.moment j inB nowB).1.symm.trans (executesB.moment j inB nowB).1
    omega

def nearAndFar : List (Action (Fin 2) (Fin 1)) := [.op (.enqueue 0 10), .op (.enqueue 1 100), .request true]

theorem nearAndFarDone :
    (Machine.follow step ConstantFrequency (initial (Fin 2) (Fin 1) 10000) nearAndFar).isSome = true := rfl

def nearAndFarState : System (Fin 2) (Fin 1) := Option.get _ nearAndFarDone

theorem nearRunsFirst :
    (Machine.follow step (Steady 1) nearAndFarState [.start, .exec, .callbackReturn, .exec]).isSome = true := rfl

/- Cancelling the far one leaves the near one at its time. -/
theorem cancelUndisturbedFar : ∃ early s left a mid right b,
    Run step ConstantFrequency (initial (Fin 2) (Fin 1) 10000) early s ∧ s.clock.cancelKeepsWake 1 ∧
    Run step (Steady 0) s left a ∧ a.control = .callback 0 ∧ a.engine.time = 100000 ∧
    step s (.op (.cancel 1)) = some mid ∧ Run step (Steady 0) mid right b ∧ b.control = .callback 0 ∧
    ∃ time cycles, Executes 0 time cycles left a ∧ Executes 0 time cycles right b := by
  obtain ⟨early, reached, _⟩ := Machine.followRun (Option.some_get nearAndFarDone).symm
  have doneA : (Machine.follow step (Steady 0) nearAndFarState [.start, .exec]).isSome = true := rfl
  obtain ⟨left, runA, _⟩ := Machine.followRun (Option.some_get doneA).symm
  have taken : (step nearAndFarState (.op (.cancel 1))).isSome = true := rfl
  have doneB : (Machine.follow step (Steady 0) (Option.get _ taken) [.start, .exec]).isSome = true := rfl
  obtain ⟨right, runB, _⟩ := Machine.followRun (Option.some_get doneB).symm
  have keeps : nearAndFarState.clock.cancelKeepsWake 1 := of_decide_eq_true rfl
  exact ⟨early, _, left, _, _, right, _, reached, keeps, runA, rfl, rfl, (Option.some_get taken).symm, runB, rfl,
    (cancelUndisturbed (by decide) reached (by decide) rfl runA (Option.some_get taken).symm runB).1 (.inr keeps)⟩

/- Cancelling the near one leaves its wake-up behind. The flush there takes the far one, and
runs it at 100000 instead of 1000000. -/
theorem cancelDisturbs : ∃ early s left a mid right b,
    Run step ConstantFrequency (initial (Fin 2) (Fin 1) 10000) early s ∧
    (s.clock.event 0).enqueued = true ∧ (s.clock.event 1).enqueued = true ∧
    Run step (Steady 1) s left a ∧ left.map Prod.fst = [.start, .exec, .callbackReturn, .exec] ∧
    a.control = .callback 1 ∧ a.engine.time = 1000000 ∧
    step s (.op (.cancel 0)) = some mid ∧
    Run step (Steady 1) mid right b ∧ right.map Prod.fst = [.start, .exec] ∧
    b.control = .callback 1 ∧ b.engine.time = 100000 := by
  obtain ⟨early, reached, _⟩ := Machine.followRun (Option.some_get nearAndFarDone).symm
  obtain ⟨left, runA, labelsA⟩ := Machine.followRun (Option.some_get nearRunsFirst).symm
  have taken : (step nearAndFarState (.op (.cancel 0))).isSome = true := rfl
  have doneB : (Machine.follow step (Steady 1) (Option.get _ taken) [.start, .exec]).isSome = true := rfl
  obtain ⟨right, runB, labelsB⟩ := Machine.followRun (Option.some_get doneB).symm
  exact ⟨early, _, left, _, _, right, _, reached, rfl, rfl, runA, labelsA, by decide +kernel, by decide +kernel,
    (Option.some_get taken).symm, runB, labelsB, rfl, rfl⟩

end Runs

end Gvsoc.ClockEngine
