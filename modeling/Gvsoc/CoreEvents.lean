import Gvsoc.IssCore

/-! The instruction events of a core. One of the two is enqueued at most, only while the core is active, and none
is left when `check_state` stops the core: as long as `current_event` points to the event that is enqueued when it is
to be cancelled, and the core is not woken up from inside its own instruction. -/
namespace Gvsoc.Wrapper
open Io (IoStatus)
open Machine (Run runInvariant reach reachRun)

namespace Core

def Aligned (s : Core) : Prop :=
  (s.enqueued .instr = 0 ∨ s.current = .instr) ∧ (s.enqueued .checkAll = 0 ∨ s.current = .checkAll)

def AtRest (s : Core) : Prop := s.phase = .idle ∧ s.misalignedEvent = 0

def Quiet (s : Core) : Prop :=
  (s.isActive = true → s.stops = true → s.Aligned) ∧ (s.isActive = false → s.runnable = true → s.AtRest)

instance (s : Core) : Decidable s.Aligned := inferInstanceAs (Decidable ((_ ∨ _) ∧ (_ ∨ _)))
instance (s : Core) : Decidable s.AtRest := inferInstanceAs (Decidable (_ ∧ _))
instance (s : Core) : Decidable s.Quiet := inferInstanceAs (Decidable ((_ → _ → _) ∧ (_ → _ → _)))

def haltChecks (s : Core) (c : Config) (last : Core) : List Core :=
  if c.riscvDbgUnit && !s.debugMode then [s.debugPending, last] else [last]

def stepChecks (s : Core) (c : Config) (debugMode waits : Bool) : List Core :=
  if s.stepMode && !debugMode then
    if c.gdbserver then [s.stepDone c waits] else { s with doStep := false }.haltChecks c (s.stepDone c waits)
  else []

def checks (c : Config) (s : Core) : Action → List Core
  | .event e waits => if (s.beginInstr c e waits).2 then (s.beginInstr c e waits).1.execEnd.stepChecks c s.debugMode false else []
  | .work w => match s.phase with
      | .executing e debugMode _ =>
          let s := { s with phase := .executing e debugMode true }
          match w with
          | .wfi _ => [{ s with wfi := true }]
          | .halt waits _ => s.haltChecks c (s.setHaltMode c true waits)
          | _ => []
      | .idle => []
  | .finish waits step _ => match s.phase with
      | .executing .checkAll debugMode _ => (s.prefetcherFetch waits).execEnd.stepChecks c debugMode step
      | _ => []
  | .csrWrite _ | .misaligned _ | .irqReqSync _ | .gdbRegSet => []
  | .irqEvent _ => [s.irqReqSyncHandler]
  | .dataResponse _ => [s.dataResponse]
  | .fetchResponse more _ => [s.fetchResponse more]
  | .flushAck _ => [s.flushCacheAck]
  | .release _ => [s.released c]
  | .fetchen active _ => [s.fetchenSync active]
  | .haltSync halted waits _ => s.haltChecks c (s.setHaltMode c halted waits)
  | .debugReq _ => [s.debugPending]
  | .writeNpc _ => [{ s.prefetcherRefetch with wfi := false }]
  | .writeCtrl halted step waits _ => s.haltChecks c { s.setHaltMode c halted waits with stepMode := step }
  | .gdbStop _ => [{ s with halted := true }]
  | .gdbCont _ => [{ s with halted := false }]
  | .gdbStepi _ => [{ s with stepMode := true, halted := false }]

def refetches (s : Core) : Action → Bool
  | .release _ | .writeNpc _ | .gdbRegSet => true
  | .fetchen active _ => !s.fetchEnable && active
  | _ => false

end Core

def Orderly (c : Config) (s : Core) (a : Action) : Prop :=
  (∀ u ∈ Core.checks c s a, u.Quiet) ∧ (s.refetches a = true → s.Aligned)

instance (c : Config) (s : Core) (a : Action) : Decidable (Orderly c s a) := inferInstanceAs (Decidable ((∀ u ∈ _, _) ∧ (_ → _)))

structure Held (s : Core) : Prop where
  one : s.enqueued .instr + s.enqueued .checkAll + s.misalignedEvent + (if s.phase = .idle then 0 else 1) ≤ 1
  none : s.enqueued .first = 0
  active : 0 < s.enqueued .instr + s.enqueued .checkAll → s.isActive = true
  pointed : s.isActive = true → s.current ≠ .first

def HaltSeen (s : Core) : Prop := s.isActive = true → s.halted = true → s.doStep = true

section Held

variable {s s' : Core} {c : Config}

theorem heldCongr (held : Held s) (events : s'.enqueued = s.enqueued) (second : s'.misalignedEvent = s.misalignedEvent)
    (phase : s'.phase = .idle ↔ s.phase = .idle) (active : s'.isActive = s.isActive)
    (pointed : s'.current = s.current ∨ s'.current ≠ .first) : Held s' := by
  obtain ⟨one, none, only, points⟩ := held
  refine ⟨?_, by rw [events]; exact none, by rw [events, active]; exact only, fun on => ?_⟩
  · simp only [events, second, phase]
    exact one
  · rcases pointed with same | other
    · rw [same]
      exact points (active ▸ on)
    · exact other

theorem enqueueHeld (held : Held s) (free : s.enqueued .instr + s.enqueued .checkAll + s.misalignedEvent = 0)
    (idle : s.phase = .idle) : Held s.enqueueNextInstr := by
  unfold Core.enqueueNextInstr
  split_ifs with on
  · have points := held.pointed on
    have first := held.none
    cases current : s.current with
    | first => contradiction
    | instr =>
        refine ⟨?_, by simpa [Core.eventEnqueue, current] using first, fun _ => on, held.pointed⟩
        simp only [Core.eventEnqueue, current, idle, Function.update_self, if_true]
        rw [Function.update_of_ne (by decide)]
        omega
    | checkAll =>
        refine ⟨?_, by simpa [Core.eventEnqueue, current] using first, fun _ => on, held.pointed⟩
        simp only [Core.eventEnqueue, current, idle, Function.update_self, if_true]
        rw [Function.update_of_ne (by decide)]
        omega
  · exact held

theorem heldStopped (instr : s.enqueued .instr = 0) (checkAll : s.enqueued .checkAll = 0) (first : s.enqueued .first = 0)
    (second : s.misalignedEvent + (if s.phase = .idle then 0 else 1) ≤ 1) (off : s.isActive = false) : Held s := by
  refine ⟨by omega, first, fun some => by omega, fun on => ?_⟩
  rw [off] at on
  contradiction

theorem cancelHeld {e : Event} (held : Held s) (first : s.enqueued .instr = 0 ∨ e = .instr)
    (second : s.enqueued .checkAll = 0 ∨ e = .checkAll) (off : s'.isActive = false) (phase : s'.phase = s.phase)
    (waits : s'.misalignedEvent = s.misalignedEvent)
    (events : s'.enqueued = if 0 < s.enqueued e then Function.update s.enqueued e (s.enqueued e - 1) else s.enqueued) :
    Held s' := by
  obtain ⟨one, none, active, pointed⟩ := held
  refine heldStopped ?_ ?_ ?_ (by rw [waits, phase]; omega) off
  · rw [events]
    rcases first with zero | rfl
    · split_ifs
      · by_cases same : Event.instr = e
        · subst e
          simp [zero]
        · rw [Function.update_of_ne same, zero]
      · exact zero
    · split_ifs
      · rw [Function.update_self]
        omega
      · omega
  · rw [events]
    rcases second with zero | rfl
    · split_ifs
      · by_cases same : Event.checkAll = e
        · subst e
          simp [zero]
        · rw [Function.update_of_ne same, zero]
      · exact zero
    · split_ifs
      · rw [Function.update_self]
        omega
      · omega
  · rw [events]
    split_ifs
    · by_cases same : Event.first = e
      · subst e
        simp [none]
      · rw [Function.update_of_ne same, none]
    · exact none

structure Same (s s' : Core) : Prop where
  enqueued : s'.enqueued = s.enqueued
  misalignedEvent : s'.misalignedEvent = s.misalignedEvent
  phase : s'.phase = s.phase
  isActive : s'.isActive = s.isActive
  current : s'.current = s.current
  halted : s'.halted = s.halted
  doStep : s'.doStep = s.doStep

theorem sameHeld (same : Same s s') (held : Held s) : Held s' :=
  heldCongr held same.enqueued same.misalignedEvent (by rw [same.phase]) same.isActive (.inl same.current)

theorem sameHalt (same : Same s s') (seen : HaltSeen s) : HaltSeen s' := by
  unfold HaltSeen
  rw [same.isActive, same.halted, same.doStep]
  exact seen

theorem prefetcherFetchSame (waits : Bool) : Same s (s.prefetcherFetch waits) := by
  cases waits <;> exact ⟨rfl, rfl, rfl, rfl, rfl, rfl, rfl⟩

theorem dataReqSame (answer : IoStatus) : Same s (s.dataReqAligned answer).1 := by
  cases answer <;> exact ⟨rfl, rfl, rfl, rfl, rfl, rfl, rfl⟩

theorem lsuSame (resume : Resume) (misaligned : Bool) (answer : IoStatus) : Same s (s.lsu resume misaligned answer) := by
  cases misaligned <;> cases answer <;> exact ⟨rfl, rfl, rfl, rfl, rfl, rfl, rfl⟩

theorem pElwSame (misaligned : Bool) (answer : IoStatus) : Same s (s.pElw misaligned answer) := by
  have same := lsuSame (s := { s with elwInsn := true, elwInterrupted := false }) .elw misaligned answer
  unfold Core.pElw
  simp only
  split_ifs <;> exact ⟨same.1, same.2, same.3, same.4, same.5, same.6, same.7⟩

theorem fenceSame : Same s (s.issFenceI c) := by
  unfold Core.issFenceI
  split_ifs <;> exact ⟨rfl, rfl, rfl, rfl, rfl, rfl, rfl⟩

theorem issIrqCheckSame (waits : Bool) : Same s (s.issIrqCheck waits).1 := by
  unfold Core.issIrqCheck
  split_ifs
  · exact ⟨rfl, rfl, rfl, rfl, rfl, rfl, rfl⟩
  · cases waits <;> exact ⟨rfl, rfl, rfl, rfl, rfl, rfl, rfl⟩
  · exact ⟨rfl, rfl, rfl, rfl, rfl, rfl, rfl⟩

theorem dataResponseSame : Same s s.dataResponse := by
  unfold Core.dataResponse
  simp only
  split_ifs <;> exact ⟨rfl, rfl, rfl, rfl, rfl, rfl, rfl⟩

theorem fetchResponseSame (waits : Bool) : Same s (s.fetchResponse waits) := by
  cases waits <;> exact ⟨rfl, rfl, rfl, rfl, rfl, rfl, rfl⟩

theorem refetchHeld (held : Held s) (aligned : s.Aligned) : Held s.prefetcherRefetch := by
  refine cancelHeld held aligned.1 aligned.2 ?_ ?_ ?_ ?_
  all_goals
    unfold Core.prefetcherRefetch
    simp only
    split_ifs <;> rfl

theorem wakeUpHeld (held : Held s) (rest : s.AtRest) (off : s.isActive = false) (points : s.current ≠ .first) :
    Held s.wakeUp := by
  obtain ⟨one, none, active, pointed⟩ := held
  have free : s.enqueued .instr + s.enqueued .checkAll = 0 := by
    by_contra some
    have on := active (by omega)
    rw [off] at on
    contradiction
  refine enqueueHeld ⟨one, none, fun _ => rfl, fun _ => points⟩ ?_ rest.1
  show s.enqueued .instr + s.enqueued .checkAll + s.misalignedEvent = 0
  rw [free, rest.2]

theorem checkStateCases (s : Core) (waits : Bool) :
    (s.isActive = false ∧ s.runnable = false ∧ s.checkState waits = { s with current := .checkAll }) ∨
    (s.isActive = false ∧ s.runnable = true ∧ s.doFetch = true ∧ waits = true ∧
      s.checkState waits = { s with current := .checkAll, stalled := 1, fetching := s.fetching + 1 }) ∨
    (s.isActive = false ∧ s.runnable = true ∧ (s.doFetch = false ∨ waits = false) ∧
      s.checkState waits = { s with current := .checkAll }.wakeUp) ∨
    (s.isActive = true ∧ s.stops = true ∧ s.checkState waits =
      { s with current := .checkAll, isActive := false
               enqueued := if 0 < s.enqueued s.current then Function.update s.enqueued s.current (s.enqueued s.current - 1)
                 else s.enqueued }) ∨
    (s.isActive = true ∧ s.stops = false ∧ s.checkState waits = { s with current := .checkAll, wfi := false }) := by
  have runs : Core.runnable { s with current := .checkAll } = s.runnable := rfl
  have halts : Core.stops { s with current := .checkAll } = s.stops := rfl
  unfold Core.checkState
  simp only [runs, halts]
  cases on : s.isActive with
  | false =>
      cases ready : s.runnable with
      | false => exact .inl ⟨rfl, rfl, by simp⟩
      | true =>
          have none : s.stalled = 0 := by
            simp only [Core.runnable, Bool.and_eq_true, beq_iff_eq] at ready
            exact ready.1.2
          refine .inr ?_
          cases fetch : s.doFetch with
          | false => exact .inr (.inl ⟨rfl, rfl, .inl rfl, by simp⟩)
          | true =>
              cases waits with
              | false => exact .inr (.inl ⟨rfl, rfl, .inr rfl, by simp [Core.prefetcherFetch, none]⟩)
              | true => exact .inl ⟨rfl, rfl, rfl, rfl, by simp [Core.prefetcherFetch, none]⟩
  | true =>
      refine .inr (.inr (.inr ?_))
      cases ready : s.stops with
      | false => exact .inr ⟨rfl, rfl, by simp⟩
      | true =>
          refine .inl ⟨rfl, rfl, ?_⟩
          by_cases some : 0 < s.enqueued s.current
          · simp [some, Core.eventCancel]
          · simp [some]

theorem checkStateHeld (waits : Bool) (held : Held s) (quiet : s.Quiet) : Held (s.checkState waits) := by
  have repointed : Held { s with current := .checkAll } := heldCongr held rfl rfl Iff.rfl rfl (.inr (by simp))
  obtain ⟨_, _, same⟩ | ⟨_, _, _, _, same⟩ | ⟨off, runs, _, same⟩ | ⟨on, halts, same⟩ | ⟨_, _, same⟩ := checkStateCases s waits
  · rw [same]
    exact repointed
  · rw [same]
    exact heldCongr repointed rfl rfl Iff.rfl rfl (.inl rfl)
  · rw [same]
    exact wakeUpHeld repointed (quiet.2 off runs) off (by simp)
  · obtain ⟨first, second⟩ := quiet.1 on halts
    rw [same]
    exact cancelHeld held first second rfl rfl rfl rfl
  · rw [same]
    exact heldCongr repointed rfl rfl Iff.rfl rfl (.inl rfl)

theorem wakeUpFields (s : Core) : s.wakeUp.halted = s.halted ∧ s.wakeUp.isActive = true ∧ s.wakeUp.stalled = s.stalled := by
  simp [Core.wakeUp, Core.enqueueNextInstr, Core.eventEnqueue]

theorem checkStateHalt (s : Core) (waits : Bool) : HaltSeen (s.checkState waits) := by
  intro active halted
  obtain ⟨off, _, same⟩ | ⟨off, _, _, _, same⟩ | ⟨_, runs, _, same⟩ | ⟨_, _, same⟩ | ⟨_, goes, same⟩ := checkStateCases s waits
  · rw [same] at active
    simp [off] at active
  · rw [same] at active
    simp [off] at active
  · rw [same, (wakeUpFields _).1] at halted
    simp only [Core.runnable, Bool.and_eq_true, Bool.not_eq_true'] at runs
    simp [runs.1.1.1] at halted
  · rw [same] at active
    simp at active
  · rw [same] at halted ⊢
    simp only [Core.stops, Bool.or_eq_false_iff, Bool.and_eq_false_iff, Bool.not_eq_false'] at goes
    exact goes.1.resolve_left (by simpa using halted)

theorem repointHeld (held : Held s) (events : s'.enqueued = s.enqueued) (second : s'.misalignedEvent = s.misalignedEvent)
    (phase : s'.phase = s.phase) (active : s'.isActive = s.isActive) (current : s'.current = .checkAll) : Held s' :=
  heldCongr held events second (by rw [phase]) active (.inr (by simp [current]))

theorem csrWriteHeld (f : Field) (held : Held s) : Held (s.csrWrite f) := by
  cases f <;> exact repointHeld held rfl rfl rfl rfl rfl

theorem irqHandlerHeld (held : Held s) : Held s.irqReqSyncHandler := by
  unfold Core.irqReqSyncHandler
  simp only
  split_ifs <;> exact repointHeld held rfl rfl rfl rfl rfl

theorem debugPendingHeld (held : Held s) : Held s.debugPending := repointHeld held rfl rfl rfl rfl rfl

theorem setHaltModeHeld {halted waits : Bool} {last : Core} (held : Held s)
    (quiet : ∀ u ∈ s.haltChecks c last, u.Quiet) : Held (s.setHaltMode c halted waits) := by
  unfold Core.haltChecks at quiet
  unfold Core.setHaltMode
  cases unit : c.riscvDbgUnit with
  | false => exact heldCongr held rfl rfl Iff.rfl rfl (.inl rfl)
  | true =>
      cases debug : s.debugMode with
      | true => exact held
      | false =>
          simp only [unit, debug, Bool.not_false, Bool.and_self, if_true] at quiet
          exact checkStateHeld waits (debugPendingHeld held) (quiet _ (by simp))

theorem haltChecksLast (s : Core) (c : Config) (last : Core) : last ∈ s.haltChecks c last := by
  unfold Core.haltChecks
  split_ifs <;> simp

theorem haltAndCheckHeld {halted waits : Bool} (again : Bool) (held : Held s)
    (quiet : ∀ u ∈ s.haltChecks c (s.setHaltMode c halted waits), u.Quiet) : Held (s.haltAndCheck c halted waits again) :=
  checkStateHeld again (setHaltModeHeld held quiet) (quiet _ (haltChecksLast ..))

theorem execEndHeld (held : Held s) (busy : s.phase ≠ .idle) : Held s.execEnd := by
  obtain ⟨one, none, active, pointed⟩ := held
  simp only [busy, if_false] at one
  have free : s.enqueued .instr + s.enqueued .checkAll + s.misalignedEvent = 0 := by omega
  unfold Core.execEnd
  simp only
  split_ifs
  · exact enqueueHeld ⟨by simp only [if_true]; omega, none, active, pointed⟩ free rfl
  · exact ⟨by simp only [if_true]; omega, none, active, pointed⟩
  · exact heldStopped (by simp only; omega) (by simp only; omega) none (by simp only [if_true]; omega) rfl

theorem stepEndHeld {debugMode waits : Bool} (again : Bool) (held : Held s)
    (quiet : ∀ u ∈ s.stepChecks c debugMode waits, u.Quiet) : Held (s.stepEnd c debugMode waits again) := by
  unfold Core.stepEnd
  unfold Core.stepChecks at quiet
  split_ifs with stepping
  · have cleared : Held { s with doStep := false } := heldCongr held rfl rfl Iff.rfl rfl (.inl rfl)
    simp only [stepping, if_true] at quiet
    cases gdb : c.gdbserver with
    | true =>
        simp only [gdb, if_true, List.mem_singleton, forall_eq] at quiet
        refine checkStateHeld again ?_ quiet
        simp only [Core.stepDone, gdb, if_true]
        exact heldCongr cleared rfl rfl Iff.rfl rfl (.inl rfl)
    | false =>
        simp only [gdb, Bool.false_eq_true, if_false] at quiet
        refine checkStateHeld again ?_ (quiet _ (haltChecksLast ..))
        simp only [Core.stepDone, gdb, Bool.false_eq_true, if_false]
        exact setHaltModeHeld cleared quiet
  · exact held

theorem beginInstrFields (c : Config) (s : Core) (e : Event) (waits : Bool) :
    (s.beginInstr c e waits).1.enqueued = Function.update s.enqueued e (s.enqueued e - 1) ∧
      (s.beginInstr c e waits).1.misalignedEvent = s.misalignedEvent ∧ (s.beginInstr c e waits).1.phase = s.phase ∧
      (s.beginInstr c e waits).1.isActive = s.isActive ∧
      ((s.beginInstr c e waits).1.current = s.current ∨ (s.beginInstr c e waits).1.current = .instr) ∧
      (s.beginInstr c e waits).1.halted = s.halted ∧ (s.beginInstr c e waits).1.doStep = s.doStep := by
  unfold Core.beginInstr
  split
  · obtain ⟨enqueued, misalignedEvent, phase, isActive, current, halted, doStep⟩ :=
      issIrqCheckSame (s := (s.eventCancel e).switchToFast c) waits
    refine ⟨enqueued, misalignedEvent, phase, isActive, ?_, halted, doStep⟩
    rw [current]
    unfold Core.switchToFast
    split_ifs
    · exact .inr rfl
    · exact .inl rfl
  · exact ⟨rfl, rfl, rfl, rfl, .inl rfl, rfl, rfl⟩

theorem beginInstrHeld (c : Config) {e : Event} (waits debugMode : Bool) (held : Held s) (idle : s.phase = .idle) (some : 0 < s.enqueued e)
    (other : e ≠ .first) : Held { (s.beginInstr c e waits).1 with phase := .executing e debugMode false } := by
  obtain ⟨one, none, active, pointed⟩ := held
  obtain ⟨enqueued, misalignedEvent, phase, isActive, current, -, -⟩ := beginInstrFields c s e waits
  simp only [idle, if_true] at one
  have on : s.isActive = true := by
    refine active ?_
    cases e with
    | first => contradiction
    | instr => omega
    | checkAll => omega
  have points : (s.beginInstr c e waits).1.current ≠ .first := by
    rcases current with same | fast
    · rw [same]
      exact pointed on
    · simp [fast]
  refine ⟨?_, ?_, fun _ => by simp only [isActive, on], fun _ => points⟩
  · simp only [enqueued, misalignedEvent, reduceCtorEq, if_false]
    cases e with
    | first => contradiction
    | instr =>
        rw [Function.update_self, Function.update_of_ne (by decide)]
        omega
    | checkAll =>
        rw [Function.update_self, Function.update_of_ne (by decide)]
        omega
  · simp only [enqueued]
    rw [Function.update_of_ne (Ne.symm other)]
    exact none

theorem execMisalignedHeld {answer : IoStatus} (held : Held s) (idle : s.phase = .idle) (some : 0 < s.misalignedEvent) :
    Held (s.execMisaligned answer) := by
  obtain ⟨one, none, active, pointed⟩ := held
  simp only [idle, if_true] at one
  have rest : Held { s with stalled := s.stalled - 1, halves := s.halves - 1, misalignedEvent := s.misalignedEvent - 1 } :=
    ⟨by simp only [idle, if_true]; omega, none, active, pointed⟩
  have same := dataReqSame (s := { s with
    stalled := s.stalled - 1, halves := s.halves - 1, misalignedEvent := s.misalignedEvent - 1 }) answer
  unfold Core.execMisaligned
  simp only
  split_ifs
  · exact sameHeld same rest
  · refine enqueueHeld (heldCongr (sameHeld same rest) rfl rfl Iff.rfl rfl (.inl rfl)) ?_ (same.phase.trans idle)
    simp only [same.enqueued, same.misalignedEvent]
    omega

theorem workHeld {e : Event} {debugMode acted : Bool} {w : Work} (held : Held s) (phase : s.phase = .executing e debugMode acted)
    (quiet : ∀ u ∈ Core.checks c s (.work w), u.Quiet) : Held ({ s with phase := .executing e debugMode true }.work c w) := by
  have acting : Held { s with phase := .executing e debugMode true } := heldCongr held rfl rfl (by simp [phase]) rfl (.inl rfl)
  simp only [Core.checks, phase] at quiet
  cases w with
  | plain => exact acting
  | access resume misaligned answer => exact sameHeld (lsuSame resume misaligned answer) acting
  | elw misaligned answer => exact sameHeld (pElwSame misaligned answer) acting
  | fence => exact sameHeld fenceSame acting
  | wfi waits =>
      refine checkStateHeld waits (heldCongr acting rfl rfl Iff.rfl rfl (.inl rfl)) ?_
      simpa using quiet
  | halt waits again => exact haltAndCheckHeld again acting quiet
  | mret => exact repointHeld acting rfl rfl rfl rfl rfl
  | dret => exact repointHeld acting rfl rfl rfl rfl rfl

end Held

section HaltSeen

variable {s : Core} {c : Config}

theorem stepEndHalt {debugMode waits again : Bool} (seen : HaltSeen s) : HaltSeen (s.stepEnd c debugMode waits again) := by
  unfold Core.stepEnd
  split_ifs
  · exact checkStateHalt _ _
  · exact seen

theorem enqueueHalt (seen : HaltSeen s) : HaltSeen s.enqueueNextInstr := by
  unfold Core.enqueueNextInstr
  split_ifs <;> exact seen

theorem execEndHalt (seen : HaltSeen s) : HaltSeen s.execEnd := by
  unfold Core.execEnd
  simp only
  split_ifs
  · exact enqueueHalt seen
  · exact seen
  · exact fun on => by simp at on

theorem execMisalignedHalt {answer : IoStatus} (seen : HaltSeen s) : HaltSeen (s.execMisaligned answer) := by
  have same := dataReqSame (s := { s with
    stalled := s.stalled - 1, halves := s.halves - 1, misalignedEvent := s.misalignedEvent - 1 }) answer
  have rest : HaltSeen { s with stalled := s.stalled - 1, halves := s.halves - 1, misalignedEvent := s.misalignedEvent - 1 } := seen
  unfold Core.execMisaligned
  simp only
  have after := sameHalt same rest
  split_ifs
  · exact after
  · exact enqueueHalt (fun on halted => after on halted)

theorem workHalt {w : Work} (seen : HaltSeen s) : HaltSeen (s.work c w) := by
  cases w with
  | plain => exact seen
  | access resume misaligned answer => exact sameHalt (lsuSame resume misaligned answer) seen
  | elw misaligned answer => exact sameHalt (pElwSame misaligned answer) seen
  | fence => exact sameHalt fenceSame seen
  | wfi waits => exact checkStateHalt _ _
  | halt waits again => exact checkStateHalt _ _
  | mret => exact seen
  | dret => exact seen

theorem refetchHalt : HaltSeen s.prefetcherRefetch := by
  unfold Core.prefetcherRefetch
  simp only
  split_ifs <;> exact fun on => by simp [Core.eventCancel] at on

end HaltSeen

theorem stepHeld {c : Config} {s s' : Core} {a : Action} (held : Held s) (orderly : Orderly c s a) (taken : step c s a = some s') :
    Held s' := by
  obtain ⟨quiet, aligned⟩ := orderly
  cases a with
  | event e waits =>
      simp only [step] at taken
      split at taken
      · rename_i ready
        obtain ⟨idle, other, some⟩ := ready
        have begun := beginInstrHeld c waits s.debugMode held idle some other
        split at taken
        · rename_i leftOut
          simp only [Core.checks, leftOut, if_true] at quiet
          cases taken
          have ended : Held (s.beginInstr c e waits).1.execEnd :=
            execEndHeld (s := { (s.beginInstr c e waits).1 with phase := .executing e s.debugMode false }) begun (by simp)
          exact stepEndHeld false ended quiet
        · cases taken
          exact begun
      · contradiction
  | work w =>
      simp only [step] at taken
      split at taken
      · rename_i e debugMode phase
        cases taken
        exact workHeld held phase quiet
      · contradiction
  | finish waits step again =>
      simp only [Wrapper.step] at taken
      split at taken
      · contradiction
      · rename_i e debugMode acted phase
        have ended := execEndHeld (sameHeld (prefetcherFetchSame waits) held) (by rw [(prefetcherFetchSame waits).phase]; simp [phase])
        simp only [Core.checks, phase] at quiet
        cases taken
        split_ifs with check
        · subst e
          exact stepEndHeld again ended quiet
        · exact ended
  | csrWrite f =>
      cases taken
      exact csrWriteHeld f held
  | misaligned answer =>
      obtain ⟨ready, done⟩ := Option.ite_none_right_eq_some.mp taken
      cases done
      exact execMisalignedHeld held ready.1 ready.2
  | irqEvent waits =>
      obtain ⟨-, done⟩ := Option.ite_none_right_eq_some.mp taken
      cases done
      exact checkStateHeld waits (irqHandlerHeld held) (quiet _ (by simp [Core.checks]))
  | irqReqSync irq =>
      cases taken
      exact heldCongr held rfl rfl Iff.rfl rfl (.inl rfl)
  | dataResponse waits =>
      obtain ⟨-, done⟩ := Option.ite_none_right_eq_some.mp taken
      cases done
      exact checkStateHeld waits (sameHeld dataResponseSame held) (quiet _ (by simp [Core.checks]))
  | fetchResponse more waits =>
      obtain ⟨-, done⟩ := Option.ite_none_right_eq_some.mp taken
      cases done
      exact checkStateHeld waits (sameHeld (fetchResponseSame more) held) (quiet _ (by simp [Core.checks]))
  | flushAck waits =>
      obtain ⟨-, done⟩ := Option.ite_none_right_eq_some.mp taken
      cases done
      exact checkStateHeld waits (heldCongr held rfl rfl Iff.rfl rfl (.inl rfl)) (quiet _ (by simp [Core.checks]))
  | release waits =>
      cases taken
      refine checkStateHeld waits ?_ (quiet _ (by simp [Core.checks]))
      exact heldCongr (refetchHeld held (aligned rfl)) rfl rfl Iff.rfl rfl (.inl rfl)
  | fetchen active waits =>
      cases taken
      refine checkStateHeld waits ?_ (quiet _ (by simp [Core.checks]))
      have set : Held { s with fetchEnable := active } := heldCongr held rfl rfl Iff.rfl rfl (.inl rfl)
      unfold Core.fetchenSync
      simp only
      split_ifs with rising
      · exact refetchHeld set (aligned rising)
      · exact set
  | haltSync halted waits again =>
      cases taken
      exact haltAndCheckHeld again held quiet
  | debugReq waits =>
      cases taken
      exact checkStateHeld waits (debugPendingHeld held) (quiet _ (by simp [Core.checks]))
  | writeNpc waits =>
      obtain ⟨-, done⟩ := Option.ite_none_right_eq_some.mp taken
      cases done
      refine checkStateHeld waits ?_ (quiet _ (by simp [Core.checks]))
      exact heldCongr (refetchHeld held (aligned rfl)) rfl rfl Iff.rfl rfl (.inl rfl)
  | writeCtrl halted step waits again =>
      cases taken
      refine checkStateHeld again ?_ (quiet _ (haltChecksLast ..))
      exact heldCongr (setHaltModeHeld held quiet) rfl rfl Iff.rfl rfl (.inl rfl)
  | gdbRegSet =>
      obtain ⟨-, done⟩ := Option.ite_none_right_eq_some.mp taken
      cases done
      exact refetchHeld held (aligned rfl)
  | gdbStop waits | gdbCont waits | gdbStepi waits =>
      obtain ⟨-, done⟩ := Option.ite_none_right_eq_some.mp taken
      cases done
      exact checkStateHeld waits (heldCongr held rfl rfl Iff.rfl rfl (.inl rfl)) (quiet _ (by simp [Core.checks]))

theorem stepHalt {c : Config} {s s' : Core} {a : Action} (seen : HaltSeen s) (taken : step c s a = some s') : HaltSeen s' := by
  cases a with
  | event e waits =>
      obtain ⟨-, -, -, active, -, halted, doStep⟩ := beginInstrFields c s e waits
      have begun : HaltSeen (s.beginInstr c e waits).1 := by
        unfold HaltSeen
        rw [active, halted, doStep]
        exact seen
      simp only [step] at taken
      split at taken
      · split at taken
        · cases taken
          exact stepEndHalt (execEndHalt begun)
        · cases taken
          exact begun
      · contradiction
  | work w =>
      simp only [step] at taken
      split at taken
      · cases taken
        exact workHalt seen
      · contradiction
  | finish waits step again =>
      simp only [Wrapper.step] at taken
      split at taken
      · contradiction
      · have ended : HaltSeen (s.prefetcherFetch waits).execEnd := execEndHalt (sameHalt (prefetcherFetchSame waits) seen)
        cases taken
        split_ifs
        · exact stepEndHalt ended
        · exact ended
  | csrWrite f =>
      cases taken
      cases f <;> exact seen
  | misaligned answer =>
      obtain ⟨-, done⟩ := Option.ite_none_right_eq_some.mp taken
      cases done
      exact execMisalignedHalt seen
  | irqReqSync irq =>
      cases taken
      exact seen
  | gdbRegSet =>
      obtain ⟨-, done⟩ := Option.ite_none_right_eq_some.mp taken
      cases done
      exact refetchHalt
  | release | fetchen | haltSync | debugReq | writeCtrl =>
      cases taken
      exact checkStateHalt _ _
  | irqEvent | dataResponse | fetchResponse | flushAck | writeNpc | gdbStop | gdbCont | gdbStepi =>
      obtain ⟨-, done⟩ := Option.ite_none_right_eq_some.mp taken
      cases done
      exact checkStateHalt _ _

/- At most one instruction event is enqueued, only while the core is active; so there is none when the core was stopped,
and a halted core is active only to finish a step. -/
theorem oneInstructionEvent (c : Config) {trace last} (run : Run (step c) (Orderly c) .start trace last) :
    last.enqueued .instr + last.enqueued .checkAll ≤ 1 ∧
      (0 < last.enqueued .instr + last.enqueued .checkAll → last.isActive = true) ∧
      (last.isActive = true → last.halted = true → last.doStep = true) := by
  have start : Held .start ∧ HaltSeen .start :=
    ⟨⟨by decide, rfl, by decide, by decide⟩, fun on => by simp [Core.start] at on⟩
  obtain ⟨held, seen⟩ := runInvariant (P := fun s => Held s ∧ HaltSeen s) run start
    (fun _ _ _ before orderly taken => ⟨stepHeld before.1 orderly taken, stepHalt before.2 taken⟩)
  have one := held.one
  exact ⟨by omega, held.active, seen⟩

def plainConfig : Config := ⟨false, false, false, false⟩

def haltedBetween : List Action :=
  [.release false, .fetchen true false, .event .checkAll false, .work .plain, .finish false false false, .haltSync true false false,
    .haltSync false false false]

theorem oneInstructionEventHalted :
    (reach (step plainConfig) (Orderly plainConfig) .start haltedBetween).enqueued .checkAll = 1 ∧
      (reach (step plainConfig) (Orderly plainConfig) .start haltedBetween).isActive = true := by
  obtain ⟨trace, run, -⟩ := reachRun (step plainConfig) (Orderly plainConfig) .start haltedBetween (by decide +kernel)
  have count : (reach (step plainConfig) (Orderly plainConfig) .start haltedBetween).enqueued .checkAll = 1 := by decide +kernel
  exact ⟨count, (oneInstructionEvent plainConfig run).2.1 (by omega)⟩

/- An interrupt request between two instructions, then a halt: the fast event stays enqueued, and is executed. -/
def haltedAfterIrq : List Action :=
  [.release false, .fetchen true false, .event .checkAll false, .work .plain, .finish false false false, .irqReqSync 3, .irqEvent false,
    .haltSync true false false]

theorem eventOrphaned :
    ∃ trace last, Run (step plainConfig) Machine.anyStep .start trace last ∧ last.halted = true ∧ last.isActive = false ∧
      last.enqueued .instr = 1 ∧ (step plainConfig last (.event .instr false)).isSome = true := by
  obtain ⟨trace, run, -⟩ := reachRun (step plainConfig) Machine.anyStep .start haltedAfterIrq (by decide +kernel)
  exact ⟨trace, _, run, by decide +kernel⟩

end Gvsoc.Wrapper
