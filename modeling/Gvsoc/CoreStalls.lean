import Gvsoc.CoreEvents

/-! What holds a core. `stalled` is the number of operations it waits for, so that the last one that completes lets
it go on, up to the acknowledge of a cache flush, which is not counted down. -/
namespace Gvsoc.Wrapper
open Io (IoStatus)
open Machine (Run runInvariant reach reachRun)

namespace Core

def outstanding (s : Core) : Nat := s.fetching + s.accesses + s.flushes + s.halves

def queued (s : Core) : Nat := s.enqueued .first + s.enqueued .instr + s.enqueued .checkAll

def Counts (s : Core) : Prop := s.stalled.toNat = s.outstanding

end Core

/- A misaligned access has to be done at once. -/
def Answered (misaligned : Bool) (answer : IoStatus) : Prop := answer = .ok ∨ misaligned = false ∧ answer ≠ .invalid

def Accounted (s : Core) : Action → Prop
  | .work (.access _ misaligned answer) | .work (.elw misaligned answer) => s.outstanding < 255 ∧ Answered misaligned answer
  | .misaligned answer => answer = .ok ∧ s.outstanding = 1 ∧ s.halves = 1
  | .irqEvent _ => s.outstanding < 255 ∧ ¬(s.elwInsn = true ∧ s.elwStalled = true)
  | .flushAck _ => False
  | _ => s.outstanding < 255

instance (misaligned : Bool) (answer : IoStatus) : Decidable (Answered misaligned answer) := inferInstanceAs (Decidable (_ ∨ _ ∧ _))

instance decideAccounted (s : Core) : (a : Action) → Decidable (Accounted s a)
  | .work (.access _ misaligned answer) => inferInstanceAs (Decidable (s.outstanding < 255 ∧ Answered misaligned answer))
  | .work (.elw misaligned answer) => inferInstanceAs (Decidable (s.outstanding < 255 ∧ Answered misaligned answer))
  | .misaligned answer => inferInstanceAs (Decidable (answer = .ok ∧ s.outstanding = 1 ∧ s.halves = 1))
  | .irqEvent _ => inferInstanceAs (Decidable (s.outstanding < 255 ∧ ¬(s.elwInsn = true ∧ s.elwStalled = true)))
  | .flushAck _ => inferInstanceAs (Decidable False)
  | .work .plain | .work .fence | .work (.wfi _) | .work (.halt _ _) | .work .mret | .work .dret => inferInstanceAs (Decidable (_ < 255))
  | .event _ _ | .finish _ _ _ | .csrWrite _ | .irqReqSync _ | .dataResponse _ | .fetchResponse _ _ => inferInstanceAs (Decidable (_ < 255))
  | .release _ | .fetchen _ _ | .haltSync _ _ _ | .debugReq _ | .writeNpc _ | .writeCtrl _ _ _ _ => inferInstanceAs (Decidable (_ < 255))
  | .gdbRegSet | .gdbStop _ | .gdbCont _ | .gdbStepi _ => inferInstanceAs (Decidable (_ < 255))

section Counts

variable {s s' : Core} {c : Config}

theorem countsSame (counts : s.Counts) (stalled : s'.stalled = s.stalled) (same : s'.outstanding = s.outstanding) : s'.Counts := by
  unfold Core.Counts
  rw [stalled, same]
  exact counts

theorem countsMore (counts : s.Counts) (room : s.outstanding < 255) (stalled : s'.stalled = s.stalled + 1)
    (more : s'.outstanding = s.outstanding + 1) : s'.Counts := by
  unfold Core.Counts at *
  have one : (1 : BitVec 8).toNat = 1 := rfl
  rw [stalled, more, BitVec.toNat_add, counts, one]
  omega

theorem countsLess (counts : s.Counts) (stalled : s'.stalled = s.stalled - 1) (less : s'.outstanding + 1 = s.outstanding) :
    s'.Counts := by
  have bound := s.stalled.isLt
  unfold Core.Counts at *
  have one : (1 : BitVec 8).toNat = 1 := rfl
  rw [stalled, BitVec.toNat_sub, one]
  omega

theorem countsClear (counts : s.Counts) : s.stalled = 0 ↔ s.outstanding = 0 := by
  unfold Core.Counts at counts
  rw [← counts]
  constructor
  · intro none
    simp [none]
  · intro none
    exact BitVec.eq_of_toNat_eq (by simpa using none)

theorem prefetcherFetchCounts (waits : Bool) (counts : s.Counts) (room : s.outstanding < 255) : (s.prefetcherFetch waits).Counts := by
  cases waits with
  | false => exact counts
  | true =>
      refine countsMore counts room rfl ?_
      simp only [Core.prefetcherFetch, Core.outstanding, if_true]
      omega

theorem wakeUpSame (s : Core) : s.wakeUp.stalled = s.stalled ∧ s.wakeUp.outstanding = s.outstanding := ⟨rfl, rfl⟩

theorem checkStateCounts (waits : Bool) (counts : s.Counts) : (s.checkState waits).Counts := by
  obtain ⟨_, _, same⟩ | ⟨_, runs, _, _, same⟩ | ⟨_, _, _, same⟩ | ⟨_, _, same⟩ | ⟨_, _, same⟩ := checkStateCases s waits
  · rw [same]
    exact counts
  · have none : s.outstanding = 0 := by
      simp only [Core.runnable, Bool.and_eq_true, beq_iff_eq] at runs
      exact (countsClear counts).1 runs.1.2
    rw [same]
    unfold Core.outstanding at none
    simp only [Core.Counts, Core.outstanding]
    simp only [BitVec.ofNat_eq_ofNat, BitVec.toNat_ofNat]
    omega
  · rw [same]
    exact countsSame counts (wakeUpSame _).1 (wakeUpSame _).2
  · rw [same]
    exact counts
  · rw [same]
    exact counts

theorem setHaltModeCounts (halted waits : Bool) (counts : s.Counts) : (s.setHaltMode c halted waits).Counts := by
  unfold Core.setHaltMode
  split_ifs
  · exact counts
  · exact checkStateCounts waits counts
  · exact counts

theorem enqueueCounts (counts : s.Counts) : s.enqueueNextInstr.Counts := by
  unfold Core.enqueueNextInstr
  split_ifs <;> exact counts

theorem execEndCounts (counts : s.Counts) : s.execEnd.Counts := by
  unfold Core.execEnd
  simp only
  split_ifs
  · exact enqueueCounts counts
  · exact counts
  · exact counts

theorem stepEndCounts (debugMode waits again : Bool) (counts : s.Counts) : (s.stepEnd c debugMode waits again).Counts := by
  unfold Core.stepEnd Core.stepDone
  simp only
  split_ifs
  · exact checkStateCounts again counts
  · exact checkStateCounts again (setHaltModeCounts true waits counts)
  · exact counts

theorem beginInstrCounts {e : Event} {waits : Bool} (counts : s.Counts) (room : s.outstanding < 255) :
    (s.beginInstr c e waits).1.Counts := by
  unfold Core.beginInstr Core.issIrqCheck
  split_ifs
  · exact counts
  · exact prefetcherFetchCounts waits counts room
  · exact counts
  · exact counts

theorem lsuCounts {resume : Resume} {misaligned : Bool} {answer : IoStatus} (counts : s.Counts) (room : s.outstanding < 255)
    (answered : Answered misaligned answer) : (s.lsu resume misaligned answer).Counts := by
  rcases answered with rfl | ⟨rfl, valid⟩
  · cases misaligned with
    | false => exact counts
    | true => exact countsMore counts room rfl rfl
  · cases answer with
    | ok => exact counts
    | invalid => contradiction
    | denied | pending =>
        refine countsMore counts room rfl ?_
        simp only [Core.lsu, Core.dataReqAligned, Core.issExecInsnStall, Core.outstanding]
        simp only [Bool.false_eq_true, if_false, if_true]
        omega

theorem pElwCounts {misaligned : Bool} {answer : IoStatus} (counts : s.Counts) (room : s.outstanding < 255)
    (answered : Answered misaligned answer) : (s.pElw misaligned answer).Counts := by
  have loaded : ({ s with elwInsn := true, elwInterrupted := false }.lsu .elw misaligned answer).Counts :=
    lsuCounts (s := { s with elwInsn := true, elwInterrupted := false }) counts room answered
  unfold Core.pElw
  simp only
  split_ifs <;> exact loaded

theorem fenceCounts (counts : s.Counts) (room : s.outstanding < 255) : (s.issFenceI c).Counts := by
  unfold Core.issFenceI
  split_ifs
  · refine countsMore counts room rfl ?_
    simp only [Core.issExecInsnStall, Core.outstanding]
    omega
  · exact counts

theorem workCounts {w : Work} (counts : s.Counts) (accounted : Accounted s (.work w)) : (s.work c w).Counts := by
  cases w with
  | plain => exact counts
  | access resume misaligned answer => exact lsuCounts counts accounted.1 accounted.2
  | elw misaligned answer => exact pElwCounts counts accounted.1 accounted.2
  | fence => exact fenceCounts counts accounted
  | wfi waits => exact checkStateCounts waits counts
  | halt waits again => exact checkStateCounts again (setHaltModeCounts true waits counts)
  | mret => exact counts
  | dret => exact counts

theorem execMisalignedCounts (counts : s.Counts) (half : s.halves = 1) : (s.execMisaligned .ok).Counts := by
  refine enqueueCounts (countsLess counts rfl ?_)
  unfold Core.outstanding
  simp only
  omega

theorem dataResponseCounts (counts : s.Counts) (some : 0 < s.accesses) : s.dataResponse.Counts := by
  have done : ({ s with stalled := s.stalled - 1, accesses := s.accesses - 1 } : Core).Counts := by
    refine countsLess counts rfl ?_
    unfold Core.outstanding
    simp only
    omega
  unfold Core.dataResponse
  simp only
  split_ifs <;> exact done

theorem fetchResponseCounts {more : Bool} (counts : s.Counts) (room : s.outstanding < 255) (some : 0 < s.fetching) :
    (s.fetchResponse more).Counts := by
  have less : ({ s with stalled := s.stalled - 1, fetching := s.fetching - 1 } : Core).outstanding + 1 = s.outstanding := by
    unfold Core.outstanding
    simp only
    omega
  exact prefetcherFetchCounts more (countsLess counts rfl less) (by omega)

theorem refetchCounts (counts : s.Counts) : s.prefetcherRefetch.Counts := by
  unfold Core.prefetcherRefetch
  simp only
  split_ifs <;> exact counts

theorem fetchenCounts {active : Bool} (counts : s.Counts) : (s.fetchenSync active).Counts := by
  unfold Core.fetchenSync
  simp only
  split_ifs
  · exact refetchCounts counts
  · exact counts

theorem irqHandlerCounts (counts : s.Counts) (idle : ¬(s.elwInsn = true ∧ s.elwStalled = true)) : s.irqReqSyncHandler.Counts := by
  have awake : (s.elwInsn && s.elwStalled) = false := by simpa using idle
  unfold Core.irqReqSyncHandler
  simp only [Core.irqCheck, awake]
  exact counts

end Counts

theorem stepCounts {c : Config} {s s' : Core} {a : Action} (counts : s.Counts) (accounted : Accounted s a) (taken : step c s a = some s') :
    s'.Counts := by
  cases a with
  | event e waits =>
      have begun : (s.beginInstr c e waits).1.Counts := beginInstrCounts counts accounted
      simp only [step] at taken
      split at taken
      · split at taken
        · cases taken
          exact stepEndCounts _ _ _ (execEndCounts begun)
        · cases taken
          exact begun
      · contradiction
  | work w =>
      simp only [step] at taken
      split at taken
      · cases taken
        exact workCounts counts accounted
      · contradiction
  | finish waits step again =>
      simp only [Wrapper.step] at taken
      split at taken
      · contradiction
      · have ended := execEndCounts (prefetcherFetchCounts waits counts accounted)
        cases taken
        split_ifs
        · exact stepEndCounts _ _ _ ended
        · exact ended
  | csrWrite f =>
      cases taken
      cases f <;> exact counts
  | misaligned answer =>
      obtain ⟨rfl, -, half⟩ := accounted
      obtain ⟨-, done⟩ := Option.ite_none_right_eq_some.mp taken
      cases done
      exact execMisalignedCounts counts half
  | irqEvent waits =>
      obtain ⟨-, done⟩ := Option.ite_none_right_eq_some.mp taken
      cases done
      exact checkStateCounts waits (irqHandlerCounts counts accounted.2)
  | irqReqSync irq =>
      cases taken
      exact counts
  | dataResponse waits =>
      obtain ⟨some, done⟩ := Option.ite_none_right_eq_some.mp taken
      cases done
      exact checkStateCounts waits (dataResponseCounts counts some)
  | fetchResponse more waits =>
      obtain ⟨some, done⟩ := Option.ite_none_right_eq_some.mp taken
      cases done
      exact checkStateCounts waits (fetchResponseCounts counts accounted some)
  | flushAck waits => contradiction
  | release waits =>
      cases taken
      exact checkStateCounts waits (refetchCounts counts)
  | fetchen active waits =>
      cases taken
      exact checkStateCounts waits (fetchenCounts counts)
  | haltSync halted waits again =>
      cases taken
      exact checkStateCounts again (setHaltModeCounts halted waits counts)
  | debugReq waits =>
      cases taken
      exact checkStateCounts waits counts
  | writeNpc waits =>
      obtain ⟨-, done⟩ := Option.ite_none_right_eq_some.mp taken
      cases done
      exact checkStateCounts waits (refetchCounts counts)
  | writeCtrl halted step waits again =>
      cases taken
      exact checkStateCounts again (setHaltModeCounts halted waits counts)
  | gdbRegSet =>
      obtain ⟨-, done⟩ := Option.ite_none_right_eq_some.mp taken
      cases done
      exact refetchCounts counts
  | gdbStop waits | gdbCont waits | gdbStepi waits =>
      obtain ⟨-, done⟩ := Option.ite_none_right_eq_some.mp taken
      cases done
      exact checkStateCounts waits counts

/- What an event that was enqueued since tells: nothing is waited for, and the core goes on or is to stay stopped. -/
def Core.Fresh (s₀ s : Core) : Prop := s.queued ≤ s₀.queued ∨ s.stalled = 0 ∧ s.isActive = true

def Core.Settled (s₀ s : Core) : Prop := s.queued ≤ s₀.queued ∨ s.stalled = 0 ∧ (s.isActive = true ∨ s.runnable = false)

section Resume

variable {s₀ s : Core} {c : Config}

theorem cancelQueued (s : Core) (e : Event) : (s.eventCancel e).queued ≤ s.queued := by
  have less : ∀ i, (s.eventCancel e).enqueued i ≤ s.enqueued i := by
    intro i
    by_cases same : i = e
    · subst same
      simp [Core.eventCancel]
    · simp [Core.eventCancel, same]
  have first := less .first
  have instr := less .instr
  have checkAll := less .checkAll
  unfold Core.queued
  omega

theorem checkStateQueued (s : Core) (waits : Bool) :
    (s.checkState waits).queued ≤ s.queued ∨ (s.checkState waits).stalled = 0 ∧ (s.checkState waits).isActive = true := by
  obtain ⟨_, _, same⟩ | ⟨_, _, _, _, same⟩ | ⟨_, runs, _, same⟩ | ⟨_, _, same⟩ | ⟨_, _, same⟩ := checkStateCases s waits
  · exact .inl (by rw [same]; exact le_refl _)
  · exact .inl (by rw [same]; exact le_refl _)
  · refine .inr ⟨?_, ?_⟩
    · simp only [Core.runnable, Bool.and_eq_true, beq_iff_eq] at runs
      rw [same, (wakeUpSame _).1]
      exact runs.1.2
    · rw [same]
      exact (wakeUpFields _).2.1
  · refine .inl ?_
    rw [same]
    split_ifs
    · exact cancelQueued s s.current
    · exact le_refl _
  · exact .inl (by rw [same]; exact le_refl _)

theorem freshSettled (fresh : s₀.Fresh s) : s₀.Settled s := fresh.imp_right (fun clear => ⟨clear.1, .inl clear.2⟩)

theorem checkStateResumes (waits : Bool) (settled : s₀.Settled s) :
    (s.checkState waits).queued ≤ s₀.queued ∨ (s.checkState waits).stalled = 0 := by
  rcases settled with kept | ⟨clear, stays⟩
  · rcases checkStateQueued s waits with less | ⟨none, -⟩
    · exact .inl (le_trans less kept)
    · exact .inr none
  · refine .inr ?_
    obtain ⟨_, _, same⟩ | ⟨off, runs, _⟩ | ⟨off, runs, _⟩ | ⟨_, _, same⟩ | ⟨_, _, same⟩ := checkStateCases s waits
    · rw [same]
      exact clear
    · simp [off, runs] at stays
    · simp [off, runs] at stays
    · rw [same]
      exact clear
    · rw [same]
      exact clear

/- One before it: a core that it stops is halted, not waiting for an interrupt. -/
theorem checkStateSettled (waits : Bool) (fresh : s₀.Fresh s) (awake : s.wfi = false) : s₀.Settled (s.checkState waits) := by
  rcases fresh with kept | ⟨clear, on⟩
  · rcases checkStateQueued s waits with less | ⟨none, active⟩
    · exact .inl (le_trans less kept)
    · exact .inr ⟨none, .inl active⟩
  · refine .inr ?_
    obtain ⟨off, _⟩ | ⟨off, _⟩ | ⟨off, _⟩ | ⟨_, stops, same⟩ | ⟨_, _, same⟩ := checkStateCases s waits
    · simp [on] at off
    · simp [on] at off
    · simp [on] at off
    · rw [same]
      simp only [Core.stops, awake, Bool.false_and, Bool.or_false, Bool.and_eq_true] at stops
      exact ⟨clear, .inr (by simp [Core.runnable, stops.1])⟩
    · rw [same]
      exact ⟨clear, .inl on⟩

theorem setHaltModeSettled (halted waits : Bool) (fresh : s₀.Fresh s) : s₀.Settled (s.setHaltMode c halted waits) := by
  unfold Core.setHaltMode
  split_ifs
  · exact freshSettled fresh
  · exact checkStateSettled waits fresh rfl
  · exact freshSettled (s := { s with halted := halted }) fresh

theorem execEndFresh (kept : s.queued ≤ s₀.queued) : s₀.Fresh s.execEnd := by
  unfold Core.execEnd Core.enqueueNextInstr
  simp only
  split_ifs with clear on
  · exact .inr ⟨clear, on⟩
  · exact .inl kept
  · exact .inl kept
  · exact .inl kept

theorem stepEndResumes (debugMode waits again : Bool) (fresh : s₀.Fresh s) :
    (s.stepEnd c debugMode waits again).queued ≤ s₀.queued ∨ (s.stepEnd c debugMode waits again).stalled = 0 := by
  unfold Core.stepEnd Core.stepDone
  simp only
  split_ifs
  · exact checkStateResumes again (freshSettled (s := { s with doStep := false, halted := true }) fresh)
  · exact checkStateResumes again (setHaltModeSettled (s := { s with doStep := false }) true waits fresh)
  · exact fresh.imp_right And.left

theorem refetchQueued (s : Core) : s.prefetcherRefetch.queued ≤ s.queued := by
  unfold Core.prefetcherRefetch
  simp only
  split_ifs
  · exact cancelQueued _ _
  · exact le_refl _

theorem fetchenQueued (s : Core) (active : Bool) : (s.fetchenSync active).queued ≤ s.queued := by
  unfold Core.fetchenSync
  simp only
  split_ifs
  · exact refetchQueued _
  · exact le_refl _

theorem sameQueued {s' : Core} (same : Same s s') : s'.queued ≤ s.queued := by
  unfold Core.queued
  rw [same.enqueued]

theorem irqHandlerQueued (s : Core) : s.irqReqSyncHandler.queued ≤ s.queued := by
  unfold Core.irqReqSyncHandler
  simp only
  split_ifs <;> exact le_refl _

theorem beginInstrQueued (c : Config) (s : Core) (e : Event) (waits : Bool) : (s.beginInstr c e waits).1.queued ≤ s.queued := by
  have less := cancelQueued s e
  unfold Core.queued at less ⊢
  rw [(beginInstrFields c s e waits).1]
  exact less

theorem enqueueOutstanding (s : Core) : s.enqueueNextInstr.outstanding = s.outstanding := by
  unfold Core.enqueueNextInstr
  split_ifs <;> rfl

theorem execMisalignedClear (alone : s.outstanding = 1) (half : s.halves = 1) : (s.execMisaligned .ok).outstanding = 0 := by
  have done : s.fetching + s.accesses + s.flushes + (s.halves - 1) = 0 := by
    unfold Core.outstanding at alone
    omega
  have last : (s.execMisaligned .ok).outstanding = s.fetching + s.accesses + s.flushes + (s.halves - 1) := enqueueOutstanding _
  rw [last, done]

theorem checkStateWakes {waits : Bool} (off : s.isActive = false) (clear : (s.checkState waits).stalled = 0)
    (runs : (s.checkState waits).runnable = true) : (s.checkState waits).isActive = true := by
  obtain ⟨_, held, same⟩ | ⟨_, _, _, _, same⟩ | ⟨_, _, _, same⟩ | ⟨on, _⟩ | ⟨on, _⟩ := checkStateCases s waits
  · have same' : (s.checkState waits).runnable = s.runnable := by
      rw [same]
      rfl
    rw [same', held] at runs
    contradiction
  · rw [same] at clear
    simp at clear
  · rw [same]
    exact (wakeUpFields _).2.1
  · rw [off] at on
    contradiction
  · rw [off] at on
    contradiction

theorem workResumes (w : Work) : (s.work c w).queued ≤ s.queued ∨ (s.work c w).stalled = 0 := by
  cases w with
  | plain => exact .inl (le_refl _)
  | access resume misaligned answer => exact .inl (sameQueued (lsuSame resume misaligned answer))
  | elw misaligned answer => exact .inl (sameQueued (pElwSame misaligned answer))
  | fence => exact .inl (sameQueued fenceSame)
  | wfi waits => exact checkStateResumes waits (.inl (le_refl _))
  | halt waits again => exact checkStateResumes again (setHaltModeSettled true waits (.inl (le_refl _)))
  | mret => exact .inl (le_refl _)
  | dret => exact .inl (le_refl _)

end Resume

theorem stepResumes {c : Config} {s s' : Core} {a : Action} (counts : s.Counts) (accounted : Accounted s a) (taken : step c s a = some s') :
    s'.queued ≤ s.queued ∨ s'.stalled = 0 := by
  cases a with
  | event e waits =>
      have begun := beginInstrQueued c s e waits
      simp only [step] at taken
      split at taken
      · split at taken
        · cases taken
          exact stepEndResumes _ _ _ (execEndFresh begun)
        · cases taken
          exact .inl begun
      · contradiction
  | work w =>
      simp only [step] at taken
      split at taken
      · cases taken
        exact workResumes w
      · contradiction
  | finish waits step again =>
      simp only [Wrapper.step] at taken
      split at taken
      · contradiction
      · have ended : s.Fresh (s.prefetcherFetch waits).execEnd := execEndFresh (sameQueued (prefetcherFetchSame waits))
        cases taken
        split_ifs
        · exact stepEndResumes _ _ _ ended
        · exact ended.imp_right And.left
  | csrWrite f =>
      cases taken
      cases f <;> exact .inl (le_refl _)
  | misaligned answer =>
      -- The only operation that the core waits for is the one that is done now.
      have after := stepCounts counts accounted taken
      obtain ⟨rfl, alone, half⟩ := accounted
      obtain ⟨-, done⟩ := Option.ite_none_right_eq_some.mp taken
      cases done
      exact .inr ((countsClear after).2 (execMisalignedClear alone half))
  | irqEvent waits =>
      obtain ⟨-, done⟩ := Option.ite_none_right_eq_some.mp taken
      cases done
      exact checkStateResumes waits (.inl (irqHandlerQueued s))
  | irqReqSync irq =>
      cases taken
      exact .inl (le_refl _)
  | dataResponse waits =>
      obtain ⟨-, done⟩ := Option.ite_none_right_eq_some.mp taken
      cases done
      exact checkStateResumes waits (.inl (sameQueued dataResponseSame))
  | fetchResponse more waits =>
      obtain ⟨-, done⟩ := Option.ite_none_right_eq_some.mp taken
      cases done
      exact checkStateResumes waits (.inl (sameQueued (fetchResponseSame more)))
  | flushAck waits => contradiction
  | release waits =>
      cases taken
      exact checkStateResumes waits (.inl (refetchQueued s))
  | fetchen active waits =>
      cases taken
      exact checkStateResumes waits (.inl (fetchenQueued s active))
  | haltSync halted waits again =>
      cases taken
      exact checkStateResumes again (setHaltModeSettled halted waits (.inl (le_refl _)))
  | debugReq waits =>
      cases taken
      have kept : s.Settled s.debugPending := .inl (le_refl _)
      exact checkStateResumes waits kept
  | writeNpc waits =>
      obtain ⟨-, done⟩ := Option.ite_none_right_eq_some.mp taken
      cases done
      exact checkStateResumes waits (.inl (refetchQueued s))
  | writeCtrl halted step waits again =>
      cases taken
      exact checkStateResumes again (setHaltModeSettled halted waits (.inl (le_refl _)))
  | gdbRegSet =>
      obtain ⟨-, done⟩ := Option.ite_none_right_eq_some.mp taken
      cases done
      exact .inl (refetchQueued s)
  | gdbStop waits =>
      obtain ⟨-, done⟩ := Option.ite_none_right_eq_some.mp taken
      cases done
      have kept : s.Settled { s with halted := true } := .inl (le_refl _)
      exact checkStateResumes waits kept
  | gdbCont waits =>
      obtain ⟨-, done⟩ := Option.ite_none_right_eq_some.mp taken
      cases done
      have kept : s.Settled { s with halted := false } := .inl (le_refl _)
      exact checkStateResumes waits kept
  | gdbStepi waits =>
      obtain ⟨-, done⟩ := Option.ite_none_right_eq_some.mp taken
      cases done
      have kept : s.Settled { s with stepMode := true, halted := false } := .inl (le_refl _)
      exact checkStateResumes waits kept

def Action.response : Action → Bool
  | .dataResponse _ | .fetchResponse _ _ => true
  | _ => false

theorem responseWakes {c : Config} {s s' : Core} {a : Action} (taken : step c s a = some s') (response : a.response = true)
    (off : s.isActive = false) (clear : s'.stalled = 0) (runs : s'.runnable = true) : s'.isActive = true := by
  cases a with
  | dataResponse waits =>
      obtain ⟨-, done⟩ := Option.ite_none_right_eq_some.mp taken
      cases done
      exact checkStateWakes (dataResponseSame.isActive.trans off) clear runs
  | fetchResponse more waits =>
      obtain ⟨-, done⟩ := Option.ite_none_right_eq_some.mp taken
      cases done
      exact checkStateWakes ((fetchResponseSame more).isActive.trans off) clear runs
  | _ => contradiction

/- `stalled` counts what is outstanding. So an instruction event is enqueued only when nothing is, and the completion
that leaves nothing outstanding lets a stopped core go on, unless something else holds it. -/
theorem stalledCountsOutstanding (c : Config) {trace last} (run : Run (step c) Accounted .start trace last) :
    last.stalled.toNat = last.outstanding ∧ ∀ a next, Accounted last a → step c last a = some next →
      (last.queued < next.queued → next.outstanding = 0) ∧
      (a.response = true → last.isActive = false → next.outstanding = 0 → next.runnable = true → next.isActive = true) := by
  have counts : last.Counts := runInvariant run (by rfl) (fun _ _ _ before accounted taken => stepCounts before accounted taken)
  refine ⟨counts, fun a next accounted taken => ?_⟩
  have after := stepCounts counts accounted taken
  constructor
  · intro more
    rcases stepResumes counts accounted taken with kept | clear
    · omega
    · exact (countsClear after).1 clear
  · intro response off clear runs
    exact responseWakes taken response off ((countsClear after).2 clear) runs

def loadAndFetch : List Action :=
  [.release false, .fetchen true false, .event .checkAll false, .work (.access .load false .pending), .finish true false false,
    .fetchResponse false false]

theorem stalledCountsLoadAndFetch :
    (reach (step plainConfig) Accounted .start loadAndFetch).stalled = 1 ∧
      (reach (step plainConfig) Accounted .start loadAndFetch).outstanding = 1 := by
  obtain ⟨trace, run, -⟩ := reachRun (step plainConfig) Accounted .start loadAndFetch (by decide +kernel)
  have counts := (stalledCountsOutstanding plainConfig run).1
  have one : (reach (step plainConfig) Accounted .start loadAndFetch).stalled = 1 := by decide +kernel
  rw [one] at counts
  exact ⟨one, counts.symm⟩

def fenceAcknowledged : List Action :=
  [.release false, .fetchen true false, .event .checkAll false, .work .fence, .finish false false false, .flushAck false]

theorem flushNotCountedDown :
    ∃ trace last, Run (step { plainConfig with flushBound := true }) Machine.anyStep .start trace last ∧
      last.stalled.toNat = 1 ∧ last.outstanding = 0 ∧ last.isActive = false := by
  obtain ⟨trace, run, -⟩ :=
    reachRun (step { plainConfig with flushBound := true }) Machine.anyStep .start fenceAcknowledged (by decide +kernel)
  exact ⟨trace, _, run, by decide +kernel⟩

end Gvsoc.Wrapper
