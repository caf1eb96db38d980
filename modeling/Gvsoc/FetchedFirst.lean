import Gvsoc.InsnFetch

/-! No instruction is executed before it was fetched: an instruction event finds the opcode of its instruction in place,
got from the port since the last flush, unless that flush kept it or the debug handler is entered. -/
namespace Gvsoc.InsnCache
open Wrapper (Config Core Event)
open Machine (Run runInvariant reach reachRun)

def Iss.executed (s : Iss) (debugHandler : Addr) (e : Event) : Option Addr :=
  if e = .checkAll then
    if s.debugEntry then some debugHandler
    else if s.irqEntry then some (s.vector s.core.reqIrq)
    else s.cache.currentInsn
  else s.cache.currentInsn

def Fresh (s : Iss) (debugHandler : Addr) (e : Event) : Prop :=
  ∀ insn, s.executed debugHandler e = some insn →
    s.cache.kept ≠ some insn ∧ (e = .checkAll → s.debugEntry = true → s.cache.obtained insn = true)

theorem freshSome {s : Iss} {debugHandler insn : Addr} {e : Event} (executed : s.executed debugHandler e = some insn) :
    Fresh s debugHandler e ↔
      s.cache.kept ≠ some insn ∧ (e = .checkAll → s.debugEntry = true → s.cache.obtained insn = true) := by
  unfold Fresh
  rw [executed]
  constructor
  · intro fresh
    exact fresh insn rfl
  · intro fresh other same
    cases same
    exact fresh

instance (s : Iss) (debugHandler : Addr) (e : Event) : Decidable (Fresh s debugHandler e) :=
  match executed : s.executed debugHandler e with
  | none => .isTrue (fun _ some => by rw [executed] at some; contradiction)
  | some _ => decidable_of_iff _ (freshSome executed).symm

def Awaited (s : Iss) : Prop := s.core.fetching = 0 ∧ s.core.isActive = true ∧ s.core.stalled ≠ 255

def Prompt (c : Config) (p : Places) (s : Iss) : Action → Prop
  | .call (.event e waits) _ =>
      Awaited s ∧ Fresh s p.debugHandler e ∧ ∀ u ∈ Core.checks c s.core (.event e waits), u.stalled = 0 → u.fetching = 0
  | .call (.finish waits stepping again) _ =>
      s.core.fetching = 0 ∧ ∀ u ∈ Core.checks c s.core (.finish waits stepping again), u.stalled = 0 → u.fetching = 0
  | .call a _ => ∀ u ∈ Core.checks c s.core a, u.stalled = 0 → u.fetching = 0
  | .flush | .mtvecWrite _ => True

instance (s : Iss) : Decidable (Awaited s) := inferInstanceAs (Decidable (_ ∧ _ ∧ _))

instance decidePrompt (c : Config) (p : Places) (s : Iss) : (a : Action) → Decidable (Prompt c p s a)
  | .call (.event _ _) _ => inferInstanceAs (Decidable (Awaited s ∧ Fresh s _ _ ∧ ∀ u ∈ _, _))
  | .call (.finish _ _ _) _ => inferInstanceAs (Decidable (s.core.fetching = 0 ∧ ∀ u ∈ _, _))
  | .call (.work _) _ | .call (.csrWrite _) _ | .call (.misaligned _) _ | .call (.irqEvent _) _ => inferInstanceAs (Decidable (∀ u ∈ _, _))
  | .call (.irqReqSync _) _ | .call (.dataResponse _) _ | .call (.fetchResponse _ _) _ => inferInstanceAs (Decidable (∀ u ∈ _, _))
  | .call (.flushAck _) _ | .call (.release _) _ | .call (.fetchen _ _) _ | .call (.haltSync _ _ _) _ =>
      inferInstanceAs (Decidable (∀ u ∈ _, _))
  | .call (.debugReq _) _ | .call (.writeNpc _) _ | .call (.writeCtrl _ _ _ _) _ | .call .gdbRegSet _ =>
      inferInstanceAs (Decidable (∀ u ∈ _, _))
  | .call (.gdbStop _) _ | .call (.gdbCont _) _ | .call (.gdbStepi _) _ => inferInstanceAs (Decidable (∀ u ∈ _, _))
  | .flush | .mtvecWrite _ => .isTrue trivial

section Steps

variable {s next : Iss} {c : Config} {p : Places} {insn : Addr}

theorem eventSound {e : Event} {waits : Bool} (sound : Sound s) (free : s.core.fetching = 0)
    (checks : ∀ u ∈ Core.checks c s.core (.event e waits), u.stalled = 0 → u.fetching = 0)
    (taken : step c p s (.call (.event e waits) insn) = some next) : Sound next := by
  simp only [step] at taken
  split at taken
  · rcases beginKinds s e with plain | ⟨rfl, debug⟩ | ⟨rfl, debug, irq⟩
    · obtain ⟨core, begun, fetching, enabled, doFetch⟩ := beginPlain (c := c) p.debugHandler waits plain
      simp only [begun, Bool.false_eq_true, if_false, Option.some.injEq] at taken
      subst taken
      refine ⟨sound.cache, fun some => ?_, fun set => ?_, fun idle => by contradiction⟩
      · exact Nat.lt_of_lt_of_eq (sound.under some) fetching.symm
      · obtain ⟨fetches, current⟩ := sound.enabled (enabled.symm.trans set)
        exact ⟨doFetch.trans fetches, current⟩
    · obtain ⟨core, begun, fetching, enabled, doFetch⟩ := beginDebug (c := c) p.debugHandler waits debug
      simp only [begun, Bool.false_eq_true, if_false, Option.some.injEq] at taken
      subst taken
      refine ⟨currentFits sound.cache _, fun some => ?_, fun set => ?_, fun idle => by contradiction⟩
      · exact Nat.lt_of_lt_of_eq (sound.under some) fetching.symm
      · exact ⟨doFetch.trans (sound.enabled (enabled.symm.trans set)).1, by simp [Iss.withCore]⟩
    · obtain ⟨core, begun, fetching, -, enabled, doFetch⟩ := beginIrq (c := c) p.debugHandler waits debug irq
      have fetches : waits = true → 0 < core.fetching := by
        rintro rfl
        rw [fetching]
        exact Nat.succ_pos _
      simp only [begun] at taken
      split at taken
      · -- The handler is waited for, and the instruction left out.
        rename_i out
        have leftOut : s.core.beginInstr c .checkAll waits = (core, true) := by
          have first := congrArg (fun r => r.1.core) begun
          have second := congrArg Prod.snd begun
          exact Prod.ext first (second.trans out)
        obtain ⟨fetching', enabled', doFetch'⟩ := execEndFetches core
        have ended : Sound { s with core := core.execEnd
                                    cache := Cache.prefetcherFetch { s.cache with currentInsn := some (s.vector s.core.reqIrq) } waits } :=
          fetchedSound _ sound free (fun waiting => Nat.lt_of_lt_of_eq (fetches waiting) fetching'.symm)
            (enabled'.trans enabled) (doFetch'.trans doFetch)
        simp only [Core.checks, leftOut, if_true] at checks
        cases taken
        exact stepEndSound false ended checks
      · cases taken
        exact fetchedSound _ sound free fetches enabled doFetch
  · contradiction

theorem finishSound {waits stepping again : Bool} (sound : Sound s) (free : s.core.fetching = 0)
    (checks : ∀ u ∈ Core.checks c s.core (.finish waits stepping again), u.stalled = 0 → u.fetching = 0)
    (taken : step c p s (.call (.finish waits stepping again) insn) = some next) : Sound next := by
  simp only [step] at taken
  split at taken
  · contradiction
  · rename_i e debugMode acted phase
    have ended : Sound (s.execEnd insn waits) := execEndSound insn sound free
    simp only [Core.checks, phase] at checks
    cases taken
    split_ifs with check
    · subst e
      exact stepEndSound again ended checks
    · exact ended

theorem lsuPlain (core : Core) (resume : Wrapper.Resume) (misaligned : Bool) (answer : Io.IoStatus) :
    Plain core (core.lsu resume misaligned answer) := by
  cases misaligned <;> cases answer <;> exact ⟨rfl, rfl, rfl, fun idle on => ⟨idle, on⟩⟩

theorem elwPlain (core : Core) (misaligned : Bool) (answer : Io.IoStatus) : Plain core (core.pElw misaligned answer) := by
  obtain ⟨fetching, enabled, doFetch, active⟩ := lsuPlain { core with elwInsn := true, elwInterrupted := false } .elw misaligned answer
  unfold Core.pElw
  dsimp only
  split_ifs <;> exact ⟨fetching, enabled, doFetch, active⟩

theorem fencePlain (core : Core) (c : Config) : Plain core (core.issFenceI c) := by
  unfold Core.issFenceI
  split_ifs <;> exact ⟨rfl, rfl, rfl, fun idle on => ⟨idle, on⟩⟩

theorem dataResponsePlain (core : Core) : Plain core core.dataResponse := by
  unfold Core.dataResponse
  dsimp only
  split_ifs <;> exact ⟨rfl, rfl, rfl, fun idle on => ⟨idle, on⟩⟩

theorem irqHandlerPlain (core : Core) : Plain core core.irqReqSyncHandler := by
  unfold Core.irqReqSyncHandler
  dsimp only
  split_ifs <;> exact ⟨rfl, rfl, rfl, fun idle on => ⟨idle, on⟩⟩

theorem enqueuePlain (core : Core) : Plain core core.enqueueNextInstr := by
  unfold Core.enqueueNextInstr
  split_ifs <;> exact ⟨rfl, rfl, rfl, fun idle on => ⟨idle, on⟩⟩

theorem execMisalignedPlain (core : Core) (answer : Io.IoStatus) : Plain core (core.execMisaligned answer) := by
  cases answer with
  | ok =>
      have next := enqueuePlain { core with stalled := core.stalled - 1, halves := core.halves - 1
                                            misalignedEvent := core.misalignedEvent - 1, misalignedAccess := false }
      exact ⟨next.fetching, next.enabled, next.doFetch, next.active⟩
  | invalid => exact ⟨rfl, rfl, rfl, fun idle on => ⟨idle, on⟩⟩
  | denied => exact ⟨rfl, rfl, rfl, fun idle on => ⟨idle, on⟩⟩
  | pending => exact ⟨rfl, rfl, rfl, fun idle on => ⟨idle, on⟩⟩

theorem workSound {w : Wrapper.Work} (sound : Sound s) (checks : ∀ u ∈ Core.checks c s.core (.work w), u.stalled = 0 → u.fetching = 0)
    (taken : step c p s (.call (.work w) insn) = some next) : Sound next := by
  simp only [step] at taken
  split at taken
  · rename_i e debugMode phase
    have acting : Sound (s.withCore { s.core with phase := .executing e debugMode true }) :=
      withCoreSound sound ⟨rfl, rfl, rfl, fun idle => by contradiction⟩
    simp only [Core.checks, phase] at checks
    cases taken
    cases w with
    | plain => exact acting
    | access resume misaligned answer => exact withCoreSound acting (lsuPlain _ resume misaligned answer)
    | elw misaligned answer => exact withCoreSound acting (elwPlain _ misaligned answer)
    | fence =>
        unfold Iss.work
        dsimp only
        have stalls : Plain _ (Core.issFenceI { s.core with phase := .executing e debugMode true } c) := fencePlain _ c
        split_ifs
        · exact flushedSound (withCoreSound acting stalls)
        · exact withCoreSound acting stalls
    | wfi waits =>
        have waiting : Sound (s.withCore { s.core with phase := .executing e debugMode true, wfi := true }) :=
          withCoreSound sound ⟨rfl, rfl, rfl, fun idle => by contradiction⟩
        exact checkStateSound waits waiting (checks { s.core with phase := .executing e debugMode true, wfi := true } (by simp))
    | halt waits again => exact haltAndCheckSound again acting checks
    | mret => exact withCoreSound acting ⟨rfl, rfl, rfl, fun idle => by contradiction⟩
    | dret => exact withCoreSound acting ⟨rfl, rfl, rfl, fun idle => by contradiction⟩
  · contradiction

theorem responseSound {more waits : Bool} (sound : Sound s) (free : (s.core.fetchResponse more).stalled = 0 → (s.core.fetchResponse more).fetching = 0)
    (taken : step c p s (.call (.fetchResponse more waits) insn) = some next) : Sound next := by
  obtain ⟨some, done⟩ := Option.ite_none_right_eq_some.mp taken
  cases done
  have answered : Sound { s with core := s.core.fetchResponse more, cache := s.cache.fetchStallCallback more } := by
    obtain ⟨current, marked⟩ := callbackKeeps s.cache more
    have same := Wrapper.fetchResponseSame (s := s.core) more
    refine ⟨callbackFits more sound.cache, fun awaited => ?_, fun set => ?_, fun idle on => ?_⟩
    · cases more with
      | true => exact Nat.succ_pos _
      | false => exact absurd (callbackDecodes s.cache) awaited
    · rw [current]
      cases more <;> exact sound.enabled set
    · rw [current, marked]
      exact sound.ready (same.phase.symm.trans idle) (same.isActive.symm.trans on)
  exact checkStateSound waits answered free

theorem fetchenSound {active waits : Bool} (sound : Sound s)
    (free : (s.core.fetchenSync active).stalled = 0 → (s.core.fetchenSync active).fetching = 0)
    (taken : step c p s (.call (.fetchen active waits) insn) = some next) : Sound next := by
  cases taken
  refine checkStateSound waits ?_ ?_
  · cases old : s.core.fetchEnable with
    | true =>
        rw [Bool.not_true, Bool.false_and, if_neg (by simp)]
        exact ⟨sound.cache, sound.under, fun _ => sound.enabled old, sound.ready⟩
    | false =>
        cases active with
        | true => exact issPcSetSound (s := s.withCore { s.core with fetchEnable := true }) _ sound.cache sound.under
        | false => exact ⟨sound.cache, sound.under, fun set => by contradiction, sound.ready⟩
  · unfold Core.fetchenSync at free
    split_ifs at free ⊢ with starts
    · exact free
    · exact free

theorem callSound {a : Wrapper.Action} (sound : Sound s) (prompt : Prompt c p s (.call a insn))
    (taken : step c p s (.call a insn) = some next) : Sound next := by
  cases a with
  | event e waits => exact eventSound sound prompt.1.1 prompt.2.2 taken
  | work w => exact workSound sound prompt taken
  | finish waits stepping again => exact finishSound sound prompt.1 prompt.2 taken
  | csrWrite f =>
      cases taken
      refine withCoreSound sound ?_
      cases f <;> exact ⟨rfl, rfl, rfl, fun idle on => ⟨idle, on⟩⟩
  | misaligned answer =>
      obtain ⟨-, done⟩ := Option.ite_none_right_eq_some.mp taken
      cases done
      exact withCoreSound sound (execMisalignedPlain s.core answer)
  | irqEvent waits =>
      obtain ⟨-, done⟩ := Option.ite_none_right_eq_some.mp taken
      cases done
      have handled : Sound (s.withCore s.core.irqReqSyncHandler) := withCoreSound sound (irqHandlerPlain s.core)
      exact checkStateSound waits handled (prompt s.core.irqReqSyncHandler (by simp [Core.checks]))
  | irqReqSync irq =>
      cases taken
      exact withCoreSound sound ⟨rfl, rfl, rfl, fun idle on => ⟨idle, on⟩⟩
  | dataResponse waits =>
      obtain ⟨-, done⟩ := Option.ite_none_right_eq_some.mp taken
      cases done
      have answered : Sound (s.withCore s.core.dataResponse) := withCoreSound sound (dataResponsePlain s.core)
      exact checkStateSound waits answered (prompt s.core.dataResponse (by simp [Core.checks]))
  | fetchResponse more waits => exact responseSound sound (prompt _ (by simp [Core.checks])) taken
  | flushAck waits =>
      obtain ⟨-, done⟩ := Option.ite_none_right_eq_some.mp taken
      cases done
      have acknowledged : Sound (s.withCore s.core.flushCacheAck) :=
        withCoreSound sound ⟨rfl, rfl, rfl, fun idle on => ⟨idle, on⟩⟩
      exact checkStateSound waits acknowledged (prompt s.core.flushCacheAck (by simp [Core.checks]))
  | release waits =>
      cases taken
      have booted := issPcSetSound (insn + p.bootaddrOffset) sound.cache sound.under
      have released : Sound { s.issPcSet (insn + p.bootaddrOffset) with
          core := s.core.released c, vectorBase := insn &&& ~~~0xff#32 } :=
        ⟨booted.cache, booted.under, booted.enabled, booted.ready⟩
      exact checkStateSound waits released (prompt (s.core.released c) (by simp [Core.checks]))
  | fetchen active waits => exact fetchenSound sound (prompt _ (by simp [Core.checks])) taken
  | haltSync halted waits again =>
      cases taken
      exact haltAndCheckSound again sound prompt
  | debugReq waits =>
      cases taken
      have pending : Sound (s.withCore s.core.debugPending) := withCoreSound sound ⟨rfl, rfl, rfl, fun idle on => ⟨idle, on⟩⟩
      exact checkStateSound waits pending (prompt s.core.debugPending (by simp [Core.checks]))
  | writeNpc waits =>
      obtain ⟨-, done⟩ := Option.ite_none_right_eq_some.mp taken
      cases done
      have jumped := issPcSetSound insn (flushedSound sound).cache (flushedSound sound).under
      have awake : Sound ((s.flushed.issPcSet insn).withCore { s.core.prefetcherRefetch with wfi := false }) :=
        withCoreSound jumped ⟨rfl, rfl, rfl, fun idle on => ⟨idle, on⟩⟩
      exact checkStateSound waits awake (prompt { s.core.prefetcherRefetch with wfi := false } (by simp [Core.checks]))
  | writeCtrl halted stepping waits again =>
      cases taken
      have halts : Sound (s.setHaltMode c halted waits) := setHaltModeSound sound prompt
      have written : Sound ((s.setHaltMode c halted waits).withCore { (s.setHaltMode c halted waits).core with stepMode := stepping }) :=
        withCoreSound halts ⟨rfl, rfl, rfl, fun idle on => ⟨idle, on⟩⟩
      refine checkStateSound again written ?_
      have last := prompt { s.core.setHaltMode c halted waits with stepMode := stepping } (Wrapper.haltChecksLast ..)
      simpa only [Iss.withCore, setHaltModeCore] using last
  | gdbRegSet =>
      obtain ⟨-, done⟩ := Option.ite_none_right_eq_some.mp taken
      cases done
      exact issPcSetSound insn sound.cache sound.under
  | gdbStop waits =>
      obtain ⟨-, done⟩ := Option.ite_none_right_eq_some.mp taken
      cases done
      have set : Sound (s.withCore { s.core with halted := true }) := withCoreSound sound ⟨rfl, rfl, rfl, fun idle on => ⟨idle, on⟩⟩
      exact checkStateSound waits set (prompt { s.core with halted := true } (by simp [Core.checks]))
  | gdbCont waits =>
      obtain ⟨-, done⟩ := Option.ite_none_right_eq_some.mp taken
      cases done
      have set : Sound (s.withCore { s.core with halted := false }) := withCoreSound sound ⟨rfl, rfl, rfl, fun idle on => ⟨idle, on⟩⟩
      exact checkStateSound waits set (prompt { s.core with halted := false } (by simp [Core.checks]))
  | gdbStepi waits =>
      obtain ⟨-, done⟩ := Option.ite_none_right_eq_some.mp taken
      cases done
      have set : Sound (s.withCore { s.core with stepMode := true, halted := false }) :=
        withCoreSound sound ⟨rfl, rfl, rfl, fun idle on => ⟨idle, on⟩⟩
      exact checkStateSound waits set (prompt { s.core with stepMode := true, halted := false } (by simp [Core.checks]))

theorem stepSound {a : Action} (sound : Sound s) (prompt : Prompt c p s a) (taken : step c p s a = some next) : Sound next := by
  cases a with
  | call a insn => exact callSound sound prompt taken
  | flush =>
      cases taken
      exact flushedSound sound
  | mtvecWrite base =>
      cases taken
      exact ⟨sound.cache, sound.under, sound.enabled, sound.ready⟩

def Obtained (s : Iss) : Prop := ∃ insn, s.cache.currentInsn = some insn ∧ s.cache.obtained insn = true

/- An instruction that was asked for has its opcode, when no fetch is under way, unless it is the one that was kept. -/
theorem markedObtained {s : Cache} (fits : s.Fits) (nothing : s.prefetchInsn = none) (marked : s.fetched insn = true) :
    s.obtained insn = true ↔ s.kept ≠ some insn := by
  constructor
  · intro there flushed
    have old := (fits.kept insn flushed).2
    rw [there] at old
    contradiction
  · intro fresh
    rcases fits.asked insn marked with there | flushed | awaited
    · exact there
    · exact absurd flushed fresh
    · rw [nothing] at awaited
      contradiction

theorem obtainedSome (current : s.cache.currentInsn = some insn) : Obtained s ↔ s.cache.obtained insn = true := by
  unfold Obtained
  rw [current]
  constructor
  · rintro ⟨other, same, there⟩
    cases same
    exact there
  · intro there
    exact ⟨insn, rfl, there⟩

theorem executedObtained {e : Event} {waits : Bool} (sound : Sound s) (awaited : Awaited s)
    (taken : step c p s (.call (.event e waits) insn) = some next) (stays : (s.core.beginInstr c e waits).2 = false) :
    Obtained next ↔ Fresh s p.debugHandler e := by
  obtain ⟨free, on, room⟩ := awaited
  have nothing := nothingAwaited sound free
  simp only [step] at taken
  split at taken
  · rename_i ready
    rcases beginKinds s e with plain | ⟨rfl, debug⟩ | ⟨rfl, debug, irq⟩
    · obtain ⟨current, there, marked⟩ := sound.ready ready.1 on
      obtain ⟨core, begun, -⟩ := beginPlain (c := c) p.debugHandler waits plain
      have executed : s.executed p.debugHandler e = some current := by
        unfold Iss.executed
        split_ifs with check debug irq
        · simp [(plain check).1] at debug
        · simp [(plain check).2] at irq
        · exact there
        · exact there
      have noDebug : e = .checkAll → s.debugEntry = true → s.cache.obtained current = true := by
        intro check debug
        rw [(plain check).1] at debug
        contradiction
      simp only [begun, Bool.false_eq_true, if_false, Option.some.injEq] at taken
      subst taken
      refine Iff.trans (obtainedSome there) ?_
      rw [freshSome executed, and_iff_left noDebug]
      exact markedObtained sound.cache nothing marked
    · obtain ⟨core, begun, -⟩ := beginDebug (c := c) p.debugHandler waits debug
      have executed : s.executed p.debugHandler .checkAll = some p.debugHandler := by simp [Iss.executed, debug]
      simp only [begun, Bool.false_eq_true, if_false, Option.some.injEq] at taken
      subst taken
      refine Iff.trans (obtainedSome rfl) ?_
      rw [freshSome executed]
      constructor
      · intro there
        refine ⟨fun flushed => ?_, fun _ _ => there⟩
        have old : s.cache.obtained p.debugHandler = false := (sound.cache.kept _ flushed).2
        exact absurd (old.symm.trans there) (by simp)
      · intro fresh
        exact fresh.2 rfl debug
    · obtain ⟨core, begun, -, stalled, -⟩ := beginIrq (c := c) p.debugHandler waits debug irq
      have executed : s.executed p.debugHandler .checkAll = some (s.vector s.core.reqIrq) := by simp [Iss.executed, debug, irq]
      have clear : (core.stalled != 0) = false := (congrArg Prod.snd begun).symm.trans stays
      have done : waits = false := by
        by_contra waiting
        have stalls : core.stalled = s.core.stalled + 1 := by
          rw [stalled, Bool.eq_true_of_not_eq_false waiting]
          rfl
        have wraps : s.core.stalled + 1 = 0 := by simpa [stalls] using clear
        apply room
        rw [← BitVec.add_sub_cancel s.core.stalled 1, wraps]
        rfl
      subst done
      simp only [begun, clear, Bool.false_eq_true, if_false, Option.some.injEq] at taken
      subst taken
      have set : Cache.Fits { s.cache with currentInsn := some (s.vector s.core.reqIrq) } := currentFits sound.cache _
      have current : (Cache.prefetcherFetch { s.cache with currentInsn := some (s.vector s.core.reqIrq) } false).currentInsn =
          some (s.vector s.core.reqIrq) := fetchCurrent false _
      have noDebug : Event.checkAll = .checkAll → s.debugEntry = true → s.cache.obtained (s.vector s.core.reqIrq) = true := by
        intro _ enters
        rw [debug] at enters
        contradiction
      refine Iff.trans (obtainedSome current) ?_
      rw [freshSome executed, and_iff_left noDebug]
      have marked := markedObtained (fetchFits false set nothing) (fetchAtOnce nothing) (fetchMarks false rfl)
      rw [fetchKept] at marked
      exact marked
  · contradiction

end Steps

/- In every run whose events find no fetch under way, the opcode of an instruction that is executed has come from the
port since the last flush; for a further event that is so exactly if its instruction is not the one that the flush
kept, and the debug handler, if it is entered, was fetched before. -/
theorem fetchedBeforeExecuted (c : Config) (p : Places) {trace last} (run : Run (step c p) (Prompt c p) .start trace last)
    (e : Event) (waits : Bool) (insn : Addr) (next : Iss) (taken : step c p last (.call (.event e waits) insn) = some next)
    (stays : (last.core.beginInstr c e waits).2 = false) :
    (Prompt c p last (.call (.event e waits) insn) → Obtained next) ∧
      (Awaited last → (Obtained next ↔ Fresh last p.debugHandler e)) := by
  have sound : Sound last := by
    refine runInvariant run ?_ (fun _ _ _ sound prompt taken => stepSound sound prompt taken)
    refine ⟨⟨fun _ marked => ?_, fun _ flushed => ?_, fun _ awaited => ?_⟩, fun awaited => ?_, fun set => ?_, fun _ on => ?_⟩ <;> contradiction
  refine ⟨fun prompt => ?_, fun awaited => executedObtained sound awaited taken stays⟩
  exact (executedObtained sound prompt.1 taken stays).2 prompt.2.1

def addresses : Places := ⟨0x1a190800, 0x80⟩

def dbgConfig : Config := ⟨false, true, false, false⟩

/- The core boots at address 0x80, executes one instruction and is flushed while it executes the next one. -/
def flushedInside : List Action :=
  [.call (.release false) 0, .call (.fetchen true false) 0, .call (.event .checkAll false) 0, .call (.work .plain) 0,
    .call (.finish false false false) 0x84, .call (.event .instr false) 0, .flush, .call (.work .plain) 0,
    .call (.finish false false false) 0x88]

theorem fetchedBeforeExecutedFlush :
    ∃ trace next, Run (step dbgConfig addresses) (Prompt dbgConfig addresses) .start trace
        (reach (step dbgConfig addresses) (Prompt dbgConfig addresses) .start flushedInside) ∧
      step dbgConfig addresses (reach (step dbgConfig addresses) (Prompt dbgConfig addresses) .start flushedInside)
        (.call (.event .instr false) 0) = some next ∧
      (reach (step dbgConfig addresses) (Prompt dbgConfig addresses) .start flushedInside).cache.kept = some 0x84 ∧ Obtained next := by
  obtain ⟨trace, run, -⟩ := reachRun (step dbgConfig addresses) (Prompt dbgConfig addresses) .start flushedInside (by decide +kernel)
  have enabled : (step dbgConfig addresses (reach (step dbgConfig addresses) (Prompt dbgConfig addresses) .start flushedInside)
      (.call (.event .instr false) 0)).isSome = true := by decide +kernel
  obtain ⟨next, taken⟩ := Option.isSome_iff_exists.mp enabled
  have first := (fetchedBeforeExecuted dbgConfig addresses run .instr false 0 next taken (by decide +kernel)).1
  exact ⟨trace, next, run, taken, by decide +kernel, first (by decide +kernel)⟩

def debugRequested : List Action :=
  [.call (.release false) 0, .call (.fetchen true false) 0, .call (.event .checkAll false) 0, .call (.work .plain) 0,
    .call (.finish false false false) 0x84, .call (.debugReq false) 0, .call (.event .instr false) 0, .call (.work .plain) 0,
    .call (.finish false false false) 0x88, .call (.event .checkAll false) 0]

theorem debugHandlerUnfetched :
    ∃ trace last, Run (step dbgConfig addresses) Machine.anyStep .start trace last ∧
      last.core.phase = .executing .checkAll false false ∧ last.cache.currentInsn = some addresses.debugHandler ∧
      last.cache.fetched addresses.debugHandler = false ∧ last.cache.obtained addresses.debugHandler = false := by
  obtain ⟨trace, run, -⟩ := reachRun (step dbgConfig addresses) Machine.anyStep .start debugRequested (by decide +kernel)
  exact ⟨trace, _, run, by decide +kernel⟩

end Gvsoc.InsnCache
