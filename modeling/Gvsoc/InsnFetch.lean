import Gvsoc.InsnCache

/-! What `prefetcher_fetch`, its callback, a flush and the calls of the wrapper keep: an instruction that is marked as
fetched has its opcode, or that was kept by the last flush, or it is still to come; and a core that is active between
two instructions has asked for its next one. -/
namespace Gvsoc.InsnCache
open Wrapper (Config Core Event)

structure Cache.Fits (s : Cache) : Prop where
  asked : ∀ insn, s.fetched insn = true → s.obtained insn = true ∨ s.kept = some insn ∨ s.prefetchInsn = some insn
  kept : ∀ insn, s.kept = some insn → s.fetched insn = true ∧ s.obtained insn = false
  awaited : ∀ insn, s.prefetchInsn = some insn → s.fetched insn = true ∧ s.kept ≠ some insn

section Cache

variable {s : Cache} {insn : Addr}

theorem currentFits (fits : s.Fits) (insn : Option Addr) : Cache.Fits { s with currentInsn := insn } :=
  ⟨fits.asked, fits.kept, fits.awaited⟩

theorem decodeFits (asked : ∀ other, other ≠ insn → s.fetched other = true → s.obtained other = true ∨ s.kept = some other)
    (kept : ∀ other, s.kept = some other → other ≠ insn ∧ s.fetched other = true ∧ s.obtained other = false)
    (none : s.prefetchInsn = none) : (s.decode insn).Fits := by
  refine ⟨fun other marked => ?_, fun other flushed => ?_, fun other awaited => ?_⟩
  · by_cases same : other = insn
    · exact .inl (by simp [Cache.decode, same])
    · rcases asked other same marked with before | before
      · exact .inl (by simpa [Cache.decode, same] using before)
      · exact .inr (.inl before)
  · obtain ⟨differs, marked, old⟩ := kept other flushed
    exact ⟨marked, by simpa [Cache.decode, differs] using old⟩
  · have never : (some other : Option Addr) = Option.none := awaited.symm.trans none
    contradiction

theorem fetchFits (waits : Bool) (fits : s.Fits) (none : s.prefetchInsn = none) : (s.prefetcherFetch waits).Fits := by
  unfold Cache.prefetcherFetch
  cases current : s.currentInsn with
  | none => exact fits
  | some insn =>
      dsimp only
      cases marked : s.fetched insn with
      | true =>
          rw [if_pos rfl]
          split_ifs
          · refine ⟨fun other marked => ?_, fits.kept, fun other awaited => by contradiction⟩
            rcases fits.asked other marked with before | before | before
            · exact .inl before
            · exact .inr (.inl before)
            · rw [none] at before
              contradiction
          · exact fits
      | false =>
          rw [if_neg (by simp)]
          have old : ∀ other, s.kept = some other → other ≠ insn := by
            rintro other flushed rfl
            rw [(fits.kept other flushed).1] at marked
            contradiction
          have still : ∀ other, other ≠ insn → Function.update s.fetched insn true other = true →
              s.obtained other = true ∨ s.kept = some other := by
            intro other differs fetched
            rw [Function.update_of_ne differs] at fetched
            rcases fits.asked other fetched with before | before | before
            · exact .inl before
            · exact .inr before
            · rw [none] at before
              contradiction
          have unread : ∀ other, s.kept = some other → Function.update s.fetched insn true other = true ∧ s.obtained other = false := by
            intro other flushed
            rw [Function.update_of_ne (old other flushed)]
            exact fits.kept other flushed
          split_ifs
          · refine ⟨fun other fetched => ?_, unread, fun other awaited => ?_⟩
            · by_cases same : other = insn
              · exact .inr (.inr (by rw [same]))
              · exact (still other same fetched).imp_right .inl
            · cases awaited
              exact ⟨Function.update_self .., fun flushed => old insn flushed rfl⟩
          · exact decodeFits still (fun other flushed => ⟨old other flushed, unread other flushed⟩) none

theorem fetchCurrent (waits : Bool) (s : Cache) : (s.prefetcherFetch waits).currentInsn = s.currentInsn := by
  unfold Cache.prefetcherFetch
  split
  · rfl
  · dsimp only
    split_ifs <;> rfl

theorem fetchKept (waits : Bool) (s : Cache) : (s.prefetcherFetch waits).kept = s.kept := by
  unfold Cache.prefetcherFetch
  split
  · rfl
  · dsimp only
    split_ifs <;> rfl

theorem fetchMarks (waits : Bool) (current : s.currentInsn = some insn) : (s.prefetcherFetch waits).fetched insn = true := by
  unfold Cache.prefetcherFetch
  rw [current]
  dsimp only
  split_ifs with marked
  · exact marked
  · exact marked
  · exact Function.update_self ..
  · exact Function.update_self ..

theorem fetchAtOnce (free : s.prefetchInsn = none) : (s.prefetcherFetch false).prefetchInsn = none := by
  unfold Cache.prefetcherFetch
  split
  · exact free
  · dsimp only
    split_ifs
    · contradiction
    · exact free
    · contradiction
    · exact free

theorem callbackFits (more : Bool) (fits : s.Fits) : (s.fetchStallCallback more).Fits := by
  unfold Cache.fetchStallCallback
  cases awaited : s.prefetchInsn with
  | none => exact fits
  | some insn =>
      dsimp only
      split_ifs
      · exact fits
      · obtain ⟨-, apart⟩ := fits.awaited insn awaited
        refine decodeFits (fun other differs marked => ?_) (fun other flushed => ?_) rfl
        · rcases fits.asked other marked with before | before | before
          · exact .inl before
          · exact .inr before
          · rw [awaited] at before
            exact absurd (Option.some.inj before).symm differs
        · refine ⟨?_, fits.kept other flushed⟩
          rintro rfl
          exact apart flushed

theorem callbackKeeps (s : Cache) (more : Bool) :
    (s.fetchStallCallback more).currentInsn = s.currentInsn ∧ (s.fetchStallCallback more).fetched = s.fetched := by
  unfold Cache.fetchStallCallback
  split
  · exact ⟨rfl, rfl⟩
  · split_ifs <;> exact ⟨rfl, rfl⟩

theorem callbackDecodes (s : Cache) : (s.fetchStallCallback false).prefetchInsn = none := by
  unfold Cache.fetchStallCallback
  split
  · assumption
  · rfl

theorem flushFits (s : Cache) : s.flush.Fits := by
  refine ⟨fun insn marked => ?_, fun insn flushed => ?_, fun insn awaited => by contradiction⟩
  · have current : s.currentInsn = some insn := by simpa [Cache.flush] using marked
    exact .inr (.inl current)
  · have current : s.currentInsn = some insn := flushed
    exact ⟨by simpa [Cache.flush] using current, rfl⟩

end Cache

structure Sound (s : Iss) : Prop where
  cache : s.cache.Fits
  under : s.cache.prefetchInsn ≠ none → 0 < s.core.fetching
  enabled : s.core.fetchEnable = true → s.core.doFetch = true ∧ s.cache.currentInsn ≠ none
  ready : s.core.phase = .idle → s.core.isActive = true → ∃ insn, s.cache.currentInsn = some insn ∧ s.cache.fetched insn = true

structure Plain (s s' : Core) : Prop where
  fetching : s'.fetching = s.fetching
  enabled : s'.fetchEnable = s.fetchEnable
  doFetch : s'.doFetch = s.doFetch
  active : s'.phase = .idle → s'.isActive = true → s.phase = .idle ∧ s.isActive = true

section Calls

variable {s : Iss} {core core' : Core} {c : Config}

theorem withCoreSound (sound : Sound s) (plain : Plain s.core core) : Sound (s.withCore core) := by
  refine ⟨sound.cache, fun some => ?_, fun set => ?_, fun idle on => ?_⟩
  · exact Nat.lt_of_lt_of_eq (sound.under some) plain.fetching.symm
  · obtain ⟨fetches, current⟩ := sound.enabled (plain.enabled.symm.trans set)
    exact ⟨plain.doFetch.trans fetches, current⟩
  · obtain ⟨idle', on'⟩ := plain.active idle on
    exact sound.ready idle' on'

theorem nothingAwaited (sound : Sound s) (free : s.core.fetching = 0) : s.cache.prefetchInsn = none := by
  by_contra some
  have more := sound.under some
  omega

theorem runnableClear (runs : core.runnable = true) : core.stalled = 0 := by
  simp only [Core.runnable, Bool.and_eq_true, beq_iff_eq] at runs
  exact runs.1.2

theorem runnableEnabled (runs : core.runnable = true) : core.fetchEnable = true := by
  simp only [Core.runnable, Bool.and_eq_true, beq_iff_eq] at runs
  exact runs.1.1.2

theorem checkStateSound (waits : Bool) (sound : Sound s) (free : s.core.stalled = 0 → s.core.fetching = 0) :
    Sound (s.checkState waits) := by
  unfold Iss.checkState
  obtain ⟨off, held, same⟩ | ⟨off, runs, fetches, rfl, same⟩ | ⟨off, runs, now, same⟩ | ⟨on, _, same⟩ | ⟨on, _, same⟩ :=
    Wrapper.checkStateCases s.core waits
  · rw [if_neg (by simp [held]), same]
    exact withCoreSound sound ⟨rfl, rfl, rfl, fun idle on => ⟨idle, on⟩⟩
  · -- The fetch waits: the core stays as it is.
    have nothing := nothingAwaited sound (free (runnableClear runs))
    rw [if_pos (by simp [off, runs, fetches]), same]
    refine ⟨fetchFits true sound.cache nothing, fun _ => Nat.succ_pos _, fun set => ?_, fun _ on => ?_⟩
    · rw [fetchCurrent]
      exact sound.enabled set
    · exact absurd (off.symm.trans on) (by simp)
  · -- The core goes on with an instruction that is there.
    have nothing := nothingAwaited sound (free (runnableClear runs))
    obtain ⟨fetches, current⟩ := sound.enabled (runnableEnabled runs)
    have done : waits = false := by
      rcases now with never | done
      · rw [fetches] at never
        contradiction
      · exact done
    subst done
    obtain ⟨insn, found⟩ := Option.ne_none_iff_exists'.mp current
    rw [if_pos (by simp [off, runs, fetches]), same]
    refine ⟨fetchFits false sound.cache nothing, fun some => ?_, fun set => ?_, fun _ _ => ?_⟩
    · exact absurd (fetchAtOnce nothing) some
    · rw [fetchCurrent]
      exact sound.enabled set
    · rw [fetchCurrent]
      exact ⟨insn, found, fetchMarks false found⟩
  · rw [if_neg (by simp [on]), same]
    exact withCoreSound sound ⟨rfl, rfl, rfl, fun _ on => by contradiction⟩
  · rw [if_neg (by simp [on]), same]
    exact withCoreSound sound ⟨rfl, rfl, rfl, fun idle _ => ⟨idle, on⟩⟩

theorem setHaltModeSound {halted waits : Bool} {last : Core} (sound : Sound s)
    (free : ∀ u ∈ s.core.haltChecks c last, u.stalled = 0 → u.fetching = 0) : Sound (s.setHaltMode c halted waits) := by
  unfold Core.haltChecks at free
  unfold Iss.setHaltMode
  cases unit : c.riscvDbgUnit with
  | false => exact withCoreSound sound ⟨rfl, rfl, rfl, fun idle on => ⟨idle, on⟩⟩
  | true =>
      cases debug : s.core.debugMode with
      | true => exact sound
      | false =>
          simp only [unit, debug, Bool.not_false, Bool.and_self, if_true] at free
          have pending : Sound (s.withCore s.core.debugPending) := withCoreSound sound ⟨rfl, rfl, rfl, fun idle on => ⟨idle, on⟩⟩
          exact checkStateSound waits pending (free s.core.debugPending (by simp))

theorem haltAndCheckSound {halted waits : Bool} (again : Bool) (sound : Sound s)
    (free : ∀ u ∈ s.core.haltChecks c (s.core.setHaltMode c halted waits), u.stalled = 0 → u.fetching = 0) :
    Sound (s.haltAndCheck c halted waits again) := by
  refine checkStateSound again (setHaltModeSound sound free) ?_
  rw [setHaltModeCore]
  exact free _ (Wrapper.haltChecksLast ..)

theorem stepEndSound {debugMode waits : Bool} (again : Bool) (sound : Sound s)
    (free : ∀ u ∈ s.core.stepChecks c debugMode waits, u.stalled = 0 → u.fetching = 0) : Sound (s.stepEnd c debugMode waits again) := by
  unfold Iss.stepEnd
  unfold Core.stepChecks at free
  split_ifs with stepping
  · have cleared : Sound (s.withCore { s.core with doStep := false }) :=
      withCoreSound sound ⟨rfl, rfl, rfl, fun idle on => ⟨idle, on⟩⟩
    simp only [stepping, if_true] at free
    cases gdb : c.gdbserver with
    | true =>
        simp only [gdb, if_true, List.mem_singleton, forall_eq] at free
        have halts : Sound (s.stepDone c waits) := by
          simp only [Iss.stepDone, gdb, if_true]
          exact withCoreSound cleared ⟨rfl, rfl, rfl, fun idle on => ⟨idle, on⟩⟩
        refine checkStateSound again halts ?_
        rw [stepDoneCore]
        exact free
    | false =>
        simp only [gdb, Bool.false_eq_true, if_false] at free
        have halts : Sound (s.stepDone c waits) := by
          simp only [Iss.stepDone, gdb, Bool.false_eq_true, if_false]
          exact setHaltModeSound cleared free
        refine checkStateSound again halts ?_
        rw [stepDoneCore]
        exact free _ (Wrapper.haltChecksLast ..)
  · exact sound

theorem issPcSetSound (insn : Addr) (cache : s.cache.Fits) (under : s.cache.prefetchInsn ≠ none → 0 < s.core.fetching) :
    Sound (s.issPcSet insn) := by
  have fields : s.core.prefetcherRefetch.fetching = s.core.fetching ∧ s.core.prefetcherRefetch.doFetch = true ∧
      s.core.prefetcherRefetch.isActive = false := by
    unfold Core.prefetcherRefetch
    dsimp only
    split_ifs <;> exact ⟨rfl, rfl, rfl⟩
  obtain ⟨fetching, fetches, off⟩ := fields
  refine ⟨currentFits cache _, fun some => ?_, fun _ => ⟨fetches, by simp [Iss.issPcSet]⟩, fun _ on => ?_⟩
  · exact Nat.lt_of_lt_of_eq (under some) fetching.symm
  · rw [Iss.issPcSet, off] at on
    contradiction

theorem flushedSound (sound : Sound s) : Sound s.flushed := by
  refine ⟨flushFits s.cache, fun some => absurd rfl some, sound.enabled, fun idle on => ?_⟩
  obtain ⟨insn, current, -⟩ := sound.ready idle on
  exact ⟨insn, current, by simpa [Iss.flushed, Cache.flush] using current⟩

theorem fetchedSound {waits : Bool} (insn : Addr) (sound : Sound s) (free : s.core.fetching = 0)
    (fetching : waits = true → 0 < core.fetching) (enabled : core.fetchEnable = s.core.fetchEnable)
    (doFetch : core.doFetch = s.core.doFetch) :
    Sound { s with core := core, cache := Cache.prefetcherFetch { s.cache with currentInsn := some insn } waits } := by
  have nothing := nothingAwaited sound free
  have set : Cache.Fits { s.cache with currentInsn := some insn } := currentFits sound.cache _
  refine ⟨fetchFits waits set nothing, fun waiting => ?_, fun set => ?_, fun _ _ => ?_⟩
  · cases waits with
    | false => exact absurd (fetchAtOnce (s := { s.cache with currentInsn := some insn }) nothing) waiting
    | true => exact fetching rfl
  · refine ⟨doFetch.trans (sound.enabled (enabled.symm.trans set)).1, ?_⟩
    rw [fetchCurrent]
    simp
  · rw [fetchCurrent]
    exact ⟨insn, rfl, fetchMarks waits rfl⟩

theorem execEndFetches (core : Core) : core.execEnd.fetching = core.fetching ∧ core.execEnd.fetchEnable = core.fetchEnable ∧
    core.execEnd.doFetch = core.doFetch := by
  unfold Core.execEnd Core.enqueueNextInstr
  dsimp only
  split_ifs <;> exact ⟨rfl, rfl, rfl⟩

theorem execEndSound {waits : Bool} (insn : Addr) (sound : Sound s) (free : s.core.fetching = 0) : Sound (s.execEnd insn waits) := by
  obtain ⟨fetching, enabled, doFetch⟩ := execEndFetches (s.core.prefetcherFetch waits)
  refine fetchedSound insn sound free (fun waiting => ?_) (enabled.trans ?_) (doFetch.trans ?_)
  · rw [fetching, waiting]
    exact Nat.succ_pos _
  · cases waits <;> rfl
  · cases waits <;> rfl

theorem beginPlain {e : Event} (debugHandler : Addr) (waits : Bool)
    (plain : e = .checkAll → s.debugEntry = false ∧ s.irqEntry = false) :
    ∃ core, s.beginInstr c debugHandler e waits = (s.withCore core, false) ∧ core.fetching = s.core.fetching ∧
      core.fetchEnable = s.core.fetchEnable ∧ core.doFetch = s.core.doFetch := by
  unfold Iss.beginInstr Core.beginInstr
  by_cases check : e = .checkAll
  · obtain ⟨debug, irq⟩ := plain check
    have noDebug : (((s.core.eventCancel e).switchToFast c).reqDebug && !((s.core.eventCancel e).switchToFast c).debugMode) = false := debug
    have masked : ¬(s.core.reqIrq ≠ -1 ∧ s.core.irqEnable = true) := by simpa [Iss.irqEntry] using irq
    have noIrq : ¬(((s.core.eventCancel e).switchToFast c).reqIrq ≠ -1 ∧ ((s.core.eventCancel e).switchToFast c).irqEnable = true) := masked
    simp only [if_pos check, Core.issIrqCheck, Iss.irqCheck, debug, irq, noDebug, if_neg noIrq, Bool.false_eq_true, if_false]
    exact ⟨_, rfl, rfl, rfl, rfl⟩
  · simp only [if_neg check]
    exact ⟨_, rfl, rfl, rfl, rfl⟩

theorem beginDebug (debugHandler : Addr) (waits : Bool) (debug : s.debugEntry = true) :
    ∃ core, s.beginInstr c debugHandler .checkAll waits =
        ({ s with core := core, cache := { s.cache with currentInsn := some debugHandler } }, false) ∧
      core.fetching = s.core.fetching ∧ core.fetchEnable = s.core.fetchEnable ∧ core.doFetch = s.core.doFetch := by
  have enters : (((s.core.eventCancel .checkAll).switchToFast c).reqDebug &&
      !((s.core.eventCancel .checkAll).switchToFast c).debugMode) = true := debug
  unfold Iss.beginInstr Core.beginInstr
  simp only [if_true, Core.issIrqCheck, Iss.irqCheck, debug, enters]
  exact ⟨_, rfl, rfl, rfl, rfl⟩

theorem beginIrq (debugHandler : Addr) (waits : Bool) (debug : s.debugEntry = false) (irq : s.irqEntry = true) :
    ∃ core, s.beginInstr c debugHandler .checkAll waits =
        ({ s with core := core
                  cache := Cache.prefetcherFetch { s.cache with currentInsn := some (s.vector s.core.reqIrq) } waits }, core.stalled != 0) ∧
      core.fetching = (s.core.prefetcherFetch waits).fetching ∧ core.stalled = (s.core.prefetcherFetch waits).stalled ∧
      core.fetchEnable = s.core.fetchEnable ∧ core.doFetch = s.core.doFetch := by
  have noDebug : (((s.core.eventCancel .checkAll).switchToFast c).reqDebug &&
      !((s.core.eventCancel .checkAll).switchToFast c).debugMode) = false := debug
  have taken : s.core.reqIrq ≠ -1 ∧ s.core.irqEnable = true := by simpa [Iss.irqEntry] using irq
  have enters : ((s.core.eventCancel .checkAll).switchToFast c).reqIrq ≠ -1 ∧
      ((s.core.eventCancel .checkAll).switchToFast c).irqEnable = true := taken
  unfold Iss.beginInstr Core.beginInstr
  simp only [if_true, Core.issIrqCheck, Iss.irqCheck, debug, irq, noDebug, if_pos enters, Bool.false_eq_true, if_false]
  cases waits <;> exact ⟨_, rfl, rfl, rfl, rfl, rfl⟩

theorem beginKinds (s : Iss) (e : Event) : (e = .checkAll → s.debugEntry = false ∧ s.irqEntry = false) ∨
    e = .checkAll ∧ s.debugEntry = true ∨ e = .checkAll ∧ s.debugEntry = false ∧ s.irqEntry = true := by
  by_cases check : e = .checkAll
  · cases debug : s.debugEntry with
    | true => exact .inr (.inl ⟨check, rfl⟩)
    | false =>
        cases irq : s.irqEntry with
        | true => exact .inr (.inr ⟨check, rfl, rfl⟩)
        | false => exact .inl (fun _ => ⟨rfl, rfl⟩)
  · exact .inl (fun other => absurd other check)

end Calls

end Gvsoc.InsnCache
