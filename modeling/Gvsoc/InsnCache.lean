import Gvsoc.CoreEvents

/-! The instructions that a core executes, and where their opcodes come from: `prefetcher_fetch` at the end of each
step, after an interrupt and when the program counter was written, and the flush of the instruction cache. The
opcodes themselves are left out, and so is the line of the prefetcher: a call of `prefetcher_fetch` tells whether
it has to wait for the port. -/
namespace Gvsoc.InsnCache
open Wrapper (Config Core Event)

abbrev Addr := BitVec 32

/- `fetched` is the field of each instruction, and `prefetchInsn` the instruction that is decoded when the line under
way arrives. `obtained` and `kept` are not in the source: the instructions whose opcode has come from the port since
the last flush, and the one whose opcode that flush has kept. -/
structure Cache where
  currentInsn : Option Addr
  prefetchInsn : Option Addr
  fetched : Addr → Bool
  obtained : Addr → Bool
  kept : Option Addr

namespace Cache

variable (s : Cache)

def decode (insn : Addr) : Cache := { s with obtained := Function.update s.obtained insn true }

/- `prefetcher_fetch` of the current instruction. One that was fetched before may need its line again, but then
nothing is decoded. -/
def prefetcherFetch (waits : Bool) : Cache :=
  match s.currentInsn with
  | none => s
  | some insn =>
      if s.fetched insn then if waits then { s with prefetchInsn := none } else s
      else
        let s := { s with fetched := Function.update s.fetched insn true }
        if waits then { s with prefetchInsn := some insn } else s.decode insn

def fetchStallCallback (more : Bool) : Cache :=
  match s.prefetchInsn with
  | none => s
  | some insn => if more then s else { s with prefetchInsn := none }.decode insn

/- `iss_cache_flush`. The current instruction keeps its opcode. A line that is under way is no longer where its callback
looks for it. -/
def flush : Cache :=
  { s with prefetchInsn := none, fetched := fun insn => s.currentInsn = some insn, obtained := fun _ => false
           kept := s.currentInsn }

end Cache

structure Places where
  debugHandler : Addr
  bootaddrOffset : Addr

structure Iss where
  core : Core
  cache : Cache
  vectorBase : Addr

def Iss.start : Iss := ⟨.start, ⟨none, none, fun _ => false, fun _ => false, none⟩, 0⟩

namespace Iss

variable (s : Iss)

def checkState (waits : Bool) : Iss :=
  { s with
    core := s.core.checkState waits
    cache := if !s.core.isActive && s.core.runnable && s.core.doFetch then s.cache.prefetcherFetch waits else s.cache }

def withCore (core : Core) : Iss := { s with core := core }

def setHaltMode (c : Config) (halted waits : Bool) : Iss :=
  if c.riscvDbgUnit then
    if s.core.debugMode then s else (s.withCore s.core.debugPending).checkState waits
  else s.withCore { s.core with halted := halted }

def haltAndCheck (c : Config) (halted waits again : Bool) : Iss := (s.setHaltMode c halted waits).checkState again

def stepDone (c : Config) (waits : Bool) : Iss :=
  let s := s.withCore { s.core with doStep := false }
  if c.gdbserver then s.withCore { s.core with halted := true } else s.setHaltMode c true waits

def stepEnd (c : Config) (debugMode waits again : Bool) : Iss :=
  if s.core.stepMode && !debugMode then (s.stepDone c waits).checkState again else s

def issPcSet (insn : Addr) : Iss :=
  { s with core := s.core.prefetcherRefetch, cache := { s.cache with currentInsn := some insn } }

def flushed : Iss := { s with cache := s.cache.flush }

def vector (irq : Int) : Addr := s.vectorBase + 4 * BitVec.ofInt 32 irq

def debugEntry : Bool := s.core.reqDebug && !s.core.debugMode

def irqEntry : Bool := s.core.reqIrq != -1 && s.core.irqEnable

def irqCheck (debugHandler : Addr) (waits : Bool) : Cache :=
  if s.debugEntry then { s.cache with currentInsn := some debugHandler }
  else if s.irqEntry then { s.cache with currentInsn := some (s.vector s.core.reqIrq) }.prefetcherFetch waits
  else s.cache

def beginInstr (c : Config) (debugHandler : Addr) (e : Event) (waits : Bool) : Iss × Bool :=
  let (core, leftOut) := s.core.beginInstr c e waits
  ({ s with core := core, cache := if e = .checkAll then s.irqCheck debugHandler waits else s.cache }, leftOut)

/- The handler of the current instruction. `fence` and `fence.i` flush. -/
def work (c : Config) : Wrapper.Work → Iss
  | .fence => if c.flushBound then (s.withCore (s.core.issFenceI c)).flushed else s.withCore (s.core.issFenceI c)
  | .wfi waits => (s.withCore { s.core with wfi := true }).checkState waits
  | .halt waits again => s.haltAndCheck c true waits again
  | w => s.withCore (s.core.work c w)

def execEnd (insn : Addr) (waits : Bool) : Iss :=
  { s with
    core := (s.core.prefetcherFetch waits).execEnd
    cache := { s.cache with currentInsn := some insn }.prefetcherFetch waits }

end Iss

/- The calls that write the program counter have its value, those that boot the core have the boot address, and the end
of an instruction has the next one. -/
inductive Action where
  | call (a : Wrapper.Action) (insn : Addr)
  | flush
  | mtvecWrite (base : Addr)

def step (c : Config) (p : Places) (s : Iss) : Action → Option Iss
  | .flush => some s.flushed
  | .mtvecWrite base => some { s with core := s.core.csrWrite .other, vectorBase := base }
  | .call a insn => match a with
    | .event e waits =>
        if s.core.phase = .idle ∧ e ≠ .first ∧ 0 < s.core.enqueued e then
          let (next, leftOut) := s.beginInstr c p.debugHandler e waits
          if leftOut then some ((next.withCore next.core.execEnd).stepEnd c s.core.debugMode false false)
          else some (next.withCore { next.core with phase := .executing e s.core.debugMode false })
        else none
    | .work w => match s.core.phase with
        | .executing e debugMode false => some ((s.withCore { s.core with phase := .executing e debugMode true }).work c w)
        | _ => none
    | .finish waits stepping again => match s.core.phase with
        | .idle => none
        | .executing e debugMode _ =>
            let next := s.execEnd insn waits
            some (if e = .checkAll then next.stepEnd c debugMode stepping again else next)
    | .csrWrite f => some (s.withCore (s.core.csrWrite f))
    | .misaligned answer =>
        if s.core.phase = .idle ∧ 0 < s.core.misalignedEvent then some (s.withCore (s.core.execMisaligned answer)) else none
    | .irqEvent waits =>
        if s.core.phase = .idle ∧ s.core.irqSyncEvent = true then some ((s.withCore s.core.irqReqSyncHandler).checkState waits)
        else none
    | .irqReqSync irq => some (s.withCore { s.core with irqReqValue := irq, irqSyncEvent := true })
    | .dataResponse waits => if 0 < s.core.accesses then some ((s.withCore s.core.dataResponse).checkState waits) else none
    | .fetchResponse more waits =>
        if 0 < s.core.fetching then
          some ({ s with core := s.core.fetchResponse more, cache := s.cache.fetchStallCallback more }.checkState waits)
        else none
    | .flushAck waits => if 0 < s.core.flushes then some ((s.withCore s.core.flushCacheAck).checkState waits) else none
    | .release waits =>
        let s := { s.issPcSet (insn + p.bootaddrOffset) with vectorBase := insn &&& ~~~0xff#32 }
        some ((s.withCore { s.core with halted := s.core.halted || c.gdbserver }).checkState waits)
    | .fetchen active waits =>
        let set := s.withCore { s.core with fetchEnable := active }
        some ((if !s.core.fetchEnable && active then set.issPcSet (insn + p.bootaddrOffset) else set).checkState waits)
    | .haltSync halted waits again => some (s.haltAndCheck c halted waits again)
    | .debugReq waits => some ((s.withCore s.core.debugPending).checkState waits)
    | .writeNpc waits =>
        if s.core.halted then
          let s := s.flushed.issPcSet insn
          some ((s.withCore { s.core with wfi := false }).checkState waits)
        else none
    | .writeCtrl halted stepping waits again =>
        let s := s.setHaltMode c halted waits
        some ((s.withCore { s.core with stepMode := stepping }).checkState again)
    | .gdbRegSet => if c.gdbserver then some (s.issPcSet insn) else none
    | .gdbStop waits => if c.gdbserver then some ((s.withCore { s.core with halted := true }).checkState waits) else none
    | .gdbCont waits => if c.gdbserver then some ((s.withCore { s.core with halted := false }).checkState waits) else none
    | .gdbStepi waits =>
        if c.gdbserver then some ((s.withCore { s.core with stepMode := true, halted := false }).checkState waits) else none

section Projection

variable {s next : Iss} {c : Config} {p : Places} {insn : Addr} {a : Wrapper.Action}

theorem setHaltModeCore (s : Iss) (c : Config) (halted waits : Bool) :
    (s.setHaltMode c halted waits).core = s.core.setHaltMode c halted waits := by
  unfold Iss.setHaltMode Core.setHaltMode
  split_ifs <;> rfl

theorem haltAndCheckCore (s : Iss) (c : Config) (halted waits again : Bool) :
    (s.haltAndCheck c halted waits again).core = s.core.haltAndCheck c halted waits again :=
  congrArg (·.checkState again) (setHaltModeCore s c halted waits)

theorem stepDoneCore (s : Iss) (c : Config) (waits : Bool) : (s.stepDone c waits).core = s.core.stepDone c waits := by
  unfold Iss.stepDone Core.stepDone
  dsimp only
  split_ifs
  · rfl
  · exact setHaltModeCore _ c true waits

theorem stepEndCore (s : Iss) (c : Config) (debugMode waits again : Bool) :
    (s.stepEnd c debugMode waits again).core = s.core.stepEnd c debugMode waits again := by
  unfold Iss.stepEnd Core.stepEnd
  split_ifs
  · exact congrArg (·.checkState again) (stepDoneCore s c waits)
  · rfl

theorem workCore (s : Iss) (c : Config) (w : Wrapper.Work) : (s.work c w).core = s.core.work c w := by
  cases w with
  | fence =>
      unfold Iss.work
      dsimp only
      split_ifs <;> rfl
  | halt waits again => exact haltAndCheckCore s c true waits again
  | _ => rfl

theorem stepProjects (taken : step c p s (.call a insn) = some next) : Wrapper.step c s.core a = some next.core := by
  cases a with
  | event e waits =>
      simp only [step] at taken
      split at taken
      · rename_i ready
        simp only [Wrapper.step, if_pos ready]
        have leftOut : (s.beginInstr c p.debugHandler e waits).2 = (s.core.beginInstr c e waits).2 := rfl
        have begun : (s.beginInstr c p.debugHandler e waits).1.core = (s.core.beginInstr c e waits).1 := rfl
        rw [leftOut] at taken
        split at taken
        · rename_i out
          cases taken
          rw [if_pos out, stepEndCore]
          rfl
        · rename_i stays
          cases taken
          rw [if_neg stays]
          rfl
      · contradiction
  | work w =>
      simp only [step] at taken
      split at taken
      · rename_i e debugMode phase
        cases taken
        simp only [Wrapper.step, phase, workCore]
        rfl
      · contradiction
  | finish waits stepping again =>
      simp only [step] at taken
      split at taken
      · contradiction
      · rename_i e debugMode acted phase
        cases taken
        simp only [Wrapper.step, phase]
        by_cases check : e = .checkAll
        · rw [if_pos check, if_pos check, stepEndCore]
          rfl
        · rw [if_neg check, if_neg check]
          rfl
  | fetchen active waits =>
      cases taken
      simp only [Wrapper.step, Core.fetchenSync, Iss.checkState]
      split_ifs <;> rfl
  | haltSync halted waits again =>
      cases taken
      exact congrArg some (haltAndCheckCore s c halted waits again).symm
  | writeCtrl halted stepping waits again =>
      cases taken
      simp only [Wrapper.step, Iss.checkState, Iss.withCore, setHaltModeCore]
  | csrWrite _ | irqReqSync _ | release _ | debugReq _ =>
      cases taken
      rfl
  | misaligned _ | irqEvent _ | dataResponse _ | fetchResponse _ _ | flushAck _ | writeNpc _ =>
      obtain ⟨ready, done⟩ := Option.ite_none_right_eq_some.mp taken
      cases done
      simp only [Wrapper.step, if_pos ready]
      rfl
  | gdbRegSet | gdbStop _ | gdbCont _ | gdbStepi _ =>
      obtain ⟨ready, done⟩ := Option.ite_none_right_eq_some.mp taken
      cases done
      simp only [Wrapper.step, if_pos ready]
      rfl

end Projection

end Gvsoc.InsnCache
