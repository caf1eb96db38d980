import Gvsoc.CoreEvents
import Gvsoc.LoadPhases

/-! The requests of a core to its data port, over many instructions: an access across words is split, its second
half is asked for by an event of its own, and the registers of the wrapper tell the event what to ask for. -/
namespace Gvsoc.Misaligned
open Io (IoStatus)
open Wrapper (Config Resume Core Same)
open Iss (Addr Crosses lastWord)
open Machine (Run runInvariant reach reachRun)

/- `data` is a host address. -/
structure Request where
  addr : Addr
  data : Nat
  size : Nat
  isWrite : Bool
  deriving DecidableEq

namespace Request

def firstHalf (r : Request) : Request :=
  let addr1 := lastWord r.addr r.size
  let size0 := (addr1 - r.addr).toNat
  { r with size := size0 }

def secondHalf (r : Request) : Request :=
  let addr1 := lastWord r.addr r.size
  let size0 := (addr1 - r.addr).toNat
  { r with addr := addr1, data := r.data + size0, size := r.size - size0 }

def Splits (r : Request) : Prop := Crosses r.addr r.size

instance (r : Request) : Decidable r.Splits := inferInstanceAs (Decidable (Crosses _ _))

end Request

/- `misaligned` stands for the four registers `misaligned_addr`, `misaligned_data`, `misaligned_size` and
`misaligned_is_write`. `latest` is not in the source: it is the access of the latest instruction, if that made one. -/
structure Lsu where
  core : Core
  misaligned : Request
  ioReq : Request
  latest : Option Request

/- The wrapper does not initialize the registers. -/
def Lsu.start (unset : Request) : Lsu := ⟨.start, unset, unset, none⟩

def Lsu.dataReq (s : Lsu) (r : Request) (core : Core) : Lsu :=
  if r.Splits then { core := core, misaligned := r.secondHalf, ioReq := r.firstHalf, latest := some r }
  else { s with core := core, ioReq := r, latest := some r }

inductive Action where
  | access (resume : Resume) (addr : Addr) (data size : Nat) (answer : IoStatus)
  | misaligned (answer : IoStatus)
  | other (a : Wrapper.Action)

def request (resume : Resume) (addr : Addr) (data size : Nat) : Request := ⟨addr, data, size, resume = .store⟩

/- `p_elw` does more than the other accesses. -/
def lsuWork (resume : Resume) (misaligned : Bool) (answer : IoStatus) : Wrapper.Work :=
  if resume = .elw then .elw misaligned answer else .access resume misaligned answer

def asksPort : Wrapper.Action → Bool
  | .work (.access _ _ _) | .work (.elw _ _) | .misaligned _ => true
  | _ => false

def latestAfter (latest : Option Request) : Wrapper.Action → Option Request
  | .event _ _ => none
  | _ => latest

def step (c : Config) (s : Lsu) : Action → Option Lsu
  | .access resume addr data size answer =>
      let r := request resume addr data size
      (Wrapper.step c s.core (.work (lsuWork resume r.Splits answer))).map (s.dataReq r)
  | .misaligned answer => (Wrapper.step c s.core (.misaligned answer)).map fun core => { s with core, ioReq := s.misaligned }
  | .other a =>
      if asksPort a then none
      else (Wrapper.step c s.core a).map fun core => { s with core, latest := latestAfter s.latest a }

/- A half that is asked for is done at once, no instruction starts while a second half is scheduled, and the stall of
an access across words is not lost before its instruction ends: the counter has eight bits, and a line that arrives
takes one of the stalls. -/
def Kept (s : Lsu) : Action → Prop
  | .access _ addr _ size answer => Crosses addr size → answer = .ok ∧ s.core.stalled ≠ 255
  | .misaligned answer => s.core.misalignedAccess = true → answer = .ok
  | .other (.event _ _) => s.core.misalignedEvent = 0
  | .other (.finish waits _ _) => s.core.misalignedAccess = true → waits = true → s.core.stalled ≠ 255
  | .other (.fetchResponse more _) => s.core.phase ≠ .idle → s.core.misalignedAccess = true → more = true ∨ s.core.stalled ≠ 1
  | .other _ => True

instance decideKept (s : Lsu) : (a : Action) → Decidable (Kept s a)
  | .access _ addr _ size answer => inferInstanceAs (Decidable (Crosses addr size → answer = .ok ∧ s.core.stalled ≠ 255))
  | .misaligned answer => inferInstanceAs (Decidable (s.core.misalignedAccess = true → answer = .ok))
  | .other (.event _ _) => inferInstanceAs (Decidable (s.core.misalignedEvent = 0))
  | .other (.finish waits _ _) =>
      inferInstanceAs (Decidable (s.core.misalignedAccess = true → waits = true → s.core.stalled ≠ 255))
  | .other (.fetchResponse more _) =>
      inferInstanceAs (Decidable (s.core.phase ≠ .idle → s.core.misalignedAccess = true → more = true ∨ s.core.stalled ≠ 1))
  | .other (.work _) | .other (.csrWrite _) | .other (.misaligned _) | .other (.irqEvent _) => .isTrue trivial
  | .other (.irqReqSync _) | .other (.dataResponse _) | .other (.flushAck _) | .other (.release _) => .isTrue trivial
  | .other (.fetchen _ _) | .other (.haltSync _ _ _) | .other (.debugReq _) | .other (.writeNpc _) => .isTrue trivial
  | .other (.writeCtrl _ _ _ _) | .other .gdbRegSet | .other (.gdbStop _) | .other (.gdbCont _) => .isTrue trivial
  | .other (.gdbStepi _) => .isTrue trivial

def Settled (s : Lsu) : Prop :=
  (s.core.phase = .idle → s.core.misalignedAccess = true → 0 < s.core.misalignedEvent) ∧
  (0 < s.core.misalignedEvent → ∃ r, s.latest = some r ∧ r.Splits ∧ s.misaligned = r.secondHalf)

structure Undisturbed (s s' : Core) : Prop where
  misalignedAccess : s'.misalignedAccess = s.misalignedAccess
  misalignedEvent : s'.misalignedEvent = s.misalignedEvent
  phase : s'.phase = s.phase
  stalled : s.phase ≠ .idle → s.stalled ≠ 0 → s'.stalled ≠ 0

section Calls

variable {s s' s'' : Core} {c : Config}

theorem undisturbedThen (first : Undisturbed s s') (second : Undisturbed s' s'') : Undisturbed s s'' := by
  refine ⟨second.misalignedAccess.trans first.misalignedAccess, second.misalignedEvent.trans first.misalignedEvent,
    second.phase.trans first.phase, fun busy held => ?_⟩
  have busy' : s'.phase ≠ .idle := by
    rw [first.phase]
    exact busy
  exact second.stalled busy' (first.stalled busy held)

theorem wakeUpUndisturbed (s : Core) : Undisturbed s s.wakeUp := by
  unfold Core.wakeUp Core.enqueueNextInstr
  exact ⟨rfl, rfl, rfl, fun _ held => held⟩

theorem checkStateUndisturbed (s : Core) (waits : Bool) : Undisturbed s (s.checkState waits) := by
  obtain ⟨_, _, same⟩ | ⟨_, _, _, _, same⟩ | ⟨_, _, _, same⟩ | ⟨_, _, same⟩ | ⟨_, _, same⟩ := Wrapper.checkStateCases s waits
  · rw [same]
    exact ⟨rfl, rfl, rfl, fun _ held => held⟩
  · rw [same]
    have one : (1 : BitVec 8) ≠ 0 := by decide
    exact ⟨rfl, rfl, rfl, fun _ _ => one⟩
  · have pointed : Undisturbed s { s with current := .checkAll } := ⟨rfl, rfl, rfl, fun _ held => held⟩
    rw [same]
    exact undisturbedThen pointed (wakeUpUndisturbed _)
  · rw [same]
    exact ⟨rfl, rfl, rfl, fun _ held => held⟩
  · rw [same]
    exact ⟨rfl, rfl, rfl, fun _ held => held⟩

theorem refetchUndisturbed (s : Core) : Undisturbed s s.prefetcherRefetch := by
  unfold Core.prefetcherRefetch
  simp only
  split_ifs <;> exact ⟨rfl, rfl, rfl, fun _ held => held⟩

theorem setHaltModeUndisturbed (s : Core) (c : Config) (halted waits : Bool) : Undisturbed s (s.setHaltMode c halted waits) := by
  unfold Core.setHaltMode
  split_ifs
  · exact ⟨rfl, rfl, rfl, fun _ held => held⟩
  · have pending : Undisturbed s s.debugPending := ⟨rfl, rfl, rfl, fun _ held => held⟩
    exact undisturbedThen pending (checkStateUndisturbed _ waits)
  · exact ⟨rfl, rfl, rfl, fun _ held => held⟩

theorem haltAndCheckUndisturbed (s : Core) (c : Config) (halted waits again : Bool) :
    Undisturbed s (s.haltAndCheck c halted waits again) :=
  undisturbedThen (setHaltModeUndisturbed s c halted waits) (checkStateUndisturbed _ again)

theorem stepEndUndisturbed (s : Core) (c : Config) (debugMode waits again : Bool) :
    Undisturbed s (s.stepEnd c debugMode waits again) := by
  have cleared : Undisturbed s { s with doStep := false } := ⟨rfl, rfl, rfl, fun _ held => held⟩
  unfold Core.stepEnd Core.stepDone
  simp only
  split_ifs
  · have halted : Undisturbed s { s with doStep := false, halted := true } := ⟨rfl, rfl, rfl, fun _ held => held⟩
    exact undisturbedThen halted (checkStateUndisturbed _ again)
  · exact undisturbedThen cleared (haltAndCheckUndisturbed _ c true waits again)
  · exact ⟨rfl, rfl, rfl, fun _ held => held⟩

theorem fetchenUndisturbed (s : Core) (active : Bool) : Undisturbed s (s.fetchenSync active) := by
  unfold Core.fetchenSync
  simp only
  split_ifs
  · have set : Undisturbed s { s with fetchEnable := active } := ⟨rfl, rfl, rfl, fun _ held => held⟩
    exact undisturbedThen set (refetchUndisturbed _)
  · exact ⟨rfl, rfl, rfl, fun _ held => held⟩

/- Interrupts are synchronised between two instructions. -/
theorem irqHandlerUndisturbed (idle : s.phase = .idle) : Undisturbed s s.irqReqSyncHandler := by
  unfold Core.irqReqSyncHandler
  simp only
  split_ifs <;> exact ⟨rfl, rfl, rfl, fun busy => absurd idle busy⟩

theorem csrWriteUndisturbed (s : Core) (f : Wrapper.Field) : Undisturbed s (s.csrWrite f) := by
  cases f <;> exact ⟨rfl, rfl, rfl, fun _ held => held⟩

theorem fetchResponseUndisturbed {more : Bool} (kept : s.phase ≠ .idle → more = true ∨ s.stalled ≠ 1) :
    Undisturbed s (s.fetchResponse more) := by
  cases more with
  | true =>
      refine ⟨rfl, rfl, rfl, fun _ held => ?_⟩
      show s.stalled - 1 + 1 ≠ 0
      rw [BitVec.sub_add_cancel]
      exact held
  | false =>
      refine ⟨rfl, rfl, rfl, fun busy _ => ?_⟩
      show s.stalled - 1 ≠ 0
      have last := (kept busy).resolve_left (by decide)
      intro none
      have one : s.stalled = 1 := by rw [← BitVec.sub_add_cancel s.stalled 1, none]; rfl
      contradiction

theorem beginInstrAccess (c : Config) (s : Core) (e : Wrapper.Event) (waits : Bool) :
    (s.beginInstr c e waits).1.misalignedAccess = s.misalignedAccess := by
  unfold Core.beginInstr Core.issIrqCheck
  split_ifs
  · rfl
  · cases waits <;> rfl
  · rfl
  · rfl

theorem enqueueUndisturbed (s : Core) : Undisturbed s s.enqueueNextInstr := by
  unfold Core.enqueueNextInstr
  split_ifs <;> exact ⟨rfl, rfl, rfl, fun _ held => held⟩

theorem lsuAsks (s : Core) (resume : Resume) (misaligned : Bool) (answer : IoStatus) :
    (s.lsu resume misaligned answer).misalignedAccess = (s.misalignedAccess || misaligned) ∧
      (misaligned = true → (s.lsu resume misaligned answer).stalled = if answer = .ok then s.stalled + 1 else s.stalled) := by
  cases misaligned with
  | false => cases answer <;> exact ⟨(Bool.or_false _).symm, fun never => by contradiction⟩
  | true => cases answer <;> exact ⟨(Bool.or_true _).symm, fun _ => rfl⟩

theorem elwAsks (s : Core) (misaligned : Bool) (answer : IoStatus) :
    (s.pElw misaligned answer).misalignedAccess = (s.misalignedAccess || misaligned) ∧
      (misaligned = true → (s.pElw misaligned answer).stalled = if answer = .ok then s.stalled + 1 else s.stalled) := by
  obtain ⟨access, stalled⟩ := lsuAsks { s with elwInsn := true, elwInterrupted := false } .elw misaligned answer
  unfold Core.pElw
  by_cases none : ({ s with elwInsn := true, elwInterrupted := false }.lsu .elw misaligned answer).stalled = 0
  · simp only [if_pos none]
    exact ⟨access, stalled⟩
  · simp only [if_neg none]
    exact ⟨access, stalled⟩

theorem workAsks (c : Config) (s : Core) (resume : Resume) (misaligned : Bool) (answer : IoStatus) :
    (s.work c (lsuWork resume misaligned answer)).misalignedAccess = (s.misalignedAccess || misaligned) ∧
      (s.work c (lsuWork resume misaligned answer)).misalignedEvent = s.misalignedEvent ∧
      (s.work c (lsuWork resume misaligned answer)).phase = s.phase ∧
      (misaligned = true → (s.work c (lsuWork resume misaligned answer)).stalled = if answer = .ok then s.stalled + 1 else s.stalled) := by
  by_cases elw : resume = .elw
  · obtain ⟨access, stalled⟩ := elwAsks s misaligned answer
    have same := Wrapper.pElwSame (s := s) misaligned answer
    rw [lsuWork, if_pos elw]
    exact ⟨access, same.misalignedEvent, same.phase, stalled⟩
  · obtain ⟨access, stalled⟩ := lsuAsks s resume misaligned answer
    have same := Wrapper.lsuSame (s := s) resume misaligned answer
    rw [lsuWork, if_neg elw]
    exact ⟨access, same.misalignedEvent, same.phase, stalled⟩

theorem execEndFields (s : Core) : s.execEnd.phase = .idle ∧ s.execEnd.misalignedAccess = s.misalignedAccess ∧
    s.execEnd.misalignedEvent = if s.stalled ≠ 0 ∧ s.misalignedAccess = true then s.misalignedEvent + 1 else s.misalignedEvent := by
  have next := enqueueUndisturbed { s with phase := .idle }
  unfold Core.execEnd
  dsimp only
  by_cases clear : s.stalled = 0
  · rw [if_pos clear, if_neg (fun waits => waits.1 clear)]
    exact ⟨next.phase, next.misalignedAccess, next.misalignedEvent⟩
  · rw [if_neg clear]
    by_cases split : s.misalignedAccess = true
    · rw [if_pos split, if_pos ⟨clear, split⟩]
      exact ⟨rfl, rfl, rfl⟩
    · rw [if_neg split, if_neg (fun waits => split waits.2)]
      exact ⟨rfl, rfl, rfl⟩

theorem finishFields {waits stepping again : Bool} (taken : Wrapper.step c s (.finish waits stepping again) = some s') :
    s.phase ≠ .idle ∧ s'.phase = .idle ∧ s'.misalignedAccess = s.misalignedAccess ∧
      s'.misalignedEvent = if (s.prefetcherFetch waits).stalled ≠ 0 ∧ s.misalignedAccess = true then s.misalignedEvent + 1
        else s.misalignedEvent := by
  have fetched : (s.prefetcherFetch waits).misalignedAccess = s.misalignedAccess ∧
      (s.prefetcherFetch waits).misalignedEvent = s.misalignedEvent := by
    cases waits <;> exact ⟨rfl, rfl⟩
  obtain ⟨idle, access, event⟩ := execEndFields (s.prefetcherFetch waits)
  rw [fetched.1] at access
  rw [fetched.1, fetched.2] at event
  simp only [Wrapper.step] at taken
  split at taken
  · contradiction
  · rename_i e debugMode acted phase
    have busy : s.phase ≠ .idle := by simp [phase]
    by_cases check : e = .checkAll
    · have same := stepEndUndisturbed (s.prefetcherFetch waits).execEnd c debugMode stepping again
      rw [if_pos check] at taken
      cases taken
      exact ⟨busy, same.phase.trans idle, same.misalignedAccess.trans access, same.misalignedEvent.trans event⟩
    · rw [if_neg check] at taken
      cases taken
      exact ⟨busy, idle, access, event⟩

theorem stallAdded {n : BitVec 8} (room : n ≠ 255) : n + 1 ≠ 0 := by
  intro wraps
  apply room
  rw [← BitVec.add_sub_cancel n 1, wraps]
  rfl

theorem execMisalignedFields (s : Core) (answer : IoStatus) :
    (s.execMisaligned answer).misalignedAccess = (if answer = .ok then false else s.misalignedAccess) ∧
      (s.execMisaligned answer).misalignedEvent = s.misalignedEvent - 1 ∧ (s.execMisaligned answer).phase = s.phase := by
  cases answer with
  | ok =>
      have next := enqueueUndisturbed { s with stalled := s.stalled - 1, halves := s.halves - 1
                                               misalignedEvent := s.misalignedEvent - 1, misalignedAccess := false }
      exact ⟨next.misalignedAccess, next.misalignedEvent, next.phase⟩
  | invalid => exact ⟨rfl, rfl, rfl⟩
  | denied => exact ⟨rfl, rfl, rfl⟩
  | pending => exact ⟨rfl, rfl, rfl⟩

def Aside : Wrapper.Action → Prop
  | .event _ _ | .work _ | .finish _ _ _ | .misaligned _ | .dataResponse _ | .fetchResponse _ _ => False
  | _ => True

theorem asideUndisturbed {a : Wrapper.Action} (aside : Aside a) (taken : Wrapper.step c s a = some s') : Undisturbed s s' := by
  cases a with
  | event _ _ | work _ | finish _ _ _ | misaligned _ | dataResponse _ | fetchResponse _ _ => contradiction
  | csrWrite f =>
      cases taken
      exact csrWriteUndisturbed s f
  | irqEvent waits =>
      obtain ⟨ready, done⟩ := Option.ite_none_right_eq_some.mp taken
      cases done
      exact undisturbedThen (irqHandlerUndisturbed ready.1) (checkStateUndisturbed _ waits)
  | irqReqSync irq =>
      cases taken
      exact ⟨rfl, rfl, rfl, fun _ held => held⟩
  | flushAck waits =>
      obtain ⟨-, done⟩ := Option.ite_none_right_eq_some.mp taken
      cases done
      have acknowledged : Undisturbed s s.flushCacheAck := ⟨rfl, rfl, rfl, fun _ held => held⟩
      exact undisturbedThen acknowledged (checkStateUndisturbed _ waits)
  | release waits =>
      cases taken
      have refetched := refetchUndisturbed s
      have released : Undisturbed s (s.released c) :=
        ⟨refetched.misalignedAccess, refetched.misalignedEvent, refetched.phase, refetched.stalled⟩
      exact undisturbedThen released (checkStateUndisturbed _ waits)
  | fetchen active waits =>
      cases taken
      exact undisturbedThen (fetchenUndisturbed s active) (checkStateUndisturbed _ waits)
  | haltSync halted waits again =>
      cases taken
      exact haltAndCheckUndisturbed s c halted waits again
  | debugReq waits =>
      cases taken
      have pending : Undisturbed s s.debugPending := ⟨rfl, rfl, rfl, fun _ held => held⟩
      exact undisturbedThen pending (checkStateUndisturbed _ waits)
  | writeNpc waits =>
      obtain ⟨-, done⟩ := Option.ite_none_right_eq_some.mp taken
      cases done
      have refetched := refetchUndisturbed s
      have awake : Undisturbed s { s.prefetcherRefetch with wfi := false } :=
        ⟨refetched.misalignedAccess, refetched.misalignedEvent, refetched.phase, refetched.stalled⟩
      exact undisturbedThen awake (checkStateUndisturbed _ waits)
  | writeCtrl halted step waits again =>
      cases taken
      have halts := setHaltModeUndisturbed s c halted waits
      have written : Undisturbed s { s.setHaltMode c halted waits with stepMode := step } :=
        ⟨halts.misalignedAccess, halts.misalignedEvent, halts.phase, halts.stalled⟩
      exact undisturbedThen written (checkStateUndisturbed _ again)
  | gdbRegSet =>
      obtain ⟨-, done⟩ := Option.ite_none_right_eq_some.mp taken
      cases done
      exact refetchUndisturbed s
  | gdbStop waits =>
      obtain ⟨-, done⟩ := Option.ite_none_right_eq_some.mp taken
      cases done
      have set : Undisturbed s { s with halted := true } := ⟨rfl, rfl, rfl, fun _ held => held⟩
      exact undisturbedThen set (checkStateUndisturbed _ waits)
  | gdbCont waits =>
      obtain ⟨-, done⟩ := Option.ite_none_right_eq_some.mp taken
      cases done
      have set : Undisturbed s { s with halted := false } := ⟨rfl, rfl, rfl, fun _ held => held⟩
      exact undisturbedThen set (checkStateUndisturbed _ waits)
  | gdbStepi waits =>
      obtain ⟨-, done⟩ := Option.ite_none_right_eq_some.mp taken
      cases done
      have set : Undisturbed s { s with stepMode := true, halted := false } := ⟨rfl, rfl, rfl, fun _ held => held⟩
      exact undisturbedThen set (checkStateUndisturbed _ waits)

theorem workUndisturbed {w : Wrapper.Work} (s : Core) (c : Config) (asks : asksPort (.work w) = false) :
    (s.work c w).misalignedAccess = s.misalignedAccess ∧ (s.work c w).misalignedEvent = s.misalignedEvent ∧
      (s.work c w).phase = s.phase := by
  cases w with
  | plain => exact ⟨rfl, rfl, rfl⟩
  | access _ _ _ => contradiction
  | elw _ _ => contradiction
  | fence =>
      simp only [Core.work, Core.issFenceI]
      split_ifs <;> exact ⟨rfl, rfl, rfl⟩
  | wfi waits =>
      have checked := checkStateUndisturbed { s with wfi := true } waits
      exact ⟨checked.misalignedAccess, checked.misalignedEvent, checked.phase⟩
  | halt waits again =>
      have halts := haltAndCheckUndisturbed s c true waits again
      exact ⟨halts.misalignedAccess, halts.misalignedEvent, halts.phase⟩
  | mret => exact ⟨rfl, rfl, rfl⟩
  | dret => exact ⟨rfl, rfl, rfl⟩

end Calls

def OwnHalf (s : Lsu) : Prop := ∃ r, s.latest = some r ∧ r.Splits ∧ s.misaligned = r.secondHalf

structure Fits (s : Lsu) : Prop where
  idle : s.core.phase = .idle → s.core.misalignedAccess = true → 0 < s.core.misalignedEvent
  busy : s.core.phase ≠ .idle → s.core.misalignedEvent = 0
  own : s.core.misalignedAccess = true ∨ 0 < s.core.misalignedEvent → OwnHalf s
  fresh : ∀ e debugMode, s.core.phase = .executing e debugMode false → s.core.misalignedAccess = false
  waits : s.core.phase ≠ .idle → s.core.misalignedAccess = true → s.core.stalled ≠ 0

section Fits

variable {s next : Lsu} {core : Core} {c : Config}

theorem undisturbedFits (fits : Fits s) (same : Undisturbed s.core core) : Fits { s with core := core } := by
  obtain ⟨access, event, phase, stalled⟩ := same
  refine ⟨?_, ?_, ?_, ?_, ?_⟩
  · rw [access, event, phase]
    exact fits.idle
  · rw [event, phase]
    exact fits.busy
  · rw [access, event]
    exact fits.own
  · rw [access, phase]
    exact fits.fresh
  · rw [access, phase]
    exact fun busy split => stalled busy (fits.waits busy split)

theorem clearFits (clear : core.misalignedAccess = false) (busy : core.phase ≠ .idle → core.misalignedEvent = 0)
    (own : 0 < core.misalignedEvent → OwnHalf s) : Fits { s with core := core } := by
  refine ⟨fun _ split => ?_, busy, fun some => ?_, fun _ _ _ => clear, fun _ split => ?_⟩
  · rw [clear] at split
    contradiction
  · rcases some with split | scheduled
    · rw [clear] at split
      contradiction
    · exact own scheduled
  · rw [clear] at split
    contradiction

theorem eventFits {e : Wrapper.Event} {waits : Bool} (fits : Fits s) (rest : s.core.misalignedEvent = 0)
    (taken : Wrapper.step c s.core (.event e waits) = some core) : Fits { s with core := core, latest := none } := by
  simp only [Wrapper.step] at taken
  split at taken
  · rename_i ready
    have clear : s.core.misalignedAccess = false := by
      by_contra split
      have scheduled := fits.idle ready.1 (by simpa using split)
      omega
    have access := (beginInstrAccess c s.core e waits).trans clear
    have event := (Wrapper.beginInstrFields c s.core e waits).2.1.trans rest
    split at taken
    · cases taken
      obtain ⟨-, access', event'⟩ := execEndFields (s.core.beginInstr c e waits).1
      rw [access] at access'
      rw [access, if_neg (by simp), event] at event'
      have ended : Fits { s with latest := none, core := (s.core.beginInstr c e waits).1.execEnd } :=
        clearFits (s := { s with latest := none }) access' (fun _ => event') (fun some => absurd event' (Nat.ne_of_gt some))
      exact undisturbedFits ended (stepEndUndisturbed _ c s.core.debugMode false false)
    · cases taken
      exact clearFits (s := { s with latest := none }) access (fun _ => event) (fun some => absurd event (Nat.ne_of_gt some))
  · contradiction

theorem finishFits {waits stepping again : Bool} (fits : Fits s)
    (room : s.core.misalignedAccess = true → waits = true → s.core.stalled ≠ 255)
    (taken : Wrapper.step c s.core (.finish waits stepping again) = some core) : Fits { s with core := core } := by
  obtain ⟨busy, idle, access, event⟩ := finishFields taken
  have stalls : s.core.misalignedAccess = true → (s.core.prefetcherFetch waits).stalled ≠ 0 := by
    intro split
    cases waits with
    | false => exact fits.waits busy split
    | true => exact stallAdded (room split rfl)
  refine ⟨fun _ split => ?_, fun other => absurd idle other, fun some => fits.own (.inl ?_), fun e debugMode other => ?_,
    fun other => absurd idle other⟩
  · rw [access] at split
    rw [event, if_pos ⟨stalls split, split⟩]
    exact Nat.succ_pos _
  · rcases some with split | scheduled
    · exact access.symm.trans split
    · by_contra clear
      rw [event, if_neg (fun both => clear both.2), fits.busy busy] at scheduled
      contradiction
  · rw [idle] at other
    contradiction

theorem responseFits {waits : Bool} (fits : Fits s) (taken : Wrapper.step c s.core (.dataResponse waits) = some core) :
    Fits { s with core := core } := by
  obtain ⟨-, done⟩ := Option.ite_none_right_eq_some.mp taken
  cases done
  have same := Wrapper.dataResponseSame (s := s.core)
  have clear : s.core.dataResponse.misalignedAccess = false := by
    unfold Core.dataResponse
    dsimp only
    split
    · rfl
    · rename_i aligned
      simpa using aligned
  have answered : Fits { s with core := s.core.dataResponse } := by
    refine clearFits clear ?_ ?_
    · rw [same.phase, same.misalignedEvent]
      exact fits.busy
    · rw [same.misalignedEvent]
      exact fun some => fits.own (.inr some)
  exact undisturbedFits (s := { s with core := s.core.dataResponse }) answered (checkStateUndisturbed _ waits)

theorem fetchResponseFits {more waits : Bool} (fits : Fits s)
    (kept : s.core.phase ≠ .idle → s.core.misalignedAccess = true → more = true ∨ s.core.stalled ≠ 1)
    (taken : Wrapper.step c s.core (.fetchResponse more waits) = some core) : Fits { s with core := core } := by
  obtain ⟨-, done⟩ := Option.ite_none_right_eq_some.mp taken
  cases done
  have same := Wrapper.fetchResponseSame (s := s.core) more
  have answered : Fits { s with core := s.core.fetchResponse more } := by
    by_cases split : s.core.misalignedAccess = true
    · exact undisturbedFits fits (fetchResponseUndisturbed (fun busy => kept busy split))
    · have clear : (s.core.fetchResponse more).misalignedAccess = false := by
        have unset : s.core.misalignedAccess = false := by simpa using split
        cases more <;> exact unset
      refine clearFits clear ?_ ?_
      · rw [same.phase, same.misalignedEvent]
        exact fits.busy
      · rw [same.misalignedEvent]
        exact fun some => fits.own (.inr some)
  exact undisturbedFits (s := { s with core := s.core.fetchResponse more }) answered (checkStateUndisturbed _ waits)

theorem workFits {w : Wrapper.Work} (fits : Fits s) (asks : asksPort (.work w) = false)
    (taken : Wrapper.step c s.core (.work w) = some core) : Fits { s with core := core } := by
  simp only [Wrapper.step] at taken
  split at taken
  · rename_i e debugMode phase
    cases taken
    obtain ⟨access, event, -⟩ := workUndisturbed { s.core with phase := .executing e debugMode true } c asks
    have none := fits.busy (by simp [phase])
    refine clearFits (access.trans (fits.fresh e debugMode phase)) (fun _ => event.trans none) (fun some => ?_)
    rw [event] at some
    exact absurd none (Nat.ne_of_gt some)
  · contradiction

theorem accessTakes {resume : Resume} {addr : Addr} {data size : Nat} {answer : IoStatus} {r : Request}
    (asked : request resume addr data size = r) (taken : step c s (.access resume addr data size answer) = some next) :
    ∃ e debugMode, s.core.phase = .executing e debugMode false ∧ next.core.phase = .executing e debugMode true ∧
      next.core.misalignedAccess = (s.core.misalignedAccess || decide r.Splits) ∧
      next.core.misalignedEvent = s.core.misalignedEvent ∧ next.latest = some r ∧
      (r.Splits → next.misaligned = r.secondHalf ∧
        next.core.stalled = if answer = .ok then s.core.stalled + 1 else s.core.stalled) := by
  simp only [step, asked] at taken
  obtain ⟨core, worked, made⟩ := Option.map_eq_some_iff.mp taken
  simp only [Wrapper.step] at worked
  split at worked
  · rename_i e debugMode phase
    obtain ⟨access, event, same, stalled⟩ :=
      workAsks c { s.core with phase := .executing e debugMode true } resume (decide r.Splits) answer
    cases worked
    subst made
    unfold Lsu.dataReq
    by_cases splits : r.Splits
    · rw [if_pos splits]
      exact ⟨e, debugMode, phase, same, access, event, rfl, fun _ => ⟨rfl, stalled (decide_eq_true splits)⟩⟩
    · rw [if_neg splits]
      exact ⟨e, debugMode, phase, same, access, event, rfl, fun other => absurd other splits⟩
  · contradiction

theorem accessFits {resume : Resume} {addr : Addr} {data size : Nat} {answer : IoStatus} (fits : Fits s)
    (kept : Crosses addr size → answer = .ok ∧ s.core.stalled ≠ 255)
    (taken : step c s (.access resume addr data size answer) = some next) : Fits next := by
  obtain ⟨e, debugMode, before, after, access, event, latest, splits⟩ := accessTakes rfl taken
  have none : next.core.misalignedEvent = 0 := event.trans (fits.busy (by simp [before]))
  rw [fits.fresh e debugMode before, Bool.false_or] at access
  by_cases crosses : (request resume addr data size).Splits
  · obtain ⟨rfl, room⟩ := kept crosses
    obtain ⟨half, stalled⟩ := splits crosses
    refine ⟨fun idle => ?_, fun _ => none, fun _ => ⟨_, latest, crosses, half⟩, fun e' debugMode' fresh => ?_, fun _ _ => ?_⟩
    · rw [after] at idle
      contradiction
    · rw [after] at fresh
      simp at fresh
    · rw [stalled, if_pos rfl]
      exact stallAdded room
  · exact clearFits (s := next) (access.trans (decide_eq_false crosses)) (fun _ => none)
      (fun some => absurd none (Nat.ne_of_gt some))

theorem misalignedAsks {answer : IoStatus} (fits : Fits s) (taken : step c s (.misaligned answer) = some next) :
    ∃ r, s.latest = some r ∧ r.Splits ∧ next.ioReq = r.secondHalf := by
  simp only [step, Wrapper.step] at taken
  split at taken
  · rename_i ready
    obtain ⟨r, latest, splits, half⟩ := fits.own (.inr ready.2)
    cases taken
    exact ⟨r, latest, splits, half⟩
  · contradiction

theorem misalignedFits {answer : IoStatus} (fits : Fits s) (done : s.core.misalignedAccess = true → answer = .ok)
    (taken : step c s (.misaligned answer) = some next) : Fits next := by
  simp only [step, Wrapper.step] at taken
  split at taken
  · rename_i ready
    obtain ⟨access, event, phase⟩ := execMisalignedFields s.core answer
    have clear : (s.core.execMisaligned answer).misalignedAccess = false := by
      rw [access]
      split_ifs with now
      · rfl
      · simpa using fun split => now (done split)
    cases taken
    refine clearFits (s := { s with ioReq := s.misaligned }) clear (fun busy => ?_) (fun _ => fits.own (.inr ready.2))
    rw [phase] at busy
    exact absurd ready.1 busy
  · contradiction

end Fits

theorem stepFits {c : Config} {s next : Lsu} {a : Action} (fits : Fits s) (kept : Kept s a) (taken : step c s a = some next) :
    Fits next := by
  cases a with
  | access resume addr data size answer => exact accessFits fits kept taken
  | misaligned answer => exact misalignedFits fits kept taken
  | other a =>
      simp only [step] at taken
      split at taken
      · contradiction
      · rename_i asks
        obtain ⟨core, made, rfl⟩ := Option.map_eq_some_iff.mp taken
        have quiet : asksPort a = false := by simpa using asks
        cases a with
        | event e waits => exact eventFits fits kept made
        | work w => exact workFits fits quiet made
        | finish waits stepping again => exact finishFits fits kept made
        | misaligned answer => contradiction
        | dataResponse waits => exact responseFits fits made
        | fetchResponse more waits => exact fetchResponseFits fits kept made
        | csrWrite _ | irqEvent _ | irqReqSync _ | flushAck _ | release _ | fetchen _ _ | haltSync _ _ _ =>
            exact undisturbedFits fits (asideUndisturbed (by trivial) made)
        | debugReq _ | writeNpc _ | writeCtrl _ _ _ _ | gdbRegSet | gdbStop _ | gdbCont _ | gdbStepi _ =>
            exact undisturbedFits fits (asideUndisturbed (by trivial) made)

theorem runFits {c : Config} {unset : Request} {trace last} (run : Run (step c) Kept (.start unset) trace last) : Fits last := by
  refine runInvariant run ?_ (fun _ _ _ fits kept taken => stepFits fits kept taken)
  exact clearFits (s := .start unset) rfl (fun _ => rfl) (fun some => by contradiction)

theorem splitEnds {c : Config} {s asked ended : Lsu} {resume : Resume} {addr : Addr} {data size : Nat} {answer : IoStatus}
    {waits stepping again : Bool} (fits : Fits s) (crosses : Crosses addr size) (running : s.core.stalled = 0)
    (accessed : step c s (.access resume addr data size answer) = some asked)
    (finished : step c asked (.other (.finish waits stepping again)) = some ended) :
    Settled ended ↔ answer = .ok ∨ waits = true := by
  obtain ⟨e, debugMode, before, phase, access, event, latest, splits⟩ := accessTakes rfl accessed
  obtain ⟨half, stalled⟩ := splits crosses
  have flag : asked.core.misalignedAccess = true := by
    rw [access, decide_eq_true (show (request resume addr data size).Splits from crosses), Bool.or_true]
  have none : asked.core.misalignedEvent = 0 := event.trans (fits.busy (by simp [before]))
  have held : (asked.core.prefetcherFetch waits).stalled ≠ 0 ↔ answer = .ok ∨ waits = true := by
    rw [running] at stalled
    cases waits with
    | false =>
        have same : (asked.core.prefetcherFetch false).stalled = asked.core.stalled := rfl
        rw [same, stalled]
        by_cases now : answer = .ok <;> simp [now]
    | true =>
        have more : (asked.core.prefetcherFetch true).stalled = asked.core.stalled + 1 := rfl
        rw [more, stalled]
        by_cases now : answer = .ok <;> simp [now]
  simp only [step, asksPort, Bool.false_eq_true, if_false] at finished
  obtain ⟨core, made, rfl⟩ := Option.map_eq_some_iff.mp finished
  obtain ⟨-, idle, kept, scheduled⟩ := finishFields made
  rw [flag] at kept scheduled
  rw [none] at scheduled
  constructor
  · intro settled
    by_contra lost
    have some := settled.1 idle kept
    rw [scheduled, if_neg (fun both => lost (held.1 both.1))] at some
    contradiction
  · intro done
    refine ⟨fun _ _ => ?_, fun _ => ⟨_, latest, crosses, half⟩⟩
    rw [scheduled, if_pos ⟨held.2 done, rfl⟩]
    exact Nat.succ_pos _

/- The flag of an access across words lasts no longer than its instruction, unless its second half is scheduled; and what
is asked for then is the second half of that instruction. A first half that is not done leaves the flag set, unless
the next instruction has to be fetched. -/
theorem splitAccessesSettled (c : Config) (unset : Request) {trace last} (run : Run (step c) Kept (.start unset) trace last) :
    Settled last ∧
    (∀ answer next, step c last (.misaligned answer) = some next →
      ∃ r, last.latest = some r ∧ r.Splits ∧ next.ioReq = r.secondHalf) ∧
    ∀ resume addr data size answer waits stepping again asked ended, Crosses addr size → last.core.stalled = 0 →
      step c last (.access resume addr data size answer) = some asked →
      step c asked (.other (.finish waits stepping again)) = some ended →
      (Settled ended ↔ answer = .ok ∨ waits = true) := by
  have fits := runFits run
  refine ⟨⟨fits.idle, fun scheduled => fits.own (.inr scheduled)⟩, fun _ _ taken => misalignedAsks fits taken, ?_⟩
  intro resume addr data size answer waits stepping again asked ended crosses running accessed finished
  exact splitEnds fits crosses running accessed finished

def storeSplit : List Action :=
  [.other (.release false), .other (.fetchen true false), .other (.event .checkAll false), .access .store 2 64 4 .ok,
    .other (.finish false false false)]

theorem splitAccessesSettledStore :
    ∃ trace, Run (step Wrapper.plainConfig) Kept (.start ⟨0, 0, 0, false⟩) trace
        (reach (step Wrapper.plainConfig) Kept (.start ⟨0, 0, 0, false⟩) storeSplit) ∧
      (reach (step Wrapper.plainConfig) Kept (.start ⟨0, 0, 0, false⟩) storeSplit).core.misalignedEvent = 1 ∧
      Settled (reach (step Wrapper.plainConfig) Kept (.start ⟨0, 0, 0, false⟩) storeSplit) := by
  obtain ⟨trace, run, -⟩ := reachRun (step Wrapper.plainConfig) Kept (.start ⟨0, 0, 0, false⟩) storeSplit (by decide +kernel)
  exact ⟨trace, run, by decide +kernel, (splitAccessesSettled Wrapper.plainConfig _ run).1⟩

def loadInvalid : List Action :=
  [.other (.release false), .other (.fetchen true false), .other (.event .checkAll false), .access .load 2 64 4 .invalid,
    .other (.finish false false false)]

def loadPending : List Action :=
  [.other (.event .instr false), .access .load 16 72 4 .pending, .other (.finish false false false), .misaligned .ok]

theorem oldHalfAsked :
    ∃ trace mid later last, Run (step Wrapper.plainConfig) Machine.anyStep (.start ⟨0, 0, 0, false⟩) trace mid ∧
      Run (step Wrapper.plainConfig) Machine.anyStep mid later last ∧
      mid.core.phase = .idle ∧ mid.core.misalignedAccess = true ∧ mid.core.misalignedEvent = 0 ∧
      last.latest = some ⟨16, 72, 4, false⟩ ∧ last.ioReq = Request.secondHalf ⟨2, 64, 4, false⟩ := by
  obtain ⟨trace, first, -⟩ := reachRun (step Wrapper.plainConfig) Machine.anyStep (.start ⟨0, 0, 0, false⟩) loadInvalid (by decide +kernel)
  obtain ⟨later, second, -⟩ := reachRun (step Wrapper.plainConfig) Machine.anyStep
    (reach (step Wrapper.plainConfig) Machine.anyStep (.start ⟨0, 0, 0, false⟩) loadInvalid) loadPending (by decide +kernel)
  exact ⟨trace, _, later, _, first, second, by decide +kernel⟩

end Gvsoc.Misaligned
