import Gvsoc.Io
import Gvsoc.Machine

/-! The scheduling of a core by its wrapper: which of the two instruction events is enqueued, when
`check_state` starts and stops the core, and what holds it (`stalled`). Instructions are seen through
what they do to this state, and the ports through their answers. Registers, cycle counts, latencies
and traces are left out: nothing here reads them. -/
namespace Gvsoc.Wrapper
open Io (IoStatus)

/- The three events that `current_event` points to in its life; the first one only until `check_state`
is called. -/
inductive Event where
  | first
  | instr
  | checkAll
  deriving DecidableEq

/- What is fixed when the core is built. `traceActive` is `VP_TRACE_ACTIVE`. -/
structure Config where
  gdbserver : Bool
  riscvDbgUnit : Bool
  traceActive : Bool
  flushBound : Bool
  deriving DecidableEq

inductive Resume where
  | load
  | elw
  | loadSigned
  | store
  deriving DecidableEq

/- Between two events, or inside the handler of one: with the `debug_mode` it found, and whether the
instruction has done its work. -/
inductive Phase where
  | idle
  | executing (event : Event) (debugMode acted : Bool)
  deriving DecidableEq

/- `enqueued` counts how often an event is linked. The operations without an answer are `fetching`,
`accesses` and `flushes`; `halves` are second halves of misaligned accesses that are still to be made. -/
structure Core where
  fetchEnable : Bool
  isActive : Bool
  stalled : BitVec 8
  wfi : Bool
  misalignedAccess : Bool
  halted : Bool
  stepMode : Bool
  doStep : Bool
  current : Event
  enqueued : Event → Nat
  misalignedEvent : Nat
  irqSyncEvent : Bool
  irqReq : Int
  irqReqValue : Int
  debugMode : Bool
  reqDebug : Bool
  reqIrq : Int
  irqEnable : Bool
  savedIrqEnable : Bool
  debugSavedIrqEnable : Bool
  doFetch : Bool
  elwInsn : Bool
  elwStalled : Bool
  elwInterrupted : Bool
  stallCallback : Resume
  pcmrActive : Bool
  fetching : Nat
  accesses : Nat
  flushes : Nat
  halves : Nat
  phase : Phase

def Core.start : Core :=
  { fetchEnable := false, isActive := false, stalled := 0, wfi := false, misalignedAccess := false, halted := false
    stepMode := false, doStep := false, current := .first, enqueued := fun _ => 0, misalignedEvent := 0
    irqSyncEvent := false, irqReq := -1, irqReqValue := -1, debugMode := false, reqDebug := false, reqIrq := -1
    irqEnable := false, savedIrqEnable := false, debugSavedIrqEnable := false, doFetch := false, elwInsn := false
    elwStalled := false, elwInterrupted := false, stallCallback := .load, pcmrActive := false, fetching := 0, accesses := 0
    flushes := 0, halves := 0, phase := .idle }

namespace Core

variable (s : Core)

def eventEnqueue (e : Event) : Core := { s with enqueued := Function.update s.enqueued e (s.enqueued e + 1) }

def eventCancel (e : Event) : Core := { s with enqueued := Function.update s.enqueued e (s.enqueued e - 1) }

def enqueueNextInstr : Core := if s.isActive then s.eventEnqueue s.current else s

/- `prefetcher_fetch`. It asks for up to two lines, and stops at the first that is not there at once. -/
def prefetcherFetch (waits : Bool) : Core :=
  if waits then { s with stalled := s.stalled + 1, fetching := s.fetching + 1 } else s

def prefetcherRefetch : Core :=
  let s := { s with doFetch := true, isActive := false }
  if 0 < s.enqueued s.current then s.eventCancel s.current else s

def runnable : Bool := !s.halted && s.fetchEnable && s.stalled == 0 && (!s.wfi || s.irqReq != -1 || s.debugMode)

def stops : Bool := s.halted && !s.doStep || s.wfi && s.irqReq == -1

def wakeUp : Core :=
  enqueueNextInstr { s with wfi := false, isActive := true, doStep := s.doStep || s.stepMode && !s.debugMode }

def checkState (waits : Bool) : Core :=
  let event := s.current
  let s := { s with current := .checkAll }
  if !s.isActive then
    if s.runnable then
      if s.doFetch then
        let s := s.prefetcherFetch waits
        if s.stalled ≠ 0 then s else s.wakeUp
      else s.wakeUp
    else s
  else if s.stops then
    let s := { s with isActive := false }
    if 0 < s.enqueued event then s.eventCancel event else s
  else { s with wfi := false }

def irqCheck : Core := { s with current := .checkAll }

def debugPending : Core := { s.irqCheck with reqDebug := true, wfi := false }

def setHaltMode (c : Config) (halted waits : Bool) : Core :=
  if c.riscvDbgUnit then
    if s.debugMode then s else s.debugPending.checkState waits
  else { s with halted := halted }

def issIrqCheck (waits : Bool) : Core × Bool :=
  if s.reqDebug && !s.debugMode then
    ({ s with debugMode := true, debugSavedIrqEnable := s.irqEnable, irqEnable := false, reqDebug := false }, false)
  else if s.reqIrq ≠ -1 ∧ s.irqEnable = true then
    let s := { s with elwInterrupted := s.elwInterrupted || s.elwInsn, elwInsn := false, savedIrqEnable := s.irqEnable
                      irqEnable := false, reqIrq := -1 }
    let s := s.prefetcherFetch waits
    (s, s.stalled != 0)
  else ({ s with elwInsn := false }, false)

def execEnd : Core :=
  let s := { s with phase := .idle }
  if s.stalled = 0 then s.enqueueNextInstr
  else if s.misalignedAccess then { s with misalignedEvent := s.misalignedEvent + 1 }
  else { s with isActive := false }

def stepDone (c : Config) (waits : Bool) : Core :=
  let s := { s with doStep := false }
  if c.gdbserver then { s with halted := true } else s.setHaltMode c true waits

def stepEnd (c : Config) (debugMode waits again : Bool) : Core :=
  if s.stepMode && !debugMode then (s.stepDone c waits).checkState again else s

/- Back to the fast event, unless `iss_exec_switch_to_fast` is against it. -/
def switchToFast (c : Config) : Core :=
  { s with current := if !c.traceActive && !s.pcmrActive then .instr else s.current }

def beginInstr (c : Config) (e : Event) (waits : Bool) : Core × Bool :=
  if e = .checkAll then ((s.eventCancel e).switchToFast c).issIrqCheck waits else (s.eventCancel e, false)

/- A request to the data port, with whether the caller has to wait. A request that is pending or
denied will get a response. -/
def dataReqAligned (answer : IoStatus) : Core × Bool :=
  match answer with
  | .ok => (s, false)
  | .invalid => (s, true)
  | .denied | .pending => ({ s with accesses := s.accesses + 1 }, true)

/- The first half is made now; the second half comes later if that one is done. -/
def dataMisalignedReq (answer : IoStatus) : Core × Bool :=
  let (s, waits) := { s with misalignedAccess := true }.dataReqAligned answer
  if waits then (s, false) else ({ s with halves := s.halves + 1 }, true)

def issExecInsnStall : Core := { s with stalled := s.stalled + 1 }

/- `iss_lsu_load` and its siblings. -/
def lsu (resume : Resume) (misaligned : Bool) (answer : IoStatus) : Core :=
  let (s, waits) := if misaligned then s.dataMisalignedReq answer else s.dataReqAligned answer
  if waits then { s with stallCallback := resume }.issExecInsnStall else s

def pElw (misaligned : Bool) (answer : IoStatus) : Core :=
  let s := { s with elwInsn := true, elwInterrupted := false }.lsu .elw misaligned answer
  if s.stalled = 0 then { s with elwInsn := false } else { s with elwStalled := true }

def issFenceI (c : Config) : Core :=
  if c.flushBound then { s.issExecInsnStall with flushes := s.flushes + 1 } else s

def execMisaligned (answer : IoStatus) : Core :=
  let s := { s with stalled := s.stalled - 1, halves := s.halves - 1, misalignedEvent := s.misalignedEvent - 1 }
  let (s, waits) := s.dataReqAligned answer
  if waits then s else { s with misalignedAccess := false }.enqueueNextInstr

def dataResponse : Core :=
  let s := { s with stalled := s.stalled - 1, accesses := s.accesses - 1 }
  if s.misalignedAccess then { s with misalignedAccess := false }
  else { s with elwInsn := if s.stallCallback = .elw then false else s.elwInsn }

def fetchResponse (waits : Bool) : Core :=
  { s with stalled := s.stalled - 1, fetching := s.fetching - 1 }.prefetcherFetch waits

def flushCacheAck : Core := { s with flushes := s.flushes - 1 }

def fetchenSync (active : Bool) : Core :=
  let set := { s with fetchEnable := active }
  if !s.fetchEnable && active then set.prefetcherRefetch else set

/- `iss_irq_req` wakes a core up that waits in an elw. -/
def irqReqSyncHandler : Core :=
  let s := { s.irqCheck with irqSyncEvent := false, irqReq := s.irqReqValue, reqIrq := s.irqReqValue }
  let s := if s.elwInsn && s.elwStalled then { s with elwStalled := false, stalled := s.stalled - 1 } else s
  { s with wfi := false }

end Core

/- What the instruction under way does. A write to a CSR may set one of the fields here. -/
inductive Work where
  | plain
  | access (resume : Resume) (misaligned : Bool) (answer : IoStatus)
  | elw (misaligned : Bool) (answer : IoStatus)
  | fence
  | wfi (waits : Bool)
  | halt (waits again : Bool)
  | mret
  | dret

inductive Field where
  | irqEnable (value : Bool)
  | pcmrActive (value : Bool)
  | stepMode (value : Bool)
  | other

inductive Action where
  | event (e : Event) (waits : Bool)
  | work (w : Work)
  | finish (waits step again : Bool)
  | csrWrite (f : Field)
  | misaligned (answer : IoStatus)
  | irqEvent (waits : Bool)
  | irqReqSync (irq : Int)
  | dataResponse (waits : Bool)
  | fetchResponse (more waits : Bool)
  | flushAck (waits : Bool)
  | release (waits : Bool)
  | fetchen (active waits : Bool)
  | haltSync (halted waits again : Bool)
  | debugReq (waits : Bool)
  | writeNpc (waits : Bool)
  | writeCtrl (halted step waits again : Bool)
  | gdbRegSet
  | gdbStop (waits : Bool)
  | gdbCont (waits : Bool)
  | gdbStepi (waits : Bool)

namespace Core

def csrWrite (s : Core) : Field → Core
  | .irqEnable value => { s.irqCheck with irqEnable := value }
  | .pcmrActive value => { s.irqCheck with pcmrActive := value }
  | .stepMode value => { s.irqCheck with stepMode := value }
  | .other => s.irqCheck

def haltAndCheck (s : Core) (c : Config) (halted waits again : Bool) : Core := (s.setHaltMode c halted waits).checkState again

def work (s : Core) (c : Config) : Work → Core
  | .plain => s
  | .access resume misaligned answer => s.lsu resume misaligned answer
  | .elw misaligned answer => s.pElw misaligned answer
  | .fence => s.issFenceI c
  | .wfi waits => { s with wfi := true }.checkState waits
  | .halt waits again => s.haltAndCheck c true waits again
  | .mret => { s.irqCheck with irqEnable := s.savedIrqEnable }
  | .dret => { s.irqCheck with irqEnable := s.debugSavedIrqEnable, debugMode := false }

def released (s : Core) (c : Config) : Core :=
  let s := s.prefetcherRefetch
  { s with halted := s.halted || c.gdbserver }

end Core

/- An instruction does one thing. Its event is handled to the end before the next one; everything else may
also come from inside the instruction. -/
def step (c : Config) (s : Core) : Action → Option Core
  | .event e waits =>
      if s.phase = .idle ∧ e ≠ .first ∧ 0 < s.enqueued e then
        let (next, leftOut) := s.beginInstr c e waits
        if leftOut then some (next.execEnd.stepEnd c s.debugMode false false)
        else some { next with phase := .executing e s.debugMode false }
      else none
  | .work w => match s.phase with
      | .executing e debugMode false => some ({ s with phase := .executing e debugMode true }.work c w)
      | _ => none
  | .finish waits step again => match s.phase with
      | .idle => none
      | .executing e debugMode _ =>
          let next := (s.prefetcherFetch waits).execEnd
          some (if e = .checkAll then next.stepEnd c debugMode step again else next)
  | .csrWrite f => some (s.csrWrite f)
  | .misaligned answer => if s.phase = .idle ∧ 0 < s.misalignedEvent then some (s.execMisaligned answer) else none
  | .irqEvent waits => if s.phase = .idle ∧ s.irqSyncEvent = true then some (s.irqReqSyncHandler.checkState waits) else none
  | .irqReqSync irq => some { s with irqReqValue := irq, irqSyncEvent := true }
  | .dataResponse waits => if 0 < s.accesses then some (s.dataResponse.checkState waits) else none
  | .fetchResponse more waits => if 0 < s.fetching then some ((s.fetchResponse more).checkState waits) else none
  | .flushAck waits => if 0 < s.flushes then some (s.flushCacheAck.checkState waits) else none
  | .release waits => some ((s.released c).checkState waits)
  | .fetchen active waits => some ((s.fetchenSync active).checkState waits)
  | .haltSync halted waits again => some (s.haltAndCheck c halted waits again)
  | .debugReq waits => some (s.debugPending.checkState waits)
  | .writeNpc waits => if s.halted then some ({ s.prefetcherRefetch with wfi := false }.checkState waits) else none
  | .writeCtrl halted step waits again => some ({ s.setHaltMode c halted waits with stepMode := step }.checkState again)
  | .gdbRegSet => if c.gdbserver then some s.prefetcherRefetch else none
  | .gdbStop waits => if c.gdbserver then some ({ s with halted := true }.checkState waits) else none
  | .gdbCont waits => if c.gdbserver then some ({ s with halted := false }.checkState waits) else none
  | .gdbStepi waits => if c.gdbserver then some ({ s with stepMode := true, halted := false }.checkState waits) else none

end Gvsoc.Wrapper
