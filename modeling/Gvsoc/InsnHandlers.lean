import Gvsoc.InsnBlocks
import Gvsoc.Machine

/-! What an instruction of the cache does when it is executed. Its handlers are wrapped for the end of a hardware loop, for a
shared resource, for a stall and for the trace; each wrapper keeps the handler inside in a field of its own. -/
namespace Gvsoc.InsnHandlers
open InsnBlocks (Addr Opcode Handler Insn Item)
open Machine (Run anyStep runInvariant reach reachRun)

inductive Event where
  | base (handler : Handler)
  | check
  | offload
  | stall
  deriving DecidableEq

/- `iss_exec_insn_handler`: what is done, in this order. The fuel bounds the depth of the wrappers. An instruction that is
replayed after an interrupted `p.elw` leaves the check out. -/
def execHandler (insn : Insn) (elwInterrupted : Bool) : Nat → Handler → Option (List Event)
  | 0, _ => none
  | fuel + 1, handler => match handler with
      | .exec id => some [.base (.exec id)]
      | .issExecInsnIllegal => some [.base .issExecInsnIllegal]
      | .issExecInsnWithTrace => execHandler insn elwInterrupted fuel insn.savedHandler
      | .issResourceOffload => (execHandler insn elwInterrupted fuel insn.resourceHandler).map fun done => .offload :: done
      | .issExecStalledInsn => (execHandler insn elwInterrupted fuel insn.stallHandler).map fun done => .stall :: done
      | .issExecStalledInsnFast => (execHandler insn elwInterrupted fuel insn.stallFastHandler).map fun done => .stall :: done
      | .hwloopCheckExec => match insn.hwloopHandler with
          | none => none
          | some handler => (execHandler insn elwInterrupted fuel handler).map fun done =>
              if elwInterrupted then done else done ++ [.check]
      -- An instruction is decoded before it is executed.
      | .issDecodePc => none

structure Entry where
  id : Nat
  fastId : Nat
  resourceId : Int
  other : Item

def Entry.item (entry : Entry) : Item :=
  { entry.other with handler := .exec entry.id, fastHandler := .exec entry.fastId, resource := entry.resourceId ≠ -1 }

def decodePcNoexec (pipelineStages : Int) (insn : Insn) (found : Option Entry) (traced : Bool) : Insn :=
  match found with
  | none => { insn with handler := .issExecInsnIllegal, fastHandler := .issExecInsnIllegal }
  | some entry =>
      let insn := ((insn.setHandlers entry.item).addLatency pipelineStages (entry.item.inRegs insn.opcode)).setStall
      if traced then insn.setTrace else insn

/- An instruction, and whether its fetch is pending. `found` is the outcome of its last decoding; it was marked as the end
of a loop since it was initialised, before this decoding (`early`) or after it (`late`). -/
structure State where
  insn : Insn
  resourceId : Int
  pending : Bool
  found : Option Entry
  early : Bool
  late : Bool

def start (insn : Insn) (addr : Addr) (resourceId : Int) : State := ⟨insn.init addr, resourceId, false, none, false, false⟩

def State.marked (s : State) : Bool := s.early || s.late

/- A flush decodes the current instruction again with its opcode. The instruction before may tell the latency of its result
at any time. -/
inductive Action where
  | init (addr : Addr)
  | flush (addr : Addr) (found : Option Entry) (traced : Bool)
  | fetch
  | decode (opcode : Opcode) (found : Option Entry) (traced : Bool)
  | setInsnEnd
  | setInputLatency (reg latency : Int)

def State.init (s : State) (addr : Addr) : State := { s with insn := s.insn.init addr, early := false, late := false }

def State.decode (pipelineStages : Int) (s : State) (found : Option Entry) (traced : Bool) : State :=
  { s with
    insn := decodePcNoexec pipelineStages s.insn found traced
    resourceId := match found with
      | none => s.resourceId
      | some entry => entry.resourceId
    found := found, early := s.marked, late := false }

def step (pipelineStages : Int) (s : State) : Action → Option State
  | .init addr => some (s.init addr)
  | .flush addr found traced =>
      let s := s.init addr
      some ({ s with insn := { s.insn with fetched := true } }.decode pipelineStages found traced)
  | .fetch => if s.insn.fetched then none else some { s with insn := { s.insn with fetched := true }, pending := true }
  | .decode opcode found traced =>
      if s.pending then
        some ({ s with insn := { s.insn with opcode := opcode }, pending := false }.decode pipelineStages found traced)
      else none
  | .setInsnEnd => if s.pending then none else some { s with insn := s.insn.setCheck, late := true }
  | .setInputLatency reg latency => some { s with insn := { s.insn with inputLatencyReg := reg, inputLatency := latency } }

def performed (stall offload : Bool) (base : Handler) (check : Bool) : List Event :=
  (if stall then [.stall] else []) ++ (if offload then [.offload] else []) ++ .base base :: if check then [.check] else []

section Chains

variable {insn insn' : Insn} {elwInterrupted : Bool} {handler : Handler} {done : List Event}

theorem execMore {fuel : Nat} (more : Nat) (executed : execHandler insn elwInterrupted fuel handler = some done) :
    execHandler insn elwInterrupted (fuel + more) handler = some done := by
  induction fuel generalizing handler done with
  | zero => contradiction
  | succ fuel ih =>
      rw [Nat.succ_add]
      unfold execHandler at executed ⊢
      cases handler with
      | exec | issExecInsnIllegal | issDecodePc => exact executed
      | issExecInsnWithTrace => exact ih executed
      | issResourceOffload | issExecStalledInsn | issExecStalledInsnFast =>
          obtain ⟨inner, inside, rfl⟩ := Option.map_eq_some_iff.mp executed
          exact Option.map_eq_some_iff.mpr ⟨inner, ih inside, rfl⟩
      | hwloopCheckExec =>
          dsimp only at executed ⊢
          split at executed
          · contradiction
          · obtain ⟨inner, inside, rfl⟩ := Option.map_eq_some_iff.mp executed
            exact Option.map_eq_some_iff.mpr ⟨inner, ih inside, rfl⟩

structure Alike (insn insn' : Insn) : Prop where
  saved : insn'.savedHandler = insn.savedHandler
  resource : insn'.resourceHandler = insn.resourceHandler
  stall : insn'.stallHandler = insn.stallHandler
  stallFast : insn'.stallFastHandler = insn.stallFastHandler

theorem execAlike {fuel : Nat} (alike : Alike insn insn') (unchecked : insn.hwloopHandler = none ∨ insn'.hwloopHandler = insn.hwloopHandler)
    (executed : execHandler insn elwInterrupted fuel handler = some done) :
    execHandler insn' elwInterrupted fuel handler = some done := by
  obtain ⟨saved, resource, stall, stallFast⟩ := alike
  induction fuel generalizing handler done with
  | zero => contradiction
  | succ fuel ih =>
      unfold execHandler at executed ⊢
      cases handler with
      | exec | issExecInsnIllegal | issDecodePc => exact executed
      | issExecInsnWithTrace =>
          dsimp only
          rw [saved]
          exact ih executed
      | issResourceOffload | issExecStalledInsn | issExecStalledInsnFast =>
          obtain ⟨inner, inside, rfl⟩ := Option.map_eq_some_iff.mp executed
          simp only [resource, stall, stallFast]
          exact Option.map_eq_some_iff.mpr ⟨inner, ih inside, rfl⟩
      | hwloopCheckExec =>
          rcases unchecked with none | same
          · rw [none] at executed
            contradiction
          · rw [same]
            dsimp only at executed ⊢
            split at executed
            · contradiction
            · obtain ⟨inner, inside, rfl⟩ := Option.map_eq_some_iff.mp executed
              exact Option.map_eq_some_iff.mpr ⟨inner, ih inside, rfl⟩

end Chains

section Decoding

variable {pipelineStages : Int} {insn : Insn} {entry : Entry} {early traced elwInterrupted : Bool}

def awaited (marked : Bool) : Option Handler := if marked then some .hwloopCheckExec else none

def depth (checked : Bool) : Nat := if checked then 5 else 4

def Performs (insn : Insn) (entry : Entry) (checked : Bool) : Prop :=
  (∀ elwInterrupted, execHandler insn elwInterrupted (depth checked) insn.handler =
    some (performed (insn.latency ≠ 0) (entry.resourceId ≠ -1) (.exec entry.id) (checked && !elwInterrupted))) ∧
  ∃ id, (id = entry.id ∨ id = entry.fastId) ∧ ∀ elwInterrupted, execHandler insn elwInterrupted (depth checked) insn.fastHandler =
    some (performed (insn.latency ≠ 0) (entry.resourceId ≠ -1) (.exec id) (checked && !elwInterrupted))

structure Wrapped (insn : Insn) (entry : Entry) (early : Bool) : Prop where
  hwloopHandler : insn.hwloopHandler = if early then some (.exec entry.id) else none
  resourceHandler : entry.resourceId ≠ -1 → insn.resourceHandler = if early then .hwloopCheckExec else .exec entry.id
  handler : insn.handler = if entry.resourceId ≠ -1 then .issResourceOffload else if early then .hwloopCheckExec else .exec entry.id
  fastHandler : insn.fastHandler =
    if entry.resourceId ≠ -1 then .issResourceOffload else if early then .hwloopCheckExec else .exec entry.fastId

theorem setHandlersWrapped (entry : Entry) (before : insn.hwloopHandler = awaited early) : Wrapped (insn.setHandlers entry.item) entry early := by
  unfold Insn.setHandlers
  rw [before]
  cases early <;> by_cases shared : entry.resourceId = -1 <;> constructor <;> simp [awaited, Entry.item, shared]

theorem addLatencyWrapped (pipelineStages : Int) (inRegs : List Int) (wrapped : Wrapped insn entry early) :
    Wrapped (insn.addLatency pipelineStages inRegs) entry early := by
  unfold Insn.addLatency
  split_ifs <;> exact ⟨wrapped.hwloopHandler, wrapped.resourceHandler, wrapped.handler, wrapped.fastHandler⟩

theorem wrappedExec {insn' : Insn} (wrapped : Wrapped insn entry early) (hwloopHandler : insn'.hwloopHandler = insn.hwloopHandler)
    (resourceHandler : insn'.resourceHandler = insn.resourceHandler) :
    (∀ elwInterrupted, execHandler insn' elwInterrupted (if early then 3 else 2) insn.handler =
      some (performed false (entry.resourceId ≠ -1) (.exec entry.id) (early && !elwInterrupted))) ∧
    ∃ id, (id = entry.id ∨ id = entry.fastId) ∧ ∀ elwInterrupted,
      execHandler insn' elwInterrupted (if early then 3 else 2) insn.fastHandler =
        some (performed false (entry.resourceId ≠ -1) (.exec id) (early && !elwInterrupted)) := by
  obtain ⟨inside, resource, handler, fastHandler⟩ := wrapped
  rw [handler, fastHandler]
  rw [inside] at hwloopHandler
  by_cases shared : entry.resourceId = -1
  · cases early with
    | true =>
        refine ⟨fun elwInterrupted => ?_, entry.id, .inl rfl, fun elwInterrupted => ?_⟩ <;>
          cases elwInterrupted <;> simp [shared, execHandler, hwloopHandler, performed]
    | false =>
        refine ⟨fun elwInterrupted => ?_, entry.fastId, .inr rfl, fun elwInterrupted => ?_⟩ <;>
          simp [shared, execHandler, performed]
  · rw [resource shared] at resourceHandler
    refine ⟨fun elwInterrupted => ?_, entry.id, .inl rfl, fun elwInterrupted => ?_⟩ <;>
      cases early <;> cases elwInterrupted <;> simp [shared, execHandler, hwloopHandler, resourceHandler, performed]

theorem setStallPerforms (wrapped : Wrapped insn entry early) (insn' : Insn) (hwloopHandler : insn'.hwloopHandler = insn.hwloopHandler)
    (resourceHandler : insn'.resourceHandler = insn.resourceHandler) (stallHandler : insn'.stallHandler = insn.setStall.stallHandler)
    (stallFastHandler : insn'.stallFastHandler = insn.setStall.stallFastHandler) :
    (∀ elwInterrupted, execHandler insn' elwInterrupted (if early then 4 else 3) insn.setStall.handler =
      some (performed (insn.latency ≠ 0) (entry.resourceId ≠ -1) (.exec entry.id) (early && !elwInterrupted))) ∧
    ∃ id, (id = entry.id ∨ id = entry.fastId) ∧ ∀ elwInterrupted,
      execHandler insn' elwInterrupted (if early then 4 else 3) insn.setStall.fastHandler =
        some (performed (insn.latency ≠ 0) (entry.resourceId ≠ -1) (.exec id) (early && !elwInterrupted)) := by
  obtain ⟨slow, id, which, fast⟩ := wrappedExec wrapped hwloopHandler resourceHandler
  have more : (if early then 4 else 3) = (if early then 3 else 2) + 1 := by cases early <;> rfl
  rw [more]
  unfold Insn.setStall at *
  by_cases latency : insn.latency = 0
  · simp only [latency, ne_eq, not_true_eq_false, if_false, decide_false]
    exact ⟨fun elwInterrupted => execMore 1 (slow elwInterrupted), id, which, fun elwInterrupted => execMore 1 (fast elwInterrupted)⟩
  · simp only [latency, ne_eq, not_false_eq_true, if_true, decide_true] at *
    refine ⟨fun elwInterrupted => ?_, id, which, fun elwInterrupted => ?_⟩
    · rw [execHandler, stallHandler, slow]
      rfl
    · rw [execHandler, stallFastHandler, fast]
      rfl

theorem decodePerforms (before : insn.hwloopHandler = awaited early) :
    (decodePcNoexec pipelineStages insn (some entry) traced).hwloopHandler.isSome = early ∧
      Performs (decodePcNoexec pipelineStages insn (some entry) traced) entry early := by
  have wrapped := addLatencyWrapped pipelineStages (entry.item.inRegs insn.opcode) (setHandlersWrapped entry before)
  unfold decodePcNoexec
  dsimp only
  generalize (insn.setHandlers entry.item).addLatency pipelineStages (entry.item.inRegs insn.opcode) = insn at wrapped ⊢
  have kept : insn.setStall.hwloopHandler = insn.hwloopHandler ∧ insn.setStall.resourceHandler = insn.resourceHandler ∧
      insn.setStall.latency = insn.latency := by
    unfold Insn.setStall
    split_ifs <;> exact ⟨rfl, rfl, rfl⟩
  obtain ⟨hwloopHandler, resourceHandler, latency⟩ := kept
  have checked : insn.hwloopHandler.isSome = early := by
    rw [wrapped.hwloopHandler]
    cases early <;> rfl
  have more : depth early = (if early then 4 else 3) + 1 := by cases early <;> rfl
  unfold Performs
  cases traced with
  | true =>
      obtain ⟨slow, -⟩ := setStallPerforms wrapped insn.setStall.setTrace hwloopHandler resourceHandler rfl rfl
      have through : ∀ elwInterrupted, execHandler insn.setStall.setTrace elwInterrupted (depth early) .issExecInsnWithTrace =
          some (performed (insn.setStall.setTrace.latency ≠ 0) (entry.resourceId ≠ -1) (.exec entry.id) (early && !elwInterrupted)) := by
        intro elwInterrupted
        rw [more, show insn.setStall.setTrace.latency = insn.latency from latency]
        exact slow elwInterrupted
      exact ⟨hwloopHandler ▸ checked, through, entry.id, .inl rfl, through⟩
  | false =>
      have performs := setStallPerforms wrapped insn.setStall hwloopHandler resourceHandler rfl rfl
      obtain ⟨slow, id, which, fast⟩ := performs
      rw [more]
      simp only [Bool.false_eq_true, if_false, latency]
      exact ⟨hwloopHandler ▸ checked, fun elwInterrupted => execMore 1 (slow elwInterrupted), id, which,
        fun elwInterrupted => execMore 1 (fast elwInterrupted)⟩

end Decoding

section Steps

variable {pipelineStages : Int} {s s' : State}

structure Illegal (s : State) : Prop where
  hwloopHandler : s.insn.hwloopHandler =
    if s.early then some .hwloopCheckExec else if s.late then some .issExecInsnIllegal else none
  handler : s.insn.handler = if s.late && !s.early then .hwloopCheckExec else .issExecInsnIllegal
  fastHandler : s.insn.fastHandler = if s.late && !s.early then .hwloopCheckExec else .issExecInsnIllegal

def Decoded (s : State) : Prop :=
  match s.found with
  | some entry => s.resourceId = entry.resourceId ∧ s.insn.hwloopHandler.isSome = s.marked ∧ Performs s.insn entry s.marked
  | none => Illegal s

structure Awaiting (s : State) : Prop where
  hwloopHandler : s.insn.hwloopHandler = awaited s.marked
  unmarked : s.pending = true → s.insn.fetched = false → s.marked = false

def Invariant (s : State) : Prop := if s.insn.fetched && !s.pending then Decoded s else Awaiting s

theorem decodeDecoded (pipelineStages : Int) (found : Option Entry) (traced : Bool) (before : s.insn.hwloopHandler = awaited s.marked) :
    Decoded (s.decode pipelineStages found traced) := by
  have marked : (s.decode pipelineStages found traced).marked = s.marked := by simp [State.decode, State.marked]
  unfold Decoded
  rw [marked]
  cases found with
  | some entry => exact ⟨rfl, decodePerforms before⟩
  | none =>
      refine ⟨?_, rfl, rfl⟩
      change s.insn.hwloopHandler = if s.marked then _ else none
      rw [before]
      rfl

theorem setHandlersFetched (insn : Insn) (item : Item) : (insn.setHandlers item).fetched = insn.fetched := by
  unfold Insn.setHandlers
  cases insn.hwloopHandler <;> cases item.resource <;> rfl

theorem addLatencyFetched (insn : Insn) (pipelineStages : Int) (inRegs : List Int) :
    (insn.addLatency pipelineStages inRegs).fetched = insn.fetched := by
  unfold Insn.addLatency
  split_ifs <;> rfl

theorem setStallFetched (insn : Insn) : insn.setStall.fetched = insn.fetched := by
  unfold Insn.setStall
  split <;> rfl

theorem decodeFetched (found : Option Entry) (traced : Bool) :
    (s.decode pipelineStages found traced).insn.fetched = s.insn.fetched := by
  cases found with
  | none => rfl
  | some entry =>
      have kept := setStallFetched ((s.insn.setHandlers entry.item).addLatency pipelineStages (entry.item.inRegs s.insn.opcode))
      rw [addLatencyFetched, setHandlersFetched] at kept
      cases traced with
      | true => exact kept
      | false => exact kept

theorem setCheckFetched (insn : Insn) : insn.setCheck.fetched = insn.fetched := by
  unfold Insn.setCheck
  cases insn.hwloopHandler <;> split <;> rfl

theorem setCheckUnmarked {insn : Insn} (fetched : insn.fetched = true) (unmarked : insn.hwloopHandler = none) :
    insn.setCheck = { insn with hwloopHandler := some insn.handler, handler := .hwloopCheckExec, fastHandler := .hwloopCheckExec } := by
  unfold Insn.setCheck
  rw [if_pos fetched, unmarked]

theorem setCheckMarked {insn : Insn} (fetched : insn.fetched = true) (marked : insn.hwloopHandler.isSome = true) :
    insn.setCheck = insn := by
  obtain ⟨handler, found⟩ := Option.isSome_iff_exists.mp marked
  unfold Insn.setCheck
  rw [if_pos fetched, found]

theorem performedCheck (stall offload : Bool) (base : Handler) :
    performed stall offload base true = performed stall offload base false ++ [.check] := by
  simp [performed]

theorem checkPerforms {insn : Insn} {entry : Entry} (unmarked : insn.hwloopHandler = none) (performs : Performs insn entry false) :
    Performs { insn with hwloopHandler := some insn.handler, handler := .hwloopCheckExec, fastHandler := .hwloopCheckExec } entry
      true := by
  have through : ∀ elwInterrupted, execHandler { insn with
      hwloopHandler := some insn.handler, handler := .hwloopCheckExec, fastHandler := .hwloopCheckExec } elwInterrupted 5 .hwloopCheckExec =
      some (performed (insn.latency ≠ 0) (entry.resourceId ≠ -1) (.exec entry.id) (true && !elwInterrupted)) := by
    intro elwInterrupted
    have alike : Alike insn { insn with
        hwloopHandler := some insn.handler, handler := .hwloopCheckExec, fastHandler := .hwloopCheckExec } := ⟨rfl, rfl, rfl, rfl⟩
    have inside := execAlike alike (.inl unmarked) (performs.1 elwInterrupted)
    rw [execHandler]
    dsimp only
    rw [show depth false = 4 from rfl] at inside
    rw [inside]
    cases elwInterrupted with
    | true => rfl
    | false => exact congrArg some (performedCheck _ _ _).symm
  exact ⟨through, entry.id, .inl rfl, through⟩

theorem setInsnEndDecoded (fetched : s.insn.fetched = true) (decoded : Decoded s) :
    Decoded { s with insn := s.insn.setCheck, late := true } := by
  have now : ({ s with insn := s.insn.setCheck, late := true } : State).marked = true := by simp [State.marked]
  unfold Decoded at decoded ⊢
  rw [now]
  dsimp only
  cases found : s.found with
  | some entry =>
      rw [found] at decoded
      obtain ⟨resource, some, performs⟩ := decoded
      refine ⟨resource, ?_⟩
      cases marked : s.marked with
      | true =>
          rw [marked] at some performs
          rw [setCheckMarked fetched some]
          exact ⟨some, performs⟩
      | false =>
          rw [marked] at some performs
          have unmarked := Option.isSome_eq_false_iff.mp some
          rw [Option.isNone_iff_eq_none] at unmarked
          rw [setCheckUnmarked fetched unmarked]
          exact ⟨rfl, checkPerforms unmarked performs⟩
  | none =>
      rw [found] at decoded
      obtain ⟨inside, handler, fastHandler⟩ := decoded
      cases early : s.early with
      | true =>
          rw [early, if_pos rfl] at inside
          rw [setCheckMarked fetched (by rw [inside]; rfl)]
          exact ⟨by simpa [early] using inside, by simpa [early] using handler, by simpa [early] using fastHandler⟩
      | false =>
          cases late : s.late with
          | true =>
              rw [early, late] at inside
              rw [setCheckMarked fetched (by rw [inside]; rfl)]
              exact ⟨by simpa [early] using inside, by simpa [early, late] using handler, by simpa [early, late] using fastHandler⟩
          | false =>
              rw [early, late] at inside handler
              rw [setCheckUnmarked fetched inside]
              exact ⟨by simpa [early] using handler, by simp, by simp⟩

theorem decodedUnmarked (decoded : Decoded s) (unmarked : s.marked = false) : s.insn.hwloopHandler = none := by
  unfold Decoded at decoded
  cases found : s.found with
  | some entry =>
      rw [found] at decoded
      simpa [unmarked] using decoded.2.1
  | none =>
      rw [found] at decoded
      obtain ⟨early, late⟩ := Bool.or_eq_false_iff.mp unmarked
      simpa [early, late] using decoded.hwloopHandler

theorem decodeAwaiting (found : Option Entry) (traced : Bool) (before : s.insn.hwloopHandler = none) (unmarked : s.marked = false) :
    Awaiting (s.decode pipelineStages found traced) := by
  have marked : (s.decode pipelineStages found traced).marked = false := by simpa [State.decode, State.marked] using unmarked
  have decoded := decodeDecoded pipelineStages found traced (by rw [before, unmarked]; rfl)
  exact ⟨by rw [decodedUnmarked decoded marked, marked]; rfl, fun _ _ => marked⟩

theorem inputLatencyDecoded (decoded : Decoded s) (reg latency : Int) :
    Decoded { s with insn := { s.insn with inputLatencyReg := reg, inputLatency := latency } } := by
  unfold Decoded at decoded ⊢
  dsimp only
  cases found : s.found with
  | some entry =>
      rw [found] at decoded
      obtain ⟨resource, some, slow, id, which, fast⟩ := decoded
      have alike : Alike s.insn { s.insn with inputLatencyReg := reg, inputLatency := latency } := ⟨rfl, rfl, rfl, rfl⟩
      exact ⟨resource, some, fun elwInterrupted => execAlike alike (.inr rfl) (slow elwInterrupted), id, which,
        fun elwInterrupted => execAlike alike (.inr rfl) (fast elwInterrupted)⟩
  | none =>
      rw [found] at decoded
      exact ⟨decoded.hwloopHandler, decoded.handler, decoded.fastHandler⟩

theorem stepInvariant {a : Action} (invariant : Invariant s) (taken : step pipelineStages s a = some s') : Invariant s' := by
  unfold Invariant at invariant ⊢
  cases a with
  | init addr =>
      cases taken
      exact ⟨rfl, fun _ _ => rfl⟩
  | flush addr found traced =>
      cases taken
      split
      · exact decodeDecoded _ found traced rfl
      · exact decodeAwaiting found traced rfl rfl
  | fetch =>
      obtain ⟨idle, same⟩ := Option.ite_none_left_eq_some.mp taken
      cases same
      rw [if_neg (by simp [idle])] at invariant
      exact ⟨invariant.hwloopHandler, nofun⟩
  | decode opcode found traced =>
      obtain ⟨pending, same⟩ := Option.ite_none_right_eq_some.mp taken
      cases same
      rw [if_neg (by simp [pending])] at invariant
      rw [decodeFetched]
      cases fetched : s.insn.fetched with
      | true => exact decodeDecoded _ found traced invariant.hwloopHandler
      | false =>
          have unmarked := invariant.unmarked pending fetched
          refine decodeAwaiting found traced ?_ unmarked
          rw [invariant.hwloopHandler, unmarked]
          rfl
  | setInsnEnd =>
      obtain ⟨pending, same⟩ := Option.ite_none_left_eq_some.mp taken
      cases same
      cases fetched : s.insn.fetched with
      | true =>
          rw [if_pos (by simp [fetched, pending])] at invariant
          rw [if_pos (by simp [setCheckFetched, fetched, pending])]
          exact setInsnEndDecoded fetched invariant
      | false =>
          have checked : s.insn.setCheck = { s.insn with hwloopHandler := some .hwloopCheckExec } := by
            unfold Insn.setCheck
            rw [if_neg (by simp [fetched])]
          rw [checked, if_neg (by simp [fetched])]
          refine ⟨?_, fun now => absurd now pending⟩
          simp [State.marked, awaited]
  | setInputLatency reg latency =>
      cases taken
      by_cases ready : (s.insn.fetched && !s.pending) = true
      · rw [if_pos ready] at invariant ⊢
        exact inputLatencyDecoded invariant reg latency
      · rw [if_neg ready] at invariant ⊢
        exact ⟨invariant.hwloopHandler, invariant.unmarked⟩

end Steps

/- For every order of initialising, fetching, decoding and marking. An instruction of the instruction set accounts its stall,
is offloaded, executes its base and checks the end of a loop, each once if there is something to do. An illegal one executes
its own base only, and the check when it was only marked after it was decoded. -/
theorem handlersWrapped (pipelineStages : Int) (insn : Insn) (addr : Addr) (resourceId : Int) {trace last}
    (run : Run (step pipelineStages) anyStep (start insn addr resourceId) trace last) (fetched : last.insn.fetched = true)
    (executes : last.pending = false) (elwInterrupted : Bool) (fuel : Nat) :
    match last.found with
    | some entry =>
        execHandler last.insn elwInterrupted (5 + fuel) last.insn.handler =
          some (performed (last.insn.latency ≠ 0) (last.resourceId ≠ -1) (.exec entry.id) (last.marked && !elwInterrupted)) ∧
        ∃ id, (id = entry.id ∨ id = entry.fastId) ∧ execHandler last.insn elwInterrupted (5 + fuel) last.insn.fastHandler =
          some (performed (last.insn.latency ≠ 0) (last.resourceId ≠ -1) (.exec id) (last.marked && !elwInterrupted))
    | none => last.insn.fastHandler = last.insn.handler ∧ ∃ done,
        execHandler last.insn elwInterrupted (5 + fuel) last.insn.handler = some done ∧
          done.filter (· ≠ .check) = [.base .issExecInsnIllegal] ∧
          (last.early = false → done.count .check = if last.late && !elwInterrupted then 1 else 0) := by
  have invariant : Invariant last := runInvariant run (P := Invariant) ⟨rfl, fun _ _ => rfl⟩ (fun _ _ _ kept _ => stepInvariant kept)
  unfold Invariant at invariant
  rw [if_pos (by simp [fetched, executes])] at invariant
  unfold Decoded at invariant
  cases found : last.found with
  | some entry =>
      rw [found] at invariant
      obtain ⟨resource, -, slow, id, which, fast⟩ := invariant
      have enough : 5 + fuel = depth last.marked + ((5 - depth last.marked) + fuel) := by
        unfold depth
        split <;> omega
      rw [enough, resource]
      exact ⟨execMore _ (slow elwInterrupted), id, which, execMore _ (fast elwInterrupted)⟩
  | none =>
      rw [found] at invariant
      obtain ⟨inside, handler, fastHandler⟩ := invariant
      refine ⟨fastHandler.trans handler.symm, ?_⟩
      rw [handler]
      cases only : last.late && !last.early with
      | true =>
          obtain ⟨late, early⟩ := Bool.and_eq_true_iff.mp only
          rw [Bool.not_eq_true'] at early
          rw [early, late] at inside
          refine ⟨[.base .issExecInsnIllegal] ++ if elwInterrupted then [] else [.check], ?_, ?_, fun _ => ?_⟩
          · rw [if_pos rfl, Nat.add_comm]
            simp only [execHandler, inside]
            cases elwInterrupted <;> rfl
          · cases elwInterrupted <;> rfl
          · rw [late]
            cases elwInterrupted <;> rfl
      | false =>
          refine ⟨[.base .issExecInsnIllegal], ?_, rfl, fun early => ?_⟩
          · rw [if_neg (by simp), Nat.add_comm]
            rfl
          · rw [early, Bool.not_false, Bool.and_true] at only
            rw [only]
            rfl

def memory : Insn where
  addr := 0
  opcode := 0
  fetched := false
  fastHandler := .issDecodePc
  handler := .issDecodePc
  resourceHandler := .issDecodePc
  hwloopHandler := none
  stallHandler := .issDecodePc
  stallFastHandler := .issDecodePc
  savedHandler := .issDecodePc
  size := 0
  next := none
  branch := none
  latency := 0
  inputLatency := 0
  inputLatencyReg := 0

def load : Entry :=
  ⟨7, 8, 3, ⟨.exec 0, .exec 0, false, 4, 0, fun _ => [10], fun _ => [], fun _ => none, fun _ => none⟩⟩

def loadActions : List Action := [.setInsnEnd, .setInputLatency 10 2, .fetch, .decode 0x2503 (some load) true, .setInsnEnd]

/- All parts of a load that is marked twice and traced. -/
theorem handlersWrappedLoad :
    execHandler (reach (step 2) anyStep (start memory 0x1000 (-1)) loadActions).insn false 5
      (reach (step 2) anyStep (start memory 0x1000 (-1)) loadActions).insn.handler =
        some [.stall, .offload, .base (.exec 7), .check] := by
  obtain ⟨trace, run, -⟩ := reachRun (step 2) anyStep (start memory 0x1000 (-1)) loadActions (by rfl)
  exact (handlersWrapped 2 memory 0x1000 (-1) run (by rfl) (by rfl) false 0).1

/- An instruction that is marked, fetched, and turns out to be illegal: the check is lost, also when it is marked again. -/
theorem illegalUnchecked : ∃ trace last, Run (step 2) anyStep (start memory 0x1000 3) trace last ∧ last.insn.fetched = true ∧
    last.pending = false ∧ last.marked = true ∧ last.resourceId = 3 ∧
      ∀ fuel, execHandler last.insn false (fuel + 1) last.insn.handler = some [.base .issExecInsnIllegal] := by
  obtain ⟨trace, run, -⟩ := reachRun (step 2) anyStep (start memory 0x1000 3) [.setInsnEnd, .fetch, .decode 0 none false, .setInsnEnd]
    (by rfl)
  exact ⟨trace, _, run, rfl, rfl, rfl, rfl, fun _ => rfl⟩

end Gvsoc.InsnHandlers
