import Gvsoc.SpimMemorySlave
import Gvsoc.SpimSlaveStored
import Gvsoc.SpimLoad

/-! The transfers of the master are in the memory when the testbench asks for bytes of it, and those of the boot protocol never are.
The same for the whole model, in every run. -/
namespace Gvsoc.SpimMemory
open Bytes (Byte)
open Spim (Transfer SpimVerif SpiLoadConfig memSize)
open SpimSlave (Slave Call)
open Machine (Run anyStep runInvariant reach)

section Transfers

variable {m : Nat} {t : Transfer}

structure Fresh (m : Nat) (t : Transfer) : Prop where
  bits : t.slavePendingTxBits = 0 ∧ t.slavePendingRxBits = 0
  addr : t.slavePendingTxAddr = t.slavePendingRxAddr
  sends : t.slavePendingIsRx = false → t.slavePendingIsTx = true ∧ t.slavePendingTxAddr < m ∧ 0 ≤ t.slavePendingTxSize ∧
    t.slavePendingTxAddr + t.slavePendingTxSize ≤ m
  receives : t.slavePendingIsRx = true → 1 ≤ t.slavePendingRxSize ∧ t.slavePendingRxAddr + t.slavePendingRxSize ≤ m

/- What a transfer that has not begun moves does not depend on the clock. -/
theorem freshOther (fresh : Fresh m t) {data : Nat → Byte} {slaveSck isEnqueued : Bool} {slaveWaitCycles : Int}
    {slavePendingMiso : BitVec 32} {slaveState : Spim.SpisState} :
    Fresh m { t with
      data := data, slaveSck := slaveSck, slaveWaitCycles := slaveWaitCycles, slavePendingMiso := slavePendingMiso
      slaveState := slaveState, isEnqueued := isEnqueued } :=
  ⟨fresh.bits, fresh.addr, fresh.sends, fresh.receives⟩

def Sending (m : Nat) (t : Transfer) : Prop :=
  t.slavePendingTxBits = 0 ∧ t.slavePendingTxAddr < m ∧ 0 ≤ t.slavePendingTxSize ∧
      t.slavePendingTxAddr + t.slavePendingTxSize ≤ m ∨
    1 ≤ t.slavePendingTxBits ∧ 1 ≤ t.slavePendingTxSize ∧ t.slavePendingTxAddr + t.slavePendingTxSize ≤ m + 1

def Alongside (t : Transfer) : Prop :=
  if t.slaveSck then t.slavePendingTxBits + t.slavePendingRxBits = 7 ∧ t.slavePendingTxAddr = t.slavePendingRxAddr + 1
  else t.slavePendingRxBits = 0 ∧ t.slavePendingTxBits = 0 ∧ t.slavePendingTxAddr = t.slavePendingRxAddr ∨
    1 ≤ t.slavePendingRxBits ∧ t.slavePendingTxBits + t.slavePendingRxBits = 8 ∧ t.slavePendingTxAddr = t.slavePendingRxAddr + 1

structure Moving (m : Nat) (t : Transfer) : Prop where
  sends : t.slavePendingIsRx = false → t.slavePendingIsTx = true ∧ Sending m t
  receives : t.slavePendingIsRx = true → t.slavePendingRxBits < 8 ∧ 1 ≤ t.slavePendingRxSize ∧
    t.slavePendingRxAddr + t.slavePendingRxSize ≤ m ∧ (t.slavePendingIsTx = true → Alongside t)

def Bounded (m : Nat) (t : Transfer) : Prop :=
  match t.slaveState with
  | .startWaitCycles | .csStartPreStartCycles => Fresh m t
  | .csStart | .csStartPostWaitCycles => Fresh m t ∧ t.slaveSck = false
  | .transfer => Moving m t
  | .csEndWaitCycles | .csEnd | .endWaitCycles | .idle => True

theorem edgeUsesBounded (bounded : Bounded m t) : ∀ i ∈ edgeUses t, i < m := by
  unfold edgeUses
  split
  · rename_i transfer
    unfold Bounded at bounded
    rw [transfer] at bounded
    obtain ⟨sends, receives⟩ := bounded
    split
    · split
      · rename_i byte
        obtain ⟨-, some, inside, -⟩ := receives byte.1
        simp only [List.mem_singleton]
        omega
      · simp
    · rename_i low
      split
      · rename_i byte
        have empty := byte.2
        simp only [List.mem_singleton, forall_eq]
        cases rx : t.slavePendingIsRx with
        | false =>
            obtain ⟨-, sending⟩ := sends rx
            unfold Sending at sending
            omega
        | true =>
            obtain ⟨few, some, inside, along⟩ := receives rx
            have beside := along byte.1
            unfold Alongside at beside
            rw [if_neg low] at beside
            omega
      · simp
  · simp

theorem shiftBitFirst (empty : t.slavePendingTxBits = 0) : Spim.shiftBit (Spim.loadByte t) =
    { t with
      slavePendingMosi := (Spim.shiftBit (Spim.loadByte t)).slavePendingMosi
      slavePendingTxByte := (Spim.shiftBit (Spim.loadByte t)).slavePendingTxByte
      slavePendingTxBits := 7, slavePendingTxAddr := t.slavePendingTxAddr + 1 } := by
  simp [Spim.shiftBit, Spim.loadByte, empty]

theorem shiftBitNext (more : t.slavePendingTxBits ≠ 0) : Spim.shiftBit (Spim.loadByte t) =
    { t with
      slavePendingMosi := (Spim.shiftBit (Spim.loadByte t)).slavePendingMosi
      slavePendingTxByte := (Spim.shiftBit (Spim.loadByte t)).slavePendingTxByte
      slavePendingTxBits := t.slavePendingTxBits - 1
      slavePendingTxSize := if t.slavePendingTxBits - 1 = 0 then t.slavePendingTxSize - 1 else t.slavePendingTxSize } := by
  simp [Spim.shiftBit, Spim.loadByte, more]

theorem shiftBitSending (sending : Sending m t) : Sending m (Spim.shiftBit (Spim.loadByte t)) ∨
    (Spim.shiftBit (Spim.loadByte t)).slavePendingTxSize = 0 := by
  unfold Sending at sending ⊢
  by_cases empty : t.slavePendingTxBits = 0
  · rw [shiftBitFirst empty]
    dsimp only
    omega
  · rw [shiftBitNext empty]
    dsimp only
    split <;> omega

theorem shiftBitAlongside (along : Alongside t) (low : t.slaveSck = false) (few : t.slavePendingRxBits < 8) :
    Alongside { Spim.shiftBit (Spim.loadByte t) with slaveSck := true } := by
  unfold Alongside at along ⊢
  rw [if_neg (by simp [low])] at along
  rw [if_pos rfl]
  by_cases empty : t.slavePendingTxBits = 0
  · rw [shiftBitFirst empty]
    dsimp only
    omega
  · rw [shiftBitNext empty]
    dsimp only
    omega

theorem shiftBitKept (t : Transfer) : (Spim.shiftBit (Spim.loadByte t)).slaveState = t.slaveState ∧
    (Spim.shiftBit (Spim.loadByte t)).slavePendingIsTx = t.slavePendingIsTx ∧
    (Spim.shiftBit (Spim.loadByte t)).slavePendingIsRx = t.slavePendingIsRx ∧
    (Spim.shiftBit (Spim.loadByte t)).slavePendingRxBits = t.slavePendingRxBits ∧
    (Spim.shiftBit (Spim.loadByte t)).slavePendingRxSize = t.slavePendingRxSize ∧
    (Spim.shiftBit (Spim.loadByte t)).slavePendingRxAddr = t.slavePendingRxAddr := by
  unfold Spim.loadByte
  split <;> exact ⟨rfl, rfl, rfl, rfl, rfl, rfl⟩

theorem pushBitMoving (moving : Moving m t) (transfer : t.slaveState = .transfer) (low : t.slaveSck = false) :
    Bounded m { Spim.pushBit t with slaveSck := true } := by
  obtain ⟨sends, receives⟩ := moving
  obtain ⟨state, isTx, isRx, bits, size, addr⟩ := shiftBitKept t
  have going : (Spim.shiftBit (Spim.loadByte t)).slavePendingIsRx = true ∨ Sending m (Spim.shiftBit (Spim.loadByte t)) →
      Bounded m { Spim.shiftBit (Spim.loadByte t) with slaveSck := true } := by
    intro more
    unfold Bounded
    rw [state, transfer]
    refine ⟨fun only => ?_, fun both => ?_⟩
    · have sending := more.resolve_left fun both => Bool.false_ne_true (only.symm.trans both)
      exact ⟨isTx.trans (sends (isRx ▸ only)).1, sending⟩
    · obtain ⟨few, some, inside, along⟩ := receives (isRx ▸ both)
      refine ⟨bits ▸ few, size ▸ some, by rw [addr, size]; exact inside, fun tx => ?_⟩
      exact shiftBitAlongside (along (isTx ▸ tx)) low few
  unfold Spim.pushBit
  dsimp only
  split
  · trivial
  · rename_i more
    refine going ?_
    cases rx : (Spim.shiftBit (Spim.loadByte t)).slavePendingIsRx with
    | true => exact .inl rfl
    | false =>
        rcases shiftBitSending (sends (isRx ▸ rx)).2 with sending | none
        · exact .inr sending
        · exact absurd ⟨none, rx⟩ more

theorem sampleBitMoving (moving : Moving m t) (transfer : t.slaveState = .transfer) (high : t.slaveSck = true)
    (rx : t.slavePendingIsRx = true) : Bounded m { Spim.sampleBit t with slaveSck := false } := by
  obtain ⟨few, some, inside, along⟩ := moving.receives rx
  have ahead (tx : t.slavePendingIsTx = true) :
      t.slavePendingTxBits + t.slavePendingRxBits = 7 ∧ t.slavePendingTxAddr = t.slavePendingRxAddr + 1 := by
    have beside := along tx
    unfold Alongside at beside
    rwa [if_pos high] at beside
  unfold Spim.sampleBit
  dsimp only
  split
  · rename_i byte
    split
    · trivial
    · rename_i more
      unfold Bounded
      simp only [transfer]
      refine ⟨fun only => absurd (rx.symm.trans only) Bool.true_eq_false.mp, fun _ => ⟨?_, ?_, ?_, fun tx => ?_⟩⟩
      · exact Nat.zero_lt_succ 7
      · dsimp only
        omega
      · dsimp only
        push_cast
        omega
      · have next := ahead tx
        unfold Alongside
        rw [if_neg (by simp)]
        dsimp only
        omega
  · rename_i byte
    unfold Bounded
    simp only [transfer]
    refine ⟨fun only => absurd (rx.symm.trans only) Bool.true_eq_false.mp, fun _ => ⟨?_, some, inside, fun tx => ?_⟩⟩
    · dsimp only
      omega
    · have next := ahead tx
      unfold Alongside
      rw [if_neg (by simp)]
      dsimp only
      omega

theorem freshMoving (fresh : Fresh m t) (low : t.slaveSck = false) : Moving m t := by
  obtain ⟨⟨sent, received⟩, addr, sends, receives⟩ := fresh
  refine ⟨fun only => ?_, fun both => ?_⟩
  · obtain ⟨tx, inside, some, rest⟩ := sends only
    exact ⟨tx, .inl ⟨sent, inside, some, rest⟩⟩
  · obtain ⟨some, inside⟩ := receives both
    refine ⟨by omega, some, inside, fun _ => ?_⟩
    unfold Alongside
    rw [if_neg (by simp [low])]
    exact .inl ⟨received, sent, addr⟩

theorem execHighBounded (bounded : Bounded m t) (high : t.slaveSck = true) :
    Bounded m { Spim.execHigh t with slaveSck := false } := by
  unfold Spim.execHigh
  split
  · rename_i sampling
    unfold Bounded at bounded
    rw [sampling.1] at bounded
    exact sampleBitMoving bounded sampling.1 high sampling.2
  · rename_i other
    unfold Bounded at bounded ⊢
    dsimp only
    cases state : t.slaveState <;> rw [state] at bounded
    case transfer =>
      refine ⟨bounded.sends, fun rx => absurd ⟨state, rx⟩ other⟩
    case startWaitCycles | csStartPreStartCycles => exact freshOther bounded
    case csStart | csStartPostWaitCycles => exact absurd (high.symm.trans bounded.2) Bool.true_eq_false.mp
    all_goals trivial

theorem execLowBounded (bounded : Bounded m t) (low : t.slaveSck = false) :
    Bounded m { (Spim.execLow t).1 with slaveSck := (Spim.execLow t).2.1 } := by
  unfold Bounded at bounded
  unfold Spim.execLow
  cases state : t.slaveState <;> rw [state] at bounded <;> dsimp only
  case startWaitCycles =>
    split
    · exact freshOther bounded
    · exact freshOther bounded
  case csStartPreStartCycles =>
    split
    · exact ⟨freshOther bounded, rfl⟩
    · exact freshOther bounded
  case csStart => exact ⟨freshOther bounded.1, rfl⟩
  case csStartPostWaitCycles =>
    split
    · exact freshMoving (freshOther bounded.1) rfl
    · exact ⟨freshOther bounded.1, rfl⟩
  case transfer =>
    split
    · exact pushBitMoving bounded state low
    · rename_i silent
      obtain ⟨sends, receives⟩ := bounded
      unfold Bounded
      rw [state]
      refine ⟨fun only => absurd (sends only).1 silent, fun both => ?_⟩
      obtain ⟨few, some, inside, -⟩ := receives both
      exact ⟨few, some, inside, fun tx => absurd tx silent⟩
  case csEndWaitCycles | endWaitCycles => split <;> trivial
  case csEnd => trivial
  case idle =>
    unfold Bounded
    rw [state]
    trivial

theorem execEdgeBounded (bounded : Bounded m t) : Bounded m (Spim.execEdge t).1 := by
  unfold Spim.execEdge
  split
  · rename_i high
    exact execHighBounded bounded high
  · rename_i low
    exact execLowBounded bounded (by simpa using low)

theorem boundedOther (bounded : Bounded m t) {data : Nat → Byte} {slavePendingMiso : BitVec 32} {isEnqueued : Bool} :
    Bounded m { t with data := data, slavePendingMiso := slavePendingMiso, isEnqueued := isEnqueued } := by
  unfold Bounded at bounded ⊢
  dsimp only
  cases state : t.slaveState <;> rw [state] at bounded
  case startWaitCycles | csStartPreStartCycles => exact freshOther bounded
  case csStart | csStartPostWaitCycles => exact ⟨freshOther bounded.1, bounded.2⟩
  case transfer => exact ⟨bounded.sends, bounded.receives⟩
  all_goals trivial

theorem enqueueTransferBounded {config : TransferConfig} (fits : config.Fits m) :
    Bounded m (Spim.enqueueTransfer config.address.toNat config.size.toInt config.isRx config.isDuplex t) := by
  obtain ⟨-, inside, nonneg, fit, some⟩ := fits
  refine ⟨⟨rfl, rfl⟩, rfl, fun only => ?_, fun both => ?_⟩
  · have sends : (config.isRx || config.isDuplex) = false := only
    have parts := Bool.or_eq_false_iff.mp sends
    simp only [Spim.enqueueTransfer, parts.1, parts.2]
    exact ⟨rfl, inside, nonneg, fit⟩
  · have receives : (config.isRx || config.isDuplex) = true := both
    simp only [Spim.enqueueTransfer, receives]
    exact ⟨some (Bool.or_eq_true_iff.mp receives), fit⟩

end Transfers

section Runs

variable {s : Verif}

structure Inside (s : Verif) : Prop where
  slave : Safe s.slave
  transfer : Bounded s.slave.setup.memSize s.master.toTransfer
  slaveBootState : s.master.slaveBootState = .idle
  doSpiLoad : s.master.doSpiLoad = false

theorem createdInside (created : Created s) : Inside s where
  slave :=
    { used := by simp [created.used]
      base := fun command => absurd created.state command
      read := fun reading => by simp [created.state] at reading
      write := fun writing => by simp [created.state] at writing }
  transfer := by
    unfold Bounded
    rw [created.slaveState]
    trivial
  slaveBootState := created.slaveBootState
  doSpiLoad := created.doSpiLoad

theorem masteredInside (inside : Inside s) {uses : List Nat} {f : SpimVerif → SpimVerif}
    (within : ∀ i ∈ uses, i < s.slave.setup.memSize)
    (transfer : Bounded s.slave.setup.memSize (f { s.master with data := s.slave.data }).toTransfer)
    (slaveBootState : (f { s.master with data := s.slave.data }).slaveBootState = .idle)
    (doSpiLoad : (f { s.master with data := s.slave.data }).doSpiLoad = false) : Inside (s.mastered uses f) := by
  obtain ⟨used, base, read, write⟩ := inside.slave
  refine ⟨⟨fun i seen => ?_, base, read, write⟩, transfer, slaveBootState, doSpiLoad⟩
  rcases List.mem_append.mp seen with earlier | now
  · exact used i earlier
  · obtain ⟨index, use, rfl⟩ := List.mem_map.mp now
    exact ⟨Int.natCast_nonneg index, Int.ofNat_lt.mpr (within index use)⟩

theorem execUsesEdge {memSizeLog2 : Nat} {s : SpimVerif} (load : s.spiLoadConfig = none) (wakeup : s.handleWakeup = false)
    (boot : s.slaveBootState = .idle) (doSpiLoad : s.doSpiLoad = false) : execUses memSizeLog2 s = edgeUses s.toTransfer := by
  unfold execUses idleUses
  simp [load, wakeup, boot, doSpiLoad]

theorem execTransfer (memSizeLog2 : Nat) {m : Nat} {s : SpimVerif} (load : s.spiLoadConfig = none) (wakeup : s.handleWakeup = false)
    (boot : s.slaveBootState = .idle) (doSpiLoad : s.doSpiLoad = false) (bounded : Bounded m s.toTransfer) :
    Bounded m (Spim.exec memSizeLog2 s).1.toTransfer ∧ (Spim.exec memSizeLog2 s).1.slaveBootState = .idle ∧
      (Spim.exec memSizeLog2 s).1.doSpiLoad = false := by
  have edge := execEdgeBounded bounded
  have same : (Spim.exec memSizeLog2 s).1 =
      if (Spim.execEdge s.toTransfer).1.slaveState = .idle then
        { s with initPads := false, toTransfer := { (Spim.execEdge s.toTransfer).1 with isEnqueued := false } }
      else { s with initPads := false, toTransfer := (Spim.execEdge s.toTransfer).1 } := by
    unfold Spim.exec Spim.execIdle
    simp [load, wakeup, boot, doSpiLoad]
  rw [same]
  split
  · exact ⟨boundedOther edge, boot, doSpiLoad⟩
  · exact ⟨edge, boot, doSpiLoad⟩

theorem stepInside {a : Action} {last : Verif} (inside : Inside s) (allowed : Allowed s a) (taken : step s a = some last) :
    Inside last ∧ last.slave.setup = s.slave.setup := by
  cases a with
  | call c =>
      obtain rfl := Option.some.inj taken
      have setup : (s.call c).slave.setup = s.slave.setup := callSetup s.slave c
      have master : ∃ miso, (s.call c).master = { s.master with slavePendingMiso := miso } := by
        cases c with
        | csSync cs => exact ⟨_, rfl⟩
        | sync sck lanes =>
            unfold Verif.call
            dsimp only
            split <;> exact ⟨_, rfl⟩
      obtain ⟨miso, sampled⟩ := master
      refine ⟨⟨callSafe inside.slave allowed, ?_, ?_, ?_⟩, setup⟩
      · rw [setup, sampled]
        exact boundedOther inside.transfer
      · rw [sampled]
        exact inside.slaveBootState
      · rw [sampled]
        exact inside.doSpiLoad
  | transfer config =>
      obtain rfl := Option.some.inj taken
      unfold Verif.transfer
      rw [if_neg (by simp [allowed.1])]
      exact ⟨masteredInside inside (by simp) (enqueueTransferBounded allowed) inside.slaveBootState inside.doSpiLoad, rfl⟩
  | spiWakeup spiReload =>
      obtain rfl := Option.some.inj taken
      exact ⟨masteredInside inside (by simp) (boundedOther inside.transfer) inside.slaveBootState inside.doSpiLoad, rfl⟩
  | exec =>
      obtain rfl := Option.some.inj taken
      have shared : Bounded s.slave.setup.memSize { s.master.toTransfer with data := s.slave.data } :=
        boundedOther inside.transfer
      have quiet : execUses s.memSizeLog2 { s.master with data := s.slave.data } =
          edgeUses { s.master.toTransfer with data := s.slave.data } :=
        execUsesEdge allowed.1 allowed.2 inside.slaveBootState inside.doSpiLoad
      obtain ⟨bounded, boot, load⟩ :=
        execTransfer s.memSizeLog2 (s := { s.master with data := s.slave.data }) allowed.1 allowed.2
          inside.slaveBootState inside.doSpiLoad shared
      exact ⟨masteredInside inside (quiet ▸ edgeUsesBounded shared) bounded boot load, rfl⟩

theorem runInside {trace : List (Action × Verif)} {last : Verif} (created : Created s) (run : Run step Allowed s trace last) :
    Inside last ∧ last.slave.setup = s.slave.setup :=
  runInvariant (P := fun last => Inside last ∧ last.slave.setup = s.slave.setup) run ⟨createdInside created, rfl⟩
    fun _ _ _ ⟨inside, same⟩ allowed taken =>
      have ⟨next, kept⟩ := stepInside inside allowed taken
      ⟨next, kept.trans same⟩

/- Every index that was used on the memory is one of it. -/
theorem memoryBounded {trace : List (Action × Verif)} {last : Verif} (created : Created s) (run : Run step Allowed s trace last) :
    ∀ i ∈ last.slave.used, 0 ≤ i ∧ i < (s.slave.setup.memSize : Int) := by
  obtain ⟨inside, same⟩ := runInside created run
  rw [← same]
  exact inside.slave.used

def resting : Verif where
  slave := SpimSlave.blank
  master :=
    { data := fun _ => 0
      slaveSck := false
      slaveWaitCycles := 0
      slavePendingRxBits := 0
      slavePendingRxByte := 0
      slavePendingRxAddr := 0
      slavePendingRxSize := 0
      slavePendingTxBits := 0
      slavePendingTxByte := 0
      slavePendingTxAddr := 0
      slavePendingTxSize := 0
      slavePendingIsTx := false
      slavePendingIsRx := false
      slavePendingMiso := 0
      slavePendingMosi := 0
      slaveState := .idle
      isEnqueued := false
      slaveBootAddress := 0
      slaveBootVerifAddress := 0
      slaveBootSize := 0
      slaveBootIsRx := false
      slaveBootState := .idle
      slaveBootJump := false
      sections := []
      currentSectionLoad := 0
      initPads := false
      spiLoadConfig := none
      handleWakeup := false
      doSpiLoad := false
      reloadSpi := false }

theorem restingCreated : Created resting := ⟨rfl, rfl, rfl, rfl, rfl⟩

def endActions : List Action :=
  .transfer ⟨270, 2, false, true, false⟩ :: List.replicate 60 .exec ++
    (SpimSlave.clocked ((ShiftRegister.msbFirst SpimSlave.quadWrite).map SpimSlave.single) ++ [Call.csSync 1, Call.csSync 0] ++
      SpimSlave.clocked [⟨0, 1, 0, 1⟩, ⟨1, 1, 0, 0⟩]).map Action.call

theorem memoryBoundedDuplex : (reach step Allowed resting endActions).slave.used = [270, 270, 271, 271, 3] ∧
    ∀ i ∈ (reach step Allowed resting endActions).slave.used, 0 ≤ i ∧ i < (272 : Int) := by
  obtain ⟨run, -⟩ := Machine.reachTrace step Allowed resting endActions (by decide +kernel)
  exact ⟨by decide +kernel, memoryBounded restingCreated run⟩

/- The command of a wake-up is put behind the memory of 272 bytes. -/
theorem bootCommandOutside : ∃ s trace last, Created s ∧ Run step anyStep s trace last ∧ s.slave.setup.memSize = 272 ∧
    272 ∈ last.slave.used := by
  refine ⟨resting, _, _, restingCreated, (Machine.reachTrace step anyStep resting [.spiWakeup false, .exec] rfl).1, rfl, ?_⟩
  decide +kernel

end Runs

section Boot

variable (s : Verif)

theorem sofOutside (memSizeLog2 : Nat) : memSize memSizeLog2 ∈ sofUses memSizeLog2 := by simp [sofUses]

theorem loadOutside {memSizeLog2 : Nat} {s : SpimVerif} {config : SpiLoadConfig} (load : s.doSpiLoad = true)
    (sections : s.sections = Spim.loadSections config []) (first : s.currentSectionLoad = 0) :
    memSize memSizeLog2 ∈ startSpiLoadUses memSizeLog2 s := by
  obtain ⟨data, parts, shape, carried, -⟩ := Spim.loadSectionsCut config
  obtain ⟨sec, found, short⟩ : ∃ sec, s.sections[s.currentSectionLoad]? = some sec ∧ Spim.Fits sec := by
    rw [first, sections, shape]
    cases data with
    | nil => exact ⟨_, rfl, Spim.jumpFits config.entry⟩
    | cons sec rest => exact ⟨sec, rfl, ((Spim.loadedData carried).1 sec (by simp)).2⟩
  unfold startSpiLoadUses
  rw [if_pos load, found]
  dsimp only
  split
  · rename_i access
    have small := (short access).2.2
    have fitting : sec.size ≤ memSize memSizeLog2 := small.trans (Nat.le_add_left Spim.cmdBufferSize _)
    rw [if_neg (Nat.not_lt.mpr fitting)]
    exact List.mem_append_right _ (sofOutside memSizeLog2)
  · exact sofOutside memSizeLog2

theorem wakeupOutside {memSizeLog2 : Nat} {s : SpimVerif} (load : s.spiLoadConfig = none) (wakeup : s.handleWakeup = true) :
    memSize memSizeLog2 ∈ execUses memSizeLog2 s := by
  unfold execUses
  rw [load]
  simp [wakeup, bootUses]

theorem bootOutside (sections : s.master.sections = []) :
    (¬(s.master.spiLoadConfig = none ∧ s.master.handleWakeup = false) → (s.slave.setup.memSize : Int) ∈ s.exec.slave.used) ∧
      ∀ config : TransferConfig, config.isBootProtocol = true → (s.slave.setup.memSize : Int) ∈ (s.transfer config).slave.used := by
  have mastered {uses : List Nat} {f : SpimVerif → SpimVerif} (inside : memSize s.memSizeLog2 ∈ uses) :
      (s.slave.setup.memSize : Int) ∈ (s.mastered uses f).slave.used :=
    List.mem_append_right _ (List.mem_map.mpr ⟨_, inside, rfl⟩)
  refine ⟨fun booting => mastered ?_, fun config boot => ?_⟩
  · cases load : s.master.spiLoadConfig with
    | some config =>
        unfold execUses
        rw [show ({ s.master with data := s.slave.data } : SpimVerif).spiLoadConfig = some config from load]
        exact loadOutside rfl (by rw [← sections]) rfl
    | none => exact wakeupOutside load (by simpa [load] using booting)
  · unfold Verif.transfer
    rw [if_pos boot]
    exact mastered (sofOutside s.memSizeLog2)

end Boot

end Gvsoc.SpimMemory
