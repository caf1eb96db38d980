import Gvsoc.SpimSlave
import Gvsoc.Machine

/-! The memory of the SPI testbench model, which its slave and its master share, and the indexes that they use on it. The buffer of
the boot commands is meant to be at its end, and is put behind it. -/
namespace Gvsoc.SpimMemory
open Bytes (Byte)
open Spim (Transfer SpimVerif SpiLoadConfig SpiLoaderSection memSize)
open SpimSlave (Setup Slave Call Lanes)

section Uses

variable (memSizeLog2 : Nat)

def edgeUses (t : Transfer) : List Nat :=
  if t.slaveState = .transfer then
    if t.slaveSck then if t.slavePendingIsRx ∧ t.slavePendingRxBits + 1 = 8 then [t.slavePendingRxAddr] else []
    else if t.slavePendingIsTx ∧ t.slavePendingTxBits = 0 then [t.slavePendingTxAddr] else []
  else []

def sofUses : List Nat := List.range' (memSize memSizeLog2) 7

def startSpiLoadUses (s : SpimVerif) : List Nat :=
  if s.doSpiLoad then
    match s.sections[s.currentSectionLoad]? with
    | some sec =>
        if sec.access then if memSize memSizeLog2 < sec.size then [] else List.range sec.size ++ sofUses memSizeLog2
        else sofUses memSizeLog2
    | none => []
  else []

def bootUses (s : SpimVerif) : List Nat :=
  match s.slaveBootState with
  | .sendWakeupCmd | .sendWakeupStatus | .sendWakeupExit | .checkSof | .getAckStep0 | .getAckStep1 | .getAckStep2 =>
      [memSize memSizeLog2]
  | .sendWakeupStatusResponse => [memSize memSizeLog2 + 1]
  | .sendWakeupDoLoad => startSpiLoadUses memSizeLog2 { s with slaveBootState := .idle, doSpiLoad := true }
  | .sendSof => sofUses memSizeLog2
  | .idle | .receiveCrc | .receiveData | .receiveDataCrc | .sendDataDone | .sendDataCrc | .sendData => []

def idleUses (s : SpimVerif) : List Nat :=
  if s.slaveBootState ≠ .idle then bootUses memSizeLog2 s
  else if s.doSpiLoad then startSpiLoadUses memSizeLog2 s
  else []

def execUses (s : SpimVerif) : List Nat :=
  let s := { s with initPads := false }
  match s.spiLoadConfig with
  | some config =>
      startSpiLoadUses memSizeLog2
        { s with currentSectionLoad := 0, sections := Spim.loadSections config s.sections, doSpiLoad := true }
  | none =>
      let woken := { s with handleWakeup := false, slaveBootState := .sendWakeupCmd }
      let s' := if s.handleWakeup then Spim.handleBootProtocolTransfer memSizeLog2 woken else s
      let after := { s' with toTransfer := (Spim.execEdge s'.toTransfer).1 }
      (if s.handleWakeup then bootUses memSizeLog2 woken else []) ++ edgeUses s'.toTransfer ++
        if after.slaveState = .idle then idleUses memSizeLog2 after else []

end Uses

section Frame

variable {memSizeLog2 i : Nat} {t : Transfer} {s : SpimVerif}

theorem sampleFrame (apart : i ∉ if t.slavePendingRxBits + 1 = 8 then [t.slavePendingRxAddr] else []) :
    (Spim.sampleBit t).data i = t.data i := by
  unfold Spim.sampleBit
  dsimp only
  split
  · rename_i full
    rw [if_pos full, List.mem_singleton] at apart
    split <;> exact Function.update_of_ne apart _ _
  · rfl

theorem loadFrame : (Spim.loadByte t).data = t.data := by
  unfold Spim.loadByte
  split <;> rfl

theorem pushFrame : (Spim.pushBit t).data = t.data := by
  have shifted : (Spim.shiftBit (Spim.loadByte t)).data = t.data := loadFrame
  unfold Spim.pushBit
  dsimp only
  split <;> exact shifted

theorem execLowFrame : (Spim.execLow t).1.data = t.data := by
  unfold Spim.execLow
  cases t.slaveState <;> dsimp only
  case transfer =>
    split
    · exact pushFrame
    · rfl
  case startWaitCycles | csStartPreStartCycles | csStartPostWaitCycles | csEndWaitCycles | endWaitCycles => split <;> rfl

theorem edgeFrame (apart : i ∉ edgeUses t) : (Spim.execEdge t).1.data i = t.data i := by
  unfold Spim.execEdge
  split
  · rename_i high
    unfold Spim.execHigh
    split
    · rename_i receives
      refine sampleFrame ?_
      unfold edgeUses at apart
      simpa [high, receives.1, receives.2] using apart
    · rfl
  · exact congrFun execLowFrame i

theorem sendSofFrame (apart : i ∉ sofUses memSizeLog2) : (Spim.sendSof memSizeLog2 s).data i = s.data i :=
  Cells.writeOutside (Nat.le_of_eq rfl) apart

theorem startSpiLoadFrame (apart : i ∉ startSpiLoadUses memSizeLog2 s) : (Spim.startSpiLoad memSizeLog2 s).data i = s.data i := by
  unfold Spim.startSpiLoad
  unfold startSpiLoadUses at apart
  split
  · rename_i load
    rw [if_pos load] at apart
    split
    · rename_i sec found
      rw [found] at apart
      dsimp only at apart ⊢
      split
      · rename_i access
        rw [if_pos access] at apart
        unfold Spim.enqueueBootProtocolTransfer
        split
        · rfl
        · rename_i small
          rw [if_neg small, List.mem_append, not_or, List.range_eq_range'] at apart
          exact (sendSofFrame apart.2).trans (Cells.writeOutside (List.length_take_le _ _) apart.1)
      · rename_i jump
        rw [if_neg jump] at apart
        exact sendSofFrame apart
    · rfl
  · rfl

theorem bootFrame (apart : i ∉ bootUses memSizeLog2 s) : (Spim.handleBootProtocolTransfer memSizeLog2 s).data i = s.data i := by
  unfold Spim.handleBootProtocolTransfer
  unfold bootUses at apart
  cases state : s.slaveBootState <;> rw [state] at apart <;> dsimp only at apart ⊢
  case sendWakeupCmd | sendWakeupStatus | sendWakeupExit | getAckStep1 =>
    exact Function.update_of_ne (List.mem_singleton.not.mp apart) _ _
  case sendWakeupDoLoad => exact startSpiLoadFrame apart
  case sendSof => exact sendSofFrame apart
  case checkSof => split <;> [split <;> rfl; rfl]
  case receiveDataCrc | sendDataDone =>
    unfold Spim.nextChunk
    dsimp only
    split <;> rfl
  all_goals rfl

theorem idleFrame (apart : i ∉ idleUses memSizeLog2 s) : (Spim.execIdle memSizeLog2 s).data i = s.data i := by
  unfold Spim.execIdle
  unfold idleUses at apart
  split
  · rename_i boots
    rw [if_pos boots] at apart
    exact bootFrame apart
  · rename_i idle
    rw [if_neg idle] at apart
    split
    · rename_i load
      rw [if_pos load] at apart
      exact startSpiLoadFrame apart
    · rfl

theorem edgeIdleFrame (edge : i ∉ edgeUses s.toTransfer)
    (idle : i ∉ if (Spim.execEdge s.toTransfer).1.slaveState = .idle then
      idleUses memSizeLog2 { s with toTransfer := (Spim.execEdge s.toTransfer).1 } else []) :
    (if (Spim.execEdge s.toTransfer).1.slaveState = .idle then
      Spim.execIdle memSizeLog2 { s with toTransfer := (Spim.execEdge s.toTransfer).1 }
      else { s with toTransfer := (Spim.execEdge s.toTransfer).1 }).data i = s.data i := by
  split
  · rename_i done
    rw [if_pos done] at idle
    exact (idleFrame idle).trans (edgeFrame edge)
  · exact edgeFrame edge

theorem execFrame (apart : i ∉ execUses memSizeLog2 s) : (Spim.exec memSizeLog2 s).1.data i = s.data i := by
  unfold execUses at apart
  unfold Spim.exec
  dsimp only at apart ⊢
  cases load : s.spiLoadConfig with
  | some config =>
      rw [load] at apart
      exact startSpiLoadFrame apart
  | none =>
      rw [load] at apart
      dsimp only at apart ⊢
      simp only [List.mem_append, not_or] at apart
      obtain ⟨⟨woken, edge⟩, idle⟩ := apart
      have started : (if s.handleWakeup then Spim.handleBootProtocolTransfer memSizeLog2 { s with
          initPads := false, spiLoadConfig := none, handleWakeup := false, slaveBootState := .sendWakeupCmd }
          else { s with initPads := false, spiLoadConfig := none }).data i = s.data i := by
        split
        · rename_i wakes
          rw [if_pos wakes] at woken
          exact bootFrame woken
        · rfl
      exact (edgeIdleFrame edge idle).trans started

end Frame

structure TransferConfig where
  address : BitVec 32
  size : BitVec 32
  isRx : Bool
  isDuplex : Bool
  isBootProtocol : Bool
  deriving DecidableEq, Repr

structure Verif where
  slave : Slave
  master : SpimVerif

namespace Verif

variable (s : Verif)

def memSizeLog2 : Nat := s.slave.setup.memSizeLog2

def mastered (uses : List Nat) (f : SpimVerif → SpimVerif) : Verif :=
  let master := f { s.master with data := s.slave.data }
  { master := master
    slave := { s.slave with data := master.data, used := s.slave.used ++ uses.map Int.ofNat } }

/- A line from the pins: the master only samples it. -/
def call (c : Call) : Verif :=
  { slave := s.slave.call c
    master := match c with
      | .sync _ lanes => if s.slave.setup.isMaster then { s.master with slavePendingMiso := lanes.sdio0 } else s.master
      | .csSync _ => s.master }

/- The address and the size are `int`s; a negative address is no index, nor is it as a number without a sign. -/
def transfer (config : TransferConfig) : Verif :=
  if config.isBootProtocol then
    s.mastered (sofUses s.memSizeLog2)
      (Spim.startBootProtocolTransfer s.memSizeLog2 config.address config.size.toInt config.isRx)
  else
    s.mastered [] fun master =>
      { master with
        toTransfer := Spim.enqueueTransfer config.address.toNat config.size.toInt config.isRx config.isDuplex master.toTransfer }

def exec : Verif := s.mastered (execUses s.memSizeLog2 { s.master with data := s.slave.data }) fun master => (Spim.exec s.memSizeLog2 master).1

def spiWakeup (spiReload : Bool) : Verif := s.mastered [] fun master =>
  { master with toTransfer := { master.toTransfer with isEnqueued := true }, handleWakeup := true, reloadSpi := spiReload }

end Verif

inductive Action where
  | call (c : Call)
  | transfer (config : TransferConfig)
  | spiWakeup (spiReload : Bool)
  | exec

def step (s : Verif) : Action → Option Verif
  | .call c => some (s.call c)
  | .transfer config => some (s.transfer config)
  | .spiWakeup spiReload => some (s.spiWakeup spiReload)
  | .exec => some s.exec

theorem stepFrame {s next : Verif} {a : Action} {i : Nat} (master : ∀ c, a ≠ .call c) (taken : step s a = some next) :
    ∃ uses : List Nat, next.slave.used = s.slave.used ++ uses.map Int.ofNat ∧ (i ∉ uses → next.slave.data i = s.slave.data i) := by
  cases a with
  | call c => exact absurd rfl (master c)
  | transfer config =>
      cases taken
      unfold Verif.transfer
      split
      · exact ⟨_, rfl, sendSofFrame⟩
      · exact ⟨[], rfl, fun _ => rfl⟩
  | spiWakeup spiReload =>
      cases taken
      exact ⟨[], rfl, fun _ => rfl⟩
  | exec =>
      cases taken
      exact ⟨_, rfl, execFrame⟩

structure Created (s : Verif) : Prop where
  state : s.slave.state = .getCmd
  used : s.slave.used = []
  slaveState : s.master.slaveState = .idle
  slaveBootState : s.master.slaveBootState = .idle
  doSpiLoad : s.master.doSpiLoad = false

section Conditions

variable (s : Slave)

def ReadAllowed : Prop := s.dummyCycles = 0 → s.nbBits = 0 → s.currentAddr ≠ 0x7FFFFFFF

def WriteAllowed : Prop :=
  let nbWriteBits := s.nbWriteBits + BitVec.ofNat 32 (if s.isQuad then 4 else 1)
  if nbWriteBits = 8 then s.currentWriteAddr ≠ 0x7FFFFFFF
  else s.currentWriteSize = BitVec.ofNat 32 (if s.isQuad then 4 else 1) → nbWriteBits ≠ 0 →
    s.currentWriteAddr.toInt < s.setup.memSize

def CommandAllowed (cmd : BitVec 64) : Prop :=
  1 ≤ (SpimSlave.cmdField cmd).toNat ∧ (SpimSlave.cmdField cmd).toNat ≤ 5 → 0 ≤ (SpimSlave.addrField cmd).toInt

def HighAllowed (lanes : Lanes) : Prop :=
  s.waitCs = false → match s.state with
    | .getCmd => s.cmdCount = 63 → CommandAllowed (s.currentCmd <<< 1 ||| lanes.sdio0.signExtend 64)
    | .writeCmd | .fullDuplexCmd => WriteAllowed s
    | .readCmd => True

def CallAllowed : Call → Prop
  | .sync sck lanes => s.setup.isMaster = false →
      if s.setup.Sampling s.prevSck sck then HighAllowed s lanes
      else s.waitCs = false → s.state = .readCmd ∨ s.state = .fullDuplexCmd → ReadAllowed s
  | .csSync _ => s.setup.isMaster = false → s.state = .readCmd ∨ s.state = .fullDuplexCmd → ReadAllowed s

def TransferConfig.Fits (memSize : Nat) (config : TransferConfig) : Prop :=
  config.isBootProtocol = false ∧ config.address.toNat < memSize ∧ 0 ≤ config.size.toInt ∧
    config.address.toNat + config.size.toInt ≤ memSize ∧ (config.isRx = true ∨ config.isDuplex = true → 1 ≤ config.size.toInt)

/- No transfer of the boot protocol: not from the testbench, and neither a load nor a wake-up when the engine runs the model. -/
def Allowed (s : Verif) : Action → Prop
  | .call c => CallAllowed s.slave c
  | .transfer config => config.Fits s.slave.setup.memSize
  | .spiWakeup _ => True
  | .exec => s.master.spiLoadConfig = none ∧ s.master.handleWakeup = false

instance : Decidable (ReadAllowed s) := by
  unfold ReadAllowed
  infer_instance

instance : Decidable (WriteAllowed s) := by
  unfold WriteAllowed
  infer_instance

instance (cmd : BitVec 64) : Decidable (CommandAllowed cmd) := by
  unfold CommandAllowed
  infer_instance

instance (lanes : Lanes) : Decidable (HighAllowed s lanes) := by
  unfold HighAllowed
  cases s.state <;> infer_instance

instance : ∀ c : Call, Decidable (CallAllowed s c)
  | .sync sck lanes => by
      unfold CallAllowed
      infer_instance
  | .csSync cs => by
      unfold CallAllowed
      infer_instance

instance (memSize : Nat) (config : TransferConfig) : Decidable (config.Fits memSize) := by
  unfold TransferConfig.Fits
  infer_instance

instance (s : Verif) : ∀ a : Action, Decidable (Allowed s a)
  | .call c => inferInstanceAs (Decidable (CallAllowed s.slave c))
  | .transfer config => inferInstanceAs (Decidable (config.Fits s.slave.setup.memSize))
  | .spiWakeup _ => .isTrue trivial
  | .exec => inferInstanceAs (Decidable (s.master.spiLoadConfig = none ∧ s.master.handleWakeup = false))

end Conditions

end Gvsoc.SpimMemory
