import Gvsoc.HyperflashUses
import Gvsoc.Hyperram

/-! When the two devices of the bus stay inside their arrays. -/
namespace Gvsoc.Hyperram
open Bytes (Byte)
open ArrayWatch (Range)
open Hyperflash (Action)

def Ram.uses (s : Ram) : Action → List Range
  | .cs _ => []
  | .byte _ => match s.state with
      | .ca => []
      | .data => if s.size.sle s.currentAddress then [] else [⟨s.currentAddress.toInt, 1⟩]

def ramDevice : ArrayWatch.Device Ram Action := ⟨Ram.act, Ram.uses, fun s => s.size.toInt⟩

section Safe

variable {s next : Ram} {a : Action} {i : Int}

theorem usesFrame (apart : Hyperflash.Apart i (s.uses a)) (taken : s.act a = some next) : next.data i = s.data i := by
  cases a with
  | cs value =>
      cases taken
      rfl
  | byte data =>
      obtain ⟨⟨moved, sent⟩, synced, rfl⟩ := Option.map_eq_some_iff.mp taken
      unfold Ram.syncCycle at synced
      unfold Ram.uses at apart
      cases phase : s.state with
      | ca =>
          rw [phase] at synced
          dsimp only at synced
          split_ifs at synced <;> (cases synced; rfl)
      | data =>
          rw [phase] at synced apart
          dsimp only at synced apart
          cases synced
          unfold Ram.handleAccess
          split_ifs with outside reading
          · rfl
          · rfl
          · rw [if_neg outside] at apart
            exact Function.update_of_ne (Hyperflash.byteApart apart) _ _

structure Ram.Framed (s : Ram) : Prop where
  sized : 0 ≤ s.size.toInt
  count : s.state = .ca → 1 ≤ s.caCount ∧ s.caCount ≤ 6

def Ram.Fine (s : Ram) : Action → Prop
  | .cs _ => True
  | .byte _ => s.state = .data → 0 ≤ s.currentAddress.toInt

instance (s : Ram) (a : Action) : Decidable (s.Fine a) :=
  match a with
  | .cs _ => .isTrue trivial
  | .byte _ => inferInstanceAs (Decidable (_ → _))

theorem actFramed (framed : s.Framed) (taken : s.act a = some next) : next.Framed ∧ next.size = s.size := by
  cases a with
  | cs value =>
      cases taken
      exact ⟨⟨framed.sized, fun _ => by simp [Ram.csSync]⟩, rfl⟩
  | byte data =>
      obtain ⟨⟨moved, sent⟩, synced, rfl⟩ := Option.map_eq_some_iff.mp taken
      unfold Ram.syncCycle at synced
      cases phase : s.state with
      | ca =>
          rw [phase] at synced
          dsimp only at synced
          split_ifs at synced with range zero
          · cases synced
            exact ⟨⟨framed.sized, fun same => by cases same⟩, rfl⟩
          · cases synced
            refine ⟨⟨framed.sized, fun _ => ?_⟩, rfl⟩
            dsimp only
            omega
      | data =>
          rw [phase] at synced
          dsimp only at synced
          have kept : (s.handleAccess s.regAccess s.currentAddress s.read data).1.state = .data ∧
              (s.handleAccess s.regAccess s.currentAddress s.read data).1.size = s.size := by
            unfold Ram.handleAccess
            split_ifs <;> exact ⟨phase, rfl⟩
          cases synced
          refine ⟨⟨?_, fun same => ?_⟩, kept.2⟩
          · dsimp only
            rw [kept.2]
            exact framed.sized
          · dsimp only at same
            rw [kept.1] at same
            cases same

theorem ramSafe (framed : s.Framed) : ramDevice.Safe s a ↔ s.Fine a := by
  cases a with
  | cs value => exact iff_of_true ⟨rfl, by simp [ramDevice, Ram.uses]⟩ trivial
  | byte data =>
      cases phase : s.state with
      | ca =>
          have count := framed.count phase
          refine iff_of_true ⟨?_, ?_⟩ (fun same => by rw [phase] at same; cases same)
          · simp only [ramDevice, Ram.act, Ram.syncCycle, phase, Option.isSome_map]
            rw [if_pos (by omega)]
            rfl
          · simp [ramDevice, Ram.uses, phase]
      | data =>
          have ends : (ramDevice.act s (.byte data)).isSome = true := by simp [ramDevice, Ram.act, Ram.syncCycle, phase]
          have sized := framed.sized
          unfold ArrayWatch.Device.Safe
          rw [ends]
          simp only [ramDevice, Ram.uses, Ram.Fine, phase, true_and, forall_const]
          by_cases outside : s.size.sle s.currentAddress = true
          · have large : s.size.toInt ≤ s.currentAddress.toInt := by simpa [BitVec.sle] using outside
            rw [if_pos outside]
            exact iff_of_true (by simp) (by omega)
          · have small : s.currentAddress.toInt < s.size.toInt := by simpa [BitVec.sle] using outside
            rw [if_neg outside]
            simp only [List.mem_singleton, forall_eq, Range.Inside]
            omega

end Safe

end Gvsoc.Hyperram

namespace Gvsoc.Hyperbus
open ArrayWatch (Device)
open Hyperflash (Flash Action flashDevice)
open Hyperram (Ram ramDevice)
open Runs (run AllSteps)

theorem flashKeeps {s next : Flash} {a : Action} (framed : s.Framed) (taken : flashDevice.act s a = some next) :
    next.Framed ∧ flashDevice.size next = flashDevice.size s := by
  obtain ⟨kept, size⟩ := Hyperflash.actFramed framed taken
  exact ⟨kept, congrArg BitVec.toInt size⟩

theorem ramKeeps {s next : Ram} {a : Action} (framed : s.Framed) (taken : ramDevice.act s a = some next) :
    next.Framed ∧ ramDevice.size next = ramDevice.size s := by
  obtain ⟨kept, size⟩ := Hyperram.actFramed framed taken
  exact ⟨kept, congrArg BitVec.toInt size⟩

theorem arraysKept {flash : Flash} {ram : Ram} (flashFramed : flash.Framed) (ramFramed : ram.Framed) (actions : List Action) :
    ((∀ n, flashDevice.Sound (run flashDevice.watch (Device.start flash) (actions.take n))) ↔
      AllSteps flashDevice.watch (fun w a => w.state.Fine a) (Device.start flash) actions) ∧
    ((∀ n, ramDevice.Sound (run ramDevice.watch (Device.start ram) (actions.take n))) ↔
      AllSteps ramDevice.watch (fun w a => w.state.Fine a) (Device.start ram) actions) := by
  constructor
  · exact ArrayWatch.soundIff (fun s a next framed taken => flashKeeps framed taken) (fun s a framed => Hyperflash.flashSafe framed) flashFramed actions
  · exact ArrayWatch.soundIff (fun s a next framed taken => ramKeeps framed taken) (fun s a framed => Hyperram.ramSafe framed) ramFramed actions

def wholeFlash : Flash := ⟨0x40000, fun _ => 0, .waitCmd0, .ca, 0, 0, 0, 6, 0, false, false, -1, 0⟩

def wholeRam : Ram := ⟨0x40000, fun _ => 0, 0, 6, 0, false, .ca⟩

/- A sector is erased. The memory takes the command words for data. -/
def sectorErase : List Action := Hyperflash.unlockActions ++ [.byte 0, .cs true]

theorem arraysKeptSector :
    (∀ n, flashDevice.Sound (run flashDevice.watch (Device.start wholeFlash) (sectorErase.take n))) ∧
      ∀ n, ramDevice.Sound (run ramDevice.watch (Device.start wholeRam) (sectorErase.take n)) := by
  have kept := @arraysKept wholeFlash wholeRam ⟨by decide, fun _ => by decide⟩ ⟨by decide, fun _ => by decide⟩ sectorErase
  exact ⟨kept.1.mpr (by decide +kernel), kept.2.mpr (by decide +kernel)⟩

def farRead : List Action := [.cs false, .byte 0x90, .byte 0, .byte 0, .byte 0, .byte 0, .byte 0, .byte 0]

def halfFlash : Flash := { wholeFlash with size := 0x20000 }

/- A read below the array, an erase of more than the array, and an erase without an end. -/
theorem arraysLeft :
    ¬ ramDevice.Sound (run ramDevice.watch (Device.start wholeRam) farRead) ∧
      ¬ flashDevice.Sound (run flashDevice.watch (Device.start halfFlash) sectorErase) ∧
      ∀ left, halfFlash.eraseChipFrom 0 left = none := by
  refine ⟨fun sound => ?_, fun sound => ?_, Hyperflash.eraseChipHangs (by decide) (by decide) (by decide)⟩
  · have used : (run ramDevice.watch (Device.start wholeRam) farRead).used = [⟨-0x80000000, 1⟩] := by decide +kernel
    have inside := sound.2 _ (by rw [used]; exact List.mem_singleton.mpr rfl)
    exact absurd inside.1 (by decide)
  · have used : (run flashDevice.watch (Device.start halfFlash) sectorErase).used = [⟨0, 0x40000⟩] := by decide +kernel
    have size : flashDevice.size (run flashDevice.watch (Device.start halfFlash) sectorErase).state = 0x20000 := by decide +kernel
    have inside := sound.2 _ (by rw [used]; exact List.mem_singleton.mpr rfl)
    exact absurd inside.2 (by rw [size]; decide)

end Gvsoc.Hyperbus
