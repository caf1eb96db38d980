import Mathlib.Data.Nat.Bitwise
import Gvsoc.Runs

/-! The two enable flags of `mstatus`. They are in the state of the interrupts, and bit 7 is in the stored status as well;
a read merges the two. -/
namespace Gvsoc.Mstatus

abbrev Word := BitVec 32

/- What is fixed when the core is compiled: `SECURE` and `PRIV_1_10`. -/
structure Config where
  secure : Bool
  priv110 : Bool

/- Instructions are seen through their addresses. The vectors are there: a reset flushes the cache and sets them. -/
structure Core where
  status : Word
  epc : Word
  depc : Word
  mcause : Word
  irqEnable : Word
  savedIrqEnable : Word
  debugSavedIrqEnable : Word
  reqIrq : Int
  reqDebug : Bool
  debugMode : Bool
  currentInsn : Word
  elwInsn : Option Word
  elwInterrupted : Bool
  vectors : Nat → Word
  debugHandler : Word

namespace Core

variable (s : Core)

def mstatusRead : Word := (s.status &&& ~~~(1#32 <<< 3)) ||| (s.irqEnable <<< 3) ||| (s.savedIrqEnable <<< 7)

def mstatusWrite (c : Config) (value : Word) : Core :=
  let mask := if c.secure then 0x21899#32 else 0x88#32
  let orMask := if c.secure then 0x0#32 else 0x1800#32
  { s with status := (value &&& mask) ||| orMask, irqEnable := (value >>> 3) &&& 1#32, savedIrqEnable := (value >>> 7) &&& 1#32 }

def issIrqCheck : Core :=
  if s.reqDebug && !s.debugMode then
    { s with debugMode := true, depc := s.currentInsn, debugSavedIrqEnable := s.irqEnable, irqEnable := 0, reqDebug := false
             currentInsn := s.debugHandler }
  else if s.reqIrq ≠ -1 ∧ s.irqEnable ≠ 0 then
    let s := { s with currentInsn := s.elwInsn.getD s.currentInsn, elwInterrupted := s.elwInterrupted || s.elwInsn.isSome }
    { s with epc := s.currentInsn, savedIrqEnable := s.irqEnable, irqEnable := 0, reqIrq := -1
             currentInsn := s.vectors s.reqIrq.toNat, mcause := (1#32 <<< 31) ||| BitVec.ofInt 32 s.reqIrq, elwInsn := none }
  else { s with elwInsn := none }

/- `ISS_EXCEPT_DEBUG` is 3. -/
def issExceptRaise (c : Config) (id : Nat) : Core :=
  if c.priv110 && id == 3 then
    { s with depc := s.currentInsn, debugSavedIrqEnable := s.irqEnable, irqEnable := 0, currentInsn := s.debugHandler }
  else
    { s with epc := s.currentInsn, savedIrqEnable := s.irqEnable, irqEnable := 0, mcause := 0xb
             currentInsn := s.vectors (if c.priv110 then 0 else 32 + id) }

def issIrqHandleMret : Core := { s with irqEnable := s.savedIrqEnable, mcause := 0, currentInsn := s.epc }

def issIrqHandleDret : Core := { s with irqEnable := s.debugSavedIrqEnable, debugMode := false, currentInsn := s.depc }

end Core

/- The requests and the instructions without effect on the flags may come at any time. -/
inductive Action where
  | write (value : Word)
  | check
  | raise (id : Nat)
  | mret
  | dret
  | irqReq (irq : Int)
  | debugReq
  | other (currentInsn : Word) (elwInsn : Option Word)

def step (c : Config) (s : Core) : Action → Core
  | .write value => s.mstatusWrite c value
  | .check => s.issIrqCheck
  | .raise id => s.issExceptRaise c id
  | .mret => s.issIrqHandleMret
  | .dret => s.issIrqHandleDret
  | .irqReq irq => { s with reqIrq := irq }
  | .debugReq => { s with reqDebug := true }
  | .other currentInsn elwInsn => { s with currentInsn := currentInsn, elwInsn := elwInsn }

/- A reset leaves the two saved flags as they are. -/
structure Reset (s : Core) : Prop where
  status : s.status = 3#32 <<< 11
  irqEnable : s.irqEnable = 0

def Coherent (s : Core) : Prop :=
  (s.mstatusRead >>> 3) &&& 1#32 = s.irqEnable ∧ (s.mstatusRead >>> 7) &&& 1#32 = s.savedIrqEnable

def Flag (x : Word) : Prop := x = 0#32 ∨ x = 1#32

section Steps

variable {c : Config} {s : Core}

def Stale (s : Core) : Prop := s.status.getLsbD 7 = true ∧ s.savedIrqEnable = 0#32

theorem lowBit (x : Word) : x &&& 1#32 = if x.getLsbD 0 then 1#32 else 0#32 := by
  apply BitVec.eq_of_getLsbD_eq
  intro k small
  rw [BitVec.getLsbD_and, BitVec.getLsbD_one]
  by_cases zero : k = 0
  · subst zero
    cases x.getLsbD 0 <;> rfl
  · cases x.getLsbD 0 <;> simp [zero]

theorem flagBit {x : Word} (flag : Flag x) (k : Nat) : x.getLsbD k = (decide (k = 0) && x.getLsbD 0) := by
  rcases flag with rfl | rfl
  · simp
  · rw [BitVec.getLsbD_one]
    by_cases zero : k = 0 <;> simp [zero]

theorem flagValue {x : Word} (flag : Flag x) : (if x.getLsbD 0 then 1#32 else 0#32) = x := by
  rcases flag with rfl | rfl <;> rfl

theorem lowFlag (x : Word) : Flag (x &&& 1#32) := by
  rw [lowBit]
  cases x.getLsbD 0
  · exact .inl rfl
  · exact .inr rfl

theorem readBit (irq : Flag s.irqEnable) :
    (s.mstatusRead >>> 3).getLsbD 0 = s.irqEnable.getLsbD 0 ∧
      (s.mstatusRead >>> 7).getLsbD 0 = (s.status.getLsbD 7 || s.savedIrqEnable.getLsbD 0) := by
  constructor
  · rw [BitVec.getLsbD_ushiftRight, Core.mstatusRead, BitVec.getLsbD_or, BitVec.getLsbD_or, BitVec.getLsbD_and,
      BitVec.getLsbD_shiftLeft, BitVec.getLsbD_shiftLeft]
    simp
  · rw [BitVec.getLsbD_ushiftRight, Core.mstatusRead, BitVec.getLsbD_or, BitVec.getLsbD_or, BitVec.getLsbD_and,
      BitVec.getLsbD_shiftLeft, BitVec.getLsbD_shiftLeft, flagBit irq]
    simp

theorem coherentWhen (s : Core) : Coherent s ↔ Flag s.irqEnable ∧ Flag s.savedIrqEnable ∧ ¬Stale s := by
  constructor
  · rintro ⟨third, seventh⟩
    have irq : Flag s.irqEnable := third ▸ lowFlag _
    have saved : Flag s.savedIrqEnable := seventh ▸ lowFlag _
    refine ⟨irq, saved, fun ⟨bit, zero⟩ => ?_⟩
    rw [lowBit, (readBit irq).2, bit, zero] at seventh
    exact absurd seventh (by decide)
  · rintro ⟨irq, saved, fresh⟩
    constructor
    · rw [lowBit, (readBit irq).1, flagValue irq]
    · rw [lowBit, (readBit irq).2]
      cases bit : s.status.getLsbD 7 with
      | false => rw [Bool.false_or, flagValue saved]
      | true =>
          rcases saved with zero | one
          · exact absurd ⟨bit, zero⟩ fresh
          · rw [one]
            rfl

/- The steps after which a read may be wrong: an exception with the interrupts disabled that loses a saved flag, and the
end of a debug session that has not begun. -/
def Safe (c : Config) (s : Core) : Action → Prop
  | .raise id => (c.priv110 = true ∧ id = 3) ∨ ¬(s.status.getLsbD 7 = true ∧ s.irqEnable = 0#32)
  | .dret => Flag s.debugSavedIrqEnable
  | _ => True

theorem writeCoherent (c : Config) (s : Core) (value : Word) : Coherent (s.mstatusWrite c value) := by
  rw [coherentWhen]
  refine ⟨lowFlag _, lowFlag _, ?_⟩
  rintro ⟨bit, zero⟩
  change (value >>> 7) &&& 1#32 = 0#32 at zero
  rw [lowBit] at zero
  have clear : value.getLsbD 7 = false := by
    cases high : value.getLsbD 7 with
    | false => rfl
    | true =>
        rw [BitVec.getLsbD_ushiftRight, high] at zero
        exact absurd zero (by decide)
  simp only [Core.mstatusWrite, BitVec.getLsbD_or, BitVec.getLsbD_and, clear, Bool.false_and, Bool.false_or] at bit
  cases secure : c.secure <;> simp [secure] at bit

theorem stepCoherent (a : Action) (before : Coherent s) : Coherent (step c s a) ↔ Safe c s a := by
  have stored := (coherentWhen s).mp before
  obtain ⟨irq, saved, fresh⟩ := stored
  have disabled : Flag 0#32 := .inl rfl
  cases a with
  | write value => exact iff_of_true (writeCoherent c s value) trivial
  | irqReq req => exact iff_of_true before trivial
  | debugReq => exact iff_of_true before trivial
  | other currentInsn elwInsn => exact iff_of_true before trivial
  | mret => exact iff_of_true ((coherentWhen _).mpr ⟨saved, saved, fresh⟩) trivial
  | dret =>
      rw [coherentWhen]
      exact ⟨fun stored => stored.1, fun flag => ⟨flag, saved, fresh⟩⟩
  | check =>
      refine iff_of_true ?_ trivial
      change Coherent s.issIrqCheck
      unfold Core.issIrqCheck
      split_ifs with debug taken
      · exact (coherentWhen _).mpr ⟨disabled, saved, fresh⟩
      · -- the saved flag is the one that let the interrupt in
        exact (coherentWhen _).mpr ⟨disabled, irq, fun stale => taken.2 stale.2⟩
      · exact before
  | raise id =>
      change Coherent (s.issExceptRaise c id) ↔ (c.priv110 = true ∧ id = 3) ∨ ¬(s.status.getLsbD 7 = true ∧ s.irqEnable = 0#32)
      by_cases debug : c.priv110 = true ∧ id = 3
      · have special : (c.priv110 && id == 3) = true := by simp [debug]
        rw [Core.issExceptRaise, if_pos special]
        exact iff_of_true ((coherentWhen _).mpr ⟨disabled, saved, fresh⟩) (.inl debug)
      · have ordinary : ¬(c.priv110 && id == 3) = true := by simpa using debug
        rw [Core.issExceptRaise, if_neg ordinary, coherentWhen, or_iff_right debug]
        exact ⟨fun stored => stored.2.2, fun kept => ⟨disabled, irq, kept⟩⟩

end Steps

section Runs

variable {c : Config}

def run (c : Config) : Core → List Action → Core := Runs.run (step c)

def AllSafe (c : Config) : Core → List Action → Prop := Runs.AllSteps (step c) (Safe c)

theorem runCoherent {s : Core} (before : Coherent s) (actions : List Action) :
    (∀ n, Coherent (run c s (actions.take n))) ↔ AllSafe c s actions := by
  unfold run AllSafe
  exact Runs.alwaysIff (I := fun _ => True) (fun _ a _ start => stepCoherent a start) (fun _ _ _ => trivial) trivial before actions

theorem resetCoherent {s : Core} (reset : Reset s) : Coherent s ↔ Flag s.savedIrqEnable := by
  rw [coherentWhen, reset.irqEnable]
  constructor
  · exact fun stored => stored.2.1
  · intro saved
    refine ⟨.inl rfl, saved, fun ⟨bit, _⟩ => ?_⟩
    rw [reset.status] at bit
    exact absurd bit (by decide)

/- In every state of a run after a reset a read has both flags, if and only if all steps are safe. -/
theorem mstatusCoherent {s : Core} (reset : Reset s) (actions : List Action) :
    (∀ n, Coherent (run c s (actions.take n))) ↔ Flag s.savedIrqEnable ∧ AllSafe c s actions := by
  constructor
  · intro all
    have first : Coherent s := all 0
    exact ⟨(resetCoherent reset).mp first, (runCoherent first actions).mp all⟩
  · rintro ⟨saved, safe⟩
    exact (runCoherent ((resetCoherent reset).mpr saved) actions).mpr safe

def started : Core :=
  { status := 3#32 <<< 11, epc := 0, depc := 0, mcause := 0, irqEnable := 0, savedIrqEnable := 0, debugSavedIrqEnable := 0
    reqIrq := -1, reqDebug := false, debugMode := false, currentInsn := 0, elwInsn := none, elwInterrupted := false
    vectors := fun _ => 0, debugHandler := 0 }

theorem mstatusCoherentInterrupt : Coherent (run ⟨false, true⟩ started ([.write 0x8, .irqReq 5, .check, .mret].take 4)) :=
  (mstatusCoherent ⟨rfl, rfl⟩ [.write 0x8, .irqReq 5, .check, .mret]).mpr ⟨.inl rfl, by simp [AllSafe, Runs.AllSteps, Safe]⟩ 4

/- The saved flag is set by a write, and an exception saves that the interrupts are disabled. -/
theorem savedFlagStays : Reset started ∧ ¬Coherent (run ⟨false, true⟩ started [.write 0x80, .raise 2]) :=
  ⟨⟨rfl, rfl⟩, fun coherent => absurd coherent.2 (by decide)⟩

end Runs

end Gvsoc.Mstatus
