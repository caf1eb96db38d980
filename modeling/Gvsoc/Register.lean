import Gvsoc.CShift

/-! The registers of `vp/register.hpp`, of 8, 16 and 32 bits, and the fields in them. -/
namespace Gvsoc.Register
open CShift

section Fields

variable {w : Nat}

/- The family of `set_field`. The mask has 64 bits; the value is shifted as an `int` or an `unsigned int`, and extended
with or without its sign. -/
def setFieldOf (extend : BitVec 32 → BitVec 64) (old value : BitVec w) (offset width : Nat) : Option (BitVec w) := do
  let one ← shl 1#64 width
  let mask ← shl (one - 1#64) offset
  let placed ← shl (value.setWidth 32) offset
  some (((old.setWidth 64 &&& ~~~mask) ||| extend placed).setWidth w)

/- The family of `get_field`. A value that is promoted to an `int` is not negative. -/
def getFieldOf (old : BitVec w) (offset width : Nat) : Option (BitVec w) := do
  let down ← shr (old.setWidth 32) offset
  let one ← shl 1#32 width
  some ((down &&& (one - 1#32)).setWidth w)

end Fields

namespace Reg8

def setField : BitVec 8 → BitVec 8 → Nat → Nat → Option (BitVec 8) := setFieldOf (·.signExtend 64)

def getField : BitVec 8 → Nat → Nat → Option (BitVec 8) := getFieldOf

end Reg8

namespace Reg16

def setField : BitVec 16 → BitVec 16 → Nat → Nat → Option (BitVec 16) := setFieldOf (·.signExtend 64)

def getField : BitVec 16 → Nat → Nat → Option (BitVec 16) := getFieldOf

end Reg16

namespace Reg32

def setField : BitVec 32 → BitVec 32 → Nat → Nat → Option (BitVec 32) := setFieldOf (·.setWidth 64)

def getField : BitVec 32 → Nat → Nat → Option (BitVec 32) := getFieldOf

end Reg32

section Law

variable {w : Nat}

def FieldLaw (set : BitVec w → BitVec w → Nat → Nat → Option (BitVec w)) (get : BitVec w → Nat → Nat → Option (BitVec w))
    (old value : BitVec w) (offset width : Nat) : Prop :=
  ∃ new field, set old value offset width = some new ∧ get new offset width = some field ∧
    field.toNat = value.toNat % 2 ^ width ∧
    ∀ k < w, k < offset ∨ offset + width ≤ k → new.getLsbD k = old.getLsbD k

/- The bits of the value above the field are set in the register already, where they come to stand. -/
def Absorbed (old value : BitVec w) (offset width : Nat) : Prop :=
  ∀ k, width ≤ k → offset + k < w → value.getLsbD k = true → old.getLsbD (offset + k) = true

variable {extend : BitVec 32 → BitVec 64} {old value : BitVec w} {offset width : Nat}

/- The new register: the value is put over what remains, not cut to the field. -/
theorem setFieldBit (old value : BitVec w) (same : ∀ x k, k < 32 → (extend x).getLsbD k = x.getLsbD k) (narrow : w ≤ 32)
    (some : 1 ≤ width) (inside : offset + width ≤ w) :
    ∃ new, setFieldOf extend old value offset width = Option.some new ∧ ∀ k < w,
      new.getLsbD k = (old.getLsbD k && !decide (offset ≤ k ∧ k < offset + width) || decide (offset ≤ k) && value.getLsbD (k - offset)) := by
  unfold setFieldOf
  simp only [shlBelow (by omega : width < 64), shlBelow (by omega : offset < 64), shlBelow (by omega : offset < 32),
    Option.bind_eq_bind, Option.bind_some]
  refine ⟨_, rfl, fun k below => ?_⟩
  have mask := onesBit (w := 64) (by omega : width < 64) (k - offset)
  rw [BitVec.getLsbD_setWidth, BitVec.getLsbD_or, BitVec.getLsbD_and, BitVec.getLsbD_not, BitVec.getLsbD_setWidth,
    same _ _ (by omega), BitVec.getLsbD_shiftLeft, BitVec.getLsbD_shiftLeft, BitVec.getLsbD_setWidth, mask]
  have far : k < 64 := by omega
  have near : k < 32 := by omega
  have inner : k - offset < 32 := by omega
  by_cases reached : offset ≤ k
  · have member : k - offset < width ↔ k < offset + width := by omega
    simp [below, far, near, inner, reached, Nat.not_lt.mpr reached, member]
  · simp [below, far, near, reached, Nat.lt_of_not_le reached]

theorem getFieldBit (old : BitVec w) (narrow : w ≤ 32) (some : 1 ≤ width) (inside : offset + width ≤ w) (short : width < 32) :
    ∃ field, getFieldOf old offset width = Option.some field ∧
      ∀ k, field.getLsbD k = (decide (k < width) && old.getLsbD (offset + k)) := by
  unfold getFieldOf
  simp only [shrBelow (by omega : offset < 32), shlBelow short, Option.bind_eq_bind, Option.bind_some]
  refine ⟨_, rfl, fun k => ?_⟩
  rw [BitVec.getLsbD_setWidth, BitVec.getLsbD_and, onesBit short, BitVec.getLsbD_ushiftRight, BitVec.getLsbD_setWidth]
  by_cases inner : k < width
  · simp [inner, (by omega : k < w), (by omega : offset + k < 32)]
  · simp [inner]

/- A mask of 32 ones cannot be made by an `int` that is shifted. -/
theorem getFieldWhole (old : BitVec w) (long : 32 ≤ width) : getFieldOf old offset width = none := by
  unfold getFieldOf
  rw [shlBeyond long]
  cases shr (old.setWidth 32) offset <;> rfl

theorem fieldReads {new field : BitVec w}
    (read : ∀ k, field.getLsbD k = (decide (k < width) && new.getLsbD (offset + k)))
    (written : ∀ k < width, new.getLsbD (offset + k) = value.getLsbD k) : field.toNat = value.toNat % 2 ^ width := by
  apply Nat.eq_of_testBit_eq
  intro k
  rw [Nat.testBit_mod_two_pow]
  change field.getLsbD k = (decide (k < width) && value.getLsbD k)
  rw [read]
  by_cases inner : k < width
  · rw [written k inner]
  · simp [inner]

theorem fieldWhen (same : ∀ x k, k < 32 → (extend x).getLsbD k = x.getLsbD k) (narrow : w ≤ 32) (some : 1 ≤ width)
    (inside : offset + width ≤ w) :
    FieldLaw (setFieldOf extend) getFieldOf old value offset width ↔ Absorbed old value offset width ∧ width < 32 := by
  obtain ⟨new, set, bits⟩ := setFieldBit old value same narrow some inside
  constructor
  · rintro ⟨written, field, again, got, -, kept⟩
    cases set.symm.trans again
    refine ⟨fun k above below bit => ?_, Nat.lt_of_not_le fun long => ?_⟩
    · have old := kept (offset + k) below (.inr (by omega))
      rw [bits (offset + k) below] at old
      rw [← old]
      simp [bit]
    · rw [getFieldWhole new long] at got
      cases got
  · rintro ⟨absorbed, short⟩
    obtain ⟨field, got, read⟩ := getFieldBit new narrow some inside short
    have written (k : Nat) (inner : k < width) : new.getLsbD (offset + k) = value.getLsbD k := by
      rw [bits (offset + k) (by omega)]
      simp [inner]
    refine ⟨new, field, set, got, fieldReads read written, fun k below outside => ?_⟩
    rw [bits k below]
    rcases outside with before | after
    · simp [Nat.not_le.mpr before]
    · have place : offset + (k - offset) = k := by omega
      have held := absorbed (k - offset) (by omega) (by omega)
      rw [place] at held
      cases bit : value.getLsbD (k - offset)
      · simp [Nat.not_lt.mpr after]
      · simp [held bit, (by omega : offset ≤ k)]

theorem fittingAbsorbed (fits : value.toNat < 2 ^ width) : Absorbed old value offset width := by
  intro k above _ bit
  have clear : value.toNat.testBit k = false :=
    Nat.testBit_lt_two_pow (Nat.lt_of_lt_of_le fits (Nat.pow_le_pow_right (by decide) above))
  exact absurd (bit.symm.trans clear) (by decide)

end Law

theorem signExtendBit (x : BitVec 32) (k : Nat) (low : k < 32) : (x.signExtend 64).getLsbD k = x.getLsbD k := by
  rw [BitVec.getLsbD_signExtend]
  simp [low, (by omega : k < 64)]

theorem zeroExtendBit (x : BitVec 32) (k : Nat) (low : k < 32) : (x.setWidth 64).getLsbD k = x.getLsbD k := by
  rw [BitVec.getLsbD_setWidth]
  simp [(by omega : k < 64)]

/- The value is not cut to the field, so its bits above are ored into what follows; a field of 32 bits cannot be read. -/
theorem fieldsWritten (offset width : Nat) (some : 1 ≤ width) :
    (offset + width ≤ 8 → ∀ old value, FieldLaw Reg8.setField Reg8.getField old value offset width ↔ Absorbed old value offset width) ∧
    (offset + width ≤ 16 → ∀ old value,
      FieldLaw Reg16.setField Reg16.getField old value offset width ↔ Absorbed old value offset width) ∧
    (offset + width ≤ 32 → ∀ old value,
      FieldLaw Reg32.setField Reg32.getField old value offset width ↔ Absorbed old value offset width ∧ width < 32) := by
  refine ⟨?_, ?_, ?_⟩
  · intro inside old value
    exact (fieldWhen signExtendBit (by decide) some inside).trans (and_iff_left (by omega))
  · intro inside old value
    exact (fieldWhen signExtendBit (by decide) some inside).trans (and_iff_left (by omega))
  · intro inside old value
    exact fieldWhen zeroExtendBit (by decide) some inside

theorem fieldsWrittenLow :
    FieldLaw Reg8.setField Reg8.getField 0 3 2 4 ∧ FieldLaw Reg16.setField Reg16.getField 0 3 2 4 ∧
      FieldLaw Reg32.setField Reg32.getField 0 3 2 4 :=
  have meets := fieldsWritten 2 4 (by decide)
  ⟨(meets.1 (by decide) 0 3).mpr (fittingAbsorbed (by decide)), (meets.2.1 (by decide) 0 3).mpr (fittingAbsorbed (by decide)),
    (meets.2.2 (by decide) 0 3).mpr ⟨fittingAbsorbed (by decide), by decide⟩⟩

/- A field of 4 bits in a register of zeros: the other four bits are set by it. -/
theorem fieldOverflows : ¬FieldLaw Reg8.setField Reg8.getField 0#8 0xff#8 0 4 := by
  rintro ⟨new, field, set, -, -, kept⟩
  have written : Reg8.setField 0#8 0xff#8 0 4 = some 0xff#8 := by decide
  cases written.symm.trans set
  exact absurd (kept 4 (by decide) (.inr (by decide))) (by decide)

end Gvsoc.Register
