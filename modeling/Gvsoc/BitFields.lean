import Gvsoc.CShift
import Gvsoc.Rv32iSpec

/-! The bit-field instructions of `pulp_v2.hpp`, in their forms with immediates and with a register that has the width
and the shift. -/
namespace Gvsoc.Isa
open CShift (shl shr)

section Library

def getField (val : Word) (shift bits : Nat) : Option Word := issGetField val shift bits

def getSignedField (val : Word) (shift bits : Nat) : Option Word := do
  issGetSignedValue (← getField val shift bits) bits

def libBset (val mask : Word) : Word := val ||| mask

def libBclr (val mask : Word) : Word := val &&& ~~~mask

def libBextract (val bits shift : Word) : Option Word :=
  let bits := if 32 < shift + bits then 32 - shift else bits
  getSignedField val shift.toNat bits.toNat

def libBextractu (val mask shift : Word) : Option Word := shr (val &&& mask) shift.toNat

def libBinsert (a b mask shift : Word) : Option Word := do
  some ((b &&& ~~~mask) ||| ((← shl a shift.toNat) &&& mask))

end Library

section Handlers

def immediateField (insn : Insn) (_ : Cpu) : Option (Word × Word) := do
  some ((← insn.uim 0) + 1, ← insn.uim 1)

def registerField (i : Nat) (insn : Insn) (s : Cpu) : Option (Word × Word) := do
  let reg ← regGet insn s i
  some ((reg >>> 5 &&& 0x1f) + 1, reg &&& 0x1f)

/- `((1ULL << width) - 1) << shift`, as an `unsigned int`. -/
def fieldMask (width shift : Word) : Option Word := do
  let one ← shl 1#64 width.toNat
  let mask ← shl (one - 1#64) shift.toNat
  some (mask.setWidth 32)

abbrev Field := Insn → Cpu → Option (Word × Word)

def bclrs (field : Field) : Handler := computes fun insn s => do
  let (width, shift) ← field insn s
  some (libBclr (← regGet insn s 0) (← fieldMask width shift))

def bsets (field : Field) : Handler := computes fun insn s => do
  let (width, shift) ← field insn s
  some (libBset (← regGet insn s 0) (← fieldMask width shift))

def extracts (field : Field) : Handler := computes fun insn s => do
  let (width, shift) ← field insn s
  libBextract (← regGet insn s 0) width shift

def extractus (field : Field) : Handler := computes fun insn s => do
  let (width, shift) ← field insn s
  libBextractu (← regGet insn s 0) (← fieldMask width shift) shift

def inserts (field : Field) : Handler := computes fun insn s => do
  let (width, shift) ← field insn s
  libBinsert (← regGet insn s 0) (← regGet insn s 1) (← fieldMask width shift) shift

def pBclriExec : Handler := bclrs immediateField

def pBclrExec : Handler := bclrs (registerField 1)

def pExtractiExec : Handler := extracts immediateField

def pExtractuiExec : Handler := extractus immediateField

def pExtractExec : Handler := extracts (registerField 1)

def pExtractuExec : Handler := extractus (registerField 1)

def pInsertiExec : Handler := inserts immediateField

def pInsertExec : Handler := inserts (registerField 2)

def pBsetiExec : Handler := bsets immediateField

def pBsetExec : Handler := bsets (registerField 1)

end Handlers

inductive FieldOp where
  | extract
  | extractu
  | insert
  | bset
  | bclr
  deriving DecidableEq

def FieldOp.handler : FieldOp → Bool → Handler
  | .extract, immediate => if immediate then pExtractiExec else pExtractExec
  | .extractu, immediate => if immediate then pExtractuiExec else pExtractuExec
  | .insert, immediate => if immediate then pInsertiExec else pInsertExec
  | .bset, immediate => if immediate then pBsetiExec else pBsetExec
  | .bclr, immediate => if immediate then pBclriExec else pBclrExec

namespace Spec

def covers (width shift k : Nat) : Bool := decide (shift ≤ k ∧ k < shift + min width (32 - shift))

def fieldBit (op : FieldOp) (width shift : Nat) (a b : Word) (k : Nat) : Bool :=
  match op with
  | .extract => a.getLsbD (shift + min k (min width (32 - shift) - 1))
  | .extractu => decide (k < min width (32 - shift)) && a.getLsbD (shift + k)
  | .insert => if covers width shift k then a.getLsbD (k - shift) else b.getLsbD k
  | .bset => covers width shift k || a.getLsbD k
  | .bclr => !covers width shift k && a.getLsbD k

end Spec

section Values

variable {width shift : Nat}

theorem wordNumber {n : Nat} (small : n ≤ 32) : (BitVec.ofNat 32 n).toNat = n := by
  rw [BitVec.toNat_ofNat, Nat.mod_eq_of_lt (by omega)]

theorem fieldMaskBit (narrow : width ≤ 32) (inside : shift < 32) :
    ∃ mask, fieldMask (BitVec.ofNat 32 width) (BitVec.ofNat 32 shift) = some mask ∧
      ∀ k < 32, mask.getLsbD k = Spec.covers width shift k := by
  unfold fieldMask
  rw [wordNumber narrow, wordNumber (by omega)]
  simp only [CShift.shlBelow (by omega : width < 64), CShift.shlBelow (by omega : shift < 64), Option.bind_eq_bind, Option.bind_some]
  refine ⟨_, rfl, fun k small => ?_⟩
  have ones := CShift.onesBit (w := 64) (by omega : width < 64) (k - shift)
  rw [BitVec.getLsbD_setWidth, BitVec.getLsbD_shiftLeft, ones]
  by_cases reached : shift ≤ k
  · have same : k - shift < width ↔ k < shift + min width (32 - shift) := by omega
    simp [Spec.covers, small, (by omega : k < 64), Nat.not_lt.mpr reached, reached, same]
  · simp [Spec.covers, Nat.lt_of_not_le reached, reached]

theorem extractBits (narrow : width ≤ 32) (inside : shift < 32) :
    (if 32 < BitVec.ofNat 32 shift + BitVec.ofNat 32 width then 32 - BitVec.ofNat 32 shift else BitVec.ofNat 32 width : Word).toNat =
      min width (32 - shift) := by
  have sum : (BitVec.ofNat 32 shift + BitVec.ofNat 32 width).toNat = shift + width := by
    rw [BitVec.toNat_add, wordNumber (by omega), wordNumber narrow, Nat.mod_eq_of_lt (by omega)]
  have limit : 32 < BitVec.ofNat 32 shift + BitVec.ofNat 32 width ↔ 32 < shift + width := by
    rw [BitVec.lt_def, sum]
    rfl
  by_cases past : 32 < shift + width
  · have less : BitVec.ofNat 32 shift ≤ 32 := by
      rw [BitVec.le_def, wordNumber (by omega)]
      exact Nat.le_of_lt inside
    rw [if_pos (limit.mpr past), BitVec.toNat_sub_of_le less, wordNumber (by omega)]
    change 32 - shift = _
    omega
  · rw [if_neg (mt limit.mp past), wordNumber narrow]
    omega

theorem signedFieldBit (a : Word) {bits : Nat} (inside : shift < 32) (some : 0 < bits) (short : bits < 32) :
    ∃ value, getSignedField a shift bits = Option.some value ∧
      ∀ k < 32, value.getLsbD k = a.getLsbD (shift + min k (bits - 1)) := by
  refine ⟨(((a.extractLsb' shift bits).setWidth 32).setWidth bits).signExtend 32, ?_, fun k small => ?_⟩
  · rw [getSignedField, getField, getFieldSlice inside short, Option.bind_eq_bind, Option.bind_some,
      getSignedExtend some (Nat.le_of_lt short)]
  · have field (j : Nat) (low : j < bits) :
        (((a.extractLsb' shift bits).setWidth 32).setWidth bits).getLsbD j = a.getLsbD (shift + j) := by
      simp [low, (by omega : j < 32)]
    rw [BitVec.getLsbD_signExtend, BitVec.msb_eq_getLsbD_last, field (bits - 1) (by omega)]
    by_cases low : k < bits
    · rw [if_pos low, field k low, Nat.min_eq_left (by omega)]
      simp [small]
    · rw [if_neg low, Nat.min_eq_right (by omega)]
      simp [small]

/- A field of all 32 bits cannot be masked by an `int`. -/
theorem extractMeets (a b : Word) (some : 1 ≤ width) (narrow : width ≤ 32) (inside : shift < 32) :
    (∃ value, libBextract a (BitVec.ofNat 32 width) (BitVec.ofNat 32 shift) = Option.some value ∧
      ∀ k < 32, value.getLsbD k = Spec.fieldBit .extract width shift a b k) ↔ ¬(width = 32 ∧ shift = 0) := by
  simp only [libBextract, extractBits narrow inside, wordNumber (Nat.le_of_lt inside)]
  constructor
  · rintro ⟨value, made, -⟩ ⟨rfl, rfl⟩
    cases made
  · intro part
    exact signedFieldBit a inside (by omega) (by omega)

theorem extractuMeets (a b : Word) (narrow : width ≤ 32) (inside : shift < 32) :
    ∃ mask, fieldMask (BitVec.ofNat 32 width) (BitVec.ofNat 32 shift) = Option.some mask ∧
      ∃ value, libBextractu a mask (BitVec.ofNat 32 shift) = Option.some value ∧
        ∀ k < 32, value.getLsbD k = Spec.fieldBit .extractu width shift a b k := by
  obtain ⟨mask, made, bits⟩ := fieldMaskBit narrow inside
  refine ⟨mask, made, (a &&& mask) >>> shift, ?_, fun k small => ?_⟩
  · rw [libBextractu, wordNumber (Nat.le_of_lt inside), CShift.shrBelow inside]
  · rw [BitVec.getLsbD_ushiftRight, BitVec.getLsbD_and, Spec.fieldBit, Bool.and_comm]
    by_cases low : shift + k < 32
    · rw [bits _ low, Spec.covers]
      simp
    · rw [BitVec.getLsbD_of_ge a _ (by omega), Bool.and_false, Bool.and_false]

theorem insertMeets (a b : Word) (narrow : width ≤ 32) (inside : shift < 32) :
    ∃ mask, fieldMask (BitVec.ofNat 32 width) (BitVec.ofNat 32 shift) = Option.some mask ∧
      ∃ value, libBinsert a b mask (BitVec.ofNat 32 shift) = Option.some value ∧
        ∀ k < 32, value.getLsbD k = Spec.fieldBit .insert width shift a b k := by
  obtain ⟨mask, made, bits⟩ := fieldMaskBit narrow inside
  refine ⟨mask, made, (b &&& ~~~mask) ||| ((a <<< shift) &&& mask), ?_, fun k small => ?_⟩
  · rw [libBinsert, wordNumber (Nat.le_of_lt inside), CShift.shlBelow inside]
    rfl
  · rw [BitVec.getLsbD_or, BitVec.getLsbD_and, BitVec.getLsbD_and, BitVec.getLsbD_not, BitVec.getLsbD_shiftLeft, bits k small,
      Spec.fieldBit]
    by_cases covered : Spec.covers width shift k = true
    · have reached : shift ≤ k := (of_decide_eq_true covered).1
      simp [covered, small, Nat.not_lt.mpr reached]
    · simp [covered, small]

theorem bsetMeets (a b : Word) (narrow : width ≤ 32) (inside : shift < 32) :
    ∃ mask, fieldMask (BitVec.ofNat 32 width) (BitVec.ofNat 32 shift) = Option.some mask ∧
      ∀ k < 32, (libBset a mask).getLsbD k = Spec.fieldBit .bset width shift a b k := by
  obtain ⟨mask, made, bits⟩ := fieldMaskBit narrow inside
  refine ⟨mask, made, fun k small => ?_⟩
  rw [libBset, BitVec.getLsbD_or, bits k small, Bool.or_comm]
  rfl

theorem bclrMeets (a b : Word) (narrow : width ≤ 32) (inside : shift < 32) :
    ∃ mask, fieldMask (BitVec.ofNat 32 width) (BitVec.ofNat 32 shift) = Option.some mask ∧
      ∀ k < 32, (libBclr a mask).getLsbD k = Spec.fieldBit .bclr width shift a b k := by
  obtain ⟨mask, made, bits⟩ := fieldMaskBit narrow inside
  refine ⟨mask, made, fun k small => ?_⟩
  rw [libBclr, BitVec.getLsbD_and, BitVec.getLsbD_not, bits k small, Bool.and_comm]
  simp [small, Spec.fieldBit]

end Values

section Instructions

def FieldOp.fieldReg : FieldOp → Nat
  | .insert => 2
  | _ => 1

structure Encodes (op : FieldOp) (immediate : Bool) (insn : Insn) (s : Cpu) (width shift : Nat) : Prop where
  some : 1 ≤ width
  narrow : width ≤ 32
  inside : shift < 32
  immediates : immediate = true →
    insn.uim 0 = Option.some (BitVec.ofNat 32 (width - 1)) ∧ insn.uim 1 = Option.some (BitVec.ofNat 32 shift)
  register : immediate = false → ∃ r, insn.inRegs op.fieldReg = Option.some r ∧
    (s.regs r).toNat / 32 % 32 = width - 1 ∧ (s.regs r).toNat % 32 = shift

def ExtractsField (op : FieldOp) (immediate : Bool) (insn : Insn) (s : Cpu) (width shift : Nat) (a b d : Nat) : Prop :=
  ∃ value, op.handler immediate insn s = some (issSetReg s d value, insn.next) ∧
    ∀ k < 32, value.getLsbD k = Spec.fieldBit op width shift (s.regs a) (s.regs b) k

variable {op : FieldOp} {immediate : Bool} {insn : Insn} {s : Cpu} {width shift a b d : Nat}

theorem immediateRead (encodes : Encodes op true insn s width shift) :
    immediateField insn s = some (BitVec.ofNat 32 width, BitVec.ofNat 32 shift) := by
  obtain ⟨first, second⟩ := encodes.immediates rfl
  have wide : BitVec.ofNat 32 (width - 1) + 1 = BitVec.ofNat 32 width := by
    have some := encodes.some
    have narrow := encodes.narrow
    apply BitVec.eq_of_toNat_eq
    rw [BitVec.toNat_add, wordNumber (by omega), wordNumber narrow]
    change (width - 1 + 1) % 2 ^ 32 = width
    omega
  rw [immediateField, first, second, ← wide]
  rfl

theorem registerRead (encodes : Encodes op false insn s width shift) :
    registerField op.fieldReg insn s = some (BitVec.ofNat 32 width, BitVec.ofNat 32 shift) := by
  obtain ⟨r, reg, high, low⟩ := encodes.register rfl
  have some := encodes.some
  have narrow := encodes.narrow
  have mask (x : Word) : (x &&& 0x1f).toNat = x.toNat % 32 := by
    rw [BitVec.toNat_and]
    exact Nat.and_two_pow_sub_one_eq_mod x.toNat 5
  have wide : (s.regs r >>> 5 &&& 0x1f) + 1 = BitVec.ofNat 32 width := by
    apply BitVec.eq_of_toNat_eq
    rw [BitVec.toNat_add, mask, BitVec.toNat_ushiftRight, Nat.shiftRight_eq_div_pow, wordNumber narrow]
    change ((s.regs r).toNat / 32 % 32 + 1) % 2 ^ 32 = width
    omega
  have place : s.regs r &&& 0x1f = BitVec.ofNat 32 shift := by
    apply BitVec.eq_of_toNat_eq
    rw [mask, wordNumber (Nat.le_of_lt encodes.inside), low]
  rw [registerField, regGet, reg, Option.map_some, Option.bind_eq_bind, Option.bind_some, wide, place]

def fieldOf (op : FieldOp) (immediate : Bool) : Field := if immediate then immediateField else registerField op.fieldReg

theorem fieldRead (encodes : Encodes op immediate insn s width shift) :
    fieldOf op immediate insn s = some (BitVec.ofNat 32 width, BitVec.ofNat 32 shift) := by
  cases immediate with
  | true => exact immediateRead encodes
  | false => exact registerRead encodes

/- The ten handlers are five, by their fields. -/
theorem handlerField (op : FieldOp) (immediate : Bool) :
    op.handler immediate = match op with
      | .extract => extracts (fieldOf op immediate)
      | .extractu => extractus (fieldOf op immediate)
      | .insert => inserts (fieldOf op immediate)
      | .bset => bsets (fieldOf op immediate)
      | .bclr => bclrs (fieldOf op immediate) := by
  cases op <;> cases immediate <;> rfl

/- The mask of the extraction with a sign is made by an `int`, and not with 64 bits as all others. -/
theorem fieldsMeet (encodes : Encodes op immediate insn s width shift) (target : insn.outRegs 0 = some d)
    (source : insn.inRegs 0 = some a) (second : op = .insert → insn.inRegs 1 = some b) :
    ExtractsField op immediate insn s width shift a b d ↔ ¬(op = .extract ∧ width = 32 ∧ shift = 0) := by
  have field := fieldRead encodes
  have narrow := encodes.narrow
  have inside := encodes.inside
  have value : regGet insn s 0 = some (s.regs a) := by rw [regGet, source, Option.map_some]
  unfold ExtractsField
  rw [handlerField]
  cases op with
  | extract =>
      have meets := extractMeets (s.regs a) (s.regs b) encodes.some narrow inside
      have made : extracts (fieldOf .extract immediate) insn s =
          (libBextract (s.regs a) (BitVec.ofNat 32 width) (BitVec.ofNat 32 shift)).map fun result =>
            (issSetReg s d result, insn.next) := by
        simp only [extracts, computes, field, value, regSet, target, Option.bind_eq_bind, Option.bind_some, Option.map_some]
        cases libBextract (s.regs a) (BitVec.ofNat 32 width) (BitVec.ofNat 32 shift) <;> rfl
      simp only [true_and, made]
      rw [← meets]
      constructor
      · rintro ⟨result, ran, -⟩
        obtain ⟨other, extracted, -⟩ := Option.map_eq_some_iff.mp ran
        refine meets.mpr fun whole => ?_
        rw [whole.1, whole.2] at extracted
        cases extracted
      · rintro ⟨result, extracted, bits⟩
        exact ⟨result, by rw [extracted]; rfl, bits⟩
  | extractu =>
      obtain ⟨mask, masks, result, extracted, bits⟩ := extractuMeets (s.regs a) (s.regs b) narrow inside
      refine iff_of_true ⟨result, computesWrites ?_ target, bits⟩ (by simp)
      simp only [field, value, masks, extracted, Option.bind_eq_bind, Option.bind_some]
  | insert =>
      obtain ⟨mask, masks, result, inserted, bits⟩ := insertMeets (s.regs a) (s.regs b) narrow inside
      have base : regGet insn s 1 = some (s.regs b) := by rw [regGet, second rfl, Option.map_some]
      refine iff_of_true ⟨result, computesWrites ?_ target, bits⟩ (by simp)
      simp only [field, value, base, masks, inserted, Option.bind_eq_bind, Option.bind_some]
  | bset =>
      obtain ⟨mask, masks, bits⟩ := bsetMeets (s.regs a) (s.regs b) narrow inside
      refine iff_of_true ⟨_, computesWrites ?_ target, bits⟩ (by simp)
      simp only [field, value, masks, Option.bind_eq_bind, Option.bind_some]
  | bclr =>
      obtain ⟨mask, masks, bits⟩ := bclrMeets (s.regs a) (s.regs b) narrow inside
      refine iff_of_true ⟨_, computesWrites ?_ target, bits⟩ (by simp)
      simp only [field, value, masks, Option.bind_eq_bind, Option.bind_some]

def extractInsn (uim : Word) : Insn := { twoRegsUnsigned 4 0 3 1 uim with uim := fun i => if i = 0 then some uim else some 0 }

theorem fieldsMeetShort : ExtractsField .extract true (extractInsn 30) (quietCpu fun _ => 0) 31 0 1 0 3 :=
  (fieldsMeet ⟨by decide, by decide, by decide, fun _ => ⟨rfl, rfl⟩, fun other => by cases other⟩ rfl rfl (fun other => by cases other)).mpr
    (by decide)

theorem wholeWordExtracted : Encodes .extract true (extractInsn 31) (quietCpu fun r => if r = 1 then 5 else 0) 32 0 ∧
    ¬ExtractsField .extract true (extractInsn 31) (quietCpu fun r => if r = 1 then 5 else 0) 32 0 1 0 3 := by
  refine ⟨⟨by decide, by decide, by decide, fun _ => ⟨rfl, rfl⟩, fun other => by cases other⟩, ?_⟩
  rintro ⟨value, ran, -⟩
  cases ran

end Instructions

end Gvsoc.Isa
