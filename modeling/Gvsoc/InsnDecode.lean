import Gvsoc.Bytes
import Gvsoc.CShift
import Gvsoc.DecodeExact

/-! Decoding the operands of an instruction: the fields that its format takes from the opcode and the decoded instruction
with its registers, immediates and successors. What C leaves undefined gives nothing: a shift of some bits by the width
or more, an operand that was not set. -/
namespace Gvsoc.Isa
open Bytes (Byte)
open CShift (shl shr sar)

abbrev Word := BitVec 32

section Fields

structure Range where
  bit : Nat
  width : Nat
  shift : Nat := 0

inductive Info where
  | range (ranges : List Range)
  | const (value : Nat)

def issGetField (val : Word) (shift bits : Nat) : Option Word := do
  let field ← shr val shift
  let mask ← shl 1 bits
  some (field &&& (mask - 1))

/- A zero stays a zero by whatever amount a machine shifts it, also by the 32 of a value that has no bits. -/
def issGetSignedValue (val : Word) (bits : Nat) : Option Word :=
  if val = 0 then some 0 else do sar (← shl val (32 - bits)) (32 - bits)

def decodeRange (opcode : Word) (found : Word × Nat) (range : Range) : Option (Word × Nat) := do
  let field ← issGetField opcode range.bit range.width
  let placed ← shl field range.shift
  some (found.1 ||| placed, max found.2 (range.width + range.shift))

def decodeRanges (opcode : Word) (ranges : List Range) (isSigned : Bool) : Option Word := do
  let (result, bits) ← ranges.foldlM (decodeRange opcode) (0#32, 0)
  if isSigned then issGetSignedValue result bits else some result

def decodeInfo (opcode : Word) (info : Info) (isSigned : Bool) : Option Word :=
  match info with
  | .range ranges => decodeRanges opcode ranges isSigned
  | .const value => some (BitVec.ofNat 32 value)

/- The range set of a constant: the two share their memory, so that the constant is read as the number of ranges, and
these are zero. -/
def Info.rangeSet : Info → List Range
  | .range ranges => ranges
  | .const value => List.replicate value ⟨0, 0, 0⟩

end Fields

section Operands

structure RegArg where
  id : Nat
  info : Info
  compressed : Bool := false

structure ImmArg where
  id : Nat
  info : Info
  isSigned : Bool

inductive Arg where
  | outReg (reg : RegArg)
  | inReg (reg : RegArg)
  | unsignedImm (imm : ImmArg)
  | signedImm (imm : ImmArg)
  | indirect (reg : RegArg) (imm : ImmArg)

abbrev Slot := BitVec 31

def Slot.addr (slot : Slot) : Word := slot ++ 0#1

def insnCacheGet (pc : Word) : Slot := pc.extractLsb' 1 31

structure Insn where
  slot : Slot
  size : Nat
  outRegs : Nat → Option Nat := fun _ => none
  inRegs : Nat → Option Nat := fun _ => none
  uim : Nat → Option Word := fun _ => none
  sim : Nat → Option Word := fun _ => none
  next : Slot
  branch : Option Slot := none

def decodeReg (opcode : Word) (reg : RegArg) : Option Nat := do
  let index ← decodeInfo opcode reg.info false
  some (index.toNat + if reg.compressed then 8 else 0)

def decodeArg (opcode : Word) (insn : Insn) : Arg → Option Insn
  | .outReg reg => do
      let index ← decodeReg opcode reg
      some { insn with outRegs := Function.update insn.outRegs reg.id (some index) }
  | .inReg reg => do
      let index ← decodeReg opcode reg
      some { insn with inRegs := Function.update insn.inRegs reg.id (some index) }
  | .unsignedImm imm => do
      let value ← decodeRanges opcode imm.info.rangeSet imm.isSigned
      some { insn with uim := Function.update insn.uim imm.id (some value) }
  | .signedImm imm => do
      let value ← decodeRanges opcode imm.info.rangeSet imm.isSigned
      some { insn with sim := Function.update insn.sim imm.id (some value) }
  | .indirect reg imm => do
      let index ← decodeReg opcode reg
      let value ← decodeInfo opcode imm.info imm.isSigned
      some { insn with inRegs := Function.update insn.inRegs reg.id (some index)
                       sim := Function.update insn.sim imm.id (some value) }

/- `out_regs[i] = -1`. The array has three entries; behind it are those of `in_regs`. -/
def clearOutReg (insn : Insn) (i : Nat) : Insn :=
  if i < 3 then { insn with outRegs := Function.update insn.outRegs i none }
  else { insn with inRegs := Function.update insn.inRegs (i - 3) none }

/- `in_regs[i] = -1`. Behind its three entries are the immediates. -/
def clearInReg (insn : Insn) (i : Nat) : Insn :=
  if i < 3 then { insn with inRegs := Function.update insn.inRegs i none }
  else { insn with uim := Function.update insn.uim (i - 3) (some (-1)) }

def clearRegs (insn : Insn) (count : Nat) : Insn := (List.range count).foldl (fun insn i => clearInReg (clearOutReg insn i) i) insn

/- The operands come before the successor and the hook of the instruction. -/
def decodeInsn (size : Nat) (args : List Arg) (decode : Insn → Option Insn) (slot : Slot) (opcode : Word) : Option Insn := do
  let insn := clearRegs { slot, size, next := insnCacheGet (slot.addr + BitVec.ofNat 32 size) } args.length
  decode (← args.foldlM (decodeArg opcode) insn)

end Operands

section Values

variable {opcode : Word}

theorem getFieldSlice {bit width : Nat} (inside : bit < 32) (short : width < 32) :
    issGetField opcode bit width = some ((opcode.extractLsb' bit width).setWidth 32) := by
  have bound : 2 ^ width < 2 ^ 32 := Nat.pow_lt_pow_right (by omega) short
  have ones : ((1 : Word) <<< width - 1).toNat = 2 ^ width - 1 := CShift.onesNumber short
  simp only [issGetField, CShift.shrBelow inside, CShift.shlBelow short, Option.bind_eq_bind, Option.bind_some, Option.some.injEq]
  apply BitVec.eq_of_toNat_eq
  rw [BitVec.toNat_and, ones, BitVec.toNat_ushiftRight, Nat.and_two_pow_sub_one_eq_mod, BitVec.toNat_setWidth,
    BitVec.extractLsb'_toNat, Nat.mod_eq_of_lt (a := opcode.toNat >>> bit % 2 ^ width)]
  exact lt_trans (Nat.mod_lt _ (Nat.two_pow_pos width)) bound

theorem getSignedExtend {value : Word} {bits : Nat} (some : 0 < bits) (short : bits ≤ 32) :
    issGetSignedValue value bits = .some ((value.setWidth bits).signExtend 32) := by
  have less : 32 - bits < 32 := by omega
  unfold issGetSignedValue
  by_cases zero : value = 0
  · have extended : ((0 : Word).setWidth bits).signExtend 32 = 0 := by
      apply BitVec.eq_of_getLsbD_eq
      intro k small
      simp [BitVec.getLsbD_signExtend]
    rw [if_pos zero, zero, extended]
  rw [if_neg zero]
  simp only [CShift.shlBelow less, CShift.sarBelow less, Option.bind_eq_bind, Option.bind_some, Option.some.injEq]
  apply BitVec.eq_of_getLsbD_eq
  intro k small
  have sign : (value <<< (32 - bits)).msb = value.getLsbD (bits - 1) := by
    rw [BitVec.msb_eq_getLsbD_last, BitVec.getLsbD_shiftLeft, show 32 - 1 - (32 - bits) = bits - 1 by omega]
    simp
    omega
  have top : (value.setWidth bits).msb = value.getLsbD (bits - 1) := by
    rw [BitVec.msb_eq_getLsbD_last, BitVec.getLsbD_setWidth]
    simp
    omega
  rw [BitVec.getLsbD_sshiftRight, BitVec.getLsbD_signExtend, sign, top, BitVec.getLsbD_shiftLeft, BitVec.getLsbD_setWidth]
  by_cases low : k < bits
  · rw [if_pos (by omega), if_pos low, show 32 - bits + k - (32 - bits) = k by omega]
    simp [small, low, show 32 - bits + k < 32 by omega, show ¬ 32 ≤ k by omega]
  · rw [if_neg (by omega), if_neg low]
    simp [small]

def gather (opcode : Word) (ranges : List Range) : Word :=
  ranges.foldl (fun value range => value ||| (opcode.extractLsb' range.bit range.width).setWidth 32 <<< range.shift) 0#32

def Range.reads (opcode : Word) (k : Nat) (range : Range) : Bool :=
  decide (range.shift ≤ k) && decide (k < range.shift + range.width) && opcode.getLsbD (range.bit + (k - range.shift))

theorem foldBit {ranges : List Range} {k : Nat} (small : k < 32) (start : Word) :
    (ranges.foldl (fun value range => value ||| (opcode.extractLsb' range.bit range.width).setWidth 32 <<< range.shift) start).getLsbD k =
      (start.getLsbD k || ranges.any (Range.reads opcode k)) := by
  induction ranges generalizing start with
  | nil => simp
  | cons range rest rec =>
      rw [List.foldl_cons, rec, List.any_cons, BitVec.getLsbD_or, Bool.or_assoc]
      congr 2
      simp only [Range.reads, BitVec.getLsbD_shiftLeft, BitVec.getLsbD_setWidth, BitVec.getLsbD_extractLsb']
      by_cases low : k < range.shift
      · simp [low]
      · by_cases inside : k < range.shift + range.width
        · simp [low, inside, small, show range.shift ≤ k by omega, show k - range.shift < range.width by omega, show k - range.shift < 32 by omega]
        · simp [inside, show ¬ k - range.shift < range.width by omega]

theorem gatherBit {ranges : List Range} {k : Nat} (small : k < 32) : (gather opcode ranges).getLsbD k = ranges.any (Range.reads opcode k) := by
  rw [gather, foldBit small, BitVec.getLsbD_zero, Bool.false_or]

theorem gatherSame {ranges : List Range} {n : Nat} {value : BitVec n} (short : n ≤ 32)
    (bits : ∀ k, k < n → ranges.any (Range.reads opcode k) = value.getLsbD k) : (gather opcode ranges).setWidth n = value := by
  apply BitVec.eq_of_getLsbD_eq
  intro k small
  rw [BitVec.getLsbD_setWidth, gatherBit (by omega), bits k small]
  simp [small]

def lastBit (ranges : List Range) : Nat := ranges.foldl (fun bits range => max bits (range.width + range.shift)) 0

def Fits (ranges : List Range) : Prop := ∀ range ∈ ranges, range.bit < 32 ∧ range.width < 32 ∧ range.shift < 32

instance (ranges : List Range) : Decidable (Fits ranges) := inferInstanceAs (Decidable (∀ range ∈ ranges, _))

theorem foldRanges {ranges : List Range} (fits : Fits ranges) (found : Word × Nat) :
    ranges.foldlM (decodeRange opcode) found =
      some (ranges.foldl (fun value range => value ||| (opcode.extractLsb' range.bit range.width).setWidth 32 <<< range.shift) found.1,
        ranges.foldl (fun bits range => max bits (range.width + range.shift)) found.2) := by
  induction ranges generalizing found with
  | nil => rfl
  | cons range rest rec =>
      obtain ⟨inside, short, placed⟩ := fits range (List.mem_cons_self ..)
      have first : decodeRange opcode found range =
          some (found.1 ||| (opcode.extractLsb' range.bit range.width).setWidth 32 <<< range.shift,
            max found.2 (range.width + range.shift)) := by
        simp [decodeRange, getFieldSlice inside short, CShift.shlBelow placed]
      rw [List.foldlM_cons, first, Option.bind_eq_bind, Option.bind_some]
      exact rec (fun other member => fits other (List.mem_cons_of_mem _ member)) _

theorem decodeUnsigned {ranges : List Range} (fits : Fits ranges) : decodeRanges opcode ranges false = some (gather opcode ranges) := by
  simp only [decodeRanges, foldRanges fits, Option.bind_eq_bind, Option.bind_some, Bool.false_eq_true, if_false]
  rfl

theorem decodeSigned {ranges : List Range} {bits : Nat} {value : BitVec bits} (fits : Fits ranges) (last : lastBit ranges = bits)
    (some : 0 < bits) (short : bits ≤ 32) (same : (gather opcode ranges).setWidth bits = value) :
    decodeRanges opcode ranges true = .some (value.signExtend 32) := by
  subst last same
  simp only [decodeRanges, foldRanges fits, Option.bind_eq_bind, Option.bind_some, if_true]
  exact getSignedExtend some short

theorem decodeRegField {id bit width : Nat} {compressed : Bool} (inside : bit < 32) (short : width < 32) :
    decodeReg opcode ⟨id, .range [⟨bit, width, 0⟩], compressed⟩ =
      some ((opcode.extractLsb' bit width).toNat + if compressed then 8 else 0) := by
  have fits : Fits [⟨bit, width, 0⟩] := by simp [Fits, inside, short]
  have bound : 2 ^ width ≤ 2 ^ 32 := Nat.pow_le_pow_right (by omega) (by omega)
  have number : (gather opcode [⟨bit, width, 0⟩]).toNat = (opcode.extractLsb' bit width).toNat := by
    simp only [gather, List.foldl_cons, List.foldl_nil, BitVec.zero_or, BitVec.shiftLeft_zero, BitVec.toNat_setWidth]
    exact Nat.mod_eq_of_lt (lt_of_lt_of_le (opcode.extractLsb' bit width).isLt bound)
  simp [decodeReg, decodeInfo, decodeUnsigned fits, number]

theorem decodeNothing : decodeRanges opcode [] true = some 0 := rfl

end Values

section Cleared

theorem clearUnset {insn : Insn} {i : Nat} (small : i < 3) (outs : insn.outRegs = fun _ => none) (ins : insn.inRegs = fun _ => none) :
    clearInReg (clearOutReg insn i) i = insn := by
  have same : Function.update (fun _ => none) i none = fun _ : Nat => (none : Option Nat) := Function.update_eq_self i _
  obtain ⟨slot, size, outRegs, inRegs, uim, sim, next, branch⟩ := insn
  subst outs ins
  simp only [clearOutReg, clearInReg, if_pos small, same]

theorem clearFew {insn : Insn} {count : Nat} (few : count ≤ 3) (outs : insn.outRegs = fun _ => none) (ins : insn.inRegs = fun _ => none) :
    clearRegs insn count = insn := by
  unfold clearRegs
  induction count with
  | zero => rfl
  | succ count ih => rw [List.range_succ, List.foldl_append, ih (by omega), List.foldl_cons, List.foldl_nil, clearUnset (by omega) outs ins]

/- A fourth one goes over the first immediate. -/
theorem clearFour {insn : Insn} (outs : insn.outRegs = fun _ => none) (ins : insn.inRegs = fun _ => none) :
    clearRegs insn 4 = { insn with uim := Function.update insn.uim 0 (some (-1)) } := by
  have three := clearFew (le_refl 3) outs ins
  unfold clearRegs at three ⊢
  rw [List.range_succ, List.foldl_append, three]
  obtain ⟨slot, size, outRegs, inRegs, uim, sim, next, branch⟩ := insn
  subst outs ins
  simp [clearOutReg, clearInReg]

variable {size : Nat} {args : List Arg} {decode : Insn → Option Insn} {slot : Slot} {opcode : Word}

theorem decodeFew (few : args.length ≤ 3) : decodeInsn size args decode slot opcode =
    (args.foldlM (decodeArg opcode) { slot, size, next := insnCacheGet (slot.addr + BitVec.ofNat 32 size) }).bind decode := by
  rw [decodeInsn, clearFew few rfl rfl]
  rfl

end Cleared

section Patterns

instance (instr : Decoder.Instr) (opcode : ℕ) : Decidable (instr.Matches opcode) :=
  decidable_of_iff (∀ bit, bit < instr.len → ∀ b, instr.fixed bit = some b → opcode.testBit bit = b)
    ⟨fun below bit b fixed => below bit (Decoder.fixedInside fixed) b fixed, fun fits bit _ b fixed => fits bit b fixed⟩

theorem patternField {instr : Decoder.Instr} {opcode : Word} {len : Nat} {value : BitVec len} (start : Nat)
    (fits : instr.Matches opcode.toNat) (fixed : ∀ k, k < len → instr.fixed (start + k) = some (value.getLsbD k)) :
    opcode.extractLsb' start len = value := by
  apply BitVec.eq_of_getLsbD_eq
  intro k small
  have bit := fits _ _ (fixed k small)
  rw [BitVec.testBit_toNat] at bit
  rw [BitVec.getLsbD_extractLsb', bit]
  simp [small]

end Patterns

end Gvsoc.Isa
