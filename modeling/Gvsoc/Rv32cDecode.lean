import Gvsoc.Rv32cSpec

/-! Which entry an opcode is decoded to: the entries of RV32I by their fixed bits, and the compressed ones by the walk
through their tree. -/
namespace Gvsoc.Isa
open Decoder (Instr Item decodeItem decodeOpcodeGroup)

section Patterns

/- The bits that an encoding fixes, and those that it sets. -/
def care : List Char → Nat
  | [] => 0
  | c :: rest => Nat.bit (c == '0' || c == '1') (care rest)

def ones : List Char → Nat
  | [] => 0
  | c :: rest => Nat.bit (c == '1') (ones rest)

def pattern (instr : Instr) : Nat × Nat := (care instr.encoding, ones instr.encoding)

variable {instr : Instr}

theorem fixedZero (label : String) (c : Char) (rest : List Char) :
    (Instr.fixed ⟨label, c :: rest⟩ 0).isSome = (c == '0' || c == '1') ∧
      (Instr.fixed ⟨label, c :: rest⟩ 0 = some true ↔ c = '1') := by
  by_cases zero : c = '0'
  · subst zero
    simp [Instr.fixed]
  · by_cases one : c = '1'
    · subst one
      simp [Instr.fixed]
    · have free : Instr.fixed ⟨label, c :: rest⟩ 0 = none := by
        simp [Instr.fixed, zero, one]
      simp [free, zero, one]

theorem careBit (label : String) (chars : List Char) (bit : Nat) :
    (care chars).testBit bit = (Instr.fixed ⟨label, chars⟩ bit).isSome := by
  induction chars generalizing bit with
  | nil => simp [care, Instr.fixed]
  | cons c rest rec =>
      cases bit with
      | zero => rw [care, Nat.testBit_bit_zero, (fixedZero label c rest).1]
      | succ k =>
          rw [care, Nat.testBit_bit_succ, rec]
          rfl

theorem onesBit (label : String) (chars : List Char) (bit : Nat) :
    (ones chars).testBit bit = true ↔ Instr.fixed ⟨label, chars⟩ bit = some true := by
  induction chars generalizing bit with
  | nil => simp [ones, Instr.fixed]
  | cons c rest rec =>
      cases bit with
      | zero => rw [ones, Nat.testBit_bit_zero, (fixedZero label c rest).2, beq_iff_eq]
      | succ k =>
          rw [ones, Nat.testBit_bit_succ, rec]
          rfl

theorem matchesPattern {opcode : Nat} : instr.Matches opcode ↔ opcode &&& (pattern instr).1 = (pattern instr).2 := by
  have bits (k : Nat) : (opcode &&& care instr.encoding).testBit k = (ones instr.encoding).testBit k ↔
      ∀ b, instr.fixed k = some b → opcode.testBit k = b := by
    rw [Nat.testBit_and, careBit instr.label]
    have set := onesBit instr.label instr.encoding k
    cases found : instr.fixed k with
    | none => simp_all
    | some b => cases b <;> simp_all
  constructor
  · intro fits
    exact Nat.eq_of_testBit_eq fun k => (bits k).2 (fits k)
  · intro same k
    exact (bits k).1 (congrArg (Nat.testBit · k) same)

variable {label : String} {chars : List Char}

/- The characters of a literal are known without running `toList`. -/
theorem patternNew : pattern (Instr.new label (String.ofList chars).toList) = pattern (Instr.new label chars) := by
  rw [String.toList_ofList]

theorem lengthNew : (Instr.new label (String.ofList chars).toList).len = (Instr.new label chars).len := by
  rw [String.toList_ofList]

end Patterns

section Wide

open Spec

variable {wide : Word} {r : R5}

def wideTable : List R5 := rv32i ++ rv32iAccesses

def widePatterns : List (Nat × Nat) :=
  [(0x7f, 0x37), (0x7f, 0x17), (0x7f, 0x6f), (0x707f, 0x67), (0x707f, 0x63), (0x707f, 0x1063), (0x707f, 0x4063), (0x707f, 0x5063),
    (0x707f, 0x6063), (0x707f, 0x7063), (0x707f, 0x13), (0xffffffff, 0x13), (0x707f, 0x2013), (0x707f, 0x3013), (0x707f, 0x4013),
    (0x707f, 0x6013), (0x707f, 0x7013), (0xfe00707f, 0x1013), (0xfe00707f, 0x5013), (0xfe00707f, 0x40005013), (0xfe00707f, 0x33),
    (0xfe00707f, 0x40000033), (0xfe00707f, 0x1033), (0xfe00707f, 0x2033), (0xfe00707f, 0x3033), (0xfe00707f, 0x4033),
    (0xfe00707f, 0x5033), (0xfe00707f, 0x40005033), (0xfe00707f, 0x6033), (0xfe00707f, 0x7033), (0x707f, 0x3), (0x707f, 0x1003),
    (0x707f, 0x2003), (0x707f, 0x4003), (0x707f, 0x5003), (0x707f, 0x23), (0x707f, 0x1023), (0x707f, 0x2023)]

theorem widePattern : wideTable.map (fun r => pattern r.instr) = widePatterns := by
  simp only [wideTable, rv32i, rv32iAccesses, List.cons_append, List.nil_append, List.map_cons, List.map_nil, widePatterns]
  repeat refine congrArg₂ List.cons (patternNew.trans rfl) ?_
  rfl

def overlaps (mask value : Nat) (other : Nat × Nat) : Bool := value &&& other.1 == other.2 &&& mask

theorem overlapsBoth {opcode mask value : Nat} {other : Nat × Nat} (first : opcode &&& mask = value) (second : opcode &&& other.1 = other.2) :
    overlaps mask value other = true := by
  rw [overlaps, beq_iff_eq, ← first, ← second, Nat.and_right_comm]

/- No opcode of this entry matches another one, but for `nop`, which is an `addi`. -/
def Alone (i mask value : Nat) : Prop :=
  ∀ j, j < 38 → overlaps mask value (widePatterns.getD j (0, 0)) = true → j = i ∨ j = 11 ∧ i = 10

instance (i mask value : Nat) : Decidable (Alone i mask value) := inferInstanceAs (Decidable (∀ j, j < 38 → _))

structure DecodesTo (wide : Word) (x : R5) : Prop where
  known : x ∈ wideTable
  fits : x.instr.Matches wide.toNat
  sole : ∀ r ∈ wideTable, r.instr.Matches wide.toNat → r = x ∨ r = .nop ∧ x = .addi

theorem decodesAt {i mask value : Nat} {x : R5} (known : wideTable[i]? = some x) (listed : widePatterns[i]? = some (mask, value))
    (fits : wide.toNat &&& mask = value) (alone : Alone i mask value) : DecodesTo wide x := by
  have pattern (k : Nat) (r : R5) (entry : wideTable[k]? = some r) : widePatterns[k]? = some (pattern r.instr) := by
    rw [← widePattern, List.getElem?_map, entry, Option.map_some]
  refine ⟨List.mem_of_getElem? known, ?_, fun r member matched => ?_⟩
  · rw [pattern i x known, Option.some.injEq] at listed
    rw [matchesPattern, listed]
    exact fits
  · obtain ⟨j, entry⟩ := List.mem_iff_getElem?.1 member
    have other := pattern j r entry
    have inside : j < 38 := (List.getElem?_eq_some_iff.1 other).1
    have both : overlaps mask value (widePatterns.getD j (0, 0)) = true := by
      rw [List.getD_eq_getElem?_getD, other]
      exact overlapsBoth fits (matchesPattern.1 matched)
    rcases alone j inside both with rfl | ⟨rfl, rfl⟩
    · rw [known, Option.some.injEq] at entry
      exact .inl entry.symm
    · refine .inr ⟨(Option.some.inj entry).symm, (Option.some.inj known).symm⟩

theorem maskMajor : wide &&& 0x7f#32 = (major wide).setWidth 32 := by
  apply BitVec.eq_of_getLsbD_eq
  intro k small
  simp only [major, BitVec.getLsbD_and, BitVec.getLsbD_setWidth, BitVec.getLsbD_extractLsb']
  interval_cases k <;> simp

theorem maskThree : wide &&& 0x707f#32 = (major wide).setWidth 32 ||| (funct3 wide).setWidth 32 <<< 12 := by
  apply BitVec.eq_of_getLsbD_eq
  intro k small
  simp only [major, funct3, BitVec.getLsbD_and, BitVec.getLsbD_or, BitVec.getLsbD_shiftLeft, BitVec.getLsbD_setWidth, BitVec.getLsbD_extractLsb']
  interval_cases k <;> simp

theorem maskSeven : wide &&& 0xfe00707f#32 =
    (major wide).setWidth 32 ||| (funct3 wide).setWidth 32 <<< 12 ||| (funct7 wide).setWidth 32 <<< 25 := by
  apply BitVec.eq_of_getLsbD_eq
  intro k small
  simp only [major, funct3, funct7, BitVec.getLsbD_and, BitVec.getLsbD_or, BitVec.getLsbD_shiftLeft, BitVec.getLsbD_setWidth,
    BitVec.getLsbD_extractLsb']
  interval_cases k <;> simp

variable {code seven : BitVec 7} {three : BitVec 3} {i value : Nat} {x : R5}

theorem decodesMajor (same : major wide = code) (known : wideTable[i]? = some x) (listed : widePatterns[i]? = some (0x7f, value))
    (bits : (code.setWidth 32).toNat = value) (alone : Alone i 0x7f value) : DecodesTo wide x := by
  refine decodesAt known listed ?_ alone
  rw [← bits, ← same, ← maskMajor, BitVec.toNat_and]
  rfl

theorem decodesThree (same : major wide = code ∧ funct3 wide = three) (known : wideTable[i]? = some x)
    (listed : widePatterns[i]? = some (0x707f, value)) (bits : (code.setWidth 32 ||| three.setWidth 32 <<< 12).toNat = value)
    (alone : Alone i 0x707f value) : DecodesTo wide x := by
  refine decodesAt known listed ?_ alone
  rw [← bits, ← same.1, ← same.2, ← maskThree, BitVec.toNat_and]
  rfl

theorem decodesSeven (same : major wide = code ∧ funct3 wide = three ∧ funct7 wide = seven) (known : wideTable[i]? = some x)
    (listed : widePatterns[i]? = some (0xfe00707f, value))
    (bits : (code.setWidth 32 ||| three.setWidth 32 <<< 12 ||| seven.setWidth 32 <<< 25).toNat = value)
    (alone : Alone i 0xfe00707f value) : DecodesTo wide x := by
  refine decodesAt known listed ?_ alone
  rw [← bits, ← same.1, ← same.2.1, ← same.2.2, ← maskSeven, BitVec.toNat_and]
  rfl

end Wide

section Tree

open Spec.Compressed

variable {op : Word}

def rv32cItem : Item :=
  .group 0 0 2
    [.group 0 13 3 [.insn 0 false R5.cAddi4spn.instr, .insn 2 false R5.cLw.instr, .insn 6 false R5.cSw.instr],
     .group 1 13 3
      [.group 0 2 11 [.insn 0 false R5.cNop.instr, .insn 0 true R5.cAddi.instr],
       .insn 1 false R5.cJal.instr,
       .insn 2 false R5.cLi.instr,
       .group 3 7 5 [.insn 2 false R5.cAddi16sp.instr, .insn 3 true R5.cLui.instr],
       .group 4 10 2
        [.insn 0 false R5.cSrli.instr, .insn 1 false R5.cSrai.instr, .insn 2 false R5.cAndi.instr,
         .group 3 5 2
          [.group 0 12 1 [.insn 0 false R5.cSub.instr], .group 1 12 1 [.insn 0 false R5.cXor.instr],
           .group 2 12 1 [.insn 0 false R5.cOr.instr], .group 3 12 1 [.insn 0 false R5.cAnd.instr]]],
       .insn 5 false R5.cJ.instr,
       .insn 6 false R5.cBeqz.instr,
       .insn 7 false R5.cBnez.instr],
     .group 2 13 3
      [.insn 0 false R5.cSlli.instr,
       .insn 2 false R5.cLwsp.instr,
       .group 4 12 1
        [.group 0 2 5 [.group 0 7 5 [.insn 0 true R5.cJr.instr, .insn 0 false cSbreak], .insn 0 true R5.cMv.instr],
         .group 1 2 5 [.group 0 7 5 [.insn 0 false cEbreak, .insn 0 true R5.cJalr.instr], .insn 1 true R5.cAdd.instr]],
       .insn 6 false R5.cSwsp.instr]]

set_option maxRecDepth 20000 in
theorem rv32cBuilt : rv32cTree = .ok rv32cItem := by rfl

def children : Item → List Item
  | .insn _ _ _ => []
  | .group _ _ _ groups => groups

def child (item : Item) (i : Nat) : Item := (children item).getD i item

theorem walkGroup {first bit width : Nat} {groups : List Item} :
    decodeItem (fun _ => true) op.toNat (.group first bit width groups) =
      decodeOpcodeGroup (fun _ => true) op.toNat (op.extractLsb' bit width).toNat groups none := by
  rw [decodeItem, Nat.and_two_pow_sub_one_eq_mod, BitVec.extractLsb'_toNat]

theorem walkInsn {first : Nat} {others : Bool} {instr : Instr} :
    decodeItem (fun _ => true) op.toNat (.insn first others instr) = some instr := by
  simp [decodeItem, Decoder.decodeInsn]

theorem fieldDiffers {n : Nat} {field value : BitVec n} (differs : field ≠ value) : field.toNat ≠ value.toNat :=
  fun same => differs (BitVec.eq_of_toNat_eq same)

theorem groupChild {value : Nat} {groups : List Item} {child : Item} (other : Option (Option Instr))
    (found : groups.find? (fun g => value == g.opcode && !g.opcodeOthers) = some child) :
    decodeOpcodeGroup (fun _ => true) op.toNat value groups other = decodeItem (fun _ => true) op.toNat child := by
  induction groups generalizing other with
  | nil => contradiction
  | cons g rest rec =>
      rw [List.find?_cons] at found
      rw [decodeOpcodeGroup]
      cases own : value == g.opcode && !g.opcodeOthers with
      | true =>
          rw [own, Option.some.injEq] at found
          have both : value = g.opcode ∧ g.opcodeOthers = false := by simpa using own
          rw [if_pos both, found]
      | false =>
          rw [own] at found
          have neither : ¬(value = g.opcode ∧ g.opcodeOthers = false) := fun both => by simp [both] at own
          rw [if_neg neither]
          exact rec _ found

theorem walkChild {first bit width : Nat} {value : BitVec width} {groups : List Item} {child : Item}
    (field : op.extractLsb' bit width = value)
    (found : groups.find? (fun g => value.toNat == g.opcode && !g.opcodeOthers) = some child) :
    decodeItem (fun _ => true) op.toNat (.group first bit width groups) = decodeItem (fun _ => true) op.toNat child := by
  rw [walkGroup, field]
  exact groupChild none found

theorem groupOther {value : Nat} {groups : List Item} (other : Option (Option Instr))
    (differs : ∀ g ∈ groups, g.opcodeOthers = false → value ≠ g.opcode) :
    decodeOpcodeGroup (fun _ => true) op.toNat value groups other =
      ((((groups.filter (·.opcodeOthers)).getLast?).map (decodeItem (fun _ => true) op.toNat)).or other).getD none := by
  induction groups generalizing other with
  | nil => simp [decodeOpcodeGroup]
  | cons g rest rec =>
      have neither : ¬(value = g.opcode ∧ g.opcodeOthers = false) := fun both => differs g (List.mem_cons_self ..) both.2 both.1
      rw [decodeOpcodeGroup, if_neg neither, rec _ fun h member => differs h (List.mem_cons_of_mem _ member)]
      cases own : g.opcodeOthers with
      | false => simp [own]
      | true =>
          rw [List.filter_cons_of_pos own, List.getLast?_cons]
          cases (rest.filter (·.opcodeOthers)).getLast? <;> simp

theorem walkOther {first bit width : Nat} {groups : List Item} {child : Item}
    (differs : ∀ g ∈ groups, g.opcodeOthers = false → (op.extractLsb' bit width).toNat ≠ g.opcode)
    (found : (groups.filter (·.opcodeOthers)).getLast? = some child) :
    decodeItem (fun _ => true) op.toNat (.group first bit width groups) = decodeItem (fun _ => true) op.toNat child := by
  rw [walkGroup, groupOther none differs, found]
  rfl

theorem otherOf {value fixed : Nat} {groups : List Item} (differs : value ≠ fixed)
    (only : groups.all (fun g => g.opcodeOthers || g.opcode == fixed) = true) :
    ∀ g ∈ groups, g.opcodeOthers = false → value ≠ g.opcode := by
  intro g member fixed_item
  have own := List.all_eq_true.mp only g member
  rw [fixed_item, Bool.false_or, beq_iff_eq] at own
  rwa [own]

end Tree

section Rows

open Spec.Compressed

variable {op : Word}

def Walks (op : Word) (c : R5) : Prop := decodeItem (fun _ => true) op.toNat rv32cItem = some c.instr

theorem selectorItem {quad : BitVec 2} {three : BitVec 3} {first : Nat} {groups : List Item} {child : Item} (quadrant : quadrant op = quad)
    (selector : funct3 op = three)
    (inner : (children rv32cItem).find? (fun g => quad.toNat == g.opcode && !g.opcodeOthers) = some (.group first 13 3 groups))
    (found : groups.find? (fun g => three.toNat == g.opcode && !g.opcodeOthers) = some child) :
    decodeItem (fun _ => true) op.toNat rv32cItem = decodeItem (fun _ => true) op.toNat child := by
  have field : op.extractLsb' 0 2 = quad := quadrant
  have outer : decodeItem (fun _ => true) op.toNat (.group 0 0 2 (children rv32cItem)) =
      decodeItem (fun _ => true) op.toNat (.group first 13 3 groups) := walkChild field inner
  exact outer.trans (walkChild selector found)

variable {first : Nat} {others : Bool} {c : R5}

theorem leafWalks {quad : BitVec 2} {three : BitVec 3} {groups : List Item} {outer : Nat} (quadrant : quadrant op = quad)
    (selector : funct3 op = three)
    (inner : (children rv32cItem).find? (fun g => quad.toNat == g.opcode && !g.opcodeOthers) = some (.group outer 13 3 groups))
    (found : groups.find? (fun g => three.toNat == g.opcode && !g.opcodeOthers) = some (.insn first others c.instr)) : Walks op c :=
  (selectorItem quadrant selector inner found).trans walkInsn

theorem nopWalks (legal : Row.nop.legal op) : Walks op .cNop := by
  obtain ⟨quad, three, operands⟩ := legal
  exact (selectorItem quad three rfl rfl).trans ((walkChild operands rfl).trans walkInsn)

theorem addiWalks (legal : Row.addi.legal op) : Walks op .cAddi := by
  obtain ⟨quad, three, operands⟩ := legal
  exact (selectorItem quad three rfl rfl).trans ((walkOther (otherOf (fieldDiffers operands) rfl) rfl).trans walkInsn)

theorem addi16spWalks (legal : Row.addi16sp.legal op) : Walks op .cAddi16sp := by
  obtain ⟨quad, three, target, -⟩ := legal
  exact (selectorItem quad three rfl rfl).trans ((walkChild target rfl).trans walkInsn)

theorem luiWalks (legal : Row.lui.legal op) : Walks op .cLui := by
  obtain ⟨quad, three, target, -⟩ := legal
  exact (selectorItem quad three rfl rfl).trans ((walkOther (otherOf (fieldDiffers target) rfl) rfl).trans walkInsn)

theorem codeWalks {code : BitVec 2} (quad : quadrant op = 0b01#2) (three : funct3 op = 0b100#3) (field : op.extractLsb' 10 2 = code)
    (found : (children (child (child rv32cItem 1) 4)).find? (fun g => code.toNat == g.opcode && !g.opcodeOthers) =
      some (.insn first others c.instr)) : Walks op c :=
  (selectorItem quad three rfl rfl).trans ((walkChild field found).trans walkInsn)

theorem arithmeticWalks {code : BitVec 2} {seven : BitVec 7} {funct : BitVec 3} {outer : Nat} (legal : (Row.arithmetic code seven funct).legal op)
    (found : (children (child (child (child rv32cItem 1) 4) 3)).find? (fun g => code.toNat == g.opcode && !g.opcodeOthers) =
      some (.group outer 12 1 [.insn 0 false c.instr])) : Walks op c := by
  obtain ⟨quad, three, registers, bit, field⟩ := legal
  exact (selectorItem quad three rfl rfl).trans ((walkChild registers rfl).trans ((walkChild field found).trans ((walkChild bit rfl).trans walkInsn)))

/- The two jumps to a register stand beside the breakpoints, and the two with another register are the others. -/
theorem jrWalks (legal : Row.jr.legal op) : Walks op .cJr := by
  obtain ⟨quad, three, bit, second, source⟩ := legal
  exact (selectorItem quad three rfl rfl).trans ((walkChild bit rfl).trans ((walkChild second rfl).trans
    ((walkOther (otherOf (fieldDiffers source) rfl) rfl).trans walkInsn)))

theorem jalrWalks (legal : Row.jalr.legal op) : Walks op .cJalr := by
  obtain ⟨quad, three, bit, second, source⟩ := legal
  exact (selectorItem quad three rfl rfl).trans ((walkChild bit rfl).trans ((walkChild second rfl).trans
    ((walkOther (otherOf (fieldDiffers source) rfl) rfl).trans walkInsn)))

theorem mvWalks (legal : Row.mv.legal op) : Walks op .cMv := by
  obtain ⟨quad, three, bit, second⟩ := legal
  exact (selectorItem quad three rfl rfl).trans ((walkChild bit rfl).trans ((walkOther (otherOf (fieldDiffers second) rfl) rfl).trans walkInsn))

theorem addWalks (legal : Row.add.legal op) : Walks op .cAdd := by
  obtain ⟨quad, three, bit, second⟩ := legal
  exact (selectorItem quad three rfl rfl).trans ((walkChild bit rfl).trans ((walkOther (otherOf (fieldDiffers second) rfl) rfl).trans walkInsn))

end Rows

end Gvsoc.Isa
