import Gvsoc.Bytes

/-! The map of registers of `register.cpp`. An access is made by the first register it falls in, whose class says how
bytes are written. -/
namespace Gvsoc.Regmap
open Bytes

section Stores

variable {w : Nat}

def store (put : Nat → Byte → Byte → Byte) : BitVec w → Nat → List Byte → BitVec w
  | dest, _, [] => dest
  | dest, i, byte :: rest => store put (putByte dest i (put i (byteOf dest i) byte)) (i + 1) rest

def memcpy : BitVec w → Nat → List Byte → BitVec w := store fun _ _ src => src

def masked (mask : BitVec w) : BitVec w → Nat → List Byte → BitVec w :=
  store fun i dest src => (dest &&& ~~~byteOf mask i) ||| (src &&& byteOf mask i)

def bytesFrom (value : BitVec w) (start n : Nat) : List Byte := (List.range n).map fun i => byteOf value (start + i)

theorem byteOfBit (v : BitVec w) (i k : Nat) (small : k < 8) : (byteOf v i).getLsbD k = v.getLsbD (8 * i + k) := by
  simp [byteOf, small]

theorem byteOfOther (v : BitVec w) (b : Byte) {i j : Nat} (other : j ≠ i) : byteOf (putByte v i b) j = byteOf v j := by
  apply BitVec.eq_of_getLsbD_eq
  intro k small
  rw [byteOfBit _ _ _ small, byteOfBit _ _ _ small]
  by_cases inside : 8 * j + k < w
  · rw [putByteBit _ _ _ _ inside, if_neg (by omega)]
  · rw [BitVec.getLsbD_of_ge _ _ (by omega), BitVec.getLsbD_of_ge _ _ (by omega)]

theorem storeBit (put : Nat → Byte → Byte → Byte) (dest : BitVec w) (start : Nat) (src : List Byte) (k : Nat) (small : k < w) :
    (store put dest start src).getLsbD k =
      if start ≤ k / 8 ∧ k / 8 < start + src.length then
        (put (k / 8) (byteOf dest (k / 8)) (src.getD (k / 8 - start) 0)).getLsbD (k % 8)
      else dest.getLsbD k := by
  induction src generalizing dest start with
  | nil =>
      rw [if_neg (by simp)]
      rfl
  | cons byte rest rec =>
      rw [store, rec, List.length_cons]
      by_cases here : k / 8 = start
      · rw [if_neg (by omega), if_pos (by omega), putByteBit _ _ _ _ small, if_pos here, here, Nat.sub_self,
          List.getD_cons_zero]
      · by_cases later : start + 1 ≤ k / 8 ∧ k / 8 < start + 1 + rest.length
        · obtain ⟨after, place⟩ : ∃ after, k / 8 - start = after + 1 := ⟨k / 8 - start - 1, by omega⟩
          have next : k / 8 - (start + 1) = after := by omega
          rw [if_pos later, if_pos (by omega), byteOfOther _ _ here, place, next, List.getD_cons_succ]
        · rw [if_neg later, if_neg (by omega), putByteBit _ _ _ _ small, if_neg here]

end Stores

namespace Reg8

/- The mask of the register is not looked at. -/
def write (_mask value : BitVec 8) (start : Nat) (data : List Byte) : BitVec 8 := memcpy value start data

end Reg8

namespace Reg16

def write (_mask value : BitVec 16) (start : Nat) (data : List Byte) : BitVec 16 := memcpy value start data

end Reg16

namespace Reg32

def write (mask value : BitVec 32) (start : Nat) (data : List Byte) : BitVec 32 := masked mask value start data

end Reg32

inductive Kind
  | reg8
  | reg16
  | reg32
deriving DecidableEq

def Kind.bytes : Kind → Nat
  | .reg8 => 1
  | .reg16 => 2
  | .reg32 => 4

def Kind.write : (kind : Kind) → BitVec (8 * kind.bytes) → BitVec (8 * kind.bytes) → Nat → List Byte → BitVec (8 * kind.bytes)
  | .reg8 => Reg8.write
  | .reg16 => Reg16.write
  | .reg32 => Reg32.write

structure Reg where
  kind : Kind
  offset : BitVec 64
  width : Nat
  value : BitVec (8 * kind.bytes)
  writeMask : BitVec (8 * kind.bytes)
  sized : width ≤ 8 * kind.bytes

def Reg.span (x : Reg) : Nat := (x.width + 7) / 8

/- A copy outside of the bytes of the value is undefined. -/
def Reg.update (x : Reg) (regOffset : BitVec 64) (data : List Byte) (isWrite : Bool) : Option (Reg × List Byte) :=
  let start := (regOffset.setWidth 32).toInt
  if 0 ≤ start ∧ start + data.length ≤ x.kind.bytes then
    if isWrite then some ({x with value := x.kind.write x.writeMask x.value start.toNat data}, data)
    else some (x, bytesFrom x.value start.toNat data.length)
  else none

/- The test of the search, on numbers of 64 bits that wrap. -/
def Reg.selects (x : Reg) (offset : BitVec 64) (size : Nat) : Bool :=
  decide (x.offset ≤ offset ∧ offset + BitVec.ofNat 64 size ≤ x.offset + BitVec.ofNat 64 x.span)

/- Without callbacks and aliases. The flag tells that no register is found. -/
def access : List Reg → BitVec 64 → List Byte → Bool → Option (Bool × List Reg × List Byte)
  | [], _, data, _ => some (true, [], data)
  | x :: rest, offset, data, isWrite =>
      if x.selects offset data.length then
        (x.update (offset - x.offset) data isWrite).map fun (x', data') => (false, x' :: rest, data')
      else (access rest offset data isWrite).map fun (invalid, rest', data') => (invalid, x :: rest', data')

structure Reg.Holds (x : Reg) (offset : BitVec 64) (size : Nat) : Prop where
  starts : x.offset.toNat ≤ offset.toNat
  ends : offset.toNat + size ≤ x.offset.toNat + x.span

def Reg.Meets (x : Reg) (offset : BitVec 64) (size : Nat) : Prop :=
  ∃ p, (x.offset.toNat ≤ p ∧ p < x.offset.toNat + x.span) ∧ offset.toNat ≤ p ∧ p < offset.toNat + size

def Reg.Apart (x y : Reg) : Prop := ¬y.Meets x.offset x.span

def Reg.Frame (x : Reg) (offset : BitVec 64) (size : Nat) (value : BitVec (8 * x.kind.bytes)) : Prop :=
  ∀ k < 8 * x.kind.bytes, value.getLsbD k ≠ x.value.getLsbD k →
    (offset.toNat ≤ x.offset.toNat + k / 8 ∧ x.offset.toNat + k / 8 < offset.toNat + size) ∧ x.writeMask.getLsbD k = true

def Respects (regs : List Reg) (offset : BitVec 64) (data : List Byte) (isWrite : Bool) : Prop :=
  ∃ invalid regs' data', access regs offset data isWrite = some (invalid, regs', data') ∧ (invalid = false →
    ∃ i x, regs.findIdx? (·.selects offset data.length) = some i ∧ regs[i]? = some x ∧ x.Holds offset data.length ∧
      (∀ j y, regs[j]? = some y → y.Meets offset data.length → j = i) ∧
      if isWrite then ∃ value, regs' = regs.set i {x with value := value} ∧ x.Frame offset data.length value
      else regs' = regs ∧ data' = bytesFrom x.value (offset.toNat - x.offset.toNat) data.length)

def Reg.Keeps (x : Reg) (offset : BitVec 64) (data : List Byte) : Prop :=
  ∀ i < data.length, ∀ k < 8, x.writeMask.getLsbD (8 * (offset.toNat - x.offset.toNat + i) + k) = false →
    (data.getD i 0).getLsbD k = x.value.getLsbD (8 * (offset.toNat - x.offset.toNat + i) + k)

section Updates

variable {x : Reg} {offset : BitVec 64} {data : List Byte} {isWrite : Bool}

theorem spanFits (x : Reg) : x.span ≤ x.kind.bytes := by
  have sized := x.sized
  unfold Reg.span
  omega

theorem heldStart (held : x.Holds offset data.length) :
    ((offset - x.offset).setWidth 32).toInt = ((offset.toNat - x.offset.toNat : Nat) : Int) := by
  have fits := spanFits x
  have bytes : x.kind.bytes ≤ 4 := by cases x.kind <;> decide
  have near : offset.toNat - x.offset.toNat ≤ 4 := by have := held.ends; omega
  have difference : (offset - x.offset).toNat = offset.toNat - x.offset.toNat := BitVec.toNat_sub_of_le held.starts
  have number : ((offset - x.offset).setWidth 32).toNat = offset.toNat - x.offset.toNat := by
    rw [BitVec.toNat_setWidth, difference, Nat.mod_eq_of_lt (by omega)]
  rw [BitVec.toInt_eq_toNat_of_lt (by omega), number]

theorem heldUpdate (held : x.Holds offset data.length) :
    x.update (offset - x.offset) data isWrite = some (
      if isWrite then ({x with value := x.kind.write x.writeMask x.value (offset.toNat - x.offset.toNat) data}, data)
      else (x, bytesFrom x.value (offset.toNat - x.offset.toNat) data.length)) := by
  have fits := spanFits x
  have ends := held.ends
  have starts := held.starts
  simp only [Reg.update, heldStart held, Int.toNat_natCast]
  rw [if_pos ⟨by omega, by omega⟩]
  cases isWrite <;> rfl

theorem memcpyBit {w : Nat} (value : BitVec w) (start : Nat) (data : List Byte) (k : Nat) (small : k < w) :
    (memcpy value start data).getLsbD k =
      if start ≤ k / 8 ∧ k / 8 < start + data.length then (data.getD (k / 8 - start) 0).getLsbD (k % 8)
      else value.getLsbD k := storeBit _ value start data k small

theorem maskedBit {w : Nat} (mask value : BitVec w) (start : Nat) (data : List Byte) (k : Nat) (small : k < w) :
    (masked mask value start data).getLsbD k =
      if start ≤ k / 8 ∧ k / 8 < start + data.length ∧ mask.getLsbD k = true then
        (data.getD (k / 8 - start) 0).getLsbD (k % 8)
      else value.getLsbD k := by
  have inner : k % 8 < 8 := Nat.mod_lt _ (by decide)
  have place : 8 * (k / 8) + k % 8 = k := Nat.div_add_mod k 8
  rw [masked, storeBit _ value start data k small, BitVec.getLsbD_or, BitVec.getLsbD_and, BitVec.getLsbD_and,
    BitVec.getLsbD_not, byteOfBit _ _ _ inner, byteOfBit _ _ _ inner, place]
  by_cases covered : start ≤ k / 8 ∧ k / 8 < start + data.length
  · rw [if_pos covered]
    cases bit : mask.getLsbD k <;> simp [covered, inner]
  · rw [if_neg covered, if_neg (by tauto)]

theorem writeBit (kind : Kind) (mask value : BitVec (8 * kind.bytes)) (start : Nat) (data : List Byte) (k : Nat)
    (small : k < 8 * kind.bytes) :
    (kind.write mask value start data).getLsbD k =
      if start ≤ k / 8 ∧ k / 8 < start + data.length ∧ (kind = .reg32 → mask.getLsbD k = true) then
        (data.getD (k / 8 - start) 0).getLsbD (k % 8)
      else value.getLsbD k := by
  cases kind with
  | reg8 =>
      simp only [reduceCtorEq, false_implies, and_true]
      exact memcpyBit (w := 8) value start data k small
  | reg16 =>
      simp only [reduceCtorEq, false_implies, and_true]
      exact memcpyBit (w := 16) value start data k small
  | reg32 =>
      simp only [true_implies]
      exact maskedBit (w := 32) mask value start data k small

theorem frameWhen (held : x.Holds offset data.length) :
    x.Frame offset data.length (x.kind.write x.writeMask x.value (offset.toNat - x.offset.toNat) data) ↔
      x.kind = .reg32 ∨ x.Keeps offset data := by
  have fits := spanFits x
  have ends := held.ends
  have starts := held.starts
  constructor
  · intro frame
    by_cases word : x.kind = .reg32
    · exact .inl word
    · refine .inr fun i below k small clear => ?_
      have inside : 8 * (offset.toNat - x.offset.toNat + i) + k < 8 * x.kind.bytes := by omega
      have quotient : (8 * (offset.toNat - x.offset.toNat + i) + k) / 8 = offset.toNat - x.offset.toNat + i := by omega
      have rest : (8 * (offset.toNat - x.offset.toNat + i) + k) % 8 = k := by omega
      have written := writeBit x.kind x.writeMask x.value (offset.toNat - x.offset.toNat) data _ inside
      rw [quotient, rest, if_pos ⟨by omega, by omega, fun same => absurd same word⟩, Nat.add_sub_cancel_left] at written
      rw [← written]
      by_contra changed
      exact absurd ((frame _ inside changed).2.symm.trans clear) (by decide)
  · intro safe k small changed
    rw [writeBit _ _ _ _ _ _ small] at changed
    split at changed
    · rename_i reached
      refine ⟨⟨by omega, by omega⟩, ?_⟩
      rcases safe with word | keeps
      · exact reached.2.2 word
      · by_contra clear
        have place : 8 * (offset.toNat - x.offset.toNat + (k / 8 - (offset.toNat - x.offset.toNat))) + k % 8 = k := by omega
        have same := keeps (k / 8 - (offset.toNat - x.offset.toNat)) (by omega) (k % 8) (Nat.mod_lt _ (by decide))
        rw [place] at same
        exact changed (same (Bool.eq_false_of_not_eq_true clear))
    · exact absurd rfl changed

end Updates

section Search

variable {regs : List Reg} {offset : BitVec 64} {data : List Byte} {isWrite : Bool} {i : Nat}

theorem accessMissed (missed : regs.findIdx? (·.selects offset data.length) = none) :
    access regs offset data isWrite = some (true, regs, data) := by
  induction regs with
  | nil => rfl
  | cons x rest rec =>
      rw [List.findIdx?_eq_none_iff] at missed
      have first := missed x List.mem_cons_self
      have later := rec (List.findIdx?_eq_none_iff.mpr fun y member => missed y (List.mem_cons_of_mem x member))
      rw [access, later, first]
      rfl

theorem accessFound (isWrite : Bool) (found : regs.findIdx? (·.selects offset data.length) = some i) :
    ∃ x, regs[i]? = some x ∧ access regs offset data isWrite =
      (x.update (offset - x.offset) data isWrite).map fun (x', data') => (false, regs.set i x', data') := by
  induction regs generalizing i with
  | nil => cases found
  | cons x rest rec =>
      rw [List.findIdx?_cons] at found
      split at found
      · rename_i selected
        cases found
        exact ⟨x, rfl, by rw [access, if_pos selected]; rfl⟩
      · rename_i other
        obtain ⟨before, later, rfl⟩ := Option.map_eq_some_iff.mp found
        obtain ⟨y, place, made⟩ := rec later
        refine ⟨y, place, ?_⟩
        rw [access, if_neg other, made]
        cases y.update (offset - y.offset) data isWrite <;> rfl

theorem apartSymm {x y : Reg} (apart : x.Apart y) : y.Apart x :=
  fun ⟨p, own, others⟩ => apart ⟨p, others, own⟩

theorem onlyHolder {x y : Reg} {j : Nat} (apart : regs.Pairwise Reg.Apart) (here : regs[i]? = some x)
    (held : x.Holds offset data.length) (there : regs[j]? = some y) (meets : y.Meets offset data.length) : j = i := by
  obtain ⟨p, own, low, high⟩ := meets
  have starts := held.starts
  have ends := held.ends
  obtain ⟨below, rfl⟩ := List.getElem?_eq_some_iff.mp here
  obtain ⟨bound, rfl⟩ := List.getElem?_eq_some_iff.mp there
  rcases Nat.lt_trichotomy j i with before | same | after
  · exact absurd ⟨p, own, by omega, by omega⟩ (apartSymm (List.pairwise_iff_getElem.mp apart j i bound below before))
  · exact same
  · exact absurd ⟨p, own, by omega, by omega⟩ (List.pairwise_iff_getElem.mp apart i j below bound after)

/- The masks of the smaller registers are not applied, and the end of the access can wrap around. -/
theorem accessRespects (regs : List Reg) (offset : BitVec 64) (data : List Byte) (isWrite : Bool)
    (apart : regs.Pairwise Reg.Apart) :
    Respects regs offset data isWrite ↔
      ∀ i x, regs.findIdx? (·.selects offset data.length) = some i → regs[i]? = some x →
        x.Holds offset data.length ∧ (isWrite = true → x.kind = .reg32 ∨ x.Keeps offset data) := by
  constructor
  · rintro ⟨invalid, regs', data', made, lawful⟩ i x found place
    obtain ⟨y, again, updated⟩ := accessFound isWrite found
    cases place.symm.trans again
    rw [made, eq_comm, Option.map_eq_some_iff] at updated
    obtain ⟨⟨x', result⟩, update, same⟩ := updated
    cases same
    obtain ⟨j, z, search, held, inside, -, kept⟩ := lawful rfl
    cases found.symm.trans search
    cases place.symm.trans held
    refine ⟨inside, fun write => ?_⟩
    subst write
    rw [heldUpdate inside, if_pos rfl] at update
    cases update
    obtain ⟨value, set, frame⟩ := kept
    have below := (List.getElem?_eq_some_iff.mp place).1
    have entry := congrArg (·[i]?) set
    simp only [List.getElem?_set_self below, Option.some.injEq, Reg.mk.injEq, heq_eq_eq, true_and, and_true] at entry
    rw [← entry] at frame
    exact (frameWhen inside).mp frame
  · intro safe
    cases found : regs.findIdx? (·.selects offset data.length) with
    | none => exact ⟨true, regs, data, accessMissed found, fun valid => by cases valid⟩
    | some i =>
        obtain ⟨x, place, made⟩ := accessFound isWrite found
        obtain ⟨inside, masks⟩ := safe i x found place
        rw [heldUpdate inside, Option.map_some] at made
        refine ⟨_, _, _, made, fun _ => ⟨i, x, found, place, inside, fun j y there => onlyHolder apart place inside there, ?_⟩⟩
        cases isWrite with
        | true => exact ⟨_, rfl, (frameWhen inside).mpr (masks rfl)⟩
        | false =>
            obtain ⟨below, rfl⟩ := List.getElem?_eq_some_iff.mp place
            exact ⟨List.set_getElem_self below, rfl⟩

end Search

def maskedByte : Reg := ⟨.reg8, 0, 8, 0#8, 0x0f#8, by decide⟩

def maskedWord : Reg := ⟨.reg32, 4, 32, 0#32, 0x0f0f0f0f#32, by decide⟩

/- Two bytes in the middle of a word, all ones. -/
theorem accessRespectsWord : Respects [maskedByte, maskedWord] 5 [0xff, 0xff] true :=
  (accessRespects [maskedByte, maskedWord] 5 [0xff, 0xff] true (by
    rw [List.pairwise_pair]
    rintro ⟨p, own, others⟩
    have first : p < 0 + 1 := others.2
    have second : 4 ≤ p := own.1
    omega)).mpr (by
    intro i x found place
    have search : [maskedByte, maskedWord].findIdx? (·.selects 5 2) = some 1 := by decide
    cases search.symm.trans found
    cases place
    exact ⟨⟨by decide, by decide⟩, fun _ => .inl rfl⟩)

/- A byte of ones is written to a register of 8 bits whose upper half is protected. -/
theorem maskIgnored : ¬Respects [maskedByte] 0 [0xff] true := by
  rintro ⟨invalid, regs', data', made, lawful⟩
  have written : access [maskedByte] 0 [0xff] true = some (false, [{maskedByte with value := 0xff#8}], [0xff]) := rfl
  cases written.symm.trans made
  obtain ⟨i, x, found, place, -, -, value, set, frame⟩ := lawful rfl
  have search : [maskedByte].findIdx? (·.selects 0 1) = some 0 := by decide
  cases search.symm.trans found
  cases place
  cases set
  exact absurd (frame 7 (by decide) (by decide)).2 (by decide)

end Gvsoc.Regmap
