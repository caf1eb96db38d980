import Gvsoc.Interleaver
import Gvsoc.Tiling
import Mathlib.Data.BitVec
import Mathlib.Tactic.Ring

/-! Banks of the interleaver. The pieces of a request fill it, none crosses the end of a block, and
every byte goes to its own place: the map from addresses to slaves and offsets is one to one and
onto. With more than 31 bits for the blocks and the slaves together the mask does not fit its
integer and the map is neither. -/
namespace Gvsoc.Interleave
open Io (IoStatus)
open Tiling (Tiles)
open Bytes (signedSmall)

section Spec

variable (beyond : Nat → BitVec 32) (c : Config)

def Config.id (x : Word) : Nat := c.outputId beyond (x - c.removeOffset)

def Config.local (x : Word) : Word := c.newOffset beyond (x - c.removeOffset)

structure Banked : Prop where
  range : ∀ x, c.id beyond x < c.nbSlaves ∧ (c.local beyond x).toNat < 2 ^ (64 - c.stageBits)
  injective : ∀ x y, c.id beyond x = c.id beyond y → c.local beyond x = c.local beyond y → x = y
  onto : ∀ bank < 2 ^ c.stageBits, ∀ place : Word, place.toNat < 2 ^ (64 - c.stageBits) →
    ∃ x, c.id beyond x = bank ∧ c.local beyond x = place

structure Interleaved (r : Req) (ret : Returned) : Prop where
  status : ret.status = .ok
  restored : ret.req = r
  tiles : Tiles (fun f => (f.input - r.addr).toNat) (fun f => f.size.toNat) 0 ret.forwards r.size.toNat
  block : ∀ f ∈ ret.forwards, f.input.toNat % 2 ^ c.interleavingBits + f.size.toNat ≤ 2 ^ c.interleavingBits
  bytes : ∀ f ∈ ret.forwards, ∀ i < f.size.toNat,
    f.output = c.id beyond (f.input + BitVec.ofNat 64 i) ∧
    f.addr + BitVec.ofNat 64 i = c.local beyond (f.input + BitVec.ofNat 64 i)

structure Works : Prop where
  banked : Banked beyond c
  requests : ∀ r fuel, r.size.toNat ≤ fuel →
    ∃ ret, c.req beyond (fun _ => .ok) fuel r = some ret ∧ Interleaved beyond c r ret

end Spec

section Masks

variable {beyond : Nat → BitVec 32}

theorem lowMask {k : Nat} (small : k < 32) : (one beyond k - 1).signExtend 64 = BitVec.ofNat 64 (2 ^ k - 1) := by
  have all : ∀ k : Fin 32, ((1#32 <<< k.val) - 1).signExtend 64 = BitVec.ofNat 64 (2 ^ k.val - 1) := by decide
  unfold one
  rw [if_pos small]
  exact all ⟨k, small⟩

theorem highMask {k : Nat} (small : k < 32) : (~~~(one beyond k - 1)).signExtend 64 = ~~~(BitVec.ofNat 64 (2 ^ k - 1)) := by
  have all : ∀ k : Fin 32, (~~~((1#32 <<< k.val) - 1)).signExtend 64 = ~~~(BitVec.ofNat 64 (2 ^ k.val - 1)) := by decide
  unfold one
  rw [if_pos small]
  exact all ⟨k, small⟩

theorem lowNumber {k : Nat} (x : Word) (small : k < 32) : (x &&& (one beyond k - 1).signExtend 64).toNat = x.toNat % 2 ^ k := by
  have fits : 2 ^ k - 1 < 2 ^ 64 := lt_of_le_of_lt (Nat.sub_le _ _) (Nat.pow_lt_pow_right (by omega) (by omega))
  rw [lowMask small, BitVec.toNat_and, BitVec.toNat_ofNat, Nat.mod_eq_of_lt fits, Nat.and_two_pow_sub_one_eq_mod]

theorem highNumber {k : Nat} (x : Word) (small : k < 32) :
    (x &&& (~~~(one beyond k - 1)).signExtend 64).toNat = x.toNat / 2 ^ k * 2 ^ k := by
  rw [highMask small, Bytes.maskNumber]

theorem oneNumber {k : Nat} (small : k < 31) : (one beyond k).toNat = 2 ^ k := by
  have all : ∀ k : Fin 31, (1#32 <<< k.val).toNat = 2 ^ k.val := by decide
  unfold one
  rw [if_pos (by omega)]
  exact all ⟨k, small⟩

end Masks

section Numbers

variable {beyond : Nat → BitVec 32} {c : Config}

theorem outputIdNumber (stage : c.stageBits < 32) (offset : Word) :
    c.outputId beyond offset = offset.toNat / 2 ^ c.interleavingBits % 2 ^ c.stageBits := by
  unfold Config.outputId
  rw [lowNumber _ stage, BitVec.toNat_ushiftRight, Nat.shiftRight_eq_div_pow]

theorem newOffsetNumber (fits : c.interleavingBits + c.stageBits ≤ 31) (offset : Word) :
    (c.newOffset beyond offset).toNat = offset.toNat / 2 ^ (c.interleavingBits + c.stageBits) * 2 ^ c.interleavingBits +
      offset.toNat % 2 ^ c.interleavingBits := by
  have blocks : offset.toNat / 2 ^ (c.interleavingBits + c.stageBits) * 2 ^ (c.interleavingBits + c.stageBits) / 2 ^ c.stageBits =
      offset.toNat / 2 ^ (c.interleavingBits + c.stageBits) * 2 ^ c.interleavingBits := by
    rw [pow_add 2 c.interleavingBits, ← Nat.mul_assoc, Nat.mul_div_cancel _ (Nat.two_pow_pos _)]
  have whole : offset.toNat / 2 ^ (c.interleavingBits + c.stageBits) * 2 ^ c.interleavingBits +
      offset.toNat % 2 ^ c.interleavingBits ≤ offset.toNat := by
    have less : offset.toNat / 2 ^ (c.interleavingBits + c.stageBits) ≤ offset.toNat / 2 ^ c.interleavingBits :=
      Nat.div_le_div_left (Nat.pow_le_pow_right (by omega) (by omega)) (Nat.two_pow_pos _)
    have parts := Nat.div_add_mod' offset.toNat (2 ^ c.interleavingBits)
    have := Nat.mul_le_mul_right (2 ^ c.interleavingBits) less
    omega
  unfold Config.newOffset Config.offsetMask
  rw [BitVec.toNat_add, BitVec.toNat_ushiftRight, Nat.shiftRight_eq_div_pow, highNumber _ (by omega), lowNumber _ (by omega),
    blocks, Nat.mod_eq_of_lt (lt_of_le_of_lt whole offset.isLt)]

theorem stageSmall (power : 2 ^ c.stageBits ≤ c.nbSlaves) : c.stageBits ≤ 30 := by
  by_contra large
  have : 2 ^ 31 ≤ 2 ^ c.stageBits := Nat.pow_le_pow_right (by omega) (by omega)
  have := c.slaves
  omega

theorem offsetParts (y p s : Nat) : y = (y / (p * s)) * (p * s) + (y / p % s) * p + y % p := by
  have first := Nat.div_add_mod' y p
  have second := Nat.div_add_mod' (y / p) s
  rw [Nat.div_div_eq_div_mul] at second
  calc y = (y / p) * p + y % p := first.symm
    _ = (y / (p * s) * s + y / p % s) * p + y % p := by rw [second]
    _ = (y / (p * s)) * (p * s) + (y / p % s) * p + y % p := by ring

theorem joinParts {p s q bank place : Nat} (inBank : bank < s) (inPlace : place < p) :
    (q * (p * s) + (bank * p + place)) / (p * s) = q ∧ (q * (p * s) + (bank * p + place)) / p % s = bank ∧
      (q * (p * s) + (bank * p + place)) % p = place := by
  have shape : q * (p * s) + (bank * p + place) = p * (q * s + bank) + place := by ring
  have block : (p * (q * s + bank) + place) / p = q * s + bank := by
    rw [Nat.mul_add_div (by omega), Nat.div_eq_of_lt inPlace, Nat.add_zero]
  rw [shape, ← Nat.div_div_eq_div_mul, block]
  refine ⟨?_, ?_, ?_⟩
  · rw [Nat.mul_comm, Nat.mul_add_div (by omega), Nat.div_eq_of_lt inBank, Nat.add_zero]
  · exact Nat.mul_add_mod_of_lt inBank
  · rw [Nat.mul_add_mod, Nat.mod_eq_of_lt inPlace]

theorem joinBelow {q n block place : Nat} (high : q < n) (low : place < block) : q * block + place < n * block := by
  calc q * block + place < (q + 1) * block := by rw [Nat.add_mul, Nat.one_mul]; exact Nat.add_lt_add_left low _
    _ ≤ n * block := Nat.mul_le_mul_right _ high

section Banked

variable (power : 2 ^ c.stageBits ≤ c.nbSlaves) (fits : c.interleavingBits + c.stageBits ≤ 31)
include power fits

theorem bankedRange (x : Word) :
    c.id beyond x < c.nbSlaves ∧ (c.local beyond x).toNat < 2 ^ (64 - c.stageBits) := by
  have small := stageSmall power
  unfold Config.id Config.local
  rw [outputIdNumber (by omega), newOffsetNumber fits]
  refine ⟨lt_of_lt_of_le (Nat.mod_lt _ (Nat.two_pow_pos _)) power, ?_⟩
  generalize x - c.removeOffset = y
  have high : y.toNat / 2 ^ (c.interleavingBits + c.stageBits) < 2 ^ (64 - (c.interleavingBits + c.stageBits)) := by
    rw [Nat.div_lt_iff_lt_mul (Nat.two_pow_pos _), ← pow_add]
    exact lt_of_lt_of_le y.isLt (Nat.pow_le_pow_right (by omega) (by omega))
  refine lt_of_lt_of_eq (joinBelow high (Nat.mod_lt y.toNat (Nat.two_pow_pos _))) ?_
  rw [← pow_add]
  congr 1
  omega

theorem bankedInjective {x y : Word} (sameId : c.id beyond x = c.id beyond y) (sameLocal : c.local beyond x = c.local beyond y) :
    x = y := by
  have small := stageSmall power
  unfold Config.id Config.local at *
  rw [outputIdNumber (by omega), outputIdNumber (by omega)] at sameId
  have number := congrArg BitVec.toNat sameLocal
  rw [newOffsetNumber fits, newOffsetNumber fits] at number
  generalize first : x - c.removeOffset = v at *
  generalize second : y - c.removeOffset = w at *
  have low : v.toNat % 2 ^ c.interleavingBits = w.toNat % 2 ^ c.interleavingBits := by
    have := congrArg (· % 2 ^ c.interleavingBits) number
    simpa [Nat.mul_add_mod'] using this
  have high : v.toNat / 2 ^ (c.interleavingBits + c.stageBits) = w.toNat / 2 ^ (c.interleavingBits + c.stageBits) := by
    rw [low] at number
    exact Nat.eq_of_mul_eq_mul_right (Nat.two_pow_pos _) (Nat.add_right_cancel number)
  have same : v = w := by
    apply BitVec.eq_of_toNat_eq
    rw [offsetParts v.toNat (2 ^ c.interleavingBits) (2 ^ c.stageBits),
      offsetParts w.toNat (2 ^ c.interleavingBits) (2 ^ c.stageBits), ← pow_add, high, sameId, low]
  calc x = v + c.removeOffset := by rw [← first]; ring
    _ = w + c.removeOffset := by rw [same]
    _ = y := by rw [← second]; ring

theorem bankedOnto {bank : Nat} {place : Word} (inBank : bank < 2 ^ c.stageBits)
    (inPlace : place.toNat < 2 ^ (64 - c.stageBits)) : ∃ x, c.id beyond x = bank ∧ c.local beyond x = place := by
  have small := stageSmall power
  have low := Nat.mod_lt place.toNat (Nat.two_pow_pos c.interleavingBits)
  have high : place.toNat / 2 ^ c.interleavingBits < 2 ^ (64 - (c.interleavingBits + c.stageBits)) := by
    rw [Nat.div_lt_iff_lt_mul (Nat.two_pow_pos _), ← pow_add]
    exact lt_of_lt_of_le inPlace (Nat.pow_le_pow_right (by omega) (by omega))
  obtain ⟨block, slave, inBlock⟩ := joinParts (q := place.toNat / 2 ^ c.interleavingBits) inBank low
  have inner : bank * 2 ^ c.interleavingBits + place.toNat % 2 ^ c.interleavingBits <
      2 ^ c.interleavingBits * 2 ^ c.stageBits := by
    rw [Nat.mul_comm (2 ^ c.interleavingBits)]
    exact joinBelow inBank low
  have bound := joinBelow high inner
  rw [← pow_add, ← pow_add, show 64 - (c.interleavingBits + c.stageBits) + (c.interleavingBits + c.stageBits) = 64 by omega] at bound
  rw [← pow_add] at block slave inBlock
  generalize place.toNat / 2 ^ c.interleavingBits * 2 ^ (c.interleavingBits + c.stageBits) +
      (bank * 2 ^ c.interleavingBits + place.toNat % 2 ^ c.interleavingBits) = y at *
  have number : (BitVec.ofNat 64 y + c.removeOffset - c.removeOffset).toNat = y := by
    rw [show BitVec.ofNat 64 y + c.removeOffset - c.removeOffset = BitVec.ofNat 64 y by ring, BitVec.toNat_ofNat,
      Nat.mod_eq_of_lt bound]
  refine ⟨BitVec.ofNat 64 y + c.removeOffset, ?_, ?_⟩
  · unfold Config.id
    rw [outputIdNumber (by omega), number]
    exact slave
  · apply BitVec.eq_of_toNat_eq
    unfold Config.local
    rw [newOffsetNumber fits, number, block, inBlock, Nat.div_add_mod']

end Banked

end Numbers

section Loop

variable {beyond : Nat → BitVec 32} {c : Config} {r : Req} {s : Loop}

def Loop.input (c : Config) (s : Loop) : Word := s.offset + c.removeOffset

def Config.blockLeft (c : Config) (x : Word) : Nat := 2 ^ c.interleavingBits - x.toNat % 2 ^ c.interleavingBits

theorem blockLeftBounds (x : Word) : 0 < c.blockLeft x ∧ c.blockLeft x ≤ 2 ^ c.interleavingBits ∧
    x.toNat % 2 ^ c.interleavingBits + c.blockLeft x = 2 ^ c.interleavingBits := by
  have low := Nat.mod_lt x.toNat (Nat.two_pow_pos c.interleavingBits)
  unfold Config.blockLeft
  omega

structure Aligned (c : Config) (s : Loop) : Prop where
  start : s.alignSize = 0 → (s.input c).toNat % 2 ^ c.interleavingBits = 0
  inside : s.alignSize ≠ 0 → s.alignSize.toNat = c.blockLeft (s.input c)

theorem blockSmall (block : c.interleavingBits ≤ 30) : 2 ^ c.interleavingBits < 2 ^ 31 :=
  Nat.pow_lt_pow_right (by omega) (by omega)

theorem loopSizeNumber (block : c.interleavingBits ≤ 30) (aligned : Aligned c s) :
    (s.loopSize beyond c).toNat = min s.size.toNat (c.blockLeft (s.input c)) := by
  have bounds := blockLeftBounds (c := c) (s.input c)
  have limit := blockSmall block
  have number : (if s.alignSize ≠ 0 then s.alignSize else c.portSize beyond).toNat = c.blockLeft (s.input c) := by
    split
    · rename_i inside
      exact aligned.inside inside
    · rename_i zero
      have start := aligned.start (not_not.mp zero)
      unfold Config.portSize
      rw [oneNumber (by omega)]
      omega
  unfold Loop.loopSize
  dsimp only
  generalize (if s.alignSize ≠ 0 then s.alignSize else c.portSize beyond) = v at *
  have signed := signedSmall (v := v) (by omega)
  split
  · rename_i less
    rw [BitVec.lt_def, signed, number] at less
    have small : (s.size.setWidth 32 : BitVec 32).toNat = s.size.toNat := by
      rw [BitVec.toNat_setWidth, Nat.mod_eq_of_lt (by omega)]
    rw [signedSmall (by omega), small, Nat.min_eq_left (by omega)]
  · rename_i more
    rw [BitVec.lt_def, signed, number] at more
    rw [signed, number, Nat.min_eq_right (by omega)]

theorem blockBytes (stage : c.stageBits ≤ 30) (fits : c.interleavingBits + c.stageBits ≤ 31) {offset : Word} {i : Nat}
    (inside : offset.toNat % 2 ^ c.interleavingBits + i < 2 ^ c.interleavingBits) :
    c.outputId beyond (offset + BitVec.ofNat 64 i) = c.outputId beyond offset ∧
      c.newOffset beyond (offset + BitVec.ofNat 64 i) = c.newOffset beyond offset + BitVec.ofNat 64 i := by
  have parts := Nat.div_add_mod' offset.toNat (2 ^ c.interleavingBits)
  have shape : offset.toNat + i = 2 ^ c.interleavingBits * (offset.toNat / 2 ^ c.interleavingBits) +
      (offset.toNat % 2 ^ c.interleavingBits + i) := by
    rw [Nat.mul_comm]
    omega
  have high : (offset.toNat + i) / 2 ^ c.interleavingBits = offset.toNat / 2 ^ c.interleavingBits := by
    rw [shape, Nat.mul_add_div (Nat.two_pow_pos _), Nat.div_eq_of_lt inside, Nat.add_zero]
  have low : (offset.toNat + i) % 2 ^ c.interleavingBits = offset.toNat % 2 ^ c.interleavingBits + i := by
    rw [shape, Nat.mul_add_mod, Nat.mod_eq_of_lt inside]
  -- A block does not reach over the end of the address space.
  have bound : offset.toNat + i < 2 ^ 64 := by
    have whole : 2 ^ 64 = 2 ^ (64 - c.interleavingBits) * 2 ^ c.interleavingBits := by
      rw [← pow_add]
      congr 1
      omega
    have last : offset.toNat / 2 ^ c.interleavingBits < 2 ^ (64 - c.interleavingBits) := by
      rw [Nat.div_lt_iff_lt_mul (Nat.two_pow_pos _), ← whole]
      exact offset.isLt
    rw [shape, whole, Nat.mul_comm]
    exact joinBelow last inside
  have number : (offset + BitVec.ofNat 64 i).toNat = offset.toNat + i := by
    rw [BitVec.toNat_add, BitVec.toNat_ofNat, Nat.add_mod_mod, Nat.mod_eq_of_lt bound]
  refine ⟨?_, ?_⟩
  · rw [outputIdNumber (by omega), outputIdNumber (by omega), number, high]
  · apply BitVec.eq_of_toNat_eq
    have far : (offset.toNat + i) / 2 ^ (c.interleavingBits + c.stageBits) = offset.toNat / 2 ^ (c.interleavingBits + c.stageBits) := by
      rw [pow_add, ← Nat.div_div_eq_div_mul, ← Nat.div_div_eq_div_mul, high]
    have sum : (c.newOffset beyond _).toNat = _ := newOffsetNumber fits (offset + BitVec.ofNat 64 i)
    have base : (c.newOffset beyond _).toNat = _ := newOffsetNumber fits offset
    rw [number, far, low] at sum
    rw [← Nat.add_assoc, ← base] at sum
    have below := (c.newOffset beyond (offset + BitVec.ofNat 64 i)).isLt
    rw [BitVec.toNat_add, BitVec.toNat_ofNat, Nat.add_mod_mod, ← sum, Nat.mod_eq_of_lt below]

theorem inputPlace (multiple : c.removeOffset.toNat % 2 ^ c.interleavingBits = 0) (block : c.interleavingBits ≤ 30) :
    s.offset.toNat % 2 ^ c.interleavingBits = (s.input c).toNat % 2 ^ c.interleavingBits := by
  have divides : 2 ^ c.interleavingBits ∣ 2 ^ 64 := pow_dvd_pow 2 (by omega)
  unfold Loop.input
  rw [BitVec.toNat_add, Nat.mod_mod_of_dvd _ divides, Nat.add_mod, multiple]
  simp

structure Tiled (beyond : Nat → BitVec 32) (c : Config) (r : Req) (s : Loop) : Prop where
  left : s.size.toNat ≤ r.size.toNat
  place : s.input c - r.addr = r.size - s.size
  aligned : s.size ≠ 0 → Aligned c s
  tiles : Tiles (fun f => (f.input - r.addr).toNat) (fun f => f.size.toNat) 0 s.forwards (r.size.toNat - s.size.toNat)
  block : ∀ f ∈ s.forwards, f.input.toNat % 2 ^ c.interleavingBits + f.size.toNat ≤ 2 ^ c.interleavingBits
  bytes : ∀ f ∈ s.forwards, ∀ i < f.size.toNat,
    f.output = c.id beyond (f.input + BitVec.ofNat 64 i) ∧
    f.addr + BitVec.ofNat 64 i = c.local beyond (f.input + BitVec.ofNat 64 i)

theorem alignSizeNumber (block : c.interleavingBits ≤ 30) (x : Word) :
    (c.alignSize beyond x = 0 → x.toNat % 2 ^ c.interleavingBits = 0) ∧
      (c.alignSize beyond x ≠ 0 → (c.alignSize beyond x).toNat = c.blockLeft x) := by
  have limit := blockSmall block
  have low := Nat.mod_lt x.toNat (Nat.two_pow_pos c.interleavingBits)
  have number : ((x &&& (c.portSize beyond - 1).signExtend 64).setWidth 32 : BitVec 32).toNat = x.toNat % 2 ^ c.interleavingBits := by
    unfold Config.portSize
    rw [BitVec.toNat_setWidth, lowNumber _ (by omega), Nat.mod_eq_of_lt (by omega)]
  have port : (c.portSize beyond).toNat = 2 ^ c.interleavingBits := oneNumber (by omega)
  unfold Config.alignSize
  dsimp only
  generalize ((x &&& (c.portSize beyond - 1).signExtend 64).setWidth 32 : BitVec 32) = align at *
  split
  · rename_i some
    have positive : align.toNat ≠ 0 := fun zero => some (BitVec.eq_of_toNat_eq (by simpa using zero))
    have rest : (c.portSize beyond - align).toNat = c.blockLeft x := by
      unfold Config.blockLeft
      rw [BitVec.toNat_sub_of_le (by rw [BitVec.le_def]; omega), port, number]
    refine ⟨fun zero => ?_, fun _ => rest⟩
    rw [zero] at rest
    have := (blockLeftBounds (c := c) x).1
    simp at rest
    omega
  · rename_i none
    refine ⟨fun zero => ?_, fun other => absurd (not_not.mp none) other⟩
    rw [← number, zero]
    rfl

theorem startTiled (block : c.interleavingBits ≤ 30) (r : Req) :
    Tiled beyond c r ⟨r, r.addr - c.removeOffset, r.size, r.data, c.alignSize beyond r.addr, []⟩ := by
  have input : Loop.input c ⟨r, r.addr - c.removeOffset, r.size, r.data, c.alignSize beyond r.addr, []⟩ = r.addr := by
    unfold Loop.input
    dsimp only
    ring
  obtain ⟨start, inside⟩ : (c.alignSize beyond r.addr = 0 → _) ∧ _ := alignSizeNumber block r.addr
  refine ⟨Nat.le_refl _, ?_, fun _ => ⟨?_, ?_⟩, ?_, by simp, by simp⟩
  · rw [input]
    dsimp only
    ring
  · rw [input]
    exact start
  · rw [input]
    exact inside
  · simpa using Tiles.nil 0

theorem forwardTiled (multiple : c.removeOffset.toNat % 2 ^ c.interleavingBits = 0) (block : c.interleavingBits ≤ 30)
    (stage : c.stageBits ≤ 30) (fits : c.interleavingBits + c.stageBits ≤ 31) (tiled : Tiled beyond c r s) (size : s.size ≠ 0) :
    Tiled beyond c r (s.forward beyond c) ∧ (s.forward beyond c).size.toNat < s.size.toNat := by
  have positive : s.size.toNat ≠ 0 := fun zero => size (BitVec.eq_of_toNat_eq (by simpa using zero))
  have number : (s.loopSize beyond c).toNat = _ := loopSizeNumber block (tiled.aligned size)
  obtain ⟨some, most, ends⟩ := blockLeftBounds (c := c) (s.input c)
  have left := tiled.left
  have rest : (s.size - s.loopSize beyond c).toNat = s.size.toNat - (s.loopSize beyond c).toNat :=
    BitVec.toNat_sub_of_le (by rw [BitVec.le_def]; omega)
  have position : (s.input c - r.addr).toNat = r.size.toNat - s.size.toNat := by
    rw [tiled.place]
    exact BitVec.toNat_sub_of_le left
  have next : (s.forward beyond c).input c = s.input c + s.loopSize beyond c := by
    unfold Loop.forward Loop.input
    dsimp only
    ring
  refine ⟨⟨?_, ?_, ?_, ?_, ?_, ?_⟩, ?_⟩
  · simp only [Loop.forward, rest]
    omega
  · rw [next]
    have place := tiled.place
    simp only [Loop.forward]
    calc s.input c + s.loopSize beyond c - r.addr = s.input c - r.addr + s.loopSize beyond c := by ring
      _ = r.size - (s.size - s.loopSize beyond c) := by rw [place]; ring
  · -- What is left of the request starts at a block.
    intro more
    have block' : (s.loopSize beyond c).toNat = c.blockLeft (s.input c) := by
      rw [number]
      refine Nat.min_eq_right ?_
      by_contra short
      refine more (BitVec.eq_of_toNat_eq ?_)
      simp only [Loop.forward, rest]
      rw [number, Nat.min_eq_left (by omega)]
      simp
    refine ⟨fun _ => ?_, fun other => absurd rfl other⟩
    have divides : 2 ^ c.interleavingBits ∣ 2 ^ 64 := pow_dvd_pow 2 (by omega)
    rw [next, BitVec.toNat_add, Nat.mod_mod_of_dvd _ divides, Nat.add_mod, block', Nat.add_mod, Nat.mod_mod, Nat.mod_mod,
      ← Nat.add_mod, ← Nat.mod_add_mod, ends, Nat.mod_self]
  · have longer := Tiling.tilesSnoc (⟨s.offset + c.removeOffset, c.outputId beyond s.offset, c.newOffset beyond s.offset,
      s.loopSize beyond c, s.data⟩ : Forward) tiled.tiles position (by dsimp only; omega)
    simp only [Loop.forward, rest]
    have stop : r.size.toNat - (s.size.toNat - (s.loopSize beyond c).toNat) =
        r.size.toNat - s.size.toNat + (s.loopSize beyond c).toNat := by omega
    rw [stop]
    exact longer
  · intro f member
    rcases List.mem_append.mp member with before | new
    · exact tiled.block f before
    · rw [List.mem_singleton.mp new]
      change (s.input c).toNat % 2 ^ c.interleavingBits + (s.loopSize beyond c).toNat ≤ 2 ^ c.interleavingBits
      omega
  · intro f member
    rcases List.mem_append.mp member with before | new
    · exact tiled.bytes f before
    · rw [List.mem_singleton.mp new]
      intro i inside
      dsimp only at inside ⊢
      have same := inputPlace (s := s) multiple block
      obtain ⟨output, place⟩ : c.outputId beyond (s.offset + BitVec.ofNat 64 i) = _ ∧ _ := blockBytes stage fits (by omega)
      have back : s.offset + c.removeOffset + BitVec.ofNat 64 i - c.removeOffset = s.offset + BitVec.ofNat 64 i := by ring
      unfold Config.id Config.local
      rw [back]
      exact ⟨output.symm, place.symm⟩
  · simp only [Loop.forward, rest]
    omega

theorem runInterleaved {fuel : Nat} (multiple : c.removeOffset.toNat % 2 ^ c.interleavingBits = 0)
    (block : c.interleavingBits ≤ 30) (stage : c.stageBits ≤ 30) (fits : c.interleavingBits + c.stageBits ≤ 31)
    (tiled : Tiled beyond c r s) (enough : s.size.toNat ≤ fuel) :
    ∃ ret, s.run beyond c (fun _ => .ok) r fuel = some ret ∧ Interleaved beyond c r ret := by
  induction fuel generalizing s with
  | zero =>
      have size : s.size = 0 := BitVec.eq_of_toNat_eq (by simpa using enough)
      refine ⟨⟨.ok, r, s.forwards⟩, by unfold Loop.run; rw [if_pos size], rfl, rfl, ?_, tiled.block, tiled.bytes⟩
      simpa [size] using tiled.tiles
  | succ fuel ih =>
      by_cases size : s.size = 0
      · refine ⟨⟨.ok, r, s.forwards⟩, by unfold Loop.run; rw [if_pos size], rfl, rfl, ?_, tiled.block, tiled.bytes⟩
        simpa [size] using tiled.tiles
      · obtain ⟨next, less⟩ := forwardTiled multiple block stage fits tiled size
        obtain ⟨ret, returns, interleaved⟩ := ih next (by omega)
        refine ⟨ret, ?_, interleaved⟩
        unfold Loop.run
        rw [if_neg size]
        exact returns

end Loop

section Geometry

variable {beyond : Nat → BitVec 32} {c : Config}

/- A mask without its upper half drops the upper bits of the offset. -/
theorem droppedBits (power : 2 ^ c.stageBits ≤ c.nbSlaves) (block : c.interleavingBits ≤ 30)
    (positive : (~~~(one beyond (c.interleavingBits + c.stageBits) - 1)).msb = false) : ¬ Banked beyond c := by
  intro banked
  have small := stageSmall power
  have top : (BitVec.ofNat 64 (2 ^ 63)).toNat = 2 ^ 63 := by decide
  have mask : (BitVec.ofNat 64 (2 ^ 63) &&& c.offsetMask beyond) = 0 := by
    apply BitVec.eq_of_getLsbD_eq
    intro i inside
    unfold Config.offsetMask
    rw [BitVec.getLsbD_and, BitVec.getLsbD_signExtend, positive]
    by_cases low : i < 32
    · have zero : (BitVec.ofNat 64 (2 ^ 63)).getLsbD i = false := by
        rw [BitVec.getLsbD_ofNat, Nat.testBit_two_pow_of_ne (by omega)]
        simp
      rw [zero, Bool.false_and]
      simp
    · simp [low]
  have equal := banked.injective (0 + c.removeOffset) (BitVec.ofNat 64 (2 ^ 63) + c.removeOffset) ?_ ?_
  · have zero : (0 : Word) = BitVec.ofNat 64 (2 ^ 63) := by
      calc (0 : Word) = 0 + c.removeOffset - c.removeOffset := by ring
        _ = BitVec.ofNat 64 (2 ^ 63) + c.removeOffset - c.removeOffset := by rw [equal]
        _ = BitVec.ofNat 64 (2 ^ 63) := by ring
    revert zero
    decide
  · unfold Config.id
    rw [add_sub_cancel_right, add_sub_cancel_right, outputIdNumber (by omega), outputIdNumber (by omega), top,
      Nat.pow_div (by omega) (by omega)]
    have divides : 2 ^ c.stageBits ∣ 2 ^ (63 - c.interleavingBits) := pow_dvd_pow 2 (by omega)
    rw [Nat.mod_eq_zero_of_dvd divides]
    simp
  · unfold Config.local Config.newOffset
    rw [add_sub_cancel_right, add_sub_cancel_right, mask]
    congr 1
    · simp
    · apply BitVec.eq_of_toNat_eq
      rw [lowNumber _ (by omega), lowNumber _ (by omega), top, Nat.mod_eq_zero_of_dvd (pow_dvd_pow 2 (by omega))]
      simp

/- A mask with its upper half keeps bit 31, which belongs to the number of the slave. -/
theorem keptBit (power : 2 ^ c.stageBits ≤ c.nbSlaves) (block : c.interleavingBits ≤ 30)
    (wide : 32 ≤ c.interleavingBits + c.stageBits)
    (negative : (~~~(one beyond (c.interleavingBits + c.stageBits) - 1)).msb = true) : ¬ Banked beyond c := by
  intro banked
  have small := stageSmall power
  have stage : 0 < 2 ^ c.stageBits := Nat.two_pow_pos _
  obtain ⟨x, id, place⟩ := banked.onto (2 ^ c.stageBits - 1) (by omega) 0 (by simp)
  unfold Config.id Config.local at *
  generalize x - c.removeOffset = y at *
  have bit : y.getLsbD 31 = true := by
    rw [outputIdNumber (by omega)] at id
    have ones := congrArg (fun n => n.testBit (31 - c.interleavingBits)) id
    simp only [Nat.testBit_mod_two_pow, Nat.testBit_div_two_pow, Nat.testBit_two_pow_sub_one,
      show 31 - c.interleavingBits + c.interleavingBits = 31 by omega, BitVec.testBit_toNat] at ones
    simpa [show 31 - c.interleavingBits < c.stageBits by omega] using ones
  have kept : ((y &&& c.offsetMask beyond) >>> c.stageBits).getLsbD (31 - c.stageBits) = true := by
    have sign : (~~~(one beyond (c.interleavingBits + c.stageBits) - 1)).getLsbD 31 = true := by
      rw [← negative, BitVec.msb_eq_getLsbD_last]
    unfold Config.offsetMask
    rw [BitVec.getLsbD_ushiftRight, show c.stageBits + (31 - c.stageBits) = 31 by omega, BitVec.getLsbD_and,
      BitVec.getLsbD_signExtend, bit, sign]
    simp
  have some : ((y &&& c.offsetMask beyond) >>> c.stageBits).toNat ≠ 0 := by
    intro zero
    have empty : ((y &&& c.offsetMask beyond) >>> c.stageBits) = 0 := BitVec.eq_of_toNat_eq (by simpa using zero)
    rw [empty] at kept
    simp at kept
  have upper : ((y &&& c.offsetMask beyond) >>> c.stageBits).toNat < 2 ^ 62 := by
    rw [BitVec.toNat_ushiftRight, Nat.shiftRight_eq_div_pow, Nat.div_lt_iff_lt_mul stage]
    calc (y &&& c.offsetMask beyond).toNat < 2 ^ 64 := BitVec.isLt _
      _ = 2 ^ 62 * 2 ^ 2 := by decide
      _ ≤ 2 ^ 62 * 2 ^ c.stageBits := Nat.mul_le_mul_left _ (Nat.pow_le_pow_right (by omega) (by omega))
  have lower : (y &&& (one beyond c.interleavingBits - 1).signExtend 64).toNat < 2 ^ 31 := by
    rw [lowNumber _ (by omega)]
    exact lt_trans (Nat.mod_lt _ (Nat.two_pow_pos _)) (blockSmall block)
  have sum := congrArg BitVec.toNat place
  unfold Config.newOffset at sum
  rw [BitVec.toNat_add, Nat.mod_eq_of_lt (by omega)] at sum
  simp only [BitVec.toNat_ofNat, BitVec.ofNat_eq_ofNat, Nat.zero_mod] at sum
  omega

theorem interleaves (power : 2 ^ c.stageBits ≤ c.nbSlaves) (multiple : c.removeOffset.toNat % 2 ^ c.interleavingBits = 0)
    (block : c.interleavingBits ≤ 30) : Works beyond c ↔ c.interleavingBits + c.stageBits ≤ 31 := by
  have small := stageSmall power
  constructor
  · intro works
    by_contra wide
    cases sign : (~~~(one beyond (c.interleavingBits + c.stageBits) - 1)).msb with
    | false => exact droppedBits power block sign works.banked
    | true => exact keptBit power block (by omega) sign works.banked
  · intro fits
    refine ⟨⟨bankedRange power fits, fun _ _ => bankedInjective power fits, fun _ inBank _ => bankedOnto power fits inBank⟩, ?_⟩
    intro r fuel enough
    exact runInterleaved multiple block small fits (startTiled block r) enough

def fourBytes : Config := ⟨4, 0, 2, 0x1000, by decide⟩

def shiftCount (bits : Nat) : BitVec 32 := 1#32 <<< (bits % 32)

theorem interleavesFourBytes :
    (fourBytes.req shiftCount (fun _ => .ok) 10 ⟨0x100e, 7, 0x80⟩).map (fun ret => ret.forwards.map (fun f => (f.output, f.addr, f.size, f.data))) =
      some [(3, 2, 2, 0x80), (0, 4, 4, 0x82), (1, 4, 1, 0x86)] ∧ Works shiftCount fourBytes :=
  ⟨by decide, (interleaves (by decide) (by decide) (by decide)).mpr (by decide)⟩

def gigabytes : Config := ⟨4, 2, 30, 0, by decide⟩

theorem banksOverlap : 2 ^ gigabytes.stageBits ≤ gigabytes.nbSlaves ∧
    gigabytes.removeOffset.toNat % 2 ^ gigabytes.interleavingBits = 0 ∧
    gigabytes.id shiftCount 858993460 = gigabytes.id shiftCount 4294967297 ∧
    gigabytes.local shiftCount 858993460 = gigabytes.local shiftCount 4294967297 ∧ ∀ beyond, ¬ Works beyond gigabytes := by
  refine ⟨by decide, by decide, by decide, by decide, ?_⟩
  intro beyond works
  cases sign : (~~~(one beyond (gigabytes.interleavingBits + gigabytes.stageBits) - 1)).msb with
  | false => exact droppedBits (by decide) (by decide) sign works.banked
  | true => exact keptBit (by decide) (by decide) (by decide) sign works.banked

end Geometry

end Gvsoc.Interleave
