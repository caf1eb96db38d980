import Mathlib.Data.BitVec

/-! Registers that bits go through one by one, and the bits of a number from the highest one down. -/
namespace Gvsoc.ShiftRegister

variable {w n : Nat}

def bit (w : Nat) (b : Bool) : BitVec w := (BitVec.ofBool b).setWidth w

def shiftIn (word : BitVec w) (bits : List Bool) : BitVec w := bits.foldl (fun word b => word <<< 1 ||| bit w b) word

def msbFirst (x : BitVec n) : List Bool := (List.range n).map x.getMsbD

@[simp] theorem shiftInNil (word : BitVec w) : shiftIn word [] = word := rfl

@[simp] theorem shiftInCons (word : BitVec w) (b : Bool) (bits : List Bool) :
    shiftIn word (b :: bits) = shiftIn (word <<< 1 ||| bit w b) bits := rfl

theorem shiftInAppend (word : BitVec w) (first second : List Bool) :
    shiftIn word (first ++ second) = shiftIn (shiftIn word first) second := List.foldl_append

@[simp] theorem msbFirstLength (x : BitVec n) : (msbFirst x).length = n := by simp [msbFirst]

theorem shiftInBit (word : BitVec w) (bits : List Bool) {i : Nat} (inside : i < w) :
    (shiftIn word bits).getLsbD i =
      if i < bits.length then bits.getD (bits.length - 1 - i) false else word.getLsbD (i - bits.length) := by
  induction bits generalizing word with
  | nil => simp
  | cons b rest ih =>
      rw [shiftInCons, ih, List.length_cons]
      by_cases later : i < rest.length
      · have place : rest.length + 1 - 1 - i = (rest.length - 1 - i) + 1 := by omega
        rw [if_pos later, if_pos (by omega), place, List.getD_cons_succ]
      · rw [if_neg later]
        by_cases first : i = rest.length
        · subst first
          have room : b = true → 0 < w := fun _ => by omega
          simpa [bit] using room
        · have place : i - rest.length = i - (rest.length + 1) + 1 := by omega
          rw [if_neg (by omega), place]
          simp [bit, BitVec.getLsbD_shiftLeft]
          omega

theorem shiftInWhole (word : BitVec w) (x : BitVec n) (fits : n ≤ w) : (shiftIn word (msbFirst x)).setWidth n = x := by
  ext i inside
  have place : n - 1 - (n - 1 - i) = i := by omega
  have counted : n - 1 - i < n := by omega
  rw [BitVec.getElem_setWidth, shiftInBit word (msbFirst x) (by omega), msbFirstLength, if_pos inside]
  simp [msbFirst, counted, BitVec.getMsbD, place, BitVec.getLsbD_eq_getElem inside]

theorem maskLow (x : BitVec w) (k : Nat) : x &&& BitVec.ofNat w (2 ^ k - 1) = (x.setWidth k).setWidth w := by
  apply BitVec.eq_of_getLsbD_eq
  intro i inside
  simp only [BitVec.getLsbD_and, BitVec.getLsbD_ofNat, Nat.testBit_two_pow_sub_one, BitVec.getLsbD_setWidth, inside, decide_true,
    Bool.true_and, Bool.and_comm]

section Down

def shiftDown (word : BitVec w) (b : Bool) : BitVec w := (word >>> 1) ||| (bit w b <<< (w - 1))

theorem shiftDownBit (word : BitVec w) (b : Bool) {i : Nat} (inside : i < w) :
    (shiftDown word b).getLsbD i = if i = w - 1 then b else word.getLsbD (i + 1) := by
  unfold shiftDown bit
  rw [BitVec.getLsbD_or, BitVec.getLsbD_ushiftRight, BitVec.getLsbD_shiftLeft, Nat.add_comm 1 i]
  by_cases top : i = w - 1
  · rw [if_pos top, top, BitVec.getLsbD_of_ge word _ (by omega)]
    cases b with
    | false => simp
    | true =>
        simp
        omega
  · have below : i < w - 1 := by omega
    simp [top, below]

variable {word x : BitVec w} {k : Nat}

theorem shiftDownNext (more : k < w) (before : ∀ i < k, word.getLsbD (w - k + i) = x.getLsbD i) :
    ∀ i < k + 1, (shiftDown word (x.getLsbD k)).getLsbD (w - (k + 1) + i) = x.getLsbD i := by
  intro i inside
  rw [shiftDownBit _ _ (by omega)]
  by_cases last : i = k
  · rw [last, if_pos (by omega)]
  · rw [if_neg (by omega), show w - (k + 1) + i + 1 = w - k + i by omega]
    exact before i (by omega)

theorem shiftDownWhole (all : ∀ i < w, word.getLsbD (w - w + i) = x.getLsbD i) : word = x := by
  apply BitVec.eq_of_getLsbD_eq
  intro i inside
  have same := all i inside
  rwa [Nat.sub_self, Nat.zero_add] at same

end Down

end Gvsoc.ShiftRegister
