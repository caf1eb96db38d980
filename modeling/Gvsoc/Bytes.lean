import Mathlib.Data.Nat.Bitwise
import Mathlib.Tactic.Ring

/-! Words seen as little-endian bytes: single bytes and ranges of bytes written into a word,
and the number that a range of bytes stands for. -/
namespace Gvsoc.Bytes

abbrev Byte := BitVec 8

instance lawful : LawfulBEq Byte := inferInstance

section Put

variable {w : Nat}

def putByte (v : BitVec w) (i : Nat) (b : Byte) : BitVec w :=
  (v &&& ~~~((255#8).setWidth w <<< (8 * i))) ||| (b.setWidth w <<< (8 * i))

theorem putByteBit (v : BitVec w) (i : Nat) (b : Byte) (k : Nat) (small : k < w) :
    (putByte v i b).getLsbD k = if k / 8 = i then b.getLsbD (k % 8) else v.getLsbD k := by
  unfold putByte
  simp only [BitVec.getLsbD_or, BitVec.getLsbD_and, BitVec.getLsbD_not, BitVec.getLsbD_shiftLeft,
    BitVec.getLsbD_setWidth, small, decide_true, Bool.true_and]
  by_cases low : k < 8 * i
  · have apart : k / 8 ≠ i := by omega
    simp [low, apart]
  · have inner : k - 8 * i < w := by omega
    simp only [low, inner, decide_false, decide_true, Bool.not_false, Bool.true_and]
    by_cases same : k / 8 = i
    · have offset : k - 8 * i = k % 8 := by omega
      have bound : k % 8 < 8 := Nat.mod_lt _ (by omega)
      have ones : (255#8).getLsbD (k % 8) = true := by
        rw [show 255#8 = BitVec.allOnes 8 by decide, BitVec.getLsbD_allOnes]
        simpa using bound
      rw [offset, ones, if_pos same]
      simp
    · have past : 8 ≤ k - 8 * i := by omega
      rw [BitVec.getLsbD_of_ge _ _ past, BitVec.getLsbD_of_ge _ _ past, if_neg same]
      simp

def putBytes (v : BitVec w) (start : Nat) : Nat → (Nat → Byte) → BitVec w
  | 0, _ => v
  | n + 1, bytes => putByte (putBytes v start n bytes) (start + n) (bytes (start + n))

theorem putBytesBit (v : BitVec w) (start n : Nat) (bytes : Nat → Byte) (k : Nat) (small : k < w) :
    (putBytes v start n bytes).getLsbD k =
      if start ≤ k / 8 ∧ k / 8 < start + n then (bytes (k / 8)).getLsbD (k % 8) else v.getLsbD k := by
  induction n with
  | zero =>
      rw [if_neg (by omega)]
      rfl
  | succ n ih =>
      unfold putBytes
      rw [putByteBit _ _ _ _ small]
      by_cases here : k / 8 = start + n
      · rw [if_pos here, if_pos ⟨by omega, by omega⟩, here]
      · rw [if_neg here, ih]
        by_cases inside : start ≤ k / 8 ∧ k / 8 < start + n
        · rw [if_pos inside, if_pos ⟨by omega, by omega⟩]
        · rw [if_neg inside, if_neg (by omega)]

theorem putBytesAbsorbs (v : BitVec w) (start n i : Nat) (bytes : Nat → Byte) (inside : i < n) :
    putBytes (putByte v (start + i) (bytes (start + i))) start n bytes = putBytes v start n bytes := by
  apply BitVec.eq_of_getLsbD_eq
  intro k small
  rw [putBytesBit _ _ _ _ _ small, putBytesBit _ _ _ _ _ small, putByteBit _ _ _ _ small]
  by_cases covered : start ≤ k / 8 ∧ k / 8 < start + n
  · simp only [covered, and_self, if_true]
  · rw [if_neg covered, if_neg covered, if_neg (by omega)]

theorem putBytesJoin (v : BitVec w) (start n m : Nat) (bytes : Nat → Byte) :
    putBytes (putBytes v start n bytes) (start + n) m bytes = putBytes v start (n + m) bytes := by
  apply BitVec.eq_of_getLsbD_eq
  intro k small
  rw [putBytesBit _ _ _ _ _ small, putBytesBit _ _ _ _ _ small, putBytesBit _ _ _ _ _ small]
  by_cases late : start + n ≤ k / 8 ∧ k / 8 < start + n + m
  · rw [if_pos late, if_pos ⟨by omega, by omega⟩]
  · rw [if_neg late]
    by_cases early : start ≤ k / 8 ∧ k / 8 < start + n
    · rw [if_pos early, if_pos ⟨by omega, by omega⟩]
    · rw [if_neg early, if_neg (by omega)]

end Put

def littleEndian (bytes : Nat → Byte) : Nat → Nat
  | 0 => 0
  | n + 1 => 2 ^ (8 * n) * (bytes n).toNat + littleEndian bytes n

theorem littleEndianBound (bytes : Nat → Byte) (n : Nat) : littleEndian bytes n < 2 ^ (8 * n) := by
  induction n with
  | zero => simp [littleEndian]
  | succ n ih =>
      have byte : (bytes n).toNat + 1 ≤ 2 ^ 8 := (bytes n).isLt
      calc littleEndian bytes (n + 1) < 2 ^ (8 * n) * (bytes n).toNat + 2 ^ (8 * n) := Nat.add_lt_add_left ih _
        _ = 2 ^ (8 * n) * ((bytes n).toNat + 1) := by ring
        _ ≤ 2 ^ (8 * n) * 2 ^ 8 := Nat.mul_le_mul_left _ byte
        _ = 2 ^ (8 * (n + 1)) := by rw [← pow_add]; ring_nf

theorem littleEndianBit (bytes : Nat → Byte) (n k : Nat) :
    (littleEndian bytes n).testBit k = (decide (k / 8 < n) && (bytes (k / 8)).getLsbD (k % 8)) := by
  induction n with
  | zero => simp [littleEndian]
  | succ n ih =>
      unfold littleEndian
      rw [Nat.testBit_two_pow_mul_add _ (littleEndianBound bytes n)]
      split
      · rename_i low
        rw [ih]
        simp [show k / 8 < n by omega, show k / 8 < n + 1 by omega]
      · rename_i high
        by_cases here : k / 8 = n
        · subst here
          rw [show k - 8 * (k / 8) = k % 8 by omega]
          simp [BitVec.getLsbD]
        · have past : 8 ≤ k - 8 * n := by omega
          have zero : (bytes n).toNat.testBit (k - 8 * n) = false := by
            rw [BitVec.testBit_toNat]
            exact BitVec.getLsbD_of_ge _ _ past
          rw [zero]
          simp [show ¬ k / 8 < n + 1 by omega]

theorem putBytesZero {w : Nat} (n : Nat) (bytes : Nat → Byte) :
    putBytes 0#w 0 n bytes = BitVec.ofNat w (littleEndian bytes n) := by
  apply BitVec.eq_of_getLsbD_eq
  intro k small
  have number : (BitVec.ofNat w (littleEndian bytes n)).getLsbD k =
      (decide (k / 8 < n) && (bytes (k / 8)).getLsbD (k % 8)) := by
    rw [BitVec.getLsbD_ofNat, littleEndianBit]
    simp [small]
  rw [putBytesBit _ _ _ _ _ small, number]
  by_cases inside : k / 8 < n <;> simp [inside]

def byteOf {w : Nat} (v : BitVec w) (i : Nat) : Byte := (v >>> (8 * i)).setWidth 8

theorem joinByte {w : Nat} (low high : Nat → Byte) {n m i : Nat} (inside : 8 * i + 8 ≤ w) (covered : i < n + m) :
    byteOf (BitVec.ofNat w (littleEndian low n) ||| (BitVec.ofNat w (littleEndian high m) <<< (n * 8))) i =
      if i < n then low i else high (i - n) := by
  apply BitVec.eq_of_getLsbD_eq
  intro k small
  have wide : 8 * i + k < w := by omega
  have byte : (8 * i + k) / 8 = i ∧ (8 * i + k) % 8 = k := by omega
  simp only [byteOf, BitVec.getLsbD_setWidth, BitVec.getLsbD_ushiftRight, BitVec.getLsbD_or, BitVec.getLsbD_shiftLeft,
    BitVec.getLsbD_ofNat, littleEndianBit, byte.1, byte.2, decide_eq_true small, decide_eq_true wide, Bool.true_and]
  by_cases first : i < n
  · have below : 8 * i + k < n * 8 := by omega
    rw [if_pos first]
    simp [first, below]
  · have above : ¬ 8 * i + k < n * 8 := by omega
    have shifted : (8 * i + k - n * 8) / 8 = i - n ∧ (8 * i + k - n * 8) % 8 = k := by omega
    have bound : 8 * i + k - n * 8 < w := by omega
    rw [if_neg first, shifted.1, shifted.2]
    simp [first, above, bound, show i - n < m by omega]

theorem numberByte {w : Nat} (bytes : Nat → Byte) {n i : Nat} (inside : 8 * i + 8 ≤ w) (covered : i < n) :
    byteOf (BitVec.ofNat w (littleEndian bytes n)) i = bytes i := by
  have joined := joinByte bytes bytes (m := 0) inside covered
  rw [if_pos covered] at joined
  simpa [littleEndian] using joined

section Words

def wordBytes {w : Nat} (v : BitVec w) (n : Nat) : List Byte := (List.range n).map (byteOf v)

def wordOf (w : Nat) (bytes : List Byte) : BitVec w := BitVec.ofNat w (littleEndian (fun i => bytes.getD i 0) bytes.length)

@[simp] theorem wordBytesLength {w : Nat} (v : BitVec w) (n : Nat) : (wordBytes v n).length = n := by simp [wordBytes]

theorem wordBytesNumber {w : Nat} (v : BitVec w) (n : Nat) :
    littleEndian (fun i => (wordBytes v n).getD i 0) n = v.toNat % 2 ^ (8 * n) := by
  apply Nat.eq_of_testBit_eq
  intro k
  rw [littleEndianBit, Nat.testBit_mod_two_pow]
  by_cases low : k / 8 < n
  · have inside : k < 8 * n := by omega
    have small : k % 8 < 8 := Nat.mod_lt _ (by omega)
    have entry : (wordBytes v n).getD (k / 8) 0 = byteOf v (k / 8) := by simp [wordBytes, low]
    have bit : (byteOf v (k / 8)).getLsbD (k % 8) = v.getLsbD k := by
      simp only [byteOf, BitVec.getLsbD_setWidth, small, decide_true, Bool.true_and, BitVec.getLsbD_ushiftRight]
      rw [Nat.div_add_mod]
    rw [entry, bit]
    simp [low, inside, BitVec.getLsbD]
  · simp [low, show ¬ k < 8 * n by omega]

theorem wordOfBytes {w : Nat} (v : BitVec w) (n : Nat) (fits : v.toNat < 2 ^ (8 * n)) : wordOf w (wordBytes v n) = v := by
  rw [wordOf, wordBytesLength, wordBytesNumber, Nat.mod_eq_of_lt fits, BitVec.ofNat_toNat, BitVec.setWidth_eq]

theorem wordBytesSnoc {w : Nat} (x c : BitVec w) (k : Nat) (below : x.toNat < 2 ^ (8 * k)) (byte : c.toNat < 2 ^ 8)
    (inside : 8 * (k + 1) ≤ w) :
    wordBytes (x ||| (c <<< (8 * k))) (k + 1) = wordBytes x k ++ [c.setWidth 8] ∧
      (x ||| (c <<< (8 * k))).toNat < 2 ^ (8 * (k + 1)) := by
  have high (i : Nat) (past : 8 * k ≤ i) : x.getLsbD i = false :=
    Nat.testBit_lt_two_pow (lt_of_lt_of_le below (Nat.pow_le_pow_right (by omega) past))
  constructor
  · rw [wordBytes, List.range_succ, List.map_append, List.map_singleton]
    congr 1
    · apply List.map_congr_left
      intro i member
      have low := List.mem_range.mp member
      apply BitVec.eq_of_getLsbD_eq
      intro j small
      simp [byteOf, small, show 8 * i + j < 8 * k by omega]
    · congr 1
      apply BitVec.eq_of_getLsbD_eq
      intro j small
      simp only [byteOf, BitVec.getLsbD_setWidth, BitVec.getLsbD_ushiftRight, BitVec.getLsbD_or, BitVec.getLsbD_shiftLeft,
        high (8 * k + j) (by omega), small, show 8 * k + j < w by omega, show ¬ 8 * k + j < 8 * k by omega,
        Nat.add_sub_cancel_left, decide_true, decide_false, Bool.true_and, Bool.false_or, Bool.not_false]
  · rw [BitVec.toNat_or, BitVec.toNat_shiftLeft]
    apply Nat.or_lt_two_pow
    · exact lt_of_lt_of_le below (Nat.pow_le_pow_right (by omega) (by omega))
    · refine lt_of_le_of_lt (Nat.mod_le _ _) ?_
      rw [Nat.shiftLeft_eq, show 8 * (k + 1) = 8 + 8 * k by omega, Nat.pow_add]
      exact Nat.mul_lt_mul_of_pos_right byte (Nat.two_pow_pos _)

end Words

theorem maskNumber {w k : Nat} (x : BitVec w) :
    (x &&& ~~~(BitVec.ofNat w (2 ^ k - 1))).toNat = x.toNat / 2 ^ k * 2 ^ k := by
  have shifts : x &&& ~~~(BitVec.ofNat w (2 ^ k - 1)) = (x >>> k) <<< k := by
    apply BitVec.eq_of_getLsbD_eq
    intro i small
    simp only [BitVec.getLsbD_and, BitVec.getLsbD_not, BitVec.getLsbD_ofNat, Nat.testBit_two_pow_sub_one,
      BitVec.getLsbD_shiftLeft, BitVec.getLsbD_ushiftRight, small, decide_true, Bool.true_and]
    by_cases low : i < k
    · simp [low]
    · simp [low, show k + (i - k) = i by omega]
  have bound : x.toNat / 2 ^ k * 2 ^ k < 2 ^ w := lt_of_le_of_lt (Nat.div_mul_le_self _ _) x.isLt
  rw [shifts, BitVec.toNat_shiftLeft, BitVec.toNat_ushiftRight, Nat.shiftRight_eq_div_pow, Nat.shiftLeft_eq,
    Nat.mod_eq_of_lt bound]

theorem signedNumber (v : BitVec 32) :
    (v.signExtend 64).toNat = v.toNat + if 2 ^ 31 ≤ v.toNat then 2 ^ 64 - 2 ^ 32 else 0 := by
  have bound := v.isLt
  rw [BitVec.toNat_signExtend, BitVec.msb_eq_decide, BitVec.toNat_setWidth, Nat.mod_eq_of_lt (by omega)]
  simp

theorem signedSmall {v : BitVec 32} (small : v.toNat < 2 ^ 31) : (v.signExtend 64).toNat = v.toNat := by
  rw [signedNumber, if_neg (by omega), Nat.add_zero]

/- Shifting left and arithmetically right again extends the sign of the low `n` bytes, whatever stood above them. -/
theorem shiftsExtend {w : Nat} (v : BitVec w) (n : Nat) (bytes : Nat → Byte) (positive : 0 < n) (fits : 8 * n ≤ w) :
    ((putBytes v 0 n bytes) <<< (w - 8 * n)).sshiftRight (w - 8 * n) =
      (BitVec.ofNat (8 * n) (littleEndian bytes n)).signExtend w := by
  apply BitVec.eq_of_getLsbD_eq
  intro k small
  have sign : (BitVec.ofNat (8 * n) (littleEndian bytes n)).msb = (bytes (n - 1)).getLsbD 7 := by
    rw [BitVec.msb_eq_getLsbD_last, BitVec.getLsbD_ofNat, littleEndianBit, show (8 * n - 1) / 8 = n - 1 by omega,
      show (8 * n - 1) % 8 = 7 by omega]
    simp [positive]
  rw [BitVec.getLsbD_signExtend, BitVec.getLsbD_sshiftRight, sign]
  have top : ((putBytes v 0 n bytes) <<< (w - 8 * n)).msb = (bytes (n - 1)).getLsbD 7 := by
    rw [BitVec.msb_eq_getLsbD_last, BitVec.getLsbD_shiftLeft, putBytesBit _ _ _ _ _ (by omega),
      show w - 1 - (w - 8 * n) = 8 * n - 1 by omega, show (8 * n - 1) / 8 = n - 1 by omega,
      show (8 * n - 1) % 8 = 7 by omega, if_pos ⟨by omega, by omega⟩]
    simp [show w - 1 < w by omega, show ¬ w - 1 < w - 8 * n by omega]
  rw [top]
  by_cases low : k < 8 * n
  · rw [if_pos (by omega), BitVec.getLsbD_shiftLeft, BitVec.getLsbD_ofNat, littleEndianBit,
      show w - 8 * n + k - (w - 8 * n) = k by omega, putBytesBit _ _ _ _ _ small, if_pos ⟨by omega, by omega⟩]
    simp [small, low, show w - 8 * n + k < w by omega, show ¬ w - 8 * n + k < w - 8 * n by omega, show ¬ w ≤ k by omega,
      show k / 8 < n by omega]
  · rw [if_neg (by omega)]
    simp [small, low, show ¬ w ≤ k by omega]

end Gvsoc.Bytes
