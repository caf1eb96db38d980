import Gvsoc.Io
import Mathlib.Tactic.Linarith

/-! The ring of characters between the socket and the packet codec. -/
namespace Gvsoc.Circular
open Bytes (Byte)
open Io (bytesFrom)

/- `CircularCharBuffer`. Head and tail are equal both when it is empty and when it is full. -/
structure CircularCharBuffer where
  buf : Nat → Byte
  head : Nat
  tail : Nat
  maxSize : Nat
  full : Bool

namespace CircularCharBuffer

variable (b : CircularCharBuffer)

def isEmpty : Bool := b.head == b.tail && !b.full

def isFull : Bool := b.full

def size : Nat :=
  if b.full then b.maxSize else if b.head ≤ b.tail then b.tail - b.head else b.maxSize - b.head + b.tail

def available : Nat := b.maxSize - b.size

def reset : CircularCharBuffer := { b with head := 0, tail := 0, full := false }

def commitWrite (l : Nat) : CircularCharBuffer :=
  if 0 < l then
    let tail := b.tail + l
    let tail := if tail ≥ b.maxSize then tail - b.maxSize else tail
    { b with tail := tail, full := if tail = b.head then true else b.full }
  else b

def writeBlock : CircularCharBuffer × Nat × Nat :=
  if b.isEmpty then ({ b with head := 0, tail := 0 }, 0, b.maxSize)
  else if b.isFull then (b, 0, 0)
  else if b.tail < b.head then (b, b.tail, b.head - b.tail)
  else (b, b.tail, b.maxSize - b.tail)

def commitRead (l : Nat) : CircularCharBuffer :=
  if 0 < l then
    let head := b.head + l
    { b with head := if head ≥ b.maxSize then head - b.maxSize else head, full := false }
  else b

def readBlock : Nat × Nat :=
  if b.isEmpty then (0, 0)
  else if b.tail ≤ b.head then (b.head, b.maxSize - b.head)
  else (b.head, b.tail - b.head)

def store (start : Nat) (s : List Byte) : CircularCharBuffer :=
  { b with buf := fun i => if start ≤ i ∧ i < start + s.length then s.getD (i - start) 0 else b.buf i }

/- The loop of `write_copy`, which copies from the start of `s` in every round. -/
def writeCopyLoop (s : List Byte) : Nat → CircularCharBuffer → Nat → CircularCharBuffer × Nat
  | 0, b, copied => (b, copied)
  | fuel + 1, b, copied =>
      if copied < s.length ∧ b.full = false then
        let (b, start, blkLen) := b.writeBlock
        if blkLen = 0 then (b, copied)
        else
          let toCopy := min s.length blkLen
          writeCopyLoop s fuel ((b.store start (s.take toCopy)).commitWrite toCopy) (copied + toCopy)
      else (b, copied)

def writeCopy (s : List Byte) : CircularCharBuffer × Nat := writeCopyLoop s s.length b 0

def readable : List Byte := bytesFrom b.buf b.readBlock.1 b.readBlock.2

def queued : List Byte := (List.range b.size).map (fun i => b.buf ((b.head + i) % b.maxSize))

structure Valid : Prop where
  head : b.head < b.maxSize
  tail : b.tail < b.maxSize
  full : b.full = true → b.head = b.tail

section Fifo

variable {b : CircularCharBuffer} {k : Nat} {s : List Byte}

theorem sizeBound (valid : b.Valid) : b.size ≤ b.maxSize := by
  have ends := valid.head
  have tails := valid.tail
  unfold size
  split_ifs <;> omega

theorem queuedLength : b.queued.length = b.size := by simp [queued]

theorem sizeEmpty (valid : b.Valid) : b.isEmpty = true ↔ b.size = 0 := by
  have ends := valid.head
  unfold isEmpty size
  cases full : b.full with
  | true => simp; omega
  | false => simp; split_ifs <;> omega

theorem emptyApart (empty : b.isEmpty = true) : b.full = false := by
  unfold isEmpty at empty
  simp only [Bool.and_eq_true, Bool.not_eq_true'] at empty
  exact empty.2

theorem readBlockLength (valid : b.Valid) : b.readBlock.2 = min b.size (b.maxSize - b.head) := by
  have ends := valid.head
  have tails := valid.tail
  have meets := valid.full
  unfold readBlock isEmpty size
  cases full : b.full with
  | true =>
      simp only [full, true_implies] at meets
      simp [meets]
  | false =>
      by_cases empty : b.head = b.tail
      · simp [empty]
      · simp only [beq_iff_eq, empty, Bool.not_false, Bool.and_true, Bool.false_eq_true, if_false]
        split_ifs <;> simp only <;> omega

theorem readableQueued (valid : b.Valid) : b.readable = b.queued.take (b.maxSize - b.head) := by
  have bound := readBlockLength valid
  apply List.ext_getElem
  · simp only [readable, bytesFrom, List.length_map, List.length_range, List.length_take, queuedLength]
    omega
  · intro i left right
    simp only [readable, bytesFrom, List.length_map, List.length_range] at left
    have start : b.readBlock.1 = b.head := by
      revert left
      unfold readBlock
      split_ifs <;> simp
    have inside : (b.head + i) % b.maxSize = b.head + i := Nat.mod_eq_of_lt (by omega)
    simp [readable, bytesFrom, queued, start, inside]

theorem readableLength : b.readable.length = b.readBlock.2 := by simp [readable, bytesFrom]

theorem readableTake (valid : b.Valid) (fits : k ≤ b.readBlock.2) : b.readable.take k = b.queued.take k := by
  have bound := readBlockLength valid
  rw [readableQueued valid, List.take_take, Nat.min_eq_left (by omega)]

theorem commitReadMaxSize : (b.commitRead k).maxSize = b.maxSize := by
  unfold commitRead
  split <;> rfl

section Read

variable (valid : b.Valid) (fits : k ≤ b.readBlock.2)

include valid fits

theorem commitReadHead : (b.commitRead k).head = if b.head + k = b.maxSize then 0 else b.head + k := by
  have ends := valid.head
  have bound := readBlockLength valid
  unfold commitRead
  split
  · simp only
    split_ifs <;> omega
  · rw [if_neg (by omega)]
    omega

theorem commitReadValid : (b.commitRead k).Valid := by
  have ends := valid.head
  have next := commitReadHead valid fits
  have bound := readBlockLength valid
  refine ⟨?_, ?_, ?_⟩
  · rw [next]
    rw [commitReadMaxSize]
    split_ifs <;> omega
  · unfold commitRead
    split <;> exact valid.tail
  · unfold commitRead
    split
    · simp
    · exact valid.full

theorem commitReadSize : (b.commitRead k).size = b.size - k := by
  have ends := valid.head
  have tails := valid.tail
  have meets := valid.full
  have bound := readBlockLength valid
  unfold commitRead
  split_ifs with some
  · unfold size at bound ⊢
    cases full : b.full with
    | true =>
        simp only [full, true_implies, if_true] at meets bound ⊢
        simp only [Bool.false_eq_true, if_false]
        split_ifs <;> omega
    | false =>
        simp only [full, Bool.false_eq_true, if_false] at bound ⊢
        split_ifs at bound ⊢ <;> omega
  · omega

theorem commitReadQueued : (b.commitRead k).queued = b.queued.drop k := by
  have next := commitReadHead valid fits
  have bound := readBlockLength valid
  have size := commitReadSize valid fits
  have same : (b.commitRead k).buf = b.buf := by
    unfold commitRead
    split <;> rfl
  apply List.ext_getElem
  · rw [queuedLength, List.length_drop, queuedLength, size]
  · intro i left right
    have around : ((b.commitRead k).head + i) % b.maxSize = (b.head + (k + i)) % b.maxSize := by
      rw [next]
      split_ifs with wraps
      · rw [← Nat.add_assoc, wraps, Nat.add_mod_left, Nat.zero_add]
      · rw [Nat.add_assoc]
    simp [queued, same, commitReadMaxSize, around]

end Read

section Write

def base (b : CircularCharBuffer) : Nat := if b.isEmpty then 0 else b.head

theorem writeBlockKeeps (valid : b.Valid) :
    b.writeBlock.1.Valid ∧ b.writeBlock.1.queued = b.queued ∧ b.writeBlock.1.head = b.base ∧
      b.writeBlock.1.maxSize = b.maxSize ∧ b.writeBlock.1.size = b.size := by
  have none := sizeEmpty valid
  unfold writeBlock base
  cases empty : b.isEmpty with
  | true =>
      have size := none.mp empty
      have apart := emptyApart empty
      have ends := valid.head
      have zero : ({ b with head := 0, tail := 0 } : CircularCharBuffer).size = 0 := by
        unfold CircularCharBuffer.size
        simp [apart]
      simp only [if_true]
      refine ⟨⟨by simp only; omega, by simp only; omega, fun _ => rfl⟩, ?_, trivial, trivial, by rw [zero, size]⟩
      rw [queued, queued, zero, size]
      rfl
  | false =>
      simp only [Bool.false_eq_true, if_false]
      split_ifs <;> exact ⟨valid, rfl, rfl, rfl, rfl⟩

theorem writeBlockFree (valid : b.Valid) :
    b.size + b.writeBlock.2.2 ≤ b.maxSize ∧ (b.writeBlock.2.2 ≠ 0 →
      b.writeBlock.2.1 = b.writeBlock.1.tail ∧ b.writeBlock.1.full = false ∧
      b.writeBlock.2.1 = (b.base + b.size) % b.maxSize ∧ b.writeBlock.2.1 + b.writeBlock.2.2 ≤ b.maxSize) := by
  have ends := valid.head
  have tails := valid.tail
  have none := sizeEmpty valid
  unfold writeBlock base
  cases empty : b.isEmpty with
  | true =>
      have size := none.mp empty
      have apart := emptyApart empty
      simp [size, apart]
  | false =>
      cases full : b.full with
      | true => simp [isFull, full, sizeBound valid]
      | false =>
          have apart : b.head ≠ b.tail := by
            intro same
            simp [isEmpty, same, full] at empty
          simp only [isFull, full, Bool.false_eq_true, if_false, size]
          by_cases before : b.tail < b.head
          · have wraps : (b.head + (b.maxSize - b.head + b.tail)) % b.maxSize = b.tail := by
              rw [show b.head + (b.maxSize - b.head + b.tail) = b.tail + b.maxSize by omega, Nat.add_mod_right,
                Nat.mod_eq_of_lt tails]
            simp only [if_pos before, if_neg (show ¬ b.head ≤ b.tail by omega)]
            exact ⟨by omega, fun _ => ⟨trivial, full, wraps.symm, by omega⟩⟩
          · have straight : (b.head + (b.tail - b.head)) % b.maxSize = b.tail := by
              rw [show b.head + (b.tail - b.head) = b.tail by omega, Nat.mod_eq_of_lt tails]
            simp only [if_neg before, if_pos (show b.head ≤ b.tail by omega)]
            exact ⟨by omega, fun _ => ⟨trivial, full, straight.symm, by omega⟩⟩

theorem commitWriteSize (valid : b.Valid) (notFull : b.full = false) (some : 0 < k)
    (room : b.size + k ≤ b.maxSize) (straight : b.tail + k ≤ b.maxSize) : (b.commitWrite k).size = b.size + k := by
  have ends := valid.head
  have tails := valid.tail
  unfold size at room
  unfold commitWrite size
  simp only [notFull, Bool.false_eq_true, if_false] at room
  simp only [if_pos some, notFull, Bool.false_eq_true, if_false]
  by_cases final : b.tail + k = b.maxSize
  · simp only [final, ge_iff_le, le_refl, if_true, Nat.sub_self]
    split_ifs at room ⊢ <;> simp_all <;> omega
  · simp only [if_neg (show ¬ b.tail + k ≥ b.maxSize by omega)]
    split_ifs at room ⊢ <;> simp_all <;> omega

theorem commitWriteValid (valid : b.Valid) (notFull : b.full = false) (some : 0 < k)
    (straight : b.tail + k ≤ b.maxSize) : (b.commitWrite k).Valid := by
  have ends := valid.head
  have tails := valid.tail
  unfold commitWrite
  rw [if_pos some]
  refine ⟨ends, ?_, ?_⟩
  · show (if b.tail + k ≥ b.maxSize then b.tail + k - b.maxSize else b.tail + k) < b.maxSize
    split_ifs <;> omega
  · intro full
    simp only [notFull] at full
    by_cases meets : (if b.tail + k ≥ b.maxSize then b.tail + k - b.maxSize else b.tail + k) = b.head
    · exact meets.symm
    · simp [meets] at full

theorem storeCommit (valid : b.Valid) (notFull : b.full = false) (some : 0 < s.length)
    (room : b.size + s.length ≤ b.maxSize) (straight : b.tail + s.length ≤ b.maxSize)
    (last : b.tail = (b.head + b.size) % b.maxSize) :
    ((b.store b.tail s).commitWrite s.length).Valid ∧
      ((b.store b.tail s).commitWrite s.length).queued = b.queued ++ s ∧
      ((b.store b.tail s).commitWrite s.length).head = b.head ∧
      ((b.store b.tail s).commitWrite s.length).maxSize = b.maxSize := by
  have ends := valid.head
  have tails := valid.tail
  have size : ((b.store b.tail s).commitWrite s.length).size = b.size + s.length :=
    commitWriteSize ⟨ends, tails, valid.full⟩ notFull some room straight
  refine ⟨commitWriteValid ⟨ends, tails, valid.full⟩ notFull some straight, ?_, ?_, ?_⟩
  · apply List.ext_getElem
    · rw [queuedLength, size, List.length_append, queuedLength]
    · intro i left right
      rw [queuedLength, size] at left
      have around : (b.head + i) % b.maxSize = if b.head + i < b.maxSize then b.head + i else b.head + i - b.maxSize := by
        split_ifs with low
        · exact Nat.mod_eq_of_lt low
        · rw [Nat.mod_eq_sub_mod (by omega), Nat.mod_eq_of_lt (by omega)]
      have final : (b.head + b.size) % b.maxSize =
          if b.head + b.size < b.maxSize then b.head + b.size else b.head + b.size - b.maxSize := by
        have bound := sizeBound valid
        split_ifs with low
        · exact Nat.mod_eq_of_lt low
        · rw [Nat.mod_eq_sub_mod (by omega), Nat.mod_eq_of_lt (by omega)]
      rw [final] at last
      by_cases old : i < b.size
      · have apart : ¬ (b.tail ≤ (b.head + i) % b.maxSize ∧ (b.head + i) % b.maxSize < b.tail + s.length) := by
          rw [around]
          split_ifs at last ⊢ <;> omega
        rw [List.getElem_append_left (by rw [queuedLength]; exact old)]
        simp [queued, commitWrite, store, some, apart]
      · have inside : (b.head + i) % b.maxSize = b.tail + (i - b.size) := by
          rw [around]
          split_ifs at last ⊢ <;> omega
        have index : i - b.size < s.length := by omega
        rw [List.getElem_append_right (by rw [queuedLength]; omega)]
        simp [queued, commitWrite, store, some, inside, index]
  · simp [commitWrite, store, some]
  · simp [commitWrite, store, some]

def receive (b : CircularCharBuffer) (s : List Byte) : CircularCharBuffer :=
  (b.writeBlock.1.store b.writeBlock.2.1 s).commitWrite s.length

theorem receiveQueued (valid : b.Valid) (some : 0 < s.length) (fits : s.length ≤ b.writeBlock.2.2) :
    (b.receive s).Valid ∧ (b.receive s).queued = b.queued ++ s ∧ (b.receive s).head = b.base ∧
      (b.receive s).maxSize = b.maxSize := by
  obtain ⟨room, free⟩ := writeBlockFree valid
  obtain ⟨tail, notFull, last, straight⟩ := free (by omega)
  obtain ⟨valid', queued, head, same, size⟩ := writeBlockKeeps valid
  unfold receive
  rw [tail] at last straight ⊢
  rw [← queued, ← head, ← same]
  exact storeCommit valid' notFull some (by omega) (by omega) (by rw [head, same, size]; exact last)

theorem writeBlockEmpty (empty : b.isEmpty = true) : b.writeBlock.2.2 = b.maxSize := by simp [writeBlock, empty]

theorem writeCopyEmpty (empty : b.isEmpty = true) (some : 0 < s.length) (fits : s.length ≤ b.maxSize) :
    b.writeCopy s = (b.receive s, s.length) := by
  have notFull := emptyApart empty
  have stops (fuel : Nat) (b' : CircularCharBuffer) : writeCopyLoop s fuel b' s.length = (b', s.length) := by
    cases fuel <;> simp [writeCopyLoop]
  obtain ⟨n, rounds⟩ : ∃ n, s.length = n + 1 := ⟨s.length - 1, by omega⟩
  unfold writeCopy receive
  rw [rounds, writeCopyLoop, if_pos ⟨some, notFull⟩, ← rounds]
  simp only [writeBlockEmpty empty]
  rw [if_neg (by omega), Nat.min_eq_left fits, List.take_length, Nat.zero_add, stops]

end Write

end Fifo

end CircularCharBuffer

end Gvsoc.Circular
