import Gvsoc.CircularBuffer
import Gvsoc.Transducer

/-! The ring of characters as a bounded queue of bytes. Both copy loops start over at the first
byte of the caller's array in their second round, and ask for all of it again: they move the right
bytes when these do not go across the end of the ring. -/
namespace Gvsoc.Circular
open Bytes (Byte)
open Io (bytesFrom)

namespace CircularCharBuffer

/- The constructor. The array is not initialised. -/
def new (buf : Nat → Byte) (maxSize : Nat) : CircularCharBuffer :=
  { buf := buf, head := 0, tail := 0, maxSize := maxSize, full := false }

/- The loop of `read_copy`. `s` is the array of the caller, of `l` bytes. -/
def readCopyLoop (l : Nat) : Nat → CircularCharBuffer → List Byte → Nat → CircularCharBuffer × List Byte × Nat
  | 0, b, s, copied => (b, s, copied)
  | fuel + 1, b, s, copied =>
      if copied < l ∧ 0 < b.size then
        let (start, blkLen) := b.readBlock
        let toCopy := min l blkLen
        readCopyLoop l fuel (b.commitRead toCopy) (bytesFrom b.buf start toCopy ++ s.drop toCopy) (copied + toCopy)
      else (b, s, copied)

/- A block of a buffer that is not empty has a byte, so `s.length` rounds are enough. -/
def readCopy (b : CircularCharBuffer) (s : List Byte) : CircularCharBuffer × List Byte × Nat :=
  readCopyLoop s.length s.length b s 0

section Loops

variable {b : CircularCharBuffer} {s : List Byte}

theorem newValid (buf : Nat → Byte) {maxSize : Nat} (positive : 0 < maxSize) : (new buf maxSize).Valid :=
  ⟨positive, positive, fun _ => rfl⟩

theorem resetValid (valid : b.Valid) : b.reset.Valid := by
  have positive : 0 < b.maxSize := Nat.lt_of_le_of_lt (Nat.zero_le _) valid.head
  exact ⟨positive, positive, fun _ => rfl⟩

theorem resetQueued : b.reset.queued = [] := by simp [reset, queued, size]

theorem newQueued (buf : Nat → Byte) (maxSize : Nat) : (new buf maxSize).queued = [] := by simp [new, queued, size]

theorem fullSize (valid : b.Valid) : b.full = true ↔ b.size = b.maxSize := by
  have ends := valid.head
  have tails := valid.tail
  cases full : b.full with
  | true => simp [size, full]
  | false =>
      simp only [size, full, Bool.false_eq_true, if_false, false_iff]
      split_ifs <;> omega

theorem writeBlockLength (valid : b.Valid) :
    b.writeBlock.2.2 = if b.isEmpty then b.maxSize else min b.available (b.maxSize - b.tail) := by
  have ends := valid.head
  have tails := valid.tail
  unfold writeBlock available isFull
  cases empty : b.isEmpty with
  | true => simp
  | false =>
      cases full : b.full with
      | true => simp [(fullSize valid).mp full]
      | false =>
          simp only [Bool.false_eq_true, if_false, size, full]
          split_ifs <;> simp only <;> omega

theorem writeCopyStops (b : CircularCharBuffer) (fuel copied : Nat) (done : s.length ≤ copied ∨ b.full = true) :
    writeCopyLoop s fuel b copied = (b, copied) := by
  cases fuel with
  | zero => rfl
  | succ fuel =>
      rw [writeCopyLoop, if_neg]
      rintro ⟨more, room⟩
      rcases done with all | full
      · omega
      · simp [room] at full

theorem readCopyStops (b : CircularCharBuffer) (l fuel copied : Nat) (done : l ≤ copied ∨ b.size = 0) :
    readCopyLoop l fuel b s copied = (b, s, copied) := by
  cases fuel with
  | zero => rfl
  | succ fuel =>
      rw [readCopyLoop, if_neg]
      rintro ⟨more, bytes⟩
      omega

theorem storeNil (b : CircularCharBuffer) (start : Nat) : b.store start [] = b := by
  have outside : ∀ i, ¬ (start ≤ i ∧ i < start) := fun i => by omega
  simp [store, outside]

theorem writeCopyRound (some : 0 < s.length) (notFull : b.full = false) (block : b.writeBlock.2.2 ≠ 0) :
    b.writeCopy s = writeCopyLoop s (s.length - 1) (b.receive (s.take (min s.length b.writeBlock.2.2)))
      (min s.length b.writeBlock.2.2) := by
  obtain ⟨n, rounds⟩ : ∃ n, s.length = n + 1 := ⟨s.length - 1, by omega⟩
  have taken : (s.take (min s.length b.writeBlock.2.2)).length = min s.length b.writeBlock.2.2 := by simp
  unfold writeCopy receive
  rw [taken, rounds, writeCopyLoop, if_pos ⟨by omega, notFull⟩, ← rounds]
  simp only
  rw [if_neg block, Nat.zero_add, rounds, Nat.add_sub_cancel]

def WriteStraight (b : CircularCharBuffer) (l : Nat) : Prop :=
  b.isEmpty = true ∨ b.tail + min l b.available ≤ b.maxSize

def ReadStraight (b : CircularCharBuffer) (l : Nat) : Prop := b.head + min l b.size ≤ b.maxSize

instance (b : CircularCharBuffer) (l : Nat) : Decidable (WriteStraight b l) := inferInstanceAs (Decidable (_ ∨ _))
instance (b : CircularCharBuffer) (l : Nat) : Decidable (ReadStraight b l) := inferInstanceAs (Decidable (_ ≤ _))

theorem writeStraightBlock (valid : b.Valid) (straight : WriteStraight b s.length) :
    min s.length b.writeBlock.2.2 = min s.length b.available := by
  have length := writeBlockLength valid
  have tails := valid.tail
  rcases straight with empty | inside
  · have size := (sizeEmpty valid).mp empty
    rw [length, if_pos empty, available, size, Nat.sub_zero]
  · rw [length]
    split_ifs with empty
    · rw [available, (sizeEmpty valid).mp empty, Nat.sub_zero]
    · omega

theorem writeCopyStraight (valid : b.Valid) (straight : WriteStraight b s.length) :
    (b.writeCopy s).1.Valid ∧ (b.writeCopy s).1.maxSize = b.maxSize ∧
      (b.writeCopy s).1.queued = b.queued ++ s.take (min s.length b.available) ∧
      (b.writeCopy s).2 = min s.length b.available := by
  have bound := sizeBound valid
  have moved := writeStraightBlock valid straight
  by_cases idle : s.length = 0 ∨ b.full = true
  · have none : min s.length b.available = 0 := by
      rcases idle with empty | full
      · simp [empty]
      · simp [available, (fullSize valid).mp full]
    have stays : b.writeCopy s = (b, 0) := writeCopyStops b _ 0 (idle.imp (fun e => by omega) id)
    simp [stays, none, valid]
  · simp only [not_or, Bool.not_eq_true] at idle
    obtain ⟨some, notFull⟩ := idle
    have free : 0 < b.available := by
      have apart : b.size ≠ b.maxSize := fun same => by simp [(fullSize valid).mpr same] at notFull
      unfold available
      omega
    have taken : (s.take (min s.length b.available)).length = min s.length b.available := by simp
    obtain ⟨valid', queued, -, same⟩ := receiveQueued (s := s.take (min s.length b.available)) valid (by omega) (by omega)
    have stops := writeCopyStops (s := s) (b.receive (s.take (min s.length b.available))) (s.length - 1)
      (min s.length b.available) (by
        rcases Nat.le_total s.length b.available with all | part
        · exact .inl (by omega)
        · refine .inr ((fullSize valid').mpr ?_)
          rw [← queuedLength, queued, List.length_append, taken, queuedLength, same, Nat.min_eq_right part, available]
          omega)
    rw [writeCopyRound (by omega) notFull (by omega), moved, stops]
    exact ⟨valid', same, queued, rfl⟩

theorem readCopyStraight (valid : b.Valid) (straight : ReadStraight b s.length) :
    (b.readCopy s).1.Valid ∧ (b.readCopy s).1.maxSize = b.maxSize ∧
      (b.readCopy s).1.queued = b.queued.drop (min s.length b.size) ∧
      (b.readCopy s).2.1 = b.queued.take (min s.length b.size) ++ s.drop (min s.length b.size) ∧
      (b.readCopy s).2.2 = min s.length b.size := by
  have block := readBlockLength valid
  by_cases idle : s.length = 0 ∨ b.size = 0
  · have none : min s.length b.size = 0 := by omega
    have stays : b.readCopy s = (b, s, 0) := readCopyStops b _ _ 0 (idle.imp (fun e => by omega) id)
    simp [stays, none, valid]
  · simp only [not_or] at idle
    have moved : min s.length b.readBlock.2 = min s.length b.size := by
      unfold ReadStraight at straight
      omega
    have fits : min s.length b.size ≤ b.readBlock.2 := by omega
    have bytes : bytesFrom b.buf b.readBlock.1 (min s.length b.size) = b.queued.take (min s.length b.size) := by
      rw [← readableTake valid fits, readable, bytesFrom, bytesFrom, ← List.map_take, List.take_range, Nat.min_eq_left fits]
    obtain ⟨n, rounds⟩ : ∃ n, s.length = n + 1 := ⟨s.length - 1, by omega⟩
    have round : b.readCopy s = readCopyLoop s.length n (b.commitRead (min s.length b.size))
        (b.queued.take (min s.length b.size) ++ s.drop (min s.length b.size)) (min s.length b.size) := by
      unfold readCopy
      nth_rewrite 2 [rounds]
      rw [readCopyLoop, if_pos ⟨by omega, by omega⟩]
      simp only
      rw [moved, bytes, Nat.zero_add]
    have left := commitReadSize valid fits
    rw [round, readCopyStops _ _ _ _ (by omega)]
    exact ⟨commitReadValid valid fits, commitReadMaxSize, commitReadQueued valid fits, rfl, rfl⟩

end Loops

end CircularCharBuffer

inductive Op where
  | writeCopy (s : List Byte)
  | readCopy (s : List Byte)
  | fill (s : List Byte)
  | consume (k : Nat)
  | reset
  | size
  | available

inductive Result where
  | count (n : Nat)
  | bytes (data : List Byte) (n : Nat)
  | done
  deriving DecidableEq

open CircularCharBuffer

def perform (b : CircularCharBuffer) : Op → CircularCharBuffer × List Result
  | .writeCopy s => ((b.writeCopy s).1, [.count (b.writeCopy s).2])
  | .readCopy s => ((b.readCopy s).1, [.bytes ((b.readCopy s).2.1.take (b.readCopy s).2.2) (b.readCopy s).2.2])
  | .fill s => (b.receive s, [.done])
  | .consume k => (b.commitRead k, [.bytes (b.readable.take k) k])
  | .reset => (b.reset, [.done])
  | .size => (b, [.count b.size])
  | .available => (b, [.count b.available])

def fifo (capacity : Nat) (queue : List Byte) : Op → List Byte × List Result
  | .writeCopy s => (queue ++ s.take (min s.length (capacity - queue.length)), [.count (min s.length (capacity - queue.length))])
  | .readCopy s => (queue.drop (min s.length queue.length),
      [.bytes (queue.take (min s.length queue.length)) (min s.length queue.length)])
  | .fill s => (queue ++ s, [.done])
  | .consume k => (queue.drop k, [.bytes (queue.take k) k])
  | .reset => ([], [.done])
  | .size => (queue, [.count queue.length])
  | .available => (queue, [.count (capacity - queue.length)])

def Committed (b : CircularCharBuffer) : Op → Prop
  | .fill s => s.length ≤ b.writeBlock.2.2
  | .consume k => k ≤ b.readBlock.2
  | _ => True

def Straight (b : CircularCharBuffer) : Op → Prop
  | .writeCopy s => WriteStraight b s.length
  | .readCopy s => ReadStraight b s.length
  | _ => True

def Sound (b : CircularCharBuffer) (op : Op) : Prop := Committed b op ∧ Straight b op

instance (b : CircularCharBuffer) (op : Op) : Decidable (Committed b op) := by
  cases op <;> unfold Committed <;> infer_instance

instance (b : CircularCharBuffer) (op : Op) : Decidable (Straight b op) := by
  cases op <;> unfold Straight <;> infer_instance

instance (b : CircularCharBuffer) (op : Op) : Decidable (Sound b op) := inferInstanceAs (Decidable (_ ∧ _))

structure Holds (capacity : Nat) (b : CircularCharBuffer) (queue : List Byte) : Prop where
  valid : b.Valid
  capacity : b.maxSize = capacity
  queued : b.queued = queue

section Refinement

variable {capacity : Nat} {b : CircularCharBuffer} {queue : List Byte} {op : Op}

theorem holdsSize (holds : Holds capacity b queue) : b.size = queue.length := by rw [← queuedLength, holds.queued]

theorem performHolds (holds : Holds capacity b queue) (sound : Sound b op) :
    Holds capacity (perform b op).1 (fifo capacity queue op).1 ∧ (perform b op).2 = (fifo capacity queue op).2 := by
  have size := holdsSize holds
  obtain ⟨valid, rfl, rfl⟩ := holds
  obtain ⟨committed, straight⟩ := sound
  cases op with
  | writeCopy s =>
      obtain ⟨valid', same, queued, count⟩ := writeCopyStraight valid straight
      rw [available, size] at queued count
      exact ⟨⟨valid', same, queued⟩, by simp only [perform, fifo, count]⟩
  | readCopy s =>
      obtain ⟨valid', same, queued, bytes, count⟩ := readCopyStraight valid straight
      rw [size] at queued bytes count
      refine ⟨⟨valid', same, queued⟩, ?_⟩
      simp only [perform, fifo, bytes, count]
      rw [List.take_append_of_le_length (by simp), List.take_take, Nat.min_self]
  | fill s =>
      cases s with
      | nil =>
          obtain ⟨valid', queued, -, same, -⟩ := writeBlockKeeps valid
          have stays : b.receive [] = b.writeBlock.1 := by simp [receive, commitWrite, storeNil]
          exact ⟨⟨by simpa [perform, stays] using valid', by simpa [perform, stays] using same,
            by simpa [perform, fifo, stays] using queued⟩, rfl⟩
      | cons byte rest =>
          obtain ⟨valid', queued, -, same⟩ := receiveQueued valid (by simp) committed
          exact ⟨⟨valid', same, queued⟩, rfl⟩
  | consume k =>
      refine ⟨⟨commitReadValid valid committed, commitReadMaxSize, commitReadQueued valid committed⟩, ?_⟩
      simp only [perform, fifo, readableTake valid committed]
  | reset => exact ⟨⟨resetValid valid, rfl, resetQueued⟩, rfl⟩
  | size => exact ⟨⟨valid, rfl, rfl⟩, by simp only [perform, fifo, size]⟩
  | available => exact ⟨⟨valid, rfl, rfl⟩, by simp only [perform, fifo, available, size]⟩

end Refinement

open Transducer (run Allowed runSimulates allowedBoth)

/- Every buffer made by the constructor gives the results of a queue, and holds what the queue holds. -/
theorem fifoWhileStraight (buf : Nat → Byte) {capacity : Nat} (positive : 0 < capacity) (ops : List Op)
    (sound : Allowed perform Sound (.new buf capacity) ops) :
    (run perform (.new buf capacity) ops).2 = (run (fifo capacity) [] ops).2 ∧
      (run perform (.new buf capacity) ops).1.queued = (run (fifo capacity) [] ops).1 := by
  have start : Holds capacity (.new buf capacity) [] := ⟨newValid buf positive, rfl, newQueued buf capacity⟩
  obtain ⟨holds, results⟩ := runSimulates perform (fifo capacity) (fun _ _ _ => performHolds) start
    (allowedBoth perform (fifo capacity) [] sound)
  exact ⟨results, holds.queued⟩

/- Around the end of the ring through blocks, and straight copies on both sides of it. -/
theorem fifoWhileStraightFour :
    (run perform (.new (fun _ => 0) 4) [.writeCopy [1, 2, 3], .readCopy [0, 0], .fill [4], .writeCopy [5, 6, 7], .consume 2, .size]).2
      = [.count 3, .bytes [1, 2] 2, .done, .count 2, .bytes [3, 4] 2, .count 2] := by
  rw [(fifoWhileStraight (fun _ => 0) (show 0 < 4 by decide)
    [.writeCopy [1, 2, 3], .readCopy [0, 0], .fill [4], .writeCopy [5, 6, 7], .consume 2, .size] (by decide +kernel)).1]
  decide +kernel

/- Two bytes for a buffer that has one free cell before the end of the ring and two after it. -/
theorem copiedTwice :
    Allowed perform Committed (.new (fun _ => 0) 4) [.writeCopy [1, 2, 3], .readCopy [0, 0], .writeCopy [4, 5]] ∧
      (run perform (.new (fun _ => 0) 4) [.writeCopy [1, 2, 3], .readCopy [0, 0], .writeCopy [4, 5]]).2
        = [.count 3, .bytes [1, 2] 2, .count 3] ∧
      (run (fifo 4) [] [.writeCopy [1, 2, 3], .readCopy [0, 0], .writeCopy [4, 5]]).2
        = [.count 3, .bytes [1, 2] 2, .count 2] := by decide +kernel

end Gvsoc.Circular
