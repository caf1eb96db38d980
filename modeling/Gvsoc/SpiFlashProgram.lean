import Gvsoc.SpiFlashEdges

/-! A page program: an address, then bytes, each of which is written with its last bit. -/
namespace Gvsoc.SpiFlash
open Bytes (Byte)
open ShiftRegister (shiftIn msbFirst msbFirstLength shiftInAppend shiftInWhole maskLow)
open Cells (write writeCons)

theorem carriedSingle (edges : List Lines) : edges.flatMap (carried false) = edges.map Lines.data0 := by
  induction edges with
  | nil => rfl
  | cons lines rest ih => rw [List.flatMap_cons, ih, List.map_cons]; rfl

structure Programming (s : Flash) : Prop where
  handling : Handling s .pageProgram
  single : s.quad = false
  idle : s.read = false

variable {s : Flash}

theorem programQuiet (programming : Programming s) (edges : List Lines) (positive : 0 ≤ s.pendingBits)
    (room : s.pendingBits + edges.length ≤ 2147483647)
    (quiet : ∀ j < edges.length, Quiet .pageProgram (s.pendingBits + (j + 1 : Nat))) :
    s.clock edges = some (taken s (edges.map Lines.data0), List.replicate edges.length []) := by
  obtain ⟨handling, single, idle⟩ := programming
  have clocked := quietRun handling idle single positive edges
  rw [single, carriedSingle] at clocked
  have one : ((lanes false : Nat) : Int) = 1 := rfl
  simp only [one, one_mul] at clocked
  exact clocked room quiet

theorem programStep (programming : Programming s) (lines : Lines) (positive : 0 ≤ s.pendingBits) (room : s.pendingBits + 1 ≤ 2147483647) :
    ∃ next, next = taken s [lines.data0] ∧ next.pendingBits = s.pendingBits + 1 ∧ s.enqueueBits lines = some next := by
  refine ⟨_, rfl, rfl, ?_⟩
  have enqueued := enqueueTaken programming.idle positive (by rw [programming.single]; exact room) lines
  rw [programming.single] at enqueued
  exact enqueued

theorem splitLast {edges : List Lines} {n : Nat} (counted : edges.length = n + 1) :
    ∃ early lines, edges = early ++ [lines] ∧ early.length = n := by
  obtain rfl | ⟨early, lines, rfl⟩ := List.eq_nil_or_concat' edges
  · simp at counted
  · exact ⟨early, lines, rfl, by simpa using counted⟩

theorem programAddress (programming : Programming s) (none : s.pendingBits = 0) {start : BitVec 24} {edges : List Lines}
    (sent : edges.map Lines.data0 = msbFirst start) :
    s.clock edges = some ({ taken s (msbFirst start) with currentAddr := start.setWidth 32, read := false }, List.replicate 24 []) := by
  have counted : edges.length = 23 + 1 := by simpa using congrArg List.length sent
  obtain ⟨early, lines, rfl, few⟩ := splitLast counted
  rw [List.map_append] at sent
  have before := programQuiet programming early (by rw [none]) (by rw [none, few]; decide) (fun j inside => by
    rw [none]
    exact ⟨by omega, fun _ => by omega⟩)
  have bits : (taken s (early.map Lines.data0)).pendingBits = 23 := by simp [taken, none, few]
  obtain ⟨next, shape, more, enqueued⟩ := programStep (s := taken s (early.map Lines.data0))
    ⟨⟨programming.handling.ready, programming.handling.selected⟩, programming.single, programming.idle⟩ lines (by omega) (by omega)
  rw [takenMore, ← List.map_singleton, sent] at shape
  have address : next.pendingWord &&& 0xffffff = start.setWidth 32 := by
    rw [shape]
    exact (maskLow _ 24).trans (congrArg (BitVec.setWidth 32) (shiftInWhole _ _ (by decide)))
  rw [few] at before
  have latched : (taken s (early.map Lines.data0)).handleData lines =
      some ({ taken s (msbFirst start) with currentAddr := start.setWidth 32, read := false }, []) := by
    have handling : Handling (taken s (early.map Lines.data0)) .pageProgram := ⟨programming.handling.ready, programming.handling.selected⟩
    rw [handlingData handling]
    have whole : next.pendingBits = 24 := by rw [more, bits]; rfl
    have first : ¬(32 ≤ next.pendingBits ∧ next.pendingBits.tmod 8 = 0) := fun both => by omega
    simp only [Flash.handle, Flash.pageProgram, enqueued, Option.map_some]
    rw [if_pos whole, address]
    dsimp only
    rw [if_neg first, shape]
  exact clockJoin before (clockOne latched)

theorem programByte (programming : Programming s) (late : 24 ≤ s.pendingBits) (whole : s.pendingBits % 8 = 0)
    (room : s.pendingBits + 8 ≤ 2147483647) (inside : s.currentAddr.toNat < s.size.toNat) {b : Byte} {edges : List Lines}
    (sent : edges.map Lines.data0 = msbFirst b) :
    s.clock edges = some ({ taken s (msbFirst b) with
      memData := Function.update s.memData s.currentAddr.toNat b
      currentAddr := s.currentAddr + 1 }, List.replicate 8 []) := by
  have counted : edges.length = 7 + 1 := by simpa using congrArg List.length sent
  obtain ⟨early, lines, rfl, few⟩ := splitLast counted
  rw [List.map_append] at sent
  have before := programQuiet programming early (by omega) (by rw [few]; omega) (fun j inside => ⟨by omega, fun _ => by omega⟩)
  have bits : (taken s (early.map Lines.data0)).pendingBits = s.pendingBits + 7 := by simp [taken, few]
  have handling : Handling (taken s (early.map Lines.data0)) .pageProgram := ⟨programming.handling.ready, programming.handling.selected⟩
  obtain ⟨next, shape, more, enqueued⟩ := programStep (s := taken s (early.map Lines.data0)) ⟨handling, programming.single, programming.idle⟩
    lines (by omega) (by omega)
  rw [takenMore, ← List.map_singleton, sent] at shape
  have value : next.pendingWord.setWidth 8 = b := by
    rw [shape]
    exact shiftInWhole _ _ (by decide)
  have last : 32 ≤ next.pendingBits ∧ next.pendingBits.tmod 8 = 0 := by
    rw [Int.tmod_eq_emod_of_nonneg (by omega)]
    omega
  have address : next.pendingBits ≠ 24 := by omega
  have fits : ¬next.size ≤ next.currentAddr := by
    rw [shape, BitVec.le_def]
    exact Nat.not_le.mpr inside
  rw [few] at before
  refine clockJoin before (clockOne ?_)
  rw [handlingData handling]
  simp only [Flash.handle, Flash.pageProgram, enqueued, Option.map_some, address, if_false, last, and_self, if_true, fits, value]
  rw [shape]
  rfl

theorem programBytes (data : List Byte) {s : Flash} (programming : Programming s) (late : 24 ≤ s.pendingBits)
    (whole : s.pendingBits % 8 = 0) (room : s.pendingBits + 8 * data.length ≤ 2147483647)
    (inside : s.currentAddr.toNat + data.length ≤ s.size.toNat) {edges : List Lines}
    (sent : edges.map Lines.data0 = data.flatMap msbFirst) :
    ∃ after, s.clock edges = some (after, List.replicate edges.length []) ∧
      after.memData = write s.memData s.currentAddr.toNat data ∧ after.size = s.size := by
  induction data generalizing s edges with
  | nil =>
      rw [List.flatMap_nil, List.map_eq_nil_iff] at sent
      subst sent
      refine ⟨s, rfl, ?_, rfl⟩
      funext i
      rw [write, if_neg (by simp)]
  | cons b rest ih =>
      rw [List.flatMap_cons] at sent
      obtain ⟨first, others, rfl, early, later⟩ := List.map_eq_append_iff.mp sent
      rw [List.length_cons, Nat.cast_add, Nat.cast_one] at room
      rw [List.length_cons] at inside
      have written := programByte programming late whole (by omega) (by omega) early
      have counted : first.length = 8 := by simpa using congrArg List.length early
      have bits : (taken s (msbFirst b)).pendingBits = s.pendingBits + 8 := by simp [taken]
      have next : (s.currentAddr + 1).toNat = s.currentAddr.toNat + 1 := by
        have bound := s.size.isLt
        rw [BitVec.toNat_add_of_lt (by simp; omega)]
        rfl
      obtain ⟨after, clocked, memory, size⟩ := ih (s := { taken s (msbFirst b) with
          memData := Function.update s.memData s.currentAddr.toNat b
          currentAddr := s.currentAddr + 1 }) ⟨⟨programming.handling.ready, programming.handling.selected⟩, programming.single, programming.idle⟩
        (by dsimp only; omega) (by dsimp only; omega) (by dsimp only; omega) (by dsimp only; rw [next]; change _ ≤ s.size.toNat; omega) later
      refine ⟨after, ?_, ?_, size⟩
      · have joined := clockJoin written clocked
        rw [List.replicate_append_replicate] at joined
        rwa [List.length_append, counted]
      · rw [memory, writeCons, next]

end Gvsoc.SpiFlash
