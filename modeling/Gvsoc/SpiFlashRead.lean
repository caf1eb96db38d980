import Gvsoc.SpiFlashProgram

/-! The reads: an address and perhaps a mode, then bytes, each of which is loaded with its first bits. -/
namespace Gvsoc.SpiFlash
open Bytes (Byte)
open ShiftRegister (shiftIn msbFirst msbFirstLength shiftInAppend shiftInWhole maskLow)
open Cells (Holds holdsAppend)

def readHandler (quad : Bool) : Handler := if quad = true then .quadRead else .singleRead

def firstBit (quad : Bool) : Int := if quad = true then 40 else 24

def driven (quad : Bool) (b : Byte) : List (List Output) :=
  if quad = true then
    [[.sync ⟨b.getLsbD 4, b.getLsbD 5, b.getLsbD 6, b.getLsbD 7⟩ 0xf], [.sync ⟨b.getLsbD 0, b.getLsbD 1, b.getLsbD 2, b.getLsbD 3⟩ 0xf]]
  else (msbFirst b).map fun bit => [.sync ⟨false, bit, false, false⟩ 2]

def frame (quad : Bool) (b : Byte) (j : Nat) : List Output :=
  if quad = true then
    [.sync ⟨b.getLsbD (4 - 4 * j), b.getLsbD (5 - 4 * j), b.getLsbD (6 - 4 * j), b.getLsbD (7 - 4 * j)⟩ 0xf]
  else [.sync ⟨false, b.getLsbD (7 - j), false, false⟩ 2]

theorem drivenFrames (quad : Bool) (b : Byte) : driven quad b = (List.range (8 / lanes quad)).map (frame quad b) := by
  cases quad <;> rfl

theorem lineBit (word : BitVec 32) (k : Nat) : line (word >>> k &&& 1) = word.getLsbD k := by
  have one : word >>> k &&& 1 = BitVec.setWidth 32 (BitVec.ofBool ((word >>> k).getLsbD 0)) :=
    BitVec.and_one_eq_setWidth_ofBool_getLsbD
  rw [line, one, BitVec.getLsbD_ushiftRight, Nat.add_zero]
  cases word.getLsbD k <;> rfl

theorem nibbleBit (word : BitVec 32) {k : Nat} (small : k < 4) : (word >>> 4 &&& 0xf).getLsbD k = word.getLsbD (4 + k) := by
  have ones : ∀ i < 4, (0xf : BitVec 32).getLsbD i = true := by decide
  rw [BitVec.getLsbD_and, ones k small, Bool.and_true, BitVec.getLsbD_ushiftRight]

variable {s : Flash} {b : Byte}

structure Reading (s : Flash) : Prop where
  handling : Handling s (readHandler s.quad)
  reads : s.read = true
  late : firstBit s.quad ≤ s.pendingBits

theorem shiftedBit {j k : Nat} (inside : k < 32) : (b.setWidth 32 <<< j).getLsbD k = (!decide (k < j) && b.getLsbD (k - j)) := by
  have small : k - j < 32 := by omega
  rw [BitVec.getLsbD_shiftLeft, BitVec.getLsbD_setWidth]
  simp [inside, small]

theorem sendFrame {j : Nat} (reads : s.read = true) (word : s.pendingWord = b.setWidth 32 <<< (lanes s.quad * j))
    (inside : lanes s.quad * (j + 1) ≤ 8) :
    s.sendBits = ({ s with pendingWord := b.setWidth 32 <<< (lanes s.quad * (j + 1)) }, frame s.quad b j) := by
  have more : s.pendingWord <<< lanes s.quad = b.setWidth 32 <<< (lanes s.quad * (j + 1)) := by
    rw [word, ← BitVec.shiftLeft_add, Nat.mul_succ]
  rw [Flash.sendBits, if_pos reads, ← more]
  cases mode : s.quad with
  | false =>
      rw [mode] at word inside
      have few : j + 1 ≤ 8 := by simpa [lanes] using inside
      have low : ¬7 < j := by omega
      rw [if_pos rfl]
      dsimp only
      rw [lineBit, word, lanes, if_neg (by decide), Nat.one_mul, shiftedBit (by decide)]
      simp [frame, low]
  | true =>
      rw [mode] at word inside
      have few : 4 * (j + 1) ≤ 8 := inside
      rw [if_neg (by decide)]
      dsimp only
      rw [lineBit, lineBit, lineBit, lineBit, nibbleBit _ (by decide), nibbleBit _ (by decide), nibbleBit _ (by decide), nibbleBit _ (by decide),
        word, lanes, if_pos rfl, shiftedBit (by decide), shiftedBit (by decide), shiftedBit (by decide), shiftedBit (by decide)]
      have low : ¬4 < 4 * j ∧ ¬5 < 4 * j ∧ ¬6 < 4 * j ∧ ¬7 < 4 * j := by omega
      simp only [frame, Nat.reduceAdd, low, decide_false, Bool.not_false, Bool.true_and, if_true]

theorem readStep (reading : Reading s) (room : s.pendingBits + lanes s.quad ≤ 2147483647) (lines : Lines) :
    s.handleData lines = some (Flash.readOut { s with pendingBits := s.pendingBits + lanes s.quad } (firstBit s.quad)) := by
  obtain ⟨handling, reads, late⟩ := reading
  rw [handlingData handling]
  rcases Bool.eq_false_or_eq_true s.quad with mode | mode
  · have four : (lanes s.quad : Int) = 4 := by rw [mode]; rfl
    have first : firstBit s.quad = 40 := by rw [mode]; rfl
    have handler : readHandler s.quad = .quadRead := by rw [mode]; rfl
    rw [four] at room ⊢
    rw [first] at late ⊢
    have counted : s.enqueueBits lines = some { s with pendingBits := s.pendingBits + 4 } := by
      rw [Flash.enqueueBits, if_neg (by simp [mode]), if_neg (by simp [reads]), Flash.count, if_pos ⟨by omega, room⟩]
    have start : s.pendingBits ≠ 0 := by omega
    have address : s.pendingBits + 4 ≠ 32 := by omega
    have header : s.pendingBits + 4 ≠ 40 := by omega
    simp only [handler, Flash.handle, Flash.quadRead, start, if_false, counted, Option.map_some, address, header]
  · have one : (lanes s.quad : Int) = 1 := by rw [mode]; rfl
    have first : firstBit s.quad = 24 := by rw [mode]; rfl
    have handler : readHandler s.quad = .singleRead := by rw [mode]; rfl
    rw [one] at room ⊢
    rw [first] at late ⊢
    have counted : s.enqueueBits lines = some { s with pendingBits := s.pendingBits + 1 } := by
      rw [Flash.enqueueBits, if_pos mode, if_neg (by simp [reads]), Flash.count, if_pos ⟨by omega, room⟩]
    have address : s.pendingBits + 1 ≠ 24 := by omega
    simp only [handler, Flash.handle, Flash.singleRead, counted, Option.map_some, address, if_false]

theorem lanesCases (quad : Bool) : lanes quad = 1 ∨ lanes quad = 4 := by cases quad <;> simp [lanes]

theorem firstBound (quad : Bool) : 24 ≤ firstBit quad := by cases quad <;> decide

theorem frameStep {j : Nat} (reading : Reading s) (positive : 0 < j) (word : s.pendingWord = b.setWidth 32 <<< (lanes s.quad * j))
    (inside : lanes s.quad * (j + 1) ≤ 8) (part : s.pendingBits % 8 = lanes s.quad * (j - 1 : Nat))
    (room : s.pendingBits + lanes s.quad ≤ 2147483647) (lines : Lines) :
    s.handleData lines = some ({ s with
      pendingWord := b.setWidth 32 <<< (lanes s.quad * (j + 1))
      pendingBits := s.pendingBits + lanes s.quad }, frame s.quad b j) := by
  have late := reading.late
  have bound := firstBound s.quad
  have unloaded : ¬(firstBit s.quad ≤ s.pendingBits + lanes s.quad ∧ (s.pendingBits + lanes s.quad).tmod 8 = 0) := by
    rintro ⟨-, multiple⟩
    rw [Int.tmod_eq_emod_of_nonneg (by omega)] at multiple
    rcases lanesCases s.quad with width | width <;> rw [width] at inside part multiple <;> omega
  rw [readStep reading room lines, Flash.readOut, if_neg unloaded]
  exact congrArg some (sendFrame (s := { s with pendingBits := s.pendingBits + lanes s.quad }) reading.reads word inside)

theorem frameRun (edges : List Lines) {s : Flash} {b : Byte} {j : Nat} (reading : Reading s) (positive : 0 < j)
    (word : s.pendingWord = b.setWidth 32 <<< (lanes s.quad * j)) (inside : lanes s.quad * (j + edges.length) ≤ 8)
    (part : s.pendingBits % 8 = lanes s.quad * (j - 1 : Nat)) (room : s.pendingBits + lanes s.quad * edges.length ≤ 2147483647) :
    s.clock edges = some ({ s with
      pendingWord := b.setWidth 32 <<< (lanes s.quad * (j + edges.length))
      pendingBits := s.pendingBits + lanes s.quad * edges.length },
      (List.range edges.length).map fun i => frame s.quad b (j + i)) := by
  induction edges generalizing s j with
  | nil => simp [Flash.clock, ← word]
  | cons lines rest ih =>
      have late := reading.late
      rw [List.length_cons] at inside room
      push_cast at room
      have width : 0 < lanes s.quad := by rcases lanesCases s.quad with width | width <;> omega
      have left : 0 ≤ (lanes s.quad : Int) * rest.length := by positivity
      have enough : lanes s.quad * (j + 1) ≤ lanes s.quad * (j + (rest.length + 1)) := Nat.mul_le_mul_left _ (by omega)
      have next : (s.pendingBits + lanes s.quad) % 8 = lanes s.quad * (j + 1 - 1 : Nat) := by
        rcases lanesCases s.quad with width | width <;> rw [width] at inside part enough ⊢ <;> omega
      have step := frameStep reading positive word (enough.trans inside) part (by linarith) lines
      have rested := ih (s := { s with
          pendingWord := b.setWidth 32 <<< (lanes s.quad * (j + 1))
          pendingBits := s.pendingBits + lanes s.quad }) (j := j + 1)
        ⟨⟨reading.handling.ready, reading.handling.selected⟩, reading.reads, by dsimp only; omega⟩ (by omega) rfl
        (by dsimp only; rwa [Nat.add_right_comm, Nat.add_assoc]) next (by dsimp only; linarith)
      have whole := clockJoin (clockOne step) rested
      have counted : s.pendingBits + lanes s.quad + (lanes s.quad : Int) * rest.length =
          s.pendingBits + (lanes s.quad : Int) * (rest.length + 1 : Nat) := by push_cast; ring
      rw [List.singleton_append, List.singleton_append, counted, Nat.add_right_comm, Nat.add_assoc] at whole
      rw [whole, List.length_cons, List.range_succ_eq_map, List.map_cons, List.map_map]
      simp only [Function.comp_def, Nat.add_zero, Nat.succ_eq_add_one, Nat.add_right_comm j 1, Nat.add_assoc]

theorem readOutFrame (s : Flash) (first : Int) :
    ∃ word addr, (s.readOut first).1 = { s with pendingWord := word, currentAddr := addr } := by
  have sending : ∀ s : Flash, ∃ word, s.sendBits.1 = { s with pendingWord := word } := fun s => by
    unfold Flash.sendBits
    split
    · split <;> exact ⟨_, rfl⟩
    · exact ⟨s.pendingWord, rfl⟩
  unfold Flash.readOut
  split
  · split
    · exact ⟨s.pendingWord, s.currentAddr, rfl⟩
    · obtain ⟨word, sent⟩ := sending { s with pendingWord := (s.memData s.currentAddr.toNat).setWidth 32, currentAddr := s.currentAddr + 1 }
      exact ⟨word, s.currentAddr + 1, sent⟩
  · obtain ⟨word, sent⟩ := sending s
    exact ⟨word, s.currentAddr, sent⟩

theorem readOutMemory (s : Flash) (first : Int) : (s.readOut first).1.memData = s.memData := by
  obtain ⟨word, addr, moved⟩ := readOutFrame s first
  rw [moved]

theorem loadStep (reading : Reading s) (whole : s.pendingBits % 8 = 0) (stored : s.memData s.currentAddr.toNat = b)
    (inside : s.currentAddr.toNat < s.size.toNat) :
    s.readOut (firstBit s.quad) =
      ({ s with pendingWord := b.setWidth 32 <<< (lanes s.quad * 1), currentAddr := s.currentAddr + 1 }, frame s.quad b 0) := by
  have late := reading.late
  have bound := firstBound s.quad
  have due : firstBit s.quad ≤ s.pendingBits ∧ s.pendingBits.tmod 8 = 0 := by
    rw [Int.tmod_eq_emod_of_nonneg (by omega)]
    exact ⟨late, whole⟩
  have fits : ¬s.size ≤ s.currentAddr := by
    rw [BitVec.le_def]
    exact Nat.not_le.mpr inside
  have width : lanes s.quad * (0 + 1) ≤ 8 := by rcases lanesCases s.quad with width | width <;> omega
  rw [Flash.readOut, if_pos due, if_neg fits, stored]
  have unshifted : b.setWidth 32 = b.setWidth 32 <<< (lanes s.quad * 0) := by simp
  exact sendFrame (s := { s with pendingWord := b.setWidth 32, currentAddr := s.currentAddr + 1 }) reading.reads unshifted width

theorem drivenHead (quad : Bool) (b : Byte) :
    driven quad b = frame quad b 0 :: (List.range (8 / lanes quad - 1)).map fun i => frame quad b (1 + i) := by
  have positive : 8 / lanes quad = 8 / lanes quad - 1 + 1 := by rcases lanesCases quad with width | width <;> rw [width]
  rw [drivenFrames, positive, List.range_succ_eq_map, List.map_cons, List.map_map, Nat.add_sub_cancel]
  simp only [Function.comp_def, Nat.succ_eq_add_one, Nat.add_comm 1]

theorem splitEdge {edges : List Lines} {k : Nat} (enough : k < edges.length) :
    ∃ early lines others, edges = early ++ [lines] ++ others ∧ early.length = k := by
  refine ⟨edges.take k, edges[k], edges.drop (k + 1), ?_, by rw [List.length_take]; omega⟩
  rw [List.append_assoc, List.singleton_append, List.getElem_cons_drop, List.take_append_drop]

theorem splitByte {quad : Bool} {edges : List Lines} {n : Nat} (counted : lanes quad * edges.length = 8 * (n + 1)) :
    ∃ early lines others, edges = early ++ [lines] ++ others ∧ lanes quad * (early.length + 1) = 8 ∧ lanes quad * others.length = 8 * n := by
  have enough : 8 / lanes quad - 1 < edges.length := by rcases lanesCases quad with width | width <;> rw [width] at counted ⊢ <;> omega
  obtain ⟨early, lines, others, rfl, few⟩ := splitEdge enough
  refine ⟨early, lines, others, rfl, ?_⟩
  simp only [List.length_append, List.length_singleton] at counted
  rcases lanesCases quad with width | width <;> rw [width] at counted few ⊢ <;> omega

theorem streamed (data : List Byte) {r : Flash} (reading : Reading r) (whole : r.pendingBits % 8 = 0)
    (held : Holds r.memData r.currentAddr.toNat data) (inside : r.currentAddr.toNat + data.length ≤ r.size.toNat) {edges : List Lines}
    (counted : lanes r.quad * edges.length = 8 * data.length) (room : r.pendingBits + 8 * data.length ≤ 2147483647) :
    ∃ after later final, (r.readOut (firstBit r.quad)).1.clock edges = some (after, later) ∧
      (r.readOut (firstBit r.quad)).2 :: later = data.flatMap (driven r.quad) ++ [final] ∧ after.memData = r.memData := by
  induction data generalizing r edges with
  | nil =>
      have empty : edges = [] := by
        apply List.eq_nil_of_length_eq_zero
        rcases lanesCases r.quad with width | width <;> rw [width, List.length_nil] at counted <;> omega
      subst empty
      exact ⟨_, [], _, rfl, rfl, readOutMemory r _⟩
  | cons b rest ih =>
      rw [List.length_cons] at counted inside room
      push_cast at room
      obtain ⟨stored, later⟩ := holdsAppend.mp (show Holds r.memData r.currentAddr.toNat ([b] ++ rest) from held)
      have first : r.memData r.currentAddr.toNat = b := by simpa [Holds, Io.bytesFrom] using stored
      have loaded := loadStep reading whole first (by omega)
      have next : (r.currentAddr + 1).toNat = r.currentAddr.toNat + 1 := by
        have bound := r.size.isLt
        rw [BitVec.toNat_add_of_lt (by simp; omega)]
        rfl
      obtain ⟨early, lines, others, rfl, few, left⟩ := splitByte counted
      have eight : r.pendingBits + lanes r.quad * early.length + lanes r.quad = r.pendingBits + 8 := by
        rw [← Nat.cast_ofNat (n := 8), ← few]
        push_cast
        ring
      have width : 0 < lanes r.quad := by rcases lanesCases r.quad with width | width <;> omega
      have positive : 0 ≤ (lanes r.quad : Int) * early.length := by positivity
      have late := reading.late
      have middle := frameRun early (s := { r with pendingWord := b.setWidth 32 <<< (lanes r.quad * 1), currentAddr := r.currentAddr + 1 })
        (j := 1) ⟨⟨reading.handling.ready, reading.handling.selected⟩, reading.reads, reading.late⟩ (by decide) rfl
        (by dsimp only; rw [Nat.add_comm, few]) (by dsimp only; rw [whole]; simp) (by dsimp only; omega)
      obtain ⟨m, shape⟩ : ∃ m : Flash, m = { r with
          pendingWord := b.setWidth 32 <<< (lanes r.quad * (1 + early.length))
          currentAddr := r.currentAddr + 1
          pendingBits := r.pendingBits + lanes r.quad * early.length } := ⟨_, rfl⟩
      have quad : m.quad = r.quad := by rw [shape]
      have bits : m.pendingBits = r.pendingBits + lanes r.quad * early.length := by rw [shape]
      have memory : m.memData = r.memData := by rw [shape]
      have address : m.currentAddr.toNat = r.currentAddr.toNat + 1 := by rw [shape, ← next]
      have size : m.size = r.size := by rw [shape]
      have goes : Reading m := by
        rw [shape]
        exact ⟨⟨reading.handling.ready, reading.handling.selected⟩, reading.reads, by dsimp only; omega⟩
      rw [← shape] at middle
      have step := readStep goes (by rw [quad, bits, eight]; omega) lines
      rw [quad, bits, eight] at step
      obtain ⟨after, later', final, clocked, outputs, kept⟩ := ih (r := { m with pendingBits := r.pendingBits + 8 })
        ⟨⟨goes.handling.ready, goes.handling.selected⟩, goes.reads, by dsimp only; rw [quad]; omega⟩ (by dsimp only; omega)
        (by dsimp only; rw [memory, address]; exact later) (by dsimp only; rw [address, size]; omega) (by dsimp only; rw [quad]; exact left)
        (by dsimp only; omega)
      dsimp only at clocked outputs kept
      rw [quad] at clocked outputs
      have joined := clockJoin middle (clockJoin (clockOne step) clocked)
      have count : 8 / lanes r.quad - 1 = early.length := by
        rcases lanesCases r.quad with width | width <;> rw [width] at few ⊢ <;> omega
      rw [loaded, List.append_assoc]
      refine ⟨after, _, final, joined, ?_, kept.trans memory⟩
      rw [List.flatMap_cons, drivenHead, count, List.append_assoc, ← outputs]
      rfl

end Gvsoc.SpiFlash
