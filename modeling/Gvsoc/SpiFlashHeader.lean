import Gvsoc.SpiFlashRead

/-! The address of a read, on one line or on four, and the count of its bits. -/
namespace Gvsoc.SpiFlash
open Bytes (Byte)
open ShiftRegister (shiftIn msbFirst msbFirstLength shiftInAppend shiftInWhole maskLow)

section Header

variable {s : Flash}

structure Addressed (s r : Flash) (quad : Bool) (start : BitVec 24) : Prop where
  reading : Reading r
  bits : r.pendingBits = firstBit quad
  address : r.currentAddr = start.setWidth 32
  memory : r.memData = s.memData
  size : r.size = s.size
  quad : r.quad = quad

theorem singleHeader (handling : Handling s .singleRead) (single : s.quad = false) (idle : s.read = false) (none : s.pendingBits = 0)
    {start : BitVec 24} {edges : List Lines} (sent : edges.map Lines.data0 = msbFirst start) :
    ∃ r, Addressed s r false start ∧
      s.clock edges = some ((r.readOut (firstBit r.quad)).1, List.replicate 23 [] ++ [(r.readOut (firstBit r.quad)).2]) := by
  have counted : edges.length = 23 + 1 := by simpa using congrArg List.length sent
  obtain ⟨early, lines, rfl, few⟩ := splitLast counted
  rw [List.map_append] at sent
  have before := quietRun handling idle single (by rw [none]) early (by rw [none, few, single]; decide) (fun j inside => by
    have one : ((lanes s.quad : Nat) : Int) = 1 := by rw [single]; rfl
    rw [none, one]
    change _ < _
    omega)
  rw [single, carriedSingle, few] at before
  obtain ⟨m, shape⟩ : ∃ m, m = taken s (early.map Lines.data0) := ⟨_, rfl⟩
  have bits : m.pendingBits = 23 := by simp [shape, taken, none, few]
  have goes : Handling m .singleRead := by rw [shape]; exact ⟨handling.ready, handling.selected⟩
  have mode : m.quad = false := by rw [shape]; exact single
  have waits : m.read = false := by rw [shape]; exact idle
  have enqueued := enqueueTaken waits (by omega) (by rw [mode, bits]; decide) lines
  have whole : (taken m (carried m.quad lines)).pendingBits = 24 := by simp [taken, bits, mode, lanes]
  have word : (taken m (carried m.quad lines)).pendingWord &&& 0xffffff = start.setWidth 32 := by
    have all : taken m (carried m.quad lines) = taken s (msbFirst start) := by
      rw [mode, shape, takenMore, ← sent]
      rfl
    rw [all]
    exact (maskLow _ 24).trans (congrArg (BitVec.setWidth 32) (shiftInWhole _ _ (by decide)))
  refine ⟨{ taken m (carried m.quad lines) with currentAddr := start.setWidth 32, read := true },
    ⟨⟨?_, rfl, ?_⟩, whole, rfl, by simp [taken, shape], by simp [taken, shape], mode⟩, ?_⟩
  · have handler : readHandler m.quad = .singleRead := by rw [mode]; rfl
    exact ⟨goes.ready, by simpa [taken, handler] using goes.selected⟩
  · rw [show (taken m (carried m.quad lines)).quad = false from mode, whole]
    decide
  · rw [← shape] at before
    refine clockJoin before (clockOne ?_)
    rw [handlingData goes]
    simp only [Flash.handle, Flash.singleRead, enqueued, Option.map_some]
    rw [if_pos whole, word]
    have first : firstBit m.quad = 24 := by rw [mode]; rfl
    change some (Flash.readOut _ 24) = some (Flash.readOut _ (firstBit m.quad))
    rw [first]

theorem quadStart (handling : Handling s .quadRead) (none : s.pendingBits = 0) (lines : Lines) (rest : List Lines) :
    s.clock (lines :: rest) = Flash.clock { s with quad := true } (lines :: rest) := by
  have handled := handlingData handling lines
  have same := handlingData (s := { s with quad := true }) ⟨handling.ready, handling.selected⟩ lines
  have equal : s.handleData lines = Flash.handleData { s with quad := true } lines := by
    rw [handled, same]
    simp only [Flash.handle, Flash.quadRead, none, if_true]
  simp only [Flash.clock, equal]

theorem quadAddress (handling : Handling s .quadRead) (mode : s.quad = true) (idle : s.read = false) (bits : s.pendingBits = 28) (lines : Lines) :
    s.handleData lines = some ({ taken s (carried true lines) with currentAddr := (taken s (carried true lines)).pendingWord }, []) := by
  have enqueued := enqueueTaken idle (by omega) (by rw [mode, bits]; decide) lines
  rw [mode] at enqueued
  have whole : (taken s (carried true lines)).pendingBits = 32 := by simp [taken, bits, carried]
  have start : s.pendingBits ≠ 0 := by omega
  rw [handlingData handling]
  simp only [Flash.handle, Flash.quadRead, start, if_false, enqueued, Option.map_some]
  rw [if_pos whole]
  have header : (taken s (carried true lines)).pendingBits ≠ 40 := by rw [whole]; decide
  have early : ¬(40 ≤ (taken s (carried true lines)).pendingBits ∧ (taken s (carried true lines)).pendingBits.tmod 8 = 0) := by
    rw [whole]
    decide
  have silent : (taken s (carried true lines)).read = false := idle
  simp only [header, if_false, Flash.readOut, early, Flash.sendBits, silent, Bool.false_eq_true]

theorem quadMode (handling : Handling s .quadRead) (mode : s.quad = true) (idle : s.read = false) (bits : s.pendingBits = 36) (lines : Lines) :
    s.handleData lines = some (Flash.readOut { taken s (carried true lines) with read := true } 40) := by
  have enqueued := enqueueTaken idle (by omega) (by rw [mode, bits]; decide) lines
  rw [mode] at enqueued
  have whole : (taken s (carried true lines)).pendingBits = 40 := by simp [taken, bits, carried]
  have address : (taken s (carried true lines)).pendingBits ≠ 32 := by rw [whole]; decide
  have start : s.pendingBits ≠ 0 := by omega
  rw [handlingData handling]
  simp only [Flash.handle, Flash.quadRead, start, if_false, enqueued, Option.map_some, address]
  rw [if_pos whole]

theorem quadHeader (handling : Handling s .quadRead) (idle : s.read = false) (none : s.pendingBits = 0) {start : BitVec 24} {address : List Lines}
    (counted : address.length = 8) (sent : address.flatMap (carried true) = msbFirst (start.setWidth 32)) (first second : Lines) :
    ∃ r, Addressed s r true start ∧
      s.clock (address ++ [first] ++ [second]) =
        some ((r.readOut (firstBit r.quad)).1, List.replicate 9 [] ++ [(r.readOut (firstBit r.quad)).2]) := by
  obtain ⟨early, lines, rfl, few⟩ := splitLast counted
  obtain ⟨q, started⟩ : ∃ q : Flash, q = { s with quad := true } := ⟨_, rfl⟩
  have goes : Handling q .quadRead := by rw [started]; exact ⟨handling.ready, handling.selected⟩
  have mode : q.quad = true := by rw [started]
  have waits : q.read = false := by rw [started]; exact idle
  have empty : q.pendingBits = 0 := by rw [started]; exact none
  have before := quietRun goes waits mode (by rw [empty]) early (by rw [empty, few, mode]; decide) (fun j inside => by
    have four : ((lanes q.quad : Nat) : Int) = 4 := by rw [mode]; rfl
    rw [empty, four]
    exact ⟨by omega, by omega⟩)
  rw [mode, few] at before
  obtain ⟨m, shape⟩ : ∃ m, m = taken q (early.flatMap (carried true)) := ⟨_, rfl⟩
  rw [← shape] at before
  have size : (early.flatMap (carried true)).length = 28 := by simp [List.length_flatMap, few, lanes]
  have latched := quadAddress (s := m) (by rw [shape]; exact ⟨goes.ready, goes.selected⟩) (by rw [shape]; exact mode) (by rw [shape]; exact waits)
    (by simp [shape, taken, empty, size]) lines
  obtain ⟨a, addressed⟩ : ∃ a : Flash, a = { taken m (carried true lines) with currentAddr := (taken m (carried true lines)).pendingWord } := ⟨_, rfl⟩
  rw [← addressed] at latched
  have handlingA : Handling a .quadRead := by rw [addressed, shape]; exact ⟨goes.ready, goes.selected⟩
  have modeA : a.quad = true := by rw [addressed, shape]; exact mode
  have waitsA : a.read = false := by rw [addressed, shape]; exact waits
  have bitsA : a.pendingBits = 32 := by simp [addressed, shape, taken, empty, size, carried]
  have wordA : a.currentAddr = start.setWidth 32 := by
    have all : taken m (carried true lines) = taken q (msbFirst (start.setWidth 32)) := by
      rw [shape, takenMore, ← sent, List.flatMap_append, List.flatMap_singleton]
    rw [addressed, all]
    have exactly := shiftInWhole q.pendingWord (start.setWidth 32) (Nat.le_refl 32)
    rwa [BitVec.setWidth_eq] at exactly
  have third := quietStep handlingA waitsA modeA (by omega) (by rw [modeA, bitsA]; decide)
    (by rw [modeA, bitsA]; exact ⟨by decide, by decide⟩) first
  rw [modeA] at third
  have fourth := quadMode (s := taken a (carried true first)) ⟨handlingA.ready, handlingA.selected⟩ modeA waitsA (by simp [taken, bitsA, carried]) second
  refine ⟨{ taken (taken a (carried true first)) (carried true second) with read := true }, ⟨⟨?_, rfl, ?_⟩, ?_, wordA, ?_, ?_, modeA⟩, ?_⟩
  · have handler : readHandler a.quad = .quadRead := by rw [modeA]; rfl
    exact ⟨handlingA.ready, by simpa [taken, handler] using handlingA.selected⟩
  · rw [show (taken (taken a (carried true first)) (carried true second)).quad = true from modeA]
    simp [taken, bitsA, carried, firstBit]
  · simp [taken, bitsA, carried, firstBit]
  · simp [taken, addressed, shape, started]
  · simp [taken, addressed, shape, started]
  · have joined := clockJoin (clockJoin (clockJoin before (clockOne latched)) (clockOne third)) (clockOne fourth)
    have opened : (s.clock (early ++ [lines] ++ [first] ++ [second])) = q.clock (early ++ [lines] ++ [first] ++ [second]) := by
      cases early with
      | nil => simp at few
      | cons lines rest => rw [started]; exact quadStart handling none lines _
    have quad : firstBit (taken (taken a (carried true first)) (carried true second)).quad = 40 := by
      rw [show (taken (taken a (carried true first)) (carried true second)).quad = true from modeA]
      rfl
    rw [opened, joined]
    dsimp only
    rw [quad]
    rfl

end Header

section Count

theorem countFrame {s next : Flash} {n : Int} (counted : s.count n = some next) :
    s.pendingBits + n ≤ 2147483647 ∧ next = { s with pendingBits := s.pendingBits + n } := by
  unfold Flash.count at counted
  split at counted
  · rename_i room
    exact ⟨room.2, (Option.some.inj counted).symm⟩
  · contradiction

theorem enqueueFrame {s next : Flash} {lines : Lines} (enqueued : s.enqueueBits lines = some next) :
    s.pendingBits + lanes s.quad ≤ 2147483647 ∧ ∃ word, next = { s with pendingWord := word, pendingBits := s.pendingBits + lanes s.quad } := by
  unfold Flash.enqueueBits at enqueued
  rcases Bool.eq_false_or_eq_true s.quad with mode | mode
  · have four : (lanes s.quad : Int) = 4 := by rw [mode]; rfl
    rw [if_neg (by simp [mode])] at enqueued
    rw [four]
    split at enqueued <;> exact ⟨(countFrame enqueued).1, _, (countFrame enqueued).2⟩
  · have one : (lanes s.quad : Int) = 1 := by rw [mode]; rfl
    rw [if_pos mode] at enqueued
    rw [one]
    split at enqueued <;> exact ⟨(countFrame enqueued).1, _, (countFrame enqueued).2⟩

theorem countStep {quad : Bool} {s next : Flash} {lines : Lines} {sent : List Output} (handling : Handling s (readHandler quad))
    (mode : s.quad = quad ∨ (quad = true ∧ s.pendingBits = 0)) (clocked : s.handleData lines = some (next, sent)) :
    Handling next (readHandler quad) ∧ next.quad = quad ∧ next.pendingBits = s.pendingBits + lanes quad ∧ next.pendingBits ≤ 2147483647 := by
  rw [handlingData handling] at clocked
  cases quad with
  | false =>
      have single : s.quad = false := mode.resolve_right (by simp)
      obtain ⟨m, enqueued, moved⟩ := Option.map_eq_some_iff.mp (show s.singleRead lines = some (next, sent) from clocked)
      obtain ⟨room, word, rfl⟩ := enqueueFrame enqueued
      rw [single] at room
      dsimp only at moved
      split at moved
      all_goals
        obtain ⟨last, addr, frame⟩ := readOutFrame _ 24
        have shape : next = _ := (congrArg Prod.fst moved).symm.trans frame
        rw [shape, single]
        exact ⟨⟨handling.ready, handling.selected⟩, rfl, rfl, room⟩
  | true =>
      obtain ⟨q, started⟩ : ∃ q : Flash, q = if s.pendingBits = 0 then { s with quad := true } else s := ⟨_, rfl⟩
      have four : q.quad = true ∧ q.pendingBits = s.pendingBits ∧ Handling q .quadRead := by
        rw [started]
        split
        · exact ⟨rfl, rfl, handling.ready, handling.selected⟩
        · rename_i busy
          exact ⟨mode.resolve_right (by simp [busy]), rfl, handling⟩
      obtain ⟨wide, same, handling⟩ := four
      obtain ⟨m, enqueued, moved⟩ := Option.map_eq_some_iff.mp (show s.quadRead lines = some (next, sent) from clocked)
      rw [← started] at enqueued
      obtain ⟨room, word, rfl⟩ := enqueueFrame enqueued
      rw [wide] at room
      rw [← same]
      dsimp only at moved
      split at moved
      all_goals
        split at moved
        all_goals
          obtain ⟨last, addr, frame⟩ := readOutFrame _ 40
          have shape : next = _ := (congrArg Prod.fst moved).symm.trans frame
          rw [shape, wide]
          exact ⟨⟨handling.ready, handling.selected⟩, rfl, rfl, room⟩

theorem countRun {quad : Bool} (edges : List Lines) {s after : Flash} {outputs : List (List Output)} (handling : Handling s (readHandler quad))
    (mode : s.quad = quad ∨ (quad = true ∧ s.pendingBits = 0)) (room : s.pendingBits ≤ 2147483647)
    (clocked : s.clock edges = some (after, outputs)) : s.pendingBits + lanes quad * edges.length ≤ 2147483647 := by
  induction edges generalizing s outputs with
  | nil => simpa using room
  | cons lines rest ih =>
      simp only [Flash.clock, Option.bind_eq_bind, Option.bind_eq_some_iff] at clocked
      obtain ⟨⟨next, sent⟩, step, ⟨last, later⟩, rested, joined⟩ := clocked
      cases joined
      obtain ⟨goes, kept, counted, fits⟩ := countStep handling mode step
      have bound := ih goes (.inl kept) fits rested
      rw [counted] at bound
      rw [List.length_cons]
      push_cast
      linarith

end Count

end Gvsoc.SpiFlash
