import Gvsoc.SpiFlash
import Gvsoc.Io
import Mathlib.Tactic.Linarith
import Mathlib.Tactic.Positivity
import Mathlib.Tactic.Ring

/-! What runs of edges do to a serial flash: a command, bits that are only taken in, and bits that are read out. -/
namespace Gvsoc.SpiFlash
open Bytes (Byte)
open ShiftRegister (bit shiftIn msbFirst shiftInAppend shiftInWhole maskLow)

def lanes (quad : Bool) : Nat := if quad = true then 4 else 1

def carried (quad : Bool) (lines : Lines) : List Bool :=
  if quad = true then [lines.data3, lines.data2, lines.data1, lines.data0] else [lines.data0]

@[simp] theorem carriedLength (quad : Bool) (lines : Lines) : (carried quad lines).length = lanes quad := by cases quad <;> rfl

section Clock

variable {s mid last : Flash} {first second : List Lines} {early late : List (List Output)}

theorem clockAppend (s : Flash) (first second : List Lines) :
    s.clock (first ++ second) = (s.clock first).bind fun (mid, early) => (mid.clock second).map fun (last, late) => (last, early ++ late) := by
  induction first generalizing s with
  | nil =>
      simp only [List.nil_append, Flash.clock, Option.bind_some]
      cases s.clock second <;> rfl
  | cons lines rest ih =>
      simp only [List.cons_append, Flash.clock]
      cases s.handleData lines with
      | none => rfl
      | some taken =>
          obtain ⟨next, sent⟩ := taken
          simp only [Option.bind_eq_bind, Option.bind_some, ih]
          cases next.clock rest with
          | none => rfl
          | some rested =>
              obtain ⟨mid, early⟩ := rested
              simp only [Option.bind_some]
              cases mid.clock second <;> rfl

theorem clockJoin (before : s.clock first = some (mid, early)) (after : mid.clock second = some (last, late)) :
    s.clock (first ++ second) = some (last, early ++ late) := by
  rw [clockAppend, before]
  simp only [Option.bind_some, after, Option.map_some]

theorem clockOne {lines : Lines} {sent : List Output} (taken : s.handleData lines = some (mid, sent)) :
    s.clock [lines] = some (mid, [sent]) := by
  simp [Flash.clock, taken]

end Clock

section Command

def selected (s : Flash) (command : Command) : Flash :=
  { s.startCommand with
    waitingCommand := false
    pendingWord := shiftIn 0 (msbFirst command.id)
    pendingBits := 0
    pendingCommandId := command.id
    pendingCommand := some command }

theorem waitingRun {s : Flash} (waiting : s.waitingCommand = true) (edges : List Lines) (more : (edges.length : Int) < s.pendingBits)
    (few : s.pendingBits ≤ 8) :
    s.clock edges = some ({ s with
      pendingWord := shiftIn s.pendingWord (edges.map Lines.data0)
      pendingBits := s.pendingBits - edges.length }, List.replicate edges.length []) := by
  induction edges generalizing s with
  | nil => simp [Flash.clock]
  | cons lines rest ih =>
      rw [List.length_cons, Nat.cast_add, Nat.cast_one] at more
      have inRange : -2147483648 ≤ s.pendingBits + -1 ∧ s.pendingBits + -1 ≤ 2147483647 := by omega
      have later : s.pendingBits + -1 ≠ 0 := by omega
      have taken : s.handleData lines = some ({ s with
          pendingWord := s.pendingWord <<< 1 ||| bit 32 lines.data0
          pendingBits := s.pendingBits + -1 }, []) := by
        simp only [Flash.handleData, waiting, if_true, Flash.count, inRange, and_self, Option.map_some, later, if_false]
      have rested := ih (s := { s with
          pendingWord := s.pendingWord <<< 1 ||| bit 32 lines.data0
          pendingBits := s.pendingBits + -1 }) waiting (by dsimp only; omega) (by dsimp only; omega)
      have whole := clockJoin (clockOne taken) rested
      rw [List.singleton_append] at whole
      rw [whole]
      simp only [List.map_cons, ShiftRegister.shiftInCons, List.length_cons, Nat.cast_add, Nat.cast_one, List.replicate_succ,
        List.singleton_append]
      congr 3
      omega

theorem commandRun (s : Flash) {command : Command} (found : commands command.id = some command) (plain : command.startHandler = none)
    {edges : List Lines} (sent : edges.map Lines.data0 = msbFirst command.id) :
    s.startCommand.clock edges = some (selected s command, List.replicate 8 []) := by
  have counted : edges.length = 8 := by
    have lengths := congrArg List.length sent
    simpa using lengths
  obtain ⟨early, lines, rfl⟩ := List.eq_nil_or_concat'  edges |>.resolve_left (by rintro rfl; simp at counted)
  rw [List.length_append, List.length_singleton] at counted
  have seven : early.length = 7 := by omega
  have before := waitingRun (s := s.startCommand) rfl early (by simp [Flash.startCommand, seven]) (by simp [Flash.startCommand])
  have word : shiftIn 0 (early.map Lines.data0) <<< 1 ||| bit 32 lines.data0 = shiftIn 0 (msbFirst command.id) := by
    rw [← sent, List.map_append, shiftInAppend]
    rfl
  have named : ((shiftIn (0 : BitVec 32) (msbFirst command.id)) &&& 0xff).setWidth 8 = command.id := by
    have masked := maskLow (shiftIn (0 : BitVec 32) (msbFirst command.id)) 8
    rw [shiftInWhole _ _ (by decide)] at masked
    exact (congrArg (BitVec.setWidth 8) masked).trans (BitVec.setWidth_setWidth_of_le _ (by decide))
  rw [seven] at before
  refine clockJoin before (clockOne ?_)
  have none : (8 : Int) - ((7 : Nat) : Int) + -1 = 0 := by decide
  simp only [Flash.handleData, Flash.startCommand, if_true, Flash.count, word, none]
  rw [if_pos (by decide)]
  simp only [Option.map_some, if_true, Flash.selectCommand, named, found, plain, selected, Flash.startCommand]

end Command

section Quiet

variable {s : Flash} {handler : Handler}

structure Handling (s : Flash) (handler : Handler) : Prop where
  ready : s.waitingCommand = false
  selected : ∃ command, s.pendingCommand = some command ∧ command.handler = some handler

theorem handlingData (handling : Handling s handler) (lines : Lines) : s.handleData lines = s.handle handler lines := by
  obtain ⟨ready, command, pending, handled⟩ := handling
  simp [Flash.handleData, ready, pending, handled]

def taken (s : Flash) (bits : List Bool) : Flash :=
  { s with pendingWord := shiftIn s.pendingWord bits, pendingBits := s.pendingBits + bits.length }

theorem takenMore (s : Flash) (first second : List Bool) : taken (taken s first) second = taken s (first ++ second) := by
  simp [taken, shiftInAppend, Int.add_assoc]

theorem enqueueTaken (idle : s.read = false) (positive : 0 ≤ s.pendingBits) (room : s.pendingBits + lanes s.quad ≤ 2147483647)
    (lines : Lines) : s.enqueueBits lines = some (taken s (carried s.quad lines)) := by
  obtain ⟨size, memData, word, bits, id, command, cr1, sr2v, quad, read, waiting, addr, erase⟩ := s
  dsimp only at idle positive room
  subst idle
  cases quad with
  | false =>
      have room : bits + 1 ≤ 2147483647 := room
      simp only [Flash.enqueueBits, if_true, Flash.count]
      rw [if_pos (by omega)]
      rfl
  | true =>
      have room : bits + 4 ≤ 2147483647 := room
      simp only [Flash.enqueueBits, if_true, Bool.true_eq_false, if_false, Flash.count]
      rw [if_pos (by omega)]
      simp [taken, carried, BitVec.shiftLeft_or_distrib, ← BitVec.shiftLeft_add, BitVec.or_assoc]

/- Only `quad_read` works with all four lines. -/
def quadHandler (handler : Handler) : Bool := handler = .quadRead

def Quiet : Handler → Int → Prop
  | .pageProgram, bits => bits ≠ 24 ∧ (32 ≤ bits → bits % 8 ≠ 0)
  | .singleRead, bits => bits < 24
  | .quadRead, bits => bits < 40 ∧ bits ≠ 32
  | _, _ => False

theorem quietStep (handling : Handling s handler) (idle : s.read = false) (mode : s.quad = quadHandler handler)
    (positive : 0 ≤ s.pendingBits) (room : s.pendingBits + lanes s.quad ≤ 2147483647)
    (quiet : Quiet handler (s.pendingBits + lanes s.quad)) (lines : Lines) :
    s.handleData lines = some (taken s (carried s.quad lines), []) := by
  have enqueued := enqueueTaken idle positive room lines
  have counted : (taken s (carried s.quad lines)).pendingBits = s.pendingBits + lanes s.quad := by simp [taken]
  rw [handlingData handling]
  cases handler with
  | pageProgram =>
      obtain ⟨early, late⟩ := quiet
      rw [← counted] at early late
      have unwritten : ¬(32 ≤ (taken s (carried s.quad lines)).pendingBits ∧ (taken s (carried s.quad lines)).pendingBits.tmod 8 = 0) :=
        fun ⟨whole, multiple⟩ => late whole (by rwa [Int.tmod_eq_emod_of_nonneg (by omega)] at multiple)
      simp only [Flash.handle, Flash.pageProgram, enqueued, Option.map_some, early, if_false, unwritten]
  | singleRead =>
      have early : (taken s (carried s.quad lines)).pendingBits < 24 := by rw [counted]; exact quiet
      have address : (taken s (carried s.quad lines)).pendingBits ≠ 24 := by omega
      have silent : (taken s (carried s.quad lines)).read = false := idle
      have unread : ¬(24 ≤ (taken s (carried s.quad lines)).pendingBits ∧ (taken s (carried s.quad lines)).pendingBits.tmod 8 = 0) :=
        fun ⟨whole, _⟩ => by omega
      simp only [Flash.handle, Flash.singleRead, enqueued, Option.map_some, address, if_false, Flash.readOut, unread, Flash.sendBits,
        silent, Bool.false_eq_true]
  | quadRead =>
      obtain ⟨early, address⟩ := quiet
      rw [← counted] at early address
      have mode : s.quad = true := mode
      have same : { s with quad := true } = s := by rw [← mode]
      have silent : (taken s (carried s.quad lines)).read = false := idle
      have header : (taken s (carried s.quad lines)).pendingBits ≠ 40 := by omega
      have unread : ¬(40 ≤ (taken s (carried s.quad lines)).pendingBits ∧ (taken s (carried s.quad lines)).pendingBits.tmod 8 = 0) :=
        fun ⟨whole, _⟩ => by omega
      simp only [Flash.handle, Flash.quadRead, same, ite_self, enqueued, Option.map_some, address, header, if_false, Flash.readOut, unread,
        Flash.sendBits, silent, Bool.false_eq_true]
  | writeAnyRegister | sectorErase | readSr2v => exact quiet.elim

theorem quietRun (handling : Handling s handler) (idle : s.read = false) (mode : s.quad = quadHandler handler)
    (positive : 0 ≤ s.pendingBits) (edges : List Lines) (room : s.pendingBits + lanes s.quad * edges.length ≤ 2147483647)
    (quiet : ∀ j < edges.length, Quiet handler (s.pendingBits + lanes s.quad * (j + 1 : Nat))) :
    s.clock edges = some (taken s (edges.flatMap (carried s.quad)), List.replicate edges.length []) := by
  induction edges generalizing s with
  | nil => simp [Flash.clock, taken]
  | cons lines rest ih =>
      have counted : (taken s (carried s.quad lines)).pendingBits = s.pendingBits + lanes s.quad := by simp [taken]
      have first := quiet 0 (by simp)
      rw [List.length_cons] at room
      push_cast at room
      have left : 0 ≤ (lanes s.quad : Int) * rest.length := by positivity
      have step := quietStep handling idle mode positive (by linarith) (by simpa using first) lines
      have rested := ih (s := taken s (carried s.quad lines)) ⟨handling.ready, handling.selected⟩ idle mode
        (by rw [counted]; positivity) (by rw [counted]; change _ + (lanes s.quad : Int) * _ ≤ _; linarith) (fun j inside => by
          have later := quiet (j + 1) (by simpa using inside)
          rw [counted]
          change Quiet handler (s.pendingBits + lanes s.quad + (lanes s.quad : Int) * (j + 1 : Nat))
          have sums : s.pendingBits + lanes s.quad + (lanes s.quad : Int) * (j + 1 : Nat) =
              s.pendingBits + (lanes s.quad : Int) * (j + 1 + 1 : Nat) := by push_cast; ring
          rwa [sums])
      have whole := clockJoin (clockOne step) rested
      rw [takenMore] at whole
      rw [List.length_cons, List.replicate_succ, List.flatMap_cons]
      exact whole

end Quiet

end Gvsoc.SpiFlash
