import Gvsoc.SpiFlashHeader

/-! A page program and a read of the same bytes, simple or on four lines: the read drives what was programmed as long as the count
of its bits stays an `int`. -/
namespace Gvsoc.SpiFlash
open Bytes (Byte)
open ShiftRegister (msbFirst)
open Cells (write holdsWrite)

def rising : List Event → List Lines
  | [] => []
  | .edge true lines :: rest => lines :: rising rest
  | _ :: rest => rising rest

def Clocked (events : List Event) : Prop := ∀ event ∈ events, ∃ sck lines, event = .edge sck lines

theorem runClocked (events : List Event) (clocked : Clocked events) (s : Flash) : run s events = s.clock (rising events) := by
  induction events generalizing s with
  | nil => rfl
  | cons event rest ih =>
      obtain ⟨sck, lines, rfl⟩ := clocked event (List.mem_cons_self ..)
      have others : Clocked rest := fun event member => clocked event (List.mem_cons_of_mem _ member)
      cases sck with
      | false => exact ih others s
      | true => simp only [run, rising, Flash.clock, ih others]

structure Programs (start : BitVec 24) (data : List Byte) (events : List Event) : Prop where
  clocked : Clocked events
  bits : (rising events).map Lines.data0 = msbFirst (0x02 : Byte) ++ msbFirst start ++ data.flatMap msbFirst

inductive ReadCommand
  | read
  | readSimple
  | quadIoRead4B
  deriving DecidableEq

def ReadCommand.id : ReadCommand → Byte
  | .read => 0x0C
  | .readSimple => 0x03
  | .quadIoRead4B => 0xEC

def ReadCommand.quad : ReadCommand → Bool
  | .quadIoRead4B => true
  | _ => false

/- An address of 24 bits on one line, or of 32 bits and a mode on four lines. -/
def ReadCommand.addressBits (command : ReadCommand) (start : BitVec 24) : List Bool :=
  if command.quad = true then msbFirst (start.setWidth 32) else msbFirst start

def ReadCommand.modeEdges (command : ReadCommand) : Nat := if command.quad = true then 2 else 0

def ReadCommand.silentEdges (command : ReadCommand) : Nat := if command.quad = true then 17 else 31

structure Reads (command : ReadCommand) (start : BitVec 24) (count : Nat) (events : List Event) : Prop where
  clocked : Clocked events
  edges : ∃ opcode address mode rest, rising events = opcode ++ (address ++ mode) ++ rest ∧
    opcode.map Lines.data0 = msbFirst command.id ∧ address.flatMap (carried command.quad) = command.addressBits start ∧
    mode.length = command.modeEdges ∧ lanes command.quad * rest.length = 8 * count

/- The program writes the bytes and nothing else. In the read the first bits are driven at the last edge of the header, and the rest at
the edges of the data but the last one: what is driven there is not sampled any more. -/
def RoundTrip (flash : Flash) (start : BitVec 24) (data : List Byte) (command : ReadCommand) (program read : List Event) : Prop :=
  ∃ programmed silent after final,
    run flash (.cs false :: program) = some (programmed, silent) ∧ (∀ sent ∈ silent, sent = []) ∧
    run programmed (.cs true :: .cs false :: read) =
      some (after, List.replicate command.silentEdges [] ++ data.flatMap (driven command.quad) ++ [final]) ∧
    programmed.memData = write flash.memData start.toNat data ∧ after.memData = programmed.memData

def pageProgramCommand : Command := ⟨0x02, "page program", some .pageProgram, none⟩

theorem programRun (flash : Flash) {start : BitVec 24} {data : List Byte} {events : List Event} (programs : Programs start data events)
    (inside : start.toNat + data.length ≤ flash.size.toNat) (room : 24 + 8 * (data.length : Int) ≤ 2147483647) :
    ∃ programmed silent, run flash (.cs false :: events) = some (programmed, silent) ∧ (∀ sent ∈ silent, sent = []) ∧
      programmed.memData = write flash.memData start.toNat data ∧ programmed.size = flash.size := by
  obtain ⟨clocked, bits⟩ := programs
  obtain ⟨header, payload, split, heads, bytes⟩ := List.map_eq_append_iff.mp bits
  obtain ⟨opcode, address, rfl, named, placed⟩ := List.map_eq_append_iff.mp heads
  have found : commands pageProgramCommand.id = some pageProgramCommand := rfl
  have chosen := commandRun flash found rfl named
  have handling : Handling (selected flash pageProgramCommand) .pageProgram := ⟨rfl, _, rfl, rfl⟩
  have addressed := programAddress ⟨handling, rfl, rfl⟩ rfl placed
  have number : (start.setWidth 32).toNat = start.toNat := by
    rw [BitVec.toNat_setWidth, Nat.mod_eq_of_lt]
    have bound := start.isLt
    omega
  obtain ⟨after, written, memory, size⟩ := programBytes data (s := { taken (selected flash pageProgramCommand) (msbFirst start) with
      currentAddr := start.setWidth 32, read := false }) ⟨⟨rfl, _, rfl, rfl⟩, rfl, rfl⟩ (by simp [taken, selected]) (by simp [taken, selected])
    (by simpa [taken, selected] using room) (by dsimp only; rw [number]; exact inside) bytes
  have joined := clockJoin (clockJoin chosen addressed) written
  rw [← split] at joined
  refine ⟨after, _, (runClocked events clocked _).trans joined, ?_, ?_, size⟩
  · intro sent member
    simp only [List.mem_append, List.mem_replicate] at member
    tauto
  · rw [memory, number]
    rfl

def ReadCommand.entry (command : ReadCommand) : Command :=
  ⟨command.id, if command.quad = true then "quad IO read" else "IO read", some (readHandler command.quad), none⟩

theorem readEntry (command : ReadCommand) : commands command.entry.id = some command.entry := by cases command <;> rfl

theorem readHandling (flash : Flash) (command : ReadCommand) : Handling (selected flash command.entry) (readHandler command.quad) :=
  ⟨rfl, _, rfl, rfl⟩

theorem readHeader (flash : Flash) (command : ReadCommand) {start : BitVec 24} {address mode : List Lines}
    (placed : address.flatMap (carried command.quad) = command.addressBits start) (modes : mode.length = command.modeEdges) :
    ∃ r, Addressed (selected flash command.entry) r command.quad start ∧
      (selected flash command.entry).clock (address ++ mode) = some ((r.readOut (firstBit r.quad)).1,
        List.replicate (command.silentEdges - 8) [] ++ [(r.readOut (firstBit r.quad)).2]) := by
  have handling := readHandling flash command
  unfold ReadCommand.addressBits at placed
  unfold ReadCommand.modeEdges at modes
  unfold ReadCommand.silentEdges
  rcases Bool.eq_false_or_eq_true command.quad with quad | quad
  · rw [quad] at handling placed
    rw [if_pos rfl] at placed
    rw [if_pos quad] at modes ⊢
    have counted : address.length = 8 := by
      have lengths := congrArg List.length placed
      simp [List.length_flatMap, lanes] at lengths
      omega
    obtain ⟨first, second, rfl⟩ := List.length_eq_two.mp modes
    have header := quadHeader handling rfl rfl counted placed first second
    rwa [quad, List.append_cons]
  · rw [quad] at handling placed
    rw [if_neg (by decide), carriedSingle] at placed
    rw [if_neg (by simp [quad])] at modes ⊢
    have header := singleHeader handling rfl rfl rfl placed
    rwa [quad, List.eq_nil_of_length_eq_zero modes, List.append_nil]

theorem readCounts {flash after : Flash} {command : ReadCommand} {start : BitVec 24} {count : Nat} {events : List Event}
    {outputs : List (List Output)} (reads : Reads command start count events)
    (ran : run flash (.cs true :: .cs false :: events) = some (after, outputs)) :
    firstBit command.quad + 8 * (count : Int) ≤ 2147483647 := by
  obtain ⟨clocked, opcode, address, mode, rest, split, named, placed, modes, payload⟩ := reads
  have clocks : flash.startCommand.clock (rising events) = some (after, outputs) := (runClocked events clocked _).symm.trans ran
  rw [split, List.append_assoc, clockAppend, commandRun flash (readEntry command) rfl named] at clocks
  simp only [Option.bind_some, Option.map_eq_some_iff] at clocks
  obtain ⟨⟨last, late⟩, counted, -⟩ := clocks
  have first : (selected flash command.entry).quad = command.quad ∨ (command.quad = true ∧ (selected flash command.entry).pendingBits = 0) := by
    rcases Bool.eq_false_or_eq_true command.quad with quad | quad
    · exact .inr ⟨quad, rfl⟩
    · exact .inl quad.symm
  have bound := countRun _ (readHandling flash command) first (by simp [selected]) counted
  have width : (lanes command.quad * address.length : Nat) = (command.addressBits start).length := by
    rw [← placed, List.length_flatMap]
    simp [Nat.mul_comm]
  have header : (lanes command.quad : Int) * (address.length + mode.length : Nat) = firstBit command.quad := by
    rw [modes]
    unfold ReadCommand.addressBits at width
    unfold ReadCommand.modeEdges
    rcases Bool.eq_false_or_eq_true command.quad with quad | quad
    · rw [quad] at width ⊢
      simp [lanes, firstBit] at width ⊢
      omega
    · rw [quad] at width ⊢
      simp [lanes, firstBit] at width ⊢
      omega
  have bits : (lanes command.quad * rest.length : Int) = 8 * count := by exact_mod_cast payload
  have none : (selected flash command.entry).pendingBits = 0 := rfl
  rw [none, List.length_append, List.length_append] at bound
  push_cast at bound header
  linarith

theorem readRun (flash : Flash) {command : ReadCommand} {start : BitVec 24} {data : List Byte} {events : List Event}
    (reads : Reads command start data.length events) (held : Cells.Holds flash.memData start.toNat data)
    (inside : start.toNat + data.length ≤ flash.size.toNat) (room : firstBit command.quad + 8 * (data.length : Int) ≤ 2147483647) :
    ∃ after final, run flash (.cs true :: .cs false :: events) =
      some (after, List.replicate command.silentEdges [] ++ data.flatMap (driven command.quad) ++ [final]) ∧ after.memData = flash.memData := by
  obtain ⟨clocked, opcode, address, mode, rest, split, named, placed, modes, payload⟩ := reads
  have chosen := commandRun flash (readEntry command) rfl named
  obtain ⟨r, addressed, header⟩ := readHeader flash command placed modes
  have number : r.currentAddr.toNat = start.toNat := by
    rw [addressed.address, BitVec.toNat_setWidth, Nat.mod_eq_of_lt]
    have bound := start.isLt
    omega
  have memory : r.memData = flash.memData := addressed.memory
  have size : r.size = flash.size := addressed.size
  have whole : r.pendingBits % 8 = 0 := by
    rw [addressed.bits]
    cases command.quad <;> decide
  obtain ⟨after, later, final, streaming, outputs, kept⟩ := streamed data addressed.reading whole (by rwa [memory, number])
    (by rwa [number, size]) (by rwa [addressed.quad]) (by rwa [addressed.bits])
  have joined := clockJoin (clockJoin chosen header) streaming
  rw [← split] at joined
  refine ⟨after, final, ?_, kept.trans memory⟩
  have silent : List.replicate 8 [] ++ List.replicate (command.silentEdges - 8) [] = List.replicate command.silentEdges ([] : List Output) := by
    rw [List.replicate_append_replicate]
    cases command <;> rfl
  have all : run flash (.cs true :: .cs false :: events) = some (after, _) := (runClocked events clocked _).trans joined
  rw [all, ← silent, ← addressed.quad, ← List.append_assoc, List.append_assoc, List.singleton_append, outputs]
  simp only [List.append_assoc]

theorem flashRoundTrip (flash : Flash) (start : BitVec 24) (data : List Byte) (command : ReadCommand) (program read : List Event)
    (inside : start.toNat + data.length ≤ flash.size.toNat) (programs : Programs start data program) (reads : Reads command start data.length read) :
    RoundTrip flash start data command program read ↔ firstBit command.quad + 8 * (data.length : Int) ≤ 2147483647 := by
  constructor
  · rintro ⟨programmed, silent, after, final, -, -, ran, -⟩
    exact readCounts reads ran
  · intro room
    have bound := firstBound command.quad
    obtain ⟨programmed, silent, ran, quiet, memory, size⟩ := programRun flash programs inside (by omega)
    obtain ⟨after, final, answered, kept⟩ := readRun programmed reads (by rw [memory]; exact holdsWrite) (by rwa [size]) room
    exact ⟨programmed, silent, after, final, ran, quiet, answered, memory, kept⟩

def silentLines (bit : Bool) : Lines := ⟨bit, false, false, false⟩

def serialEdges (bits : List Bool) : List Event := bits.map fun bit => .edge true (silentLines bit)

theorem serialClocked (bits : List Bool) : Clocked (serialEdges bits) := by
  intro event member
  obtain ⟨bit, -, rfl⟩ := List.mem_map.mp member
  exact ⟨true, silentLines bit, rfl⟩

theorem serialRising (bits : List Bool) : rising (serialEdges bits) = bits.map silentLines := by
  induction bits with
  | nil => rfl
  | cons bit rest ih => exact congrArg (silentLines bit :: ·) ih

theorem serialBits (bits : List Bool) : (bits.map silentLines).map Lines.data0 = bits := by
  rw [List.map_map]
  exact List.map_id bits

def programEdges (start : BitVec 24) (data : List Byte) : List Event :=
  serialEdges (msbFirst (0x02 : Byte) ++ msbFirst start ++ data.flatMap msbFirst)

theorem programPrograms (start : BitVec 24) (data : List Byte) : Programs start data (programEdges start data) :=
  ⟨serialClocked _, by rw [programEdges, serialRising, serialBits]⟩

def readEdges (start : BitVec 24) (count : Nat) : List Event :=
  serialEdges (msbFirst (0x03 : Byte) ++ msbFirst start ++ List.replicate (8 * count) false)

theorem readReads (start : BitVec 24) (count : Nat) : Reads .readSimple start count (readEdges start count) := by
  refine ⟨serialClocked _, (msbFirst (0x03 : Byte)).map silentLines, (msbFirst start).map silentLines, [],
    (List.replicate (8 * count) false).map silentLines, ?_, serialBits _, ?_, rfl, ?_⟩
  · rw [readEdges, serialRising, List.map_append, List.map_append, List.append_nil]
  · exact (carriedSingle _).trans (serialBits _)
  · simp [ReadCommand.quad, lanes]

def flashOf (size : BitVec 32) : Flash :=
  ⟨size, fun _ => 0x57, 0, 0, 0, none, 0, 0, false, false, false, 0, none⟩

theorem roundTripTwo : RoundTrip (flashOf 16) 3 [0xA5, 0x3C] .readSimple (programEdges 3 [0xA5, 0x3C]) (readEdges 3 2) :=
  (flashRoundTrip (flashOf 16) 3 [0xA5, 0x3C] .readSimple _ _ (by decide) (programPrograms 3 _) (readReads 3 2)).mpr (by decide)

/- So many bytes that their bits are more than an `int` counts. -/
theorem roundTripOverflow : ¬∀ (flash : Flash) (start : BitVec 24) (data : List Byte) (command : ReadCommand) (program read : List Event),
    start.toNat + data.length ≤ flash.size.toNat → Programs start data program → Reads command start data.length read →
      RoundTrip flash start data command program read := by
  intro all
  have counted : (List.replicate (2 ^ 28 - 3) (0 : Byte)).length = 2 ^ 28 - 3 := List.length_replicate ..
  have reads := readReads 0 (2 ^ 28 - 3)
  obtain ⟨programmed, silent, after, final, -, -, ran, -⟩ := all (flashOf (2 ^ 28)) 0 (List.replicate (2 ^ 28 - 3) 0) .readSimple
    (programEdges 0 (List.replicate (2 ^ 28 - 3) 0)) (readEdges 0 (2 ^ 28 - 3)) (by rw [counted]; decide) (programPrograms 0 _) (by rw [counted]; exact reads)
  have bound := readCounts reads ran
  have first : firstBit ReadCommand.readSimple.quad = 24 := rfl
  rw [first] at bound
  omega

end Gvsoc.SpiFlash
