import Gvsoc.Prefetcher

/-! Opcodes that the prefetcher hands to the decoder. As long as no value is fetched from a low
address through an invalid buffer and no flush overtakes a fill that a value waits for, every
opcode is what the port returned since the last flush and every index is inside the buffer. -/
namespace Gvsoc.Prefetch
open Bytes (Byte littleEndian byteOf)
open Machine (Run)

def Decoded.right (d : Decoded) : Prop := d.expected = (List.range opcodeSize).map (fun i => some (byteOf d.opcode i))

instance (d : Decoded) : Decidable d.right := inferInstanceAs (Decidable (_ = _))

def inBuffer (r : Int × Nat) : Prop := 0 ≤ r.1 ∧ r.1 + r.2 ≤ prefetcherSize

instance (r : Int × Nat) : Decidable (inBuffer r) := inferInstanceAs (Decidable (_ ∧ _))

def Answer.valid : Answer → Bool
  | .invalid => false
  | _ => true

/- The port answers every request, at once or later; an invalid buffer is not asked for a value
at the addresses next to its marker; a flush does not overtake the fill of a value. -/
def PrefetchOk (s : State) : Action → Prop
  | .fetch insn line next => line.valid = true ∧ next.valid = true ∧
      (s.fetched insn = false → s.prefetcher.addr = -1 → 16 ≤ insn.toNat)
  | .response _ next => next.valid = true
  | .flush _ => s.pending = none ∨ s.callback = none

instance (s : State) (a : Action) : Decidable (PrefetchOk s a) :=
  match a with
  | .fetch _ _ _ => inferInstanceAs (Decidable (_ ∧ _ ∧ (_ → _ → _)))
  | .response _ _ => inferInstanceAs (Decidable (_ = _))
  | .flush _ => inferInstanceAs (Decidable (_ ∨ _))

section Lines

theorem lineNumber (a : Addr) : (lineOf a).toNat = a.toNat / 16 * 16 := Bytes.maskNumber (k := 4) a

theorem lineAligned (a : Addr) : (lineOf a).toNat % 16 = 0 := by
  rw [lineNumber]
  omega

theorem lineTwice (a : Addr) : lineOf (lineOf a) = lineOf a := by
  unfold lineOf
  rw [BitVec.and_assoc, BitVec.and_self]

theorem nextLineAfter {a : Addr} (last : a.toNat % 16 = 14) : nextLine a = a + 2 := by
  have low := a.isLt
  have constants : (16 : Addr).toNat = 16 ∧ (1 : Addr).toNat = 1 ∧ (2 : Addr).toNat = 2 := ⟨rfl, rfl, rfl⟩
  apply BitVec.eq_of_toNat_eq
  unfold nextLine
  rw [lineNumber, BitVec.toNat_sub, BitVec.toNat_add, BitVec.toNat_add, constants.1, constants.2.1, constants.2.2]
  omega

theorem nbBytesTwo {a : Addr} (last : a.toNat % 16 = 14) : nbBytes a = 2 := by
  unfold nbBytes
  rw [nextLineAfter last, BitVec.add_comm, BitVec.add_sub_cancel]
  rfl

theorem indexInside (a line : Addr) (low : 0 ≤ (a - line).toInt) :
    a = line + BitVec.ofNat 32 (a - line).toInt.toNat ∧ (a - line).toInt = ((a - line).toInt.toNat : Int) := by
  have natural : (a - line).toInt = ((a - line).toNat : Int) := by
    rw [BitVec.toInt_eq_toNat_cond] at low ⊢
    have bound := (a - line).isLt
    split at low
    · rename_i small
      rw [if_pos small]
    · omega
  rw [natural, Int.toNat_natCast, BitVec.ofNat_toNat, BitVec.setWidth_eq, BitVec.add_comm, BitVec.sub_add_cancel]
  exact ⟨rfl, rfl⟩

theorem indexInLine (a : Addr) : (a - lineOf a).toInt = ((a.toNat % 16 : Nat) : Int) := by
  have number := lineNumber a
  have distance : (a - lineOf a).toNat = a.toNat % 16 := by
    have low := a.isLt
    rw [BitVec.toNat_sub, number]
    omega
  rw [BitVec.toInt_eq_toNat_cond, distance, if_pos (by omega)]

end Lines

section Invariant

variable {s : State} {insn : Addr} {k : Nat}

structure Holds (s : State) : Prop where
  aligned : s.prefetcher.addr.toNat % 16 = 0
  bytes : ∀ i < 16, s.returned (s.prefetcher.addr + BitVec.ofNat 32 i) = some (s.prefetcher.data i)

/- Who waits for the line that is being filled: nobody, an instruction of the line, or one that
ends in it and has its first bytes already. -/
inductive Flight (line : Addr) (s : State) : Prop where
  | silent (callback : s.callback = none) (buffer : s.prefetcher.addr = line ∨ s.prefetcher.addr = -1)
  | whole (callback : s.callback = some .prefetcherFetchValueResume0) (buffer : s.prefetcher.addr = line)
      (own : line = lineOf s.prefetchInsn) (even : s.prefetchInsn.toNat % 2 = 0)
  | half (callback : s.callback = some .prefetcherFetchValueResume1) (buffer : s.prefetcher.addr = line)
      (last : s.prefetchInsn.toNat % 16 = 14) (own : line = nextLine s.prefetchInsn) (low : Nat → Byte)
      (saved : s.fetchStallOpcode = BitVec.ofNat 32 (littleEndian low 2))
      (first : ∀ i < 2, s.returned (s.prefetchInsn + BitVec.ofNat 32 i) = some (low i))

structure Clean (s : State) : Prop where
  decoded : ∀ d ∈ s.decoded, d.right
  reads : ∀ r ∈ s.reads, inBuffer r

structure Good (s : State) : Prop where
  clean : Clean s
  buffer : s.pending = none → s.prefetcher.addr = -1 ∨ Holds s
  flight : ∀ line, s.pending = some line → line.toNat % 16 = 0 ∧ Flight line s

theorem goodIdle (clean : Clean s) (idle : s.pending = none) (buffer : s.prefetcher.addr = -1 ∨ Holds s) : Good s :=
  ⟨clean, fun _ => buffer, fun line waits => by rw [idle] at waits; contradiction⟩

theorem noteReadClean {index : Int} {n : Nat} (clean : Clean s) (inside : inBuffer (index, n)) :
    Clean (s.noteRead index n) := by
  refine ⟨clean.decoded, ?_⟩
  intro r member
  rcases List.mem_append.mp member with before | new
  · exact clean.reads r before
  · rw [List.mem_singleton.mp new]
    exact inside

theorem decodeClean {opcode : Opcode} (clean : Clean s)
    (same : ∀ i < 4, s.returned (insn + BitVec.ofNat 32 i) = some (byteOf opcode i)) :
    Clean (s.issDecodePcNoexec insn opcode) := by
  refine ⟨?_, clean.reads⟩
  intro d member
  rcases List.mem_append.mp member with before | new
  · exact clean.decoded d before
  · rw [List.mem_singleton.mp new]
    exact List.map_congr_left (fun i inside => same i (List.mem_range.mp inside))

theorem byteInside {index : Int} (low : 0 ≤ index) (high : index < 16) : s.byteAt index = s.prefetcher.data index.toNat :=
  if_pos ⟨low, high⟩

theorem holdsReturned (holds : Holds s) (place : insn = s.prefetcher.addr + BitVec.ofNat 32 k) {i : Nat}
    (inside : k + i < 16) : s.returned (insn + BitVec.ofNat 32 i) = some (s.byteAt ((k : Int) + i)) := by
  rw [place, BitVec.add_assoc, ← BitVec.ofNat_add, holds.bytes _ inside, byteInside (by omega) (by omega)]
  rfl

theorem hitClean (clean : Clean s) (holds : Holds s) (place : insn = s.prefetcher.addr + BitVec.ofNat 32 k)
    (inside : k ≤ 12) : Clean ((s.noteRead k 4).issDecodePcNoexec insn (s.opcodeAt k 4)) := by
  refine decodeClean (noteReadClean clean ⟨by simp, ?_⟩) ?_
  · simp only [prefetcherSize]
    omega
  · intro i small
    rw [State.opcodeAt, Bytes.numberByte _ (by omega) small]
    exact holdsReturned holds place (by omega)

theorem receiveHolds {line : Addr} (bytes : Nat → Byte) (aligned : line.toNat % 16 = 0)
    (own : s.prefetcher.addr = line) : Holds (s.receive line bytes) := by
  subst own
  refine ⟨aligned, ?_⟩
  intro i inside
  have distance : (s.prefetcher.addr + BitVec.ofNat 32 i - s.prefetcher.addr).toNat = i := by
    rw [BitVec.add_comm, BitVec.add_sub_cancel, BitVec.toNat_ofNat, Nat.mod_eq_of_lt (by omega)]
  change (if (s.prefetcher.addr + BitVec.ofNat 32 i - s.prefetcher.addr).toNat < 16 then
    some (bytes (s.prefetcher.addr + BitVec.ofNat 32 i - s.prefetcher.addr).toNat) else _) = some (bytes i)
  rw [distance, if_pos inside]

theorem receiveBefore {i : Nat} (bytes : Nat → Byte) (before : i < 2) (last : insn.toNat % 16 = 14) :
    (s.receive (nextLine insn) bytes).returned (insn + BitVec.ofNat 32 i) = s.returned (insn + BitVec.ofNat 32 i) := by
  apply if_neg
  have low := insn.isLt
  have two : (2 : Addr).toNat = 2 := rfl
  rw [nextLineAfter last, BitVec.toNat_sub, BitVec.toNat_add, BitVec.toNat_add, BitVec.toNat_ofNat, two, prefetcherSize]
  omega

theorem shlTwo (last : insn.toNat % 16 = 14) (opcode : Opcode) : s.shl opcode (nbBytes insn * 8) = opcode <<< (2 * 8) := by
  rw [nbBytesTwo last, State.shl, CShift.shlBelow (by omega)]
  rfl

theorem joinClean {low : Nat → Byte} (clean : Clean s) (holds : Holds s) (last : insn.toNat % 16 = 14)
    (own : s.prefetcher.addr = nextLine insn)
    (first : ∀ i < 2, s.returned (insn + BitVec.ofNat 32 i) = some (low i)) :
    Clean ((s.noteRead 0 4).issDecodePcNoexec insn
      (BitVec.ofNat 32 (littleEndian low 2) ||| s.shl (s.opcodeAt 0 4) (nbBytes insn * 8))) := by
  refine decodeClean (noteReadClean clean ⟨by simp, by decide⟩) ?_
  intro i small
  rw [shlTwo last, State.opcodeAt, Bytes.joinByte _ _ (by omega) (by omega)]
  split
  · rename_i before
    exact first i before
  · have place : nextLine insn = s.prefetcher.addr + BitVec.ofNat 32 0 := by rw [own, BitVec.add_zero]
    have second := holdsReturned (i := i - 2) holds place (by omega)
    rw [nextLineAfter last, BitVec.add_assoc] at second
    have shift : (2 : Addr) + BitVec.ofNat 32 (i - 2) = BitVec.ofNat 32 i := by
      rw [show (2 : Addr) = BitVec.ofNat 32 2 from rfl, ← BitVec.ofNat_add, Nat.add_sub_cancel' (by omega)]
    rw [shift] at second
    exact second

end Invariant

section Fill

variable {s next : State} {insn addr : Addr} {k : Nat} {answer : Answer}

theorem fillCases (s : State) (addr : Addr) (valid : answer.valid = true) :
    (∃ bytes, s.prefetcherFill addr answer =
        (({ s with prefetcher := { s.prefetcher with addr := lineOf addr } }).receive (lineOf addr) bytes, false) ∧
      Holds (s.prefetcherFill addr answer).1) ∨
    s.prefetcherFill addr answer =
      ({ s with prefetcher := { s.prefetcher with addr := lineOf addr }, pending := some (lineOf addr) }, true) := by
  cases answer with
  | now bytes => exact .inl ⟨bytes, rfl, receiveHolds bytes (lineAligned addr) rfl⟩
  | invalid => contradiction
  | later => exact .inr rfl

theorem afterFillGood (clean : Clean s) (idle : s.pending = none) (holds : Holds s) (valid : answer.valid = true)
    (place : insn = s.prefetcher.addr + BitVec.ofNat 32 k) (inside : k < 16) (even : insn.toNat % 2 = 0) :
    Good (s.prefetcherFetchValueAfterFill0 insn k answer) := by
  have position : insn.toNat % 16 = k := by
    have aligned := holds.aligned
    have small := s.prefetcher.addr.isLt
    rw [place, BitVec.toNat_add, BitVec.toNat_ofNat]
    omega
  unfold State.prefetcherFetchValueAfterFill0
  split
  · rename_i fits
    simp only [opcodeSize, prefetcherSize] at fits
    exact goodIdle (hitClean clean holds place (by omega)) idle (.inr ⟨holds.aligned, holds.bytes⟩)
  · rename_i straddles
    simp only [opcodeSize, prefetcherSize] at straddles
    have last : k = 14 := by omega
    subst last
    have two := nbBytesTwo position
    have first : ∀ i < 2, s.returned (insn + BitVec.ofNat 32 i) = some (s.byteAt (((14 : Nat) : Int) + i)) :=
      fun i small => holdsReturned holds place (by omega)
    have read : Clean (s.noteRead ((14 : Nat) : Int) (nbBytes insn)) := by
      rw [two]
      exact noteReadClean clean (by decide)
    have own : lineOf (nextLine insn) = nextLine insn := lineTwice _
    rcases fillCases (s.noteRead ((14 : Nat) : Int) (nbBytes insn)) (nextLine insn) valid with
      ⟨bytes, filled, holds'⟩ | filled
    · rw [filled, own] at holds'
      rw [filled, own]
      simp only [Bool.false_eq_true, if_false]
      have kept : Clean (({ s.noteRead ((14 : Nat) : Int) (nbBytes insn) with
          prefetcher := { s.prefetcher with addr := nextLine insn } } : State).receive (nextLine insn) bytes) :=
        ⟨read.decoded, read.reads⟩
      have join := joinClean kept holds' position rfl
        (fun i small => (receiveBefore bytes small position).trans (first i small))
      rw [← two] at join
      exact goodIdle join idle (.inr ⟨holds'.aligned, holds'.bytes⟩)
    · rw [filled, own]
      simp only [if_true]
      refine ⟨⟨read.decoded, read.reads⟩, ?_, ?_⟩
      · intro none
        contradiction
      · intro line waits
        cases waits
        exact ⟨lineAligned _, .half rfl rfl position rfl _ (by rw [State.opcodeAt, two]) first⟩

theorem linePlace (a : Addr) : a = lineOf a + BitVec.ofNat 32 (a.toNat % 16) := by
  have inside := (indexInside a (lineOf a) (by rw [indexInLine]; omega)).1
  rwa [indexInLine, Int.toNat_natCast] at inside

/- Next to the marker of an invalid buffer, but nowhere else, an address looks like an index. -/
theorem invalidIndex (invalid : s.prefetcher.addr = -1) (even : insn.toNat % 2 = 0) (high : 16 ≤ insn.toNat) :
    s.index insn < 0 ∨ 16 ≤ s.index insn := by
  have bound := insn.isLt
  have distance : (insn - s.prefetcher.addr).toNat = insn.toNat + 1 := by
    have marker : (-1 : Addr).toNat = 2 ^ 32 - 1 := rfl
    rw [invalid, BitVec.toNat_sub, marker]
    omega
  unfold State.index
  rw [BitVec.toInt_eq_toNat_cond, distance]
  split <;> omega

theorem fetchValueGood {line next : Answer} (clean : Clean s) (idle : s.pending = none)
    (buffer : s.prefetcher.addr = -1 ∨ Holds s) (even : insn.toNat % 2 = 0)
    (lineValid : line.valid = true) (nextValid : next.valid = true) (high : s.prefetcher.addr = -1 → 16 ≤ insn.toNat) :
    Good (s.prefetcherFetchValue insn line next) := by
  unfold State.prefetcherFetchValue
  dsimp only
  split
  · rename_i hit
    rcases buffer with invalid | holds
    · have far := invalidIndex invalid even (high invalid)
      omega
    · obtain ⟨place, natural⟩ := indexInside insn s.prefetcher.addr hit.1
      unfold State.index
      rw [natural]
      refine goodIdle (hitClean clean holds place ?_) idle (.inr ⟨holds.aligned, holds.bytes⟩)
      have small := hit.2
      unfold State.index at small
      omega
  · rename_i miss
    split
    · rcases fillCases s insn lineValid with ⟨bytes, filled, holds⟩ | filled
      · rw [filled] at holds
        rw [filled]
        simp only [Bool.false_eq_true, if_false]
        have index : State.index (({ s with
            prefetcher := { s.prefetcher with addr := lineOf insn } } : State).receive (lineOf insn) bytes) insn =
            ((insn.toNat % 16 : Nat) : Int) := indexInLine insn
        rw [index]
        exact afterFillGood ⟨clean.decoded, clean.reads⟩ idle holds nextValid (linePlace insn) (by omega) even
      · rw [filled]
        simp only [if_true]
        refine ⟨⟨clean.decoded, clean.reads⟩, ?_, ?_⟩
        · intro none
          contradiction
        · intro at' waits
          cases waits
          exact ⟨lineAligned insn, .whole rfl rfl rfl even⟩
    · rename_i inside
      simp only [prefetcherSize] at inside
      rcases buffer with invalid | holds
      · have far := invalidIndex invalid even (high invalid)
        omega
      · have low : 0 ≤ (insn - s.prefetcher.addr).toInt := by
          change 0 ≤ s.index insn
          omega
        obtain ⟨place, natural⟩ := indexInside insn s.prefetcher.addr low
        have small : s.index insn < 16 := by omega
        unfold State.index at small ⊢
        rw [natural]
        exact afterFillGood clean idle holds nextValid place (by omega) even

theorem fillGood (insn addr : Addr) {answer : Answer} (clean : Clean s) (idle : s.pending = none) (valid : answer.valid = true) :
    Good (let (s, pending) := s.prefetcherFill addr answer
      if pending then { s with callback := none, prefetchInsn := insn } else s) := by
  rcases fillCases s addr valid with ⟨bytes, filled, holds⟩ | filled
  · rw [filled] at holds
    rw [filled]
    simp only [Bool.false_eq_true, if_false]
    exact goodIdle ⟨clean.decoded, clean.reads⟩ idle (.inr holds)
  · rw [filled]
    simp only [if_true]
    refine ⟨⟨clean.decoded, clean.reads⟩, ?_, ?_⟩
    · intro none
      contradiction
    · intro line waits
      cases waits
      exact ⟨lineAligned addr, .silent rfl (.inl rfl)⟩

theorem checkOverflowGood {next : Answer} {index : Int} (clean : Clean s) (idle : s.pending = none)
    (buffer : s.prefetcher.addr = -1 ∨ Holds s) (valid : next.valid = true) :
    Good (s.prefetcherFetchNovalueCheckOverflow insn index next) := by
  unfold State.prefetcherFetchNovalueCheckOverflow
  split
  · exact fillGood insn _ clean idle valid
  · exact goodIdle clean idle buffer

theorem fetchNovalueGood {line next : Answer} (clean : Clean s) (idle : s.pending = none)
    (buffer : s.prefetcher.addr = -1 ∨ Holds s) (lineValid : line.valid = true) (nextValid : next.valid = true) :
    Good (s.prefetcherFetchNovalue insn line next) := by
  unfold State.prefetcherFetchNovalue
  dsimp only
  split
  · exact goodIdle clean idle buffer
  · split
    · rcases fillCases s insn lineValid with ⟨bytes, filled, holds⟩ | filled
      · rw [filled] at holds
        rw [filled]
        simp only [Bool.false_eq_true, if_false]
        exact checkOverflowGood ⟨clean.decoded, clean.reads⟩ idle (.inr holds) nextValid
      · have pending := fillGood insn insn clean idle lineValid
        rw [filled] at pending ⊢
        exact pending
    · exact checkOverflowGood clean idle buffer nextValid

end Fill

section Runs

variable {s next : State}

theorem fetchGood {insn : Addr} {line after : Answer} (good : Good s)
    (allowed : PrefetchOk s (.fetch insn line after)) (taken : step s (.fetch insn line after) = some next) :
    Good next := by
  simp only [step] at taken
  split at taken
  · rename_i ready
    obtain ⟨lineValid, nextValid, high⟩ := allowed
    cases taken
    unfold State.prefetcherFetch
    split
    · exact fetchNovalueGood good.clean ready.1 (good.buffer ready.1) lineValid nextValid
    · rename_i fresh
      have buffer := (good.buffer ready.1).imp_right (fun holds : Holds s => (⟨holds.aligned, holds.bytes⟩ :
        Holds { s with fetched := Function.update s.fetched insn true }))
      exact fetchValueGood ⟨good.clean.decoded, good.clean.reads⟩ ready.1 buffer ready.2 lineValid nextValid
        (high (by simpa using fresh))
  · contradiction

def State.landed (s : State) (line : Addr) (bytes : Nat → Byte) : State := { s.receive line bytes with pending := none }

theorem fetchResponseCalls (line : Addr) (bytes : Nat → Byte) (after : Answer) :
    s.fetchResponse line bytes after = match s.callback with
      | none => s.landed line bytes
      | some .prefetcherFetchValueResume0 => (s.landed line bytes).prefetcherFetchValueResume0 after
      | some .prefetcherFetchValueResume1 => (s.landed line bytes).prefetcherFetchValueResume1 := rfl

theorem responseGood {bytes : Nat → Byte} {after : Answer} (good : Good s)
    (allowed : PrefetchOk s (.response bytes after)) (taken : step s (.response bytes after) = some next) :
    Good next := by
  obtain ⟨line, waits, response⟩ := Option.map_eq_some_iff.mp taken
  obtain ⟨aligned, flight⟩ := good.flight line waits
  have clean : Clean (s.landed line bytes) := ⟨good.clean.decoded, good.clean.reads⟩
  have arrived : s.prefetcher.addr = line → Holds (s.landed line bytes) := by
    intro own
    have holds := receiveHolds bytes aligned own
    exact ⟨holds.aligned, holds.bytes⟩
  subst response
  rw [fetchResponseCalls]
  cases flight with
  | silent callback buffer =>
      rw [callback]
      exact goodIdle clean rfl (buffer.symm.imp_right arrived)
  | whole callback buffer own even =>
      rw [callback]
      have place := linePlace s.prefetchInsn
      have index : (s.landed line bytes).index s.prefetchInsn = ((s.prefetchInsn.toNat % 16 : Nat) : Int) := by
        change (s.prefetchInsn - s.prefetcher.addr).toInt = _
        rw [buffer, own]
        exact indexInLine _
      rw [← own, ← buffer] at place
      change Good ((s.landed line bytes).prefetcherFetchValueAfterFill0 s.prefetchInsn _ after)
      rw [show (s.landed line bytes).prefetchInsn = s.prefetchInsn from rfl, index]
      exact afterFillGood clean rfl (arrived buffer) allowed place (by omega) even
  | half callback buffer last own low saved first =>
      rw [callback]
      have kept : ∀ i < 2, (s.landed line bytes).returned (s.prefetchInsn + BitVec.ofNat 32 i) = some (low i) := by
        intro i small
        rw [← first i small, own]
        exact receiveBefore bytes small last
      have join := joinClean clean (arrived buffer) last (buffer.trans own) kept
      rw [← saved] at join
      exact goodIdle join rfl (.inr ⟨(arrived buffer).aligned, (arrived buffer).bytes⟩)

theorem flushGood {current : Option Addr} (good : Good s) (allowed : PrefetchOk s (.flush current))
    (taken : step s (.flush current) = some next) : Good next := by
  cases taken
  refine ⟨⟨good.clean.decoded, good.clean.reads⟩, fun _ => .inl rfl, ?_⟩
  intro line waits
  have silent : s.callback = none := by
    rcases allowed with idle | silent
    · exact absurd (idle.symm.trans waits) (by simp)
    · exact silent
  exact ⟨(good.flight line waits).1, .silent silent (.inr rfl)⟩

theorem stepGood {a : Action} (good : Good s) (allowed : PrefetchOk s a) (taken : step s a = some next) : Good next := by
  cases a with
  | fetch insn line after => exact fetchGood good allowed taken
  | response bytes after => exact responseGood good allowed taken
  | flush current => exact flushGood good allowed taken

structure Booted (s : State) : Prop where
  invalid : s.prefetcher.addr = -1
  idle : s.pending = none
  decoded : s.decoded = []
  reads : s.reads = []

theorem opcodesReturned {s last : State} {trace : List (Action × State)} (boot : Booted s)
    (run : Run step PrefetchOk s trace last) :
    (∀ d ∈ last.decoded, d.right) ∧ ∀ r ∈ last.reads, inBuffer r := by
  have start : Good s := goodIdle ⟨by simp [boot.decoded], by simp [boot.reads]⟩ boot.idle (.inl boot.invalid)
  have good := Machine.runInvariant run start (fun _ _ _ good allowed taken => stepGood good allowed taken)
  exact ⟨good.clean.decoded, good.clean.reads⟩

def cold : State where
  prefetcher := ⟨-1, fun _ => 0xaa⟩
  beyond := fun _ => 0xbb
  undefinedShift := fun _ _ => 0xdddddddd
  fetched := fun _ => false
  callback := none
  prefetchInsn := 0
  fetchStallOpcode := 0
  pending := none
  returned := fun _ => none
  decoded := []
  reads := []

theorem coldBooted : Booted cold := ⟨rfl, rfl, rfl, rfl⟩

/- An opcode across two lines that are both answered later, a flush and a fetch of the same address. -/
def straddling : List Action :=
  [.fetch 0x10e .later .later, .response (fun i => BitVec.ofNat 8 i) .later, .response (fun i => BitVec.ofNat 8 (16 + i)) .later,
    .flush none, .fetch 0x10e (.now (fun i => BitVec.ofNat 8 (32 + i))) (.now (fun i => BitVec.ofNat 8 (48 + i)))]

theorem opcodesReturnedStraddling :
    (Machine.reach step PrefetchOk cold straddling).decoded.map Decoded.opcode = [0x11100f0e, 0x31302f2e] ∧
    (∀ d ∈ (Machine.reach step PrefetchOk cold straddling).decoded, d.right) ∧
    ∀ r ∈ (Machine.reach step PrefetchOk cold straddling).reads, inBuffer r := by
  obtain ⟨trace, run, _⟩ := Machine.reachRun step PrefetchOk cold straddling (by decide +kernel)
  exact ⟨by decide +kernel, opcodesReturned coldBooted run⟩

def flushedThenZero : List Action :=
  [.fetch 0x100 (.now (fun _ => 0xcc)) .later, .flush none, .fetch 0 (.now (fun _ => 0xdd)) .later]

def bootedAtTwelve : List Action := [.fetch 12 (.now (fun _ => 0xdd)) .later]

def flushOvertakesFill : List Action := [.fetch 0x104 .later .later, .flush none, .response (fun _ => 0xdd) .later]

/- At address 0 the marker of the invalid buffer is taken for a line: the port is not asked and
the bytes of before the flush are decoded. At address 12 the read leaves the buffer. A flush
during a fill makes the response use the marker as the address of the line. -/
theorem invalidBufferHit :
    (∃ trace last, Run step Machine.anyStep cold trace last ∧ trace.map Prod.fst = flushedThenZero ∧
      ⟨0, 0xcccccccc, [none, none, none, none]⟩ ∈ last.decoded ∧ ¬ ∀ d ∈ last.decoded, d.right) ∧
    (∃ trace last, Run step Machine.anyStep cold trace last ∧ trace.map Prod.fst = bootedAtTwelve ∧
      ((13 : Int), 4) ∈ last.reads ∧ ¬ ∀ r ∈ last.reads, inBuffer r) ∧
    ∃ trace last, Run step Machine.anyStep cold trace last ∧ trace.map Prod.fst = flushOvertakesFill ∧
      ((261 : Int), 12) ∈ last.reads ∧ ¬ ∀ r ∈ last.reads, inBuffer r := by
  obtain ⟨stale, first, labels⟩ := Machine.reachRun step Machine.anyStep cold flushedThenZero (by decide +kernel)
  obtain ⟨twelve, second, labels'⟩ := Machine.reachRun step Machine.anyStep cold bootedAtTwelve (by decide +kernel)
  obtain ⟨overtaken, third, labels''⟩ := Machine.reachRun step Machine.anyStep cold flushOvertakesFill (by decide +kernel)
  exact ⟨⟨stale, _, first, labels, by decide +kernel, by decide +kernel⟩,
    ⟨twelve, _, second, labels', by decide +kernel, by decide +kernel⟩,
    ⟨overtaken, _, third, labels'', by decide +kernel, by decide +kernel⟩⟩

end Runs

end Gvsoc.Prefetch
