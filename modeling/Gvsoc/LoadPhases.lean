import Gvsoc.LoadUnit

/-! A load into a register other than the first is followed through its phases: the whole
access in flight, the second access scheduled, the second access in flight, done. -/
namespace Gvsoc.Iss
open Bytes (Byte putByte putBytes littleEndian)
open Io (IoStatus)
open Machine (Run)

def loadValue (memory : Addr → Byte) (kind : Load) (width : Width) (addr : Addr) : Reg :=
  let value := BitVec.ofNat (8 * width.bytes) (littleEndian (fun i => memory (addr + BitVec.ofNat 32 i)) width.bytes)
  if kind = .signed then value.signExtend 32 else value.setWidth 32

def Crosses (addr : Addr) (size : Nat) : Prop := addr &&& addrMask ≠ lastWord addr size

instance (addr : Addr) (size : Nat) : Decidable (Crosses addr size) :=
  inferInstanceAs (Decidable (addr &&& addrMask ≠ lastWord addr size))

structure Idle (s : System) : Prop where
  quiet : s.inFlight = 0
  running : s.core.stalled = 0
  event : s.core.misalignedEvent = false
  access : s.core.misalignedAccess = false
  zero : s.core.regs 0 = 0

def Complete (s : System) : Prop := s.inFlight = 0 ∧ s.core.misalignedEvent = false

instance (s : System) : Decidable (Complete s) := inferInstanceAs (Decidable (_ ∧ _))

def SecondIs (second : IoStatus) (_ : System) : Action → Prop
  | .misaligned answer => answer = second
  | _ => True

instance (second : IoStatus) (s : System) (a : Action) : Decidable (SecondIs second s a) :=
  match a with
  | .misaligned answer => inferInstanceAs (Decidable (answer = second))
  | .moves _ => .isTrue trivial
  | .response => .isTrue trivial
  | .fetchResponse => .isTrue trivial

section Words

theorem wordNumber (a : Addr) : (a &&& addrMask).toNat = a.toNat / 4 * 4 := Bytes.maskNumber (k := 2) a

theorem splitSizes {addr : Addr} {width : Width} (crosses : Crosses addr width.bytes) :
    0 < (lastWord addr width.bytes - addr).toNat ∧ (lastWord addr width.bytes - addr).toNat < width.bytes := by
  have differ : (addr &&& addrMask).toNat ≠ (lastWord addr width.bytes).toNat :=
    fun same => crosses (BitVec.eq_of_toNat_eq same)
  have low := addr.isLt
  have one : (1 : Addr).toNat = 1 := rfl
  unfold lastWord at differ ⊢
  rw [wordNumber, wordNumber, BitVec.toNat_sub, BitVec.toNat_add, BitVec.toNat_ofNat, one] at differ
  rw [BitVec.toNat_sub, wordNumber, BitVec.toNat_sub, BitVec.toNat_add, BitVec.toNat_ofNat, one]
  cases width <;> simp only [Width.bytes] at differ ⊢ <;> omega

theorem splitAddr (addr : Addr) (size : Nat) :
    addr + BitVec.ofNat 32 (lastWord addr size - addr).toNat = lastWord addr size := by
  rw [BitVec.ofNat_toNat, BitVec.setWidth_eq, BitVec.add_comm, BitVec.sub_add_cancel]

end Words

section Transfers

variable {s : System} {rd : Nat}

def System.putReg (s : System) (rd : Nat) (value : Reg) : System :=
  { s with core := { s.core with regs := Function.update s.core.regs rd value } }

def System.putNull (s : System) (value : Reg) : System := { s with core := { s.core with nullReg := value } }

@[simp] theorem putRegSame (value : Reg) : (s.putReg rd value).core.regs rd = value := Function.update_self _ _ _

theorem copyByteReads (s : System) (rd i : Nat) (reads : s.core.ioReq.isWrite = false) (into : s.core.ioReq.data.reg = some rd) :
    s.copyByte i = s.putReg rd (putByte (s.core.regs rd) (s.core.ioReq.data.offset + i)
      (s.memory (s.core.ioReq.addr + BitVec.ofNat 32 i))) := by
  unfold System.copyByte
  simp only [reads, Bool.false_eq_true, if_false, Core.write, Pointer.add, into, System.putReg]

theorem copyReads (rd : Nat) (bytes : Nat → Byte) {n : Nat} (reads : s.core.ioReq.isWrite = false)
    (into : s.core.ioReq.data.reg = some rd)
    (same : ∀ i, s.memory (s.core.ioReq.addr + BitVec.ofNat 32 i) = bytes (s.core.ioReq.data.offset + i)) :
    s.copy n = s.putReg rd (putBytes (s.core.regs rd) s.core.ioReq.data.offset n bytes) := by
  induction n with
  | zero =>
      unfold System.copy putBytes System.putReg
      rw [Function.update_eq_self]
  | succ n ih =>
      unfold System.copy
      have byte := copyByteReads (s.putReg rd (putBytes (s.core.regs rd) s.core.ioReq.data.offset n bytes)) rd n
        reads into
      rw [ih, byte]
      unfold System.putReg
      simp only [Function.update_self, Function.update_idem, same, putBytes]

theorem copyByteNull {i : Nat} (reads : s.core.ioReq.isWrite = false) (into : s.core.ioReq.data.reg = none) :
    ∃ value, s.copyByte i = s.putNull value := by
  unfold System.copyByte
  simp only [reads, Bool.false_eq_true, if_false, Core.write, Pointer.add, into]
  exact ⟨_, rfl⟩

theorem copyNull {n : Nat} (reads : s.core.ioReq.isWrite = false) (into : s.core.ioReq.data.reg = none) :
    ∃ value, s.copy n = s.putNull value := by
  induction n with
  | zero => exact ⟨s.core.nullReg, rfl⟩
  | succ n ih =>
      obtain ⟨value, copied⟩ := ih
      unfold System.copy
      rw [copied]
      obtain ⟨again, byte⟩ := copyByteNull (s := s.putNull value) (i := n) reads into
      exact ⟨again, byte⟩

end Transfers

section Values

variable (memory : Addr → Byte) (width : Width) (addr : Addr)

def bytesAt (i : Nat) : Byte := memory (addr + BitVec.ofNat 32 i)

/- The register as the request finds it: only the sign-extending load does not clear it. -/
def Load.found : Load → Reg → Reg
  | .signed, old => old
  | _, _ => 0

theorem zeroExtended {kind : Load} (unsigned : kind ≠ .signed) :
    putBytes 0#32 0 width.bytes (bytesAt memory addr) = loadValue memory kind width addr := by
  unfold loadValue
  rw [Bytes.putBytesZero, if_neg unsigned]
  have fits : 8 * width.bytes ≤ 32 := by cases width <;> decide
  apply BitVec.eq_of_toNat_eq
  rw [BitVec.toNat_ofNat, BitVec.toNat_setWidth_of_le fits, BitVec.toNat_ofNat,
    Nat.mod_eq_of_lt (Bytes.littleEndianBound _ _)]
  exact Nat.mod_eq_of_lt (lt_of_lt_of_le (Bytes.littleEndianBound _ _) (Nat.pow_le_pow_right (by omega) fits))

/- What the sign-extending load computes from its register, whatever was in the upper bytes. -/
theorem signExtended (old : Reg) :
    issGetSignedValue (putBytes old 0 width.bytes (bytesAt memory addr)) (width.bytes * 8) =
      loadValue memory .signed width addr := by
  unfold issGetSignedValue loadValue
  rw [if_pos rfl, Nat.mul_comm]
  exact Bytes.shiftsExtend old width.bytes _ (by cases width <;> decide) (by cases width <;> decide)

theorem wholeWord (kind : Load) (old : Reg) :
    putBytes old 0 4 (bytesAt memory addr) = loadValue memory kind .word addr := by
  have bits : ∀ v : Reg, issGetSignedValue v 32 = v := by
    intro v
    simp [issGetSignedValue]
  have signed := signExtended memory .word addr old
  rw [show Width.word.bytes * 8 = 32 from rfl, bits, show Width.word.bytes = 4 from rfl] at signed
  rw [signed]
  unfold loadValue
  cases kind <;> simp [Width.bytes, BitVec.signExtend_eq, BitVec.setWidth_eq]

/- The two halves of a split load are all there is to do, unless a sign is missing. -/
theorem unfinished {kind : Load} (old : Reg) (crosses : Crosses addr width.bytes)
    (extended : ¬ (kind = .signed ∧ width = .half)) :
    putBytes (kind.found old) 0 width.bytes (bytesAt memory addr) = loadValue memory kind width addr := by
  cases kind with
  | plain => exact zeroExtended memory width addr (by simp)
  | elw => exact zeroExtended memory width addr (by simp)
  | signed =>
      cases width with
      | byte =>
          obtain ⟨low, high⟩ := splitSizes crosses
          simp only [Width.bytes] at low high
          omega
      | half => exact absurd ⟨rfl, rfl⟩ extended
      | word => exact wholeWord memory addr .signed old

end Values

section Phases

variable {memory : Addr → Byte} {kind : Load} {width : Width} {addr : Addr} {rd : Nat} {raw : Reg} {s next : System}

structure Waits (memory : Addr → Byte) (addr : Addr) (rd : Nat) (raw : Reg) (start n : Nat) (s : System) : Prop where
  flight : s.inFlight = 1
  event : s.core.misalignedEvent = false
  unchanged : s.memory = memory
  request : s.core.ioReq = ⟨addr + BitVec.ofNat 32 start, n, false, ⟨some rd, start⟩⟩
  coming : putBytes (s.core.regs rd) start n (bytesAt memory addr) = raw

theorem requestBytes (memory : Addr → Byte) (addr : Addr) (start i : Nat) :
    memory (addr + BitVec.ofNat 32 start + BitVec.ofNat 32 i) = bytesAt memory addr (start + i) := by
  unfold bytesAt
  rw [BitVec.add_assoc, BitVec.ofNat_add]

theorem waitsMoves {start n i : Nat} (waits : Waits memory addr rd raw start n s) (inside : i < n) :
    Waits memory addr rd raw start n (s.copyByte i) := by
  have byte := copyByteReads s rd i (by rw [waits.request]) (by rw [waits.request])
  rw [waits.request, waits.unchanged] at byte
  rw [byte]
  refine ⟨waits.flight, waits.event, waits.unchanged, waits.request, ?_⟩
  rw [putRegSame, requestBytes memory addr start i, Bytes.putBytesAbsorbs _ _ _ _ _ inside]
  exact waits.coming

theorem waitsCopy {start n : Nat} (waits : Waits memory addr rd raw start n s) :
    s.copy s.core.ioReq.size = s.putReg rd raw := by
  rw [copyReads rd (bytesAt memory addr) (by rw [waits.request]) (by rw [waits.request])]
  · rw [waits.request]
    exact congrArg _ waits.coming
  · intro i
    rw [waits.request, waits.unchanged]
    exact requestBytes memory addr start i

def Load.callback : Load → StallCallback
  | .plain => .issLsuLoadResume
  | .signed => .issLsuLoadSignedResume
  | .elw => .issLsuElwResume

structure Halfway (memory : Addr → Byte) (addr : Addr) (rd size : Nat) (found : Reg) (n : Nat) (s : System) : Prop where
  inside : n ≤ size
  quiet : s.inFlight = 0
  event : s.core.misalignedEvent = true
  access : s.core.misalignedAccess = true
  unchanged : s.memory = memory
  first : s.core.regs rd = putBytes found 0 n (bytesAt memory addr)
  addr1 : s.core.misalignedAddr = addr + BitVec.ofNat 32 n
  data1 : s.core.misalignedData = ⟨some rd, n⟩
  size1 : s.core.misalignedSize = size - n
  write1 : s.core.misalignedIsWrite = false

/- What is in the register in the end, if the first access is answered at once: no callback is
called for a load that was split. -/
def leaves (memory : Addr → Byte) (kind : Load) (width : Width) (addr : Addr) (found : Reg) : Reg :=
  if Crosses addr width.bytes then putBytes found 0 width.bytes (bytesAt memory addr)
  else loadValue memory kind width addr

structure Finished (memory : Addr → Byte) (kind : Load) (width : Width) (addr : Addr) (rd : Nat) (found : Reg)
    (s : System) : Prop where
  complete : Complete s
  value : s.core.regs rd = leaves memory kind width addr found

inductive Phase (memory : Addr → Byte) (kind : Load) (width : Width) (addr : Addr) (rd : Nat) (found : Reg)
    (s : System) : Prop where
  | done (finished : Finished memory kind width addr rd found s)
  | whole (inside : ¬ Crosses addr width.bytes)
      (waits : Waits memory addr rd (putBytes found 0 width.bytes (bytesAt memory addr)) 0 width.bytes s)
      (access : s.core.misalignedAccess = false) (finish : s.core.stallCallback = some kind.callback)
      (reg : s.core.stallReg = rd) (size : kind = .signed → s.core.stallSize = width.bytes)
  | split (n : Nat) (crosses : Crosses addr width.bytes) (half : Halfway memory addr rd width.bytes found n s)
  | second (n : Nat) (crosses : Crosses addr width.bytes) (access : s.core.misalignedAccess = true)
      (waits : Waits memory addr rd (putBytes found 0 width.bytes (bytesAt memory addr)) n (width.bytes - n) s)

theorem callbackRight {c : Core} (rest : rd ≠ 0) (old : Reg) (reg : c.stallReg = rd)
    (size : kind = .signed → c.stallSize = width.bytes)
    (whole : c.regs rd = putBytes (kind.found old) 0 width.bytes (bytesAt memory addr)) :
    (c.callback kind.callback).regs rd = loadValue memory kind width addr := by
  cases kind with
  | plain => exact whole.trans (zeroExtended memory width addr (by simp))
  | elw => exact whole.trans (zeroExtended memory width addr (by simp))
  | signed =>
      unfold Load.callback Core.callback Core.issSetReg Core.issGetRegUntimed
      rw [reg, size rfl, if_pos rest, whole]
      exact (Function.update_self _ _ _).trans (signExtended memory width addr _)

theorem callbackEvent (c : Core) (f : StallCallback) : (c.callback f).misalignedEvent = c.misalignedEvent := by
  cases f with
  | issLsuLoadResume => rfl
  | issLsuElwResume => rfl
  | issLsuLoadSignedResume =>
      unfold Core.callback Core.issSetReg
      dsimp only
      split <;> rfl

theorem responseWhole {old : Reg} (rest : rd ≠ 0) (inside : ¬ Crosses addr width.bytes)
    (waits : Waits memory addr rd (putBytes (kind.found old) 0 width.bytes (bytesAt memory addr)) 0 width.bytes s)
    (access : s.core.misalignedAccess = false) (finish : s.core.stallCallback = some kind.callback)
    (reg : s.core.stallReg = rd) (size : kind = .signed → s.core.stallSize = width.bytes)
    (taken : step s .response = some next) : Finished memory kind width addr rd (kind.found old) next := by
  simp only [step, waits.flight, Nat.lt_one_iff, if_true, waitsCopy waits, Option.some.injEq] at taken
  subst taken
  have called : ∀ c : Core, c.misalignedAccess = false → c.stallCallback = some kind.callback →
      c.dataResponse = { c with stalled := c.stalled - 1 }.callback kind.callback := by
    intro c access finish
    unfold Core.dataResponse
    simp only [access, finish, Bool.false_eq_true, if_false]
  refine ⟨⟨?_, ?_⟩, ?_⟩
  · change s.inFlight - 1 = 0
    rw [waits.flight]
  · change (Core.dataResponse _).misalignedEvent = false
    rw [called (s.putReg rd _).core access finish, callbackEvent]
    exact waits.event
  · change (Core.dataResponse _).regs rd = _
    rw [called (s.putReg rd _).core access finish, leaves, if_neg inside]
    exact callbackRight rest old reg size (Function.update_self _ _ _)

theorem responseMisaligned {start n : Nat} (waits : Waits memory addr rd raw start n s)
    (access : s.core.misalignedAccess = true) (taken : step s .response = some next) :
    Complete next ∧ next.core.regs rd = raw := by
  simp only [step, waits.flight, Nat.lt_one_iff, if_true, waitsCopy waits, Option.some.injEq] at taken
  subst taken
  refine ⟨⟨?_, ?_⟩, ?_⟩
  · change s.inFlight - 1 = 0
    rw [waits.flight]
  · change (Core.dataResponse _).misalignedEvent = false
    simp only [Core.dataResponse, System.putReg, access, if_true]
    exact waits.event
  · change (Core.dataResponse _).regs rd = _
    simp only [Core.dataResponse, System.putReg, access, if_true]
    exact Function.update_self _ _ _

theorem responseSecond {found : Reg} {n : Nat} (crosses : Crosses addr width.bytes)
    (waits : Waits memory addr rd (putBytes found 0 width.bytes (bytesAt memory addr)) n (width.bytes - n) s)
    (access : s.core.misalignedAccess = true) (taken : step s .response = some next) :
    Finished memory kind width addr rd found next := by
  obtain ⟨complete, value⟩ := responseMisaligned waits access taken
  exact ⟨complete, by rw [leaves, if_pos crosses, value]⟩

theorem secondAccess {found : Reg} {n : Nat} {answer : IoStatus} (crosses : Crosses addr width.bytes)
    (half : Halfway memory addr rd width.bytes found n s) (answered : answer ≠ .invalid)
    (taken : step s (.misaligned answer) = some next) :
    Finished memory kind width addr rd found next ∨ (next.core.misalignedAccess = true ∧
      Waits memory addr rd (putBytes found 0 width.bytes (bytesAt memory addr)) n (width.bytes - n) next) := by
  have joined : putBytes (s.core.regs rd) n (width.bytes - n) (bytesAt memory addr) =
      putBytes found 0 width.bytes (bytesAt memory addr) := by
    have join := Bytes.putBytesJoin found 0 n (width.bytes - n) (bytesAt memory addr)
    rw [Nat.zero_add, Nat.add_sub_cancel' half.inside] at join
    rw [half.first, join]
  simp only [step, half.event, if_true, Option.some.injEq, System.execMisaligned, System.dataReqAligned, half.addr1,
    half.data1, half.size1, half.write1] at taken
  cases answer with
  | invalid => contradiction
  | ok =>
      simp only [if_true] at taken
      rw [copyReads rd (bytesAt memory addr) rfl rfl
        (fun i => half.unchanged ▸ requestBytes s.memory addr n i)] at taken
      subst taken
      refine .inl ⟨⟨half.quiet, rfl⟩, ?_⟩
      rw [leaves, if_pos crosses]
      exact (Function.update_self _ _ _).trans joined
  | denied =>
      simp only [reduceCtorEq, if_false] at taken
      subst taken
      exact .inr ⟨half.access, by simp only [half.quiet], rfl, half.unchanged, rfl, joined⟩
  | pending =>
      simp only [reduceCtorEq, if_false] at taken
      subst taken
      exact .inr ⟨half.access, by simp only [half.quiet], rfl, half.unchanged, rfl, joined⟩

theorem waitsFetch {start n : Nat} (waits : Waits memory addr rd raw start n s) :
    Waits memory addr rd raw start n s.fetchResponse :=
  ⟨waits.flight, waits.event, waits.unchanged, waits.request, waits.coming⟩

theorem movesInside {start n i : Nat} (waits : Waits memory addr rd raw start n s)
    (taken : step s (.moves i) = some next) : i < n ∧ next = s.copyByte i := by
  simp only [step, waits.request, waits.flight] at taken
  split at taken
  · rename_i inside
    exact ⟨inside.2, (Option.some.inj taken).symm⟩
  · contradiction

theorem fetchResponseStep (taken : step s .fetchResponse = some next) : next = s.fetchResponse := by
  simp only [step] at taken
  split at taken
  · exact (Option.some.inj taken).symm
  · contradiction

theorem phaseStep {old : Reg} {a : Action} {second : IoStatus} (rest : rd ≠ 0) (answered : second ≠ .invalid)
    (phase : Phase memory kind width addr rd (kind.found old) s) (allowed : SecondIs second s a)
    (taken : step s a = some next) : Phase memory kind width addr rd (kind.found old) next := by
  cases phase with
  | done finished =>
      cases a with
      | misaligned answer => simp [step, finished.complete.2] at taken
      | moves i => simp [step, finished.complete.1] at taken
      | response => simp [step, finished.complete.1] at taken
      | fetchResponse =>
          rw [fetchResponseStep taken]
          exact .done ⟨finished.complete, finished.value⟩
  | whole inside waits access finish reg size =>
      cases a with
      | misaligned answer => simp [step, waits.event] at taken
      | moves i =>
          obtain ⟨covered, rfl⟩ := movesInside waits taken
          have byte := copyByteReads s rd i (by rw [waits.request]) (by rw [waits.request])
          refine .whole inside (waitsMoves waits covered) ?_ ?_ ?_ ?_ <;> rw [byte] <;> assumption
      | response => exact .done (responseWhole rest inside waits access finish reg size taken)
      | fetchResponse =>
          rw [fetchResponseStep taken]
          exact .whole inside (waitsFetch waits) access finish reg size
  | split n crosses half =>
      cases a with
      | misaligned answer =>
          have valid : answer ≠ .invalid := fun invalid => answered (allowed.symm.trans invalid)
          rcases secondAccess crosses half valid taken with finished | ⟨access, waits⟩
          · exact .done finished
          · exact .second n crosses access waits
      | moves i => simp [step, half.quiet] at taken
      | response => simp [step, half.quiet] at taken
      | fetchResponse =>
          rw [fetchResponseStep taken]
          exact .split n crosses ⟨half.inside, half.quiet, half.event, half.access, half.unchanged, half.first, half.addr1,
            half.data1, half.size1, half.write1⟩
  | second n crosses access waits =>
      cases a with
      | misaligned answer => simp [step, waits.event] at taken
      | moves i =>
          obtain ⟨covered, rfl⟩ := movesInside waits taken
          have byte := copyByteReads s rd i (by rw [waits.request]) (by rw [waits.request])
          refine .second n crosses ?_ (waitsMoves waits covered)
          rw [byte]
          exact access
      | response => exact .done (responseSecond crosses waits access taken)
      | fetchResponse =>
          rw [fetchResponseStep taken]
          exact .second n crosses access (waitsFetch waits)

theorem phaseComplete {found : Reg} (phase : Phase memory kind width addr rd found s) (complete : Complete s) :
    s.core.regs rd = leaves memory kind width addr found := by
  cases phase with
  | done finished => exact finished.value
  | whole inside waits => simp [Complete, waits.flight] at complete
  | split n crosses half => simp [Complete, half.event] at complete
  | second n crosses access waits => simp [Complete, waits.flight] at complete

theorem waitsResponds {start n : Nat} (waits : Waits memory addr rd raw start n s) : (step s .response).isSome := by
  simp [step, waits.flight]

theorem halfwayCompletes (kind : Load) {found : Reg} {n : Nat} {second : IoStatus} (crosses : Crosses addr width.bytes)
    (half : Halfway memory addr rd width.bytes found n s) (answered : second ≠ .invalid) :
    ∃ trace last, Run step (SecondIs second) s trace last ∧ Finished memory kind width addr rd found last := by
  have enabled : step s (.misaligned second) = some (s.execMisaligned second) := by simp [step, half.event]
  have allowed : SecondIs second s (.misaligned second) := rfl
  have run : Run step (SecondIs second) s _ _ := Machine.runSingle allowed enabled
  rcases secondAccess crosses half answered enabled with finished | ⟨access, waits⟩
  · exact ⟨_, _, run, finished⟩
  · obtain ⟨last, responds⟩ := Option.isSome_iff_exists.mp (waitsResponds waits)
    have free : SecondIs second (s.execMisaligned second) .response := trivial
    exact ⟨_, last, .snoc run free responds, responseSecond crosses waits access responds⟩

end Phases

section Issue

variable {kind : Load} {width : Width} {addr : Addr} {rd : Nat} {first : IoStatus} {fetchStalls : Bool} {s : System}

def System.loaded (s : System) (kind : Load) (size rd : Nat) : System :=
  if kind = .signed then s.putReg rd (issGetSignedValue (s.core.regs rd) (size * 8)) else s

def System.stallOn (s : System) (kind : Load) (size rd : Nat) : System :=
  { s with core := { s.core with
    stallCallback := some kind.callback
    stallReg := rd
    stallSize := if kind = .signed then size else s.core.stallSize
    stalled := s.core.stalled + 1 } }

theorem loadRequest {size : Nat} (rest : rd ≠ 0) {next : System} {err : IoStatus}
    (answer : (s.putReg rd (kind.found (s.core.regs rd))).dataReq addr ⟨some rd, 0⟩ size false first = (next, err)) :
    s.load kind addr size rd first = if err = .ok then next.loaded kind size rd else next.stallOn kind size rd := by
  have pointer : issRegRef rd = ⟨some rd, 0⟩ := by simp [issRegRef, rest]
  have cleared : { s with core := s.core.issSetReg rd 0 } = s.putReg rd 0 := by
    simp only [Core.issSetReg, System.putReg, if_pos rest]
  cases kind with
  | plain =>
      change (s.putReg rd 0).dataReq _ _ _ _ _ = _ at answer
      change System.loadCleared _ s addr size rd first = _
      simp only [System.loadCleared, cleared, pointer, answer]
      rfl
  | elw =>
      change (s.putReg rd 0).dataReq _ _ _ _ _ = _ at answer
      change System.loadCleared _ s addr size rd first = _
      simp only [System.loadCleared, cleared, pointer, answer]
      rfl
  | signed =>
      have same : s.putReg rd (s.core.regs rd) = s := by
        unfold System.putReg
        rw [Function.update_eq_self]
      rw [Load.found, same] at answer
      change System.issLsuLoadSigned s addr size rd first = _
      simp only [System.issLsuLoadSigned, pointer, answer, Core.issSetReg, if_pos rest, Core.issGetRegUntimed]
      rfl

def System.asked (s : System) (addr : Addr) (n : Nat) (data : Pointer) : System :=
  { s with core := { s.core with ioReq := ⟨addr, n, false, data⟩ } }

theorem alignedNow (s : System) (rd : Nat) (base : Addr) (start n : Nat) :
    s.dataReqAligned (base + BitVec.ofNat 32 start) ⟨some rd, start⟩ n false .ok =
      ((s.asked (base + BitVec.ofNat 32 start) n ⟨some rd, start⟩).putReg rd
        (putBytes (s.core.regs rd) start n (bytesAt s.memory base)), .ok) := by
  simp only [System.dataReqAligned, Prod.mk.injEq, and_true]
  exact copyReads rd _ rfl rfl (requestBytes s.memory base start)

theorem alignedLater {data : Pointer} {n : Nat} (answered : first ≠ .invalid) (later : first ≠ .ok) :
    s.dataReqAligned addr data n false first = ({ s.asked addr n data with inFlight := s.inFlight + 1 }, first) := by
  cases first with
  | ok => contradiction
  | invalid => contradiction
  | denied => rfl
  | pending => rfl

theorem afterInsnKeeps (s : System) (fetchStalls : Bool) :
    ∃ stalled event fetching, (stalled = s.core.stalled ∨ stalled = s.core.stalled + 1) ∧
      event = (s.core.misalignedEvent || (stalled ≠ 0 && s.core.misalignedAccess)) ∧
      s.afterInsn fetchStalls = { s with
        core := { s.core with stalled := stalled, misalignedEvent := event }, fetching := fetching } := by
  cases fetchStalls with
  | false => exact ⟨_, _, _, .inl rfl, rfl, rfl⟩
  | true => exact ⟨_, _, _, .inr rfl, rfl, rfl⟩

theorem loadedRight (memory : Addr → Byte) (old : Reg)
    (whole : s.core.regs rd = putBytes (kind.found old) 0 width.bytes (bytesAt memory addr)) :
    (s.loaded kind width.bytes rd).core.regs rd = loadValue memory kind width addr := by
  unfold System.loaded
  split
  · rename_i signed
    subst signed
    rw [putRegSame, whole]
    exact signExtended memory width addr _
  · rename_i unsigned
    have cleared : kind.found old = 0 := by cases kind <;> first | rfl | contradiction
    rw [whole, cleared]
    exact zeroExtended memory width addr unsigned

theorem loadedPhase (memory : Addr → Byte) (old : Reg) (inside : ¬ Crosses addr width.bytes) (quiet : s.inFlight = 0)
    (event : s.core.misalignedEvent = false) (access : s.core.misalignedAccess = false)
    (whole : s.core.regs rd = putBytes (kind.found old) 0 width.bytes (bytesAt memory addr)) :
    Phase memory kind width addr rd (kind.found old) ((s.loaded kind width.bytes rd).afterInsn fetchStalls) := by
  have kept : (s.loaded kind width.bytes rd).inFlight = 0 ∧
      (s.loaded kind width.bytes rd).core.misalignedEvent = false ∧
      (s.loaded kind width.bytes rd).core.misalignedAccess = false := by
    unfold System.loaded
    split <;> exact ⟨quiet, event, access⟩
  obtain ⟨_, _, _, _, rfl, after⟩ := afterInsnKeeps (s.loaded kind width.bytes rd) fetchStalls
  rw [after]
  refine .done ⟨⟨kept.1, ?_⟩, ?_⟩
  · change (_ || (_ && _)) = false
    rw [kept.2.1, kept.2.2]
    simp
  · rw [leaves, if_neg inside]
    exact loadedRight memory old whole

theorem issueWhole (rest : rd ≠ 0) (idle : Idle s) (inside : ¬ Crosses addr width.bytes) (answered : first ≠ .invalid) :
    Phase s.memory kind width addr rd (kind.found (s.core.regs rd))
      (s.execInstr kind addr width.bytes rd first fetchStalls) := by
  have within : addr &&& addrMask = lastWord addr width.bytes := not_not.mp inside
  have zero : addr + BitVec.ofNat 32 0 = addr := by simp
  unfold System.execInstr
  by_cases now : first = .ok
  · subst now
    have answer := alignedNow (s.putReg rd (kind.found (s.core.regs rd))) rd addr 0 width.bytes
    rw [putRegSame, zero] at answer
    rw [loadRequest rest (by rw [System.dataReq, if_pos within, answer]), if_pos rfl]
    exact loadedPhase s.memory (s.core.regs rd) inside idle.quiet idle.event idle.access (putRegSame _)
  · rw [loadRequest rest (by rw [System.dataReq, if_pos within, alignedLater answered now]), if_neg now]
    obtain ⟨_, _, _, _, rfl, after⟩ := afterInsnKeeps (System.stallOn _ kind width.bytes rd) fetchStalls
    rw [after]
    refine .whole inside ⟨?_, ?_, rfl, ?_, ?_⟩ idle.access rfl rfl ?_
    · change s.inFlight + 1 = 1
      rw [idle.quiet]
    · change (s.core.misalignedEvent || (_ && s.core.misalignedAccess)) = false
      simp [idle.event, idle.access]
    · rw [zero]
      rfl
    · exact congrArg (fun v => putBytes v 0 width.bytes (bytesAt s.memory addr)) (putRegSame _)
    · intro signed
      change (if kind = .signed then width.bytes else _) = _
      rw [if_pos signed]

theorem misalignedParts (s : System) (rd : Nat) (addr : Addr) (size : Nat) (first : IoStatus) :
    let n := (lastWord addr size - addr).toNat
    let c := { s.core with
      misalignedAccess := true
      misalignedSize := size - n
      misalignedData := ⟨some rd, n⟩
      misalignedAddr := addr + BitVec.ofNat 32 n
      misalignedIsWrite := false }
    let (next, err) := { s with core := c }.dataReqAligned addr ⟨some rd, 0⟩ n false first
    s.dataMisalignedReq addr ⟨some rd, 0⟩ size false first = if err = .ok then (next, .pending) else (next, .ok) := by
  simp only [splitAddr, System.dataMisalignedReq, Pointer.add, Nat.zero_add]

theorem issueSplit (kind : Load) (fetchStalls : Bool) (rest : rd ≠ 0) (idle : Idle s) (crosses : Crosses addr width.bytes) :
    ∃ n, Halfway s.memory addr rd width.bytes (kind.found (s.core.regs rd)) n
      (s.execInstr kind addr width.bytes rd .ok fetchStalls) := by
  have zero : addr + BitVec.ofNat 32 0 = addr := by simp
  have parts := misalignedParts (s.putReg rd (kind.found (s.core.regs rd))) rd addr width.bytes .ok
  obtain ⟨low, high⟩ := splitSizes crosses
  generalize (lastWord addr width.bytes - addr).toNat = n at parts low high
  have answer := fun t : System => alignedNow t rd addr 0 n
  simp only [zero] at answer
  simp only [answer, if_true, putRegSame] at parts
  -- The state in which the request returns; only its fields matter from here on.
  generalize shape : System.putReg (System.asked _ _ _ _) _ _ = asked at parts
  have running : asked.core.stalled = 0 := by rw [← shape]; exact idle.running
  have access : asked.core.misalignedAccess = true := by rw [← shape]; rfl
  unfold System.execInstr
  rw [loadRequest rest (by rw [System.dataReq, if_neg crosses, parts]), if_neg (by simp)]
  obtain ⟨stalled, _, _, counts, rfl, after⟩ := afterInsnKeeps (asked.stallOn kind width.bytes rd) fetchStalls
  have blocked : stalled ≠ 0 := by
    change stalled = asked.core.stalled + 1 ∨ stalled = asked.core.stalled + 1 + 1 at counts
    rw [running] at counts
    rcases counts with rfl | rfl <;> decide
  rw [after]
  refine ⟨n, high.le, ?_, ?_, access, ?_, ?_, ?_, ?_, ?_, ?_⟩
  · rw [← shape]
    exact idle.quiet
  · change (_ || (decide (stalled ≠ 0) && asked.core.misalignedAccess)) = true
    rw [access, decide_eq_true blocked]
    simp
  · rw [← shape]
    rfl
  · rw [← shape]
    exact putRegSame _
  all_goals
    rw [← shape]
    rfl

end Issue

end Gvsoc.Iss
