import Gvsoc.LoadPhases

/-! What a completed load leaves in its register, exactly: a load within a word is right, and so
is one across words if its first half is answered at once and no sign has to be extended. -/
namespace Gvsoc.Iss
open Bytes (Byte putByte putBytes littleEndian)
open Io (IoStatus)
open Machine (Run)

section Zero

variable {s next : System} {addr : Addr} {size : Nat} {kind : Load} {first : IoStatus}

/- Requests of a load into the first register all point to `null_reg`. -/
structure NullOnly (s : System) : Prop where
  zero : s.core.regs 0 = 0
  reads : s.core.ioReq.isWrite = false
  into : s.core.ioReq.data.reg = none
  second : s.core.misalignedEvent = true ∨ s.core.misalignedAccess = true →
    s.core.misalignedData.reg = none ∧ s.core.misalignedIsWrite = false

theorem alignedNull (s : System) (addr : Addr) (data : Pointer) (size : Nat) {isWrite : Bool} (first : IoStatus)
    (reads : isWrite = false) (into : data.reg = none) :
    ∃ value flight, (s.dataReqAligned addr data size isWrite first).1 =
      { (s.asked addr size data).putNull value with inFlight := flight } := by
  subst reads
  cases first with
  | ok =>
      obtain ⟨value, copied⟩ := copyNull (s := s.asked addr size data) (n := size) rfl into
      exact ⟨value, s.inFlight, copied⟩
  | invalid => exact ⟨s.core.nullReg, s.inFlight, rfl⟩
  | denied => exact ⟨s.core.nullReg, s.inFlight + 1, rfl⟩
  | pending => exact ⟨s.core.nullReg, s.inFlight + 1, rfl⟩

theorem requestNull (addr : Addr) (size : Nat) (first : IoStatus) (idle : Idle s) : NullOnly (s.dataReq addr ⟨none, 0⟩ size false first).1 := by
  unfold System.dataReq
  split
  · obtain ⟨value, flight, asked⟩ := alignedNull s addr ⟨none, 0⟩ size first rfl rfl
    rw [asked]
    refine ⟨idle.zero, rfl, rfl, ?_⟩
    intro scheduled
    change s.core.misalignedEvent = true ∨ s.core.misalignedAccess = true at scheduled
    simp [idle.event, idle.access] at scheduled
  · unfold System.dataMisalignedReq
    dsimp only
    split
    all_goals
      obtain ⟨value, flight, asked⟩ := alignedNull { s with core := { s.core with
        misalignedAccess := true
        misalignedSize := size - (lastWord addr size - addr).toNat
        misalignedData := Pointer.add ⟨none, 0⟩ (lastWord addr size - addr).toNat
        misalignedAddr := lastWord addr size
        misalignedIsWrite := false } } addr ⟨none, 0⟩ (lastWord addr size - addr).toNat first rfl rfl
      rw [asked]
      exact ⟨idle.zero, rfl, rfl, fun _ => ⟨rfl, rfl⟩⟩

theorem issueNull {fetchStalls : Bool} (idle : Idle s) : NullOnly (s.execInstr kind addr size 0 first fetchStalls) := by
  have asked := requestNull addr size first idle
  have loaded : NullOnly (s.load kind addr size 0 first) := by
    have cleared : { s with core := s.core.issSetReg 0 0 } = s := by simp [Core.issSetReg]
    have pointer : issRegRef 0 = ⟨none, 0⟩ := rfl
    cases kind with
    | plain =>
        change NullOnly (System.loadCleared _ s addr size 0 first)
        simp only [System.loadCleared, cleared, pointer]
        split
        · exact asked
        · exact ⟨asked.zero, asked.reads, asked.into, asked.second⟩
    | elw =>
        change NullOnly (System.loadCleared _ s addr size 0 first)
        simp only [System.loadCleared, cleared, pointer]
        split
        · exact asked
        · exact ⟨asked.zero, asked.reads, asked.into, asked.second⟩
    | signed =>
        change NullOnly (System.issLsuLoadSigned s addr size 0 first)
        simp only [System.issLsuLoadSigned, pointer, Core.issSetReg, ne_eq, not_true_eq_false, if_false]
        split
        · exact ⟨asked.zero, asked.reads, asked.into, asked.second⟩
        · exact ⟨asked.zero, asked.reads, asked.into, asked.second⟩
  obtain ⟨_, _, _, _, rfl, after⟩ := afterInsnKeeps (s.load kind addr size 0 first) fetchStalls
  unfold System.execInstr
  rw [after]
  refine ⟨loaded.zero, loaded.reads, loaded.into, ?_⟩
  intro scheduled
  apply loaded.second
  rcases scheduled with event | access
  · simp only [Bool.or_eq_true, Bool.and_eq_true] at event
    exact event.imp_right And.right
  · exact .inr access

theorem issSetRegZero (c : Core) (reg : Nat) (value : Reg) : (c.issSetReg reg value).regs 0 = c.regs 0 := by
  unfold Core.issSetReg
  split
  · rename_i rest
    exact Function.update_of_ne (Ne.symm rest) _ _
  · rfl

theorem dataResponseShape (c : Core) : ∃ regs elwInsn access, regs 0 = c.regs 0 ∧
    (access = true → c.misalignedAccess = true) ∧ c.dataResponse = { c with
      regs := regs, elwInsn := elwInsn, misalignedAccess := access, stalled := c.stalled - 1 } := by
  unfold Core.dataResponse
  dsimp only
  split
  · exact ⟨c.regs, c.elwInsn, false, rfl, by simp, rfl⟩
  · cases c.stallCallback with
    | none => exact ⟨c.regs, c.elwInsn, c.misalignedAccess, rfl, id, rfl⟩
    | some f =>
        cases f with
        | issLsuLoadResume => exact ⟨c.regs, c.elwInsn, c.misalignedAccess, rfl, id, rfl⟩
        | issLsuElwResume => exact ⟨c.regs, none, c.misalignedAccess, rfl, id, rfl⟩
        | issLsuLoadSignedResume =>
            refine ⟨_, c.elwInsn, c.misalignedAccess, issSetRegZero c c.stallReg
              (issGetSignedValue (c.issGetRegUntimed c.stallReg) (c.stallSize * 8)), id, ?_⟩
            simp only [Core.callback, Core.issSetReg, Core.issGetRegUntimed]
            split <;> rfl

theorem nullStep {a : Action} (null : NullOnly s) (taken : step s a = some next) : NullOnly next := by
  cases a with
  | misaligned answer =>
      simp only [step] at taken
      split at taken
      · rename_i event
        obtain ⟨into, reads⟩ := null.second (.inl event)
        cases taken
        obtain ⟨value, flight, asked⟩ := alignedNull { s with core := { s.core with
          stalled := s.core.stalled - 1, misalignedEvent := false } } s.core.misalignedAddr s.core.misalignedData
          s.core.misalignedSize answer reads into
        unfold System.execMisaligned
        dsimp only
        split
        · rw [asked]
          exact ⟨null.zero, rfl, into, fun _ => ⟨into, reads⟩⟩
        · rw [asked]
          exact ⟨null.zero, rfl, into, fun _ => ⟨into, reads⟩⟩
      · contradiction
  | moves i =>
      obtain ⟨-, done⟩ := Option.ite_none_right_eq_some.mp taken
      cases done
      obtain ⟨value, byte⟩ := copyByteNull (s := s) (i := i) null.reads null.into
      rw [byte]
      exact ⟨null.zero, null.reads, null.into, null.second⟩
  | response =>
      obtain ⟨-, done⟩ := Option.ite_none_right_eq_some.mp taken
      cases done
      obtain ⟨value, copied⟩ := copyNull (s := s) (n := s.core.ioReq.size) null.reads null.into
      rw [copied]
      obtain ⟨regs, elwInsn, access, zero, before, response⟩ := dataResponseShape (s.putNull value).core
      rw [response]
      exact ⟨zero.trans null.zero, null.reads, null.into, fun scheduled => null.second (scheduled.imp_right before)⟩
  | fetchResponse =>
      rw [fetchResponseStep taken]
      exact ⟨null.zero, null.reads, null.into, null.second⟩

end Zero

section Completion

variable {s : System}

theorem copyByteFrame (s : System) (i : Nat) : (s.copyByte i).inFlight = s.inFlight ∧
    (s.copyByte i).core.misalignedEvent = s.core.misalignedEvent := by
  unfold System.copyByte
  dsimp only
  split
  · exact ⟨rfl, rfl⟩
  · unfold Core.write
    split <;> exact ⟨rfl, rfl⟩

theorem copyFrame (s : System) (n : Nat) : (s.copy n).inFlight = s.inFlight ∧
    (s.copy n).core.misalignedEvent = s.core.misalignedEvent := by
  induction n with
  | zero => exact ⟨rfl, rfl⟩
  | succ n ih =>
      unfold System.copy
      obtain ⟨flight, event⟩ := copyByteFrame (s.copy n) n
      exact ⟨flight.trans ih.1, event.trans ih.2⟩

theorem execMisalignedEvent (s : System) (answer : IoStatus) :
    (s.execMisaligned answer).core.misalignedEvent = false := by
  unfold System.execMisaligned System.dataReqAligned
  cases answer with
  | ok => exact (copyFrame _ _).2
  | invalid => rfl
  | denied => rfl
  | pending => rfl

theorem responsesComplete (second : IoStatus) {n : Nat} (flight : s.inFlight = n)
    (event : s.core.misalignedEvent = false) :
    ∃ trace last, Run step (SecondIs second) s trace last ∧ Complete last := by
  induction n generalizing s with
  | zero => exact ⟨[], s, .nil s, flight, event⟩
  | succ n ih =>
      have pending : 0 < s.inFlight := by omega
      have copied := copyFrame s s.core.ioReq.size
      have responds : step s .response = some { s.copy s.core.ioReq.size with
          core := (s.copy s.core.ioReq.size).core.dataResponse
          inFlight := (s.copy s.core.ioReq.size).inFlight - 1 } := by
        simp [step, pending]
      have free : SecondIs second s .response := trivial
      obtain ⟨_, _, _, _, _, shape⟩ := dataResponseShape (s.copy s.core.ioReq.size).core
      obtain ⟨trace, last, run, complete⟩ := ih (s := { s.copy s.core.ioReq.size with
          core := (s.copy s.core.ioReq.size).core.dataResponse
          inFlight := (s.copy s.core.ioReq.size).inFlight - 1 })
        (by rw [copied.1, flight]; rfl) (by rw [shape]; exact copied.2.trans event)
      exact ⟨_, last, Machine.runAppend (Machine.runSingle free responds) run, complete⟩

theorem loadCompletes (s : System) (second : IoStatus) :
    ∃ trace last, Run step (SecondIs second) s trace last ∧ Complete last := by
  cases event : s.core.misalignedEvent with
  | false => exact responsesComplete second rfl event
  | true =>
      have enabled : step s (.misaligned second) = some (s.execMisaligned second) := by simp [step, event]
      have allowed : SecondIs second s (.misaligned second) := rfl
      obtain ⟨trace, last, run, complete⟩ := responsesComplete second rfl (execMisalignedEvent s second)
      exact ⟨_, last, Machine.runAppend (Machine.runSingle allowed enabled) run, complete⟩

end Completion

section Result

variable {kind : Load} {width : Width} {addr : Addr} {rd : Nat} {first second : IoStatus} {s : System}

theorem loadedZero {size : Nat} (zero : s.core.regs rd = 0) : s.loaded kind size rd = s := by
  unfold System.loaded
  split
  · have cleared : issGetSignedValue 0 (size * 8) = s.core.regs rd := by
      rw [zero]
      simp [issGetSignedValue]
    rw [zero, cleared, System.putReg, Function.update_eq_self]
  · rfl

/- A load across words whose first half is answered later goes on at once, and its response is
taken for the end of the access: the second half is never asked for. -/
theorem firstLater (kind : Load) (second : IoStatus) (rest : rd ≠ 0) (idle : Idle s) (zero : s.core.regs rd = 0) (crosses : Crosses addr width.bytes)
    (answered : first ≠ .invalid) (later : first ≠ .ok) :
    ∃ trace last n, Run step (SecondIs second) (s.execInstr kind addr width.bytes rd first false) trace last ∧
      Complete last ∧ n < width.bytes ∧ last.core.regs rd = putBytes 0 0 n (bytesAt s.memory addr) := by
  have parts := misalignedParts (s.putReg rd (kind.found (s.core.regs rd))) rd addr width.bytes first
  obtain ⟨low, high⟩ := splitSizes crosses
  generalize (lastWord addr width.bytes - addr).toNat = n at parts low high
  have found : kind.found (s.core.regs rd) = 0 := by
    rw [zero]
    cases kind <;> rfl
  simp only [alignedLater answered later, if_neg later, found] at parts
  generalize shape : ({ System.asked _ _ _ _ with inFlight := _ } : System) = asked at parts
  have cleared : asked.core.regs rd = 0 := by
    rw [← shape]
    exact putRegSame _
  have issued : s.execInstr kind addr width.bytes rd first false = asked.afterInsn false := by
    unfold System.execInstr
    rw [loadRequest rest (by rw [found, System.dataReq, if_neg crosses, parts]), if_pos rfl, loadedZero cleared]
  have access : (asked.afterInsn false).core.misalignedAccess = true := by
    rw [← shape]
    rfl
  have waits : Waits s.memory addr rd (putBytes 0 0 n (bytesAt s.memory addr)) 0 n (asked.afterInsn false) := by
    refine ⟨?_, ?_, ?_, ?_, congrArg (fun v => putBytes v 0 n (bytesAt s.memory addr)) cleared⟩
    · rw [← shape]
      exact congrArg (· + 1) idle.quiet
    · rw [← shape]
      change (s.core.misalignedEvent || (decide (s.core.stalled ≠ 0) && true)) = false
      rw [idle.event, idle.running]
      rfl
    · rw [← shape]
      rfl
    · rw [← shape, BitVec.add_zero]
      rfl
  obtain ⟨last, responds⟩ := Option.isSome_iff_exists.mp (waitsResponds waits)
  obtain ⟨complete, value⟩ := responseMisaligned waits access responds
  have free : SecondIs second (asked.afterInsn false) .response := trivial
  exact ⟨_, last, n, issued ▸ Machine.runSingle free responds, complete, high, value⟩

/- The load is wrong exactly when it crosses words and its first half is not answered at once,
or when it crosses words and there is a sign to extend. -/
def LoadOk (kind : Load) (width : Width) (addr : Addr) (rd : Nat) (first : IoStatus) : Prop :=
  rd = 0 ∨ ¬ Crosses addr width.bytes ∨ (first = .ok ∧ ¬ (kind = .signed ∧ width = .half))

instance : Decidable (LoadOk kind width addr rd first) := inferInstanceAs (Decidable (_ ∨ _ ∨ _))

def ones : System where
  core := {
    regs := fun _ => 0
    nullReg := 0
    elwInsn := none
    stallCallback := none
    stallReg := 0
    stallSize := 0
    stalled := 0
    misalignedAccess := false
    misalignedSize := 0
    misalignedData := ⟨none, 0⟩
    misalignedAddr := 0
    misalignedIsWrite := false
    misalignedEvent := false
    ioReq := ⟨0, 0, false, ⟨none, 0⟩⟩ }
  memory := fun _ => 255
  inFlight := 0
  fetching := false

theorem onesIdle : Idle ones := ⟨rfl, rfl, rfl, rfl, rfl⟩

theorem onesBit (kind : Load) (width : Width) (addr : Addr) {k : Nat} (inside : k < 32) (covered : k / 8 < width.bytes ∨ kind = .signed) :
    (loadValue ones.memory kind width addr).getLsbD k = true := by
  have bit : ∀ j, j / 8 < width.bytes → (BitVec.ofNat (8 * width.bytes)
      (littleEndian (fun i => ones.memory (addr + BitVec.ofNat 32 i)) width.bytes)).getLsbD j = true := by
    intro j low
    have byte : (255#8).getLsbD (j % 8) = true := by
      rw [show 255#8 = BitVec.allOnes 8 by decide, BitVec.getLsbD_allOnes]
      simpa using Nat.mod_lt j (by omega)
    rw [BitVec.getLsbD_ofNat, Bytes.littleEndianBit, decide_eq_true low, decide_eq_true (by omega : j < 8 * width.bytes)]
    exact byte
  unfold loadValue
  dsimp only
  split
  · rw [BitVec.getLsbD_signExtend, decide_eq_true inside]
    have positive : 0 < width.bytes := by cases width <;> decide
    split
    · exact bit k (by omega)
    · rw [BitVec.msb_eq_getLsbD_last]
      exact bit _ (by omega)
  · rename_i unsigned
    rw [BitVec.getLsbD_setWidth, decide_eq_true inside]
    exact bit k (covered.resolve_right unsigned)

theorem onesDiffer {n : Nat} (small : n < 4) (covered : n < width.bytes ∨ kind = .signed) (bytes : Nat → Byte) :
    putBytes 0 0 n bytes ≠ loadValue ones.memory kind width addr := by
  intro same
  have inside : 8 * n < 32 := by omega
  have zero : (putBytes (0 : Reg) 0 n bytes).getLsbD (8 * n) = false := by
    rw [Bytes.putBytesBit _ _ _ _ _ inside, if_neg (by omega)]
    exact BitVec.getLsbD_zero
  have one := onesBit kind width addr inside
    (covered.imp_left (fun low => by omega))
  rw [← same, zero] at one
  contradiction

theorem loadResult (kind : Load) (width : Width) (addr : Addr) (rd : Nat) (first second : IoStatus)
    (answered : first ≠ .invalid) (answered' : second ≠ .invalid) :
    (∀ s : System, Idle s → ∀ fetchStalls,
      (∃ trace last, Run step (SecondIs second) (s.execInstr kind addr width.bytes rd first fetchStalls) trace last ∧
        Complete last) ∧
      ∀ trace last, Run step (SecondIs second) (s.execInstr kind addr width.bytes rd first fetchStalls) trace last →
        Complete last → last.core.regs rd = if rd = 0 then 0 else loadValue s.memory kind width addr) ↔
      LoadOk kind width addr rd first := by
  constructor
  · intro right
    by_contra wrong
    simp only [LoadOk, not_or, not_not] at wrong
    obtain ⟨rest, crosses, failing⟩ := wrong
    by_cases now : first = .ok
    · -- The second access completes the load, without the sign.
      subst now
      have signed : kind = .signed ∧ width = .half := by simpa using failing
      obtain ⟨rfl, rfl⟩ := signed
      obtain ⟨n, half⟩ := issueSplit .signed false rest onesIdle crosses
      obtain ⟨trace, last, run, finished⟩ := halfwayCompletes .signed crosses half answered'
      have value := (right ones onesIdle false).2 trace last run finished.complete
      rw [if_neg rest, finished.value, leaves, if_pos crosses] at value
      exact onesDiffer (n := 2) (by omega) (.inr rfl) _ value
    · obtain ⟨trace, last, n, run, complete, high, value⟩ :=
        firstLater kind second rest onesIdle rfl crosses answered now
      have missing := (right ones onesIdle false).2 trace last run complete
      have small : n < 4 := lt_of_lt_of_le high (by cases width <;> decide)
      rw [if_neg rest, value] at missing
      exact onesDiffer small (.inl high) _ missing
  · intro fits s idle fetchStalls
    refine ⟨loadCompletes _ second, ?_⟩
    intro trace last run complete
    by_cases zero : rd = 0
    · subst zero
      rw [if_pos rfl]
      have null := Machine.runInvariant run (issueNull idle) (fun _ _ _ null _ taken => nullStep null taken)
      exact null.zero
    · rw [if_neg zero]
      have start : Phase s.memory kind width addr rd (kind.found (s.core.regs rd))
          (s.execInstr kind addr width.bytes rd first fetchStalls) := by
        by_cases crosses : Crosses addr width.bytes
        · obtain ⟨rfl, _⟩ := (fits.resolve_left zero).resolve_left (not_not.mpr crosses)
          obtain ⟨n, half⟩ := issueSplit kind fetchStalls zero idle crosses
          exact .split n crosses half
        · exact issueWhole zero idle crosses answered
      have phase := Machine.runInvariant run start
        (fun _ _ _ phase allowed taken => phaseStep zero answered' phase allowed taken)
      rw [phaseComplete phase complete, leaves]
      split
      · rename_i crosses
        obtain ⟨_, extended⟩ := (fits.resolve_left zero).resolve_left (not_not.mpr crosses)
        exact unfinished s.memory width addr _ crosses extended
      · rfl

/- A plain word at address 2, its second half answered later. -/
theorem loadResultSplitWord :
    (IoStatus.ok ≠ .invalid ∧ IoStatus.pending ≠ .invalid) ∧
    ∀ s : System, Idle s → ∀ fetchStalls,
      (∃ trace last, Run step (SecondIs .pending) (s.execInstr .plain 2 4 5 .ok fetchStalls) trace last ∧ Complete last) ∧
      ∀ trace last, Run step (SecondIs .pending) (s.execInstr .plain 2 4 5 .ok fetchStalls) trace last →
        Complete last → last.core.regs 5 = loadValue s.memory .plain .word 2 :=
  ⟨by decide, (loadResult .plain .word 2 5 .ok .pending (by decide) (by decide)).mpr (by decide)⟩

/- A signed half-word at address 3, both halves answered at once: the sign is not extended. -/
theorem splitHalfKeepsUpperBytes :
    Idle ones ∧ ∃ trace last, Run step (SecondIs .ok) (ones.execInstr .signed 3 Width.half.bytes 5 .ok false) trace last ∧
      Complete last ∧ last.core.regs 5 = 0x0000ffff ∧ loadValue ones.memory .signed .half 3 = 0xffffffff := by
  obtain ⟨trace, run, _⟩ := Machine.reachRun step (SecondIs .ok)
    (ones.execInstr .signed 3 Width.half.bytes 5 .ok false) [.misaligned .ok] (by decide +kernel)
  exact ⟨onesIdle, trace, _, run, by decide +kernel, by decide +kernel, by decide +kernel⟩

end Result

end Gvsoc.Iss
