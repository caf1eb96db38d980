import Gvsoc.SpimSlaveCalls

/-! What the write commands leave in the memory of the slave. The bits of a last byte that is not full are never stored, and a full
duplex command takes its bits in the mode of the command before. -/
namespace Gvsoc.SpimSlave
open Bytes (Byte)
open ShiftRegister (bit msbFirst)

section Session

/- The bits of the command are in the memory, the first one as the highest, and every other bit is as before. -/
def Stored (memSize address : Nat) (before after : Nat → Byte) (bits : List Bool) : Prop :=
  (∀ i < bits.length, address + i / 8 < memSize ∧ (after (address + i / 8)).getMsbD (i % 8) = bits.getD i false) ∧
  ∀ j < memSize, ∀ k < 8, ¬(address ≤ j ∧ 8 * (j - address) + k < bits.length) → (after j).getMsbD k = (before j).getMsbD k

def Resting (address : Nat) (before : Nat → Byte) (bits : List Bool) : Prop :=
  ∀ i < bits.length, 8 * (bits.length / 8) ≤ i → (before (address + i / 8)).getMsbD (i % 8) = bits.getD i false

theorem storedIff {memSize address : Nat} {before after : Nat → Byte} {bits : List Bool} (filled : Filled memSize address before bits after)
    (some : 1 ≤ bits.length) :
    Stored memSize address before after bits ↔ address + (bits.length - 1) / 8 < memSize ∧ Resting address before bits := by
  constructor
  · rintro ⟨stored, -⟩
    refine ⟨(stored (bits.length - 1) (by omega)).1, fun i inside late => ?_⟩
    rw [← (stored i inside).2, filled _ _ (Nat.mod_lt _ (by decide)), if_neg (by omega)]
  · rintro ⟨inside, resting⟩
    refine ⟨fun i small => ⟨by omega, ?_⟩, fun j _ k small outside => ?_⟩
    · rw [filled _ _ (Nat.mod_lt _ (by decide))]
      by_cases whole : i < 8 * (bits.length / 8)
      · have place : 8 * (address + i / 8 - address) + i % 8 = i := by omega
        rw [if_pos (by omega), place]
      · rw [if_neg (by omega)]
        exact resting i small (by omega)
    · rw [filled j k small, if_neg (by omega)]

def dataLanes (s : Slave) (before data : List Call) : List Lanes := samples s.setup (lastSck s.setup s.prevSck before) data

/- A write command that a waiting slave gets at an address of its memory, edges of the chip select, and the bits: one at each
sampling edge, or four in the quad mode. -/
structure Session (s : Slave) (cmd : BitVec 64) (command between data : List Call) : Prop where
  waiting : Waiting s
  writes : Writes cmd
  some : 1 ≤ bitCount cmd
  inside : address cmd < s.setup.memSize
  syncs : Syncs command ∧ Syncs data
  sent : (samples s.setup s.prevSck command).map Lanes.sdio0 = (msbFirst cmd).map (bit 32)
  quiet : samples s.setup (lastSck s.setup s.prevSck command) between = []
  opened : fullDuplex cmd = true → raises s.currentCs between = true
  length : (dataLanes s (command ++ between) data).length =
    (bitCount cmd + width (quadCommand cmd) - 1) / width (quadCommand cmd)
  clean : ∀ lanes ∈ dataLanes s (command ++ between) data, lanes.Clean (quadCommand cmd)

def commandBits (s : Slave) (cmd : BitVec 64) (before data : List Call) : List Bool :=
  (received (quadCommand cmd) (dataLanes s before data)).take (bitCount cmd)

variable {s : Slave} {cmd : BitVec 64} {command between data : List Call}

theorem lastSckAppend (setup : Setup) (prevSck : BitVec 32) (first second : List Call) :
    lastSck setup prevSck (first ++ second) = lastSck setup (lastSck setup prevSck first) second := by
  induction first generalizing prevSck with
  | nil => rfl
  | cons call rest ih =>
      cases call with
      | sync sck lanes => exact ih _
      | csSync cs => exact ih _

theorem callsAppend (s : Slave) (first second : List Call) : s.calls (first ++ second) = (s.calls first).calls second :=
  List.foldl_append

theorem sessionPauses (session : Session s cmd command between data) :
    Pausing s.setup cmd (if fullDuplex cmd then s.isQuad else quadCommand cmd) s.data (s.calls command).state
      (s.calls (command ++ between)) ∧
    (fullDuplex cmd = true → (s.calls command).state = .fullDuplexCmd) ∧
    (s.calls (command ++ between)).waitCs = false ∧
    (s.calls (command ++ between)).prevSck = lastSck s.setup s.prevSck (command ++ between) := by
  obtain ⟨started, level⟩ := commandRun session.waiting session.writes session.syncs.1 session.sent
  obtain ⟨pausing, level', opens⟩ := pausingRun session.waiting.slave ⟨started.collecting, rfl⟩ (by rw [level]; exact session.quiet)
  rw [callsAppend, lastSckAppend, ← level]
  refine ⟨pausing, started.duplex, opens ?_, level'⟩
  cases duplex : fullDuplex cmd with
  | true =>
      rw [started.currentCs]
      exact .inr (session.opened duplex)
  | false => exact .inl (started.waitCs duplex)

theorem duplexSingle (duplex : fullDuplex cmd = true) : quadCommand cmd = false := by
  unfold fullDuplex at duplex
  unfold quadCommand
  rw [of_decide_eq_true duplex]
  decide

/- The mode of the command before is the one of the bits of a full duplex command. -/
theorem staleMode (session : Session s cmd command between data) (duplex : fullDuplex cmd = true) (stale : s.isQuad = true) :
    (s.calls (command ++ between ++ data)).isQuad = true := by
  obtain ⟨pausing, state, -, -⟩ := sessionPauses session
  rw [callsAppend]
  refine (busyRun session.waiting.slave ⟨pausing.collecting.same, ?_, .inl (pausing.state.trans (state duplex))⟩ session.syncs.2).quad
  rw [pausing.collecting.quad, if_pos duplex, stale]

theorem sessionProgress (session : Session s cmd command between data) (fresh : fullDuplex cmd = true → s.isQuad = false) :
    Progress s.setup cmd (quadCommand cmd) s.data (received (quadCommand cmd) (dataLanes s (command ++ between) data))
      (s.calls (command ++ between ++ data)) := by
  obtain ⟨pausing, -, waitCs, level⟩ := sessionPauses session
  have mode : (if fullDuplex cmd then s.isQuad else quadCommand cmd) = quadCommand cmd := by
    cases duplex : fullDuplex cmd with
    | true => exact (fresh duplex).trans (duplexSingle duplex).symm
    | false => rfl
  rw [mode] at pausing
  have some := session.some
  have begin : Progress s.setup cmd (quadCommand cmd) s.data [] (s.calls (command ++ between)) := by
    unfold Progress
    rw [if_neg (by simp; omega)]
    exact ⟨pausing.collecting, waitCs⟩
  have short : width (quadCommand cmd) * ((dataLanes s (command ++ between) data).length - 1) < bitCount cmd := by
    rw [session.length]
    rcases widthCases (quadCommand cmd) with one | four
    · rw [one]
      omega
    · rw [four]
      omega
  rw [callsAppend]
  exact dataRun session.waiting.slave session.inside short session.clean session.syncs.2 begin (by rw [level]; rfl)

theorem sessionWhole (session : Session s cmd command between data) :
    (received (quadCommand cmd) (dataLanes s (command ++ between) data)).length = bitCount cmd ↔
      (quadCommand cmd = true → bitCount cmd % 4 = 0) := by
  rw [receivedLength, session.length]
  cases quad : quadCommand cmd with
  | true =>
      change 4 * ((bitCount cmd + 4 - 1) / 4) = bitCount cmd ↔ (true = true → bitCount cmd % 4 = 0)
      simp only [forall_const]
      omega
  | false =>
      change 1 * ((bitCount cmd + 1 - 1) / 1) = bitCount cmd ↔ (false = true → bitCount cmd % 4 = 0)
      simp

/- The slave stores the bits of a write command, in the mode of the command, exactly when a full duplex command does not follow
one that was quad, a quad command has whole samples, the bits fit in the memory, and those of a last byte that is not full are
in it already. -/
theorem commandStored (session : Session s cmd command between data) :
    (Stored s.setup.memSize (address cmd) s.data (s.calls (command ++ between ++ data)).data
        (commandBits s cmd (command ++ between) data) ∧
      (s.calls (command ++ between ++ data)).isQuad = quadCommand cmd ∧
      (s.calls (command ++ between ++ data)).state = .getCmd ∧ (s.calls (command ++ between ++ data)).cmdCount = 0) ↔
    (fullDuplex cmd = true → s.isQuad = false) ∧ (quadCommand cmd = true → bitCount cmd % 4 = 0) ∧
      address cmd + (bitCount cmd - 1) / 8 < s.setup.memSize ∧
      Resting (address cmd) s.data (commandBits s cmd (command ++ between) data) := by
  have whole := sessionWhole session
  have some := session.some
  by_cases fresh : fullDuplex cmd = true → s.isQuad = false
  · have progress := sessionProgress session fresh
    unfold Progress at progress
    by_cases all : (received (quadCommand cmd) (dataLanes s (command ++ between) data)).length = bitCount cmd
    · rw [if_pos all] at progress
      have bits : commandBits s cmd (command ++ between) data = received (quadCommand cmd) (dataLanes s (command ++ between) data) :=
        List.take_of_length_le all.le
      have stored := storedIff progress.memory (by omega)
      rw [all] at stored
      rw [bits, stored]
      constructor
      · rintro ⟨fits, -⟩
        exact ⟨fresh, whole.mp all, fits⟩
      · rintro ⟨-, -, fits⟩
        exact ⟨fits, progress.quad, progress.state, progress.count⟩
    · rw [if_neg all] at progress
      constructor
      · rintro ⟨-, -, idle, -⟩
        rcases progress.1.state with write | duplex
        · rw [write] at idle
          contradiction
        · rw [duplex] at idle
          contradiction
      · rintro ⟨-, samples, -⟩
        exact absurd (whole.mpr samples) all
  · obtain ⟨duplex, stale⟩ := Classical.not_imp.mp fresh
    have mode := staleMode session duplex (by simpa using stale)
    rw [mode, duplexSingle duplex]
    constructor
    · rintro ⟨-, never, -⟩
      contradiction
    · rintro ⟨never, -⟩
      exact absurd (never duplex) stale

def blank : Slave where
  dummyCycles := 0
  currentAddr := 0
  currentSize := 0
  nbBits := 0
  byte := 0
  driven := []
  used := []
  setup := ⟨4, 0, 0, false, by decide⟩
  state := .getCmd
  currentCmd := 0
  prevSck := 0
  cmdCount := 0
  waitCs := false
  commandAddr := 0
  currentWriteAddr := 0
  currentWriteSize := 0
  data := fun _ => 0
  nbWriteBits := 0
  pendingWrite := 0
  currentCs := 0
  isQuad := false

def clocked (all : List Lanes) : List Call := all.flatMap fun lanes => [.sync 0 lanes, .sync 1 lanes]

def single (b : Bool) : Lanes := ⟨bit 32 b, 2, 2, 2⟩

def quadWrite : BitVec 64 := 0x0400000800000003

theorem quadWriteSession : Session blank quadWrite (clocked ((msbFirst quadWrite).map single)) [.csSync 1, .csSync 0]
    (clocked [⟨0, 1, 0, 1⟩, ⟨1, 1, 0, 0⟩]) where
  waiting := ⟨rfl, rfl, rfl, rfl⟩
  writes := by decide +kernel
  some := by decide +kernel
  inside := by decide +kernel
  syncs := by decide +kernel
  sent := by decide +kernel
  quiet := by decide +kernel
  opened := by decide +kernel
  length := by decide +kernel
  clean := by decide +kernel

theorem commandStoredQuad : (blank.calls (clocked ((msbFirst quadWrite).map single) ++ [.csSync 1, .csSync 0] ++
    clocked [⟨0, 1, 0, 1⟩, ⟨1, 1, 0, 0⟩])).isQuad = true ∧
    (blank.calls (clocked ((msbFirst quadWrite).map single) ++ [.csSync 1, .csSync 0] ++
      clocked [⟨0, 1, 0, 1⟩, ⟨1, 1, 0, 0⟩])).data 3 = 0xA3 := by
  have stored := (commandStored quadWriteSession).mpr ⟨by decide +kernel, by decide +kernel, by decide +kernel, fun i small late => by
    have length : (commandBits blank quadWrite (clocked ((msbFirst quadWrite).map single) ++ [.csSync 1, .csSync 0])
      (clocked [⟨0, 1, 0, 1⟩, ⟨1, 1, 0, 0⟩])).length = 8 := by decide +kernel
    rw [length] at small late
    omega⟩
  exact ⟨stored.2.1.trans (by decide +kernel), by decide +kernel⟩

def shortWrite : BitVec 64 := 0x0100000400000003

theorem shortWriteSession : Session blank shortWrite (clocked ((msbFirst shortWrite).map single)) []
    (clocked (List.replicate 4 (single true))) where
  waiting := ⟨rfl, rfl, rfl, rfl⟩
  writes := by decide +kernel
  some := by decide +kernel
  inside := by decide +kernel
  syncs := by decide +kernel
  sent := by decide +kernel
  quiet := by decide +kernel
  opened := by decide +kernel
  length := by decide +kernel
  clean := by decide +kernel

/- The four bits are ones, and the memory stays as it was. -/
theorem shortWriteLost : ∃ s cmd command between data, Session s cmd command between data ∧
    ¬Stored s.setup.memSize (address cmd) s.data (s.calls (command ++ between ++ data)).data
      (commandBits s cmd (command ++ between) data) := by
  refine ⟨blank, shortWrite, _, _, _, shortWriteSession, fun stored => ?_⟩
  have first := (stored.1 0 (by decide +kernel)).2
  revert first
  decide +kernel

end Session

end Gvsoc.SpimSlave
