import Gvsoc.SpimMemory

/-! The slave stays in its memory, under commands that are allowed. -/
namespace Gvsoc.SpimMemory
open SpimSlave (Slave Call Lanes)

variable {s : Slave}

theorem nonneg {a : BitVec 32} : 0 ≤ a.toInt ↔ a.toNat < 2 ^ 31 := by
  rw [BitVec.toInt_eq_toNat_cond]
  have small := a.isLt
  split <;> omega

theorem nonnegNext {a : BitVec 32} (here : 0 ≤ a.toInt) (more : a ≠ 0x7FFFFFFF) : 0 ≤ (a + 1).toInt := by
  rw [nonneg] at here ⊢
  have other : a.toNat ≠ 0x7FFFFFFF := fun same => more (BitVec.eq_of_toNat_eq same)
  rw [BitVec.toNat_add]
  change (a.toNat + 1) % 2 ^ 32 < 2 ^ 31
  omega

structure Safe (s : Slave) : Prop where
  used : ∀ i ∈ s.used, 0 ≤ i ∧ i < (s.setup.memSize : Int)
  base : s.state ≠ .getCmd → 0 ≤ s.commandAddr.toInt
  read : s.state = .readCmd ∨ s.state = .fullDuplexCmd → 0 ≤ s.currentAddr.toInt
  write : s.state = .writeCmd ∨ s.state = .fullDuplexCmd → 0 ≤ s.currentWriteAddr.toInt

theorem usedMore {used : List Int} {i memSize : Int} (before : ∀ i ∈ used, 0 ≤ i ∧ i < memSize) (low : 0 ≤ i) (high : i < memSize) :
    ∀ j ∈ used ++ [i], 0 ≤ j ∧ j < memSize := by
  intro j inside
  rcases List.mem_append.mp inside with earlier | last
  · exact before j earlier
  · rw [List.mem_singleton.mp last]
    exact ⟨low, high⟩

theorem inMemory {address : BitVec 32} (inside : ¬s.outside address = true) : address.toInt < s.setup.memSize := by
  unfold Slave.outside at inside
  simpa using inside

theorem loadByteSafe (safe : Safe s) (reading : s.state = .readCmd ∨ s.state = .fullDuplexCmd) (fits : s.currentAddr ≠ 0x7FFFFFFF) :
    Safe s.loadByte := by
  obtain ⟨used, base, read, write⟩ := safe
  have next := nonnegNext (read reading) fits
  unfold Slave.loadByte
  split
  · exact ⟨used, base, fun _ => next, write⟩
  · rename_i inside
    exact ⟨usedMore used (read reading) (inMemory inside), base, fun _ => next, write⟩

theorem driveBitsSafe (safe : Safe s) : Safe s.driveBits := by
  obtain ⟨used, base, read, write⟩ := safe
  unfold Slave.driveBits
  split <;> exact ⟨used, base, read, write⟩

theorem execReadSafe (safe : Safe s) (reading : s.state = .readCmd ∨ s.state = .fullDuplexCmd) (allowed : ReadAllowed s) :
    Safe s.execRead := by
  unfold Slave.execRead
  split
  · exact ⟨safe.used, safe.base, safe.read, safe.write⟩
  · rename_i ready
    have loaded : Safe (if s.nbBits = 0 then s.loadByte else s) := by
      split
      · rename_i empty
        exact loadByteSafe safe reading (allowed (by simpa using ready) empty)
      · exact safe
    have driven := driveBitsSafe loaded
    generalize (if s.nbBits = 0 then s.loadByte else s).driveBits = s at driven ⊢
    dsimp only
    split
    · exact ⟨driven.used, nofun, nofun, nofun⟩
    · exact driven

theorem collectSafe (safe : Safe s) (lanes : Lanes) : Safe (s.collect lanes) := by
  obtain ⟨used, base, read, write⟩ := safe
  unfold Slave.collect
  split <;> exact ⟨used, base, read, write⟩

theorem storeByteSafe (safe : Safe s) (writing : s.state = .writeCmd ∨ s.state = .fullDuplexCmd) (full : s.nbWriteBits = 8)
    (fits : s.currentWriteAddr ≠ 0x7FFFFFFF) : Safe s.storeByte ∧ s.storeByte.nbWriteBits = 0 := by
  obtain ⟨used, base, read, write⟩ := safe
  have next := nonnegNext (write writing) fits
  unfold Slave.storeByte
  rw [if_pos full]
  split
  · exact ⟨⟨used, base, read, fun _ => next⟩, rfl⟩
  · rename_i inside
    exact ⟨⟨usedMore used (write writing) (inMemory inside), base, read, fun _ => next⟩, rfl⟩

theorem finishSafe (safe : Safe s) (writing : s.state = .writeCmd ∨ s.state = .fullDuplexCmd)
    (fits : s.nbWriteBits ≠ 0 → s.currentWriteAddr.toInt < s.setup.memSize) : Safe s.finish := by
  obtain ⟨used, base, read, write⟩ := safe
  unfold Slave.finish
  split
  · rename_i part
    exact ⟨usedMore used (write writing) (fits part), nofun, nofun, nofun⟩
  · exact ⟨used, nofun, nofun, nofun⟩

theorem execWriteSafe (safe : Safe s) (writing : s.state = .writeCmd ∨ s.state = .fullDuplexCmd) (allowed : WriteAllowed s)
    (lanes : Lanes) : Safe (s.execWrite lanes) := by
  have collected := collectSafe safe lanes
  have fields : (s.collect lanes).state = s.state ∧ (s.collect lanes).setup = s.setup ∧
      (s.collect lanes).currentWriteAddr = s.currentWriteAddr ∧
      (s.collect lanes).nbWriteBits = s.nbWriteBits + BitVec.ofNat 32 (if s.isQuad then 4 else 1) ∧
      (s.collect lanes).currentWriteSize = s.currentWriteSize - BitVec.ofNat 32 (if s.isQuad then 4 else 1) := by
    unfold Slave.collect
    cases s.isQuad <;> exact ⟨rfl, rfl, rfl, rfl, rfl⟩
  unfold WriteAllowed at allowed
  dsimp only at allowed
  unfold Slave.execWrite
  generalize s.collect lanes = c at collected fields ⊢
  obtain ⟨state, setup, addr, bits, size⟩ := fields
  have writing' : c.state = .writeCmd ∨ c.state = .fullDuplexCmd := state ▸ writing
  rw [← bits, ← addr, ← setup] at allowed
  dsimp only
  by_cases full : c.nbWriteBits = 8
  · rw [if_pos full] at allowed
    obtain ⟨stored, empty⟩ := storeByteSafe collected writing' full allowed
    have same : c.storeByte.state = c.state := by
      unfold Slave.storeByte
      rw [if_pos full]
      split <;> rfl
    split
    · exact finishSafe stored (same ▸ writing') fun part => absurd empty part
    · exact stored
  · rw [if_neg full] at allowed
    rw [show c.storeByte = c from if_neg full]
    split
    · rename_i last
      rw [size, sub_eq_zero] at last
      exact finishSafe collected writing' (allowed last)
    · exact collected

theorem handleCommandSafe (safe : Safe s) {cmd : BitVec 64} (allowed : CommandAllowed cmd) : Safe (s.handleCommand cmd) := by
  have address {id : Nat} (same : (SpimSlave.cmdField cmd).toNat = id) (known : 1 ≤ id ∧ id ≤ 5) :
      0 ≤ (SpimSlave.addrField cmd).toInt := allowed (same ▸ known)
  have reads (quad : Bool) (plain : 0 ≤ (SpimSlave.addrField cmd).toInt) : Safe (s.handleRead cmd quad) :=
    ⟨safe.used, fun _ => plain, fun _ => plain, nofun⟩
  have writes (quad : Bool) (plain : 0 ≤ (SpimSlave.addrField cmd).toInt) : Safe (s.handleWrite cmd quad) :=
    ⟨safe.used, fun _ => plain, nofun, fun _ => plain⟩
  unfold Slave.handleCommand
  split
  · rename_i write
    exact writes false (address write (by decide))
  · rename_i read
    exact reads false (address read (by decide))
  · rename_i duplex
    have plain := address duplex (by decide)
    exact ⟨safe.used, fun _ => plain, fun _ => plain, fun _ => plain⟩
  · rename_i write
    exact writes true (address write (by decide))
  · rename_i read
    exact reads true (address read (by decide))
  · exact ⟨safe.used, safe.base, safe.read, safe.write⟩

theorem getBitSafe (safe : Safe s) {sdio0 : BitVec 32}
    (allowed : s.cmdCount = 63 → CommandAllowed (s.currentCmd <<< 1 ||| sdio0.signExtend 64)) : Safe (s.getBit sdio0) := by
  obtain ⟨used, base, read, write⟩ := safe
  unfold Slave.getBit
  dsimp only
  split
  · rename_i last
    refine handleCommandSafe ?_ (allowed (by omega))
    exact ⟨used, base, read, write⟩
  · exact ⟨used, base, read, write⟩

theorem highSafe (safe : Safe s) {lanes : Lanes} (allowed : HighAllowed s lanes) : Safe (s.handleClkHigh lanes) := by
  unfold HighAllowed at allowed
  unfold Slave.handleClkHigh
  split
  · exact safe
  · rename_i open'
    have now := allowed (by simpa using open')
    cases state : s.state with
    | getCmd =>
        rw [state] at now
        exact getBitSafe safe now
    | writeCmd =>
        rw [state] at now
        exact execWriteSafe safe (.inl state) now lanes
    | fullDuplexCmd =>
        rw [state] at now
        exact execWriteSafe safe (.inr state) now lanes
    | readCmd => exact safe

theorem lowSafe (safe : Safe s) (allowed : s.waitCs = false → s.state = .readCmd ∨ s.state = .fullDuplexCmd → ReadAllowed s) :
    Safe s.handleClkLow := by
  unfold Slave.handleClkLow
  split
  · exact safe
  · rename_i open'
    have now := allowed (by simpa using open')
    cases state : s.state with
    | getCmd => exact safe
    | writeCmd => exact safe
    | fullDuplexCmd => exact execReadSafe safe (.inr state) (now (.inr state))
    | readCmd => exact execReadSafe safe (.inl state) (now (.inl state))

theorem syncSafe (safe : Safe s) {sck : BitVec 32} {lanes : Lanes} (allowed : CallAllowed s (.sync sck lanes)) :
    Safe (s.sync sck lanes) := by
  unfold CallAllowed at allowed
  unfold Slave.sync
  split
  · exact safe
  · rename_i slave
    have now := allowed (by simpa using slave)
    have handled : Safe (if s.prevSck = sck ^^^ s.setup.polarity then s
        else if (sck ^^^ s.setup.polarity) ^^^ s.setup.phase = 0 then s.handleClkLow else s.handleClkHigh lanes) := by
      split
      · exact safe
      · rename_i edge
        split
        · rename_i low
          rw [if_neg fun sampling => sampling.2 low] at now
          exact lowSafe safe now
        · rename_i high
          rw [if_pos ⟨edge, high⟩] at now
          exact highSafe safe now
    exact ⟨handled.used, handled.base, handled.read, handled.write⟩

theorem csSyncSafe (safe : Safe s) {cs : BitVec 32} (allowed : CallAllowed s (.csSync cs)) : Safe (s.csSync cs) := by
  unfold CallAllowed at allowed
  unfold Slave.csSync
  split
  · exact safe
  · rename_i edge
    have now := allowed (by
      cases master : s.setup.isMaster with
      | true => exact absurd (.inl master) edge
      | false => rfl)
    obtain ⟨used, base, read, write⟩ := safe
    dsimp only
    by_cases up : cs = 1
    · subst up
      have home : s.state = .readCmd ∨ s.state = .writeCmd ∨ s.state = .fullDuplexCmd → 0 ≤ s.commandAddr.toInt := by
        rintro (reading | writing | both)
        · exact base (by simp [reading])
        · exact base (by simp [writing])
        · exact base (by simp [both])
      rw [if_neg (by simp), if_pos rfl]
      exact ⟨used, base, fun reading => home (reading.imp_right .inr), fun writing => home (.inr writing)⟩
    · rw [if_neg up]
      have kept : Safe { s with currentCs := cs } := ⟨used, base, read, write⟩
      split
      · rename_i reads
        exact execReadSafe kept reads.2.1 (now reads.2.1)
      · exact kept

theorem execReadSetup (s : Slave) : s.execRead.setup = s.setup := by
  have loads (s : Slave) : s.loadByte.setup = s.setup := by
    unfold Slave.loadByte
    split <;> rfl
  have drives (s : Slave) : s.driveBits.setup = s.setup := by
    unfold Slave.driveBits
    split <;> rfl
  have driven : (if s.nbBits = 0 then s.loadByte else s).driveBits.setup = s.setup := by
    rw [drives]
    split
    · exact loads s
    · rfl
  unfold Slave.execRead
  split
  · rfl
  · generalize (if s.nbBits = 0 then s.loadByte else s).driveBits = after at driven ⊢
    dsimp only
    split <;> exact driven

theorem execWriteSetup (s : Slave) (lanes : Lanes) : (s.execWrite lanes).setup = s.setup := by
  have collects : (s.collect lanes).setup = s.setup := by
    unfold Slave.collect
    split <;> rfl
  have stores (s : Slave) : s.storeByte.setup = s.setup := by
    unfold Slave.storeByte
    split
    · split <;> rfl
    · rfl
  have finishes (s : Slave) : s.finish.setup = s.setup := by
    unfold Slave.finish
    split <;> rfl
  have stored := (stores (s.collect lanes)).trans collects
  unfold Slave.execWrite
  dsimp only
  split
  · rw [finishes, stored]
  · exact stored

theorem getBitSetup (s : Slave) (sdio0 : BitVec 32) : (s.getBit sdio0).setup = s.setup := by
  have handles (s : Slave) (cmd : BitVec 64) : (s.handleCommand cmd).setup = s.setup := by
    unfold Slave.handleCommand
    split <;> rfl
  unfold Slave.getBit
  dsimp only
  split
  · rw [handles]
  · rfl

theorem syncSetup (s : Slave) (sck : BitVec 32) (lanes : Lanes) : (s.sync sck lanes).setup = s.setup := by
  have highs : (s.handleClkHigh lanes).setup = s.setup := by
    unfold Slave.handleClkHigh
    split
    · rfl
    · split
      · exact getBitSetup s lanes.sdio0
      · exact execWriteSetup s lanes
      · exact execWriteSetup s lanes
      · rfl
  have lows : s.handleClkLow.setup = s.setup := by
    unfold Slave.handleClkLow
    split
    · rfl
    · split
      · exact execReadSetup s
      · exact execReadSetup s
      · rfl
      · rfl
  unfold Slave.sync
  split
  · rfl
  · dsimp only
    split
    · rfl
    · split
      · exact lows
      · exact highs

theorem csSyncSetup (s : Slave) (cs : BitVec 32) : (s.csSync cs).setup = s.setup := by
  unfold Slave.csSync
  dsimp only
  split_ifs
  case pos => rfl
  all_goals first | rfl | exact execReadSetup _

theorem callSetup (s : Slave) : ∀ c : Call, (s.call c).setup = s.setup
  | .sync sck lanes => syncSetup s sck lanes
  | .csSync cs => csSyncSetup s cs

theorem callSafe (safe : Safe s) {c : Call} (allowed : CallAllowed s c) : Safe (s.call c) := by
  cases c with
  | sync sck lanes => exact syncSafe safe allowed
  | csSync cs => exact csSyncSafe safe allowed

end Gvsoc.SpimMemory
