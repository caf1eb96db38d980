import Gvsoc.SpimSlave

/-! The bits of a write command, sample by sample. They go through a register, and each byte of them into the memory. -/
namespace Gvsoc.SpimSlave
open Bytes (Byte)
open ShiftRegister (bit shiftIn shiftInAppend)

def Lanes.bits (quad : Bool) (lanes : Lanes) : List Bool :=
  if quad then [lanes.sdio3.getLsbD 0, lanes.sdio2.getLsbD 0, lanes.sdio1.getLsbD 0, lanes.sdio0.getLsbD 0]
  else [lanes.sdio0.getLsbD 0]

def Lanes.Clean (quad : Bool) (lanes : Lanes) : Prop :=
  lanes.sdio0 ≤ 1 ∧ (quad = true → lanes.sdio1 ≤ 1 ∧ lanes.sdio2 ≤ 1 ∧ lanes.sdio3 ≤ 1)

instance (quad : Bool) (lanes : Lanes) : Decidable (lanes.Clean quad) := by
  unfold Lanes.Clean
  infer_instance

def width (quad : Bool) : Nat := if quad then 4 else 1

section Registers

variable {s : Slave} {lanes : Lanes}

theorem cleanBit {value : BitVec 32} (clean : value ≤ 1) : value = bit 32 (value.getLsbD 0) := by
  have small : value.toNat ≤ 1 := clean
  have which : value = 0 ∨ value = 1 := by
    rcases Nat.le_one_iff_eq_zero_or_eq_one.mp small with zero | one
    · exact .inl (BitVec.eq_of_toNat_eq zero)
    · exact .inr (BitVec.eq_of_toNat_eq one)
  rcases which with rfl | rfl <;> rfl

theorem shiftInFour (word : BitVec 32) (b3 b2 b1 b0 : Bool) :
    word <<< 4 ||| bit 32 b3 <<< 3 ||| bit 32 b2 <<< 2 ||| bit 32 b1 <<< 1 ||| bit 32 b0 <<< 0 = shiftIn word [b3, b2, b1, b0] := by
  simp only [ShiftRegister.shiftInCons, ShiftRegister.shiftInNil, BitVec.shiftLeft_or_distrib, ← BitVec.shiftLeft_add,
    BitVec.shiftLeft_zero]

@[simp] theorem bitsLength (quad : Bool) (lanes : Lanes) : (lanes.bits quad).length = width quad := by cases quad <;> rfl

theorem collectShiftIn (clean : lanes.Clean s.isQuad) : s.collect lanes =
    { s with
      pendingWrite := shiftIn s.pendingWrite (lanes.bits s.isQuad)
      nbWriteBits := s.nbWriteBits + BitVec.ofNat 32 (width s.isQuad)
      currentWriteSize := s.currentWriteSize - BitVec.ofNat 32 (width s.isQuad) } := by
  obtain ⟨clean0, others⟩ := clean
  unfold Slave.collect Lanes.bits width
  cases quad : s.isQuad with
  | true =>
      obtain ⟨clean1, clean2, clean3⟩ := others quad
      have four := shiftInFour s.pendingWrite (lanes.sdio3.getLsbD 0) (lanes.sdio2.getLsbD 0) (lanes.sdio1.getLsbD 0)
        (lanes.sdio0.getLsbD 0)
      rw [← cleanBit clean0, ← cleanBit clean1, ← cleanBit clean2, ← cleanBit clean3] at four
      simp only [if_true, four]
      rfl
  | false =>
      simp only [Bool.false_eq_true, if_false, ShiftRegister.shiftInCons, ShiftRegister.shiftInNil, ← cleanBit clean0]
      rfl

end Registers

section Reading

variable {s : Slave}

def Driving (s s' : Slave) : Prop := ∃ reader seen, s' = { s with toReader := reader, toSeen := seen }

theorem loadByteDriving (s : Slave) : Driving s s.loadByte := by
  unfold Slave.loadByte
  split <;> exact ⟨_, _, rfl⟩

theorem driveBitsDriving (s : Slave) : Driving s s.driveBits := by
  unfold Slave.driveBits
  split <;> exact ⟨_, _, rfl⟩

theorem drivingTrans {s' s'' : Slave} (first : Driving s s') (second : Driving s' s'') : Driving s s'' := by
  obtain ⟨_, _, rfl⟩ := first
  obtain ⟨reader, seen, rfl⟩ := second
  exact ⟨reader, seen, rfl⟩

theorem execReadDriving (writing : s.state ≠ .readCmd) : Driving s s.execRead := by
  unfold Slave.execRead
  split
  · exact ⟨_, _, rfl⟩
  · have driving : Driving s (if s.nbBits = 0 then s.loadByte else s).driveBits := by
      split
      · exact drivingTrans (loadByteDriving s) (driveBitsDriving _)
      · exact driveBitsDriving s
    obtain ⟨reader, seen, same⟩ := driving
    rw [same, if_neg fun both => writing both.2]
    exact ⟨reader, seen, rfl⟩

end Reading

section Collect

variable {setup : Setup} {cmd : BitVec 64} {quad : Bool} {before : Nat → Byte} {got : List Bool} {s : Slave} {lanes : Lanes}

def Filled (memSize address : Nat) (before : Nat → Byte) (got : List Bool) (after : Nat → Byte) : Prop :=
  ∀ j k, k < 8 → (after j).getMsbD k =
    if address ≤ j ∧ j < address + got.length / 8 ∧ j < memSize then got.getD (8 * (j - address) + k) false else (before j).getMsbD k

def bitCount (cmd : BitVec 64) : Nat := (infoField cmd).toNat

def address (cmd : BitVec 64) : Nat := (addrField cmd).toNat

structure Collecting (setup : Setup) (cmd : BitVec 64) (quad : Bool) (before : Nat → Byte) (got : List Bool) (s : Slave) : Prop where
  same : s.setup = setup
  state : s.state = .writeCmd ∨ s.state = .fullDuplexCmd
  quad : s.isQuad = quad
  count : s.cmdCount = 0
  base : s.commandAddr = addrField cmd
  addr : s.currentWriteAddr = addrField cmd + BitVec.ofNat 32 (got.length / 8)
  size : s.currentWriteSize = infoField cmd - BitVec.ofNat 32 got.length
  bits : s.nbWriteBits = BitVec.ofNat 32 (got.length % 8)
  register : ∃ word, s.pendingWrite = shiftIn word got
  memory : Filled setup.memSize (address cmd) before got s.data

structure Finished (setup : Setup) (cmd : BitVec 64) (quad : Bool) (before : Nat → Byte) (got : List Bool) (s : Slave) : Prop where
  same : s.setup = setup
  state : s.state = .getCmd
  waitCs : s.waitCs = true
  quad : s.isQuad = quad
  count : s.cmdCount = 0
  memory : Filled setup.memSize (address cmd) before got s.data

theorem collectingPins (collecting : Collecting setup cmd quad before got s) {reader : Reader} {seen : Seen}
    {prevSck currentCs : BitVec 32} :
    Collecting setup cmd quad before got { s with toReader := reader, toSeen := seen, prevSck := prevSck, currentCs := currentCs } := by
  obtain ⟨same, state, quad, count, base, addr, size, bits, register, memory⟩ := collecting
  exact ⟨same, state, quad, count, base, addr, size, bits, register, memory⟩

theorem collectingDriving {s' : Slave} (collecting : Collecting setup cmd quad before got s) (driving : Driving s s') :
    Collecting setup cmd quad before got s' ∧ s'.waitCs = s.waitCs := by
  obtain ⟨_, _, rfl⟩ := driving
  exact ⟨collectingPins collecting, rfl⟩

theorem registerByte {word : BitVec 32} {k : Nat} (byte : 8 ≤ got.length) (inside : k < 8) :
    ((shiftIn word got).setWidth 8).getMsbD k = got.getD (got.length - 8 + k) false := by
  have place : got.length - 1 - (8 - 1 - k) = got.length - 8 + k := by omega
  rw [BitVec.getMsbD, BitVec.getLsbD_setWidth, ShiftRegister.shiftInBit word got (by omega), if_pos (by omega), place]
  simp [inside]
  intro
  omega

theorem filledPart {memSize address : Nat} {after : Nat → Byte} {bits : List Bool} (filled : Filled memSize address before got after)
    (part : (got ++ bits).length / 8 = got.length / 8) : Filled memSize address before (got ++ bits) after := by
  intro j k small
  rw [filled j k small, part]
  split
  · rename_i inside
    rw [List.getD_append _ _ _ _ (by omega)]
  · rfl

theorem filledByte {memSize address : Nat} {after : Nat → Byte} {bits : List Bool} {b : Byte}
    (filled : Filled memSize address before got after) (whole : (got ++ bits).length = 8 * (got.length / 8 + 1))
    (last : ∀ k < 8, b.getMsbD k = (got ++ bits).getD ((got ++ bits).length - 8 + k) false) :
    Filled memSize address before (got ++ bits)
      (if memSize ≤ address + got.length / 8 then after else Function.update after (address + got.length / 8) b) := by
  intro j k small
  have count : (got ++ bits).length / 8 = got.length / 8 + 1 := by omega
  rw [count]
  by_cases here : j = address + got.length / 8
  · subst here
    split
    · rename_i past
      rw [filled _ k small, if_neg (by omega), if_neg (by omega)]
    · rename_i inside
      have place : 8 * (address + got.length / 8 - address) + k = (got ++ bits).length - 8 + k := by omega
      rw [Function.update_self, if_pos (by omega), last k small, place]
  · have kept : (if memSize ≤ address + got.length / 8 then after else Function.update after (address + got.length / 8) b) j =
        after j := by
      split
      · rfl
      · exact Function.update_of_ne here _ _
    rw [kept, filled j k small]
    by_cases inside : address ≤ j ∧ j < address + got.length / 8 ∧ j < memSize
    · rw [if_pos inside, if_pos (by omega), List.getD_append _ _ _ _ (by omega)]
    · rw [if_neg inside, if_neg (by omega)]

end Collect

section Samples

variable {setup : Setup} {cmd : BitVec 64} {quad : Bool} {before : Nat → Byte} {got : List Bool} {s : Slave} {lanes : Lanes}

theorem addressPlain (inside : address cmd < setup.memSize) (count : Nat) (short : count < 2 ^ 22) :
    (addrField cmd + BitVec.ofNat 32 count).toNat = address cmd + count ∧
      (addrField cmd + BitVec.ofNat 32 count).toInt = (address cmd + count : Nat) := by
  have size : setup.memSize ≤ 2 ^ 30 + 256 := by
    have power := Nat.pow_le_pow_right (n := 2) (by decide) setup.sized
    exact Nat.add_le_add_right power _
  have plain : (addrField cmd + BitVec.ofNat 32 count).toNat = address cmd + count := by
    rw [BitVec.toNat_add, BitVec.toNat_ofNat, Nat.mod_eq_of_lt (by omega : count < 2 ^ 32)]
    unfold address at inside ⊢
    exact Nat.mod_eq_of_lt (by omega)
  refine ⟨plain, ?_⟩
  rw [BitVec.toInt_eq_toNat_of_lt (by omega), plain]

theorem storeByteFull (full : s.nbWriteBits = 8) : ∃ seen, s.storeByte =
    { s with
      toSeen := seen, nbWriteBits := 0, currentWriteAddr := s.currentWriteAddr + 1
      data := if s.outside s.currentWriteAddr then s.data
        else Function.update s.data s.currentWriteAddr.toNat (s.pendingWrite.setWidth 8) } := by
  unfold Slave.storeByte
  rw [if_pos full]
  split <;> exact ⟨_, rfl⟩

theorem storeBytePart (part : s.nbWriteBits ≠ 8) : s.storeByte = s := if_neg part

theorem widthCases (quad : Bool) : width quad = 1 ∨ width quad = 4 := by cases quad <;> decide

theorem storeByteCollecting (collecting : Collecting setup cmd quad before got s) (clean : lanes.Clean quad)
    (aligned : got.length % width quad = 0) (inside : address cmd < setup.memSize) (short : got.length < 2 ^ 24) :
    Collecting setup cmd quad before (got ++ lanes.bits quad) (s.collect lanes).storeByte ∧
      (s.collect lanes).storeByte.waitCs = s.waitCs := by
  obtain ⟨rfl, state, rfl, count, base, addr, size, bits, ⟨word, register⟩, memory⟩ := collecting
  have collected := collectShiftIn clean
  have grown : (got ++ lanes.bits s.isQuad).length = got.length + width s.isQuad := by simp
  have fits : got.length % 8 + width s.isQuad ≤ 8 := by
    rcases widthCases s.isQuad with one | four
    · omega
    · rw [four] at aligned ⊢
      omega
  have lowered : (s.collect lanes).currentWriteSize = infoField cmd - BitVec.ofNat 32 (got ++ lanes.bits s.isQuad).length := by
    rw [collected, grown, BitVec.ofNat_add, ← BitVec.sub_sub, ← size]
  have raised : (s.collect lanes).nbWriteBits = BitVec.ofNat 32 (got.length % 8 + width s.isQuad) := by
    rw [collected, BitVec.ofNat_add, ← bits]
  have shifted : (s.collect lanes).pendingWrite = shiftIn word (got ++ lanes.bits s.isQuad) := by
    rw [collected, shiftInAppend, ← register]
  have same : (s.collect lanes).setup = s.setup ∧ (s.collect lanes).state = s.state ∧ (s.collect lanes).isQuad = s.isQuad ∧
      (s.collect lanes).cmdCount = s.cmdCount ∧ (s.collect lanes).commandAddr = s.commandAddr ∧
      (s.collect lanes).currentWriteAddr = s.currentWriteAddr ∧ (s.collect lanes).data = s.data ∧
      (s.collect lanes).waitCs = s.waitCs := by
    rw [collected]
    exact ⟨rfl, rfl, rfl, rfl, rfl, rfl, rfl, rfl⟩
  generalize s.collect lanes = c at lowered raised shifted same ⊢
  obtain ⟨setup, state', quad, count', base', addr', data, waitCs⟩ := same
  by_cases full : got.length % 8 + width s.isQuad = 8
  · obtain ⟨seen, stored⟩ := storeByteFull (s := c) (by rw [raised, full]; rfl)
    have whole : (got ++ lanes.bits s.isQuad).length = 8 * (got.length / 8 + 1) := by omega
    have filled := filledByte memory whole (b := (shiftIn word (got ++ lanes.bits s.isQuad)).setWidth 8)
      (fun k small => registerByte (by omega) small)
    obtain ⟨plain, signed⟩ := addressPlain inside (got.length / 8) (by omega)
    have next : (got ++ lanes.bits s.isQuad).length / 8 = got.length / 8 + 1 ∧ (got ++ lanes.bits s.isQuad).length % 8 = 0 := by omega
    rw [stored]
    refine ⟨⟨setup, state' ▸ state, quad, count' ▸ count, base' ▸ base, ?_, lowered, ?_, ⟨word, shifted⟩, ?_⟩, waitCs⟩
    · change c.currentWriteAddr + 1 = _
      rw [addr', addr, next.1, BitVec.ofNat_add, BitVec.add_assoc]
      rfl
    · rw [next.2]
      rfl
    · change Filled _ _ _ _ (if c.outside c.currentWriteAddr then c.data
        else Function.update c.data c.currentWriteAddr.toNat (c.pendingWrite.setWidth 8))
      have outside : c.outside c.currentWriteAddr = decide (s.setup.memSize ≤ address cmd + got.length / 8) := by
        unfold Slave.outside
        rw [setup, addr', addr, signed]
        simp only [Nat.cast_le]
      rw [outside, data, shifted, addr', addr, plain]
      simpa using filled
  · have part : c.storeByte = c := storeBytePart fun eight => full (by
      rw [raised] at eight
      have number := congrArg BitVec.toNat eight
      rw [BitVec.toNat_ofNat, Nat.mod_eq_of_lt (by omega)] at number
      exact number)
    have next : (got ++ lanes.bits s.isQuad).length / 8 = got.length / 8 ∧
        (got ++ lanes.bits s.isQuad).length % 8 = got.length % 8 + width s.isQuad := by omega
    rw [part]
    refine ⟨⟨setup, state' ▸ state, quad, count' ▸ count, base' ▸ base, ?_, lowered, ?_, ⟨word, shifted⟩, ?_⟩, waitCs⟩
    · rw [addr', addr, next.1]
    · rw [raised, next.2]
    · rw [data]
      exact filledPart memory next.1

theorem finishKept (s : Slave) : s.finish.setup = s.setup ∧ s.finish.state = .getCmd ∧ s.finish.waitCs = true ∧
    s.finish.isQuad = s.isQuad ∧ s.finish.cmdCount = s.cmdCount ∧ s.finish.data = s.data := by
  unfold Slave.finish
  split <;> exact ⟨rfl, rfl, rfl, rfl, rfl, rfl⟩

def Progress (setup : Setup) (cmd : BitVec 64) (quad : Bool) (before : Nat → Byte) (got : List Bool) (s : Slave) : Prop :=
  if got.length = bitCount cmd then Finished setup cmd quad before got s
  else Collecting setup cmd quad before got s ∧ s.waitCs = false

theorem progressSck (progress : Progress setup cmd quad before got s) (prevSck : BitVec 32) :
    Progress setup cmd quad before got { s with prevSck := prevSck } := by
  unfold Progress at progress ⊢
  split
  · rename_i all
    rw [if_pos all] at progress
    obtain ⟨same, state, waitCs, quad, count, memory⟩ := progress
    exact ⟨same, state, waitCs, quad, count, memory⟩
  · rename_i part
    rw [if_neg part] at progress
    exact ⟨collectingPins progress.1, progress.2⟩

theorem execWriteProgress (collecting : Collecting setup cmd quad before got s) (waitCs : s.waitCs = false)
    (clean : lanes.Clean quad) (aligned : got.length % width quad = 0) (inside : address cmd < setup.memSize)
    (short : got.length < 2 ^ 24) : Progress setup cmd quad before (got ++ lanes.bits quad) (s.execWrite lanes) := by
  obtain ⟨stored, kept⟩ := storeByteCollecting collecting clean aligned inside short
  have length : (got ++ lanes.bits quad).length < 2 ^ 32 := by
    rw [List.length_append, bitsLength]
    rcases widthCases quad with one | four <;> omega
  unfold Slave.execWrite Progress
  generalize (s.collect lanes).storeByte = c at stored kept ⊢
  have complete : c.currentWriteSize = 0 ↔ (got ++ lanes.bits quad).length = bitCount cmd := by
    rw [stored.size, sub_eq_zero, ← BitVec.toNat_inj, BitVec.toNat_ofNat, Nat.mod_eq_of_lt length]
    exact eq_comm
  by_cases all : (got ++ lanes.bits quad).length = bitCount cmd
  · rw [if_pos all]
    dsimp only
    rw [if_pos (complete.mpr all)]
    obtain ⟨setup, state, waitCs, isQuad, count, data⟩ := finishKept c
    exact ⟨setup.trans stored.same, state, waitCs, isQuad.trans stored.quad, count.trans stored.count, data ▸ stored.memory⟩
  · rw [if_neg all]
    dsimp only
    rw [if_neg fun zero => all (complete.mp zero)]
    exact ⟨stored, kept.trans waitCs⟩

theorem lowDriving (writing : s.state = .writeCmd ∨ s.state = .fullDuplexCmd) : Driving s s.handleClkLow := by
  unfold Slave.handleClkLow
  split
  · exact ⟨_, _, rfl⟩
  · rcases writing with write | duplex
    · rw [write]
      exact ⟨_, _, rfl⟩
    · rw [duplex]
      exact execReadDriving (by rw [duplex]; decide)

theorem progressLow (progress : Progress setup cmd quad before got s) : Progress setup cmd quad before got s.handleClkLow := by
  unfold Progress at progress ⊢
  split
  · rename_i all
    rw [if_pos all] at progress
    unfold Slave.handleClkLow
    rw [if_pos progress.waitCs]
    exact progress
  · rename_i part
    rw [if_neg part] at progress
    obtain ⟨collecting, waitCs⟩ := collectingDriving progress.1 (lowDriving progress.1.state)
    exact ⟨collecting, waitCs.trans progress.2⟩

theorem progressHigh (progress : Progress setup cmd quad before got s) (part : got.length ≠ bitCount cmd)
    (clean : lanes.Clean quad) (aligned : got.length % width quad = 0) (inside : address cmd < setup.memSize)
    (short : got.length < 2 ^ 24) : Progress setup cmd quad before (got ++ lanes.bits quad) (s.handleClkHigh lanes) := by
  unfold Progress at progress
  rw [if_neg part] at progress
  obtain ⟨collecting, waitCs⟩ := progress
  have written := execWriteProgress collecting waitCs clean aligned inside short
  unfold Slave.handleClkHigh
  rw [if_neg (by simp [waitCs])]
  rcases collecting.state with write | duplex
  · rw [write]
    exact written
  · rw [duplex]
    exact written

end Samples

end Gvsoc.SpimSlave
