import Gvsoc.Io
import Mathlib.Data.BitVec

/-! `memory::req`: an access to the bytes of a memory, which can be powered down, and can check that what is read was
written before. -/
namespace Gvsoc.MemoryBounds
open Bytes (Byte)
open Io (IoStatus)

abbrev Word := BitVec 64

/- The arrays are `mem_data` and `check_mem`, with a bit for each byte of the other. An index behind the size is outside. -/
structure Memory where
  size : Word
  widthBits : Nat
  memData : Nat → Byte
  checkMem : Option (Nat → Byte)
  nextPacketStart : Int
  poweredUp : Bool
  powerActive : Bool
  lastAccessTimestamp : Int
  quanta : Bool → Word → Nat

structure Req where
  addr : Word
  size : Word
  isWrite : Bool
  isDebug : Bool
  data : Option (Nat → Byte)
  latency : Int
  duration : Word

def Req.incLatency (r : Req) (cycles : Int) : Req := { r with latency := r.latency + cycles }

def Req.setDuration (r : Req) (duration : Word) : Req := if r.duration < duration then { r with duration := duration } else r

def memcpy (dest : Nat → Byte) (start : Nat) (src : Nat → Byte) (source n : Nat) : Nat → Byte :=
  fun p => if start ≤ p ∧ p < start + n then src (source + (p - start)) else dest p

def place (offset : Word) (i : Nat) : Nat := (offset + BitVec.ofNat 64 i).toNat

def accessed (check : Nat → Byte) (p : Nat) : Bool := (check (p / 8) >>> (p % 8)) &&& 1#8 ≠ 0

def markAccessed (check : Nat → Byte) (offset : Word) : Nat → Nat → Byte
  | 0 => check
  | i + 1 =>
      let check := markAccessed check offset i
      Function.update check (place offset i / 8) (check (place offset i / 8) ||| 1#8 <<< (place offset i % 8))

namespace Memory

variable (m : Memory) (r : Req) (cycles time : Int)

/- The packets go through one by one, the duration is an `int`. -/
def bandwidth : Memory × Req :=
  if m.widthBits = 0 then (m, r)
  else
    let packets := r.size >>> m.widthBits
    let duration : BitVec 32 := (if packets > 1 then packets else 1).setWidth 32
    let r := r.setDuration (duration.signExtend 64)
    let diff := m.nextPacketStart - cycles
    let r := if diff > 0 then r.incLatency diff else r
    ({ m with nextPacketStart := max m.nextPacketStart cycles + duration.toInt }, r)

def accountEnergy : Memory :=
  if m.powerActive then
    let quanta := if r.size = 1 ∨ r.size = 2 ∨ r.size = 4 then
        Function.update m.quanta r.isWrite (Function.update (m.quanta r.isWrite) r.size (m.quanta r.isWrite r.size + 1))
      else m.quanta
    { m with lastAccessTimestamp := time, quanta := quanta }
  else m

def account : Memory × Req :=
  let (m, r) := m.bandwidth r cycles
  (m.accountEnergy r time, r)

/- The loops over `check_mem` count with an `unsigned int`, which does not get past 2 ^ 32 bytes. -/
def endless : Bool := m.checkMem.isSome && decide (2 ^ 32 ≤ r.size.toNat)

def write : Option (IoStatus × Memory × Req) :=
  if m.endless r then none
  else
    let check := m.checkMem.map (fun check => markAccessed check r.addr r.size.toNat)
    let data := match r.data with
      | none => m.memData
      | some data => memcpy m.memData r.addr.toNat data 0 r.size.toNat
    some (.ok, { m with checkMem := check, memData := data }, r)

def uninitialized : Bool := match m.checkMem with
  | none => false
  | some check => (List.range (min r.size.toNat (2 ^ 32))).any (fun i => !accessed check (place r.addr i))

def read : Option (IoStatus × Memory × Req) :=
  if m.uninitialized r then some (.invalid, m, r)
  else if m.endless r then none
  else some (.ok, m, { r with data := r.data.map (fun data => memcpy data 0 m.memData r.addr.toNat r.size.toNat) })

def req : Option (IoStatus × Memory × Req) :=
  if m.poweredUp = false then some (.invalid, m, r)
  else
    let (m, r) := if r.isDebug then (m, r) else m.account r cycles time
    if m.size < r.addr + r.size then some (.invalid, m, r)
    else if r.isWrite then m.write r
    else m.read r

end Memory

section Checked

variable {check : Nat → Byte} {offset : Word} {p q n : Nat}

theorem accessedBit (check : Nat → Byte) (p : Nat) : accessed check p = (check (p / 8)).getLsbD (p % 8) := by
  unfold accessed
  have bit := BitVec.and_one_eq_setWidth_ofBool_getLsbD (x := check (p / 8) >>> (p % 8))
  rw [BitVec.getLsbD_ushiftRight, Nat.add_zero] at bit
  rw [bit]
  cases (check (p / 8)).getLsbD (p % 8) <;> decide

theorem markedOne (check : Nat → Byte) (p q : Nat) :
    accessed (Function.update check (q / 8) (check (q / 8) ||| 1#8 <<< (q % 8))) p = (accessed check p || decide (p = q)) := by
  rw [accessedBit, accessedBit]
  by_cases byte : p / 8 = q / 8
  · have bound : p % 8 < 8 := Nat.mod_lt p (by omega)
    have bit : (1#8 <<< (q % 8)).getLsbD (p % 8) = decide (p = q) := by
      rw [BitVec.getLsbD_shiftLeft, BitVec.getLsbD_one]
      simp only [bound, decide_true, Bool.true_and, ← Bool.decide_and, ← decide_not]
      exact decide_eq_decide.mpr (by omega)
    rw [byte, Function.update_self, BitVec.getLsbD_or, bit]
  · have other : p ≠ q := fun same => byte (by rw [same])
    rw [Function.update_of_ne byte]
    simp [other]

theorem placeInside (fits : offset.toNat + n < 2 ^ 64) : place offset n = offset.toNat + n := by
  unfold place
  rw [BitVec.toNat_add, BitVec.toNat_ofNat, Nat.mod_eq_of_lt (show n < 2 ^ 64 by omega), Nat.mod_eq_of_lt fits]

theorem markedAccessed (check : Nat → Byte) (p : Nat) (fits : offset.toNat + n < 2 ^ 64) :
    accessed (markAccessed check offset n) p = true ↔ accessed check p = true ∨ offset.toNat ≤ p ∧ p < offset.toNat + n := by
  induction n with
  | zero =>
      simp only [markAccessed, Nat.add_zero]
      exact (or_iff_left (by omega)).symm
  | succ n ih =>
      have before := ih (by omega)
      simp only [markAccessed]
      rw [markedOne, Bool.or_eq_true, before, decide_eq_true_iff, placeInside (by omega), or_assoc]
      exact or_congr Iff.rfl (by omega)

end Checked

section Bounds

variable {m : Memory} {r : Req}

/- An answer to an access: the error is for a memory that is down, for an access behind the size, and for a byte that was
not written before. -/
structure Answered (m : Memory) (r : Req) (status : IoStatus) (m' : Memory) (r' : Req) : Prop where
  answer : status = .ok ∨ status = .invalid
  error : status = .invalid ↔ m.poweredUp = false ∨ m.size.toNat < r.addr.toNat + r.size.toNat ∨
    r.isWrite = false ∧ ∃ check, m.checkMem = some check ∧ ∃ i < r.size.toNat, accessed check (r.addr.toNat + i) = false
  unchanged : status = .invalid ∨ r.isWrite = false → m'.memData = m.memData ∧ m'.checkMem = m.checkMem
  unread : status = .invalid ∨ r.isWrite = true → r'.data = r.data
  absent : r.data = none → m'.memData = m.memData ∧ r'.data = none
  written : status = .ok → r.isWrite = true → ∀ data, r.data = some data → ∀ p,
    m'.memData p = if r.addr.toNat ≤ p ∧ p < r.addr.toNat + r.size.toNat then data (p - r.addr.toNat) else m.memData p
  marked : status = .ok → r.isWrite = true → ∀ check, m.checkMem = some check → ∃ check', m'.checkMem = some check' ∧ ∀ p,
    accessed check' p = true ↔ accessed check p = true ∨ r.addr.toNat ≤ p ∧ p < r.addr.toNat + r.size.toNat
  read : status = .ok → r.isWrite = false → ∀ data, r.data = some data → ∃ data', r'.data = some data' ∧ ∀ i,
    data' i = if i < r.size.toNat then m.memData (r.addr.toNat + i) else data i

structure Kept (m : Memory) (r : Req) (after : Memory × Req) : Prop where
  poweredUp : after.1.poweredUp = m.poweredUp
  size : after.1.size = m.size
  memData : after.1.memData = m.memData
  checkMem : after.1.checkMem = m.checkMem
  addr : after.2.addr = r.addr
  length : after.2.size = r.size
  isWrite : after.2.isWrite = r.isWrite
  data : after.2.data = r.data

theorem bandwidthKept (m : Memory) (r : Req) (cycles : Int) : Kept m r (m.bandwidth r cycles) := by
  unfold Memory.bandwidth Req.setDuration Req.incLatency
  dsimp only
  split_ifs <;> constructor <;> rfl

theorem accountKept (m : Memory) (r : Req) (cycles time : Int) : Kept m r (m.account r cycles time) := by
  obtain ⟨poweredUp, size, memData, checkMem, addr, length, isWrite, data⟩ := bandwidthKept m r cycles
  unfold Memory.account Memory.accountEnergy
  dsimp only
  split_ifs <;> exact ⟨poweredUp, size, memData, checkMem, addr, length, isWrite, data⟩

/- The bytes of the access are in the memory, which is smaller than the loops can count if it has a `check_mem`. -/
structure Inside (m : Memory) (r : Req) : Prop where
  fits : r.addr.toNat + r.size.toNat ≤ m.size.toNat
  counted : m.checkMem = none ∨ m.size.toNat < 2 ^ 32

theorem insideEnds (inside : Inside m r) : m.endless r = false := by
  unfold Memory.endless
  rcases inside.counted with none | small
  · simp [none]
  · have fits := inside.fits
    rw [decide_eq_false (by omega), Bool.and_false]

theorem uninitializedFound (inside : Inside m r) : m.uninitialized r = true ↔
    ∃ check, m.checkMem = some check ∧ ∃ i < r.size.toNat, accessed check (r.addr.toNat + i) = false := by
  have fits := inside.fits
  have bound := m.size.isLt
  unfold Memory.uninitialized
  cases mem : m.checkMem with
  | none => simp
  | some check =>
      have small : r.size.toNat < 2 ^ 32 := by
        have counted := inside.counted.resolve_left (by simp [mem])
        omega
      have rounds : min r.size.toNat (2 ^ 32) = r.size.toNat := by omega
      simp only [rounds, List.any_eq_true, List.mem_range, Bool.not_eq_true', Option.some.injEq, exists_eq_left']
      refine exists_congr fun i => and_congr_right fun before => ?_
      rw [placeInside (by omega)]

theorem writeAnswered (up : m.poweredUp = true) (inside : Inside m r) (write : r.isWrite = true) :
    ∃ m' r', m.write r = some (.ok, m', r') ∧ Answered m r .ok m' r' := by
  have fits := inside.fits
  have bound := m.size.isLt
  unfold Memory.write
  rw [if_neg (by simp [insideEnds inside])]
  refine ⟨_, _, rfl, .inl rfl, ?_, ?_, fun _ => rfl, fun none => ⟨by simp only [none], none⟩, ?_, ?_, ?_⟩
  · refine iff_of_false (by simp) ?_
    rintro (down | behind | ⟨read, -⟩)
    · simp [up] at down
    · omega
    · simp [write] at read
  · rintro (invalid | read)
    · contradiction
    · simp [write] at read
  · intro _ _ data given p
    simp only [given, memcpy]
    rw [Nat.zero_add]
  · intro _ _ check given
    refine ⟨markAccessed check r.addr r.size.toNat, by simp [given], fun p => ?_⟩
    exact markedAccessed check p (by omega)
  · intro _ read
    simp [write] at read

theorem readAnswered (up : m.poweredUp = true) (inside : Inside m r) (read : r.isWrite = false) :
    ∃ status m' r', m.read r = some (status, m', r') ∧ Answered m r status m' r' := by
  have fits := inside.fits
  have found := uninitializedFound inside
  have error : (m.poweredUp = false ∨ m.size.toNat < r.addr.toNat + r.size.toNat ∨ r.isWrite = false ∧
      ∃ check, m.checkMem = some check ∧ ∃ i < r.size.toNat, accessed check (r.addr.toNat + i) = false) ↔
      m.uninitialized r = true := by
    rw [found]
    constructor
    · rintro (down | behind | ⟨-, unwritten⟩)
      · simp [up] at down
      · omega
      · exact unwritten
    · exact fun unwritten => .inr (.inr ⟨read, unwritten⟩)
  unfold Memory.read
  cases unwritten : m.uninitialized r with
  | true =>
      refine ⟨.invalid, m, r, rfl, .inr rfl, ?_, fun _ => ⟨rfl, rfl⟩, fun _ => rfl, fun none => ⟨rfl, none⟩, by simp, by simp, by simp⟩
      rw [error]
      exact iff_of_true rfl unwritten
  | false =>
      rw [if_neg (by simp), if_neg (by simp [insideEnds inside])]
      refine ⟨_, _, _, rfl, .inl rfl, ?_, fun _ => ⟨rfl, rfl⟩, by simp [read], fun none => ⟨rfl, by simp [none]⟩, by simp [read],
        by simp [read], ?_⟩
      · rw [error]
        exact iff_of_false (by simp) (by simp [unwritten])
      · intro _ _ data given
        refine ⟨memcpy data 0 m.memData r.addr.toNat r.size.toNat, by simp [given], fun i => ?_⟩
        simp [memcpy]

theorem answeredKept {m' : Memory} {r' : Req} {status : IoStatus} {after : Memory × Req} (kept : Kept m r after)
    (answered : Answered after.1 after.2 status m' r') : Answered m r status m' r' := by
  obtain ⟨up, size, memData, checkMem, addr, length, isWrite, data⟩ := kept
  obtain ⟨answer, error, unchanged, unread, absent, written, marked, read⟩ := answered
  rw [up, size, checkMem, addr, length, isWrite] at error
  rw [memData, checkMem, isWrite] at unchanged
  rw [isWrite, data] at unread
  rw [memData, data] at absent
  rw [isWrite, data, addr, length, memData] at written
  rw [isWrite, checkMem, addr, length] at marked
  rw [isWrite, data, addr, length, memData] at read
  exact ⟨answer, error, unchanged, unread, absent, written, marked, read⟩

theorem behindAnswered (behind : m.size.toNat < r.addr.toNat + r.size.toNat) : Answered m r .invalid m r :=
  ⟨.inr rfl, iff_of_true rfl (.inr (.inl behind)), fun _ => ⟨rfl, rfl⟩, fun _ => rfl, fun none => ⟨rfl, none⟩, by simp, by simp, by simp⟩

theorem sumBounds (noWrap : r.addr.toNat + r.size.toNat < 2 ^ 64 ∨ m.size < r.addr + r.size) :
    m.size < r.addr + r.size ↔ m.size.toNat < r.addr.toNat + r.size.toNat := by
  have sum := BitVec.toNat_add r.addr r.size
  have less := Nat.mod_le (r.addr.toNat + r.size.toNat) (2 ^ 64)
  rw [BitVec.lt_def] at noWrap ⊢
  rcases noWrap with fits | behind
  · rw [sum, Nat.mod_eq_of_lt fits]
  · exact iff_of_true behind (by omega)

/- Whatever the memory and the access, unless the end of the access wraps around to an address inside of the memory. -/
theorem accessAnswered (m : Memory) (r : Req) (cycles time : Int) (counted : m.checkMem = none ∨ m.size.toNat < 2 ^ 32)
    (noWrap : r.addr.toNat + r.size.toNat < 2 ^ 64 ∨ m.size < r.addr + r.size) :
    ∃ status m' r', m.req r cycles time = some (status, m', r') ∧ Answered m r status m' r' := by
  unfold Memory.req
  cases up : m.poweredUp with
  | false =>
      refine ⟨.invalid, m, r, rfl, ?_⟩
      exact ⟨.inr rfl, iff_of_true rfl (.inl up), fun _ => ⟨rfl, rfl⟩, fun _ => rfl, fun none => ⟨rfl, none⟩, by simp, by simp, by simp⟩
  | true =>
      have kept : Kept m r (if r.isDebug then (m, r) else m.account r cycles time) := by
        split_ifs
        · constructor <;> rfl
        · exact accountKept m r cycles time
      rw [if_neg (by simp)]
      generalize (if r.isDebug then (m, r) else m.account r cycles time) = after at kept
      obtain ⟨m1, r1⟩ := after
      have sum := sumBounds (m := m1) (r := r1) (by rw [kept.addr, kept.length, kept.size]; exact noWrap)
      have inside (within : ¬m1.size < r1.addr + r1.size) : Inside m1 r1 :=
        ⟨Nat.le_of_not_lt fun past => within (sum.mpr past), by rw [kept.checkMem, kept.size]; exact counted⟩
      dsimp only
      split_ifs with behind write
      · exact ⟨.invalid, m1, r1, rfl, answeredKept kept (behindAnswered (sum.mp behind))⟩
      · obtain ⟨m', r', done, answered⟩ := writeAnswered (kept.poweredUp.trans up) (inside behind) write
        exact ⟨.ok, m', r', done, answeredKept kept answered⟩
      · obtain ⟨status, m', r', done, answered⟩ := readAnswered (kept.poweredUp.trans up) (inside behind) (by simpa using write)
        exact ⟨status, m', r', done, answeredKept kept answered⟩

def memorySixteen : Memory :=
  { size := 16, widthBits := 2, memData := fun _ => 0x57, checkMem := some fun p => if p = 0 then 0x0f else 0, nextPacketStart := 0
    poweredUp := true, powerActive := false, lastAccessTimestamp := -1, quanta := fun _ _ => 0 }

def readFour (addr : Word) : Req := ⟨addr, 4, false, false, some fun _ => 0, 0, 0⟩

theorem accessAnsweredSixteen :
    ∃ status m' r', memorySixteen.req (readFour 0) 0 0 = some (status, m', r') ∧ Answered memorySixteen (readFour 0) status m' r' :=
  accessAnswered memorySixteen (readFour 0) 0 0 (.inr (by decide)) (.inl (by decide))

/- The memory answers with an error although the access is inside of its size: powered down, or where nothing was written. -/
theorem insideRefused :
    (readFour 0).addr.toNat + (readFour 0).size.toNat ≤ memorySixteen.size.toNat ∧
      (({ memorySixteen with poweredUp := false }.req (readFour 0) 0 0).map Prod.fst = some .invalid) ∧
      (readFour 4).addr.toNat + (readFour 4).size.toNat ≤ memorySixteen.size.toNat ∧
      ((memorySixteen.req (readFour 4) 0 0).map Prod.fst = some .invalid) := by decide +kernel

end Bounds

end Gvsoc.MemoryBounds
