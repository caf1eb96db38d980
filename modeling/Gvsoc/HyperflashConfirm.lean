import Gvsoc.HyperflashBuffer

/-! When a write buffer is programmed and the device is ready again. -/
namespace Gvsoc.Hyperflash
open Bytes (Byte byteOf)

structure Headers (sa start : Nat) where
  first : Header (2 * 0x555)
  second : Header (2 * 0x2AA)
  buffer : Header (2 * sa)
  count : Header (2 * sa)
  burst : Header start
  confirm : Header (2 * sa)

def writeBuffer {sa start : Nat} (headers : Headers sa start) (n : Nat) (bytes : List Byte) : List Action :=
  transaction headers.first (cmdBytes 0xAA) ++ (transaction headers.second (cmdBytes 0x55) ++
    (transaction headers.buffer (cmdBytes 0x25) ++ (transaction headers.count (cmdBytes (BitVec.ofNat 16 (n - 1))) ++
      (transaction headers.burst bytes ++ transaction headers.confirm (cmdBytes 0x29)))))

/- A flash that waits for a first command, and a task for it: the sector and the target range are in the array, as are the
two words of the unlock sequence. -/
structure Task (s : Flash) (sa start n : Nat) (bytes : List Byte) : Prop where
  state : s.state = .waitCmd0
  burstWrite : s.burstWrite = false
  nbWord : s.nbWord = -1
  pendingBytes : s.pendingBytes = 0
  large : 0xAAC ≤ s.size.toInt
  sector : (2 * sa + 1 : Int) < s.size.toInt
  positive : 1 ≤ n
  few : n ≤ 256
  words : bytes.length = 2 * n
  inside : (start + 2 * n : Int) ≤ s.size.toInt

structure Programmed (s : Flash) (start : Nat) (bytes : List Byte) (last : Flash) : Prop where
  data : last.data = anded s.data start bytes
  state : last.state = .waitCmd0
  burstWrite : last.burstWrite = false
  nbWord : last.nbWord = -1
  pendingBytes : last.pendingBytes = 0

/- The first byte of the burst that looks like a confirm is the low one of its word, and the flash has no other bits there. -/
def Confirms (s : Flash) (sa start : Nat) (bytes : List Byte) : Prop :=
  ∃ before after, bytes = before ++ 0x29 :: after ∧ Plain sa start before ∧ (start + before.length) / 2 = sa ∧
    before.length % 2 = 0 ∧ s.data (start + before.length : Nat) &&& 0x29 = s.data (start + before.length : Nat)

section Parts

variable {s t : Flash} {sa start n : Nat} {bytes : List Byte}

theorem prepared (task : Task s sa start n bytes) (headers : Headers sa start) (rest : List Action) :
    ∃ t, play s (transaction headers.first (cmdBytes 0xAA) ++ (transaction headers.second (cmdBytes 0x55) ++
        (transaction headers.buffer (cmdBytes 0x25) ++ (transaction headers.count (cmdBytes (BitVec.ofNat 16 (n - 1))) ++ rest)))) =
        play t rest ∧
      ((Accepted sa n ∧ Announced s t sa .programStart) ∨
        (¬ Accepted sa n ∧ t.burstWrite = true ∧ t.state ≠ .program ∧ t.state ≠ .programStart)) := by
  obtain ⟨t1, first, stage1⟩ := firstSent task.state task.pendingBytes task.large headers.first
  obtain ⟨t2, second, stage2⟩ := secondSent stage1.state stage1.pendingBytes (by rw [stage1.size]; exact task.large) headers.second
  have size2 : t2.size = s.size := stage2.size.trans stage1.size
  obtain ⟨t3, buffer, stage3⟩ := bufferSent stage2.state stage2.pendingBytes (by rw [size2]; exact task.sector) headers.buffer
  have size3 : t3.size = s.size := stage3.size.trans size2
  obtain ⟨t4, count, cases4⟩ := countSent stage3.state stage3.pendingBytes stage3.burst stage3.sector (by rw [size3]; exact task.sector)
    task.positive task.few headers.count
  refine ⟨t4, ?_, ?_⟩
  · rw [playAppend, first, Option.bind_some, playAppend, second, Option.bind_some, playAppend, buffer, Option.bind_some, playAppend,
      count, Option.bind_some]
  · rcases cases4 with ⟨accepted, announced⟩ | refused
    · refine .inl ⟨accepted, ⟨announced.size.trans size3, ?_, announced.state, announced.pendingBytes, announced.pendingCmd⟩,
        announced.burst, announced.sector⟩
      rw [announced.data, stage3.data, stage2.data, stage1.data]
    · exact .inr refused

theorem notDone {header : Header (2 * sa)} {data : List Byte} {last : Flash} (burst : t.burstWrite = true)
    (played : play t (transaction header data) = some last) : ¬ Programmed s start bytes last := by
  intro done
  rcases burstStays burst played with program | stays
  · rw [done.state] at program
    contradiction
  · rw [done.burstWrite] at stays
    contradiction

theorem refusedBurst {header : Header start} {last : Flash} (burst : t.burstWrite = true) (other : t.state ≠ .program)
    (waiting : t.state ≠ .programStart) (played : play t (transaction header bytes) = some last) : last.burstWrite = true := by
  have selected : t.csSync false = { t with hyperState := .ca, caCount := 6 } := by
    simp only [Flash.csSync, Bool.false_eq_true, if_false]
  refine (actKept (P := Busy) (fun _ _ _ => byteBusy) (fun _ same => same) ?_ played).1
  rw [selected]
  exact ⟨burst, other⟩

theorem startBurst (announced : Announced s t sa .programStart) (header : Header start) :
    Bursting (t.opened header) start ∧ (t.opened header).size = s.size ∧ (t.opened header).data = s.data ∧
      (t.opened header).burstWrite = true ∧ (t.opened header).sector = BitVec.ofNat 32 sa ∧ (t.opened header).pendingBytes = 0 ∧
      (t.opened header).pendingCmd = 0 := by
  have selected : t.csSync false = { t with hyperState := .ca, caCount := 6, state := .program } := by
    simp only [Flash.csSync, Bool.false_eq_true, if_false, announced.state]
  unfold Flash.opened
  rw [selected]
  exact ⟨⟨rfl, header.writes, rfl, rfl⟩, announced.size, announced.data, announced.burst, announced.sector, announced.pendingBytes,
    announced.pendingCmd⟩

theorem plainSent (task : Task s sa start n bytes) (announced : Announced s t sa .programStart) (header : Header start)
    (plain : Plain sa start bytes) : ∃ u, play t (transaction header bytes) = some u ∧ u.burstWrite = true := by
  obtain ⟨bursting, size, data, burst, sector, pending, -⟩ := startBurst announced header
  obtain ⟨nbWord, played⟩ := plainBurst bytes bursting (by rw [size, task.words]; exact_mod_cast task.inside) (by rw [size]; exact task.sector)
    burst sector (show 0 < 2 by omega) pending plain
  rw [transactionPlayed, played]
  exact ⟨_, rfl, burst⟩

theorem confirmSent {before after : List Byte} (task : Task s sa start n (before ++ 0x29 :: after))
    (announced : Announced s t sa .programStart) (header : Header start) (plain : Plain sa start before)
    (here : (start + before.length) / 2 = sa) :
    ∃ u, play t (transaction header (before ++ 0x29 :: after)) = some u ∧ u.size = s.size ∧
      u.data = anded (anded s.data start before) (start + before.length + 1) after ∧ u.state = .program ∧ u.burstWrite = false ∧
      u.nbWord = -1 ∧ u.pendingBytes = BitVec.ofNat 32 (before.length % 2) ∧ u.pendingCmd = 0 := by
  obtain ⟨bursting, size, data, burst, sector, pending, cmd⟩ := startBurst announced header
  have words := task.words
  have inside := task.inside
  have below := task.sector
  rw [List.length_append, List.length_cons] at words
  obtain ⟨nbWord, played⟩ := plainBurst before bursting (by rw [size]; omega) (by rw [size]; exact below) burst sector
    (show 0 < 2 by omega) pending plain
  rw [Nat.zero_add] at played
  have whole := transactionPlayed t header (before ++ 0x29 :: after)
  generalize t.opened header = o at *
  have confirmed := confirmAct (s := { o with
      data := anded o.data start before
      pendingBytes := BitVec.ofNat 32 (before.length % 2)
      nbWord := nbWord
      currentAddress := BitVec.ofNat 32 (start + before.length) })
    ⟨bursting.phase, bursting.writes, bursting.program, rfl⟩ (by push_cast; rw [size]; omega) (by rw [size]; exact below) burst sector here
  have later := wordBurst (s := { o with
      data := anded o.data start before
      pendingBytes := BitVec.ofNat 32 (before.length % 2)
      burstWrite := false
      nbWord := -1
      currentAddress := BitVec.ofNat 32 (start + before.length + 1) })
    after ⟨bursting.phase, bursting.writes, bursting.program, rfl⟩ (by push_cast; rw [size]; omega) rfl
  rw [List.map_append, List.map_cons, playAppend, played, Option.bind_some, playCons, confirmed, Option.bind_some, later] at whole
  rw [whole]
  exact ⟨_, rfl, size, by rw [← data]; rfl, bursting.program, rfl, rfl, rfl, cmd⟩

theorem ignoredCommand {place : BitVec 32} {word : Word} (state : t.state = .waitCmd0) (unlock : word.cmd ≠ 0xAA)
    (status : word.cmd ≠ 0x70) : t.command place word = some t := by
  simp only [Flash.command, state, if_neg (fun same => unlock (And.right same)), if_neg (fun same => status (And.right same))]

theorem halfPlayed (receiving : Receiving t (2 * sa)) (state : t.state = .waitCmd0) (inside : (2 * sa + 1 : Int) < t.size.toInt)
    (pending : t.pendingBytes = 1) (cmd : t.pendingCmd = 0) :
    ∃ last, play t ((cmdBytes 0x29).map .byte) = some last ∧ last.pendingBytes = 1 := by
  have first := addressInside (s := t) (a := 2 * sa) (by push_cast; omega)
  have second := addressInside (s := t) (a := 2 * sa + 1) (by push_cast; omega)
  have place : BitVec.ofNat 32 (2 * sa) + 1 = BitVec.ofNat 32 (2 * sa + 1) := by
    rw [BitVec.ofNat_add]
    rfl
  obtain ⟨phase, writes, program, address⟩ := receiving
  obtain ⟨size, data, state', hyperState, pendingBytes, pendingCmd, ca, caCount, currentAddress, regAccess, burstWrite, nbWord, sector⟩ := t
  dsimp only [Flash.read] at phase writes address pending first second state cmd
  subst hyperState currentAddress state' pendingBytes pendingCmd
  simp only [cmdBytes, List.map_cons, List.map_nil, playCons, playNil, Flash.act, Flash.syncCycle, Flash.handleAccess, Flash.read,
    first, writes, Bool.false_eq_true, if_false, reduceCtorEq, show (1 : BitVec 32) ≠ 0 by decide]
  rw [ignoredCommand (by rfl) (by simp only [Flash.wordOf]; decide) (by simp only [Flash.wordOf]; decide)]
  simp only [place, second, writes, Option.map_some, Option.bind_some, Bool.false_eq_true, if_false, reduceCtorEq, if_true]
  refine ⟨_, rfl, ?_⟩
  rfl

/- The word that should confirm comes when the device waits for a first command. -/
theorem lateConfirm (program : t.state = .program) (nbWord : t.nbWord = -1) (cmd : t.pendingCmd = 0)
    (inside : (2 * sa + 1 : Int) < t.size.toInt) (header : Header (2 * sa)) :
    (t.pendingBytes = 0 → ∃ last, play t (transaction header (cmdBytes 0x29)) = some last ∧ last.data = t.data ∧
      last.state = .waitCmd0 ∧ last.burstWrite = t.burstWrite ∧ last.nbWord = -1 ∧ last.pendingBytes = 0) ∧
    (t.pendingBytes = 1 → ∃ last, play t (transaction header (cmdBytes 0x29)) = some last ∧ last.pendingBytes = 1) := by
  have selected : t.csSync false = { t with hyperState := .ca, caCount := 6, state := .waitCmd0 } := by
    simp only [Flash.csSync, Bool.false_eq_true, if_false, program, nbWord]
    rfl
  have opened : t.opened header = { t with
      hyperState := .data
      ca := header.ca
      caCount := 0
      currentAddress := BitVec.ofNat 32 (2 * sa)
      regAccess := header.ca.getLsbD 46
      state := .waitCmd0 } := by
    unfold Flash.opened
    rw [selected]
  have receiving : Receiving (t.opened header) (2 * sa) := by
    rw [opened]
    exact ⟨rfl, header.writes, by simp, rfl⟩
  constructor
  · intro pending
    have played := wordPlayed 0x29 receiving (by rw [opened]; exact inside) (by rw [opened]; exact pending)
    rw [transactionPlayed, played, opened, ignoredCommand (by rfl) (by simp) (by simp)]
    refine ⟨_, rfl, ?_⟩
    exact ⟨rfl, rfl, rfl, nbWord, rfl⟩
  · intro pending
    obtain ⟨last, played, left⟩ := halfPlayed receiving (by rw [opened]) (by rw [opened]; exact inside) (by rw [opened]; exact pending)
      (by rw [opened]; exact cmd)
    rw [transactionPlayed, played]
    refine ⟨_, rfl, ?_⟩
    exact left

end Parts

section Whole

variable {s : Flash} {sa start n : Nat} {bytes : List Byte}

theorem bufferProgrammed (task : Task s sa start n bytes) (headers : Headers sa start) :
    (∃ last, play s (writeBuffer headers n bytes) = some last ∧ Programmed s start bytes last) ↔
      Accepted sa n ∧ Confirms s sa start bytes := by
  obtain ⟨t, played, prepared⟩ := prepared task headers (transaction headers.burst bytes ++ transaction headers.confirm (cmdBytes 0x29))
  unfold writeBuffer
  rw [played, playAppend]
  constructor
  · rintro ⟨last, run, done⟩
    obtain ⟨u, sent, confirm⟩ := Option.bind_eq_some_iff.mp run
    rcases prepared with ⟨accepted, announced⟩ | ⟨-, burst, other, waiting⟩
    · refine ⟨accepted, ?_⟩
      rcases plainOrFirst sa start bytes with plain | ⟨before, after, rfl, plain, here⟩
      · obtain ⟨u', sent', burst⟩ := plainSent task announced headers.burst plain
        cases Option.some.inj (sent.symm.trans sent')
        exact absurd done (notDone burst confirm)
      · obtain ⟨u', sent', size, data, program, -, nbWord, pending, cmd⟩ := confirmSent task announced headers.burst plain here
        cases Option.some.inj (sent.symm.trans sent')
        obtain ⟨even, odd⟩ := lateConfirm program nbWord cmd (by rw [size]; exact task.sector) headers.confirm
        obtain low | high : before.length % 2 = 0 ∨ before.length % 2 = 1 := by omega
        · obtain ⟨last', confirm', data', -⟩ := even (by rw [pending, low]; rfl)
          cases Option.some.inj (confirm.symm.trans confirm')
          refine ⟨before, after, rfl, plain, here, low, (andedAround s.data start before after 0x29).mp ?_⟩
          rw [← data, ← data', done.data]
        · obtain ⟨last', confirm', left⟩ := odd (by rw [pending, high]; rfl)
          cases Option.some.inj (confirm.symm.trans confirm')
          rw [done.pendingBytes] at left
          contradiction
    · exact absurd done (notDone (refusedBurst burst other waiting sent) confirm)
  · rintro ⟨accepted, before, after, rfl, plain, here, low, clear⟩
    rcases prepared with ⟨-, announced⟩ | ⟨refused, -⟩
    · obtain ⟨u, sent, size, data, program, burst, nbWord, pending, cmd⟩ := confirmSent task announced headers.burst plain here
      obtain ⟨even, -⟩ := lateConfirm program nbWord cmd (by rw [size]; exact task.sector) headers.confirm
      obtain ⟨last, confirm, data', state', burst', nbWord', pending'⟩ := even (by rw [pending, low]; rfl)
      refine ⟨last, by rw [sent]; exact confirm, ?_, state', burst'.trans burst, nbWord', pending'⟩
      rw [data', data]
      exact (andedAround s.data start before after 0x29).mpr clear
    · exact absurd accepted refused

def plainHeader (address : Nat) : BitVec 48 := BitVec.ofNat 48 (address % 8 + address / 8 * 2 ^ 16)

def someHeaders : Headers 0x1000 0x2000 where
  first := ⟨plainHeader (2 * 0x555), by decide, by decide⟩
  second := ⟨plainHeader (2 * 0x2AA), by decide, by decide⟩
  buffer := ⟨plainHeader (2 * 0x1000), by decide, by decide⟩
  count := ⟨plainHeader (2 * 0x1000), by decide, by decide⟩
  burst := ⟨plainHeader 0x2000, by decide, by decide⟩
  confirm := ⟨plainHeader (2 * 0x1000), by decide, by decide⟩

def erasedFlash : Flash := ⟨0x40000, fun _ => 0xff, .waitCmd0, .ca, 0, 0, 0, 0, 0, false, false, -1, 0⟩

def usedFlash : Flash := { erasedFlash with data := fun i => if i = 0x2000 then 0x21 else 0xff }

theorem bufferProgrammedUsed : ∃ last, play usedFlash (writeBuffer someHeaders 1 [0x29, 0x12]) = some last ∧
    Programmed usedFlash 0x2000 [0x29, 0x12] last := by
  have task : Task usedFlash 0x1000 0x2000 1 [0x29, 0x12] :=
    ⟨rfl, rfl, rfl, rfl, by decide, by decide, by decide, by decide, rfl, by decide⟩
  refine (bufferProgrammed task someHeaders).mpr ⟨⟨by decide, by decide⟩, [], [0x12], rfl, ?_, by decide, rfl, by decide⟩
  intro k found
  simp at found

/- One word to an erased flash is written, and the device still takes the next one for part of a buffer. -/
theorem bufferStays : Task erasedFlash 0x1000 0x2000 1 [0x34, 0x12] ∧
    (play erasedFlash (writeBuffer someHeaders 1 [0x34, 0x12])).map (fun last => (last.data 0x2000, last.state, last.burstWrite)) =
      some (0x34, .waitCmd0, true) ∧
    ¬ ∃ last, play erasedFlash (writeBuffer someHeaders 1 [0x34, 0x12]) = some last ∧
      Programmed erasedFlash 0x2000 [0x34, 0x12] last := by
  have after : (play erasedFlash (writeBuffer someHeaders 1 [0x34, 0x12])).map
      (fun last => (last.data 0x2000, last.state, last.burstWrite)) = some (0x34, .waitCmd0, true) := by decide +kernel
  refine ⟨⟨rfl, rfl, rfl, rfl, by decide, by decide, by decide, by decide, rfl, by decide⟩, after, ?_⟩
  rintro ⟨last, played, done⟩
  rw [played, Option.map_some, done.burstWrite] at after
  simp at after

end Whole

end Gvsoc.Hyperflash
