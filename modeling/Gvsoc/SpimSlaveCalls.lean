import Gvsoc.SpimSlaveBits

/-! A write command on the pins of the slave: the 64 bits of the command, edges of the chip select, and the bits to store. -/
namespace Gvsoc.SpimSlave
open Bytes (Byte)
open ShiftRegister (bit shiftIn msbFirst)

section Calls

variable {s : Slave} {sck : BitVec 32} {lanes : Lanes}

def Call.isSync : Call → Bool
  | .sync _ _ => true
  | .csSync _ => false

def Syncs (calls : List Call) : Prop := ∀ call ∈ calls, call.isSync = true

instance (calls : List Call) : Decidable (Syncs calls) := by
  unfold Syncs
  infer_instance

theorem syncHigh (slave : s.setup.isMaster = false) (sampling : s.setup.Sampling s.prevSck sck) :
    s.sync sck lanes = { s.handleClkHigh lanes with prevSck := sck ^^^ s.setup.polarity } := by
  unfold Slave.sync
  rw [if_neg (by simp [slave])]
  dsimp only
  rw [if_neg sampling.1, if_neg sampling.2]

theorem syncLow (lanes : Lanes) (slave : s.setup.isMaster = false) (quiet : ¬s.setup.Sampling s.prevSck sck) :
    s.sync sck lanes = { s with prevSck := sck ^^^ s.setup.polarity } ∨
      s.sync sck lanes = { s.handleClkLow with prevSck := sck ^^^ s.setup.polarity } := by
  unfold Slave.sync
  rw [if_neg (by simp [slave])]
  dsimp only
  split
  · exact .inl rfl
  · rename_i edge
    by_cases low : (sck ^^^ s.setup.polarity) ^^^ s.setup.phase = 0
    · rw [if_pos low]
      exact .inr rfl
    · exact absurd ⟨edge, low⟩ quiet

theorem syncsRun {setup : Setup} {Q : List Lanes → Slave → Prop} {all : List Lanes} (slave : setup.isMaster = false)
    (same : ∀ seen s, Q seen s → s.setup = setup)
    (level : ∀ seen s prevSck, Q seen s → Q seen { s with prevSck := prevSck })
    (low : ∀ seen s, Q seen s → Q seen s.handleClkLow)
    (high : ∀ seen lanes rest s, seen ++ lanes :: rest = all → Q seen s → Q (seen ++ [lanes]) (s.handleClkHigh lanes))
    {calls : List Call} (seen : List Lanes) (syncs : Syncs calls) (now : Q seen s)
    (sampled : seen ++ samples setup s.prevSck calls = all) :
    Q all (s.calls calls) ∧ (s.calls calls).prevSck = lastSck setup s.prevSck calls := by
  induction calls generalizing s seen with
  | nil =>
      rw [samples, List.append_nil] at sampled
      exact ⟨sampled ▸ now, rfl⟩
  | cons call rest ih =>
      obtain ⟨sck, lanes, rfl⟩ : ∃ sck lanes, call = .sync sck lanes := by
        have first := syncs call List.mem_cons_self
        cases call with
        | sync sck lanes => exact ⟨sck, lanes, rfl⟩
        | csSync => contradiction
      have later : Syncs rest := fun call inside => syncs call (List.mem_cons_of_mem _ inside)
      obtain rfl := same seen s now
      have edge : ∃ seen' s', s.sync sck lanes = { s' with prevSck := sck ^^^ s.setup.polarity } ∧ Q seen' s' ∧
          seen' ++ samples s.setup (sck ^^^ s.setup.polarity) rest = all := by
        unfold samples at sampled
        by_cases sampling : s.setup.Sampling s.prevSck sck
        · simp only [sampling, if_true] at sampled
          exact ⟨seen ++ [lanes], _, syncHigh slave sampling, high seen lanes _ s sampled now, by simpa using sampled⟩
        · simp only [sampling, if_false] at sampled
          rcases syncLow lanes slave sampling with idle | quiet
          · exact ⟨seen, s, idle, now, sampled⟩
          · exact ⟨seen, _, quiet, low seen s now, sampled⟩
      obtain ⟨seen', s', taken, after, remains⟩ := edge
      have run := ih (s := s.sync sck lanes) seen' later (taken ▸ level seen' s' _ after) (by rw [taken]; exact remains)
      have clock : (s.sync sck lanes).prevSck = sck ^^^ s.setup.polarity := by rw [taken]
      rw [clock] at run
      exact run

end Calls

section Phases

variable {setup : Setup} {cmd : BitVec 64} {quad : Bool} {before : Nat → Byte} {s : Slave}

def received (quad : Bool) (all : List Lanes) : List Bool := all.flatMap (Lanes.bits quad)

theorem receivedLength (quad : Bool) (all : List Lanes) : (received quad all).length = width quad * all.length := by
  induction all with
  | nil => rfl
  | cons lanes rest ih =>
      unfold received at ih ⊢
      rw [List.flatMap_cons, List.length_append, bitsLength, ih, List.length_cons]
      ring

theorem receivedSnoc (quad : Bool) (seen : List Lanes) (lanes : Lanes) :
    received quad (seen ++ [lanes]) = received quad seen ++ lanes.bits quad := by simp [received]

theorem bitCountShort (cmd : BitVec 64) : bitCount cmd < 2 ^ 24 := by
  unfold bitCount infoField fieldGet
  have mask : (1#64 <<< 24 - 1).toNat = 2 ^ 24 - 1 := by decide
  rw [BitVec.toNat_setWidth, BitVec.toNat_and, mask, Nat.and_two_pow_sub_one_eq_mod]
  exact lt_of_le_of_lt (Nat.mod_le _ _) (Nat.mod_lt _ (by decide))

theorem progressSetup {got : List Bool} (progress : Progress setup cmd quad before got s) : s.setup = setup := by
  unfold Progress at progress
  split at progress
  · exact progress.same
  · exact progress.1.same

theorem dataRun {calls : List Call} {all : List Lanes} (slave : setup.isMaster = false) (inside : address cmd < setup.memSize)
    (short : width quad * (all.length - 1) < bitCount cmd) (clean : ∀ lanes ∈ all, lanes.Clean quad) (syncs : Syncs calls)
    (started : Progress setup cmd quad before [] s) (sampled : samples setup s.prevSck calls = all) :
    Progress setup cmd quad before (received quad all) (s.calls calls) := by
  have few := bitCountShort cmd
  refine (syncsRun (Q := fun seen => Progress setup cmd quad before (received quad seen)) slave (fun _ _ => progressSetup)
    (fun _ _ prevSck progress => progressSck progress prevSck) (fun _ _ => progressLow) (fun seen lanes rest s shape progress => ?_)
    [] syncs started (by rw [List.nil_append, sampled])).1
  have place : seen.length ≤ all.length - 1 := by
    rw [← shape, List.length_append, List.length_cons]
    omega
  have before := Nat.mul_le_mul_left (width quad) place
  have member : lanes ∈ all := by
    rw [← shape]
    simp
  rw [receivedSnoc]
  refine progressHigh progress ?_ (clean lanes member) ?_ inside ?_
  · rw [receivedLength]
    omega
  · rw [receivedLength, Nat.mul_mod_right]
  · rw [receivedLength]
    omega

def fullDuplex (cmd : BitVec 64) : Bool := (cmdField cmd).toNat = 3

def quadCommand (cmd : BitVec 64) : Bool := (cmdField cmd).toNat = 4

def Writes (cmd : BitVec 64) : Prop := (cmdField cmd).toNat = 1 ∨ (cmdField cmd).toNat = 3 ∨ (cmdField cmd).toNat = 4

instance (cmd : BitVec 64) : Decidable (Writes cmd) := by
  unfold Writes
  infer_instance

structure Waiting (s : Slave) : Prop where
  slave : s.setup.isMaster = false
  state : s.state = .getCmd
  count : s.cmdCount = 0
  waitCs : s.waitCs = false

def takeBits (word : BitVec 64) (seen : List Lanes) : BitVec 64 :=
  seen.foldl (fun (word : BitVec 64) lanes => word <<< 1 ||| lanes.sdio0.signExtend 64) word

structure Commanding (start : Slave) (seen : List Lanes) (s : Slave) : Prop where
  same : s.setup = start.setup
  state : s.state = .getCmd
  count : s.cmdCount = seen.length
  waitCs : s.waitCs = false
  quad : s.isQuad = start.isQuad
  currentCs : s.currentCs = start.currentCs
  data : s.data = start.data
  register : s.currentCmd = takeBits start.currentCmd seen

/- A command that was taken; the bits of a full duplex command come behind an edge of the chip select. -/
structure Started (start : Slave) (cmd : BitVec 64) (s : Slave) : Prop where
  collecting : Collecting start.setup cmd (if fullDuplex cmd then start.isQuad else quadCommand cmd) start.data [] s
  duplex : fullDuplex cmd = true → s.state = .fullDuplexCmd
  waitCs : fullDuplex cmd = false → s.waitCs = false
  currentCs : s.currentCs = start.currentCs

theorem handleCommandStarted {start : Slave} (writes : Writes cmd) (setup : s.setup = start.setup) (count : s.cmdCount = 0)
    (waitCs : s.waitCs = false) (quad : s.isQuad = start.isQuad) (currentCs : s.currentCs = start.currentCs)
    (data : s.data = start.data) : Started start cmd (s.handleCommand cmd) := by
  have empty : Filled start.setup.memSize (address cmd) start.data [] s.data := by
    intro j k _
    rw [data, if_neg (by simp; omega)]
  rcases writes with write | duplex | quadWrite
  · have taken : s.handleCommand cmd = s.handleWrite cmd false := by
      unfold Slave.handleCommand
      rw [write]
      rfl
    have single : fullDuplex cmd = false ∧ quadCommand cmd = false := by simp [fullDuplex, quadCommand, write]
    rw [taken]
    refine ⟨⟨setup, .inl rfl, ?_, count, rfl, (BitVec.add_zero _).symm, (BitVec.sub_zero _).symm, rfl, ⟨_, rfl⟩, empty⟩, ?_, fun _ => waitCs,
      currentCs⟩
    · simp [single, Slave.handleWrite]
    · simp [single]
  · have taken : s.handleCommand cmd = s.handleFullDuplex cmd := by
      unfold Slave.handleCommand
      rw [duplex]
      rfl
    have both : fullDuplex cmd = true := by simp [fullDuplex, duplex]
    rw [taken]
    refine ⟨⟨setup, .inr rfl, ?_, count, rfl, (BitVec.add_zero _).symm, (BitVec.sub_zero _).symm, rfl, ⟨_, rfl⟩, empty⟩, fun _ => rfl, ?_,
      currentCs⟩
    · rw [both]
      exact quad
    · simp [both]
  · have taken : s.handleCommand cmd = s.handleWrite cmd true := by
      unfold Slave.handleCommand
      rw [quadWrite]
      rfl
    have four : fullDuplex cmd = false ∧ quadCommand cmd = true := by simp [fullDuplex, quadCommand, quadWrite]
    rw [taken]
    refine ⟨⟨setup, .inl rfl, ?_, count, rfl, (BitVec.add_zero _).symm, (BitVec.sub_zero _).symm, rfl, ⟨_, rfl⟩, empty⟩, ?_, fun _ => waitCs,
      currentCs⟩
    · simp [four, Slave.handleWrite]
    · simp [four]

theorem startedDriving {start s' : Slave} (started : Started start cmd s) (driving : Driving s s') : Started start cmd s' := by
  obtain ⟨collecting, -⟩ := collectingDriving started.collecting driving
  obtain ⟨_, _, rfl⟩ := driving
  exact ⟨collecting, started.duplex, started.waitCs, started.currentCs⟩

theorem takeBitsShiftIn (word : BitVec 64) {seen : List Lanes} {bits : List Bool}
    (carried : seen.map Lanes.sdio0 = bits.map (bit 32)) : takeBits word seen = shiftIn word bits := by
  induction seen generalizing word bits with
  | nil =>
      cases bits with
      | nil => rfl
      | cons => contradiction
  | cons lanes rest ih =>
      cases bits with
      | nil => contradiction
      | cons b bits =>
          obtain ⟨first, others⟩ := List.cons_eq_cons.mp carried
          have wide : (bit 32 b).signExtend 64 = bit 64 b := by cases b <;> decide
          have later := ih (word <<< 1 ||| (lanes.sdio0).signExtend 64) others
          rw [first, wide] at later
          rw [ShiftRegister.shiftInCons, ← later, takeBits, List.foldl_cons, first, wide]
          rfl

def Commanded (start : Slave) (cmd : BitVec 64) (seen : List Lanes) (s : Slave) : Prop :=
  if seen.length = 64 then Started start cmd s else Commanding start seen s

theorem commandedSame {start : Slave} {seen : List Lanes} (now : Commanded start cmd seen s) : s.setup = start.setup := by
  unfold Commanded at now
  split at now
  · exact now.collecting.same
  · exact now.same

theorem commandedSck {start : Slave} {seen : List Lanes} (now : Commanded start cmd seen s) (prevSck : BitVec 32) :
    Commanded start cmd seen { s with prevSck := prevSck } := by
  unfold Commanded at now ⊢
  split
  · rename_i all
    rw [if_pos all] at now
    exact ⟨collectingPins now.collecting, now.duplex, now.waitCs, now.currentCs⟩
  · rename_i part
    rw [if_neg part] at now
    obtain ⟨same, state, count, waitCs, quad, currentCs, data, register⟩ := now
    exact ⟨same, state, count, waitCs, quad, currentCs, data, register⟩

theorem commandedLow {start : Slave} {seen : List Lanes} (now : Commanded start cmd seen s) :
    Commanded start cmd seen s.handleClkLow := by
  unfold Commanded at now ⊢
  split
  · rename_i all
    rw [if_pos all] at now
    exact startedDriving now (lowDriving now.collecting.state)
  · rename_i part
    rw [if_neg part] at now
    unfold Slave.handleClkLow
    rw [if_neg (by simp [now.waitCs]), now.state]
    exact now

theorem commandedHigh {start : Slave} {seen : List Lanes} {lanes : Lanes} (writes : Writes cmd) (few : seen.length < 64)
    (last : seen.length + 1 = 64 → takeBits start.currentCmd (seen ++ [lanes]) = cmd) (now : Commanded start cmd seen s) :
    Commanded start cmd (seen ++ [lanes]) (s.handleClkHigh lanes) := by
  unfold Commanded at now ⊢
  rw [if_neg (by omega)] at now
  obtain ⟨same, state, count, waitCs, quad, currentCs, data, register⟩ := now
  have taken : s.handleClkHigh lanes = s.getBit lanes.sdio0 := by
    unfold Slave.handleClkHigh
    rw [if_neg (by simp [waitCs]), state]
  have next : s.currentCmd <<< 1 ||| lanes.sdio0.signExtend 64 = takeBits start.currentCmd (seen ++ [lanes]) := by
    rw [register]
    simp [takeBits]
  rw [taken, List.length_append, List.length_singleton]
  unfold Slave.getBit
  dsimp only
  rw [next, count]
  by_cases complete : seen.length + 1 = 64
  · rw [if_pos complete, if_pos complete, last complete]
    exact handleCommandStarted writes same rfl waitCs quad currentCs data
  · rw [if_neg complete, if_neg complete]
    exact ⟨same, state, by simp, waitCs, quad, currentCs, data, rfl⟩

theorem commandRun {start : Slave} {calls : List Call} (waiting : Waiting start) (writes : Writes cmd) (syncs : Syncs calls)
    (sent : (samples start.setup start.prevSck calls).map Lanes.sdio0 = (msbFirst cmd).map (bit 32)) :
    Started start cmd (start.calls calls) ∧ (start.calls calls).prevSck = lastSck start.setup start.prevSck calls := by
  obtain ⟨slave, state, count, waitCs⟩ := waiting
  have length : (samples start.setup start.prevSck calls).length = 64 := by simpa using congrArg List.length sent
  have whole : takeBits start.currentCmd (samples start.setup start.prevSck calls) = cmd := by
    rw [takeBitsShiftIn _ sent]
    simpa using ShiftRegister.shiftInWhole start.currentCmd cmd le_rfl
  have begin : Commanded start cmd [] start := ⟨rfl, state, count, waitCs, rfl, rfl, rfl, rfl⟩
  have run := syncsRun (Q := Commanded start cmd) slave (fun _ _ => commandedSame)
    (fun _ _ prevSck now => commandedSck now prevSck) (fun _ _ => commandedLow) (fun seen lanes rest s shape now => ?_) [] syncs begin rfl
  · unfold Commanded at run
    rwa [List.nil_append, if_pos length] at run
  · rw [List.nil_append] at shape
    have place : seen.length + (rest.length + 1) = 64 := by
      rw [← length, ← shape, List.length_append, List.length_cons]
    refine commandedHigh writes (by omega) (fun complete => ?_) now
    have none : rest = [] := List.eq_nil_of_length_eq_zero (by omega)
    rw [← whole, ← shape, none]

def raises : BitVec 32 → List Call → Bool
  | _, [] => false
  | currentCs, .sync _ _ :: rest => raises currentCs rest
  | currentCs, .csSync cs :: rest => (currentCs ≠ cs && cs = 1) || raises cs rest

structure Pausing (setup : Setup) (cmd : BitVec 64) (quad : Bool) (before : Nat → Byte) (state : Mode) (s : Slave) : Prop where
  collecting : Collecting setup cmd quad before [] s
  state : s.state = state

theorem pausingDriving {state : Mode} {s' : Slave} (pausing : Pausing setup cmd quad before state s) (driving : Driving s s') :
    Pausing setup cmd quad before state s' := by
  obtain ⟨collecting, -⟩ := collectingDriving pausing.collecting driving
  obtain ⟨_, _, rfl⟩ := driving
  exact ⟨collecting, pausing.state⟩

theorem csSyncPausing {state : Mode} (slave : setup.isMaster = false) (pausing : Pausing setup cmd quad before state s)
    (cs : BitVec 32) : Pausing setup cmd quad before state (s.csSync cs) ∧ (s.csSync cs).prevSck = s.prevSck ∧
      (s.csSync cs).currentCs = cs ∧ (s.csSync cs).waitCs = (s.waitCs && !(decide (s.currentCs ≠ cs) && decide (cs = 1))) := by
  have master : s.setup.isMaster = false := by rw [pausing.collecting.same, slave]
  unfold Slave.csSync
  by_cases still : s.currentCs = cs
  · rw [if_pos (.inr still)]
    exact ⟨pausing, rfl, still, by simp [still]⟩
  · rw [if_neg (by simp [master, still])]
    dsimp only
    by_cases up : cs = 1
    · subst up
      obtain ⟨⟨same, writing, mode, count, base, addr, size, bits, register, memory⟩, command⟩ := pausing
      have home : s.commandAddr = addrField cmd + BitVec.ofNat 32 0 := base.trans (BitVec.add_zero _).symm
      have edge : decide (s.currentCs ≠ 1) = true := decide_eq_true still
      rw [if_neg (by simp), if_pos rfl, edge]
      exact ⟨⟨⟨same, writing, mode, count, base, home, size, bits, register, memory⟩, command⟩, rfl, rfl, by simp⟩
    · have level : decide (cs = 1) = false := decide_eq_false up
      rw [if_neg up, level, Bool.and_false, Bool.not_false, Bool.and_true]
      have kept : Pausing setup cmd quad before state { s with currentCs := cs } := ⟨collectingPins pausing.collecting, pausing.state⟩
      split
      · have driving : Driving { s with currentCs := cs } (Slave.execRead { s with currentCs := cs }) := by
          refine execReadDriving ?_
          rcases pausing.collecting.state with write | duplex
          · simp [write]
          · simp [duplex]
        have after := pausingDriving kept driving
        obtain ⟨_, _, read⟩ := driving
        rw [read] at after ⊢
        exact ⟨after, rfl, rfl, rfl⟩
      · exact ⟨kept, rfl, rfl, rfl⟩

theorem pausingRun {state : Mode} {calls : List Call} (slave : setup.isMaster = false)
    (pausing : Pausing setup cmd quad before state s) (quiet : samples setup s.prevSck calls = []) :
    Pausing setup cmd quad before state (s.calls calls) ∧ (s.calls calls).prevSck = lastSck setup s.prevSck calls ∧
      (s.waitCs = false ∨ raises s.currentCs calls = true → (s.calls calls).waitCs = false) := by
  induction calls generalizing s with
  | nil => exact ⟨pausing, rfl, fun open' => open'.resolve_right (by simp [raises])⟩
  | cons call rest ih =>
      cases call with
      | sync sck lanes =>
          obtain rfl := pausing.collecting.same
          have none : ¬s.setup.Sampling s.prevSck sck := by
            intro sampling
            simp [samples, sampling] at quiet
          rw [samples, if_neg none] at quiet
          have edge : ∃ s', s.sync sck lanes = { s' with prevSck := sck ^^^ s.setup.polarity } ∧
              Pausing s.setup cmd quad before state s' ∧ s'.waitCs = s.waitCs ∧ s'.currentCs = s.currentCs := by
            rcases syncLow lanes slave none with idle | low
            · exact ⟨s, idle, pausing, rfl, rfl⟩
            · have driving := lowDriving pausing.collecting.state
              refine ⟨_, low, pausingDriving pausing driving, ?_⟩
              obtain ⟨_, _, read⟩ := driving
              rw [read]
              exact ⟨rfl, rfl⟩
          obtain ⟨s', taken, still, wait, now⟩ := edge
          have after : Pausing s.setup cmd quad before state (s.sync sck lanes) := by
            rw [taken]
            exact ⟨collectingPins still.collecting, still.state⟩
          have fields : (s.sync sck lanes).prevSck = sck ^^^ s.setup.polarity ∧ (s.sync sck lanes).waitCs = s.waitCs ∧
              (s.sync sck lanes).currentCs = s.currentCs := by
            rw [taken]
            exact ⟨rfl, wait, now⟩
          have run := ih after (by rw [fields.1]; exact quiet)
          rw [fields.1, fields.2.1, fields.2.2] at run
          exact run
      | csSync cs =>
          obtain ⟨after, level, now, wait⟩ := csSyncPausing slave pausing cs
          have run := ih after (by rw [level]; exact quiet)
          rw [level, now] at run
          refine ⟨run.1, run.2.1, fun opened => run.2.2 ?_⟩
          rw [wait]
          rcases opened with already | later
          · exact .inl (by simp [already])
          · rcases Bool.or_eq_true_iff.mp later with up | later
            · exact .inl (by rw [up]; simp)
            · exact .inr later

structure Busy (setup : Setup) (quad : Bool) (s : Slave) : Prop where
  same : s.setup = setup
  quad : s.isQuad = quad
  state : s.state = .fullDuplexCmd ∨ s.state = .getCmd ∧ s.waitCs = true

theorem busyLow (busy : Busy setup quad s) : Busy setup quad s.handleClkLow := by
  obtain ⟨same, mode, duplex | ⟨idle, waitCs⟩⟩ := busy
  · obtain ⟨_, _, read⟩ := lowDriving (s := s) (.inr duplex)
    rw [read]
    exact ⟨same, mode, .inl duplex⟩
  · unfold Slave.handleClkLow
    rw [if_pos waitCs]
    exact ⟨same, mode, .inr ⟨idle, waitCs⟩⟩

theorem busyHigh {lanes : Lanes} (busy : Busy setup quad s) : Busy setup quad (s.handleClkHigh lanes) := by
  obtain ⟨same, mode, duplex | ⟨idle, waitCs⟩⟩ := busy
  · unfold Slave.handleClkHigh
    split
    · exact ⟨same, mode, .inl duplex⟩
    · rw [duplex]
      have stored : (s.collect lanes).storeByte.setup = s.setup ∧ (s.collect lanes).storeByte.isQuad = s.isQuad ∧
          (s.collect lanes).storeByte.state = s.state := by
        have collected : (s.collect lanes).setup = s.setup ∧ (s.collect lanes).isQuad = s.isQuad ∧
            (s.collect lanes).state = s.state := by
          unfold Slave.collect
          split <;> exact ⟨rfl, rfl, rfl⟩
        by_cases full : (s.collect lanes).nbWriteBits = 8
        · obtain ⟨_, stored⟩ := storeByteFull full
          rw [stored]
          exact collected
        · rw [storeBytePart full]
          exact collected
      change Busy setup quad (s.execWrite lanes)
      unfold Slave.execWrite
      dsimp only
      split
      · obtain ⟨setup, state, waitCs, isQuad, -, -⟩ := finishKept (s.collect lanes).storeByte
        exact ⟨setup.trans (stored.1.trans same), isQuad.trans (stored.2.1.trans mode), .inr ⟨state, waitCs⟩⟩
      · exact ⟨stored.1.trans same, stored.2.1.trans mode, .inl (stored.2.2.trans duplex)⟩
  · unfold Slave.handleClkHigh
    rw [if_pos waitCs]
    exact ⟨same, mode, .inr ⟨idle, waitCs⟩⟩

theorem busyRun {calls : List Call} (slave : setup.isMaster = false) (busy : Busy setup quad s) (syncs : Syncs calls) :
    Busy setup quad (s.calls calls) :=
  (syncsRun (Q := fun _ => Busy setup quad) slave (fun _ _ busy => busy.same)
    (fun _ _ _ busy => ⟨busy.same, busy.quad, busy.state⟩) (fun _ _ => busyLow) (fun _ _ _ _ _ => busyHigh) [] syncs busy rfl).1

end Phases

end Gvsoc.SpimSlave
