import Gvsoc.UartChecker
import Gvsoc.NinaUartFraming
import Mathlib.Tactic.IntervalCases

/-! What the checker writes is what the module was given to send. Between the start bit and the stop bit the two events come in turn: a
bit is driven, and it is sampled before the next one is. -/
namespace Gvsoc.UartChecker
open Bytes (Byte)
open NinaUart (Tx Transmitting)
open ShiftRegister (shiftDown shiftDownNext shiftDownWhole)
open Machine (Run runInvariant reach)

section Turns

variable {cycles : Cycles} {s : Link} {delay : Nat}

structure Between (s : Link) : Prop where
  waiting : s.checker.txWaitStart = true ∧ s.checker.txWaitStop = false ∧ s.checker.samplingTx = false ∧ s.checker.event = none
  high : s.tx.txBit = true
  state : s.tx.txState ≠ .data ∧ s.tx.txState ≠ .parity
  sent : s.tx.sent = s.checker.logged ++ s.tx.txPendingBytes

structure Sending (cycles : Cycles) (s : Link) (b : Byte) (start delay driven sampled : Nat) : Prop where
  tolerated : Tolerates cycles delay
  turn : sampled ≤ driven ∧ driven ≤ sampled + 1 ∧ sampled ≤ 8
  drive : s.tx.txSamplingEvent ≠ none ∧ s.txDue = start + 2 * cycles.tx * (driven + 1)
  sample : s.checker.event ≠ none ∧ s.checkerDue = start + delay + 2 * sampled * cycles.checker
  data : driven ≤ 8 → s.tx.txState = .data ∧ s.tx.txPendingBits = 8 - driven ∧ s.tx.txCurrentPendingByte = b >>> driven
  stop : driven = 9 → s.tx.txState = .stop
  level : s.tx.txBit = (if driven = 0 then false else if driven ≤ 8 then b.getLsbD (driven - 1) else true)
  seen : s.checker.currentTx = s.tx.txBit
  started : s.checker.txWaitStart = false ∧ s.checker.samplingTx = true ∧ s.checker.txWaitStop = decide (sampled = 8)
  count : s.checker.nbBits = sampled
  bits : ∀ i < sampled, s.checker.byte.getLsbD (8 - sampled + i) = b.getLsbD i
  sent : s.tx.sent = s.checker.logged ++ ((if sampled = 8 then [] else [b]) ++ s.tx.txPendingBytes)

structure Synchronised (cycles : Cycles) (cfg : NinaUart.UartCfg) (s : Link) : Prop where
  transmitting : Transmitting cfg s.tx
  dataBits : cfg.dataBits = 8
  parity : cfg.parity = .none
  logs : s.checker.Logs
  ahead : s.Ahead s.now
  turn : Between s ∨ ∃ b start delay driven sampled, Sending cycles s b start delay driven sampled

theorem sampleInside {n : Nat} (small : n ≤ 8) (tolerated : Tolerates cycles delay) :
    2 * cycles.tx * (n + 1) < delay + 2 * n * cycles.checker ∧ delay + 2 * n * cycles.checker < 2 * cycles.tx * (n + 2) := by
  obtain ⟨first, last⟩ := tolerated
  interval_cases n <;> omega

theorem driveNext {b : Byte} {start driven sampled : Nat} (sending : Sending cycles s b start delay driven sampled)
    (ahead : s.Ahead s.now) (due : s.txDue = s.now) : driven = sampled := by
  have inside := sampleInside sending.turn.2.2 sending.tolerated
  have before := ahead.2 sending.sample.1
  rw [sending.sample.2, ← due, sending.drive.2] at before
  rcases Nat.lt_or_eq_of_le sending.turn.1 with more | same
  · have one := sending.turn.2.1
    obtain rfl : driven = sampled + 1 := by omega
    have two : sampled + 1 + 1 = sampled + 2 := rfl
    rw [two] at before
    omega
  · exact same.symm

theorem sampleNext {b : Byte} {start driven sampled : Nat} (sending : Sending cycles s b start delay driven sampled)
    (ahead : s.Ahead s.now) (due : s.checkerDue = s.now) : driven = sampled + 1 := by
  have inside := sampleInside sending.turn.2.2 sending.tolerated
  have before := ahead.1 sending.drive.1
  rw [sending.drive.2, ← due, sending.sample.2] at before
  rcases Nat.lt_or_eq_of_le sending.turn.1 with more | same
  · have one := sending.turn.2.1
    omega
  · subst same
    omega

theorem txSendBitNext (tx : Tx) : tx.txSendBit.txBit = tx.nextBit.2 ∧ tx.txSendBit.txState = tx.nextBit.1.txState ∧
    tx.txSendBit.txPendingBytes = tx.nextBit.1.txPendingBytes ∧ tx.txSendBit.txPendingBits = tx.nextBit.1.txPendingBits ∧
    tx.txSendBit.txCurrentPendingByte = tx.nextBit.1.txCurrentPendingByte := by
  unfold Tx.txSendBit
  dsimp only
  split <;> exact ⟨rfl, rfl, rfl, rfl, rfl⟩

theorem sendBufferKept (tx : Tx) (buffer : List Byte) :
    (tx.txSendBuffer buffer).sent = tx.sent ++ buffer ∧ (tx.txSendBuffer buffer).txPendingBytes = tx.txPendingBytes ++ buffer ∧
    (tx.txSendBuffer buffer).txState = tx.txState ∧ (tx.txSendBuffer buffer).txBit = tx.txBit ∧
    (tx.txSendBuffer buffer).txPendingBits = tx.txPendingBits ∧
    (tx.txSendBuffer buffer).txCurrentPendingByte = tx.txCurrentPendingByte ∧
    (tx.txSamplingEvent ≠ none → (tx.txSendBuffer buffer).txSamplingEvent ≠ none) := by
  unfold Tx.txSendBuffer
  induction buffer generalizing tx with
  | nil => simp
  | cons byte rest ih =>
      obtain ⟨sent, pending, state, bit, bits, current, event⟩ := ih (tx.txSendByte byte)
      rw [List.foldl_cons, sent, pending, state, bit, bits, current]
      have one : (tx.txSendByte byte).sent = tx.sent ++ [byte] ∧ (tx.txSendByte byte).txPendingBytes = tx.txPendingBytes ++ [byte] ∧
          (tx.txSendByte byte).txState = tx.txState ∧ (tx.txSendByte byte).txBit = tx.txBit ∧
          (tx.txSendByte byte).txPendingBits = tx.txPendingBits ∧
          (tx.txSendByte byte).txCurrentPendingByte = tx.txCurrentPendingByte ∧
          (tx.txSamplingEvent ≠ none → (tx.txSendByte byte).txSamplingEvent ≠ none) := by
        unfold Tx.txSendByte Tx.txCheckPendingByte
        split
        · exact ⟨rfl, rfl, rfl, rfl, rfl, rfl, fun _ => by simp⟩
        · exact ⟨rfl, rfl, rfl, rfl, rfl, rfl, id⟩
      obtain ⟨sent', pending', state', bit', bits', current', event'⟩ := one
      rw [sent', pending', state', bit', bits', current']
      exact ⟨by simp, by simp, rfl, rfl, rfl, rfl, fun some => event (event' some)⟩

end Turns

section Steps

variable {cycles : Cycles} {cfg : NinaUart.UartCfg} {s next : Link} {delay : Nat}

theorem ctsSynchronised (cts : Int) (before : Synchronised cycles cfg s) :
    Synchronised cycles cfg { s with tx := { s.tx with txCts := cts } } := by
  obtain ⟨⟨same, history, event, frequency⟩, dataBits, parity, logs, ahead, turn⟩ := before
  refine ⟨⟨same, history, event, frequency⟩, dataBits, parity, logs, ahead, ?_⟩
  rcases turn with between | ⟨b, start, delay, driven, sampled, sending⟩
  · exact .inl ⟨between.waiting, between.high, between.state, between.sent⟩
  · obtain ⟨tolerated, turn, drive, sample, data, stop, level, seen, started, count, bits, sent⟩ := sending
    exact .inr ⟨b, start, delay, driven, sampled, tolerated, turn, drive, sample, data, stop, level, seen, started, count, bits, sent⟩

/- The level reaches the checker. What is looped back reaches the pin of the module. -/
theorem syncFullCases (s : Link) (data : Bool) (delay : Nat) : ∃ cts, s.syncFull data delay =
    let due := if s.checker.Starts data then s.now + delay else s.checkerDue
    let reached := { s with checker := s.checker.sync data, checkerDue := due }
    { reached with tx := { reached.tx with txCts := cts } } := by
  unfold Link.syncFull
  by_cases back : s.checker.loopback = true
  · refine ⟨2, ?_⟩
    rw [if_pos back]
    dsimp only
    split <;> rfl
  · refine ⟨s.tx.txCts, ?_⟩
    rw [if_neg back]
    dsimp only
    split <;> rfl

theorem syncHigh {c : Checker} : c.sync true = { c with currentTx := true } := by
  unfold Checker.sync
  dsimp only
  exact if_neg fun starts => by simpa using starts.2

theorem syncBusy {c : Checker} {data : Bool} (busy : c.txWaitStart = false) : c.sync data = { c with currentTx := data } := by
  unfold Checker.sync
  dsimp only
  exact if_neg fun starts => by simpa [busy] using starts.1

theorem waitSynchronised {time : Nat} (before : Synchronised cycles cfg s) (ahead : s.Ahead (s.now + time)) :
    Synchronised cycles cfg { s with now := s.now + time } := by
  refine ⟨before.transmitting, before.dataBits, before.parity, before.logs, ahead, ?_⟩
  rcases before.turn with between | ⟨b, start, delay, driven, sampled, sending⟩
  · exact .inl ⟨between.waiting, between.high, between.state, between.sent⟩
  · obtain ⟨tolerated, turn, drive, sample, data, stop, level, seen, started, count, bits, sent⟩ := sending
    exact .inr ⟨b, start, delay, driven, sampled, tolerated, turn, drive, sample, data, stop, level, seen, started, count, bits, sent⟩

theorem bufferSynchronised (buffer : List Byte) (before : Synchronised cycles cfg s) :
    Synchronised cycles cfg (s.sendBuffer cycles buffer) := by
  obtain ⟨transmitting, dataBits, parity, logs, ahead, turn⟩ := before
  obtain ⟨sent, pending, state, bit, bits, current, event⟩ := sendBufferKept s.tx buffer
  have due (some : s.tx.txSamplingEvent ≠ none) : (s.sendBuffer cycles buffer).txDue = s.txDue := if_neg some
  refine ⟨NinaUart.txSendBufferTransmitting transmitting buffer, dataBits, parity, logs, ⟨fun _ => ?_, ahead.2⟩, ?_⟩
  · by_cases none : s.tx.txSamplingEvent = none
    · have fresh : (s.sendBuffer cycles buffer).txDue = s.now + 2 * cycles.tx := if_pos none
      rw [fresh]
      exact Nat.le_add_right _ _
    · rw [due none]
      exact ahead.1 none
  · rcases turn with between | ⟨b, start, delay, driven, sampled, sending⟩
    · refine .inl ⟨between.waiting, bit.trans between.high, ?_, ?_⟩
      · exact state.symm ▸ between.state
      · refine (sent.trans ?_).trans (congrArg (s.checker.logged ++ ·) pending.symm)
        rw [between.sent, List.append_assoc]
    · obtain ⟨tolerated, turn, drive, sample, data, stop, level, seen, started, count, got, given⟩ := sending
      refine .inr ⟨b, start, delay, driven, sampled, tolerated, turn, ⟨event drive.1, (due drive.1).trans drive.2⟩, sample, ?_, ?_,
        bit.trans level, seen.trans bit.symm, started, count, got, ?_⟩
      · exact fun few => ⟨state.trans (data few).1, bits.trans (data few).2.1, current.trans (data few).2.2⟩
      · exact fun all => state.trans (stop all)
      · refine (sent.trans ?_).trans (congrArg (fun bytes => s.checker.logged ++ ((if sampled = 8 then [] else [b]) ++ bytes)) pending.symm)
        rw [given]
        simp

theorem levelSynchronised (before : Synchronised cycles cfg s) : Synchronised cycles cfg (s.syncFull s.tx.txBit delay) := by
  obtain ⟨cts, reached⟩ := syncFullCases s s.tx.txBit delay
  rw [reached]
  refine ctsSynchronised cts ?_
  obtain ⟨transmitting, dataBits, parity, logs, ahead, turn⟩ := before
  rcases turn with between | ⟨b, start, delay', driven, sampled, sending⟩
  · have high : ¬s.checker.Starts true := fun starts => by simpa using starts.2
    rw [between.high, syncHigh, if_neg high]
    exact ⟨transmitting, dataBits, parity, logs, ahead, .inl ⟨between.waiting, between.high, between.state, between.sent⟩⟩
  · have busy : ¬s.checker.Starts s.tx.txBit := fun starts => by simpa [sending.started.1] using starts.1
    rw [syncBusy sending.started.1, if_neg busy]
    obtain ⟨tolerated, turn, drive, sample, data, stop, level, seen, started, count, bits, sent⟩ := sending
    exact ⟨transmitting, dataBits, parity, logs, ahead,
      .inr ⟨b, start, delay', driven, sampled, tolerated, turn, drive, sample, data, stop, level, rfl, started, count, bits, sent⟩⟩

theorem betweenBit (tx : Tx) (state : tx.txState ≠ .data ∧ tx.txState ≠ .parity) :
    (tx.nextBit.2 = true ∧ (tx.nextBit.1.txState ≠ .data ∧ tx.nextBit.1.txState ≠ .parity) ∧
      tx.nextBit.1.txPendingBytes = tx.txPendingBytes) ∨
    (tx.nextBit.2 = false ∧ tx.nextBit.1.txState = .data ∧ tx.nextBit.1.txPendingBits = tx.txUartCfg.dataBits ∧
      tx.txPendingBytes = tx.nextBit.1.txCurrentPendingByte :: tx.nextBit.1.txPendingBytes) := by
  unfold Tx.nextBit
  cases shape : tx.txState <;> dsimp only
  case idle =>
    left
    unfold Tx.idleBit
    dsimp only
    split
    · exact ⟨rfl, ⟨by simp, by simp⟩, rfl⟩
    · exact ⟨rfl, state, rfl⟩
  case start =>
    unfold Tx.startBit
    split
    · split
      · rename_i byte rest pending
        exact .inr ⟨rfl, rfl, rfl, pending⟩
      · exact .inl ⟨rfl, state, rfl⟩
    · exact .inl ⟨rfl, state, rfl⟩
  case data => exact absurd shape state.1
  case parity => exact absurd shape state.2
  case stop =>
    left
    unfold Tx.stopBit
    dsimp only
    split
    · exact ⟨rfl, ⟨by simp, by simp⟩, rfl⟩
    · exact ⟨rfl, state, rfl⟩

theorem dataBitNext {tx : Tx} {b : Byte} {k : Nat} (state : tx.txState = .data) (left : tx.txPendingBits = 8 - k) (small : k ≤ 8)
    (byte : tx.txCurrentPendingByte = b >>> k) (plain : tx.txUartCfg.parity = .none) :
    tx.nextBit.1.txPendingBytes = tx.txPendingBytes ∧ tx.nextBit.2 = (if k < 8 then b.getLsbD k else true) ∧
    (k < 8 → tx.nextBit.1.txState = .data ∧ tx.nextBit.1.txPendingBits = 8 - (k + 1) ∧
      tx.nextBit.1.txCurrentPendingByte = b >>> (k + 1)) ∧
    (k = 8 → tx.nextBit.1.txState = .stop) := by
  unfold Tx.nextBit
  rw [state]
  dsimp only
  unfold Tx.dataBit
  by_cases more : k < 8
  · rw [if_pos (by omega : 0 < tx.txPendingBits), if_pos more]
    refine ⟨rfl, by simp [byte], fun _ => ⟨state, ?_, ?_⟩, fun last => by omega⟩
    · dsimp only
      omega
    · dsimp only
      rw [byte, BitVec.shiftRight_add]
  · rw [if_neg (by omega : ¬0 < tx.txPendingBits), if_neg more]
    refine ⟨rfl, rfl, fun few => absurd few more, fun _ => ?_⟩
    exact if_neg fun other => other plain

theorem driveSynchronised (before : Synchronised cycles cfg s) (enqueued : s.tx.txSamplingEvent ≠ none) (due : s.txDue = s.now)
    (tolerated : Tolerates cycles delay) : Synchronised cycles cfg (s.drive cycles delay) := by
  obtain ⟨transmitting, dataBits, parity, logs, ahead, turn⟩ := before
  have busy : ¬s.tx.Finished := fun finished => enqueued (transmitting.event.trans (if_pos finished))
  have kept := NinaUart.sampleTransmitting transmitting busy
  obtain ⟨bit, state, pending, bits, byte⟩ := txSendBitNext { s.tx with txSamplingEvent := none }
  obtain ⟨sent, -, -⟩ := NinaUart.sampleKept cfg { s.tx with txSamplingEvent := none }
  have event := kept.event
  unfold Link.drive
  dsimp only
  generalize after : Tx.txSendBit { s.tx with txSamplingEvent := none } = tx at *
  obtain ⟨cts, reached⟩ := syncFullCases { s with tx := tx, txDue := s.now + 2 * cycles.tx } tx.txBit delay
  rw [reached]
  refine ctsSynchronised cts ?_
  dsimp only at *
  rcases turn with between | ⟨b, start, delay', driven, sampled, sending⟩
  · rcases betweenBit { s.tx with txSamplingEvent := none } between.state with ⟨high, calm, same⟩ | ⟨low, data, count, taken⟩
    · have still : ¬s.checker.Starts true := fun starts => by simpa using starts.2
      rw [bit, high, syncHigh, if_neg still]
      refine ⟨kept, dataBits, parity, logs, ⟨fun _ => Nat.le_add_right _ _, ahead.2⟩, .inl ⟨between.waiting, bit.trans high, ?_, ?_⟩⟩
      · exact state.symm ▸ calm
      · rw [sent, pending, same]
        exact between.sent
    · have starts : s.checker.Starts false := ⟨between.waiting.1, rfl⟩
      have begun : s.checker.sync false =
          { s.checker.startTxSampling with currentTx := false, txWaitStart := false, nbBits := 0 } := by
        unfold Checker.sync
        dsimp only
        exact if_pos starts
      rw [bit, low, begun, if_pos starts]
      refine ⟨kept, dataBits, parity, logs, ⟨fun _ => Nat.le_add_right _ _, fun _ => Nat.le_add_right _ _⟩,
        .inr ⟨tx.txCurrentPendingByte, s.now, delay, 0, 0, tolerated, by omega, ⟨?_, ?_⟩, ⟨by simp [Checker.startTxSampling], ?_⟩, ?_,
          by omega, ?_, (bit.trans low).symm, ⟨rfl, rfl, ?_⟩, rfl, ?_, ?_⟩⟩
      · rw [event, if_neg fun finished => by simpa [state, data] using finished.2]
        simp
      · dsimp only
        omega
      · dsimp only
        omega
      · refine fun _ => ⟨state.trans data, ?_, by simp⟩
        rw [bits, count, transmitting.same.2, dataBits]
      · exact bit.trans low
      · exact between.waiting.2.1
      · intro i small
        omega
      · rw [sent, between.sent, taken, ← byte, ← pending]
        rfl
  · obtain rfl := driveNext sending ahead due
    have still (level : Bool) : ¬s.checker.Starts level := fun starts => by simpa [sending.started.1] using starts.1
    have small := sending.turn.2.2
    obtain ⟨state', left, current⟩ := sending.data small
    have plain : s.tx.txUartCfg.parity = .none := by rw [transmitting.same.2, parity]
    obtain ⟨same, level, data, stop⟩ :=
      @dataBitNext { s.tx with txSamplingEvent := none } _ _ state' left small current plain
    rw [syncBusy sending.started.1, if_neg (still _)]
    refine ⟨kept, dataBits, parity, logs, ⟨fun _ => Nat.le_add_right _ _, ahead.2⟩,
      .inr ⟨b, start, delay', driven + 1, driven, sending.tolerated, by omega, ⟨?_, ?_⟩, sending.sample, ?_, ?_, ?_, rfl,
        sending.started, sending.count, sending.bits, ?_⟩⟩
    · have more : ¬tx.Finished := by
        intro finished
        have idle := state.symm.trans finished.2
        rcases Nat.lt_or_eq_of_le small with few | all
        · rw [(data few).1] at idle
          contradiction
        · rw [stop all] at idle
          contradiction
      rw [event, if_neg more]
      simp
    · have deadline := sending.drive.2
      have step : 2 * cycles.tx * (driven + 1 + 1) = 2 * cycles.tx * (driven + 1) + 2 * cycles.tx := Nat.mul_succ _ _
      dsimp only
      omega
    · intro few
      obtain ⟨h1, h2, h3⟩ := data (by omega)
      exact ⟨state.trans h1, bits.trans h2, byte.trans h3⟩
    · intro all
      exact state.trans (stop (by omega))
    · rw [bit, level, if_neg (Nat.succ_ne_zero driven), Nat.add_sub_cancel]
      rfl
    · rw [sent, pending, same]
      exact sending.sent

theorem samplingBit {c : Checker} (logs : c.Logs) (waiting : c.txWaitStop = false) :
    c.txSampling.byte = shiftDown c.byte c.currentTx ∧
    c.txSampling.nbBits = c.nbBits + 1 ∧ c.txSampling.txWaitStop = decide (c.nbBits + 1 = 8) ∧
    c.txSampling.logged = c.logged ++ (if c.nbBits + 1 = 8 then [c.txSampling.byte] else []) ∧
    c.txSampling.txWaitStart = c.txWaitStart ∧ c.txSampling.samplingTx = c.samplingTx ∧
    c.txSampling.currentTx = c.currentTx ∧ c.txSampling.Logs := by
  obtain ⟨telnet, written⟩ := logs
  unfold Checker.txSampling
  rw [if_neg (by simp [waiting])]
  dsimp only
  by_cases last : c.nbBits + 1 = 8
  · rw [if_pos last]
    unfold Checker.sampledByte
    dsimp only
    rw [if_neg (by simp [telnet])]
    by_cases stdout : c.stdout = true
    · rw [if_pos stdout]
      exact ⟨rfl, rfl, by simp [last], by simp [last], rfl, rfl, rfl, telnet, written⟩
    · have file : c.txFile = true := written.resolve_left stdout
      rw [if_neg stdout, if_pos file]
      exact ⟨rfl, rfl, by simp [last], by simp [last], rfl, rfl, rfl, telnet, written⟩
  · rw [if_neg last]
    exact ⟨rfl, rfl, by simp [last, waiting], by simp [last], rfl, rfl, rfl, telnet, written⟩

theorem handlerStop {c : Checker} (waiting : c.txWaitStop = true) (high : c.currentTx = true) :
    c.eventHandler = { c with txWaitStart := true, txWaitStop := false, samplingTx := false, event := none } := by
  have stopped : Checker.txSampling { c with event := none } =
      { c with txWaitStart := true, txWaitStop := false, samplingTx := false, event := none } := by
    unfold Checker.txSampling
    rw [if_pos waiting, if_pos high]
    rfl
  unfold Checker.eventHandler
  rw [stopped]
  exact if_neg (by simp)

theorem sampleSynchronised (before : Synchronised cycles cfg s) (enqueued : s.checker.event ≠ none) (due : s.checkerDue = s.now) :
    Synchronised cycles cfg (s.sample cycles) := by
  obtain ⟨transmitting, dataBits, parity, logs, ahead, turn⟩ := before
  rcases turn with between | ⟨b, start, delay, driven, sampled, sending⟩
  · exact absurd between.waiting.2.2.2 enqueued
  obtain rfl := sampleNext sending ahead due
  obtain ⟨started, sampling, waitStop⟩ := sending.started
  have small := sending.turn.2.2
  have later : (s.sample cycles).Ahead s.now := ⟨ahead.1, fun _ => Nat.le_add_right _ _⟩
  by_cases all : sampled = 8
  · subst all
    have high : s.tx.txBit = true := by simpa using sending.level
    have seen : s.checker.currentTx = true := sending.seen.trans high
    have stopped : s.checker.eventHandler =
        { s.checker with txWaitStart := true, txWaitStop := false, samplingTx := false, event := none } :=
      handlerStop (by simpa using waitStop) seen
    have state := sending.stop rfl
    refine ⟨transmitting, dataBits, parity, ?_, later, .inl ⟨?_, high, by simp [Link.sample, state], ?_⟩⟩
    · exact (congrArg Checker.Logs stopped) ▸ logs
    · unfold Link.sample
      rw [stopped]
      exact ⟨rfl, rfl, rfl, rfl⟩
    · unfold Link.sample
      rw [stopped]
      exact sending.sent
  · have few : sampled < 8 := Nat.lt_of_le_of_ne small all
    obtain ⟨byte, count, stop, logged, start', sampling', current, logs'⟩ :=
      samplingBit (c := { s.checker with event := none }) logs (by simpa [all] using waitStop)
    have handled : s.checker.eventHandler = { Checker.txSampling { s.checker with event := none } with event := some 2 } :=
      if_pos (sampling'.trans sampling)
    dsimp only at byte count stop logged start' sampling' current
    have level : s.checker.currentTx = b.getLsbD sampled := by
      rw [sending.seen, sending.level, if_neg (Nat.succ_ne_zero sampled), if_pos (by omega), Nat.add_sub_cancel]
    have bits : ∀ i < sampled + 1, s.checker.eventHandler.byte.getLsbD (8 - (sampled + 1) + i) = b.getLsbD i := by
      rw [handled]
      dsimp only
      rw [byte, level]
      exact shiftDownNext few sending.bits
    refine ⟨transmitting, dataBits, parity, ?_, later, .inr ⟨b, start, delay, sampled + 1, sampled + 1, sending.tolerated, by omega,
      sending.drive, ⟨?_, ?_⟩, sending.data, sending.stop, sending.level, ?_, ⟨?_, ?_, ?_⟩, ?_, bits, ?_⟩⟩
    · exact (congrArg Checker.Logs handled) ▸ logs'
    · exact (congrArg Checker.event handled) ▸ (by simp)
    · have deadline := sending.sample.2
      have step : 2 * (sampled + 1) * cycles.checker = 2 * sampled * cycles.checker + 2 * cycles.checker := by
        rw [Nat.mul_succ, Nat.add_mul]
      unfold Link.sample
      dsimp only
      omega
    · exact (congrArg Checker.currentTx handled).trans (current.trans sending.seen)
    · exact (congrArg Checker.txWaitStart handled).trans (start'.trans started)
    · exact (congrArg Checker.samplingTx handled).trans (sampling'.trans sampling)
    · refine (congrArg Checker.txWaitStop handled).trans (stop.trans ?_)
      rw [sending.count]
    · exact (congrArg Checker.nbBits handled).trans (count.trans (congrArg (· + 1) sending.count))
    · have whole : s.checker.eventHandler.logged ++ (if sampled + 1 = 8 then [] else [b]) = s.checker.logged ++ [b] := by
        by_cases last : sampled + 1 = 8
        · have same : s.checker.eventHandler.byte = b := by
            rw [last] at bits
            exact shiftDownWhole bits
          have out : s.checker.eventHandler.logged = s.checker.logged ++ [s.checker.eventHandler.byte] := by
            rw [handled]
            dsimp only
            rw [logged, if_pos (by rw [sending.count]; exact last)]
          rw [out, same, if_pos last, List.append_nil]
        · have out : s.checker.eventHandler.logged = s.checker.logged := by
            rw [handled]
            dsimp only
            rw [logged, if_neg (by rw [sending.count]; exact last), List.append_nil]
          rw [out, if_neg last]
      have sent := sending.sent
      rw [if_neg all, ← List.append_assoc, ← whole, List.append_assoc] at sent
      exact sent

theorem stepSynchronised {a : Action} (before : Synchronised cycles cfg s) (timed : Timed cycles s a)
    (taken : step cycles s a = some next) : Synchronised cycles cfg next := by
  cases a with
  | wait time =>
      obtain ⟨ahead, same⟩ := Option.ite_none_right_eq_some.mp taken
      cases same
      exact waitSynchronised before ahead
  | buffer buffer =>
      cases taken
      exact bufferSynchronised buffer before
  | cts value =>
      cases taken
      exact ctsSynchronised value before
  | setRts delay =>
      cases taken
      exact levelSynchronised before
  | drive delay =>
      obtain ⟨⟨enqueued, due⟩, same⟩ := Option.ite_none_right_eq_some.mp taken
      cases same
      exact driveSynchronised before enqueued due timed
  | sample =>
      obtain ⟨⟨enqueued, due⟩, same⟩ := Option.ite_none_right_eq_some.mp taken
      cases same
      exact sampleSynchronised before enqueued due

theorem builtSynchronised (built : Built s) : Synchronised cycles s.tx.uartCfg s where
  transmitting := NinaUart.builtTransmitting built.tx
  dataBits := built.dataBits
  parity := built.parity
  logs := built.logs
  ahead := ⟨fun enqueued => absurd built.tx.event enqueued, fun enqueued => absurd built.waiting.2.2.2 enqueued⟩
  turn := .inl ⟨built.waiting, built.high, by simp [built.tx.state], by simp [built.tx.sent, built.logged, built.tx.pending]⟩

theorem runSynchronised {trace : List (Action × Link)} {last : Link} (built : Built s)
    (run : Run (step cycles) (Timed cycles) s trace last) : Synchronised cycles s.tx.uartCfg last :=
  runInvariant (P := Synchronised cycles s.tx.uartCfg) run (builtSynchronised built)
    fun _ _ _ before timed taken => stepSynchronised before timed taken

/- The checker writes the bytes in their order, and nothing else; when the module has finished it has written them all. -/
theorem checkerWritesSent {trace : List (Action × Link)} {last : Link} (built : Built s)
    (run : Run (step cycles) (Timed cycles) s trace last) :
    last.checker.logged <+: last.tx.sent ∧ (last.tx.Finished → last.checker.logged = last.tx.sent) := by
  rcases (runSynchronised built run).turn with between | ⟨b, start, delay, driven, sampled, sending⟩
  · rw [between.sent]
    refine ⟨List.prefix_append _ _, fun finished => ?_⟩
    rw [finished.1, List.append_nil]
  · rw [sending.sent]
    refine ⟨List.prefix_append _ _, fun finished => ?_⟩
    have bound := sending.turn
    have idle := finished.2
    rcases Nat.lt_or_ge 8 driven with all | few
    · rw [sending.stop (by omega)] at idle
      contradiction
    · rw [(sending.data few).1] at idle
      contradiction

def freshLink : Link where
  now := 0
  tx := NinaUart.factory .none
  txDue := 0
  checker := ⟨false, false, true, false, true, false, false, true, 0, 0, none, []⟩
  checkerDue := 0

theorem freshBuilt : Built freshLink where
  tx := NinaUart.factoryBuilt .none
  dataBits := rfl
  parity := rfl
  high := rfl
  waiting := ⟨rfl, rfl, rfl, rfl⟩
  logged := rfl
  logs := ⟨rfl, .inl rfl⟩

def slowActions : List Action :=
  [.buffer [0x41], .wait 200, .drive 310, .wait 200, .drive 310, .wait 200, .drive 310] ++
    (List.range 9).flatMap fun n => [.wait (110 + 6 * n), .sample, .wait (90 - 6 * n), .drive 310]

theorem checkerWritesSlow : (reach (step ⟨100, 103⟩) (Timed ⟨100, 103⟩) freshLink slowActions).tx.sent = [0x41] ∧
    (reach (step ⟨100, 103⟩) (Timed ⟨100, 103⟩) freshLink slowActions).checker.logged =
      (reach (step ⟨100, 103⟩) (Timed ⟨100, 103⟩) freshLink slowActions).tx.sent := by
  obtain ⟨run, -⟩ := Machine.reachTrace (step ⟨100, 103⟩) (Timed ⟨100, 103⟩) freshLink slowActions (by decide +kernel)
  exact ⟨by decide +kernel, (checkerWritesSent freshBuilt run).2 (by decide +kernel)⟩

end Steps

end Gvsoc.UartChecker
