import Gvsoc.NinaUart

/-! What the transmitter drives for each byte: a bit too many after the data, and one stop bit. The frames of the configuration are on
the line exactly when these high bits are taken for them. -/
namespace Gvsoc.NinaUart
open Bytes (Byte)
open SerialLine (Framed evenParity evenParityConcat framedIdle framedStart)
open Machine (Run anyStep runInvariant reach)

/- A byte, and the periods that its start bit was held back. -/
structure Transmission where
  byte : Byte
  waits : Nat

section Steps

variable (cfg : UartCfg)

/- The high bit before the start bit comes from the idle state, and the one after the data from the step to the next state. -/
def emitted (t : Transmission) : List Bool :=
  List.replicate (t.waits + 1) true ++ false :: (dataBits cfg t.byte ++ true :: (parityBits cfg t.byte ++ [true]))

def Progress (s : Tx) (bytes : List Byte) (line : List Bool) : Prop :=
  match s.txState with
  | .idle => bytes = [] ∧ line = []
  | .start => s.txPendingBytes ≠ [] ∧ bytes = [] ∧ ∃ waits, line = List.replicate (waits + 1) true
  | .data => ∃ b waits k, bytes = [b] ∧ line = List.replicate (waits + 1) true ++ false :: (dataBits cfg b).take k ∧
      s.txPendingBits + k = cfg.dataBits ∧ s.txCurrentPendingByte = b >>> k ∧
      s.txParity = evenParity ((dataBits cfg b).take k) ∧ s.txCurrentStopBits = 1
  | .parity => ∃ b waits, bytes = [b] ∧ line = List.replicate (waits + 1) true ++ false :: (dataBits cfg b ++ [true]) ∧
      cfg.parity ≠ .none ∧ s.txParity = evenParity (dataBits cfg b) ∧ s.txCurrentStopBits = 1
  | .stop => ∃ b waits, bytes = [b] ∧
      line = List.replicate (waits + 1) true ++ false :: (dataBits cfg b ++ true :: parityBits cfg b) ∧ s.txCurrentStopBits = 1

def History (driven : List Bool) (s : Tx) : Prop :=
  ∃ frames bytes line, s.sent = List.map Transmission.byte frames ++ bytes ++ s.txPendingBytes ∧
    driven = frames.flatMap (emitted cfg) ++ line ∧ Progress cfg s bytes line

structure Transmitting (s : Tx) : Prop where
  same : s.uartCfg = cfg ∧ s.txUartCfg = cfg
  history : History cfg s.driven s
  event : s.txSamplingEvent = if s.Finished then none else some 2
  frequency : s.txState ≠ .idle → s.frequency = cfg.baudrate * 2

variable {cfg} {s : Tx}

theorem idleHistory (history : History cfg s.driven s) (state : s.txState = .idle) (some : s.txPendingBytes ≠ []) :
    History cfg (s.driven ++ [s.idleBit.2]) s.idleBit.1 := by
  obtain ⟨frames, bytes, line, sent, driven, progress⟩ := history
  unfold Progress at progress
  rw [state] at progress
  obtain ⟨rfl, rfl⟩ := progress
  unfold Tx.idleBit
  dsimp only
  rw [if_pos some]
  exact ⟨frames, [], [true], sent, by simp [driven], some, rfl, 0, rfl⟩

theorem startHistory (history : History cfg s.driven s) (state : s.txState = .start) (same : s.txUartCfg = cfg) :
    History cfg (s.driven ++ [s.startBit.2]) s.startBit.1 := by
  obtain ⟨frames, bytes, line, sent, driven, progress⟩ := history
  unfold Progress at progress
  rw [state] at progress
  obtain ⟨some, rfl, waits, rfl⟩ := progress
  have held : History cfg (s.driven ++ [true]) s := by
    refine ⟨frames, [], List.replicate (waits + 1 + 1) true, sent, ?_, ?_⟩
    · rw [driven, List.append_assoc, ← List.replicate_succ']
    · unfold Progress
      rw [state]
      exact ⟨some, rfl, waits + 1, rfl⟩
  unfold Tx.startBit
  split
  · split
    · rename_i byte rest pending
      refine ⟨frames, [byte], List.replicate (waits + 1) true ++ [false], ?_, ?_, ?_⟩
      · simpa [pending] using sent
      · rw [driven, List.append_assoc]
      · exact ⟨byte, waits, 0, rfl, by simp, by simp [same], by simp, rfl, rfl⟩
    · exact held
  · exact held

theorem dataTake (cfg : UartCfg) {b : Byte} {k : Nat} (inside : k < cfg.dataBits) :
    (dataBits cfg b).take (k + 1) = (dataBits cfg b).take k ++ [b.getLsbD k] := by
  have length : k < (dataBits cfg b).length := by simpa [dataBits] using inside
  rw [List.take_succ_eq_append_getElem length]
  simp [dataBits]

theorem dataHistory (history : History cfg s.driven s) (state : s.txState = .data) (same : s.txUartCfg = cfg) :
    History cfg (s.driven ++ [s.dataBit.2]) s.dataBit.1 := by
  obtain ⟨frames, bytes, line, sent, driven, progress⟩ := history
  unfold Progress at progress
  rw [state] at progress
  obtain ⟨b, waits, k, rfl, rfl, left, byte, parity, stop⟩ := progress
  unfold Tx.dataBit
  split
  · rename_i more
    have bit : s.txCurrentPendingByte.getLsbD 0 = b.getLsbD k := by simp [byte]
    have next := dataTake cfg (b := b) (k := k) (by omega)
    refine ⟨frames, [b], List.replicate (waits + 1) true ++ false :: (dataBits cfg b).take (k + 1), sent, ?_, ?_⟩
    · rw [driven, next, bit]
      simp
    · unfold Progress
      dsimp only
      rw [state]
      refine ⟨b, waits, k + 1, rfl, rfl, by omega, ?_, ?_, stop⟩
      · rw [byte, BitVec.shiftRight_add]
      · rw [parity, next, evenParityConcat, bit]
  · rename_i done
    have whole : (dataBits cfg b).take k = dataBits cfg b := List.take_of_length_le (by simp [dataBits]; omega)
    rw [whole] at driven parity
    have line : s.driven ++ [true] =
        frames.flatMap (emitted cfg) ++ (List.replicate (waits + 1) true ++ false :: (dataBits cfg b ++ [true])) := by
      rw [driven]
      simp
    split
    · rename_i even
      exact ⟨frames, [b], _, sent, line, b, waits, rfl, rfl, same ▸ even, parity, stop⟩
    · rename_i plain
      have empty : parityBits cfg b = [] := by
        unfold parityBits
        rw [if_pos (by simpa [same] using plain)]
      exact ⟨frames, [b], _, sent, line, b, waits, rfl, by rw [empty], stop⟩

theorem parityHistory (history : History cfg s.driven s) (state : s.txState = .parity) :
    History cfg (s.driven ++ [s.parityBit.2]) s.parityBit.1 := by
  obtain ⟨frames, bytes, line, sent, driven, progress⟩ := history
  unfold Progress at progress
  rw [state] at progress
  obtain ⟨b, waits, rfl, rfl, even, parity, stop⟩ := progress
  have bits : parityBits cfg b = [s.txParity] := by
    unfold parityBits
    rw [if_neg even, parity]
  refine ⟨frames, [b], _, sent, ?_, b, waits, rfl, rfl, stop⟩
  unfold Tx.parityBit
  rw [driven, bits]
  simp

theorem stopHistory (history : History cfg s.driven s) (state : s.txState = .stop) :
    History cfg (s.driven ++ [s.stopBit.2]) s.stopBit.1 := by
  obtain ⟨frames, bytes, line, sent, driven, progress⟩ := history
  unfold Progress at progress
  rw [state] at progress
  obtain ⟨b, waits, rfl, rfl, stop⟩ := progress
  unfold Tx.stopBit
  dsimp only
  rw [if_pos (by omega)]
  refine ⟨frames ++ [⟨b, waits⟩], [], [], by simpa using sent, ?_, rfl, rfl⟩
  rw [driven]
  simp [emitted]

theorem nextBitHistory (history : History cfg s.driven s) (same : s.txUartCfg = cfg) (busy : ¬s.Finished) :
    History cfg (s.driven ++ [s.nextBit.2]) s.nextBit.1 := by
  unfold Tx.nextBit
  cases state : s.txState with
  | idle => exact idleHistory history state fun none => busy ⟨none, state⟩
  | start => exact startHistory history state same
  | data => exact dataHistory history state same
  | parity => exact parityHistory history state
  | stop => exact stopHistory history state

theorem nextBitKept (s : Tx) : s.nextBit.1.toLine = s.toLine ∧ s.nextBit.1.uartCfg = s.uartCfg ∧
    s.nextBit.1.txUartCfg = s.txUartCfg ∧ s.nextBit.1.txCts = s.txCts ∧ s.nextBit.1.txSamplingEvent = s.txSamplingEvent ∧
    s.nextBit.1.frequency = if s.txState = .idle then s.txUartCfg.baudrate * 2 else s.frequency := by
  unfold Tx.nextBit
  cases state : s.txState <;> dsimp only
  case idle =>
    unfold Tx.idleBit
    dsimp only
    split <;> exact ⟨rfl, rfl, rfl, rfl, rfl, rfl⟩
  case start =>
    unfold Tx.startBit
    split
    · split <;> exact ⟨rfl, rfl, rfl, rfl, rfl, rfl⟩
    · exact ⟨rfl, rfl, rfl, rfl, rfl, rfl⟩
  case data =>
    unfold Tx.dataBit
    split <;> exact ⟨rfl, rfl, rfl, rfl, rfl, rfl⟩
  case parity => exact ⟨rfl, rfl, rfl, rfl, rfl, rfl⟩
  case stop =>
    unfold Tx.stopBit
    dsimp only
    split <;> exact ⟨rfl, rfl, rfl, rfl, rfl, rfl⟩

theorem sampleTransmitting (transmitting : Transmitting cfg s) (busy : ¬s.Finished) :
    Transmitting cfg (Tx.txSendBit { s with txSamplingEvent := none }) := by
  obtain ⟨⟨wanted, same⟩, history, -, frequency⟩ := transmitting
  have next := nextBitHistory (s := { s with txSamplingEvent := none }) history same busy
  obtain ⟨line, wanted', same', -, event', frequency'⟩ := nextBitKept { s with txSamplingEvent := none }
  dsimp only at next line wanted' same' event' frequency'
  have rate : (Tx.nextBit { s with txSamplingEvent := none }).1.frequency = cfg.baudrate * 2 := by
    rw [frequency']
    split
    · rw [same]
    · rename_i other
      exact frequency other
  unfold Tx.txSendBit
  generalize Tx.nextBit { s with txSamplingEvent := none } = after at *
  obtain ⟨after, bit⟩ := after
  have driven : after.driven = s.driven := congrArg Line.driven line
  dsimp only at *
  rw [← driven] at next
  split
  · rename_i more
    refine ⟨⟨wanted'.trans wanted, same'.trans same⟩, next, ?_, fun _ => rate⟩
    exact (if_neg more).symm
  · rename_i none
    refine ⟨⟨wanted'.trans wanted, wanted'.trans wanted⟩, next, ?_, fun _ => rate⟩
    exact event'.trans (if_pos (not_not.mp none)).symm

theorem txSendByteTransmitting (transmitting : Transmitting cfg s) (byte : Byte) : Transmitting cfg (s.txSendByte byte) := by
  obtain ⟨same, ⟨frames, bytes, line, sent, driven, progress⟩, event, frequency⟩ := transmitting
  have history : History cfg s.driven { s with txPendingBytes := s.txPendingBytes ++ [byte], sent := s.sent ++ [byte] } := by
    refine ⟨frames, bytes, line, ?_, driven, ?_⟩
    · dsimp only
      rw [sent, ← List.append_assoc]
    · unfold Progress at progress ⊢
      dsimp only
      cases state : s.txState <;> rw [state] at progress
      case start => exact ⟨by simp, progress.2⟩
      all_goals exact progress
  have busy (event : Option Nat) :
      ¬Tx.Finished { s with txPendingBytes := s.txPendingBytes ++ [byte], sent := s.sent ++ [byte], txSamplingEvent := event } :=
    fun finished => by simpa using finished.1
  unfold Tx.txSendByte Tx.txCheckPendingByte
  split
  · exact ⟨same, history, (if_neg (busy _)).symm, frequency⟩
  · rename_i enqueued
    refine ⟨same, history, ?_, frequency⟩
    rw [if_neg (busy _)]
    dsimp only at enqueued ⊢
    rw [event] at enqueued ⊢
    split at enqueued
    · exact absurd ⟨by simp, rfl⟩ enqueued
    · rename_i more
      exact if_neg more

theorem txSendBufferTransmitting (transmitting : Transmitting cfg s) (buffer : List Byte) :
    Transmitting cfg (s.txSendBuffer buffer) := by
  unfold Tx.txSendBuffer
  induction buffer generalizing s with
  | nil => exact transmitting
  | cons byte rest ih => exact ih (txSendByteTransmitting transmitting byte)

theorem stepTransmitting {a : Action} {next : Tx} (transmitting : Transmitting cfg s) (taken : step s a = some next) :
    Transmitting cfg next := by
  cases a with
  | buffer buffer =>
      cases taken
      exact txSendBufferTransmitting transmitting buffer
  | cts value =>
      cases taken
      exact ⟨transmitting.same, transmitting.history, transmitting.event, transmitting.frequency⟩
  | sample =>
      unfold step at taken
      dsimp only at taken
      split at taken
      · rename_i cycles enqueued
        cases taken
        refine sampleTransmitting transmitting fun finished => ?_
        rw [transmitting.event, if_pos finished] at enqueued
        contradiction
      · contradiction

theorem builtTransmitting (built : Built s) : Transmitting s.uartCfg s where
  same := ⟨rfl, built.cfg⟩
  history := by
    refine ⟨[], [], [], by simp [built.sent, built.pending], by simp [built.driven], ?_⟩
    unfold Progress
    rw [built.state]
    exact ⟨rfl, rfl⟩
  event := by rw [built.event, if_pos ⟨built.pending, built.state⟩]
  frequency := fun busy => absurd built.state busy

theorem runTransmitting {trace : List (Action × Tx)} {last : Tx} (built : Built s) (run : Run step anyStep s trace last) :
    Transmitting s.uartCfg last :=
  runInvariant (P := Transmitting s.uartCfg) run (builtTransmitting built) fun _ _ _ before _ taken => stepTransmitting before taken

def remaining (cfg : UartCfg) (s : Tx) : Nat :=
  let perByte := cfg.dataBits + 5
  match s.txState with
  | .idle => s.txPendingBytes.length * perByte
  | .start => (s.txPendingBytes.length - 1) * perByte + cfg.dataBits + 4
  | .data => s.txPendingBytes.length * perByte + s.txPendingBits + 3
  | .parity => s.txPendingBytes.length * perByte + 2
  | .stop => s.txPendingBytes.length * perByte + 1

theorem nextBitCloser (history : History cfg s.driven s) (same : s.txUartCfg = cfg) (busy : ¬s.Finished)
    (clear : cfg.flowControl = false ∨ s.txCts = 0) : remaining cfg s.nextBit.1 < remaining cfg s := by
  obtain ⟨frames, bytes, line, sent, driven, progress⟩ := history
  unfold Progress at progress
  unfold remaining Tx.nextBit
  cases state : s.txState <;> rw [state] at progress <;> dsimp only
  case idle =>
    have some : s.txPendingBytes ≠ [] := fun none => busy ⟨none, state⟩
    obtain ⟨byte, rest, pending⟩ := List.exists_cons_of_ne_nil some
    unfold Tx.idleBit
    dsimp only
    rw [if_pos some]
    dsimp only
    rw [pending, List.length_cons, Nat.add_sub_cancel, Nat.succ_mul]
    omega
  case start =>
    obtain ⟨byte, rest, pending⟩ := List.exists_cons_of_ne_nil progress.1
    unfold Tx.startBit
    rw [same, if_pos clear, pending]
    dsimp only
    rw [List.length_cons, Nat.add_sub_cancel]
    omega
  case data =>
    unfold Tx.dataBit
    by_cases more : 0 < s.txPendingBits
    · rw [if_pos more]
      dsimp only
      rw [state]
      dsimp only
      omega
    · rw [if_neg more]
      dsimp only
      by_cases even : s.txUartCfg.parity ≠ .none
      · rw [if_pos even]
        dsimp only
        omega
      · rw [if_neg even]
        dsimp only
        omega
  case parity =>
    unfold Tx.parityBit
    dsimp only
    omega
  case stop =>
    obtain ⟨-, -, -, -, stop⟩ := progress
    unfold Tx.stopBit
    dsimp only
    rw [if_pos (by omega)]
    dsimp only
    omega

theorem sampleKept (cfg : UartCfg) (s : Tx) : s.txSendBit.sent = s.sent ∧ s.txSendBit.txCts = s.txCts ∧
    remaining cfg s.txSendBit = remaining cfg s.nextBit.1 := by
  obtain ⟨line, -, -, cts, -⟩ := nextBitKept s
  have sent := congrArg Line.sent line
  unfold Tx.txSendBit
  dsimp only
  split <;> exact ⟨sent, cts, rfl⟩

theorem finishes (transmitting : Transmitting cfg s) (clear : cfg.flowControl = false ∨ s.txCts = 0) :
    ∃ trace done, Run step (fun _ a => a = .sample) s trace done ∧ done.Finished ∧ done.sent = s.sent := by
  induction left : remaining cfg s using Nat.strong_induction_on generalizing s with
  | _ n ih =>
      subst left
      by_cases finished : s.Finished
      · exact ⟨[], s, .nil s, finished, rfl⟩
      · have taken : step s .sample = some (Tx.txSendBit { s with txSamplingEvent := none }) := by
          unfold step
          rw [transmitting.event, if_neg finished]
        obtain ⟨sent, cts, left⟩ := sampleKept cfg { s with txSamplingEvent := none }
        have closer : remaining cfg (Tx.txSendBit { s with txSamplingEvent := none }) < remaining cfg s :=
          left ▸ nextBitCloser (s := { s with txSamplingEvent := none }) transmitting.history transmitting.same.2 finished clear
        obtain ⟨trace, done, run, finished', all⟩ := ih _ closer (sampleTransmitting transmitting finished) (clear.imp_right cts.trans) rfl
        exact ⟨_, done, Machine.runAppend (Machine.runSingle rfl taken) run, finished', all.trans sent⟩

end Steps

section Frames

variable {cfg : UartCfg} {b : Byte}

/- The high bit behind the data is the parity bit, when there is one. -/
def HighParity (cfg : UartCfg) (b : Byte) : Prop := cfg.parity ≠ .none → evenParity (dataBits cfg b) = true

theorem behindData {more later : List Bool} :
    true :: (parityBits cfg b ++ true :: more) = parityBits cfg b ++ (List.replicate cfg.stopBits true ++ later) ↔
      HighParity cfg b ∧ List.replicate 2 true ++ more = List.replicate cfg.stopBits true ++ later := by
  unfold parityBits HighParity
  split
  · rename_i none
    rw [List.nil_append, List.nil_append]
    exact ⟨fun same => ⟨fun even => absurd none even, same⟩, fun same => same.2⟩
  · rename_i even
    rw [List.singleton_append, List.singleton_append, List.cons.injEq]
    constructor
    · rintro ⟨high, same⟩
      rw [← high] at same
      exact ⟨fun _ => high.symm, same⟩
    · rintro ⟨high, same⟩
      rw [high even]
      exact ⟨rfl, same⟩

theorem frameEmitted {t : Transmission} {items : List Byte} {more : List Bool} :
    Framed (frameBody cfg) (t.byte :: items) (emitted cfg t ++ more) ↔ HighParity cfg t.byte ∧
      ∃ later, List.replicate 2 true ++ more = List.replicate cfg.stopBits true ++ later ∧ Framed (frameBody cfg) items later := by
  have split {later : List Bool} :
      dataBits cfg t.byte ++ true :: (parityBits cfg t.byte ++ [true]) ++ more = frameBody cfg t.byte ++ later ↔
        HighParity cfg t.byte ∧ List.replicate 2 true ++ more = List.replicate cfg.stopBits true ++ later := by
    unfold frameBody
    rw [List.append_assoc, List.append_assoc, List.append_cancel_left_eq, List.append_assoc, ← behindData]
    simp
  unfold emitted
  rw [List.append_assoc, framedIdle, List.cons_append, framedStart]
  constructor
  · rintro ⟨later, same, framed⟩
    obtain ⟨high, stop⟩ := split.mp same
    exact ⟨high, later, stop, framed⟩
  · rintro ⟨high, later, stop, framed⟩
    exact ⟨later, split.mpr ⟨high, stop⟩, framed⟩

/- Three stop bits are on the line when another byte follows, and two behind the last one. -/
theorem framedEmitted (frames : List Transmission) :
    Framed (frameBody cfg) (frames.map Transmission.byte) (frames.flatMap (emitted cfg)) ↔
      (frames = [] ∨ cfg.stopBits ≤ 2) ∧ ∀ t ∈ frames, HighParity cfg t.byte := by
  induction frames with
  | nil => exact ⟨fun _ => ⟨.inl rfl, nofun⟩, fun _ => rfl⟩
  | cons t rest ih =>
      rw [List.map_cons, List.flatMap_cons, frameEmitted, List.forall_mem_cons]
      constructor
      · rintro ⟨high, later, stop, framed⟩
        have tail : Framed (frameBody cfg) (rest.map Transmission.byte) (rest.flatMap (emitted cfg)) := by
          rw [← framedIdle 2, stop, framedIdle]
          exact framed
        obtain ⟨few, all⟩ := ih.mp tail
        refine ⟨.inr ?_, high, all⟩
        rcases few with rfl | few
        · have lengths := congrArg List.length stop
          simp only [List.flatMap_nil, List.append_nil, List.length_append, List.length_replicate] at lengths
          omega
        · exact few
      · rintro ⟨few, high, all⟩
        have stops : cfg.stopBits ≤ 2 := few.resolve_left (List.cons_ne_nil t rest)
        refine ⟨high, List.replicate (2 - cfg.stopBits) true ++ rest.flatMap (emitted cfg), ?_, ?_⟩
        · rw [← List.append_assoc, List.replicate_append_replicate, Nat.add_sub_cancel' stops]
        · rw [framedIdle]
          exact ih.mpr ⟨.inr stops, all⟩

end Frames

section Runs

variable {s last : Tx} {trace : List (Action × Tx)}

/- When all is out, the line has the frames of the bytes exactly when there are at most two stop bits and every parity bit is high. All
goes out when nothing holds the start bits back, one bit in a period. -/
theorem framesDriven (built : Built s) (run : Run step anyStep s trace last) :
    (last.Finished → (Framed (frameBody s.uartCfg) last.sent last.driven ↔
      (last.sent = [] ∨ s.uartCfg.stopBits ≤ 2) ∧ ∀ b ∈ last.sent, HighParity s.uartCfg b)) ∧
    (¬last.Finished → last.txSamplingEvent = some 2) ∧ (last.txState ≠ .idle → last.frequency = s.uartCfg.baudrate * 2) ∧
    (s.uartCfg.flowControl = false ∨ last.txCts = 0 →
      ∃ more done, Run step (fun _ a => a = .sample) last more done ∧ done.Finished ∧ done.sent = last.sent) := by
  have transmitting := runTransmitting built run
  refine ⟨fun finished => ?_, fun busy => ?_, transmitting.frequency, finishes transmitting⟩
  · obtain ⟨frames, bytes, line, sent, driven, progress⟩ := transmitting.history
    unfold Progress at progress
    rw [finished.2] at progress
    obtain ⟨rfl, rfl⟩ := progress
    rw [finished.1, List.append_nil, List.append_nil] at sent
    rw [driven, List.append_nil, sent, framedEmitted, List.map_eq_nil_iff, List.forall_mem_map]
  · rw [transmitting.event, if_neg busy]

def factory (parity : UartParity) : Tx where
  sent := []
  driven := []
  uartCfg := ⟨115200, 8, 1, parity, true⟩
  txState := .idle
  txPendingBytes := []
  txCts := 0
  txBit := true
  txUartCfg := ⟨115200, 8, 1, parity, true⟩
  txParity := false
  txCurrentStopBits := 0
  txPendingBits := 0
  txCurrentPendingByte := 0
  frequency := 0
  txSamplingEvent := none

theorem factoryBuilt (parity : UartParity) : Built (factory parity) := ⟨rfl, rfl, rfl, rfl, rfl, rfl⟩

/- Two bytes, with the pin that holds the second one back for a period. -/
def heldActions : List Action :=
  .buffer [0x41, 0x43] :: List.replicate 13 .sample ++ [.cts 1, .sample, .sample, .cts 0] ++ List.replicate 11 .sample

theorem framesDrivenHeld : (reach step anyStep (factory .none) heldActions).sent = [0x41, 0x43] ∧
    Framed (frameBody (factory .none).uartCfg) (reach step anyStep (factory .none) heldActions).sent
      (reach step anyStep (factory .none) heldActions).driven := by
  obtain ⟨run, -⟩ := Machine.reachTrace step anyStep (factory .none) heldActions (by decide +kernel)
  refine ⟨by decide +kernel, ((framesDriven (factoryBuilt .none) run).1 (by decide +kernel)).mpr ⟨.inr (by decide), ?_⟩⟩
  exact fun _ _ even => absurd rfl even

/- The parity bit of this byte is low. -/
theorem parityLate : ∃ s trace last, Built s ∧ Run step anyStep s trace last ∧ last.Finished ∧
    ¬Framed (frameBody s.uartCfg) last.sent last.driven := by
  obtain ⟨run, -⟩ := Machine.reachTrace step anyStep (factory .even) (.buffer [0x41] :: List.replicate 13 .sample) (by decide +kernel)
  refine ⟨_, _, _, factoryBuilt .even, run, by decide +kernel, fun framed => ?_⟩
  have driven : (reach step anyStep (factory .even) (.buffer [0x41] :: List.replicate 13 .sample)).driven =
      [(⟨0x41, 0⟩ : Transmission)].flatMap (emitted (factory .even).uartCfg) := by decide +kernel
  have sent : (reach step anyStep (factory .even) (.buffer [0x41] :: List.replicate 13 .sample)).sent =
      [(⟨0x41, 0⟩ : Transmission)].map Transmission.byte := by decide +kernel
  rw [driven, sent] at framed
  have high := ((framedEmitted _).mp framed).2 ⟨0x41, 0⟩ (by simp) (by decide)
  revert high
  decide +kernel

end Runs

end Gvsoc.NinaUart
