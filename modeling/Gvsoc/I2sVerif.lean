import Gvsoc.ShiftRegister

/-! The slots of the I2S testbench. A slot sends its samples bit by bit in a frame of the word size of the interface, and
puts the samples it receives into a stream; the word size and the format of its samples are its own. -/
namespace Gvsoc.I2sVerif
open ShiftRegister (shiftIn bit)

abbrev Word := BitVec 32

structure SlotConfig where
  wordSize : Nat
  format : BitVec 8
  deriving DecidableEq, Repr

def SlotConfig.msbFirst (config : SlotConfig) : Bool := config.format.getLsbD 0

def SlotConfig.leftAlign (config : SlotConfig) : Bool := config.format.getLsbD 1

structure RxIter where
  nbSamples : Int
  incrStart : Word
  incrEnd : Word
  incrValue : Word
  deriving DecidableEq, Repr

/- What is received by the chip is sent by the slot (rx), and the other way round (tx). `outstream` has the samples that were
pushed, each with its channel. -/
structure Slot where
  configRx : SlotConfig
  configTx : SlotConfig
  startConfigRx : RxIter
  nbSamplesTx : Int
  rxStarted : Bool
  rxPendingBits : Int
  rxCurrentValue : Word
  rxPendingValue : Word
  instream : Bool
  rxChannelId : Int
  txStarted : Bool
  txPendingBits : Int
  txPendingValue : Word
  txChannelId : List Int
  outstream : Option (List (Word × Int))
  deriving DecidableEq, Repr

def reverseLoop : Nat → Word → Word → Word
  | 0, value, _ => value
  | n + 1, value, pending => reverseLoop n (value <<< 1 ||| (pending &&& 1)) (pending >>> 1)

def adapted (config : SlotConfig) (wordSize : Nat) (value : Word) : Word :=
  let dummyCycles : Int := wordSize - config.wordSize
  let value := if config.msbFirst then value else reverseLoop config.wordSize 0 value
  if dummyCycles ≠ 0 then
    if config.leftAlign then value <<< dummyCycles.toNat else value &&& BitVec.ofNat 32 (2 ^ config.wordSize - 1)
  else value

def sampled (config : SlotConfig) (wordSize : Nat) (value : Word) : Word :=
  let dummyCycles : Int := wordSize - config.wordSize
  if dummyCycles ≠ 0 then
    if config.msbFirst then if config.leftAlign then value >>> dummyCycles.toNat else value
    else if config.leftAlign then reverseLoop wordSize 0 value else reverseLoop config.wordSize 0 value
  else if config.msbFirst then value else reverseLoop config.wordSize 0 value

namespace Slot

variable (wordSize : Nat) (s : Slot)

def nextSample : Slot :=
  let iter := s.startConfigRx
  { s with
    rxCurrentValue := if iter.incrEnd - s.rxCurrentValue ≤ iter.incrValue then iter.incrStart else s.rxCurrentValue + iter.incrValue
    startConfigRx := { iter with nbSamples := if 0 < iter.nbSamples then iter.nbSamples - 1 else iter.nbSamples } }

/- The sample of the frame, from the stream or counted. -/
def startRx (getSample : Int → Word) : Slot :=
  let s :=
    if s.instream then { s with rxPendingBits := wordSize, rxPendingValue := getSample s.rxChannelId }
    else if 0 < s.startConfigRx.nbSamples ∨ s.startConfigRx.nbSamples = -1 then
      { s with rxPendingBits := wordSize, rxPendingValue := s.rxCurrentValue }
    else s
  if 0 < s.rxPendingBits then { s.nextSample with rxPendingValue := adapted s.configRx wordSize s.rxPendingValue } else s

def startTx : Slot :=
  if s.txStarted = true ∧ (0 < s.nbSamplesTx ∨ s.nbSamplesTx = -1) then { s with txPendingValue := 0, txPendingBits := wordSize }
  else s

def startFrame (getSample : Int → Word) : Slot := (if s.rxStarted then s.startRx wordSize getSample else s).startTx wordSize

def sendData (sd : Int) : Slot :=
  if s.txStarted = true ∧ 0 < s.txPendingBits then
    let s := { s with
      txPendingBits := s.txPendingBits - 1
      txPendingValue := s.txPendingValue <<< 1 ||| bit 32 (sd == 1) }
    if s.txPendingBits = 0 then
      let sample := sampled s.configTx wordSize s.txPendingValue
      { s with
        txPendingValue := sample
        outstream := s.outstream.map (· ++ s.txChannelId.map fun channelId => (sample, channelId))
        txPendingBits := wordSize }
    else s
  else s

/- The level of the line, 2 when the slot does not drive it. -/
def getData : Slot × Int :=
  if s.rxStarted then
    if 0 < s.rxPendingBits then
      ({ s with rxPendingBits := s.rxPendingBits - 1, rxPendingValue := s.rxPendingValue <<< 1 },
        (s.rxPendingValue >>> (wordSize - 1) &&& 1).toNat)
    else (if s.startConfigRx.nbSamples = 0 then { s with rxStarted := false } else s, 0)
  else (s, 2)

def getDatas : Nat → Slot → List Int
  | 0, _ => []
  | n + 1, s =>
      let (s, data) := s.getData wordSize
      data :: getDatas n s

def sendDatas (datas : List Int) : Slot := datas.foldl (fun s sd => s.sendData wordSize sd) s

end Slot

section Bits

theorem lowBit (x : Word) : x &&& 1 = bit 32 (x.getLsbD 0) := by
  apply BitVec.eq_of_getLsbD_eq
  intro i inside
  cases i with
  | zero => simp [bit]
  | succ i => simp [bit]

theorem reverseLoopShift (n : Nat) (value pending : Word) :
    reverseLoop n value pending = shiftIn value ((List.range n).map pending.getLsbD) := by
  induction n generalizing value pending with
  | zero => rfl
  | succ n ih =>
      have later : (List.range n).map (pending >>> 1).getLsbD = (List.range n).map (pending.getLsbD ∘ Nat.succ) := by
        refine List.map_congr_left fun i _ => ?_
        rw [BitVec.getLsbD_ushiftRight, Nat.add_comm]
        rfl
      rw [reverseLoop, ih, lowBit, List.range_succ_eq_map, List.map_cons, ShiftRegister.shiftInCons, List.map_map, later]

theorem reverseBit (n : Nat) (x : Word) {i : Nat} (inside : i < 32) :
    (reverseLoop n 0 x).getLsbD i = (decide (i < n) && x.getLsbD (n - 1 - i)) := by
  rw [reverseLoopShift, ShiftRegister.shiftInBit _ _ inside, List.length_map, List.length_range]
  by_cases low : i < n
  · have place : n - 1 - i < n := by omega
    simp [low, place]
  · simp [low]

/- The levels of a frame, the bit at the top of the word size first. -/
def emitted (wordSize n : Nat) (value : Word) : List Bool := (List.range n).map fun k => value.getLsbD (wordSize - 1 - k)

theorem emittedCons (wordSize n : Nat) (value : Word) (few : n < wordSize) (short : wordSize ≤ 32) :
    emitted wordSize (n + 1) value = value.getLsbD (wordSize - 1) :: emitted wordSize n (value <<< 1) := by
  unfold emitted
  rw [List.range_succ_eq_map, List.map_cons, List.map_map]
  refine congrArg (_ :: ·) (List.map_congr_left fun k member => ?_)
  have below := List.mem_range.mp member
  have place : wordSize - 1 - k - 1 = wordSize - 1 - (k + 1) := by omega
  have some : ¬ wordSize - 1 - k < 1 := by omega
  have room : wordSize - 1 - k < 32 := by omega
  change value.getLsbD (wordSize - 1 - (k + 1)) = _
  simp only [BitVec.getLsbD_shiftLeft, place, some, room, decide_true, decide_false, Bool.not_false, Bool.true_and]

theorem frameBit (wordSize : Nat) (value : Word) {i : Nat} (inside : i < 32) :
    (shiftIn (0 : Word) (emitted wordSize wordSize value)).getLsbD i = (decide (i < wordSize) && value.getLsbD i) := by
  rw [ShiftRegister.shiftInBit _ _ inside]
  unfold emitted
  rw [List.length_map, List.length_range]
  by_cases low : i < wordSize
  · have place : wordSize - 1 - i < wordSize := by omega
    have twice : wordSize - 1 - (wordSize - 1 - i) = i := by omega
    simp [low, place, twice]
  · simp [low]

end Bits

section Frames

variable {wordSize : Nat} {s : Slot}

def level (b : Bool) : Int := if b then 1 else 0

theorem levelOne (b : Bool) : (level b == 1) = b := by cases b <;> rfl

theorem topLevel (value : Word) (wordSize : Nat) : ((value >>> (wordSize - 1) &&& 1).toNat : Int) = level (value.getLsbD (wordSize - 1)) := by
  rw [lowBit, BitVec.getLsbD_ushiftRight, Nat.add_zero]
  cases value.getLsbD (wordSize - 1) <;> rfl

theorem getDatasEmitted (short : wordSize ≤ 32) {n : Nat} (few : n ≤ wordSize) (started : s.rxStarted = true)
    (pending : s.rxPendingBits = n) : s.getDatas wordSize n = (emitted wordSize n s.rxPendingValue).map level := by
  induction n generalizing s with
  | zero => rfl
  | succ n ih =>
      have more : 0 < s.rxPendingBits := by omega
      rw [emittedCons wordSize n s.rxPendingValue few short, List.map_cons, Slot.getDatas, Slot.getData, if_pos started, if_pos more]
      dsimp only
      rw [topLevel]
      refine congrArg (_ :: ·) ?_
      refine ih (by omega) started ?_
      change s.rxPendingBits - 1 = n
      omega

theorem sendDatasPushed {bits : List Bool} (some : bits ≠ []) (started : s.txStarted = true) (pending : s.txPendingBits = bits.length) :
    (s.sendDatas wordSize (bits.map level)).outstream =
      s.outstream.map (· ++ s.txChannelId.map fun channelId => (sampled s.configTx wordSize (shiftIn s.txPendingValue bits), channelId)) := by
  induction bits generalizing s with
  | nil => contradiction
  | cons b rest ih =>
      have more : s.txStarted = true ∧ 0 < s.txPendingBits := by
        refine ⟨started, ?_⟩
        rw [pending, List.length_cons]
        omega
      rw [List.length_cons] at pending
      change (Slot.sendDatas wordSize (s.sendData wordSize (level b)) (rest.map level)).outstream = _
      rw [Slot.sendData, if_pos more, levelOne, ShiftRegister.shiftInCons]
      dsimp only
      cases rest with
      | nil =>
          have last : s.txPendingBits - 1 = 0 := by
            rw [pending]
            rfl
          rw [if_pos last]
          rfl
      | cons next rest =>
          have later : s.txPendingBits - 1 = ((next :: rest).length : Int) := by omega
          have going : s.txPendingBits - 1 ≠ 0 := by
            rw [later, List.length_cons]
            omega
          rw [if_neg going]
          exact ih (List.cons_ne_nil _ _) started later

end Frames

section Formats

variable {config : SlotConfig} {wordSize : Nat}

/- A sample with its bits turned around is the sample again when they are turned once more, whatever is behind it. -/
theorem turnedTwice {n m : Nat} {value received : Word} (few : n ≤ m) (short : m ≤ 32)
    (turned : ∀ j, j < 32 → received.getLsbD j = (decide (j < m) && decide (m - n ≤ j) && (reverseLoop n 0 value).getLsbD (j - (m - n))))
    {i : Nat} (inside : i < 32) : (reverseLoop m 0 received).getLsbD i = (decide (i < n) && value.getLsbD i) := by
  rw [reverseBit m received inside]
  by_cases below : i < m
  · rw [turned (m - 1 - i) (by omega), reverseBit n value (by omega)]
    by_cases low : i < n
    · have first : m - 1 - i < m := by omega
      have behind : m - n ≤ m - 1 - i := by omega
      have place : m - 1 - i - (m - n) < n := by omega
      have back : n - 1 - (m - 1 - i - (m - n)) = i := by omega
      simp only [below, low, first, behind, place, back, decide_true, Bool.true_and]
    · have behind : ¬ m - n ≤ m - 1 - i := by omega
      simp only [low, behind, decide_false, Bool.and_false, Bool.false_and]
  · have low : ¬ i < n := by omega
    simp only [below, low, decide_false, Bool.false_and]

theorem maskBit (n : Nat) (x : Word) {i : Nat} (inside : i < 32) :
    (x &&& BitVec.ofNat 32 (2 ^ n - 1)).getLsbD i = (decide (i < n) && x.getLsbD i) := by
  rw [ShiftRegister.maskLow, BitVec.getLsbD_setWidth, BitVec.getLsbD_setWidth]
  simp only [inside, decide_true, Bool.true_and]

theorem formatBit (fits : config.wordSize ≤ wordSize) (short : wordSize ≤ 32) (value : Word) {i : Nat} (inside : i < 32) :
    (sampled config wordSize (shiftIn 0 (emitted wordSize wordSize (adapted config wordSize value)))).getLsbD i =
      (decide (i < config.wordSize) && value.getLsbD i) := by
  have frame : ∀ j, j < 32 → (shiftIn (0 : Word) (emitted wordSize wordSize (adapted config wordSize value))).getLsbD j =
      (decide (j < wordSize) && (adapted config wordSize value).getLsbD j) := fun j => frameBit wordSize _
  generalize shiftIn (0 : Word) (emitted wordSize wordSize (adapted config wordSize value)) = received at frame ⊢
  unfold adapted at frame
  unfold sampled
  dsimp only at frame ⊢
  generalize config.wordSize = w at fits frame ⊢
  by_cases dummy : (wordSize : Int) - w ≠ 0
  · have shift : ((wordSize : Int) - w).toNat = wordSize - w := by omega
    rw [if_pos dummy] at frame ⊢
    rw [shift] at frame ⊢
    cases msb : config.msbFirst with
    | true =>
        cases left : config.leftAlign with
        | true =>
            simp only [msb, left, if_true] at frame ⊢
            rw [BitVec.getLsbD_ushiftRight]
            by_cases room : wordSize - w + i < 32
            · have place : wordSize - w + i - (wordSize - w) = i := by omega
              have behind : ¬ wordSize - w + i < wordSize - w := by omega
              have bound : (wordSize - w + i < wordSize) = (i < w) := propext (by omega)
              rw [frame _ room, BitVec.getLsbD_shiftLeft]
              simp only [place, behind, bound, room, decide_true, decide_false, Bool.not_false, Bool.true_and]
            · have high : ¬ i < w := by omega
              rw [BitVec.getLsbD_of_ge _ _ (by omega)]
              simp only [high, decide_false, Bool.false_and]
        | false =>
            simp only [msb, left, if_true, Bool.false_eq_true, if_false] at frame ⊢
            rw [frame i inside, maskBit w value inside]
            by_cases low : i < w
            · have below : i < wordSize := by omega
              simp only [low, below, decide_true, Bool.true_and]
            · simp only [low, decide_false, Bool.false_and, Bool.and_false]
    | false =>
        cases left : config.leftAlign with
        | true =>
            simp only [msb, left, if_true, Bool.false_eq_true, if_false] at frame ⊢
            refine turnedTwice fits short (fun j small => ?_) inside
            rw [frame j small, BitVec.getLsbD_shiftLeft]
            simp only [small, decide_true, Bool.true_and, ← decide_not, Nat.not_lt, Bool.and_assoc]
        | false =>
            simp only [msb, left, Bool.false_eq_true, if_false] at frame ⊢
            refine turnedTwice le_rfl (fits.trans short) (fun j small => ?_) inside
            rw [frame j small, maskBit w _ small, Nat.sub_self, Nat.sub_zero]
            by_cases low : j < w
            · have below : j < wordSize := by omega
              simp only [low, below, Nat.zero_le, decide_true, Bool.true_and]
            · simp only [low, decide_false, Bool.false_and, Bool.and_false]
  · have same : wordSize = w := by omega
    subst same
    rw [if_neg dummy] at frame ⊢
    cases msb : config.msbFirst with
    | true =>
        simp only [msb, if_true] at frame ⊢
        exact frame i inside
    | false =>
        simp only [msb, Bool.false_eq_true, if_false] at frame ⊢
        refine turnedTwice le_rfl short (fun j small => ?_) inside
        rw [frame j small, Nat.sub_self, Nat.sub_zero]
        simp only [Nat.zero_le, decide_true, Bool.and_true]

theorem formatSample (fits : config.wordSize ≤ wordSize) (short : wordSize ≤ 32) (value : Word) :
    sampled config wordSize (shiftIn 0 (emitted wordSize wordSize (adapted config wordSize value))) =
      BitVec.ofNat 32 (value.toNat % 2 ^ config.wordSize) := by
  apply BitVec.eq_of_getLsbD_eq
  intro i inside
  rw [formatBit fits short value inside, BitVec.getLsbD_ofNat, Nat.testBit_mod_two_pow, BitVec.testBit_toNat]
  simp only [inside, decide_true, Bool.true_and]

end Formats

def Slot.Sends (s : Slot) (getSample : Int → Word) (value : Word) : Prop :=
  s.rxStarted = true ∧
    if s.instream then getSample s.rxChannelId = value
    else (0 < s.startConfigRx.nbSamples ∨ s.startConfigRx.nbSamples = -1) ∧ s.rxCurrentValue = value

def Slot.Receives (s : Slot) : Prop := s.txStarted = true ∧ (0 < s.nbSamplesTx ∨ s.nbSamplesTx = -1)

instance (s : Slot) (getSample : Int → Word) (value : Word) : Decidable (s.Sends getSample value) := by
  unfold Slot.Sends
  infer_instance

instance (s : Slot) : Decidable s.Receives := by
  unfold Slot.Receives
  infer_instance

section Starts

variable {wordSize : Nat} {s : Slot}

theorem startTxRx (wordSize : Nat) (s : Slot) : (s.startTx wordSize).rxStarted = s.rxStarted ∧
    (s.startTx wordSize).rxPendingBits = s.rxPendingBits ∧ (s.startTx wordSize).rxPendingValue = s.rxPendingValue := by
  unfold Slot.startTx
  split <;> exact ⟨rfl, rfl, rfl⟩

theorem startRxTx (wordSize : Nat) (s : Slot) (getSample : Int → Word) :
    (s.startRx wordSize getSample).txStarted = s.txStarted ∧ (s.startRx wordSize getSample).nbSamplesTx = s.nbSamplesTx ∧
      (s.startRx wordSize getSample).configTx = s.configTx ∧ (s.startRx wordSize getSample).txChannelId = s.txChannelId ∧
      (s.startRx wordSize getSample).outstream = s.outstream := by
  unfold Slot.startRx Slot.nextSample
  dsimp only
  split_ifs <;> exact ⟨rfl, rfl, rfl, rfl, rfl⟩

theorem startFrameSends {getSample : Int → Word} {value : Word} (some : 0 < wordSize) (sends : s.Sends getSample value) :
    (s.startFrame wordSize getSample).rxStarted = true ∧ (s.startFrame wordSize getSample).rxPendingBits = wordSize ∧
      (s.startFrame wordSize getSample).rxPendingValue = adapted s.configRx wordSize value := by
  obtain ⟨started, source⟩ := sends
  have more : (0 : Int) < wordSize := by omega
  obtain ⟨kept, bits, pending⟩ := startTxRx wordSize (s.startRx wordSize getSample)
  rw [Slot.startFrame, if_pos started, kept, bits, pending]
  unfold Slot.startRx Slot.nextSample
  dsimp only
  cases stream : s.instream with
  | true =>
      rw [stream, if_pos rfl] at source
      rw [if_pos rfl, if_pos more]
      exact ⟨started, rfl, by rw [source]⟩
  | false =>
      rw [stream, if_neg Bool.false_ne_true] at source
      rw [if_neg Bool.false_ne_true, if_pos source.1, if_pos more]
      exact ⟨started, rfl, by rw [source.2]⟩

theorem startFrameReceives (wordSize : Nat) (getSample : Int → Word) (receives : s.Receives) :
    let s' := s.startFrame wordSize getSample
    s'.txStarted = true ∧ s'.txPendingBits = wordSize ∧ s'.txPendingValue = 0 ∧ s'.configTx = s.configTx ∧
      s'.txChannelId = s.txChannelId ∧ s'.outstream = s.outstream := by
  unfold Slot.startFrame
  have before : ∃ r : Slot, (if s.rxStarted then s.startRx wordSize getSample else s) = r ∧ r.Receives ∧ r.configTx = s.configTx ∧
      r.txChannelId = s.txChannelId ∧ r.outstream = s.outstream := by
    refine ⟨_, rfl, ?_⟩
    obtain ⟨started, samples, config, channels, stream⟩ := startRxTx wordSize s getSample
    split
    · refine ⟨?_, config, channels, stream⟩
      unfold Slot.Receives
      rw [started, samples]
      exact receives
    · exact ⟨receives, rfl, rfl, rfl⟩
  obtain ⟨r, same, again, config, channels, stream⟩ := before
  have framed : r.startTx wordSize = { r with txPendingValue := 0, txPendingBits := wordSize } := if_pos again
  rw [same, framed]
  exact ⟨again.1, rfl, rfl, config, channels, stream⟩

end Starts

/- A frame from one slot to another of the same format pushes the low bits of the sample, once for each channel. -/
theorem slotFormats {wordSize : Nat} {s r : Slot} {getSample other : Int → Word} {value : Word} (sends : s.Sends getSample value)
    (receives : r.Receives) (format : r.configTx = s.configRx) (some : 1 ≤ s.configRx.wordSize)
    (fits : s.configRx.wordSize ≤ wordSize) (short : wordSize ≤ 32) :
    ((r.startFrame wordSize other).sendDatas wordSize ((s.startFrame wordSize getSample).getDatas wordSize wordSize)).outstream =
      r.outstream.map (· ++ r.txChannelId.map fun channelId =>
        (BitVec.ofNat 32 (value.toNat % 2 ^ s.configRx.wordSize), channelId)) := by
  have wide : 0 < wordSize := by omega
  obtain ⟨started, bits, pending⟩ := startFrameSends wide sends
  obtain ⟨started', bits', empty, config, channels, stream⟩ := startFrameReceives wordSize other receives
  have length : (emitted wordSize wordSize (adapted s.configRx wordSize value)).length = wordSize := by simp [emitted]
  have filled : emitted wordSize wordSize (adapted s.configRx wordSize value) ≠ [] := by
    rw [← List.length_pos_iff, length]
    exact wide
  rw [getDatasEmitted short le_rfl started bits, pending, sendDatasPushed filled started' (by rw [bits', length]), empty, config,
    channels, stream, format, formatSample fits short]

def fiveSender : Slot where
  configRx := ⟨5, 2⟩
  configTx := ⟨8, 0⟩
  startConfigRx := ⟨1, 0x33, 0xFF, 1⟩
  nbSamplesTx := 0
  rxStarted := true
  rxPendingBits := 0
  rxCurrentValue := 0x33
  rxPendingValue := 0
  instream := false
  rxChannelId := 0
  txStarted := false
  txPendingBits := 0
  txPendingValue := 0
  txChannelId := []
  outstream := none

def fiveReceiver : Slot :=
  { fiveSender with configTx := ⟨5, 2⟩, nbSamplesTx := -1, rxStarted := false, txStarted := true, txChannelId := [0, 1], outstream := some [] }

theorem slotFormatsFive :
    ((fiveReceiver.startFrame 8 fun _ => 0).sendDatas 8 ((fiveSender.startFrame 8 fun _ => 0).getDatas 8 8)).outstream =
      some [(0x13, 0), (0x13, 1)] :=
  @slotFormats 8 fiveSender fiveReceiver (fun _ => 0) (fun _ => 0) 0x33 (by decide) (by decide) rfl (by decide) (by decide) (by decide)

end Gvsoc.I2sVerif
