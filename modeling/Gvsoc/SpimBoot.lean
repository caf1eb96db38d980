import Gvsoc.SpimTarget

/-! The boot loading as the target sees it: what each exec leaves of the section that is being
sent, and of the sections that were sent before it. -/
namespace Gvsoc.Spim
open Bytes (Byte wordBytes wordOf)
open Cells (Holds)

def loaded (done : List SpiLoaderSection) (phase : Phase) : Target where
  phase
  chunks := (done.filter fun sec => sec.access).map fun sec => (sec.addr, sec.buffer)
  jumps := (done.filter fun sec => !sec.access).map fun sec => sec.addr

def Fits (sec : SpiLoaderSection) : Prop :=
  sec.access = true → sec.size = sec.buffer.length ∧ 0 < sec.size ∧ sec.size ≤ cmdBufferSize

def Header (sec : SpiLoaderSection) (header : List Byte) : Prop :=
  ∃ sizeMinus1 crc, header = (if sec.access then 0x02 else 0x03) :: wordBytes sec.addr 4 ++ [sizeMinus1, crc] ∧
    (sec.access = true → sizeMinus1.toNat + 1 = sec.size)

section Taken

variable {done : List SpiLoaderSection} {sec : SpiLoaderSection} {reply : Byte}

theorem takeSof : (loaded done .idle).take reply [0x5A] = some (loaded done (if reply = 0xA5 then .framed else .idle)) := rfl

theorem addressRead (addr : BitVec 32) :
    wordOf 32 [Bytes.byteOf addr 0, Bytes.byteOf addr 1, Bytes.byteOf addr 2, Bytes.byteOf addr 3] = addr :=
  Bytes.wordOfBytes addr 4 addr.isLt

theorem takeHeader {header : List Byte} (shape : Header sec header) (access : sec.access = true) :
    (loaded done .framed).take reply header = some (loaded done (.requested sec.addr sec.size)) := by
  obtain ⟨sizeMinus1, crc, rfl, size⟩ := shape
  simp only [access, if_true, ← size access]
  change some (loaded done (.requested (wordOf 32 [_, _, _, _]) _)) = _
  rw [addressRead]

theorem takeJump {header : List Byte} (shape : Header sec header) (access : sec.access = false) :
    (loaded done .framed).take reply header = some (loaded (done ++ [sec]) .idle) := by
  obtain ⟨sizeMinus1, crc, rfl, -⟩ := shape
  have jumped : loaded (done ++ [sec]) .idle = { loaded done .framed with
      phase := .idle
      jumps := (loaded done .framed).jumps ++
        [wordOf 32 [Bytes.byteOf sec.addr 0, Bytes.byteOf sec.addr 1, Bytes.byteOf sec.addr 2, Bytes.byteOf sec.addr 3]] } := by
    simp [loaded, access, addressRead]
  simp only [access, Bool.false_eq_true, if_false, jumped]
  rfl

theorem takeAck {addr : BitVec 32} {size : Nat} :
    (loaded done (.requested addr size)).take reply [0x00] =
      some (loaded done (if reply = 0x79 then .acked addr size else .requested addr size)) := rfl

theorem takeCrc {addr : BitVec 32} {size : Nat} {crc : Byte} :
    (loaded done (.acked addr size)).take reply [crc] = some (loaded done (.announced addr size)) := rfl

theorem takeData (fits : Fits sec) (access : sec.access = true) :
    (loaded done (.announced sec.addr sec.size)).take reply sec.buffer = some (loaded (done ++ [sec]) .idle) := by
  simp [Target.take, loaded, access, (fits access).1]

end Taken

structure Loader (secs : List SpiLoaderSection) (s : SpimVerif) (started : List SpiLoaderSection) : Prop where
  sections : s.sections = secs
  part : started <+: secs
  current : s.currentSectionLoad = started.length
  load : s.doSpiLoad = true
  config : s.spiLoadConfig = none
  wakeup : s.handleWakeup = false
  pads : s.initPads = false

structure Request (s : SpimVerif) (sec : SpiLoaderSection) : Prop where
  address : s.slaveBootAddress = sec.addr
  jump : s.slaveBootJump = !sec.access
  data : sec.access = true → s.slaveBootIsRx = false ∧ s.slaveBootVerifAddress = 0 ∧ s.slaveBootSize = sec.size

def Stored (sec : SpiLoaderSection) (data : Nat → Byte) : Prop := sec.access = true → Holds data 0 sec.buffer

inductive Booting (memSizeLog2 : Nat) (secs : List SpiLoaderSection) (s : SpimVerif) (w : Wire) : Prop where
  | sof (done : List SpiLoaderSection) (sec : SpiLoaderSection) (loader : Loader secs s (done ++ [sec])) (request : Request s sec)
      (state : s.slaveBootState = .checkSof) (before : Nat → Byte) (frames : List (List Edge))
      (sending : Sending ⟨memSize memSizeLog2, [0x5A], true, before, frames⟩ s.toTransfer w)
      (taken : accept frames = some (loaded done .idle)) (stored : Stored sec before) (header : List Byte)
      (shape : Header sec header) (held : Holds before (memSize memSizeLog2 + 1) header)
  | sofAgain (done : List SpiLoaderSection) (sec : SpiLoaderSection) (loader : Loader secs s (done ++ [sec])) (request : Request s sec)
      (state : s.slaveBootState = .sendSof) (frames : List (List Edge)) (quiet : Quiet s.toTransfer w frames)
      (taken : accept frames = some (loaded done .idle)) (stored : Stored sec s.data)
  | header (done : List SpiLoaderSection) (sec : SpiLoaderSection) (loader : Loader secs s (done ++ [sec])) (request : Request s sec)
      (access : sec.access = true) (state : s.slaveBootState = .getAckStep0) (before : Nat → Byte) (frames : List (List Edge))
      (header : List Byte) (shape : Header sec header)
      (sending : Sending ⟨memSize memSizeLog2 + 1, header, true, before, frames⟩ s.toTransfer w)
      (taken : accept frames = some (loaded done .framed)) (stored : Stored sec before) (echo : before (memSize memSizeLog2) = 0xA5)
  | ackAgain (done : List SpiLoaderSection) (sec : SpiLoaderSection) (loader : Loader secs s (done ++ [sec])) (request : Request s sec)
      (access : sec.access = true) (state : s.slaveBootState = .getAckStep1) (frames : List (List Edge))
      (quiet : Quiet s.toTransfer w frames) (taken : accept frames = some (loaded done (.requested sec.addr sec.size)))
      (stored : Stored sec s.data)
  | ack (done : List SpiLoaderSection) (sec : SpiLoaderSection) (loader : Loader secs s (done ++ [sec])) (request : Request s sec)
      (access : sec.access = true) (state : s.slaveBootState = .getAckStep2) (before : Nat → Byte) (frames : List (List Edge))
      (sending : Sending ⟨memSize memSizeLog2, [0x00], true, before, frames⟩ s.toTransfer w)
      (taken : accept frames = some (loaded done (.requested sec.addr sec.size))) (stored : Stored sec before)
  | crcNext (done : List SpiLoaderSection) (sec : SpiLoaderSection) (loader : Loader secs s (done ++ [sec])) (request : Request s sec)
      (access : sec.access = true) (state : s.slaveBootState = .sendDataCrc) (frames : List (List Edge))
      (quiet : Quiet s.toTransfer w frames) (taken : accept frames = some (loaded done (.acked sec.addr sec.size)))
      (stored : Stored sec s.data)
  | crc (done : List SpiLoaderSection) (sec : SpiLoaderSection) (loader : Loader secs s (done ++ [sec])) (request : Request s sec)
      (access : sec.access = true) (state : s.slaveBootState = .sendData) (before : Nat → Byte) (frames : List (List Edge)) (crc : Byte)
      (sending : Sending ⟨memSize memSizeLog2, [crc], false, before, frames⟩ s.toTransfer w)
      (taken : accept frames = some (loaded done (.acked sec.addr sec.size))) (stored : Stored sec before)
  | data (done : List SpiLoaderSection) (sec : SpiLoaderSection) (loader : Loader secs s (done ++ [sec])) (request : Request s sec)
      (access : sec.access = true) (state : s.slaveBootState = .sendDataDone) (before : Nat → Byte) (frames : List (List Edge))
      (sending : Sending ⟨0, sec.buffer, false, before, frames⟩ s.toTransfer w)
      (taken : accept frames = some (loaded done (.announced sec.addr sec.size)))
  | jump (done : List SpiLoaderSection) (sec : SpiLoaderSection) (loader : Loader secs s (done ++ [sec]))
      (access : sec.access = false) (noJump : s.slaveBootJump = false) (state : s.slaveBootState = .idle)
      (before : Nat → Byte) (frames : List (List Edge)) (header : List Byte) (shape : Header sec header)
      (sending : Sending ⟨memSize memSizeLog2 + 1, header, true, before, frames⟩ s.toTransfer w)
      (taken : accept frames = some (loaded done .framed))
  | next (done : List SpiLoaderSection) (loader : Loader secs s done) (noJump : s.slaveBootJump = false) (state : s.slaveBootState = .idle)
      (frames : List (List Edge)) (quiet : Quiet s.toTransfer w frames) (taken : accept frames = some (loaded done .idle))
  | finished (state : s.slaveBootState = .idle) (load : s.doSpiLoad = false) (config : s.spiLoadConfig = none)
      (wakeup : s.handleWakeup = false) (pads : s.initPads = false) (frames : List (List Edge)) (quiet : Quiet s.toTransfer w frames)
      (taken : accept frames = some (loaded secs .idle))

section Steps

variable {memSizeLog2 : Nat} {secs done : List SpiLoaderSection} {sec : SpiLoaderSection} {s : SpimVerif} {w : Wire}
  {frames : List (List Edge)}

theorem memSizeBound (memSizeLog2 : Nat) : cmdBufferSize ≤ memSize memSizeLog2 := Nat.le_add_left _ _

theorem storedSame (fits : Fits sec) {before after : Nat → Byte} (same : ∀ i, i < cmdBufferSize → after i = before i)
    (stored : Stored sec before) : Stored sec after := by
  intro access
  have held := stored access
  obtain ⟨size, -, bound⟩ := fits access
  rw [Cells.holdsIff] at held ⊢
  intro i inside
  rw [same _ (by omega)]
  exact held i inside

theorem headerLength {header : List Byte} (shape : Header sec header) : header.length = 7 := by
  obtain ⟨sizeMinus1, crc, rfl, -⟩ := shape
  simp

theorem sendSofBooting (fits : Fits sec) (loader : Loader secs s (done ++ [sec])) (request : Request s sec)
    (quiet : Quiet s.toTransfer w frames) (taken : accept frames = some (loaded done .idle)) (stored : Stored sec s.data) :
    Booting memSizeLog2 secs (sendSof memSizeLog2 s) w := by
  have bound := memSizeBound memSizeLog2
  have req : Holds (Cells.write s.data (memSize memSizeLog2) (bootReq s)) (memSize memSizeLog2) (bootReq s) := Cells.holdsWrite
  have last : Cells.write s.data (memSize memSizeLog2) (bootReq s) (memSize memSizeLog2 + 7) = s.data (memSize memSizeLog2 + 7) := by
    simp [Cells.write, bootReq]
  have below : ∀ i, i < cmdBufferSize → Cells.write s.data (memSize memSizeLog2) (bootReq s) i = s.data i := by
    intro i inside
    simp only [Cells.write]
    rw [if_neg (by omega)]
  obtain ⟨start, rest⟩ := (@Cells.holdsAppend _ _ [0x5A] _).mp req
  have sending := enqueueSending (t := { s.toTransfer with data := Cells.write s.data (memSize memSizeLog2) (bootReq s) })
    true quiet.wire start
  refine .sof done sec { loader with } { request with } rfl _ frames sending taken (storedSame fits below stored)
    ((if sec.access then 0x02 else 0x03) :: wordBytes sec.addr 4 ++ [BitVec.ofInt 8 (chunkSize s - 1), s.data (memSize memSizeLog2 + 7)])
    ⟨_, _, rfl, fun access => ?_⟩ ?_
  · obtain ⟨-, -, size⟩ := request.data access
    obtain ⟨-, positive, small⟩ := fits access
    have whole : chunkSize s - 1 = ((sec.size - 1 : Nat) : Int) := by
      simp only [chunkSize, size]
      split <;> omega
    rw [whole, BitVec.ofInt_natCast, BitVec.toNat_ofNat, Nat.mod_eq_of_lt (by simp only [cmdBufferSize] at small; omega)]
    omega
  · have cmd : (if s.slaveBootJump then 0x3 else if s.slaveBootIsRx then 0x01 else 0x02 : Byte) = if sec.access then 0x02 else 0x03 := by
      rw [request.jump]
      cases access : sec.access with
      | true => simp [(request.data access).1]
      | false => rfl
    have split : ((if sec.access then 0x02 else 0x03) :: wordBytes sec.addr 4 ++
        [BitVec.ofInt 8 (chunkSize s - 1), s.data (memSize memSizeLog2 + 7)]) =
        ((if sec.access then 0x02 else 0x03) :: wordBytes sec.addr 4 ++ [BitVec.ofInt 8 (chunkSize s - 1)]) ++
          [s.data (memSize memSizeLog2 + 7)] := by simp
    rw [split, Cells.holdsAppend, ← cmd]
    constructor
    · simpa [bootReq, request.address] using rest
    · simpa [Cells.holdsIff] using last

theorem sendSofCounted (s : SpimVerif) (n : Nat) :
    { sendSof memSizeLog2 s with currentSectionLoad := n } = sendSof memSizeLog2 { s with currentSectionLoad := n } := rfl

theorem startLoadBooting (all : ∀ sec ∈ secs, Fits sec) (loader : Loader secs s done) (noJump : s.slaveBootJump = false)
    (quiet : Quiet s.toTransfer w frames) (taken : accept frames = some (loaded done .idle)) :
    Booting memSizeLog2 secs (startSpiLoad memSizeLog2 s) w := by
  have bound := memSizeBound memSizeLog2
  obtain ⟨rest, split⟩ := loader.part
  simp only [startSpiLoad, loader.load, if_true, loader.sections, loader.current]
  cases rest with
  | nil =>
      have ended : secs[done.length]? = none := by simp [← split]
      have complete : done = secs := by simpa using split
      simp only [ended]
      exact .finished rfl rfl loader.config loader.wakeup loader.pads frames ⟨quiet.state, quiet.wire⟩ (complete ▸ taken)
  | cons sec rest =>
      have found : secs[done.length]? = some sec := by simp [← split]
      have fits : Fits sec := all sec (split ▸ by simp)
      have part : done ++ [sec] <+: secs := ⟨rest, by simpa using split⟩
      simp only [found]
      cases access : sec.access with
      | true =>
          obtain ⟨size, positive, small⟩ := fits access
          have whole : sec.buffer.take sec.size = sec.buffer := by rw [size, List.take_length]
          have room : ¬ memSize memSizeLog2 < sec.size := by omega
          simp only [if_true, enqueueBootProtocolTransfer, if_neg room, startBootProtocolTransfer, whole]
          rw [sendSofCounted]
          exact sendSofBooting fits ⟨loader.sections, part, by simp [sendSof, enqueue, loader.current], loader.load, loader.config, loader.wakeup, loader.pads⟩
            ⟨rfl, by simp [noJump, access], fun _ => ⟨rfl, rfl, rfl⟩⟩ ⟨quiet.state, quiet.wire⟩ taken (fun _ => Cells.holdsWrite)
      | false =>
          simp only [Bool.false_eq_true, if_false, enqueueBootProtocolJump]
          rw [sendSofCounted]
          exact sendSofBooting fits ⟨loader.sections, part, by simp [sendSof, enqueue, loader.current], loader.load, loader.config, loader.wakeup, loader.pads⟩
            ⟨rfl, by simp [access], fun other => absurd other (by simp [access])⟩ ⟨quiet.state, quiet.wire⟩ taken
            (fun other => absurd other (by simp [access]))

theorem sentSame {job : Job} {t : Transfer} {frame : List Edge} (sent : Done job t frame) (above : memSize memSizeLog2 ≤ job.addr) :
    ∀ i, i < cmdBufferSize → t.data i = job.before i := by
  intro i inside
  have bound := memSizeBound memSizeLog2
  exact sent.apart i (.inr (.inl (by omega)))

theorem sofDone (fits : Fits sec) (loader : Loader secs s (done ++ [sec])) (request : Request s sec)
    (state : s.slaveBootState = .checkSof) {before : Nat → Byte} {frame : List Edge}
    (sent : Sent ⟨memSize memSizeLog2, [0x5A], true, before, frames⟩ s.toTransfer w frame)
    (taken : accept frames = some (loaded done .idle)) (stored : Stored sec before) {header : List Byte}
    (shape : Header sec header) (held : Holds before (memSize memSizeLog2 + 1) header) :
    Booting memSizeLog2 secs (execIdle memSizeLog2 s) w := by
  have quiet := sentQuiet sent
  have answered : s.data (memSize memSizeLog2) = answer frame := sent.done.answer rfl rfl
  have stored' : Stored sec s.data := storedSame fits (sentSame sent.done (Nat.le_refl _)) stored
  have held' : Holds s.data (memSize memSizeLog2 + 1) header := by
    rw [Cells.holdsIff] at held ⊢
    intro i inside
    rw [← held i inside]
    exact sent.done.apart _ (.inr (.inr (by simp only [List.length_singleton]; omega)))
  have after := acceptFrame taken sent.done takeSof
  simp only [execIdle, state, handleBootProtocolTransfer, answered]
  by_cases echo : answer frame = 0xA5
  · have sending := enqueueSending true quiet.wire held'
    rw [headerLength shape] at sending
    simp only [echo, if_true] at after ⊢
    cases access : sec.access with
    | true =>
        have noJump : s.slaveBootJump = false := by simp [request.jump, access]
        simp only [noJump, Bool.false_eq_true, if_false, ne_eq, reduceCtorEq, not_false_eq_true, if_true]
        exact .header done sec { loader with } { request with } access rfl _ _ header shape sending after stored' (answered.trans echo)
    | false =>
        have jump : s.slaveBootJump = true := by simp [request.jump, access]
        simp only [jump, if_true, ne_eq, reduceCtorEq, not_false_eq_true]
        exact .jump done sec { loader with } access rfl rfl _ _ header shape sending after
  · simp only [if_neg echo] at after
    simp only [if_neg echo, ne_eq, reduceCtorEq, not_false_eq_true, if_true]
    exact .sofAgain done sec { loader with } { request with } rfl _ ⟨quiet.state, quiet.wire⟩ after stored'

theorem headerDone (fits : Fits sec) (loader : Loader secs s (done ++ [sec])) (request : Request s sec)
    (access : sec.access = true) (state : s.slaveBootState = .getAckStep0) {before : Nat → Byte} {header : List Byte} {frame : List Edge}
    (shape : Header sec header) (sent : Sent ⟨memSize memSizeLog2 + 1, header, true, before, frames⟩ s.toTransfer w frame)
    (taken : accept frames = some (loaded done .framed)) (stored : Stored sec before) (echo : before (memSize memSizeLog2) = 0xA5) :
    Booting memSizeLog2 secs (execIdle memSizeLog2 s) w := by
  have quiet := sentQuiet sent
  have after := acceptFrame taken sent.done (takeHeader shape access)
  have kept : s.data (memSize memSizeLog2) = 0xA5 := (sent.done.apart _ (.inr (.inl (Nat.lt_succ_self _)))).trans echo
  simp only [execIdle, state, handleBootProtocolTransfer, kept, if_true, ne_eq, reduceCtorEq, not_false_eq_true]
  exact .ackAgain done sec { loader with } { request with } access rfl _ ⟨quiet.state, quiet.wire⟩ after
    (storedSame fits (sentSame sent.done (Nat.le_succ _)) stored)

theorem ackNext (fits : Fits sec) (loader : Loader secs s (done ++ [sec])) (request : Request s sec)
    (access : sec.access = true) (state : s.slaveBootState = .getAckStep1) (quiet : Quiet s.toTransfer w frames)
    (taken : accept frames = some (loaded done (.requested sec.addr sec.size))) (stored : Stored sec s.data) :
    Booting memSizeLog2 secs (execIdle memSizeLog2 s) w := by
  have bound := memSizeBound memSizeLog2
  have command : Holds (Function.update s.data (memSize memSizeLog2) 0x00) (memSize memSizeLog2) [0x00] := by
    simp [Cells.holdsIff]
  have sending := enqueueSending (t := { s.toTransfer with data := Function.update s.data (memSize memSizeLog2) 0x00 }) true
    quiet.wire command
  simp only [execIdle, state, handleBootProtocolTransfer, if_true, ne_eq, reduceCtorEq, not_false_eq_true]
  refine .ack done sec { loader with } { request with } access rfl _ _ sending taken (storedSame fits (fun i inside => ?_) stored)
  exact Function.update_of_ne (by omega) _ _

theorem ackDone (fits : Fits sec) (loader : Loader secs s (done ++ [sec])) (request : Request s sec)
    (access : sec.access = true) (state : s.slaveBootState = .getAckStep2) {before : Nat → Byte} {frame : List Edge}
    (sent : Sent ⟨memSize memSizeLog2, [0x00], true, before, frames⟩ s.toTransfer w frame)
    (taken : accept frames = some (loaded done (.requested sec.addr sec.size))) (stored : Stored sec before) :
    Booting memSizeLog2 secs (execIdle memSizeLog2 s) w := by
  have quiet := sentQuiet sent
  have after := acceptFrame taken sent.done takeAck
  have answered : s.data (memSize memSizeLog2) = answer frame := sent.done.answer rfl rfl
  have stored' := storedSame fits (sentSame sent.done (Nat.le_refl _)) stored
  have send : (if s.slaveBootIsRx then SpisBootState.receiveCrc else .sendDataCrc) = .sendDataCrc := by
    simp [(request.data access).1]
  simp only [execIdle, state, handleBootProtocolTransfer, answered, send, ne_eq, reduceCtorEq, not_false_eq_true, if_true]
  by_cases acked : answer frame = 0x79
  · simp only [if_pos acked] at after ⊢
    exact .crcNext done sec { loader with } { request with } access rfl _ ⟨quiet.state, quiet.wire⟩ after stored'
  · simp only [if_neg acked] at after ⊢
    exact .ackAgain done sec { loader with } { request with } access rfl _ ⟨quiet.state, quiet.wire⟩ after stored'

theorem crcStart (loader : Loader secs s (done ++ [sec])) (request : Request s sec)
    (access : sec.access = true) (state : s.slaveBootState = .sendDataCrc) (quiet : Quiet s.toTransfer w frames)
    (taken : accept frames = some (loaded done (.acked sec.addr sec.size))) (stored : Stored sec s.data) :
    Booting memSizeLog2 secs (execIdle memSizeLog2 s) w := by
  have byte : Holds s.data (memSize memSizeLog2) [s.data (memSize memSizeLog2)] := by simp [Cells.holdsIff]
  have sending := enqueueSending false quiet.wire byte
  simp only [execIdle, state, handleBootProtocolTransfer, if_true, ne_eq, reduceCtorEq, not_false_eq_true]
  exact .crc done sec { loader with } { request with } access rfl _ _ _ sending taken stored

theorem crcDone (fits : Fits sec) (loader : Loader secs s (done ++ [sec])) (request : Request s sec)
    (access : sec.access = true) (state : s.slaveBootState = .sendData) {before : Nat → Byte} {crc : Byte} {frame : List Edge}
    (sent : Sent ⟨memSize memSizeLog2, [crc], false, before, frames⟩ s.toTransfer w frame)
    (taken : accept frames = some (loaded done (.acked sec.addr sec.size))) (stored : Stored sec before) :
    Booting memSizeLog2 secs (execIdle memSizeLog2 s) w := by
  have quiet := sentQuiet sent
  have after := acceptFrame taken sent.done takeCrc
  have stored' : Stored sec s.data := storedSame fits (sentSame sent.done (Nat.le_refl _)) stored
  obtain ⟨size, positive, small⟩ := fits access
  obtain ⟨-, verif, bootSize⟩ := request.data access
  have whole : chunkSize s = (sec.buffer.length : Int) := by
    simp only [chunkSize, bootSize, ← size]
    split <;> omega
  have sending := enqueueSending false quiet.wire (stored' access)
  simp only [execIdle, state, handleBootProtocolTransfer, if_true, ne_eq, reduceCtorEq, not_false_eq_true, whole, verif]
  exact .data done sec { loader with } { request with } access rfl _ _ sending after

theorem dataDone (fits : Fits sec) (loader : Loader secs s (done ++ [sec])) (request : Request s sec)
    (access : sec.access = true) (state : s.slaveBootState = .sendDataDone) {before : Nat → Byte} {frame : List Edge}
    (sent : Sent ⟨0, sec.buffer, false, before, frames⟩ s.toTransfer w frame)
    (taken : accept frames = some (loaded done (.announced sec.addr sec.size))) :
    Booting memSizeLog2 secs (execIdle memSizeLog2 s) w := by
  have quiet := sentQuiet sent
  have after := acceptFrame taken sent.done (takeData fits access)
  obtain ⟨-, -, small⟩ := fits access
  obtain ⟨-, -, bootSize⟩ := request.data access
  have last : ¬ 0 < s.slaveBootSize - cmdBufferSize := by
    rw [bootSize]
    omega
  simp only [execIdle, state, handleBootProtocolTransfer, nextChunk, if_neg last, if_true, ne_eq, reduceCtorEq, not_false_eq_true]
  exact .next _ { loader with } (by simp [request.jump, access]) rfl _ ⟨quiet.state, quiet.wire⟩ after

theorem nextStart (all : ∀ sec ∈ secs, Fits sec) (loader : Loader secs s done) (noJump : s.slaveBootJump = false)
    (state : s.slaveBootState = .idle) (quiet : Quiet s.toTransfer w frames) (taken : accept frames = some (loaded done .idle)) :
    Booting memSizeLog2 secs (execIdle memSizeLog2 s) w := by
  simp only [execIdle, state, ne_eq, not_true_eq_false, if_false, loader.load, if_true]
  exact startLoadBooting all loader noJump quiet taken

theorem jumpDone (all : ∀ sec ∈ secs, Fits sec) (loader : Loader secs s (done ++ [sec])) (access : sec.access = false)
    (noJump : s.slaveBootJump = false) (state : s.slaveBootState = .idle) {before : Nat → Byte} {header : List Byte} {frame : List Edge}
    (shape : Header sec header) (sent : Sent ⟨memSize memSizeLog2 + 1, header, true, before, frames⟩ s.toTransfer w frame)
    (taken : accept frames = some (loaded done .framed)) :
    Booting memSizeLog2 secs (execIdle memSizeLog2 s) w :=
  nextStart all loader noJump state (sentQuiet sent) (acceptFrame taken sent.done (takeJump shape access))

end Steps

end Gvsoc.Spim
