import Mathlib.Data.List.Forall2
import Gvsoc.Machine
import Gvsoc.SpimBoot

/-! Boot loading over whole runs. The stimuli are cut into sections of at most 64 consecutive words;
the sections go to the target one after the other, whatever it answers, and the jump is the last. -/
namespace Gvsoc.Spim
open Bytes (Byte wordBytes)
open Cells (Holds)
open Machine

def placed : BitVec 32 → List Byte → List (BitVec 32 × Byte)
  | _, [] => []
  | addr, b :: rest => (addr, b) :: placed (addr + 1) rest

def placedWord (stimulus : BitVec 32 × BitVec 32) : List (BitVec 32 × Byte) := placed stimulus.1 (wordBytes stimulus.2 4)

theorem placedAppend (addr : BitVec 32) (xs ys : List Byte) :
    placed addr (xs ++ ys) = placed addr xs ++ placed (addr + BitVec.ofNat 32 xs.length) ys := by
  induction xs generalizing addr with
  | nil => simp [placed]
  | cons x rest ih =>
      have next : addr + BitVec.ofNat 32 (rest.length + 1) = addr + 1 + BitVec.ofNat 32 rest.length := by
        rw [BitVec.add_assoc, Nat.add_comm, BitVec.ofNat_add]
        rfl
      simp only [List.cons_append, placed, ih, List.length_cons, next]

def Consecutive : BitVec 32 → List (BitVec 32 × BitVec 32) → Prop
  | _, [] => True
  | addr, stimulus :: rest => stimulus.1 = addr ∧ Consecutive (addr + 4) rest

theorem consecutiveSnoc {addr : BitVec 32} {xs : List (BitVec 32 × BitVec 32)} {x : BitVec 32 × BitVec 32}
    (before : Consecutive addr xs) (next : x.1 = addr + 4 * BitVec.ofNat 32 xs.length) : Consecutive addr (xs ++ [x]) := by
  induction xs generalizing addr with
  | nil => exact ⟨by simpa using next, trivial⟩
  | cons y rest ih =>
      refine ⟨before.1, ih before.2 ?_⟩
      rw [next, List.length_cons, Nat.add_comm, BitVec.ofNat_add, BitVec.mul_add, ← BitVec.add_assoc]
      rfl

theorem consecutivePlaced {addr : BitVec 32} {xs : List (BitVec 32 × BitVec 32)} (consecutive : Consecutive addr xs) :
    placed addr ((xs.map Prod.snd).flatMap (wordBytes · 4)) = xs.flatMap placedWord := by
  induction xs generalizing addr with
  | nil => rfl
  | cons x rest ih =>
      obtain ⟨here, later⟩ := consecutive
      simp only [List.map_cons, List.flatMap_cons, placedAppend, Bytes.wordBytesLength]
      rw [← here] at later ⊢
      rw [placedWord, ← ih later]
      rfl

structure Carries (sec : SpiLoaderSection) (words : List (BitVec 32 × BitVec 32)) : Prop where
  access : sec.access = true
  fits : Fits sec
  bytes : placed sec.addr sec.buffer = words.flatMap placedWord

structure Reading (l : LoadLoop) (read : List (BitVec 32 × BitVec 32)) : Prop where
  cut : ∃ parts pending, List.Forall₂ Carries l.sections parts ∧ read = parts.flatten ++ pending ∧
    pending.map Prod.snd = l.buffer ∧ Consecutive l.pendingStartAddr pending
  short : l.buffer.length ≤ bufferSize
  last : l.buffer ≠ [] → l.pendingAddr + 4 = l.pendingStartAddr + 4 * BitVec.ofNat 32 l.buffer.length

theorem pushedCarries {l : LoadLoop} {pending : List (BitVec 32 × BitVec 32)} (words : pending.map Prod.snd = l.buffer)
    (consecutive : Consecutive l.pendingStartAddr pending) (short : l.buffer.length ≤ bufferSize) (some : l.buffer ≠ []) :
    Carries ⟨true, l.buffer.flatMap (wordBytes · 4), l.pendingStartAddr, l.buffer.length * 4⟩ pending := by
  have bytes : (l.buffer.flatMap (wordBytes · 4)).length = l.buffer.length * 4 := by simp
  have long : 0 < l.buffer.length := List.length_pos_iff.mpr some
  simp only [bufferSize] at short
  refine ⟨rfl, fun _ => ⟨bytes.symm, ?_, ?_⟩, ?_⟩
  · simp only
    omega
  · simp only [cmdBufferSize]
    omega
  · rw [← words]
    exact consecutivePlaced consecutive

theorem readReading {l : LoadLoop} {read : List (BitVec 32 × BitVec 32)} (reading : Reading l read)
    (stimulus : BitVec 32 × BitVec 32) : Reading (l.read stimulus) (read ++ [stimulus]) := by
  obtain ⟨⟨parts, pending, carried, cut, words, consecutive⟩, short, last⟩ := reading
  obtain ⟨addr, value⟩ := stimulus
  simp only [LoadLoop.read]
  split
  · rename_i full
    -- The section is cut before this word.
    refine ⟨⟨parts ++ [pending], [(addr, value)], ?_, ?_, rfl, rfl, trivial⟩, by simp [LoadLoop.pushed, bufferSize], fun _ => ?_⟩
    · exact List.rel_append carried (.cons (pushedCarries words consecutive short full.1) .nil)
    · simp [cut]
    · simp [LoadLoop.pushed]
  · rename_i fits
    split
    · rename_i empty
      have nothing : pending = [] := by
        rw [empty] at words
        exact List.map_eq_nil_iff.mp words
      refine ⟨⟨parts, [(addr, value)], carried, ?_, by simp [empty], rfl, trivial⟩, by simp [empty, bufferSize], fun _ => ?_⟩
      · simp [cut, nothing]
      · simp [empty]
    · rename_i filled
      have next : addr = l.pendingAddr + 4 := by
        by_contra other
        exact fits ⟨filled, .inl other⟩
      have room : l.buffer.length ≠ bufferSize := fun same => fits ⟨filled, .inr same⟩
      have count : pending.length = l.buffer.length := by rw [← words, List.length_map]
      have place : addr = l.pendingStartAddr + 4 * BitVec.ofNat 32 l.buffer.length := next.trans (last filled)
      refine ⟨⟨parts, pending ++ [(addr, value)], carried, ?_, ?_, consecutiveSnoc consecutive ?_⟩, ?_, fun _ => ?_⟩
      · rw [cut, List.append_assoc]
      · simp [words]
      · rw [count]
        exact place
      · simp only [List.length_append, List.length_singleton]
        omega
      · simp only [List.length_append, List.length_singleton]
        rw [place, BitVec.ofNat_add, BitVec.mul_add, ← BitVec.add_assoc]
        rfl

theorem foldReading {l : LoadLoop} {read : List (BitVec 32 × BitVec 32)} (reading : Reading l read)
    (stimuli : List (BitVec 32 × BitVec 32)) : Reading (stimuli.foldl LoadLoop.read l) (read ++ stimuli) := by
  induction stimuli generalizing l read with
  | nil => simpa using reading
  | cons stimulus rest ih => simpa using ih (readReading reading stimulus)

theorem loadSectionsCut (config : SpiLoadConfig) : ∃ data parts, loadSections config [] = data ++ [⟨false, [], config.entry, 0⟩] ∧
    List.Forall₂ Carries data parts ∧ parts.flatten = config.stimuli := by
  have start : Reading { sections := [] } [] :=
    ⟨⟨[], [], .nil, rfl, rfl, trivial⟩, by simp [bufferSize], fun some => absurd rfl some⟩
  obtain ⟨⟨parts, pending, carried, cut, words, consecutive⟩, short, -⟩ := foldReading start config.stimuli
  simp only [List.nil_append] at cut
  simp only [loadSections]
  split
  · rename_i some
    refine ⟨_, parts ++ [pending], rfl, List.rel_append carried (.cons (pushedCarries words consecutive short some) .nil), ?_⟩
    rw [cut]
    simp
  · rename_i none
    have nothing : pending = [] := by
      rw [not_not.mp none] at words
      exact List.map_eq_nil_iff.mp words
    exact ⟨_, parts, rfl, carried, by simp [cut, nothing]⟩

structure Session where
  spim : SpimVerif
  wire : Wire

inductive Action where
  | sync (sdio0 : BitVec 32)
  | exec

def step (memSizeLog2 : Nat) (s : Session) : Action → Option Session
  | .sync sdio0 => some { s with spim := { s.spim with slavePendingMiso := sdio0 } }
  | .exec =>
      let (spim, pins) := exec memSizeLog2 s.spim
      some ⟨spim, s.wire.pins s.spim.slavePendingMiso pins⟩

structure Started (config : SpiLoadConfig) (s : Session) : Prop where
  state : s.spim.slaveState = .idle
  boot : s.spim.slaveBootState = .idle
  sections : s.spim.sections = []
  config : s.spim.spiLoadConfig = some config
  wakeup : s.spim.handleWakeup = false
  noJump : s.spim.slaveBootJump = false
  wire : s.wire.csHigh = true ∧ s.wire.bits = [] ∧ s.wire.frames = []

section Runs

variable {memSizeLog2 : Nat} {secs done : List SpiLoaderSection} {sec : SpiLoaderSection} {s : SpimVerif} {w : Wire}
  {frames : List (List Edge)} {job : Job}

theorem execPlain (config : s.spiLoadConfig = none) (wakeup : s.handleWakeup = false) (pads : s.initPads = false) :
    exec memSizeLog2 s =
      (if (execEdge s.toTransfer).1.slaveState = .idle then execIdle memSizeLog2 { s with toTransfer := (execEdge s.toTransfer).1 }
        else { s with toTransfer := (execEdge s.toTransfer).1 }, (execEdge s.toTransfer).2) := by
  obtain ⟨t, _, _, _, _, _, _, _, _, initPads, spiLoadConfig, handleWakeup, _, _⟩ := s
  simp only at config wakeup pads
  subst config wakeup pads
  rfl

theorem execSending (some : job.payload ≠ []) (config : s.spiLoadConfig = none) (wakeup : s.handleWakeup = false)
    (pads : s.initPads = false) (sending : Sending job s.toTransfer w)
    (going : ∀ t w, Sending job t w → Booting memSizeLog2 secs { s with toTransfer := t } w)
    (completed : ∀ t w frame, Sent job t w frame → Booting memSizeLog2 secs (execIdle memSizeLog2 { s with toTransfer := t }) w) :
    Booting memSizeLog2 secs (exec memSizeLog2 s).1 (w.pins s.slavePendingMiso (exec memSizeLog2 s).2) := by
  rw [execPlain config wakeup pads]
  rcases edgeSending some sending with next | ⟨frame, sent⟩
  · simp only [if_neg (sendingBusy next)]
    exact going _ _ next
  · simp only [if_pos sent.state]
    exact completed _ _ frame sent

theorem execQuiet (config : s.spiLoadConfig = none) (wakeup : s.handleWakeup = false)
    (pads : s.initPads = false) (quiet : Quiet s.toTransfer w frames)
    (idle : ∀ w, let t := { s.toTransfer with slaveSck := false }
      Quiet t w frames → Booting memSizeLog2 secs (execIdle memSizeLog2 { s with toTransfer := t }) w) :
    Booting memSizeLog2 secs (exec memSizeLog2 s).1 (w.pins s.slavePendingMiso (exec memSizeLog2 s).2) := by
  obtain ⟨same, again⟩ := edgeQuiet quiet
  rw [execPlain config wakeup pads]
  simp only [if_pos again.state]
  rw [same] at again ⊢
  exact idle _ again

theorem headerSome {header : List Byte} (shape : Header sec header) : header ≠ [] := by
  obtain ⟨sizeMinus1, crc, rfl, -⟩ := shape
  exact List.cons_ne_nil _ _

theorem bufferSome (fits : Fits sec) (access : sec.access = true) : sec.buffer ≠ [] := by
  obtain ⟨size, positive, -⟩ := fits access
  exact List.length_pos_iff.mp (size ▸ positive)

theorem execBooting (all : ∀ sec ∈ secs, Fits sec) (booting : Booting memSizeLog2 secs s w) :
    Booting memSizeLog2 secs (exec memSizeLog2 s).1 (w.pins s.slavePendingMiso (exec memSizeLog2 s).2) := by
  have member : ∀ {done sec}, Loader secs s (done ++ [sec]) → Fits sec :=
    fun loader => all _ (loader.part.subset (List.mem_append_right _ (List.mem_singleton_self _)))
  cases booting with
  | sof done sec loader request state before frames sending taken stored header shape held =>
      refine execSending (List.cons_ne_nil _ _) loader.config loader.wakeup loader.pads sending ?_ ?_
      · intro t w sending
        exact .sof done sec { loader with } { request with } state before frames sending taken stored header shape held
      · intro t w frame sent
        exact sofDone (member loader) { loader with } { request with } state sent taken stored shape held
  | sofAgain done sec loader request state frames quiet taken stored =>
      refine execQuiet loader.config loader.wakeup loader.pads quiet fun w again => ?_
      simp only [execIdle, state, ne_eq, reduceCtorEq, not_false_eq_true, if_true, handleBootProtocolTransfer]
      exact sendSofBooting (member loader) { loader with } { request with } again taken stored
  | header done sec loader request access state before frames header shape sending taken stored echo =>
      refine execSending (headerSome shape) loader.config loader.wakeup loader.pads sending ?_ ?_
      · intro t w sending
        exact .header done sec { loader with } { request with } access state before frames header shape sending taken stored echo
      · intro t w frame sent
        exact headerDone (member loader) { loader with } { request with } access state shape sent taken stored echo
  | ackAgain done sec loader request access state frames quiet taken stored =>
      refine execQuiet loader.config loader.wakeup loader.pads quiet fun w again => ?_
      exact ackNext (member loader) { loader with } { request with } access state again taken stored
  | ack done sec loader request access state before frames sending taken stored =>
      refine execSending (List.cons_ne_nil _ _) loader.config loader.wakeup loader.pads sending ?_ ?_
      · intro t w sending
        exact .ack done sec { loader with } { request with } access state before frames sending taken stored
      · intro t w frame sent
        exact ackDone (member loader) { loader with } { request with } access state sent taken stored
  | crcNext done sec loader request access state frames quiet taken stored =>
      refine execQuiet loader.config loader.wakeup loader.pads quiet fun w again => ?_
      exact crcStart { loader with } { request with } access state again taken stored
  | crc done sec loader request access state before frames crc sending taken stored =>
      refine execSending (List.cons_ne_nil _ _) loader.config loader.wakeup loader.pads sending ?_ ?_
      · intro t w sending
        exact .crc done sec { loader with } { request with } access state before frames crc sending taken stored
      · intro t w frame sent
        exact crcDone (member loader) { loader with } { request with } access state sent taken stored
  | data done sec loader request access state before frames sending taken =>
      refine execSending (bufferSome (member loader) access) loader.config loader.wakeup loader.pads sending ?_ ?_
      · intro t w sending
        exact .data done sec { loader with } { request with } access state before frames sending taken
      · intro t w frame sent
        exact dataDone (member loader) { loader with } { request with } access state sent taken
  | jump done sec loader access noJump state before frames header shape sending taken =>
      refine execSending (headerSome shape) loader.config loader.wakeup loader.pads sending ?_ ?_
      · intro t w sending
        exact .jump done sec { loader with } access noJump state before frames header shape sending taken
      · intro t w frame sent
        exact jumpDone all { loader with } access noJump state shape sent taken
  | next done loader noJump state frames quiet taken =>
      refine execQuiet loader.config loader.wakeup loader.pads quiet fun w again => ?_
      exact nextStart all { loader with } noJump state again taken
  | finished state load config wakeup pads frames quiet taken =>
      refine execQuiet config wakeup pads quiet fun w again => ?_
      simp only [execIdle, state, ne_eq, not_true_eq_false, if_false, load, Bool.false_eq_true]
      exact .finished rfl rfl config wakeup pads frames ⟨again.state, again.wire⟩ taken

theorem levelBooting (level : BitVec 32) (booting : Booting memSizeLog2 secs s w) :
    Booting memSizeLog2 secs { s with slavePendingMiso := level } w := by
  cases booting with
  | sof done sec loader request state before frames sending taken stored header shape held =>
      exact .sof done sec { loader with } { request with } state before frames (sendingLevel sending level) taken stored header shape held
  | sofAgain done sec loader request state frames quiet taken stored =>
      exact .sofAgain done sec { loader with } { request with } state frames { quiet with } taken stored
  | header done sec loader request access state before frames header shape sending taken stored echo =>
      exact .header done sec { loader with } { request with } access state before frames header shape (sendingLevel sending level)
        taken stored echo
  | ackAgain done sec loader request access state frames quiet taken stored =>
      exact .ackAgain done sec { loader with } { request with } access state frames { quiet with } taken stored
  | ack done sec loader request access state before frames sending taken stored =>
      exact .ack done sec { loader with } { request with } access state before frames (sendingLevel sending level) taken stored
  | crcNext done sec loader request access state frames quiet taken stored =>
      exact .crcNext done sec { loader with } { request with } access state frames { quiet with } taken stored
  | crc done sec loader request access state before frames crc sending taken stored =>
      exact .crc done sec { loader with } { request with } access state before frames crc (sendingLevel sending level) taken stored
  | data done sec loader request access state before frames sending taken =>
      exact .data done sec { loader with } { request with } access state before frames (sendingLevel sending level) taken
  | jump done sec loader access noJump state before frames header shape sending taken =>
      exact .jump done sec { loader with } access noJump state before frames header shape (sendingLevel sending level) taken
  | next done loader noJump state frames quiet taken => exact .next done { loader with } noJump state frames { quiet with } taken
  | finished state load config wakeup pads frames quiet taken =>
      exact .finished state load config wakeup pads frames { quiet with } taken

structure Taken (secs : List SpiLoaderSection) (s : SpimVerif) (w : Wire) (done : List SpiLoaderSection) : Prop where
  part : done <+: secs
  accepted : ∃ phase, accept w.frames = some (loaded done phase)
  complete : s.doSpiLoad = false → done = secs

theorem sendingTaken (load : s.doSpiLoad = true) {target : Target} (sending : Sending job s.toTransfer w)
    (taken : accept job.frames = some target) {before after : List SpiLoaderSection} {phase : Phase} (now : target = loaded before phase)
    (next : ∀ frame, ∃ phase, target.take (answer frame) job.payload = some (loaded after phase))
    (first : before <+: secs) (second : after <+: secs) : ∃ done, Taken secs s w done := by
  have running : ∀ {done : List SpiLoaderSection}, s.doSpiLoad = false → done = secs := fun stopped => by
    rw [load] at stopped
    contradiction
  rcases sendingFrames sending with same | ⟨frame, sent, more⟩
  · exact ⟨before, first, ⟨phase, by rw [same, taken, now]⟩, running⟩
  · obtain ⟨phase, read⟩ := next frame
    exact ⟨after, second, ⟨phase, by rw [more, acceptFrame taken sent read]⟩, running⟩

theorem bootingTaken (all : ∀ sec ∈ secs, Fits sec) (booting : Booting memSizeLog2 secs s w) : ∃ done, Taken secs s w done := by
  have member : ∀ {done sec}, Loader secs s (done ++ [sec]) → Fits sec :=
    fun loader => all _ (loader.part.subset (List.mem_append_right _ (List.mem_singleton_self _)))
  have earlier : ∀ {done sec}, Loader secs s (done ++ [sec]) → done <+: secs :=
    fun loader => (List.prefix_append _ _).trans loader.part
  cases booting with
  | sof done sec loader request state before frames sending taken stored header shape held =>
      exact sendingTaken loader.load sending taken rfl (fun _ => ⟨_, takeSof⟩) (earlier loader) (earlier loader)
  | header done sec loader request access state before frames header shape sending taken stored echo =>
      exact sendingTaken loader.load sending taken rfl (fun _ => ⟨_, takeHeader shape access⟩) (earlier loader) (earlier loader)
  | ack done sec loader request access state before frames sending taken stored =>
      exact sendingTaken loader.load sending taken rfl (fun _ => ⟨_, takeAck⟩) (earlier loader) (earlier loader)
  | crc done sec loader request access state before frames crc sending taken stored =>
      exact sendingTaken loader.load sending taken rfl (fun _ => ⟨_, takeCrc⟩) (earlier loader) (earlier loader)
  | data done sec loader request access state before frames sending taken =>
      exact sendingTaken loader.load sending taken rfl (fun _ => ⟨_, takeData (member loader) access⟩) (earlier loader) loader.part
  | jump done sec loader access noJump state before frames header shape sending taken =>
      exact sendingTaken loader.load sending taken rfl (fun _ => ⟨_, takeJump shape access⟩) (earlier loader) loader.part
  | sofAgain done sec loader request state frames quiet taken =>
      exact ⟨done, earlier loader, ⟨_, quiet.wire.2.2 ▸ taken⟩, fun stopped => absurd (loader.load.symm.trans stopped) nofun⟩
  | ackAgain done sec loader request access state frames quiet taken =>
      exact ⟨done, earlier loader, ⟨_, quiet.wire.2.2 ▸ taken⟩, fun stopped => absurd (loader.load.symm.trans stopped) nofun⟩
  | crcNext done sec loader request access state frames quiet taken =>
      exact ⟨done, earlier loader, ⟨_, quiet.wire.2.2 ▸ taken⟩, fun stopped => absurd (loader.load.symm.trans stopped) nofun⟩
  | next done loader noJump state frames quiet taken =>
      exact ⟨done, loader.part, ⟨_, quiet.wire.2.2 ▸ taken⟩, fun stopped => absurd (loader.load.symm.trans stopped) nofun⟩
  | finished state load config wakeup pads frames quiet taken =>
      exact ⟨secs, List.prefix_refl _, ⟨_, quiet.wire.2.2 ▸ taken⟩, fun _ => rfl⟩

theorem startSpiLoadConfig (s : SpimVerif) :
    { startSpiLoad memSizeLog2 s with spiLoadConfig := none } = startSpiLoad memSizeLog2 { s with spiLoadConfig := none } := by
  simp only [startSpiLoad]
  split
  · split
    · simp only [enqueueBootProtocolTransfer]
      split
      · split <;> rfl
      · rfl
    · rfl
  · rfl

theorem startBooting {config : SpiLoadConfig} {s : Session} (started : Started config s)
    (all : ∀ sec ∈ loadSections config [], Fits sec) :
    Booting memSizeLog2 (loadSections config []) (exec memSizeLog2 s.spim).1
      (s.wire.pins s.spim.slavePendingMiso (exec memSizeLog2 s.spim).2) := by
  obtain ⟨state, boot, sections, load, wakeup, noJump, wire⟩ := started
  simp only [exec, load, spiLoad]
  rw [startSpiLoadConfig]
  have nothing : accept [] = some (loaded [] .idle) := rfl
  refine startLoadBooting all ⟨?_, List.nil_prefix, rfl, rfl, rfl, wakeup, rfl⟩ noJump ⟨state, ?_⟩ nothing
  · simp only [sections]
  · split
    · simp [Wire.pins, Wire.pin, wire]
    · exact wire

theorem loadedData {data : List SpiLoaderSection} {parts : List (List (BitVec 32 × BitVec 32))} (carried : List.Forall₂ Carries data parts) :
    (∀ sec ∈ data, sec.access = true ∧ Fits sec) ∧
      data.flatMap (fun sec => placed sec.addr sec.buffer) = parts.flatten.flatMap placedWord := by
  induction carried with
  | nil => exact ⟨nofun, rfl⟩
  | @cons sec words data parts here _ ih =>
      constructor
      · intro other inside
        rcases List.mem_cons.mp inside with rfl | later
        · exact ⟨here.access, here.fits⟩
        · exact ih.1 other later
      · simp only [List.flatMap_cons, List.flatten_cons, List.flatMap_append, here.bytes, ih.2]

theorem dataTarget {data : List SpiLoaderSection} (access : ∀ sec ∈ data, sec.access = true ∧ Fits sec) :
    (data.filter fun sec => sec.access) = data ∧ (data.filter fun sec => !sec.access) = [] ∧
      ∀ sec ∈ data, sec.buffer.length ≤ 256 := by
  refine ⟨?_, ?_, fun sec inside => ?_⟩
  · exact List.filter_eq_self.mpr fun sec inside => (access sec inside).1
  · refine List.filter_eq_nil_iff.mpr fun sec inside => ?_
    simp [(access sec inside).1]
  · obtain ⟨size, -, small⟩ := (access sec inside).2 (access sec inside).1
    exact size ▸ small

end Runs

theorem jumpFits (entry : BitVec 32) : Fits ⟨false, [], entry, 0⟩ := nofun

/- In every run of a load: the target takes every frame, so that each chunk comes after its own
request, with the echo and the acknowledge; the chunks are short, hold the stimuli in order, and
the jump comes once, when all of them are there. -/
theorem bootLoad {memSizeLog2 : Nat} {config : SpiLoadConfig} {start last : Session} {trace} (started : Started config start)
    (run : Run (step memSizeLog2) anyStep start trace last) :
    ∃ target sent, accept last.wire.frames = some target ∧ (∀ chunk ∈ target.chunks, chunk.2.length ≤ 256) ∧
      sent <+: config.stimuli ∧ target.chunks.flatMap (fun chunk => placed chunk.1 chunk.2) = sent.flatMap placedWord ∧
      (target.jumps = [] ∨ target.jumps = [config.entry] ∧ sent = config.stimuli) ∧
      (last.spim.spiLoadConfig = none → last.spim.doSpiLoad = false → target.jumps = [config.entry]) := by
  obtain ⟨data, parts, secs, carried, whole⟩ := loadSectionsCut config
  have all : ∀ sec ∈ loadSections config [], Fits sec := by
    intro sec inside
    rw [secs] at inside
    rcases List.mem_append.mp inside with early | last
    · exact ((loadedData carried).1 sec early).2
    · rw [List.mem_singleton.mp last]
      exact jumpFits config.entry
  have reached : Started config last ∨ Booting memSizeLog2 (loadSections config []) last.spim last.wire := by
    refine runInvariant (P := fun s => Started config s ∨ Booting memSizeLog2 (loadSections config []) s.spim s.wire)
      run (.inl started) ?_
    intro s action next before _ taken
    cases action with
    | sync level =>
        cases taken
        exact before.imp (fun started => { started with }) (levelBooting level)
    | exec =>
        cases taken
        rcases before with started | booting
        · exact .inr (startBooting started all)
        · exact .inr (execBooting all booting)
  rcases reached with started | booting
  · refine ⟨{}, [], by rw [started.wire.2.2]; rfl, nofun, List.nil_prefix, rfl, .inl rfl, fun none => ?_⟩
    rw [started.config] at none
    contradiction
  · obtain ⟨done, part, ⟨phase, accepted⟩, complete⟩ := bootingTaken all booting
    rw [secs] at part complete
    rcases List.prefix_concat_iff.mp part with complete | early
    · -- The jump is there, and every section before it.
      obtain ⟨access, bytes⟩ := loadedData carried
      obtain ⟨kept, none, short⟩ := dataTarget access
      refine ⟨_, parts.flatten, accepted, ?_, whole ▸ List.prefix_rfl, ?_, .inr ⟨?_, whole⟩, fun _ _ => ?_⟩
      · simp only [loaded, complete, List.filter_append, kept]
        simpa using short
      · simp only [loaded, complete, List.filter_append, kept]
        simpa [List.flatMap_map] using bytes
      · simp [loaded, complete, none]
      · simp [loaded, complete, none]
    · obtain ⟨rest, split⟩ := early
      have some : List.Forall₂ Carries done (parts.take done.length) := by
        have taken := List.forall₂_take done.length carried
        rwa [← split, List.take_left] at taken
      obtain ⟨access, bytes⟩ := loadedData some
      obtain ⟨kept, none, short⟩ := dataTarget access
      refine ⟨_, (parts.take done.length).flatten, accepted, ?_, ?_, ?_, .inl ?_, fun _ stopped => ?_⟩
      · simp only [loaded, kept]
        simpa using short
      · rw [← whole]
        exact ⟨(parts.drop done.length).flatten, by rw [← List.flatten_append, List.take_append_drop]⟩
      · simpa [loaded, kept, List.flatMap_map] using bytes
      · simp [loaded, none]
      · have lengths := congrArg List.length (complete stopped)
        rw [← split] at lengths
        simp at lengths

def oneWord : SpiLoadConfig := ⟨[(0x1C000000, 0x11223344)], 0x1C000080⟩

def oneStart : Session where
  spim :=
    { data := fun _ => 0, slaveSck := false, slaveWaitCycles := 0, slavePendingRxBits := 0, slavePendingRxByte := 0,
      slavePendingRxAddr := 0, slavePendingRxSize := 0, slavePendingTxBits := 0, slavePendingTxByte := 0, slavePendingTxAddr := 0,
      slavePendingTxSize := 0, slavePendingIsTx := false, slavePendingIsRx := false, slavePendingMiso := 0, slavePendingMosi := 2,
      slaveState := .idle, isEnqueued := false, slaveBootAddress := 0, slaveBootVerifAddress := 0, slaveBootSize := 0,
      slaveBootIsRx := false, slaveBootState := .idle, slaveBootJump := false, sections := [], currentSectionLoad := 0,
      initPads := true, spiLoadConfig := some oneWord, handleWakeup := false, doSpiLoad := false, reloadSpi := false }
  wire := {}

def helpful (s : Session) : BitVec 32 :=
  let byte : Byte := if s.spim.slaveBootState = .checkSof then 0xA5 else if s.spim.slaveBootState = .getAckStep2 then 0x79 else 0
  (byte >>> (7 - s.wire.bits.length % 8) &&& 1).setWidth 32

def helpfulActions : Nat → Session → List Action
  | 0, _ => []
  | n + 1, s =>
      .sync (helpful s) :: .exec :: helpfulActions n
        (reach (step 8) anyStep s [.sync (helpful s), .exec])

def oneLast : Session := reach (step 8) anyStep oneStart (helpfulActions 600 oneStart)

theorem oneDone : (follow (step 8) anyStep oneStart (helpfulActions 600 oneStart)).isSome = true ∧
    oneLast.spim.spiLoadConfig.isNone = true ∧ oneLast.spim.doSpiLoad = false := by decide +kernel

theorem bootLoadOneWord : ∃ target, accept oneLast.wire.frames = some target ∧ target.jumps = [oneWord.entry] ∧
    target.chunks.flatMap (fun chunk => placed chunk.1 chunk.2) = oneWord.stimuli.flatMap placedWord := by
  have started : Started oneWord oneStart := ⟨rfl, rfl, rfl, rfl, rfl, rfl, rfl, rfl, rfl⟩
  obtain ⟨done, config, load⟩ := oneDone
  obtain ⟨trace, run, -⟩ := reachRun (step 8) anyStep oneStart (helpfulActions 600 oneStart) done
  rw [← oneLast] at run
  obtain ⟨target, sent, accepted, -, -, bytes, jumps, finished⟩ := bootLoad started run
  have jumped := finished (Option.isNone_iff_eq_none.mp config) load
  rcases jumps with none | ⟨-, whole⟩
  · exact absurd (jumped.symm.trans none) (List.cons_ne_nil _ _)
  · exact ⟨target, accepted, jumped, by rw [bytes, whole]⟩

end Gvsoc.Spim
