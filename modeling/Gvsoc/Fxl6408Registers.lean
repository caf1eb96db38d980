import Gvsoc.Fxl6408

/-! Register transactions of the expander. The latch that tells a register address from a
value is moved by the bytes alone, not by the start of a transaction, and a register read
moves it once. -/
namespace Gvsoc.Fxl6408
open Bytes (Byte)

section Registers

def writable (address : Byte) : Bool :=
  address ∈ [0x01, 0x03, 0x05, 0x07, 0x09, 0x0B, 0x0D, 0x0F, 0x11, (0x13 : Byte)]

theorem regWritten (r : Registers) (address value a : Byte) :
    (r.handleRegWrite address value).handleRegRead a =
      if a = address ∧ writable address then value else r.handleRegRead a := by
  by_cases some : writable address = true
  · have found := some
    simp only [writable, List.mem_cons, List.not_mem_nil, or_false, decide_eq_true_eq] at found
    by_cases same : a = address
    · subst a
      rw [if_pos ⟨rfl, some⟩]
      rcases found with rfl | rfl | rfl | rfl | rfl | rfl | rfl | rfl | rfl | rfl <;> rfl
    · rw [if_neg (fun both => same both.1)]
      rcases found with rfl | rfl | rfl | rfl | rfl | rfl | rfl | rfl | rfl | rfl <;>
        simp only [Registers.handleRegWrite, Registers.handleRegRead, same, if_false, BitVec.reduceEq, if_true]
  · rw [if_neg (fun both => some both.2)]
    simp only [writable, List.mem_cons, List.not_mem_nil, or_false, decide_eq_true_eq, not_or] at some
    obtain ⟨h1, h3, h5, h7, h9, hB, hD, hF, h11, h13⟩ := some
    simp only [Registers.handleRegWrite, h1, h3, h5, h7, h9, hB, hD, hF, h11, h13, if_false]

end Registers

abbrev Line := Slave × Bool

def Line.bit (l : Line) (m : Bool) : Line := (l.1.rising (m && l.2)).falling

def Line.bits (l : Line) (ms : List Bool) : Line := ms.foldl Line.bit l

def Line.sampled (l : Line) : List Bool → List Bool
  | [] => []
  | m :: rest => (m && l.2) :: (l.bit m).sampled rest

def byteBits (b : Byte) : List Bool := (List.range 8).reverse.map b.getLsbD

section Waves

/- What the master may put on the wires for one bit: anything while SCL is low, the bit
before SCL rises and as long as it is high. -/
inductive Bit (m : Bool) : List Drive → Prop where
  | wave (lows : List Bool) (more : Nat) (after : Bool) :
      Bit m (lows.map (Drive.mk false) ++ ⟨false, m⟩ :: List.replicate (more + 1) ⟨true, m⟩ ++ [⟨false, after⟩])

inductive Bits : List Bool → List Drive → Prop where
  | nil : Bits [] []
  | cons {m ms first rest} (head : Bit m first) (tail : Bits ms rest) : Bits (m :: ms) (first ++ rest)

inductive Start : List Drive → Prop where
  | wave (idle more : Nat) (after : Bool) :
      Start (List.replicate idle ⟨true, true⟩ ++ List.replicate (more + 1) ⟨true, false⟩ ++ [⟨false, after⟩])

inductive RepeatedStart : List Drive → Prop where
  | wave (lows : List Bool) (idle more : Nat) (after : Bool) :
      RepeatedStart (lows.map (Drive.mk false) ++ ⟨false, true⟩ :: List.replicate (idle + 1) ⟨true, true⟩ ++
        List.replicate (more + 1) ⟨true, false⟩ ++ [⟨false, after⟩])

inductive Stop : List Drive → Prop where
  | wave (lows : List Bool) (more idle : Nat) :
      Stop (lows.map (Drive.mk false) ++ ⟨false, false⟩ :: List.replicate (more + 1) ⟨true, false⟩ ++
        List.replicate (idle + 1) ⟨true, true⟩)

def Bus.at (v : Slave) (driven scl sda : Bool) : Bus := ⟨⟨v, sda, scl⟩, driven, scl, sda⟩

def Low (l : Line) (s : Bus) : Prop := ∃ sda, s = .at l.1 l.2 false sda

def Idle (v : Slave) (s : Bus) : Prop := s = .at v true true true

variable {v : Slave} {l : Line} {s : Bus} {driven sda m : Bool} {wave : List Drive}

theorem samplesAppend (s : Bus) (first rest : List Drive) :
    s.samples (first ++ rest) = s.samples first ++ (s.run first).samples rest := by
  induction first generalizing s with
  | nil => rfl
  | cons d more ih =>
      simp only [List.cons_append, Bus.samples, Bus.run, List.foldl_cons]
      rw [ih]
      split <;> rfl

structure Leads (s : Bus) (wave : List Drive) (next : Bus) (read : List Bool) : Prop where
  run : s.run wave = next
  samples : s.samples wave = read

theorem leadsAppend {mid next : Bus} {first rest : List Drive} {early late : List Bool}
    (before : Leads s first mid early) (after : Leads mid rest next late) :
    Leads s (first ++ rest) next (early ++ late) where
  run := by
    unfold Bus.run
    rw [List.foldl_append]
    exact (congrArg (fun t => Bus.run t rest) before.run).trans after.run
  samples := by rw [samplesAppend, before.run, before.samples, after.samples]

theorem leadsCongr {first : List Drive} {next : Bus} {read : List Bool} (leads : Leads s first next read)
    (same : first = wave) : Leads s wave next read := same ▸ leads

theorem leadsStay {d : Drive} (n : Nat) (stay : Leads s [d] s []) : Leads s (List.replicate n d) s [] := by
  induction n with
  | zero => exact ⟨rfl, rfl⟩
  | succ n ih => exact leadsAppend stay ih

theorem lowDrive (v : Slave) (driven sda m : Bool) :
    Leads (.at v driven false sda) [⟨false, m⟩] (.at v driven false (m && driven)) [] := by
  cases driven <;> cases sda <;> cases m <;> exact ⟨rfl, rfl⟩

theorem riseDrive (v : Slave) (driven m : Bool) : Leads (.at v driven false (m && driven)) [⟨true, m⟩]
    (.at (v.rising (m && driven)) driven true (m && driven)) [m && driven] := by
  cases driven <;> cases m <;> exact ⟨rfl, rfl⟩

theorem highDrive (v : Slave) (driven m : Bool) :
    Leads (.at v driven true (m && driven)) [⟨true, m⟩] (.at v driven true (m && driven)) [] := by
  cases driven <;> cases m <;> exact ⟨rfl, rfl⟩

theorem fallDrive (v : Slave) (driven sda m : Bool) : Leads (.at v driven true sda) [⟨false, m⟩]
    (.at v.falling.1 v.falling.2 false (m && v.falling.2)) [] := by
  refine ⟨?_, rfl⟩
  rcases answer : v.falling with ⟨w, sdo⟩
  cases driven <;> cases sda <;> cases m <;> cases sdo <;>
    simp [Bus.run, Bus.drive, Bus.resolve, Bus.at, Expander.i2cSync, answer]

theorem startDrive (v : Slave) : Leads (.at v true true true) [⟨true, false⟩] (.at v.started true true false) [] :=
  ⟨rfl, rfl⟩

theorem stopDrive (v : Slave) : Leads (.at v true true false) [⟨true, true⟩] (.at v.stopped true true true) [] :=
  ⟨rfl, rfl⟩

theorem lowsRun (v : Slave) (driven : Bool) (lows : List Bool) : ∀ sda, ∃ left,
    Leads (.at v driven false sda) (lows.map (Drive.mk false)) (.at v driven false left) [] := by
  induction lows with
  | nil => exact fun sda => ⟨sda, rfl, rfl⟩
  | cons m rest ih =>
      intro sda
      obtain ⟨left, leads⟩ := ih (m && driven)
      exact ⟨left, leadsAppend (lowDrive v driven sda m) leads⟩

theorem risesRun (low : Low l s) (lows : List Bool) (m : Bool) : Leads s
    (lows.map (Drive.mk false) ++ ([⟨false, m⟩] ++ [⟨true, m⟩]))
    (.at (l.1.rising (m && l.2)) l.2 true (m && l.2)) [m && l.2] := by
  obtain ⟨sda, rfl⟩ := low
  obtain ⟨left, leads⟩ := lowsRun l.1 l.2 lows sda
  exact leadsAppend leads (leadsAppend (lowDrive l.1 l.2 left m) (riseDrive l.1 l.2 m))

theorem bitRun (low : Low l s) (bit : Bit m wave) : ∃ next, Leads s wave next [m && l.2] ∧ Low (l.bit m) next := by
  obtain ⟨lows, more, after⟩ := bit
  have rises := risesRun low lows m
  have high := leadsStay more (highDrive (l.1.rising (m && l.2)) l.2 m)
  have falls := fallDrive (l.1.rising (m && l.2)) l.2 (m && l.2) after
  have leads := leadsAppend rises (leadsAppend high falls)
  exact ⟨_, leadsCongr leads (by simp [List.replicate_succ]), after && (l.bit m).2, rfl⟩

theorem bitsRun {ms : List Bool} (low : Low l s) (bits : Bits ms wave) :
    ∃ next, Leads s wave next (l.sampled ms) ∧ Low (l.bits ms) next := by
  induction bits generalizing l s with
  | nil => exact ⟨s, ⟨rfl, rfl⟩, low⟩
  | cons head tail ih =>
      obtain ⟨mid, first, between⟩ := bitRun low head
      obtain ⟨next, rest, last⟩ := ih between
      exact ⟨next, leadsAppend first rest, last⟩

theorem startRun (idle : Idle v s) (start : Start wave) :
    ∃ next, Leads s wave next [] ∧ Low (v.started, true) next := by
  obtain ⟨quiet, more, after⟩ := start
  subst idle
  have before := leadsStay quiet (highDrive v true true)
  have hold := leadsStay more (highDrive v.started true false)
  have falls := fallDrive v.started true false after
  have leads := leadsAppend before (leadsAppend (startDrive v) (leadsAppend hold falls))
  exact ⟨_, leadsCongr leads (by simp [List.replicate_succ]), after && true, rfl⟩

theorem repeatedRun (low : Low (v, true) s) (start : RepeatedStart wave) :
    ∃ next read, Leads s wave next read ∧ Low ((v.rising true).started, true) next := by
  obtain ⟨lows, quiet, more, after⟩ := start
  have rises := risesRun low lows true
  have before := leadsStay quiet (highDrive (v.rising true) true true)
  have hold := leadsStay more (highDrive (v.rising true).started true false)
  have falls := fallDrive (v.rising true).started true false after
  have leads := leadsAppend rises (leadsAppend before (leadsAppend (startDrive _) (leadsAppend hold falls)))
  exact ⟨_, _, leadsCongr leads (by simp [List.replicate_succ]), after && true, rfl⟩

theorem stopRun (low : Low (v, true) s) (stop : Stop wave) :
    ∃ next read, Leads s wave next read ∧ Idle (v.rising false).stopped next := by
  obtain ⟨lows, more, quiet⟩ := stop
  have rises := risesRun low lows false
  have hold := leadsStay more (highDrive (v.rising false) true false)
  have after := leadsStay quiet (highDrive (v.rising false).stopped true true)
  have leads := leadsAppend rises (leadsAppend hold (leadsAppend (stopDrive _) after))
  exact ⟨_, _, leadsCongr leads (by simp [List.replicate_succ]), rfl⟩

end Waves

section Bytes

variable {v : Slave}

structure Latch where
  regAddress : Byte
  waitingRegAddress : Bool
  regs : Registers

def Slave.latch (s : Slave) : Latch := ⟨s.regAddress, s.waitingRegAddress, s.regs⟩

def Latch.handle (l : Latch) (byte : Byte) : Latch :=
  if l.waitingRegAddress then {l with regAddress := byte, waitingRegAddress := false}
  else {l with regs := l.regs.handleRegWrite l.regAddress byte, waitingRegAddress := true}

theorem handleLatch (v : Slave) (byte : Byte) : (v.i2cHandleByte byte).latch = v.latch.handle byte := by
  unfold Slave.i2cHandleByte Latch.handle Slave.latch
  dsimp only
  split <;> rfl

structure Receiving (v : Slave) : Prop where
  deviceAddress : v.deviceAddress = 0x43
  beingAddressed : v.beingAddressed = true
  isRead : v.isRead = false
  state : v.state = .sampleData
  pendingBits : v.pendingBits = 8

def shiftIn (d : Byte) (bits : List Bool) : Byte :=
  bits.foldl (fun d b => d <<< 1 ||| (BitVec.ofBool b).setWidth 8) d

theorem shiftInByte (d byte : Byte) : shiftIn d (byteBits byte) = byte := by
  apply BitVec.eq_of_getLsbD_eq
  intro i small
  have bits : byteBits byte = [byte.getLsbD 7, byte.getLsbD 6, byte.getLsbD 5, byte.getLsbD 4, byte.getLsbD 3,
    byte.getLsbD 2, byte.getLsbD 1, byte.getLsbD 0] := rfl
  rw [bits]
  have position : i = 0 ∨ i = 1 ∨ i = 2 ∨ i = 3 ∨ i = 4 ∨ i = 5 ∨ i = 6 ∨ i = 7 := by omega
  rcases position with rfl | rfl | rfl | rfl | rfl | rfl | rfl | rfl <;> simp [shiftIn]

theorem handleAddressed (v : Slave) (byte : Byte) : (v.i2cHandleByte byte).beingAddressed = v.beingAddressed ∧
    (v.i2cHandleByte byte).isRead = v.isRead ∧ (v.i2cHandleByte byte).deviceAddress = v.deviceAddress ∧
    (v.i2cHandleByte byte).pendingBits = v.pendingBits := by
  unfold Slave.i2cHandleByte
  split <;> exact ⟨rfl, rfl, rfl, rfl⟩

def Slave.shifted (v : Slave) (bits : List Bool) (left : Int) : Slave :=
  {v with pendingData := shiftIn v.pendingData bits, pendingBits := left}

theorem risingSample (state : v.state = .sampleData) (b : Bool) : v.rising b =
    if v.pendingBits - 1 = 0
    then {(v.shifted [b] 8).i2cHandleByte (shiftIn v.pendingData [b]) with state := .ack}
    else v.shifted [b] (v.pendingBits - 1) := by
  obtain ⟨_, _, _, _, _, now, _⟩ := v
  cases (state : now = .sampleData)
  rfl

theorem fallingSample (state : v.state = .sampleData) : v.falling = (v, true) := by
  unfold Slave.falling
  rw [state]

theorem bitsCons (v : Slave) (b : Bool) (rest : List Bool) :
    Line.bits (v, true) (b :: rest) = Line.bits (v.rising b).falling rest := by
  simp [Line.bits, Line.bit]

theorem receiveBits (bits : List Bool) : ∀ v : Slave, v.state = .sampleData → v.pendingBits = bits.length →
    bits ≠ [] → Line.bits (v, true) bits =
      ({(v.shifted bits 8).i2cHandleByte (shiftIn v.pendingData bits) with state := .ack}, !v.beingAddressed) := by
  induction bits with
  | nil => exact fun _ _ _ some => absurd rfl some
  | cons b rest ih =>
      intro v state count _
      rw [List.length_cons] at count
      rw [bitsCons, risingSample state]
      cases rest with
      | nil =>
          have kept := (handleAddressed (v.shifted [b] 8) (shiftIn v.pendingData [b])).1
          rw [if_pos (by rw [count]; rfl)]
          exact Prod.ext rfl (congrArg (! ·) kept)
      | cons c more =>
          have left : (v.shifted [b] (v.pendingBits - 1)).pendingBits = (c :: more).length := by
            change v.pendingBits - 1 = _
            omega
          rw [List.length_cons] at count
          rw [if_neg (by omega), fallingSample (show (v.shifted [b] (v.pendingBits - 1)).state = _ from state),
            ih (v.shifted [b] (v.pendingBits - 1)) state left (by simp)]
          rfl

theorem bitsAppend (l : Line) (first rest : List Bool) : l.bits (first ++ rest) = (l.bits first).bits rest :=
  List.foldl_append

theorem receiveByte (ready : Receiving v) (byte : Byte) : ∃ w, Line.bits (v, true) (byteBits byte ++ [true]) = (w, true) ∧
    Receiving w ∧ w.latch = v.latch.handle byte := by
  have received := receiveBits (byteBits byte) v ready.state ready.pendingBits (by simp [byteBits])
  rw [shiftInByte] at received
  obtain ⟨addressed, isRead, device, count⟩ := handleAddressed (v.shifted (byteBits byte) 8) byte
  refine ⟨{(v.shifted (byteBits byte) 8).i2cHandleByte byte with state := .sampleData}, ?_,
    ⟨device.trans ready.deviceAddress, addressed.trans ready.beingAddressed, isRead.trans ready.isRead, rfl, count⟩,
    handleLatch (v.shifted (byteBits byte) 8) byte⟩
  rw [bitsAppend, received]
  change (Slave.rising _ _).falling = _
  unfold Slave.rising
  dsimp only
  have plain : ((v.shifted (byteBits byte) 8).i2cHandleByte byte).isRead = false := isRead.trans ready.isRead
  rw [if_pos (addressed.trans ready.beingAddressed), if_neg (by simp [plain])]
  rfl

def shiftAddress (address : BitVec 32) (bits : List Bool) : BitVec 32 :=
  bits.foldl (fun address b => address <<< 1 ||| (BitVec.ofBool b).setWidth 32) address

theorem risingAddress (state : v.state = .waitAddress) (b : Bool) (more : 1 < v.pendingBits) : v.rising b =
    {v with i2cAddress := shiftAddress v.i2cAddress [b], pendingBits := v.pendingBits - 1} := by
  obtain ⟨_, _, _, _, _, now, _⟩ := v
  cases (state : now = .waitAddress)
  unfold Slave.rising
  dsimp only at more ⊢
  rw [if_pos more]
  exact if_neg (by dsimp only; omega)

theorem fallingAddress (state : v.state = .waitAddress) : v.falling = (v, true) := by
  unfold Slave.falling
  rw [state]

theorem addressBits (bits : List Bool) : ∀ v : Slave, v.state = .waitAddress → v.pendingBits = bits.length + 1 →
    Line.bits (v, true) bits = ({v with i2cAddress := shiftAddress v.i2cAddress bits, pendingBits := 1}, true) := by
  induction bits with
  | nil =>
      intro v _ count
      have one : v.pendingBits = 1 := count
      rw [← one]
      rfl
  | cons b rest ih =>
      intro v state count
      rw [List.length_cons] at count
      rw [bitsCons, risingAddress state b (by omega)]
      generalize moved : ({v with i2cAddress := _, pendingBits := v.pendingBits - 1} : Slave) = w
      have here : w.state = .waitAddress := by rw [← moved]; exact state
      have left : w.pendingBits = rest.length + 1 := by
        rw [← moved]
        change v.pendingBits - 1 = _
        omega
      rw [fallingAddress here, ih w here left, ← moved]
      rfl

theorem headerBits (v : Slave) (device : v.deviceAddress = 0x43) (isRead : Bool) :
    Line.bits (v.started, true) ([true, false, false, false, false, true, true] ++ [isRead]) =
      ({({v.started with i2cAddress := 0x43, isRead := isRead, pendingBits := 0} : Slave).i2cStart 0x43 isRead with
        state := .ack, pendingBits := 8}, false) := by
  have address : shiftAddress v.started.i2cAddress [true, false, false, false, false, true, true] = 0x43 := by
    change shiftAddress 0 _ = 0x43
    decide
  rw [bitsAppend, addressBits _ _ rfl rfl, address]
  obtain ⟨_, _⟩ := v
  cases device
  cases isRead <;> rfl

theorem headerWrite (v : Slave) (device : v.deviceAddress = 0x43) :
    ∃ w, Line.bits (v.started, true) (byteBits 0x86 ++ [true]) = (w, true) ∧ Receiving w ∧ w.latch = v.latch := by
  have bits : byteBits 0x86 = [true, false, false, false, false, true, true] ++ [false] := by decide
  rw [bits, bitsAppend, headerBits v device]
  obtain ⟨_, _⟩ := v
  cases device
  exact ⟨_, rfl, ⟨rfl, rfl, rfl, rfl, rfl⟩, rfl⟩

structure Sending (byte : Byte) (v : Slave) : Prop where
  deviceAddress : v.deviceAddress = 0x43
  state : v.state = .getData
  pendingBits : v.pendingBits = 7
  pendingSendByte : v.pendingSendByte = byte.setWidth 32 <<< 1

theorem headerRead (v : Slave) (device : v.deviceAddress = 0x43) :
    ∃ w, Line.bits (v.started, true) (byteBits 0x87 ++ [true]) =
      (w, (v.regs.handleRegRead v.regAddress).getLsbD 7) ∧
      Sending (v.regs.handleRegRead v.regAddress) w ∧ w.latch = v.latch := by
  have bits : byteBits 0x87 = [true, false, false, false, false, true, true] ++ [true] := by decide
  rw [bits, bitsAppend, headerBits v device]
  obtain ⟨_, _⟩ := v
  cases device
  have top : ∀ b : Byte, (b.setWidth 32).getLsbD 7 = b.getLsbD 7 := fun b => by simp
  exact ⟨_, Prod.ext rfl (top _), ⟨rfl, rfl, rfl, rfl⟩, rfl⟩

theorem risingSend (state : v.state = .getData) (b : Bool) : v.rising b = v := by
  unfold Slave.rising
  rw [state]

theorem fallingSend (state : v.state = .getData) : v.falling =
    ({v with
      pendingSendByte := v.pendingSendByte <<< 1
      pendingBits := v.pendingBits - 1
      state := if v.pendingBits - 1 = 0 then .readAck else .getData}, v.pendingSendByte.getLsbD 7) := by
  obtain ⟨_, _, _, _, _, now, _⟩ := v
  cases (state : now = .getData)
  unfold Slave.falling
  dsimp only
  split <;> rfl

theorem sendBit (state : v.state = .getData) (driven : Bool) : Line.bit (v, driven) true = v.falling := by
  unfold Line.bit
  rw [risingSend state]

theorem sendBits (n : Nat) : ∀ (v : Slave) (driven : Bool), v.state = .getData → v.pendingBits = n + 1 →
    Line.sampled (v, driven) (List.replicate (n + 2) true) =
      driven :: (List.range (n + 1)).map (fun i => (v.pendingSendByte <<< i).getLsbD 7) ∧
    ∃ w, Line.bits (v, driven) (List.replicate (n + 2) true) = (w, true) ∧
      w.deviceAddress = v.deviceAddress ∧ w.state = .waitStart ∧ w.latch = v.latch := by
  induction n with
  | zero =>
      intro v driven state count
      have last := fallingSend state
      rw [if_pos (by rw [count]; rfl)] at last
      have first := (sendBit state driven).trans last
      constructor
      · change [driven, (Line.bit (v, driven) true).2] = _
        rw [first]
        simp
      · change ∃ w, Line.bit (Line.bit (v, driven) true) true = _ ∧ _
        rw [first]
        exact ⟨_, rfl, rfl, rfl, rfl⟩
  | succ n ih =>
      intro v driven state count
      have next := fallingSend state
      rw [if_neg (by omega)] at next
      have first := (sendBit state driven).trans next
      generalize shifted : ({v with
        pendingSendByte := v.pendingSendByte <<< 1, pendingBits := v.pendingBits - 1, state := .getData} : Slave) = u
        at first
      have here : u.state = .getData := by rw [← shifted]
      have left : u.pendingBits = n + 1 := by
        rw [← shifted]
        change v.pendingBits - 1 = _
        omega
      obtain ⟨sampled, w, bits, device, done, latch⟩ := ih u (v.pendingSendByte.getLsbD 7) here left
      constructor
      · change driven :: (Line.bit (v, driven) true).sampled (List.replicate (n + 2) true) = _
        have later : ∀ i, (u.pendingSendByte <<< i).getLsbD 7 = (v.pendingSendByte <<< (i + 1)).getLsbD 7 := by
          intro i
          rw [← shifted, Nat.add_comm i 1, BitVec.shiftLeft_add]
        rw [first, sampled, List.range_succ_eq_map (n := n + 1), List.map_cons, List.map_map, BitVec.shiftLeft_zero]
        exact congrArg (fun rest => driven :: _ :: rest) (List.map_congr_left (fun i _ => later i))
      · refine ⟨w, ?_, device.trans (by rw [← shifted]), done, latch.trans (by rw [← shifted]; rfl)⟩
        rw [← bits, ← first]
        rfl

theorem sendByte (byte : Byte) (sending : Sending byte v) :
    Line.sampled (v, byte.getLsbD 7) (List.replicate 8 true) = byteBits byte ∧
    ∃ w, Line.bits (v, byte.getLsbD 7) (List.replicate 8 true) = (w, true) ∧
      w.deviceAddress = 0x43 ∧ w.state = .waitStart ∧ w.latch = v.latch := by
  obtain ⟨sampled, w, bits, device, done, latch⟩ := sendBits 6 v (byte.getLsbD 7) sending.state sending.pendingBits
  refine ⟨sampled.trans ?_, w, bits, device.trans sending.deviceAddress, done, latch⟩
  rw [sending.pendingSendByte]
  simp [byteBits, List.range, List.range.loop]

end Bytes

inductive Transaction where
  | write (reg value : Byte)
  | read (reg : Byte)
  deriving DecidableEq, Repr

def Transaction.isRead : Transaction → Bool
  | .write _ _ => false
  | .read _ => true

structure Wave where
  before : List Drive
  data : List Drive
  after : List Drive

/- Every byte is followed by its acknowledge, for which the sender releases SDA; the master
may acknowledge the byte it reads or not. 0x86 and 0x87 are the address 0x43 for a write and
for a read. -/
inductive Encodes : Transaction → Wave → Prop where
  | write {value w₀ w₁ w₂ w₃ w₄} (reg : Byte) (start : Start w₀) (header : Bits (byteBits 0x86 ++ [true]) w₁)
      (address : Bits (byteBits reg ++ [true]) w₂) (byte : Bits (byteBits value ++ [true]) w₃) (stop : Stop w₄) :
      Encodes (.write reg value) ⟨w₀ ++ (w₁ ++ (w₂ ++ (w₃ ++ w₄))), [], []⟩
  | read {w₀ w₁ w₂ w₃ w₄ data w₅ w₆ ack} (reg : Byte) (start : Start w₀)
      (header : Bits (byteBits 0x86 ++ [true]) w₁) (address : Bits (byteBits reg ++ [true]) w₂)
      (again : RepeatedStart w₃) (readHeader : Bits (byteBits 0x87 ++ [true]) w₄)
      (byte : Bits (List.replicate 8 true) data) (last : Bit ack w₅) (stop : Stop w₆) :
      Encodes (.read reg) ⟨w₀ ++ (w₁ ++ (w₂ ++ (w₃ ++ w₄))), data, w₅ ++ w₆⟩

def Bus.transact (s : Bus) (w : Wave) : Bus := s.run (w.before ++ (w.data ++ w.after))

def Bus.reads (s : Bus) (w : Wave) : List Bool := (s.run w.before).samples w.data

def Bus.regs (s : Bus) : Registers := s.expander.regs

inductive History (v : Slave) : List Transaction → Bus → Prop where
  | nil : History v [] (.initial v)
  | snoc {past s t w} (before : History v past s) (encoded : Encodes t w) : History v (past ++ [t]) (s.transact w)

def Works (s : Bus) (w : Wave) : Transaction → Prop
  | .write reg value => ∀ a, (s.transact w).regs.handleRegRead a =
      if a = reg ∧ writable reg then value else s.regs.handleRegRead a
  | .read reg => s.reads w = byteBits (s.regs.handleRegRead reg) ∧ (s.transact w).regs = s.regs

section Transactions

variable {v : Slave} {s : Bus} {w : Wave} {t : Transaction} {past : List Transaction}

structure Rests (l : Latch) (s : Bus) : Prop where
  idle : ∃ v, Idle v s ∧ v.deviceAddress = 0x43 ∧ v.latch = l

theorem restsRegs {l : Latch} (rests : Rests l s) : s.regs = l.regs := by
  obtain ⟨v, rfl, _, rfl⟩ := rests.idle
  rfl

theorem openRun {l : Latch} {reg : Byte} {w₀ w₁ w₂ : List Drive} (rests : Rests l s) (start : Start w₀)
    (header : Bits (byteBits 0x86 ++ [true]) w₁) (address : Bits (byteBits reg ++ [true]) w₂) :
    ∃ u next read, Leads s (w₀ ++ (w₁ ++ w₂)) next read ∧ Low (u, true) next ∧ Receiving u ∧
      u.latch = l.handle reg := by
  obtain ⟨v, idle, device, latch⟩ := rests.idle
  obtain ⟨s₁, leads₀, low₁⟩ := startRun idle start
  obtain ⟨v₂, bits₂, ready₂, latch₂⟩ := headerWrite v device
  obtain ⟨s₂, leads₁, low₂⟩ := bitsRun low₁ header
  rw [bits₂] at low₂
  obtain ⟨v₃, bits₃, ready₃, latch₃⟩ := receiveByte ready₂ reg
  obtain ⟨s₃, leads₂, low₃⟩ := bitsRun low₂ address
  rw [bits₃] at low₃
  exact ⟨v₃, s₃, _, leadsAppend leads₀ (leadsAppend leads₁ leads₂), low₃, ready₃, by rw [latch₃, latch₂, latch]⟩

theorem stopLatch (ready : v.state = .sampleData ∧ v.pendingBits = 8 ∨ v.state = .waitStart) :
    (v.rising false).stopped.latch = v.latch ∧ (v.rising false).stopped.deviceAddress = v.deviceAddress := by
  rcases ready with ⟨state, count⟩ | state
  · rw [risingSample state, if_neg (by omega)]
    exact ⟨rfl, rfl⟩
  · unfold Slave.rising
    rw [state]
    exact ⟨rfl, rfl⟩

theorem writeRun {l : Latch} {reg value : Byte} (rests : Rests l s) (encoded : Encodes (.write reg value) w) :
    Rests ((l.handle reg).handle value) (s.transact w) := by
  cases encoded with
  | write _ start header address byte stop =>
      rename_i w₀ w₁ w₂ w₃ w₄
      obtain ⟨u, s₁, read₁, leads₁, low₁, ready₁, latch₁⟩ := openRun rests start header address
      obtain ⟨v₂, bits₂, ready₂, latch₂⟩ := receiveByte ready₁ value
      obtain ⟨s₂, leads₂, low₂⟩ := bitsRun low₁ byte
      rw [bits₂] at low₂
      obtain ⟨s₃, read₃, leads₃, idle₃⟩ := stopRun low₂ stop
      have leads := leadsAppend leads₁ (leadsAppend leads₂ leads₃)
      have done : s.transact ⟨w₀ ++ (w₁ ++ (w₂ ++ (w₃ ++ w₄))), [], []⟩ = s₃ := by
        rw [← leads.run]
        simp [Bus.transact]
      rw [done]
      have kept := stopLatch (.inl ⟨ready₂.state, ready₂.pendingBits⟩)
      exact ⟨_, idle₃, kept.2.trans ready₂.deviceAddress, by rw [kept.1, latch₂, latch₁]⟩

theorem readRun {l : Latch} {reg : Byte} (rests : Rests l s) (encoded : Encodes (.read reg) w) :
    Rests (l.handle reg) (s.transact w) ∧
    s.reads w = byteBits ((l.handle reg).regs.handleRegRead (l.handle reg).regAddress) := by
  cases encoded with
  | read _ start header address again readHeader byte last stop =>
      rename_i w₀ w₁ w₂ w₃ w₄ data w₅ w₆ ack
      obtain ⟨u, s₁, read₁, leads₁, low₁, ready₁, latch₁⟩ := openRun rests start header address
      obtain ⟨s₂, read₂, leads₂, low₂⟩ := repeatedRun low₁ again
      have same : (u.rising true).deviceAddress = 0x43 ∧ (u.rising true).latch = u.latch := by
        rw [risingSample ready₁.state, if_neg (by rw [ready₁.pendingBits]; omega)]
        exact ⟨ready₁.deviceAddress, rfl⟩
      obtain ⟨v₃, bits₃, sending₃, latch₃⟩ := headerRead (u.rising true) same.1
      obtain ⟨s₃, leads₃, low₃⟩ := bitsRun low₂ readHeader
      rw [bits₃] at low₃
      obtain ⟨sampled, v₄, bits₄, device₄, state₄, latch₄⟩ := sendByte _ sending₃
      obtain ⟨s₄, leads₄, low₄⟩ := bitsRun low₃ byte
      rw [bits₄] at low₄
      rw [sampled] at leads₄
      obtain ⟨s₅, leads₅, low₅⟩ := bitRun low₄ last
      have waits : Line.bit (v₄, true) ack = (v₄, true) := by
        unfold Line.bit Slave.rising Slave.falling
        rw [state₄]
        dsimp only
        rw [state₄]
      rw [waits] at low₅
      obtain ⟨s₆, read₆, leads₆, idle₆⟩ := stopRun low₅ stop
      have before := leadsCongr (leadsAppend leads₁ (leadsAppend leads₂ leads₃))
        (show _ = w₀ ++ (w₁ ++ (w₂ ++ (w₃ ++ w₄))) by simp)
      have leads := leadsAppend before (leadsAppend leads₄ (leadsAppend leads₅ leads₆))
      have latch : (u.rising true).latch = l.handle reg := same.2.trans latch₁
      have kept := stopLatch (.inr state₄)
      constructor
      · have done : s.transact ⟨w₀ ++ (w₁ ++ (w₂ ++ (w₃ ++ w₄))), data, w₅ ++ w₆⟩ = s₆ := leads.run
        rw [done]
        exact ⟨_, idle₆, kept.2.trans device₄, by rw [kept.1, latch₄, latch₃, latch]⟩
      · unfold Bus.reads
        rw [before.run, leads₄.samples, ← latch]
        rfl

/- The latch expects a register address as long as it has seen an even number of reads. -/
theorem historyRests (built : v.Built) (history : History v past s) :
    ∃ l : Latch, Rests l s ∧ (l.waitingRegAddress = true ↔ Even (past.countP Transaction.isRead)) := by
  induction history with
  | nil =>
      exact ⟨v.latch, ⟨v, rfl, built.deviceAddress, rfl⟩, by simp [Slave.latch, built.waitingRegAddress]⟩
  | @snoc past s t w before encoded ih =>
      obtain ⟨l, rests, waits⟩ := ih
      cases t with
      | write reg value =>
          refine ⟨_, writeRun rests encoded, ?_⟩
          have twice : ((l.handle reg).handle value).waitingRegAddress = l.waitingRegAddress := by
            unfold Latch.handle
            cases expects : l.waitingRegAddress <;> simp
          rw [twice, waits, List.countP_append]
          simp [Transaction.isRead]
      | read reg =>
          refine ⟨_, (readRun rests encoded).1, ?_⟩
          have once : (l.handle reg).waitingRegAddress = !l.waitingRegAddress := by
            unfold Latch.handle
            cases expects : l.waitingRegAddress <;> simp
          rw [once, List.countP_append]
          simp [Transaction.isRead, Nat.even_add_one, ← waits]

/- With the latch as it should be, both kinds of transaction do what they are for. -/
theorem registerTransactions (built : v.Built) (history : History v past s)
    (even : Even (past.countP Transaction.isRead)) (encoded : Encodes t w) : Works s w t := by
  obtain ⟨l, rests, waits⟩ := historyRests built history
  have expects : l.waitingRegAddress = true := waits.mpr even
  cases t with
  | write reg value =>
      have after : (l.handle reg).handle value = {l with
          regAddress := reg, regs := l.regs.handleRegWrite reg value, waitingRegAddress := true} := by
        unfold Latch.handle
        simp [expects]
      intro a
      rw [restsRegs (writeRun rests encoded), restsRegs rests, after]
      exact regWritten l.regs reg value a
  | read reg =>
      have after : l.handle reg = {l with regAddress := reg, waitingRegAddress := false} := by
        unfold Latch.handle
        simp [expects]
      obtain ⟨kept, read⟩ := readRun rests encoded
      rw [after] at kept read
      exact ⟨by rw [read, restsRegs rests], by rw [restsRegs kept, restsRegs rests]⟩

/- After an odd number of reads the register address of a transaction is taken for a value: it
is written to the register that was addressed last. -/
theorem staleTransactions (built : v.Built) (history : History v past s)
    (odd : ¬Even (past.countP Transaction.isRead)) (encoded : Encodes t w) :
    ∃ old reg, (t = .read reg ∨ ∃ value, t = .write reg value) ∧
      (s.transact w).regs = s.regs.handleRegWrite old reg := by
  obtain ⟨l, rests, waits⟩ := historyRests built history
  have stale : l.waitingRegAddress = false := by simpa using fun up => odd (waits.mp up)
  cases t with
  | write reg value =>
      refine ⟨l.regAddress, reg, .inr ⟨value, rfl⟩, ?_⟩
      rw [restsRegs (writeRun rests encoded), restsRegs rests]
      simp [Latch.handle, stale]
  | read reg =>
      refine ⟨l.regAddress, reg, .inl rfl, ?_⟩
      rw [restsRegs (readRun rests encoded).1, restsRegs rests]
      simp [Latch.handle, stale]

def bitWave (m : Bool) : List Drive := [⟨false, m⟩, ⟨true, m⟩, ⟨false, m⟩]

def bitsWave (ms : List Bool) : List Drive := ms.flatMap bitWave

def startWave : List Drive := [⟨true, false⟩, ⟨false, false⟩]

def repeatedWave : List Drive := [⟨false, true⟩, ⟨true, true⟩, ⟨true, false⟩, ⟨false, false⟩]

def stopWave : List Drive := [⟨false, false⟩, ⟨true, false⟩, ⟨true, true⟩]

def writeWave (reg value : Byte) : Wave where
  before := startWave ++ (bitsWave (byteBits 0x86 ++ [true]) ++ (bitsWave (byteBits reg ++ [true]) ++
    (bitsWave (byteBits value ++ [true]) ++ stopWave)))
  data := []
  after := []

def readWave (reg : Byte) : Wave where
  before := startWave ++ (bitsWave (byteBits 0x86 ++ [true]) ++ (bitsWave (byteBits reg ++ [true]) ++
    (repeatedWave ++ bitsWave (byteBits 0x87 ++ [true]))))
  data := bitsWave (List.replicate 8 true)
  after := bitWave true ++ stopWave

theorem bitsWaveBits (ms : List Bool) : Bits ms (bitsWave ms) := by
  induction ms with
  | nil => exact .nil
  | cons m rest ih => exact .cons (.wave [] 0 m) ih

theorem writeWaveEncodes (reg value : Byte) : Encodes (.write reg value) (writeWave reg value) :=
  .write reg (.wave 0 0 false) (bitsWaveBits _) (bitsWaveBits _) (bitsWaveBits _) (.wave [] 0 0)

theorem readWaveEncodes (reg : Byte) : Encodes (.read reg) (readWave reg) :=
  .read reg (.wave 0 0 false) (bitsWaveBits _) (bitsWaveBits _) (.wave [] 0 0 false) (bitsWaveBits _) (bitsWaveBits _)
    (.wave [] 0 true) (.wave [] 0 0)

def fresh : Slave :=
  ⟨0x43, false, 0, 0, false, .waitStart, 0, 0, 0, true, ⟨0xC2, 0x00, 0x00, 0xFF, 0x00, 0xFF, 0x00, 0xFF, 0x00, 0xFF⟩⟩

theorem freshBuilt : fresh.Built := ⟨rfl, rfl, rfl, rfl, rfl⟩

theorem historyOne (encoded : Encodes t w) : History v [t] ((Bus.initial v).transact w) :=
  show History v ([] ++ [t]) _ from .snoc .nil encoded

/- A value written to the output state is read back. -/
theorem registerTransactionsReadBack : History fresh [.write 0x05 0xAA] ((Bus.initial fresh).transact (writeWave 0x05 0xAA)) ∧
    ((Bus.initial fresh).transact (writeWave 0x05 0xAA)).regs.outputState = 0xAA ∧
    Works ((Bus.initial fresh).transact (writeWave 0x05 0xAA)) (readWave 0x05) (.read 0x05) := by
  have history := historyOne (v := fresh) (writeWaveEncodes 0x05 0xAA)
  exact ⟨history, by decide +kernel,
    registerTransactions freshBuilt history (by decide) (readWaveEncodes 0x05)⟩

/- After one read of the direction register, a write of 0xAA to the output state puts 5, the
address of the output state, into the direction register. -/
theorem staleLatch : History fresh [.read 0x03] ((Bus.initial fresh).transact (readWave 0x03)) ∧
    Encodes (.write 0x05 0xAA) (writeWave 0x05 0xAA) ∧
    (((Bus.initial fresh).transact (readWave 0x03)).transact (writeWave 0x05 0xAA)).regs.ioDir = 0x05 ∧
    (((Bus.initial fresh).transact (readWave 0x03)).transact (writeWave 0x05 0xAA)).regs.outputState = 0x00 ∧
    ¬Works ((Bus.initial fresh).transact (readWave 0x03)) (writeWave 0x05 0xAA) (.write 0x05 0xAA) := by
  refine ⟨historyOne (readWaveEncodes 0x03), writeWaveEncodes 0x05 0xAA, by decide +kernel,
    by decide +kernel, fun works => ?_⟩
  exact absurd (works 0x05) (by decide +kernel)

end Transactions

end Gvsoc.Fxl6408
