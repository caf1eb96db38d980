import Gvsoc.SpimVerif

/-! What a slave sees on the pins: in each frame, the bits at the rising edges of the clock while
the chip select is low. A transfer puts exactly its bytes in one frame, and keeps what the slave
answers. -/
namespace Gvsoc.Spim
open Bytes (Byte)
open Cells (Holds)

abbrev Edge := Nat × BitVec 32

structure Wire where
  csHigh : Bool := true
  sck : Bool := false
  bits : List Edge := []
  frames : List (List Edge) := []

def Wire.pin (miso : BitVec 32) (w : Wire) : Pin → Wire
  | .cs value =>
      if value = 1 then
        { w with csHigh := true, frames := if w.bits = [] then w.frames else w.frames ++ [w.bits], bits := [] }
      else { w with csHigh := false }
  | .sync sck mosi =>
      { w with
        sck
        bits := if w.csHigh = false ∧ w.sck = false ∧ sck = true then w.bits ++ [(mosi, miso)] else w.bits }

def topBits : Nat → BitVec 32 → List Nat
  | 0, _ => []
  | n + 1, byte => (byte >>> 7 &&& 1).toNat :: topBits n (byte <<< 1)

def byteBits (b : Byte) : List Nat := topBits 8 (b.setWidth 32)

@[simp] theorem topBitsLength (n : Nat) (byte : BitVec 32) : (topBits n byte).length = n := by
  induction n generalizing byte with
  | zero => rfl
  | succ n ih => simp [topBits, ih]

theorem bitsLength (payload : List Byte) : (payload.flatMap byteBits).length = 8 * payload.length := by
  induction payload with
  | nil => rfl
  | cons b rest ih =>
      rw [List.flatMap_cons, List.length_append, ih, byteBits, topBitsLength, List.length_cons]
      omega

def sample (byte miso : BitVec 32) : BitVec 32 := byte <<< 1 ||| miso

def answer (frame : List Edge) : Byte := ((frame.map Prod.snd).foldl sample 0).setWidth 8

structure Job where
  addr : Nat
  payload : List Byte
  duplex : Bool
  before : Nat → Byte
  frames : List (List Edge)

def Job.size (job : Job) : Int := job.payload.length

def Job.Apart (job : Job) (data : Nat → Byte) : Prop :=
  ∀ i, job.duplex = false ∨ i < job.addr ∨ job.addr + job.payload.length ≤ i → data i = job.before i

structure Directed (job : Job) (t : Transfer) : Prop where
  tx : t.slavePendingIsTx = true
  rx : t.slavePendingIsRx = job.duplex
  apart : job.Apart t.data

structure Pushing (job : Job) (t : Transfer) (todo : List Byte) (driven : List Nat) : Prop where
  stream : driven ++ topBits t.slavePendingTxBits t.slavePendingTxByte ++ todo.flatMap byteBits = job.payload.flatMap byteBits
  held : Holds t.data t.slavePendingTxAddr todo
  addr : t.slavePendingTxAddr + todo.length = job.addr + job.payload.length
  size : t.slavePendingTxSize = (todo.length : Int) + if t.slavePendingTxBits = 0 then 0 else 1
  few : t.slavePendingTxBits < 8

theorem pushingCount {job : Job} {t : Transfer} {todo : List Byte} {driven : List Nat} (pushing : Pushing job t todo driven) :
    driven.length + t.slavePendingTxBits + 8 * todo.length = 8 * job.payload.length := by
  have lengths := congrArg List.length pushing.stream
  rwa [List.length_append, List.length_append, bitsLength, bitsLength, topBitsLength] at lengths

theorem pushingOver {job : Job} {t : Transfer} {todo : List Byte} {driven : List Nat} (pushing : Pushing job t todo driven)
    (complete : driven.length = 8 * job.payload.length) : driven = job.payload.flatMap byteBits := by
  have count := pushingCount pushing
  have bits : t.slavePendingTxBits = 0 := by omega
  have bytes : todo = [] := List.eq_nil_of_length_eq_zero (by omega)
  simpa [bits, bytes, topBits] using pushing.stream

theorem holdsCons {m : Nat → Byte} {start : Nat} {b : Byte} {rest : List Byte} (held : Holds m start (b :: rest)) :
    m start = b ∧ Holds m (start + 1) rest := by
  obtain ⟨first, second⟩ := (@Cells.holdsAppend _ _ [b] _).mp held
  refine ⟨?_, second⟩
  simpa using (Cells.holdsIff.mp first) 0 (by simp)

theorem pushBitPushing {job : Job} {t : Transfer} {todo : List Byte} {driven : List Nat} (pushing : Pushing job t todo driven)
    (more : driven.length < 8 * job.payload.length) :
    let t' := shiftBit (loadByte t)
    (∃ todo', Pushing job t' todo' (driven ++ [t'.slavePendingMosi])) ∧
      (t'.slavePendingTxSize = 0 ↔ driven.length + 1 = 8 * job.payload.length) := by
  have count := pushingCount pushing
  obtain ⟨stream, held, addr, size, few⟩ := pushing
  have next : ∃ todo', Pushing job (shiftBit (loadByte t)) todo' (driven ++ [(shiftBit (loadByte t)).slavePendingMosi]) := by
    cases bits : t.slavePendingTxBits with
    | zero =>
        cases todo with
        | nil => simp [bits] at count; omega
        | cons b rest =>
            obtain ⟨here, later⟩ := holdsCons held
            simp only [bits] at stream size
            refine ⟨rest, ?_, ?_, ?_, ?_, ?_⟩
            · rw [← stream]
              simp [shiftBit, loadByte, bits, here, byteBits, topBits]
            · simpa [shiftBit, loadByte, bits] using later
            · simp [shiftBit, loadByte, bits] at addr ⊢
              omega
            · simp [shiftBit, loadByte, bits, size]
            · simp [shiftBit, loadByte, bits]
    | succ k =>
        simp only [bits] at stream size few
        refine ⟨todo, ?_, ?_, ?_, ?_, ?_⟩
        · rw [← stream]
          simp [shiftBit, loadByte, bits, topBits]
        · simpa [shiftBit, loadByte, bits] using held
        · simpa [shiftBit, loadByte, bits] using addr
        · simp [shiftBit, loadByte, bits, size]
          split <;> omega
        · simp [shiftBit, loadByte, bits]
          omega
  refine ⟨next, ?_⟩
  obtain ⟨todo', pushing'⟩ := next
  have count' := pushingCount pushing'
  have size' := pushing'.size
  simp only [List.length_append, List.length_singleton] at count'
  constructor
  · intro zero
    split at size' <;> omega
  · intro full
    have none : (shiftBit (loadByte t)).slavePendingTxBits = 0 := by omega
    rw [size', if_pos none]
    omega

structure Pulling (job : Job) (t : Transfer) (levels : List (BitVec 32)) : Prop where
  byte : ∃ first, t.slavePendingRxByte = levels.foldl sample first
  count : (levels.length : Int) = 8 * (job.size - t.slavePendingRxSize) + t.slavePendingRxBits
  few : t.slavePendingRxBits < 8
  addr : (t.slavePendingRxAddr : Int) = job.addr + (job.size - t.slavePendingRxSize)

theorem sampleFold (levels : List (BitVec 32)) (first : BitVec 32) :
    levels.foldl sample first = first <<< levels.length ||| levels.foldl sample 0 := by
  induction levels generalizing first with
  | nil => simp
  | cons level rest ih =>
      simp only [List.foldl_cons, List.length_cons]
      rw [ih (sample first level), ih (sample 0 level)]
      simp only [sample]
      rw [BitVec.shiftLeft_or_distrib, BitVec.shiftLeft_or_distrib, ← BitVec.shiftLeft_add, Nat.add_comm 1]
      simp [BitVec.or_assoc]

theorem sampleEight {levels : List (BitVec 32)} (eight : levels.length = 8) (first : BitVec 32) :
    (levels.foldl sample first).setWidth 8 = (levels.foldl sample 0).setWidth 8 := by
  rw [sampleFold, eight]
  ext k inside
  simp

structure Done (job : Job) (t : Transfer) (frame : List Edge) : Prop where
  bits : frame.map Prod.fst = job.payload.flatMap byteBits
  apart : job.Apart t.data
  answer : job.duplex = true → job.payload.length = 1 → t.data job.addr = answer frame

inductive Sending (job : Job) (t : Transfer) (w : Wire) : Prop where
  | waiting (directed : Directed job t)
      (state : t.slaveState = .startWaitCycles ∨ t.slaveState = .csStartPreStartCycles ∨ t.slaveState = .csStart)
      (pushing : Pushing job t job.payload []) (pulling : job.duplex = true → Pulling job t [])
      (wire : w.csHigh = true ∧ w.bits = [] ∧ w.frames = job.frames)
  | starting (directed : Directed job t) (state : t.slaveState = .csStartPostWaitCycles) (clock : t.slaveSck = false)
      (pushing : Pushing job t job.payload []) (pulling : job.duplex = true → Pulling job t [])
      (wire : w.csHigh = false ∧ w.bits = [] ∧ w.frames = job.frames)
  | low (directed : Directed job t) (state : t.slaveState = .transfer) (clock : t.slaveSck = false)
      (pushing : ∃ todo, Pushing job t todo (w.bits.map Prod.fst)) (more : w.bits.length < 8 * job.payload.length)
      (pulling : job.duplex = true → Pulling job t (w.bits.map Prod.snd))
      (wire : w.csHigh = false ∧ w.frames = job.frames)
  | high (directed : Directed job t) (state : t.slaveState = .transfer) (clock : t.slaveSck = true)
      (pushing : ∃ todo, Pushing job t todo (w.bits.map Prod.fst ++ [t.slavePendingMosi]))
      (more : job.duplex = false → w.bits.length + 1 < 8 * job.payload.length)
      (pulling : job.duplex = true → Pulling job t (w.bits.map Prod.snd))
      (wire : w.csHigh = false ∧ w.sck = false ∧ w.frames = job.frames)
  | last (directed : Directed job t) (state : t.slaveState = .csEndWaitCycles) (clock : t.slaveSck = true) (simplex : job.duplex = false)
      (bits : w.bits.map Prod.fst ++ [t.slavePendingMosi] = job.payload.flatMap byteBits)
      (wire : w.csHigh = false ∧ w.sck = false ∧ w.frames = job.frames)
  | ending (state : t.slaveState = .csEndWaitCycles ∨ t.slaveState = .csEnd) (clock : t.slaveSck = false)
      (done : Done job t w.bits) (wire : w.csHigh = false ∧ w.frames = job.frames)
  | leaving (state : t.slaveState = .endWaitCycles) (frame : List Edge) (done : Done job t frame)
      (wire : w.csHigh = true ∧ w.bits = [] ∧ w.frames = job.frames ++ [frame])

structure Sent (job : Job) (t : Transfer) (w : Wire) (frame : List Edge) : Prop where
  state : t.slaveState = .idle
  done : Done job t frame
  wire : w.csHigh = true ∧ w.bits = [] ∧ w.frames = job.frames ++ [frame]

def Wire.pins (miso : BitVec 32) (w : Wire) (pins : List Pin) : Wire := pins.foldl (Wire.pin miso) w

theorem pinsHidden {w : Wire} (miso : BitVec 32) (sck : Bool) (mosi : Nat) (hidden : w.csHigh = true ∨ sck = false) :
    w.pins miso [.sync sck mosi] = { w with sck } := by
  have same : ¬ (w.csHigh = false ∧ w.sck = false ∧ sck = true) := by
    rintro ⟨low, -, high⟩
    rcases hidden with h | h <;> simp_all
  simp only [Wire.pins, List.foldl_cons, List.foldl_nil, Wire.pin, if_neg same]

theorem pinsRising {w : Wire} (miso : BitVec 32) (mosi : Nat) (selected : w.csHigh = false) (low : w.sck = false) :
    w.pins miso [.sync true mosi] = { w with sck := true, bits := w.bits ++ [(mosi, miso)] } := by
  simp [Wire.pins, Wire.pin, selected, low]

theorem execHighElse {t : Transfer} (other : t.slaveState ≠ .transfer) : execHigh t = t := if_neg fun both => other both.1

section Edges

variable {job : Job} {t : Transfer} {w : Wire}

theorem edgeWaiting (directed : Directed job t)
    (state : t.slaveState = .startWaitCycles ∨ t.slaveState = .csStartPreStartCycles ∨ t.slaveState = .csStart)
    (pushing : Pushing job t job.payload []) (pulling : job.duplex = true → Pulling job t [])
    (wire : w.csHigh = true ∧ w.bits = [] ∧ w.frames = job.frames) :
    Sending job (execEdge t).1 (w.pins t.slavePendingMiso (execEdge t).2) := by
  obtain ⟨tx, rx, apart⟩ := directed
  obtain ⟨stream, held, addr, size, few⟩ := pushing
  cases clock : t.slaveSck with
  | true =>
      have other : t.slaveState ≠ .transfer := by rcases state with h | h | h <;> simp [h]
      simp only [execEdge, clock, if_true, execHighElse other]
      rw [pinsHidden _ _ _ (.inl wire.1)]
      exact .waiting ⟨tx, rx, apart⟩ state ⟨stream, held, addr, size, few⟩ (fun duplex => { pulling duplex with }) wire
  | false =>
      rcases state with state | state | state
      · simp only [execEdge, clock, Bool.false_eq_true, if_false, execLow, state, List.nil_append]
        rw [pinsHidden _ _ _ (.inl wire.1)]
        split
        · exact .waiting ⟨tx, rx, apart⟩ (.inr (.inl rfl)) ⟨stream, held, addr, size, few⟩ (fun duplex => { pulling duplex with }) wire
        · exact .waiting ⟨tx, rx, apart⟩ (.inl rfl) ⟨stream, held, addr, size, few⟩ (fun duplex => { pulling duplex with }) wire
      · simp only [execEdge, clock, Bool.false_eq_true, if_false, execLow, state, List.nil_append]
        rw [pinsHidden _ _ _ (.inl wire.1)]
        split
        · exact .waiting ⟨tx, rx, apart⟩ (.inr (.inr rfl)) ⟨stream, held, addr, size, few⟩ (fun duplex => { pulling duplex with }) wire
        · exact .waiting ⟨tx, rx, apart⟩ (.inr (.inl rfl)) ⟨stream, held, addr, size, few⟩ (fun duplex => { pulling duplex with }) wire
      · simp only [execEdge, clock, Bool.false_eq_true, if_false, execLow, state]
        exact .starting ⟨tx, rx, apart⟩ rfl rfl ⟨stream, held, addr, size, few⟩ (fun duplex => { pulling duplex with })
          ⟨rfl, by simp [Wire.pins, Wire.pin, wire.2.1], by simp [Wire.pins, Wire.pin, wire.2.2]⟩

theorem edgeStarting (some : job.payload ≠ []) (directed : Directed job t) (state : t.slaveState = .csStartPostWaitCycles)
    (clock : t.slaveSck = false) (pushing : Pushing job t job.payload []) (pulling : job.duplex = true → Pulling job t [])
    (wire : w.csHigh = false ∧ w.bits = [] ∧ w.frames = job.frames) :
    Sending job (execEdge t).1 (w.pins t.slavePendingMiso (execEdge t).2) := by
  obtain ⟨tx, rx, apart⟩ := directed
  obtain ⟨stream, held, addr, size, few⟩ := pushing
  obtain ⟨selected, empty, frames⟩ := wire
  simp only [execEdge, clock, Bool.false_eq_true, if_false, execLow, state, List.nil_append]
  rw [pinsHidden _ _ _ (.inr rfl)]
  split
  · have long : 0 < job.payload.length := List.length_pos_iff.mpr some
    refine .low ⟨tx, rx, apart⟩ rfl rfl ⟨job.payload, ?_⟩ ?_ (fun duplex => ?_) ⟨selected, frames⟩
    · simp only [empty]
      exact ⟨stream, held, addr, size, few⟩
    · simp only [empty, List.length_nil]
      omega
    · simp only [empty]
      exact { pulling duplex with }
  · exact .starting ⟨tx, rx, apart⟩ rfl rfl ⟨stream, held, addr, size, few⟩ (fun duplex => { pulling duplex with })
      ⟨selected, empty, frames⟩

theorem loadByteSame (t : Transfer) :
    (loadByte t).data = t.data ∧ (loadByte t).slavePendingIsTx = t.slavePendingIsTx ∧ (loadByte t).slavePendingIsRx = t.slavePendingIsRx ∧
      (loadByte t).slavePendingMiso = t.slavePendingMiso ∧ (loadByte t).slaveState = t.slaveState := by
  unfold loadByte
  split <;> exact ⟨rfl, rfl, rfl, rfl, rfl⟩

theorem loadBytePulling {levels : List (BitVec 32)} (pulling : Pulling job t levels) : Pulling job (loadByte t) levels := by
  obtain ⟨byte, count, few, addr⟩ := pulling
  unfold loadByte
  split <;> exact ⟨byte, count, few, addr⟩

theorem edgeLow (directed : Directed job t) (state : t.slaveState = .transfer) (clock : t.slaveSck = false)
    (pushing : ∃ todo, Pushing job t todo (w.bits.map Prod.fst)) (more : w.bits.length < 8 * job.payload.length)
    (pulling : job.duplex = true → Pulling job t (w.bits.map Prod.snd)) (wire : w.csHigh = false ∧ w.frames = job.frames) :
    Sending job (execEdge t).1 (w.pins t.slavePendingMiso (execEdge t).2) := by
  obtain ⟨tx, rx, apart⟩ := directed
  obtain ⟨todo, pushing⟩ := pushing
  obtain ⟨data, tx', rx', miso, state'⟩ := loadByteSame t
  obtain ⟨⟨todo', pushing'⟩, complete⟩ := pushBitPushing pushing (by simpa using more)
  simp only [List.length_map] at complete
  simp only [execEdge, clock, Bool.false_eq_true, if_false, execLow, state, tx, if_true, List.nil_append, pushBit]
  rw [pinsHidden _ _ _ (.inr rfl)]
  split
  · rename_i finished
    have simplex : job.duplex = false := by
      rw [← rx, ← rx']
      exact finished.2
    have full := complete.mp finished.1
    exact .last ⟨tx'.trans tx, rx'.trans rx, by simpa only [shiftBit, data] using apart⟩ rfl rfl simplex
      (pushingOver pushing' (by simpa using full)) ⟨wire.1, rfl, wire.2⟩
  · rename_i unfinished
    refine .high ⟨tx'.trans tx, rx'.trans rx, by simpa only [shiftBit, data] using apart⟩ (state'.trans state) rfl
      ⟨todo', { pushing' with }⟩ (fun simplex => ?_) (fun duplex => ?_) ⟨wire.1, rfl, wire.2⟩
    · have going : (shiftBit (loadByte t)).slavePendingTxSize ≠ 0 :=
        fun zero => unfinished ⟨zero, (rx'.trans rx).trans simplex⟩
      have := mt complete.mpr going
      simp only
      omega
    · exact { loadBytePulling (pulling duplex) with }

theorem sampleBitPulling {todo : List Byte} {driven : List Nat} {levels : List (BitVec 32)} (directed : Directed job t)
    (state : t.slaveState = .transfer) (duplex : job.duplex = true) (pushing : Pushing job t todo driven) (pulling : Pulling job t levels)
    (aligned : driven.length = levels.length + 1) :
    let t' := sampleBit t
    Directed job t' ∧ t'.slavePendingMosi = t.slavePendingMosi ∧ 
      ((t'.slaveState = .transfer ∧ Pushing job t' todo driven ∧ Pulling job t' (levels ++ [t.slavePendingMiso]) ∧
          driven.length < 8 * job.payload.length) ∨
        (t'.slaveState = .csEndWaitCycles ∧ driven.length = 8 * job.payload.length ∧
          (job.payload.length = 1 → t'.data job.addr = ((levels ++ [t.slavePendingMiso]).foldl sample 0).setWidth 8))) := by
  obtain ⟨tx, rx, apart⟩ := directed
  have total := pushingCount pushing
  obtain ⟨stream, held, addr, size, few⟩ := pushing
  obtain ⟨⟨first, byte⟩, count, fewIn, addrIn⟩ := pulling
  have next : sample t.slavePendingRxByte t.slavePendingMiso = (levels ++ [t.slavePendingMiso]).foldl sample first := by
    rw [List.foldl_append, ← byte]
    rfl
  simp only [Job.size] at count addrIn
  unfold sampleBit
  simp only []
  split
  · rename_i full
    have eight : t.slavePendingRxBits = 7 := by omega
    -- The byte that comes back is the one that was loaded last.
    have here : t.slavePendingRxAddr + 1 = t.slavePendingTxAddr := by omega
    have inside : job.addr ≤ t.slavePendingRxAddr ∧ t.slavePendingRxAddr < job.addr + job.payload.length := by omega
    have apart' : job.Apart (Function.update t.data t.slavePendingRxAddr
        ((t.slavePendingRxByte <<< 1 ||| t.slavePendingMiso).setWidth 8)) := by
      intro i outside
      have different : i ≠ t.slavePendingRxAddr := by
        rintro rfl
        rcases outside with simplex | before | after
        · rw [duplex] at simplex
          contradiction
        · omega
        · omega
      rw [Function.update_of_ne different]
      exact apart i outside
    have held' : Holds (Function.update t.data t.slavePendingRxAddr
        ((t.slavePendingRxByte <<< 1 ||| t.slavePendingMiso).setWidth 8)) t.slavePendingTxAddr todo := by
      rw [Cells.holdsIff] at held ⊢
      intro i within
      rw [Function.update_of_ne (by omega)]
      exact held i within
    split
    · rename_i finished
      refine ⟨⟨tx, rx, apart'⟩, rfl, .inr ⟨rfl, by omega, fun single => ?_⟩⟩
      have start : t.slavePendingRxAddr = job.addr := by omega
      have length : (levels ++ [t.slavePendingMiso]).length = 8 := by
        simp only [List.length_append, List.length_singleton]
        omega
      rw [← sampleEight length first, ← next, ← start]
      simp [sample]
    · rename_i unfinished
      refine ⟨⟨tx, rx, apart'⟩, rfl, .inl ⟨state, ⟨stream, held', addr, size, few⟩, ⟨⟨first, next⟩, ?_, by simp, ?_⟩, by omega⟩⟩
      · simp only [List.length_append, List.length_singleton, Job.size]
        omega
      · simp only [Job.size]
        omega
  · rename_i short
    refine ⟨⟨tx, rx, apart⟩, rfl, .inl ⟨state, ⟨stream, held, addr, size, few⟩, ⟨⟨first, next⟩, ?_, ?_, addrIn⟩, ?_⟩⟩
    · simp only [List.length_append, List.length_singleton, Job.size]
      omega
    · simp only
      omega
    · omega

theorem edgeHigh (directed : Directed job t) (state : t.slaveState = .transfer) (clock : t.slaveSck = true)
    (pushing : ∃ todo, Pushing job t todo (w.bits.map Prod.fst ++ [t.slavePendingMosi]))
    (more : job.duplex = false → w.bits.length + 1 < 8 * job.payload.length)
    (pulling : job.duplex = true → Pulling job t (w.bits.map Prod.snd))
    (wire : w.csHigh = false ∧ w.sck = false ∧ w.frames = job.frames) :
    Sending job (execEdge t).1 (w.pins t.slavePendingMiso (execEdge t).2) := by
  obtain ⟨selected, sck, frames⟩ := wire
  obtain ⟨todo, pushing⟩ := pushing
  simp only [execEdge, clock, if_true, execHigh, state, true_and, directed.rx]
  cases duplex : job.duplex with
  | false =>
      simp only [Bool.false_eq_true, if_false]
      rw [pinsRising _ _ selected sck]
      refine .low ⟨directed.tx, directed.rx, directed.apart⟩ state rfl ⟨todo, ?_⟩ ?_ (fun other => ?_) ⟨selected, frames⟩
      · simp only [List.map_append, List.map_cons, List.map_nil]
        exact { pushing with }
      · simpa using more duplex
      · rw [duplex] at other
        contradiction
  | true =>
      obtain ⟨directed', mosi, rest⟩ := sampleBitPulling directed state duplex pushing (pulling duplex) (by simp)
      simp only [if_true, mosi]
      rw [pinsRising _ _ selected sck]
      rcases rest with ⟨state', pushing', pulling', going⟩ | ⟨state', full, answered⟩
      · refine .low ⟨directed'.tx, directed'.rx, directed'.apart⟩ state' rfl ⟨todo, ?_⟩ ?_ (fun _ => ?_) ⟨selected, frames⟩
        · simp only [List.map_append, List.map_cons, List.map_nil]
          exact { pushing' with }
        · simpa using going
        · simp only [List.map_append, List.map_cons, List.map_nil]
          exact { pulling' with }
      · refine .ending (.inl state') rfl ⟨?_, directed'.apart, fun _ single => ?_⟩ ⟨selected, frames⟩
        · simp only [List.map_append, List.map_cons, List.map_nil]
          exact pushingOver pushing full
        · simp only [answer, List.map_append, List.map_cons, List.map_nil]
          exact answered single

theorem edgeLast (directed : Directed job t) (state : t.slaveState = .csEndWaitCycles) (clock : t.slaveSck = true)
    (simplex : job.duplex = false) (bits : w.bits.map Prod.fst ++ [t.slavePendingMosi] = job.payload.flatMap byteBits)
    (wire : w.csHigh = false ∧ w.sck = false ∧ w.frames = job.frames) :
    Sending job (execEdge t).1 (w.pins t.slavePendingMiso (execEdge t).2) := by
  obtain ⟨selected, sck, frames⟩ := wire
  simp only [execEdge, clock, if_true, execHighElse (t := t) (by simp [state])]
  rw [pinsRising _ _ selected sck]
  refine .ending (.inl state) rfl ⟨?_, directed.apart, fun duplex => ?_⟩ ⟨selected, frames⟩
  · simpa using bits
  · rw [simplex] at duplex
    contradiction

theorem doneBits {frame : List Edge} (some : job.payload ≠ []) (done : Done job t frame) : frame ≠ [] := by
  rintro rfl
  have lengths := congrArg List.length done.bits
  rw [bitsLength] at lengths
  have long : 0 < job.payload.length := List.length_pos_iff.mpr some
  simp only [List.map_nil, List.length_nil] at lengths
  omega

theorem edgeEnding (some : job.payload ≠ []) (state : t.slaveState = .csEndWaitCycles ∨ t.slaveState = .csEnd)
    (clock : t.slaveSck = false) (done : Done job t w.bits) (wire : w.csHigh = false ∧ w.frames = job.frames) :
    Sending job (execEdge t).1 (w.pins t.slavePendingMiso (execEdge t).2) := by
  obtain ⟨selected, frames⟩ := wire
  have filled := doneBits some done
  obtain ⟨bits, apart, answered⟩ := done
  rcases state with state | state
  · simp only [execEdge, clock, Bool.false_eq_true, if_false, execLow, state, List.nil_append]
    rw [pinsHidden _ _ _ (.inr rfl)]
    split
    · exact .ending (.inr rfl) rfl ⟨bits, apart, answered⟩ ⟨selected, frames⟩
    · exact .ending (.inl rfl) rfl ⟨bits, apart, answered⟩ ⟨selected, frames⟩
  · simp only [execEdge, clock, Bool.false_eq_true, if_false, execLow, state]
    refine .leaving rfl w.bits ⟨bits, apart, answered⟩ ?_
    simp [Wire.pins, Wire.pin, filled, frames]

theorem edgeLeaving {frame : List Edge} (state : t.slaveState = .endWaitCycles) (done : Done job t frame)
    (wire : w.csHigh = true ∧ w.bits = [] ∧ w.frames = job.frames ++ [frame]) :
    Sending job (execEdge t).1 (w.pins t.slavePendingMiso (execEdge t).2) ∨
      Sent job (execEdge t).1 (w.pins t.slavePendingMiso (execEdge t).2) frame := by
  obtain ⟨bits, apart, answered⟩ := done
  cases clock : t.slaveSck with
  | true =>
      simp only [execEdge, clock, if_true, execHighElse (t := t) (by simp [state])]
      rw [pinsHidden _ _ _ (.inl wire.1)]
      exact .inl (.leaving state frame ⟨bits, apart, answered⟩ wire)
  | false =>
      simp only [execEdge, clock, Bool.false_eq_true, if_false, execLow, state, List.nil_append]
      rw [pinsHidden _ _ _ (.inl wire.1)]
      split
      · exact .inr ⟨rfl, ⟨bits, apart, answered⟩, wire⟩
      · exact .inl (.leaving rfl frame ⟨bits, apart, answered⟩ wire)

end Edges

theorem edgeSending {job : Job} {t : Transfer} {w : Wire} (some : job.payload ≠ []) (sending : Sending job t w) :
    let next := execEdge t
    Sending job next.1 (w.pins t.slavePendingMiso next.2) ∨ ∃ frame, Sent job next.1 (w.pins t.slavePendingMiso next.2) frame := by
  cases sending with
  | waiting directed state pushing pulling wire => exact .inl (edgeWaiting directed state pushing pulling wire)
  | starting directed state clock pushing pulling wire => exact .inl (edgeStarting some directed state clock pushing pulling wire)
  | low directed state clock pushing more pulling wire => exact .inl (edgeLow directed state clock pushing more pulling wire)
  | high directed state clock pushing more pulling wire => exact .inl (edgeHigh directed state clock pushing more pulling wire)
  | last directed state clock simplex bits wire => exact .inl (edgeLast directed state clock simplex bits wire)
  | ending state clock done wire => exact .inl (edgeEnding some state clock done wire)
  | leaving state frame done wire => exact (edgeLeaving state done wire).imp_right fun sent => ⟨frame, sent⟩

structure Quiet (t : Transfer) (w : Wire) (frames : List (List Edge)) : Prop where
  state : t.slaveState = .idle
  wire : w.csHigh = true ∧ w.bits = [] ∧ w.frames = frames

theorem edgeQuiet {t : Transfer} {w : Wire} {frames : List (List Edge)} (quiet : Quiet t w frames) :
    (execEdge t).1 = { t with slaveSck := false } ∧ Quiet (execEdge t).1 (w.pins t.slavePendingMiso (execEdge t).2) frames := by
  obtain ⟨state, wire⟩ := quiet
  cases clock : t.slaveSck with
  | true =>
      simp only [execEdge, clock, if_true, execHighElse (t := t) (by simp [state])]
      rw [pinsHidden _ _ _ (.inl wire.1)]
      exact ⟨trivial, state, wire⟩
  | false =>
      simp only [execEdge, clock, Bool.false_eq_true, if_false, execLow, state, List.nil_append]
      rw [pinsHidden _ _ _ (.inl wire.1)]
      exact ⟨trivial, rfl, wire⟩

theorem sentQuiet {job : Job} {t : Transfer} {w : Wire} {frame : List Edge} (sent : Sent job t w frame) :
    Quiet t w (job.frames ++ [frame]) := ⟨sent.state, sent.wire⟩

theorem sendingLevel {job : Job} {t : Transfer} {w : Wire} (sending : Sending job t w) (level : BitVec 32) :
    Sending job { t with slavePendingMiso := level } w := by
  cases sending with
  | waiting directed state pushing pulling wire =>
      exact .waiting { directed with } state { pushing with } (fun duplex => { pulling duplex with }) wire
  | starting directed state clock pushing pulling wire =>
      exact .starting { directed with } state clock { pushing with } (fun duplex => { pulling duplex with }) wire
  | low directed state clock pushing more pulling wire =>
      obtain ⟨todo, pushing⟩ := pushing
      exact .low { directed with } state clock ⟨todo, { pushing with }⟩ more (fun duplex => { pulling duplex with }) wire
  | high directed state clock pushing more pulling wire =>
      obtain ⟨todo, pushing⟩ := pushing
      exact .high { directed with } state clock ⟨todo, { pushing with }⟩ more (fun duplex => { pulling duplex with }) wire
  | last directed state clock simplex bits wire => exact .last { directed with } state clock simplex bits wire
  | ending state clock done wire => exact .ending state clock { done with } wire
  | leaving state frame done wire => exact .leaving state frame { done with } wire

theorem sendingBusy {job : Job} {t : Transfer} {w : Wire} (sending : Sending job t w) : t.slaveState ≠ .idle := by
  intro idle
  cases sending with
  | waiting directed state pushing pulling wire => rcases state with h | h | h <;> rw [h] at idle <;> contradiction
  | ending state clock done wire => rcases state with h | h <;> rw [h] at idle <;> contradiction
  | starting directed state | low directed state | high directed state | last directed state | leaving state =>
      rw [state] at idle
      contradiction

theorem sendingFrames {job : Job} {t : Transfer} {w : Wire} (sending : Sending job t w) :
    w.frames = job.frames ∨ ∃ frame, Done job t frame ∧ w.frames = job.frames ++ [frame] := by
  cases sending with
  | waiting directed state pushing pulling wire => exact .inl wire.2.2
  | starting directed state clock pushing pulling wire => exact .inl wire.2.2
  | low directed state clock pushing more pulling wire => exact .inl wire.2
  | high directed state clock pushing more pulling wire => exact .inl wire.2.2
  | last directed state clock simplex bits wire => exact .inl wire.2.2
  | ending state clock done wire => exact .inl wire.2
  | leaving state frame done wire => exact .inr ⟨frame, done, wire.2.2⟩

theorem enqueueSending {t : Transfer} {w : Wire} {frames : List (List Edge)} {address : Nat} {payload : List Byte} (duplex : Bool)
    (wire : w.csHigh = true ∧ w.bits = [] ∧ w.frames = frames) (held : Holds t.data address payload) :
    Sending ⟨address, payload, duplex, t.data, frames⟩ (enqueueTransfer address payload.length false duplex t) w := by
  refine .waiting ⟨rfl, Bool.false_or _, fun i _ => rfl⟩ (.inl rfl) ⟨?_, held, rfl, ?_, by simp [enqueueTransfer]⟩ (fun both => ?_) wire
  · simp [enqueueTransfer, topBits]
  · simp [enqueueTransfer]
  · simp only at both
    refine ⟨⟨t.slavePendingRxByte, rfl⟩, ?_, by simp [enqueueTransfer], ?_⟩
    · simp [enqueueTransfer, Job.size, both]
    · simp [enqueueTransfer, Job.size, both]

end Gvsoc.Spim
