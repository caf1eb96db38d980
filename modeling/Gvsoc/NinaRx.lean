import Gvsoc.NinaServed
import Gvsoc.ShiftRegister

/-! The receiver of the Nina module. It samples a line in the middle of its bits, and what it hands on are the bytes of the line, also
when a command among them changes the parameters of the line. What it drives on `rts` is left out. -/
namespace Gvsoc.NinaRx
open Bytes (Byte)
open NinaSession (Nina Supported)
open NinaUart (UartCfg UartParity dataBits)
open ShiftRegister (shiftDown shiftDownNext shiftDownWhole)

inductive RxState where
  | waitStart
  | getData
  | parity
  | waitStop
  deriving DecidableEq, Repr

/- The event is there with its cycles, of a clock with the frequency. -/
structure Rx where
  nina : Nina
  txCts : Int
  rxState : RxState
  rxPrevData : Bool
  rxSampling : Bool
  rxByte : Byte
  rxNbBits : Nat
  frequency : Nat
  rxSamplingEvent : Option Nat
  deriving DecidableEq, Repr

namespace Rx

variable (s : Rx)

def rxStartSampling : Rx :=
  { s with frequency := s.nina.uartCfg.baudrate * 2, rxSampling := true, rxSamplingEvent := some 3 }

def rxStopSampling : Rx := { s with rxSampling := false, rxSamplingEvent := none }

def syncFull (data : Bool) (rts : Int) : Rx :=
  let s := { s with txCts := rts }
  let s := if s.rxState = .waitStart ∧ s.rxPrevData = true ∧ data = false then
    { s.rxStartSampling with rxState := .getData, rxNbBits := 0 } else s
  { s with rxPrevData := data }

def rxHandleByte (byte : Byte) : Rx := { s with nina := s.nina.rxHandleByte byte }

def rxHandleSampling : Rx :=
  match s.rxState with
  | .getData =>
      let s := { s with
        rxByte := shiftDown s.rxByte s.rxPrevData
        rxNbBits := s.rxNbBits + 1 }
      if s.rxNbBits = s.nina.uartCfg.dataBits then
        let s := { s with rxState := if s.nina.uartCfg.parity ≠ UartParity.none then .parity else .waitStop }
        s.rxHandleByte s.rxByte
      else s
  | .parity => { s with rxState := .waitStop }
  | .waitStop => if s.rxPrevData then rxStopSampling { s with rxState := .waitStart } else s
  | .waitStart => s

def rxSamplingHandler : Rx :=
  let s := rxHandleSampling { s with rxSamplingEvent := none }
  if s.rxSampling then { s with rxSamplingEvent := some 2 } else s

def cycle : Rx :=
  match s.rxSamplingEvent with
  | none => s
  | some 0 | some 1 => s.rxSamplingHandler
  | some (n + 2) => { s with rxSamplingEvent := some (n + 1) }

def bit (data : Bool) (rts : Int) : Rx := (s.syncFull data rts).cycle.cycle

def receiveLine (line : List (Bool × Int)) : Rx := line.foldl (fun s p => s.bit p.1 p.2) s

structure Waiting : Prop where
  state : s.rxState = .waitStart
  high : s.rxPrevData = true
  sampling : s.rxSampling = false
  event : s.rxSamplingEvent = none

end Rx

/- The line carries some bytes, each with the parameters that are in use when it begins. The parity bit may have any value. -/
def Carries : Nina → List Byte → List Bool → Prop
  | _, [], line => line = List.replicate line.length true
  | s, b :: rest, line => ∃ idle parity later,
      line = List.replicate idle true ++ false :: (dataBits s.uartCfg b ++ (parity ++ true :: later)) ∧
      parity.length = (if s.uartCfg.parity = .none then 0 else 1) ∧ Carries (s.rxHandleByte b) rest later

section Sampling

variable {s : Rx} {line : List (Bool × Int)}

/- So many data bits of a byte were sampled, and the event is due in the middle of the next bit. -/
structure Getting (s : Rx) (b : Byte) (sampled : Nat) : Prop where
  state : s.rxState = .getData
  sampling : s.rxSampling = true
  event : s.rxSamplingEvent = some 1
  count : s.rxNbBits = sampled
  bits : ∀ i < sampled, s.rxByte.getLsbD (8 - sampled + i) = b.getLsbD i

structure Ending (s : Rx) (state : RxState) : Prop where
  state : s.rxState = state
  sampling : s.rxSampling = true
  event : s.rxSamplingEvent = some 1

theorem waitingHigh (waiting : s.Waiting) (rts : Int) : s.bit true rts = { s with txCts := rts } := by
  obtain ⟨nina, cts, state, prev, sampling, byte, count, frequency, event⟩ := s
  obtain ⟨rfl, rfl, rfl, rfl⟩ := waiting
  rfl

theorem waitingStart (waiting : s.Waiting) (b : Byte) (rts : Int) :
    Getting (s.bit false rts) b 0 ∧ (s.bit false rts).nina = s.nina := by
  obtain ⟨nina, cts, state, prev, sampling, byte, count, frequency, event⟩ := s
  obtain ⟨rfl, rfl, rfl, rfl⟩ := waiting
  exact ⟨⟨rfl, rfl, rfl, rfl, fun i small => by omega⟩, rfl⟩

theorem bitDue (event : s.rxSamplingEvent = some 1) (busy : s.rxState ≠ .waitStart) (data : Bool) (rts : Int) :
    s.bit data rts = Rx.cycle (Rx.rxSamplingHandler { s with txCts := rts, rxPrevData := data }) := by
  obtain ⟨nina, cts, state, prev, sampling, byte, count, frequency, event'⟩ := s
  obtain rfl : event' = some 1 := event
  unfold Rx.bit Rx.syncFull
  dsimp only at busy ⊢
  rw [if_neg fun wait => busy wait.1]
  rfl

theorem getNext {b : Byte} {k : Nat} (getting : Getting s b k) (eight : s.nina.uartCfg.dataBits = 8) (more : k + 1 < 8) (rts : Int) :
    Getting (s.bit (b.getLsbD k) rts) b (k + 1) ∧ (s.bit (b.getLsbD k) rts).nina = s.nina := by
  rw [bitDue getting.event (by simp [getting.state])]
  obtain ⟨nina, cts, state, prev, sampling, byte, count, frequency, event⟩ := s
  obtain ⟨rfl, rfl, rfl, rfl, bits⟩ := getting
  dsimp only at eight bits more ⊢
  have unfinished : ¬count + 1 = nina.uartCfg.dataBits := by omega
  unfold Rx.rxSamplingHandler Rx.rxHandleSampling
  dsimp only
  rw [if_neg unfinished]
  exact ⟨⟨rfl, rfl, rfl, rfl, shiftDownNext (by omega) bits⟩, rfl⟩

/- With the last data bit the byte is handed on. What follows depends on the parity that was in use. -/
theorem getLast {b : Byte} (getting : Getting s b 7) (eight : s.nina.uartCfg.dataBits = 8) (rts : Int) :
    Ending (s.bit (b.getLsbD 7) rts) (if s.nina.uartCfg.parity ≠ UartParity.none then .parity else .waitStop) ∧
      (s.bit (b.getLsbD 7) rts).nina = s.nina.rxHandleByte b := by
  rw [bitDue getting.event (by simp [getting.state])]
  obtain ⟨nina, cts, state, prev, sampling, byte, count, frequency, event⟩ := s
  obtain ⟨rfl, rfl, rfl, rfl, bits⟩ := getting
  have whole : shiftDown byte (b.getLsbD 7) = b := shiftDownWhole (shiftDownNext (by omega) bits)
  have finished : 7 + 1 = nina.uartCfg.dataBits := eight.symm
  unfold Rx.rxSamplingHandler Rx.rxHandleSampling
  dsimp only
  rw [if_pos finished, whole]
  exact ⟨⟨rfl, rfl, rfl⟩, rfl⟩

theorem parityNext (ending : Ending s .parity) (data : Bool) (rts : Int) :
    Ending (s.bit data rts) .waitStop ∧ (s.bit data rts).nina = s.nina := by
  rw [bitDue ending.event (by simp [ending.state])]
  obtain ⟨nina, cts, state, prev, sampling, byte, count, frequency, event⟩ := s
  obtain ⟨rfl, rfl, rfl⟩ := ending
  exact ⟨⟨rfl, rfl, rfl⟩, rfl⟩

theorem stopNext (ending : Ending s .waitStop) (rts : Int) : (s.bit true rts).Waiting ∧ (s.bit true rts).nina = s.nina := by
  rw [bitDue ending.event (by simp [ending.state])]
  obtain ⟨nina, cts, state, prev, sampling, byte, count, frequency, event⟩ := s
  obtain ⟨rfl, rfl, rfl⟩ := ending
  exact ⟨⟨rfl, rfl, rfl, rfl⟩, rfl⟩

theorem receiveLineAppend (s : Rx) (line later : List (Bool × Int)) : s.receiveLine (line ++ later) = (s.receiveLine line).receiveLine later :=
  List.foldl_append

theorem getMost {b : Byte} (started : Getting s b 0) (eight : s.nina.uartCfg.dataBits = 8) {k : Nat} (few : k < 8)
    {line : List (Bool × Int)} (bits : line.map Prod.fst = (List.range k).map b.getLsbD) :
    Getting (s.receiveLine line) b k ∧ (s.receiveLine line).nina = s.nina := by
  induction k generalizing line with
  | zero =>
      obtain rfl : line = [] := by simpa using bits
      exact ⟨started, rfl⟩
  | succ k ih =>
      rw [List.range_succ, List.map_append] at bits
      obtain ⟨front, last, rfl, before, one⟩ := List.map_eq_append_iff.mp bits
      obtain ⟨⟨data, rts⟩, rfl, same⟩ : ∃ p, last = [p] ∧ p.1 = b.getLsbD k := by
        obtain ⟨p, rest, rfl, same, none⟩ := List.map_eq_cons_iff.mp one
        exact ⟨p, by simpa using none, same⟩
      obtain ⟨got, kept⟩ := ih (by omega) before
      rw [receiveLineAppend]
      dsimp only at same
      subst same
      obtain ⟨next, nina⟩ := getNext got (by rw [kept]; exact eight) few rts
      exact ⟨next, nina.trans kept⟩

theorem waitingIdle (waiting : s.Waiting) {line : List (Bool × Int)} (high : ∀ p ∈ line, p.1 = true) :
    (s.receiveLine line).Waiting ∧ (s.receiveLine line).nina = s.nina := by
  induction line generalizing s with
  | nil => exact ⟨waiting, rfl⟩
  | cons p rest ih =>
      obtain ⟨data, rts⟩ := p
      obtain rfl : data = true := high (data, rts) (by simp)
      have one := waitingHigh waiting rts
      have next : (s.bit true rts).Waiting := by
        rw [one]
        exact ⟨waiting.state, waiting.high, waiting.sampling, waiting.event⟩
      obtain ⟨still, nina⟩ := ih next fun p member => high p (List.mem_cons_of_mem _ member)
      exact ⟨still, nina.trans (by rw [one])⟩

theorem receiveFrame (waiting : s.Waiting) (eight : s.nina.uartCfg.dataBits = 8) (b : Byte) {parity : List Bool}
    (length : parity.length = if s.nina.uartCfg.parity = .none then 0 else 1) {line : List (Bool × Int)}
    (bits : line.map Prod.fst = false :: (dataBits s.nina.uartCfg b ++ (parity ++ [true]))) :
    (s.receiveLine line).Waiting ∧ (s.receiveLine line).nina = s.nina.rxHandleByte b := by
  obtain ⟨⟨start, rts⟩, rest, rfl, low, after⟩ := List.map_eq_cons_iff.mp bits
  dsimp only at low
  subst low
  obtain ⟨data, rest, rfl, data', ending⟩ := List.map_eq_append_iff.mp after
  obtain ⟨par, stop, rfl, par', stop'⟩ := List.map_eq_append_iff.mp ending
  obtain ⟨⟨high, rts'⟩, none, rfl, high', none'⟩ := List.map_eq_cons_iff.mp stop'
  obtain rfl : none = [] := by simpa using none'
  dsimp only at high'
  subst high'
  unfold dataBits at data'
  rw [eight, List.range_succ, List.map_append] at data'
  obtain ⟨front, last, rfl, front', last'⟩ := List.map_eq_append_iff.mp data'
  obtain ⟨⟨bit, rts''⟩, none, rfl, bit', none'⟩ := List.map_eq_cons_iff.mp last'
  obtain rfl : none = [] := by simpa using none'
  dsimp only at bit'
  subst bit'
  obtain ⟨started, nina⟩ := waitingStart waiting b rts
  obtain ⟨most, nina'⟩ := getMost (s := s.bit false rts) started (by rw [nina]; exact eight) (by omega) front'
  have before : ((s.bit false rts).receiveLine front).nina = s.nina := nina'.trans nina
  obtain ⟨got, handled⟩ := getLast most (by rw [before]; exact eight) rts''
  rw [before] at got handled
  have whole : s.receiveLine ((false, rts) :: (front ++ [(b.getLsbD 7, rts'')] ++ (par ++ [(true, rts')]))) =
      Rx.bit (Rx.receiveLine ((Rx.receiveLine (s.bit false rts) front).bit (b.getLsbD 7) rts'') par) true rts' := by
    unfold Rx.receiveLine
    simp [List.foldl_append]
  rw [whole]
  by_cases plain : s.nina.uartCfg.parity = .none
  · rw [if_pos plain] at length
    obtain rfl : par = [] := by
      rw [← List.length_eq_zero_iff, ← List.length_map Prod.fst, par', length]
    rw [if_neg (by simp [plain])] at got
    obtain ⟨done, kept⟩ := stopNext got rts'
    exact ⟨done, kept.trans handled⟩
  · rw [if_neg plain] at length
    obtain ⟨⟨value, level⟩, rfl⟩ : ∃ p, par = [p] := by
      rw [← List.length_eq_one_iff, ← List.length_map Prod.fst, par', length]
    rw [if_pos plain] at got
    obtain ⟨after, kept⟩ := parityNext got value level
    obtain ⟨done, kept'⟩ := stopNext after rts'
    exact ⟨done, kept'.trans (kept.trans handled)⟩

/- The module gets the bytes that the line carries, in their order. -/
theorem receiveCarried {s : Rx} {bytes : List Byte} {line : List (Bool × Int)} (waiting : s.Waiting) (supported : Supported s.nina.uartCfg)
    (carries : Carries s.nina bytes (line.map Prod.fst)) :
    (s.receiveLine line).Waiting ∧ (s.receiveLine line).nina = s.nina.receive bytes := by
  induction bytes generalizing s line with
  | nil =>
      refine waitingIdle waiting fun p member => ?_
      exact List.eq_of_mem_replicate (carries ▸ List.mem_map_of_mem member)
  | cons b rest ih =>
      obtain ⟨idle, parity, later, shape, length, follows⟩ := carries
      have regroup : false :: (dataBits s.nina.uartCfg b ++ (parity ++ true :: later)) =
          (false :: (dataBits s.nina.uartCfg b ++ (parity ++ [true]))) ++ later := by simp
      rw [regroup] at shape
      obtain ⟨quiet, sent, rfl, quiet', sent'⟩ := List.map_eq_append_iff.mp shape
      obtain ⟨frame, tail, rfl, frame', rfl⟩ := List.map_eq_append_iff.mp sent'
      have high : ∀ p ∈ quiet, p.1 = true := fun p member => List.eq_of_mem_replicate (quiet' ▸ List.mem_map_of_mem member)
      obtain ⟨still, nina⟩ := waitingIdle waiting high
      rw [← nina] at frame' length follows supported
      obtain ⟨done, handled⟩ := receiveFrame still supported.dataBits b length frame'
      rw [receiveLineAppend, receiveLineAppend]
      rw [← handled] at follows
      obtain ⟨waits, all⟩ := ih done (by rw [handled]; exact NinaSession.handleSupported supported b) follows
      refine ⟨waits, all.trans ?_⟩
      rw [handled, nina]
      rfl

def lineOf : Nina → List Byte → List Bool
  | _, [] => []
  | s, b :: rest =>
      false :: (dataBits s.uartCfg b ++ (NinaUart.parityBits s.uartCfg b ++ true :: lineOf (s.rxHandleByte b) rest))

theorem lineOfCarries (s : Nina) (bytes : List Byte) : Carries s bytes (lineOf s bytes) := by
  induction bytes generalizing s with
  | nil => rfl
  | cons b rest ih =>
      refine ⟨0, NinaUart.parityBits s.uartCfg b, lineOf (s.rxHandleByte b) rest, rfl, ?_, ih _⟩
      unfold NinaUart.parityBits
      split <;> rfl

def build (behavior : Option (Option Int)) : Rx where
  nina := NinaSession.build behavior
  txCts := 0
  rxState := .waitStart
  rxPrevData := true
  rxSampling := false
  rxByte := 0
  rxNbBits := 0
  frequency := 0
  rxSamplingEvent := none

def parityBytes : List Byte := CText.ascii "AT+UMRS=19200,2,8,1,3,1\rAT\r"

theorem receiveCarriedParity : ((build none).receiveLine ((lineOf (build none).nina parityBytes).map (·, 0))).nina =
    (build none).nina.receive parityBytes ∧ ((build none).nina.receive parityBytes).uartCfg = ⟨19200, 8, 1, .even, false⟩ := by
  refine ⟨(receiveCarried ⟨rfl, rfl, rfl, rfl⟩ ⟨by decide, rfl, rfl⟩ ?_).2, by decide +kernel⟩
  rw [List.map_map]
  have same : (Prod.fst ∘ fun bit : Bool => (bit, (0 : Int))) = id := rfl
  rw [same, List.map_id]
  exact lineOfCarries _ _

end Sampling

end Gvsoc.NinaRx
