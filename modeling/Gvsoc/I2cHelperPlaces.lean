import Gvsoc.I2cHelper
import Gvsoc.ShiftRegister

/-! The places a transfer goes through, with the log that leads to each of them, and what every action does there. -/
namespace Gvsoc.I2cHelper
open Bytes (Byte)
open ShiftRegister (msbFirst)

section Log

def Request.byte : Request → Option Byte
  | .data byte => some (byte.setWidth 8)
  | .address addr isWrite => some ((addr <<< 1 ||| if isWrite = true then 0 else 1).setWidth 8)
  | _ => none

def Clocks (log : List Seen) : Prop := ∀ seen ∈ log, ∃ sda pulled, seen = .rising sda pulled

def bits (b : Byte) : List Seen := (msbFirst b).map fun bit => .rising bit false

inductive Segment (right : Byte → Bool → Status → Prop) : Request → List Seen → Prop
  | start {edges : List Seen} {pulled : Bool} (clocks : Clocks edges) :
      Segment right .start (edges ++ [.sdaHigh false, .callback (some .start) .start .ok pulled])
  | byte {request : Request} {b : Byte} {sda pulled : Bool} {status : Status} (carries : request.byte = some b) (honest : right b pulled status) :
      Segment right request (bits b ++ [.rising sda pulled, .callback (some request) .ack status pulled])
  | stop {edges : List Seen} {pulled : Bool} (clocks : Clocks edges) :
      Segment right .stop (edges ++ [.sdaHigh true, .callback (some .stop) .stop .ok pulled])

inductive Past (right : Byte → Bool → Status → Prop) : List Seen → Prop
  | nil : Past right []
  | more {past segment : List Seen} {request : Request} (before : Past right past) (ended : Segment right request segment) :
      Past right (past ++ .request request :: segment)

inductive Part : Request → List Seen → Prop
  | waits {request : Request} {edges : List Seen} (plain : request.byte = none) (clocks : Clocks edges) : Part request edges
  | start {edges : List Seen} (clocks : Clocks edges) : Part .start (edges ++ [.sdaHigh false])
  | stop {edges : List Seen} (clocks : Clocks edges) : Part .stop (edges ++ [.sdaHigh true])
  | byte {request : Request} {b : Byte} {k : Nat} (carries : request.byte = some b) : Part request ((bits b).take k)
  | slot {request : Request} {b : Byte} {sda pulled : Bool} (carries : request.byte = some b) : Part request (bits b ++ [.rising sda pulled])

def Log (right : Byte → Bool → Status → Prop) (seen : List Seen) : Prop :=
  Past right seen ∨ ∃ past request part, seen = past ++ .request request :: part ∧ Past right past ∧ Part request part

def Measured (b : Byte) (pulled : Bool) (status : Status) : Prop := status = .ok ↔ pulled = true ∨ b.getLsbD 0 = false

end Log

structure View where
  state : InternalState
  scl : Bool
  sda : Bool
  desiredScl : Bool
  desiredSda : Bool
  isStopping : Bool
  isStarting : Bool
  enabled : Bool
  clockValue : Bool
  data : Byte
  bits : Int
  waiting : Bool
  clockEvent : Option Nat
  fsmEvent : Option Nat
  pull : Bool
  count : Nat

def View.world (low high : Nat) (v : View) (requests : List Request) (current : Option Request) (seen : List Seen) : World :=
  ⟨⟨low, high, v.state, v.scl, v.desiredScl, v.sda, v.desiredSda, v.isStopping, v.isStarting, v.enabled, v.clockValue, v.data, v.bits,
    v.waiting, v.desiredScl, v.desiredSda && !v.pull, v.clockEvent, v.fsmEvent⟩, v.desiredScl, v.desiredSda, v.pull, v.count, v.desiredScl,
    v.desiredSda && !v.pull, requests, current, seen⟩

def Rest (requests : List Request) : Prop := ∃ body, requests = body ++ [.stop] ∧ Request.stop ∉ body

def Soon (event : Option Nat) : Prop := ∀ n, event = some n → n ≤ 1

def Asks (request : Request) (data : Byte) (bits : Int) (isStarting isStopping : Bool) : Prop :=
  match request.byte with
  | some b => data = b ∧ bits = 8 ∧ isStarting = false ∧ isStopping = false
  | none => bits = 0 ∧ isStarting = (request = .start : Bool) ∧ isStopping = (request = .stop : Bool)

def After (request : Request) (requests : List Request) : Prop := if request = .stop then requests = [] else Rest requests

structure Stays (v : View) : Prop where
  state : v.state = .waitData
  desiredSda : v.desiredSda = false
  bits : v.bits = 0
  waiting : v.waiting = false
  slot : v.desiredScl = false → v.count ≠ 9

inductive Reached (low high : Nat) : World → Prop
  | starting {v : View} {f : Nat} {requests : List Request} (soon : f ≤ 1) (rest : Rest requests) :
      Reached low high (View.world low high { v with
        state := .idle, scl := true, sda := true, desiredScl := true, desiredSda := true, isStopping := false, isStarting := true
        enabled := false, bits := 0, waiting := false, clockEvent := none, fsmEvent := some f, pull := false } requests (some .start)
        ([] ++ .request .start :: []))
  | starts {v : View} {f : Nat} {requests : List Request} {past edges : List Seen} (soon : f ≤ 1) (rest : Rest requests)
      (old : Past Measured past) (clocks : Clocks edges) :
      Reached low high (View.world low high { v with
        state := .waitStart, scl := true, sda := true, desiredScl := true, desiredSda := false, isStopping := false, isStarting := false
        enabled := false, bits := 0, waiting := false, clockEvent := none, fsmEvent := some f, pull := false, count := 0 } requests (some .start)
        (past ++ .request .start :: (edges ++ [.sdaHigh false])))
  | ready {v : View} {f : Nat} {request : Request} {b : Byte} {requests : List Request} {past : List Seen} (soon : f ≤ 1)
      (after : After request requests) (old : Past Measured past) (carries : request.byte = some b) :
      Reached low high (View.world low high { v with
        state := .waitData, scl := true, desiredScl := true, desiredSda := false, isStopping := false, isStarting := false, enabled := false
        data := b, bits := 8, waiting := false, clockEvent := none, fsmEvent := some f, pull := false, count := 0 } requests (some request)
        (past ++ .request request :: []))
  | stuck {v : View} {request : Request} {requests : List Request} {past edges : List Seen}
      (stays : Stays v) (plain : request.byte = none) (old : Past Measured past)
      (clocks : Clocks edges) : Reached low high (v.world low high requests (some request) (past ++ .request request :: edges))
  | dataHigh {v : View} {k c : Nat} {event : Option Nat} {request : Request} {b : Byte} {requests : List Request} {past : List Seen}
      (few : k < 8) (near : c ≤ high) (soon : Soon event) (after : After request requests) (old : Past Measured past)
      (carries : request.byte = some b) :
      Reached low high (View.world low high { v with
        state := .data, scl := true, desiredScl := true, isStopping := false, isStarting := false, enabled := true, clockValue := false
        data := b <<< k, bits := 8 - k, waiting := false, clockEvent := some c, fsmEvent := event, pull := false, count := k } requests
        (some request) (past ++ .request request :: (bits b).take k))
  | dataFallen {v : View} {k f : Nat} {request : Request} {b : Byte} {requests : List Request} {past : List Seen}
      (few : k < 8) (soon : f ≤ 1) (after : After request requests) (old : Past Measured past) (carries : request.byte = some b) :
      Reached low high (View.world low high { v with
        state := .data, scl := true, desiredScl := false, isStopping := false, isStarting := false, enabled := true, clockValue := false
        data := b <<< k, bits := 8 - k, waiting := false, clockEvent := none, fsmEvent := some f, pull := false, count := k } requests
        (some request) (past ++ .request request :: (bits b).take k))
  | dataLow {v : View} {k c : Nat} {event : Option Nat} {request : Request} {b : Byte} {requests : List Request} {past : List Seen}
      (few : k < 8) (near : c ≤ low) (soon : Soon event) (after : After request requests) (old : Past Measured past)
      (carries : request.byte = some b) :
      Reached low high (View.world low high { v with
        state := .data, scl := false, desiredScl := false, desiredSda := b.getLsbD (7 - k), isStopping := false, isStarting := false
        enabled := true, clockValue := true, data := b <<< (k + 1), bits := 8 - k - 1, waiting := false, clockEvent := some c
        fsmEvent := event, pull := false, count := k } requests (some request) (past ++ .request request :: (bits b).take k))
  | dataRisen {v : View} {k f : Nat} {request : Request} {b : Byte} {requests : List Request} {past : List Seen}
      (few : k < 8) (soon : f ≤ 1) (after : After request requests) (old : Past Measured past) (carries : request.byte = some b) :
      Reached low high (View.world low high { v with
        state := .data, scl := false, desiredScl := true, desiredSda := b.getLsbD (7 - k), isStopping := false, isStarting := false
        enabled := true, clockValue := true, data := b <<< (k + 1), bits := 8 - k - 1, waiting := false, clockEvent := none
        fsmEvent := some f, pull := false, count := k + 1 } requests (some request) (past ++ .request request :: (bits b).take (k + 1)))
  | ackHigh {v : View} {c : Nat} {event : Option Nat} {request : Request} {b : Byte} {requests : List Request} {past : List Seen}
      (near : c ≤ high) (soon : Soon event) (after : After request requests) (old : Past Measured past) (carries : request.byte = some b) :
      Reached low high (View.world low high { v with
        state := .ack, scl := true, desiredScl := true, desiredSda := b.getLsbD 0, isStopping := false, isStarting := false, enabled := true
        clockValue := false, bits := 0, waiting := false, clockEvent := some c, fsmEvent := event, pull := false, count := 8 } requests
        (some request) (past ++ .request request :: bits b))
  | ackFallen {v : View} {f : Nat} {request : Request} {b : Byte} {requests : List Request} {past : List Seen}
      (soon : f ≤ 1) (after : After request requests) (old : Past Measured past) (carries : request.byte = some b) :
      Reached low high (View.world low high { v with
        state := .ack, scl := true, desiredScl := false, desiredSda := b.getLsbD 0, isStopping := false, isStarting := false, enabled := true
        clockValue := false, bits := 0, waiting := false, clockEvent := none, fsmEvent := some f, count := 8 } requests
        (some request) (past ++ .request request :: bits b))
  | ackLow {v : View} {c : Nat} {event : Option Nat} {request : Request} {b : Byte} {requests : List Request} {past : List Seen}
      (near : c ≤ low) (soon : Soon event) (after : After request requests) (old : Past Measured past) (carries : request.byte = some b) :
      Reached low high (View.world low high { v with
        state := .ack, scl := false, desiredScl := false, desiredSda := b.getLsbD 0, isStopping := false, isStarting := false, enabled := true
        clockValue := true, bits := 0, waiting := false, clockEvent := some c, fsmEvent := event, count := 8 } requests
        (some request) (past ++ .request request :: bits b))
  | ackRisen {v : View} {f : Nat} {request : Request} {b : Byte} {requests : List Request} {past : List Seen}
      (soon : f ≤ 1) (after : After request requests) (old : Past Measured past) (carries : request.byte = some b) :
      Reached low high (View.world low high { v with
        state := .ack, scl := false, desiredScl := true, desiredSda := b.getLsbD 0, isStopping := false, isStarting := false, enabled := true
        clockValue := true, bits := 0, waiting := false, clockEvent := none, fsmEvent := some f, count := 9 } requests
        (some request) (past ++ .request request :: (bits b ++ [.rising (b.getLsbD 0 && !v.pull) v.pull])))
  | stopHigh {v : View} {c : Nat} {event : Option Nat} {request : Request} {requests : List Request} {past : List Seen}
      (near : c ≤ high) (soon : Soon event) (after : After request requests) (old : Past Measured past)
      (asks : Asks request v.data v.bits v.isStarting v.isStopping) :
      Reached low high (View.world low high { v with
        state := .stopClock, scl := true, desiredScl := true, enabled := true, clockValue := false, waiting := false, clockEvent := some c
        fsmEvent := event, count := 9 } requests (some request) (past ++ .request request :: []))
  | stopFallen {v : View} {f : Nat} {request : Request} {requests : List Request} {past : List Seen}
      (soon : f ≤ 1) (after : After request requests) (old : Past Measured past)
      (asks : Asks request v.data v.bits v.isStarting v.isStopping) :
      Reached low high (View.world low high { v with
        state := .stopClock, scl := true, desiredScl := false, enabled := true, clockValue := false, waiting := false, clockEvent := none
        fsmEvent := some f, pull := false, count := 0 } requests (some request) (past ++ .request request :: []))
  | between {v : View} {f : Nat} {request : Request} {requests : List Request} {past : List Seen}
      (near : f ≤ high) (after : After request requests) (old : Past Measured past)
      (asks : Asks request v.data v.bits v.isStarting v.isStopping) :
      Reached low high (View.world low high { v with
        state := .stopClockWait, scl := false, desiredScl := false, desiredSda := true, enabled := false, waiting := true, clockEvent := none
        fsmEvent := some f, pull := false, count := 0 } requests (some request) (past ++ .request request :: []))
  | restart {v : View} {f : Nat} {requests : List Request} {past : List Seen} (near : f ≤ high) (rest : Rest requests)
      (old : Past Measured past) :
      Reached low high (View.world low high { v with
        state := .restart, scl := false, desiredScl := true, desiredSda := true, isStopping := false, isStarting := false, enabled := false
        bits := 0, waiting := true, clockEvent := none, fsmEvent := some f, pull := false } requests (some .start)
        (past ++ .request .start :: [.rising true false]))
  | stop0 {v : View} {f : Nat} {past : List Seen} (near : f ≤ high) (old : Past Measured past) :
      Reached low high (View.world low high { v with
        state := .stop0, scl := false, desiredScl := false, desiredSda := false, isStopping := false, isStarting := false, enabled := false
        bits := 0, waiting := true, clockEvent := none, fsmEvent := some f, pull := false, count := 0 } [] (some .stop)
        (past ++ .request .stop :: []))
  | stop1 {v : View} {f : Nat} {past : List Seen} (near : f ≤ high) (old : Past Measured past) :
      Reached low high (View.world low high { v with
        state := .stop1, scl := false, desiredScl := true, desiredSda := false, isStopping := false, isStarting := false, enabled := false
        bits := 0, waiting := true, clockEvent := none, fsmEvent := some f, pull := false } [] (some .stop)
        (past ++ .request .stop :: [.rising false false]))
  | stops {v : View} {f : Nat} {past : List Seen} (soon : f ≤ 1) (old : Past Measured past) :
      Reached low high (View.world low high { v with
        state := .waitStop, scl := true, sda := false, desiredScl := true, desiredSda := true, isStopping := false, isStarting := false
        enabled := false, bits := 0, waiting := false, clockEvent := none, fsmEvent := some f, pull := false } [] (some .stop)
        (past ++ .request .stop :: [.rising false false, .sdaHigh true]))
  | finished {v : View} {event : Option Nat} {past : List Seen} (old : Past Measured past) :
      Reached low high (View.world low high { v with
        state := .idle, scl := true, desiredScl := true, desiredSda := true, isStopping := false, isStarting := false, enabled := false
        bits := 0, waiting := false, clockEvent := none, fsmEvent := event, pull := false } [] none past)

variable {low high : Nat} {w next : World}

theorem reachedLog (reached : Reached low high w) : Log Measured w.seen := by
  have quiet : Clocks [] := fun _ member => nomatch member
  have one : ∀ sda pulled, Clocks [.rising sda pulled] := fun sda pulled _ member => ⟨sda, pulled, List.mem_singleton.mp member⟩
  have plainOrByte : ∀ request : Request, Part request [] := fun request => by
    cases carries : request.byte with
    | none => exact .waits carries quiet
    | some b => exact .byte (k := 0) carries
  have stopped : Part .stop ([.rising false false] ++ [.sdaHigh true]) := .stop (one false false)
  cases reached
  case starting soon rest => exact .inr ⟨[], .start, [], rfl, .nil, .waits rfl quiet⟩
  case starts soon rest old clocks => exact .inr ⟨_, _, _, rfl, old, .start clocks⟩
  case ready soon after old carries => exact .inr ⟨_, _, _, rfl, old, plainOrByte _⟩
  case stuck stays plain old clocks => exact .inr ⟨_, _, _, rfl, old, .waits plain clocks⟩
  case dataHigh few near soon after old carries => exact .inr ⟨_, _, _, rfl, old, .byte carries⟩
  case dataFallen few soon after old carries => exact .inr ⟨_, _, _, rfl, old, .byte carries⟩
  case dataLow few near soon after old carries => exact .inr ⟨_, _, _, rfl, old, .byte carries⟩
  case dataRisen few soon after old carries => exact .inr ⟨_, _, _, rfl, old, .byte carries⟩
  case ackHigh near soon after old carries => exact .inr ⟨_, _, _, rfl, old, .byte (k := 8) carries⟩
  case ackFallen soon after old carries => exact .inr ⟨_, _, _, rfl, old, .byte (k := 8) carries⟩
  case ackLow near soon after old carries => exact .inr ⟨_, _, _, rfl, old, .byte (k := 8) carries⟩
  case ackRisen soon after old carries => exact .inr ⟨_, _, _, rfl, old, .slot carries⟩
  case stopHigh near soon after old asks => exact .inr ⟨_, _, _, rfl, old, plainOrByte _⟩
  case stopFallen soon after old asks => exact .inr ⟨_, _, _, rfl, old, plainOrByte _⟩
  case between near after old asks => exact .inr ⟨_, _, _, rfl, old, plainOrByte _⟩
  case restart near rest old => exact .inr ⟨_, _, _, rfl, old, .waits rfl (one true false)⟩
  case stop0 near old => exact .inr ⟨_, _, _, rfl, old, .waits rfl quiet⟩
  case stop1 near old => exact .inr ⟨_, _, _, rfl, old, .waits rfl (one false false)⟩
  case stops soon old => exact .inr ⟨_, _, _, rfl, old, stopped⟩
  case finished old => exact .inl old

section Progress

def phase (scl busScl : Bool) : Nat :=
  match scl, busScl with
  | true, true => 3
  | true, false => 2
  | false, false => 1
  | false, true => 0

/- How far a byte is from its answer: four steps for each period that is left. The slave counts a rising clock at once. -/
def rank (w : World) : Nat :=
  match w.helper.internalState with
  | .waitData => 36
  | .stopClock => 33 + phase w.helper.scl w.busScl
  | .stopClockWait => 34
  | _ => if w.helper.scl = false ∧ w.busScl = true then 4 * (9 - w.count) else 4 * (8 - w.count) + phase w.helper.scl w.busScl

def timer (w : World) : Nat := (w.helper.clockEvent.or w.helper.fsmEvent).getD 0

def bound (low high : Nat) (w : World) : Nat := rank w * (low + high + 2) + timer w

def Nears (low high cycles : Nat) (w next : World) : Prop :=
  ∀ request b, w.current = some request → request.byte = some b →
    (next.current = w.current ∧ bound low high next + cycles ≤ bound low high w) ∨
      ∃ status pulled, .callback (some request) .ack status pulled ∈ next.seen.drop w.seen.length

theorem nearsPlain {cycles : Nat} (plain : ∀ request, w.current = some request → request.byte = none) : Nears low high cycles w next := by
  intro request b current carries
  rw [plain request current] at carries
  contradiction

theorem nearsOther {cycles : Nat} {v : View} {request : Request} {requests : List Request} {seen : List Seen} (plain : request.byte = none) :
    Nears low high cycles (v.world low high requests (some request) seen) next :=
  nearsPlain fun _ same => Option.some.inj same ▸ plain

theorem nearsTimer {cycles : Nat} (kept : next.current = w.current) (same : rank next = rank w) (sooner : timer next + cycles ≤ timer w) :
    Nears low high cycles w next := by
  intro request b current carries
  refine .inl ⟨kept, ?_⟩
  rw [bound, bound, same]
  omega

theorem nearsRank (kept : next.current = w.current) (lower : rank next < rank w) (bounded : timer next ≤ low + high + 2) :
    Nears low high 0 w next := by
  intro request b current carries
  refine .inl ⟨kept, ?_⟩
  have product := Nat.mul_le_mul_right (low + high + 2) (Nat.succ_le_of_lt lower)
  rw [Nat.succ_mul] at product
  rw [bound, bound]
  omega

theorem soonBound {f : Nat} (soon : f ≤ 1) : f ≤ low + high + 2 := by omega

theorem nearsAnswer {request asked : Request} {status : Status} {pulled : Bool} (current : w.current = some request)
    (log : next.seen = w.seen ++ [.callback (some request) .ack status pulled, .request asked]) : Nears low high 0 w next := by
  intro other b same carries
  obtain rfl := Option.some.inj (current.symm.trans same)
  exact .inr ⟨status, pulled, by simp [log]⟩

theorem reachedTimer {request : Request} {b : Byte} (reached : Reached low high w) (current : w.current = some request)
    (carries : request.byte = some b) :
    (∃ c, (w.helper.clockEvent.or w.helper.fsmEvent) = some c) ∧ timer w < low + high + 2 := by
  cases reached
  case starting | starts | restart | stop0 | stop1 | stops | finished =>
      cases current
      all_goals contradiction
  case stuck stays plain old clocks =>
      cases current
      rw [plain] at carries
      contradiction
  all_goals exact ⟨⟨_, rfl⟩, by simp only [timer, View.world, Option.none_or, Option.some_or, Option.getD_some]; omega⟩

theorem rankBound (w : World) : rank w ≤ 36 := by
  have small : phase w.helper.scl w.busScl ≤ 3 := by
    cases w.helper.scl <;> cases w.busScl <;> decide
  unfold rank
  split
  all_goals try omega
  split <;> omega

end Progress

theorem laterSoon {event : Option Nat} (soon : Soon event) : Soon (later event) := by
  intro n left
  cases event with
  | none => contradiction
  | some m =>
      have bound := soon m rfl
      cases left
      omega

theorem tickView {v : View} {requests : List Request} {current : Option Request} {seen : List Seen}
    (ticked : step (v.world low high requests current seen) .tick = some next) :
    next = View.world low high { v with clockEvent := later v.clockEvent, fsmEvent := later v.fsmEvent } requests current seen := by
  simp only [step] at ticked
  split at ticked
  · contradiction
  · exact (Option.some.inj ticked).symm

theorem tickReached (reached : Reached low high w) (ticked : step w .tick = some next) : Reached low high next := by
  cases reached
  all_goals rw [tickView ticked]
  case starting soon rest => exact .starting (by omega) rest
  case starts soon rest old clocks => exact .starts (by omega) rest old clocks
  case ready soon after old carries => exact .ready (by omega) after old carries
  case stuck stays plain old clocks => exact .stuck ⟨stays.state, stays.desiredSda, stays.bits, stays.waiting, stays.slot⟩ plain old clocks
  case dataHigh few near soon after old carries => exact .dataHigh few (by omega) (laterSoon soon) after old carries
  case dataFallen few soon after old carries => exact .dataFallen few (by omega) after old carries
  case dataLow few near soon after old carries => exact .dataLow few (by omega) (laterSoon soon) after old carries
  case dataRisen few soon after old carries => exact .dataRisen few (by omega) after old carries
  case ackHigh near soon after old carries => exact .ackHigh (by omega) (laterSoon soon) after old carries
  case ackFallen soon after old carries => exact .ackFallen (by omega) after old carries
  case ackLow near soon after old carries => exact .ackLow (by omega) (laterSoon soon) after old carries
  case ackRisen soon after old carries => exact .ackRisen (by omega) after old carries
  case stopHigh near soon after old asks => exact .stopHigh (by omega) (laterSoon soon) after old asks
  case stopFallen soon after old asks => exact .stopFallen (by omega) after old asks
  case between near after old asks => exact .between (by omega) after old asks
  case restart near rest old => exact .restart (by omega) rest old
  case stop0 near old => exact .stop0 (by omega) old
  case stop1 near old => exact .stop1 (by omega) old
  case stops soon old => exact .stops (by omega) old
  case finished old => exact .finished old

theorem tickNears (reached : Reached low high w) (ticked : step w .tick = some next) : Nears low high 1 w next := by
  intro request b current carries
  obtain ⟨⟨c, event⟩, -⟩ := reachedTimer reached current carries
  suffices nears : Nears low high 1 w next from nears request b current carries
  simp only [step] at ticked
  split at ticked
  · contradiction
  case isFalse open' =>
      obtain rfl := Option.some.inj ticked
      refine nearsTimer rfl rfl ?_
      simp only [timer]
      cases clock : w.helper.clockEvent with
      | some n =>
          have later : n ≠ 0 := fun zero => open' (.inl (by rw [clock, zero]))
          simp only [I2cHelper.later, Option.some_or, Option.getD_some]
          omega
      | none =>
          rw [clock, Option.none_or] at event
          have later : c ≠ 0 := fun zero => open' (.inr (by rw [event, zero]))
          simp only [event, I2cHelper.later, Option.none_or, Option.getD_some]
          omega

def wanted (event : Option Nat) : Option Nat := if event = none then some 1 else event

theorem wantedSoon {event : Option Nat} (soon : Soon event) : Soon (wanted event) := by
  unfold wanted
  split
  · intro n same
    cases same
    exact Nat.le_refl 1
  · exact soon

theorem wantedSome {event : Option Nat} (soon : Soon event) : ∃ f, wanted event = some f ∧ f ≤ 1 := by
  cases event with
  | none => exact ⟨1, rfl, Nat.le_refl 1⟩
  | some f => exact ⟨f, rfl, soon f rfl⟩

theorem notifyView (v : View) (requests : List Request) (current : Option Request) (seen : List Seen) :
    step (v.world low high requests current seen) .notify =
      some (View.world low high { v with fsmEvent := wanted v.fsmEvent } requests current seen) := by
  cases event : v.fsmEvent <;> simp [step, View.world, Helper.updatePins, Helper.fsmEnqueueEvent, wanted, event]

theorem notifyReached (reached : Reached low high w) (notified : step w .notify = some next) : Reached low high next := by
  cases reached
  all_goals
    rw [notifyView] at notified
    rw [← Option.some.inj notified]
  case starting soon rest => exact .starting soon rest
  case starts soon rest old clocks => exact .starts soon rest old clocks
  case ready soon after old carries => exact .ready soon after old carries
  case stuck stays plain old clocks => exact .stuck ⟨stays.state, stays.desiredSda, stays.bits, stays.waiting, stays.slot⟩ plain old clocks
  case dataHigh few near soon after old carries => exact .dataHigh few near (wantedSoon soon) after old carries
  case dataFallen few soon after old carries => exact .dataFallen few soon after old carries
  case dataLow few near soon after old carries => exact .dataLow few near (wantedSoon soon) after old carries
  case dataRisen few soon after old carries => exact .dataRisen few soon after old carries
  case ackHigh near soon after old carries => exact .ackHigh near (wantedSoon soon) after old carries
  case ackFallen soon after old carries => exact .ackFallen soon after old carries
  case ackLow near soon after old carries => exact .ackLow near (wantedSoon soon) after old carries
  case ackRisen soon after old carries => exact .ackRisen soon after old carries
  case stopHigh near soon after old asks => exact .stopHigh near (wantedSoon soon) after old asks
  case stopFallen soon after old asks => exact .stopFallen soon after old asks
  case between near after old asks => exact .between near after old asks
  case restart near rest old => exact .restart near rest old
  case stop0 near old => exact .stop0 near old
  case stop1 near old => exact .stop1 near old
  case stops soon old => exact .stops soon old
  case finished old => exact .finished old

theorem notifyNears (reached : Reached low high w) (notified : step w .notify = some next) : Nears low high 0 w next := by
  intro request b current carries
  obtain ⟨⟨c, event⟩, -⟩ := reachedTimer reached current carries
  suffices nears : Nears low high 0 w next from nears request b current carries
  obtain rfl := Option.some.inj notified
  have same : (w.helper.updatePins w.busScl w.busSda).clockEvent.or (w.helper.updatePins w.busScl w.busSda).fsmEvent = some c := by
    cases clock : w.helper.clockEvent <;> cases fsm : w.helper.fsmEvent <;>
      simp_all [Helper.updatePins, Helper.fsmEnqueueEvent]
  refine nearsTimer rfl ?_ ?_
  · cases fsm : w.helper.fsmEvent <;> simp [rank, Helper.updatePins, Helper.fsmEnqueueEvent, fsm]
  · simp [timer, same, event]

theorem slaveView {v : View} {pull : Bool} (slot : v.count = 8) (lowClock : v.desiredScl = false) (requests : List Request)
    (current : Option Request) (seen : List Seen) :
    step (v.world low high requests current seen) (.slave pull) =
      some (View.world low high { v with
        pull
        fsmEvent := if (v.desiredSda && !pull) = (v.desiredSda && !v.pull) then v.fsmEvent else wanted v.fsmEvent } requests current seen) := by
  obtain ⟨state, scl, sda, desiredScl, desiredSda, isStopping, isStarting, enabled, clockValue, data, bits, waiting, clockEvent, fsmEvent,
    pulled, count⟩ := v
  dsimp only at slot lowClock
  subst slot lowClock
  cases desiredSda <;> cases pull <;> cases pulled <;> cases fsmEvent <;>
    simp [step, View.world, World.settle, World.counted, World.edges, Helper.updatePins, Helper.fsmEnqueueEvent, wanted]

theorem slaveReached {pull : Bool} (reached : Reached low high w) (moved : step w (.slave pull) = some next) :
    Reached low high next ∧ Nears low high 0 w next := by
  have slot : w.count = 8 ∧ w.busScl = false := by
    simp only [step] at moved
    split at moved
    · assumption
    · contradiction
  cases reached
  case stuck stays plain old clocks =>
      rw [slaveView slot.1 slot.2] at moved
      rw [← Option.some.inj moved]
      exact ⟨.stuck ⟨stays.state, stays.desiredSda, stays.bits, stays.waiting, stays.slot⟩ plain old clocks, nearsOther plain⟩
  case ackFallen v f _ b _ _ soon after old carries =>
      rw [slaveView slot.1 slot.2] at moved
      rw [← Option.some.inj moved]
      have same : ∀ f : Nat, wanted (some f) = some f := fun _ => rfl
      simp only [same, ite_self]
      exact ⟨.ackFallen (v := { v with pull }) soon after old carries, nearsTimer rfl rfl (Nat.le_refl f)⟩
  case ackLow v c _ _ b _ _ near soon after old carries =>
      rw [slaveView slot.1 slot.2] at moved
      rw [← Option.some.inj moved]
      refine ⟨.ackLow (v := { v with pull }) near ?_ after old carries, nearsTimer rfl rfl (Nat.le_refl c)⟩
      dsimp only
      split
      · exact soon
      · exact wantedSoon soon
  case dataFallen few _ _ _ _ => exact absurd slot.1 (Nat.ne_of_lt few)
  case dataLow few _ _ _ _ _ => exact absurd slot.1 (Nat.ne_of_lt few)
  all_goals simp [View.world] at slot

section Clock

variable {v : View} {requests : List Request} {current : Option Request} {seen : List Seen}

theorem clockFalls (state : v.state ≠ .idle) (enabled : v.enabled = true) (value : v.clockValue = false) (was : v.desiredScl = true)
    (due : v.clockEvent = some 0) :
    step (v.world low high requests current seen) .clock = some (View.world low high { v with
      desiredScl := false
      clockEvent := none
      fsmEvent := wanted v.fsmEvent
      pull := if v.count = 9 then false else v.pull
      count := if v.count = 9 then 0 else v.count } requests current seen) := by
  obtain ⟨st, scl, sda, desiredScl, desiredSda, isStopping, isStarting, en, clockValue, data, bits, waiting, clockEvent, fsmEvent,
    pulled, count⟩ := v
  dsimp only at state enabled value was due
  subst enabled value was due
  by_cases nine : count = 9 <;> cases desiredSda <;> cases pulled <;> cases fsmEvent <;>
    simp [step, View.world, World.clockEventHandler, World.syncPins, World.sync, Helper.resScl, Helper.resSda, state, World.settle,
      World.release, World.counted, World.edges, Helper.updatePins, Helper.fsmEnqueueEvent, wanted, nine]

theorem clockRises (state : v.state ≠ .idle) (enabled : v.enabled = true) (value : v.clockValue = true) (was : v.desiredScl = false)
    (due : v.clockEvent = some 0) :
    step (v.world low high requests current seen) .clock = some (View.world low high { v with
      desiredScl := true
      clockEvent := none
      fsmEvent := wanted v.fsmEvent
      count := v.count + 1 } requests current (seen ++ [.rising (v.desiredSda && !v.pull) v.pull])) := by
  obtain ⟨st, scl, sda, desiredScl, desiredSda, isStopping, isStarting, en, clockValue, data, bits, waiting, clockEvent, fsmEvent,
    pulled, count⟩ := v
  dsimp only at state enabled value was due
  subst enabled value was due
  cases desiredSda <;> cases pulled <;> cases fsmEvent <;>
    simp [step, View.world, World.clockEventHandler, World.syncPins, World.sync, Helper.resScl, Helper.resSda, state, World.settle,
      World.release, World.counted, World.edges, Helper.updatePins, Helper.fsmEnqueueEvent, wanted]

theorem clockStays (state : v.state ≠ .idle) (same : v.enabled = true → v.clockValue = v.desiredScl)
    (slot : v.desiredScl = false → v.count ≠ 9) (due : v.clockEvent = some 0) :
    step (v.world low high requests current seen) .clock = some (View.world low high { v with clockEvent := none } requests current seen) := by
  obtain ⟨st, scl, sda, desiredScl, desiredSda, isStopping, isStarting, en, clockValue, data, bits, waiting, clockEvent, fsmEvent,
    pulled, count⟩ := v
  dsimp only at state same slot due
  subst due
  cases en with
  | false => simp [step, View.world, World.clockEventHandler]
  | true =>
      have equal := same rfl
      subst equal
      cases clockValue with
      | false =>
          have open' := slot rfl
          simp [step, View.world, World.clockEventHandler, World.syncPins, World.sync, Helper.resScl, Helper.resSda, state, World.settle,
            World.release, open']
      | true =>
          simp [step, View.world, World.clockEventHandler, World.syncPins, World.sync, Helper.resScl, Helper.resSda, state, World.settle,
            World.release]

end Clock

theorem bitsTake {b : Byte} {k : Nat} (few : k < 8) : (bits b).take (k + 1) = (bits b).take k ++ [.rising (b.getLsbD (7 - k)) false] := by
  have inside : k < (bits b).length := by simp [bits, few]
  have bit : (bits b)[k] = .rising (b.getLsbD (7 - k)) false := by simp [bits, msbFirst, BitVec.getMsbD, few]
  rw [List.take_succ_eq_append_getElem inside, bit]

theorem clockReached (reached : Reached low high w) (clocked : step w .clock = some next) :
    Reached low high next ∧ Nears low high 0 w next := by
  have due : w.helper.clockEvent = some 0 := by
    simp only [step] at clocked
    split at clocked
    · assumption
    · contradiction
  cases reached
  case stuck v request _ past edges stays plain old clocks =>
      obtain ⟨state, sda, bits, waiting, slot⟩ := stays
      have busy : v.state ≠ .idle := by simp [state]
      by_cases still : v.enabled = true → v.clockValue = v.desiredScl
      · rw [clockStays busy still slot due] at clocked
        rw [← Option.some.inj clocked]
        exact ⟨.stuck ⟨state, sda, bits, waiting, slot⟩ plain old clocks, nearsOther plain⟩
      · obtain ⟨enabled, moves⟩ := Classical.not_imp.mp still
        cases value : v.clockValue with
        | false =>
            have up : v.desiredScl = true := by simpa [value] using moves
            rw [clockFalls busy enabled value up due] at clocked
            rw [← Option.some.inj clocked]
            exact ⟨.stuck ⟨state, sda, bits, waiting, fun _ => by dsimp only; split <;> omega⟩ plain old clocks, nearsOther plain⟩
        | true =>
            have down : v.desiredScl = false := by simpa [value] using moves
            rw [clockRises busy enabled value down due] at clocked
            rw [← Option.some.inj clocked, List.append_assoc, List.cons_append]
            refine ⟨.stuck ⟨state, sda, bits, waiting, fun low => Bool.noConfusion low⟩ plain old fun seen member => ?_, nearsOther plain⟩
            rcases List.mem_append.mp member with before | last
            · exact clocks seen before
            · exact ⟨_, _, List.mem_singleton.mp last⟩
  case dataHigh v k c event _ b _ _ few near soon after old carries =>
      obtain ⟨f, asked, next⟩ := wantedSome soon
      have other : k ≠ 9 := by omega
      rw [clockFalls (by simp) rfl rfl rfl due] at clocked
      rw [← Option.some.inj clocked]
      simp only [asked, other, if_false]
      exact ⟨.dataFallen few next after old carries, nearsRank rfl (Nat.lt_succ_self (4 * (8 - k) + 2)) (soonBound next)⟩
  case dataLow v k c event _ b _ _ few near soon after old carries =>
      obtain ⟨f, asked, next⟩ := wantedSome soon
      rw [clockRises (by simp) rfl rfl rfl due] at clocked
      rw [← Option.some.inj clocked]
      simp only [asked, Bool.not_false, Bool.and_true, List.append_assoc, List.cons_append, ← bitsTake few]
      refine ⟨.dataRisen few next after old carries, nearsRank rfl ?_ (soonBound next)⟩
      show 4 * (9 - (k + 1)) < 4 * (8 - k) + 1
      omega
  case ackHigh v c event _ b _ _ near soon after old carries =>
      obtain ⟨f, asked, next⟩ := wantedSome soon
      rw [clockFalls (by simp) rfl rfl rfl due] at clocked
      rw [← Option.some.inj clocked]
      simp only [asked]
      exact ⟨.ackFallen (v := { v with pull := false }) next after old carries, nearsRank rfl (Nat.lt_succ_self 2) (soonBound next)⟩
  case ackLow v c event _ b _ _ near soon after old carries =>
      obtain ⟨f, asked, next⟩ := wantedSome soon
      rw [clockRises (by simp) rfl rfl rfl due] at clocked
      rw [← Option.some.inj clocked]
      simp only [asked, List.append_assoc, List.cons_append]
      exact ⟨.ackRisen next after old carries, nearsRank rfl (Nat.lt_succ_self 0) (soonBound next)⟩
  case stopHigh v c event _ _ _ near soon after old asks =>
      obtain ⟨f, asked, next⟩ := wantedSome soon
      rw [clockFalls (by simp) rfl rfl rfl due] at clocked
      rw [← Option.some.inj clocked]
      simp only [asked, if_true]
      exact ⟨.stopFallen next after old asks, nearsRank rfl (Nat.lt_succ_self 35) (soonBound next)⟩
  all_goals exact absurd due (by simp [View.world])

end Gvsoc.I2cHelper
