import Gvsoc.Bytes

/-! `I2C_helper`: a master that sees its own lines through the bus, with an event for its clock and one for its state machine. -/
namespace Gvsoc.I2cHelper
open Bytes (Byte)

inductive Status
  | ok
  | ko
  | errorArbitration
  | errorFraming
  deriving DecidableEq, Repr

inductive Operation
  | start
  | data
  | ack
  | stop
  deriving DecidableEq, Repr

inductive InternalState
  | idle
  | waitStart
  | waitStop
  | start
  | waitData
  | data
  | dataRead
  | ack
  | stopClock
  | stopClockWait
  | restart
  | stop0
  | stop1
  deriving DecidableEq, Repr

inductive Request
  | start
  | data (byte : BitVec 32)
  | address (addr : BitVec 32) (isWrite : Bool)
  | stop
  deriving DecidableEq, Repr

/- The lines and the clock are zero or one; an event that is enqueued has the cycles that are left. -/
structure Helper where
  delayLow : Nat
  delayHigh : Nat
  internalState : InternalState
  scl : Bool
  desiredScl : Bool
  sda : Bool
  desiredSda : Bool
  isStopping : Bool
  isStarting : Bool
  isClockEnabled : Bool
  clockValue : Bool
  pendingData : Byte
  pendingDataBits : Int
  fsmWaiting : Bool
  inputScl : Bool
  inputSda : Bool
  clockEvent : Option Nat
  fsmEvent : Option Nat
  deriving DecidableEq, Repr

namespace Helper

def build (delayLow delayHigh : Nat) : Helper :=
  { delayLow
    delayHigh
    internalState := .idle
    scl := true
    desiredScl := true
    sda := true
    desiredSda := true
    isStopping := false
    isStarting := false
    isClockEnabled := false
    clockValue := true
    pendingData := 0
    pendingDataBits := 0
    fsmWaiting := false
    inputScl := true
    inputSda := true
    clockEvent := none
    fsmEvent := none }

variable (s : Helper)

/- An event that is enqueued is cancelled first. -/
def enqueueClockToggle : Helper :=
  if s.isClockEnabled = true then { s with clockEvent := some (if s.clockValue = true then s.delayLow else s.delayHigh) } else s

def clockToggle : Helper := if s.isClockEnabled = true then { s with clockValue := !s.clockValue }.enqueueClockToggle else s

def fsmEnqueueEvent (delay : Nat) : Helper := if s.fsmEvent = none then { s with fsmEvent := some delay } else s

def sendStart : Helper := { s with isStarting := true }.fsmEnqueueEvent 1

def updatePins (scl sda : Bool) : Helper := { s with inputScl := scl, inputSda := sda }.fsmEnqueueEvent 1

def sendData (byte : BitVec 32) : Helper :=
  if s.pendingDataBits ≠ 0 then s else { s with pendingData := byte.setWidth 8, pendingDataBits := 8 }.fsmEnqueueEvent 1

def sendAddress (addr : BitVec 32) (isWrite : Bool) : Helper := s.sendData (addr <<< 1 ||| if isWrite = true then 0 else 1)

def sendStop : Helper := { s with isStopping := true }

def startClock : Helper := { s with isClockEnabled := true, clockValue := !s.scl }.enqueueClockToggle

def stopClock : Helper := { s with isClockEnabled := false, clockEvent := none }

def sendDataBit : Helper :=
  { s with desiredSda := s.pendingData.getLsbD 7, pendingData := s.pendingData <<< 1, pendingDataBits := s.pendingDataBits - 1 }

def request : Request → Helper
  | .start => s.sendStart
  | .data byte => s.sendData byte
  | .address addr isWrite => s.sendAddress addr isWrite
  | .stop => s.sendStop

def observe : Helper :=
  let next := { s with scl := s.inputScl, sda := s.inputSda }
  if s.inputScl ≠ s.scl then next.clockToggle else next

def await : Helper := { s with fsmWaiting := true }.fsmEnqueueEvent s.delayHigh

def resScl : Bool := if s.internalState ≠ .idle then s.desiredScl else true
def resSda : Bool := if s.internalState ≠ .idle then s.desiredSda else true

end Helper

/- What an observer of the bus and of the callbacks writes down: a rising clock with the data line and whether the slave pulls it, a
change of the data line while the clock is high, a request, and a callback with the request it ends. -/
inductive Seen
  | rising (sda pulled : Bool)
  | sdaHigh (sda : Bool)
  | request (request : Request)
  | callback (request : Option Request) (id : Operation) (status : Status) (pulled : Bool)
  deriving DecidableEq, Repr

/- The helper, its lines and the one of the slave, the bus that they make, and the requests that are left. `count` is what the slave
counts: the rising edges since the last start or acknowledge. -/
structure World where
  helper : Helper
  masterScl : Bool
  masterSda : Bool
  pull : Bool
  count : Nat
  busScl : Bool
  busSda : Bool
  requests : List Request
  current : Option Request
  seen : List Seen
  deriving DecidableEq, Repr

namespace World

variable (w : World)

def counted (scl sda : Bool) : Nat :=
  if w.busScl = true ∧ scl = true ∧ w.busSda = true ∧ sda = false then 0 else if w.busScl = false ∧ scl = true then w.count + 1 else w.count

def edges (scl sda : Bool) : List Seen :=
  (if w.busScl = false ∧ scl = true then [.rising sda w.pull] else []) ++
    if sda ≠ w.busSda ∧ (scl = true ∨ w.busScl = true) then [.sdaHigh sda] else []

def settle : World :=
  let scl := w.masterScl
  let sda := w.masterSda && !w.pull
  if scl = w.busScl ∧ sda = w.busSda then w
  else { w with
    busScl := scl
    busSda := sda
    count := w.counted scl sda
    seen := w.seen ++ w.edges scl sda
    helper := w.helper.updatePins scl sda }

/- The slave lets the line go when its slot is over. -/
def release : World := if w.busScl = false ∧ w.count = 9 then { w with count := 0, pull := false }.settle else w

def sync (scl sda : Bool) : World := { w with masterScl := scl, masterSda := sda }.settle.release

def syncPins : World := w.sync w.helper.resScl w.helper.resSda

def ask : World :=
  match w.requests with
  | [] => { w with current := none }
  | next :: rest => { w with
      requests := rest
      current := some next
      seen := w.seen ++ [.request next]
      helper := w.helper.request next }

/- A byte that is read ends no request. -/
def callback (id : Operation) (status : Status) : World :=
  let w := { w with seen := w.seen ++ [.callback w.current id status w.pull] }
  if id = .data then w else w.ask

def clockEventHandler : World :=
  if w.helper.isClockEnabled = true then { w with helper := { w.helper with desiredScl := w.helper.clockValue } }.syncPins else w

def act (sclRising sclFalling sclSteady sdaRising sdaFalling : Bool) : World :=
  let s := w.helper
  match s.internalState with
  | .idle =>
      if s.isStarting = true then { w with helper := { s with
        internalState := .waitStart
        isStarting := false
        desiredSda := false
        desiredScl := true } }
      else w
  | .waitStart =>
      if sclSteady = true ∧ sdaFalling = true then callback { w with helper := { s with internalState := .waitData } } .start .ok else w
  | .waitStop =>
      if sclSteady = true ∧ sdaRising = true then callback { w with helper := { s with internalState := .idle } } .stop .ok else w
  | .waitData => { w with helper := (if s.pendingDataBits ≠ 0 then { s with internalState := .data } else s).startClock }
  | .data =>
      if sclFalling = true then { w with helper := s.sendDataBit }
      else if sclRising = true ∧ s.pendingDataBits = 0 then { w with helper := { s with internalState := .ack } }
      else w
  | .dataRead =>
      if sclRising = true then
        let s := { s with
          pendingData := s.pendingData <<< 1 ||| (BitVec.ofBool s.sda).setWidth 8
          pendingDataBits := s.pendingDataBits - 1 }
        let w := { w with helper := s }
        if s.pendingDataBits = 0 then
          let w := w.callback .data .ok
          { w with helper := { w.helper with internalState := .ack } }
        else w
      else w
  | .ack =>
      if sclRising = true then
        let w := w.callback .ack (if s.sda = true then .ko else .ok)
        { w with helper := { w.helper with internalState := .stopClock } }
      else w
  | .stopClock =>
      if sclFalling = true then { w with helper := Helper.await { s.stopClock with desiredSda := true, internalState := .stopClockWait } }
      else w
  | .stopClockWait =>
      if s.pendingDataBits ≠ 0 then { w with helper := { s.sendDataBit.startClock with internalState := .data } }
      else if s.isStarting = true then
        { w with helper := Helper.await { s with internalState := .restart, isStarting := false, desiredScl := true } }
      else if s.isStopping = true then
        { w with helper := Helper.await { s with internalState := .stop0, isStopping := false, desiredSda := false } }
      else { w with helper := { s.startClock with pendingDataBits := 8, internalState := .dataRead } }
  | .stop0 => { w with helper := Helper.await { s with internalState := .stop1, desiredScl := true } }
  | .stop1 => { w with helper := { s with internalState := .waitStop, desiredSda := true } }
  | .restart => { w with helper := { s with internalState := .waitStart, desiredSda := false } }
  | .start => w

def fsmStep : World :=
  if w.helper.fsmWaiting = true then w
  else
    let s := w.helper
    let w := { w with helper := s.observe }
    (w.act (s.inputScl && !s.scl) (!s.inputScl && s.scl) (s.inputScl == s.scl) (s.inputSda && !s.sda) (!s.inputSda && s.sda)).syncPins

def fsmEventHandler : World := fsmStep { w with helper := { w.helper with fsmWaiting := false } }

end World

inductive Action
  | tick
  | clock
  | fsm
  | slave (pull : Bool)
  | notify
  deriving DecidableEq, Repr

def later : Option Nat → Option Nat
  | none => none
  | some n => some (n - 1)

/- A cycle ends when no event is due any more. The slave moves its line only in its slot, while the clock is low. -/
def step (w : World) : Action → Option World
  | .tick =>
      if w.helper.clockEvent = some 0 ∨ w.helper.fsmEvent = some 0 then none
      else some { w with helper := { w.helper with clockEvent := later w.helper.clockEvent, fsmEvent := later w.helper.fsmEvent } }
  | .clock =>
      if w.helper.clockEvent = some 0 then some (World.clockEventHandler { w with helper := { w.helper with clockEvent := none } }) else none
  | .fsm =>
      if w.helper.fsmEvent = some 0 then some (World.fsmEventHandler { w with helper := { w.helper with fsmEvent := none } }) else none
  | .slave pull => if w.count = 8 ∧ w.busScl = false then some { w with pull }.settle else none
  | .notify => some { w with helper := w.helper.updatePins w.busScl w.busSda }

def run (w : World) : List Action → Option World
  | [] => some w
  | action :: rest => (step w action).bind fun next => run next rest

def World.build (delayLow delayHigh : Nat) (requests : List Request) : World :=
  World.ask ⟨Helper.build delayLow delayHigh, true, true, false, 0, true, true, requests, none, []⟩

end Gvsoc.I2cHelper
