import Gvsoc.NinaUart
import Gvsoc.ShiftRegister

/-! The checker at the other end of a serial line, and a line on which the Nina module drives it. The checker has a clock of its own with
twice its baudrate: it samples three cycles after a start bit and then every second cycle. -/
namespace Gvsoc.UartChecker
open Bytes (Byte)
open NinaUart (Tx)
open ShiftRegister (shiftDown)

/- `logged` is what went to `stdout` or to the file. The event is there with its cycles. -/
structure Checker where
  loopback : Bool
  telnet : Bool
  stdout : Bool
  txFile : Bool
  txWaitStart : Bool
  txWaitStop : Bool
  samplingTx : Bool
  currentTx : Bool
  nbBits : Nat
  byte : Byte
  event : Option Nat
  logged : List Byte
  deriving DecidableEq, Repr

namespace Checker

variable (s : Checker)

def startTxSampling : Checker := { s with samplingTx := true, event := some 3 }

def stopTxSampling : Checker := { s with samplingTx := false, event := none }

def Starts (data : Bool) : Prop := s.txWaitStart = true ∧ data = false

instance (data : Bool) : Decidable (s.Starts data) := inferInstanceAs (Decidable (_ ∧ _))

def sync (data : Bool) : Checker :=
  let s := { s with currentTx := data }
  if s.Starts data then { s.startTxSampling with txWaitStart := false, nbBits := 0 } else s

/- Bytes for a telnet client are lost. -/
def sampledByte : Checker :=
  if s.telnet then s
  else if s.stdout then { s with logged := s.logged ++ [s.byte] }
  else if s.txFile then { s with logged := s.logged ++ [s.byte] }
  else s

def txSampling : Checker :=
  if s.txWaitStop then
    if s.currentTx then stopTxSampling { s with txWaitStart := true, txWaitStop := false } else s
  else
    let s := { s with
      byte := shiftDown s.byte s.currentTx
      nbBits := s.nbBits + 1 }
    if s.nbBits = 8 then { s.sampledByte with txWaitStop := true } else s

def eventHandler : Checker :=
  let s := txSampling { s with event := none }
  if s.samplingTx then { s with event := some 2 } else s

def Logs : Prop := s.telnet = false ∧ (s.stdout = true ∨ s.txFile = true)

end Checker

structure Cycles where
  tx : Nat
  checker : Nat
  deriving DecidableEq, Repr

structure Link where
  now : Nat
  tx : Tx
  txDue : Nat
  checker : Checker
  checkerDue : Nat
  deriving DecidableEq, Repr

namespace Link

variable (s : Link)

def Ahead (now : Nat) : Prop :=
  (s.tx.txSamplingEvent ≠ none → now ≤ s.txDue) ∧ (s.checker.event ≠ none → now ≤ s.checkerDue)

instance (now : Nat) : Decidable (s.Ahead now) := inferInstanceAs (Decidable (_ ∧ _))

/- The level arrives at the checker, which sends it back when it is to. The first sample is due after the delay. -/
def syncFull (data : Bool) (delay : Nat) : Link :=
  let s := if s.checker.loopback then { s with tx := { s.tx with txCts := 2 } } else s
  let s := if s.checker.Starts data then { s with checkerDue := s.now + delay } else s
  { s with checker := s.checker.sync data }

/- What the module sends is due two cycles later unless something was due already. -/
def sendBuffer (cycles : Cycles) (buffer : List Byte) : Link :=
  let tx := s.tx.txSendBuffer buffer
  let due := if s.tx.txSamplingEvent = none then s.now + 2 * cycles.tx else s.txDue
  { s with tx := tx, txDue := due }

def drive (cycles : Cycles) (delay : Nat) : Link :=
  let tx := Tx.txSendBit { s.tx with txSamplingEvent := none }
  syncFull { s with tx := tx, txDue := s.now + 2 * cycles.tx } tx.txBit delay

def sample (cycles : Cycles) : Link := { s with checker := s.checker.eventHandler, checkerDue := s.now + 2 * cycles.checker }

end Link

/- The time goes on, the module is given a response to send, a level comes on the pin that clears to send, the module drives its level
once more with another `rts`, or one of the two events runs. A delay is that of the first sample if the level is a start bit. -/
inductive Action where
  | wait (time : Nat)
  | buffer (buffer : List Byte)
  | cts (value : Int)
  | setRts (delay : Nat)
  | drive (delay : Nat)
  | sample
  deriving DecidableEq

def step (cycles : Cycles) (s : Link) : Action → Option Link
  | .wait time => if s.Ahead (s.now + time) then some { s with now := s.now + time } else none
  | .buffer buffer => some (s.sendBuffer cycles buffer)
  | .cts value => some { s with tx := { s.tx with txCts := value } }
  | .setRts delay => some (s.syncFull s.tx.txBit delay)
  | .drive delay => if s.tx.txSamplingEvent ≠ none ∧ s.txDue = s.now then some (s.drive cycles delay) else none
  | .sample => if s.checker.event ≠ none ∧ s.checkerDue = s.now then some (s.sample cycles) else none

/- The first sample falls into the first data bit and the ninth into the bit after the data. -/
def Tolerates (cycles : Cycles) (delay : Nat) : Prop :=
  (2 * cycles.tx < delay ∧ delay < 4 * cycles.tx) ∧
    18 * cycles.tx < delay + 16 * cycles.checker ∧ delay + 16 * cycles.checker < 20 * cycles.tx

instance (cycles : Cycles) (delay : Nat) : Decidable (Tolerates cycles delay) := inferInstanceAs (Decidable (_ ∧ _))

/- The rates of both ends differ by no more than that, wherever the clock of the checker is when a start bit comes. -/
def Timed (cycles : Cycles) (_ : Link) : Action → Prop
  | .drive delay | .setRts delay => Tolerates cycles delay
  | _ => True

instance (cycles : Cycles) (s : Link) : (a : Action) → Decidable (Timed cycles s a)
  | .drive delay | .setRts delay => inferInstanceAs (Decidable (Tolerates cycles delay))
  | .wait _ | .buffer _ | .cts _ | .sample => .isTrue trivial

structure Built (s : Link) : Prop where
  tx : NinaUart.Built s.tx
  dataBits : s.tx.uartCfg.dataBits = 8
  parity : s.tx.uartCfg.parity = .none
  high : s.tx.txBit = true
  waiting : s.checker.txWaitStart = true ∧ s.checker.txWaitStop = false ∧ s.checker.samplingTx = false ∧ s.checker.event = none
  logged : s.checker.logged = []
  logs : s.checker.Logs

end Gvsoc.UartChecker
