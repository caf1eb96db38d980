import Gvsoc.Bytes
import Gvsoc.SerialLine
import Gvsoc.Machine

/-! The transmitter of the Nina module. An event sends one bit and enqueues itself until all bytes are out. The variables that are static
in the source belong to the one module there is; what goes over the other pins is left out. -/
namespace Gvsoc.NinaUart
open Bytes (Byte)
open SerialLine (evenParity)

inductive UartParity where
  | none
  | even
  deriving DecidableEq, Repr

structure UartCfg where
  baudrate : Nat
  dataBits : Nat
  stopBits : Nat
  parity : UartParity
  flowControl : Bool
  deriving DecidableEq, Repr

inductive TxState where
  | idle
  | start
  | data
  | parity
  | stop
  deriving DecidableEq, Repr

structure Line where
  sent : List Byte
  driven : List Bool
  deriving DecidableEq, Repr

structure Tx extends Line where
  uartCfg : UartCfg
  txState : TxState
  txPendingBytes : List Byte
  txCts : Int
  txBit : Bool
  txUartCfg : UartCfg
  txParity : Bool
  txCurrentStopBits : Int
  txPendingBits : Nat
  txCurrentPendingByte : Byte
  frequency : Nat
  txSamplingEvent : Option Nat
  deriving DecidableEq, Repr

namespace Tx

variable (s : Tx)

def idleBit : Tx × Bool :=
  let s := { s with frequency := s.txUartCfg.baudrate * 2 }
  (if s.txPendingBytes ≠ [] then { s with txState := .start } else s, true)

def startBit : Tx × Bool :=
  if s.txUartCfg.flowControl = false ∨ s.txCts = 0 then
    match s.txPendingBytes with
    | byte :: rest =>
        ({ s with
          txParity := false
          txState := .data
          txCurrentStopBits := 1
          txCurrentPendingByte := byte
          txPendingBytes := rest
          txPendingBits := s.txUartCfg.dataBits }, false)
    | [] => (s, true)
  else (s, true)

def dataBit : Tx × Bool :=
  if 0 < s.txPendingBits then
    let bit := s.txCurrentPendingByte.getLsbD 0
    ({ s with
      txCurrentPendingByte := s.txCurrentPendingByte >>> 1
      txPendingBits := s.txPendingBits - 1
      txParity := s.txParity ^^ bit }, bit)
  else ({ s with txState := if s.txUartCfg.parity ≠ .none then .parity else .stop }, true)

def parityBit : Tx × Bool := ({ s with txState := .stop }, s.txParity)

def stopBit : Tx × Bool :=
  let s := { s with txCurrentStopBits := s.txCurrentStopBits - 1 }
  (if s.txCurrentStopBits = 0 then { s with txState := .idle } else s, true)

def nextBit : Tx × Bool :=
  match s.txState with
  | .idle => s.idleBit
  | .start => s.startBit
  | .data => s.dataBit
  | .parity => s.parityBit
  | .stop => s.stopBit

def Finished : Prop := s.txPendingBytes = [] ∧ s.txState = .idle

instance : Decidable s.Finished := by
  unfold Finished
  infer_instance

def txSendBit : Tx :=
  let (s, bit) := s.nextBit
  let s := { s with txBit := bit, driven := s.driven ++ [bit] }
  if ¬s.Finished then { s with txSamplingEvent := some 2 } else { s with txUartCfg := s.uartCfg }

def txCheckPendingByte : Tx :=
  if s.txPendingBytes ≠ [] ∧ s.txSamplingEvent = none then { s with txSamplingEvent := some 2 } else s

def txSendByte (byte : Byte) : Tx :=
  txCheckPendingByte { s with txPendingBytes := s.txPendingBytes ++ [byte], sent := s.sent ++ [byte] }

def txSendBuffer (buffer : List Byte) : Tx := buffer.foldl txSendByte s

end Tx

inductive Action where
  | buffer (buffer : List Byte)
  | cts (value : Int)
  | sample
  deriving DecidableEq

def step (s : Tx) : Action → Option Tx
  | .buffer buffer => some (s.txSendBuffer buffer)
  | .cts value => some { s with txCts := value }
  | .sample => match s.txSamplingEvent with
      | some _ => some (Tx.txSendBit { s with txSamplingEvent := none })
      | none => none

structure Built (s : Tx) : Prop where
  state : s.txState = .idle
  pending : s.txPendingBytes = []
  cfg : s.txUartCfg = s.uartCfg
  event : s.txSamplingEvent = none
  sent : s.sent = []
  driven : s.driven = []

def dataBits (cfg : UartCfg) (b : Byte) : List Bool := (List.range cfg.dataBits).map b.getLsbD

def parityBits (cfg : UartCfg) (b : Byte) : List Bool := if cfg.parity = .none then [] else [evenParity (dataBits cfg b)]

def frameBody (cfg : UartCfg) (b : Byte) : List Bool :=
  dataBits cfg b ++ (parityBits cfg b ++ List.replicate cfg.stopBits true)

end Gvsoc.NinaUart
