import Gvsoc.CText
import Gvsoc.NinaUart

/-! What the Nina module does with the bytes it receives: the commands of the command mode, and the data mode, which sends back what comes in.
The bytes that are handed to the transmitter are collected. -/
namespace Gvsoc.NinaSession
open Bytes (Byte)
open CText (ch ascii)
open NinaUart (UartCfg UartParity)

inductive OperatingMode where
  | command
  | data
  deriving DecidableEq, Repr

/- The input buffer is static in the source and belongs to the one module there is. -/
structure Nina where
  operatingMode : OperatingMode
  localName : List Byte
  loopbackSize : Nat
  uartCfg : UartCfg
  inputBuffer : List Byte
  sent : List Byte
  deriving DecidableEq, Repr

section Text

def cr : Byte := 0x0d

def lf : Byte := 0x0a

def crlf : List Byte := [cr, lf]

/- What `.` of a regular expression stands for. -/
def dot (c : Byte) : Bool := c ≠ cr && c ≠ lf

def matchesAll (start : String) (text : List Byte) : Bool :=
  (ascii start).isPrefixOf text && (text.drop (ascii start).length).all dot

def matchesOne (start : String) (last : List Char) (text : List Byte) : Bool :=
  last.any fun c => text == ascii start ++ [ch c]

def wrapResponse (response code : List Byte) : List Byte :=
  if response ≠ [] then crlf ++ response ++ crlf ++ code ++ crlf else crlf ++ code ++ crlf

def okResponse (response : List Byte) : List Byte := wrapResponse response (ascii "OK")

def errorResponse (response : List Byte) : List Byte := wrapResponse response (ascii "ERROR")

/- The pieces between the delimiters; one that is empty at the end is none. -/
def split (delimiter : Byte) (text : List Byte) : List (List Byte) :=
  let pieces := text.splitOn delimiter
  if 1 < pieces.length ∧ pieces.getLast? = some [] then pieces.dropLast else pieces

def decimal (n : Nat) : List Byte := if n = 0 then [ch '0'] else (Nat.digits 10 n).reverse.map (CText.hexDigit false)

end Text

section Parameters

def supportedBaudrates : List (List Byte) :=
  [ascii "19200", ascii "38400", ascii "57600", ascii "115200", ascii "230400", ascii "460800", ascii "1000000"]

def baudrateArg (cfg : UartCfg) (arg : List Byte) : Option UartCfg :=
  if arg ∈ supportedBaudrates then some { cfg with baudrate := (CText.atoi arg).toNat } else none

def flowControlArg (cfg : UartCfg) (arg : List Byte) : Option UartCfg :=
  if arg = ascii "1" then some { cfg with flowControl := true }
  else if arg = ascii "2" then some { cfg with flowControl := false }
  else none

def dataBitsArg (cfg : UartCfg) (arg : List Byte) : Option UartCfg :=
  if arg = ascii "8" then some { cfg with dataBits := 8 } else none

def stopBitsArg (cfg : UartCfg) (arg : List Byte) : Option UartCfg :=
  if arg = ascii "1" then some { cfg with stopBits := 1 } else none

def parityArg (cfg : UartCfg) (arg : List Byte) : Option UartCfg :=
  if arg = ascii "1" then some { cfg with parity := .none }
  else if arg = ascii "3" then some { cfg with parity := .even }
  else none

def changeArg (arg : List Byte) : Option Bool :=
  if arg = ascii "0" then some false else if arg = ascii "1" then some true else none

/- An argument that is missing leaves its parameter as it was. -/
def argument (read : UartCfg → List Byte → Option UartCfg) (args : List (List Byte)) (i : Nat) (cfg : UartCfg) : Option UartCfg :=
  (args[i]?).elim (some cfg) (read cfg)

/- The new parameters, and whether they are to be applied, or nothing if an argument is not supported. -/
def rs232Params (cfg : UartCfg) (args : List (List Byte)) : Option (UartCfg × Bool) := do
  let cfg ← argument baudrateArg args 0 cfg
  let cfg ← argument flowControlArg args 1 cfg
  let cfg ← argument dataBitsArg args 2 cfg
  let cfg ← argument stopBitsArg args 3 cfg
  let cfg ← argument parityArg args 4 cfg
  let changeNow ← (args[5]?).elim (some false) changeArg
  some (cfg, changeNow)

def printedParams (cfg : UartCfg) : List Byte :=
  decimal cfg.baudrate ++ ascii "," ++ (if cfg.flowControl then ascii "1" else ascii "2") ++ ascii "," ++
    decimal cfg.dataBits ++ ascii "," ++ decimal cfg.stopBits ++ ascii "," ++
    (if cfg.parity = .even then ascii "3" else ascii "1")

end Parameters

namespace Nina

variable (s : Nina)

/- The characters `0` and `2` are compared with the numbers. -/
def operatingModeCmd (inputCmd : List Byte) : Nina :=
  if inputCmd.getLast? = some 2 then s
  else if inputCmd.getLast? = some 0 then { s with operatingMode := .command }
  else { s with operatingMode := .data }

def rs232Cmd (inputCmd : List Byte) : Nina × List Byte :=
  match rs232Params s.uartCfg (split (ch ',') (inputCmd.drop 6)) with
  | none => (s, errorResponse [])
  | some (cfg, changeNow) => (if changeNow then { s with uartCfg := cfg } else s, okResponse [])

def parseCmd (inputCmd : List Byte) : Nina × List Byte :=
  if inputCmd = [] then (s, okResponse [])
  else if matchesOne "E" ['0', '1'] inputCmd then (s, okResponse [])
  else if inputCmd = ascii "+UFACTORY" then (s, okResponse [])
  else if inputCmd = ascii "O" || matchesOne "O" ['0', '1', '2'] inputCmd then (s.operatingModeCmd inputCmd, okResponse [])
  else if matchesAll "+UBTUB=" inputCmd then (s, okResponse [])
  else if matchesOne "+UBTLE=" ['0', '1', '2', '3'] inputCmd then (s, okResponse [])
  else if matchesAll "+UBTLN=" inputCmd then (s, okResponse [])
  else if inputCmd = ascii "+UBTLN?" then (s, okResponse (ascii "+UBTLN:\"" ++ s.localName ++ ascii "\""))
  else if matchesAll "+UMRS=" inputCmd then s.rs232Cmd inputCmd
  else if inputCmd = ascii "+UMRS?" then (s, okResponse (ascii "+URMS:" ++ printedParams s.uartCfg))
  else (s, errorResponse [])

def txSendBuffer (buffer : List Byte) : Nina := { s with sent := s.sent ++ buffer }

def holdsCommand (buffer : List Byte) : Bool :=
  (ascii "AT").isPrefixOf buffer && buffer.getLast? = some cr && 3 ≤ buffer.length && ((buffer.drop 2).dropLast).all dot

def answer (inputCmd : List Byte) : Nina :=
  let (s, response) := s.parseCmd inputCmd
  { s.txSendBuffer response with inputBuffer := [] }

def rxHandleByte (byte : Byte) : Nina :=
  let s := { s with inputBuffer := s.inputBuffer ++ [byte] }
  match s.operatingMode with
  | .command =>
      if byte = cr then
        if holdsCommand s.inputBuffer then s.answer (s.inputBuffer.drop 2).dropLast else s
      else s
  | .data =>
      if s.loopbackSize ≤ s.inputBuffer.length then { s.txSendBuffer s.inputBuffer with inputBuffer := [] } else s

def receive (bytes : List Byte) : Nina := bytes.foldl rxHandleByte s

end Nina

/- The size of the loopback buffer that the constructor takes from the configuration. -/
def loopbackSize (behavior : Option (Option Int)) : Nat :=
  match behavior with
  | some (some size) => if size ≤ 0 then 200 else size.toNat
  | _ => 200

def build (behavior : Option (Option Int)) : Nina where
  operatingMode := .command
  localName := ascii "Bluetooth Device"
  loopbackSize := loopbackSize behavior
  uartCfg := ⟨115200, 8, 1, .none, true⟩
  inputBuffer := []
  sent := []

/- What the module does with all bytes it gets after its buffer was emptied. Lines that are commands are answered one after another. A
line that is none stays in the buffer, and with it all that follows. In the data mode the bytes come back in blocks. -/
inductive Served : Nina → List Byte → Nina → Prop where
  | part {s : Nina} {bytes : List Byte} (mode : s.operatingMode = .command) (unended : cr ∉ bytes) :
      Served s bytes { s with inputBuffer := bytes }
  | command {s t : Nina} {inputCmd rest : List Byte} (mode : s.operatingMode = .command) (dots : inputCmd.all dot = true)
      (later : Served (s.answer inputCmd) rest t) : Served s (ascii "AT" ++ inputCmd ++ cr :: rest) t
  | other {s : Nina} {line rest : List Byte} (mode : s.operatingMode = .command) (first : cr ∉ line)
      (other : ∀ inputCmd, inputCmd.all dot = true → line ≠ ascii "AT" ++ inputCmd) :
      Served s (line ++ cr :: rest) { s with inputBuffer := line ++ cr :: rest }
  | data {s : Nina} {blocks : List (List Byte)} {rest : List Byte} (mode : s.operatingMode = .data)
      (full : ∀ block ∈ blocks, block.length = s.loopbackSize) (few : rest.length < s.loopbackSize) :
      Served s (blocks.flatten ++ rest) { s with sent := s.sent ++ blocks.flatten, inputBuffer := rest }

end Gvsoc.NinaSession
