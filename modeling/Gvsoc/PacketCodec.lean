import Gvsoc.CText
import Gvsoc.CircularBuffer

/-! The packets of the remote protocol: `RspPacketCodec` and the loop that receives them. -/
namespace Gvsoc.Rsp
open Bytes (Byte)
open CText (hexDigit)
open Circular (CircularCharBuffer)

def rspPacketMaxLen : Nat := 16 * 1024

def ctrlcChar : Byte := 0x03
def ackChar : Byte := 0x2b
def startChar : Byte := 0x24
def endChar : Byte := 0x23
def escapeChar : Byte := 0x7d
def runChar : Byte := 0x2a
def percentChar : Byte := 0x25

/- The rewriting of `m_pkt` in place never overtakes what is still to be read. -/
def deescape (escaped : Bool) : List Byte → List Byte
  | [] => []
  | c :: rest =>
      if escaped then (c ^^^ 0x20) :: deescape false rest
      else if c = escapeChar then deescape true rest
      else c :: deescape false rest

theorem deescapePair (c : Byte) (rest : List Byte) :
    deescape false (escapeChar :: (c ^^^ 0x20) :: rest) = c :: deescape false rest := by
  have back : c ^^^ 0x20 ^^^ 0x20 = c := by rw [BitVec.xor_assoc, BitVec.xor_self, BitVec.xor_zero]
  simp only [deescape, Bool.false_eq_true, if_false, if_true, back]

/- Whether a hash was found, where the scan stopped, and the new `m_escaped`. -/
def scanForHash : List Byte → Nat → Bool → Bool × Nat × Bool
  | [], cur, escaped => (false, cur, escaped)
  | c :: rest, cur, escaped =>
      if escaped then scanForHash rest (cur + 1) false
      else if c = escapeChar then scanForHash rest (cur + 1) true
      else if c = endChar then (true, cur, escaped)
      else scanForHash rest (cur + 1) escaped

/- A `char` is signed, so it is extended before it is added. -/
def addChar (checksum : BitVec 32) (c : Byte) : BitVec 32 := checksum + c.signExtend 32

def checksumStr (checksum : BitVec 32) : Byte × Byte :=
  (hexDigit false (checksum.toNat % 256 / 16), hexDigit false (checksum.toNat % 256 % 16))

def verifyChecksum (buf : List Byte) (crc0 crc1 : Byte) : Bool :=
  let str := checksumStr (buf.foldl addChar 0)
  crc0 == str.1 && crc1 == str.2

section Encoder

/- What `escape` has written to `raw` and added to `crc`. -/
structure Raw where
  raw : List Byte
  crc : BitVec 32

def Raw.put (r : Raw) (c : Byte) : Raw := ⟨r.raw ++ [c], addChar r.crc c⟩

/- Every round takes at least one character off `seq_len`. -/
def flushSeqLoop (c : Byte) : Nat → Nat → Raw → Raw
  | 0, _, r => r
  | fuel + 1, seqLen, r =>
      if 0 < seqLen then
        if seqLen < 3 then (List.replicate seqLen c).foldl Raw.put r
        else
          let runLen := if seqLen = 6 ∨ seqLen = 7 then 5 else if seqLen + 29 > 126 then 126 - 29 else seqLen
          let count := runLen + 29
          let r := (r.put c).put runChar
          flushSeqLoop c fuel (seqLen - runLen) ⟨r.raw ++ [BitVec.ofNat 8 count], r.crc + BitVec.ofNat 32 count⟩
      else r

def flushSeq (c : Byte) (seqLen : Nat) (r : Raw) : Raw := flushSeqLoop c seqLen seqLen r

def needsEscape (c : Byte) : Bool := c == endChar || c == percentChar || c == escapeChar || c == runChar

def escapeLoop (dontEncodeRuns : Bool) : List Byte → Byte → Nat → Raw → Raw
  | [], seqC, seqLen, r => if 0 < seqLen then flushSeq seqC seqLen r else r
  | c :: rest, seqC, seqLen, r =>
      if needsEscape c then
        let r := if 0 < seqLen then flushSeq seqC seqLen r else r
        let r : Raw := ⟨r.raw ++ [escapeChar, c ^^^ 0x20], addChar r.crc escapeChar + (c.signExtend 32 ^^^ 0x20)⟩
        escapeLoop dontEncodeRuns rest seqC 0 r
      else if dontEncodeRuns then escapeLoop dontEncodeRuns rest seqC seqLen (r.put c)
      else if 0 < seqLen then
        if c ≠ seqC then escapeLoop dontEncodeRuns rest c 1 (flushSeq seqC seqLen r)
        else escapeLoop dontEncodeRuns rest seqC (seqLen + 1) r
      else escapeLoop dontEncodeRuns rest c 1 r

def escape (data : List Byte) (dontEncodeRuns : Bool) : Raw := escapeLoop dontEncodeRuns data 0 0 ⟨[], 0⟩

def outPkt (buf : List Byte) (dontEncodeRuns : Bool) : List Byte :=
  let r := escape buf dontEncodeRuns
  startChar :: r.raw ++ [endChar, (checksumStr r.crc).1, (checksumStr r.crc).2]

/- Nothing where the packet is written past the end of `s_out_pkt`. -/
def encode (buf : List Byte) (circBuf : CircularCharBuffer) (dontEncodeRuns : Bool) :
    Option (CircularCharBuffer × Bool) :=
  let pkt := outPkt buf dontEncodeRuns
  if pkt.length ≤ rspPacketMaxLen then
    let (circBuf, copied) := circBuf.writeCopy pkt
    some (circBuf, copied == pkt.length)
  else none

end Encoder

section Decoder

inductive DecodeState where
  | init
  | leadin
  | body
  | crc
  deriving DecidableEq, Repr

inductive Callback where
  | ctrlc
  | ack
  | packet (pkt : List Byte)
  | error (text : String)
  deriving DecidableEq, Repr

def tooMany : Callback := .error "too many characters received"
def crcError : Callback := .error "packet crc error"

/- `pkt` is the part of `m_pkt` before `m_cur`. -/
structure RspPacketCodec where
  decodeState : DecodeState
  pkt : List Byte
  escaped : Bool
  deriving DecidableEq, Repr

def resetState : RspPacketCodec := ⟨.leadin, [], false⟩

def leadinLoop : List Byte → Nat → Option Byte × Nat
  | [], bufIdx => (none, bufIdx)
  | c :: rest, bufIdx =>
      if c = ctrlcChar ∨ c = ackChar ∨ c = startChar then (some c, bufIdx + 1) else leadinLoop rest (bufIdx + 1)

/- One call: the codec and the buffer after it, the callbacks it made and whether to call again. Nothing where
the body is copied past the end of `m_pkt`. -/
def RspPacketCodec.decoder (m : RspPacketCodec) (circBuf : CircularCharBuffer) :
    Option (RspPacketCodec × CircularCharBuffer × List Callback × Bool) :=
  match m.decodeState with
  | .init => some (resetState, circBuf, [], true)
  | .leadin =>
      let buf := circBuf.readable
      if buf.length = 0 then some (m, circBuf, [], false)
      else
        let (found, bufIdx) := leadinLoop buf 0
        let circBuf := circBuf.commitRead bufIdx
        match found with
        | none => some (m, circBuf, [], true)
        | some c =>
            if c = ctrlcChar then some (m, circBuf, [.ctrlc], true)
            else if c = ackChar then some (m, circBuf, [.ack], true)
            else some ({ m with decodeState := .body }, circBuf, [], true)
  | .body =>
      let buf := circBuf.readable
      if 0 < buf.length then
        let (hashFound, bufIdx, escaped) := scanForHash buf 0 m.escaped
        if rspPacketMaxLen < m.pkt.length + bufIdx then none
        else
          let m := { m with pkt := m.pkt ++ buf.take bufIdx, escaped := escaped }
          if hashFound then some ({ m with decodeState := .crc }, circBuf.commitRead (bufIdx + 1), [], true)
          else
            let circBuf := circBuf.commitRead bufIdx
            if rspPacketMaxLen ≤ m.pkt.length then some ({ m with decodeState := .init }, circBuf, [tooMany], true)
            else some (m, circBuf, [], true)
      else if rspPacketMaxLen ≤ m.pkt.length then some ({ m with decodeState := .init }, circBuf, [tooMany], true)
      else some (m, circBuf, [], false)
  | .crc =>
      match circBuf.readable with
      | crc0 :: crc1 :: _ =>
          if verifyChecksum m.pkt crc0 crc1 then
            let pkt := deescape false m.pkt
            -- the rest of `m_pkt` is cleared
            let cleared := pkt ++ List.replicate (m.pkt.length - pkt.length) 0
            some ({ m with decodeState := .init, pkt := cleared }, circBuf.commitRead 2, [.packet pkt], false)
          else some ({ m with decodeState := .init }, circBuf.commitRead 2, [crcError], false)
      | _ => some (m, circBuf, [], false)

def decodeLoop : Nat → RspPacketCodec → CircularCharBuffer →
    Option (RspPacketCodec × CircularCharBuffer × List Callback)
  | 0, _, _ => none
  | fuel + 1, m, circBuf => do
      let (m, circBuf, called, again) ← m.decoder circBuf
      if again then
        let (m, circBuf, more) ← decodeLoop fuel m circBuf
        some (m, circBuf, called ++ more)
      else some (m, circBuf, called)

/- Every character is read once, and the codec is reset at most once for it. -/
def RspPacketCodec.decode (m : RspPacketCodec) (circBuf : CircularCharBuffer) :
    Option (RspPacketCodec × CircularCharBuffer × List Callback) :=
  decodeLoop (2 * circBuf.size + 3) m circBuf

end Decoder

section Proxy

structure Proxy where
  codec : RspPacketCodec
  inBuffer : CircularCharBuffer
  received : List Byte
  callbacks : List Callback

def Proxy.round (p : Proxy) (chunk : List Byte) : Option Proxy :=
  if 0 < chunk.length ∧ chunk.length ≤ p.inBuffer.writeBlock.2.2 then do
    let (codec, inBuffer, called) ← p.codec.decode (p.inBuffer.receive chunk)
    some ⟨codec, inBuffer, p.received ++ chunk, p.callbacks ++ called⟩
  else none

end Proxy

end Gvsoc.Rsp
