import Gvsoc.Io
import Gvsoc.Machine
import Gvsoc.Transducer

/-! The raw trace files: `trace_dumper_client` writes them and `trace_dumper_server` reads them back. -/
namespace Gvsoc.RawFile
open Bytes (Byte wordBytes wordOf)
open Io (bytesFrom)

inductive TraceType where
  | bitfield
  | real
  | varlen
  deriving DecidableEq, Repr

def TraceType.code : TraceType → BitVec 32
  | .bitfield => 1
  | .real => 2
  | .varlen => 3

def typeConf : Byte := 1
def typeRegTrace : Byte := 2
def typeTimestamp8 : Byte := 3
def typeTimestamp16 : Byte := 4
def typeTimestamp32 : Byte := 5
def typeTimestamp64 : Byte := 6
def typeTrace : Byte := 7
def typeTraceSet0 : Byte := 8
def typeTraceSet1 : Byte := 9

def confLastVersion : BitVec 32 := 1

section Ids

def encodeIdLoop : Nat → BitVec 32 → BitVec 32 → Nat → BitVec 32 × Nat
  | 0, _, encodedId, idSize => (encodedId, idSize)
  | fuel + 1, id, encodedId, idSize =>
      if id = 0 then (encodedId, idSize)
      else
        let encodedId := encodedId ||| ((id &&& 0x7f) <<< ((idSize - 1) * 8))
        if id ≤ 0x7f then (encodedId, idSize)
        else encodeIdLoop fuel (id >>> 7) (encodedId ||| ((1 : BitVec 32) <<< (idSize * 8 - 1))) (idSize + 1)

/- Five bytes are enough for 32 bits. -/
def encodeId (id : BitVec 32) : BitVec 32 × Nat := encodeIdLoop 5 id 0 1

def decodeIdLoop : List Byte → BitVec 32 → Nat → BitVec 32 × Option (List Byte)
  | [], _, _ => (0xffffffff, none)
  | byte :: rest, id, offset =>
      let id := id ||| ((byte &&& 0x7f).setWidth 32 <<< offset)
      if byte < 128 then (id, some rest) else decodeIdLoop rest id (offset + 7)

def decodeId : Option (List Byte) → BitVec 32 × Option (List Byte)
  | none => (0xffffffff, none)
  | some file => decodeIdLoop file 0 0

end Ids

def bitsSize (width : BitVec 32) : BitVec 32 := (width + 7).sdiv 8

def tdGetTimestamp (diff : BitVec 64) : Byte × Nat :=
  if diff.toNat < 2 ^ 8 then (typeTimestamp8, 1)
  else if diff.toNat < 2 ^ 16 then (typeTimestamp16, 2)
  else if diff.toNat < 2 ^ 32 then (typeTimestamp32, 4)
  else (typeTimestamp64, 8)

section Client

structure DumperTrace where
  ident : BitVec 32
  type : TraceType
  deriving DecidableEq, Repr

def DumperTrace.idBytes (t : DumperTrace) : List Byte := wordBytes (encodeId t.ident).1 (encodeId t.ident).2

/- What was recorded; a value of one bit is kept in the header. -/
inductive Record where
  | declared (path : List Byte) (id type width : BitVec 32)
  | dumped (id : BitVec 32) (timestamp : BitVec 64) (payload : List Byte) (single : Bool)
  deriving DecidableEq, Repr

structure Client where
  file : List Byte
  currentTimestamp : BitVec 64
  traces : List DumperTrace
  declared : BitVec 32 → Option (TraceType × BitVec 32)
  recorded : List Record

namespace Client

def opened (timescale : BitVec 32) : Client :=
  ⟨typeConf :: (wordBytes confLastVersion 4 ++ wordBytes timescale 4), -1, [], fun _ => none, []⟩

variable (c : Client)

def regTrace (path : List Byte) (id : BitVec 32) (type : TraceType) (width : BitVec 32) : Client :=
  { c with
    file := c.file ++ typeRegTrace :: (wordBytes type.code 4 ++ (wordBytes width 4 ++
      (wordBytes (BitVec.ofNat 32 path.length) 4 ++ (wordBytes id 4 ++ path))))
    traces := c.traces ++ [⟨id, type⟩]
    declared := fun i => if i = id then some (type, width) else c.declared i
    recorded := c.recorded ++ [.declared path id type.code width] }

def dumpTimestamp (timestamp : BitVec 64) : Client :=
  if c.currentTimestamp.slt timestamp then
    let diff := if (0 : BitVec 64).sle c.currentTimestamp then timestamp - c.currentTimestamp else timestamp
    let (type, tsSize) := tdGetTimestamp diff
    { c with file := c.file ++ type :: wordBytes diff tsSize, currentTimestamp := timestamp }
  else c

/- A bitfield and a varlen are dumped with a number of bits, a real with a number of bytes. -/
def payload (type : TraceType) (value : Nat → Byte) (width : BitVec 32) : List Byte :=
  match type with
  | .real => bytesFrom value 0 width.toNat
  | _ => bytesFrom value 0 (bitsSize width).toNat

def dumpValue (t : DumperTrace) (value : Nat → Byte) (width : BitVec 32) : List Byte :=
  match t.type with
  | .bitfield =>
      if width = 1 then (if value 0 = 0 then typeTraceSet0 else typeTraceSet1) :: t.idBytes
      else typeTrace :: (t.idBytes ++ payload .bitfield value width)
  | .real => typeTrace :: (t.idBytes ++ payload .real value width)
  | .varlen => typeTrace :: (t.idBytes ++ (wordBytes (bitsSize width) 4 ++ payload .varlen value width))

def dumpTrace (timestamp : BitVec 64) (t : DumperTrace) (value : Nat → Byte) (width : BitVec 32) : Client :=
  let c := c.dumpTimestamp timestamp
  { c with
    file := c.file ++ dumpValue t value width
    recorded := c.recorded ++ [.dumped t.ident timestamp (payload t.type value width) (t.type == .bitfield && width == 1)] }

end Client

inductive Call where
  | regTrace (path : List Byte) (id : BitVec 32) (type : TraceType) (width : BitVec 32)
  | dump (trace : Nat) (timestamp : BitVec 64) (value : Nat → Byte) (width : BitVec 32)

/- A trace is dumped through the object that `reg_trace` returned for it. -/
def step (c : Client) : Call → Option Client
  | .regTrace path id type width => some (c.regTrace path id type width)
  | .dump trace timestamp value width => c.traces[trace]?.map (fun t => c.dumpTrace timestamp t value width)

end Client

section Server

structure Trace where
  path : List Byte
  id : BitVec 32
  type : BitVec 32
  width : BitVec 32
  deriving DecidableEq, Repr

inductive Packet where
  | conf (version timescale : BitVec 32)
  | regTrace (trace : Trace)
  | timestamp (timestamp : BitVec 64)
  | trace (trace : Trace) (data : List Byte) (size : BitVec 32)
  | other (type : Byte)
  deriving DecidableEq, Repr

structure Server where
  file : Option (List Byte)
  timestamp : BitVec 64
  traces : BitVec 32 → Option Trace

def Server.opened (file : List Byte) : Server := ⟨some file, 0, fun _ => none⟩

def read (n : Nat) (file : Option (List Byte)) : Option (List Byte × List Byte) :=
  match file with
  | none => none
  | some bytes => if n ≤ bytes.length then some (bytes.take n, bytes.drop n) else none

def readWord (w n : Nat) (file : Option (List Byte)) : Option (BitVec w × Option (List Byte)) :=
  (read n file).map (fun (bytes, rest) => (wordOf w bytes, some rest))

namespace Server

variable (s : Server)

def getConf : Option (Packet × Server) := do
  let (version, file) ← readWord 32 4 s.file
  let (timescale, file) ← readWord 32 4 file
  some (.conf version timescale, { s with file := file })

/- The path becomes a string again up to its first null. -/
def getRegTrace : Option (Packet × Server) := do
  let (type, file) ← readWord 32 4 s.file
  let (width, file) ← readWord 32 4 file
  let (pathLen, file) ← readWord 32 4 file
  let (id, file) ← readWord 32 4 file
  let (path, rest) ← read pathLen.toNat file
  let trace : Trace := ⟨path.takeWhile (· ≠ 0), id, type, width⟩
  some (.regTrace trace, { s with file := some rest, traces := fun i => if i = id then some trace else s.traces i })

def getTimestamp (width : Nat) : Option (Packet × Server) := do
  let (diff, file) ← readWord 64 width s.file
  let timestamp := s.timestamp + diff
  some (.timestamp timestamp, { s with file := file, timestamp := timestamp })

/- `uninitialized` is the local `size`, which the headers that hold the value do not set. -/
def getTrace (uninitialized : BitVec 32) (type : Byte) : Option (Packet × Server) := do
  let (id, file) := decodeId s.file
  let trace ← s.traces id
  if type = typeTrace then
    if trace.type = TraceType.bitfield.code ∨ trace.type = TraceType.real.code then
      let size := bitsSize trace.width
      let (data, rest) ← read size.toNat file
      some (.trace trace data size, { s with file := some rest })
    else
      let (size, file) ← readWord 32 4 file
      let (data, rest) ← read size.toNat file
      some (.trace trace data size, { s with file := some rest })
  else
    some (.trace trace [if type = typeTraceSet1 then 1 else 0] uninitialized, { s with file := file })

def getPacket (uninitialized : BitVec 32) : Option (Packet × Server) := do
  let (header, rest) ← read 1 s.file
  let type := header.headD 0
  let s := { s with file := some rest }
  if type = typeConf then s.getConf
  else if type = typeRegTrace then s.getRegTrace
  else if type = typeTimestamp8 ∨ type = typeTimestamp16 ∨ type = typeTimestamp32 ∨ type = typeTimestamp64 then
    s.getTimestamp (if type = typeTimestamp8 then 1 else if type = typeTimestamp16 then 2 else if type = typeTimestamp32 then 4 else 8)
  else if type = typeTrace ∨ type = typeTraceSet0 ∨ type = typeTraceSet1 then s.getTrace uninitialized type
  else some (.other type, s)

def getPackets (uninitialized : BitVec 32) : Nat → Server → List Packet × Server
  | 0, s => ([], s)
  | fuel + 1, s => match s.getPacket uninitialized with
      | none => ([], s)
      | some (packet, next) =>
          let (packets, last) := getPackets uninitialized fuel next
          (packet :: packets, last)

end Server

inductive Returned where
  | declared (path : List Byte) (id type width : BitVec 32)
  | dumped (id : BitVec 32) (timestamp : BitVec 64) (data : List Byte) (size : BitVec 32)
  deriving DecidableEq, Repr

def learn : BitVec 64 → Packet → BitVec 64 × List Returned
  | now, .regTrace trace => (now, [.declared trace.path trace.id trace.type trace.width])
  | _, .timestamp now => (now, [])
  | now, .trace trace data size => (now, [.dumped trace.id now data size])
  | now, _ => (now, [])

def view (packets : List Packet) : List Returned := (Transducer.run learn 0 packets).2

/- Every packet has a header, so there are no more packets than bytes. -/
def readFile (uninitialized : BitVec 32) (file : List Byte) : List Packet × Server :=
  Server.getPackets uninitialized (file.length + 1) (Server.opened file)

end Server

end Gvsoc.RawFile
