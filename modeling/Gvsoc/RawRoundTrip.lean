import Gvsoc.RawTrace
import Mathlib.Data.List.TakeWhile

/-! What the server reads from a file is what the client recorded. -/
namespace Gvsoc.RawFile
open Bytes (Byte wordBytes wordOf)
open Io (bytesFrom)
open Machine (Run anyStep)

section Read

variable {w n : Nat} {bytes rest : List Byte}

theorem readAppend (length : bytes.length = n) : read n (some (bytes ++ rest)) = some (bytes, rest) := by
  subst length
  simp [read]

theorem readWordAppend {v : BitVec w} (fits : v.toNat < 2 ^ (8 * n)) :
    readWord w n (some (wordBytes v n ++ rest)) = some (v, some rest) := by
  simp [readWord, readAppend (Bytes.wordBytesLength v n), Bytes.wordOfBytes v n fits]

theorem readWord32 (v : BitVec 32) (rest : List Byte) : readWord 32 4 (some (wordBytes v 4 ++ rest)) = some (v, some rest) :=
  readWordAppend v.isLt

theorem readHeader (type : Byte) (rest : List Byte) : read 1 (some (type :: rest)) = some ([type], rest) := by simp [read]

end Read

section Ids

def groups : Nat → BitVec 32 → List Byte
  | 0, _ => []
  | n + 1, id => if id ≤ 0x7f then [id.setWidth 8] else ((id &&& 0x7f) ||| 0x80).setWidth 8 :: groups n (id >>> 7)

theorem lowBits (id : BitVec 32) : (id &&& 0x7f).toNat = id.toNat % 128 := by
  rw [BitVec.toNat_and]
  exact Nat.and_two_pow_sub_one_eq_mod id.toNat 7

theorem continued (id : BitVec 32) : ((id &&& 0x7f) ||| 0x80).toNat = id.toNat % 128 + 128 := by
  have joined := Nat.two_pow_add_eq_or_of_lt (i := 7) (b := id.toNat % 128) (by omega) 1
  rw [BitVec.toNat_or, lowBits]
  show id.toNat % 128 ||| 128 = id.toNat % 128 + 128
  rw [Nat.or_comm, Nat.add_comm]
  exact joined.symm

theorem encodeIdLast (fuel k : Nat) (id x : BitVec 32) (last : id ≤ 0x7f) (few : k < 4) (below : x.toNat < 2 ^ (8 * k)) :
    wordBytes (encodeIdLoop (fuel + 1) id x (k + 1)).1 (encodeIdLoop (fuel + 1) id x (k + 1)).2 =
      wordBytes x k ++ [id.setWidth 8] := by
  have bound : id.toNat ≤ 127 := last
  have same : id &&& 0x7f = id := by
    apply BitVec.eq_of_toNat_eq
    rw [lowBits]
    omega
  have joined := (Bytes.wordBytesSnoc x id k below (by omega) (by omega)).1
  unfold encodeIdLoop
  split
  · rename_i zero
    subst zero
    simpa using joined
  · simp only [same, Nat.add_sub_cancel]
    rw [Nat.mul_comm k 8]
    exact joined

theorem encodeIdLoopGroups (n fuel k : Nat) (id x : BitVec 32) (enough : n < fuel) (few : k + n < 4)
    (small : id.toNat < 2 ^ (7 * (n + 1))) (below : x.toNat < 2 ^ (8 * k)) :
    wordBytes (encodeIdLoop fuel id x (k + 1)).1 (encodeIdLoop fuel id x (k + 1)).2 = wordBytes x k ++ groups (n + 1) id := by
  induction n generalizing fuel k id x with
  | zero =>
      obtain ⟨fuel, rfl⟩ : ∃ f, fuel = f + 1 := ⟨fuel - 1, by omega⟩
      have last : id ≤ 0x7f := by
        have bound : id.toNat ≤ 127 := by omega
        exact bound
      rw [groups, if_pos last]
      exact encodeIdLast fuel k id x last (by omega) below
  | succ n ih =>
      obtain ⟨fuel, rfl⟩ : ∃ f, fuel = f + 1 := ⟨fuel - 1, by omega⟩
      rw [groups]
      split
      · rename_i last
        exact encodeIdLast fuel k id x last (by omega) below
      · rename_i more
        -- the flag of this byte joins its seven bits
        have word : x ||| ((id &&& 0x7f) <<< ((k + 1 - 1) * 8)) ||| ((1 : BitVec 32) <<< ((k + 1) * 8 - 1)) =
            x ||| (((id &&& 0x7f) ||| 0x80) <<< (8 * k)) := by
          have flag : (1 : BitVec 32) <<< ((k + 1) * 8 - 1) = (0x80 : BitVec 32) <<< (8 * k) := by
            rw [show (k + 1) * 8 - 1 = 7 + 8 * k by omega, BitVec.shiftLeft_add]
            rfl
          rw [flag, BitVec.shiftLeft_or_distrib, BitVec.or_assoc, Nat.add_sub_cancel, Nat.mul_comm k 8]
        have nonzero : id ≠ 0 := by
          rintro rfl
          exact more (by decide)
        have shifted : (id >>> 7).toNat < 2 ^ (7 * (n + 1)) := by
          rw [BitVec.toNat_ushiftRight, Nat.shiftRight_eq_div_pow, Nat.div_lt_iff_lt_mul (by decide), ← Nat.pow_add]
          rwa [show 7 * (n + 1) + 7 = 7 * (n + 1 + 1) by omega]
        obtain ⟨chunk, bound⟩ := Bytes.wordBytesSnoc x ((id &&& 0x7f) ||| 0x80) k below (by rw [continued]; omega) (by omega)
        have later := ih fuel (k + 1) (id >>> 7) _ (by omega) (by omega) shifted bound
        rw [chunk] at later
        rw [encodeIdLoop, if_neg nonzero]
        simp only [if_neg more, word]
        rw [later, List.append_assoc, List.singleton_append]

theorem encodeIdGroups {id : BitVec 32} (small : id.toNat < 2 ^ 28) : wordBytes (encodeId id).1 (encodeId id).2 = groups 4 id := by
  have whole := encodeIdLoopGroups 3 5 0 id 0 (by omega) (by omega) small (by decide)
  have nothing : wordBytes (0 : BitVec 32) 0 = [] := rfl
  rwa [nothing, List.nil_append] at whole

theorem sevenBits (v : BitVec 32) : ((v.setWidth 8 &&& 0x7f).setWidth 32 : BitVec 32) = v &&& 0x7f := by
  apply BitVec.eq_of_toNat_eq
  have low : (v.setWidth 8 &&& 0x7f).toNat = (v.setWidth 8).toNat % 128 := by
    rw [BitVec.toNat_and]
    exact Nat.and_two_pow_sub_one_eq_mod _ 7
  rw [lowBits, BitVec.toNat_setWidth, low, BitVec.toNat_setWidth]
  omega

theorem regroup (id : BitVec 32) : (id &&& (0x7f : BitVec 32)) ||| ((id >>> 7) <<< 7) = id := by
  apply BitVec.eq_of_toNat_eq
  have bound := id.isLt
  have joined := Nat.two_pow_add_eq_or_of_lt (i := 7) (b := id.toNat % 128) (by omega) (id.toNat / 128)
  have high : ((id >>> 7) <<< 7).toNat = 2 ^ 7 * (id.toNat / 128) := by
    rw [BitVec.toNat_shiftLeft, BitVec.toNat_ushiftRight, Nat.shiftRight_eq_div_pow, Nat.shiftLeft_eq]
    omega
  rw [BitVec.toNat_or, lowBits, high, Nat.or_comm, ← joined]
  omega

theorem decodeLast (offset : Nat) (id id0 : BitVec 32) (rest : List Byte) (last : id ≤ 0x7f) :
    decodeIdLoop (id.setWidth 8 :: rest) id0 offset = (id0 ||| (id <<< offset), some rest) := by
  have bound : id.toNat ≤ 127 := last
  have same : id &&& 0x7f = id := by
    apply BitVec.eq_of_toNat_eq
    rw [lowBits]
    omega
  have ends : id.setWidth 8 < (128 : Byte) := by
    show (id.setWidth 8).toNat < 128
    rw [BitVec.toNat_setWidth]
    omega
  simp only [decodeIdLoop, sevenBits, same, if_pos ends]

theorem decodeGroups (n offset : Nat) (id id0 : BitVec 32) (rest : List Byte) (small : id.toNat < 2 ^ (7 * (n + 1))) :
    decodeIdLoop (groups (n + 1) id ++ rest) id0 offset = (id0 ||| (id <<< offset), some rest) := by
  induction n generalizing offset id id0 with
  | zero =>
      have last : id ≤ 0x7f := by
        have bound : id.toNat ≤ 127 := by omega
        exact bound
      rw [groups, if_pos last]
      exact decodeLast offset id id0 rest last
  | succ n ih =>
      rw [groups]
      split
      · rename_i last
        exact decodeLast offset id id0 rest last
      · rename_i more
        have goes : ¬ ((id &&& 0x7f) ||| 0x80).setWidth 8 < (128 : Byte) := by
          show ¬ (((id &&& 0x7f) ||| 0x80).setWidth 8).toNat < 128
          rw [BitVec.toNat_setWidth, continued]
          omega
        have bits : ((id &&& 0x7f) ||| 0x80) &&& 0x7f = id &&& 0x7f := by
          apply BitVec.eq_of_toNat_eq
          rw [lowBits, continued, lowBits]
          omega
        have shifted : (id >>> 7).toNat < 2 ^ (7 * (n + 1)) := by
          rw [BitVec.toNat_ushiftRight, Nat.shiftRight_eq_div_pow, Nat.div_lt_iff_lt_mul (by decide), ← Nat.pow_add]
          rwa [show 7 * (n + 1) + 7 = 7 * (n + 1 + 1) by omega]
        have whole : ((id &&& 0x7f) <<< offset) ||| ((id >>> 7) <<< (offset + 7)) = id <<< offset := by
          rw [Nat.add_comm, BitVec.shiftLeft_add, ← BitVec.shiftLeft_or_distrib, regroup]
        rw [List.cons_append, decodeIdLoop]
        simp only [sevenBits, bits, if_neg goes]
        rw [ih _ _ _ shifted, BitVec.or_assoc, whole]

theorem decodeEncoded {id : BitVec 32} (small : id.toNat < 2 ^ 28) (rest : List Byte) :
    decodeId (some (wordBytes (encodeId id).1 (encodeId id).2 ++ rest)) = (id, some rest) := by
  have decoded := decodeGroups 3 0 id 0 rest small
  rw [encodeIdGroups small, decodeId, decoded]
  simp

end Ids

section Parse

structure Known where
  timestamp : BitVec 64
  traces : BitVec 32 → Option Trace

def Known.at (k : Known) (file : List Byte) : Server := ⟨some file, k.timestamp, k.traces⟩

inductive Parses (uninitialized : BitVec 32) : Known → List Byte → List Packet → Known → Prop where
  | nil (k) : Parses uninitialized k [] [] k
  | cons {k bytes packet k' rest packets last}
      (read : ∀ more, (k.at (bytes ++ more)).getPacket uninitialized = some (packet, k'.at more)) (some : bytes ≠ [])
      (later : Parses uninitialized k' rest packets last) : Parses uninitialized k (bytes ++ rest) (packet :: packets) last

variable {uninitialized : BitVec 32} {k k' last : Known} {bytes left right : List Byte} {packets first second : List Packet}

theorem parsesOne {packet : Packet} (read : ∀ more, (k.at (bytes ++ more)).getPacket uninitialized = some (packet, k'.at more))
    (some : bytes ≠ []) : Parses uninitialized k bytes [packet] k' := by
  have one := Parses.cons read some (.nil k')
  rwa [List.append_nil] at one

theorem parsesAppend (one : Parses uninitialized k left first k') (two : Parses uninitialized k' right second last) :
    Parses uninitialized k (left ++ right) (first ++ second) last := by
  induction one with
  | nil => exact two
  | cons read some later ih =>
      rw [List.append_assoc]
      exact .cons read some (ih two)

theorem parsesRead (fuel : Nat) (enough : bytes.length < fuel) (parses : Parses uninitialized k bytes packets last) :
    Server.getPackets uninitialized fuel (k.at bytes) = (packets, last.at []) := by
  induction parses generalizing fuel with
  | nil k =>
      obtain ⟨fuel, rfl⟩ : ∃ f, fuel = f + 1 := ⟨fuel - 1, by omega⟩
      rfl
  | @cons k bytes packet k' rest packets last read some later ih =>
      obtain ⟨fuel, rfl⟩ : ∃ f, fuel = f + 1 := ⟨fuel - 1, by omega⟩
      have shrinks : 0 < bytes.length := List.length_pos_iff.mpr some
      rw [List.length_append] at enough
      rw [Server.getPackets, read rest]
      simp only [ih fuel (by omega)]

end Parse

section Packets

variable {uninitialized : BitVec 32} {k : Known}

theorem confParses (version timescale : BitVec 32) :
    Parses uninitialized k (typeConf :: (wordBytes version 4 ++ wordBytes timescale 4)) [.conf version timescale] k := by
  refine parsesOne (fun more => ?_) (by simp)
  simp [Known.at, Server.getPacket, readHeader, Server.getConf, readWord32]

theorem regTraceParses {path : List Byte} (id type width : BitVec 32) (short : path.length < 2 ^ 32) (string : 0 ∉ path) :
    Parses uninitialized k
      (typeRegTrace :: (wordBytes type 4 ++ (wordBytes width 4 ++ (wordBytes (BitVec.ofNat 32 path.length) 4 ++ (wordBytes id 4 ++ path)))))
      [.regTrace ⟨path, id, type, width⟩]
      { k with traces := fun i => if i = id then some ⟨path, id, type, width⟩ else k.traces i } := by
  refine parsesOne (fun more => ?_) (by simp)
  have length : (BitVec.ofNat 32 path.length).toNat = path.length := by
    rw [BitVec.toNat_ofNat, Nat.mod_eq_of_lt short]
  have whole : path.takeWhile (fun c => c ≠ 0) = path := by
    rw [List.takeWhile_eq_self_iff]
    intro c member
    have apart : c ≠ 0 := fun zero => string (zero ▸ member)
    simpa using apart
  have other : typeRegTrace ≠ typeConf := by decide
  simp only [Known.at, List.cons_append, List.append_assoc, Server.getPacket, readHeader, Option.bind_eq_bind, Option.bind_some,
    List.headD_cons, if_neg other, if_true, Server.getRegTrace, readWord32, length, readAppend rfl, whole]

theorem timestampReads (k : Known) (diff : BitVec 64) (n : Nat) (fits : diff.toNat < 2 ^ (8 * n)) (more : List Byte) :
    (k.at (wordBytes diff n ++ more)).getTimestamp n =
      some (.timestamp (k.timestamp + diff), { k with timestamp := k.timestamp + diff : Known }.at more) := by
  simp [Known.at, Server.getTimestamp, readWordAppend fits]

theorem timestampParses (diff : BitVec 64) :
    Parses uninitialized k ((tdGetTimestamp diff).1 :: wordBytes diff (tdGetTimestamp diff).2)
      [.timestamp (k.timestamp + diff)] { k with timestamp := k.timestamp + diff } := by
  have bound := diff.isLt
  refine parsesOne (fun more => ?_) (by simp)
  unfold tdGetTimestamp
  split_ifs
  · have reads := timestampReads k diff 1 (by omega) more
    simpa [Known.at, Server.getPacket, readHeader, typeConf, typeRegTrace, typeTimestamp8] using reads
  · have reads := timestampReads k diff 2 (by omega) more
    simpa [Known.at, Server.getPacket, readHeader, typeConf, typeRegTrace, typeTimestamp8, typeTimestamp16] using reads
  · have reads := timestampReads k diff 4 (by omega) more
    simpa [Known.at, Server.getPacket, readHeader, typeConf, typeRegTrace, typeTimestamp8, typeTimestamp16, typeTimestamp32] using reads
  · have reads := timestampReads k diff 8 (by omega) more
    simpa [Known.at, Server.getPacket, readHeader, typeConf, typeRegTrace, typeTimestamp8, typeTimestamp16, typeTimestamp32, typeTimestamp64] using reads

section Values

variable {t : DumperTrace} {trace : Trace} {payload : List Byte} (small : t.ident.toNat < 2 ^ 28)
  (known : k.traces t.ident = some trace)

include small known

theorem setParses (bit : Byte) :
    Parses uninitialized k ((if bit = 0 then typeTraceSet0 else typeTraceSet1) :: t.idBytes)
      [.trace trace [if bit = 0 then 0 else 1] uninitialized] k := by
  refine parsesOne (fun more => ?_) (by simp)
  have id := decodeEncoded small more
  simp only [Known.at, List.cons_append, Server.getPacket, readHeader, Option.bind_eq_bind, Option.bind_some, List.headD_cons]
  split_ifs <;> simp_all [typeConf, typeRegTrace, typeTimestamp8, typeTimestamp16, typeTimestamp32, typeTimestamp64, typeTrace,
    typeTraceSet0, typeTraceSet1, Server.getTrace, DumperTrace.idBytes]

theorem fixedParses (fixed : trace.type = TraceType.bitfield.code ∨ trace.type = TraceType.real.code)
    (length : payload.length = (bitsSize trace.width).toNat) :
    Parses uninitialized k (typeTrace :: (t.idBytes ++ payload)) [.trace trace payload (bitsSize trace.width)] k := by
  refine parsesOne (fun more => ?_) (by simp)
  have id := decodeEncoded small (payload ++ more)
  simp only [Known.at, List.cons_append, List.append_assoc, Server.getPacket, readHeader, Option.bind_eq_bind, Option.bind_some,
    List.headD_cons]
  simp [typeConf, typeRegTrace, typeTimestamp8, typeTimestamp16, typeTimestamp32, typeTimestamp64, typeTrace,
    Server.getTrace, DumperTrace.idBytes, id, known, fixed, readAppend length]

theorem varlenParses (varlen : trace.type = TraceType.varlen.code) (size : BitVec 32) (length : payload.length = size.toNat) :
    Parses uninitialized k (typeTrace :: (t.idBytes ++ (wordBytes size 4 ++ payload))) [.trace trace payload size] k := by
  refine parsesOne (fun more => ?_) (by simp)
  have id := decodeEncoded small (wordBytes size 4 ++ (payload ++ more))
  have fixed : ¬ (trace.type = TraceType.bitfield.code ∨ trace.type = TraceType.real.code) := by
    rw [varlen]
    decide
  simp only [Known.at, List.cons_append, List.append_assoc, Server.getPacket, readHeader, Option.bind_eq_bind, Option.bind_some,
    List.headD_cons]
  simp [typeConf, typeRegTrace, typeTimestamp8, typeTimestamp16, typeTimestamp32, typeTimestamp64, typeTrace,
    Server.getTrace, DumperTrace.idBytes, id, known, fixed, readWord32, readAppend length]

end Values

end Packets

section Spec

/- A record as it was written, and as it is read back: of a single bit only its value is kept, and its size is whatever
the local variable held. -/
def Record.exactly : Record → Returned
  | .declared path id type width => .declared path id type width
  | .dumped id timestamp payload _ => .dumped id timestamp payload (BitVec.ofNat 32 payload.length)

def Record.readBack (uninitialized : BitVec 32) : Record → Returned
  | .declared path id type width => .declared path id type width
  | .dumped id timestamp payload single =>
      if single then .dumped id timestamp [if payload.headD 0 = 0 then 0 else 1] uninitialized
      else .dumped id timestamp payload (BitVec.ofNat 32 payload.length)

def Record.single : Record → Bool
  | .declared _ _ _ _ => false
  | .dumped _ _ _ single => single

/- The bytes that the client writes for a value are those that the server expects for the declaration. -/
def SameSize (type : TraceType) (width declared : BitVec 32) : Prop :=
  match type with
  | .bitfield => width = 1 ∨ bitsSize width = bitsSize declared
  | .real => width = bitsSize declared
  | .varlen => True

def Described (type : TraceType) (width : BitVec 32) : Option (TraceType × BitVec 32) → Prop
  | none => False
  | some (type', declared) => type' = type ∧ SameSize type width declared

/- Where both sides agree on the format. The width of a value is an `int`, and its rounding to bytes does not overflow. -/
def Agrees (c : Client) : Call → Prop
  | .regTrace path id _ _ => id.toNat < 2 ^ 28 ∧ path.length + 1 < 2 ^ 32 ∧ 0 ∉ path
  | .dump trace timestamp _ width => (0 : BitVec 64).sle timestamp = true ∧ timestamp.slt c.currentTimestamp = false ∧
      width.toNat + 7 < 2 ^ 31 ∧ ∀ t ∈ c.traces[trace]?, Described t.type width (c.declared t.ident)

instance (type : TraceType) (width declared : BitVec 32) : Decidable (SameSize type width declared) :=
  match type with
  | .bitfield => inferInstanceAs (Decidable (_ ∨ _))
  | .real => inferInstanceAs (Decidable (_ = _))
  | .varlen => .isTrue trivial

instance (type : TraceType) (width : BitVec 32) (d : Option (TraceType × BitVec 32)) : Decidable (Described type width d) :=
  match d with
  | none => .isFalse id
  | some _ => inferInstanceAs (Decidable (_ ∧ _))

instance (c : Client) (call : Call) : Decidable (Agrees c call) :=
  match call with
  | .regTrace _ _ _ _ => inferInstanceAs (Decidable (_ ∧ _))
  | .dump _ _ _ _ => inferInstanceAs (Decidable (_ ∧ _))

end Spec

section Runs

variable {uninitialized : BitVec 32} {c next : Client} {call : Call}

structure InSync (uninitialized : BitVec 32) (c : Client) (packets : List Packet) (k : Known) : Prop where
  parses : Parses uninitialized ⟨0, fun _ => none⟩ c.file packets k
  records : Transducer.run learn 0 packets = (k.timestamp, c.recorded.map (Record.readBack uninitialized))
  time : (0 : BitVec 64).sle c.currentTimestamp = true ∧ k.timestamp = c.currentTimestamp ∨
    c.currentTimestamp = -1 ∧ k.timestamp = 0
  declared : ∀ id type width, c.declared id = some (type, width) →
    ∃ trace, k.traces id = some trace ∧ trace.id = id ∧ trace.type = type.code ∧ trace.width = width
  idents : ∀ t ∈ c.traces, t.ident.toNat < 2 ^ 28

theorem regTraceInSync {packets : List Packet} {k : Known} {path : List Byte} {id width : BitVec 32} {type : TraceType}
    (sync : InSync uninitialized c packets k) (small : id.toNat < 2 ^ 28) (short : path.length + 1 < 2 ^ 32) (string : 0 ∉ path) :
    ∃ packets' k', InSync uninitialized (c.regTrace path id type width) packets' k' := by
  refine ⟨_, _, parsesAppend sync.parses (regTraceParses id type.code width (by omega) string), ?_, sync.time, ?_, ?_⟩
  · rw [Transducer.runAppend, sync.records]
    simp [Transducer.run, learn, Client.regTrace, Record.readBack]
  · intro i type' width' found
    simp only [Client.regTrace] at found
    split_ifs at found with same
    · cases found
      refine ⟨_, if_pos same, same.symm, rfl, rfl⟩
    · obtain ⟨trace, known, facts⟩ := sync.declared i type' width' found
      exact ⟨trace, by simpa [same] using known, facts⟩
  · intro t member
    rcases List.mem_append.mp member with old | new
    · exact sync.idents t old
    · rw [List.mem_singleton.mp new]
      exact small

theorem timestampInSync {packets : List Packet} {k : Known} {timestamp : BitVec 64} (sync : InSync uninitialized c packets k)
    (positive : (0 : BitVec 64).sle timestamp = true) (later : timestamp.slt c.currentTimestamp = false) :
    ∃ packets' k', InSync uninitialized (c.dumpTimestamp timestamp) packets' k' ∧ k'.timestamp = timestamp := by
  unfold Client.dumpTimestamp
  split
  · rename_i new
    have total : k.timestamp + (if (0 : BitVec 64).sle c.currentTimestamp then timestamp - c.currentTimestamp else timestamp) = timestamp := by
      rcases sync.time with ⟨some, same⟩ | ⟨none, zero⟩
      · rw [if_pos some, same, BitVec.add_comm, BitVec.sub_add_cancel]
      · rw [none, zero, if_neg (by decide)]
        exact BitVec.zero_add timestamp
    refine ⟨_, _, ⟨parsesAppend sync.parses (timestampParses _), ?_, .inl ⟨positive, total⟩, sync.declared, sync.idents⟩, total⟩
    rw [Transducer.runAppend, sync.records]
    simp [Transducer.run, learn]
  · rename_i old
    refine ⟨packets, k, sync, ?_⟩
    have same : timestamp = c.currentTimestamp := by
      simp only [BitVec.slt, decide_eq_true_eq, decide_eq_false_iff_not] at old later
      exact BitVec.eq_of_toInt_eq (by omega)
    rcases sync.time with ⟨-, known⟩ | ⟨none, -⟩
    · rw [known, same]
    · rw [same, none] at positive
      exact absurd positive (by decide)

theorem valueParses (value : Nat → Byte) {k : Known} {t : DumperTrace} {trace : Trace} {width : BitVec 32}
    (small : t.ident.toNat < 2 ^ 28) (known : k.traces t.ident = some trace) (id : trace.id = t.ident)
    (type : trace.type = t.type.code) (same : SameSize t.type width trace.width) :
    ∃ packet, Parses uninitialized k (Client.dumpValue t value width) [packet] k ∧
      learn k.timestamp packet = (k.timestamp,
        [Record.readBack uninitialized (.dumped t.ident k.timestamp (Client.payload t.type value width)
          (t.type == .bitfield && width == 1))]) := by
  unfold Client.dumpValue
  cases kind : t.type with
  | bitfield =>
      rw [kind] at type same
      by_cases one : width = 1
      · subst one
        refine ⟨_, setParses small known (value 0), ?_⟩
        simp only [learn, id]
        rfl
      · have agree := same.resolve_left one
        have several : (width == 1) = false := beq_false_of_ne one
        rw [if_neg one, several]
        refine ⟨_, fixedParses small known (.inl type) (by simp [Client.payload, bytesFrom, agree]), ?_⟩
        simp [learn, Record.readBack, id, Client.payload, bytesFrom, agree]
  | real =>
      rw [kind] at type same
      have agree : width = bitsSize trace.width := same
      refine ⟨_, fixedParses small known (.inr type) (by simp [Client.payload, bytesFrom, agree]), ?_⟩
      simp [learn, Record.readBack, id, Client.payload, bytesFrom, agree]
  | varlen =>
      rw [kind] at type
      refine ⟨_, varlenParses small known type (bitsSize width) (by simp [Client.payload, bytesFrom]), ?_⟩
      simp [learn, Record.readBack, id, Client.payload, bytesFrom]

theorem dumpInSync {packets : List Packet} {k : Known} {t : DumperTrace} {timestamp : BitVec 64} {value : Nat → Byte}
    {width declared : BitVec 32} (sync : InSync uninitialized c packets k) (member : t ∈ c.traces)
    (positive : (0 : BitVec 64).sle timestamp = true) (later : timestamp.slt c.currentTimestamp = false)
    (found : c.declared t.ident = some (t.type, declared)) (same : SameSize t.type width declared) :
    ∃ packets' k', InSync uninitialized (c.dumpTrace timestamp t value width) packets' k' := by
  obtain ⟨packets', k', sync', time⟩ := timestampInSync sync positive later
  have kept : (c.dumpTimestamp timestamp).declared = c.declared ∧ (c.dumpTimestamp timestamp).recorded = c.recorded := by
    unfold Client.dumpTimestamp
    split <;> exact ⟨rfl, rfl⟩
  obtain ⟨trace, known, id, type, rfl⟩ := sync'.declared t.ident t.type declared (by rw [kept.1]; exact found)
  obtain ⟨packet, parses, learned⟩ := valueParses value (sync.idents t member) known id type same
  refine ⟨packets' ++ [packet], k', parsesAppend sync'.parses parses, ?_, sync'.time, sync'.declared, sync'.idents⟩
  rw [time] at learned
  rw [Transducer.runAppend, sync'.records]
  simp only [Transducer.run, time, learned, Client.dumpTrace, List.map_append, List.map_singleton, List.append_nil]

theorem stepInSync {packets : List Packet} {k : Known} (sync : InSync uninitialized c packets k) (agrees : Agrees c call)
    (taken : step c call = some next) : ∃ packets' k', InSync uninitialized next packets' k' := by
  cases call with
  | regTrace path id type width =>
      cases taken
      exact regTraceInSync sync agrees.1 agrees.2.1 agrees.2.2
  | dump trace timestamp value width =>
      obtain ⟨t, found, rfl⟩ := Option.map_eq_some_iff.mp taken
      obtain ⟨positive, later, -, sizes⟩ := agrees
      have described := sizes t found
      cases latest : c.declared t.ident with
      | none => rw [latest] at described; exact described.elim
      | some declaration =>
          obtain ⟨type, declared⟩ := declaration
          rw [latest] at described
          obtain ⟨rfl, same⟩ := described
          exact dumpInSync sync (List.mem_of_getElem? found) positive later latest same

theorem openedInSync (uninitialized timescale : BitVec 32) :
    InSync uninitialized (Client.opened timescale) [.conf confLastVersion timescale] ⟨0, fun _ => none⟩ := by
  refine ⟨confParses confLastVersion timescale, rfl, .inr ⟨rfl, rfl⟩, ?_, ?_⟩
  · intro id type width found
    simp [Client.opened] at found
  · simp [Client.opened]

theorem exactlyUnless {records : List Record} :
    (∀ uninitialized, records.map (Record.readBack uninitialized) = records.map Record.exactly) ↔
      ∀ r ∈ records, r.single = false := by
  constructor
  · intro same r member
    cases r with
    | declared path id type width => rfl
    | dumped id timestamp payload single =>
        have entry := List.map_inj_left.mp (same (BitVec.ofNat 32 payload.length + 1)) _ member
        cases single with
        | false => rfl
        | true =>
            simp [Record.readBack, Record.exactly] at entry
  · intro none uninitialized
    apply List.map_congr_left
    intro r member
    cases r with
    | declared path id type width => rfl
    | dumped id timestamp payload single =>
        have set : single = false := none _ member
        simp [Record.readBack, Record.exactly, set]

theorem rawRoundTrip {timescale : BitVec 32} {trace : List (Call × Client)} {last : Client}
    (run : Run step Agrees (Client.opened timescale) trace last) :
    (∀ uninitialized, (readFile uninitialized last.file).2.file = some [] ∧
      view (readFile uninitialized last.file).1 = last.recorded.map (Record.readBack uninitialized)) ∧
      ((∀ uninitialized, view (readFile uninitialized last.file).1 = last.recorded.map Record.exactly) ↔
        ∀ r ∈ last.recorded, r.single = false) := by
  have reads (uninitialized : BitVec 32) : (readFile uninitialized last.file).2.file = some [] ∧
      view (readFile uninitialized last.file).1 = last.recorded.map (Record.readBack uninitialized) := by
    obtain ⟨packets, k, sync⟩ := Machine.runInvariant (P := fun c => ∃ packets k, InSync uninitialized c packets k) run
      ⟨_, _, openedInSync uninitialized timescale⟩
      (fun _ _ _ ⟨_, _, sync⟩ agrees taken => stepInSync sync agrees taken)
    have all := parsesRead (last.file.length + 1) (by omega) sync.parses
    have file : readFile uninitialized last.file = (packets, k.at []) := all
    rw [file, view, sync.records]
    exact ⟨rfl, rfl⟩
  refine ⟨reads, ?_⟩
  simp only [(reads _).2]
  exact exactlyUnless

def threeTraces : List Call :=
  [.regTrace [0x61] 5 .bitfield 12, .regTrace [0x62] 300 .real 64, .regTrace [0x63] 0xfffffff .varlen 0,
    .dump 0 7 (fun i => BitVec.ofNat 8 (i + 0xa)) 12, .dump 1 1000 (fun i => BitVec.ofNat 8 i) 8,
    .dump 2 0x100000000 (fun _ => 0x68) 24, .dump 0 0x100000000 (fun _ => 0xff) 12]

def afterThree : Client := Machine.reach step Agrees (Client.opened 0) threeTraces

theorem rawRoundTripThree :
    (readFile 0xcc afterThree.file).2.file = some [] ∧
      view (readFile 0xcc afterThree.file).1 = afterThree.recorded.map Record.exactly ∧
      (view (readFile 0xcc afterThree.file).1).drop 3 = [.dumped 5 7 [0xa, 0xb] 2, .dumped 300 1000 [0, 1, 2, 3, 4, 5, 6, 7] 8,
        .dumped 0xfffffff 0x100000000 [0x68, 0x68, 0x68] 3, .dumped 5 0x100000000 [0xff, 0xff] 2] := by
  obtain ⟨trace, run, -⟩ := Machine.reachRun step Agrees (Client.opened 0) threeTraces (by decide +kernel)
  obtain ⟨inSync, exact⟩ := rawRoundTrip run
  have same : view (readFile 0xcc afterThree.file).1 = _ := exact.mpr (by decide +kernel) 0xcc
  refine ⟨(inSync 0xcc).1, same, ?_⟩
  rw [same]
  decide +kernel

/- A bit comes back with the size that the reader's stack happened to hold. -/
def oneBit : List Call := [.regTrace [0x61] 5 .bitfield 1, .dump 0 7 (fun _ => 1) 1]

/- A real that is dumped with the width it was declared with: the client takes it for bytes and the server for bits. -/
def declaredWidth : List Call := [.regTrace [0x62] 5 .real 64, .dump 0 7 (fun _ => 7) 64, .dump 0 8 (fun _ => 7) 64]

def after (calls : List Call) : Client := Machine.reach step anyStep (Client.opened 0) calls

theorem sizeLost :
    (∃ trace, Run step anyStep (Client.opened 0) trace (after oneBit) ∧ trace.map Prod.fst = oneBit) ∧
      (after oneBit).recorded.map Record.exactly = [.declared [0x61] 5 1 1, .dumped 5 7 [1] 1] ∧
      view (readFile 0xcc (after oneBit).file).1 = [.declared [0x61] 5 1 1, .dumped 5 7 [1] 0xcc] ∧
      (∃ trace, Run step anyStep (Client.opened 0) trace (after declaredWidth) ∧ trace.map Prod.fst = declaredWidth) ∧
      ((after declaredWidth).recorded.map Record.exactly).length = 3 ∧
      view (readFile 0xcc (after declaredWidth).file).1 = [.declared [0x62] 5 2 64, .dumped 5 7 (List.replicate 8 7) 8] := by
  have first := Machine.reachRun step anyStep (Client.opened 0) oneBit (by decide +kernel)
  have second := Machine.reachRun step anyStep (Client.opened 0) declaredWidth (by decide +kernel)
  exact ⟨first, by decide +kernel, by decide +kernel, second, by decide +kernel, by decide +kernel⟩

end Runs

end Gvsoc.RawFile
