import Gvsoc.PacketScan

/-! A packet that is encoded and decoded again. -/
namespace Gvsoc.Rsp
open Bytes (Byte)
open Circular (CircularCharBuffer)
open Transducer (run firstStop)

section Escape

def escaped : List Byte → List Byte
  | [] => []
  | c :: rest => if needsEscape c then escapeChar :: (c ^^^ 0x20) :: escaped rest else c :: escaped rest

theorem escapeLoopPlain (data : List Byte) (seqC : Byte) (r : Raw) :
    escapeLoop true data seqC 0 r = ⟨r.raw ++ escaped data, (escaped data).foldl addChar r.crc⟩ := by
  induction data generalizing r with
  | nil => simp [escapeLoop, escaped]
  | cons c rest ih =>
      simp only [escapeLoop, escaped]
      split
      · simp [ih, addChar]
      · simp [ih, Raw.put]

theorem escapePlain (data : List Byte) : escape data true = ⟨escaped data, (escaped data).foldl addChar 0⟩ := by
  simpa [escape] using escapeLoopPlain data 0 ⟨[], 0⟩

theorem escapedBody (data pkt : List Byte) :
    listen (.body pkt false) (escaped data) = (.body (pkt ++ escaped data) false, []) ∧
      firstEnd (.body pkt false) (escaped data) = none := by
  induction data generalizing pkt with
  | nil => simp [escaped, listen, run, firstEnd, firstStop]
  | cons c rest ih =>
      simp only [escaped]
      split
      · obtain ⟨grows, passes⟩ := ih (pkt ++ [escapeChar, c ^^^ 0x20])
        constructor
        · simpa [listen, run, hear] using grows
        · simpa [firstEnd, firstStop, hear, ends] using passes
      · rename_i plain
        have stays : c ≠ escapeChar ∧ c ≠ endChar := by
          simp only [needsEscape, Bool.or_eq_true, beq_iff_eq, not_or] at plain
          exact ⟨plain.1.2, plain.1.1.1⟩
        obtain ⟨grows, passes⟩ := ih (pkt ++ [c])
        constructor
        · simpa [listen, run, hear, stays] using grows
        · simpa [firstEnd, firstStop, hear, ends, stays] using passes

theorem deescapeEscaped (data : List Byte) : deescape false (escaped data) = data := by
  induction data with
  | nil => rfl
  | cons c rest ih =>
      simp only [escaped]
      split
      · rw [deescapePair, ih]
      · rename_i plain
        have stays : c ≠ escapeChar := by
          simp only [needsEscape, Bool.or_eq_true, beq_iff_eq, not_or] at plain
          exact plain.1.2
        simp [deescape, stays, ih]

end Escape

section Frame

variable (payload : List Byte)

theorem outPktPlain : outPkt payload true =
    startChar :: escaped payload ++ [endChar, (checksumStr ((escaped payload).foldl addChar 0)).1,
      (checksumStr ((escaped payload).foldl addChar 0)).2] := by
  simp [outPkt, escapePlain]

theorem outPktHeard : listen .leadin (outPkt payload true) = (.leadin, [.packet payload]) ∧
    firstEnd .leadin (outPkt payload true) = some (outPkt payload true).length := by
  obtain ⟨grows, passes⟩ := escapedBody payload []
  rw [outPktPlain]
  generalize checksum : checksumStr ((escaped payload).foldl addChar 0) = digits
  have right : verifyChecksum (escaped payload) digits.1 digits.2 = true := by
    unfold verifyChecksum
    rw [checksum]
    simp
  have starts : hear .leadin startChar = (.body [] false, []) := by decide
  have apart : endChar ≠ escapeChar := by decide
  have trailer : listen (.body (escaped payload) false) [endChar, digits.1, digits.2] = (.leadin, [.packet payload]) := by
    simp [listen, run, hear, apart, judged, right, deescapeEscaped]
  have last : firstEnd (.body (escaped payload) false) [endChar, digits.1, digits.2] = some 3 := by
    simp [firstEnd, firstStop, hear, apart, ends]
  rw [List.nil_append] at grows
  constructor
  · have body := listenAppend (.body [] false) (escaped payload) [endChar, digits.1, digits.2]
    rw [grows, trailer] at body
    rw [List.cons_append, listen, run, starts, ← listen, body]
    rfl
  · have body := firstEndAppend passes [endChar, digits.1, digits.2]
    rw [grows, last] at body
    rw [List.cons_append, firstEnd, firstStop, starts, ← firstEnd, body]
    simp [ends]
    omega

end Frame

section RoundTrip

def RspPacketCodec.Idle (m : RspPacketCodec) : Prop := m.decodeState = .init ∨ m = resetState

/- A buffer of the proxy with nothing in it, wherever its head and tail are. -/
structure Unused (b : CircularCharBuffer) : Prop where
  valid : b.Valid
  size : b.maxSize = rspPacketMaxLen
  empty : b.isEmpty = true

variable {m : RspPacketCodec} {b : CircularCharBuffer} {payload : List Byte}

theorem idleSound (idle : m.Idle) : m.Sound ∧ m.scan = .leadin := by
  rcases idle with start | rfl
  · exact ⟨⟨by simp [start], by simp [start]⟩, by simp [RspPacketCodec.scan, start]⟩
  · exact ⟨⟨fun _ => ⟨rfl, rfl⟩, by simp [resetState]⟩, rfl⟩

theorem unusedQueued (unused : Unused b) : b.queued = [] ∧ b.base = 0 := by
  have none := (CircularCharBuffer.sizeEmpty unused.valid).mp unused.empty
  refine ⟨List.eq_nil_of_length_eq_zero (by rw [CircularCharBuffer.queuedLength, none]), ?_⟩
  simp [CircularCharBuffer.base, unused.empty]

theorem unusedReceives (unused : Unused b) {s : List Byte} (some : 0 < s.length) (fits : s.length ≤ rspPacketMaxLen) :
    (b.receive s).Valid ∧ (b.receive s).queued = s ∧ (b.receive s).head = 0 ∧ (b.receive s).maxSize = rspPacketMaxLen := by
  have block := CircularCharBuffer.writeBlockEmpty unused.empty
  obtain ⟨valid, queued, head, size⟩ :=
    CircularCharBuffer.receiveQueued unused.valid some (by rw [block, unused.size]; exact fits)
  obtain ⟨none, base⟩ := unusedQueued unused
  rw [none, List.nil_append] at queued
  exact ⟨valid, queued, head.trans base, size.trans unused.size⟩

theorem listenLength (s : Scan) (bytes : List Byte) : (listen s bytes).1.length ≤ s.length + bytes.length := by
  induction bytes generalizing s with
  | nil => simp [listen, run]
  | cons c rest ih =>
      have grows : (hear s c).1.length ≤ s.length + 1 := by
        unfold hear
        split
        · split_ifs <;> simp [Scan.length]
        · split_ifs <;> simp [Scan.length]
        · simp [Scan.length]
        · simp [Scan.length]
      have later := ih (hear s c).1
      simp only [listen, run, List.length_cons] at later ⊢
      omega

theorem shortStream {bytes : List Byte} (small : bytes.length ≤ rspPacketMaxLen) : Short .leadin bytes := by
  intro k inside
  have bound := listenLength .leadin (bytes.take k)
  have zero : Scan.leadin.length = 0 := rfl
  rw [List.length_take, zero] at bound
  omega

theorem packetClean (fits : (outPkt payload true).length ≤ rspPacketMaxLen) :
    Clean rspPacketMaxLen 0 .leadin (outPkt payload true) ∧ Short .leadin (outPkt payload true) := by
  obtain ⟨-, found⟩ := outPktHeard payload
  refine ⟨⟨?_, ?_, ?_⟩, ?_⟩
  · intro k inside edge before
    have early := before _ found
    omega
  · intro n found'
    rw [found] at found'
    cases found'
    omega
  · intro n found'
    rw [found] at found'
    cases found'
    rw [List.drop_length]
    rfl
  · exact shortStream fits

theorem roundTrip {outBuffer inBuffer : CircularCharBuffer} (fits : (escape payload true).raw.length + 4 ≤ rspPacketMaxLen)
    (idle : m.Idle) (unusedOut : Unused outBuffer) (unusedIn : Unused inBuffer) :
    ∃ outBuffer', encode payload outBuffer true = some (outBuffer', true) ∧ outBuffer'.readable = outBuffer'.queued ∧
      ∃ p, Proxy.round ⟨m, inBuffer, [], []⟩ outBuffer'.readable = some p ∧ p.callbacks = [.packet payload] ∧
        p.codec.Idle ∧ p.inBuffer.isEmpty = true := by
  have length : (outPkt payload true).length = (escape payload true).raw.length + 4 := by simp [outPkt]
  have some : 0 < (outPkt payload true).length := by omega
  have small : (outPkt payload true).length ≤ rspPacketMaxLen := by omega
  -- into the output buffer and out of it
  obtain ⟨valid, queued, head, size⟩ := unusedReceives unusedOut some small
  have written := CircularCharBuffer.writeCopyEmpty unusedOut.empty some (by rw [unusedOut.size]; exact small)
  have block : (outBuffer.receive (outPkt payload true)).readable = outPkt payload true := by
    rw [CircularCharBuffer.readableQueued valid, queued, head, size, Nat.sub_zero, List.take_of_length_le small]
  refine ⟨outBuffer.receive (outPkt payload true), ?_, block.trans queued.symm, ?_⟩
  · simp [encode, small, written]
  -- into the input buffer and through the decoder
  rw [block]
  obtain ⟨sound, scan⟩ := idleSound idle
  obtain ⟨valid', queued', head', size'⟩ := unusedReceives unusedIn some small
  obtain ⟨heard, found⟩ := outPktHeard payload
  obtain ⟨clean, short⟩ := packetClean small
  have bound : pendingCalls m (inBuffer.receive (outPkt payload true)) < 2 * (inBuffer.receive (outPkt payload true)).size + 3 := by
    unfold pendingCalls
    split <;> omega
  obtain ⟨last, left, done, validLeft, -, soundLast, ⟨n, dropped, whole⟩, ended⟩ := decodeLoopClean _ bound valid' sound
    (by rw [scan, queued']; exact short) (by rw [scan, queued', head', size']; exact clean)
  rw [scan, queued', heard] at done whole
  rw [scan, queued'] at ended
  rw [queued'] at dropped
  refine ⟨⟨last, left, outPkt payload true, [.packet payload]⟩, ?_, rfl, ?_⟩
  · unfold Proxy.round RspPacketCodec.decode
    rw [if_pos ⟨some, by rw [CircularCharBuffer.writeBlockEmpty unusedIn.empty, unusedIn.size]; exact small⟩, done]
    rfl
  -- nothing of the packet is left, so the decoder does not wait for digits
  have rest : listen last.scan left.queued = (.leadin, []) := by
    have split := listenAppend .leadin ((outPkt payload true).take n) ((outPkt payload true).drop n)
    rw [List.take_append_drop, heard, whole, ← dropped] at split
    have first := congrArg Prod.fst split
    have second := congrArg Prod.snd split
    exact Prod.ext first.symm (by simpa using second)
  have idleLast : last.Idle ∧ left.queued = [] := by
    cases ended with
    | empty none =>
        rw [none] at rest
        refine ⟨?_, none⟩
        have start : last.scan = .leadin := congrArg Prod.fst rest
        cases state : last.decodeState with
        | init => exact .inl state
        | leadin =>
            obtain ⟨empty, plain⟩ := soundLast.leadin state
            obtain ⟨_, _, _⟩ := last
            simp_all [RspPacketCodec.Idle, resetState]
        | body => simp [RspPacketCodec.scan, state] at start
        | crc => simp [RspPacketCodec.scan, state] at start
    | waits state =>
        have crc : last.scan = .crc last.pkt none := by simp [RspPacketCodec.scan, state]
        rw [crc] at rest
        rcases shape : left.queued with _ | ⟨c0, _ | ⟨c1, later⟩⟩
        · simp [shape, listen, run] at rest
        · simp [shape, listen, run, hear] at rest
        · simp [shape, listen, run, hear] at rest
    | packet state n found' none =>
        rw [found] at found'
        cases found'
        rw [List.drop_length] at none
        exact ⟨.inl state, none⟩
  refine ⟨idleLast.1, (CircularCharBuffer.sizeEmpty validLeft).mpr ?_⟩
  rw [← CircularCharBuffer.queuedLength, idleLast.2]
  rfl

def newBuffer : CircularCharBuffer := ⟨fun _ => 0, 0, 0, rspPacketMaxLen, false⟩

theorem newBufferUnused : Unused newBuffer := ⟨⟨by decide, by decide, by decide⟩, rfl, by decide⟩

def specials : List Byte := [startChar, endChar, escapeChar, runChar, percentChar, ackChar, ctrlcChar, 0x80]

theorem roundTripSpecials :
    (escape specials true).raw = [0x24, 0x7d, 0x03, 0x7d, 0x5d, 0x7d, 0x0a, 0x7d, 0x05, 0x2b, 0x03, 0x80] ∧
      ∃ outBuffer', encode specials newBuffer true = some (outBuffer', true) ∧ outBuffer'.readable = outBuffer'.queued ∧
        ∃ p, Proxy.round ⟨resetState, newBuffer, [], []⟩ outBuffer'.readable = some p ∧ p.callbacks = [.packet specials] ∧
          p.codec.Idle ∧ p.inBuffer.isEmpty = true :=
  ⟨by decide, roundTrip (by decide) (.inr rfl) newBufferUnused newBufferUnused⟩

end RoundTrip

end Gvsoc.Rsp
