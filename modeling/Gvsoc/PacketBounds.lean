import Gvsoc.PacketChunks

/-! Where the decoder copies the body of a packet to, for any stream and any reads of it. -/
namespace Gvsoc.Rsp
open Bytes (Byte)
open Circular (CircularCharBuffer)
open Machine (Run anyStep)
open Transducer (run)

/- A receiver with a limit: a body that fills `m_pkt` when a block ends is given up. -/
def endBlock : Scan → Scan × List Callback
  | .body pkt escaped => if rspPacketMaxLen ≤ pkt.length then (.leadin, [tooMany]) else (.body pkt escaped, [])
  | s => (s, [])

def hearBlock (s : Scan) (block : List Byte) : Scan × List Callback :=
  ((endBlock (listen s block).1).1, (listen s block).2 ++ (endBlock (listen s block).1).2)

def hearBlocks : Scan → List (List Byte) → Scan × List Callback := run hearBlock

/- In a block, what follows a body that fills `m_pkt` is its end. -/
def Contained : Scan → List Byte → Prop
  | .body pkt escaped, c :: rest =>
      (pkt.length = rspPacketMaxLen → escaped = false ∧ c = endChar) ∧ Contained (hear (.body pkt escaped) c).1 rest
  | _, _ => True

section Scan

variable {m m' : RspPacketCodec} {b b' : CircularCharBuffer} {pkt : List Byte} {called : List Callback} {again : Bool}

theorem containedOver {c : Byte} {rest : List Byte} {i : Nat} {escaped next : Bool} (fits : pkt.length ≤ rspPacketMaxLen)
    (heard : hear (.body pkt escaped) c = (.body (pkt ++ [c]) next, [])) (inner : ¬ (escaped = false ∧ c = endChar))
    (later : ∀ pkt : List Byte, pkt.length ≤ rspPacketMaxLen → (Contained (.body pkt next) rest ↔
      pkt.length + ((scanForHash rest (i + 1) next).2.1 - (i + 1)) ≤ rspPacketMaxLen)) :
    Contained (.body pkt escaped) (c :: rest) ↔
      pkt.length + ((scanForHash rest (i + 1) next).2.1 - i) ≤ rspPacketMaxLen := by
  have low := (scanListens rest [] (i + 1) next).low
  rw [Contained, heard]
  by_cases full : pkt.length = rspPacketMaxLen
  · exact iff_of_false (fun contained => inner (contained.1 full)) (by omega)
  · rw [later (pkt ++ [c]) (by rw [List.length_append, List.length_singleton]; omega), List.length_append,
      List.length_singleton]
    constructor
    · rintro ⟨-, room⟩
      omega
    · exact fun room => ⟨fun filled => absurd filled full, by omega⟩

theorem containedScan (bytes : List Byte) (i : Nat) (escaped : Bool) (pkt : List Byte) (fits : pkt.length ≤ rspPacketMaxLen) :
    Contained (.body pkt escaped) bytes ↔ pkt.length + ((scanForHash bytes i escaped).2.1 - i) ≤ rspPacketMaxLen := by
  induction bytes generalizing pkt i escaped with
  | nil => simpa [Contained, scanForHash] using fits
  | cons c rest ih =>
      rw [scanForHash]
      cases escaped with
      | true => exact containedOver fits (by simp [hear]) (by simp) (ih (i + 1) false)
      | false =>
          simp only [Bool.false_eq_true, if_false]
          split
          · rename_i starts
            exact containedOver fits (by simp [hear, starts]) (by simp [starts, escapeChar, endChar]) (ih (i + 1) true)
          · rename_i plain
            split
            · rename_i hash
              simp only [Nat.sub_self, Nat.add_zero, fits, iff_true]
              rw [Contained, hash]
              exact ⟨fun _ => ⟨rfl, rfl⟩, by simp [hear, endChar, escapeChar, Contained]⟩
            · rename_i hash
              exact containedOver fits (by simp [hear, plain, hash]) (by simp [hash]) (ih (i + 1) false)

theorem containedElse {s : Scan} (elsewhere : ∀ pkt escaped, s ≠ .body pkt escaped) (bytes : List Byte) : Contained s bytes := by
  cases s with
  | body pkt escaped => exact absurd rfl (elsewhere pkt escaped)
  | leadin => simp [Contained]
  | crc pkt first => simp [Contained]

theorem decoderContained (sound : m.Sound) : (m.decoder b).isSome = true ↔ Contained m.scan b.readable := by
  unfold RspPacketCodec.decoder RspPacketCodec.scan
  cases state : m.decodeState with
  | init => simp [Contained]
  | leadin =>
      simp only
      refine iff_of_true ?_ (containedElse (by simp) _)
      split
      · rfl
      · split
        · rfl
        · split_ifs <;> rfl
  | crc =>
      simp only
      refine iff_of_true ?_ (containedElse (by simp) _)
      split
      · split_ifs <;> rfl
      · rfl
  | body =>
      have free := sound.body state
      have room := containedScan b.readable 0 m.escaped m.pkt (by omega)
      have high := (scanListens b.readable [] 0 m.escaped).high
      rw [Nat.sub_zero] at room
      dsimp only
      rw [room]
      generalize scanForHash b.readable 0 m.escaped = scanned at high ⊢
      obtain ⟨hashFound, bufIdx, escaped⟩ := scanned
      dsimp only at high ⊢
      split
      · split
        · rename_i past
          simpa using past
        · rename_i inside
          refine iff_of_true ?_ (by omega)
          split_ifs <;> rfl
      · refine iff_of_true ?_ (by omega)
        split_ifs <;> rfl

theorem soundEnd (sound : m.Sound) : endBlock m.scan = (m.scan, []) := by
  unfold endBlock RspPacketCodec.scan
  cases state : m.decodeState with
  | body =>
      have free := sound.body state
      simp only
      rw [if_neg (by omega)]
  | _ => rfl

structure Hears (m : RspPacketCodec) (b : CircularCharBuffer) (k : Nat) (m' : RspPacketCodec) (b' : CircularCharBuffer)
    (called : List Callback) : Prop where
  fits : k ≤ b.readBlock.2
  buffer : b' = b.commitRead k
  sound : m'.Sound
  heard : hearBlock m.scan (b.queued.take k) = (m'.scan, called)

theorem readsHears {k : Nat} (read : Reads m b k m' b' called) : Hears m b k m' b' called := by
  obtain ⟨fits, buffer, sound, heard⟩ := read
  refine ⟨fits, buffer, sound, ?_⟩
  rw [hearBlock, heard, soundEnd sound, List.append_nil]

theorem bodyHears (valid : b.Valid) (sound : m.Sound) (state : m.decodeState = .body)
    (done : m.decoder b = some (m', b', called, again)) : ∃ k, Hears m b k m' b' called := by
  have scan : m.scan = .body m.pkt m.escaped := by simp [RspPacketCodec.scan, state]
  have length := CircularCharBuffer.readableLength (b := b)
  have free := sound.body state
  unfold RspPacketCodec.decoder at done
  simp only [state] at done
  split at done
  · have scanned := scanListens b.readable m.pkt 0 m.escaped
    generalize scanForHash b.readable 0 m.escaped = r at scanned done
    obtain ⟨hashFound, bufIdx, escaped⟩ := r
    obtain ⟨-, high, -, grows, hash, -⟩ := scanned
    simp only [Nat.sub_zero, Nat.zero_add] at high grows hash
    have fits : bufIdx ≤ b.readBlock.2 := length ▸ high
    have taken := CircularCharBuffer.readableTake valid fits
    rw [taken, ← scan] at grows
    dsimp only at done
    rw [taken] at done
    split at done
    · contradiction
    · cases hashFound with
      | true =>
          obtain ⟨plain, char⟩ := hash rfl
          obtain ⟨early, -⟩ := List.getElem?_eq_some_iff.mp char
          have next : b.queued.take (bufIdx + 1) = b.queued.take bufIdx ++ [endChar] := by
            have taken' := CircularCharBuffer.readableTake valid (show bufIdx + 1 ≤ b.readBlock.2 by omega)
            rw [← taken', ← taken, List.take_add_one, char]
            rfl
          simp only [if_true, Option.some.injEq, Prod.mk.injEq] at done
          obtain ⟨rfl, rfl, rfl, -⟩ := done
          refine ⟨bufIdx + 1, by omega, rfl, ⟨by simp, by simp⟩, ?_⟩
          subst plain
          rw [next, hearBlock, listenAppend, grows]
          simp [listen, run, hear, RspPacketCodec.scan, endChar, escapeChar, endBlock]
      | false =>
          simp only [Bool.false_eq_true, if_false] at done
          split at done
          · rename_i full
            simp only [Option.some.injEq, Prod.mk.injEq] at done
            obtain ⟨rfl, rfl, rfl, -⟩ := done
            refine ⟨bufIdx, fits, rfl, ⟨by simp, by simp⟩, ?_⟩
            rw [hearBlock, grows, endBlock, if_pos full]
            rfl
          · rename_i open'
            simp only [Option.some.injEq, Prod.mk.injEq] at done
            obtain ⟨rfl, rfl, rfl, -⟩ := done
            refine ⟨bufIdx, fits, rfl, ⟨by simp, fun _ => Nat.lt_of_not_le open'⟩, ?_⟩
            rw [hearBlock, grows, endBlock, if_neg open']
            simp [RspPacketCodec.scan]
  · rw [if_neg (by omega)] at done
    simp only [Option.some.injEq, Prod.mk.injEq] at done
    obtain ⟨rfl, rfl, rfl, -⟩ := done
    refine ⟨0, by omega, by simp [CircularCharBuffer.commitRead], sound, ?_⟩
    simp [hearBlock, listen, run, soundEnd sound]

theorem quietElse (elsewhere : m.decodeState ≠ .body) (done : m.decoder b = some (m', b', called, again)) : tooMany ∉ called := by
  unfold RspPacketCodec.decoder at done
  cases state : m.decodeState with
  | body => exact absurd state elsewhere
  | init =>
      simp only [state, Option.some.injEq, Prod.mk.injEq] at done
      obtain ⟨-, -, rfl, -⟩ := done
      simp
  | leadin =>
      simp only [state] at done
      split at done
      · cases done
        simp
      · split at done
        · cases done
          simp
        · split_ifs at done <;> cases done <;> simp [tooMany]
  | crc =>
      simp only [state] at done
      split at done
      · split_ifs at done <;> cases done <;> simp [tooMany, crcError]
      · cases done
        simp

theorem calledHears {result : Option (RspPacketCodec × CircularCharBuffer × List Callback × Bool)} (call : Called m b result)
    (quiet : tooMany ∉ called) (done : result = some (m', b', called, again)) : ∃ k, Hears m b k m' b' called := by
  cases call with
  | reads k read passes free shrinks =>
      cases done
      exact ⟨k, readsHears read⟩
  | floods passes filled =>
      cases done
      simp at quiet
  | stops k read left ended =>
      cases done
      exact ⟨k, readsHears read⟩

theorem decoderHears (valid : b.Valid) (sound : m.Sound) (done : m.decoder b = some (m', b', called, again)) :
    ∃ k, Hears m b k m' b' called := by
  cases state : m.decodeState with
  | init =>
      simp only [RspPacketCodec.decoder, state, Option.some.injEq, Prod.mk.injEq] at done
      obtain ⟨rfl, rfl, rfl, -⟩ := done
      refine ⟨0, by omega, by simp [CircularCharBuffer.commitRead], ⟨fun _ => ⟨rfl, rfl⟩, by simp [resetState]⟩, ?_⟩
      simp [RspPacketCodec.scan, state, resetState, hearBlock, listen, run, endBlock]
  | leadin => exact calledHears (leadinCalled valid sound state) (quietElse (by simp [state]) done) done
  | body => exact bodyHears valid sound state done
  | crc => exact calledHears (crcCalled valid sound state) (quietElse (by simp [state]) done) done

end Scan

section Runs

variable {p next start last : Proxy} {chunk : List Byte}

inductive Action where
  | recv (chunk : List Byte)
  | call

def Proxy.step (p : Proxy) : Action → Option Proxy
  | .recv chunk =>
      if 0 < chunk.length ∧ chunk.length ≤ p.inBuffer.writeBlock.2.2 then
        some { p with inBuffer := p.inBuffer.receive chunk, received := p.received ++ chunk }
      else none
  | .call => (p.codec.decoder p.inBuffer).map fun (codec, inBuffer, called, _) =>
      { p with codec := codec, inBuffer := inBuffer, callbacks := p.callbacks ++ called }

theorem callsRun (fuel : Nat) {codec : RspPacketCodec} {inBuffer : CircularCharBuffer} {called : List Callback}
    (done : decodeLoop fuel p.codec p.inBuffer = some (codec, inBuffer, called)) :
    ∃ trace, Run Proxy.step anyStep p trace ⟨codec, inBuffer, p.received, p.callbacks ++ called⟩ := by
  induction fuel generalizing p called with
  | zero => simp [decodeLoop] at done
  | succ fuel ih =>
      simp only [decodeLoop, Option.bind_eq_bind, Option.bind_eq_some_iff, Prod.exists] at done
      obtain ⟨m, b, now, again, first, rest⟩ := done
      have taken : p.step .call = some ⟨m, b, p.received, p.callbacks ++ now⟩ := by
        simp only [Proxy.step, first]
        rfl
      have one : Run Proxy.step anyStep p _ _ := Machine.runSingle trivial taken
      cases again with
      | false =>
          simp only [Bool.false_eq_true, if_false, Option.some.injEq, Prod.mk.injEq] at rest
          obtain ⟨rfl, rfl, rfl⟩ := rest
          exact ⟨_, one⟩
      | true =>
          simp only [if_true, Option.bind_eq_some_iff, Prod.exists, Option.some.injEq, Prod.mk.injEq] at rest
          obtain ⟨_, _, more, later, rfl, rfl, rfl⟩ := rest
          obtain ⟨trace, run⟩ := ih (p := ⟨m, b, p.received, p.callbacks ++ now⟩) later
          have all := Machine.runAppend one run
          rw [List.append_assoc] at all
          exact ⟨_, all⟩

theorem roundRun (taken : p.round chunk = some next) : ∃ trace, Run Proxy.step anyStep p trace next := by
  unfold Proxy.round at taken
  split at taken
  · rename_i fits
    obtain ⟨⟨codec, inBuffer, called⟩, done, rest⟩ := Option.bind_eq_some_iff.mp taken
    cases rest
    have first : p.step (.recv chunk) = some { p with inBuffer := p.inBuffer.receive chunk, received := p.received ++ chunk } := by
      simp only [Proxy.step, if_pos fits]
    obtain ⟨trace, run⟩ := callsRun (p := { p with inBuffer := p.inBuffer.receive chunk, received := p.received ++ chunk }) _ done
    exact ⟨_, Machine.runAppend (Machine.runSingle trivial first) run⟩
  · contradiction

/- The proxy has done with the stream what a receiver with the limit does with the blocks that it was read in. -/
structure Heeds (p : Proxy) : Prop where
  valid : p.inBuffer.Valid
  sound : p.codec.Sound
  blocks : ∃ blocks, p.received = blocks.flatten ++ p.inBuffer.queued ∧
    hearBlocks .leadin blocks = (p.codec.scan, p.callbacks)

theorem stepHeeds {a : Action} (heeds : Heeds p) (taken : p.step a = some next) : Heeds next := by
  obtain ⟨valid, sound, blocks, received, heard⟩ := heeds
  cases a with
  | recv chunk =>
      simp only [Proxy.step] at taken
      split at taken
      · rename_i fits
        cases taken
        obtain ⟨valid', queued, -⟩ := CircularCharBuffer.receiveQueued valid fits.1 fits.2
        refine ⟨valid', sound, blocks, ?_, heard⟩
        simp only
        rw [queued, received, List.append_assoc]
      · contradiction
  | call =>
      simp only [Proxy.step] at taken
      obtain ⟨⟨m, b, called, again⟩, done, rfl⟩ := Option.map_eq_some_iff.mp taken
      obtain ⟨k, fits, rfl, sound', block⟩ := decoderHears valid sound done
      refine ⟨CircularCharBuffer.commitReadValid valid fits, sound', blocks ++ [p.inBuffer.queued.take k], ?_, ?_⟩
      · simp only
        rw [CircularCharBuffer.commitReadQueued valid fits, received, List.flatten_append]
        simp
      · unfold hearBlocks at heard ⊢
        rw [Transducer.runAppend, heard]
        simp [run, block]

theorem freshHeeds (fresh : Fresh p) : Heeds p := by
  have following := freshFollowing fresh
  obtain ⟨sound, scan⟩ := idleSound fresh.idle
  obtain ⟨none, -⟩ := unusedQueued fresh.unused
  refine ⟨fresh.unused.valid, sound, [], by simp [fresh.received, none], ?_⟩
  rw [scan, fresh.callbacks]
  rfl

/- For any stream and any reads: the callbacks are those of the receiver with the limit, and the next copy stays inside
`m_pkt` when, and only when, a body that fills it is ended there by its `#` or by the end of the block. -/
theorem packetBounds (fresh : Fresh start) {trace} (run : Run Proxy.step anyStep start trace last) :
    (∃ blocks, last.received = blocks.flatten ++ last.inBuffer.queued ∧
      hearBlocks .leadin blocks = (last.codec.scan, last.callbacks)) ∧ last.codec.Sound ∧
    ((last.step .call).isSome = true ↔ Contained last.codec.scan last.inBuffer.readable) := by
  have heeds : Heeds last := Machine.runInvariant run (freshHeeds fresh) (fun _ _ _ heeds _ => stepHeeds heeds)
  refine ⟨heeds.blocks, heeds.sound, ?_⟩
  rw [← decoderContained heeds.sound, Proxy.step, Option.isSome_map]

def begun : Proxy := Machine.reach Proxy.step anyStep newProxy [.recv [0x24, 0x61], .call, .call, .recv [0x23, 0x36]]

theorem packetBoundsBegun : begun.codec.pkt = [0x61] ∧ Contained begun.codec.scan begun.inBuffer.readable := by
  obtain ⟨trace, run, -⟩ := Machine.reachRun Proxy.step anyStep newProxy [.recv [0x24, 0x61], .call, .call, .recv [0x23, 0x36]]
    (by decide +kernel)
  exact ⟨by decide +kernel, (packetBounds newProxyFresh run).2.2.mp (by decide +kernel)⟩

theorem scanFill (n i : Nat) : scanForHash (List.replicate n 0x61) i false = (false, i + n, false) := by
  induction n generalizing i with
  | zero => rfl
  | succ n ih =>
      rw [List.replicate_succ, scanForHash]
      simp only [Bool.false_eq_true, if_false]
      rw [if_neg (by decide), if_neg (by decide), ih]
      simp only [Prod.mk.injEq, true_and, and_true]
      omega

/- A stream that brings one character less than fits, and then two. -/
def almostFull : List Byte := startChar :: List.replicate (rspPacketMaxLen - 1) 0x61

theorem readableAll {b : CircularCharBuffer} (valid : b.Valid) (straight : b.head + b.size ≤ b.maxSize) : b.readable = b.queued := by
  rw [CircularCharBuffer.readableQueued valid, List.take_of_length_le]
  rw [CircularCharBuffer.queuedLength]
  omega

/- The first call reads the start, the next one all the rest, and then nothing is left. -/
theorem almostFullCalls {b : CircularCharBuffer} (valid : b.Valid) (queued : b.queued = almostFull) (head : b.head = 0)
    (size : b.maxSize = rspPacketMaxLen) (fuel : Nat) :
    ∃ left, Unused left ∧ decodeLoop (fuel + 3) resetState b =
      some (⟨.body, List.replicate (rspPacketMaxLen - 1) 0x61, false⟩, left, []) := by
  have positive : 1 < rspPacketMaxLen := by decide
  have length : almostFull.length = rspPacketMaxLen := by
    rw [almostFull, List.length_cons, List.length_replicate]
    omega
  have count := CircularCharBuffer.queuedLength (b := b)
  rw [queued, length] at count
  have bound := CircularCharBuffer.readBlockLength valid
  have block : b.readable = almostFull := (readableAll valid (by omega)).trans queued
  -- the start of the packet
  have fits1 : 1 ≤ b.readBlock.2 := by omega
  have valid1 := CircularCharBuffer.commitReadValid valid fits1
  have queued1 := CircularCharBuffer.commitReadQueued valid fits1
  have head1 := CircularCharBuffer.commitReadHead valid fits1
  have size1 := CircularCharBuffer.commitReadSize valid fits1
  have max1 := CircularCharBuffer.commitReadMaxSize (b := b) (k := 1)
  have first : resetState.decoder b = some (⟨.body, [], false⟩, b.commitRead 1, [], true) := by
    have start : leadinLoop almostFull 0 = (some startChar, 1) := rfl
    unfold RspPacketCodec.decoder
    simp only [resetState, block, start]
    rw [if_neg (by omega), if_neg (by decide), if_neg (by decide)]
  generalize b.commitRead 1 = b1 at valid1 queued1 head1 size1 max1 first
  rw [if_neg (by omega)] at head1
  rw [queued, almostFull, List.drop_one, List.tail_cons] at queued1
  -- the body, as far as it came
  have bound1 := CircularCharBuffer.readBlockLength valid1
  have block1 : b1.readable = List.replicate (rspPacketMaxLen - 1) 0x61 := (readableAll valid1 (by omega)).trans queued1
  have fits2 : rspPacketMaxLen - 1 ≤ b1.readBlock.2 := by omega
  have valid2 := CircularCharBuffer.commitReadValid valid1 fits2
  have queued2 := CircularCharBuffer.commitReadQueued valid1 fits2
  have size2 := CircularCharBuffer.commitReadSize valid1 fits2
  have max2 := CircularCharBuffer.commitReadMaxSize (b := b1) (k := rspPacketMaxLen - 1)
  have second : RspPacketCodec.decoder ⟨.body, [], false⟩ b1 =
      some (⟨.body, List.replicate (rspPacketMaxLen - 1) 0x61, false⟩, b1.commitRead (rspPacketMaxLen - 1), [], true) := by
    have scanned := scanFill (rspPacketMaxLen - 1) 0
    rw [Nat.zero_add] at scanned
    unfold RspPacketCodec.decoder
    simp only [block1, scanned, List.length_replicate, List.length_nil, List.nil_append, Nat.zero_add, List.take_replicate,
      Nat.min_self, Bool.false_eq_true, if_false]
    rw [if_pos (by omega), if_neg (by omega), if_neg (by omega)]
  generalize b1.commitRead (rspPacketMaxLen - 1) = b2 at valid2 queued2 size2 max2 second
  have zero : b2.size = 0 := by omega
  have block2 : b2.readable = [] := by
    rw [readableAll valid2 (by have below := valid2.head; omega), queued2, queued1, List.drop_replicate]
    simp
  have third : RspPacketCodec.decoder ⟨.body, List.replicate (rspPacketMaxLen - 1) 0x61, false⟩ b2 =
      some (⟨.body, List.replicate (rspPacketMaxLen - 1) 0x61, false⟩, b2, [], false) := by
    unfold RspPacketCodec.decoder
    simp only [block2, List.length_nil, List.length_replicate]
    rw [if_neg (by omega), if_neg (by omega)]
  refine ⟨b2, ⟨valid2, by omega, (CircularCharBuffer.sizeEmpty valid2).mpr zero⟩, ?_⟩
  simp only [decodeLoop, first, second, third, Option.bind_eq_bind, Option.bind_some, if_true, Bool.false_eq_true, if_false,
    List.append_nil]

theorem almostFullRound : ∃ p, newProxy.round almostFull = some p ∧ Unused p.inBuffer ∧ p.codec.decodeState = .body ∧
    p.codec.pkt = List.replicate (rspPacketMaxLen - 1) 0x61 ∧ p.codec.escaped = false := by
  have positive : 1 < rspPacketMaxLen := by decide
  have length : almostFull.length = rspPacketMaxLen := by
    rw [almostFull, List.length_cons, List.length_replicate]
    omega
  obtain ⟨valid, queued, head, size⟩ := unusedReceives newBufferUnused (s := almostFull) (by omega) (by omega)
  obtain ⟨left, unused, done⟩ := almostFullCalls valid queued head size (2 * (newBuffer.receive almostFull).size)
  refine ⟨⟨⟨.body, List.replicate (rspPacketMaxLen - 1) 0x61, false⟩, left, almostFull, []⟩, ?_, unused, rfl, rfl, rfl⟩
  have fits : 0 < almostFull.length ∧ almostFull.length ≤ newBuffer.writeBlock.2.2 := by
    have room : newBuffer.writeBlock.2.2 = rspPacketMaxLen := rfl
    omega
  show Proxy.round ⟨resetState, newBuffer, [], []⟩ almostFull = _
  unfold Proxy.round RspPacketCodec.decode
  rw [if_pos fits, done]
  rfl

/- They are copied behind the end of `m_pkt`, before anything is checked. -/
theorem copyOutside : ∃ p, newProxy.round almostFull = some p ∧ p.codec.decodeState = .body ∧
    p.codec.pkt.length = rspPacketMaxLen - 1 ∧ (p.inBuffer.receive [0x61, 0x61]).readable = [0x61, 0x61] ∧
    p.codec.decoder (p.inBuffer.receive [0x61, 0x61]) = none ∧ p.round [0x61, 0x61] = none := by
  obtain ⟨p, taken, unused, state, pkt, escaped⟩ := almostFullRound
  have positive : 2 < rspPacketMaxLen := by decide
  have length : p.codec.pkt.length = rspPacketMaxLen - 1 := by rw [pkt, List.length_replicate]
  obtain ⟨valid, queued, head, size⟩ := unusedReceives unused (s := [0x61, 0x61]) (by simp) (by simp; omega)
  have count := CircularCharBuffer.queuedLength (b := p.inBuffer.receive [0x61, 0x61])
  rw [queued] at count
  simp only [List.length_cons, List.length_nil] at count
  have block := readableAll valid (by omega)
  rw [queued] at block
  have outside : p.codec.decoder (p.inBuffer.receive [0x61, 0x61]) = none := by
    have scanned : scanForHash [0x61, 0x61] 0 false = (false, 2, false) := scanFill 2 0
    unfold RspPacketCodec.decoder
    simp only [state, block, escaped, scanned, length]
    rw [if_pos (by simp), if_pos (by omega)]
  refine ⟨p, taken, state, length, block, outside, ?_⟩
  unfold Proxy.round RspPacketCodec.decode
  split
  · rw [decodeLoop, outside]
    rfl
  · rfl

end Runs

end Gvsoc.Rsp
