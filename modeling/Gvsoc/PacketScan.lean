import Gvsoc.PacketCodec
import Gvsoc.Transducer
import Mathlib.Tactic.DefEqTransformations

/-! The protocol as it is meant, read byte by byte, and the decoder against it. -/
namespace Gvsoc.Rsp
open Bytes (Byte)
open Circular (CircularCharBuffer)
open Transducer (run firstStop)

inductive Scan where
  | leadin
  | body (pkt : List Byte) (escaped : Bool)
  | crc (pkt : List Byte) (first : Option Byte)
  deriving DecidableEq, Repr

def judged (pkt : List Byte) (crc0 crc1 : Byte) : Callback :=
  if verifyChecksum pkt crc0 crc1 then .packet (deescape false pkt) else crcError

def hear : Scan → Byte → Scan × List Callback
  | .leadin, c =>
      if c = ctrlcChar then (.leadin, [.ctrlc]) else if c = ackChar then (.leadin, [.ack])
      else if c = startChar then (.body [] false, []) else (.leadin, [])
  | .body pkt escaped, c =>
      if escaped then (.body (pkt ++ [c]) false, [])
      else if c = escapeChar then (.body (pkt ++ [c]) true, [])
      else if c = endChar then (.crc pkt none, [])
      else (.body (pkt ++ [c]) false, [])
  | .crc pkt none, c => (.crc pkt (some c), [])
  | .crc pkt (some crc0), c => (.leadin, [judged pkt crc0 c])

def ends : Scan → Byte → Bool
  | .crc _ (some _), _ => true
  | _, _ => false

def listen : Scan → List Byte → Scan × List Callback := run hear

def firstEnd : Scan → List Byte → Option Nat := firstStop hear ends

def Scan.length : Scan → Nat
  | .leadin => 0
  | .body pkt _ => pkt.length
  | .crc pkt _ => pkt.length

def Short (s : Scan) (bytes : List Byte) : Prop := ∀ k ≤ bytes.length, (listen s (bytes.take k)).1.length ≤ rspPacketMaxLen

def Scan.Filled : Scan → Prop
  | .body pkt _ => pkt.length = rspPacketMaxLen
  | _ => False

def RspPacketCodec.scan (m : RspPacketCodec) : Scan :=
  match m.decodeState with
  | .init => .leadin
  | .leadin => .leadin
  | .body => .body m.pkt m.escaped
  | .crc => .crc m.pkt none

structure RspPacketCodec.Sound (m : RspPacketCodec) : Prop where
  leadin : m.decodeState = .leadin → m.pkt = [] ∧ m.escaped = false
  body : m.decodeState = .body → m.pkt.length < rspPacketMaxLen

section Listen

theorem listenAppend (s : Scan) (left right : List Byte) :
    listen s (left ++ right) =
      ((listen (listen s left).1 right).1, (listen s left).2 ++ (listen (listen s left).1 right).2) :=
  Transducer.runAppend hear s left right

theorem firstEndAppend {s : Scan} {left : List Byte} (passes : firstEnd s left = none) (right : List Byte) :
    firstEnd s (left ++ right) = (firstEnd (listen s left).1 right).map (· + left.length) :=
  Transducer.firstStopAppend hear ends s left right passes

theorem leadinListens (bytes : List Byte) (i : Nat) :
    i ≤ (leadinLoop bytes i).2 ∧ (leadinLoop bytes i).2 ≤ i + bytes.length ∧
      firstEnd .leadin (bytes.take ((leadinLoop bytes i).2 - i)) = none ∧
      match (leadinLoop bytes i).1 with
      | none => (leadinLoop bytes i).2 = i + bytes.length ∧ listen .leadin bytes = (.leadin, [])
      | some c => i < (leadinLoop bytes i).2 ∧ (c = ctrlcChar ∨ c = ackChar ∨ c = startChar) ∧
          listen .leadin (bytes.take ((leadinLoop bytes i).2 - i)) = hear .leadin c := by
  induction bytes generalizing i with
  | nil => simp [leadinLoop, firstEnd, firstStop, listen, run]
  | cons c rest ih =>
      simp only [leadinLoop]
      split
      · rename_i special
        refine ⟨by simp, by simp, ?_, by simp, special, ?_⟩
        · simp [firstEnd, firstStop, ends]
        · simp [listen, run]
      · rename_i plain
        have quiet : hear .leadin c = (.leadin, []) := by
          simp only [not_or] at plain
          simp [hear, plain]
        obtain ⟨low, high, passes, found⟩ := ih (i + 1)
        have cut : (leadinLoop rest (i + 1)).2 - i = ((leadinLoop rest (i + 1)).2 - (i + 1)) + 1 := by omega
        refine ⟨by omega, by simp only [List.length_cons]; omega, ?_, ?_⟩
        · rw [cut]
          simpa [firstEnd, firstStop, ends, quiet] using passes
        · split
          · rename_i none
            rw [none] at found
            refine ⟨by simp only [List.length_cons]; omega, ?_⟩
            simpa [listen, run, quiet] using found.2
          · rename_i some
            rw [some] at found
            refine ⟨by omega, found.2.1, ?_⟩
            rw [cut]
            simpa [listen, run, quiet] using found.2.2

structure Scanned (bytes pkt : List Byte) (i : Nat) (escaped : Bool) (r : Bool × Nat × Bool) : Prop where
  low : i ≤ r.2.1
  high : r.2.1 ≤ i + bytes.length
  passes : firstEnd (.body pkt escaped) (bytes.take (r.2.1 - i)) = none
  grows : listen (.body pkt escaped) (bytes.take (r.2.1 - i)) = (.body (pkt ++ bytes.take (r.2.1 - i)) r.2.2, [])
  hash : r.1 = true → r.2.2 = false ∧ bytes[r.2.1 - i]? = some endChar
  all : r.1 = false → r.2.1 = i + bytes.length

theorem scannedOver {c : Byte} {rest pkt : List Byte} {i : Nat} {escaped next : Bool} {r : Bool × Nat × Bool}
    (heard : hear (.body pkt escaped) c = (.body (pkt ++ [c]) next, []))
    (later : Scanned rest (pkt ++ [c]) (i + 1) next r) : Scanned (c :: rest) pkt i escaped r := by
  have low := later.low
  have high := later.high
  have cut : r.2.1 - i = (r.2.1 - (i + 1)) + 1 := by omega
  refine ⟨by omega, by simp only [List.length_cons]; omega, ?_, ?_, ?_, ?_⟩
  · rw [cut]
    simpa [firstEnd, firstStop, ends, heard] using later.passes
  · rw [cut]
    simpa [listen, run, heard] using later.grows
  · rw [cut]
    simpa using later.hash
  · intro none
    have all := later.all none
    simp only [List.length_cons]
    omega

theorem scanListens (bytes pkt : List Byte) (i : Nat) (escaped : Bool) :
    Scanned bytes pkt i escaped (scanForHash bytes i escaped) := by
  induction bytes generalizing pkt i escaped with
  | nil => constructor <;> simp [scanForHash, firstEnd, firstStop, listen, run]
  | cons c rest ih =>
      simp only [scanForHash]
      cases escaped with
      | true => exact scannedOver (by simp [hear]) (ih _ _ _)
      | false =>
          simp only [Bool.false_eq_true, if_false]
          split
          · rename_i starts
            exact scannedOver (by simp [hear, starts]) (ih _ _ _)
          · split
            · rename_i starts hash
              constructor <;> simp [hash, firstEnd, firstStop, listen, run]
            · rename_i starts hash
              exact scannedOver (by simp [hear, starts, hash]) (ih _ _ _)

theorem codecEnd {m : RspPacketCodec} {bytes : List Byte} {n : Nat} (found : firstEnd m.scan bytes = some n) : 2 ≤ n := by
  cases bytes with
  | nil => simp [firstEnd, firstStop] at found
  | cons c rest =>
      have going : ends m.scan c = false := by
        unfold RspPacketCodec.scan
        cases m.decodeState <;> rfl
      simp only [firstEnd, firstStop, going, Bool.false_eq_true, if_false] at found
      obtain ⟨j, later, rfl⟩ := Option.map_eq_some_iff.mp found
      exact Nat.succ_le_succ (Transducer.firstStopPositive _ _ later)

theorem listenNever (s : Scan) (bytes : List Byte) : tooMany ∉ (listen s bytes).2 := by
  induction bytes generalizing s with
  | nil => simp [listen, run]
  | cons c rest ih =>
      have never : tooMany ∉ (hear s c).2 := by
        unfold hear judged
        split
        · split_ifs <;> simp [tooMany]
        · split_ifs <;> simp
        · simp
        · split_ifs <;> simp [tooMany, crcError]
      simpa [listen, run, never] using ih (hear s c).1

theorem shortDrop {s s' : Scan} {bytes : List Byte} {k : Nat} (inside : k ≤ bytes.length)
    (read : (listen s (bytes.take k)).1 = s') (short : Short s bytes) : Short s' (bytes.drop k) := by
  intro j bound
  rw [List.length_drop] at bound
  have joined : bytes.take (k + j) = bytes.take k ++ (bytes.drop k).take j := List.take_add
  have later := short (k + j) (by omega)
  rw [joined, listenAppend, read] at later
  exact later

end Listen

/- Bytes that one call of `decode` reads as the protocol is meant, when they start at cell `head` of a ring of `cap`
cells: no block that the decoder is given ends with a full `m_pkt`, the two digits of the first checksum are not in the
last and the first cell, and what comes after it asks for no callback yet. -/
structure Clean (cap head : Nat) (s : Scan) (bytes : List Byte) : Prop where
  room : ∀ k ≤ bytes.length, k = bytes.length ∨ head + k = cap → (∀ n, firstEnd s bytes = some n → k < n) →
    ¬ (listen s (bytes.take k)).1.Filled
  digits : ∀ n, firstEnd s bytes = some n → head + n ≠ cap + 1
  rest : ∀ n, firstEnd s bytes = some n → (listen .leadin (bytes.drop n)).2 = []

section Clean

variable {cap head head' k : Nat} {s : Scan} {m : RspPacketCodec} {bytes : List Byte}

theorem cleanDrop (below : head < cap) (block : head + k ≤ cap) (inside : k ≤ bytes.length) (all : bytes.length ≤ cap)
    (passes : firstEnd s (bytes.take k) = none) (read : (listen s (bytes.take k)).1 = m.scan) (free : ¬ m.scan.Filled)
    (moved : head' = if head + k = cap then 0 else head + k) :
    Clean cap head s bytes ↔ Clean cap head' m.scan (bytes.drop k) := by
  have taken : (bytes.take k).length = k := by rw [List.length_take, Nat.min_eq_left inside]
  have split : firstEnd s bytes = (firstEnd m.scan (bytes.drop k)).map (· + k) := by
    have cut := firstEndAppend passes (bytes.drop k)
    rwa [List.take_append_drop, taken, read] at cut
  have onward (j : Nat) : (listen s (bytes.take (k + j))).1 = (listen m.scan ((bytes.drop k).take j)).1 := by
    rw [List.take_add, listenAppend, read]
  constructor
  · intro clean
    refine ⟨?_, ?_, ?_⟩
    · intro j bound edge before
      rw [List.length_drop] at bound edge
      rw [← onward]
      refine clean.room (k + j) (by omega) ?_ ?_
      · split_ifs at moved <;> omega
      · intro n found
        rw [split] at found
        obtain ⟨j', later, rfl⟩ := Option.map_eq_some_iff.mp found
        have := before j' later
        omega
    · intro n found
      have whole := clean.digits (n + k) (by rw [split, found]; rfl)
      have bound := Transducer.firstStopBound _ _ found
      rw [List.length_drop] at bound
      split_ifs at moved <;> omega
    · intro n found
      have quiet := clean.rest (n + k) (by rw [split, found]; rfl)
      rwa [List.drop_drop, Nat.add_comm k n]
  · intro clean
    refine ⟨?_, ?_, ?_⟩
    · intro j bound edge before
      obtain ⟨j, rfl⟩ : ∃ i, j = k + i := ⟨j - k, by omega⟩
      rw [onward]
      by_cases wraps : head + k = cap ∧ j = 0
      · rw [wraps.2]
        exact free
      · refine clean.room j (by rw [List.length_drop]; omega) ?_ ?_
        · rw [List.length_drop]
          split_ifs at moved <;> omega
        · intro n found
          have := before (n + k) (by rw [split, found]; rfl)
          omega
    · intro n found
      rw [split] at found
      obtain ⟨j, later, rfl⟩ := Option.map_eq_some_iff.mp found
      have whole := clean.digits j later
      have two := codecEnd later
      split_ifs at moved <;> omega
    · intro n found
      rw [split] at found
      obtain ⟨j, later, rfl⟩ := Option.map_eq_some_iff.mp found
      have quiet := clean.rest j later
      rwa [List.drop_drop, Nat.add_comm k j] at quiet

end Clean

section Decoder

def pendingCalls (m : RspPacketCodec) (b : CircularCharBuffer) : Nat :=
  2 * b.size + if m.decodeState = .init then 1 else 0

structure Reads (m : RspPacketCodec) (b : CircularCharBuffer) (k : Nat) (m' : RspPacketCodec) (b' : CircularCharBuffer)
    (called : List Callback) : Prop where
  fits : k ≤ b.readBlock.2
  buffer : b' = b.commitRead k
  sound : m'.Sound
  heard : listen m.scan (b.queued.take k) = (m'.scan, called)

inductive Ended (s : Scan) (bytes : List Byte) (m' : RspPacketCodec) (b' : CircularCharBuffer) : Prop where
  | empty (none : b'.queued = [])
  | waits (state : m'.decodeState = .crc)
  | packet (state : m'.decodeState = .init) (n : Nat) (found : firstEnd s bytes = some n) (left : b'.queued = bytes.drop n)

inductive Called (m : RspPacketCodec) (b : CircularCharBuffer) :
    Option (RspPacketCodec × CircularCharBuffer × List Callback × Bool) → Prop where
  | reads {m' b' called} (k : Nat) (read : Reads m b k m' b' called)
      (passes : firstEnd m.scan (b.queued.take k) = none) (free : ¬ m'.scan.Filled)
      (shrinks : pendingCalls m' b' < pendingCalls m b) : Called m b (some (m', b', called, true))
  | floods {m' b'} (passes : firstEnd m.scan (b.queued.take b.readBlock.2) = none)
      (filled : (listen m.scan (b.queued.take b.readBlock.2)).1.Filled) : Called m b (some (m', b', [tooMany], true))
  | stops {m' b' called} (k : Nat) (read : Reads m b k m' b' called)
      (left : Clean b.maxSize b.head m.scan b.queued ↔ (listen m'.scan b'.queued).2 = [])
      (ended : Ended m.scan b.queued m' b') :
      Called m b (some (m', b', called, false))

variable {m m' : RspPacketCodec} {b : CircularCharBuffer}

theorem commitsShrink (m' : RspPacketCodec) {k : Nat} (valid : b.Valid) (fits : k ≤ b.readBlock.2) (some : 0 < k)
    (started : m.decodeState ≠ .init) : pendingCalls m' (b.commitRead k) < pendingCalls m b := by
  have bound := CircularCharBuffer.readBlockLength valid
  unfold pendingCalls
  rw [CircularCharBuffer.commitReadSize valid fits, if_neg started]
  split <;> omega

theorem leadinCalled (valid : b.Valid) (sound : m.Sound) (state : m.decodeState = .leadin) : Called m b (m.decoder b) := by
  have scan : m.scan = .leadin := by simp [RspPacketCodec.scan, state]
  have length := CircularCharBuffer.readableLength (b := b)
  have bound := CircularCharBuffer.readBlockLength valid
  obtain ⟨low, high, passes, found⟩ := leadinListens b.readable 0
  rw [Nat.zero_add] at high
  unfold RspPacketCodec.decoder
  simp only [state]
  split
  · rename_i empty
    have none : b.queued = [] := by
      apply List.eq_nil_of_length_eq_zero
      have ends := valid.head
      rw [CircularCharBuffer.queuedLength]
      omega
    refine .stops 0 ⟨by omega, by simp [CircularCharBuffer.commitRead], sound, by simp [listen, run]⟩ ?_ (.empty none)
    rw [none, scan]
    refine ⟨fun _ => rfl, fun _ => ⟨?_, by simp [firstEnd, firstStop], by simp [firstEnd, firstStop]⟩⟩
    simp [listen, run, Scan.Filled]
  · rename_i some
    have taken := CircularCharBuffer.readableTake valid (length ▸ high)
    rw [Nat.sub_zero, taken] at passes
    split
    · rename_i plain
      rw [plain] at found
      have whole : b.readable = b.queued.take (leadinLoop b.readable 0).2 := by
        rw [← taken, List.take_of_length_le (by omega)]
      refine .reads _ ⟨length ▸ high, rfl, sound, ?_⟩ (scan ▸ passes) (by simp [scan, Scan.Filled]) ?_
      · rw [scan, ← whole]
        exact found.2
      · exact commitsShrink _ valid (length ▸ high) (by omega) (by simp [state])
    · rename_i c special
      rw [special] at found
      obtain ⟨forward, which, heard⟩ := found
      rw [Nat.sub_zero, taken] at heard
      have shrinks (m' : RspPacketCodec) := commitsShrink m' valid (length ▸ high) forward (by simp [state] : m.decodeState ≠ .init)
      rw [← scan] at heard passes
      split
      · rename_i ctrlc
        exact .reads _ ⟨length ▸ high, rfl, sound, by rw [heard, scan]; simp [hear, ctrlc]⟩ passes (by simp [scan, Scan.Filled]) (shrinks _)
      · split
        · rename_i other ack
          exact .reads _ ⟨length ▸ high, rfl, sound, by rw [heard, scan]; simp [hear, ack, ctrlcChar, ackChar]⟩ passes
            (by simp [scan, Scan.Filled]) (shrinks _)
        · rename_i other another
          have start : c = startChar := by tauto
          obtain ⟨empty, plain⟩ := sound.leadin state
          refine .reads _ ⟨length ▸ high, rfl, ⟨by simp, fun _ => by simp [empty, rspPacketMaxLen]⟩, ?_⟩ passes ?_ (shrinks _)
          · rw [heard, scan]
            simp [hear, start, ctrlcChar, ackChar, startChar, RspPacketCodec.scan, empty, plain]
          · simp [RspPacketCodec.scan, Scan.Filled, empty, rspPacketMaxLen]

theorem bodyCalled (valid : b.Valid) (sound : m.Sound) (short : Short m.scan b.queued) (state : m.decodeState = .body) :
    Called m b (m.decoder b) := by
  have scan : m.scan = .body m.pkt m.escaped := by simp [RspPacketCodec.scan, state]
  have length := CircularCharBuffer.readableLength (b := b)
  have bound := CircularCharBuffer.readBlockLength valid
  have queue := CircularCharBuffer.queuedLength (b := b)
  have free := sound.body state
  unfold RspPacketCodec.decoder
  simp only [state]
  split
  · rename_i some
    have scanned := scanListens b.readable m.pkt 0 m.escaped
    generalize scanForHash b.readable 0 m.escaped = r at scanned ⊢
    obtain ⟨hashFound, bufIdx, escaped⟩ := r
    obtain ⟨-, high, passes, grows, hash, all⟩ := scanned
    simp only [Nat.sub_zero, Nat.zero_add] at high passes grows hash all
    have fits : bufIdx ≤ b.readBlock.2 := length ▸ high
    have taken := CircularCharBuffer.readableTake valid fits
    rw [taken, ← scan] at passes grows
    have grown : (m.pkt ++ b.queued.take bufIdx).length ≤ rspPacketMaxLen := by
      have small := short bufIdx (by omega)
      rw [grows] at small
      exact small
    have inside : (b.queued.take bufIdx).length = bufIdx := by rw [List.length_take]; omega
    rw [List.length_append, inside] at grown
    dsimp only
    rw [if_neg (by omega), taken]
    cases hashFound with
    | true =>
        obtain ⟨plain, char⟩ := hash rfl
        subst plain
        obtain ⟨early, -⟩ := List.getElem?_eq_some_iff.mp char
        have fits' : bufIdx + 1 ≤ b.readBlock.2 := by omega
        have next : b.queued.take (bufIdx + 1) = b.queued.take bufIdx ++ [endChar] := by
          have taken' := CircularCharBuffer.readableTake valid fits'
          rw [← taken', ← taken, List.take_add_one, char]
          rfl
        refine .reads (bufIdx + 1) ⟨fits', rfl, ⟨by simp, by simp⟩, ?_⟩ ?_ (by simp [RspPacketCodec.scan, Scan.Filled])
          (commitsShrink _ valid fits' (by omega) (by simp [state]))
        · rw [next, listenAppend, grows]
          simp [listen, run, hear, RspPacketCodec.scan, endChar, escapeChar]
        · rw [next, firstEndAppend passes, grows]
          simp [firstEnd, firstStop, ends]
    | false =>
        have whole : bufIdx = b.readBlock.2 := by
          rw [← length]
          exact all rfl
        simp only [Bool.false_eq_true, if_false, List.length_append, inside]
        split
        · rename_i full
          subst whole
          refine .floods passes ?_
          rw [grows]
          show (m.pkt ++ b.queued.take b.readBlock.2).length = rspPacketMaxLen
          rw [List.length_append, inside]
          omega
        · rename_i open'
          refine .reads bufIdx ⟨fits, rfl, ⟨by simp, fun _ => ?_⟩, ?_⟩ passes ?_
            (commitsShrink _ valid fits (by omega) (by simp [state]))
          · simp only [List.length_append, inside]
            omega
          · rw [grows]
            simp [RspPacketCodec.scan]
          · simp only [RspPacketCodec.scan, Scan.Filled, List.length_append, inside]
            omega
  · rename_i empty
    have none : b.queued = [] := by
      apply List.eq_nil_of_length_eq_zero
      have ends := valid.head
      omega
    rw [if_neg (by omega)]
    refine .stops 0 ⟨by omega, by simp [CircularCharBuffer.commitRead], sound, by simp [listen, run]⟩ ?_ (.empty none)
    rw [none, scan]
    refine ⟨fun _ => rfl, fun _ => ⟨?_, by simp [firstEnd, firstStop], by simp [firstEnd, firstStop]⟩⟩
    simp only [List.take_nil, listen, run, Scan.Filled]
    omega

theorem crcEnds (packet : List Byte) (c0 c1 : Byte) (rest : List Byte) : firstEnd (.crc packet none) (c0 :: c1 :: rest) = some 2 := by
  simp [firstEnd, firstStop, ends, hear]

theorem crcHeard (packet : List Byte) (c0 c1 : Byte) : listen (.crc packet none) [c0, c1] = (.leadin, [judged packet c0 c1]) := by
  simp [listen, run, hear]

theorem crcShort (valid : b.Valid) (packet : List Byte) (one : b.readBlock.2 < 2) :
    Clean b.maxSize b.head (.crc packet none) b.queued ↔ (listen (.crc packet none) b.queued).2 = [] := by
  have bound := CircularCharBuffer.readBlockLength valid
  have queue := CircularCharBuffer.queuedLength (b := b)
  rcases shape : b.queued with _ | ⟨c0, _ | ⟨c1, rest⟩⟩
  · refine ⟨fun _ => rfl, fun _ => ⟨?_, by simp [firstEnd, firstStop], by simp [firstEnd, firstStop]⟩⟩
    simp [listen, run, Scan.Filled]
  · have none : firstEnd (.crc packet none) [c0] = none := by simp [firstEnd, firstStop, ends]
    refine ⟨fun _ => rfl, fun _ => ⟨?_, by simp [none], by simp [none]⟩⟩
    intro k inside _ _
    rcases k with _ | _ | k
    · simp [listen, run, Scan.Filled]
    · simp [listen, run, hear, Scan.Filled]
    · simp at inside
  · -- the first digit is in the last cell, so the block has no second one
    have straddles : b.head + 2 = b.maxSize + 1 := by
      have ends := valid.head
      rw [shape] at queue
      simp only [List.length_cons] at queue
      omega
    constructor
    · exact fun clean => (clean.digits 2 (crcEnds _ _ _ _) straddles).elim
    · intro quiet
      have loud := listenAppend (.crc packet none) [c0, c1] rest
      rw [crcHeard] at loud
      simp only [List.cons_append, List.nil_append] at loud
      rw [loud] at quiet
      simp at quiet

theorem crcCalled (valid : b.Valid) (sound : m.Sound) (state : m.decodeState = .crc) : Called m b (m.decoder b) := by
  have scan : m.scan = .crc m.pkt none := by simp [RspPacketCodec.scan, state]
  have length := CircularCharBuffer.readableLength (b := b)
  have bound := CircularCharBuffer.readBlockLength valid
  have queue := CircularCharBuffer.queuedLength (b := b)
  unfold RspPacketCodec.decoder
  simp only [state]
  split
  · rename_i crc0 crc1 later shape
    rw [shape] at length
    simp only [List.length_cons] at length
    have fits : 2 ≤ b.readBlock.2 := by omega
    have two : b.queued.take 2 = [crc0, crc1] := by
      rw [← CircularCharBuffer.readableTake valid fits, shape]
      rfl
    have whole : b.queued = crc0 :: crc1 :: b.queued.drop 2 := by
      conv_lhs => rw [← List.take_append_drop 2 b.queued, two]
      rfl
    have found : firstEnd m.scan b.queued = some 2 := by
      rw [scan, whole]
      exact crcEnds _ _ _ _
    have clean : Clean b.maxSize b.head m.scan b.queued ↔ (listen .leadin (b.queued.drop 2)).2 = [] := by
      constructor
      · exact fun clean => clean.rest 2 found
      · intro quiet
        refine ⟨?_, ?_, ?_⟩
        · intro k inside edge before
          have early := before 2 found
          omega
        · intro n found'
          rw [found] at found'
          cases found'
          omega
        · intro n found'
          rw [found] at found'
          cases found'
          exact quiet
    have next := CircularCharBuffer.commitReadQueued valid fits
    split
    · rename_i right
      refine .stops 2 ⟨fits, rfl, ⟨by simp, by simp⟩, ?_⟩ ?_ (.packet rfl 2 found next)
      · rw [two, scan, crcHeard, judged, if_pos right]
        rfl
      · rw [clean, next]
        rfl
    · rename_i wrong
      refine .stops 2 ⟨fits, rfl, ⟨by simp, by simp⟩, ?_⟩ ?_ (.packet rfl 2 found next)
      · rw [two, scan, crcHeard, judged, if_neg wrong]
        rfl
      · rw [clean, next]
        rfl
  · rename_i few
    have one : b.readBlock.2 < 2 := by
      rw [← length]
      rcases shape : b.readable with _ | ⟨c0, _ | ⟨c1, rest⟩⟩
      · simp
      · simp
      · exact (few c0 c1 rest shape).elim
    refine .stops 0 ⟨by omega, by simp [CircularCharBuffer.commitRead], sound, by simp [listen, run]⟩ ?_ (.waits state)
    rw [scan]
    exact crcShort valid m.pkt one

theorem decoderCalled (valid : b.Valid) (sound : m.Sound) (short : Short m.scan b.queued) : Called m b (m.decoder b) := by
  cases state : m.decodeState with
  | init =>
      have scan : m.scan = .leadin := by simp [RspPacketCodec.scan, state]
      have result : m.decoder b = some (resetState, b, [], true) := by simp [RspPacketCodec.decoder, state]
      rw [result]
      refine .reads 0 ⟨by omega, by simp [CircularCharBuffer.commitRead], ⟨fun _ => ⟨rfl, rfl⟩, by simp [resetState]⟩, ?_⟩ ?_ ?_ ?_
      · rw [scan]
        rfl
      · simp [firstEnd, firstStop]
      · simp [RspPacketCodec.scan, resetState, Scan.Filled]
      · simp [pendingCalls, state, resetState]
  | leadin => exact leadinCalled valid sound state
  | body => exact bodyCalled valid sound short state
  | crc => exact crcCalled valid sound state

end Decoder

section Decode

variable {m m' : RspPacketCodec} {b b' : CircularCharBuffer} {called : List Callback} {k : Nat}

theorem readsLater (valid : b.Valid) (read : Reads m b k m' b' called) :
    b'.Valid ∧ b'.maxSize = b.maxSize ∧ b'.queued = b.queued.drop k ∧
      listen m.scan b.queued = ((listen m'.scan b'.queued).1, called ++ (listen m'.scan b'.queued).2) ∧
      (Short m.scan b.queued → Short m'.scan b'.queued) := by
  obtain ⟨fits, rfl, -, heard⟩ := read
  have queued := CircularCharBuffer.commitReadQueued valid fits
  have bound := CircularCharBuffer.readBlockLength valid
  refine ⟨CircularCharBuffer.commitReadValid valid fits, CircularCharBuffer.commitReadMaxSize, queued, ?_, ?_⟩
  · have split := listenAppend m.scan (b.queued.take k) (b.queued.drop k)
    rwa [List.take_append_drop, heard, ← queued] at split
  · intro short
    rw [queued]
    exact shortDrop (by rw [CircularCharBuffer.queuedLength]; omega) (by rw [heard]) short

theorem readsClean (valid : b.Valid) (read : Reads m b k m' b' called)
    (passes : firstEnd m.scan (b.queued.take k) = none) (free : ¬ m'.scan.Filled) :
    Clean b.maxSize b.head m.scan b.queued ↔ Clean b'.maxSize b'.head m'.scan b'.queued := by
  obtain ⟨-, size, queued, -⟩ := readsLater valid read
  obtain ⟨fits, rfl, -, heard⟩ := read
  have bound := CircularCharBuffer.readBlockLength valid
  have length := CircularCharBuffer.queuedLength (b := b)
  have below := valid.head
  have all := CircularCharBuffer.sizeBound valid
  rw [size, queued]
  exact cleanDrop below (by omega) (by omega) (by omega) passes (by rw [heard]) free
    (CircularCharBuffer.commitReadHead valid fits)

theorem readsEnded {last : RspPacketCodec} {left : CircularCharBuffer} (valid : b.Valid) (read : Reads m b k m' b' called)
    (passes : firstEnd m.scan (b.queued.take k) = none) (ended : Ended m'.scan b'.queued last left) :
    Ended m.scan b.queued last left := by
  obtain ⟨-, -, queued, -⟩ := readsLater valid read
  have bound := CircularCharBuffer.readBlockLength valid
  have length := CircularCharBuffer.queuedLength (b := b)
  have fits := read.fits
  cases ended with
  | empty none => exact .empty none
  | waits state => exact .waits state
  | packet state n found rest =>
      have split := firstEndAppend passes (b.queued.drop k)
      rw [List.take_append_drop, read.heard, ← queued, found, List.length_take, Nat.min_eq_left (by omega)] at split
      refine .packet state (n + k) split ?_
      rw [rest, queued, List.drop_drop, Nat.add_comm k n]

theorem decodeLoopClean (fuel : Nat) (enough : pendingCalls m b < fuel) (valid : b.Valid) (sound : m.Sound)
    (short : Short m.scan b.queued) (clean : Clean b.maxSize b.head m.scan b.queued) :
    ∃ m' b', decodeLoop fuel m b = some (m', b', (listen m.scan b.queued).2) ∧ b'.Valid ∧ b'.maxSize = b.maxSize ∧
      m'.Sound ∧ (∃ n, b'.queued = b.queued.drop n ∧
        listen m.scan (b.queued.take n) = (m'.scan, (listen m.scan b.queued).2)) ∧ Ended m.scan b.queued m' b' := by
  induction fuel generalizing m b with
  | zero => omega
  | succ fuel ih =>
      have called := decoderCalled valid sound short
      unfold decodeLoop
      generalize m.decoder b = result at called ⊢
      cases called with
      | @reads m' b' called k read passes free shrinks =>
          obtain ⟨valid', size, queued, heard, short'⟩ := readsLater valid read
          obtain ⟨last, left, later, valid'', size', sound'', ⟨n, dropped, whole⟩, ended⟩ :=
            ih (by omega) valid' read.sound (short' short) ((readsClean valid read passes free).mp clean)
          refine ⟨last, left, ?_, valid'', size'.trans size, sound'', ⟨k + n, ?_, ?_⟩, readsEnded valid read passes ended⟩
          · simp [later, heard]
          · rw [dropped, queued, List.drop_drop]
          · rw [List.take_add, listenAppend, read.heard, ← queued, whole, heard]
      | floods passes filled =>
          have bound := CircularCharBuffer.readBlockLength valid
          have length := CircularCharBuffer.queuedLength (b := b)
          have below := valid.head
          refine absurd filled (clean.room _ (by omega) (by omega) ?_)
          intro n found
          have split := firstEndAppend passes (b.queued.drop b.readBlock.2)
          rw [List.take_append_drop, found, List.length_take] at split
          obtain ⟨j, later, rfl⟩ := Option.map_eq_some_iff.mp split.symm
          have some := Transducer.firstStopPositive _ _ later
          omega
      | @stops m' b' called k read left ended =>
          obtain ⟨valid', size, queued, heard, -⟩ := readsLater valid read
          have all : (listen m.scan b.queued).2 = called := by rw [heard, left.mp clean, List.append_nil]
          refine ⟨m', b', ?_, valid', size, read.sound, ⟨k, queued, ?_⟩, ended⟩
          · simp [all]
          · rw [read.heard, all]

theorem decodeLoopOnlyClean (fuel : Nat) (valid : b.Valid) (sound : m.Sound) (short : Short m.scan b.queued)
    (done : decodeLoop fuel m b = some (m', b', called)) (same : called = (listen m.scan b.queued).2) :
    Clean b.maxSize b.head m.scan b.queued := by
  induction fuel generalizing m b called with
  | zero => simp [decodeLoop] at done
  | succ fuel ih =>
      have call := decoderCalled valid sound short
      unfold decodeLoop at done
      generalize m.decoder b = result at call done
      cases call with
      | @reads m1 b1 now k read passes free shrinks =>
          obtain ⟨valid', -, -, heard, short'⟩ := readsLater valid read
          simp only [Option.bind_eq_bind, Option.bind_some, if_true, Option.bind_eq_some_iff, Prod.exists,
            Option.some.injEq, Prod.mk.injEq] at done
          obtain ⟨_, _, more, later, rfl, rfl, rfl⟩ := done
          rw [heard] at same
          have rest := ih valid' read.sound (short' short) later (List.append_cancel_left same)
          exact (readsClean valid read passes free).mpr rest
      | floods passes filled =>
          simp only [Option.bind_eq_bind, Option.bind_some, if_true, Option.bind_eq_some_iff, Prod.exists,
            Option.some.injEq, Prod.mk.injEq] at done
          obtain ⟨_, _, more, later, rfl, rfl, rfl⟩ := done
          refine absurd ?_ (listenNever m.scan b.queued)
          rw [← same]
          simp
      | @stops m1 b1 now k read left ended =>
          obtain ⟨-, -, -, heard, -⟩ := readsLater valid read
          simp only [Option.bind_eq_bind, Option.bind_some, Bool.false_eq_true, if_false, Option.some.injEq,
            Prod.mk.injEq] at done
          obtain ⟨rfl, rfl, rfl⟩ := done
          rw [heard] at same
          exact left.mpr (List.self_eq_append_right.mp same)

end Decode

end Gvsoc.Rsp
