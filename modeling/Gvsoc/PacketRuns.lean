import Gvsoc.PacketCodec
import Mathlib.Data.List.Basic

/-! The bodies that `escape` writes, cut into pieces: escaped characters, single characters and runs. What a receiver makes
of a run, and which characters a body can have. -/
namespace Gvsoc.Rsp
open Bytes (Byte)

def body (payload : List Byte) (dontEncodeRuns : Bool) : List Byte := (escape payload dontEncodeRuns).raw

/- Runs as the protocol reads them: a character, `*` and `n` stand for `n - 29` further copies of it. -/
def expand : List Byte → List Byte
  | c :: x :: n :: rest =>
      if x = runChar then c :: List.replicate (n.toNat - 29) c ++ expand rest else c :: expand (x :: n :: rest)
  | few => few

def counts : List Byte → List Byte
  | _ :: x :: n :: rest => if x = runChar then n :: counts rest else counts (x :: n :: rest)
  | _ => []

def Triple : List Byte → Prop
  | a :: b :: c :: rest => needsEscape a = false ∧ a = b ∧ b = c ∨ Triple (b :: c :: rest)
  | _ => False

inductive Piece where
  | escaped (c : Byte)
  | plain (c : Byte)
  | run (c : Byte) (n : Nat)

namespace Piece

def raw : Piece → List Byte
  | escaped c => [escapeChar, c ^^^ 0x20]
  | plain c => [c]
  | run c n => [c, runChar, BitVec.ofNat 8 (n + 29)]

def data : Piece → List Byte
  | escaped c => [c]
  | plain c => [c]
  | run c n => List.replicate n c

def expanded : Piece → List Byte
  | run c n => c :: List.replicate n c
  | p => p.raw

def isRun : Piece → Bool
  | run _ _ => true
  | _ => false

def Legal : Piece → Prop
  | escaped c => needsEscape c = true
  | plain c => needsEscape c = false
  | run c n => needsEscape c = false ∧ 3 ≤ n ∧ n ≤ 97 ∧ n ≠ 6 ∧ n ≠ 7

end Piece

section Pieces

variable {pieces : List Piece} {p : Piece} {c : Byte} {n : Nat}

structure Encodes (pieces : List Piece) (data raw : List Byte) : Prop where
  data : data = pieces.flatMap Piece.data
  raw : raw = pieces.flatMap Piece.raw
  legal : ∀ p ∈ pieces, p.Legal

theorem encodesNil : Encodes [] [] [] := ⟨rfl, rfl, by simp⟩

theorem encodesOne (legal : p.Legal) : Encodes [p] p.data p.raw := ⟨by simp, by simp, by simpa using legal⟩

theorem encodesAppend {left right : List Piece} {data data' raw raw' : List Byte} (first : Encodes left data raw)
    (second : Encodes right data' raw') : Encodes (left ++ right) (data ++ data') (raw ++ raw') := by
  refine ⟨?_, ?_, fun p member => ?_⟩
  · rw [List.flatMap_append, first.data, second.data]
  · rw [List.flatMap_append, first.raw, second.raw]
  · exact (List.mem_append.mp member).elim (first.legal p) (second.legal p)

theorem putRaw (r : Raw) (l : List Byte) : (l.foldl Raw.put r).raw = r.raw ++ l := by
  induction l generalizing r with
  | nil => simp
  | cons c rest ih => simp [ih, Raw.put]

theorem encodesFew (plain : needsEscape c = false) (n : Nat) :
    Encodes (List.replicate n (.plain c)) (List.replicate n c) (List.replicate n c) := by
  induction n with
  | zero => exact encodesNil
  | succ n ih =>
      have one : Piece.Legal (.plain c) := plain
      exact encodesAppend (encodesOne one) ih

theorem runLength {n runLen : Nat} (enough : 3 ≤ n)
    (taken : runLen = if n = 6 ∨ n = 7 then 5 else if n + 29 > 126 then 126 - 29 else n) :
    3 ≤ runLen ∧ runLen ≤ n ∧ runLen ≤ 97 ∧ runLen ≠ 6 ∧ runLen ≠ 7 := by
  split_ifs at taken <;> omega

/- What `flush_seq` writes. It writes a run if, and only if, there are three characters. -/
theorem flushEncodes (plain : needsEscape c = false) (fuel n : Nat) (r : Raw) (enough : n ≤ fuel) :
    ∃ pieces raw, Encodes pieces (List.replicate n c) raw ∧ (flushSeqLoop c fuel n r).raw = r.raw ++ raw ∧
      (pieces.any Piece.isRun = true ↔ 3 ≤ n) := by
  induction fuel generalizing n r with
  | zero =>
      obtain rfl : n = 0 := by omega
      exact ⟨[], [], encodesNil, by simp [flushSeqLoop], by simp⟩
  | succ fuel ih =>
      unfold flushSeqLoop
      split
      · split
        · rename_i few
          refine ⟨_, _, encodesFew plain n, putRaw r _, ?_⟩
          simp only [List.any_replicate, Piece.isRun, Bool.false_eq_true, ite_self, false_iff]
          omega
        · rename_i some many
          generalize taken : (if n = 6 ∨ n = 7 then 5 else if n + 29 > 126 then 126 - 29 else n) = runLen
          obtain ⟨low, high, fits, hash, dollar⟩ := runLength (by omega) taken.symm
          obtain ⟨pieces, raw, encodes, written, -⟩ :=
            ih (n - runLen) ⟨((r.put c).put runChar).raw ++ [BitVec.ofNat 8 (runLen + 29)],
              ((r.put c).put runChar).crc + BitVec.ofNat 32 (runLen + 29)⟩ (by omega)
          have first : Piece.Legal (.run c runLen) := ⟨plain, low, fits, hash, dollar⟩
          have all := encodesAppend (encodesOne first) encodes
          simp only [Piece.data, List.replicate_append_replicate, show runLen + (n - runLen) = n by omega] at all
          refine ⟨_, _, all, ?_, ?_⟩
          · rw [written]
            simp [Piece.raw, Raw.put]
          · simp only [List.singleton_append, List.any_cons, Piece.isRun, Bool.true_or, true_iff]
            omega
      · rename_i none
        obtain rfl : n = 0 := by omega
        exact ⟨[], [], encodesNil, by simp, by simp⟩

theorem tripleRun {n : Nat} {c d : Byte} (plain : 0 < n → needsEscape c = false) (other : 0 < n → d ≠ c) (rest : List Byte) :
    Triple (List.replicate n c ++ d :: rest) ↔ 3 ≤ n ∨ Triple (d :: rest) := by
  match n with
  | 0 => simp
  | 1 =>
      have apart : c ≠ d := (other (by omega)).symm
      cases rest <;> simp [Triple, apart]
  | 2 =>
      have apart : c ≠ d := (other (by omega)).symm
      cases rest <;> simp [Triple, apart, List.replicate]
  | n + 3 => simp [Triple, List.replicate_succ, plain]

theorem tripleAlone {n : Nat} {c : Byte} (plain : 0 < n → needsEscape c = false) : Triple (List.replicate n c) ↔ 3 ≤ n := by
  match n with
  | 0 => simp [Triple]
  | 1 => simp [Triple]
  | 2 => simp [Triple, List.replicate]
  | n + 3 => simp [Triple, List.replicate_succ, plain]

theorem tripleEscaped (escapes : needsEscape c = true) (rest : List Byte) : Triple (c :: rest) ↔ Triple rest := by
  match rest with
  | [] => simp [Triple]
  | [_] => simp [Triple]
  | _ :: _ :: _ => simp [Triple, escapes]

theorem pendingEncodes (plain : 0 < n → needsEscape c = false) (r : Raw) :
    ∃ pieces raw, Encodes pieces (List.replicate n c) raw ∧ (if 0 < n then flushSeq c n r else r).raw = r.raw ++ raw ∧
      (pieces.any Piece.isRun = true ↔ 3 ≤ n) := by
  split
  · rename_i some
    exact flushEncodes (plain some) n n r (Nat.le_refl n)
  · rename_i none
    obtain rfl : n = 0 := by omega
    exact ⟨[], [], encodesNil, by simp, by simp⟩

theorem escapeEncodes (dontEncodeRuns : Bool) (data : List Byte) (seqC : Byte) (seqLen : Nat) (r : Raw)
    (plain : 0 < seqLen → needsEscape seqC = false) (single : dontEncodeRuns = true → seqLen = 0) :
    ∃ pieces raw, Encodes pieces (List.replicate seqLen seqC ++ data) raw ∧
      (escapeLoop dontEncodeRuns data seqC seqLen r).raw = r.raw ++ raw ∧
      (pieces.any Piece.isRun = true ↔ dontEncodeRuns = false ∧ Triple (List.replicate seqLen seqC ++ data)) := by
  induction data generalizing seqC seqLen r with
  | nil =>
      obtain ⟨pieces, raw, encodes, written, runs⟩ := pendingEncodes plain r
      refine ⟨pieces, raw, by simpa using encodes, written, ?_⟩
      rw [runs, List.append_nil, tripleAlone plain]
      cases dontEncodeRuns with
      | false => simp
      | true => simp [single rfl]
  | cons c rest ih =>
      unfold escapeLoop
      split
      · rename_i escapes
        have other : 0 < seqLen → c ≠ seqC := by
          rintro some rfl
          simp [plain some] at escapes
        obtain ⟨pieces, raw, encodes, written, runs⟩ := pendingEncodes plain r
        obtain ⟨pieces', raw', encodes', written', runs'⟩ := ih seqC 0 ⟨_, _⟩ (by simp) (fun _ => rfl)
        have one : Piece.Legal (.escaped c) := escapes
        refine ⟨_, _, encodesAppend encodes (encodesAppend (encodesOne one) encodes'), ?_, ?_⟩
        · rw [written']
          simp [written, Piece.raw]
        · rw [List.any_append, List.any_append, Bool.or_eq_true, Bool.or_eq_true, runs, runs', tripleRun plain other,
            tripleEscaped escapes]
          cases dontEncodeRuns with
          | false => simp [Piece.isRun]
          | true => simp [Piece.isRun, single rfl]
      · rename_i unescaped
        have unescaped : needsEscape c = false := by simpa using unescaped
        have one : Piece.Legal (.plain c) := unescaped
        split
        · rename_i plainly
          obtain rfl := single plainly
          obtain ⟨pieces, raw, encodes, written, runs⟩ := ih seqC 0 (r.put c) (by simp) (fun _ => rfl)
          have encodes : Encodes pieces rest raw := encodes
          have all : Encodes (.plain c :: pieces) (c :: rest) (c :: raw) := encodesAppend (encodesOne one) encodes
          refine ⟨_, _, all, ?_, ?_⟩
          · rw [written]
            simp [Raw.put]
          · rw [List.any_cons, Bool.or_eq_true, runs]
            simp [Piece.isRun, plainly]
        · rename_i encoded
          have flag : dontEncodeRuns = false := by simpa using encoded
          have first (r : Raw) := ih c 1 r (fun _ => unescaped) (fun plainly => absurd plainly encoded)
          split
          · rename_i some
            split
            · rename_i other
              obtain ⟨pieces, raw, encodes, written, runs⟩ := flushEncodes (plain some) seqLen seqLen r (Nat.le_refl _)
              obtain ⟨pieces', raw', encodes', written', runs'⟩ := first (flushSeq seqC seqLen r)
              refine ⟨_, _, encodesAppend encodes encodes', ?_, ?_⟩
              · rw [written', flushSeq, written, List.append_assoc]
              · rw [List.any_append, Bool.or_eq_true, runs, runs', tripleRun plain (fun _ => other)]
                simp [flag]
            · rename_i same
              obtain rfl : c = seqC := by simpa using same
              have grown : List.replicate (seqLen + 1) c ++ rest = List.replicate seqLen c ++ c :: rest := by
                rw [List.replicate_succ', List.append_assoc, List.singleton_append]
              rw [← grown]
              exact ih c (seqLen + 1) r (fun _ => unescaped) (fun plainly => absurd plainly encoded)
          · rename_i none
            obtain rfl : seqLen = 0 := by omega
            exact first r

theorem bodyEncodes (payload : List Byte) (dontEncodeRuns : Bool) :
    ∃ pieces, Encodes pieces payload (body payload dontEncodeRuns) ∧
      (pieces.any Piece.isRun = true ↔ dontEncodeRuns = false ∧ Triple payload) := by
  obtain ⟨pieces, raw, encodes, written, runs⟩ := escapeEncodes dontEncodeRuns payload 0 0 ⟨[], 0⟩ (by simp) (fun _ => rfl)
  have whole : body payload dontEncodeRuns = raw := by
    unfold body escape
    rw [written, List.nil_append]
  rw [whole]
  exact ⟨pieces, encodes, runs⟩

end Pieces

section Expand

variable {pieces : List Piece} {p : Piece} {c : Byte} {payload : List Byte}

theorem expandPlain {tail : List Byte} (next : tail.head? ≠ some runChar) : expand (c :: tail) = c :: expand tail := by
  match tail with
  | [] => rfl
  | [_] => rfl
  | x :: n :: rest =>
      have other : x ≠ runChar := by simpa using next
      rw [expand, if_neg other]

theorem countsPlain {tail : List Byte} (next : tail.head? ≠ some runChar) : counts (c :: tail) = counts tail := by
  match tail with
  | [] => rfl
  | [_] => rfl
  | x :: n :: rest =>
      have other : x ≠ runChar := by simpa using next
      rw [counts, if_neg other]

theorem escapedCases (escapes : needsEscape c = true) : c = endChar ∨ c = percentChar ∨ c = escapeChar ∨ c = runChar := by
  simpa [needsEscape, or_assoc] using escapes

/- Neither an escaped character nor a single one can be taken for the `*` of a run. -/
theorem escapedApart (escapes : needsEscape c = true) : (c ^^^ 0x20) ≠ runChar := by
  rcases escapedCases escapes with rfl | rfl | rfl | rfl <;> decide

theorem plainApart (plain : needsEscape c = false) : c ≠ runChar := by
  rintro rfl
  simp [needsEscape] at plain

theorem piecesHead (legal : ∀ p ∈ pieces, p.Legal) : (pieces.flatMap Piece.raw).head? ≠ some runChar := by
  cases pieces with
  | nil => simp
  | cons p rest =>
      have first := legal p (by simp)
      cases p with
      | escaped c => simp [Piece.raw, escapeChar, runChar]
      | plain c => simpa [Piece.raw] using plainApart first
      | run c n => simpa [Piece.raw] using plainApart first.1

theorem countApart {n : Nat} (legal : (Piece.run c n).Legal) :
    BitVec.ofNat 8 (n + 29) ≠ endChar ∧ BitVec.ofNat 8 (n + 29) ≠ startChar := by
  obtain ⟨-, low, fits, hash, dollar⟩ := legal
  have number : (BitVec.ofNat 8 (n + 29)).toNat = n + 29 := by
    rw [BitVec.toNat_ofNat]
    omega
  constructor
  · intro same
    rw [same, endChar] at number
    simp only [BitVec.reduceToNat] at number
    omega
  · intro same
    rw [same, startChar] at number
    simp only [BitVec.reduceToNat] at number
    omega

theorem expandPieces (legal : ∀ p ∈ pieces, p.Legal) :
    expand (pieces.flatMap Piece.raw) = pieces.flatMap Piece.expanded := by
  induction pieces with
  | nil => rfl
  | cons p rest ih =>
      have later : ∀ p ∈ rest, p.Legal := fun p member => legal p (List.mem_cons_of_mem _ member)
      have next := piecesHead later
      have first := legal p (by simp)
      rw [List.flatMap_cons, List.flatMap_cons, ← ih later]
      cases p with
      | escaped c =>
          have other := escapedApart first
          simp only [Piece.raw, Piece.expanded, List.cons_append, List.nil_append]
          rw [expandPlain (by simpa using other), expandPlain next]
      | plain c =>
          simp only [Piece.raw, Piece.expanded, List.cons_append, List.nil_append]
          rw [expandPlain next]
      | run c n =>
          obtain ⟨-, -, fits, -⟩ := first
          have number : (BitVec.ofNat 8 (n + 29)).toNat - 29 = n := by
            rw [BitVec.toNat_ofNat]
            omega
          simp only [Piece.raw, Piece.expanded, List.cons_append, List.nil_append, expand, if_true, number]

theorem countsPieces (legal : ∀ p ∈ pieces, p.Legal) :
    ∀ n ∈ counts (pieces.flatMap Piece.raw), n ≠ endChar ∧ n ≠ startChar := by
  induction pieces with
  | nil => simp [counts]
  | cons p rest ih =>
      have later : ∀ p ∈ rest, p.Legal := fun p member => legal p (List.mem_cons_of_mem _ member)
      have next := piecesHead later
      have first := legal p (by simp)
      rw [List.flatMap_cons]
      cases p with
      | escaped c =>
          have other := escapedApart first
          simp only [Piece.raw, List.cons_append, List.nil_append]
          rw [countsPlain (by simpa using other), countsPlain next]
          exact ih later
      | plain c =>
          simp only [Piece.raw, List.cons_append, List.nil_append]
          rw [countsPlain next]
          exact ih later
      | run c n =>
          simp only [Piece.raw, List.cons_append, List.nil_append, counts, if_true, List.forall_mem_cons]
          exact ⟨countApart first, ih later⟩

/- What a receiver reads in the end: of a run one character more than it was written for. -/
def Piece.received : Piece → List Byte
  | .run c n => c :: List.replicate n c
  | p => p.data

theorem deescapePlain (plain : needsEscape c = false) (rest : List Byte) :
    deescape false (c :: rest) = c :: deescape false rest := by
  have other : c ≠ escapeChar := by
    rintro rfl
    simp [needsEscape] at plain
  simp [deescape, other]

theorem deescapeRun (plain : needsEscape c = false) (n : Nat) (rest : List Byte) :
    deescape false (List.replicate n c ++ rest) = List.replicate n c ++ deescape false rest := by
  induction n with
  | zero => rfl
  | succ n ih => rw [List.replicate_succ, List.cons_append, deescapePlain plain, ih, List.cons_append]

theorem deescapePieces (legal : ∀ p ∈ pieces, p.Legal) :
    deescape false (pieces.flatMap Piece.expanded) = pieces.flatMap Piece.received := by
  induction pieces with
  | nil => rfl
  | cons p rest ih =>
      have later : ∀ p ∈ rest, p.Legal := fun p member => legal p (List.mem_cons_of_mem _ member)
      have first := legal p (by simp)
      rw [List.flatMap_cons, List.flatMap_cons, ← ih later]
      cases p with
      | escaped c => exact deescapePair c _
      | plain c => exact deescapePlain first _
      | run c n =>
          simp only [Piece.expanded, Piece.received, List.cons_append]
          rw [deescapePlain first.1, deescapeRun first.1]

theorem receivedLength (pieces : List Piece) :
    (pieces.flatMap Piece.received).length = (pieces.flatMap Piece.data).length + pieces.countP Piece.isRun := by
  induction pieces with
  | nil => rfl
  | cons p rest ih =>
      rw [List.flatMap_cons, List.flatMap_cons, List.length_append, List.length_append, ih, List.countP_cons]
      cases p with
      | escaped c => simp [Piece.received, Piece.data, Piece.isRun]; omega
      | plain c => simp [Piece.received, Piece.data, Piece.isRun]; omega
      | run c n => simp [Piece.received, Piece.data, Piece.isRun]; omega

theorem receivedWhole (none : pieces.any Piece.isRun = false) : pieces.flatMap Piece.received = pieces.flatMap Piece.data := by
  induction pieces with
  | nil => rfl
  | cons p rest ih =>
      simp only [List.any_cons, Bool.or_eq_false_iff] at none
      rw [List.flatMap_cons, List.flatMap_cons, ih none.2]
      cases p with
      | escaped c => rfl
      | plain c => rfl
      | run c n => simp [Piece.isRun] at none

/- A count is never a `#` or a `$`. The body is read back as the payload when, and only when, it has no run of three. -/
theorem runsExpand (payload : List Byte) :
    (∀ n ∈ counts (body payload false), n ≠ endChar ∧ n ≠ startChar) ∧
      (deescape false (expand (body payload false)) = payload ↔ ¬ Triple payload) := by
  obtain ⟨pieces, encodes, runs⟩ := bodyEncodes payload false
  rw [encodes.raw, expandPieces encodes.legal, deescapePieces encodes.legal]
  refine ⟨countsPieces encodes.legal, ?_⟩
  simp only [true_and] at runs
  rw [← runs, Bool.not_eq_true]
  constructor
  · intro same
    have longer := receivedLength pieces
    rw [same, ← encodes.data] at longer
    have none : pieces.countP Piece.isRun = 0 := by omega
    rw [List.any_eq_false]
    exact List.countP_eq_zero.mp none
  · intro none
    rw [receivedWhole none, ← encodes.data]

/- Three zeros are sent as `0* `, which is four. -/
theorem runTooLong :
    body [0x30, 0x30, 0x30] false = [0x30, 0x2a, 0x20] ∧
      deescape false (expand (body [0x30, 0x30, 0x30] false)) = [0x30, 0x30, 0x30, 0x30] := by decide

end Expand

section Framing

variable {pieces : List Piece} {p : Piece}

theorem pieceFraming (legal : p.Legal) : endChar ∉ p.raw ∧ (startChar ∈ p.raw ↔ startChar ∈ p.data) := by
  cases p with
  | escaped c => rcases escapedCases legal with rfl | rfl | rfl | rfl <;> decide
  | plain c =>
      have other : endChar ≠ c := by
        rintro rfl
        simp [Piece.Legal, needsEscape] at legal
      exact ⟨by simpa [Piece.raw] using other, Iff.rfl⟩
  | run c n =>
      obtain ⟨hash, dollar⟩ := countApart legal
      obtain ⟨plain, low, -⟩ := legal
      have other : endChar ≠ c := by
        rintro rfl
        simp [needsEscape] at plain
      have run : endChar ≠ runChar ∧ startChar ≠ runChar := by decide
      have some : n ≠ 0 := by omega
      simp [Piece.raw, Piece.data, other, run, hash.symm, dollar.symm, some]

/- The payload shows through: a body has no `#`, and a `$` when, and only when, the payload has one. -/
theorem bodyFraming (payload : List Byte) (dontEncodeRuns : Bool) :
    endChar ∉ body payload dontEncodeRuns ∧ (startChar ∉ body payload dontEncodeRuns ↔ startChar ∉ payload) := by
  obtain ⟨pieces, encodes, -⟩ := bodyEncodes payload dontEncodeRuns
  rw [encodes.raw]
  conv => rhs; rhs; rw [encodes.data]
  constructor
  · rw [List.mem_flatMap]
    rintro ⟨p, member, inside⟩
    exact (pieceFraming (encodes.legal p member)).1 inside
  · rw [List.mem_flatMap, List.mem_flatMap]
    exact not_congr (exists_congr fun p => and_congr_right fun member => (pieceFraming (encodes.legal p member)).2)

/- A `$` is not escaped. -/
theorem dollarSent : body [startChar] false = [startChar] ∧ body [startChar] true = [startChar] := by decide

end Framing

end Gvsoc.Rsp
