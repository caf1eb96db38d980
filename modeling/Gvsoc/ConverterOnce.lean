import Gvsoc.Converter
import Gvsoc.Ledger
import Gvsoc.Tiling
import Mathlib.Data.BitVec
import Mathlib.Tactic.Ring

/-! Requests through the converter. Every request that is not answered at once has its bytes
forwarded once and then one `resp`, and the denied ones are granted in their order, as long as the
converter is free when it takes up a stalled request: a request that the requester sends from
inside a callback, and that has to be cut, would be forgotten there. -/
namespace Gvsoc.Conversion
open Io (IoStatus)
open Tiling (Tiles)
open Bytes (signedSmall)
open Ledger (Balanced)
open Machine (Run)

structure Config.Wide (c : Config) : Prop where
  positive : 0 < c.outputAlign.toNat
  window : c.outputAlign.toNat ≤ c.outputWidth.toNat
  signed : c.outputWidth.toNat < 2 ^ 31

section Split

variable {c : Config} {r : Req} {owner : Nat}

theorem iterSizeBounds (wide : c.Wide) (offset : Word) {size : Word} (some : size ≠ 0) :
    0 < (c.iterSize offset size).toNat ∧ (c.iterSize offset size).toNat ≤ size.toNat := by
  obtain ⟨positive, window, signed⟩ := wide
  have nonzero : size.toNat ≠ 0 := fun zero => some (BitVec.eq_of_toNat_eq (by simpa using zero))
  have one : (1 : BitVec 32).toNat = 1 := rfl
  have mask : c.mask.toNat = c.outputAlign.toNat - 1 := by
    have number : (c.outputAlign - 1).toNat = c.outputAlign.toNat - 1 := by
      rw [BitVec.toNat_sub_of_le (by rw [BitVec.le_def, one]; omega), one]
    unfold Config.mask
    rw [signedSmall (by omega), number]
  have place : (offset &&& c.mask).toNat ≤ c.outputAlign.toNat - 1 := by
    rw [BitVec.toNat_and, ← mask]
    exact Nat.and_le_right
  have low : ((offset &&& c.mask).setWidth 32 : BitVec 32).toNat = (offset &&& c.mask).toNat := by
    rw [BitVec.toNat_setWidth, Nat.mod_eq_of_lt (by omega)]
  have iter : (c.outputWidth - (offset &&& c.mask).setWidth 32).toNat = c.outputWidth.toNat - (offset &&& c.mask).toNat := by
    rw [BitVec.toNat_sub_of_le (by rw [BitVec.le_def]; omega), low]
  unfold Config.iterSize
  dsimp only
  generalize c.outputWidth - (offset &&& c.mask).setWidth 32 = v at *
  have number := signedSmall (v := v) (by omega)
  split
  · rename_i less
    rw [BitVec.lt_def, number] at less
    have small : (size.setWidth 32 : BitVec 32).toNat = size.toNat := by
      rw [BitVec.toNat_setWidth, Nat.mod_eq_of_lt (by omega)]
    rw [signedSmall (by omega), small]
    omega
  · rename_i more
    rw [BitVec.lt_def, number] at more
    rw [number]
    omega

theorem splitTiles (owner fuel : Nat) (wide : c.Wide) (base : Word) (enough : r.size.toNat ≤ fuel)
    (inside : (r.addr - base).toNat + r.size.toNat < 2 ^ 64) :
    ∃ pieces, c.split owner fuel r = some pieces ∧
      Tiles (fun p => (p.addr - base).toNat) (fun p => p.size.toNat) (r.addr - base).toNat pieces
        ((r.addr - base).toNat + r.size.toNat) ∧
      ∀ p ∈ pieces, p.owner = owner ∧ p.data = r.data + (p.addr - r.addr) := by
  induction fuel generalizing r with
  | zero =>
      have size : r.size = 0 := BitVec.eq_of_toNat_eq (by simpa using enough)
      refine ⟨[], by unfold Config.split; rw [if_pos size], ?_, by simp⟩
      simpa [size] using Tiles.nil _
  | succ fuel ih =>
      by_cases size : r.size = 0
      · refine ⟨[], by unfold Config.split; rw [if_pos size], ?_, by simp⟩
        simpa [size] using Tiles.nil _
      · obtain ⟨positive, most⟩ := iterSizeBounds wide r.addr size
        have rest : (r.size - c.iterSize r.addr r.size).toNat = r.size.toNat - (c.iterSize r.addr r.size).toNat :=
          BitVec.toNat_sub_of_le most
        have place : (r.addr + c.iterSize r.addr r.size - base).toNat =
            (r.addr - base).toNat + (c.iterSize r.addr r.size).toNat := by
          rw [show r.addr + c.iterSize r.addr r.size - base = (r.addr - base) + c.iterSize r.addr r.size by ring,
            BitVec.toNat_add, Nat.mod_eq_of_lt (by omega)]
        obtain ⟨later, cut, tiles, all⟩ := ih (r := ⟨r.addr + c.iterSize r.addr r.size, r.size - c.iterSize r.addr r.size,
          r.data + c.iterSize r.addr r.size⟩) (by dsimp only; omega) (by dsimp only; rw [place, rest]; omega)
        refine ⟨⟨owner, r.addr, c.iterSize r.addr r.size, r.data⟩ :: later, ?_, ?_, ?_⟩
        · unfold Config.split
          rw [if_neg size]
          simp [cut]
        · refine .cons rfl positive ?_
          dsimp only at tiles
          rw [place, rest] at tiles
          convert tiles using 1
          omega
        · intro p member
          rcases List.mem_cons.mp member with rfl | after
          · refine ⟨rfl, ?_⟩
            dsimp only
            ring
          · obtain ⟨mine, data⟩ := all p after
            refine ⟨mine, data.trans ?_⟩
            dsimp only
            ring

end Split

section Spec

def State.sent (s : State) (id : Nat) : List Piece := s.forwarded.filter (fun p => p.owner = id)

def State.granting (s : State) : List Held :=
  match s.phase with
  | .inGrant held => [held]
  | _ => []

def State.unanswered (s : State) : List Held := s.ongoingReq.toList ++ s.granting ++ s.stalledReq

def Owed (answer : IoStatus) : Prop := answer = .pending ∨ answer = .denied

def deniedIds (answers : List IoStatus) : List Nat :=
  (List.range answers.length).filter (fun id => answers[id]? = some .denied)

/- The last piece is sent first. Positions are counted from the start of the request. -/
def Covers (r : Req) (sent : List Piece) : Prop :=
  Tiles (fun p => (p.addr - r.addr).toNat) (fun p => p.size.toNat) 0 sent.reverse r.size.toNat ∧
    ∀ p ∈ sent, p.data = r.data + (p.addr - r.addr)

structure ExactlyOnce (s : State) : Prop where
  atOnce : ∀ (id : Nat) r, s.requests[id]? = some r → s.answers[id]? = some .ok →
    s.sent id = [⟨id, r.addr, r.size, r.data⟩] ∧ s.resps.count id = 0
  later : ∀ (id : Nat) r answer, s.requests[id]? = some r → s.answers[id]? = some answer → Owed answer →
    (s.resps.count id = 1 ∧ Covers r (s.sent id)) ∨
      (s.resps.count id = 0 ∧ (s.unanswered.map Held.id).count id = 1 ∧ ∃ rest, Covers r (s.sent id ++ rest))
  fifo : s.grants ++ s.stalledReq.map Held.id = deniedIds s.answers

/- The slave answers OK. A request that is cut is not empty and its size fits 32 bits, and the
converter is free when it takes up a stalled request. -/
def Orderly (c : Config) (s : State) : Action → Prop
  | .req r answer => answer = .ok ∧ (s.ongoingReq.isSome = true ∨ c.fits r = false → r.size ≠ 0 ∧ r.size.toNat < 2 ^ 32)
  | .event answer => answer = .ok
  | .respReturns => s.stalledReq ≠ [] → s.ongoingReq = none
  | .grantReturns => s.ongoingReq = none

instance (c : Config) (s : State) (a : Action) : Decidable (Orderly c s a) :=
  match a with
  | .req _ _ => inferInstanceAs (Decidable (_ ∧ (_ → _)))
  | .event _ => inferInstanceAs (Decidable (_ = _))
  | .respReturns => inferInstanceAs (Decidable (_ → _))
  | .grantReturns => inferInstanceAs (Decidable (_ = _))

end Spec

section Invariant

structure Ongoing (c : Config) (s : State) (held : Held) : Prop where
  pieces : ∃ pieces, c.pieces held = some pieces ∧ s.sent held.id ++ s.pendingReq = pieces.reverse
  some : s.pendingReq ≠ []
  size : s.ongoingSize = BitVec.ofNat 32 (s.pendingReq.map (fun p => p.size.toNat)).sum
  owner : ∀ p ∈ s.pendingReq, p.owner = held.id

structure Kept (c : Config) (s : State) : Prop where
  known : s.requests.length = s.answers.length
  balanced : Balanced Owed s.answers (s.unanswered.map Held.id ++ s.resps)
  held : ∀ h ∈ s.unanswered, s.requests[h.id]? = some h.req ∧ h.req.size ≠ 0 ∧ h.req.size.toNat < 2 ^ 32
  fifo : s.grants ++ s.stalledReq.map Held.id = deniedIds s.answers
  ongoing : ∀ h, s.ongoingReq = some h → Ongoing c s h
  free : s.ongoingReq = none → s.pendingReq = []
  event : s.pendingReq ≠ [] → s.event = true
  unsent : ∀ h ∈ s.granting ++ s.stalledReq, s.sent h.id = []
  fresh : ∀ p ∈ s.forwarded, p.owner < s.requests.length
  done : ∀ id ∈ s.resps, ∃ r, s.requests[id]? = some r ∧ Covers r (s.sent id)
  atOnce : ∀ (id : Nat) r, s.requests[id]? = some r → s.answers[id]? = some .ok → s.sent id = [⟨id, r.addr, r.size, r.data⟩]
  idle : s.phase = .idle → s.ongoingReq = none → s.stalledReq = []

variable {c : Config} {s next : State} {r : Req} {answer : IoStatus}

section Pieces

theorem piecesCover (held : Held) (wide : c.Wide) (some : held.req.size ≠ 0) :
    ∃ pieces, c.pieces held = .some pieces ∧ Covers held.req pieces.reverse ∧ pieces ≠ [] ∧
      (pieces.map (fun p => p.size.toNat)).sum = held.req.size.toNat ∧ pieces.length ≤ held.req.size.toNat ∧
      ∀ p ∈ pieces, p.owner = held.id ∧ 0 < p.size.toNat := by
  have zero : (held.req.addr - held.req.addr).toNat = 0 := by simp
  obtain ⟨pieces, cut, tiles, all⟩ := splitTiles held.id (2 ^ 64) wide held.req.addr
    (le_of_lt held.req.size.isLt) (by rw [zero, Nat.zero_add]; exact held.req.size.isLt)
  rw [zero, Nat.zero_add] at tiles
  have total := Tiling.tilesTotal tiles
  have length := Tiling.tilesLength tiles
  refine ⟨pieces, cut, ⟨by rw [List.reverse_reverse]; exact tiles, fun p member => (all p (List.mem_reverse.mp member)).2⟩,
    ?_, by omega, by omega, fun p member => ⟨(all p member).1, (Tiling.tilesBounds tiles member).2.1⟩⟩
  rintro rfl
  simp only [List.map_nil, List.sum_nil] at total
  exact some (BitVec.eq_of_toNat_eq (by simpa using total.symm))

theorem sentSnoc (s : State) (p : Piece) (id : Nat) :
    { s with forwarded := s.forwarded ++ [p] }.sent id = s.sent id ++ if p.owner = id then [p] else [] := by
  unfold State.sent
  rw [List.filter_append]
  by_cases mine : p.owner = id <;> simp [mine]

theorem sentFresh (kept : Kept c s) : s.sent s.requests.length = [] := by
  unfold State.sent
  rw [List.filter_eq_nil_iff]
  intro p member
  have := kept.fresh p member
  simpa using Nat.ne_of_lt this

theorem sentOther {p : Piece} {id : Nat} (other : p.owner ≠ id) :
    { s with forwarded := s.forwarded ++ [p] }.sent id = s.sent id := by
  rw [sentSnoc, if_neg other, List.append_nil]

end Pieces

section Answers

theorem deniedSnoc (answers : List IoStatus) (answer : IoStatus) :
    deniedIds (answers ++ [answer]) = deniedIds answers ++ if answer = .denied then [answers.length] else [] := by
  unfold deniedIds
  rw [List.length_append, List.length_singleton, List.range_succ, List.filter_append]
  congr 1
  · refine List.filter_congr (fun id member => ?_)
    rw [List.getElem?_append_left (List.mem_range.mp member)]
  · by_cases denied : answer = .denied <;> simp [denied]

theorem requestOld {id : Nat} {old : Req} (found : s.requests[id]? = some old) : (s.requests ++ [r])[id]? = some old := by
  rw [List.getElem?_append_left (List.getElem?_eq_some_iff.mp found).1]
  exact found

theorem snocCases {α : Type} {list : List α} {id : Nat} {new old : α} (found : (list ++ [new])[id]? = some old) :
    list[id]? = some old ∨ (id = list.length ∧ new = old) := by
  rcases Nat.lt_trichotomy id list.length with before | here | after
  · rw [List.getElem?_append_left before] at found
    exact .inl found
  · subst here
    exact .inr ⟨rfl, by simpa using found⟩
  · rw [List.getElem?_eq_none (by simp; omega)] at found
    contradiction

end Answers

section Req

theorem atOnceOld {id : Nat} {old : Req} (new : IoStatus) (kept : Kept c s) (other : new ≠ .ok)
    (found : (s.requests ++ [r])[id]? = some old) (ok : (s.answers ++ [new])[id]? = some .ok) :
    s.sent id = [⟨id, old.addr, old.size, old.data⟩] := by
  rcases snocCases ok with before | ⟨-, same⟩
  · rcases snocCases found with found | ⟨here, -⟩
    · exact kept.atOnce id old found before
    · have := (List.getElem?_eq_some_iff.mp before).1
      have := kept.known
      omega
  · exact absurd same other

theorem reqDenied (kept : Kept c s) (busy : s.ongoingReq.isSome = true) (some : r.size ≠ 0) (small : r.size.toNat < 2 ^ 32) :
    Kept c { s with
      requests := s.requests ++ [r]
      stalledReq := s.stalledReq ++ [⟨s.requests.length, r⟩]
      answers := s.answers ++ [.denied] } := by
  have all : ({ s with
      requests := s.requests ++ [r]
      stalledReq := s.stalledReq ++ [⟨s.requests.length, r⟩]
      answers := s.answers ++ [.denied] } : State).unanswered = s.unanswered ++ [⟨s.requests.length, r⟩] := by
    unfold State.unanswered State.granting
    simp only [List.append_assoc]
  refine ⟨by simp [kept.known], ?_, ?_, ?_, ?_, kept.free, kept.event, ?_, ?_, ?_, ?_, ?_⟩
  · rw [all, List.map_append, List.map_singleton, kept.known, List.append_assoc]
    exact Ledger.balancedPerm List.perm_middle.symm (Ledger.balancedOwed _ kept.balanced (.inr rfl))
  · rw [all]
    intro h member
    rcases List.mem_append.mp member with before | new
    · obtain ⟨found, rest⟩ := kept.held h before
      exact ⟨requestOld found, rest⟩
    · rw [List.mem_singleton.mp new]
      exact ⟨by simp, some, small⟩
  · rw [List.map_append, List.map_singleton, ← List.append_assoc, kept.fifo, deniedSnoc, kept.known]
    rfl
  · intro h same
    obtain ⟨pieces, nonempty, size, owner⟩ := kept.ongoing h same
    exact ⟨pieces, nonempty, size, owner⟩
  · intro h member
    change h ∈ s.granting ++ (s.stalledReq ++ [⟨s.requests.length, r⟩]) at member
    rw [← List.append_assoc] at member
    rcases List.mem_append.mp member with before | new
    · exact kept.unsent h before
    · rw [List.mem_singleton.mp new]
      exact sentFresh kept
  · intro p member
    have := kept.fresh p member
    simp only [List.length_append, List.length_singleton]
    omega
  · intro id member
    obtain ⟨old, found, covers⟩ := kept.done id member
    exact ⟨old, requestOld found, covers⟩
  · exact fun id old found ok => atOnceOld (s := s) (r := r) .denied kept (by simp) found ok
  · intro _ free
    rw [free] at busy
    contradiction

theorem reqAtOnce (kept : Kept c s) (free : s.ongoingReq = none) :
    Kept c { s with
      requests := s.requests ++ [r]
      forwarded := s.forwarded ++ [⟨s.requests.length, r.addr, r.size, r.data⟩]
      answers := s.answers ++ [.ok] } := by
  have unchanged : ∀ id < s.requests.length, ({ s with
      requests := s.requests ++ [r]
      forwarded := s.forwarded ++ [⟨s.requests.length, r.addr, r.size, r.data⟩]
      answers := s.answers ++ [.ok] } : State).sent id = s.sent id :=
    fun id old => sentOther (s := s) (p := ⟨s.requests.length, r.addr, r.size, r.data⟩) (Nat.ne_of_gt old)
  refine ⟨by simp [kept.known], ?_, ?_, ?_, ?_, kept.free, kept.event, ?_, ?_, ?_, ?_, kept.idle⟩
  · exact Ledger.balancedSettled kept.balanced (by simp [Owed])
  · intro h member
    obtain ⟨found, rest⟩ := kept.held h member
    exact ⟨requestOld found, rest⟩
  · rw [deniedSnoc]
    simpa using kept.fifo
  · intro h same
    exact absurd (free.symm.trans same) (by simp)
  · intro h member
    obtain ⟨found, -⟩ := kept.held h (by
      unfold State.unanswered
      rw [List.append_assoc]
      exact List.mem_append_right _ member)
    rw [unchanged h.id (List.getElem?_eq_some_iff.mp found).1]
    exact kept.unsent h member
  · intro p member
    simp only [List.length_append, List.length_singleton]
    rcases List.mem_append.mp member with before | new
    · have := kept.fresh p before
      omega
    · rw [List.mem_singleton.mp new]
      exact Nat.lt_succ_self _
  · intro id member
    obtain ⟨old, found, covers⟩ := kept.done id member
    refine ⟨old, requestOld found, ?_⟩
    rw [unchanged id (List.getElem?_eq_some_iff.mp found).1]
    exact covers
  · intro id old found ok
    rcases snocCases found with found | ⟨here, same⟩
    · have small := (List.getElem?_eq_some_iff.mp found).1
      rw [unchanged id small]
      rcases snocCases ok with ok | ⟨other, -⟩
      · exact kept.atOnce id old found ok
      · have := kept.known
        omega
    · subst here same
      have sent := sentSnoc s ⟨s.requests.length, r.addr, r.size, r.data⟩ s.requests.length
      rw [if_pos rfl, sentFresh kept, List.nil_append] at sent
      exact sent

theorem reqCut (wide : c.Wide) (kept : Kept c s) (free : s.ongoingReq = none) (some : r.size ≠ 0)
    (small : r.size.toNat < 2 ^ 32) {pieces : List Piece} (cut : c.pieces ⟨s.requests.length, r⟩ = .some pieces) :
    Kept c { s with
      requests := s.requests ++ [r]
      ongoingReq := .some ⟨s.requests.length, r⟩
      ongoingSize := r.size.setWidth 32
      pendingReq := pieces.reverse ++ s.pendingReq
      event := true
      answers := s.answers ++ [.pending] } := by
  obtain ⟨pieces', cut', -, nonempty, sum, -, owner⟩ := piecesCover ⟨s.requests.length, r⟩ wide some
  rw [cut] at cut'
  cases cut'
  have before : s.unanswered = s.granting ++ s.stalledReq := by
    unfold State.unanswered
    rw [free]
    rfl
  refine ⟨by simp [kept.known], ?_, ?_, ?_, ?_, by simp, fun _ => rfl, ?_, ?_, ?_, ?_, by simp⟩
  · have balanced := Ledger.balancedOwed .pending kept.balanced (.inl rfl)
    rw [before, ← kept.known] at balanced
    exact balanced
  · intro h member
    rcases List.mem_cons.mp member with rfl | later
    · exact ⟨by simp, some, small⟩
    · obtain ⟨found, rest⟩ := kept.held h (by rw [before]; exact later)
      exact ⟨requestOld found, rest⟩
  · rw [deniedSnoc]
    simpa using kept.fifo
  · intro h same
    cases same
    refine ⟨⟨pieces, cut, ?_⟩, ?_, ?_, ?_⟩
    · change s.sent s.requests.length ++ _ = _
      rw [sentFresh kept, kept.free free]
      simp
    · simp [nonempty]
    · rw [kept.free free, List.append_nil, List.map_reverse, List.sum_reverse, sum]
      apply BitVec.eq_of_toNat_eq
      simp
    · rw [kept.free free, List.append_nil]
      intro p member
      exact (owner p (List.mem_reverse.mp member)).1
  · exact kept.unsent
  · intro p member
    have := kept.fresh p member
    simp only [List.length_append, List.length_singleton]
    omega
  · intro id member
    obtain ⟨old, found, covers⟩ := kept.done id member
    exact ⟨old, requestOld found, covers⟩
  · exact fun id old found ok => atOnceOld (s := s) (r := r) .pending kept (by simp) found ok

end Req

section Event

theorem sumZero {pieces : List Piece} (positive : ∀ p ∈ pieces, 0 < p.size.toNat)
    (small : (pieces.map (fun p => p.size.toNat)).sum < 2 ^ 32) :
    BitVec.ofNat 32 (pieces.map (fun p => p.size.toNat)).sum = 0 ↔ pieces = [] := by
  constructor
  · intro zero
    cases pieces with
    | nil => rfl
    | cons p rest =>
        have number := congrArg BitVec.toNat zero
        rw [BitVec.toNat_ofNat, Nat.mod_eq_of_lt small] at number
        have := positive p List.mem_cons_self
        simp at number
        omega
  · rintro rfl
    rfl

theorem ongoingSizes {held : Held} (wide : c.Wide) (kept : Kept c s) (busy : s.ongoingReq = some held) :
    (∀ p ∈ s.pendingReq, 0 < p.size.toNat) ∧ (s.pendingReq.map (fun p => p.size.toNat)).sum < 2 ^ 32 := by
  obtain ⟨⟨pieces, cut, split⟩, -, -, -⟩ := kept.ongoing held busy
  obtain ⟨-, nonzero, small⟩ := kept.held held (by simp [State.unanswered, busy])
  obtain ⟨pieces', cut', -, -, sum, -, owner⟩ := piecesCover _ wide nonzero
  rw [cut] at cut'
  cases cut'
  refine ⟨fun p member => (owner p ?_).2, ?_⟩
  · rw [← List.mem_reverse, ← split]
    exact List.mem_append_right _ member
  · have total := congrArg (fun list => (list.map (fun p => p.size.toNat)).sum) split
    simp only [List.map_append, List.sum_append, List.map_reverse, List.sum_reverse, sum] at total
    omega

theorem sizeLeft (size : Word) (sum : Nat) :
    BitVec.ofNat 32 (size.toNat + sum) - size.setWidth 32 = BitVec.ofNat 32 sum := by
  apply BitVec.eq_of_toNat_eq
  simp only [BitVec.toNat_sub, BitVec.toNat_ofNat, BitVec.toNat_setWidth]
  omega

theorem sentKnown {held : Held} {p : Piece} (kept : Kept c s) (busy : s.ongoingReq = some held) (mine : p.owner = held.id) :
    ∀ q ∈ s.forwarded ++ [p], q.owner < s.requests.length := by
  intro q member
  rcases List.mem_append.mp member with before | new
  · exact kept.fresh q before
  · rw [List.mem_singleton.mp new, mine]
    exact (List.getElem?_eq_some_iff.mp (kept.held held (by simp [State.unanswered, busy])).1).1

structure Alone (s : State) (id : Nat) : Prop where
  waiting : ∀ h ∈ s.granting ++ s.stalledReq, h.id ≠ id
  answered : ∀ other ∈ s.resps, other ≠ id
  atOnce : ∀ other : Nat, s.answers[other]? = some .ok → other ≠ id

theorem ongoingAlone {held : Held} (kept : Kept c s) (busy : s.ongoingReq = some held) : Alone s held.id := by
  have first : held.id ∈ s.unanswered.map Held.id := List.mem_map_of_mem (by simp [State.unanswered, busy])
  refine ⟨?_, ?_, ?_⟩
  · intro h member same
    have once := kept.balanced.once
    unfold State.unanswered at once
    rw [busy, List.append_assoc, List.map_append, List.append_assoc] at once
    refine List.disjoint_of_nodup_append once (a := held.id) (by simp) (List.mem_append_left _ ?_)
    rw [← same]
    exact List.mem_map_of_mem member
  · intro id member same
    exact List.disjoint_of_nodup_append kept.balanced.once first (same ▸ member)
  · rintro _ ok rfl
    obtain ⟨answer, same, debt⟩ := (kept.balanced.exact held.id).mp (List.mem_append_left _ first)
    rw [ok] at same
    cases same
    simp [Owed] at debt

theorem eventMore {held : Held} {p : Piece} {rest : List Piece} (kept : Kept c s)
    (busy : s.ongoingReq = some held) (pending : s.pendingReq = p :: rest) (more : rest ≠ []) :
    Kept c { s with
      pendingReq := rest
      forwarded := s.forwarded ++ [p]
      ongoingSize := s.ongoingSize - p.size.setWidth 32
      event := true } := by
  obtain ⟨⟨pieces, cut, split⟩, -, size, owner⟩ := kept.ongoing held busy
  obtain ⟨waiting, answered, atOnce⟩ := ongoingAlone kept busy
  rw [pending] at split size owner
  have mine := owner p List.mem_cons_self
  have unchanged : ∀ id ≠ held.id, ({ s with
      pendingReq := rest
      forwarded := s.forwarded ++ [p]
      ongoingSize := s.ongoingSize - p.size.setWidth 32
      event := true } : State).sent id = s.sent id := fun id other => sentOther (by rw [mine]; exact Ne.symm other)
  refine ⟨kept.known, kept.balanced, kept.held, kept.fifo, ?_, ?_, fun _ => rfl, ?_, ?_, ?_, ?_, kept.idle⟩
  · intro h same
    rw [busy] at same
    cases same
    refine ⟨⟨pieces, cut, ?_⟩, more, ?_, fun q member => owner q (List.mem_cons_of_mem _ member)⟩
    · have sent := sentSnoc s p held.id
      rw [if_pos mine] at sent
      change ({ s with forwarded := s.forwarded ++ [p] } : State).sent held.id ++ rest = _
      rw [sent, List.append_assoc]
      exact split
    · dsimp only
      rw [size, List.map_cons, List.sum_cons]
      exact sizeLeft _ _
  · intro free
    exact absurd (busy.symm.trans free) (by simp)
  · intro h member
    rw [unchanged h.id (waiting h member)]
    exact kept.unsent h member
  · exact sentKnown kept busy mine
  · intro id member
    obtain ⟨old, found, covers⟩ := kept.done id member
    refine ⟨old, found, ?_⟩
    rw [unchanged id (answered id member)]
    exact covers
  · intro id old found ok
    rw [unchanged id (atOnce id ok)]
    exact kept.atOnce id old found ok

theorem eventLast {held : Held} {p : Piece} {left : BitVec 32} (wide : c.Wide) (kept : Kept c s) (idle : s.phase = .idle)
    (busy : s.ongoingReq = some held) (pending : s.pendingReq = [p]) :
    Kept c { s with
      pendingReq := []
      forwarded := s.forwarded ++ [p]
      ongoingSize := left
      event := false
      ongoingReq := none
      resps := s.resps ++ [held.id]
      phase := .inResp } := by
  obtain ⟨⟨pieces, cut, split⟩, -, -, owner⟩ := kept.ongoing held busy
  obtain ⟨found, nonzero, -⟩ := kept.held held (by simp [State.unanswered, busy])
  obtain ⟨waiting, answered, atOnce⟩ := ongoingAlone kept busy
  rw [pending] at split owner
  have mine := owner p List.mem_cons_self
  have nobody : s.granting = [] := by simp [State.granting, idle]
  have before : s.unanswered = held :: s.stalledReq := by simp [State.unanswered, busy, nobody]
  have sent := sentSnoc s p held.id
  rw [if_pos mine, split] at sent
  have unchanged : ∀ id ≠ held.id, ({ s with forwarded := s.forwarded ++ [p] } : State).sent id = s.sent id :=
    fun id other => sentOther (by rw [mine]; exact Ne.symm other)
  refine ⟨kept.known, ?_, ?_, kept.fifo, by simp, fun _ => rfl, by simp, ?_, ?_, ?_, ?_, by simp⟩
  · have balanced := kept.balanced
    rw [before] at balanced
    exact Ledger.balancedPaid balanced
  · intro h member
    exact kept.held h (by rw [before]; exact List.mem_cons_of_mem _ member)
  · intro h member
    have there : h ∈ s.granting ++ s.stalledReq := by
      rw [nobody]
      exact member
    exact (unchanged h.id (waiting h there)).trans (kept.unsent h there)
  · exact sentKnown kept busy mine
  · intro id member
    rcases List.mem_append.mp member with old | new
    · obtain ⟨r, known, covers⟩ := kept.done id old
      refine ⟨r, known, ?_⟩
      exact (unchanged id (answered id old)).symm ▸ covers
    · rw [List.mem_singleton.mp new]
      obtain ⟨pieces', cut', covers, -⟩ := piecesCover _ wide nonzero
      rw [cut] at cut'
      cases cut'
      exact ⟨held.req, found, sent.symm ▸ covers⟩
  · intro id old known ok
    exact (unchanged id (atOnce id ok)).trans (kept.atOnce id old known ok)

end Event

section Steps

theorem reqKept (wide : c.Wide) (kept : Kept c s) (allowed : Orderly c s (.req r answer))
    (taken : s.req c r answer = some next) : Kept c next := by
  obtain ⟨rfl, sized⟩ := allowed
  unfold State.req at taken
  dsimp only at taken
  split at taken
  · rename_i busy
    obtain ⟨nonzero, small⟩ := sized (.inl busy)
    cases taken
    exact reqDenied kept busy nonzero small
  · rename_i free
    have none : s.ongoingReq = none := by simpa using free
    split at taken
    · cases taken
      exact reqAtOnce kept none
    · rename_i across
      obtain ⟨nonzero, small⟩ := sized (.inr (by simpa using across))
      obtain ⟨middle, processed, rfl⟩ := Option.map_eq_some_iff.mp taken
      obtain ⟨pieces, cut, rfl⟩ := Option.map_eq_some_iff.mp processed
      have after := reqCut wide kept none nonzero small cut
      have nonempty := (after.ongoing _ rfl).some
      unfold State.checkState State.answered
      rw [if_pos nonempty]
      exact after

def State.toDo (s : State) : Nat :=
  4 * s.pendingReq.length + (s.stalledReq.map (fun h => 4 * h.req.size.toNat + 3)).sum +
    match s.phase with
    | .idle => 0
    | .inResp => 1
    | .inGrant held => 4 * held.req.size.toNat + 1

theorem eventKept (wide : c.Wide) (kept : Kept c s) (allowed : Orderly c s (.event answer))
    (taken : step c s (.event answer) = some next) : Kept c next ∧ next.toDo < s.toDo := by
  have ok : answer = .ok := allowed
  subst ok
  simp only [step] at taken
  split at taken
  · rename_i fires
    unfold State.eventHandler at taken
    cases pending : s.pendingReq with
    | nil => simp [pending] at taken
    | cons p rest =>
        simp only [pending, if_true] at taken
        cases busy : s.ongoingReq with
        | none =>
            have := kept.free busy
            rw [pending] at this
            contradiction
        | some held =>
            have size := (kept.ongoing held busy).size
            obtain ⟨positive, small⟩ := ongoingSizes wide kept busy
            rw [pending] at size positive small
            rw [List.map_cons, List.sum_cons] at size small
            have left : s.ongoingSize - p.size.setWidth 32 = BitVec.ofNat 32 (rest.map (fun p => p.size.toNat)).sum := by
              rw [size]
              exact sizeLeft _ _
            have finished := sumZero (fun q member => positive q (List.mem_cons_of_mem _ member)) (show _ < _ by omega)
            by_cases last : rest = []
            · subst last
              rw [if_pos (by rw [left]; exact finished.mpr rfl), busy] at taken
              cases taken
              refine ⟨eventLast wide kept fires.1 busy pending, ?_⟩
              simp only [State.toDo, pending, fires.1, List.length_nil, List.length_cons]
              omega
            · rw [if_neg (by rw [left]; exact fun zero => last (finished.mp zero))] at taken
              cases taken
              unfold State.checkState
              rw [if_pos last]
              refine ⟨eventMore kept busy pending last, ?_⟩
              simp only [State.toDo, pending, List.length_cons]
              omega
  · contradiction

theorem respReturnsKept (kept : Kept c s) (allowed : Orderly c s .respReturns)
    (taken : step c s .respReturns = some next) : Kept c next ∧ next.toDo < s.toDo := by
  simp only [step] at taken
  split at taken
  · rename_i inResp
    have nobody : s.granting = [] := by simp [State.granting, inResp]
    split at taken
    · rename_i stalled
      have quiet : ({ s with phase := .idle } : State).checkState = { s with phase := .idle } := by
        unfold State.checkState
        split
        · rename_i some
          have event := kept.event some
          rw [← event]
        · rfl
      rw [quiet] at taken
      cases taken
      have same : ({ s with phase := .idle } : State).unanswered = s.unanswered := by
        simp [State.unanswered, State.granting, inResp]
      refine ⟨⟨kept.known, ?_, ?_, kept.fifo, ?_, kept.free, kept.event, ?_, kept.fresh, kept.done, kept.atOnce, fun _ _ => stalled⟩, ?_⟩
      · rw [same]
        exact kept.balanced
      · rw [same]
        exact kept.held
      · intro h busy
        obtain ⟨pieces, some, size, owner⟩ := kept.ongoing h busy
        exact ⟨pieces, some, size, owner⟩
      · intro h member
        simp [State.granting, stalled] at member
      · simp only [State.toDo, inResp]
        omega
    · rename_i held rest stalled
      cases taken
      have free : s.ongoingReq = none := allowed (by simp [stalled])
      have before : s.unanswered = held :: rest := by simp [State.unanswered, free, nobody, stalled]
      have after : ({ s with stalledReq := rest, grants := s.grants ++ [held.id], phase := .inGrant held } : State).unanswered =
          held :: rest := by simp [State.unanswered, State.granting, free]
      refine ⟨⟨kept.known, ?_, ?_, ?_, ?_, kept.free, kept.event, ?_, kept.fresh, kept.done, kept.atOnce, by simp⟩, ?_⟩
      · rw [after, ← before]
        exact kept.balanced
      · rw [after, ← before]
        exact kept.held
      · have fifo := kept.fifo
        rw [stalled] at fifo
        simpa using fifo
      · intro h busy
        exact absurd (free.symm.trans busy) (by simp)
      · have unsent := kept.unsent
        rw [nobody, stalled] at unsent
        exact unsent
      · simp only [State.toDo, inResp, stalled, List.map_cons, List.sum_cons]
        omega
  · contradiction

theorem grantReturnsKept (wide : c.Wide) (kept : Kept c s) (allowed : Orderly c s .grantReturns)
    (taken : step c s .grantReturns = some next) : Kept c next ∧ next.toDo < s.toDo := by
  have free : s.ongoingReq = none := allowed
  simp only [step] at taken
  split at taken
  · rename_i held inGrant
    obtain ⟨middle, processed, rfl⟩ := Option.map_eq_some_iff.mp taken
    obtain ⟨pieces, cut, rfl⟩ := Option.map_eq_some_iff.mp processed
    have granting : s.granting = [held] := by simp [State.granting, inGrant]
    have before : s.unanswered = held :: s.stalledReq := by simp [State.unanswered, free, granting]
    obtain ⟨known, nonzero, small⟩ := kept.held held (by simp [before])
    obtain ⟨pieces', cut', -, nonempty, sum, length, owner⟩ := piecesCover _ wide nonzero
    rw [cut] at cut'
    cases cut'
    have empty := kept.free free
    unfold State.checkState
    rw [if_pos (by simp [nonempty])]
    have after : ({ s with
        ongoingReq := some held
        ongoingSize := held.req.size.setWidth 32
        pendingReq := pieces.reverse ++ s.pendingReq
        phase := .idle
        event := true } : State).unanswered = held :: s.stalledReq := by simp [State.unanswered, State.granting]
    refine ⟨⟨kept.known, ?_, ?_, kept.fifo, ?_, by simp, fun _ => rfl, ?_, kept.fresh, kept.done, kept.atOnce, by simp⟩, ?_⟩
    · rw [after, ← before]
      exact kept.balanced
    · rw [after, ← before]
      exact kept.held
    · intro h same
      cases same
      refine ⟨⟨pieces, cut, ?_⟩, by simp [nonempty], ?_, ?_⟩
      · change s.sent held.id ++ _ = _
        rw [kept.unsent held (by simp [granting]), empty]
        simp
      · rw [empty, List.append_nil, List.map_reverse, List.sum_reverse, sum]
        apply BitVec.eq_of_toNat_eq
        simp
      · rw [empty, List.append_nil]
        exact fun p member => (owner p (List.mem_reverse.mp member)).1
    · intro h member
      refine kept.unsent h ?_
      rw [granting]
      exact List.mem_append_right _ member
    · simp only [State.toDo, inGrant, empty, List.append_nil, List.length_reverse, List.length_nil]
      omega
  · contradiction

theorem stepKept {a : Action} (wide : c.Wide) (kept : Kept c s) (allowed : Orderly c s a)
    (taken : step c s a = some next) : Kept c next := by
  cases a with
  | req r answer => exact reqKept wide kept allowed taken
  | event answer => exact (eventKept wide kept allowed taken).1
  | respReturns => exact (respReturnsKept kept allowed taken).1
  | grantReturns => exact (grantReturnsKept wide kept allowed taken).1

end Steps

theorem exactlyOnce (wide : c.Wide) (kept : Kept c s) : ExactlyOnce s := by
  refine ⟨?_, ?_, kept.fifo⟩
  · intro id r found ok
    exact ⟨kept.atOnce id r found ok, (Ledger.balancedNever kept.balanced ok (by simp [Owed])).2⟩
  · intro id r answer found answered debt
    rcases Ledger.balancedOnce kept.balanced answered debt with ⟨waits, none⟩ | ⟨-, paid⟩
    · refine .inr ⟨none, waits, ?_⟩
      obtain ⟨h, member, rfl⟩ := List.mem_map.mp (List.count_pos_iff.mp (by rw [waits]; exact Nat.one_pos))
      obtain ⟨known, nonzero, -⟩ := kept.held h member
      rw [found] at known
      cases known
      obtain ⟨pieces, cut, covers, -⟩ := piecesCover _ wide nonzero
      unfold State.unanswered at member
      rw [List.append_assoc] at member
      rcases List.mem_append.mp member with busy | later
      · obtain ⟨⟨pieces', cut', split⟩, -⟩ := kept.ongoing h (by simpa using busy)
        rw [cut] at cut'
        cases cut'
        exact ⟨s.pendingReq, split.symm ▸ covers⟩
      · exact ⟨pieces.reverse, by rw [kept.unsent h later]; exact covers⟩
    · obtain ⟨old, known, covers⟩ := kept.done id (List.count_pos_iff.mp (by rw [paid]; exact Nat.one_pos))
      rw [found] at known
      cases known
      exact .inl ⟨paid, covers⟩

section Drain

def Drains : Action → Prop
  | .req _ _ => False
  | _ => True

theorem drainStep {a : Action} (wide : c.Wide) (kept : Kept c s) (allowed : Orderly c s a ∧ Drains a)
    (taken : step c s a = some next) : Kept c next ∧ next.toDo < s.toDo := by
  cases a with
  | req r answer => exact allowed.2.elim
  | event answer => exact eventKept wide kept allowed.1 taken
  | respReturns => exact respReturnsKept kept allowed.1 taken
  | grantReturns => exact grantReturnsKept wide kept allowed.1 taken

theorem drainRun {trace : List (Action × State)} {last : State} (wide : c.Wide) (kept : Kept c s)
    (run : Run (step c) (fun s a => Orderly c s a ∧ Drains a) s trace last) :
    Kept c last ∧ trace.length + last.toDo ≤ s.toDo := by
  induction run with
  | nil => exact ⟨kept, by simp⟩
  | snoc before allowed taken ih =>
      obtain ⟨middle, shrinks⟩ := ih
      obtain ⟨after, less⟩ := drainStep wide middle allowed taken
      refine ⟨after, ?_⟩
      rw [List.length_append, List.length_singleton]
      omega

theorem drained (wide : c.Wide) (kept : Kept c s) (stopped : ∀ a, Drains a → step c s a = none) : s.unanswered = [] := by
  have event := stopped (.event .ok) trivial
  have resp := stopped .respReturns trivial
  have grant := stopped .grantReturns trivial
  simp only [step] at event resp grant
  cases phase : s.phase with
  | inResp =>
      rw [if_pos phase] at resp
      split at resp <;> contradiction
  | inGrant held =>
      obtain ⟨-, nonzero, -⟩ := kept.held held (by simp [State.unanswered, State.granting, phase])
      obtain ⟨pieces, cut, -⟩ := piecesCover _ wide nonzero
      simp [phase, State.processPendingReq, cut] at grant
  | idle =>
      cases busy : s.ongoingReq with
      | none => simp [State.unanswered, State.granting, phase, busy, kept.idle phase busy]
      | some held =>
          have some := (kept.ongoing held busy).some
          rw [if_pos ⟨phase, kept.event some⟩] at event
          unfold State.eventHandler at event
          split at event
          · contradiction
          · dsimp only at event
            rw [if_pos rfl] at event
            split at event
            · rw [busy] at event
              contradiction
            · contradiction

end Drain

end Invariant

section Runs

variable {c : Config} {s mid : State} {trace : List (Action × State)}

def fresh : State := ⟨[], none, 0, [], false, .idle, [], [], [], [], []⟩

theorem freshKept (c : Config) : Kept c fresh := by
  refine ⟨rfl, ⟨by simp [fresh, State.unanswered, State.granting], ?_⟩, ?_, rfl, ?_, fun _ => rfl, ?_, ?_, ?_, ?_, ?_, fun _ _ => rfl⟩
  all_goals simp [fresh, State.unanswered, State.granting]

theorem convertsOnce (wide : c.Wide) (run : Run (step c) (Orderly c) fresh trace mid) :
    ExactlyOnce mid ∧ ∀ drain last, Run (step c) (fun s a => Orderly c s a ∧ Drains a) mid drain last →
      ExactlyOnce last ∧ drain.length ≤ mid.toDo ∧
      ((∀ a, Drains a → step c last a = none) → ∀ (id : Nat) r answer, last.requests[id]? = some r →
        last.answers[id]? = some answer → Owed answer → last.resps.count id = 1 ∧ Covers r (last.sent id)) := by
  have kept := Machine.runInvariant run (freshKept c) (fun _ _ _ kept allowed taken => stepKept wide kept allowed taken)
  refine ⟨exactlyOnce wide kept, fun drain last drains => ?_⟩
  obtain ⟨after, steps⟩ := drainRun wide kept drains
  refine ⟨exactlyOnce wide after, by omega, ?_⟩
  intro stopped id r answer found answered debt
  rcases (exactlyOnce wide after).later id r answer found answered debt with done | ⟨-, waits, -⟩
  · exact done
  · simp [drained wide after stopped] at waits

def fourBytes : Config := ⟨4, 4⟩

theorem fourBytesWide : fourBytes.Wide := ⟨by decide, by decide, by decide⟩

def politely : List Action :=
  [.req ⟨2, 8, 0x100⟩ .ok, .req ⟨0x20, 4, 0x200⟩ .ok, .event .ok, .event .ok, .event .ok, .req ⟨0x30, 4, 0x300⟩ .ok,
    .respReturns, .grantReturns, .event .ok]

theorem convertsOncePolitely :
    let mid := Machine.reach (step fourBytes) (Orderly fourBytes) fresh politely
    mid.answers = [.pending, .denied, .ok] ∧ mid.resps = [0, 1] ∧ mid.grants = [1] ∧
      (mid.sent 0).map (fun p => (p.addr, p.size, p.data)) = [(8, 2, 0x106), (4, 4, 0x102), (2, 2, 0x100)] ∧
      ExactlyOnce mid := by
  obtain ⟨trace, run, _⟩ := Machine.reachRun (step fourBytes) (Orderly fourBytes) fresh politely (by decide +kernel)
  exact ⟨by decide +kernel, by decide +kernel, by decide +kernel, by decide +kernel, (convertsOnce fourBytesWide run).1⟩

/- The request from inside the `resp` has to be cut while another one is stalled. -/
def rudely : List Action :=
  [.req ⟨2, 4, 0x100⟩ .ok, .req ⟨0x20, 4, 0x200⟩ .ok, .event .ok, .event .ok, .req ⟨0x32, 4, 0x300⟩ .ok, .respReturns,
    .grantReturns]

theorem requestForgotten :
    ∃ trace last, Run (step fourBytes) Machine.anyStep fresh trace last ∧ trace.map Prod.fst = rudely ∧
      last.answers = [.pending, .denied, .pending] ∧ last.resps = [0] ∧ last.unanswered.map Held.id = [1] ∧
      ¬ ExactlyOnce last := by
  obtain ⟨trace, run, labels⟩ := Machine.reachRun (step fourBytes) Machine.anyStep fresh rudely (by decide +kernel)
  refine ⟨trace, _, run, labels, by decide +kernel, by decide +kernel, by decide +kernel, ?_⟩
  intro once
  have paid := once.later 2 ⟨0x32, 4, 0x300⟩ .pending (by decide +kernel) (by decide +kernel) (.inl rfl)
  have never : (Machine.reach (step fourBytes) Machine.anyStep fresh rudely).resps.count 2 ≠ 1 ∧
      ((Machine.reach (step fourBytes) Machine.anyStep fresh rudely).unanswered.map Held.id).count 2 ≠ 1 := by decide +kernel
  rcases paid with ⟨one, -⟩ | ⟨-, one, -⟩
  · exact never.1 one
  · exact never.2 one

end Runs

end Gvsoc.Conversion
