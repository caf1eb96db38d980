import Gvsoc.ConverterOnce

/-! How the converter divides a request. Its pieces fit the width and the windows of the output if and only if the width
is the alignment, up to requests that are small enough to lie in one piece. -/
namespace Gvsoc.Conversion
open Tiling (Tiles)
open Bytes (signedSmall signedNumber maskNumber)

section Divided

variable (c : Config)

/- The pieces of a request: it goes on as it is where `process_req` forwards it; a request that was stalled is always cut. -/
def Config.produced (stalled : Bool) (held : Held) : Option (List Piece) :=
  if stalled = false ∧ c.fits held.req = true then some [⟨held.id, held.req.addr, held.req.size, held.req.data⟩]
  else c.pieces held

def Config.place (addr : Word) : Nat := addr.toNat % c.outputAlign.toNat

structure Config.Takes (p : Piece) : Prop where
  positive : 0 < p.size.toNat
  width : p.size.toNat ≤ c.outputWidth.toNat
  window : c.place p.addr + p.size.toNat ≤ c.outputAlign.toNat

structure Config.Divides (r : Req) (pieces : List Piece) : Prop where
  tiles : Tiles (fun p => (p.addr - r.addr).toNat) (fun p => p.size.toNat) 0 pieces r.size.toNat
  data : ∀ p ∈ pieces, p.data = r.data + (p.addr - r.addr)
  takes : ∀ p ∈ pieces, c.Takes p

def Config.AtOnce (r : Req) : Prop :=
  c.place r.addr + r.size.toNat ≤ c.outputAlign.toNat ∧
    (c.place r.addr + r.size.toNat ≤ c.outputWidth.toNat ∨
      c.outputWidth.toNat < c.place r.addr ∧ r.size.toNat ≤ c.outputWidth.toNat)

def Config.Divisible (stalled : Bool) (r : Req) : Prop :=
  if stalled = false ∧ c.fits r = true then r.size.toNat ≤ c.outputWidth.toNat
  else c.outputWidth = c.outputAlign ∨ c.AtOnce r

/- A width above zero and a power of two, both an `int`. -/
structure Config.Legal (k : Nat) : Prop where
  width : 0 < c.outputWidth.toInt
  align : c.outputAlign.toNat = 2 ^ k
  signed : k < 31

end Divided

section Cut

variable {c : Config} {k owner fuel : Nat} {r : Req} {pieces : List Piece} {size : Word}

theorem legalWidth (legal : c.Legal k) : 0 < c.outputWidth.toNat ∧ c.outputWidth.toNat < 2 ^ 31 := by
  have width := legal.width
  have bound := c.outputWidth.isLt
  rw [BitVec.toInt_eq_toNat_cond] at width
  split at width <;> omega

theorem alignBound (legal : c.Legal k) : 0 < c.outputAlign.toNat ∧ c.outputAlign.toNat < 2 ^ 31 := by
  rw [legal.align]
  exact ⟨Nat.two_pow_pos k, Nat.pow_lt_pow_right (by omega) legal.signed⟩

theorem legalMask (legal : c.Legal k) : c.mask = BitVec.ofNat 64 (2 ^ k - 1) := by
  obtain ⟨positive, bound⟩ := alignBound legal
  have one : (1 : BitVec 32).toNat = 1 := rfl
  have number : (c.outputAlign - 1).toNat = 2 ^ k - 1 := by
    rw [BitVec.toNat_sub_of_le (by rw [BitVec.le_def, one]; omega), one, legal.align]
  rw [legal.align] at bound
  apply BitVec.eq_of_toNat_eq
  rw [Config.mask, signedSmall (by omega), number, BitVec.toNat_ofNat, Nat.mod_eq_of_lt (by omega)]

theorem placeBound (legal : c.Legal k) (addr : Word) : c.place addr < c.outputAlign.toNat :=
  Nat.mod_lt _ (alignBound legal).1

theorem legalPlace (legal : c.Legal k) (addr : Word) :
    ((addr &&& c.mask).setWidth 32 : BitVec 32).toNat = c.place addr := by
  have bound := placeBound legal addr
  have below := (alignBound legal).2
  have mask : (2 ^ k - 1) % 2 ^ 64 = 2 ^ k - 1 := by
    rw [legal.align] at below
    exact Nat.mod_eq_of_lt (by omega)
  have masked : (addr &&& c.mask).toNat = c.place addr := by
    rw [legalMask legal, BitVec.toNat_and, BitVec.toNat_ofNat, mask, Nat.and_two_pow_sub_one_eq_mod, Config.place, legal.align]
  rw [BitVec.toNat_setWidth, masked, Nat.mod_eq_of_lt (by omega)]

theorem iterBefore (legal : c.Legal k) (addr size : Word) (before : c.place addr ≤ c.outputWidth.toNat) :
    (c.iterSize addr size).toNat = min (c.outputWidth.toNat - c.place addr) size.toNat := by
  have width := (legalWidth legal).2
  have place := legalPlace legal addr
  have iter : (c.outputWidth - (addr &&& c.mask).setWidth 32).toNat = c.outputWidth.toNat - c.place addr := by
    rw [BitVec.toNat_sub_of_le (by rw [BitVec.le_def, place]; exact before), place]
  unfold Config.iterSize
  dsimp only
  generalize c.outputWidth - (addr &&& c.mask).setWidth 32 = v at *
  have number := signedSmall (v := v) (by omega)
  split
  · rename_i less
    rw [BitVec.lt_def, number] at less
    have small : (size.setWidth 32 : BitVec 32).toNat = size.toNat := by
      rw [BitVec.toNat_setWidth, Nat.mod_eq_of_lt (by omega)]
    rw [signedSmall (by omega), small]
    omega
  · rename_i more
    rw [BitVec.lt_def, number] at more
    rw [number]
    omega

/- Behind the width the difference is a negative number, which is above every size up to the width: the piece is what an
`int` holds of the size. -/
theorem iterBehind (legal : c.Legal k) {addr : Word} (behind : c.outputWidth.toNat < c.place addr)
    (most : (c.iterSize addr size).toNat ≤ c.outputWidth.toNat) : (c.iterSize addr size).toNat = size.toNat % 2 ^ 32 := by
  have width := (legalWidth legal).2
  have place := legalPlace legal addr
  have window := placeBound legal addr
  have below := (alignBound legal).2
  have iter : (c.outputWidth - (addr &&& c.mask).setWidth 32).toNat = 2 ^ 32 - (c.place addr - c.outputWidth.toNat) := by
    rw [BitVec.toNat_sub, place]
    omega
  unfold Config.iterSize at most ⊢
  dsimp only at most ⊢
  generalize c.outputWidth - (addr &&& c.mask).setWidth 32 = v at *
  have number := signedNumber v
  split at most
  · rename_i less
    rw [if_pos less]
    have other := signedNumber (size.setWidth 32)
    rw [BitVec.toNat_setWidth] at other
    rw [other] at most ⊢
    split at most <;> split <;> omega
  · rw [number, if_pos (by omega)] at most
    omega

theorem iterBehindSmall (legal : c.Legal k) {addr : Word} (behind : c.outputWidth.toNat < c.place addr)
    (small : size.toNat ≤ c.outputWidth.toNat) : c.iterSize addr size = size := by
  have width := (legalWidth legal).2
  have place := legalPlace legal addr
  have window := placeBound legal addr
  have below := (alignBound legal).2
  have iter : (c.outputWidth - (addr &&& c.mask).setWidth 32).toNat = 2 ^ 32 - (c.place addr - c.outputWidth.toNat) := by
    rw [BitVec.toNat_sub, place]
    omega
  have number := signedNumber (c.outputWidth - (addr &&& c.mask).setWidth 32)
  rw [iter, if_pos (by omega)] at number
  have same : (size.setWidth 32 : BitVec 32).toNat = size.toNat := by
    rw [BitVec.toNat_setWidth, Nat.mod_eq_of_lt (by omega)]
  unfold Config.iterSize
  dsimp only
  rw [if_pos (by rw [BitVec.lt_def, number]; omega)]
  exact BitVec.eq_of_toNat_eq (by rw [signedSmall (by omega), same])

theorem splitFirst (filled : r.size ≠ 0) (cut : c.split owner fuel r = some pieces) :
    ∃ fuel rest, pieces = ⟨owner, r.addr, c.iterSize r.addr r.size, r.data⟩ :: rest ∧
      c.split owner fuel ⟨r.addr + c.iterSize r.addr r.size, r.size - c.iterSize r.addr r.size,
        r.data + c.iterSize r.addr r.size⟩ = some rest := by
  cases fuel with
  | zero =>
      unfold Config.split at cut
      rw [if_neg filled] at cut
      contradiction
  | succ fuel =>
      unfold Config.split at cut
      rw [if_neg filled] at cut
      obtain ⟨rest, later, same⟩ := Option.map_eq_some_iff.mp cut
      exact ⟨fuel, rest, same.symm, later⟩

theorem takesNotWidth (legal : c.Legal k) (filled : r.size ≠ 0) (at' : c.place r.addr = c.outputWidth.toNat)
    (cut : c.split owner fuel r = some pieces) (takes : ∀ p ∈ pieces, c.Takes p) : False := by
  obtain ⟨_, rest, rfl, -⟩ := splitFirst filled cut
  have first := (takes _ List.mem_cons_self).positive
  rw [iterBefore legal _ _ (Nat.le_of_eq at'), at'] at first
  omega

theorem placeAdd (addr size : Word) (legal : c.Legal k) :
    c.place (addr + size) = (c.place addr + size.toNat) % c.outputAlign.toNat := by
  have divides : c.outputAlign.toNat ∣ 2 ^ 64 := by
    rw [legal.align]
    exact pow_dvd_pow 2 (by have := legal.signed; omega)
  unfold Config.place
  rw [BitVec.toNat_add, Nat.mod_mod_of_dvd _ divides, Nat.mod_add_mod]

/- A piece that ends at the width, inside the window, is followed by nothing. -/
theorem takesToWidth (legal : c.Legal k) (inside : c.outputWidth.toNat < c.outputAlign.toNat)
    (before : c.place r.addr < c.outputWidth.toNat) (cut : c.split owner fuel r = some pieces)
    (takes : ∀ p ∈ pieces, c.Takes p) : c.place r.addr + r.size.toNat ≤ c.outputWidth.toNat := by
  by_contra past
  have positive : r.size ≠ 0 := by
    intro zero
    exact past (by simp only [zero, BitVec.ofNat_eq_ofNat, BitVec.toNat_ofNat, Nat.zero_mod]; omega)
  obtain ⟨_, rest, rfl, later⟩ := splitFirst positive cut
  have iter := iterBefore legal r.addr r.size (Nat.le_of_lt before)
  rw [Nat.min_eq_left (by omega)] at iter
  refine takesNotWidth legal ?_ ?_ later fun p member => takes p (List.mem_cons_of_mem _ member)
  · intro zero
    have left := BitVec.toNat_sub_of_le (show c.iterSize r.addr r.size ≤ r.size by rw [BitVec.le_def]; omega)
    dsimp only at zero
    rw [zero, iter] at left
    simp only [BitVec.ofNat_eq_ofNat, BitVec.toNat_ofNat, Nat.zero_mod] at left
    omega
  · dsimp only
    rw [placeAdd _ _ legal, iter, Nat.mod_eq_of_lt (by omega)]
    omega

theorem takesBehind (legal : c.Legal k) (filled : r.size ≠ 0) (behind : c.outputWidth.toNat < c.place r.addr)
    (cut : c.split owner fuel r = some pieces) (takes : ∀ p ∈ pieces, c.Takes p) :
    c.place r.addr + r.size.toNat ≤ c.outputAlign.toNat ∧ r.size.toNat ≤ c.outputWidth.toNat := by
  have nonzero : r.size.toNat ≠ 0 := fun zero => filled (BitVec.eq_of_toNat_eq (by simpa using zero))
  have window := placeBound legal r.addr
  have width := (legalWidth legal).2
  have size := r.size.isLt
  obtain ⟨_, rest, rfl, later⟩ := splitFirst filled cut
  obtain ⟨positive, most, ends⟩ := takes _ List.mem_cons_self
  dsimp only at positive most ends
  have iter := iterBehind legal behind most
  rw [iter] at positive most ends
  by_cases whole : r.size.toNat < 2 ^ 32
  · rw [Nat.mod_eq_of_lt whole] at most ends
    exact ⟨ends, most⟩
  · exfalso
    have left : (r.size - c.iterSize r.addr r.size).toNat = r.size.toNat - r.size.toNat % 2 ^ 32 := by
      rw [BitVec.toNat_sub_of_le (by rw [BitVec.le_def]; omega), iter]
    have more : r.size - c.iterSize r.addr r.size ≠ 0 := by
      intro zero
      rw [zero] at left
      simp only [BitVec.ofNat_eq_ofNat, BitVec.toNat_ofNat, Nat.zero_mod] at left
      omega
    have fits : ∀ p ∈ rest, c.Takes p := fun p member => takes p (List.mem_cons_of_mem _ member)
    have next := placeAdd r.addr (c.iterSize r.addr r.size) legal
    rw [iter] at next
    rcases Nat.lt_or_ge (c.place r.addr + r.size.toNat % 2 ^ 32) c.outputAlign.toNat with inside | border
    · -- the rest is a multiple of 2 ^ 32: an `int` holds nothing of it
      rw [Nat.mod_eq_of_lt inside] at next
      obtain ⟨_, tail, same, -⟩ := splitFirst more later
      obtain ⟨again, most', -⟩ := fits _ (by rw [same]; exact List.mem_cons_self)
      dsimp only at again most'
      rw [iterBehind legal (by omega) most', left] at again
      omega
    · -- the rest starts a window, and is cut at the width
      have full : c.place r.addr + r.size.toNat % 2 ^ 32 = c.outputAlign.toNat := by omega
      rw [full, Nat.mod_self] at next
      have stops := takesToWidth legal (by omega) (by dsimp only; omega) later fits
      dsimp only at stops
      omega

/- Where the output can take all pieces of a cut, the width is the alignment or there is one piece. -/
theorem takesCut (legal : c.Legal k) (filled : r.size ≠ 0) (cut : c.split owner fuel r = some pieces)
    (takes : ∀ p ∈ pieces, c.Takes p) : c.outputWidth = c.outputAlign ∨ c.AtOnce r := by
  by_cases same : c.outputWidth = c.outputAlign
  · exact .inl same
  · right
    have apart : c.outputWidth.toNat ≠ c.outputAlign.toNat := fun equal => same (BitVec.eq_of_toNat_eq equal)
    have window := placeBound legal r.addr
    rcases Nat.lt_trichotomy (c.place r.addr) c.outputWidth.toNat with before | at' | behind
    · obtain ⟨_, rest, shape, -⟩ := splitFirst filled cut
      obtain ⟨-, -, ends⟩ := takes _ (by rw [shape]; exact List.mem_cons_self)
      dsimp only at ends
      rw [iterBefore legal _ _ (Nat.le_of_lt before)] at ends
      rcases Nat.lt_or_ge c.outputWidth.toNat c.outputAlign.toNat with narrow | wide
      · have stops := takesToWidth legal narrow before cut takes
        exact ⟨by omega, .inl stops⟩
      · exact ⟨by omega, .inl (by omega)⟩
    · exact (takesNotWidth legal filled at' cut takes).elim
    · obtain ⟨ends, most⟩ := takesBehind legal filled behind cut takes
      exact ⟨ends, .inr ⟨behind, most⟩⟩

theorem cutTakes (legal : c.Legal k) (same : c.outputWidth = c.outputAlign) (cut : c.split owner fuel r = some pieces) :
    ∀ p ∈ pieces, c.Takes p := by
  induction fuel generalizing r pieces with
  | zero =>
      unfold Config.split at cut
      split at cut
      · cases cut
        simp
      · contradiction
  | succ fuel ih =>
      unfold Config.split at cut
      split at cut
      · cases cut
        simp
      · rename_i filled
        have nonzero : r.size.toNat ≠ 0 := fun zero => filled (BitVec.eq_of_toNat_eq (by simpa using zero))
        have window := placeBound legal r.addr
        have iter := iterBefore legal r.addr r.size (by rw [same]; omega)
        obtain ⟨rest, later, rfl⟩ := Option.map_eq_some_iff.mp cut
        intro p member
        rcases List.mem_cons.mp member with rfl | after
        · refine ⟨?_, ?_, ?_⟩
          · dsimp only
            rw [iter, same]
            omega
          · dsimp only
            omega
          · dsimp only
            rw [iter, same]
            omega
        · exact ih later p after

theorem atOnceCut (legal : c.Legal k) (filled : r.size ≠ 0) (atOnce : c.AtOnce r) :
    c.split owner (fuel + 1) r = some [⟨owner, r.addr, r.size, r.data⟩] := by
  have whole : c.iterSize r.addr r.size = r.size := by
    rcases atOnce.2 with before | ⟨behind, small⟩
    · have iter := iterBefore legal r.addr r.size (by omega)
      exact BitVec.eq_of_toNat_eq (by rw [iter]; omega)
    · exact iterBehindSmall legal behind small
  have rest : c.split owner fuel ⟨r.addr + r.size, r.size - r.size, r.data + r.size⟩ = some [] := by
    unfold Config.split
    rw [if_pos (sub_self _)]
  unfold Config.split
  rw [if_neg filled]
  dsimp only
  rw [whole, rest]
  rfl

theorem wholeDivides (filled : r.size ≠ 0) (small : r.size.toNat ≤ c.outputWidth.toNat)
    (inside : c.place r.addr + r.size.toNat ≤ c.outputAlign.toNat) : c.Divides r [⟨owner, r.addr, r.size, r.data⟩] := by
  have positive : 0 < r.size.toNat := by
    have nonzero : r.size.toNat ≠ 0 := fun zero => filled (BitVec.eq_of_toNat_eq (by simpa using zero))
    omega
  refine ⟨?_, ?_, ?_⟩
  · have nothing : Tiling.Tiles (fun p : Piece => (p.addr - r.addr).toNat) (fun p => p.size.toNat) 0 [] 0 := .nil 0
    simpa using Tiling.tilesSnoc ⟨owner, r.addr, r.size, r.data⟩ nothing (by simp) positive
  · simp
  · intro p member
    rw [List.mem_singleton.mp member]
    exact ⟨positive, small, inside⟩

theorem fitsIff (legal : c.Legal k) :
    c.fits r = true ↔ r.addr.toNat / c.outputAlign.toNat = (r.addr + r.size - 1).toNat / c.outputAlign.toNat := by
  have positive := (alignBound legal).1
  rw [legal.align] at positive ⊢
  rw [Config.fits, legalMask legal, beq_iff_eq, ← BitVec.toNat_inj, maskNumber, maskNumber, Nat.mul_left_inj positive.ne']

theorem fitsInside (legal : c.Legal k) (filled : r.size ≠ 0) (small : r.size.toNat < 2 ^ 31) (fits : c.fits r = true) :
    c.place r.addr + r.size.toNat ≤ c.outputAlign.toNat := by
  have nonzero : r.size.toNat ≠ 0 := fun zero => filled (BitVec.eq_of_toNat_eq (by simpa using zero))
  obtain ⟨positive, bound⟩ := alignBound legal
  have address := r.addr.isLt
  have one : (1 : Word).toNat = 1 := rfl
  have first := Nat.div_add_mod r.addr.toNat c.outputAlign.toNat
  have last := Nat.div_add_mod (r.addr + r.size - 1).toNat c.outputAlign.toNat
  have low := Nat.mod_lt r.addr.toNat positive
  have high := Nat.mod_lt (r.addr + r.size - 1).toNat positive
  rw [← (fitsIff legal).mp fits] at last
  have number : (r.addr + r.size - 1).toNat = (r.addr.toNat + r.size.toNat - 1) % 2 ^ 64 := by
    rw [BitVec.toNat_sub, BitVec.toNat_add, one]
    omega
  unfold Config.place
  generalize c.outputAlign.toNat * (r.addr.toNat / c.outputAlign.toNat) = base at first last
  omega

/- What the converter produces fits the output if and only if the width is the alignment, or the request is small enough. -/
theorem splitDivides (legal : c.Legal k) (stalled : Bool) (held : Held) (filled : held.req.size ≠ 0) :
    (∃ pieces, c.produced stalled held = some pieces ∧ c.Divides held.req pieces) ↔ c.Divisible stalled held.req := by
  have bound := (legalWidth legal).2
  unfold Config.produced Config.Divisible
  split
  · rename_i forwarded
    constructor
    · rintro ⟨pieces, whole, divides⟩
      cases whole
      exact (divides.takes _ (List.mem_singleton_self _)).width
    · intro small
      exact ⟨_, rfl, wholeDivides filled small (fitsInside legal filled (by omega) forwarded.2)⟩
  · constructor
    · rintro ⟨pieces, cut, divides⟩
      exact takesCut legal filled cut divides.takes
    · rintro (same | atOnce)
      · have wide : c.Wide := by
          obtain ⟨positive, below⟩ := alignBound legal
          exact ⟨positive, by rw [same], bound⟩
        obtain ⟨pieces, cut, tiles, data⟩ := splitTiles (r := held.req) held.id (2 ^ 64) wide held.req.addr (by omega)
          (by have := held.req.size.isLt; simpa using this)
        refine ⟨pieces, cut, ?_, fun p member => (data p member).2, cutTakes legal same cut⟩
        simpa using tiles
      · obtain ⟨fuel, enough⟩ : ∃ fuel, 2 ^ 64 = fuel + 1 := ⟨2 ^ 64 - 1, by norm_num⟩
        refine ⟨_, by rw [Config.pieces, enough]; exact atOnceCut legal filled atOnce, wholeDivides filled ?_ atOnce.1⟩
        rcases atOnce.2 with before | ⟨-, small⟩
        · omega
        · exact small

end Cut

section Runs

def narrow : Config := ⟨4, 8⟩
def broad : Config := ⟨8, 4⟩

theorem fourBytesLegal : fourBytes.Legal 2 := ⟨by decide, by decide, by decide⟩
theorem broadLegal : broad.Legal 2 := ⟨by decide, by decide, by decide⟩

/- Ten bytes at an odd address. -/
theorem splitDividesTen : ∃ pieces, fourBytes.produced false ⟨0, ⟨0x1003, 10, 0x8000⟩⟩ = some pieces ∧
    fourBytes.Divides ⟨0x1003, 10, 0x8000⟩ pieces :=
  (splitDivides fourBytesLegal false ⟨0, ⟨0x1003, 10, 0x8000⟩⟩ (by decide)).mpr
    (by unfold Config.Divisible; rw [if_neg (by decide)]; exact .inl rfl)

theorem splitStuck {c : Config} {r : Req} (owner fuel : Nat) (filled : r.size ≠ 0) (none : c.iterSize r.addr r.size = 0) :
    c.split owner fuel r = .none := by
  induction fuel generalizing r with
  | zero =>
      unfold Config.split
      rw [if_neg filled]
  | succ fuel ih =>
      unfold Config.split
      rw [if_neg filled]
      dsimp only
      rw [none, ih (by simpa using filled) (by simpa using none)]
      rfl

/- Eight bytes that lie in two windows: at the width nothing is taken any more, and a wide piece runs past the border. -/
theorem splitUndivided :
    narrow.produced false ⟨0, ⟨4, 8, 0⟩⟩ = none ∧
      ¬ ∃ pieces, broad.produced false ⟨0, ⟨2, 8, 0⟩⟩ = some pieces ∧ broad.Divides ⟨2, 8, 0⟩ pieces := by
  constructor
  · unfold Config.produced
    rw [if_neg (by decide)]
    exact splitStuck 0 _ (by decide) (by decide)
  · rintro ⟨pieces, cut, divides⟩
    unfold Config.produced at cut
    rw [if_neg (by decide)] at cut
    rcases takesCut broadLegal (by decide) cut divides.takes with same | ⟨inside, -⟩
    · revert same
      decide
    · revert inside
      decide

end Runs

end Gvsoc.Conversion
