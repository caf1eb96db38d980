import Gvsoc.RouterTree
import Gvsoc.Tiling
import Mathlib.Data.BitVec
import Mathlib.Tactic.Ring

/-! The pieces that the router sends. A request that is answered OK is cut into pieces that fill
it, each one within its entry and at the translated address, if no entry it meets has both
offsets, no mapped byte comes after an unmapped one, and the sizes fit the 32-bit integer that
they go through. -/
namespace Gvsoc.Routing
open Io (IoStatus)
open Tiling (Tiles)
open Bytes (signedNumber)

section Size

theorem iterSizeMapped (entry : MapEntry) (offset size : Word)
    (fits : (entry.size - (offset - entry.base)).toNat < 2 ^ 31 ∨ size.toNat < 2 ^ 31) :
    (iterSize entry false offset size).toNat ≤ (entry.size - (offset - entry.base)).toNat ∧
      (iterSize entry false offset size).toNat ≤ size.toNat := by
  unfold iterSize
  simp only [Bool.false_eq_true, if_false]
  generalize entry.size - (offset - entry.base) = whole at *
  have number := signedNumber (whole.setWidth 32)
  have other := signedNumber (size.setWidth 32)
  rw [BitVec.toNat_setWidth] at number other
  split
  · rename_i above
    rw [BitVec.lt_def, number] at above
    rw [other]
    split at above <;> split <;> omega
  · rename_i below
    rw [BitVec.lt_def] at below
    rw [number] at below ⊢
    split at below <;> split <;> omega

theorem throughInt {size : Word} (small : size.toNat < 2 ^ 31) : (size.setWidth 32 : BitVec 32).signExtend 64 = size := by
  have number := signedNumber (size.setWidth 32)
  rw [BitVec.toNat_setWidth] at number
  apply BitVec.eq_of_toNat_eq
  rw [number]
  split <;> omega

theorem iterSizeDefault (entry : MapEntry) (offset : Word) {size : Word} (fits : size.toNat < 2 ^ 31) :
    iterSize entry true offset size = size := by
  unfold iterSize
  simp [throughInt fits]

end Size

section Spec

variable (m : Router) (r : Req)

def Router.mapped (x : Nat) : Prop := ∃ e ∈ m.firstMapEntry, e.covers x

def Req.stop : Nat := r.addr.toNat + r.size.toNat

def Req.holds (x : Nat) : Prop := r.addr.toNat ≤ x ∧ x < r.stop

def Forward.holds (f : Forward) (x : Nat) : Prop := f.offset.toNat ≤ x ∧ x < f.offset.toNat + f.size.toNat

def Forward.delivers (f : Forward) (e : MapEntry) (x : Nat) : Prop :=
  f.isDefault = false ∧ f.entry = e ∧
  f.addr + BitVec.ofNat 64 (x - f.offset.toNat) = BitVec.ofNat 64 x - e.removeOffset + e.addOffset ∧
  f.data + BitVec.ofNat 64 (x - f.offset.toNat) = r.data + BitVec.ofNat 64 (x - r.addr.toNat)

structure Routed (forwards : List Forward) : Prop where
  tiles : Tiles (fun f => f.offset.toNat) (fun f => f.size.toNat) r.addr.toNat forwards r.stop
  within : ∀ f ∈ forwards, (∃ e ∈ m.firstMapEntry, ∀ x, f.holds x → e.covers x) ∨ ∀ x, f.holds x → ¬ m.mapped x
  mapped : ∀ e ∈ m.firstMapEntry, ∀ x, r.holds x → e.covers x → ∃ f ∈ forwards, f.holds x ∧ f.delivers r e x
  unmapped : ∀ f ∈ forwards, f.isDefault = true → ∀ x, f.holds x → ¬ m.mapped x

structure Sized : Prop where
  entry : ∀ e ∈ m.firstMapEntry, ∀ x, r.holds x → e.covers x →
    e.base.toNat + e.size.toNat - x < 2 ^ 31 ∨ r.stop - x < 2 ^ 31
  rest : ∀ x, r.holds x → ¬ m.mapped x → r.stop - x < 2 ^ 31

structure Routable : Prop where
  inside : ∀ e ∈ m.firstMapEntry, ∀ x, r.holds x → e.covers x → e.base.toNat + e.size.toNat ≤ 2 ^ 64
  offsets : ∀ e ∈ m.firstMapEntry, ∀ x, r.holds x → e.covers x → e.removeOffset = 0 ∨ e.addOffset = 0
  holes : ∀ x y, r.holds x → r.holds y → x ≤ y → ¬ m.mapped x → ¬ m.mapped y
  connected : ∀ x, r.holds x → ¬ m.mapped x → ∀ d, m.defaultMapEntry = some d → d.target ≠ .none

end Spec

section Run

variable {m : Router} {answers : Nat → IoStatus} {r : Req} {s : Loop} {entry : MapEntry} {isDefault : Bool}

theorem selectCases {offset size : Word} (selected : m.select offset size = some (entry, isDefault)) :
    (isDefault = false ∧ m.find offset = some entry) ∨
      (isDefault = true ∧ m.find offset = none ∧ m.defaultMapEntry = some entry) := by
  unfold Router.select at selected
  cases found : m.find offset with
  | some e =>
      simp only [found, Option.some.injEq, Prod.mk.injEq] at selected
      obtain ⟨rfl, rfl⟩ := selected
      exact .inl ⟨rfl, rfl⟩
  | none =>
      simp only [found] at selected
      split at selected
      · contradiction
      · obtain ⟨d, default, same⟩ := Option.map_eq_some_iff.mp selected
        cases same
        exact .inr ⟨rfl, rfl, default⟩

theorem turnCases (goesOn : (s.turn m answers).2 = false) :
    ∃ entry isDefault, m.select s.offset s.size = some (entry, isDefault) ∧
      ((entry.target ≠ .none ∧ (s.turn m answers).1 = s.forward answers entry isDefault) ∨
        (entry.target = .none ∧ (s.turn m answers).1 = s.skip entry isDefault)) := by
  unfold Loop.turn at goesOn ⊢
  cases selected : m.select s.offset s.size with
  | none => simp [selected] at goesOn
  | some choice =>
      obtain ⟨entry, isDefault⟩ := choice
      refine ⟨entry, isDefault, rfl, ?_⟩
      simp only [selected] at goesOn ⊢
      cases target : entry.target with
      | port => exact .inl ⟨by simp, rfl⟩
      | itf bound =>
          cases bound with
          | true => exact .inl ⟨by simp, rfl⟩
          | false => simp [target] at goesOn
      | none => exact .inr ⟨rfl, rfl⟩

theorem turnSame {s' : Loop} (offset : s'.offset = s.offset) (size : s'.size = s.size) :
    (s'.turn m answers).2 = (s.turn m answers).2 := by
  unfold Loop.turn
  rw [offset, size]
  split
  · rfl
  · split <;> rfl

theorem stuck (fuel : Nat) (size : s.size ≠ 0) (goesOn : (s.turn m answers).2 = false)
    (zero : ∀ entry isDefault, m.select s.offset s.size = some (entry, isDefault) →
      iterSize entry isDefault s.offset s.size = 0) : s.run m answers r fuel = none := by
  induction fuel generalizing s with
  | zero =>
      unfold Loop.run
      rw [if_neg size]
  | succ fuel ih =>
      obtain ⟨entry, isDefault, selected, next⟩ := turnCases goesOn
      have empty := zero entry isDefault selected
      have same : (s.turn m answers).1.offset = s.offset ∧ (s.turn m answers).1.size = s.size := by
        rcases next with ⟨-, next⟩ | ⟨-, next⟩ <;> rw [next] <;> simp [Loop.forward, Loop.skip, empty]
      have again : ((s.turn m answers).1.turn m answers).2 = false := by
        rw [turnSame same.1 same.2]
        exact goesOn
      unfold Loop.run
      rw [if_neg size]
      have split : s.turn m answers = ((s.turn m answers).1, false) := Prod.ext rfl goesOn
      dsimp only
      rw [split]
      refine ih (same.2 ▸ size) again ?_
      intro e d chosen
      rw [same.1, same.2] at chosen ⊢
      exact zero e d chosen

theorem turnReturns (returns : (s.turn m answers).2 = true) : (s.turn m answers).1.result = some .invalid := by
  unfold Loop.turn at returns ⊢
  cases selected : m.select s.offset s.size with
  | none => rfl
  | some choice =>
      obtain ⟨entry, isDefault⟩ := choice
      simp only [selected] at returns ⊢
      cases target : entry.target with
      | itf bound => cases bound <;> simp [target] at returns ⊢
      | _ => simp [target] at returns

theorem runCases {fuel : Nat} {ret : Returned} (done : s.run m answers r fuel = some ret) :
    (s.size = 0 ∧ ret.result = s.result ∧ (s.result ≠ some .ok → ret.req = s.req) ∧ ret.forwards = s.forwards) ∨
    (s.size ≠ 0 ∧ (s.turn m answers).2 = true ∧ ret.result = (s.turn m answers).1.result ∧ ret.req = (s.turn m answers).1.req) ∨
    (s.size ≠ 0 ∧ (s.turn m answers).2 = false ∧ ∃ rest, rest < fuel ∧ (s.turn m answers).1.run m answers r rest = some ret) := by
  unfold Loop.run at done
  split at done
  · rename_i finished
    cases done
    exact .inl ⟨finished, rfl, fun refused => if_neg refused, rfl⟩
  · rename_i more
    cases fuel with
    | zero => contradiction
    | succ fuel =>
        dsimp only at done
        cases shape : s.turn m answers with
        | mk next returns =>
            rw [shape] at done
            cases returns with
            | true =>
                cases done
                exact .inr (.inl ⟨more, rfl, rfl, rfl⟩)
            | false => exact .inr (.inr ⟨more, rfl, fuel, Nat.lt_succ_self _, done⟩)

theorem runKeeps {P : Loop → Prop} {fuel : Nat} {ret : Returned} (start : P s)
    (keeps : ∀ s, P s → s.size ≠ 0 → (s.turn m answers).2 = false →
      (∃ fuel, ((s.turn m answers).1.run m answers r fuel).isSome = true) → P (s.turn m answers).1)
    (done : s.run m answers r fuel = some ret) (ok : ret.result = some .ok) :
    ∃ last, P last ∧ last.size = 0 ∧ ret.forwards = last.forwards := by
  induction fuel using Nat.strongRecOn generalizing s with
  | ind fuel rec =>
      rcases runCases done with ⟨finished, -, -, forwards⟩ | ⟨-, returns, result, -⟩ | ⟨size, goesOn, rest, fewer, later⟩
      · exact ⟨s, start, finished, forwards⟩
      · have invalid := result.symm.trans ok
        rw [turnReturns returns] at invalid
        contradiction
      · exact rec rest fewer (keeps s start size goesOn ⟨rest, Option.isSome_iff_exists.mpr ⟨_, later⟩⟩) later

structure Piece (m : Router) (r : Req) (f : Forward) : Prop where
  selected : m.select f.offset (r.addr + r.size - f.offset) = some (f.entry, f.isDefault)
  size : f.size = iterSize f.entry f.isDefault f.offset (r.addr + r.size - f.offset)
  addr : f.addr = f.entry.translate f.offset
  data : f.data = r.data + (f.offset - r.addr)
  target : f.entry.target ≠ .none

structure History (m : Router) (r : Req) (s : Loop) : Prop where
  rest : s.size = r.addr + r.size - s.offset
  data : s.data = r.data + (s.offset - r.addr)
  pieces : ∀ f ∈ s.forwards, Piece m r f

theorem forwardHistory (history : History m r s) (selected : m.select s.offset s.size = some (entry, isDefault))
    (target : entry.target ≠ .none) : History m r (s.forward answers entry isDefault) := by
  obtain ⟨rest, data, pieces⟩ := history
  unfold Loop.forward
  refine ⟨?_, ?_, ?_⟩
  · dsimp only
    rw [rest]
    generalize iterSize entry isDefault s.offset (r.addr + r.size - s.offset) = k
    ring
  · dsimp only
    rw [data]
    generalize iterSize entry isDefault s.offset s.size = k
    ring
  · intro f member
    rcases List.mem_append.mp member with before | new
    · exact pieces f before
    · rw [List.mem_singleton.mp new]
      exact ⟨rest ▸ selected, by rw [rest], rfl, data, target⟩

theorem skipHistory (history : History m r s) : History m r (s.skip entry isDefault) := by
  obtain ⟨rest, data, pieces⟩ := history
  unfold Loop.skip
  refine ⟨?_, ?_, pieces⟩
  · dsimp only
    rw [rest]
    generalize iterSize entry isDefault s.offset (r.addr + r.size - s.offset) = k
    ring
  · dsimp only
    rw [data]
    generalize iterSize entry isDefault s.offset s.size = k
    ring

theorem turnHistory (history : History m r s) (goesOn : (s.turn m answers).2 = false) :
    History m r (s.turn m answers).1 := by
  obtain ⟨entry, isDefault, selected, ⟨target, next⟩ | ⟨target, next⟩⟩ := turnCases goesOn
  · rw [next]
    exact forwardHistory history selected target
  · rw [next]
    exact skipHistory history

end Run

section Enough

variable {m : Router} {answers : Nat → IoStatus} {r : Req} {s : Loop} {entry : MapEntry} {isDefault : Bool}

structure Tiled (m : Router) (r : Req) (s : Loop) : Prop extends History m r s where
  left : s.size.toNat ≤ r.size.toNat
  tiles : Tiles (fun f => f.offset.toNat) (fun f => f.size.toNat) r.addr.toNat s.forwards (r.stop - s.size.toNat)
  mapped : ∀ f ∈ s.forwards, f.isDefault = false → f.entry ∈ m.firstMapEntry ∧ ∀ x, f.holds x → f.entry.covers x
  unmapped : ∀ f ∈ s.forwards, f.isDefault = true → ∀ x, f.holds x → ¬ m.mapped x

theorem tiledOffset (tiled : Tiled m r s) (fits : r.stop ≤ 2 ^ 64) (size : s.size ≠ 0) :
    s.offset.toNat = r.stop - s.size.toNat ∧ r.holds s.offset.toNat := by
  have positive : s.size.toNat ≠ 0 := fun zero => size (BitVec.eq_of_toNat_eq (by simpa using zero))
  have left := tiled.left
  have base := r.addr.isLt
  have offset : s.offset = r.addr + r.size - s.size := by
    rw [tiled.rest]
    ring
  have number : s.offset.toNat = r.stop - s.size.toNat := by
    rw [offset, BitVec.toNat_sub, BitVec.toNat_add]
    unfold Req.stop at *
    have := s.size.isLt
    omega
  refine ⟨number, ?_, ?_⟩ <;> unfold Req.stop at * <;> omega

theorem forwardTiled (tiled : Tiled m r s) (fits : r.stop ≤ 2 ^ 64) (size : s.size ≠ 0)
    (selected : m.select s.offset s.size = some (entry, isDefault)) (target : entry.target ≠ .none)
    (positive : iterSize entry isDefault s.offset s.size ≠ 0)
    (most : (iterSize entry isDefault s.offset s.size).toNat ≤ s.size.toNat)
    (mapped : isDefault = false → entry ∈ m.firstMapEntry ∧
      ∀ x, s.offset.toNat ≤ x → x < s.offset.toNat + (iterSize entry isDefault s.offset s.size).toNat → entry.covers x)
    (unmapped : isDefault = true → ∀ x, s.offset.toNat ≤ x → x < r.stop → ¬ m.mapped x) :
    Tiled m r (s.forward answers entry isDefault) := by
  obtain ⟨number, -, -⟩ := tiledOffset tiled fits size
  have some : (iterSize entry isDefault s.offset s.size).toNat ≠ 0 :=
    fun zero => positive (BitVec.eq_of_toNat_eq (by simpa using zero))
  have left := tiled.left
  have rest : (s.size - iterSize entry isDefault s.offset s.size).toNat =
      s.size.toNat - (iterSize entry isDefault s.offset s.size).toNat := BitVec.toNat_sub_of_le most
  refine ⟨forwardHistory tiled.toHistory selected target, ?_, ?_, ?_, ?_⟩
  · simp only [Loop.forward, rest]
    omega
  · have longer := Tiling.tilesSnoc (⟨s.offset, entry, isDefault, entry.translate s.offset,
      iterSize entry isDefault s.offset s.size, s.data⟩ : Forward) tiled.tiles number (by dsimp only; omega)
    have stop : r.stop - (s.size.toNat - (iterSize entry isDefault s.offset s.size).toNat) =
        r.stop - s.size.toNat + (iterSize entry isDefault s.offset s.size).toNat := by
      unfold Req.stop
      omega
    simp only [Loop.forward, rest, stop]
    exact longer
  · intro f member flag
    rcases List.mem_append.mp member with before | new
    · exact tiled.mapped f before flag
    · rw [List.mem_singleton.mp new] at flag ⊢
      obtain ⟨there, covers⟩ := mapped flag
      exact ⟨there, fun x holds => covers x holds.1 holds.2⟩
  · intro f member flag
    rcases List.mem_append.mp member with before | new
    · exact tiled.unmapped f before flag
    · rw [List.mem_singleton.mp new] at flag ⊢
      intro x holds
      refine unmapped flag x holds.1 (lt_of_lt_of_le holds.2 ?_)
      dsimp only
      rw [number]
      unfold Req.stop
      omega

theorem turnTiled (table : Table m) (disjoint : Disjoint m.firstMapEntry) (fits : r.stop ≤ 2 ^ 64)
    (sized : Sized m r) (routable : Routable m r) (tiled : Tiled m r s) (size : s.size ≠ 0)
    (goesOn : (s.turn m answers).2 = false)
    (ends : ∃ fuel, ((s.turn m answers).1.run m answers r fuel).isSome = true) : Tiled m r (s.turn m answers).1 := by
  obtain ⟨number, here⟩ := tiledOffset tiled fits size
  have positive : s.size.toNat ≠ 0 := fun zero => size (BitVec.eq_of_toNat_eq (by simpa using zero))
  have left := tiled.left
  obtain ⟨entry, isDefault, selected, next⟩ := turnCases goesOn
  rcases selectCases selected with ⟨rfl, found⟩ | ⟨rfl, missing, default⟩
  · obtain ⟨member, covers, inside⟩ := findMember table found
    rcases next with ⟨target, next⟩ | ⟨target, -⟩
    · have rest : (entry.size - (s.offset - entry.base)).toNat = entry.base.toNat + entry.size.toNat - s.offset.toNat := by
        have lower := covers.1
        have upper := covers.2
        have base := entry.base.isLt
        have offset := s.offset.isLt
        rw [BitVec.toNat_sub, BitVec.toNat_sub]
        omega
      obtain ⟨short, most⟩ := iterSizeMapped entry s.offset s.size (by
        rw [rest]
        rcases sized.entry entry member _ here covers with small | small
        · exact .inl small
        · rw [number] at small
          exact .inr (by unfold Req.stop at small; omega))
      rw [next]
      refine forwardTiled tiled fits size selected target ?_ most ?_ (by simp)
      · intro zero
        obtain ⟨fuel, returns⟩ := ends
        have never := stuck (r := r) (fuel + 1) size goesOn (by
          intro e d chosen
          rw [selected] at chosen
          cases chosen
          exact zero)
        unfold Loop.run at never
        rw [if_neg size] at never
        have split : s.turn m answers = ((s.turn m answers).1, false) := Prod.ext rfl goesOn
        dsimp only at never
        rw [split] at never
        simp [never] at returns
      · intro _
        refine ⟨member, fun x low high => ⟨le_trans covers.1 low, ?_⟩⟩
        have upper := covers.2
        omega
    · exact absurd target (table.sized entry member).2
  · have hole : ¬ m.mapped s.offset.toNat := by
      rintro ⟨e, member, covers⟩
      rw [findCovers table disjoint member covers (routable.inside e member _ here covers)] at missing
      contradiction
    have small : s.size.toNat < 2 ^ 31 := by
      have small := sized.rest _ here hole
      rw [number] at small
      unfold Req.stop at small
      omega
    rcases next with ⟨target, next⟩ | ⟨target, -⟩
    · rw [next]
      have whole := iterSizeDefault entry s.offset small
      refine forwardTiled tiled fits size selected target (by rw [whole]; exact size) (by rw [whole]) (by simp) ?_
      intro _ x low high
      exact routable.holes _ x here ⟨le_trans here.1 low, high⟩ low hole
    · exact absurd target (routable.connected _ here hole entry default)

theorem wordAt {o : Word} {x : Nat} (low : o.toNat ≤ x) : o + BitVec.ofNat 64 (x - o.toNat) = BitVec.ofNat 64 x := by
  apply BitVec.eq_of_toNat_eq
  rw [BitVec.toNat_add, BitVec.toNat_ofNat, BitVec.toNat_ofNat, Nat.add_mod_mod]
  congr 1
  omega

theorem translateOffsets (offsets : entry.removeOffset = 0 ∨ entry.addOffset = 0) (offset : Word) :
    entry.translate offset = offset - entry.removeOffset + entry.addOffset := by
  unfold MapEntry.translate
  rcases offsets with none | none
  · by_cases add : entry.addOffset = 0
    · simp [none, add]
    · simp only [none, ne_eq, add, not_false_eq_true, if_true, sub_zero]
  · by_cases remove : entry.removeOffset = 0
    · simp [none, remove]
    · simp only [none, ne_eq, remove, not_false_eq_true, if_true, not_true_eq_false, if_false, add_zero]

theorem tiledRouted (disjoint : Disjoint m.firstMapEntry) (routable : Routable m r) (tiled : Tiled m r s)
    (size : s.size = 0) : Routed m r s.forwards := by
  have tiles : Tiles (fun f => f.offset.toNat) (fun f => f.size.toNat) r.addr.toNat s.forwards r.stop := by
    simpa [size] using tiled.tiles
  refine ⟨tiles, ?_, ?_, tiled.unmapped⟩
  · intro f member
    cases flag : f.isDefault with
    | false =>
        obtain ⟨there, covers⟩ := tiled.mapped f member flag
        exact .inl ⟨f.entry, there, covers⟩
    | true => exact .inr (tiled.unmapped f member flag)
  · intro e there x holds covers
    obtain ⟨f, member, low, high⟩ := Tiling.tilesCover tiles holds.1 holds.2
    have flag : f.isDefault = false := by
      by_contra other
      exact tiled.unmapped f member (by simpa using other) x ⟨low, high⟩ ⟨e, there, covers⟩
    obtain ⟨there', covers'⟩ := tiled.mapped f member flag
    have same : f.entry = e := by
      by_contra different
      exact List.Pairwise.forall disjoint there' there different x ⟨covers' x ⟨low, high⟩, covers⟩
    have piece := tiled.pieces f member
    have bounds := Tiling.tilesBounds tiles member
    refine ⟨f, member, ⟨low, high⟩, flag, same, ?_, ?_⟩
    · rw [piece.addr, same, translateOffsets (routable.offsets e there x holds covers), ← wordAt low]
      ring
    · have start : r.addr.toNat ≤ x := holds.1
      have there := wordAt low
      have here := wordAt start
      calc f.data + BitVec.ofNat 64 (x - f.offset.toNat)
          = r.data + (f.offset + BitVec.ofNat 64 (x - f.offset.toNat)) - r.addr := by
            rw [piece.data]
            ring
        _ = r.data + BitVec.ofNat 64 (x - r.addr.toNat) := by
            rw [there, ← here]
            ring

end Enough

section Needed

variable {m : Router} {r : Req} {forwards : List Forward}

theorem routedRoutable (table : Table m) (sized : Sized m r)
    (pieces : ∀ f ∈ forwards, Piece m r f) (routed : Routed m r forwards) : Routable m r := by
  have found : ∀ e ∈ m.firstMapEntry, ∀ x, r.holds x → e.covers x →
      ∃ f ∈ forwards, f.holds x ∧ f.delivers r e x ∧ m.find f.offset = some e := by
    intro e member x holds covers
    obtain ⟨f, sent, here, delivers⟩ := routed.mapped e member x holds covers
    refine ⟨f, sent, here, delivers, ?_⟩
    rcases selectCases (pieces f sent).selected with ⟨-, found⟩ | ⟨flag, -⟩
    · rw [found, delivers.2.1]
    · rw [delivers.1] at flag
      contradiction
  have inside : ∀ e ∈ m.firstMapEntry, ∀ x, r.holds x → e.covers x → e.base.toNat + e.size.toNat ≤ 2 ^ 64 := by
    intro e member x holds covers
    obtain ⟨f, -, -, -, found⟩ := found e member x holds covers
    exact (findMember table found).2.2
  -- An unmapped byte is in a piece that starts at an unmapped byte and goes to the default entry.
  have hole : ∀ x, r.holds x → ¬ m.mapped x → ∃ f ∈ forwards, f.holds x ∧ f.isDefault = true := by
    intro x holds unmapped
    obtain ⟨f, sent, low, high⟩ := Tiling.tilesCover routed.tiles holds.1 holds.2
    refine ⟨f, sent, ⟨low, high⟩, ?_⟩
    by_contra other
    have flag : f.isDefault = false := by simpa using other
    rcases selectCases (pieces f sent).selected with ⟨-, found⟩ | ⟨default, -⟩
    · obtain ⟨member, covers, -⟩ := findMember table found
      rcases routed.within f sent with ⟨e, member', all⟩ | none
      · exact unmapped ⟨e, member', all x ⟨low, high⟩⟩
      · exact none f.offset.toNat ⟨Nat.le_refl _, by omega⟩ ⟨f.entry, member, covers⟩
    · rw [flag] at default
      contradiction
  refine ⟨inside, ?_, ?_, ?_⟩
  · intro e member x holds covers
    obtain ⟨f, sent, here, ⟨-, same, addr, -⟩, -⟩ := found e member x holds covers
    by_contra both
    obtain ⟨remove, add⟩ := not_or.mp both
    rw [(pieces f sent).addr, same, ← wordAt here.1] at addr
    simp only [MapEntry.translate, ne_eq, remove, add, not_false_eq_true, if_true] at addr
    have zero : e.removeOffset = 0 := by
      have difference := congrArg (fun v => f.offset + BitVec.ofNat 64 (x - f.offset.toNat) + e.addOffset - v) addr
      ring_nf at difference
      exact difference.symm
    exact remove zero
  · intro x y holdsX holdsY below unmapped mappedY
    obtain ⟨f, sent, here, flag⟩ := hole x holdsX unmapped
    have piece := pieces f sent
    obtain ⟨start, -, stop⟩ := Tiling.tilesBounds routed.tiles sent
    have first : r.holds f.offset.toNat := ⟨start, lt_of_le_of_lt here.1 holdsX.2⟩
    have small := sized.rest _ first (routed.unmapped f sent flag _ ⟨Nat.le_refl _, lt_of_le_of_lt here.1 here.2⟩)
    have rest : (r.addr + r.size - f.offset).toNat = r.stop - f.offset.toNat := by
      have offset := f.offset.isLt
      have stop := first.2
      rw [BitVec.toNat_sub, BitVec.toNat_add]
      unfold Req.stop at *
      omega
    have whole : f.size.toNat = r.stop - f.offset.toNat := by
      rw [piece.size, flag, iterSizeDefault _ _ (by rw [rest]; exact small), rest]
    refine routed.unmapped f sent flag y ⟨le_trans here.1 below, ?_⟩ mappedY
    have := holdsY.2
    omega
  · intro x holds unmapped d default
    obtain ⟨f, sent, -, flag⟩ := hole x holds unmapped
    have piece := pieces f sent
    rcases selectCases piece.selected with ⟨other, -⟩ | ⟨-, -, same⟩
    · rw [flag] at other
      contradiction
    · rw [default] at same
      cases same
      exact piece.target

end Needed

section Req

variable {entries : List MapEntry} {answers : Nat → IoStatus} {r : Req} {fuel : Nat} {ret : Returned}

theorem startHistory (m : Router) (r : Req) : History m r ⟨r, r.addr, r.size, r.data, none, []⟩ := by
  refine ⟨?_, ?_, by simp⟩
  · dsimp only
    ring
  · dsimp only
    ring

theorem requestRouted (disjoint : Disjoint (Router.build entries).firstMapEntry) (fits : r.stop ≤ 2 ^ 64)
    (done : (Router.build entries).req answers fuel r = some ret) (ok : ret.result = some .ok)
    (sized : Sized (Router.build entries) r) :
    Routed (Router.build entries) r ret.forwards ↔ Routable (Router.build entries) r := by
  have table := buildTable entries
  have start := startHistory (Router.build entries) r
  refine ⟨fun routed => ?_, fun routable => ?_⟩
  · obtain ⟨last, history, -, forwards⟩ := runKeeps start
      (fun s history _ goesOn _ => turnHistory history goesOn) done ok
    exact routedRoutable table sized (forwards ▸ history.pieces) routed
  · have first : Tiled (Router.build entries) r ⟨r, r.addr, r.size, r.data, none, []⟩ := by
      refine ⟨start, Nat.le_refl _, ?_, by simp, by simp⟩
      have whole : r.stop - r.size.toNat = r.addr.toNat := Nat.add_sub_cancel _ _
      rw [whole]
      exact .nil _
    obtain ⟨last, tiled, size, forwards⟩ := runKeeps first
      (fun s tiled size goesOn ends => turnTiled table disjoint fits sized routable tiled size goesOn ends) done ok
    rw [forwards]
    exact tiledRouted disjoint routable tiled size

/- Two neighbours, a hole after them that goes to the default entry, and one entry with both offsets. -/
def table : List MapEntry :=
  [⟨0x2000, 0x1000, 0, 0x100, .port⟩, ⟨0x1000, 0x1000, 0x1000, 0, .itf true⟩, ⟨0, 0, 0, 0, .port⟩,
    ⟨0x5000, 0x1000, 0x5000, 0x20, .port⟩]

theorem tableEntries : (Router.build table).firstMapEntry =
    [⟨0x1000, 0x1000, 0x1000, 0, .itf true⟩, ⟨0x2000, 0x1000, 0, 0x100, .port⟩, ⟨0x5000, 0x1000, 0x5000, 0x20, .port⟩] := by
  decide

theorem tableMapped (x : Nat) : (Router.build table).mapped x ↔ (0x1000 ≤ x ∧ x < 0x3000) ∨ (0x5000 ≤ x ∧ x < 0x6000) := by
  simp only [Router.mapped, tableEntries, List.mem_cons, List.not_mem_nil, or_false, exists_eq_or_imp, exists_eq_left,
    MapEntry.covers]
  simp
  omega

theorem tableDisjoint : Disjoint (Router.build table).firstMapEntry := by
  have below : (Router.build table).firstMapEntry.Pairwise (fun e f => e.base.toNat + e.size.toNat ≤ f.base.toNat) := by
    decide
  refine below.imp ?_
  rintro e f order x ⟨⟨-, high⟩, low, -⟩
  omega

def accept : Nat → IoStatus := fun _ => .ok

def long : Req := ⟨0x1ffc, 0x1008, 0x80000000, 0⟩

theorem longHolds (x : Nat) : long.holds x ↔ 0x1ffc ≤ x ∧ x < 0x3004 := by
  simp [Req.holds, Req.stop, long]

theorem longSized : Sized (Router.build table) long := by
  have stop : long.stop = 0x3004 := rfl
  refine ⟨fun e _ x _ _ => .inr ?_, fun x _ _ => ?_⟩ <;> rw [stop] <;> omega

theorem longRoutable : Routable (Router.build table) long := by
  refine ⟨?_, ?_, ?_, ?_⟩
  · rw [tableEntries]
    intro e member x _ _
    simp only [List.mem_cons, List.not_mem_nil, or_false] at member
    rcases member with rfl | rfl | rfl <;> decide
  · rw [tableEntries]
    intro e member x holds covers
    rw [longHolds] at holds
    simp only [List.mem_cons, List.not_mem_nil, or_false] at member
    rcases member with rfl | rfl | rfl
    · exact .inr rfl
    · exact .inl rfl
    · have low : 0x5000 ≤ x := covers.1
      omega
  · intro x y holdsX holdsY below unmapped
    rw [tableMapped] at unmapped ⊢
    rw [longHolds] at holdsX holdsY
    omega
  · intro x _ _ d default
    have same : d = ⟨0, 0, 0, 0, .port⟩ := by
      have first : (Router.build table).defaultMapEntry = some ⟨0, 0, 0, 0, .port⟩ := by decide
      rw [first] at default
      exact (Option.some.inj default).symm
    simp [same]

theorem requestRoutedLong :
    ∃ ret, (Router.build table).req accept 10 long = some ret ∧ ret.result = some .ok ∧
      ret.forwards.map (fun f => (f.offset, f.addr, f.size, f.data)) =
        [(0x1ffc, 0xffc, 4, 0x80000000), (0x2000, 0x2100, 0x1000, 0x80000004), (0x3000, 0x3000, 4, 0x80001004)] ∧
      Routed (Router.build table) long ret.forwards := by
  refine ⟨((Router.build table).req accept 10 long).getD ⟨none, long, []⟩, by decide, by decide, by decide, ?_⟩
  have done : (Router.build table).req accept 10 long = some (((Router.build table).req accept 10 long).getD ⟨none, long, []⟩) := by decide
  exact (requestRouted tableDisjoint (by decide) done (by decide) longSized).mpr longRoutable

def across : Req := ⟨0x4ffc, 8, 0x80000000, 0⟩

def shifted : Req := ⟨0x5000, 4, 0x80000000, 0⟩

theorem requestMisrouted : Disjoint (Router.build table).firstMapEntry ∧
    (∃ ret, (Router.build table).req accept 10 across = some ret ∧ ret.result = some .ok ∧
      ¬ Routed (Router.build table) across ret.forwards) ∧
    ∃ ret, (Router.build table).req accept 10 shifted = some ret ∧ ret.result = some .ok ∧
      ¬ Routed (Router.build table) shifted ret.forwards := by
  refine ⟨tableDisjoint, ⟨((Router.build table).req accept 10 across).getD ⟨none, across, []⟩, by decide, by decide, ?_⟩,
    ((Router.build table).req accept 10 shifted).getD ⟨none, shifted, []⟩, by decide, by decide, ?_⟩
  · intro routed
    have sent : (⟨0x4ffc, ⟨0, 0, 0, 0, .port⟩, true, 0x4ffc, 8, 0x80000000⟩ : Forward) ∈
      (((Router.build table).req accept 10 across).getD ⟨none, across, []⟩).forwards := by decide
    exact routed.unmapped _ sent rfl 0x5000 ⟨by decide, by decide⟩ ((tableMapped _).mpr (by omega))
  · intro routed
    obtain ⟨f, sent, -, -, -, addr, -⟩ := routed.mapped ⟨0x5000, 0x1000, 0x5000, 0x20, .port⟩ (by decide) 0x5000
      ⟨by decide, by decide⟩ (by decide)
    have only : (((Router.build table).req accept 10 shifted).getD ⟨none, shifted, []⟩).forwards =
      [⟨0x5000, ⟨0x5000, 0x1000, 0x5000, 0x20, .port⟩, false, 0x5020, 4, 0x80000000⟩] := by decide
    rw [only] at sent
    rw [List.mem_singleton.mp sent] at addr
    revert addr
    decide

end Req

end Gvsoc.Routing
