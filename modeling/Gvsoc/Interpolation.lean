import Mathlib.Algebra.Order.Field.Basic
import Mathlib.Data.List.Pairwise
import Mathlib.Tactic.Linarith
import Mathlib.Tactic.Ring

/-! Linear interpolation between the entries of a table, and a search for the entries around a point that goes through the
table once. -/
namespace Gvsoc.Interpolation

variable {K α : Type}

/- The line through two points. A line through one point is constant. -/
def line [Field K] (low vl high vh x : K) : K := (vh - vl) * ((x - low) / (high - low)) + vl

theorem lineAlone [Field K] {low x : K} (v vh : K) : line low v low vh x = v := by simp [line]

theorem lineSame [Field K] {low high x : K} (v : K) : line low v high v x = v := by simp [line]

variable [LinearOrder K]

structure Neighbours (key : α → K) (tables : List α) (x : K) (low high : α) : Prop where
  lowIn : low ∈ tables
  highIn : high ∈ tables
  below : (key low ≤ x ∧ ∀ t ∈ tables, key t ≤ x → key t ≤ key low) ∨ (∀ t ∈ tables, x < key t) ∧ low = high
  above : (x ≤ key high ∧ ∀ t ∈ tables, x ≤ key t → key high ≤ key t) ∨ (∀ t ∈ tables, key t < x) ∧ low = high

def Interpolates [Field K] (key : α → K) (value : α → K → Prop) (tables : List α) (x r : K) : Prop :=
  ∃ low high, Neighbours key tables x low high ∧ ∃ vl vh, value low vl ∧ value high vh ∧ r = line (key low) vl (key high) vh x

inductive Chosen (key : α → K) (x : K) : List α → α → α → Prop where
  | here {front t rest} (passed : ∀ p ∈ front, key p < x) (same : key t = x) : Chosen key x (front ++ t :: rest) t t
  | first {t rest} (beyond : x < key t) : Chosen key x (t :: rest) t t
  | between {front p t rest} (passed : ∀ q ∈ front ++ [p], key q < x) (beyond : x < key t) : Chosen key x (front ++ p :: t :: rest) p t
  | last {front p} (passed : ∀ q ∈ front ++ [p], key q < x) : Chosen key x (front ++ [p]) p p

section Line

variable [Field K] [IsStrictOrderedRing K] {key : α → K} {value : α → K → Prop} {tables : List α} {low high x a b r : K}

theorem lineBetween {vl vh : K} (left : low ≤ x) (right : x ≤ high) (low' : a ≤ vl ∧ vl ≤ b) (high' : a ≤ vh ∧ vh ≤ b) :
    a ≤ line low vl high vh x ∧ line low vl high vh x ≤ b := by
  rcases eq_or_lt_of_le (left.trans right) with rfl | apart
  · rw [lineAlone]
    exact low'
  · have positive : 0 < high - low := sub_pos.mpr apart
    have ratio : 0 ≤ (x - low) / (high - low) := div_nonneg (sub_nonneg.mpr left) positive.le
    have one : (x - low) / (high - low) ≤ 1 := (div_le_one positive).mpr (by linarith)
    have shape : line low vl high vh x = vl * (1 - (x - low) / (high - low)) + vh * ((x - low) / (high - low)) := by
      unfold line
      ring
    generalize (x - low) / (high - low) = t at ratio one shape
    have rest : 0 ≤ 1 - t := sub_nonneg.mpr one
    rw [shape]
    constructor
    · have first := mul_le_mul_of_nonneg_right low'.1 rest
      have second := mul_le_mul_of_nonneg_right high'.1 ratio
      linarith
    · have first := mul_le_mul_of_nonneg_right low'.2 rest
      have second := mul_le_mul_of_nonneg_right high'.2 ratio
      linarith

theorem interpolatesBetween (interpolates : Interpolates key value tables x r)
    (bounds : ∀ t ∈ tables, ∀ v, value t v → a ≤ v ∧ v ≤ b) : a ≤ r ∧ r ≤ b := by
  obtain ⟨low, high, neighbours, vl, vh, hl, hh, rfl⟩ := interpolates
  have first := bounds low neighbours.lowIn vl hl
  have second := bounds high neighbours.highIn vh hh
  rcases neighbours.below with ⟨left, -⟩ | ⟨-, rfl⟩
  · rcases neighbours.above with ⟨right, -⟩ | ⟨-, rfl⟩
    · exact lineBetween left right first second
    · rw [lineAlone]
      exact first
  · rw [lineAlone]
    exact first

end Line

section Order

variable {key : α → K} {tables : List α} {low high t u : α} {x : K}

theorem chosenIn (chosen : Chosen key x tables low high) : low ∈ tables ∧ high ∈ tables := by
  cases chosen <;> simp

theorem chosenNeighbours (sorted : tables.Pairwise fun a b => key a ≤ key b) (chosen : Chosen key x tables low high) :
    Neighbours key tables x low high := by
  obtain ⟨lowIn, highIn⟩ := chosenIn chosen
  cases chosen with
  | here passed same =>
      exact ⟨lowIn, highIn, .inl ⟨same.le, fun q _ below => below.trans same.ge⟩, .inl ⟨same.ge, fun q _ above => same.le.trans above⟩⟩
  | @first _ rest beyond =>
      have all : ∀ q ∈ low :: rest, key low ≤ key q := by
        intro q inside
        rcases List.mem_cons.mp inside with rfl | inside
        · exact le_rfl
        · exact (List.pairwise_cons.mp sorted).1 q inside
      exact ⟨lowIn, highIn, .inr ⟨fun q inside => beyond.trans_le (all q inside), rfl⟩, .inl ⟨beyond.le, fun q inside _ => all q inside⟩⟩
  | @between front _ _ rest passed beyond =>
      obtain ⟨-, back, across⟩ := List.pairwise_append.mp sorted
      obtain ⟨behind, back⟩ := List.pairwise_cons.mp back
      have onward : ∀ q ∈ high :: rest, key high ≤ key q := by
        intro q inside
        rcases List.mem_cons.mp inside with rfl | inside
        · exact le_rfl
        · exact (List.pairwise_cons.mp back).1 q inside
      refine ⟨lowIn, highIn, .inl ⟨(passed low (by simp)).le, fun q inside below => ?_⟩, .inl ⟨beyond.le, fun q inside above => ?_⟩⟩
      · rcases List.mem_append.mp inside with old | inside
        · exact across q old low List.mem_cons_self
        · rcases List.mem_cons.mp inside with rfl | inside
          · exact le_rfl
          · exact absurd (beyond.trans_le (onward q inside)) (not_lt.mpr below)
      · rcases List.mem_append.mp inside with old | inside
        · exact absurd (passed q (List.mem_append_left _ old)) (not_lt.mpr above)
        · rcases List.mem_cons.mp inside with rfl | inside
          · exact absurd (passed q (by simp)) (not_lt.mpr above)
          · exact onward q inside
  | @last front _ passed =>
      refine ⟨lowIn, highIn, .inl ⟨(passed low (by simp)).le, fun q inside _ => ?_⟩, .inr ⟨passed, rfl⟩⟩
      rcases List.mem_append.mp inside with old | inside
      · exact (List.pairwise_append.mp sorted).2.2 q old low List.mem_cons_self
      · rw [List.mem_singleton.mp inside]

theorem neighboursHere (neighbours : Neighbours key tables (key t) low high) (inside : t ∈ tables) : key low = key t ∧ key high = key t := by
  constructor
  · rcases neighbours.below with ⟨left, nearest⟩ | ⟨beyond, -⟩
    · exact le_antisymm left (nearest t inside le_rfl)
    · exact absurd (beyond t inside) (lt_irrefl _)
  · rcases neighbours.above with ⟨right, nearest⟩ | ⟨below, -⟩
    · exact le_antisymm (nearest t inside le_rfl) right
    · exact absurd (below t inside) (lt_irrefl _)

/- An entry behind one of a greater key is not found. -/
theorem chosenMisses {front middle rest : List α}
    (distinct : (front ++ t :: (middle ++ u :: rest)).Pairwise fun a b => key a ≠ key b) (greater : key u < key t)
    (chosen : Chosen key (key u) (front ++ t :: (middle ++ u :: rest)) low high) : key low ≠ key u ∧ key high ≠ key u := by
  generalize shape : front ++ t :: (middle ++ u :: rest) = tables at chosen
  cases chosen with
  | @here passed _ later below same =>
      exfalso
      rcases List.append_eq_append_iff.mp shape with ⟨between, early, shape⟩ | ⟨between, early, shape⟩
      · cases between with
        | nil =>
            obtain ⟨rfl, -⟩ := List.cons.inj shape
            exact greater.ne same.symm
        | cons q between =>
            obtain ⟨rfl, -⟩ := List.cons.inj shape
            exact lt_asymm greater (below t (by simp [early]))
      · cases between with
        | nil =>
            obtain ⟨rfl, -⟩ := List.cons.inj shape
            exact greater.ne same.symm
        | cons q between =>
            obtain ⟨rfl, -⟩ := List.cons.inj shape
            have across := (List.pairwise_append.mp distinct).2.2
            exact across low (by simp [early]) u (by simp) same
  | first beyond => exact ⟨beyond.ne', beyond.ne'⟩
  | between passed beyond => exact ⟨(passed low (by simp)).ne, beyond.ne'⟩
  | last passed => exact ⟨(passed low (by simp)).ne, (passed low (by simp)).ne⟩

end Order

end Gvsoc.Interpolation
