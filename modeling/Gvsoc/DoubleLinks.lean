import Mathlib.Data.List.Nodup
import Mathlib.Logic.Function.Basic

/-! Doubly linked lists through `next` and `prev` pointers that live in the nodes. -/
namespace Gvsoc.DoubleLinks

variable {α : Type}

inductive Segment (next prev : α → Option α) : Option α → Option α → List α → Option α → Option α → Prop where
  | nil {before after} : Segment next prev before after [] before after
  | cons {before x rest last after} (back : prev x = before) (later : Segment next prev (some x) (next x) rest last after) :
      Segment next prev before (some x) (x :: rest) last after

def Chained (next prev : α → Option α) (before first : Option α) (nodes : List α) : Prop :=
  ∃ last, Segment next prev before first nodes last none

section Frame

variable {next prev next' prev' : α → Option α} {before first last after middle : Option α} {left right nodes : List α}

theorem segmentCongr (segment : Segment next prev before first nodes last after) (onward : ∀ x ∈ nodes, next' x = next x)
    (back : ∀ x ∈ nodes, prev' x = prev x) : Segment next' prev' before first nodes last after := by
  induction segment with
  | nil => exact .nil
  | @cons before x rest last after own later rec =>
      refine .cons ((back x List.mem_cons_self).trans own) ?_
      rw [onward x List.mem_cons_self]
      exact rec (fun y inside => onward y (List.mem_cons_of_mem x inside)) fun y inside => back y (List.mem_cons_of_mem x inside)

theorem segmentSplit (segment : Segment next prev before first (left ++ right) last after) :
    ∃ middle start, Segment next prev before first left middle start ∧ Segment next prev middle start right last after := by
  induction left generalizing before first with
  | nil => exact ⟨before, first, .nil, segment⟩
  | cons x left rec =>
      cases segment with
      | cons own later =>
          obtain ⟨middle, start, front, back⟩ := rec later
          exact ⟨middle, start, .cons own front, back⟩

theorem segmentJoin {start : Option α} (front : Segment next prev before first left middle start)
    (back : Segment next prev middle start right last after) : Segment next prev before first (left ++ right) last after := by
  induction front with
  | nil => exact back
  | cons own later rec => exact .cons own (rec back)

theorem segmentFirst (segment : Segment next prev before first nodes last after) : first = nodes.head?.or after := by
  cases segment with
  | nil => rfl
  | cons own later => rfl

theorem segmentLast (segment : Segment next prev before first nodes last after) : last = nodes.getLast?.or before := by
  induction segment with
  | nil => rfl
  | @cons before x rest last after own later rec =>
      rw [rec]
      cases rest with
      | nil => rfl
      | cons y rest => simp [List.getLast?_cons]

end Frame

section Bend

variable [DecidableEq α] {next prev : α → Option α} {before first last after target : Option α} {nodes : List α}

/- `if (last) last->next = target` -/
def onward (next : α → Option α) (last target : Option α) : α → Option α :=
  match last with
  | some p => Function.update next p target
  | none => next

/- `if (first) first->prev = target` -/
def backward (prev : α → Option α) (first target : Option α) : α → Option α :=
  match first with
  | some p => Function.update prev p target
  | none => prev

theorem onwardOther {x : α} (other : last ≠ some x) : onward next last target x = next x := by
  cases last with
  | none => rfl
  | some p => exact Function.update_of_ne (fun same => other (by rw [same])) _ _

theorem backwardOther {x : α} (other : first ≠ some x) : backward prev first target x = prev x := by
  cases first with
  | none => rfl
  | some p => exact Function.update_of_ne (fun same => other (by rw [same])) _ _

theorem backwardCongr {prev' : α → Option α} {x : α} (same : prev' x = prev x) :
    backward prev' first target x = backward prev first target x := by
  cases first with
  | none => exact same
  | some p =>
      by_cases own : x = p
      · simp [backward, own]
      · simp [backward, own, same]

theorem segmentBend (segment : Segment next prev before first nodes last after) (once : nodes.Nodup) (apart : ∀ x ∈ nodes, before ≠ some x) :
    Segment (onward next last target) prev before (if last = before then target else first) nodes last target := by
  induction segment with
  | nil =>
      rw [if_pos rfl]
      exact .nil
  | @cons before x rest last after own later rec =>
      obtain ⟨absent, once⟩ := List.nodup_cons.mp once
      have different : last ≠ before := by
        intro same
        have shown := segmentLast later
        rw [same] at shown
        cases rest with
        | nil => exact apart x List.mem_cons_self shown
        | cons y rest =>
            obtain ⟨z, member⟩ := Option.isSome_iff_exists.mp (show ((y :: rest).getLast?).isSome by simp)
            rw [member] at shown
            exact apart z (List.mem_cons_of_mem x (List.mem_of_getLast? member)) shown
      have bent := rec once fun y inside same => absent (Option.some.inj same ▸ inside)
      rw [if_neg different]
      refine .cons own ?_
      by_cases alone : last = some x
      · rw [alone, if_pos rfl] at bent
        rw [alone]
        simpa [onward] using bent
      · rw [if_neg alone] at bent
        rw [onwardOther alone]
        exact bent

theorem chainedBend (target : Option α) (chained : Chained next prev before first nodes) (once : nodes.Nodup) :
    Chained next (backward prev first target) target first nodes := by
  obtain ⟨last, segment⟩ := chained
  cases segment with
  | nil => exact ⟨target, .nil⟩
  | @cons before x rest last after own later =>
      obtain ⟨absent, once⟩ := List.nodup_cons.mp once
      refine ⟨last, .cons (by simp [backward]) ?_⟩
      exact segmentCongr later (fun _ _ => rfl) fun y inside => backwardOther fun same => absent (Option.some.inj same ▸ inside)

end Bend

section Nodes

variable [DecidableEq α] {next prev : α → Option α} {first middle current : Option α} {left right : List α} {x : α}

theorem chainedTake (chained : Chained next prev none first (left ++ x :: right)) (once : (left ++ x :: right).Nodup) :
    Chained (onward next (prev x) (next x)) (backward prev (next x) (prev x)) none (if prev x = none then next x else first)
      (left ++ right) := by
  obtain ⟨last, segment⟩ := chained
  obtain ⟨middle, start, front, rest⟩ := segmentSplit segment
  obtain ⟨single, later, disjoint⟩ := List.nodup_append.mp once
  obtain ⟨absent, others⟩ := List.nodup_cons.mp later
  have front' : Segment next prev none first left middle (some x) := by
    cases rest
    exact front
  have ends := segmentLast front
  have starts : ∃ last, Segment next prev (some x) (next x) right last none := by
    cases rest with
    | cons own later => exact ⟨_, later⟩
  have own : prev x = middle := by
    cases rest with
    | cons own later => exact own
  rw [own]
  obtain ⟨last', rest'⟩ := chainedBend middle starts others
  refine ⟨last', segmentJoin (segmentCongr (segmentBend front' single (by simp)) (fun _ _ => rfl) fun y inside => ?_)
    (segmentCongr rest' (fun y inside => ?_) fun _ _ => rfl)⟩
  · refine backwardOther fun same => ?_
    obtain ⟨last, starts⟩ := starts
    have head := segmentFirst starts
    rw [same, Option.or_none] at head
    exact disjoint y inside y (List.mem_cons_of_mem x (List.mem_of_head? head.symm)) rfl
  · refine onwardOther fun same => ?_
    rw [ends, Option.or_none] at same
    exact disjoint y (List.mem_of_getLast? same) y (List.mem_cons_of_mem x inside) rfl

theorem chainedPut (front : Segment next prev none first left middle current) (rest : Chained next prev middle current right)
    (once : (left ++ right).Nodup) (fresh : x ∉ left ++ right) :
    Chained (Function.update (onward next middle (some x)) x current) (backward (Function.update prev x middle) current (some x)) none
      (if middle = none then some x else first) (left ++ x :: right) := by
  obtain ⟨single, others, disjoint⟩ := List.nodup_append.mp once
  have ends := segmentLast front
  obtain ⟨last, starts⟩ := rest
  have head := segmentFirst starts
  rw [Option.or_none] at head ends
  have apart : ∀ y ∈ left ++ right, y ≠ x := fun y inside same => fresh (same ▸ inside)
  have same : current ≠ some x := fun same => apart x (List.mem_append_right left (List.mem_of_head? (head ▸ same))) rfl
  obtain ⟨last', rest'⟩ := chainedBend (some x) ⟨last, starts⟩ others
  refine ⟨last', segmentJoin (segmentCongr (segmentBend front single (by simp)) (fun y inside => ?_) fun y inside => ?_)
    (.cons ?_ ?_)⟩
  · exact Function.update_of_ne (apart y (List.mem_append_left right inside)) _ _
  · rw [backwardOther fun same => disjoint y inside y (List.mem_of_head? (head ▸ same)) rfl]
    exact Function.update_of_ne (apart y (List.mem_append_left right inside)) _ _
  · rw [backwardOther same, Function.update_self]
  · rw [Function.update_self]
    refine segmentCongr rest' (fun y inside => ?_) fun y inside => ?_
    · rw [Function.update_of_ne (apart y (List.mem_append_right left inside))]
      exact onwardOther fun same => disjoint y (List.mem_of_getLast? (ends ▸ same)) y inside rfl
    · exact backwardCongr (Function.update_of_ne (apart y (List.mem_append_right left inside)) _ _)

end Nodes

end Gvsoc.DoubleLinks
