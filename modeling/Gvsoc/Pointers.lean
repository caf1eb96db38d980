import Mathlib.Data.List.Nodup
import Mathlib.Logic.Function.Basic

/-! Singly linked lists through a `next` pointer that lives in the nodes. -/
namespace Gvsoc.Pointers

variable {α : Type}

inductive Linked (next : α → Option α) : Option α → List α → Prop where
  | nil : Linked next none []
  | cons {x rest} (later : Linked next (next x) rest) : Linked next (some x) (x :: rest)

section Frame

variable {next other : α → Option α} {first : Option α} {nodes : List α}

theorem linkedHead (linked : Linked next first nodes) : first = nodes.head? := by
  cases linked with
  | nil => rfl
  | cons later => rfl

theorem linkedTail {x : α} {rest : List α} (linked : Linked next first (x :: rest)) : Linked next (next x) rest := by
  cases linked with
  | cons later => exact later

theorem linkedCongr (linked : Linked next first nodes) (same : ∀ x ∈ nodes, other x = next x) :
    Linked other first nodes := by
  induction linked with
  | nil => exact .nil
  | @cons x rest later ih =>
      refine .cons ?_
      rw [same x List.mem_cons_self]
      exact ih (fun y inside => same y (List.mem_cons_of_mem x inside))

theorem linkedUpdate [DecidableEq α] {x : α} {target : Option α} (linked : Linked next first nodes) (outside : x ∉ nodes) :
    Linked (Function.update next x target) first nodes :=
  linkedCongr linked (fun _ inside => Function.update_of_ne (ne_of_mem_of_not_mem inside outside) _ _)

end Frame

section Nodes

def nodesFrom (next : α → Option α) : Nat → Option α → List α
  | rounds + 1, some x => x :: nodesFrom next rounds (next x)
  | _, _ => []

theorem nodesLinked {next : α → Option α} {first : Option α} {nodes : List α} {rounds : Nat}
    (linked : Linked next first nodes) (enough : nodes.length ≤ rounds) : nodesFrom next rounds first = nodes := by
  induction linked generalizing rounds with
  | nil => cases rounds <;> rfl
  | @cons x rest later ih =>
      cases rounds with
      | zero => simp at enough
      | succ rounds => rw [nodesFrom, ih (by simpa using enough)]

end Nodes

section Splice

variable [DecidableEq α] {next : α → Option α} {first : Option α}

theorem linkedSplice {left right : List α} {x : α} {target : Option α} {rest : List α}
    (linked : Linked next first (left ++ x :: right)) (once : (left ++ [x]).Nodup)
    (apart : ∀ y ∈ rest, y ∉ left ++ [x]) (onward : Linked next target rest) :
    Linked (Function.update next x target) first (left ++ x :: rest) := by
  induction left generalizing first with
  | nil =>
      cases linked with
      | cons later =>
          refine .cons ?_
          rw [Function.update_self]
          exact linkedUpdate onward (fun inside => apart x inside (by simp))
  | cons y left ih =>
      cases linked with
      | cons later =>
          simp only [List.cons_append, List.nodup_cons] at once
          have other : y ≠ x := fun same => once.1 (by simp [same])
          refine .cons ?_
          rw [Function.update_of_ne other]
          exact ih later once.2 (fun z inside member => apart z inside (List.mem_cons_of_mem y member))

theorem linkedSnoc {left : List α} {x fresh : α} (linked : Linked next first (left ++ [x])) (once : (left ++ [x]).Nodup)
    (outside : fresh ∉ left ++ [x]) :
    Linked (Function.update (Function.update next x (some fresh)) fresh none) first (left ++ [x, fresh]) := by
  have apart : x ≠ fresh := fun same => outside (by simp [same])
  have alone : Linked (Function.update next fresh none) (some fresh) [fresh] := by
    refine .cons ?_
    rw [Function.update_self]
    exact .nil
  rw [Function.update_comm apart]
  exact linkedSplice (linkedUpdate linked outside) once (fun y inside => by
    rw [List.mem_singleton.mp inside]
    exact outside) alone

theorem linkedSkip {left right : List α} {x gone : α} (linked : Linked next first (left ++ x :: gone :: right))
    (once : (left ++ x :: gone :: right).Nodup) :
    Linked (Function.update next x (next gone)) first (left ++ x :: right) := by
  have onward : Linked next (next gone) right := by
    clear once
    induction left generalizing first with
    | nil => exact linkedTail (linkedTail linked)
    | cons y left ih => exact ih (linkedTail linked)
  have shape : left ++ x :: gone :: right = (left ++ [x]) ++ (gone :: right) := by simp
  rw [shape] at once
  refine linkedSplice linked (List.Nodup.of_append_left once) (fun y inside member => ?_) onward
  exact (List.disjoint_of_nodup_append once) member (List.mem_cons_of_mem gone inside)

end Splice

section Walk

variable [DecidableEq α]

/- `while (current && current != x)`, with the node before the current one. Without an end when
the rounds do not suffice. -/
def walk (next : α → Option α) (x : α) : Nat → Option α → Option α → Option (Option α × Option α)
  | 0, _, _ => none
  | _ + 1, prev, none => some (prev, none)
  | rounds + 1, prev, some current =>
      if current = x then some (prev, some current) else walk next x rounds (some current) (next current)

theorem walkFinds {next : α → Option α} {first : Option α} {left right : List α} {x : α} {rounds : Nat} (prev : Option α)
    (linked : Linked next first (left ++ x :: right)) (before : x ∉ left) (enough : left.length < rounds) :
    walk next x rounds prev first = some (left.getLast?.or prev, some x) := by
  induction left generalizing first rounds prev with
  | nil =>
      obtain ⟨n, rfl⟩ : ∃ n, rounds = n + 1 := ⟨rounds - 1, by simp at enough; omega⟩
      cases linked with
      | cons later => simp [walk]
  | cons y left ih =>
      obtain ⟨n, rfl⟩ : ∃ n, rounds = n + 1 := ⟨rounds - 1, by simp at enough; omega⟩
      cases linked with
      | cons later =>
          have other : y ≠ x := fun same => before (by simp [same])
          rw [walk, if_neg other, ih (some y) later (fun inside => before (List.mem_cons_of_mem y inside))
            (by simpa using enough)]
          cases left with
          | nil => rfl
          | cons z left => simp [List.getLast?_cons]

end Walk

end Gvsoc.Pointers
