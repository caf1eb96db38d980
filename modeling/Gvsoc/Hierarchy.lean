import Mathlib.Algebra.BigOperators.Group.Finset.Piecewise
import Mathlib.Algebra.BigOperators.Pi

/-! Amounts kept at the nodes of a rooted tree. A node is the list of the names from itself up to
the root. The excess of a node is what it holds beyond what its children hold. -/
namespace Gvsoc.Hierarchy

variable {α M : Type} [DecidableEq α] [AddCommGroup M]

structure Rooted (α : Type) where
  nodes : Finset (List α)
  closed : ∀ a i, a :: i ∈ nodes → i ∈ nodes

def Rooted.children (tree : Rooted α) (i : List α) : Finset (List α) := tree.nodes.filter fun c => c ≠ [] ∧ c.tail = i

theorem childrenMember {tree : Rooted α} {c i : List α} : c ∈ tree.children i ↔ c ∈ tree.nodes ∧ ∃ a, c = a :: i := by
  cases c with
  | nil => simp [Rooted.children]
  | cons a rest => simp [Rooted.children]

theorem rootNoChild {tree : Rooted α} (i : List α) : [] ∉ tree.children i := by simp [Rooted.children]

theorem childOf {tree : Rooted α} {a : α} {i x : List α} (member : a :: i ∈ tree.nodes) : a :: i ∈ tree.children x ↔ x = i := by
  rw [childrenMember]
  constructor
  · rintro ⟨-, b, shape⟩
    exact (List.cons.inj shape).2.symm
  · rintro rfl
    exact ⟨member, a, rfl⟩

def excess (tree : Rooted α) (f : List α → M) (i : List α) : M := f i - ∑ c ∈ tree.children i, f c

theorem excessAdd (tree : Rooted α) (f g : List α → M) (x : List α) :
    excess tree (f + g) x = excess tree f x + excess tree g x := by
  simp only [excess, Pi.add_apply, Finset.sum_add_distrib]
  exact add_sub_add_comm _ _ _ _

theorem excessSingle (tree : Rooted α) (i : List α) (w : M) (x : List α) :
    excess tree (Pi.single i w) x = (if x = i then w else 0) - if i ∈ tree.children x then w else 0 := by
  simp only [excess, Pi.single_apply, Finset.sum_ite_eq']

theorem excessAdded (tree : Rooted α) (f : List α → M) (i : List α) (w : M) (x : List α) :
    excess tree (f + Pi.single i w) x =
      excess tree f x + (if x = i then w else 0) - if i ∈ tree.children x then w else 0 := by
  rw [excessAdd, excessSingle, add_sub_assoc]

end Gvsoc.Hierarchy
