import Mathlib.Algebra.BigOperators.Fin
import Mathlib.Algebra.Order.BigOperators.Group.Finset
import Mathlib.Data.List.Nodup

/-! Linked chains kept as the list of their nodes, in link order. A node is spliced in
front of the first node whose key is not smaller, and unlinked wherever it stands.
Nothing here depends on what the nodes are. -/
namespace Gvsoc.Chain

variable {α : Type}

/- The usual two-pointer walk: `while (current && key(current) < k)`, then splice. -/
def insert (key : α → Int) (k : Int) (x : α) : List α → List α
  | [] => [x]
  | y :: ys => if key y < k then y :: insert key k x ys else x :: y :: ys

def Sorted (key : α → Int) (xs : List α) : Prop := xs.Pairwise (fun a b => key a ≤ key b)

theorem insertPerm (key : α → Int) (k : Int) (x : α) (xs : List α) :
    (insert key k x xs).Perm (x :: xs) := by
  induction xs with
  | nil => exact List.Perm.refl _
  | cons y ys ih =>
      simp only [insert]
      split
      · exact (ih.cons y).trans (List.Perm.swap x y ys)
      · exact List.Perm.refl _

@[simp] theorem memInsert {key : α → Int} {k : Int} {x z : α} {xs : List α} :
    z ∈ insert key k x xs ↔ z = x ∨ z ∈ xs := by
  rw [(insertPerm key k x xs).mem_iff, List.mem_cons]

theorem insertNeNil (key : α → Int) (k : Int) (x : α) (xs : List α) : insert key k x xs ≠ [] :=
  List.ne_nil_of_mem (memInsert.mpr (Or.inl rfl))

/- The walk compares old nodes with `k` only. What counts is the key the new node has
afterwards: `k`, or a smaller one with no old key in between. -/
theorem insertSorted {key : α → Int} {k : Int} {x : α} {xs : List α} (below : key x ≤ k)
    (between : ∀ y ∈ xs, key y ≤ key x ∨ k ≤ key y) (sorted : Sorted key xs) : Sorted key (insert key k x xs) := by
  induction xs with
  | nil => exact List.pairwise_singleton _ _
  | cons y ys ih =>
      obtain ⟨head, tail⟩ := List.pairwise_cons.mp sorted
      have first := between y List.mem_cons_self
      simp only [insert]
      split
      · rename_i early
        refine List.pairwise_cons.mpr ⟨?_, ih (fun z hz => between z (List.mem_cons_of_mem y hz)) tail⟩
        intro z hz
        rcases memInsert.mp hz with rfl | inside
        · omega
        · exact head z inside
      · rename_i notEarly
        refine List.pairwise_cons.mpr ⟨?_, sorted⟩
        intro z hz
        rcases List.mem_cons.mp hz with rfl | inside
        · omega
        · have := head z inside
          omega

theorem insertSortedAt {key : α → Int} {k : Int} {x : α} {xs : List α} (atKey : key x = k)
    (sorted : Sorted key xs) : Sorted key (insert key k x xs) := by
  refine insertSorted (le_of_eq atKey) (fun y _ => ?_) sorted
  omega

theorem sortedCongr {key key' : α → Int} {xs : List α} (same : ∀ x ∈ xs, key' x = key x)
    (sorted : Sorted key xs) : Sorted key' xs :=
  List.Pairwise.imp_of_mem (fun ha hb h => by rw [same _ ha, same _ hb]; exact h) sorted

theorem insertCongr {key key' : α → Int} {k : Int} {x : α} {xs : List α}
    (same : ∀ x ∈ xs, key' x = key x) : insert key' k x xs = insert key k x xs := by
  induction xs with
  | nil => rfl
  | cons y ys ih =>
      simp only [insert, same y List.mem_cons_self]
      rw [ih (fun z hz => same z (List.mem_cons_of_mem y hz))]

theorem sortedHead {key : α → Int} {x : α} {xs : List α} (sorted : Sorted key (x :: xs)) :
    ∀ z ∈ x :: xs, key x ≤ key z := by
  intro z hz
  rcases List.mem_cons.mp hz with rfl | inside
  · exact le_refl _
  · exact List.rel_of_pairwise_cons sorted inside

section Unlink

variable [DecidableEq α]

theorem countInsert (key : α → Int) (k : Int) (x z : α) (xs : List α) :
    (insert key k x xs).count z = xs.count z + if z = x then 1 else 0 := by
  rw [(insertPerm key k x xs).count_eq, List.count_cons]
  by_cases same : z = x
  · simp [same]
  · simp [same, Ne.symm same]

theorem countErase (x z : α) (xs : List α) (present : x ∈ xs) :
    (xs.erase x).count z + (if z = x then 1 else 0) = xs.count z := by
  by_cases same : z = x
  · subst z
    have positive := List.count_pos_iff.mpr present
    rw [List.count_erase_self, if_pos rfl]
    omega
  · rw [List.count_erase_of_ne same, if_neg same]
    rfl

end Unlink

section Slots

variable {β ι : Type} [Fintype ι] [DecidableEq ι]

theorem sumUpdate (f : ι → β) (g : β → Nat) (i : ι) (b : β) :
    (∑ s, g (Function.update f i b s)) + g (f i) = (∑ s, g (f s)) + g b := by
  have pulled : (fun s => g (Function.update f i b s)) = Function.update (fun s => g (f s)) i (g b) := by
    funext s
    by_cases h : s = i
    · subst s; simp
    · simp [h]
  rw [pulled, Finset.sum_update_of_mem (Finset.mem_univ i)]
  have whole := Finset.add_sum_erase Finset.univ (fun s => g (f s)) (Finset.mem_univ i)
  rw [Finset.sdiff_singleton_eq_erase]
  omega

omit [DecidableEq ι] in
theorem sumPositive (f : ι → β) (g : β → Nat) (i : ι) : g (f i) ≤ ∑ s, g (f s) :=
  Finset.single_le_sum (f := fun s => g (f s)) (fun _ _ => Nat.zero_le _) (Finset.mem_univ i)

end Slots

end Gvsoc.Chain
