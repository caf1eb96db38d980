import Mathlib.Data.List.Perm.Basic
import Mathlib.Data.List.Nodup

/-! Requests that are answered at once or later. A request is named by its place in the list of
the answers; `ids` are the requests with a debt, the ones that still wait together with the ones
whose debt was paid. -/
namespace Gvsoc.Ledger

variable {σ : Type} {owed : σ → Prop} {answers : List σ} {ids : List Nat}

/- Every request whose answer leaves a debt is there, once, and no other. -/
structure Balanced (owed : σ → Prop) (answers : List σ) (ids : List Nat) : Prop where
  once : ids.Nodup
  exact : ∀ id, id ∈ ids ↔ ∃ answer, answers[id]? = some answer ∧ owed answer

theorem balancedPerm {other : List Nat} (same : ids.Perm other) (balanced : Balanced owed answers ids) :
    Balanced owed answers other := by
  refine ⟨same.nodup_iff.mp balanced.once, fun id => ?_⟩
  rw [← same.mem_iff]
  exact balanced.exact id

theorem balancedSettled {answer : σ} (balanced : Balanced owed answers ids) (settled : ¬ owed answer) :
    Balanced owed (answers ++ [answer]) ids := by
  refine ⟨balanced.once, fun id => ?_⟩
  rw [balanced.exact id]
  constructor
  · rintro ⟨old, found, debt⟩
    exact ⟨old, List.getElem?_append_left (List.getElem?_eq_some_iff.mp found).1 ▸ found, debt⟩
  · rintro ⟨new, found, debt⟩
    rcases Nat.lt_or_ge id answers.length with before | after
    · rw [List.getElem?_append_left before] at found
      exact ⟨new, found, debt⟩
    · rw [List.getElem?_append_right after, List.getElem?_singleton] at found
      split at found
      · cases found
        contradiction
      · contradiction

theorem balancedOwed (answer : σ) (balanced : Balanced owed answers ids) (debt : owed answer) :
    Balanced owed (answers ++ [answer]) (answers.length :: ids) := by
  have fresh : answers.length ∉ ids := by
    intro member
    obtain ⟨old, found, -⟩ := (balanced.exact _).mp member
    simp at found
  refine ⟨List.nodup_cons.mpr ⟨fresh, balanced.once⟩, fun id => ?_⟩
  rw [List.mem_cons, balanced.exact id]
  constructor
  · rintro (rfl | ⟨old, found, owes⟩)
    · exact ⟨answer, by simp, debt⟩
    · exact ⟨old, List.getElem?_append_left (List.getElem?_eq_some_iff.mp found).1 ▸ found, owes⟩
  · rintro ⟨new, found, owes⟩
    rcases Nat.lt_trichotomy id answers.length with before | here | after
    · rw [List.getElem?_append_left before] at found
      exact .inr ⟨new, found, owes⟩
    · exact .inl here
    · rw [List.getElem?_eq_none (by simp; omega)] at found
      contradiction

theorem balancedPaid {id : Nat} {waiting paid : List Nat} (balanced : Balanced owed answers (id :: waiting ++ paid)) :
    Balanced owed answers (waiting ++ (paid ++ [id])) := by
  refine balancedPerm ?_ balanced
  rw [← List.append_assoc]
  exact (List.perm_append_singleton id _).symm

theorem balancedOnce {waiting paid : List Nat} {id : Nat} {answer : σ}
    (balanced : Balanced owed answers (waiting ++ paid)) (found : answers[id]? = some answer) (debt : owed answer) :
    (waiting.count id = 1 ∧ paid.count id = 0) ∨ (waiting.count id = 0 ∧ paid.count id = 1) := by
  have member : id ∈ waiting ++ paid := (balanced.exact id).mpr ⟨answer, found, debt⟩
  have total : (waiting ++ paid).count id = 1 := List.count_eq_one_of_mem balanced.once member
  rw [List.count_append] at total
  omega

theorem balancedNever {waiting paid : List Nat} {id : Nat} {answer : σ}
    (balanced : Balanced owed answers (waiting ++ paid)) (found : answers[id]? = some answer) (settled : ¬ owed answer) :
    waiting.count id = 0 ∧ paid.count id = 0 := by
  have absent : id ∉ waiting ++ paid := by
    intro member
    obtain ⟨other, same, debt⟩ := (balanced.exact id).mp member
    rw [found] at same
    cases same
    contradiction
  have total : (waiting ++ paid).count id = 0 := List.count_eq_zero_of_not_mem absent
  rw [List.count_append] at total
  omega

end Gvsoc.Ledger
