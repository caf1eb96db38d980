import Mathlib.Data.List.Induction
import Mathlib.Data.List.Nodup

/-! An ordered dictionary that collects the elements of a list by their key. -/
namespace Gvsoc.Grouping

variable {α κ : Type} [DecidableEq κ]

def register (key : κ) (a : α) : List (κ × List α) → List (κ × List α)
  | [] => [(key, [a])]
  | (k, members) :: rest => if k = key then (k, members ++ [a]) :: rest else (k, members) :: register key a rest

def groupBy (keyOf : α → κ) (list : List α) : List (κ × List α) :=
  list.foldl (fun groups a => register (keyOf a) a groups) []

variable {keyOf : α → κ} {keys : List κ} {list : List α}

def collect (keyOf : α → κ) (list : List α) (keys : List κ) : List (κ × List α) :=
  keys.map (fun k => (k, list.filter (fun a => keyOf a = k)))

theorem registerCollect (a : α) (distinct : keys.Nodup) (none : keyOf a ∉ keys → ∀ b ∈ list, keyOf b ≠ keyOf a) :
    register (keyOf a) a (collect keyOf list keys) =
      collect keyOf (list ++ [a]) (if keyOf a ∈ keys then keys else keys ++ [keyOf a]) := by
  have others (k : κ) (other : keyOf a ≠ k) : (list ++ [a]).filter (fun b => keyOf b = k) = list.filter (fun b => keyOf b = k) := by
    simp [List.filter_append, other]
  induction keys with
  | nil =>
      have alone : list.filter (fun b => keyOf b = keyOf a) = [] := by
        rw [List.filter_eq_nil_iff]
        simpa using none (by simp)
      simp [register, collect, List.filter_append, alone]
  | cons k keys ih =>
      obtain ⟨fresh, distinct⟩ := List.nodup_cons.mp distinct
      by_cases same : k = keyOf a
      · subst same
        have apart (k : κ) (member : k ∈ keys) : ¬ keyOf a = k := fun same => fresh (same ▸ member)
        simpa [register, collect, List.filter_append] using apart
      · have later := ih distinct (fun out => none (by simp [out, Ne.symm same]))
        simp only [collect] at later
        have head := others k (fun eq => same eq.symm)
        by_cases member : keyOf a ∈ keys <;> simp_all [register, collect, Ne.symm same]

theorem groupByCollect (keyOf : α → κ) (list : List α) :
    ∃ keys : List κ, keys.Nodup ∧ (∀ k, k ∈ keys ↔ ∃ a ∈ list, keyOf a = k) ∧ groupBy keyOf list = collect keyOf list keys := by
  induction list using List.reverseRecOn with
  | nil => exact ⟨[], by simp, by simp, rfl⟩
  | append_singleton list a ih =>
      obtain ⟨keys, distinct, members, same⟩ := ih
      refine ⟨if keyOf a ∈ keys then keys else keys ++ [keyOf a], ?_, ?_, ?_⟩
      · split_ifs with member
        · exact distinct
        · exact distinct.append (by simp) (by simpa using member)
      · intro k
        split_ifs with member
        · rw [members k]
          constructor
          · rintro ⟨b, inside, key⟩
            exact ⟨b, by simp [inside], key⟩
          · rintro ⟨b, inside, rfl⟩
            rcases List.mem_append.mp inside with old | new
            · exact ⟨b, old, rfl⟩
            · rw [List.mem_singleton.mp new]
              exact (members _).mp member
        · simp only [List.mem_append, members k, List.mem_singleton]
          constructor
          · rintro (⟨b, inside, key⟩ | rfl)
            · exact ⟨b, .inl inside, key⟩
            · exact ⟨a, .inr rfl, rfl⟩
          · rintro ⟨b, inside | rfl, key⟩
            · exact .inl ⟨b, inside, key⟩
            · exact .inr key.symm
      · have one : groupBy keyOf (list ++ [a]) = register (keyOf a) a (groupBy keyOf list) := by simp [groupBy, List.foldl_append]
        rw [one, same]
        exact registerCollect a distinct (fun out b inside key => out ((members _).mpr ⟨b, inside, key⟩))

end Gvsoc.Grouping
