import Mathlib.Data.Finset.Max
import Mathlib.Order.Interval.Finset.Nat

/-! Sets of positions that are read as fields: as many consecutive positions as the set has, from its lowest. -/
namespace Gvsoc.Fields

def field (low : ℕ) (s : Finset ℕ) : Finset ℕ := Finset.Ico low (low + s.card)

section One

variable {s : Finset ℕ} {low : ℕ}

theorem fieldSelf (lower : ∀ x ∈ s, low ≤ x) (short : ∀ x ∈ s, x < low + s.card) : field low s = s := by
  have inside : s ⊆ field low s := by
    intro x member
    exact Finset.mem_Ico.mpr ⟨lower x member, short x member⟩
  symm
  apply Finset.eq_of_subset_of_card_le inside
  simp [field]

theorem fieldConnected (lower : ∀ x ∈ s, low ≤ x) (connected : ∀ x ∈ s, ∀ y, low ≤ y → y ≤ x → y ∈ s) :
    field low s = s := by
  refine fieldSelf lower (fun x member => ?_)
  have whole : Finset.Icc low x ⊆ s := by
    intro y inside
    obtain ⟨above, below⟩ := Finset.mem_Icc.mp inside
    exact connected x member y above below
  have counted := Finset.card_le_card whole
  have above := lower x member
  simp only [Nat.card_Icc] at counted
  omega

end One

/- Of sets that are apart, one of which is not its field, some position is read for none: the last one of those sets. -/
theorem unread (sets : List (Finset ℕ)) (low : Finset ℕ → ℕ) (lower : ∀ s ∈ sets, ∀ x ∈ s, low s ≤ x)
    (apart : ∀ s ∈ sets, ∀ s' ∈ sets, s ≠ s' → Disjoint s s') (gap : ∃ s ∈ sets, field (low s) s ≠ s) :
    ∃ s ∈ sets, ∃ t ∈ s, ∀ s' ∈ sets, t ∉ field (low s') s' := by
  obtain ⟨s₀, member₀, gap₀⟩ := gap
  -- a set with a gap ends behind its field
  have ends (s : Finset ℕ) (member : s ∈ sets) (gap : field (low s) s ≠ s) : low s + s.card ≤ s.sup id := by
    by_contra short
    refine gap (fieldSelf (lower s member) (fun x inside => ?_))
    have below : x ≤ s.sup id := Finset.le_sup (f := id) inside
    omega
  have someGap : (sets.toFinset.filter (fun s => field (low s) s ≠ s)).Nonempty := ⟨s₀, by simp [member₀, gap₀]⟩
  obtain ⟨s, chosen, last⟩ := Finset.exists_max_image _ (fun s : Finset ℕ => s.sup id) someGap
  obtain ⟨member, gap⟩ : s ∈ sets ∧ field (low s) s ≠ s := by simpa using chosen
  have some : s.Nonempty := by
    rw [Finset.nonempty_iff_ne_empty]
    rintro rfl
    exact gap (by simp [field])
  obtain ⟨t, inside, top⟩ := Finset.exists_mem_eq_sup s some id
  have top : s.sup id = t := top
  refine ⟨s, member, t, inside, fun s' member' read => ?_⟩
  by_cases gap' : field (low s') s' = s'
  · have other : s ≠ s' := by
      rintro rfl
      exact gap gap'
    rw [gap'] at read
    exact Finset.disjoint_left.mp (apart s member s' member' other) inside read
  · have later := last s' (by simp [member', gap'])
    have behind := ends s' member' gap'
    have short := (Finset.mem_Ico.mp read).2
    simp only [top] at later
    omega

end Gvsoc.Fields
