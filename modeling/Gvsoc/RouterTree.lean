import Gvsoc.Router
import Mathlib.Data.List.Pairwise

/-! The lookup tree of the router. The descent ends at the last entry, in the order of the bases,
whose base is not above the address; entries that do not overlap are then found exactly at the
addresses they cover. -/
namespace Gvsoc.Routing

def MapEntry.covers (entry : MapEntry) (x : Nat) : Prop :=
  entry.base.toNat ≤ x ∧ x < entry.base.toNat + entry.size.toNat

instance (entry : MapEntry) (x : Nat) : Decidable (entry.covers x) := inferInstanceAs (Decidable (_ ∧ _))

def InOrder (entries : List MapEntry) : Prop := entries.Pairwise (fun e f => e.base ≤ f.base)

def Apart (e f : MapEntry) : Prop := ∀ x, ¬ (e.covers x ∧ f.covers x)

instance : Std.Symm Apart := ⟨fun _ _ apart x both => apart x both.symm⟩

def Disjoint (entries : List MapEntry) : Prop := entries.Pairwise Apart

section Order

theorem insertMember {entry e : MapEntry} {entries : List MapEntry} (member : e ∈ insertSorted entry entries) :
    e = entry ∨ e ∈ entries := by
  induction entries with
  | nil => exact .inl (List.mem_singleton.mp member)
  | cons current rest ih =>
      unfold insertSorted at member
      split at member
      · rcases List.mem_cons.mp member with rfl | later
        · exact .inr List.mem_cons_self
        · rcases ih later with same | before
          · exact .inl same
          · exact .inr (List.mem_cons_of_mem _ before)
      · exact List.mem_cons.mp member

theorem insertInOrder {entries : List MapEntry} (entry : MapEntry) (order : InOrder entries) :
    InOrder (insertSorted entry entries) := by
  induction entries with
  | nil => exact List.pairwise_singleton _ _
  | cons current rest ih =>
      obtain ⟨first, later⟩ := List.pairwise_cons.mp order
      unfold insertSorted
      split
      · rename_i below
        refine List.pairwise_cons.mpr ⟨?_, ih later⟩
        intro e member
        rcases insertMember member with rfl | before
        · exact BitVec.le_of_lt below
        · exact first e before
      · rename_i above
        have upper : entry.base ≤ current.base := BitVec.not_lt.mp above
        refine List.pairwise_cons.mpr ⟨?_, order⟩
        intro e member
        rcases List.mem_cons.mp member with rfl | before
        · exact upper
        · exact BitVec.le_trans upper (first e before)

structure Table (m : Router) : Prop where
  order : InOrder m.firstMapEntry
  sized : ∀ e ∈ m.firstMapEntry, e.size ≠ 0 ∧ e.target ≠ .none

theorem insertTable {m : Router} (entry : MapEntry) (table : Table m) : Table (m.insert entry) := by
  unfold Router.insert
  split
  · rename_i sized
    split
    · rename_i target
      refine ⟨insertInOrder entry table.order, ?_⟩
      intro e member
      rcases insertMember member with rfl | before
      · exact ⟨sized, target⟩
      · exact table.sized e before
    · exact ⟨table.order, table.sized⟩
  · exact ⟨table.order, table.sized⟩

theorem buildTable (entries : List MapEntry) : Table (Router.build entries) := by
  have all : ∀ m, Table m → Table (entries.foldl Router.insert m) := by
    induction entries with
    | nil => exact fun _ table => table
    | cons entry rest ih => exact fun m table => ih _ (insertTable entry table)
  exact all _ ⟨List.Pairwise.nil, by simp⟩

end Order

section Tree

def Tree.leaves : Tree → List MapEntry
  | .leaf entry => [entry]
  | .node _ _ left right => left.leaves ++ right.leaves

def Tree.Shaped : Tree → Prop
  | .leaf _ => True
  | .node base lowestBase left right => left.Shaped ∧ right.Shaped ∧ base = right.lowest ∧ lowestBase = left.lowest

theorem shapedLowest {t : Tree} (shaped : t.Shaped) : ∃ e rest, t.leaves = e :: rest ∧ t.lowest = e.base := by
  induction t with
  | leaf entry => exact ⟨entry, [], rfl, rfl⟩
  | node base lowestBase left right leftIh rightIh =>
      obtain ⟨leftShaped, -, -, lowest⟩ := shaped
      obtain ⟨e, rest, leaves, first⟩ := leftIh leftShaped
      exact ⟨e, rest ++ right.leaves, by simp [Tree.leaves, leaves], lowest.trans first⟩

theorem mergeLevelShaped {level : List Tree} (shaped : ∀ t ∈ level, t.Shaped) :
    (∀ t ∈ mergeLevel level, t.Shaped) ∧ (mergeLevel level).flatMap Tree.leaves = level.flatMap Tree.leaves := by
  induction level using mergeLevel.induct with
  | case1 left right rest ih =>
      obtain ⟨later, leaves⟩ := ih (fun t member => shaped t (by simp [member]))
      refine ⟨?_, by simp [mergeLevel, Tree.leaves, leaves]⟩
      intro t member
      rcases List.mem_cons.mp member with rfl | after
      · exact ⟨shaped left (by simp), shaped right (by simp), rfl, rfl⟩
      · exact later t after
  | case2 level short =>
      have same : mergeLevel level = level := by
        unfold mergeLevel
        split
        · rename_i left right rest
          exact absurd rfl (short left right rest)
        · rfl
      rw [same]
      exact ⟨shaped, rfl⟩

theorem mergeLevelLength (level : List Tree) : (mergeLevel level).length = (level.length + 1) / 2 := by
  induction level using mergeLevel.induct with
  | case1 left right rest ih =>
      simp only [mergeLevel, List.length_cons, ih]
      omega
  | case2 level short =>
      cases level with
      | nil => rfl
      | cons left rest =>
          cases rest with
          | nil => simp [mergeLevel]
          | cons right rest => exact absurd rfl (short left right rest)

theorem initEntriesShaped (fuel : Nat) (level : List Tree) (enough : level.length ≤ fuel + 1) (some : level ≠ [])
    (shaped : ∀ t ∈ level, t.Shaped) :
    ∃ top, initEntries fuel level = .some top ∧ top.Shaped ∧ top.leaves = level.flatMap Tree.leaves := by
  induction fuel generalizing level with
  | zero =>
      match level, enough, some with
      | [top], _, _ => exact ⟨top, by simp [initEntries], shaped top (by simp), by simp⟩
  | succ fuel ih =>
      match level, enough, some with
      | [top], _, _ => exact ⟨top, by simp [initEntries], shaped top (by simp), by simp⟩
      | left :: right :: rest, enough, _ =>
          obtain ⟨merged, leaves⟩ := mergeLevelShaped shaped
          have length := mergeLevelLength (left :: right :: rest)
          simp only [List.length_cons] at enough length
          obtain ⟨top, built, shape, all⟩ := ih (mergeLevel (left :: right :: rest)) (by omega)
            (by simp [mergeLevel]) merged
          refine ⟨top, ?_, shape, all.trans leaves⟩
          rw [initEntries]
          · exact built
          all_goals simp

def lastBelow (offset : Word) (entries : List MapEntry) : Option MapEntry :=
  (entries.filter (fun e => e.base ≤ offset)).getLast?.or entries.head?

theorem descendLast {t : Tree} (offset : Word) (shaped : t.Shaped) (order : InOrder t.leaves) :
    some (t.descend offset) = lastBelow offset t.leaves := by
  induction t with
  | leaf entry =>
      unfold lastBelow Tree.leaves Tree.descend
      by_cases below : entry.base ≤ offset <;> simp [below]
  | node base lowestBase left right leftIh rightIh =>
      obtain ⟨leftShaped, rightShaped, middle, -⟩ := shaped
      obtain ⟨leftOrder, rightOrder, between⟩ := List.pairwise_append.mp order
      obtain ⟨e, rest, leaves, lowest⟩ := shapedLowest rightShaped
      obtain ⟨e', rest', leaves', -⟩ := shapedLowest leftShaped
      unfold Tree.descend
      rw [middle, lowest]
      by_cases below : e.base ≤ offset
      · rw [if_pos below, rightIh rightShaped rightOrder]
        obtain ⟨last, found⟩ := Option.isSome_iff_exists.mp
          (List.getLast?_isSome.mpr (List.cons_ne_nil e (rest.filter (fun f => f.base ≤ offset))))
        unfold lastBelow
        simp only [Tree.leaves, List.filter_append, leaves, List.filter_cons, below, decide_true, if_true,
          List.getLast?_append, found, Option.some_or]
      · rw [if_neg below, leftIh leftShaped leftOrder]
        have none : right.leaves.filter (fun f => f.base ≤ offset) = [] := by
          rw [List.filter_eq_nil_iff]
          intro f member
          rw [leaves] at member rightOrder
          have above : e.base ≤ f.base := by
            rcases List.mem_cons.mp member with rfl | later
            · exact BitVec.le_refl _
            · exact (List.pairwise_cons.mp rightOrder).1 f later
          simpa using fun upper => below (BitVec.le_trans above upper)
        unfold lastBelow
        simp only [Tree.leaves, List.filter_append, none, List.append_nil]
        simp only [leaves', List.cons_append, List.head?_cons]

end Tree

section Find

variable {m : Router} {x : Word} {e f : MapEntry}

theorem topShaped (some : m.firstMapEntry ≠ []) :
    ∃ top, m.topMapEntry = .some top ∧ top.Shaped ∧ top.leaves = m.firstMapEntry := by
  obtain ⟨top, built, shaped, leaves⟩ := initEntriesShaped m.firstMapEntry.length (m.firstMapEntry.map .leaf) (by simp) (by simpa using some)
    (by intro t member; obtain ⟨entry, -, rfl⟩ := List.mem_map.mp member; trivial)
  refine ⟨top, built, shaped, leaves.trans ?_⟩
  simp [List.flatMap_map, Tree.leaves]

theorem rangeInside (sized : e.size ≠ 0) :
    ¬ (x < e.base ∨ e.base + e.size - 1 < x) ↔ e.covers x.toNat ∧ e.base.toNat + e.size.toNat ≤ 2 ^ 64 := by
  have base := e.base.isLt
  have size := e.size.isLt
  have offset := x.isLt
  have positive : e.size.toNat ≠ 0 := fun zero => sized (BitVec.eq_of_toNat_eq (by simpa using zero))
  unfold MapEntry.covers
  rw [BitVec.lt_def, BitVec.lt_def, BitVec.toNat_sub, BitVec.toNat_add]
  have one : (1 : Word).toNat = 1 := rfl
  rw [one]
  omega

theorem findMember (table : Table m) (found : m.find x = some e) :
    e ∈ m.firstMapEntry ∧ e.covers x.toNat ∧ e.base.toNat + e.size.toNat ≤ 2 ^ 64 := by
  obtain ⟨top, built, rest⟩ := Option.bind_eq_some_iff.mp found
  have some : m.firstMapEntry ≠ [] := by
    intro empty
    simp [Router.topMapEntry, empty, initEntries] at built
  obtain ⟨_, built', shaped, leaves⟩ := topShaped some
  rw [built] at built'
  cases built'
  dsimp only at rest
  split at rest
  · contradiction
  · rename_i inside
    cases rest
    have last := descendLast x shaped (leaves ▸ table.order)
    have member : top.descend x ∈ m.firstMapEntry := by
      rw [leaves] at last
      unfold lastBelow at last
      rcases Option.or_eq_some_iff.mp last.symm with below | ⟨-, first⟩
      · exact (List.mem_filter.mp (List.mem_of_getLast? below)).1
      · exact List.mem_of_head? first
    exact ⟨member, (rangeInside (table.sized _ member).1).mp inside⟩

/- An entry that starts below the address and is not the last one is hidden by the last one. -/
theorem findCovers (table : Table m) (disjoint : Disjoint m.firstMapEntry) (member : e ∈ m.firstMapEntry)
    (covers : e.covers x.toNat) (inside : e.base.toNat + e.size.toNat ≤ 2 ^ 64) : m.find x = some e := by
  obtain ⟨top, built, shaped, leaves⟩ := topShaped (List.ne_nil_of_mem member)
  have last := descendLast x shaped (leaves ▸ table.order)
  rw [leaves] at last
  have below : e ∈ m.firstMapEntry.filter (fun e => e.base ≤ x) :=
    List.mem_filter.mpr ⟨member, by simpa [BitVec.le_def] using covers.1⟩
  obtain ⟨f, found⟩ := Option.isSome_iff_exists.mp (List.getLast?_isSome.mpr (List.ne_nil_of_mem below))
  have descent : top.descend x = f := by
    unfold lastBelow at last
    rw [found] at last
    exact Option.some.inj last
  have memberF := List.mem_filter.mp (List.mem_of_getLast? found)
  have order : e.base ≤ f.base := by
    obtain ⟨front, shape⟩ := List.getLast?_eq_some_iff.mp found
    have sorted : InOrder (m.firstMapEntry.filter (fun e => e.base ≤ x)) := table.order.filter _
    rw [shape] at below sorted
    rcases List.mem_append.mp below with before | same
    · exact (List.pairwise_append.mp sorted).2.2 e before f (by simp)
    · rw [List.mem_singleton.mp same]
      exact BitVec.le_refl _
  have same : e = f := by
    by_contra different
    have apart := List.Pairwise.forall disjoint member memberF.1 different
    have positive : f.size.toNat ≠ 0 :=
      fun zero => (table.sized f memberF.1).1 (BitVec.eq_of_toNat_eq (by simpa using zero))
    have upper : f.base ≤ x := by simpa using memberF.2
    rw [BitVec.le_def] at order upper
    refine apart f.base.toNat ⟨⟨order, ?_⟩, Nat.le_refl _, by omega⟩
    have := covers.2
    omega
  unfold Router.find
  rw [built]
  simp only [Option.bind_some, descent, ← same]
  rw [if_neg ((rangeInside (table.sized e member).1).mpr ⟨covers, inside⟩)]

end Find

end Gvsoc.Routing
