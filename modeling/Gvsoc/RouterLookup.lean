import Gvsoc.RouterTree
import Mathlib.Data.List.Sort

/-! The lookup against a linear scan of the entries as they were inserted. The two select the same entry at every address
if and only if no entry runs over the end of the address space. -/
namespace Gvsoc.Routing

def mapEntries (entries : List MapEntry) : List MapEntry := entries.filter (fun e => e.size ≠ 0 ∧ e.target ≠ .none)

def scan (entries : List MapEntry) (offset : Word) : Option MapEntry := (mapEntries entries).find? (fun e => e.covers offset.toNat)

section Insert

theorem insertOrdered (entry : MapEntry) (entries : List MapEntry) :
    insertSorted entry entries = entries.orderedInsert (fun e f => e.base ≤ f.base) entry := by
  induction entries with
  | nil => rfl
  | cons current rest rec =>
      rw [insertSorted, List.orderedInsert_cons, rec]
      by_cases below : current.base < entry.base
      · rw [if_pos below, if_neg (BitVec.not_le.mpr below)]
      · rw [if_neg below, if_pos (BitVec.not_lt.mp below)]

theorem insertTablePerm (m : Router) (entry : MapEntry) :
    (m.insert entry).firstMapEntry.Perm (mapEntries [entry] ++ m.firstMapEntry) := by
  by_cases mapped : entry.size ≠ 0 ∧ entry.target ≠ .none
  · have alone : mapEntries [entry] = [entry] := by
      rw [mapEntries, List.filter_singleton, decide_eq_true mapped]
      rfl
    rw [alone, Router.insert, if_pos mapped.1, if_pos mapped.2, insertOrdered]
    exact List.perm_orderedInsert (fun e f : MapEntry => e.base ≤ f.base) entry m.firstMapEntry
  · have empty : mapEntries [entry] = [] := by
      rw [mapEntries, List.filter_singleton, decide_eq_false mapped]
      rfl
    have same : (m.insert entry).firstMapEntry = m.firstMapEntry := by
      rw [not_and] at mapped
      unfold Router.insert
      split
      · rename_i sized
        rw [if_neg (mapped sized)]
      · rfl
    rw [empty, same]
    exact .refl _

theorem buildPerm (entries : List MapEntry) : (Router.build entries).firstMapEntry.Perm (mapEntries entries) := by
  have all : ∀ m : Router, (entries.foldl Router.insert m).firstMapEntry.Perm (mapEntries entries ++ m.firstMapEntry) := by
    induction entries with
    | nil => exact fun m => .refl _
    | cons entry rest rec =>
        intro m
        have split : mapEntries (entry :: rest) = mapEntries [entry] ++ mapEntries rest := List.filter_append [entry] rest
        rw [List.foldl_cons, split]
        exact (rec _).trans (((insertTablePerm m entry).append_left _).trans (by
          rw [← List.append_assoc]
          exact List.perm_append_comm.append_right _))
  exact (all ⟨[], none, none⟩).trans (by rw [List.append_nil])

end Insert

section Scan

variable {entries : List MapEntry} {a : Word} {e f : MapEntry}

theorem scanFinds (found : scan entries a = some e) : e ∈ mapEntries entries ∧ e.covers a.toNat := by
  have covers := List.find?_some found
  exact ⟨List.mem_of_find?_eq_some found, by simpa using covers⟩

theorem scanIff (disjoint : Disjoint (mapEntries entries)) : scan entries a = some e ↔ e ∈ mapEntries entries ∧ e.covers a.toNat := by
  constructor
  · exact scanFinds
  · rintro ⟨member, covers⟩
    have present : (scan entries a).isSome := List.find?_isSome.mpr ⟨e, member, decide_eq_true covers⟩
    obtain ⟨f, found⟩ := Option.isSome_iff_exists.mp present
    obtain ⟨memberF, coversF⟩ := scanFinds found
    have same : f = e := by
      by_contra different
      exact List.Pairwise.forall disjoint memberF member different a.toNat ⟨coversF, covers⟩
    rw [found, same]

def Descends (entries : List MapEntry) : Prop :=
  InOrder (Router.build entries).firstMapEntry ∧ (Router.build entries).firstMapEntry.Perm (mapEntries entries) ∧
    ((Router.build entries).firstMapEntry ≠ [] → ∃ top, (Router.build entries).topMapEntry = some top ∧
      ∀ a, some (top.descend a) = lastBelow a (Router.build entries).firstMapEntry)

theorem descends (entries : List MapEntry) : Descends entries := by
  have table := buildTable entries
  refine ⟨table.order, buildPerm entries, fun some => ?_⟩
  obtain ⟨top, built, shaped, leaves⟩ := topShaped some
  refine ⟨top, built, fun a => ?_⟩
  rw [← leaves]
  exact descendLast a shaped (leaves ▸ table.order)

def Inside (entries : List MapEntry) : Prop := ∀ e ∈ mapEntries entries, e.base.toNat + e.size.toNat ≤ 2 ^ 64

theorem findIsScan (disjoint : Disjoint (mapEntries entries)) :
    (∀ a, (Router.build entries).find a = scan entries a) ↔ Inside entries := by
  have table := buildTable entries
  have perm := buildPerm entries
  have sorted : Disjoint (Router.build entries).firstMapEntry := (perm.pairwise_iff (fun {_ _} apart => Std.Symm.symm _ _ apart)).mpr disjoint
  constructor
  · intro same e member
    -- The first address of the entry is found by the scan, and so by the descent.
    have sized : e.size.toNat ≠ 0 := fun zero => (table.sized e (perm.mem_iff.mpr member)).1 (BitVec.eq_of_toNat_eq (by simpa using zero))
    have found : (Router.build entries).find e.base = some e := by
      rw [same, scanIff disjoint]
      exact ⟨member, Nat.le_refl _, by omega⟩
    exact (findMember table found).2.2
  · intro inside a
    refine Option.ext fun e => ?_
    rw [scanIff disjoint]
    constructor
    · intro found
      obtain ⟨member, covers, -⟩ := findMember table found
      exact ⟨perm.mem_iff.mp member, covers⟩
    · rintro ⟨member, covers⟩
      exact findCovers table sorted (perm.mem_iff.mpr member) covers (inside e member)

/- The whole lookup. -/
theorem lookupIsScan (entries : List MapEntry) :
    (Descends entries ∧ (Disjoint (mapEntries entries) → ∀ a, (Router.build entries).find a = scan entries a)) ↔
      (Disjoint (mapEntries entries) → Inside entries) := by
  constructor
  · rintro ⟨-, same⟩ disjoint
    exact (findIsScan disjoint).mp (same disjoint)
  · intro inside
    exact ⟨descends entries, fun disjoint => (findIsScan disjoint).mpr (inside disjoint)⟩

/- One entry, of which the second half lies behind the end of the address space. -/
def overrun : List MapEntry := [⟨0xfffffffffffff000, 0x2000, 0, 0, .port⟩]

theorem overrunUnfound : Disjoint (mapEntries overrun) ∧ (Router.build overrun).find 0xfffffffffffff000 = none ∧
    scan overrun 0xfffffffffffff000 = some ⟨0xfffffffffffff000, 0x2000, 0, 0, .port⟩ := by
  refine ⟨?_, by decide, by decide⟩
  exact List.pairwise_singleton _ _

end Scan

end Gvsoc.Routing
