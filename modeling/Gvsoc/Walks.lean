import Mathlib.Data.List.Nodup
import Mathlib.Data.List.Count

/-! Walks through a graph, given by what comes next after a point, up to its final points. A search that goes on from every point to all
that come next finds each walk once. It needs no more depth than the points have where every step goes down. -/
namespace Gvsoc.Walks

variable {ι : Type} (final : ι → Bool) (next : ι → List ι)

inductive Walk : ι → List ι → Prop where
  | done {p : ι} (ends : final p = true) : Walk p [p]
  | step {p q : ι} {path : List ι} (on : final p = false) (edge : q ∈ next p) (rest : Walk q path) : Walk p (p :: path)

def walks : Nat → ι → List (List ι)
  | 0, _ => []
  | depth + 1, p => if final p = true then [[p]] else ((next p).flatMap (walks depth)).map (p :: ·)

def ends : Nat → ι → List ι
  | 0, _ => []
  | depth + 1, p => if final p = true then [p] else (next p).flatMap (ends depth)

section Search

variable {final next} {p q : ι} {depth : Nat} {path : List ι}

theorem walkHead (walk : Walk final next p path) : path.head? = some p := by
  cases walk <;> rfl

theorem walkNonempty (walk : Walk final next p path) : path ≠ [] := by
  cases walk <;> simp

theorem walksWalk (found : path ∈ walks final next depth p) : Walk final next p path := by
  induction depth generalizing p path with
  | zero => simp [walks] at found
  | succ depth ih =>
      unfold walks at found
      split at found
      · rename_i ends
        obtain rfl := List.mem_singleton.mp found
        exact .done ends
      · rename_i on
        obtain ⟨rest, inside, rfl⟩ := List.mem_map.mp found
        obtain ⟨q, edge, later⟩ := List.mem_flatMap.mp inside
        exact .step (by simpa using on) edge (ih later)

theorem walkFound (walk : Walk final next p path) (short : path.length ≤ depth) : path ∈ walks final next depth p := by
  induction walk generalizing depth with
  | @done p ends =>
      obtain ⟨depth, rfl⟩ : ∃ d, depth = d + 1 := ⟨depth - 1, by simp at short; omega⟩
      simp [walks, ends]
  | @step p q path on edge rest ih =>
      obtain ⟨depth, rfl⟩ : ∃ d, depth = d + 1 := ⟨depth - 1, by simp at short; omega⟩
      unfold walks
      rw [if_neg (by simp [on]), List.mem_map]
      exact ⟨path, List.mem_flatMap.mpr ⟨q, edge, ih (by simpa using short)⟩, rfl⟩

theorem walkBound {rank : ι → Nat} (down : ∀ p, ∀ q ∈ next p, rank q < rank p) (walk : Walk final next p path) :
    path.length ≤ rank p + 1 := by
  induction walk with
  | done ends => simp
  | @step p q path on edge rest ih =>
      have lower := down p q edge
      rw [List.length_cons]
      omega

theorem walksNodup (plain : ∀ p, (next p).Nodup) (depth : Nat) (p : ι) : (walks final next depth p).Nodup := by
  induction depth generalizing p with
  | zero => exact List.nodup_nil
  | succ depth ih =>
      unfold walks
      split
      · exact List.nodup_singleton _
      · refine List.Nodup.map (fun a b same => (List.cons.inj same).2) ?_
        refine List.nodup_flatMap.mpr ⟨fun q _ => ih q, ?_⟩
        refine (plain p).imp fun {a b} apart => ?_
        intro path first second
        have one := walkHead (walksWalk first)
        have two := walkHead (walksWalk second)
        exact apart (Option.some.inj (one.symm.trans two))

theorem endsWalks (depth : Nat) (p : ι) :
    (ends final next depth p).map some = (walks final next depth p).map List.getLast? := by
  induction depth generalizing p with
  | zero => rfl
  | succ depth ih =>
      unfold ends walks
      split
      · rfl
      · rw [List.map_map, List.map_flatMap, List.map_flatMap]
        congr 1
        funext q
        rw [ih]
        refine List.map_congr_left fun path found => ?_
        have some := walkNonempty (walksWalk found)
        simp [List.getLast?_cons, List.getLast?_eq_some_getLast some]

theorem endsCount [DecidableEq ι] (depth : Nat) (p q : ι) :
    (ends final next depth p).count q = (walks final next depth p).countP (fun path => path.getLast? == some q) := by
  have same := congrArg (List.count (some q)) (endsWalks depth p : (ends final next depth p).map some = _)
  rw [List.count_map_of_injective _ _ (fun _ _ => Option.some.inj)] at same
  rw [same, List.count, List.countP_map]
  rfl

end Search

end Gvsoc.Walks
