import Gvsoc.Runs

/-! Devices that work on an array, and whether their runs stay inside it and come to an end. -/
namespace Gvsoc.ArrayWatch
open Runs (run AllSteps alwaysIff)

structure Range where
  start : Int
  length : Nat
  deriving DecidableEq

def Range.Inside (r : Range) (size : Int) : Prop := 0 ≤ r.start ∧ r.start + r.length ≤ size

structure Device (σ α : Type) where
  act : σ → α → Option σ
  uses : σ → α → List Range
  size : σ → Int

structure Watched (σ : Type) where
  state : σ
  used : List Range
  hung : Bool

variable {σ α : Type} (d : Device σ α)

namespace Device

def start (s : σ) : Watched σ := ⟨s, [], false⟩

def watch (w : Watched σ) (a : α) : Watched σ :=
  if w.hung then w
  else match d.act w.state a with
    | some next => ⟨next, w.used ++ d.uses w.state a, false⟩
    | none => ⟨w.state, w.used ++ d.uses w.state a, true⟩

def Sound (w : Watched σ) : Prop := w.hung = false ∧ ∀ r ∈ w.used, r.Inside (d.size w.state)

def Safe (s : σ) (a : α) : Prop := (d.act s a).isSome = true ∧ ∀ r ∈ d.uses s a, r.Inside (d.size s)

end Device

variable {d}

theorem watchSound {w : Watched σ} {a : α} (sizes : ∀ next, d.act w.state a = some next → d.size next = d.size w.state)
    (sound : d.Sound w) : d.Sound (d.watch w a) ↔ d.Safe w.state a := by
  obtain ⟨alive, inside⟩ := sound
  unfold Device.watch
  rw [if_neg (by simp [alive])]
  cases taken : d.act w.state a with
  | none =>
      refine iff_of_false (fun sound => ?_) (fun safe => ?_)
      · exact Bool.noConfusion sound.1
      · have ends := safe.1
        rw [taken] at ends
        contradiction
  | some next =>
      have same := sizes next taken
      constructor
      · rintro ⟨-, all⟩
        refine ⟨by rw [taken]; rfl, fun r used => ?_⟩
        have held := all r (List.mem_append_right _ used)
        rwa [same] at held
      · rintro ⟨-, all⟩
        refine ⟨rfl, fun r used => ?_⟩
        rw [same]
        rcases List.mem_append.mp used with old | new
        · exact inside r old
        · exact all r new

theorem soundIff {I : σ → Prop} {ok : σ → α → Prop}
    (invariant : ∀ s a next, I s → d.act s a = some next → I next ∧ d.size next = d.size s)
    (safe : ∀ s a, I s → (d.Safe s a ↔ ok s a)) {s : σ} (inside : I s) (actions : List α) :
    (∀ n, d.Sound (run d.watch (Device.start s) (actions.take n))) ↔
      AllSteps d.watch (fun w a => ok w.state a) (Device.start s) actions := by
  refine alwaysIff (I := fun w => I w.state) (fun w a good sound => ?_) (fun w a good => ?_) inside ⟨rfl, by simp [Device.start]⟩ actions
  · rw [watchSound (fun next taken => (invariant w.state a next good taken).2) sound]
    exact safe w.state a good
  · unfold Device.watch
    split
    · exact good
    · split
      · rename_i taken
        exact (invariant w.state a _ good taken).1
      · exact good

end Gvsoc.ArrayWatch
