import Mathlib.Data.List.Basic

/-! Finite runs of a partial step function. The trace keeps each action with the state it
led to; `ok` restricts the steps a run may take, and is `anyStep` for all runs. -/
namespace Gvsoc.Machine

/- The sizes of the concrete systems, with the zero that the numerals of `Fin` have. -/
instance one : @NeZero Nat Zero.ofOfNat0 1 := ⟨Nat.succ_ne_zero 0⟩

instance two : @NeZero Nat Zero.ofOfNat0 2 := ⟨Nat.succ_ne_zero 1⟩

instance seven : @NeZero Nat Zero.ofOfNat0 7 := ⟨Nat.succ_ne_zero 6⟩

variable {σ α : Type}

def anyStep : σ → α → Prop := fun _ _ => True

inductive Run (step : σ → α → Option σ) (ok : σ → α → Prop) : σ → List (α × σ) → σ → Prop where
  | nil (s) : Run step ok s [] s
  | snoc {s trace mid a last} (before : Run step ok s trace mid) (allowed : ok mid a)
      (taken : step mid a = some last) : Run step ok s (trace ++ [(a, last)]) last

def endOf (s : σ) (trace : List (α × σ)) : σ := (trace.getLast?.map Prod.snd).getD s

section Rules

variable {step : σ → α → Option σ} {ok : σ → α → Prop}

theorem runInvariant {P : σ → Prop} {s trace last} (run : Run step ok s trace last) (start : P s)
    (keeps : ∀ a b c, P a → ok a b → step a b = some c → P c) : P last := by
  induction run with
  | nil => exact start
  | snoc before allowed taken ih => exact keeps _ _ _ ih allowed taken

theorem runWeaken {ok' : σ → α → Prop} {s trace last} (weaker : ∀ a b, ok a b → ok' a b)
    (run : Run step ok s trace last) : Run step ok' s trace last := by
  induction run with
  | nil => exact .nil _
  | snoc before allowed taken ih => exact .snoc ih (weaker _ _ allowed) taken

theorem runEnd {s trace last} (run : Run step ok s trace last) : endOf s trace = last := by
  cases run with
  | nil => rfl
  | snoc before allowed taken => simp [endOf]

theorem runRestrict (kind : α → Prop) {s trace last} (run : Run step ok s trace last) (all : ∀ p ∈ trace, kind p.1) :
    Run step (fun s a => ok s a ∧ kind a) s trace last := by
  induction run with
  | nil => exact .nil _
  | @snoc trace mid a last before allowed taken ih =>
      refine .snoc (ih (fun p inside => all p (List.mem_append_left _ inside))) ⟨allowed, ?_⟩ taken
      exact all (a, last) (by simp)

theorem runAppend {s left mid right last} (first : Run step ok s left mid)
    (second : Run step ok mid right last) : Run step ok s (left ++ right) last := by
  induction second with
  | nil => simpa using first
  | snoc before allowed taken ih =>
      rw [← List.append_assoc]
      exact .snoc ih allowed taken

theorem runSingle {s a last} (allowed : ok s a) (taken : step s a = some last) :
    Run step ok s [(a, last)] last := .snoc (.nil s) allowed taken

theorem runPrefix {s left a mid right last}
    (run : Run step ok s (left ++ (a, mid) :: right) last) :
    ∃ before, Run step ok s left before ∧ ok before a ∧ step before a = some mid ∧
      Run step ok mid right last := by
  generalize shape : left ++ (a, mid) :: right = trace at run
  induction run generalizing right with
  | nil => simp at shape
  | @snoc trace state action next before allowed taken ih =>
      rcases List.eq_nil_or_concat right with rfl | ⟨front, final, rfl⟩
      · obtain ⟨rfl, last⟩ := List.append_inj' shape rfl
        cases last
        exact ⟨state, before, allowed, taken, .nil _⟩
      · have split : left ++ (a, mid) :: front = trace ∧ final = (action, next) := by
          have same : (left ++ (a, mid) :: front) ++ [final] = trace ++ [(action, next)] := by simpa using shape
          obtain ⟨left', final'⟩ := List.append_inj' same rfl
          exact ⟨left', by simpa using final'⟩
        obtain ⟨start, h1, h2, h3, h4⟩ := ih split.1
        refine ⟨start, h1, h2, h3, ?_⟩
        rw [split.2, List.concat_eq_append]
        exact .snoc h4 allowed taken

end Rules

def follow (step : σ → α → Option σ) (ok : σ → α → Prop) [∀ s a, Decidable (ok s a)] : σ → List α → Option σ
  | s, [] => some s
  | s, a :: rest => if ok s a then (step s a).bind (fun next => follow step ok next rest) else none

instance (s : σ) (a : α) : Decidable (anyStep s a) := .isTrue trivial

def traceOf (step : σ → α → Option σ) : σ → List α → List (α × σ)
  | _, [] => []
  | s, a :: rest => match step s a with
      | some next => (a, next) :: traceOf step next rest
      | none => []

theorem followTrace {step : σ → α → Option σ} {ok : σ → α → Prop} [∀ s a, Decidable (ok s a)] {s actions last}
    (done : follow step ok s actions = some last) :
    Run step ok s (traceOf step s actions) last ∧ (traceOf step s actions).map Prod.fst = actions := by
  induction actions generalizing s with
  | nil => cases done; exact ⟨.nil _, rfl⟩
  | cons a rest ih =>
      simp only [follow] at done
      split at done
      · rename_i allowed
        obtain ⟨next, taken, later⟩ := Option.bind_eq_some_iff.mp done
        obtain ⟨run, labels⟩ := ih later
        have shape : traceOf step s (a :: rest) = (a, next) :: traceOf step next rest := by simp [traceOf, taken]
        rw [shape]
        exact ⟨runAppend (runSingle allowed taken) run, by simp [labels]⟩
      · contradiction

theorem followRun {step : σ → α → Option σ} {ok : σ → α → Prop} [∀ s a, Decidable (ok s a)] {s actions last}
    (done : follow step ok s actions = some last) :
    ∃ trace, Run step ok s trace last ∧ trace.map Prod.fst = actions := ⟨_, followTrace done⟩

section Reach

variable (step : σ → α → Option σ) (ok : σ → α → Prop) [∀ s a, Decidable (ok s a)]

def reach (s : σ) (actions : List α) : σ := (follow step ok s actions).getD s

theorem reachTrace (s : σ) (actions : List α) (done : (follow step ok s actions).isSome = true) :
    Run step ok s (traceOf step s actions) (reach step ok s actions) ∧ (traceOf step s actions).map Prod.fst = actions := by
  obtain ⟨last, found⟩ := Option.isSome_iff_exists.mp done
  unfold reach
  rw [found]
  exact followTrace found

theorem reachRun (s : σ) (actions : List α) (done : (follow step ok s actions).isSome = true) :
    ∃ trace, Run step ok s trace (reach step ok s actions) ∧ trace.map Prod.fst = actions :=
  ⟨_, reachTrace step ok s actions done⟩

end Reach

section History

variable {α κ : Type} [DecidableEq κ] {keyOf : α → κ} {a : α} {k : κ}

def latest (keyOf : α → κ) (k : κ) (history : List α) : Option α := (history.filter (fun a => keyOf a = k)).getLast?

theorem latestSelf (history : List α) (a : α) : latest keyOf (keyOf a) (history ++ [a]) = some a := by
  simp [latest, List.filter_append]

theorem latestOther (history : List α) (other : keyOf a ≠ k) : latest keyOf k (history ++ [a]) = latest keyOf k history := by
  simp [latest, List.filter_append, other]

end History

end Gvsoc.Machine
