import Gvsoc.Pointers
import Gvsoc.Transducer
import Mathlib.Data.Fintype.Basic

/-! `vp::queue`, an intrusive list: the pointer to the next element and the queue an element was put
into live in the element. The end of the queue is found through `last`, which `cancel` does not
move. -/
namespace Gvsoc.Queue
open Pointers (Linked walk)

variable {κ ε : Type} [DecidableEq κ] [DecidableEq ε]

/- All queues and the fields of all elements. What was never written is `none`, and `pushes` counts
the elements put in: no queue is longer. -/
structure Store (κ ε : Type) where
  first : κ → Option ε
  last : κ → Option ε
  next : ε → Option ε
  cancelThis : ε → Option κ
  pushes : Nat

namespace Store

def start (last : κ → Option ε) (next : ε → Option ε) (cancelThis : ε → Option κ) : Store κ ε :=
  { first := fun _ => none, last := last, next := next, cancelThis := cancelThis, pushes := 0 }

variable (s : Store κ ε)

def empty (q : κ) : Bool := (s.first q).isNone

def reset (q : κ) : Store κ ε := { s with first := Function.update s.first q none }

def linkLast (q : κ) (elem : ε) : ε → Option ε :=
  match s.last q with
  | some last => Function.update s.next last (some elem)
  | none => s.next

def pushBack (q : κ) (elem : ε) : Store κ ε :=
  let first := if (s.first q).isSome then s.first else Function.update s.first q (some elem)
  let next := if (s.first q).isSome then s.linkLast q elem else s.next
  { first := first, last := Function.update s.last q (some elem), next := Function.update next elem none
    cancelThis := Function.update s.cancelThis elem (some q), pushes := s.pushes + 1 }

def pushFront (q : κ) (elem : ε) : Store κ ε :=
  { first := Function.update s.first q (some elem)
    last := if (s.first q).isSome then s.last else Function.update s.last q (some elem)
    next := Function.update s.next elem (s.first q)
    cancelThis := Function.update s.cancelThis elem (some q), pushes := s.pushes + 1 }

def head (q : κ) : Option ε := s.first q

def pop (q : κ) : Store κ ε × Option ε :=
  match s.first q with
  | some result => ({ s with first := Function.update s.first q (s.next result) }, some result)
  | none => (s, none)

/- `current->next` is read through the null pointer when the element is not there. -/
def cancelCallback (q : κ) (elem : ε) : Option (Store κ ε) :=
  match walk s.next elem (s.pushes + 1) none (s.first q) with
  | some (some prev, some current) => some { s with next := Function.update s.next prev (s.next current) }
  | some (none, some current) => some { s with first := Function.update s.first q (s.next current) }
  | _ => none

def cancel (elem : ε) : Option (Store κ ε) :=
  match s.cancelThis elem with
  | some q => s.cancelCallback q elem
  | none => none

end Store

def Store.elements (s : Store κ ε) (q : κ) : List ε := Pointers.nodesFrom s.next s.pushes (s.first q)

structure Represents (s : Store κ ε) (lists : κ → List ε) : Prop where
  linked : ∀ q, Linked s.next (s.first q) (lists q)
  once : ∀ q, (lists q).Nodup
  home : ∀ q, ∀ e ∈ lists q, s.cancelThis e = some q
  short : ∀ q, (lists q).length ≤ s.pushes

section Represented

variable {s : Store κ ε} {lists : κ → List ε} {q : κ} {e : ε}

omit [DecidableEq κ] [DecidableEq ε] in
theorem representedApart {r : κ} (rep : Represents s lists) (here : e ∈ lists q) (there : e ∈ lists r) : q = r := by
  have same := rep.home q e here
  rw [rep.home r e there] at same
  exact (Option.some.inj same).symm

omit [DecidableEq κ] [DecidableEq ε] in
theorem representedFirst (rep : Represents s lists) : s.first q = (lists q).head? := Pointers.linkedHead (rep.linked q)

omit [DecidableEq κ] [DecidableEq ε] in
theorem representedElements (rep : Represents s lists) : s.elements q = lists q :=
  Pointers.nodesLinked (rep.linked q) (rep.short q)

omit [DecidableEq κ] [DecidableEq ε] in
theorem representedEmpty (rep : Represents s lists) : s.empty q = (lists q).isEmpty := by
  unfold Store.empty
  rw [representedFirst rep]
  cases lists q <;> rfl

omit [DecidableEq ε] in
theorem representsShorter {s' : Store κ ε} {kept : List ε} (rep : Represents s lists) (part : kept.Sublist (lists q))
    (here : Linked s'.next (s'.first q) kept) (others : ∀ r, r ≠ q → s'.first r = s.first r)
    (links : ∀ r, r ≠ q → ∀ x ∈ lists r, s'.next x = s.next x) (homes : s'.cancelThis = s.cancelThis)
    (count : s'.pushes = s.pushes) : Represents s' (Function.update lists q kept) := by
  constructor
  · intro r
    by_cases same : r = q
    · subst r
      rwa [Function.update_self]
    · rw [Function.update_of_ne same, others r same]
      exact Pointers.linkedCongr (rep.linked r) (links r same)
  · intro r
    by_cases same : r = q
    · subst r
      rw [Function.update_self]
      exact part.nodup (rep.once q)
    · rw [Function.update_of_ne same]
      exact rep.once r
  · intro r x inside
    rw [homes]
    by_cases same : r = q
    · subst r
      rw [Function.update_self] at inside
      exact rep.home q x (part.subset inside)
    · rw [Function.update_of_ne same] at inside
      exact rep.home r x inside
  · intro r
    rw [count]
    by_cases same : r = q
    · subst r
      rw [Function.update_self]
      exact Nat.le_trans part.length_le (rep.short q)
    · rw [Function.update_of_ne same]
      exact rep.short r

omit [DecidableEq ε] in
theorem resetRepresents (rep : Represents s lists) (q : κ) : Represents (s.reset q) (Function.update lists q []) := by
  refine representsShorter rep (List.nil_sublist _) ?_ ?_ (fun _ _ _ _ => rfl) rfl rfl
  · simp only [Store.reset, Function.update_self]
    exact .nil
  · intro r other
    simp [Store.reset, other]

omit [DecidableEq ε] in
theorem popLast (q : κ) : (s.pop q).1.last = s.last := by
  unfold Store.pop
  split <;> rfl

omit [DecidableEq ε] in
theorem popRepresents (rep : Represents s lists) (q : κ) :
    Represents (s.pop q).1 (Function.update lists q (lists q).tail) ∧ (s.pop q).2 = (lists q).head? := by
  have first := representedFirst (q := q) rep
  have linked := rep.linked q
  unfold Store.pop
  cases nodes : lists q with
  | nil =>
      rw [nodes] at first
      simp only [first, List.head?_nil, List.tail_nil, and_true]
      rw [← nodes, Function.update_eq_self]
      exact rep
  | cons x rest =>
      rw [nodes] at first linked
      simp only [first, List.head?_cons, List.tail_cons, and_true]
      refine representsShorter rep (by simp [nodes]) ?_ ?_ (fun _ _ _ _ => rfl) rfl rfl
      · simp only [Function.update_self]
        exact Pointers.linkedTail linked
      · intro r other
        simp [other]

theorem cancelRepresents (rep : Represents s lists) (here : e ∈ lists q) :
    ∃ s', s.cancel e = some s' ∧ s'.last = s.last ∧ Represents s' (Function.update lists q ((lists q).erase e)) := by
  obtain ⟨left, right, shape⟩ := List.append_of_mem here
  have linked := rep.linked q
  have once := rep.once q
  have short := rep.short q
  rw [shape] at linked once short
  have before : e ∉ left := fun inside => (List.disjoint_of_nodup_append once) inside List.mem_cons_self
  have kept : (lists q).erase e = left ++ right := by
    rw [shape, List.erase_append_right _ before, List.erase_cons_head]
  have found := Pointers.walkFinds none linked before (show left.length < s.pushes + 1 by simp at short; omega)
  have part : (left ++ right).Sublist (lists q) := by
    rw [shape]
    exact (List.sublist_cons_self e right).append_left left
  rw [kept]
  simp only [Store.cancel, rep.home q e here, Store.cancelCallback, found]
  rcases List.eq_nil_or_concat left with rfl | ⟨front, prev, rfl⟩
  · refine ⟨_, rfl, rfl, representsShorter rep part ?_ ?_ (fun _ _ _ _ => rfl) rfl rfl⟩
    · simp only [Function.update_self, List.nil_append]
      exact Pointers.linkedTail linked
    · intro r other
      simp [other]
  · simp only [List.concat_eq_append, List.getLast?_concat, Option.some_or]
    refine ⟨_, rfl, rfl, representsShorter rep (by simpa using part) ?_ (fun _ _ => rfl) ?_ rfl rfl⟩
    · simp only [List.append_assoc, List.singleton_append]
      exact Pointers.linkedSkip (by simpa using linked) (by simpa using once)
    · intro r other x inside
      refine Function.update_of_ne (fun same => other ?_) _ _
      exact representedApart rep (same ▸ inside) (by simp [shape])

theorem representsLonger {s' : Store κ ε} {grown : List ε} (rep : Represents s lists) (fresh : ∀ r, e ∉ lists r)
    (members : grown.Perm (e :: lists q)) (here : Linked s'.next (s'.first q) grown)
    (others : ∀ r, r ≠ q → s'.first r = s.first r) (links : ∀ r, r ≠ q → ∀ x ∈ lists r, s'.next x = s.next x)
    (homes : s'.cancelThis = Function.update s.cancelThis e (some q)) (count : s'.pushes = s.pushes + 1) :
    Represents s' (Function.update lists q grown) := by
  have home : ∀ r, ∀ x ∈ lists r, s'.cancelThis x = some r := by
    intro r x inside
    rw [homes, Function.update_of_ne (ne_of_mem_of_not_mem inside (fresh r))]
    exact rep.home r x inside
  constructor
  · intro r
    by_cases same : r = q
    · subst r
      rwa [Function.update_self]
    · rw [Function.update_of_ne same, others r same]
      exact Pointers.linkedCongr (rep.linked r) (links r same)
  · intro r
    by_cases same : r = q
    · subst r
      rw [Function.update_self, members.nodup_iff]
      exact List.nodup_cons.mpr ⟨fresh q, rep.once q⟩
    · rw [Function.update_of_ne same]
      exact rep.once r
  · intro r x inside
    by_cases same : r = q
    · subst r
      rw [Function.update_self, members.mem_iff] at inside
      rcases List.mem_cons.mp inside with rfl | old
      · rw [homes, Function.update_self]
      · exact home q x old
    · rw [Function.update_of_ne same] at inside
      exact home r x inside
  · intro r
    have shorter := rep.short r
    rw [count]
    by_cases same : r = q
    · subst r
      rw [Function.update_self, members.length_eq, List.length_cons]
      omega
    · rw [Function.update_of_ne same]
      omega

theorem pushFrontRepresents (rep : Represents s lists) (fresh : ∀ r, e ∉ lists r) :
    Represents (s.pushFront q e) (Function.update lists q (e :: lists q)) := by
  refine representsLonger rep fresh (List.Perm.refl _) ?_ ?_ ?_ rfl rfl
  · simp only [Store.pushFront, Function.update_self]
    refine .cons ?_
    rw [Function.update_self]
    exact Pointers.linkedUpdate (rep.linked q) (fresh q)
  · intro r other
    simp [Store.pushFront, other]
  · intro r other x inside
    exact Function.update_of_ne (ne_of_mem_of_not_mem inside (fresh r)) _ _

def EndKnown (s : Store κ ε) (q : κ) (nodes : List ε) : Prop := nodes = [] ∨ s.last q = nodes.getLast?

instance (s : Store κ ε) (q : κ) (nodes : List ε) : Decidable (EndKnown s q nodes) := inferInstanceAs (Decidable (_ ∨ _))

theorem pushBackRepresents (rep : Represents s lists) (fresh : ∀ r, e ∉ lists r) (known : EndKnown s q (lists q)) :
    Represents (s.pushBack q e) (Function.update lists q (lists q ++ [e])) := by
  have first := representedFirst (q := q) rep
  have linked := rep.linked q
  have once := rep.once q
  have outside := fresh q
  rcases List.eq_nil_or_concat (lists q) with none | ⟨front, last, shape⟩
  · rw [none, List.head?_nil] at first
    refine representsLonger rep fresh (by simp [none]) ?_ ?_ ?_ rfl rfl
    · simp only [Store.pushBack, first, none, Option.isSome_none, Bool.false_eq_true, if_false, Function.update_self,
        List.nil_append]
      refine .cons ?_
      rw [Function.update_self]
      exact .nil
    · intro r other
      simp [Store.pushBack, first, other]
    · intro r other x inside
      simp only [Store.pushBack, first, Option.isSome_none, Bool.false_eq_true, if_false]
      exact Function.update_of_ne (ne_of_mem_of_not_mem inside (fresh r)) _ _
  · rw [List.concat_eq_append] at shape
    have some : (s.first q).isSome = true := by
      rw [first, shape]
      cases front <;> rfl
    have points : s.last q = Option.some last := by
      rcases known with none | same
      · simp [none] at shape
      · rw [same, shape, List.getLast?_concat]
    have links : (s.pushBack q e).next = Function.update (Function.update s.next last (Option.some e)) e none := by
      simp [Store.pushBack, some, Store.linkLast, points]
    rw [shape] at linked once outside
    refine representsLonger rep fresh (by simp) ?_ ?_ ?_ rfl rfl
    · rw [links, shape]
      simp only [Store.pushBack, some, if_true]
      simpa using Pointers.linkedSnoc linked once outside
    · intro r other
      simp [Store.pushBack, some]
    · intro r other x inside
      have apart : x ≠ last := fun same => other (representedApart rep inside (by simp [shape, same]))
      rw [links, Function.update_of_ne (ne_of_mem_of_not_mem inside (fresh r)), Function.update_of_ne apart]

/- Behind an element that is in no queue, the new one is in none either. -/
theorem pushBackLost {stale : ε} (rep : Represents s lists) (fresh : ∀ r, e ∉ lists r) (some : lists q ≠ [])
    (points : s.last q = Option.some stale) (outside : ∀ r, stale ∉ lists r) : Represents (s.pushBack q e) lists := by
  have first := representedFirst (q := q) rep
  have busy : (s.first q).isSome = true := by
    rw [first]
    cases nodes : lists q with
    | nil => contradiction
    | cons x rest => rfl
  constructor
  · intro r
    simp only [Store.pushBack, busy, if_true, Store.linkLast, points]
    exact Pointers.linkedUpdate (Pointers.linkedUpdate (rep.linked r) (outside r)) (fresh r)
  · exact rep.once
  · intro r x inside
    simp only [Store.pushBack]
    rw [Function.update_of_ne (ne_of_mem_of_not_mem inside (fresh r))]
    exact rep.home r x inside
  · intro r
    exact Nat.le_succ_of_le (rep.short r)

end Represented

inductive Op (κ ε : Type) where
  | pushBack (q : κ) (e : ε)
  | pushFront (q : κ) (e : ε)
  | pop (q : κ)
  | head (q : κ)
  | empty (q : κ)
  | reset (q : κ)
  | cancel (e : ε)

inductive Result (ε : Type) where
  | elem (e : Option ε)
  | truth (b : Bool)
  | done
  | fault
  deriving DecidableEq

def perform (s : Store κ ε) : Op κ ε → Store κ ε × List (Result ε)
  | .pushBack q e => (s.pushBack q e, [.done])
  | .pushFront q e => (s.pushFront q e, [.done])
  | .pop q => ((s.pop q).1, [.elem (s.pop q).2])
  | .head q => (s, [.elem (s.head q)])
  | .empty q => (s, [.truth (s.empty q)])
  | .reset q => (s.reset q, [.done])
  | .cancel e => match s.cancel e with
      | some next => (next, [.done])
      | none => (s, [.fault])

def listed (lists : κ → List ε) : Op κ ε → (κ → List ε) × List (Result ε)
  | .pushBack q e => (Function.update lists q (lists q ++ [e]), [.done])
  | .pushFront q e => (Function.update lists q (e :: lists q), [.done])
  | .pop q => (Function.update lists q (lists q).tail, [.elem (lists q).head?])
  | .head q => (lists, [.elem (lists q).head?])
  | .empty q => (lists, [.truth (lists q).isEmpty])
  | .reset q => (Function.update lists q [], [.done])
  | .cancel e => (fun q => (lists q).erase e, [.done])

/- An element is in one queue at most, and only an element that is in a queue is cancelled. -/
def Proper (lists : κ → List ε) : Op κ ε → Prop
  | .pushBack _ e | .pushFront _ e => ∀ q, e ∉ lists q
  | .cancel e => ∃ q, e ∈ lists q
  | _ => True

def Known (s : Store κ ε) (lists : κ → List ε) : Op κ ε → Prop
  | .pushBack q _ => EndKnown s q (lists q)
  | _ => True

def Sound (p : Store κ ε × (κ → List ε)) (op : Op κ ε) : Prop := Proper p.2 op ∧ Known p.1 p.2 op

instance [Fintype κ] (lists : κ → List ε) (op : Op κ ε) : Decidable (Proper lists op) := by
  cases op <;> unfold Proper <;> infer_instance

instance (s : Store κ ε) (lists : κ → List ε) (op : Op κ ε) : Decidable (Known s lists op) := by
  cases op <;> unfold Known <;> infer_instance

instance [Fintype κ] (p : Store κ ε × (κ → List ε)) (op : Op κ ε) : Decidable (Sound p op) :=
  inferInstanceAs (Decidable (_ ∧ _))

theorem performRepresents {s : Store κ ε} {lists : κ → List ε} {op : Op κ ε} (rep : Represents s lists)
    (sound : Sound (s, lists) op) :
    Represents (perform s op).1 (listed lists op).1 ∧ (perform s op).2 = (listed lists op).2 := by
  obtain ⟨proper, known⟩ := sound
  cases op with
  | pushBack q e => exact ⟨pushBackRepresents rep proper known, rfl⟩
  | pushFront q e => exact ⟨pushFrontRepresents rep proper, rfl⟩
  | pop q =>
      obtain ⟨after, result⟩ := popRepresents rep q
      exact ⟨after, by simp only [perform, listed, result]⟩
  | head q => exact ⟨rep, by simp only [perform, listed, Store.head, representedFirst rep]⟩
  | empty q => exact ⟨rep, by simp only [perform, listed, representedEmpty rep]⟩
  | reset q => exact ⟨resetRepresents rep q, rfl⟩
  | cancel e =>
      obtain ⟨q, here⟩ := proper
      obtain ⟨s', taken, -, after⟩ := cancelRepresents rep here
      have lists' : Function.update lists q ((lists q).erase e) = fun r => (lists r).erase e := by
        funext r
        by_cases same : r = q
        · subst r
          rw [Function.update_self]
        · rw [Function.update_of_ne same, List.erase_of_not_mem (fun there => same (representedApart rep there here))]
      rw [lists'] at after
      simp only [perform, listed, taken]
      exact ⟨after, trivial⟩

open Transducer (run Allowed both runSimulates)

/- The queues give the results of lists as long as no element is put behind a cancelled one. -/
theorem listWhileEndKnown (last : κ → Option ε) (next : ε → Option ε) (cancelThis : ε → Option κ) (ops : List (Op κ ε))
    (sound : Allowed (both perform listed) Sound (.start last next cancelThis, fun _ => []) ops) :
    (run perform (.start last next cancelThis) ops).2 = (run listed (fun _ => []) ops).2 := by
  have start : Represents (.start last next cancelThis) (fun _ => []) :=
    ⟨fun _ => .nil, fun _ => List.nodup_nil, by simp, by simp⟩
  exact (runSimulates perform listed (fun _ _ _ => performRepresents) start sound).2

/- Two queues; the middle of the first one is cancelled and goes to the second one. -/
theorem listWhileEndKnownTwo :
    (run (perform (κ := Bool)) (.start (fun _ => none) (fun _ => none) (fun _ => none))
      [.pushBack true 0, .pushBack true 1, .pushFront true 2, .cancel 0, .pushBack false 0, .pushBack true 3, .pop true,
        .pop true, .pop true, .head false, .empty true]).2
      = [.done, .done, .done, .done, .done, .done, .elem (some 2), .elem (some 1), .elem (some 3), .elem (some 0), .truth true] := by
  rw [listWhileEndKnown _ _ _ _ (by decide +kernel)]
  decide +kernel

/- The last element of two is cancelled. The next one is linked behind it, out of reach. -/
theorem elementLost :
    Allowed (listed (κ := Bool)) Proper (fun _ => []) [.pushBack true 0, .pushBack true 1, .cancel 1, .pushBack true 2, .pop true, .pop true] ∧
      (run (perform (κ := Bool)) (.start (fun _ => none) (fun _ => none) (fun _ => none))
        [.pushBack true 0, .pushBack true 1, .cancel 1, .pushBack true 2, .pop true, .pop true]).2
        = [.done, .done, .done, .done, .elem (some 0), .elem none] ∧
      (run (listed (κ := Bool)) (fun _ => []) [.pushBack true 0, .pushBack true 1, .cancel 1, .pushBack true 2, .pop true, .pop true]).2
        = [.done, .done, .done, .done, .elem (some 0), .elem (some 2)] := by decide +kernel

end Gvsoc.Queue
