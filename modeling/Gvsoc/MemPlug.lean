import Gvsoc.Queue
import Gvsoc.Machine
import Mathlib.Data.Fintype.Card
import Mathlib.Data.Fintype.Option

/-! `Mem_plug`: requests wait in one queue, and each port takes one of them at a time, which it sends
in words. `nb_pending_reqs` is kept by the plug, the queues can be emptied by their elements. -/
namespace Gvsoc.MemPlug
open Queue (Store Represents EndKnown)

structure Req where
  addr : BitVec 32
  data : BitVec 64
  size : BitVec 32
  isWrite : Bool
  deriving DecidableEq

structure Access (n : Nat) where
  port : Fin n
  addr : BitVec 32
  data : BitVec 64
  size : BitVec 32
  isWrite : Bool
  deriving DecidableEq

inductive Phase (n : Nat) where
  | rest
  | terminating (port : Fin n)
  deriving DecidableEq

/- The queue of the plug is `none`, the one of a port `some`. An event that is enqueued is kept with
its cycles. -/
structure Plug (n : Nat) (ε : Type) where
  queues : Store (Option (Fin n)) ε
  nbPendingReqs : Int
  event : Fin n → Option Int
  readyTime : Fin n → Int
  req : ε → Req
  outputLatency : Int
  sent : List (Access n)
  phase : Phase n

section Operations

variable {n : Nat} {ε : Type} [DecidableEq ε]

def Plug.start (queues : Store (Option (Fin n)) ε) (req : ε → Req) (outputLatency : Int) : Plug n ε :=
  { queues := .start queues.last queues.next queues.cancelThis, nbPendingReqs := 0, event := fun _ => none
    readyTime := fun _ => -1, req := req, outputLatency := outputLatency, sent := [], phase := .rest }

namespace Plug

variable (s : Plug n ε) (time : Int)

def portCheckState (i : Fin n) : Plug n ε :=
  if (s.event i).isSome then s
  else if s.queues.empty (some i) then s
  else
    let cycles := if s.readyTime i ≠ -1 ∧ s.readyTime i > time then s.readyTime i - time else 1
    { s with event := Function.update s.event i (some cycles) }

def offer (e : ε) : List (Fin n) → Plug n ε
  | [] => s
  | i :: rest =>
      if s.queues.empty (some i) then
        portCheckState { s with queues := s.queues.pushBack (some i) e } time i
      else offer e rest

def checkState : Plug n ε :=
  if s.nbPendingReqs < n ∧ s.queues.empty none = false then
    match s.queues.pop none with
    | (queues, some e) => offer { s with queues := queues, nbPendingReqs := s.nbPendingReqs + 1 } time e (List.finRange n)
    | (_, none) => s
  else s

def enqueue (e : ε) : Plug n ε := checkState { s with queues := s.queues.pushBack none e } time

/- The word at the front of a request goes out. The size is unsigned: one that is not a multiple of
four goes through zero. -/
def send (i : Fin n) (e : ε) (latency : Int) : Plug n ε :=
  let r := s.req e
  { s with
    sent := s.sent ++ [⟨i, r.addr, r.data, if r.size < 4 then r.size else 4, r.isWrite⟩]
    req := Function.update s.req e { r with addr := r.addr + 4, data := r.data + 4, size := r.size - 4 }
    readyTime := Function.update s.readyTime i (time + (latency + s.outputLatency)) }

def eventHandler (i : Fin n) (latency : Int) : Plug n ε :=
  let s := { s with event := Function.update s.event i none }
  match s.queues.head (some i) with
  | none => s
  | some e =>
      let s := s.send time i e latency
      if (s.req e).size ≤ 0 then
        { s with queues := (s.queues.pop (some i)).1, nbPendingReqs := s.nbPendingReqs - 1, phase := .terminating i }
      else s.portCheckState time i

end Plug

inductive Action (n : Nat) (ε : Type) where
  | enqueue (e : ε) (time : Int)
  | event (i : Fin n) (time latency : Int)
  | terminated (time : Int)
  | cancel (e : ε)

/- `handle_termination` may enqueue and cancel requests; no event is handled before it returns. -/
def step (s : Plug n ε) : Action n ε → Option (Plug n ε)
  | .enqueue e time => some (s.enqueue time e)
  | .event i time latency =>
      if s.phase = .rest ∧ (s.event i).isSome then some (s.eventHandler time i latency) else none
  | .terminated time => match s.phase with
      | .rest => none
      | .terminating i => some { (s.checkState time).portCheckState time i with phase := .rest }
  | .cancel e => (s.queues.cancel e).map (fun queues => { s with queues := queues })

end Operations

section Ports

variable {n : Nat} {ε : Type} {s : Plug n ε} {lists : Option (Fin n) → List ε} {time : Int} {e : ε}

def occupied (lists : Option (Fin n) → List ε) : Finset (Fin n) := Finset.univ.filter (fun i => lists (some i) ≠ [])

/- `last` of the waiting queue is right, or points to an element that was cancelled. -/
def EndSafe (s : Plug n ε) (lists : Option (Fin n) → List ε) : Prop :=
  EndKnown s.queues none (lists none) ∨ ∃ stale, s.queues.last none = some stale ∧ ∀ q, stale ∉ lists q

structure Accounted (s : Plug n ε) (lists : Option (Fin n) → List ε) : Prop where
  rep : Represents s.queues lists
  single : ∀ i, (lists (some i)).length ≤ 1
  safe : EndSafe s lists
  count : s.nbPendingReqs = (occupied lists).card

theorem accountedCongr {s' : Plug n ε} (accounted : Accounted s lists) (queues : s'.queues = s.queues)
    (count : s'.nbPendingReqs = s.nbPendingReqs) : Accounted s' lists := by
  obtain ⟨rep, single, safe, number⟩ := accounted
  refine ⟨by rwa [queues], single, ?_, by rwa [count]⟩
  unfold EndSafe at safe ⊢
  rwa [queues]

def Served (lists : Option (Fin n) → List ε) (slack : Nat) : Prop := lists none = [] ∨ n ≤ (occupied lists).card + slack

theorem occupiedWaiting (lists : Option (Fin n) → List ε) (waiting : List ε) :
    occupied (Function.update lists none waiting) = occupied lists := by simp [occupied]

theorem occupiedGiven (i : Fin n) (e : ε) : occupied (Function.update lists (some i) [e]) = insert i (occupied lists) := by
  ext j
  by_cases same : j = i
  · subst j
    simp [occupied]
  · simp [occupied, same]

theorem occupiedFreed (i : Fin n) : occupied (Function.update lists (some i) []) = (occupied lists).erase i := by
  ext j
  by_cases same : j = i
  · subst j
    simp [occupied]
  · simp [occupied, same]

@[simp] theorem portCheckStateQueues (i : Fin n) : (s.portCheckState time i).queues = s.queues := by
  unfold Plug.portCheckState
  split_ifs <;> rfl

@[simp] theorem portCheckStateCount (i : Fin n) : (s.portCheckState time i).nbPendingReqs = s.nbPendingReqs := by
  unfold Plug.portCheckState
  split_ifs <;> rfl

@[simp] theorem portCheckStatePhase (i : Fin n) : (s.portCheckState time i).phase = s.phase := by
  unfold Plug.portCheckState
  split_ifs <;> rfl

theorem portFree (few : (occupied lists).card < n) : ∃ i, lists (some i) = [] := by
  by_contra none
  simp only [not_exists] at none
  have all : occupied lists = Finset.univ := by
    ext i
    simp [occupied, none i]
  rw [all, Finset.card_univ, Fintype.card_fin] at few
  omega

variable [DecidableEq ε]

theorem offerTaken (time : Int) (e : ε) {ports : List (Fin n)} (free : ∃ i ∈ ports, s.queues.empty (some i) = true) :
    ∃ i, s.queues.empty (some i) = true ∧
      s.offer time e ports = Plug.portCheckState { s with queues := s.queues.pushBack (some i) e } time i := by
  induction ports with
  | nil => simp at free
  | cons i rest ih =>
      rw [Plug.offer]
      cases empty : s.queues.empty (some i) with
      | true => exact ⟨i, empty, rfl⟩
      | false =>
          obtain ⟨j, member, idle⟩ := free
          rcases List.mem_cons.mp member with rfl | later
          · simp [empty] at idle
          · simpa using ih ⟨j, later, idle⟩

theorem givenAccounted (time : Int) {waiting : List ε} {i : Fin n} (accounted : Accounted s lists) (first : lists none = e :: waiting)
    (idle : lists (some i) = []) :
    Accounted (Plug.portCheckState { s with
        queues := (s.queues.pop none).1.pushBack (some i) e, nbPendingReqs := s.nbPendingReqs + 1 } time i)
      (Function.update (Function.update lists none waiting) (some i) [e]) := by
  obtain ⟨rep, single, safe, count⟩ := accounted
  have popped := (Queue.popRepresents rep none).1
  rw [first, List.tail_cons] at popped
  have once := rep.once none
  rw [first, List.nodup_cons] at once
  have fresh : ∀ q, e ∉ Function.update lists none waiting q := by
    intro q inside
    cases q with
    | none => exact once.1 (by simpa using inside)
    | some j =>
        have both := Queue.representedApart rep (by simpa using inside) (show e ∈ lists none by simp [first])
        contradiction
  have idle' : Function.update lists none waiting (some i) = [] := by simpa using idle
  have given := Queue.pushBackRepresents popped fresh (.inl idle')
  rw [idle', List.nil_append] at given
  refine ⟨by simpa using given, ?_, ?_, ?_⟩
  · intro j
    by_cases same : j = i
    · subst j
      simp
    · simpa [same] using single j
  · have last : ((s.queues.pop none).1.pushBack (some i) e).last none = s.queues.last none := by
      simp [Store.pushBack, Queue.popLast]
    unfold EndSafe EndKnown
    simp only [portCheckStateQueues, last]
    rcases safe with (empty | known) | ⟨stale, points, outside⟩
    · simp [first] at empty
    · refine .inl ?_
      cases waiting with
      | nil => simp
      | cons x rest => simpa [first, List.getLast?_cons] using known
    · refine .inr ⟨stale, points, fun q inside => ?_⟩
      have other : stale ≠ e := fun same => outside none (by simp [first, same])
      cases q with
      | none => exact outside none (by simp at inside; simp [first, inside])
      | some j =>
          by_cases same : j = i
          · subst j
            simp [other] at inside
          · exact outside (some j) (by simpa [same] using inside)
  · have absent : i ∉ occupied lists := by simp [occupied, idle]
    rw [portCheckStateCount, occupiedGiven, occupiedWaiting, Finset.card_insert_of_notMem absent]
    simp [count]

theorem checkStateAccounted (time : Int) (accounted : Accounted s lists)
    (near : (lists none).length ≤ 1 ∨ n ≤ (occupied lists).card + 1) :
    ∃ lists', Accounted (s.checkState time) lists' ∧ Served lists' 0 ∧ (s.checkState time).phase = s.phase := by
  have empty := Queue.representedEmpty (q := none) accounted.rep
  have count := accounted.count
  unfold Plug.checkState
  split_ifs with ready
  · obtain ⟨few, some⟩ := ready
    rw [empty] at some
    cases first : lists none with
    | nil => simp [first] at some
    | cons e waiting =>
        have head := (Queue.popRepresents accounted.rep none).2
        rw [first, List.head?_cons] at head
        obtain ⟨i, idle⟩ := portFree (show (occupied lists).card < n by omega)
        have stays : ∀ j, (s.queues.pop none).1.empty (Option.some j) = (lists (Option.some j)).isEmpty := by
          intro j
          have same := Queue.representedEmpty (q := Option.some j) (Queue.popRepresents accounted.rep none).1
          simpa using same
        obtain ⟨j, taken, given⟩ := offerTaken time e
          (s := { s with queues := (s.queues.pop none).1, nbPendingReqs := s.nbPendingReqs + 1 })
          ⟨i, List.mem_finRange i, by simp [stays, idle]⟩
        rw [stays] at taken
        have after := givenAccounted time accounted first (List.isEmpty_iff.mp taken)
        have shape : s.queues.pop none = ((s.queues.pop none).1, Option.some e) := Prod.ext rfl head
        rw [shape]
        simp only
        rw [given]
        refine ⟨_, after, ?_, by simp⟩
        have absent : j ∉ occupied lists := by simp [occupied, List.isEmpty_iff.mp taken]
        rcases near with one | most
        · refine .inl ?_
          rw [first] at one
          simpa using one
        · refine .inr ?_
          rw [occupiedGiven, occupiedWaiting, Finset.card_insert_of_notMem absent]
          omega
  · refine ⟨lists, accounted, ?_, rfl⟩
    by_cases few : s.nbPendingReqs < n
    · simp only [few, true_and, Bool.not_eq_false] at ready
      rw [empty] at ready
      exact .inl (List.isEmpty_iff.mp ready)
    · exact .inr (by omega)

/- A request joins the ones that wait, or is lost behind one that was cancelled. -/
theorem waitingAccounted (accounted : Accounted s lists) (fresh : ∀ q, e ∉ lists q) :
    ∃ waiting, (waiting = lists none ++ [e] ∨ waiting = lists none ∧ lists none ≠ []) ∧
      Accounted { s with queues := s.queues.pushBack none e } (Function.update lists none waiting) := by
  obtain ⟨rep, single, safe, count⟩ := accounted
  have last : (s.queues.pushBack none e).last none = some e := by simp [Store.pushBack]
  by_cases known : EndKnown s.queues none (lists none)
  · refine ⟨lists none ++ [e], .inl rfl, Queue.pushBackRepresents rep fresh known, ?_, ?_, ?_⟩
    · intro i
      simpa using single i
    · exact .inl (.inr (by simp [last]))
    · rw [occupiedWaiting]
      exact count
  · have some : lists none ≠ [] := fun empty => known (.inl empty)
    obtain ⟨stale, points, outside⟩ := safe.resolve_left known
    refine ⟨lists none, .inr ⟨rfl, some⟩, ?_⟩
    rw [Function.update_eq_self]
    exact ⟨Queue.pushBackLost rep fresh some points outside, single, .inr ⟨e, last, fresh⟩, count⟩

omit [DecidableEq ε] in
theorem aloneIn {list : List ε} (single : list.length ≤ 1) (here : e ∈ list) : list = [e] := by
  obtain ⟨x, rest, shape⟩ := List.exists_cons_of_ne_nil (List.ne_nil_of_mem here)
  rw [shape, List.length_cons] at single
  rw [shape, List.length_eq_zero_iff.mp (show rest.length = 0 by omega)] at here ⊢
  rw [List.mem_singleton.mp here]

omit [DecidableEq ε] in
theorem freedAccounted {i : Fin n} (accounted : Accounted s lists) (first : lists (some i) = [e]) :
    Represents (s.queues.pop (some i)).1 (Function.update lists (some i) []) ∧
      EndSafe { s with queues := (s.queues.pop (some i)).1 } (Function.update lists (some i) []) ∧
      (occupied lists).card = (occupied (Function.update lists (some i) [])).card + 1 := by
  obtain ⟨rep, single, safe, count⟩ := accounted
  have popped := (Queue.popRepresents rep (some i)).1
  rw [first, List.tail_cons] at popped
  refine ⟨popped, ?_, ?_⟩
  · unfold EndSafe EndKnown
    simp only [Queue.popLast]
    rcases safe with known | ⟨stale, points, outside⟩
    · exact .inl (by simpa [EndKnown] using known)
    · refine .inr ⟨stale, points, fun q inside => ?_⟩
      by_cases same : q = some i
      · subst q
        simp at inside
      · exact outside q (by simpa [same] using inside)
  · have member : i ∈ occupied lists := by simp [occupied, first]
    have positive := Finset.card_pos.mpr ⟨i, member⟩
    rw [occupiedFreed, Finset.card_erase_of_mem member]
    omega

theorem cancelledAccounted (accounted : Accounted s lists) (here : e ∈ lists none) :
    ∃ queues, s.queues.cancel e = some queues ∧
      Accounted { s with queues := queues } (Function.update lists none ((lists none).erase e)) := by
  obtain ⟨rep, single, safe, count⟩ := accounted
  obtain ⟨queues, taken, last, cancelled⟩ := Queue.cancelRepresents rep here
  have gone : ∀ q, e ∉ Function.update lists none ((lists none).erase e) q := by
    intro q inside
    cases q with
    | none => exact (rep.once none).not_mem_erase (by simpa using inside)
    | some j =>
        have both := Queue.representedApart rep (by simpa using inside) here
        contradiction
  refine ⟨queues, taken, cancelled, by simpa using single, ?_, by rw [occupiedWaiting]; exact count⟩
  unfold EndSafe EndKnown
  simp only [last, Function.update_self]
  rcases safe with (empty | known) | ⟨stale, points, outside⟩
  · simp [empty] at here
  · obtain ⟨left, right, shape⟩ := List.append_of_mem here
    have once := rep.once none
    rw [shape] at once known
    have before : e ∉ left := fun inside => (List.disjoint_of_nodup_append once) inside List.mem_cons_self
    rw [shape, List.erase_append_right _ before, List.erase_cons_head]
    cases right with
    | nil => exact .inr ⟨e, by simpa using known, by simpa [shape, List.erase_append_right _ before] using gone⟩
    | cons x rest => exact .inl (.inr (by simpa [List.getLast?_cons, List.getLast?_append] using known))
  · refine .inr ⟨stale, points, fun q inside => ?_⟩
    cases q with
    | none => exact outside none (List.mem_of_mem_erase (by simpa using inside))
    | some j => exact outside (some j) (by simpa using inside)

end Ports

section Runs

open Machine (Run runInvariant reach reachRun)

variable {n : Nat} {ε : Type} [DecidableEq ε]

def Proper (s : Plug n ε) : Action n ε → Prop
  | .enqueue e _ => ∀ q, e ∉ s.queues.elements q
  | .cancel e => ∃ q, e ∈ s.queues.elements q
  | _ => True

def Orderly (s : Plug n ε) : Action n ε → Prop
  | .enqueue e _ => ∀ q, e ∉ s.queues.elements q
  | .cancel e => e ∈ s.queues.elements none
  | _ => True

instance (s : Plug n ε) (a : Action n ε) : Decidable (Proper s a) := by
  cases a <;> unfold Proper <;> infer_instance

instance (s : Plug n ε) (a : Action n ε) : Decidable (Orderly s a) := by
  cases a <;> unfold Orderly <;> infer_instance

def Phase.slack : Phase n → Nat
  | .rest => 0
  | .terminating _ => 1

def Invariant (s : Plug n ε) : Prop := ∃ lists, Accounted s lists ∧ Served lists s.phase.slack

theorem enqueueInvariant {s : Plug n ε} {e : ε} (time : Int) (invariant : Invariant s)
    (fresh : ∀ q, e ∉ s.queues.elements q) : Invariant (s.enqueue time e) := by
  obtain ⟨lists, accounted, served⟩ := invariant
  have fresh' : ∀ q, e ∉ lists q := fun q => Queue.representedElements accounted.rep ▸ fresh q
  obtain ⟨waiting, shape, pushed⟩ := waitingAccounted accounted fresh'
  have slack : s.phase.slack ≤ 1 := by cases s.phase <;> simp [Phase.slack]
  have near : (Function.update lists none waiting none).length ≤ 1 ∨
      n ≤ (occupied (Function.update lists none waiting)).card + 1 := by
    rw [occupiedWaiting, Function.update_self]
    rcases served with empty | most
    · rcases shape with grown | ⟨-, some⟩
      · simp [grown, empty]
      · contradiction
    · exact .inr (by omega)
  obtain ⟨lists', after, all, -⟩ := checkStateAccounted time pushed near
  exact ⟨lists', after, all.imp id (fun most => by omega)⟩

theorem eventInvariant {s : Plug n ε} (i : Fin n) (time latency : Int) (invariant : Invariant s) (rest : s.phase = .rest) :
    Invariant (s.eventHandler time i latency) := by
  obtain ⟨lists, accounted, served⟩ := invariant
  have head := Queue.representedFirst (q := some i) accounted.rep
  unfold Plug.eventHandler Store.head
  simp only
  cases first : lists (some i) with
  | nil =>
      rw [first, List.head?_nil] at head
      simp only [head]
      exact ⟨lists, accountedCongr accounted rfl rfl, served⟩
  | cons e others =>
      have alone := aloneIn (accounted.single i) (e := e) (by simp [first])
      rw [first, List.head?_cons] at head
      simp only [head]
      split_ifs
      · obtain ⟨rep, safe, freed⟩ := freedAccounted accounted alone
        refine ⟨Function.update lists (some i) [], ⟨rep, ?_, safe, ?_⟩, ?_⟩
        · intro j
          by_cases same : j = i
          · subst j
            simp
          · simpa [same] using accounted.single j
        · have count := accounted.count
          simp only [Plug.send]
          omega
        · rw [rest] at served
          rcases served with empty | all
          · exact .inl (by simpa using empty)
          · simp only [Phase.slack] at all
            exact .inr (by simp only [Phase.slack]; omega)
      · refine ⟨lists, accountedCongr accounted (portCheckStateQueues i) (portCheckStateCount i), ?_⟩
        rw [portCheckStatePhase]
        exact served

theorem stepInvariant {s s' : Plug n ε} {a : Action n ε} (invariant : Invariant s) (orderly : Orderly s a)
    (taken : step s a = some s') : Invariant s' := by
  cases a with
  | enqueue e time =>
      cases taken
      exact enqueueInvariant time invariant orderly
  | event i time latency =>
      obtain ⟨ready, done⟩ := Option.ite_none_right_eq_some.mp taken
      cases done
      exact eventInvariant i time latency invariant ready.1
  | terminated time =>
      obtain ⟨lists, accounted, served⟩ := invariant
      simp only [step] at taken
      split at taken
      · contradiction
      · rename_i i phase
        cases taken
        rw [phase] at served
        obtain ⟨lists', after, all, -⟩ := checkStateAccounted time accounted (served.imp (fun empty => by simp [empty]) id)
        exact ⟨lists', accountedCongr after (portCheckStateQueues i) (portCheckStateCount i), all⟩
  | cancel e =>
      obtain ⟨lists, accounted, served⟩ := invariant
      have here : e ∈ lists none := Queue.representedElements accounted.rep ▸ orderly
      obtain ⟨queues, cancelled, after⟩ := cancelledAccounted accounted here
      simp only [step, cancelled, Option.map_some, Option.some.injEq] at taken
      subst taken
      refine ⟨_, after, ?_⟩
      unfold Served at served ⊢
      rw [occupiedWaiting]
      rcases served with empty | most
      · simp [empty] at here
      · exact .inr most

omit [DecidableEq ε] in
theorem startInvariant (queues : Store (Option (Fin n)) ε) (req : ε → Req) (outputLatency : Int) :
    Invariant (.start queues req outputLatency) := by
  refine ⟨fun _ => [], ⟨⟨fun _ => .nil, fun _ => List.nodup_nil, by simp, by simp⟩, by simp, .inl (.inl rfl), ?_⟩, .inl rfl⟩
  simp [Plug.start, occupied]

def Plug.busy (s : Plug n ε) : Finset (Fin n) := Finset.univ.filter (fun i => s.queues.empty (some i) = false)

omit [DecidableEq ε] in
theorem busyOccupied {s : Plug n ε} {lists : Option (Fin n) → List ε} (rep : Represents s.queues lists) :
    s.busy = occupied lists := by
  ext i
  simp [Plug.busy, occupied, Queue.representedEmpty rep]

/- The counter is the number of taken ports. Nothing waits while a port is free, except that the
port of the request that is being terminated gets its next one when `handle_termination` returns. -/
theorem portsAccounted (queues : Store (Option (Fin n)) ε) (req : ε → Req) (outputLatency : Int) {trace last}
    (run : Run step Orderly (.start queues req outputLatency) trace last) :
    last.nbPendingReqs = last.busy.card ∧
      (last.phase = .rest → ∀ i, last.queues.empty (some i) = true → last.queues.empty none = true) ∧
      (last.queues.empty none = true ∨ n ≤ last.busy.card + 1) := by
  obtain ⟨lists, accounted, served⟩ := runInvariant run (startInvariant queues req outputLatency)
    (fun _ _ _ => stepInvariant)
  have empty := Queue.representedEmpty (q := none) accounted.rep
  rw [busyOccupied accounted.rep]
  refine ⟨accounted.count, fun rest i idle => ?_, ?_⟩
  · rw [rest] at served
    rcases served with none | all
    · simp [empty, none]
    · have absent : i ∉ occupied lists := by
        rw [Queue.representedEmpty accounted.rep] at idle
        simp [occupied, List.isEmpty_iff.mp idle]
      have fewer := Finset.card_lt_univ_of_notMem absent
      rw [Fintype.card_fin] at fewer
      simp only [Phase.slack] at all
      omega
  · rcases served with none | most
    · exact .inl (by simp [empty, none])
    · have slack : last.phase.slack ≤ 1 := by cases last.phase <;> simp [Phase.slack]
      exact .inr (by omega)

def plugTwo : Plug 2 Nat :=
  .start (.start (fun _ => none) (fun _ => none) (fun _ => none)) (fun _ => ⟨0, 0, 8, false⟩) 0

def plugTwoActions : List (Action 2 Nat) :=
  [.enqueue 0 0, .enqueue 1 0, .enqueue 2 0, .enqueue 3 0, .cancel 3, .event 0 1 5, .event 1 1 5, .event 0 6 5, .enqueue 4 6,
    .terminated 6]

theorem portsAccountedTwo :
    (reach step Orderly plugTwo plugTwoActions).nbPendingReqs = 2 ∧ (reach step Orderly plugTwo plugTwoActions).busy.card = 2 := by
  obtain ⟨trace, run, -⟩ := reachRun step Orderly plugTwo plugTwoActions (by decide +kernel)
  have accounted := (portsAccounted _ _ _ run).1
  have count : (reach step Orderly plugTwo plugTwoActions).nbPendingReqs = 2 := by decide +kernel
  refine ⟨count, ?_⟩
  rw [count] at accounted
  exact_mod_cast accounted.symm

def plugOne : Plug 1 Nat :=
  .start (.start (fun _ => none) (fun _ => none) (fun _ => none)) (fun _ => ⟨0, 0, 8, false⟩) 0

/- The request of the only port is cancelled: the counter stays, and the next request waits for a port that is free. -/
theorem portLeaked :
    ∃ trace last, Run step Proper plugOne trace last ∧ last.phase = .rest ∧ last.nbPendingReqs = 1 ∧ last.busy.card = 0 ∧
      last.queues.empty (some 0) = true ∧ last.queues.empty none = false := by
  obtain ⟨trace, run, -⟩ := reachRun step Proper plugOne [.enqueue 0 0, .cancel 0, .enqueue 1 0] (by decide +kernel)
  exact ⟨trace, _, run, by decide +kernel⟩

end Runs

end Gvsoc.MemPlug
