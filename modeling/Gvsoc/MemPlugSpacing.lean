import Gvsoc.MemPlug
import Mathlib.Tactic.Linarith

/-! The time between the accesses of a port. The plug compares times of the engine, its events are enqueued in cycles of the
clock of its component, and the latencies are numbers of these cycles. -/
namespace Gvsoc.MemPlug
open Queue (Store)
open Machine (Run anyStep runInvariant reach reachRun)

structure Issue (n : Nat) where
  port : Fin n
  cycle : Int
  latency : Int
  deriving DecidableEq, Repr

/- A plug and its clock: `due` is the cycle of the event of a port, when it is enqueued. -/
structure Clocked (n : Nat) (ε : Type) where
  plug : Plug n ε
  now : Int
  due : Fin n → Int
  issued : List (Issue n)

section Clock

variable {n : Nat} {ε : Type} [DecidableEq ε]

namespace Clocked

def start (plug : Plug n ε) : Clocked n ε := ⟨plug, 0, fun _ => 0, []⟩

variable (period : Int) (s : Clocked n ε)

/- The time of a call. A port event comes at the edge of its cycle, and the time stands still until its
`handle_termination` returns. -/
def clock : Action n ε → Option Int
  | .enqueue _ time => if time = s.now ∨ s.plug.phase = .rest ∧ s.now ≤ time then some time else none
  | .event i time _ => if time = period * s.due i ∧ s.now ≤ time then some time else none
  | .terminated time => if time = s.now then some time else none
  | .cancel _ => some s.now

def pending : Action n ε → Fin n → Option Int
  | .event i _ _ => Function.update s.plug.event i none
  | _ => s.plug.event

def issue (time : Int) : Action n ε → List (Issue n)
  | .event i _ latency => if s.plug.queues.empty (some i) then [] else [⟨i, time / period, latency⟩]
  | _ => []

def dueAfter (time : Int) (before after : Fin n → Option Int) (i : Fin n) : Int :=
  match before i, after i with
  | none, some cycles => time / period + cycles
  | _, _ => s.due i

def step (a : Action n ε) : Option (Clocked n ε) :=
  match s.clock period a, MemPlug.step s.plug a with
  | some time, some plug => some ⟨plug, time, s.dueAfter period time (s.pending a) plug.event, s.issued ++ s.issue period time a⟩
  | _, _ => none

def lastOf (i : Fin n) : Option (Issue n) := (s.issued.filter fun a => a.port = i).getLast?

end Clocked

def Spaced (issued : List (Issue n)) : Prop :=
  ∀ i, (issued.filter fun a => a.port = i).IsChain fun a b => a.cycle + max a.latency 1 ≤ b.cycle

instance (issued : List (Issue n)) : Decidable (Spaced issued) := by
  unfold Spaced
  infer_instance

def Clocked.Scheduled (s : Clocked n ε) : Prop :=
  ∀ i, ∀ a ∈ s.lastOf i, (s.plug.event i).isSome → a.cycle + max a.latency 1 ≤ s.due i

/- A request that comes to a port after its last access: the time that has passed is almost the number of cycles, or the
latency of the access is over. -/
def Timely (period output time : Int) (a : Issue n) : Prop :=
  time - period * a.cycle ≤ time / period - a.cycle + output ∨ a.latency ≤ time / period - a.cycle + 1

instance (period output time : Int) (a : Issue n) : Decidable (Timely period output time a) := by
  unfold Timely
  infer_instance

def Plug.taker (s : Plug n ε) : Option (Fin n) :=
  if s.nbPendingReqs < n then (List.finRange n).find? fun i => s.queues.empty (some i) else none

def Clocked.Prompt (period : Int) (s : Clocked n ε) (time : Int) : Prop :=
  ∀ i ∈ s.plug.taker, s.plug.event i = none → ∀ a ∈ s.lastOf i, Timely period s.plug.outputLatency time a

def Clocked.Allowed (period : Int) (s : Clocked n ε) : Action n ε → Prop
  | .enqueue _ time => s.Prompt period time
  | .terminated time => s.plug.queues.empty none = false → s.Prompt period time
  | _ => True

end Clock

section Waking

variable {n : Nat} {ε : Type} {s s' s'' : Plug n ε} {time : Int}

def wait (ready time : Int) : Int := if ready ≠ -1 ∧ ready > time then ready - time else 1

structure Woken (time : Int) (takes : Fin n → Prop) (s s' : Plug n ε) : Prop where
  ready : s'.readyTime = s.readyTime
  output : s'.outputLatency = s.outputLatency
  event : ∀ i, s'.event i = s.event i ∨ takes i ∧ s.event i = none ∧ s'.event i = some (wait (s.readyTime i) time)

theorem wokenRefl (takes : Fin n → Prop) (s : Plug n ε) : Woken time takes s s := ⟨rfl, rfl, fun _ => .inl rfl⟩

theorem wokenTrans {takes takes' : Fin n → Prop} (first : Woken time takes s s') (second : Woken time takes' s' s'') :
    Woken time (fun i => takes i ∨ takes' i) s s'' := by
  refine ⟨second.ready.trans first.ready, second.output.trans first.output, fun i => ?_⟩
  rcases first.event i with same | ⟨takes, none, some⟩
  · rcases second.event i with later | ⟨takes, none, some⟩
    · exact .inl (later.trans same)
    · exact .inr ⟨.inr takes, same ▸ none, first.ready ▸ some⟩
  · rcases second.event i with later | ⟨-, never, -⟩
    · exact .inr ⟨.inl takes, none, later.trans some⟩
    · rw [some] at never
      contradiction

theorem wokenSame {takes : Fin n → Prop} {t : Plug n ε} (woken : Woken time takes t s') (event : t.event = s.event)
    (ready : t.readyTime = s.readyTime) (output : t.outputLatency = s.outputLatency) : Woken time takes s s' :=
  ⟨woken.ready.trans ready, woken.output.trans output, fun i => by simpa only [event, ready] using woken.event i⟩

theorem portCheckStateWoken (s : Plug n ε) (time : Int) (i : Fin n) : Woken time (· = i) s (s.portCheckState time i) := by
  unfold Plug.portCheckState
  split
  · exact wokenRefl _ s
  · rename_i idle
    split
    · exact wokenRefl _ s
    · refine ⟨rfl, rfl, fun j => ?_⟩
      by_cases own : j = i
      · subst own
        exact .inr ⟨rfl, by simpa using idle, Function.update_self ..⟩
      · exact .inl (Function.update_of_ne own ..)

variable [DecidableEq ε]

theorem offerFind (s : Plug n ε) (time : Int) (e : ε) (ports : List (Fin n)) :
    s.offer time e ports = match ports.find? fun i => s.queues.empty (some i) with
      | some i => Plug.portCheckState { s with queues := s.queues.pushBack (some i) e } time i
      | none => s := by
  induction ports with
  | nil => rfl
  | cons j rest ih =>
      rw [Plug.offer]
      cases free : s.queues.empty (some j) with
      | true => simp only [List.find?, free, if_true]
      | false => simpa only [List.find?, free, Bool.false_eq_true, if_false] using ih

omit [DecidableEq ε] in
theorem popEmpty (queues : Store (Option (Fin n)) ε) (i : Fin n) : (queues.pop none).1.empty (some i) = queues.empty (some i) := by
  unfold Store.pop Store.empty
  cases queues.first none with
  | none => rfl
  | some e =>
      dsimp only
      rw [Function.update_of_ne (Option.some_ne_none i)]

theorem pushOther (queues : Store (Option (Fin n)) ε) (e : ε) (i : Fin n) :
    (queues.pushBack none e).empty (some i) = queues.empty (some i) := by
  unfold Store.pushBack Store.empty
  dsimp only
  split
  · rfl
  · exact congrArg Option.isNone (Function.update_of_ne (Option.some_ne_none i) ..)

theorem pushSome (queues : Store (Option (Fin n)) ε) (q : Option (Fin n)) (e : ε) : (queues.pushBack q e).empty q = false := by
  unfold Store.pushBack Store.empty
  dsimp only
  split
  · rename_i some
    simpa using some
  · rw [Function.update_self]
    rfl

theorem takerPushed (s : Plug n ε) (e : ε) : Plug.taker { s with queues := s.queues.pushBack none e } = s.taker := by
  unfold Plug.taker
  simp only [pushOther]

omit [DecidableEq ε] in
theorem takerSome {i : Fin n} (taker : s.taker = some i) :
    s.nbPendingReqs < n ∧ (List.finRange n).find? (fun i => s.queues.empty (some i)) = some i := by
  unfold Plug.taker at taker
  split at taker
  · rename_i few
    exact ⟨few, taker⟩
  · contradiction

theorem checkStateTaken (time : Int) {i : Fin n} (waiting : s.queues.empty none = false) (taker : s.taker = some i) :
    ∃ e, s.checkState time = Plug.portCheckState { s with
      queues := (s.queues.pop none).1.pushBack (some i) e, nbPendingReqs := s.nbPendingReqs + 1 } time i := by
  obtain ⟨few, found⟩ := takerSome taker
  obtain ⟨e, first⟩ : ∃ e, (s.queues.pop none).2 = some e := by
    unfold Store.empty at waiting
    unfold Store.pop
    cases head : s.queues.first none with
    | none =>
        rw [head] at waiting
        contradiction
    | some e => exact ⟨e, rfl⟩
  refine ⟨e, ?_⟩
  have free := popEmpty s.queues
  unfold Plug.checkState
  rw [if_pos ⟨few, waiting⟩]
  cases popped : s.queues.pop none with
  | mk queues result =>
      rw [popped] at first free
      cases first
      simp only [offerFind, free, found]

theorem checkStateLeft (time : Int) (other : s.queues.empty none = true ∨ s.taker = none) :
    (s.checkState time).event = s.event ∧ (s.checkState time).readyTime = s.readyTime ∧
      (s.checkState time).outputLatency = s.outputLatency := by
  unfold Plug.checkState
  split
  · rename_i ready
    have free := popEmpty s.queues
    have taken : (List.finRange n).find? (fun i => s.queues.empty (some i)) = none := by
      rcases other with empty | taker
      · rw [ready.2] at empty
        contradiction
      · rwa [Plug.taker, if_pos ready.1] at taker
    cases popped : s.queues.pop none with
    | mk queues result =>
        rw [popped] at free
        cases result with
        | none => exact ⟨rfl, rfl, rfl⟩
        | some e =>
            simp only [offerFind, free, taken]
            exact ⟨trivial, trivial, trivial⟩
  · exact ⟨rfl, rfl, rfl⟩

theorem checkStateWoken (s : Plug n ε) (time : Int) :
    Woken time (fun i => s.queues.empty none = false ∧ s.taker = some i) s (s.checkState time) := by
  cases waiting : s.queues.empty none with
  | true =>
      obtain ⟨event, ready, output⟩ := checkStateLeft time (.inl waiting)
      exact ⟨ready, output, fun i => .inl (congrFun event i)⟩
  | false =>
      cases taker : s.taker with
      | none =>
          obtain ⟨event, ready, output⟩ := checkStateLeft time (.inr taker)
          exact ⟨ready, output, fun i => .inl (congrFun event i)⟩
      | some i =>
          obtain ⟨e, same⟩ := checkStateTaken time waiting taker
          rw [same]
          have woken := portCheckStateWoken { s with
            queues := (s.queues.pop none).1.pushBack (some i) e, nbPendingReqs := s.nbPendingReqs + 1 } time i
          refine wokenSame ⟨woken.ready, woken.output, fun j => (woken.event j).imp_right (And.imp_left fun own => ⟨rfl, ?_⟩)⟩ rfl rfl rfl
          rw [own]

theorem takerWakes (time : Int) {i : Fin n} (waiting : s.queues.empty none = false) (taker : s.taker = some i) (idle : s.event i = none) :
    (s.checkState time).event i = some (wait (s.readyTime i) time) := by
  obtain ⟨e, same⟩ := checkStateTaken time waiting taker
  have filled : ((s.queues.pop none).1.pushBack (some i) e).empty (some i) = false := pushSome _ _ _
  rw [same, Plug.portCheckState]
  dsimp only
  rw [idle, filled, if_neg (by simp), if_neg (by simp)]
  exact Function.update_self ..

end Waking

section Times

variable {n : Nat} {period output time : Int} {a : Issue n}

theorem timelyIff (positive : 0 < period) (later : period * a.cycle ≤ time) (real : 0 ≤ time) :
    a.cycle + max a.latency 1 ≤ time / period + wait (period * a.cycle + (a.latency + output)) time ↔
      Timely period output time a := by
  have whole : a.cycle ≤ time / period := (Int.le_ediv_iff_mul_le positive).mpr (by rwa [mul_comm])
  have passed : time / period - a.cycle ≤ time - period * a.cycle := by
    have quotient := Int.mul_ediv_add_emod time period
    have low := Int.emod_nonneg time positive.ne'
    have scaled : 1 * (time / period - a.cycle) ≤ period * (time / period - a.cycle) :=
      Int.mul_le_mul_of_nonneg_right positive (by omega)
    rw [one_mul, mul_sub] at scaled
    omega
  unfold Timely wait
  generalize time / period = cycles at *
  generalize period * a.cycle = since at *
  split
  · constructor <;> omega
  · constructor <;> omega

theorem timelyNow (positive : 0 < period) (natural : 0 ≤ output) (now : time = period * a.cycle) : Timely period output time a := by
  subst now
  refine .inl ?_
  rw [Int.mul_ediv_cancel_left _ positive.ne']
  omega

end Times

section Steps

variable {n : Nat} {ε : Type} [DecidableEq ε] {period : Int} {s s' : Clocked n ε}

structure Paced (period : Int) (s : Clocked n ε) : Prop where
  ready : ∀ i, ∀ a ∈ s.lastOf i, s.plug.readyTime i = period * a.cycle + (a.latency + s.plug.outputLatency) ∧
    period * a.cycle ≤ s.now
  now : 0 ≤ s.now
  phase : ∀ i, s.plug.phase = .terminating i → ∃ a ∈ s.lastOf i, s.now = period * a.cycle

theorem stepTaken {a : Action n ε} (taken : s.step period a = some s') : ∃ time plug, s.clock period a = some time ∧
    MemPlug.step s.plug a = some plug ∧
      s' = ⟨plug, time, s.dueAfter period time (s.pending a) plug.event, s.issued ++ s.issue period time a⟩ := by
  unfold Clocked.step at taken
  split at taken
  · rename_i time plug clock step
    cases taken
    exact ⟨time, plug, clock, step, rfl⟩
  · contradiction

omit [DecidableEq ε] in
theorem wokenScheduled {plug : Plug n ε} {time : Int} {takes : Fin n → Prop} (positive : 0 < period) (paced : Paced period s)
    (scheduled : s.Scheduled) (later : s.now ≤ time) (woken : Woken time takes s.plug plug)
    (timely : ∀ i, takes i → s.plug.event i = none → ∀ a ∈ s.lastOf i, Timely period s.plug.outputLatency time a) :
    Clocked.Scheduled (⟨plug, time, s.dueAfter period time s.plug.event plug.event, s.issued⟩ : Clocked n ε) := by
  intro i a last enqueued
  change a.cycle + max a.latency 1 ≤ s.dueAfter period time s.plug.event plug.event i
  unfold Clocked.dueAfter
  rcases woken.event i with same | ⟨takes, none, some⟩
  · cases before : s.plug.event i with
    | none =>
        change (plug.event i).isSome at enqueued
        rw [same, before] at enqueued
        contradiction
    | some cycles => exact scheduled i a last (by rw [before]; rfl)
  · obtain ⟨ready, past⟩ := paced.ready i a last
    rw [none, some, ready]
    exact (timelyIff positive (past.trans later) (paced.now.trans later)).mpr (timely i takes none a last)

omit [DecidableEq ε] in
theorem scheduledTimely {plug : Plug n ε} {time : Int} {i : Fin n} (positive : 0 < period) (paced : Paced period s) (later : s.now ≤ time)
    (idle : s.plug.event i = none) (wakes : plug.event i = some (wait (s.plug.readyTime i) time))
    (scheduled : Clocked.Scheduled (⟨plug, time, s.dueAfter period time s.plug.event plug.event, s.issued⟩ : Clocked n ε)) :
    ∀ a ∈ s.lastOf i, Timely period s.plug.outputLatency time a := by
  intro a last
  obtain ⟨ready, past⟩ := paced.ready i a last
  have due := scheduled i a last (by rw [wakes]; rfl)
  change a.cycle + max a.latency 1 ≤ s.dueAfter period time s.plug.event plug.event i at due
  unfold Clocked.dueAfter at due
  rw [idle, wakes, ready] at due
  exact (timelyIff positive (past.trans later) (paced.now.trans later)).mp due

omit [DecidableEq ε] in
theorem wokenPaced {plug : Plug n ε} {time : Int} {takes : Fin n → Prop} {due : Fin n → Int} (paced : Paced period s)
    (later : s.now ≤ time) (woken : Woken time takes s.plug plug)
    (phase : ∀ i, plug.phase = .terminating i → s.plug.phase = .terminating i ∧ time = s.now) :
    Paced period (⟨plug, time, due, s.issued⟩ : Clocked n ε) := by
  refine ⟨fun i a last => ?_, paced.now.trans later, fun i terminating => ?_⟩
  · obtain ⟨ready, past⟩ := paced.ready i a last
    refine ⟨?_, past.trans later⟩
    change plug.readyTime i = period * a.cycle + (a.latency + plug.outputLatency)
    rw [woken.ready, woken.output]
    exact ready
  · obtain ⟨before, still⟩ := phase i terminating
    obtain ⟨a, last, now⟩ := paced.phase i before
    exact ⟨a, last, still.trans now⟩

theorem enqueueWoken (s : Plug n ε) (time : Int) (e : ε) : Woken time (fun i => s.taker = some i) s (s.enqueue time e) := by
  have woken := checkStateWoken { s with queues := s.queues.pushBack none e } time
  rw [takerPushed] at woken
  exact wokenSame ⟨woken.ready, woken.output, fun i => (woken.event i).imp_right (And.imp_left And.right)⟩ rfl rfl rfl

theorem terminatedWoken (s : Plug n ε) (time : Int) (i : Fin n) :
    Woken time (fun j => (s.queues.empty none = false ∧ s.taker = some j) ∨ j = i) s
      { (s.checkState time).portCheckState time i with phase := .rest } :=
  have woken := wokenTrans (checkStateWoken s time) (portCheckStateWoken (s.checkState time) time i)
  ⟨woken.ready, woken.output, woken.event⟩

def Plug.accessed (s : Plug n ε) (time : Int) (i : Fin n) (latency : Int) : Plug n ε :=
  { s with
    event := Function.update s.event i none
    readyTime := if s.queues.empty (some i) then s.readyTime
      else Function.update s.readyTime i (time + (latency + s.outputLatency)) }

theorem eventHandlerWoken (s : Plug n ε) (time : Int) (i : Fin n) (latency : Int) :
    Woken time (fun j => j = i ∧ s.queues.empty (some i) = false) (s.accessed time i latency) (s.eventHandler time i latency) ∧
      ((s.eventHandler time i latency).phase = s.phase ∨
        s.queues.empty (some i) = false ∧ (s.eventHandler time i latency).phase = .terminating i) := by
  unfold Plug.eventHandler Plug.accessed Store.head Store.empty
  dsimp only
  cases head : s.queues.first (some i) with
  | none => exact ⟨wokenRefl _ _, .inl rfl⟩
  | some e =>
      simp only [Option.isNone_some, Bool.false_eq_true, if_false]
      split_ifs
      · exact ⟨⟨rfl, rfl, fun _ => .inl rfl⟩, .inr ⟨trivial, rfl⟩⟩
      · refine ⟨wokenSame ?_ rfl rfl rfl, .inl (portCheckStatePhase i)⟩
        have woken := portCheckStateWoken (Plug.send { s with event := Function.update s.event i none } time i e latency) time i
        exact ⟨woken.ready, woken.output, fun j => (woken.event j).imp_right (And.imp_left fun own => ⟨own, trivial⟩)⟩

theorem checkStatePhase (s : Plug n ε) (time : Int) : (s.checkState time).phase = s.phase := by
  unfold Plug.checkState
  split
  · split
    · rw [offerFind]
      split
      · exact portCheckStatePhase _
      · rfl
    · rfl
  · rfl

def Clocked.accessed (period : Int) (s : Clocked n ε) (time : Int) (i : Fin n) (latency : Int) : Clocked n ε :=
  ⟨{ s.plug.accessed time i latency with phase := (s.plug.eventHandler time i latency).phase }, time, s.due,
    s.issued ++ s.issue period time (.event i time latency)⟩

omit [DecidableEq ε] in
theorem lastIssued (issued : List (Issue n)) (b : Issue n) (i : Fin n) :
    ((issued ++ [b]).filter fun a => a.port = i).getLast? =
      if b.port = i then some b else (issued.filter fun a => a.port = i).getLast? := by
  rw [List.filter_append]
  split
  · rename_i own
    simp [own]
  · rename_i other
    simp [other]

omit [DecidableEq ε] in
theorem spacedIssued {issued : List (Issue n)} {b : Issue n} (spaced : Spaced issued)
    (after : ∀ a ∈ (issued.filter fun a => a.port = b.port).getLast?, a.cycle + max a.latency 1 ≤ b.cycle) :
    Spaced (issued ++ [b]) := by
  intro i
  rw [List.filter_append]
  by_cases own : b.port = i
  · subst own
    refine List.isChain_append.mpr ⟨spaced b.port, ?_, fun a last c first => ?_⟩
    · simp
    · simp only [decide_true, List.filter_cons_of_pos, List.filter_nil, List.head?_cons, Option.mem_some_iff] at first
      subst first
      exact after a last
  · simpa [own] using spaced i

theorem accessedLast (time latency : Int) (i j : Fin n) :
    (s.accessed period time i latency).lastOf j =
      if i = j ∧ s.plug.queues.empty (some i) = false then some ⟨i, time / period, latency⟩ else s.lastOf j := by
  unfold Clocked.accessed Clocked.issue Clocked.lastOf
  dsimp only
  cases empty : s.plug.queues.empty (some i) with
  | true => simp only [if_true, List.append_nil, Bool.true_eq_false, and_false, if_false]
  | false => simp only [Bool.false_eq_true, if_false, lastIssued, and_true]

theorem accessedReady (time latency : Int) (i j : Fin n) :
    (s.accessed period time i latency).plug.readyTime j =
      if i = j ∧ s.plug.queues.empty (some i) = false then time + (latency + s.plug.outputLatency) else s.plug.readyTime j := by
  unfold Clocked.accessed Plug.accessed
  cases empty : s.plug.queues.empty (some i) with
  | true => simp
  | false =>
      by_cases own : j = i
      · subst own
        simp
      · simp [own, Ne.symm own]

theorem accessedPaced {time : Int} (latency : Int) (i : Fin n) (paced : Paced period s) (edge : time = period * (time / period))
    (later : s.now ≤ time) (rest : s.plug.phase = .rest) : Paced period (s.accessed period time i latency) := by
  refine ⟨fun j a last => ?_, paced.now.trans later, fun j terminating => ?_⟩
  · change _ = period * a.cycle + (a.latency + s.plug.outputLatency) ∧ period * a.cycle ≤ time
    rw [accessedLast] at last
    rw [accessedReady]
    split at last
    · rename_i own
      cases last
      rw [if_pos own, ← edge]
      exact ⟨rfl, le_rfl⟩
    · rename_i other
      obtain ⟨ready, past⟩ := paced.ready j a last
      rw [if_neg other]
      exact ⟨ready, past.trans later⟩
  · change (s.plug.eventHandler time i latency).phase = _ at terminating
    rcases (eventHandlerWoken s.plug time i latency).2 with same | ⟨filled, own⟩
    · rw [same, rest] at terminating
      contradiction
    · rw [own] at terminating
      cases terminating
      refine ⟨⟨i, time / period, latency⟩, ?_, edge⟩
      rw [accessedLast, if_pos ⟨rfl, filled⟩]
      rfl

theorem accessedScheduled {time latency : Int} {i : Fin n} (scheduled : s.Scheduled) :
    (s.accessed period time i latency).Scheduled := by
  intro j a last enqueued
  change (Function.update s.plug.event i none j).isSome at enqueued
  by_cases own : j = i
  · subst own
    rw [Function.update_self] at enqueued
    contradiction
  · rw [Function.update_of_ne own] at enqueued
    rw [accessedLast, if_neg (fun both => own both.1.symm)] at last
    exact scheduled j a last enqueued

theorem enqueueKeeps {e : ε} {time : Int} (positive : 0 < period) (paced : Paced period s) (scheduled : s.Scheduled)
    (later : s.now ≤ time) (still : time = s.now ∨ s.plug.phase = .rest) {s' : Clocked n ε}
    (after : s' = ⟨s.plug.enqueue time e, time, s.dueAfter period time s.plug.event (s.plug.enqueue time e).event, s.issued⟩) :
    Paced period s' ∧ (s'.Scheduled ↔ s.Prompt period time) := by
  subst after
  have woken := enqueueWoken s.plug time e
  refine ⟨wokenPaced paced later woken fun i terminating => ?_, fun next i taker idle => ?_, fun prompt => ?_⟩
  · have phase : (s.plug.enqueue time e).phase = s.plug.phase := checkStatePhase _ _
    rw [phase] at terminating
    refine ⟨terminating, still.resolve_right fun rest => ?_⟩
    rw [rest] at terminating
    contradiction
  · refine scheduledTimely positive paced later idle ?_ next
    have waiting : (s.plug.queues.pushBack none e).empty none = false := pushSome _ _ _
    exact takerWakes _ (s := { s.plug with queues := s.plug.queues.pushBack none e }) waiting ((takerPushed _ _).trans taker) idle
  · exact wokenScheduled positive paced scheduled later woken prompt

theorem terminatedKeeps {i : Fin n} (positive : 0 < period) (natural : 0 ≤ s.plug.outputLatency) (paced : Paced period s)
    (scheduled : s.Scheduled) (phase : s.plug.phase = .terminating i) {plug : Plug n ε}
    (called : plug = { (s.plug.checkState s.now).portCheckState s.now i with phase := .rest }) {s' : Clocked n ε}
    (after : s' = ⟨plug, s.now, s.dueAfter period s.now s.plug.event plug.event, s.issued⟩) :
    Paced period s' ∧ (s'.Scheduled ↔ (s.plug.queues.empty none = false → s.Prompt period s.now)) := by
  subst after
  have woken := called ▸ terminatedWoken s.plug s.now i
  refine ⟨wokenPaced paced le_rfl woken fun j terminating => ?_, fun next waiting j taker idle => ?_, fun prompt => ?_⟩
  · rw [called] at terminating
    contradiction
  · refine scheduledTimely positive paced le_rfl idle ?_ next
    have first := takerWakes s.now waiting taker idle
    rw [called]
    rcases (portCheckStateWoken (s.plug.checkState s.now) s.now i).event j with same | ⟨-, none, -⟩
    · exact same.trans first
    · rw [first] at none
      contradiction
  · refine wokenScheduled positive paced scheduled le_rfl woken fun j takes idle a last => ?_
    rcases takes with ⟨waiting, taker⟩ | own
    · exact prompt waiting j taker idle a last
    · subst own
      obtain ⟨b, final, now⟩ := paced.phase j phase
      cases Option.mem_unique last final
      exact timelyNow positive natural now

theorem eventKeeps {i : Fin n} {time latency : Int} (positive : 0 < period) (natural : 0 ≤ s.plug.outputLatency)
    (paced : Paced period s) (scheduled : s.Scheduled) (edge : time = period * s.due i) (later : s.now ≤ time)
    (rest : s.plug.phase = .rest) {plug : Plug n ε} (called : plug = s.plug.eventHandler time i latency) {s' : Clocked n ε}
    (after : s' = ⟨plug, time, s.dueAfter period time (s.pending (.event i time latency)) plug.event,
      s.issued ++ s.issue period time (.event i time latency)⟩) :
    Paced period s' ∧ s'.Scheduled := by
  subst after
  have cycle : time / period = s.due i := by rw [edge, Int.mul_ediv_cancel_left _ positive.ne']
  have whole : time = period * (time / period) := by rw [cycle, edge]
  have woken := called ▸ (eventHandlerWoken s.plug time i latency).1
  have between := accessedPaced latency i paced whole later rest
  have passed : Woken time (fun j => j = i ∧ s.plug.queues.empty (some i) = false) (s.accessed period time i latency).plug plug :=
    ⟨woken.ready, woken.output, woken.event⟩
  refine ⟨wokenPaced between le_rfl passed fun j terminating => ⟨?_, rfl⟩, ?_⟩
  · rw [called] at terminating
    exact terminating
  refine wokenScheduled positive between (accessedScheduled scheduled) le_rfl passed fun j takes _ a last => ?_
  obtain ⟨rfl, filled⟩ := takes
  rw [accessedLast, if_pos ⟨rfl, filled⟩] at last
  cases last
  exact timelyNow positive natural whole

theorem stepKeeps {a : Action n ε} (positive : 0 < period) (natural : 0 ≤ s.plug.outputLatency) (paced : Paced period s)
    (scheduled : s.Scheduled) (taken : s.step period a = some s') : Paced period s' ∧ (s'.Scheduled ↔ s.Allowed period a) := by
  obtain ⟨now, plug, clock, called, after⟩ := stepTaken taken
  cases a with
  | enqueue e time =>
      obtain ⟨order, same⟩ := Option.ite_none_right_eq_some.mp clock
      cases same
      cases called
      have later : s.now ≤ now := by omega
      exact enqueueKeeps positive paced scheduled later (order.imp_right And.left) (by simpa [Clocked.issue, Clocked.pending] using after)
  | event i time latency =>
      obtain ⟨order, same⟩ := Option.ite_none_right_eq_some.mp clock
      cases same
      obtain ⟨ready, done⟩ := Option.ite_none_right_eq_some.mp called
      cases done
      obtain ⟨paced', scheduled'⟩ := eventKeeps positive natural paced scheduled order.1 order.2 ready.1 rfl after
      exact ⟨paced', iff_of_true scheduled' trivial⟩
  | terminated time =>
      obtain ⟨order, same⟩ := Option.ite_none_right_eq_some.mp clock
      cases same
      cases order
      simp only [MemPlug.step] at called
      split at called
      · contradiction
      · rename_i i phase
        cases called
        exact terminatedKeeps positive natural paced scheduled phase rfl (by simpa [Clocked.issue, Clocked.pending] using after)
  | cancel e =>
      cases clock
      obtain ⟨queues, -, rfl⟩ := Option.map_eq_some_iff.mp called
      have woken : Woken s.now (fun _ => False) s.plug { s.plug with queues := queues } := ⟨rfl, rfl, fun _ => .inl rfl⟩
      have kept : s' = ⟨{ s.plug with queues := queues }, s.now, s.dueAfter period s.now s.plug.event s.plug.event, s.issued⟩ := by
        simpa [Clocked.issue, Clocked.pending] using after
      subst kept
      refine ⟨wokenPaced paced le_rfl woken fun i terminating => ⟨terminating, rfl⟩, iff_of_true ?_ trivial⟩
      exact wokenScheduled positive paced scheduled le_rfl woken fun i never => never.elim

theorem stepSpaced {a : Action n ε} (positive : 0 < period) (scheduled : s.Scheduled) (spaced : Spaced s.issued)
    (taken : s.step period a = some s') : Spaced s'.issued := by
  obtain ⟨now, plug, clock, called, rfl⟩ := stepTaken taken
  change Spaced (s.issued ++ s.issue period now a)
  cases a with
  | event i time latency =>
      obtain ⟨⟨edge, -⟩, same⟩ := Option.ite_none_right_eq_some.mp clock
      cases same
      obtain ⟨⟨-, enqueued⟩, -⟩ := Option.ite_none_right_eq_some.mp called
      unfold Clocked.issue
      dsimp only
      split
      · rwa [List.append_nil]
      · refine spacedIssued spaced fun a last => ?_
        change _ ≤ now / period
        rw [edge, Int.mul_ediv_cancel_left _ positive.ne']
        exact scheduled i a last enqueued
  | enqueue | terminated | cancel => simpa [Clocked.issue] using spaced

theorem stepOutput {a : Action n ε} (taken : s.step period a = some s') : s'.plug.outputLatency = s.plug.outputLatency := by
  obtain ⟨now, plug, clock, called, rfl⟩ := stepTaken taken
  change plug.outputLatency = s.plug.outputLatency
  cases a with
  | enqueue e time =>
      cases called
      exact (enqueueWoken s.plug time e).output
  | event i time latency =>
      obtain ⟨-, done⟩ := Option.ite_none_right_eq_some.mp called
      cases done
      exact (eventHandlerWoken s.plug time i latency).1.output
  | terminated time =>
      simp only [MemPlug.step] at called
      split at called
      · contradiction
      · rename_i i phase
        cases called
        exact (terminatedWoken s.plug time i).output
  | cancel e =>
      obtain ⟨queues, -, rfl⟩ := Option.map_eq_some_iff.mp called
      rfl

end Steps

section Spacing

variable {n : Nat} {ε : Type} [DecidableEq ε] {period : Int}

structure Kept (period : Int) (s : Clocked n ε) : Prop where
  natural : 0 ≤ s.plug.outputLatency
  paced : Paced period s
  scheduled : s.Scheduled
  spaced : Spaced s.issued

omit [DecidableEq ε] in
theorem startKept (queues : Store (Option (Fin n)) ε) (req : ε → Req) {outputLatency : Int} (natural : 0 ≤ outputLatency) :
    Kept period (.start (.start queues req outputLatency)) :=
  ⟨natural, ⟨nofun, le_rfl, nofun⟩, nofun, fun _ => .nil⟩

theorem stepKept {s s' : Clocked n ε} {a : Action n ε} (positive : 0 < period) (kept : Kept period s) (allowed : s.Allowed period a)
    (taken : s.step period a = some s') : Kept period s' := by
  obtain ⟨natural, paced, scheduled, spaced⟩ := kept
  obtain ⟨paced', scheduled'⟩ := stepKeeps positive natural paced scheduled taken
  exact ⟨stepOutput taken ▸ natural, paced', scheduled'.mpr allowed, stepSpaced positive scheduled spaced taken⟩

/- The accesses of a port are spaced while each request comes at the right time, and a request that does not puts the event
of its port into a cycle that is too early. -/
theorem accessesSpaced (queues : Store (Option (Fin n)) ε) (req : ε → Req) {outputLatency : Int} (positive : 0 < period)
    (natural : 0 ≤ outputLatency) {trace last}
    (run : Run (Clocked.step period) (Clocked.Allowed period) (.start (.start queues req outputLatency)) trace last) :
    Spaced last.issued ∧ ∀ a next, last.step period a = some next → (next.Scheduled ↔ last.Allowed period a) := by
  have kept := runInvariant run (startKept queues req natural) (fun _ _ _ => stepKept positive)
  exact ⟨kept.spaced, fun a next taken => (stepKeeps positive kept.natural kept.paced kept.scheduled taken).2⟩

instance (s : Clocked n ε) (time : Int) : Decidable (s.Prompt period time) := by
  unfold Clocked.Prompt
  infer_instance

instance (s : Clocked n ε) : (a : Action n ε) → Decidable (s.Allowed period a)
  | .enqueue _ time => inferInstanceAs (Decidable (s.Prompt period time))
  | .event .. => .isTrue trivial
  | .terminated time => inferInstanceAs (Decidable (s.plug.queues.empty none = false → s.Prompt period time))
  | .cancel _ => .isTrue trivial

def plugWord : Plug 1 Nat :=
  .start (.start (fun _ => none) (fun _ => none) (fun _ => none)) (fun _ => ⟨0, 0, 4, false⟩) 0

/- The second request waits while the first one has its access, in cycle 1; its own one comes when the latency of five is over. -/
theorem accessesSpacedTwo : (reach (Clocked.step 10) (Clocked.Allowed 10) (.start plugWord)
    [.enqueue 0 0, .enqueue 1 0, .event 0 10 5, .terminated 10, .event 0 60 5]).issued.map Issue.cycle = [1, 6] ∧
    Spaced (reach (Clocked.step 10) (Clocked.Allowed 10) (.start plugWord)
      [.enqueue 0 0, .enqueue 1 0, .event 0 10 5, .terminated 10, .event 0 60 5]).issued := by
  obtain ⟨trace, run, -⟩ := reachRun (Clocked.step 10) (Clocked.Allowed 10) (.start plugWord)
    [.enqueue 0 0, .enqueue 1 0, .event 0 10 5, .terminated 10, .event 0 60 5] (by decide +kernel)
  exact ⟨by decide +kernel, (accessesSpaced _ _ (by decide) (by decide) run).1⟩

/- The second request comes two cycles after the access of the first one, whose ready time is 15 ps: its access comes in the
next cycle, two after the first one, and not five. -/
theorem accessEarly : ∃ trace last, Run (Clocked.step 10) anyStep (.start plugWord) trace last ∧
    last.issued.map Issue.cycle = [1, 3] ∧ last.issued.map Issue.latency = [5, 5] ∧ ¬Spaced last.issued := by
  obtain ⟨trace, run, -⟩ := reachRun (Clocked.step 10) anyStep (.start plugWord)
    [.enqueue 0 0, .event 0 10 5, .terminated 10, .enqueue 1 20, .event 0 30 5] (by decide +kernel)
  exact ⟨trace, _, run, by decide +kernel⟩

end Spacing

end Gvsoc.MemPlug
