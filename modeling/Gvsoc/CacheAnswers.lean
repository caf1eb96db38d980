import Gvsoc.CacheValid
import Gvsoc.Ledger

/-! Answers of the cache. A request that was told to wait gets one `resp`, the others none, as
long as no refill is denied and none fails for a request that is replayed. Once no more requests
come, the responses and the replays are finitely many and nobody waits after them. -/
namespace Gvsoc.Cache
open Bytes (Byte)
open Io (IoStatus)
open Machine (Run)
open Ledger (Balanced)

variable (c : Config)

structure AnsweredOnce (w : Watched) : Prop where
  queue : w.cache.refillPendingReqs.map some = w.waiting.map (fun id => w.requests[id]?)
  pending : ∀ id : Nat, w.answers[id]? = some .pending →
    (w.waiting.count id = 1 ∧ w.resps.count id = 0) ∨ (w.waiting.count id = 0 ∧ w.resps.count id = 1)
  settled : ∀ (id : Nat) (answer : IoStatus), w.answers[id]? = some answer → answer ≠ .pending → w.resps.count id = 0

def Answerable (w : Watched) : Event → Prop
  | .req r answer _ => w.cache.enabled = true → w.cache.asks c r → answer ≠ .denied
  | .fsm answer _ => ∀ r ∈ w.cache.refillPendingReqs.head?, w.cache.asks c r → answer = .ok ∨ answer = .pending
  | _ => True

def Drains : Event → Prop
  | .refillResponse => True
  | .fsm _ _ => True
  | _ => False

instance (w : Watched) (e : Event) : Decidable (Answerable c w e) :=
  match e with
  | .req _ _ _ => inferInstanceAs (Decidable (_ → _ → _))
  | .fsm answer _ => inferInstanceAs
      (Decidable (∀ r ∈ w.cache.refillPendingReqs.head?, w.cache.asks c r → answer = .ok ∨ answer = .pending))
  | .moves _ => .isTrue trivial
  | .refillResponse => .isTrue trivial
  | .flush => .isTrue trivial
  | .flushLineAddr _ => .isTrue trivial
  | .flushLine => .isTrue trivial
  | .enable _ => .isTrue trivial
  | .memory _ => .isTrue trivial

section Invariant

def Matched (w : Watched) : Prop := w.cache.refillPendingReqs.map some = w.waiting.map (fun id => w.requests[id]?)

structure Accounted (w : Watched) : Prop where
  quiet : w.granted = false
  matched : Matched w
  busy : w.cache.pendingRefill = true → w.waiting ≠ []
  event : w.cache.pendingRefill = false → w.waiting ≠ [] → w.cache.fsmEvent = true
  known : w.requests.length = w.answers.length
  balanced : Balanced (· = .pending) w.answers (w.waiting ++ w.resps)

variable {c} {w next : Watched} {s : State} {r : Req} {answer : IoStatus} {id : Nat} {left : Nat → Option Byte}

inductive Queued (w next : Watched) (r : Req) (id : Nat) : IoStatus → Prop where
  | served {status : IoStatus} (done : status = .ok ∨ status = .invalid) (waiting : next.waiting = w.waiting)
      (queue : next.cache.refillPendingReqs = w.cache.refillPendingReqs)
      (busy : next.cache.pendingRefill = w.cache.pendingRefill) : Queued w next r id status
  | behind (before : w.cache.pendingRefill = true) (waiting : next.waiting = w.waiting ++ [id])
      (queue : next.cache.refillPendingReqs = w.cache.refillPendingReqs ++ [r])
      (busy : next.cache.pendingRefill = true) : Queued w next r id .pending
  | ahead (before : w.cache.pendingRefill = false) (waiting : next.waiting = id :: w.waiting)
      (queue : next.cache.refillPendingReqs = r :: w.cache.refillPendingReqs)
      (busy : next.cache.pendingRefill = true) : Queued w next r id .pending

structure Unanswered (w next : Watched) : Prop where
  requests : next.requests = w.requests
  answers : next.answers = w.answers
  resps : next.resps = w.resps
  event : next.cache.fsmEvent = w.cache.fsmEvent

theorem serveQueued (j : Nat) :
    let next := { w with cache := w.cache.transfer j r r.isWrite }.stored j r
    next.waiting = w.waiting ∧ next.cache.refillPendingReqs = w.cache.refillPendingReqs ∧
      next.cache.pendingRefill = w.cache.pendingRefill ∧ Unanswered w next := by
  obtain ⟨-, -, -, queue, busy, event⟩ := transferKeeps (s := w.cache) (j := j) (r := r) r.isWrite
  unfold Watched.stored
  dsimp only
  split <;> exact ⟨rfl, queue, busy, rfl, rfl, rfl, event⟩

theorem handleQueued (w : Watched) (c : Config) (id : Nat) (r : Req) (answer : IoStatus) (left : Nat → Option Byte) :
    Queued w (w.handle c id r answer left).1 r id (w.handle c id r answer left).2 ∧
    Unanswered w (w.handle c id r answer left).1 := by
  unfold Watched.handle State.handleReq
  cases hit : w.cache.getLine c r with
  | some j =>
      obtain ⟨waiting, queue, busy, same⟩ := serveQueued (w := w) (r := r) j
      exact ⟨.served (.inl rfl) waiting queue busy, same⟩
  | none =>
      cases free : w.cache.pendingRefill with
      | true =>
          simp only [refillWaits answer free]
          exact ⟨.behind free rfl rfl free, ⟨rfl, rfl, rfl, rfl⟩⟩
      | false =>
          simp only [refillAsks answer free]
          cases answer with
          | ok =>
              let cache := (w.cache.asked c r).setLine (c.victim w.cache r)
                ⟨c.tagOf r.addr, (w.cache.asked c r).loaded c w.memory⟩
              obtain ⟨waiting, queue, busy, same⟩ := serveQueued (r := r)
                (w := { w with cache := cache }.filled (c.victim w.cache r) (c.tagOf r.addr) false) (c.victim w.cache r)
              dsimp only
              rw [transferFilled]
              exact ⟨.served (.inl rfl) waiting queue busy, ⟨same.requests, same.answers, same.resps, same.event⟩⟩
          | pending => exact ⟨.ahead free rfl rfl rfl, ⟨rfl, rfl, rfl, rfl⟩⟩
          | invalid => exact ⟨.served (.inr rfl) rfl rfl rfl, ⟨rfl, rfl, rfl, rfl⟩⟩
          | denied => exact ⟨.served (.inr rfl) rfl rfl rfl, ⟨rfl, rfl, rfl, rfl⟩⟩

theorem handleGranted (id : Nat) (left : Nat → Option Byte) (accepted : w.cache.asks c r → answer ≠ .denied) :
    (w.handle c id r answer left).1.granted = w.granted := by
  unfold Watched.handle
  dsimp only
  split
  · exact storedGranted _ _ _
  · rfl
  · exact storedGranted _ _ _
  · rfl
  · rfl
  · rename_i missing free
    exact absurd rfl (accepted ⟨missing, free⟩)

theorem handleServed (free : w.cache.pendingRefill = false)
    (accepted : w.cache.asks c r → answer = .ok ∨ answer = .pending) : (w.handle c id r answer left).2 ≠ .invalid := by
  rw [handleStatus]
  unfold State.handleReq
  cases hit : w.cache.getLine c r with
  | some j => simp
  | none =>
      rcases accepted ⟨hit, free⟩ with rfl | rfl
      · simp [refillAsks .ok free]
      · simp [refillAsks .pending free]

section Matched

theorem matchedCons {rest : List Req} (matched : Matched w) (queue : w.cache.refillPendingReqs = r :: rest) :
    ∃ id ids, w.waiting = id :: ids ∧ w.requests[id]? = some r ∧ rest.map some = ids.map (fun id => w.requests[id]?) := by
  unfold Matched at matched
  rw [queue] at matched
  cases waiting : w.waiting with
  | nil => simp [waiting] at matched
  | cons id ids =>
      simp only [waiting, List.map_cons, List.cons.injEq] at matched
      exact ⟨id, ids, rfl, matched.1.symm, matched.2⟩

theorem matchedNil (matched : Matched w) : w.cache.refillPendingReqs = [] ↔ w.waiting = [] := by
  unfold Matched at matched
  rw [← List.map_eq_nil_iff (f := some), matched, List.map_eq_nil_iff]

theorem matchedGrow (accounted : Accounted w) (r : Req) :
    w.waiting.map (fun id => (w.requests ++ [r])[id]?) = w.cache.refillPendingReqs.map some := by
  refine Eq.trans ?_ accounted.matched.symm
  refine List.map_congr_left (fun id member => ?_)
  obtain ⟨answer, found, -⟩ := (accounted.balanced.exact id).mp (List.mem_append_left _ member)
  have small : id < w.answers.length := (List.getElem?_eq_some_iff.mp found).1
  exact List.getElem?_append_left (accounted.known ▸ small)

end Matched

def Watched.toDo (w : Watched) : Nat :=
  4 * w.waiting.length + (if w.cache.pendingRefill then 0 else 2) + if w.cache.fsmEvent then 1 else 0

theorem toDoBound (w : Watched) : w.toDo ≤ 4 * w.waiting.length + 3 := by
  unfold Watched.toDo
  split <;> split <;> omega

section Steps

theorem checkStateEvent (free : s.pendingRefill = false) (queue : s.refillPendingReqs ≠ []) :
    s.checkState.fsmEvent = true := by
  unfold State.checkState
  simp [free, queue]

theorem reqAccounted (accounted : Accounted w) (accepted : w.cache.asks c r → answer ≠ .denied) :
    let handled := w.handle c w.answers.length r answer left
    Accounted { handled.1 with requests := handled.1.requests ++ [r], answers := handled.1.answers ++ [handled.2] } := by
  obtain ⟨queued, same⟩ := handleQueued w c w.answers.length r answer left
  have quiet := (handleGranted w.answers.length left accepted).trans accounted.quiet
  have grown := matchedGrow accounted r
  dsimp only
  generalize w.handle c w.answers.length r answer left = handled at *
  obtain ⟨next, status⟩ := handled
  obtain ⟨requests, answers, resps, event⟩ := same
  have new : (w.requests ++ [r])[w.answers.length]? = some r := by simp [← accounted.known]
  have known : (w.requests ++ [r]).length = (w.answers ++ [status]).length := by simp [accounted.known]
  dsimp only at queued requests answers resps event
  rw [← requests] at grown new known
  rw [← answers] at known
  cases queued with
  | served done waiting queue busy =>
      refine ⟨quiet, ?_, ?_, ?_, known, ?_⟩
      · change next.cache.refillPendingReqs.map some = next.waiting.map (fun id => (next.requests ++ [r])[id]?)
        rw [waiting, queue, grown]
      · dsimp only
        rw [busy, waiting]
        exact accounted.busy
      · dsimp only
        rw [busy, waiting, event]
        exact accounted.event
      · dsimp only
        rw [answers, waiting, resps]
        refine Ledger.balancedSettled accounted.balanced ?_
        rcases done with rfl | rfl <;> decide
  | behind before waiting queue busy =>
      refine ⟨quiet, ?_, ?_, ?_, known, ?_⟩
      · change next.cache.refillPendingReqs.map some = next.waiting.map (fun id => (next.requests ++ [r])[id]?)
        rw [waiting, queue, List.map_append, List.map_append, grown, List.map_singleton, List.map_singleton, new]
      · dsimp only
        rw [waiting]
        simp
      · intro free
        exact absurd (busy.symm.trans free) (by simp)
      · dsimp only
        rw [answers, waiting, resps]
        refine Ledger.balancedPerm ?_ (Ledger.balancedOwed _ accounted.balanced rfl)
        rw [List.append_assoc]
        exact List.perm_middle.symm
  | ahead before waiting queue busy =>
      refine ⟨quiet, ?_, ?_, ?_, known, ?_⟩
      · change next.cache.refillPendingReqs.map some = next.waiting.map (fun id => (next.requests ++ [r])[id]?)
        rw [waiting, queue, List.map_cons, List.map_cons, grown, new]
      · dsimp only
        rw [waiting]
        simp
      · intro free
        exact absurd (busy.symm.trans free) (by simp)
      · dsimp only
        rw [answers, waiting, resps]
        exact Ledger.balancedOwed _ accounted.balanced rfl

theorem checkStateAccounted {s : State} (quiet : w.granted = false) (matched : Matched { w with cache := s })
    (busy : s.pendingRefill = true → w.waiting ≠ []) (known : w.requests.length = w.answers.length)
    (balanced : Balanced (· = .pending) w.answers (w.waiting ++ w.resps)) :
    Accounted { w with cache := s.checkState } := by
  refine ⟨quiet, ?_, ?_, ?_, known, balanced⟩
  · unfold Matched at matched ⊢
    simpa using matched
  · simpa using busy
  · intro free waiting
    refine checkStateEvent (by simpa using free) (fun empty => waiting ?_)
    exact (matchedNil matched).mp empty

theorem responseAccounted (accounted : Accounted w) (taken : watchedStep c w .refillResponse = some next) :
    Accounted next ∧ next.toDo < w.toDo := by
  simp only [watchedStep, Watched.owed, accounted.quiet, Bool.or_false] at taken
  split at taken
  · rename_i pending
    obtain ⟨cache, response, rfl⟩ := Option.map_eq_some_iff.mp taken
    unfold State.refillResponse at response
    cases queue : w.cache.refillPendingReqs with
    | nil => simp [queue] at response
    | cons r rest =>
        obtain ⟨id, ids, waiting, found, others⟩ := matchedCons accounted.matched queue
        obtain ⟨before, checked, free, left⟩ : ∃ before, cache = State.checkState before ∧ before.pendingRefill = false ∧
            before.refillPendingReqs = rest := by
          simp only [queue] at response
          cases buffer : r.data with
          | none =>
              simp only [buffer, Option.some.injEq] at response
              exact ⟨_, response.symm, rfl, rfl⟩
          | some bytes =>
              simp only [buffer, Option.some.injEq] at response
              refine ⟨_, response.symm, ?_, ?_⟩
              · rw [(transferKeeps false).2.2.2.2.1]
                rfl
              · rw [(transferKeeps false).2.2.2.1]
                rfl
        subst checked
        refine ⟨checkStateAccounted (w := { w.filled w.cache.refillReq.line w.cache.refillTag w.outdated with
          granted := false, waiting := w.waiting.tail, resps := w.resps ++ w.waiting.head?.toList }) rfl ?_ ?_ accounted.known ?_, ?_⟩
        · unfold Matched
          dsimp only
          rw [left, waiting]
          exact others
        · intro pending
          exact absurd (free.symm.trans pending) (by simp)
        · dsimp only
          rw [waiting]
          exact Ledger.balancedPaid (waiting ▸ accounted.balanced)
        · refine lt_of_le_of_lt (toDoBound _) ?_
          simp only [Watched.toDo, waiting, pending, List.tail_cons, List.length_cons, if_true]
          omega
  · contradiction

theorem replayAccounted (left : Nat → Option Byte) (accounted : Accounted w)
    (accepted : ∀ r ∈ w.cache.refillPendingReqs.head?, w.cache.asks c r → answer = .ok ∨ answer = .pending) :
    Accounted (w.replay c answer left) ∧ (w.cache.fsmEvent = true → (w.replay c answer left).toDo < w.toDo) := by
  unfold Watched.replay
  dsimp only
  split
  · rename_i r rest id ids free queue waiting
    have accepted : w.cache.asks c r → answer = .ok ∨ answer = .pending := accepted r (by rw [queue]; rfl)
    obtain ⟨_, _, waiting', found, others⟩ := matchedCons accounted.matched queue
    rw [waiting] at waiting'
    cases waiting'
    generalize shape : ({ w with
      cache := { w.cache with fsmEvent := false, refillPendingReqs := rest }
      waiting := ids } : Watched) = popped
    have quiet : (popped.handle c id r answer left).1.granted = false := by
      rw [handleGranted, ← shape]
      · exact accounted.quiet
      · intro asks
        rw [← shape] at asks
        rcases accepted asks with rfl | rfl <;> simp
    have works : (popped.handle c id r answer left).2 ≠ .invalid := by
      refine handleServed ?_ ?_
      · rw [← shape]
        exact free
      · intro asks
        rw [← shape] at asks
        exact accepted asks
    obtain ⟨queued, requests, answers, resps, -⟩ :=
      handleQueued popped c id r answer left
    generalize popped.handle c id r answer left = handled at *
    obtain ⟨next, status⟩ := handled
    dsimp only at *
    have known : next.requests.length = next.answers.length := by
      rw [requests, answers, ← shape]
      exact accounted.known
    have balanced := accounted.balanced
    rw [waiting] at balanced
    cases queued with
    | served done after queue' busy =>
        rcases done with rfl | rfl
        · refine ⟨checkStateAccounted (w := { next with resps := next.resps ++ [id] }) quiet ?_ ?_ known ?_, fun event => ?_⟩
          · unfold Matched
            dsimp only
            rw [queue', after, requests, ← shape]
            exact others
          · intro pending
            rw [busy, ← shape] at pending
            exact absurd (free.symm.trans pending) (by simp)
          · dsimp only
            rw [answers, after, resps, ← shape]
            exact Ledger.balancedPaid balanced
          · refine lt_of_le_of_lt (toDoBound _) ?_
            rw [← shape] at after
            simp only [Watched.toDo, after, waiting, List.length_cons, free, event]
            omega
        · exact absurd rfl works
    | behind before after queue' busy =>
        rw [← shape] at before
        exact absurd (free.symm.trans before) (by simp)
    | ahead before after queue' busy =>
        refine ⟨checkStateAccounted (w := next) quiet ?_ ?_ known ?_, fun event => ?_⟩
        · unfold Matched
          dsimp only
          rw [queue', after, requests, ← shape]
          simp only [List.map_cons, found, others]
        · intro _
          rw [after]
          simp
        · rw [answers, after, resps, ← shape]
          exact balanced
        · rw [← shape] at after
          simp only [Watched.toDo, after, waiting, List.length_cons, checkStatePending, busy, free, event, if_true,
            Bool.false_eq_true, if_false]
          split <;> omega
  · rename_i idle
    refine ⟨checkStateAccounted accounted.quiet accounted.matched accounted.busy accounted.known accounted.balanced, ?_⟩
    intro event
    have stopped : State.checkState { w.cache with fsmEvent := false } = { w.cache with fsmEvent := false } := by
      unfold State.checkState
      refine if_neg ?_
      intro both
      cases queue : w.cache.refillPendingReqs with
      | nil => simp [queue] at both
      | cons r rest =>
          obtain ⟨id, ids, waiting, -, -⟩ := matchedCons accounted.matched queue
          exact idle r rest id ids (by simpa [queue] using both) queue waiting
    rw [stopped]
    simp only [Watched.toDo, event]
    simp

end Steps

theorem aloneAccounted (accounted : Accounted w) (granted : next.granted = w.granted)
    (queue : next.cache.refillPendingReqs = w.cache.refillPendingReqs)
    (busy : next.cache.pendingRefill = w.cache.pendingRefill) (waiting : next.waiting = w.waiting)
    (same : Unanswered w next) : Accounted next := by
  refine ⟨granted.trans accounted.quiet, ?_, ?_, ?_, ?_, ?_⟩
  · unfold Matched
    rw [queue, waiting, same.requests]
    exact accounted.matched
  · rw [busy, waiting]
    exact accounted.busy
  · rw [busy, waiting, same.event]
    exact accounted.event
  · rw [same.requests, same.answers]
    exact accounted.known
  · rw [same.answers, waiting, same.resps]
    exact accounted.balanced

theorem watchedStepAccounted {e : Event} (accounted : Accounted w) (allowed : Answerable c w e)
    (taken : watchedStep c w e = some next) : Accounted next := by
  cases e with
  | req r answer left =>
      simp only [watchedStep] at taken
      split at taken
      · rename_i enabled
        cases taken
        exact reqAccounted accounted (allowed enabled)
      · rename_i disabled
        cases taken
        unfold State.req
        rw [if_neg disabled]
        split <;> exact aloneAccounted accounted rfl rfl rfl rfl ⟨rfl, rfl, rfl, rfl⟩
  | moves i =>
      simp only [watchedStep] at taken
      split at taken
      · cases taken
        exact aloneAccounted accounted rfl rfl rfl rfl ⟨rfl, rfl, rfl, rfl⟩
      · contradiction
  | refillResponse => exact (responseAccounted accounted taken).1
  | fsm answer left =>
      simp only [watchedStep] at taken
      split at taken
      · cases taken
        exact (replayAccounted _ accounted allowed).1
      · contradiction
  | _ =>
      cases taken
      exact aloneAccounted accounted rfl rfl rfl rfl ⟨rfl, rfl, rfl, rfl⟩

theorem answeredOnce (accounted : Accounted w) : AnsweredOnce w :=
  ⟨accounted.matched, fun _ found => Ledger.balancedOnce accounted.balanced found rfl,
    fun _ _ found other => (Ledger.balancedNever accounted.balanced found other).2⟩

section Drain

theorem drainStep {e : Event} (accounted : Accounted w) (allowed : Answerable c w e ∧ Drains e)
    (taken : watchedStep c w e = some next) : Accounted next ∧ next.toDo < w.toDo := by
  cases e with
  | refillResponse => exact responseAccounted accounted taken
  | fsm answer left =>
      simp only [watchedStep] at taken
      split at taken
      · rename_i event
        cases taken
        obtain ⟨kept, shrinks⟩ := replayAccounted left accounted allowed.1
        exact ⟨kept, shrinks event⟩
      · contradiction
  | _ => exact allowed.2.elim

theorem drainNext (accounted : Accounted w) (waiting : w.waiting ≠ []) :
    ∃ e, Answerable c w e ∧ Drains e ∧ (watchedStep c w e).isSome = true := by
  cases busy : w.cache.pendingRefill with
  | true =>
      refine ⟨.refillResponse, trivial, trivial, ?_⟩
      cases queue : w.cache.refillPendingReqs with
      | nil => exact absurd ((matchedNil accounted.matched).mp queue) waiting
      | cons r rest =>
          simp only [watchedStep, Watched.owed, busy, Bool.true_or, if_true, Option.isSome_map]
          unfold State.refillResponse
          cases buffer : r.data <;> simp [queue, buffer]
  | false =>
      refine ⟨.fsm .ok (fun _ => none), fun _ _ _ => .inl rfl, trivial, ?_⟩
      simp [watchedStep, accounted.event busy waiting]

theorem drainRun {trace : List (Event × Watched)} {last : Watched} (accounted : Accounted w)
    (run : Run (watchedStep c) (fun w e => Answerable c w e ∧ Drains e) w trace last) :
    Accounted last ∧ trace.length + last.toDo ≤ w.toDo := by
  induction run with
  | nil => exact ⟨accounted, by simp⟩
  | snoc before allowed taken ih =>
      obtain ⟨middle, shrinks⟩ := ih
      obtain ⟨after, less⟩ := drainStep middle allowed taken
      refine ⟨after, ?_⟩
      rw [List.length_append, List.length_singleton]
      omega

end Drain

end Invariant

section Runs

variable {c} {w mid : Watched} {trace : List (Event × Watched)}

theorem unusedAccounted (unused : Unused w) : Accounted w := by
  refine ⟨unused.granted, ?_, ?_, ?_, ?_, ?_, ?_⟩
  · simp [Matched, unused.queue, unused.waiting]
  · simp [unused.free]
  · simp [unused.waiting]
  · simp [unused.requests, unused.answers]
  · simp [unused.waiting, unused.resps]
  · simp [unused.waiting, unused.resps, unused.answers]

theorem answersOnce (unused : Unused w) (run : Run (watchedStep c) (Answerable c) w trace mid) :
    AnsweredOnce mid ∧ ∀ drain last, Run (watchedStep c) (fun w e => Answerable c w e ∧ Drains e) mid drain last →
      AnsweredOnce last ∧ drain.length ≤ 4 * mid.waiting.length + 3 ∧
      ((∀ e, Answerable c last e → Drains e → watchedStep c last e = none) →
        ∀ id : Nat, last.answers[id]? = some .pending → last.resps.count id = 1) := by
  have accounted : Accounted mid := Machine.runInvariant run (unusedAccounted unused)
    (fun _ _ _ accounted allowed taken => watchedStepAccounted accounted allowed taken)
  refine ⟨answeredOnce accounted, fun drain last drained => ?_⟩
  obtain ⟨after, steps⟩ := drainRun accounted drained
  refine ⟨answeredOnce after, ?_, ?_⟩
  · have bound := toDoBound mid
    omega
  · intro stopped id found
    have nobody : last.waiting = [] := by
      by_contra waiting
      obtain ⟨e, allowed, drains, enabled⟩ := drainNext (c := c) after waiting
      rw [stopped e allowed drains] at enabled
      contradiction
    rcases (answeredOnce after).pending id found with ⟨one, -⟩ | ⟨-, one⟩
    · simp [nobody] at one
    · exact one

/- Two requests wait behind a refill; the first replay goes to the port again, the second one hits. -/
def patiently : List Event :=
  [.req (read 8 4) .pending nothing, .req (read 0 4) .ok nothing, .req (read 2 2) .ok nothing, .req (read 4 4) .ok nothing,
    .refillResponse, .fsm .pending nothing]

theorem answersOncePatiently :
    let mid := Machine.reach (watchedStep small) (Answerable small) unused patiently
    mid.answers = [.pending, .pending, .pending, .pending] ∧ mid.resps = [0] ∧ mid.waiting = [1, 2, 3] ∧ AnsweredOnce mid := by
  obtain ⟨trace, run, _⟩ := Machine.reachRun (watchedStep small) (Answerable small) unused patiently (by decide +kernel)
  exact ⟨by decide +kernel, by decide +kernel, by decide +kernel, (answersOnce unusedUnused run).1⟩

/- The refill of the replayed request fails. -/
def dropped : List Event :=
  [.req (read 8 4) .pending nothing, .req (read 0 4) .ok nothing, .refillResponse, .fsm .invalid nothing]

theorem requestDropped :
    ∃ trace last, Run (watchedStep small) Machine.anyStep unused trace last ∧ trace.map Prod.fst = dropped ∧
      last.answers = [.pending, .pending] ∧ last.resps = [0] ∧ last.cache.refillPendingReqs = [] ∧
      last.cache.pendingRefill = false ∧ last.cache.fsmEvent = false ∧ ¬ AnsweredOnce last := by
  obtain ⟨trace, run, labels⟩ := Machine.reachRun (watchedStep small) Machine.anyStep unused dropped (by decide +kernel)
  refine ⟨trace, _, run, labels, by decide +kernel, by decide +kernel, by decide +kernel, by decide +kernel,
    by decide +kernel, ?_⟩
  intro once
  have paid := once.pending 1 (by decide +kernel)
  revert paid
  decide +kernel

end Runs

end Gvsoc.Cache
