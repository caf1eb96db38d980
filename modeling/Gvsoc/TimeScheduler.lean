import Gvsoc.TimeSchedule

/-! `time_scheduler`: timed events of one client of the time engine. Events are posted from anywhere,
also from the callbacks that its own `exec` is running; the engine refuses to enqueue the client then,
and is told the time of the next event by what `exec` returns. -/
namespace Gvsoc.TimeScheduler
open TimeEngine (Good Control)
open Machine (Run runInvariant reach reachRun)

/- The engine with the chain of events of each scheduler. `calls` are the posts so far, each with the
time it is for, `callOf` the last post of an event, and `fired` the callbacks, each with its post and
the engine time. -/
structure State (ι ε : Type) where
  base : TimeEngine.State ι
  firstEvent : ι → List ε
  eventTime : ε → Int
  calls : List (Int × ε)
  callOf : ε → Nat
  fired : List (Nat × Int)

inductive Action (ι ε : Type) where
  | post (i : ι) (ev : ε) (t : Int)
  | engine (a : TimeEngine.Action ι)
  | fire

section Behaviour

variable {ι ε : Type} [DecidableEq ι] [DecidableEq ε]

def initial (eventTime : ε → Int) (callOf : ε → Nat) : State ι ε :=
  { base := TimeEngine.initial ι, firstEvent := fun _ => [], eventTime := eventTime, calls := [], callOf := callOf, fired := [] }

def State.enqueue (s : State ι ε) (i : ι) (ev : ε) (t : Int) : State ι ε :=
  let fullTime := t + s.base.engine.time
  { base := { s.base with engine := s.base.engine.enqueue i t }
    firstEvent := Function.update s.firstEvent i (Chain.insert s.eventTime fullTime ev (s.firstEvent i))
    eventTime := Function.update s.eventTime ev fullTime
    calls := s.calls ++ [(fullTime, ev)], callOf := Function.update s.callOf ev s.calls.length, fired := s.fired }

def State.loopDone (s : State ι ε) (i : ι) : Bool :=
  match s.firstEvent i with
  | [] => true
  | ev :: _ => s.eventTime ev != s.base.engine.time

def State.execReturns (s : State ι ε) (i : ι) : Int :=
  match s.firstEvent i with
  | [] => -1
  | ev :: _ => s.eventTime ev - s.base.engine.time

/- The next callback of the `exec` under way. What it posts are steps of their own. -/
def State.fire (s : State ι ε) : Option (State ι ε) :=
  match s.base.control with
  | .waiting => none
  | .executing i => match s.firstEvent i with
      | [] => none
      | ev :: rest =>
          if s.eventTime ev = s.base.engine.time then
            some { s with firstEvent := Function.update s.firstEvent i rest, fired := s.fired ++ [(s.callOf ev, s.base.engine.time)] }
          else none

/- A scheduler is never dequeued, and its `exec` returns what the chain says; other clients do as they like. -/
def allowedEngine (scheduler : ι → Bool) (s : State ι ε) : TimeEngine.Action ι → Bool
  | .dequeue i => !scheduler i
  | .finish ret => match s.base.control with
      | .waiting => true
      | .executing i => !scheduler i || (s.loopDone i && ret == s.execReturns i)
  | _ => true

def step (scheduler : ι → Bool) (s : State ι ε) : Action ι ε → Option (State ι ε)
  | .post i ev t => if scheduler i = true ∧ 0 ≤ t then some (s.enqueue i ev t) else none
  | .engine a =>
      if allowedEngine scheduler s a then (TimeEngine.step s.base a).map (fun base => { s with base := base }) else none
  | .fire => s.fire

end Behaviour

/- A client that is woken in time: it has control at no later time, or is on the chain for no later one. -/
structure Woken {ι : Type} (b : TimeEngine.State ι) (i : ι) (times : List Int) : Prop where
  now : b.control = .executing i → ∀ t ∈ times, b.engine.time ≤ t
  later : b.control ≠ .executing i → ∀ t ∈ times, (b.engine.client i).isEnqueued = true ∧ b.engine.nextTime i ≤ t

section Wake

variable {ι : Type} [DecidableEq ι] {b b' : TimeEngine.State ι} {i : ι} {times : List Int}

omit [DecidableEq ι] in
theorem notRunning (good : Good b.engine b.control) (other : b.control ≠ .executing i) : (b.engine.client i).running = false := by
  cases running : (b.engine.client i).running with
  | false => rfl
  | true => exact absurd ((good.owned i).mp running) other

omit [DecidableEq ι] in
theorem wokenNotBefore (good : Good b.engine b.control) (woken : Woken b i times) : ∀ t ∈ times, b.engine.time ≤ t := by
  intro t inside
  by_cases mine : b.control = .executing i
  · exact woken.now mine t inside
  · obtain ⟨flag, early⟩ := woken.later mine t inside
    exact le_trans (good.scheduled.future i ((good.linked.flag i).mpr flag)) early

omit [DecidableEq ι] in
theorem wokenMoved {control : Control ι} {engine : TimeEngine.Engine ι} (woken : Woken b i times) (other : b.control ≠ .executing i)
    (moved : (control = .executing i ∧ (b.engine.client i).isEnqueued = true ∧ engine.time = b.engine.nextTime i) ∨
      (control ≠ .executing i ∧ engine.client i = b.engine.client i)) : Woken ⟨engine, control⟩ i times := by
  rcases moved with ⟨mine, -, time⟩ | ⟨away, same⟩
  · refine ⟨fun _ t inside => ?_, fun not => absurd mine not⟩
    rw [show (TimeEngine.State.mk engine control).engine.time = b.engine.nextTime i from time]
    exact (woken.later other t inside).2
  · refine ⟨fun now => absurd now away, fun _ t inside => ?_⟩
    have before := woken.later other t inside
    unfold TimeEngine.Engine.nextTime at before ⊢
    simpa only [same] using before

theorem wokenStep {a : TimeEngine.Action ι} (good : Good b.engine b.control) (woken : Woken b i times)
    (kept : a ≠ .dequeue i)
    (told : ∀ ret, a = .finish ret → b.control = .executing i → ∀ t ∈ times, 0 < ret ∧ ret + b.engine.time ≤ t)
    (taken : TimeEngine.step b a = some b') : Woken b' i times := by
  cases a with
  | enqueue j t =>
      simp only [TimeEngine.step] at taken
      split at taken
      · cases taken
        refine ⟨fun mine u inside => ?_, fun not u inside => ?_⟩
        · rw [TimeEngine.enqueueTime]
          exact woken.now mine u inside
        · obtain ⟨flag, early⟩ := woken.later not u inside
          by_cases same : i = j
          · subst j
            obtain ⟨flag', next⟩ := TimeEngine.enqueueSelf (t := t) (notRunning good not)
            refine ⟨flag', ?_⟩
            rw [next]
            split_ifs with cond
            · exact early
            · simp only [flag, true_and, not_le] at cond
              omega
          · unfold TimeEngine.Engine.nextTime at early ⊢
            rw [TimeEngine.enqueueClientOther same]
            exact ⟨flag, early⟩
      · contradiction
  | dequeue j =>
      cases taken
      have other : i ≠ j := fun same => kept (by rw [same])
      refine ⟨fun mine u inside => ?_, fun not u inside => ?_⟩
      · rw [TimeEngine.dequeueTime]
        exact woken.now mine u inside
      · have before := woken.later not u inside
        unfold TimeEngine.Engine.nextTime at before ⊢
        rwa [TimeEngine.dequeueOther other]
  | request run =>
      cases taken
      exact ⟨woken.now, woken.later⟩
  | start =>
      simp only [TimeEngine.step] at taken
      split at taken
      · rename_i idle
        split at taken
        · cases taken
          exact wokenMoved woken (by simp [idle]) (TimeEngine.takeFirstClient good.linked i)
        · contradiction
      · contradiction
  | finish ret =>
      simp only [TimeEngine.step] at taken
      split at taken
      · contradiction
      · rename_i j now
        cases taken
        have placed := now ▸ good.toPlaced
        by_cases same : i = j
        · subst j
          have asked := told ret rfl now
          obtain ⟨-, mine, time⟩ | ⟨away, flag, next⟩ := TimeEngine.endExecSelf placed ret
          · refine ⟨fun _ t inside => ?_, fun not => absurd mine not⟩
            rw [time]
            exact (asked t inside).2
          · refine ⟨fun mine => absurd mine away, fun _ t inside => ?_⟩
            obtain ⟨positive, early⟩ := asked t inside
            rw [flag, next positive]
            exact ⟨decide_eq_true positive, early⟩
        · exact wokenMoved woken (by simpa [now] using Ne.symm same) (TimeEngine.endExecOther placed same ret)

theorem wokenPost {t : Int} {grown : List Int} (good : Good b.engine b.control) (woken : Woken b i times) (positive : 0 ≤ t)
    (members : ∀ u ∈ grown, u ∈ times ∨ u = t + b.engine.time) :
    Woken { b with engine := b.engine.enqueue i t } i grown := by
  have taken : TimeEngine.step b (.enqueue i t) = some { b with engine := b.engine.enqueue i t } := by
    simp [TimeEngine.step, positive]
  have before := wokenStep good woken (by simp) (by simp) taken
  refine ⟨fun mine u inside => ?_, fun not u inside => ?_⟩
  · rcases members u inside with old | new
    · exact before.now mine u old
    · rw [TimeEngine.enqueueTime]
      omega
  · rcases members u inside with old | new
    · exact before.later not u old
    · obtain ⟨flag, next⟩ := TimeEngine.enqueueSelf (t := t) (notRunning good not)
      refine ⟨flag, ?_⟩
      rw [next]
      split_ifs with cond
      · have := cond.2
        omega
      · omega

end Wake

section Delivery

variable {ι ε : Type} [DecidableEq ι] [DecidableEq ε] {scheduler : ι → Bool} {s s' : State ι ε}

structure Chains (s : State ι ε) : Prop where
  good : Good s.base.engine s.base.control
  sorted : ∀ i, Chain.Sorted s.eventTime (s.firstEvent i)
  once : ∀ i, (s.firstEvent i).Nodup
  apart : ∀ i j, ∀ ev ∈ s.firstEvent i, ev ∈ s.firstEvent j → i = j
  woken : ∀ i, Woken s.base i ((s.firstEvent i).map s.eventTime)

structure Posts (s : State ι ε) : Prop where
  exact : ∀ p ∈ s.fired, ∃ ev, s.calls[p.1]? = some (p.2, ev)
  once : (s.fired.map Prod.fst).Nodup
  ordered : (s.fired.map Prod.snd).Pairwise (· ≤ ·)
  past : ∀ p ∈ s.fired, p.2 ≤ s.base.engine.time
  pending : ∀ i, ∀ ev ∈ s.firstEvent i, s.calls[s.callOf ev]? = some (s.eventTime ev, ev) ∧ s.callOf ev ∉ s.fired.map Prod.fst
  covered : ∀ id, id < s.calls.length → id ∈ s.fired.map Prod.fst ∨ ∃ i, ∃ ev ∈ s.firstEvent i, s.callOf ev = id

def NotPending (s : State ι ε) : Action ι ε → Prop
  | .post _ ev _ => ∀ i, ev ∉ s.firstEvent i
  | _ => True

instance [Fintype ι] (s : State ι ε) (a : Action ι ε) : Decidable (NotPending s a) := by
  cases a <;> unfold NotPending <;> infer_instance

theorem postListed {t : Int} (j i : ι) (x ev : ε) :
    x ∈ (s.enqueue i ev t).firstEvent j ↔ x ∈ s.firstEvent j ∨ j = i ∧ x = ev := by
  by_cases here : j = i
  · subst j
    simp [State.enqueue, or_comm]
  · simp [State.enqueue, here]

theorem postChains {i : ι} {ev : ε} {t : Int} (chains : Chains s) (fresh : ∀ j, ev ∉ s.firstEvent j) (positive : 0 ≤ t) :
    Chains (s.enqueue i ev t) := by
  have taken : TimeEngine.step s.base (.enqueue i t) = some { s.base with engine := s.base.engine.enqueue i t } := by
    simp [TimeEngine.step, positive]
  have same : ∀ j, ∀ x ∈ s.firstEvent j, Function.update s.eventTime ev (t + s.base.engine.time) x = s.eventTime x :=
    fun j x inside => Function.update_of_ne (ne_of_mem_of_not_mem inside (fresh j)) _ _
  have listed := fun j x => postListed (s := s) (t := t) j i x ev
  constructor
  · exact (TimeEngine.stepGood chains.good taken).1
  · intro j
    have old := Chain.sortedCongr (same j) (chains.sorted j)
    by_cases here : j = i
    · subst j
      simp only [State.enqueue, Function.update_self]
      rw [← Chain.insertCongr (same i)]
      exact Chain.insertSortedAt (Function.update_self ..) old
    · simpa only [State.enqueue, Function.update_of_ne here] using old
  · intro j
    by_cases here : j = i
    · subst j
      simp only [State.enqueue, Function.update_self]
      exact (Chain.insertPerm ..).nodup_iff.mpr (List.nodup_cons.mpr ⟨fresh i, chains.once i⟩)
    · simpa only [State.enqueue, Function.update_of_ne here] using chains.once j
  · intro j k x inside there
    rcases (listed j x).mp inside with old | ⟨rfl, rfl⟩
    · rcases (listed k x).mp there with old' | ⟨rfl, rfl⟩
      · exact chains.apart j k x old old'
      · exact absurd old (fresh j)
    · rcases (listed k x).mp there with old' | ⟨rfl, -⟩
      · exact absurd old' (fresh k)
      · rfl
  · intro j
    by_cases here : j = i
    · subst j
      refine wokenPost chains.good (chains.woken i) positive (fun u inside => ?_)
      obtain ⟨x, member, rfl⟩ := List.mem_map.mp inside
      rcases (listed i x).mp member with old | ⟨-, rfl⟩
      · refine .inl (List.mem_map.mpr ⟨x, old, ?_⟩)
        exact (same i x old).symm
      · exact .inr (Function.update_self ..)
    · have woken := wokenStep chains.good (chains.woken j) (by simp) (by simp) taken
      have times : ((s.enqueue i ev t).firstEvent j).map (s.enqueue i ev t).eventTime = (s.firstEvent j).map s.eventTime := by
        simp only [State.enqueue, Function.update_of_ne here]
        exact List.map_congr_left (same j)
      rw [times]
      exact woken

omit [DecidableEq ε] in
theorem fireCases (taken : s.fire = some s') :
    ∃ i ev rest, s.base.control = .executing i ∧ s.firstEvent i = ev :: rest ∧ s.eventTime ev = s.base.engine.time ∧
      s' = { s with firstEvent := Function.update s.firstEvent i rest, fired := s.fired ++ [(s.callOf ev, s.base.engine.time)] } := by
  unfold State.fire at taken
  split at taken
  · contradiction
  · rename_i i now
    split at taken
    · contradiction
    · rename_i ev rest front
      split at taken
      · rename_i due
        cases taken
        exact ⟨i, ev, rest, now, front, due, rfl⟩
      · contradiction

omit [DecidableEq ε] in
theorem fireChains (chains : Chains s) (taken : s.fire = some s') : Chains s' := by
  obtain ⟨i, ev, rest, now, front, -, rfl⟩ := fireCases taken
  have part : ∀ j, (Function.update s.firstEvent i rest j).Sublist (s.firstEvent j) := by
    intro j
    by_cases here : j = i
    · subst j
      simp [front]
    · simp [here]
  refine ⟨chains.good, fun j => ?_, fun j => ?_, fun j k x inside there => ?_, fun j => ?_⟩
  · exact (chains.sorted j).sublist (part j)
  · exact (part j).nodup (chains.once j)
  · exact chains.apart j k x ((part j).subset inside) ((part k).subset there)
  · have fewer := ((part j).map s.eventTime).subset
    exact ⟨fun mine t inside => (chains.woken j).now mine t (fewer inside),
      fun not t inside => (chains.woken j).later not t (fewer inside)⟩

omit [DecidableEq ι] [DecidableEq ε] in
theorem execTold {i : ι} (chains : Chains s) (now : s.base.control = .executing i) (done : s.loopDone i = true) :
    ∀ t ∈ (s.firstEvent i).map s.eventTime, 0 < s.execReturns i ∧ s.execReturns i + s.base.engine.time ≤ t := by
  intro t inside
  have sorted := chains.sorted i
  have notBefore := (chains.woken i).now now
  unfold State.loopDone at done
  unfold State.execReturns
  cases front : s.firstEvent i with
  | nil => simp [front] at inside
  | cons ev rest =>
      rw [front] at sorted inside notBefore
      simp only [front, bne_iff_ne, ne_eq] at done
      obtain ⟨x, member, rfl⟩ := List.mem_map.mp inside
      have first := notBefore (s.eventTime ev) (by simp)
      have least := Chain.sortedHead sorted x member
      simp only
      omega

omit [DecidableEq ε] in
theorem engineChains {a : TimeEngine.Action ι} {base : TimeEngine.State ι} (chains : Chains s)
    (idle : ∀ i, scheduler i = false → s.firstEvent i = []) (allowed : allowedEngine scheduler s a = true)
    (taken : TimeEngine.step s.base a = some base) : Chains { s with base := base } := by
  refine ⟨(TimeEngine.stepGood chains.good taken).1, chains.sorted, chains.once, chains.apart, fun i => ?_⟩
  cases kind : scheduler i with
  | false => exact ⟨by simp [idle i kind], by simp [idle i kind]⟩
  | true =>
      refine wokenStep chains.good (chains.woken i) ?_ ?_ taken
      · rintro rfl
        simp [allowedEngine, kind] at allowed
      · rintro ret rfl now
        simp only [allowedEngine, now, kind, Bool.not_true, Bool.false_or, Bool.and_eq_true, beq_iff_eq] at allowed
        obtain ⟨done, rfl⟩ := allowed
        exact execTold chains now done

theorem postPosts {i : ι} {ev : ε} {t : Int} (posts : Posts s) (fresh : ∀ j, ev ∉ s.firstEvent j) :
    Posts (s.enqueue i ev t) := by
  obtain ⟨exact_, once, ordered, past, pending, covered⟩ := posts
  have kept : ∀ (id : Nat) call, s.calls[id]? = some call → (s.enqueue i ev t).calls[id]? = some call := by
    intro id call found
    exact (List.getElem?_append_left (List.getElem?_eq_some_iff.mp found).1).trans found
  have bound : ∀ id ∈ s.fired.map Prod.fst, id < s.calls.length := by
    intro id inside
    obtain ⟨p, member, rfl⟩ := List.mem_map.mp inside
    obtain ⟨x, found⟩ := exact_ p member
    exact (List.getElem?_eq_some_iff.mp found).1
  refine ⟨fun p member => ?_, once, ordered, ?_, fun j x inside => ?_, fun id less => ?_⟩
  · obtain ⟨x, found⟩ := exact_ p member
    exact ⟨x, kept _ _ found⟩
  · simpa [State.enqueue] using past
  · rcases (postListed j i x ev).mp inside with old | ⟨-, rfl⟩
    · have other := ne_of_mem_of_not_mem old (fresh j)
      obtain ⟨found, open_⟩ := pending j x old
      simp only [State.enqueue, Function.update_of_ne other]
      exact ⟨kept _ _ found, open_⟩
    · simp only [State.enqueue, Function.update_self]
      refine ⟨by simp, fun inside => ?_⟩
      have := bound _ inside
      omega
  · simp only [State.enqueue, List.length_append, List.length_singleton] at less
    rcases Nat.lt_or_ge id s.calls.length with old | new
    · rcases covered id old with done | ⟨j, x, inside, rfl⟩
      · exact .inl done
      · refine .inr ⟨j, x, (postListed j i x ev).mpr (.inl inside), ?_⟩
        exact Function.update_of_ne (ne_of_mem_of_not_mem inside (fresh j)) _ _
    · refine .inr ⟨i, ev, (postListed i i ev ev).mpr (.inr ⟨rfl, rfl⟩), ?_⟩
      simp only [State.enqueue, Function.update_self]
      omega

omit [DecidableEq ε] in
theorem firePosts (chains : Chains s) (posts : Posts s) (taken : s.fire = some s') : Posts s' := by
  obtain ⟨i, ev, rest, now, front, due, rfl⟩ := fireCases taken
  obtain ⟨exact_, once, ordered, past, pending, covered⟩ := posts
  obtain ⟨found, open_⟩ := pending i ev (by simp [front])
  have alone := chains.once i
  rw [front, List.nodup_cons] at alone
  -- An event that stays on a chain is another one, so it has another post.
  have stays : ∀ j, ∀ x ∈ Function.update s.firstEvent i rest j, x ∈ s.firstEvent j ∧ x ≠ ev := by
    intro j x inside
    by_cases here : j = i
    · subst j
      rw [Function.update_self] at inside
      exact ⟨by simp [front, inside], ne_of_mem_of_not_mem inside alone.1⟩
    · rw [Function.update_of_ne here] at inside
      refine ⟨inside, ?_⟩
      rintro rfl
      exact here (chains.apart j i x inside (by simp [front]))
  refine ⟨fun p member => ?_, ?_, ?_, fun p member => ?_, fun j x inside => ?_, fun id less => ?_⟩
  · rcases List.mem_append.mp member with old | new
    · exact exact_ p old
    · rw [List.mem_singleton.mp new]
      exact ⟨ev, by rw [found, due]⟩
  · rw [List.map_append, List.nodup_append]
    refine ⟨once, by simp, fun id inside other new => ?_⟩
    rw [List.mem_map] at new
    obtain ⟨p, member, rfl⟩ := new
    rw [List.mem_singleton.mp member]
    exact ne_of_mem_of_not_mem inside open_
  · rw [List.map_append, List.pairwise_append]
    refine ⟨ordered, by simp, fun time inside other new => ?_⟩
    obtain ⟨p, member, rfl⟩ := List.mem_map.mp inside
    obtain ⟨q, member', rfl⟩ := List.mem_map.mp new
    rw [List.mem_singleton.mp member']
    exact past p member
  · rcases List.mem_append.mp member with old | new
    · exact past p old
    · rw [List.mem_singleton.mp new]
  · obtain ⟨old, other⟩ := stays j x inside
    obtain ⟨found', open'⟩ := pending j x old
    refine ⟨found', fun done => ?_⟩
    rw [List.map_append, List.mem_append] at done
    rcases done with before | same
    · exact open' before
    · rw [List.map_singleton, List.mem_singleton] at same
      simp only at same
      rw [same, found] at found'
      simp only [Option.some.injEq, Prod.mk.injEq] at found'
      exact other found'.2.symm
  · rcases covered id less with done | ⟨j, x, inside, rfl⟩
    · exact .inl (by simp only [List.map_append, List.mem_append]; exact .inl done)
    · by_cases same : x = ev
      · subst x
        exact .inl (by simp)
      · refine .inr ⟨j, x, ?_, rfl⟩
        by_cases here : j = i
        · subst j
          rw [front, List.mem_cons] at inside
          simpa using inside.resolve_left same
        · simpa [here] using inside

structure Invariant (scheduler : ι → Bool) (s : State ι ε) : Prop where
  chains : Chains s
  posts : Posts s
  idle : ∀ i, scheduler i = false → s.firstEvent i = []

theorem stepInvariant {a : Action ι ε} (invariant : Invariant scheduler s) (fresh : NotPending s a)
    (taken : step scheduler s a = some s') : Invariant scheduler s' := by
  obtain ⟨chains, posts, idle⟩ := invariant
  cases a with
  | post i ev t =>
      simp only [step] at taken
      split at taken
      · rename_i allowed
        obtain ⟨kind, positive⟩ := allowed
        cases taken
        refine ⟨postChains chains fresh positive, postPosts posts fresh, fun j other => ?_⟩
        have here : j ≠ i := by
          rintro rfl
          rw [kind] at other
          contradiction
        simpa [State.enqueue, here] using idle j other
      · contradiction
  | engine a =>
      simp only [step] at taken
      split at taken
      · rename_i allowed
        obtain ⟨base, moved, rfl⟩ := Option.map_eq_some_iff.mp taken
        have later := (TimeEngine.stepGood chains.good moved).2
        refine ⟨engineChains chains idle allowed moved, ?_, idle⟩
        exact ⟨posts.exact, posts.once, posts.ordered, fun p member => le_trans (posts.past p member) later, posts.pending,
          posts.covered⟩
      · contradiction
  | fire =>
      refine ⟨fireChains chains taken, firePosts chains posts taken, fun j other => ?_⟩
      obtain ⟨i, ev, rest, -, front, -, rfl⟩ := fireCases taken
      have here : j ≠ i := by
        rintro rfl
        rw [idle j other] at front
        contradiction
      simpa [here] using idle j other

omit [DecidableEq ι] [DecidableEq ε] in
theorem initialInvariant (scheduler : ι → Bool) (eventTime : ε → Int) (callOf : ε → Nat) :
    Invariant scheduler (initial eventTime callOf : State ι ε) where
  chains := ⟨TimeEngine.initialGood, fun _ => List.Pairwise.nil, fun _ => List.nodup_nil, by simp [initial],
    fun _ => ⟨by simp [initial], by simp [initial]⟩⟩
  posts := ⟨by simp [initial], by simp [initial], by simp [initial], by simp [initial], by simp [initial], by simp [initial]⟩
  idle := fun _ _ => rfl

/- Every callback is at the time of its post, once for a post, in time order; no event is left behind, and a post
whose time has passed has had its callback. A scheduler with events has control or is on the chain of the engine,
for no later than its first event. -/
theorem eventsDelivered (scheduler : ι → Bool) (eventTime : ε → Int) (callOf : ε → Nat) {trace} {s : State ι ε}
    (run : Run (step scheduler) NotPending (initial eventTime callOf) trace s) :
    (∀ id time, (id, time) ∈ s.fired → ∃ ev, s.calls[id]? = some (time, ev)) ∧
    (s.fired.map Prod.fst).Nodup ∧
    (s.fired.map Prod.snd).Pairwise (· ≤ ·) ∧
    (∀ i, ∀ ev ∈ s.firstEvent i, s.base.engine.time ≤ s.eventTime ev) ∧
    (∀ id due ev, s.calls[id]? = some (due, ev) → due < s.base.engine.time → (id, due) ∈ s.fired) ∧
    (∀ i, ∀ ev ∈ s.firstEvent i, s.base.control = .executing i ∨
      i ∈ s.base.engine.firstClient ∧ s.base.engine.nextTime i ≤ s.eventTime ev) := by
  obtain ⟨chains, posts, -⟩ := runInvariant run (initialInvariant scheduler eventTime callOf)
    (fun _ _ _ => stepInvariant)
  have notBefore : ∀ i, ∀ ev ∈ s.firstEvent i, s.base.engine.time ≤ s.eventTime ev := fun i ev inside =>
    wokenNotBefore chains.good (chains.woken i) _ (List.mem_map_of_mem inside)
  refine ⟨fun id time => posts.exact (id, time), posts.once, posts.ordered, notBefore, ?_, ?_⟩
  · intro id due ev found passed
    rcases posts.covered id (List.getElem?_eq_some_iff.mp found).1 with done | ⟨i, x, inside, rfl⟩
    · obtain ⟨p, member, rfl⟩ := List.mem_map.mp done
      obtain ⟨x, same⟩ := posts.exact p member
      rw [same] at found
      simp only [Option.some.injEq, Prod.mk.injEq] at found
      rw [← found.1]
      exact member
    · rw [(posts.pending i x inside).1] at found
      simp only [Option.some.injEq, Prod.mk.injEq] at found
      have := notBefore i x inside
      omega
  · intro i ev inside
    by_cases mine : s.base.control = .executing i
    · exact .inl mine
    · obtain ⟨flag, early⟩ := (chains.woken i).later mine _ (List.mem_map_of_mem inside)
      exact .inr ⟨(chains.good.linked.flag i).mpr flag, early⟩

def threeEvents : List (Action (Fin 2) Nat) :=
  [.post 0 0 5, .engine (.request true), .engine .start, .fire, .post 0 1 0, .post 0 2 4, .fire, .post 1 3 2, .engine (.finish 4),
    .fire, .engine (.finish (-1)), .fire, .engine (.finish (-1))]

theorem eventsDeliveredThree :
    (reach (step (fun _ => true)) NotPending (initial (fun _ => 0) (fun _ => 0)) threeEvents).fired = [(0, 5), (1, 5), (3, 7), (2, 9)] ∧
      ((reach (step (fun _ => true)) NotPending (initial (fun _ => 0) (fun _ => 0)) threeEvents).fired.map Prod.fst).Nodup := by
  obtain ⟨trace, run, -⟩ := reachRun (step (fun _ => true)) NotPending (initial (fun _ => 0) (fun _ => 0)) threeEvents
    (by decide +kernel)
  exact ⟨by decide +kernel, (eventsDelivered _ _ _ run).2.1⟩

end Delivery

end Gvsoc.TimeScheduler
