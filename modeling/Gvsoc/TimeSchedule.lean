import Gvsoc.TimeEngine

/-! Every edit of the client chain keeps the chain, the flags and the schedule together:
`enqueue`, `dequeue`, the pop, the two exits of the shortcut and the reinsertion behind
`next`. One lemma for each edit; the run results only combine them. -/
namespace Gvsoc.TimeEngine
open Machine (Run anyStep)

variable {ι : Type} {e : Engine ι} {i j : ι} {t : Int}

theorem notFlagged (linked : Linked e) (absent : i ∉ e.firstClient) :
    (e.client i).isEnqueued = false := by
  cases h : (e.client i).isEnqueued with
  | false => rfl
  | true => exact absurd ((linked.flag i).mpr h) absent

theorem notListed (linked : Linked e) (flag : (e.client i).isEnqueued = false) :
    i ∉ e.firstClient := by
  intro listed
  rw [(linked.flag i).mp listed] at flag
  contradiction

variable [DecidableEq ι]

theorem setClient (c : Client) (j : ι) : (e.set i c).client j = if j = i then c else e.client j :=
  Function.update_apply _ _ _ _

@[simp] theorem setFirst (c : Client) : (e.set i c).firstClient = e.firstClient := rfl

theorem setNextTime (c : Client) (j : ι) :
    (e.set i c).nextTime j = if j = i then c.nextEventTime else e.nextTime j := by
  unfold Engine.nextTime
  rw [setClient]
  split <;> rfl

theorem setLinked (linked : Linked e) (absent : i ∉ e.firstClient) {c : Client}
    (flag : c.isEnqueued = false) : Linked (e.set i c) where
  nodup := linked.nodup
  flag := by
    intro j
    rw [setClient, setFirst]
    by_cases same : j = i
    · subst j; simp [absent, flag]
    · simpa [same] using linked.flag j
  running := by
    intro j
    rw [setClient, setFirst]
    by_cases same : j = i
    · subst j; exact fun _ => absent
    · simpa [same] using linked.running j

theorem setScheduled (sched : Scheduled e) (absent : i ∉ e.firstClient) (c : Client) :
    Scheduled (e.set i c) where
  sorted := by
    have keys : ∀ j ∈ e.firstClient, (e.set i c).nextTime j = e.nextTime j := by
      intro j listed
      rw [setNextTime, if_neg (ne_of_mem_of_not_mem listed absent)]
    exact Chain.sortedCongr keys sched.sorted
  future := by
    intro j listed
    rw [setNextTime, if_neg (ne_of_mem_of_not_mem listed absent)]
    exact sched.future j listed

theorem placedLinked {xs : List ι} {c : Client} (linked : Linked e) (absent : i ∉ e.firstClient)
    (place : xs.Perm (i :: e.firstClient)) (flag : c.isEnqueued = true) (idle : c.running = false) :
    Linked {e.set i c with firstClient := xs} where
  nodup := place.nodup_iff.mpr (List.nodup_cons.mpr ⟨absent, linked.nodup⟩)
  flag := by
    intro j
    change j ∈ xs ↔ ((e.set i c).client j).isEnqueued = true
    rw [place.mem_iff, List.mem_cons, setClient]
    by_cases same : j = i
    · simp [same, flag]
    · simpa [same] using linked.flag j
  running := by
    intro j
    change ((e.set i c).client j).running = true → j ∉ xs
    rw [place.mem_iff, List.mem_cons, setClient]
    by_cases same : j = i
    · simp [same, idle]
    · simpa [same] using linked.running j

theorem placedFuture {xs : List ι} {c : Client} (sched : Scheduled e)
    (place : xs.Perm (i :: e.firstClient)) (later : e.time ≤ c.nextEventTime) :
    ∀ j ∈ xs, e.time ≤ (e.set i c).nextTime j := by
  intro j listed
  rw [setNextTime]
  split
  · exact later
  · rename_i other
    rcases List.mem_cons.mp (place.mem_iff.mp listed) with same | inside
    · exact absurd same other
    · exact sched.future j inside

theorem linkLinked (linked : Linked e) (absent : i ∉ e.firstClient)
    (idle : (e.client i).running = false) : Linked (e.link i t) :=
  placedLinked linked absent (Chain.insertPerm _ _ _ _) rfl idle

theorem insertScheduled {c : Client} (sched : Scheduled e) (absent : i ∉ e.firstClient) (due : c.nextEventTime = t) (later : e.time ≤ t) :
    Scheduled { e.set i c with firstClient := Chain.insert e.nextTime t i e.firstClient } where
  sorted := by
    have same : ∀ j ∈ e.firstClient, (e.set i c).nextTime j = e.nextTime j := by
      intro j listed
      exact (setNextTime _ _).trans (if_neg (ne_of_mem_of_not_mem listed absent))
    change Chain.Sorted (e.set i c).nextTime (Chain.insert e.nextTime t i e.firstClient)
    rw [← Chain.insertCongr same]
    refine Chain.insertSortedAt ?_ (Chain.sortedCongr same sched.sorted)
    exact ((setNextTime _ _).trans (if_pos rfl)).trans due
  future := placedFuture sched (Chain.insertPerm _ _ _ _) (due ▸ later)

theorem linkScheduled (sched : Scheduled e) (absent : i ∉ e.firstClient) (later : e.time ≤ t) :
    Scheduled (e.link i t) := insertScheduled sched absent rfl later

theorem dequeueLinked (linked : Linked e) : Linked (e.dequeue i) := by
  unfold Engine.dequeue
  split
  · refine ⟨linked.nodup.erase i, ?_, ?_⟩
    · intro j
      change j ∈ e.firstClient.erase i ↔ ((e.set i _).client j).isEnqueued = true
      rw [linked.nodup.mem_erase_iff, setClient]
      by_cases same : j = i
      · simp [same]
      · simpa [same] using linked.flag j
    · intro j running listed
      have inside := List.mem_of_mem_erase listed
      have other : j ≠ i := (linked.nodup.mem_erase_iff.mp listed).1
      refine linked.running j ?_ inside
      change ((e.set i _).client j).running = true at running
      rwa [setClient, if_neg other] at running
  · exact linked

theorem dequeueAbsent (linked : Linked e) : i ∉ (e.dequeue i).firstClient := by
  unfold Engine.dequeue
  split
  · exact linked.nodup.not_mem_erase
  · rename_i flag
    exact fun listed => flag ((linked.flag i).mp listed)

@[simp] theorem dequeueTime : (e.dequeue i).time = e.time := by
  unfold Engine.dequeue
  split <;> rfl

@[simp] theorem dequeueRunReq : (e.dequeue i).runReq = e.runReq := by
  unfold Engine.dequeue
  split <;> rfl

theorem dequeueClient (j : ι) : ((e.dequeue i).client j).running = (e.client j).running ∧
    (e.dequeue i).nextTime j = e.nextTime j := by
  unfold Engine.dequeue
  split
  · change ((e.set i _).client j).running = _ ∧ (e.set i _).nextTime j = _
    rw [setClient, setNextTime]
    by_cases same : j = i
    · simp [same, Engine.nextTime]
    · simp [same]
  · exact ⟨rfl, rfl⟩

theorem dequeueScheduled (sched : Scheduled e) : Scheduled (e.dequeue i) := by
  have keys : ∀ j, (e.dequeue i).nextTime j = e.nextTime j := fun j => (dequeueClient j).2
  have sub : (e.dequeue i).firstClient.Sublist e.firstClient := by
    unfold Engine.dequeue
    split
    · exact List.erase_sublist
    · exact List.Sublist.refl _
  refine ⟨?_, ?_⟩
  · exact Chain.sortedCongr (fun j _ => keys j) (List.Pairwise.sublist sub sched.sorted)
  · intro j listed
    rw [keys, dequeueTime]
    exact sched.future j (sub.subset listed)

theorem enqueueCases (e : Engine ι) (i : ι) (t : Int) :
    (e.enqueue i t = e ∧ ((e.client i).running = true ∨
      (e.client i).isEnqueued = true ∧ e.nextTime i ≤ e.time + t)) ∨
    (e.enqueue i t = (e.dequeue i).link i (e.time + t) ∧ (e.client i).running = false ∧
      ((e.client i).isEnqueued = true → e.time + t < e.nextTime i)) := by
  unfold Engine.enqueue
  dsimp only
  split
  · rename_i running
    exact .inl ⟨rfl, .inl running⟩
  · rename_i idle
    have idle : (e.client i).running = false := by simpa using idle
    split
    · rename_i flag
      split
      · rename_i earlier
        exact .inl ⟨rfl, .inr ⟨flag, earlier⟩⟩
      · rename_i later
        exact .inr ⟨rfl, idle, fun _ => by unfold Engine.nextTime; omega⟩
    · rename_i flag
      refine .inr ⟨?_, idle, fun h => absurd h flag⟩
      unfold Engine.dequeue
      rw [if_neg flag]

theorem enqueueLinked (linked : Linked e) : Linked (e.enqueue i t) := by
  obtain ⟨same, _⟩ | ⟨moved, idle, _⟩ := enqueueCases e i t
  · rwa [same]
  · rw [moved]
    exact linkLinked (dequeueLinked linked) (dequeueAbsent linked) ((dequeueClient i).1.trans idle)

theorem enqueueScheduled (linked : Linked e) (sched : Scheduled e) (positive : 0 ≤ t) :
    Scheduled (e.enqueue i t) := by
  obtain ⟨same, _⟩ | ⟨moved, _, _⟩ := enqueueCases e i t
  · rwa [same]
  · rw [moved]
    exact linkScheduled (dequeueScheduled sched) (dequeueAbsent linked) (by rw [dequeueTime]; omega)

@[simp] theorem enqueueTime : (e.enqueue i t).time = e.time := by
  obtain ⟨same, _⟩ | ⟨moved, _, _⟩ := enqueueCases e i t
  · rw [same]
  · rw [moved]
    exact dequeueTime

@[simp] theorem enqueueRunReq : (e.enqueue i t).runReq = e.runReq := by
  obtain ⟨same, _⟩ | ⟨moved, _, _⟩ := enqueueCases e i t
  · rw [same]
  · rw [moved]
    exact dequeueRunReq

theorem linkRunning (j : ι) : ((e.link i t).client j).running = (e.client j).running := by
  change ((e.set i _).client j).running = _
  rw [setClient]
  split
  · rename_i same; rw [same]
  · rfl

theorem enqueueRunning (j : ι) : ((e.enqueue i t).client j).running = (e.client j).running := by
  obtain ⟨same, _⟩ | ⟨moved, _, _⟩ := enqueueCases e i t
  · rw [same]
  · rw [moved]
    exact (linkRunning j).trans (dequeueClient j).1

section Pop

variable {rest : List ι}

theorem popLinked (linked : Linked e) (front : e.firstClient = i :: rest) : Linked (e.pop i rest) := by
  have nodup := front ▸ linked.nodup
  obtain ⟨absent, nodup⟩ := List.nodup_cons.mp nodup
  refine ⟨nodup, ?_, ?_⟩
  · intro j
    change j ∈ rest ↔ ((e.set i _).client j).isEnqueued = true
    rw [setClient]
    by_cases same : j = i
    · simp [same, absent]
    · have flag := linked.flag j
      rw [front] at flag
      simpa [same] using flag
  · intro j running listed
    have other : j ≠ i := fun same => absent (same ▸ listed)
    change ((e.set i _).client j).running = true at running
    rw [setClient, if_neg other] at running
    exact linked.running j running (front ▸ List.mem_cons_of_mem i listed)

theorem popScheduled (linked : Linked e) (sched : Scheduled e) (front : e.firstClient = i :: rest) :
    Scheduled (e.pop i rest) := by
  obtain ⟨absent, _⟩ := List.nodup_cons.mp (front ▸ linked.nodup)
  have keys : ∀ j ∈ rest, (e.pop i rest).nextTime j = e.nextTime j := by
    intro j listed
    exact (setNextTime _ _).trans (if_neg (ne_of_mem_of_not_mem listed absent))
  have sorted : Chain.Sorted e.nextTime (i :: rest) := front ▸ sched.sorted
  refine ⟨Chain.sortedCongr keys (List.pairwise_cons.mp sorted).2, ?_⟩
  intro j listed
  rw [keys j listed]
  exact Chain.sortedHead sorted j (List.mem_cons_of_mem i listed)

theorem popTime (sched : Scheduled e) (front : e.firstClient = i :: rest) :
    e.time ≤ (e.pop i rest).time := sched.future i (front ▸ List.mem_cons_self)

theorem popRunning (j : ι) : ((e.pop i rest).client j).running = true ↔
    j = i ∨ (e.client j).running = true := by
  change ((e.set i _).client j).running = true ↔ _
  rw [setClient]
  by_cases same : j = i
  · simp [same]
  · simp [same]

end Pop

/- Both ways of giving a client back amount to one insertion with its flag cleared: the
front is where the walk would stop, and starting behind `next` skips one comparison that
is known. -/
def Engine.putBack (e : Engine ι) (current : ι) (t : Int) : Engine ι :=
  {e.set current ⟨t, false, true⟩ with firstClient := Chain.insert e.nextTime t current e.firstClient}

theorem pushFrontPutBack (first : e.nextNotBefore t = true) : e.pushFront i t = e.putBack i t := by
  unfold Engine.pushFront Engine.putBack
  unfold Engine.nextNotBefore at first
  cases h : e.firstClient with
  | nil => rfl
  | cons next rest =>
      simp only [h, decide_eq_true_eq] at first
      simp only [Chain.insert, if_neg (show ¬e.nextTime next < t by omega)]

theorem leavePutBack {ret : Int} (positive : 0 < ret) (later : e.nextNotBefore (ret + e.time) = false) :
    e.leave i ret = e.putBack i (ret + e.time) := by
  unfold Engine.leave Engine.reinsert Engine.putBack
  unfold Engine.nextNotBefore at later
  cases h : e.firstClient with
  | nil => simp [h] at later
  | cons next rest =>
      simp only [h, decide_eq_false_iff_not] at later
      simp only [if_pos positive, Engine.set, Function.update_self, Function.update_idem, Chain.insert,
        if_pos (show e.nextTime next < ret + e.time by omega)]

theorem leaveDropped {ret : Int} (dropped : ¬0 < ret) :
    e.leave i ret = e.set i {e.client i with running := false} := by
  unfold Engine.leave
  rw [if_neg dropped]

theorem putBackLinked (linked : Linked e) (absent : i ∉ e.firstClient) : Linked (e.putBack i t) :=
  placedLinked linked absent (Chain.insertPerm _ _ _ _) rfl rfl

theorem putBackScheduled (sched : Scheduled e) (absent : i ∉ e.firstClient) (later : e.time ≤ t) :
    Scheduled (e.putBack i t) := insertScheduled sched absent rfl later

def Engine.release (e : Engine ι) (i : ι) (ret : Int) : Engine ι :=
  if 0 < ret then e.putBack i (ret + e.time) else e.set i {e.client i with running := false}

theorem leaveRelease {ret : Int} (noShortcut : ¬(0 < ret ∧ e.nextNotBefore (ret + e.time) = true)) :
    e.leave i ret = e.release i ret := by
  unfold Engine.release
  by_cases positive : 0 < ret
  · rw [if_pos positive, leavePutBack positive (by simpa [positive] using noShortcut)]
  · rw [if_neg positive, leaveDropped positive]

@[simp] theorem releaseTime {ret : Int} : (e.release i ret).time = e.time := by
  unfold Engine.release
  split <;> rfl

@[simp] theorem releaseRunReq {ret : Int} : (e.release i ret).runReq = e.runReq := by
  unfold Engine.release
  split <;> rfl

theorem releaseLinked {ret : Int} (linked : Linked e) (absent : i ∉ e.firstClient) :
    Linked (e.release i ret) := by
  unfold Engine.release
  split
  · exact putBackLinked linked absent
  · exact setLinked linked absent (notFlagged linked absent)

theorem releaseScheduled {ret : Int} (sched : Scheduled e) (absent : i ∉ e.firstClient) :
    Scheduled (e.release i ret) := by
  unfold Engine.release
  split
  · exact putBackScheduled sched absent (by omega)
  · exact setScheduled sched absent _

theorem releaseRunning {ret : Int} (j : ι) :
    ((e.release i ret).client j).running = true ↔ j ≠ i ∧ (e.client j).running = true := by
  have cleared : ∀ c : Client, c.running = false →
      (((e.set i c).client j).running = true ↔ j ≠ i ∧ (e.client j).running = true) := by
    intro c idle
    rw [setClient]
    by_cases same : j = i
    · simp [same, idle]
    · simp [same]
  unfold Engine.release
  split
  · exact cleared _ rfl
  · exact cleared _ rfl

theorem endExecCases (e : Engine ι) (i : ι) (ret : Int) :
    (0 < ret ∧ e.nextNotBefore (ret + e.time) = true ∧ e.runReq = true ∧
      e.endExec i ret = ({e with time := ret + e.time}, .executing i)) ∨
    (e.runReq = false ∧ e.endExec i ret = (e.release i ret, .waiting)) ∨
    (e.runReq = true ∧ ¬(0 < ret ∧ e.nextNotBefore (ret + e.time) = true) ∧
      e.endExec i ret = (e.release i ret).takeFirst) := by
  unfold Engine.endExec
  dsimp only
  by_cases shortcut : 0 < ret ∧ e.nextNotBefore (ret + e.time) = true
  · rw [if_pos shortcut]
    cases req : e.runReq with
    | true => exact .inl ⟨shortcut.1, shortcut.2, rfl, rfl⟩
    | false =>
        refine .inr (.inl ⟨rfl, ?_⟩)
        rw [pushFrontPutBack shortcut.2, Engine.release, if_pos shortcut.1]
        rfl
  · rw [if_neg shortcut, leaveRelease shortcut, releaseRunReq]
    cases req : e.runReq with
    | true => exact .inr (.inr ⟨rfl, shortcut, rfl⟩)
    | false => exact .inr (.inl ⟨rfl, rfl⟩)

theorem takeFirstCases (e : Engine ι) :
    (e.firstClient = [] ∧ e.takeFirst = (e, .waiting)) ∨
    ∃ i rest, e.firstClient = i :: rest ∧ e.takeFirst = (e.pop i rest, .executing i) := by
  unfold Engine.takeFirst
  cases h : e.firstClient with
  | nil => exact .inl ⟨rfl, rfl⟩
  | cons i rest => exact .inr ⟨i, rest, rfl, rfl⟩

omit [DecidableEq ι] in
theorem notBeforeAll (sched : Scheduled e) (first : e.nextNotBefore t = true) :
    ∀ j ∈ e.firstClient, t ≤ e.nextTime j := by
  unfold Engine.nextNotBefore at first
  cases h : e.firstClient with
  | nil => simp
  | cons next rest =>
      simp only [h, decide_eq_true_eq] at first
      intro j listed
      exact le_trans first (Chain.sortedHead (h ▸ sched.sorted) j listed)

structure Placed (e : Engine ι) (c : Control ι) : Prop where
  linked : Linked e
  owned : Owned e c

structure Good (e : Engine ι) (c : Control ι) : Prop extends Placed e c where
  scheduled : Scheduled e

omit [DecidableEq ι] in
theorem executingAbsent (placed : Placed e (.executing i)) : i ∉ e.firstClient :=
  placed.linked.running i ((placed.owned i).mpr rfl)

theorem releaseIdle {ret : Int} (placed : Placed e (.executing i)) (j : ι) :
    ((e.release i ret).client j).running ≠ true := by
  intro running
  obtain ⟨other, inside⟩ := (releaseRunning j).mp running
  have owner := (placed.owned j).mp inside
  injection owner with same
  exact other same.symm

theorem takeFirstPlaced (linked : Linked e) (idle : ∀ j, (e.client j).running ≠ true) :
    Placed e.takeFirst.1 e.takeFirst.2 := by
  obtain ⟨_, same⟩ | ⟨i, rest, front, popped⟩ := takeFirstCases e
  · rw [same]
    exact ⟨linked, fun j => by simp [idle j]⟩
  · rw [popped]
    refine ⟨popLinked linked front, ?_⟩
    intro j
    rw [popRunning]
    simp [idle j, eq_comm]

theorem takeFirstScheduled (linked : Linked e) (sched : Scheduled e) :
    Scheduled e.takeFirst.1 ∧ e.time ≤ e.takeFirst.1.time := by
  obtain ⟨_, same⟩ | ⟨i, rest, front, popped⟩ := takeFirstCases e
  · rw [same]
    exact ⟨sched, le_refl _⟩
  · rw [popped]
    exact ⟨popScheduled linked sched front, popTime sched front⟩

theorem endExecPlaced (placed : Placed e (.executing i)) (ret : Int) :
    Placed (e.endExec i ret).1 (e.endExec i ret).2 := by
  have linked : Linked (e.release i ret) := releaseLinked placed.linked (executingAbsent placed)
  obtain ⟨_, _, _, same⟩ | ⟨_, stopped⟩ | ⟨_, _, next⟩ := endExecCases e i ret
  · rw [same]
    exact ⟨⟨placed.linked.nodup, placed.linked.flag, placed.linked.running⟩, placed.owned⟩
  · rw [stopped]
    exact ⟨linked, fun j => by simp [releaseIdle placed j]⟩
  · rw [next]
    exact takeFirstPlaced linked (releaseIdle placed)

theorem endExecGood (good : Good e (.executing i)) (ret : Int) :
    Good (e.endExec i ret).1 (e.endExec i ret).2 ∧ e.time ≤ (e.endExec i ret).1.time := by
  have absent := executingAbsent good.toPlaced
  have linked : Linked (e.release i ret) := releaseLinked good.linked absent
  have sched : Scheduled (e.release i ret) := releaseScheduled good.scheduled absent
  suffices both : Scheduled (e.endExec i ret).1 ∧ e.time ≤ (e.endExec i ret).1.time from
    ⟨⟨endExecPlaced good.toPlaced ret, both.1⟩, both.2⟩
  obtain ⟨positive, first, _, same⟩ | ⟨_, stopped⟩ | ⟨_, _, next⟩ := endExecCases e i ret
  · have later : ∀ j ∈ e.firstClient, ret + e.time ≤ e.nextTime j := notBeforeAll good.scheduled first
    rw [same]
    refine ⟨⟨good.scheduled.sorted, later⟩, ?_⟩
    change e.time ≤ ret + e.time
    omega
  · rw [stopped]
    exact ⟨sched, le_of_eq releaseTime.symm⟩
  · rw [next]
    have taken := takeFirstScheduled linked sched
    rwa [releaseTime] at taken

section Client

theorem takeFirstClient (linked : Linked e) (j : ι) :
    (e.takeFirst.2 = .executing j ∧ (e.client j).isEnqueued = true ∧ e.takeFirst.1.time = e.nextTime j) ∨
    (e.takeFirst.2 ≠ .executing j ∧ e.takeFirst.1.client j = e.client j) := by
  obtain ⟨_, same⟩ | ⟨i, rest, front, popped⟩ := takeFirstCases e
  · rw [same]
    exact .inr ⟨by simp, rfl⟩
  · rw [popped]
    by_cases this : i = j
    · subst j
      exact .inl ⟨rfl, (linked.flag i).mp (front ▸ List.mem_cons_self), rfl⟩
    · refine .inr ⟨by simpa using this, ?_⟩
      exact (setClient _ j).trans (if_neg (Ne.symm this))

theorem releaseClient {ret : Int} (other : j ≠ i) : (e.release i ret).client j = e.client j := by
  unfold Engine.release
  split
  · exact (setClient _ j).trans (if_neg other)
  · exact (setClient _ j).trans (if_neg other)

theorem releaseSelf {ret : Int} (absent : (e.client i).isEnqueued = false) :
    ((e.release i ret).client i).isEnqueued = decide (0 < ret) ∧
    (0 < ret → (e.release i ret).nextTime i = ret + e.time) := by
  unfold Engine.release
  split
  · rename_i positive
    refine ⟨?_, fun _ => (setNextTime _ i).trans (if_pos rfl)⟩
    rw [decide_eq_true positive]
    exact congrArg Client.isEnqueued ((setClient _ i).trans (if_pos rfl))
  · rename_i dropped
    refine ⟨?_, fun positive => absurd positive dropped⟩
    rw [decide_eq_false dropped, setClient, if_pos rfl]
    exact absent

theorem endExecOther (placed : Placed e (.executing i)) (other : j ≠ i) (ret : Int) :
    ((e.endExec i ret).2 = .executing j ∧ (e.client j).isEnqueued = true ∧
      (e.endExec i ret).1.time = e.nextTime j) ∨
    ((e.endExec i ret).2 ≠ .executing j ∧ (e.endExec i ret).1.client j = e.client j) := by
  have linked : Linked (e.release i ret) := releaseLinked placed.linked (executingAbsent placed)
  obtain ⟨_, _, _, same⟩ | ⟨_, stopped⟩ | ⟨_, _, next⟩ := endExecCases e i ret
  · rw [same]
    exact .inr ⟨by simpa using Ne.symm other, rfl⟩
  · rw [stopped]
    exact .inr ⟨by simp, releaseClient other⟩
  · rw [next]
    have taken := takeFirstClient linked j
    unfold Engine.nextTime at taken ⊢
    rwa [releaseClient other] at taken

theorem endExecSelf (placed : Placed e (.executing i)) (ret : Int) :
    (0 < ret ∧ (e.endExec i ret).2 = .executing i ∧ (e.endExec i ret).1.time = ret + e.time) ∨
    ((e.endExec i ret).2 ≠ .executing i ∧ ((e.endExec i ret).1.client i).isEnqueued = decide (0 < ret) ∧
      (0 < ret → (e.endExec i ret).1.nextTime i = ret + e.time)) := by
  have absent := executingAbsent placed
  have linked : Linked (e.release i ret) := releaseLinked placed.linked absent
  have self : ((e.release i ret).client i).isEnqueued = decide (0 < ret) ∧
    (0 < ret → (e.release i ret).nextTime i = ret + e.time) := releaseSelf (notFlagged placed.linked absent)
  obtain ⟨positive, _, _, same⟩ | ⟨_, stopped⟩ | ⟨_, _, next⟩ := endExecCases e i ret
  · rw [same]
    exact .inl ⟨positive, rfl, rfl⟩
  · rw [stopped]
    exact .inr ⟨by simp, self⟩
  · rw [next]
    obtain ⟨now, flag, time⟩ | ⟨away, kept⟩ := takeFirstClient linked i
    · have positive : 0 < ret := by
        rw [self.1] at flag
        simpa using flag
      exact .inl ⟨positive, now, time.trans (self.2 positive)⟩
    · refine .inr ⟨away, ?_⟩
      unfold Engine.nextTime at self ⊢
      rwa [kept]

theorem dequeueFlag : ((e.dequeue i).client i).isEnqueued = false := by
  unfold Engine.dequeue
  split
  · exact congrArg Client.isEnqueued ((setClient _ i).trans (if_pos rfl))
  · rename_i clear
    simpa using clear

theorem dequeueOther (other : j ≠ i) : (e.dequeue i).client j = e.client j := by
  unfold Engine.dequeue
  split
  · exact (setClient _ j).trans (if_neg other)
  · rfl

theorem enqueueSelf (idle : (e.client i).running = false) :
    ((e.enqueue i t).client i).isEnqueued = true ∧
    (e.enqueue i t).nextTime i =
      if (e.client i).isEnqueued = true ∧ e.nextTime i ≤ e.time + t then e.nextTime i else e.time + t := by
  obtain ⟨same, running | ⟨flag, early⟩⟩ | ⟨moved, _, later⟩ := enqueueCases e i t
  · simp [idle] at running
  · rw [same, if_pos ⟨flag, early⟩]
    exact ⟨flag, rfl⟩
  · rw [moved, if_neg]
    · exact ⟨congrArg Client.isEnqueued ((setClient _ i).trans (if_pos rfl)), (setNextTime _ i).trans (if_pos rfl)⟩
    · rintro ⟨flag, early⟩
      have := later flag
      omega

theorem enqueueClientOther (other : j ≠ i) : (e.enqueue i t).client j = e.client j := by
  obtain ⟨same, _⟩ | ⟨moved, _, _⟩ := enqueueCases e i t
  · rw [same]
  · rw [moved]
    exact ((setClient _ j).trans (if_neg other)).trans (dequeueOther other)

end Client

/- The assertion is tested on the path that gives control to another client. -/
theorem eventTimeNotBefore {ret : Int} (good : Good e (.executing i))
    (noShortcut : ¬(0 < ret ∧ e.nextNotBefore (ret + e.time) = true)) : e.eventTimeAssert i ret := by
  have sched : Scheduled (e.release i ret) := releaseScheduled good.scheduled (executingAbsent good.toPlaced)
  intro next front
  rw [leaveRelease noShortcut] at front ⊢
  exact sched.future next (List.mem_of_mem_head? front)

theorem stepGood {s next : State ι} {a : Action ι} (good : Good s.engine s.control)
    (taken : step s a = some next) :
    Good next.engine next.control ∧ s.engine.time ≤ next.engine.time := by
  cases a with
  | enqueue i t =>
      obtain ⟨positive, done⟩ := Option.ite_none_right_eq_some.mp taken
      cases done
      refine ⟨⟨⟨enqueueLinked good.linked, ?_⟩, enqueueScheduled good.linked good.scheduled positive⟩,
        le_of_eq enqueueTime.symm⟩
      intro j
      rw [← good.owned j, enqueueRunning]
  | dequeue i =>
      cases taken
      refine ⟨⟨⟨dequeueLinked good.linked, ?_⟩, dequeueScheduled good.scheduled⟩, le_of_eq dequeueTime.symm⟩
      intro j
      rw [← good.owned j, (dequeueClient j).1]
  | request run =>
      cases taken
      exact ⟨⟨⟨⟨good.linked.nodup, good.linked.flag, good.linked.running⟩, good.owned⟩,
        ⟨good.scheduled.sorted, good.scheduled.future⟩⟩, le_refl _⟩
  | start =>
      simp only [step] at taken
      split at taken
      · rename_i idle
        split at taken
        · cases taken
          obtain ⟨sched, later⟩ := takeFirstScheduled good.linked good.scheduled
          exact ⟨⟨takeFirstPlaced good.linked (fun j => by simp [good.owned j, idle]), sched⟩, later⟩
        · contradiction
      · contradiction
  | finish ret =>
      simp only [step] at taken
      split at taken
      · contradiction
      · rename_i i now
        cases taken
        exact endExecGood (now ▸ good) ret

omit [DecidableEq ι] in
theorem initialGood : Good (initial ι).engine (initial ι).control where
  linked := ⟨List.nodup_nil, by simp [initial], by simp [initial]⟩
  scheduled := ⟨List.Pairwise.nil, by simp [initial]⟩
  owned := by simp [Owned, initial]

theorem runGood {trace} {s : State ι} (run : Run step anyStep (initial ι) trace s) :
    Good s.engine s.control :=
  Machine.runInvariant (P := fun s => Good s.engine s.control) run initialGood
    (fun _ _ _ good _ taken => (stepGood good taken).1)

/- In every state of every run: the chain is in time order, holds no client twice, holds
exactly the flagged clients, never a running one, and nothing earlier than the engine
time. So time never goes back on a later step, and the assertion of the loop holds
whatever the running `exec` is about to return. -/
theorem clientListInvariant {trace} {s : State ι} (run : Run step anyStep (initial ι) trace s) :
    s.engine.firstClient.Pairwise (fun i j => (s.engine.client i).nextEventTime ≤ (s.engine.client j).nextEventTime) ∧
    s.engine.firstClient.Nodup ∧
    (∀ i, i ∈ s.engine.firstClient ↔ (s.engine.client i).isEnqueued = true) ∧
    (∀ i, (s.engine.client i).running = true → i ∉ s.engine.firstClient) ∧
    (∀ i ∈ s.engine.firstClient, s.engine.time ≤ (s.engine.client i).nextEventTime) ∧
    (∀ a next, step s a = some next → s.engine.time ≤ next.engine.time) ∧
    (∀ i ret, s.control = .executing i →
      ¬(0 < ret ∧ s.engine.nextNotBefore (ret + s.engine.time) = true) → s.engine.eventTimeAssert i ret) := by
  have good := runGood run
  refine ⟨good.scheduled.sorted, good.linked.nodup, good.linked.flag, good.linked.running,
    good.scheduled.future, fun a next taken => (stepGood good taken).2, ?_⟩
  intro i ret now noShortcut
  exact eventTimeNotBefore (now ▸ good) noShortcut

/- Two clients: 0 runs at 5, enqueues 1 for 7 from its `exec` and asks to come back at 9,
so 1 takes over and 0 is reinserted behind it. -/
def twoClients : List (Action (Fin 2)) :=
  [.enqueue 0 5, .request true, .start, .enqueue 1 2, .enqueue 0 1, .finish 4]

theorem clientListTwoClients : ∃ trace s, Run step anyStep (initial (Fin 2)) trace s ∧
    s.control = .executing 1 ∧ s.engine.firstClient = [0] ∧ s.engine.time = 7 ∧
    (∀ i, i ∈ s.engine.firstClient ↔ (s.engine.client i).isEnqueued = true) := by
  have done : (Machine.follow step anyStep (initial (Fin 2)) twoClients).isSome = true := rfl
  obtain ⟨trace, run, _⟩ := Machine.followRun (Option.some_get done).symm
  exact ⟨trace, _, run, rfl, rfl, rfl, (clientListInvariant run).2.2.1⟩

end Gvsoc.TimeEngine
