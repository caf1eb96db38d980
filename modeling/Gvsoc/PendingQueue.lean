import Gvsoc.PendingEvents
import Mathlib.Data.List.Pairwise

/-! The queue of the pending pulses, and the order of the records. -/
namespace Gvsoc.PendingEvents
open Bytes (Byte)
open DoubleLinks
open Machine (Run)
open Tracing (TracePtr Traces Payload oneValid twoValid threeValid)

structure Sound (s : Engine) (list : List TracePtr) : Prop where
  chained : Chained s.next s.prev none s.firstPendingEvent list
  once : list.Nodup
  sorted : list.Pairwise fun x y => s.pendingTimestamp x ≤ s.pendingTimestamp y
  member : ∀ x, x ∈ list ↔ s.pendingTimestamp x ≠ -1

section Check

variable {traces : Traces} {s : Engine} {list gone rest : List TracePtr} {x : TracePtr} {timestamp : Int}

@[simp] theorem expireNext (trace : TracePtr) : (s.expire traces trace).next = s.next := by
  unfold Engine.expire Engine.dumpEventToBuffer
  split_ifs <;> rfl

@[simp] theorem expirePrev (trace : TracePtr) : (s.expire traces trace).prev = s.prev := by
  unfold Engine.expire Engine.dumpEventToBuffer
  split_ifs <;> rfl

@[simp] theorem expireBuffer (trace : TracePtr) : (s.expire traces trace).buffer = s.buffer := by
  unfold Engine.expire Engine.dumpEventToBuffer
  split_ifs <;> rfl

theorem expireOther {trace : TracePtr} (other : x ≠ trace) : (s.expire traces trace).pendingTimestamp x = s.pendingTimestamp x := by
  unfold Engine.expire Engine.dumpEventToBuffer
  split_ifs <;> exact Function.update_of_ne other _ _

theorem pendingOther {trace : TracePtr} (other : x ≠ trace) :
    (s.expire traces trace).pendingRecord traces x = s.pendingRecord traces x := by
  unfold Engine.pendingRecord
  rw [expireOther other, expireBuffer]

theorem expired (traces : Traces) (s : Engine) (once : gone.Nodup) :
    gone.foldl (Engine.expire traces) s = { s with
      records := s.records ++ if s.globalEnable then gone.map (s.pendingRecord traces) else []
      pendingTimestamp := fun x => if x ∈ gone then -1 else s.pendingTimestamp x } := by
  induction gone generalizing s with
  | nil => simp
  | cons trace gone rec =>
      obtain ⟨absent, once⟩ := List.nodup_cons.mp once
      have later : gone.map ((s.expire traces trace).pendingRecord traces) = gone.map (s.pendingRecord traces) :=
        List.map_congr_left fun x inside => pendingOther fun same => absent (same ▸ inside)
      rw [List.foldl_cons, rec _ once, later]
      have times : (fun y => if y ∈ gone then -1 else Function.update s.pendingTimestamp trace (-1) y) =
          fun y => if y ∈ trace :: gone then -1 else s.pendingTimestamp y := by
        funext y
        by_cases own : y = trace
        · simp [own]
        · simp [own]
      unfold Engine.expire Engine.dumpEventToBuffer
      cases enable : s.globalEnable with
      | false => simp only [enable, Bool.false_eq_true, if_false, times]
      | true => simp only [if_true, times, List.map_cons, List.append_assoc, List.singleton_append]

theorem checkLoopEnds (traces : Traces) (timestamp : Int) {before first : Option TracePtr} (rounds : Nat) (chained : Chained s.next s.prev before first list)
    (once : list.Nodup) (enough : list.length < rounds) :
    ∃ gone rest, list = gone ++ rest ∧ (∀ x ∈ gone, timestamp = -1 ∨ s.pendingTimestamp x ≤ timestamp) ∧
      (∀ x ∈ rest.head?, timestamp ≠ -1 ∧ timestamp < s.pendingTimestamp x) ∧
      Engine.checkLoop traces timestamp rounds s first = some (gone.foldl (Engine.expire traces) s, rest.head?) := by
  induction list generalizing s before first rounds with
  | nil =>
      obtain ⟨n, rfl⟩ : ∃ n, rounds = n + 1 := ⟨rounds - 1, by simp at enough; omega⟩
      obtain ⟨last, segment⟩ := chained
      cases segment
      exact ⟨[], [], rfl, by simp, by simp, rfl⟩
  | cons x list rec =>
      obtain ⟨n, rfl⟩ : ∃ n, rounds = n + 1 := ⟨rounds - 1, by simp at enough; omega⟩
      obtain ⟨absent, once⟩ := List.nodup_cons.mp once
      obtain ⟨last, segment⟩ := chained
      cases segment with
      | cons own later =>
          rw [Engine.checkLoop]
          by_cases reached : timestamp = -1 ∨ s.pendingTimestamp x ≤ timestamp
          · have chained : Chained (s.expire traces x).next (s.expire traces x).prev (some x) (s.next x) list := by
              rw [expireNext, expirePrev]
              exact ⟨last, later⟩
            obtain ⟨gone, rest, rfl, past, ahead, looped⟩ := rec n chained once (by simpa using enough)
            have other : ∀ y ∈ gone ++ rest, (s.expire traces x).pendingTimestamp y = s.pendingTimestamp y :=
              fun y inside => expireOther fun same => absent (same ▸ inside)
            refine ⟨x :: gone, rest, rfl, fun y inside => ?_, fun y head => ?_, ?_⟩
            · rcases List.mem_cons.mp inside with rfl | inside
              · exact reached
              · exact other y (List.mem_append_left rest inside) ▸ past y inside
            · exact other y (List.mem_append_right gone (List.mem_of_head? head)) ▸ ahead y head
            · rw [if_pos reached]
              exact looped
          · refine ⟨[], x :: list, rfl, by simp, fun y head => ?_, if_neg reached⟩
            cases head
            rw [not_or, not_le] at reached
            exact reached

def Engine.checked (traces : Traces) (s : Engine) (gone rest : List TracePtr) : Engine :=
  { s with records := s.records ++ if s.globalEnable then gone.map (s.pendingRecord traces) else []
           pendingTimestamp := fun x => if x ∈ gone then -1 else s.pendingTimestamp x
           firstPendingEvent := rest.head?
           prev := backward s.prev rest.head? none }

theorem checkEnds (traces : Traces) (timestamp : Int) (sound : Sound s list) (enough : list.length ≤ s.pulses) :
    ∃ gone rest, list = gone ++ rest ∧ (∀ x ∈ gone, timestamp = -1 ∨ s.pendingTimestamp x ≤ timestamp) ∧
      (∀ x ∈ rest.head?, timestamp ≠ -1 ∧ timestamp < s.pendingTimestamp x) ∧
      s.checkPendingEvents traces timestamp = some (s.checked traces gone rest) := by
  obtain ⟨gone, rest, shape, reached, next, looped⟩ := checkLoopEnds traces timestamp (s.pulses + 1) sound.chained
    sound.once (by omega)
  refine ⟨gone, rest, shape, reached, next, ?_⟩
  unfold Engine.checkPendingEvents
  rw [looped, expired traces s (List.Nodup.of_append_left (shape ▸ sound.once))]
  rfl

theorem checkedSound (traces : Traces) (sound : Sound s (gone ++ rest)) : Sound (s.checked traces gone rest) rest := by
  obtain ⟨-, once, disjoint⟩ := List.nodup_append.mp sound.once
  have kept : ∀ x ∈ rest, (s.checked traces gone rest).pendingTimestamp x = s.pendingTimestamp x :=
    fun x inside => if_neg fun other => disjoint x other x inside rfl
  obtain ⟨last, segment⟩ := sound.chained
  obtain ⟨middle, start, -, back⟩ := segmentSplit segment
  have first := segmentFirst back
  rw [Option.or_none] at first
  refine ⟨?_, once, ?_, fun x => ?_⟩
  · exact chainedBend none ⟨last, first ▸ back⟩ once
  · refine (List.pairwise_append.mp sound.sorted).2.1.imp_of_mem fun {x y} here there ordered => ?_
    rw [kept x here, kept y there]
    exact ordered
  · by_cases old : x ∈ gone
    · refine iff_of_false (fun inside => disjoint x old x inside rfl) ?_
      simp [Engine.checked, old]
    · have member := sound.member x
      simpa [Engine.checked, old] using member

end Check

section Enqueue

variable {s : Engine} {list : List TracePtr} {trace x : TracePtr} {timestamp : Int} {event : List Byte}

structure Apart (s : Engine) (trace : TracePtr) (list : List TracePtr) : Prop where
  chained : Chained s.next s.prev none s.firstPendingEvent list
  once : list.Nodup
  sorted : list.Pairwise fun x y => s.pendingTimestamp x ≤ s.pendingTimestamp y
  absent : trace ∉ list
  member : ∀ x, x ≠ trace → (x ∈ list ↔ s.pendingTimestamp x ≠ -1)

theorem dequeueApart (sound : Sound s list) (trace : TracePtr) :
    ∃ list', Apart (if s.pendingTimestamp trace ≠ -1 then s.dequeue trace else s) trace list' ∧ list'.Sublist list := by
  by_cases waits : s.pendingTimestamp trace ≠ -1
  · obtain ⟨left, right, rfl⟩ := List.append_of_mem ((sound.member trace).mpr waits)
    have less : (left ++ right).Sublist (left ++ trace :: right) := List.Sublist.append_left (List.sublist_cons_self trace right) left
    have absent : trace ∉ left ++ right := by
      have once := List.nodup_middle.mp sound.once
      exact (List.nodup_cons.mp once).1
    rw [if_pos waits]
    refine ⟨left ++ right, ⟨chainedTake sound.chained sound.once, sound.once.sublist less, sound.sorted.sublist less, absent,
      fun x other => ?_⟩, less⟩
    have member := sound.member x
    simp only [List.mem_append, List.mem_cons, other, false_or] at member ⊢
    exact member
  · rw [if_neg waits]
    exact ⟨list, ⟨sound.chained, sound.once, sound.sorted, fun inside => waits ((sound.member trace).mp inside),
      fun x _ => sound.member x⟩, List.Sublist.refl list⟩

theorem enqueueLoopEnds (timestamp : Int) {before first : Option TracePtr} (rounds : Nat) (chained : Chained s.next s.prev before first list)
    (enough : list.length < rounds) :
    ∃ left right middle, list = left ++ right ∧ (∀ x ∈ left, s.pendingTimestamp x < timestamp) ∧
      (∀ x ∈ right.head?, timestamp ≤ s.pendingTimestamp x) ∧
      s.enqueueLoop timestamp rounds before first = some (middle, right.head?) ∧
      Segment s.next s.prev before first left middle right.head? ∧ Chained s.next s.prev middle right.head? right := by
  induction list generalizing before first rounds with
  | nil =>
      obtain ⟨n, rfl⟩ : ∃ n, rounds = n + 1 := ⟨rounds - 1, by simp at enough; omega⟩
      obtain ⟨last, segment⟩ := chained
      cases segment
      exact ⟨[], [], before, rfl, by simp, by simp, rfl, .nil, before, .nil⟩
  | cons x list rec =>
      obtain ⟨n, rfl⟩ : ∃ n, rounds = n + 1 := ⟨rounds - 1, by simp at enough; omega⟩
      obtain ⟨last, segment⟩ := chained
      cases segment with
      | cons own later =>
          rw [Engine.enqueueLoop]
          by_cases earlier : s.pendingTimestamp x < timestamp
          · obtain ⟨left, right, middle, rfl, all, next, looped, front, back⟩ := rec n ⟨last, later⟩ (by simpa using enough)
            refine ⟨x :: left, right, middle, rfl, fun y inside => ?_, next, ?_, .cons own front, back⟩
            · rcases List.mem_cons.mp inside with rfl | inside
              · exact earlier
              · exact all y inside
            · rw [if_pos earlier]
              exact looped
          · refine ⟨[], x :: list, before, rfl, by simp, fun y head => ?_, if_neg earlier, .nil, last, .cons own later⟩
            cases head
            exact not_lt.mp earlier

def Engine.enqueued (s : Engine) (trace : TracePtr) (timestamp : Int) (event : List Byte) (prev current : Option TracePtr) : Engine :=
  { s with next := Function.update (onward s.next prev (some trace)) trace current
           firstPendingEvent := if prev = none then some trace else s.firstPendingEvent
           prev := backward (Function.update s.prev trace prev) current (some trace)
           pendingTimestamp := Function.update s.pendingTimestamp trace timestamp
           buffer := Function.update s.buffer trace event
           pulses := s.pulses + 1 }

theorem sortedHead {f : TracePtr → Int} {right : List TracePtr} (sorted : right.Pairwise fun x y => f x ≤ f y)
    (head : ∀ x ∈ right.head?, timestamp ≤ f x) : ∀ x ∈ right, timestamp ≤ f x := by
  cases right with
  | nil => simp
  | cons y right =>
      intro x inside
      rcases List.mem_cons.mp inside with rfl | inside
      · exact head x rfl
      · exact (head y rfl).trans ((List.pairwise_cons.mp sorted).1 x inside)

theorem enqueueSound (timestamp : Int) (event : List Byte) (apart : Apart s trace list) (enough : list.length ≤ s.pulses) (timed : timestamp ≠ -1) :
    ∃ prev current list', s.enqueuePending trace timestamp event = some (s.enqueued trace timestamp event prev current) ∧
      Sound (s.enqueued trace timestamp event prev current) list' ∧ list'.length = list.length + 1 ∧
      ∀ x ∈ list', x = trace ∨ x ∈ list := by
  obtain ⟨left, right, middle, rfl, earlier, later, looped, front, back⟩ :=
    enqueueLoopEnds timestamp (s.pulses + 1) apart.chained (by omega)
  have once := List.nodup_middle.mpr (List.nodup_cons.mpr ⟨apart.absent, apart.once⟩)
  have kept : ∀ x ∈ left ++ right, (Function.update s.pendingTimestamp trace timestamp) x = s.pendingTimestamp x :=
    fun x inside => Function.update_of_ne (fun same : x = trace => apart.absent (same ▸ inside)) _ _
  obtain ⟨front', back', across⟩ := List.pairwise_append.mp apart.sorted
  have onwards := sortedHead back' later
  refine ⟨middle, right.head?, left ++ trace :: right, ?_, ⟨chainedPut front back apart.once apart.absent, once, ?_, fun x => ?_⟩, ?_, ?_⟩
  · unfold Engine.enqueuePending
    rw [looped]
    rfl
  · refine List.pairwise_append.mpr ⟨front'.imp_of_mem ?_, List.pairwise_cons.mpr ⟨?_, back'.imp_of_mem ?_⟩, ?_⟩
    · intro x y here there ordered
      simp only [Engine.enqueued]
      rw [kept x (List.mem_append_left right here), kept y (List.mem_append_left right there)]
      exact ordered
    · intro x inside
      simp only [Engine.enqueued, Function.update_self]
      rw [kept x (List.mem_append_right left inside)]
      exact onwards x inside
    · intro x y here there ordered
      simp only [Engine.enqueued]
      rw [kept x (List.mem_append_right left here), kept y (List.mem_append_right left there)]
      exact ordered
    · intro x here y inside
      simp only [Engine.enqueued]
      rw [kept x (List.mem_append_left right here)]
      rcases List.mem_cons.mp inside with rfl | there
      · rw [Function.update_self]
        exact (earlier x here).le
      · rw [kept y (List.mem_append_right left there)]
        exact across x here y there
  · by_cases own : x = trace
    · subst own
      simp [Engine.enqueued, timed]
    · have member := apart.member x own
      simpa [Engine.enqueued, own] using member
  · simp only [List.length_append, List.length_cons]
    omega
  · intro x inside
    simp only [List.mem_append, List.mem_cons] at inside ⊢
    tauto

end Enqueue

def Recorded (s : Engine) (time : Int) : Prop :=
  s.stopped = false → s.records.Pairwise (fun a b => a.timestamp ≤ b.timestamp) ∧ ∀ r ∈ s.records, r.timestamp ≤ time

structure Holds (s : Engine) (list : List TracePtr) (time : Int) : Prop where
  sound : Sound s list
  short : list.length ≤ s.pulses
  ahead : ∀ x ∈ list, time ≤ s.pendingTimestamp x
  recorded : Recorded s time

section Calls

variable {traces : Traces} {s : Engine} {list gone rest : List TracePtr} {trace : TracePtr} {time timestamp endTimestamp : Int} {r : Record}
  {payload : Payload} {event : List Byte}

theorem checkRecorded (recorded : Recorded s s.now) (later : s.now ≤ time)
    (sorted : gone.Pairwise fun x y => s.pendingTimestamp x ≤ s.pendingTimestamp y)
    (times : ∀ x ∈ gone, s.now ≤ s.pendingTimestamp x ∧ s.pendingTimestamp x ≤ time) : Recorded (s.checked traces gone rest) time := by
  intro running
  obtain ⟨ordered, past⟩ := recorded running
  have ends : ∀ r ∈ gone.map (s.pendingRecord traces), s.now ≤ r.timestamp ∧ r.timestamp ≤ time := by
    intro r inside
    obtain ⟨x, member, rfl⟩ := List.mem_map.mp inside
    exact times x member
  unfold Engine.checked
  dsimp only
  split_ifs
  · refine ⟨List.pairwise_append.mpr ⟨ordered, List.pairwise_map.mpr sorted, fun a before b new => ?_⟩, fun r inside => ?_⟩
    · exact (past a before).trans (ends b new).1
    · rcases List.mem_append.mp inside with before | new
      · exact (past r before).trans later
      · exact (ends r new).2
  · rw [List.append_nil]
    exact ⟨ordered, fun r inside => (past r inside).trans later⟩

theorem checkHolds (traces : Traces) (holds : Holds s list s.now) (begun : 0 ≤ s.now) (later : s.now ≤ time) :
    ∃ s' list', s.checkPendingEvents traces time = some s' ∧ Holds s' list' time := by
  obtain ⟨gone, rest, rfl, reached, next, done⟩ := checkEnds traces time holds.sound holds.short
  have kept : ∀ x ∈ rest, (s.checked traces gone rest).pendingTimestamp x = s.pendingTimestamp x :=
    fun x inside => if_neg fun other => (List.nodup_append.mp holds.sound.once).2.2 x other x inside rfl
  obtain ⟨front, back, -⟩ := List.pairwise_append.mp holds.sound.sorted
  have times : ∀ x ∈ gone, s.now ≤ s.pendingTimestamp x ∧ s.pendingTimestamp x ≤ time := fun x inside =>
    ⟨holds.ahead x (List.mem_append_left rest inside), (reached x inside).resolve_left (by omega)⟩
  have short := holds.short
  rw [List.length_append] at short
  refine ⟨_, rest, done, checkedSound traces holds.sound, (Nat.le_add_left _ _).trans short, fun x inside => ?_,
    checkRecorded holds.recorded later front times⟩
  rw [kept x inside]
  exact sortedHead back (fun y head => (next y head).2.le) x inside

theorem dumpRecorded (recorded : Recorded s time) (own : r.timestamp = time) : Recorded (s.dumpEventToBuffer r) time := by
  unfold Engine.dumpEventToBuffer
  split_ifs
  · intro running
    obtain ⟨ordered, past⟩ := recorded running
    refine ⟨List.pairwise_append.mpr ⟨ordered, List.pairwise_singleton _ _, fun a before b new => ?_⟩, fun b inside => ?_⟩
    · rw [List.mem_singleton.mp new, own]
      exact past a before
    · rcases List.mem_append.mp inside with before | new
      · exact past b before
      · rw [List.mem_singleton.mp new, own]
  · exact recorded

theorem dumpHolds (holds : Holds s list time) (own : r.timestamp = time) : Holds (s.dumpEventToBuffer r) list time := by
  have recorded := dumpRecorded holds.recorded own
  obtain ⟨⟨chained, once, sorted, member⟩, short, ahead, -⟩ := holds
  unfold Engine.dumpEventToBuffer at recorded ⊢
  split_ifs at recorded ⊢ <;> exact ⟨⟨chained, once, sorted, member⟩, short, ahead, recorded⟩

theorem dumpApart (apart : Apart s trace list) : Apart (s.dumpEventToBuffer r) trace list := by
  obtain ⟨chained, once, sorted, absent, member⟩ := apart
  unfold Engine.dumpEventToBuffer
  split_ifs <;> exact ⟨chained, once, sorted, absent, member⟩

theorem pulseHolds (trace : TracePtr) (payload : Payload) (event : List Byte) (holds : Holds s list time) (begun : 0 ≤ time) (ends : time ≤ endTimestamp) :
    ∃ s' list', ((if s.pendingTimestamp trace ≠ -1 then s.dequeue trace else s).dumpEventToBuffer
        ⟨trace, time, payload, false⟩).enqueuePending trace endTimestamp event = some s' ∧ Holds s' list' time := by
  obtain ⟨others, apart, less⟩ := dequeueApart holds.sound trace
  have recorded : Recorded (if s.pendingTimestamp trace ≠ -1 then s.dequeue trace else s) time := by
    split_ifs <;> exact holds.recorded
  have pending : (if s.pendingTimestamp trace ≠ -1 then s.dequeue trace else s).pendingTimestamp = s.pendingTimestamp := by
    split_ifs <;> rfl
  have pulses : (if s.pendingTimestamp trace ≠ -1 then s.dequeue trace else s).pulses = s.pulses := by
    split_ifs <;> rfl
  generalize (if s.pendingTimestamp trace ≠ -1 then s.dequeue trace else s) = t at apart recorded pending pulses
  have recorded := dumpRecorded (r := ⟨trace, time, payload, false⟩) recorded rfl
  have apart := dumpApart (r := ⟨trace, time, payload, false⟩) apart
  have kept : (t.dumpEventToBuffer ⟨trace, time, payload, false⟩).pendingTimestamp = s.pendingTimestamp ∧
      (t.dumpEventToBuffer ⟨trace, time, payload, false⟩).pulses = s.pulses := by
    unfold Engine.dumpEventToBuffer
    split_ifs <;> exact ⟨pending, pulses⟩
  generalize t.dumpEventToBuffer ⟨trace, time, payload, false⟩ = t at apart recorded kept ⊢
  have short : others.length ≤ s.pulses := less.length_le.trans holds.short
  obtain ⟨prev, current, list', done, sound, length, inside⟩ :=
    enqueueSound endTimestamp event apart (kept.2 ▸ short) (by omega)
  refine ⟨_, list', done, sound, ?_, fun x member => ?_, recorded⟩
  · rw [length]
    exact Nat.succ_le_succ (kept.2 ▸ short)
  · simp only [Engine.enqueued]
    rcases inside x member with rfl | old
    · rw [Function.update_self]
      exact ends
    · rw [Function.update_of_ne fun same : x = trace => apart.absent (same ▸ old), kept.1]
      exact holds.ahead x (less.subset old)

theorem stopSound (traces : Traces) (time : Int) (sound : Sound s list) (short : list.length ≤ s.pulses) : ∃ s', s.stop traces time = some s' ∧ Sound s' [] := by
  obtain ⟨gone, rest, rfl, -, next, done⟩ := checkEnds traces (-1) sound short
  obtain rfl : rest = [] := by
    cases rest with
    | nil => rfl
    | cons x rest => exact absurd rfl (next x rfl).1
  obtain ⟨gone', rest', shape, -, -, done'⟩ := checkEnds traces time (checkedSound traces sound) (Nat.zero_le _)
  obtain ⟨rfl, rfl⟩ := List.append_eq_nil_iff.mp shape.symm
  have after : Sound (s.checked traces gone []) [] := checkedSound traces sound
  refine ⟨(s.checked traces gone []).checked traces [] [], ?_, checkedSound traces after⟩
  unfold Engine.stop Engine.flush
  rw [done]
  exact done'

end Calls

def Kept (s : Engine) : Prop := 0 ≤ s.now ∧ ∃ list, Holds s list s.now

section Steps

variable {traces : Traces} {s next : Engine} {a : Action}

theorem holdsNow {list : List TracePtr} {time : Int} (holds : Holds s list time) : Holds { s with now := time } list time :=
  ⟨⟨holds.sound.chained, holds.sound.once, holds.sound.sorted, holds.sound.member⟩, holds.short, holds.ahead, holds.recorded⟩

theorem stepKept (traces : Traces) (kept : Kept s) (timed : Timed s a) : ∃ next, step traces s a = some next ∧ Kept next := by
  obtain ⟨begun, list, holds⟩ := kept
  obtain ⟨later, ends⟩ := timed
  cases a with
  | event trace timestamp payload =>
      have later : s.now ≤ timestamp := later timestamp rfl
      obtain ⟨t, list', checked, after⟩ := checkHolds traces holds begun later
      refine ⟨_, ?_, begun.trans later, list', holdsNow (dumpHolds (r := ⟨trace, timestamp, payload, false⟩) after rfl)⟩
      simp [step, call, Engine.dumpEvent, checked, Action.time]
  | eventString trace timestamp payload =>
      have later : s.now ≤ timestamp := later timestamp rfl
      obtain ⟨t, list', checked, after⟩ := checkHolds traces holds begun later
      refine ⟨_, ?_, begun.trans later, list', holdsNow (dumpHolds (r := ⟨trace, timestamp, payload, true⟩) after rfl)⟩
      simp [step, call, Engine.dumpEvent, checked, Action.time]
  | eventPulse trace timestamp endTimestamp pulseEvent event =>
      have later : s.now ≤ timestamp := later timestamp rfl
      obtain ⟨t, list', checked, after⟩ := checkHolds traces holds begun later
      obtain ⟨u, last, queued, all⟩ := pulseHolds trace pulseEvent event after (begun.trans later) ends
      have dumped : s.dumpEventPulse traces trace timestamp endTimestamp pulseEvent event = some u := by
        unfold Engine.dumpEventPulse
        rw [checked]
        exact queued
      refine ⟨_, ?_, begun.trans later, last, holdsNow all⟩
      simp [step, call, dumped, Action.time]
  | flush time =>
      have later : s.now ≤ time := later time rfl
      obtain ⟨t, list', checked, after⟩ := checkHolds traces holds begun later
      refine ⟨_, ?_, begun.trans later, list', holdsNow after⟩
      simp [step, call, Engine.flush, checked, Action.time]
  | stop time =>
      have later : s.now ≤ time := later time rfl
      obtain ⟨t, stopped, sound⟩ := stopSound traces time holds.sound holds.short
      refine ⟨{ t with stopped := true, now := time }, ?_, begun.trans later, [],
        ⟨sound.chained, sound.once, sound.sorted, sound.member⟩, Nat.zero_le _, by simp, fun running => by contradiction⟩
      simp [step, call, stopped, Action.time]
  | setGlobalEnable enable =>
      refine ⟨_, rfl, begun, list, ⟨holds.sound.chained, holds.sound.once, holds.sound.sorted, holds.sound.member⟩, holds.short,
        holds.ahead, holds.recorded⟩

theorem initialKept (pointers backs : TracePtr → Option TracePtr) (buffer : TracePtr → List Byte) : Kept (.initial pointers backs buffer) :=
  ⟨le_rfl, [], ⟨⟨none, .nil⟩, List.nodup_nil, List.Pairwise.nil, by simp [Engine.initial]⟩, Nat.le_refl 0, by simp,
    fun _ => ⟨List.Pairwise.nil, by simp [Engine.initial]⟩⟩

end Steps

/- In every state the links are those of one list, which is in the order of the timestamps and has every trace with a
timestamp once; before the end the records are in the order of theirs. And every call returns. -/
theorem pendingQueue (traces : Traces) (pointers backs : TracePtr → Option TracePtr) (buffer : TracePtr → List Byte) {trace last}
    (run : Run (step traces) Timed (.initial pointers backs buffer) trace last) :
    (∃ list, Chained last.next last.prev none last.firstPendingEvent list ∧ list.Nodup ∧
      list.Pairwise (fun x y => last.pendingTimestamp x ≤ last.pendingTimestamp y) ∧
      ∀ x, x ∈ list ↔ last.pendingTimestamp x ≠ -1) ∧
      (last.stopped = false → last.records.Pairwise fun a b => a.timestamp ≤ b.timestamp) ∧
      ∀ a, Timed last a → (step traces last a).isSome = true := by
  have kept : Kept last := Machine.runInvariant run (initialKept pointers backs buffer) fun s a next kept timed taken => by
    obtain ⟨t, done, after⟩ := stepKept traces kept timed
    rw [done] at taken
    cases taken
    exact after
  refine ⟨?_, ?_, fun a timed => ?_⟩
  · obtain ⟨-, list, holds⟩ := kept
    exact ⟨list, holds.sound.chained, holds.sound.once, holds.sound.sorted, holds.sound.member⟩
  · obtain ⟨-, list, holds⟩ := kept
    exact fun running => (holds.recorded running).1
  · obtain ⟨t, done, -⟩ := stepKept traces kept timed
    rw [done]
    rfl

def clean : Engine := .initial (fun _ => none) (fun _ => none) fun _ => []

def oneByte : Traces := fun _ => .bits 8

def pulse (p : BitVec 64) (valid : p ≠ 0) (timestamp endTimestamp : Int) : Action :=
  .eventPulse ⟨p, valid⟩ timestamp endTimestamp (.data [1]) [0]

def fourPulses : List Action :=
  [pulse 1 oneValid 0 10, pulse 2 twoValid 1 5, pulse 3 threeValid 2 20, pulse 1 oneValid 3 30, .flush 6]

theorem pendingQueueFour :
    (Machine.reach (step oneByte) Timed clean fourPulses).records.map (·.timestamp) = [0, 1, 2, 3, 5] ∧
      (Machine.reach (step oneByte) Timed clean fourPulses).records.Pairwise (fun a b => a.timestamp ≤ b.timestamp) ∧
      (step oneByte (Machine.reach (step oneByte) Timed clean fourPulses) (.stop 6)).isSome = true := by
  obtain ⟨trace, run, -⟩ := Machine.reachRun (step oneByte) Timed clean fourPulses (by decide +kernel)
  obtain ⟨-, ordered, returns⟩ := pendingQueue oneByte (fun _ => none) (fun _ => none) (fun _ => []) run
  exact ⟨by decide +kernel, ordered (by decide +kernel), returns (.stop 6) (by decide +kernel)⟩

end Gvsoc.PendingEvents
