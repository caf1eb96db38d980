import Gvsoc.TraceRoundTrip
import Gvsoc.VcdMerge

/-! Every timestamp is dumped once, with the last event of each trace. -/
namespace Gvsoc.VcdMerge
open Bytes (Byte)
open Io (bytesFrom)
open Cells (Holds)
open Pointers (Linked)
open Machine (latest latestSelf latestOther)
open Tracing (TraceKind Traces Event Buffer Dump Closed Suits oneValid twoValid threeValid)

variable {ε : Type} {traces : Traces} {eventTrace : BitVec 64 → Option ε} {declared : ε → TraceKind}
  {fresh : Nat → Byte} {rounds : Nat}

section Values

variable {t : EventTrace ε} {event : Event} {width : Nat}

structure Kept (buffer : Nat → Byte) (flags : Byte) (flagsMask : Nat → Byte) (event : Event) : Prop where
  value : Holds buffer 0 event.value
  flags : flags = event.flags
  mask : event.flags = 1 → Holds flagsMask 0 event.mask

/- The width of a dump: recorded with a string, else the one that the event trace of such a trace is made with. -/
def Sized (traces : Traces) (eventTrace : BitVec 64 → Option ε) (declared : ε → TraceKind) (e : ε) (width : Nat) (event : Event) :
    Prop :=
  match traces event.trace with
  | .string => width = event.value.length * 8
  | kind => (∀ p, eventTrace p = some e → traces p = declared e) → width = fileWidth kind

structure Fits (traces : Traces) (event : Event) : Prop where
  value : (recordedWidth traces event + 7) / 8 = event.value.length
  mask : event.flags = 1 → event.mask.length = event.value.length

theorem suitsFits {d : Dump} (suits : Suits traces d) : Fits traces d.event := by
  have mask (unset : d.event.flags = 1) : d.event.mask.length = d.event.value.length := by
    have flagged : d.flags ≠ 0 := by
      rw [show d.flags = 1 from unset]
      decide
    have bytes := suits.bytes.resolve_right (fun string => flagged string.2)
    calc d.mask.length = (traces d.trace).bytes := Tracing.maskLength suits unset
      _ = d.value.length := by rw [Tracing.valueLength, bytes]
  refine ⟨?_, mask⟩
  have length : d.value.length = d.payload.bytes := Tracing.valueLength d
  have plain (kind : (traces d.trace).isString = false) : (traces d.trace).bytes = d.value.length := by
    rw [length]
    exact (suits.bytes.resolve_right (fun string => by simp [kind] at string)).symm
  have same : d.event.trace = d.trace.val := rfl
  have value : d.event.value = d.value := rfl
  unfold recordedWidth
  rw [same, value]
  cases kind : traces d.trace with
  | string => simp only; omega
  | bits width => simpa [kind, TraceKind.bytes] using plain (by rw [kind]; rfl)
  | real => simpa [kind, TraceKind.bytes] using plain (by rw [kind]; rfl)

@[simp] theorem regNext (bytes mask : List Byte) (flags : Byte) : (t.reg fresh bytes width flags mask).next = t.next := by
  simp only [EventTrace.reg]
  split_ifs <;> rfl

@[simp] theorem regEnqueued (bytes mask : List Byte) (flags : Byte) :
    (t.reg fresh bytes width flags mask).isEnqueued = t.isEnqueued := by
  simp only [EventTrace.reg]
  split_ifs <;> rfl

@[simp] theorem regWidth (bytes mask : List Byte) (flags : Byte) : (t.reg fresh bytes width flags mask).width = t.width := by
  simp only [EventTrace.reg]
  split_ifs <;> rfl

theorem regKept (fits : Fits traces event) :
    let r := t.reg fresh event.value (recordedWidth traces event) event.flags event.mask
    Kept r.buffer r.flags r.flagsMask event := by
  have whole : event.value.take event.value.length = event.value := List.take_length
  simp only [EventTrace.reg, fits.value, whole]
  by_cases unset : event.flags = 1
  · have masked : event.mask.take event.value.length = event.mask := by rw [← fits.mask unset, List.take_length]
    simp only [if_pos unset, masked]
    refine ⟨?_, rfl, fun _ => ?_⟩ <;> exact Cells.holdsWrite
  · simp only [if_neg unset]
    exact ⟨Cells.holdsWrite, rfl, fun set => absurd set unset⟩

def registered (traces : Traces) (fresh : Nat → Byte) (t : EventTrace ε) (event : Event) : EventTrace ε :=
  let t := if (traces event.trace).isString then { t with width := recordedWidth traces event } else t
  t.reg fresh event.value (recordedWidth traces event) event.flags event.mask

@[simp] theorem registeredNext (t : EventTrace ε) (event : Event) : (registered traces fresh t event).next = t.next := by
  simp only [registered, regNext]
  split_ifs <;> rfl

@[simp] theorem registeredEnqueued (t : EventTrace ε) (event : Event) :
    (registered traces fresh t event).isEnqueued = t.isEnqueued := by
  simp only [registered, regEnqueued]
  split_ifs <;> rfl

theorem registeredWidth (t : EventTrace ε) (event : Event) : (registered traces fresh t event).width =
    if (traces event.trace).isString then recordedWidth traces event else t.width := by
  simp only [registered, regWidth]
  split_ifs <;> rfl

variable (fresh) in
theorem registeredKept (fits : Fits traces event) (t : EventTrace ε) :
    Kept (registered traces fresh t event).buffer (registered traces fresh t event).flags
      (registered traces fresh t event).flagsMask event := regKept fits

variable (fresh) in
theorem registeredSized {e : ε} (traced : eventTrace event.trace = some e)
    (plain : (∀ p, eventTrace p = some e → (traces p).isString = false) → t.width = fileWidth (declared e)) :
    Sized traces eventTrace declared e (registered traces fresh t event).width event := by
  rw [registeredWidth]
  unfold Sized recordedWidth
  cases kind : traces event.trace with
  | string => rfl
  | bits width =>
      intro alike
      have same := alike event.trace traced
      rw [kind] at same
      rw [if_neg (by simp [TraceKind.isString]), plain (fun p also => by rw [alike p also, ← same]; rfl), ← same]
  | real =>
      intro alike
      have same := alike event.trace traced
      rw [kind] at same
      rw [if_neg (by simp [TraceKind.isString]), plain (fun p also => by rw [alike p also, ← same]; rfl), ← same]

end Values

variable [DecidableEq ε]

section Flush

variable {s : Dumper ε} {timestamp : BitVec 64} {nodes : List ε}

def dequeued (eventTraces : ε → EventTrace ε) (nodes : List ε) : ε → EventTrace ε :=
  fun e => if e ∈ nodes then { eventTraces e with isEnqueued := false } else eventTraces e

theorem dequeuedCons (eventTraces : ε → EventTrace ε) (current : ε) (nodes : List ε) :
    dequeued (Function.update eventTraces current { eventTraces current with isEnqueued := false }) nodes =
      dequeued eventTraces (current :: nodes) := by
  funext e
  by_cases same : e = current
  · subst same
    simp [dequeued]
  · simp [dequeued, same]

@[simp] theorem dequeuedWidth (eventTraces : ε → EventTrace ε) (nodes : List ε) (e : ε) :
    (dequeued eventTraces nodes e).width = (eventTraces e).width := by
  unfold dequeued
  split_ifs <;> rfl

@[simp] theorem dequeuedNil (eventTraces : ε → EventTrace ε) : dequeued eventTraces [] = eventTraces := by
  funext e
  simp [dequeued]

theorem flushLoopNodes {first : Option ε} (linked : Linked (fun e => (s.eventTraces e).next) first nodes) (once : nodes.Nodup)
    (enough : nodes.length ≤ rounds) :
    Dumper.flushLoop declared timestamp rounds first s = some
      { s with
        firstTraceToDump := none
        calls := s.calls ++ nodes.map (fun e => (s.eventTraces e).dump declared timestamp e)
        eventTraces := dequeued s.eventTraces nodes } := by
  induction nodes generalizing first rounds s with
  | nil =>
      cases linked
      cases rounds <;> simp [Dumper.flushLoop]
  | cons current nodes ih =>
      obtain ⟨rounds, rfl⟩ : ∃ n, rounds = n + 1 := ⟨rounds - 1, by simp at enough; omega⟩
      obtain ⟨outside, once⟩ := List.nodup_cons.mp once
      cases linked with
      | cons later =>
          simp only [Dumper.flushLoop]
          rw [ih (Pointers.linkedCongr later ?_) once (by simpa using enough)]
          · have others : ∀ e ∈ nodes, Function.update s.eventTraces current
                { s.eventTraces current with isEnqueued := false } e = s.eventTraces e :=
              fun e inside => Function.update_of_ne (ne_of_mem_of_not_mem inside outside) _ _
            have dumps : nodes.map (fun e => (Function.update s.eventTraces current
                { s.eventTraces current with isEnqueued := false } e).dump declared timestamp e) =
                  nodes.map (fun e => (s.eventTraces e).dump declared timestamp e) :=
              List.map_congr_left (fun e inside => by rw [others e inside])
            rw [dequeuedCons, dumps]
            simp [List.append_assoc]
          · intro e inside
            simp only [Function.update_of_ne (ne_of_mem_of_not_mem inside outside)]

end Flush

section Invariant

def keyOf (eventTrace : BitVec 64 → Option ε) (event : Event) : BitVec 64 × Option ε := (event.timestamp, eventTrace event.trace)

def Right (traces : Traces) (eventTrace : BitVec 64 → Option ε) (declared : ε → TraceKind) (done : List Event) (call : Call ε) : Prop :=
  ∃ event, latest (keyOf eventTrace) (call.timestamp, some call.trace) done = some event ∧
    Kept call.event call.flags call.flagsMask event ∧ Sized traces eventTrace declared call.trace call.width event

def Ordered (calls : List (Call ε)) : Prop :=
  calls.Pairwise (fun a b => a.timestamp.toInt < b.timestamp.toInt ∨ a.timestamp = b.timestamp ∧ a.trace ≠ b.trace)

variable (traces eventTrace declared) in
/- What the thread knows after some events: those of the last timestamp wait in the list, those before it are dumped. -/
structure Merging (s : Dumper ε) (done : List Event) (nodes : List ε) : Prop where
  linked : Linked (fun e => (s.eventTraces e).next) s.firstTraceToDump nodes
  once : nodes.Nodup
  enqueued : ∀ e, (s.eventTraces e).isEnqueued = true ↔ e ∈ nodes
  short : nodes.length ≤ done.length
  widths : ∀ e, (∀ p, eventTrace p = some e → (traces p).isString = false) → (s.eventTraces e).width = fileWidth (declared e)
  waits : ∀ event ∈ done, ∀ e, event.timestamp = s.lastTimestamp → eventTrace event.trace = some e → e ∈ nodes
  pending : ∀ e ∈ nodes, Right traces eventTrace declared done ((s.eventTraces e).dump declared s.lastTimestamp e)
  bounded : ∀ event ∈ done, event.timestamp.toInt ≤ s.lastTimestamp.toInt
  ordered : Ordered s.calls
  before : ∀ call ∈ s.calls, call.timestamp.toInt < s.lastTimestamp.toInt
  right : ∀ call ∈ s.calls, Right traces eventTrace declared done call
  dumped : ∀ event ∈ done, ∀ e, event.timestamp.toInt < s.lastTimestamp.toInt → eventTrace event.trace = some e →
    ∃ call ∈ s.calls, call.timestamp = event.timestamp ∧ call.trace = e

variable {s next : Dumper ε} {done : List Event} {nodes : List ε} {event : Event} {timestamp : BitVec 64}

theorem initialMerging (memory : ε → EventTrace ε) :
    Merging traces eventTrace declared (Dumper.initial declared memory) [] [] := by
  refine ⟨.nil, .nil, ?_, by simp, ?_, by simp, by simp, by simp, .nil, ?_, ?_, by simp⟩
  · simp [Dumper.initial, EventTrace.create]
  · simp [Dumper.initial, EventTrace.create]
  · simp [Dumper.initial]
  · simp [Dumper.initial]

theorem flushMerging (merging : Merging traces eventTrace declared s done nodes) (enough : done.length ≤ rounds) :
    ∃ flushed, s.flushEventTraces declared rounds s.lastTimestamp = some flushed ∧ Ordered flushed.calls ∧
      (∀ call ∈ flushed.calls, call.timestamp.toInt ≤ s.lastTimestamp.toInt ∧ Right traces eventTrace declared done call) ∧
      (∀ event ∈ done, ∀ e, eventTrace event.trace = some e →
        ∃ call ∈ flushed.calls, call.timestamp = event.timestamp ∧ call.trace = e) ∧
      (∀ timestamp, s.lastTimestamp.toInt < timestamp.toInt →
        Merging traces eventTrace declared { flushed with lastTimestamp := timestamp } done []) := by
  have all (event : Event) (inside : event ∈ done) (e : ε) (traced : eventTrace event.trace = some e) :
      ∃ call ∈ s.calls ++ nodes.map (fun e => (s.eventTraces e).dump declared s.lastTimestamp e),
        call.timestamp = event.timestamp ∧ call.trace = e := by
    by_cases earlier : event.timestamp.toInt < s.lastTimestamp.toInt
    · obtain ⟨call, member, fields⟩ := merging.dumped event inside e earlier traced
      exact ⟨call, List.mem_append_left _ member, fields⟩
    · have last : event.timestamp = s.lastTimestamp := by
        have bound := merging.bounded event inside
        exact BitVec.eq_of_toInt_eq (by omega)
      refine ⟨(s.eventTraces e).dump declared s.lastTimestamp e, List.mem_append_right _ ?_, last.symm, rfl⟩
      exact List.mem_map_of_mem (merging.waits event inside e last traced)
  have each : ∀ call ∈ s.calls ++ nodes.map (fun e => (s.eventTraces e).dump declared s.lastTimestamp e),
      call.timestamp.toInt ≤ s.lastTimestamp.toInt ∧ Right traces eventTrace declared done call := by
    intro call member
    rcases List.mem_append.mp member with old | new
    · exact ⟨(merging.before call old).le, merging.right call old⟩
    · obtain ⟨e, inside, rfl⟩ := List.mem_map.mp new
      exact ⟨le_refl _, merging.pending e inside⟩
  have ordered : Ordered (s.calls ++ nodes.map (fun e => (s.eventTraces e).dump declared s.lastTimestamp e)) := by
    refine List.pairwise_append.mpr ⟨merging.ordered, ?_, fun a old b new => ?_⟩
    · exact List.pairwise_map.mpr (merging.once.imp (fun apart => .inr ⟨rfl, apart⟩))
    · obtain ⟨e, -, rfl⟩ := List.mem_map.mp new
      exact .inl (merging.before a old)
  refine ⟨_, flushLoopNodes merging.linked merging.once (merging.short.trans enough), ordered, each, all, fun timestamp later => ?_⟩
  refine ⟨.nil, .nil, ?_, by simp, ?_, ?_, by simp, ?_, ordered, ?_, fun call member => (each call member).2, ?_⟩
  · intro e
    simp only [List.not_mem_nil, iff_false]
    by_cases inside : e ∈ nodes
    · simp [dequeued, inside]
    · simpa [dequeued, inside] using (merging.enqueued e).not.mpr inside
  · intro e plain
    simpa using merging.widths e plain
  · intro event inside e same
    have bound := merging.bounded event inside
    simp only at same
    rw [← same] at later
    omega
  · intro event inside
    exact (merging.bounded event inside).trans later.le
  · intro call member
    exact (each call member).1.trans_lt later
  · intro event inside e _ traced
    exact all event inside e traced

theorem detectMerging (merging : Merging traces eventTrace declared s done nodes)
    (current : s.lastTimestamp = -1 ∧ done = [] ∨ s.lastTimestamp ≠ -1 ∧ ∃ event ∈ done, event.timestamp = s.lastTimestamp)
    (sorted : ∀ event ∈ done, event.timestamp.toInt ≤ timestamp.toInt) (enough : done.length ≤ rounds) :
    ∃ next nodes, s.detect declared rounds timestamp = some next ∧ next.lastTimestamp = timestamp ∧
      Merging traces eventTrace declared next done nodes := by
  unfold Dumper.detect
  rcases current with ⟨first, rfl⟩ | ⟨set, event, inside, last⟩
  · have none : nodes = [] := List.eq_nil_of_length_eq_zero (by simpa using merging.short)
    subst none
    have empty : s.calls = [] := List.eq_nil_iff_forall_not_mem.mpr (fun call member => by
      obtain ⟨event, found, -⟩ := merging.right call member
      simp [latest] at found)
    have same : timestamp.slt timestamp = false := by simp [BitVec.slt]
    refine ⟨_, [], by simp only [if_pos first, same]; rfl, rfl, ?_⟩
    refine ⟨merging.linked, .nil, merging.enqueued, by simp, merging.widths, by simp, by simp, by simp, merging.ordered, ?_, ?_, by simp⟩
    · simp [empty]
    · simp [empty]
  · simp only [if_neg set]
    have bound := sorted event inside
    rw [last] at bound
    split_ifs with later
    · have later : s.lastTimestamp.toInt < timestamp.toInt := by simpa [BitVec.slt] using later
      obtain ⟨flushed, done, -, -, -, after⟩ := flushMerging merging enough
      exact ⟨_, [], by rw [done]; rfl, rfl, after timestamp later⟩
    · have same : s.lastTimestamp = timestamp := by
        refine BitVec.eq_of_toInt_eq ?_
        simp only [BitVec.slt, decide_eq_true_eq] at later
        omega
      exact ⟨_, nodes, rfl, same, merging⟩

theorem rightSnoc {call : Call ε} (right : Right traces eventTrace declared done call)
    (other : keyOf eventTrace event ≠ (call.timestamp, some call.trace)) :
    Right traces eventTrace declared (done ++ [event]) call := by
  obtain ⟨last, found, kept⟩ := right
  exact ⟨last, by rw [latestOther done other]; exact found, kept⟩

theorem skippedMerging (merging : Merging traces eventTrace declared s done nodes) (last : s.lastTimestamp = event.timestamp)
    (untraced : eventTrace event.trace = none) : Merging traces eventTrace declared s (done ++ [event]) nodes := by
  have other (call : Call ε) : keyOf eventTrace event ≠ (call.timestamp, some call.trace) := by simp [keyOf, untraced]
  refine { merging with
    short := merging.short.trans (by simp)
    waits := fun v inside e same traced => ?_
    pending := fun e inside => rightSnoc (merging.pending e inside) (other _)
    bounded := fun v inside => ?_
    right := fun call member => rightSnoc (merging.right call member) (other call)
    dumped := fun v inside e earlier traced => ?_ }
  · rcases List.mem_append.mp inside with old | new
    · exact merging.waits v old e same traced
    · rw [List.mem_singleton.mp new, untraced] at traced
      contradiction
  · rcases List.mem_append.mp inside with old | new
    · exact merging.bounded v old
    · rw [List.mem_singleton.mp new, last]
  · rcases List.mem_append.mp inside with old | new
    · exact merging.dumped v old e earlier traced
    · rw [List.mem_singleton.mp new, untraced] at traced
      contradiction

theorem tracedMerging {e : ε} {t : EventTrace ε} {first : Option ε} {after : List ε}
    (merging : Merging traces eventTrace declared s done nodes) (last : s.lastTimestamp = event.timestamp)
    (traced : eventTrace event.trace = some e) (kept : Kept t.buffer t.flags t.flagsMask event)
    (sized : Sized traces eventTrace declared e t.width event)
    (plain : (∀ p, eventTrace p = some e → (traces p).isString = false) → t.width = fileWidth (declared e))
    (queued : t.isEnqueued = true) (linked : Linked (fun x => (Function.update s.eventTraces e t x).next) first after)
    (once : after.Nodup) (members : ∀ x, x ∈ after ↔ x = e ∨ x ∈ nodes) (short : after.length ≤ nodes.length + 1) :
    Merging traces eventTrace declared { s with eventTraces := Function.update s.eventTraces e t, firstTraceToDump := first }
      (done ++ [event]) after := by
  have others {x : ε} (other : x ≠ e) : Function.update s.eventTraces e t x = s.eventTraces x := Function.update_of_ne other _ _
  refine ⟨linked, once, fun x => ?_, ?_, fun x strings => ?_, fun v inside x same also => ?_, fun x inside => ?_, fun v inside => ?_,
    merging.ordered, merging.before, fun call member => ?_, fun v inside x earlier also => ?_⟩
  · by_cases same : x = e
    · subst same
      simp [queued, members]
    · simp [merging.enqueued, members, same]
  · simpa using short.trans (Nat.succ_le_succ merging.short)
  · by_cases same : x = e
    · subst same
      simpa using plain strings
    · simpa [others same] using merging.widths x strings
  · rw [members]
    rcases List.mem_append.mp inside with old | new
    · exact .inr (merging.waits v old x same also)
    · rw [List.mem_singleton.mp new, traced] at also
      exact .inl (Option.some.inj also).symm
  · by_cases same : x = e
    · subst same
      refine ⟨event, ?_, ?_, ?_⟩
      · have key : keyOf eventTrace event = (s.lastTimestamp, some x) := by rw [keyOf, last, traced]
        simp only [EventTrace.dump]
        rw [← key]
        exact latestSelf done event
      · simpa [EventTrace.dump] using kept
      · simpa [EventTrace.dump] using sized
    · have waiting := merging.pending x (((members x).mp inside).resolve_left same)
      simp only [others same]
      refine rightSnoc waiting ?_
      simp [keyOf, traced, EventTrace.dump, Ne.symm same]
  · rcases List.mem_append.mp inside with old | new
    · exact merging.bounded v old
    · rw [List.mem_singleton.mp new, last]
  · refine rightSnoc (merging.right call member) (fun same => ?_)
    have earlier := merging.before call member
    have stamp : event.timestamp = call.timestamp := congrArg Prod.fst same
    rw [last, stamp] at earlier
    omega
  · rcases List.mem_append.mp inside with old | new
    · exact merging.dumped v old x earlier also
    · rw [List.mem_singleton.mp new, last] at earlier
      omega

theorem registerMerging (merging : Merging traces eventTrace declared s done nodes) (last : s.lastTimestamp = event.timestamp)
    (fits : Fits traces event) :
    ∃ nodes, Merging traces eventTrace declared (s.register traces eventTrace fresh event) (done ++ [event]) nodes := by
  unfold Dumper.register
  cases traced : eventTrace event.trace with
  | none => exact ⟨nodes, skippedMerging merging last traced⟩
  | some e =>
      have kept := registeredKept fresh fits (s.eventTraces e)
      have sized := registeredSized fresh traced (merging.widths e)
      have plain (strings : ∀ p, eventTrace p = some e → (traces p).isString = false) :
          (registered traces fresh (s.eventTraces e) event).width = fileWidth (declared e) := by
        rw [registeredWidth, strings event.trace traced]
        exact merging.widths e strings
      change ∃ nodes, Merging traces eventTrace declared (Dumper.enqueue e { s with
        eventTraces := Function.update s.eventTraces e (registered traces fresh (s.eventTraces e) event) }) (done ++ [event]) nodes
      by_cases inside : e ∈ nodes
      · have queued := (merging.enqueued e).mpr inside
        refine ⟨nodes, ?_⟩
        unfold Dumper.enqueue
        rw [if_pos (by simpa using queued)]
        refine tracedMerging merging last traced kept sized plain (by simpa using queued) ?_ merging.once ?_ (by simp)
        · refine Pointers.linkedCongr merging.linked (fun x _ => ?_)
          by_cases same : x = e
          · subst same
            simp
          · simp [Function.update_of_ne same]
        · intro x
          constructor
          · exact .inr
          · rintro (rfl | there)
            · exact inside
            · exact there
      · have free : (s.eventTraces e).isEnqueued = false := by simpa using (merging.enqueued e).not.mpr inside
        refine ⟨e :: nodes, ?_⟩
        unfold Dumper.enqueue
        rw [if_neg (by simpa using free)]
        simp only [Function.update_self, Function.update_idem]
        refine tracedMerging merging last traced kept sized plain rfl ?_ (List.nodup_cons.mpr ⟨inside, merging.once⟩) (by simp) (by simp)
        refine .cons ?_
        simp only [Function.update_self]
        refine Pointers.linkedCongr merging.linked (fun x there => ?_)
        simp [Function.update_of_ne (ne_of_mem_of_not_mem there inside)]

end Invariant

section Routine

variable {s next : Dumper ε} {done : List Event} {event : Event}

variable (traces eventTrace declared) in
structure Sound (s : Dumper ε) (done : List Event) : Prop where
  merging : ∃ nodes, Merging traces eventTrace declared s done nodes
  current : s.lastTimestamp = -1 ∧ done = [] ∨ s.lastTimestamp ≠ -1 ∧ ∃ event ∈ done, event.timestamp = s.lastTimestamp

@[simp] theorem registerLast (s : Dumper ε) (event : Event) :
    (s.register traces eventTrace fresh event).lastTimestamp = s.lastTimestamp := by
  unfold Dumper.register
  cases eventTrace event.trace with
  | none => rfl
  | some e =>
      simp only [Dumper.enqueue]
      split_ifs <;> rfl

variable (fresh) in
theorem mergeSound (sound : Sound traces eventTrace declared s done)
    (sorted : ∀ before ∈ done, before.timestamp.toInt ≤ event.timestamp.toInt) (valid : event.timestamp ≠ -1)
    (fits : Fits traces event) (enough : done.length ≤ rounds) :
    ∃ next, s.merge traces eventTrace declared fresh rounds event = some next ∧ Sound traces eventTrace declared next (done ++ [event]) := by
  obtain ⟨nodes, merging⟩ := sound.merging
  obtain ⟨mid, nodes, found, last, merging⟩ := detectMerging merging sound.current sorted enough
  refine ⟨_, by rw [Dumper.merge, found]; rfl, registerMerging merging last fits, .inr ?_⟩
  rw [registerLast, last]
  exact ⟨valid, event, by simp, rfl⟩

variable (fresh) in
theorem mergeAll {events : List Event} (sound : Sound traces eventTrace declared s done)
    (sorted : (done ++ events).Pairwise (fun a b => a.timestamp.toInt ≤ b.timestamp.toInt))
    (valid : ∀ event ∈ events, event.timestamp ≠ -1) (fits : ∀ event ∈ events, Fits traces event)
    (enough : (done ++ events).length ≤ rounds) :
    ∃ next, events.foldlM (Dumper.merge traces eventTrace declared fresh rounds) s = some next ∧
      Sound traces eventTrace declared next (done ++ events) := by
  induction events generalizing s done with
  | nil => exact ⟨s, rfl, by simpa using sound⟩
  | cons event events ih =>
      have before := (List.pairwise_append.mp sorted).2.2
      have few : done.length ≤ rounds := by
        rw [List.length_append] at enough
        omega
      obtain ⟨mid, found, sound⟩ := mergeSound fresh sound (fun v inside => before v inside event (by simp))
        (valid event (by simp)) (fits event (by simp)) few
      obtain ⟨next, rest, after⟩ := ih sound (by simpa using sorted) (fun v inside => valid v (by simp [inside]))
        (fun v inside => fits v (by simp [inside])) (by simpa using enough)
      exact ⟨next, by rw [List.foldlM_cons, found]; exact rest, by simpa using after⟩

def records (bufs : List (Buffer × List Dump)) : List Event := bufs.flatMap (fun b => b.2.map Dump.event)

theorem mergeBuffers {bufs : List (Buffer × List Dump)} (closed : ∀ b ∈ bufs, Closed traces b.1 b.2) (s : Dumper ε) :
    (bufs.map Prod.fst).foldlM (fun s buf => (Tracing.unpack traces buf).1.foldlM
      (Dumper.merge traces eventTrace declared fresh rounds) s) s =
      (records bufs).foldlM (Dumper.merge traces eventTrace declared fresh rounds) s := by
  induction bufs generalizing s with
  | nil => rfl
  | cons b bufs ih =>
      have first := Tracing.unpackClosed (closed b (by simp))
      simp only [records, List.flatMap_cons, List.map_cons, List.foldlM_cons, List.foldlM_append, first]
      exact congrArg _ (funext fun s => ih (fun b inside => closed b (by simp [inside])) s)

theorem closedFits {bufs : List (Buffer × List Dump)} (closed : ∀ b ∈ bufs, Closed traces b.1 b.2) :
    ∀ event ∈ records bufs, Fits traces event := by
  intro event inside
  obtain ⟨b, member, inside⟩ := List.mem_flatMap.mp inside
  obtain ⟨d, there, rfl⟩ := List.mem_map.mp inside
  obtain ⟨size, packed, -⟩ := closed b member
  exact suitsFits (packed.suits d there)

theorem vcdMerges {memory : ε → EventTrace ε} {bufs : List (Buffer × List Dump)} (closed : ∀ b ∈ bufs, Closed traces b.1 b.2)
    (sorted : (records bufs).Pairwise (fun a b => a.timestamp.toInt ≤ b.timestamp.toInt))
    (valid : ∀ event ∈ records bufs, event.timestamp ≠ -1) (enough : (records bufs).length ≤ rounds) :
    ∃ last, vcdRoutine traces eventTrace declared fresh rounds memory (bufs.map Prod.fst) = some last ∧ Ordered last.calls ∧
      (∀ call ∈ last.calls, Right traces eventTrace declared (records bufs) call) ∧
      ∀ event ∈ records bufs, ∀ e, eventTrace event.trace = some e →
        ∃ call ∈ last.calls, call.timestamp = event.timestamp ∧ call.trace = e := by
  have start : Sound traces eventTrace declared (Dumper.initial declared memory) [] := ⟨⟨[], initialMerging memory⟩, .inl ⟨rfl, rfl⟩⟩
  obtain ⟨s, found, sound⟩ := mergeAll fresh start (by simpa using sorted) valid (closedFits closed)
    (by simpa using enough)
  obtain ⟨nodes, merging⟩ := sound.merging
  rw [List.nil_append] at merging
  obtain ⟨last, flushed, ordered, each, all, -⟩ := flushMerging merging enough
  refine ⟨last, ?_, ordered, fun call member => (each call member).2, all⟩
  unfold vcdRoutine
  rw [mergeBuffers closed, found]
  exact flushed

end Routine

section Examples

open Tracing (threeTraces tracePtr dumpEvent dumpEventReal dumpEventString traceEventBufferSize nullTrace)

def packed (ds : List Dump) : Buffer := Cells.write (fun _ => 0) 0 (ds.flatMap Dump.layout)

theorem packedClosed {ds : List Dump} (suits : ∀ d ∈ ds, Suits traces d) (room : (ds.flatMap Dump.layout).length ≤ traceEventBufferSize) :
    Closed traces (packed ds) ds := by
  refine ⟨_, ⟨Cells.holdsWrite, rfl, room, suits⟩, .inr (Cells.holdsIff.mpr (fun i inside => ?_))⟩
  have null : nullTrace[i] = 0 := List.eq_of_mem_replicate (List.getElem_mem inside)
  rw [null]
  unfold packed Cells.write
  rw [if_neg (by omega)]

def firstDumps : List Dump :=
  [dumpEvent threeTraces (tracePtr 1 oneValid) 5 (some (fun i => BitVec.ofNat 8 (i + 0xa))),
    dumpEventReal (tracePtr 2 twoValid) 5 0x3ff0000000000000,
    dumpEvent threeTraces (tracePtr 1 oneValid) 5 (some (fun i => BitVec.ofNat 8 (i + 0xc)))]

def laterDumps : List Dump :=
  [dumpEventString (tracePtr 3 threeValid) 6 [0x68, 0x69], dumpEventString (tracePtr 3 threeValid) 6 [0x68],
    dumpEvent threeTraces (tracePtr 1 oneValid) 7 none]

def twoBuffers : List (Buffer × List Dump) := [(packed firstDumps, firstDumps), (packed laterDumps, laterDumps)]

theorem twoBuffersClosed : ∀ b ∈ twoBuffers, Closed threeTraces b.1 b.2 := by
  intro b inside
  simp only [twoBuffers, List.mem_cons, List.not_mem_nil, or_false] at inside
  rcases inside with rfl | rfl
  · refine packedClosed (fun d member => ?_) (by decide)
    simp only [firstDumps, List.mem_cons, List.not_mem_nil, or_false] at member
    rcases member with rfl | rfl | rfl
    · exact ⟨by decide, .inl (by decide), by decide⟩
    · exact ⟨by decide, .inl (by decide), by decide⟩
    · exact ⟨by decide, .inl (by decide), by decide⟩
  · refine packedClosed (fun d member => ?_) (by decide)
    simp only [laterDumps, List.mem_cons, List.not_mem_nil, or_false] at member
    rcases member with rfl | rfl | rfl
    · exact ⟨by decide, .inr ⟨by decide, by decide⟩, by decide⟩
    · exact ⟨by decide, .inr ⟨by decide, by decide⟩, by decide⟩
    · exact ⟨by decide, .inl (by decide), by decide⟩

def runOf (bufs : List (Buffer × List Dump)) : Option (Dumper (BitVec 64)) :=
  vcdRoutine threeTraces some threeTraces (fun _ => 0xaa) 6 (fun _ => ⟨0, 0, fun _ => 0xcc, 0, fun _ => 0xcc, true, some 9⟩)
    (bufs.map Prod.fst)

theorem vcdMergesSix : ∃ last, runOf twoBuffers = some last ∧
    last.calls.map (fun call => (call.timestamp, call.trace, call.width, call.flags)) =
      [(5, 2, 8, 0), (5, 1, 12, 0), (6, 3, 16, 0), (7, 1, 12, 1)] ∧
    ∀ call ∈ last.calls, Right threeTraces some threeTraces (records twoBuffers) call := by
  obtain ⟨last, found, -, right, -⟩ := @vcdMerges (BitVec 64) threeTraces some threeTraces
    (fun _ => 0xaa) 6 _ (fun _ => ⟨0, 0, fun _ => 0xcc, 0, fun _ => 0xcc, true, some 9⟩) twoBuffers twoBuffersClosed (by decide) (by decide) (by decide)
  have calls : (runOf twoBuffers).map (fun s => s.calls.map (fun call => (call.timestamp, call.trace, call.width, call.flags))) =
      some [(5, 2, 8, 0), (5, 1, 12, 0), (6, 3, 16, 0), (7, 1, 12, 1)] := by decide +kernel
  have found : runOf twoBuffers = some last := found
  rw [found] at calls
  exact ⟨last, found, Option.some.inj calls, right⟩

/- A real is dumped with its eight bytes for a width, and was registered with 64 bits. -/
theorem realWidth : ∃ last, runOf twoBuffers = some last ∧
    ¬ ∀ call ∈ last.calls, ∀ event, latest (keyOf some) (call.timestamp, some call.trace) (records twoBuffers) = some event →
      call.width = recordedWidth threeTraces event := by
  have calls : (runOf twoBuffers).map (fun s => s.calls.head?.map (fun call => (call.timestamp, call.trace, call.width))) =
      some (some (5, 2, 8)) := by decide +kernel
  obtain ⟨last, found, head⟩ := Option.map_eq_some_iff.mp calls
  obtain ⟨call, first, fields⟩ := Option.map_eq_some_iff.mp head
  obtain ⟨stamp, trace, width⟩ : call.timestamp = 5 ∧ call.trace = 2 ∧ call.width = 8 := by simpa using fields
  refine ⟨last, found, fun same => ?_⟩
  have recorded := same call (List.mem_of_mem_head? first) (dumpEventReal (tracePtr 2 twoValid) 5 0x3ff0000000000000).event (by
    rw [stamp, trace]
    decide +kernel)
  rw [width] at recorded
  exact absurd recorded (by decide)

end Examples

end Gvsoc.VcdMerge
