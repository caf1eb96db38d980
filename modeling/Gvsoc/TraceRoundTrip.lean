import Gvsoc.TraceBuffer
import Mathlib.Data.List.Forall2

/-! What the dumper thread decodes is what was dumped. -/
namespace Gvsoc.Tracing
open Bytes (Byte wordBytes wordOf)
open Io (bytesFrom)
open Cells (Holds)
open Machine (Run anyStep)

section Record

variable {traces : Traces} {buf : Buffer} {d : Dump} {offset : Nat}

@[simp] theorem layoutLength (d : Dump) : d.layout.length = d.size := by
  obtain ⟨p, timestamp, payload, includeSize⟩ := d
  cases payload <;> cases includeSize <;> simp [Dump.layout, Dump.size, Dump.mask, Dump.value, Payload.bytes] <;> omega

structure Suits (traces : Traces) (d : Dump) : Prop where
  sized : d.includeSize = (traces d.trace).isString
  bytes : d.payload.bytes = (traces d.trace).bytes ∨ (traces d.trace).isString = true ∧ d.flags = 0
  fits : d.size ≤ traceEventBufferSize

theorem maskLength (suits : Suits traces d) (unset : d.flags = 1) : d.mask.length = (traces d.trace).bytes := by
  have flagged : d.flags ≠ 0 := by rw [unset]; decide
  have bytes := suits.bytes.resolve_right (fun string => flagged string.2)
  rw [← bytes]
  unfold Dump.flags Dump.mask at *
  cases payload : d.payload with
  | unset n => simp [Payload.bytes]
  | data value => simp [payload] at unset

theorem maskEmpty (set : d.flags ≠ 1) : d.mask = [] := by
  unfold Dump.flags Dump.mask at *
  cases payload : d.payload with
  | unset n => simp [payload] at set
  | data value => rfl

theorem valueLength (d : Dump) : d.value.length = d.payload.bytes := by
  unfold Dump.value Payload.bytes
  cases d.payload <;> simp

theorem unpackLayout (suits : Suits traces d) (held : Holds buf offset d.layout)
    (inside : offset + d.size ≤ traceEventBufferSize) : unpackOne traces buf offset = some (d.event, offset + d.size, false) := by
  have total := layoutLength d
  unfold Dump.layout at held total
  simp only [Cells.holdsAppend, Bytes.wordBytesLength, List.length_singleton] at held
  obtain ⟨trace, flags, mask, timestamp, size, value⟩ := held
  unfold Holds at trace mask timestamp size value
  rw [Bytes.wordBytesLength] at trace timestamp
  have pointer : wordOf 64 (bytesFrom buf offset 8) = d.trace.val := by
    rw [trace, Bytes.wordOfBytes _ _ d.trace.val.isLt]
  have flag : buf (offset + 8) = d.flags := by
    have entry := Cells.holdsIff.mp flags 0 (by simp)
    simpa using entry
  have masked : (if d.flags = 1 then bytesFrom buf (offset + 8 + 1) (traces d.trace).bytes else []) = d.mask := by
    split_ifs with unset
    · rw [← maskLength suits unset]
      exact mask
    · exact (maskEmpty unset).symm
  have stamp : wordOf 64 (bytesFrom buf (offset + 8 + 1 + d.mask.length) 8) = d.timestamp := by
    rw [timestamp, Bytes.wordOfBytes _ _ d.timestamp.isLt]
  have small : d.payload.bytes < 2 ^ 32 := by
    have bound := suits.fits
    have length := valueLength d
    rw [← total] at bound
    simp only [List.length_append, traceEventBufferSize] at bound
    omega
  unfold unpackOne
  simp only [pointer, flag, masked, stamp]
  rw [if_neg d.trace.property]
  rw [← valueLength] at small
  simp only [List.length_append, Bytes.wordBytesLength, List.length_singleton] at total
  cases string : (traces d.trace).isString with
  | true =>
      rw [suits.sized, string, if_pos rfl] at size value total
      rw [Bytes.wordBytesLength] at size value total
      have length : (wordOf 32 (bytesFrom buf (offset + 8 + 1 + d.mask.length + 8) 4)).toNat = d.value.length := by
        rw [size, Bytes.wordOfBytes (BitVec.ofNat 32 d.payload.bytes) 4 (BitVec.isLt _), BitVec.toNat_ofNat, ← valueLength,
          Nat.mod_eq_of_lt small]
      simp only [if_true, length, value, Dump.event, Option.some.injEq, Prod.mk.injEq, decide_eq_false_iff_not, true_and]
      omega
  | false =>
      have bytes := suits.bytes.resolve_right (by simp [string])
      rw [suits.sized, string, if_neg (by simp)] at value total
      rw [List.length_nil, Nat.add_zero] at value
      rw [List.length_nil] at total
      rw [← valueLength] at bytes
      simp only [Bool.false_eq_true, if_false, ← bytes, value, Dump.event, Option.some.injEq, Prod.mk.injEq,
        decide_eq_false_iff_not, true_and]
      omega

end Record

section Buffers

variable {traces : Traces} {buf : Buffer} {d : Dump} {ds : List Dump} {size offset : Nat}

structure Packed (traces : Traces) (buf : Buffer) (ds : List Dump) (size : Nat) : Prop where
  held : Holds buf 0 (ds.flatMap Dump.layout)
  counted : size = (ds.flatMap Dump.layout).length
  fits : size ≤ traceEventBufferSize
  suits : ∀ d ∈ ds, Suits traces d

/- Where the dumper thread stops: too near to the end for a trace, or at the marker. -/
def Terminated (buf : Buffer) (size : Nat) : Prop := traceEventBufferSize ≤ size + 8 ∨ Holds buf size nullTrace

def Closed (traces : Traces) (buf : Buffer) (ds : List Dump) : Prop := ∃ size, Packed traces buf ds size ∧ Terminated buf size

theorem recordBound (d : Dump) : 17 ≤ d.size := by
  obtain ⟨p, timestamp, payload, includeSize⟩ := d
  cases payload <;> cases includeSize <;> simp [Dump.size] <;> omega

theorem layoutsBound (ds : List Dump) : 17 * ds.length ≤ (ds.flatMap Dump.layout).length := by
  induction ds with
  | nil => simp
  | cons d rest ih =>
      have bound := recordBound d
      simp only [List.flatMap_cons, List.length_append, List.length_cons, layoutLength]
      omega

theorem unpackRecords (fuel : Nat) (held : Holds buf offset (ds.flatMap Dump.layout))
    (inside : offset + (ds.flatMap Dump.layout).length ≤ traceEventBufferSize) (suits : ∀ d ∈ ds, Suits traces d)
    (terminated : Terminated buf (offset + (ds.flatMap Dump.layout).length)) (enough : ds.length < fuel) :
    unpackLoop traces buf fuel offset = (ds.map Dump.event, false) := by
  induction ds generalizing offset fuel with
  | nil =>
      obtain ⟨fuel, rfl⟩ : ∃ f, fuel = f + 1 := ⟨fuel - 1, by omega⟩
      simp only [List.flatMap_nil, List.length_nil, Nat.add_zero] at terminated
      unfold unpackLoop
      split
      · rename_i early
        have marker := terminated.resolve_left (by omega)
        have null : wordOf 64 (bytesFrom buf offset 8) = 0 := by
          have bytes : bytesFrom buf offset 8 = nullTrace := marker
          rw [bytes]
          decide
        simp [unpackOne, null]
      · rfl
  | cons d rest ih =>
      obtain ⟨fuel, rfl⟩ : ∃ f, fuel = f + 1 := ⟨fuel - 1, by omega⟩
      have bound := recordBound d
      rw [List.flatMap_cons] at held inside terminated
      rw [List.length_append, layoutLength] at inside terminated
      rw [Cells.holdsAppend, layoutLength] at held
      rw [← Nat.add_assoc] at terminated
      have later := ih fuel held.2 (by omega) (fun d member => suits d (by simp [member])) terminated
        (by simp only [List.length_cons] at enough; omega)
      unfold unpackLoop
      rw [if_pos (by omega), unpackLayout (suits d (by simp)) held.1 (by omega)]
      simp [later]

theorem unpackClosed (closed : Closed traces buf ds) : unpack traces buf = (ds.map Dump.event, false) := by
  obtain ⟨size, packed, terminated⟩ := closed
  have fits := packed.fits
  have bound := layoutsBound ds
  rw [packed.counted] at terminated fits
  refine unpackRecords _ packed.held (by omega) packed.suits (by rwa [Nat.zero_add]) ?_
  unfold traceEventBufferSize at fits ⊢
  omega

theorem packedRecord (packed : Packed traces buf ds size) (suits : Suits traces d)
    (room : size + d.size ≤ traceEventBufferSize) :
    Packed traces (Cells.write buf size d.layout) (ds ++ [d]) (size + d.size) := by
  have joined : (ds ++ [d]).flatMap Dump.layout = ds.flatMap Dump.layout ++ d.layout := by simp
  have start : 0 + (ds.flatMap Dump.layout).length = size := by rw [Nat.zero_add, packed.counted]
  refine ⟨?_, ?_, room, ?_⟩
  · rw [joined, Cells.holdsAppend, start]
    exact ⟨Cells.holdsBefore (by omega) packed.held, Cells.holdsWrite⟩
  · rw [joined, List.length_append, layoutLength, ← packed.counted]
  · intro e member
    rcases List.mem_append.mp member with old | new
    · exact packed.suits e old
    · rw [List.mem_singleton.mp new]
      exact suits

theorem packedMarker (packed : Packed traces buf ds size) : Closed traces (Cells.write buf size nullTrace) ds := by
  have start : 0 + (ds.flatMap Dump.layout).length = size := by rw [Nat.zero_add, packed.counted]
  exact ⟨size, ⟨Cells.holdsBefore (by omega) packed.held, packed.counted, packed.fits, packed.suits⟩, .inr Cells.holdsWrite⟩

theorem packedEmpty (buf : Buffer) : Packed traces buf [] 0 := ⟨rfl, rfl, by simp, by simp⟩

end Buffers

structure Contents where
  current : List Dump
  ready : List (List Dump)
  reading : List Dump

def Contents.pending (c : Contents) (waiting : Option Dump) : List Dump :=
  c.reading ++ (c.ready.flatten ++ (c.current ++ waiting.toList))

structure Kept (traces : Traces) (s : State) (c : Contents) : Prop where
  inside : s.outside = false
  current : ∀ buf, s.currentBuffer = some buf → Packed traces buf c.current s.currentBufferSize
  absent : s.currentBuffer = none → c.current = []
  ready : List.Forall₂ (Closed traces) s.readyEventBuffers c.ready
  reading : ∀ buf, s.unpacking = some buf → Closed traces buf c.reading
  idle : s.unpacking = none → c.reading = []
  waiting : ∀ d, s.waiting = some d → Suits traces d ∧ s.currentBuffer = none
  order : s.dumped = s.decoded ++ (c.pending s.waiting).map Dump.event
  buffers : s.eventBuffers.length + s.readyEventBuffers.length + s.unpacking.toList.length + s.currentBuffer.toList.length =
    traceEventNbBuffer

section Steps

variable {traces : Traces} {s next : State} {c : Contents} {d : Dump} {buf : Buffer}

theorem recordKept (kept : Kept traces s c) (free : s.waiting = none) (here : s.currentBuffer = some buf)
    (suits : Suits traces d) (room : s.currentBufferSize + d.size ≤ traceEventBufferSize) :
    Kept traces { s.record d with dumped := s.dumped ++ [d.event] } { c with current := c.current ++ [d] } := by
  have packed := packedRecord (kept.current buf here) suits room
  have recorded : s.record d = { s with currentBuffer := some (Cells.write buf s.currentBufferSize d.layout),
                                        currentBufferSize := s.currentBufferSize + d.size, outside := false } := by
    simp [State.record, here, put, kept.inside, room]
  rw [recorded]
  refine ⟨rfl, ?_, by simp, kept.ready, kept.reading, kept.idle, ?_, ?_, ?_⟩
  · intro buf' same
    cases same
    exact packed
  · intro d waits
    simp [free] at waits
  · simp [kept.order, Contents.pending, free]
  · simpa [here] using kept.buffers

/- The current buffer is handed over with its marker, or without where it has no room for one. -/
theorem handedKept {buf' : Buffer} (waits : Option Dump) (kept : Kept traces s c) (free : s.waiting = none)
    (here : s.currentBuffer = some buf) (closed : Closed traces buf' c.current)
    (suits : ∀ d, waits = some d → Suits traces d) :
    Kept traces { s with readyEventBuffers := s.readyEventBuffers ++ [buf'], currentBuffer := none, waiting := waits,
                         dumped := s.dumped ++ (waits.toList.map Dump.event) }
      { c with current := [], ready := c.ready ++ [c.current] } := by
  refine ⟨kept.inside, by simp, by simp, ?_, kept.reading, kept.idle, fun d same => ⟨suits d same, rfl⟩, ?_, ?_⟩
  · exact List.rel_append kept.ready (List.Forall₂.cons closed .nil)
  · simp [kept.order, Contents.pending, free]
  · have total := kept.buffers
    simp only [here, Option.toList_some, Option.toList_none, List.length_append, List.length_singleton, List.length_nil] at total ⊢
    omega

theorem dumpKept (kept : Kept traces s c) (free : s.waiting = none) (suits : s.globalEnable = true → Suits traces d) :
    ∃ c', Kept traces (s.dumpEventToBuffer d) c' := by
  unfold State.dumpEventToBuffer
  split
  · rename_i enabled
    have fine := suits enabled
    cases here : s.currentBuffer with
    | none =>
        refine ⟨c, ?_⟩
        simp only [Option.isNone_none, true_or, if_true, State.retire]
        refine ⟨kept.inside, by simp, fun _ => kept.absent here, kept.ready, kept.reading, kept.idle, ?_, ?_,
          by simpa [here] using kept.buffers⟩
        · intro d' same
          cases same
          exact ⟨fine, rfl⟩
        · simp [kept.order, Contents.pending, free]
    | some buf =>
        have packed := kept.current buf here
        have fits := packed.fits
        have handed (buf' : Buffer) (closed : Closed traces buf' c.current) :=
          handedKept (some d) kept free here closed (fun d' same => by cases same; exact fine)
        simp only [Option.isNone_some, Bool.false_eq_true, false_or]
        split
        · refine ⟨{ c with current := [], ready := c.ready ++ [c.current] }, ?_⟩
          simp only [State.retire]
          split
          · rename_i room
            have inside : decide (traceEventBufferSize < s.currentBufferSize + nullTrace.length) = false := by
              simp only [nullTrace, List.length_replicate, decide_eq_false_iff_not]
              omega
            simp only [put, inside, Bool.or_false]
            exact handed _ (packedMarker packed)
          · exact handed _ ⟨_, packed, .inl (by omega)⟩
        · rename_i room
          refine ⟨{ c with current := c.current ++ [d] }, ?_⟩
          have recorded := recordKept kept free here fine (by omega)
          simpa [State.record, here] using recorded
  · exact ⟨c, kept⟩

theorem flushKept (kept : Kept traces s c) (free : s.waiting = none)
    (room : s.currentBuffer.isSome = true → s.currentBufferSize ≠ 0 → s.currentBufferSize + 8 ≤ traceEventBufferSize) :
    ∃ c', Kept traces s.flush c' := by
  unfold State.flush
  split
  · rename_i some
    cases here : s.currentBuffer with
    | none => exact ⟨c, kept⟩
    | some buf =>
        have small := room (by simp [here]) some
        have inside : decide (traceEventBufferSize < s.currentBufferSize + nullTrace.length) = false := by
          simp only [nullTrace, List.length_replicate, decide_eq_false_iff_not]
          omega
        refine ⟨{ c with current := [], ready := c.ready ++ [c.current] }, ?_⟩
        have handed := handedKept none kept free here (packedMarker (kept.current buf here)) (by simp)
        simpa [put, inside, free] using handed
  · exact ⟨c, kept⟩

theorem acquireKept {rest : List Buffer} (kept : Kept traces s c) (waits : s.waiting = some d)
    (found : s.eventBuffers = buf :: rest) :
    ∃ c', Kept traces ({ s with currentBuffer := some buf, eventBuffers := rest, currentBufferSize := 0, waiting := none }.record d) c' := by
  obtain ⟨suits, absent⟩ := kept.waiting d waits
  have empty := kept.absent absent
  have inside : decide (traceEventBufferSize < 0 + d.layout.length) = false := by
    have fits := suits.fits
    rw [layoutLength, decide_eq_false_iff_not]
    omega
  have packed := packedRecord (packedEmpty buf) suits (by simpa using suits.fits)
  refine ⟨{ c with current := [d] }, ?_⟩
  simp only [State.record, put, inside, Bool.or_false]
  refine ⟨kept.inside, ?_, by simp, kept.ready, kept.reading, kept.idle, by simp, ?_, ?_⟩
  · intro buf' same
    cases same
    exact packed
  · simp [kept.order, Contents.pending, waits, empty]
  · have total := kept.buffers
    simp only [absent, found, Option.toList_some, Option.toList_none, List.length_cons, List.length_nil] at total ⊢
    omega

theorem popKept {rest : List Buffer} (kept : Kept traces s c) (idle : s.unpacking = none)
    (found : s.readyEventBuffers = buf :: rest) :
    ∃ c', Kept traces { s with unpacking := some buf, readyEventBuffers := rest } c' := by
  have ready := kept.ready
  rw [found] at ready
  obtain ⟨first, others, closed, later, shape⟩ := List.forall₂_cons_left_iff.mp ready
  refine ⟨{ c with ready := others, reading := first }, kept.inside, kept.current, kept.absent, later, ?_, by simp,
    kept.waiting, ?_, ?_⟩
  · intro buf' same
    cases same
    exact closed
  · simp [kept.order, Contents.pending, kept.idle idle, shape]
  · have total := kept.buffers
    simp only [idle, found, Option.toList_some, Option.toList_none, List.length_cons, List.length_nil] at total ⊢
    omega

theorem unpackKept (kept : Kept traces s c) (busy : s.unpacking = some buf) :
    ∃ c', Kept traces { s with unpacking := none, eventBuffers := s.eventBuffers ++ [buf],
                               decoded := s.decoded ++ (unpack traces buf).1,
                               outside := s.outside || (unpack traces buf).2 } c' := by
  rw [unpackClosed (kept.reading buf busy)]
  refine ⟨{ c with reading := [] }, by simp [kept.inside], kept.current, kept.absent, kept.ready, by simp, by simp, kept.waiting, ?_, ?_⟩
  · simp [kept.order, Contents.pending]
  · have total := kept.buffers
    simp only [busy, Option.toList_some, Option.toList_none, List.length_append, List.length_singleton, List.length_nil] at total ⊢
    omega

end Steps

/- Where the two threads agree: a record goes to a trace of its kind and fits a buffer, and the buffer has room for the
marker when it is flushed. -/
def Orderly (traces : Traces) (s : State) : Action → Prop
  | .event p timestamp value => s.globalEnable = true →
      (traces p).isString = false ∧ (dumpEvent traces p timestamp value).size ≤ traceEventBufferSize
  | .eventReal p _ _ => s.globalEnable = true → (traces p).bytes = 8
  | .eventString p timestamp text => s.globalEnable = true →
      (traces p).isString = true ∧ (dumpEventString p timestamp text).size ≤ traceEventBufferSize
  | .flush => s.currentBuffer.isSome = true → s.currentBufferSize ≠ 0 → s.currentBufferSize + 8 ≤ traceEventBufferSize
  | _ => True

instance (traces : Traces) (s : State) (a : Action) : Decidable (Orderly traces s a) :=
  match a with
  | .event _ _ _ => inferInstanceAs (Decidable (_ → _))
  | .eventReal _ _ _ => inferInstanceAs (Decidable (_ → _))
  | .eventString _ _ _ => inferInstanceAs (Decidable (_ → _))
  | .flush => inferInstanceAs (Decidable (_ → _))
  | .setGlobalEnable _ => .isTrue trivial
  | .acquire => .isTrue trivial
  | .pop => .isTrue trivial
  | .unpack => .isTrue trivial

def Drains : Action → Prop
  | .acquire => True
  | .pop => True
  | .unpack => True
  | _ => False

instance (a : Action) : Decidable (Drains a) :=
  match a with
  | .acquire => .isTrue trivial
  | .pop => .isTrue trivial
  | .unpack => .isTrue trivial
  | .event _ _ _ => .isFalse id
  | .eventReal _ _ _ => .isFalse id
  | .eventString _ _ _ => .isFalse id
  | .setGlobalEnable _ => .isFalse id
  | .flush => .isFalse id

def State.toDo (s : State) : Nat :=
  2 * s.readyEventBuffers.length + s.unpacking.toList.length + s.waiting.toList.length

section Runs

variable {traces : Traces} {s next : State} {c : Contents} {a : Action} {d : Dump}

theorem eightBytes {kind : TraceKind} (eight : kind.bytes = 8) : kind.isString = false := by
  cases kind with
  | bits width => rfl
  | real => rfl
  | string => simp [TraceKind.bytes] at eight

theorem dumpSuits (allowed : Orderly traces s a) (made : a.dump traces = some d) (enabled : s.globalEnable = true) :
    Suits traces d := by
  cases a with
  | event p timestamp value =>
      cases made
      obtain ⟨plain, fits⟩ := allowed enabled
      refine ⟨plain.symm, .inl ?_, fits⟩
      cases value <;> simp [dumpEvent, Payload.bytes, bytesFrom]
  | eventReal p timestamp value =>
      cases made
      have eight : (traces p).bytes = 8 := allowed enabled
      refine ⟨(eightBytes eight).symm, .inl ?_, ?_⟩
      · simp [dumpEventReal, Payload.bytes, eight]
      · simp [dumpEventReal, Dump.size, Payload.bytes, traceEventBufferSize]
  | eventString p timestamp text =>
      cases made
      obtain ⟨string, fits⟩ := allowed enabled
      exact ⟨string.symm, .inr ⟨string, rfl⟩, fits⟩
  | setGlobalEnable enable => simp [Action.dump] at made
  | flush => simp [Action.dump] at made
  | acquire => simp [Action.dump] at made
  | pop => simp [Action.dump] at made
  | unpack => simp [Action.dump] at made

theorem callKept (kept : Kept traces s c) (allowed : Orderly traces s a)
    (taken : (if s.waiting.isNone then (a.dump traces).map s.dumpEventToBuffer else none) = some next) :
    ∃ c', Kept traces next c' := by
  split at taken
  · rename_i free
    obtain ⟨d, made, rfl⟩ := Option.map_eq_some_iff.mp taken
    exact dumpKept kept (Option.isNone_iff_eq_none.mp free) (dumpSuits allowed made)
  · contradiction

theorem stepKept (kept : Kept traces s c) (allowed : Orderly traces s a) (taken : step traces s a = some next) :
    ∃ c', Kept traces next c' := by
  cases a with
  | event p timestamp value => exact callKept kept allowed taken
  | eventReal p timestamp value => exact callKept kept allowed taken
  | eventString p timestamp text => exact callKept kept allowed taken
  | setGlobalEnable enable =>
      simp only [step] at taken
      split at taken
      · cases taken
        exact ⟨c, kept.inside, kept.current, kept.absent, kept.ready, kept.reading, kept.idle, kept.waiting, kept.order,
          kept.buffers⟩
      · contradiction
  | flush =>
      simp only [step] at taken
      split at taken
      · rename_i free
        cases taken
        exact flushKept kept (Option.isNone_iff_eq_none.mp free) allowed
      · contradiction
  | acquire =>
      simp only [step] at taken
      split at taken
      · rename_i waits found
        cases taken
        exact acquireKept kept waits found
      · contradiction
  | pop =>
      simp only [step] at taken
      split at taken
      · rename_i idle found
        cases taken
        exact popKept kept idle found
      · contradiction
  | unpack =>
      simp only [step] at taken
      split at taken
      · rename_i busy
        cases taken
        exact unpackKept kept busy
      · contradiction

theorem drainStep (drains : Drains a) (taken : step traces s a = some next) :
    next.dumped = s.dumped ∧ next.toDo + 1 = s.toDo := by
  unfold State.toDo
  cases a with
  | acquire =>
      simp only [step] at taken
      split at taken
      · rename_i waits found
        cases taken
        simp [State.record, waits]
      · contradiction
  | pop =>
      simp only [step] at taken
      split at taken
      · rename_i idle found
        cases taken
        simp only [idle, found, Option.toList_some, Option.toList_none, List.length_cons, List.length_nil, true_and]
        omega
      · contradiction
  | unpack =>
      simp only [step] at taken
      split at taken
      · rename_i busy
        cases taken
        simp only [busy, Option.toList_some, Option.toList_none, List.length_singleton, List.length_nil, true_and]
        omega
      · contradiction
  | event p timestamp value => exact drains.elim
  | eventReal p timestamp value => exact drains.elim
  | eventString p timestamp text => exact drains.elim
  | setGlobalEnable enable => exact drains.elim
  | flush => exact drains.elim

theorem drained (kept : Kept traces s c) (stopped : ∀ a, Drains a → step traces s a = none)
    (flushed : s.currentBuffer = none ∨ s.currentBufferSize = 0) : s.decoded = s.dumped := by
  have acquire := stopped .acquire trivial
  have pop := stopped .pop trivial
  have unpacks := stopped .unpack trivial
  simp only [step] at acquire pop unpacks
  have idle : s.unpacking = none := by
    cases busy : s.unpacking with
    | none => rfl
    | some buf => simp [busy] at unpacks
  have none : s.readyEventBuffers = [] := by
    cases found : s.readyEventBuffers with
    | nil => rfl
    | cons buf rest => simp [idle, found] at pop
  have free : s.waiting = Option.none := by
    cases waits : s.waiting with
    | none => rfl
    | some d =>
        obtain ⟨-, absent⟩ := kept.waiting d waits
        have total := kept.buffers
        cases found : s.eventBuffers with
        | nil => simp [found, none, idle, absent, traceEventNbBuffer] at total
        | cons buf rest => simp [waits, found] at acquire
  have ready : c.ready = [] := by
    have pairs := kept.ready
    rw [none] at pairs
    exact List.forall₂_nil_left_iff.mp pairs
  have current : c.current = [] := by
    cases here : s.currentBuffer with
    | none => exact kept.absent here
    | some buf =>
        have zero := flushed.resolve_left (by simp [here])
        have packed := kept.current buf here
        have bound := layoutsBound c.current
        have counted := packed.counted
        exact List.eq_nil_of_length_eq_zero (by omega)
  simp [kept.order, Contents.pending, kept.idle idle, ready, current, free]

theorem initialKept (memory : Nat → Buffer) : Kept traces (State.initial memory) ⟨[], [], []⟩ := by
  refine ⟨rfl, fun buf _ => packedEmpty buf, fun _ => rfl, .nil, by simp [State.initial], fun _ => rfl, by simp [State.initial], rfl, ?_⟩
  simp [State.initial, traceEventNbBuffer]

theorem eventsRoundTrip {memory : Nat → Buffer} {trace : List (Action × State)} {mid : State}
    (run : Run (step traces) (Orderly traces) (State.initial memory) trace mid) :
    mid.outside = false ∧ (∃ pending, mid.dumped = mid.decoded ++ pending) ∧
      ∀ drain last, Run (step traces) (fun s a => Orderly traces s a ∧ Drains a) mid drain last →
        last.outside = false ∧ drain.length ≤ mid.toDo ∧
        ((∀ a, Drains a → step traces last a = none) → last.currentBuffer = none ∨ last.currentBufferSize = 0 →
          last.decoded = mid.dumped) := by
  obtain ⟨c, kept⟩ := Machine.runInvariant (P := fun s => ∃ c, Kept traces s c) run ⟨_, initialKept memory⟩
    (fun _ _ _ kept allowed taken => stepKept kept.choose_spec allowed taken)
  refine ⟨kept.inside, ⟨_, kept.order⟩, fun drain last drains => ?_⟩
  have along : (∃ c, Kept traces last c) ∧ last.dumped = mid.dumped ∧ drain.length + last.toDo = mid.toDo := by
    induction drains with
    | nil => exact ⟨⟨c, kept⟩, rfl, by simp⟩
    | snoc before allowed taken ih =>
        obtain ⟨⟨c', kept'⟩, same, steps⟩ := ih
        obtain ⟨same', less⟩ := drainStep allowed.2 taken
        refine ⟨stepKept kept' allowed.1 taken, same'.trans same, ?_⟩
        rw [List.length_append, List.length_singleton]
        omega
  obtain ⟨⟨c', kept'⟩, same, steps⟩ := along
  refine ⟨kept'.inside, by omega, fun stopped flushed => ?_⟩
  rw [drained kept' stopped flushed, same]

def threeTraces : Traces := fun p => if p = 1 then .bits 12 else if p = 2 then .real else .string

def tracePtr (p : BitVec 64) (valid : p ≠ 0) : TracePtr := ⟨p, valid⟩

def fourRecords : List Action :=
  [.event (tracePtr 1 oneValid) 5 (some (fun i => BitVec.ofNat 8 (i + 0xa))),
    .eventReal (tracePtr 2 twoValid) 5 0x3ff0000000000000, .eventString (tracePtr 3 threeValid) 6 [0x68, 0x69],
    .event (tracePtr 1 oneValid) 7 none, .flush]

def afterFour : State := Machine.reach (step threeTraces) (Orderly threeTraces) (State.initial (fun _ _ => 0xcc)) fourRecords

def afterDrain : State := Machine.reach (step threeTraces) (fun s a => Orderly threeTraces s a ∧ Drains a) afterFour [.pop, .unpack]

theorem eventsRoundTripFour :
    afterFour.outside = false ∧ afterDrain.outside = false ∧ afterDrain.decoded = afterFour.dumped ∧
      afterFour.dumped.map Event.value = [[0xa, 0xb], [0, 0, 0, 0, 0, 0, 0xf0, 0x3f], [0x68, 0x69, 0], [0, 0]] := by
  obtain ⟨trace, run, -⟩ := Machine.reachRun (step threeTraces) (Orderly threeTraces) (State.initial (fun _ _ => 0xcc)) fourRecords
    (by decide +kernel)
  obtain ⟨drain, drains, -⟩ := Machine.reachRun (step threeTraces) (fun s a => Orderly threeTraces s a ∧ Drains a) afterFour
    [.pop, .unpack] (by decide +kernel)
  obtain ⟨inside, -, later⟩ := eventsRoundTrip run
  obtain ⟨inside', -, finished⟩ := later drain afterDrain drains
  have stopped (a : Action) (drain : Drains a) : step threeTraces afterDrain a = none := by
    cases a with
    | acquire => exact Option.isNone_iff_eq_none.mp (by decide +kernel)
    | pop => exact Option.isNone_iff_eq_none.mp (by decide +kernel)
    | unpack => exact Option.isNone_iff_eq_none.mp (by decide +kernel)
    | event p timestamp value => exact drain.elim
    | eventReal p timestamp value => exact drain.elim
    | eventString p timestamp text => exact drain.elim
    | setGlobalEnable enable => exact drain.elim
    | flush => exact drain.elim
  exact ⟨inside, inside', finished stopped (.inl (Option.isNone_iff_eq_none.mp (by decide +kernel))), by decide +kernel⟩

/- `flush` writes its marker wherever the buffer ends. -/
theorem flushOutside {buf : Buffer} (here : s.currentBuffer = some buf) (some : s.currentBufferSize ≠ 0)
    (late : traceEventBufferSize < s.currentBufferSize + 8) : s.flush.outside = true := by
  have leaves : decide (traceEventBufferSize < s.currentBufferSize + nullTrace.length) = true := by
    simpa [nullTrace] using late
  simp [State.flush, some, here, put, leaves]

def wideTrace : Traces := fun _ => .bits (8 * 32757)

def wideThenFlush : List Action := [.event (tracePtr 1 oneValid) 0 none, .flush]

def afterWide : State :=
  (State.initial (fun _ _ => 0)).dumpEventToBuffer (dumpEvent wideTrace (tracePtr 1 oneValid) 0 none)

theorem markerOutside :
    ∃ trace last, Run (step wideTrace) anyStep (State.initial (fun _ _ => 0)) trace last ∧
      trace.map Prod.fst = wideThenFlush ∧ last.outside = true := by
  have wide : step wideTrace (State.initial (fun _ _ => 0)) (.event (tracePtr 1 oneValid) 0 none) = some afterWide := rfl
  have flushed : step wideTrace afterWide .flush = some afterWide.flush := by
    simp only [step]
    exact if_pos (by decide +kernel)
  obtain ⟨buf, here⟩ : ∃ buf, afterWide.currentBuffer = some buf := Option.isSome_iff_exists.mp (by decide +kernel)
  exact ⟨_, _, .snoc (.snoc (.nil _) trivial wide) trivial flushed, rfl, flushOutside here (by decide +kernel) (by decide +kernel)⟩

end Runs

end Gvsoc.Tracing
