import Gvsoc.PerfCounters

/-! What a performance counter reads after it was written: the value and what has been counted since. -/
namespace Gvsoc.PerfCounters

section Accounts

variable (s : Csr) (i : Nat)

def Csr.eventAccounted (event : Nat) (incr : Word) : Word :=
  if event = i ∧ enabled s.pcer s.pcmr i = true then incr else 0#32

def Csr.countAccounted (id : Nat) (incr : Word) : Word :=
  if id = i ∧ pcerNbInternalEvents ≤ i ∧ s.bound i = true ∧ s.counting s.pcer s.pcmr i = true then incr else 0#32

def Csr.cyclesAccounted (cycles : Int) : Word :=
  if 0 ≤ cycles then s.eventAccounted i 0 (BitVec.ofInt 32 cycles) else 0#32

def Csr.accounted : Action → Word
  | .account event incr => s.eventAccounted i event incr
  | .count id incr => s.countAccounted i id incr
  | .cycles cycles => s.cyclesAccounted i cycles
  | _ => 0#32

end Accounts

def Leaves (i : Nat) : Action → Prop
  | .write reg _ => reg ≠ csrPccr i ∧ reg ≠ csrPccr nbPccr
  | _ => True

def Csr.configured (s : Csr) (reg : Nat) (value : Word) : Word × Word :=
  if reg = csrPcer then (value &&& 0x7fffffff, s.pcmr) else if reg = csrPcmr then (s.pcer, value) else (s.pcer, s.pcmr)

/- A change of the configuration brings the events up to date that have an external number, and not those behind them. -/
def Keeps (i : Nat) (s : Csr) : Action → Prop
  | .write reg value => i < pcerNbEvents ∨ s.pending i = 0#32 ∨
      s.counting (s.configured reg value).1 (s.configured reg value).2 i = s.counting s.pcer s.pcmr i
  | _ => True

section Steps

variable {i : Nat} {s : Csr}

theorem addedValue (incr : Word) :
    ({ s with pccr := Function.update s.pccr i (s.pccr i + incr) } : Csr).value i = s.value i + incr := by
  unfold Csr.value
  by_cases internal : i < pcerNbInternalEvents
  · rw [if_pos internal, if_pos internal]
    exact Function.update_self ..
  · rw [if_neg internal, if_neg internal]
    change Function.update s.pccr i (s.pccr i + incr) i + (if s.counting s.pcer s.pcmr i then s.pending i else 0#32) = _
    rw [Function.update_self, BitVec.add_assoc, BitVec.add_assoc, BitVec.add_comm incr]

theorem eventOff {event : Nat} {incr : Word} (off : ¬(event = i ∧ enabled s.pcer s.pcmr i = true)) :
    s.eventAccounted i event incr = 0#32 :=
  if_neg off

theorem countOff {id : Nat} {incr : Word}
    (off : ¬(id = i ∧ pcerNbInternalEvents ≤ i ∧ s.bound i = true ∧ s.counting s.pcer s.pcmr i = true)) :
    s.countAccounted i id incr = 0#32 :=
  if_neg off

theorem accountValue (event : Nat) (incr : Word) :
    (s.issPccrAccountEvent event incr).value i = s.value i + s.eventAccounted i event incr := by
  unfold Csr.issPccrAccountEvent
  by_cases own : event = i
  · subst own
    by_cases on : enabled s.pcer s.pcmr event = true
    · rw [if_pos on, addedValue, Csr.eventAccounted, if_pos ⟨rfl, on⟩]
    · rw [if_neg on, eventOff fun both => on both.2, BitVec.add_zero]
  · rw [eventOff fun both => own both.1, BitVec.add_zero]
    split_ifs
    · exact sameValue (setOther s _ (Ne.symm own))
    · rfl

theorem outsideValue (incr : Word) (wired : s.bound i = true) :
    ({ s with ext := Function.update s.ext i (s.ext i + incr) } : Csr).value i = s.value i + s.countAccounted i i incr := by
  have outside : ({ s with ext := Function.update s.ext i (s.ext i + incr) } : Csr).pending i = s.pending i + incr := by
    simp [Csr.pending, wired]
  unfold Csr.value
  by_cases internal : i < pcerNbInternalEvents
  · rw [if_pos internal, if_pos internal, countOff fun all => Nat.not_lt.mpr all.2.1 internal, BitVec.add_zero]
  · rw [if_neg internal, if_neg internal, outside]
    change s.pccr i + (if s.counting s.pcer s.pcmr i then s.pending i + incr else 0#32) = _
    by_cases counts : s.counting s.pcer s.pcmr i = true
    · have all := (⟨rfl, Nat.not_lt.mp internal, wired, counts⟩ : i = i ∧ _ ∧ _ ∧ _)
      rw [if_pos counts, if_pos counts, Csr.countAccounted, if_pos all, BitVec.add_assoc]
    · rw [if_neg counts, if_neg counts, countOff fun all => counts all.2.2.2, BitVec.add_zero, BitVec.add_zero]

theorem countValue (id : Nat) (incr : Word) : (s.countOutside id incr).value i = s.value i + s.countAccounted i id incr := by
  unfold Csr.countOutside
  by_cases own : id = i
  · subst own
    by_cases wired : s.bound id = true
    · rw [if_pos wired, outsideValue incr wired]
    · rw [if_neg wired, countOff fun all => wired all.2.2.1, BitVec.add_zero]
  · rw [countOff fun all => own all.1, BitVec.add_zero]
    split_ifs
    · exact sameValue ⟨rfl, Function.update_of_ne (Ne.symm own) _ _, rfl, rfl, rfl, rfl⟩
    · rfl

theorem tracedValue (s : Csr) : ((List.range' pcerNbInternalEvents 6).foldl Csr.updateTraced s).value i = s.value i := by
  by_cases member : i ∈ List.range' pcerNbInternalEvents 6
  · obtain ⟨t, before, after⟩ := loopOwn tracedLocal List.nodup_range' member s
    rw [sameValue after, ← sameValue before]
    unfold Csr.updateTraced
    split_ifs
    · exact foldedKeeps (updateOwn i t t.pcer t.pcmr) (List.mem_range'_1.mp member).1
    · rfl
  · exact sameValue (loopOther tracedLocal member s)

theorem cyclesValue (cycles : Int) : (s.issExecAccountCycles cycles).value i = s.value i + s.cyclesAccounted i cycles := by
  unfold Csr.issExecAccountCycles Csr.cyclesAccounted
  rw [tracedValue]
  split_ifs
  · exact accountValue 0 _
  · exact (BitVec.add_zero _).symm

theorem readKeeps (reg : Nat) : (s.perfCountersRead reg).1.value i = s.value i := by
  unfold Csr.perfCountersRead
  split_ifs with external
  · change (s.updateExternalPccr (reg - csrPccr 0) s.pcer s.pcmr).value i = s.value i
    by_cases own : i = reg - csrPccr 0
    · rw [← own]
      refine foldedKeeps (updateOwn i s s.pcer s.pcmr) ?_
      unfold csrPccr at external own
      omega
    · exact sameValue (updateOther s _ _ own)
  · rfl
  · rfl
  · rfl

theorem gateSame (a p : Word) (first second : Bool) :
    (a + if second then p else 0#32) = (a + if first then p else 0#32) ↔ p = 0#32 ∨ second = first := by
  rw [BitVec.add_right_inj]
  cases first with
  | false =>
      cases second with
      | false => exact iff_of_true rfl (.inr rfl)
      | true => exact ⟨.inl, fun none => none.resolve_right Bool.noConfusion⟩
  | true =>
      cases second with
      | false => exact ⟨fun none => .inl none.symm, fun none => (none.resolve_right Bool.noConfusion).symm⟩
      | true => exact iff_of_true rfl (.inr rfl)

theorem configValue (pcer pcmr : Word) :
    (({ s with pcer := pcer, pcmr := pcmr } : Csr).checkPerfConfigChange s.pcer s.pcmr).value i = s.value i ↔
      i < pcerNbEvents ∨ s.pending i = 0#32 ∨ s.counting pcer pcmr i = s.counting s.pcer s.pcmr i := by
  by_cases internal : i < pcerNbInternalEvents
  · refine iff_of_true ?_ (.inl (Nat.lt_trans internal (by decide)))
    rw [sameValue (checkOther _ _ _ fun external => Nat.not_lt.mpr external.1 internal)]
    unfold Csr.value
    rw [if_pos internal, if_pos internal]
  · by_cases external : i < pcerNbEvents
    · refine iff_of_true ?_ (.inl external)
      have folded := checkOwn ({ s with pcer := pcer, pcmr := pcmr } : Csr) s.pcer s.pcmr ⟨Nat.not_lt.mp internal, external⟩
      rw [foldedValue folded (Nat.not_lt.mp internal)]
      unfold Csr.value
      rw [if_neg internal]
      rfl
    · rw [sameValue (checkOther _ _ _ fun both => external both.2), or_iff_right external, ← gateSame (s.pccr i)]
      unfold Csr.value
      rw [if_neg internal, if_neg internal]
      rfl

theorem isPerfIff (reg : Nat) :
    Csr.isPerf reg = true ↔ (csrPccr 0 ≤ reg ∧ reg ≤ csrPccr nbPccr) ∨ reg = csrPcer ∨ reg = csrPcmr := by
  unfold Csr.isPerf
  rw [Bool.or_eq_true, Bool.or_eq_true, Bool.and_eq_true, decide_eq_true_iff, decide_eq_true_iff, beq_iff_eq, beq_iff_eq,
    or_assoc]

theorem pccrPlace {reg : Nat} (counter : csrPccr 0 ≤ reg) : csrPccr (reg - csrPccr 0) = reg := Nat.add_sub_cancel' counter

theorem writeValue (reg : Nat) (value : Word) (perf : Csr.isPerf reg = true) (own : reg ≠ csrPccr i) (all : reg ≠ csrPccr nbPccr) :
    (s.perfCountersWrite reg value).value i = s.value i ↔ i < pcerNbEvents ∨ s.pending i = 0#32 ∨
      s.counting (s.configured reg value).1 (s.configured reg value).2 i = s.counting s.pcer s.pcmr i := by
  unfold Csr.perfCountersWrite Csr.configured
  by_cases pcer : reg = csrPcer
  · rw [if_pos pcer, if_pos pcer]
    exact configValue _ _
  rw [if_neg pcer, if_neg pcer]
  by_cases pcmr : reg = csrPcmr
  · rw [if_pos pcmr, if_pos pcmr]
    exact configValue _ _
  rw [if_neg pcmr, if_neg pcmr]
  refine iff_of_true ?_ (.inr (.inr rfl))
  have counter : csrPccr 0 ≤ reg ∧ reg ≤ csrPccr nbPccr :=
    ((isPerfIff reg).mp perf).resolve_right fun either => either.elim pcer pcmr
  have other : i ≠ reg - csrPccr 0 := fun same => own (by rw [same, pccrPlace counter.1])
  rw [if_neg all]
  split_ifs
  · exact sameValue (updateOther s _ _ other)
  · exact sameValue (setOther s value other)

theorem stepValue (a : Action) (leaves : Leaves i a) :
    (step s a).value i = s.value i + s.accounted i a ↔ Keeps i s a := by
  cases a with
  | account event incr =>
      unfold step Csr.accounted
      exact iff_of_true (accountValue event incr) trivial
  | count id incr =>
      unfold step Csr.accounted
      exact iff_of_true (countValue id incr) trivial
  | cycles cycles =>
      unfold step Csr.accounted
      exact iff_of_true (cyclesValue cycles) trivial
  | read reg =>
      unfold step Csr.accounted
      dsimp only
      rw [BitVec.add_zero]
      refine iff_of_true ?_ trivial
      split_ifs
      · exact readKeeps reg
      · rfl
  | write reg value =>
      have apart : reg ≠ csrPccr i ∧ reg ≠ csrPccr nbPccr := leaves
      unfold step Csr.accounted Keeps
      dsimp only
      rw [BitVec.add_zero]
      by_cases perf : Csr.isPerf reg = true
      · rw [if_pos perf]
        exact writeValue reg value perf apart.1 apart.2
      · have config : reg ≠ csrPcer ∧ reg ≠ csrPcmr :=
          ⟨fun pcer => perf ((isPerfIff reg).mpr (.inr (.inl pcer))), fun pcmr => perf ((isPerfIff reg).mpr (.inr (.inr pcmr)))⟩
        rw [if_neg perf, Csr.configured, if_neg config.1, if_neg config.2]
        exact iff_of_true rfl (.inr (.inr rfl))

end Steps

section Law

variable {i : Nat}

def Csr.written (s : Csr) (i : Nat) (all : Bool) (value : Word) : Csr :=
  step s (.write (csrPccr (if all then nbPccr else i)) value)

/- A write of one external counter only adds what is pending. A write of all counters adds it behind the value, where the
event is traced, and leaves it pending behind the external numbers. -/
def Fresh (s : Csr) (i : Nat) (all : Bool) (value : Word) : Prop :=
  i < pcerNbInternalEvents ∨
    if all then s.pending i = 0#32 ∨ (if i < pcerNbEvents then s.issPccrTraceActive i else s.counting s.pcer s.pcmr i) = false
    else s.pccr i + (if s.counting s.pcer s.pcmr i then s.pending i else 0#32) = value

def run : Csr → List Action → Csr := List.foldl step

def total (i : Nat) : Csr → List Action → Word
  | _, [] => 0#32
  | s, a :: rest => s.accounted i a + total i (step s a) rest

def AllKeep (i : Nat) : Csr → List Action → Prop
  | _, [] => True
  | s, a :: rest => Keeps i s a ∧ AllKeep i (step s a) rest

theorem pccrApart (inside : i ≤ nbPccr) : csrPccr i ≠ csrPcer ∧ csrPccr i ≠ csrPcmr ∧ Csr.isPerf (csrPccr i) = true := by
  have perf := (isPerfIff (csrPccr i)).mpr (.inl ⟨Nat.add_le_add_left (Nat.zero_le i) _, Nat.add_le_add_left inside _⟩)
  refine ⟨?_, ?_, perf⟩
  · unfold csrPccr csrPcer
    unfold nbPccr at inside
    omega
  · unfold csrPccr csrPcmr
    unfold nbPccr at inside
    omega

theorem writtenOne {s : Csr} (inside : i < nbPccr) (value : Word) :
    s.written i false value =
      if i < pcerNbInternalEvents then { s with pccr := Function.update s.pccr i value }
      else s.updateExternalPccr i s.pcer s.pcmr := by
  obtain ⟨pcer, pcmr, perf⟩ := pccrApart inside.le
  have place : csrPccr i - csrPccr 0 = i := Nat.add_sub_cancel_left ..
  have below : csrPccr i < csrPccr nbPccr := Nat.add_lt_add_left inside _
  change (if Csr.isPerf (csrPccr i) = true then s.perfCountersWrite (csrPccr i) value else s) = _
  rw [if_pos perf, Csr.perfCountersWrite, if_neg pcer, if_neg pcmr, place]
  by_cases internal : i < pcerNbInternalEvents
  · have low : ¬(csrPccr pcerNbInternalEvents ≤ csrPccr i ∧ csrPccr i < csrPccr nbPccr) :=
      fun external => Nat.not_lt.mpr (Nat.le_of_add_le_add_left external.1) internal
    rw [if_neg low, if_neg below.ne, if_pos internal]
  · have high : csrPccr pcerNbInternalEvents ≤ csrPccr i ∧ csrPccr i < csrPccr nbPccr :=
      ⟨Nat.add_le_add_left (Nat.not_lt.mp internal) _, below⟩
    rw [if_pos high, if_neg internal]

theorem writtenAll (s : Csr) (value : Word) : s.written i true value = (List.range 31).foldl (fun s i => s.setOne value i) s := by
  obtain ⟨pcer, pcmr, perf⟩ := pccrApart (i := nbPccr) le_rfl
  have past : ¬(csrPccr pcerNbInternalEvents ≤ csrPccr nbPccr ∧ csrPccr nbPccr < csrPccr nbPccr) :=
    fun inside => Nat.lt_irrefl _ inside.2
  change (if Csr.isPerf (csrPccr nbPccr) = true then s.perfCountersWrite (csrPccr nbPccr) value else s) = _
  rw [if_pos perf, Csr.perfCountersWrite, if_neg pcer, if_neg pcmr, if_neg past, if_pos rfl]

theorem setValue (s : Csr) (value : Word) :
    (s.setOne value i).value i = value +
      if i < pcerNbInternalEvents then 0#32
      else if (if i < pcerNbEvents then s.issPccrTraceActive i else s.counting s.pcer s.pcmr i) then s.pending i else 0#32 := by
  have own : ({ s with pccr := Function.update s.pccr i value } : Csr).pccr i = value := Function.update_self ..
  unfold Csr.setOne
  by_cases internal : i < pcerNbInternalEvents
  · rw [if_neg fun external => Nat.not_lt.mpr external.1 internal, if_pos internal, BitVec.add_zero]
    unfold Csr.value
    rw [if_pos internal, own]
  · rw [if_neg internal]
    by_cases external : i < pcerNbEvents
    · have folded := updateOwn i ({ s with pccr := Function.update s.pccr i value } : Csr) 0 0
      rw [if_pos ⟨Nat.not_lt.mp internal, external⟩, if_pos external, foldedValue folded (Nat.not_lt.mp internal), own]
      have off : enabled 0 0 i = false := by simp [enabled]
      rw [Csr.counting, off, Bool.false_or]
      rfl
    · rw [if_neg fun both => external both.2, if_neg external]
      unfold Csr.value
      rw [if_neg internal, own]
      rfl

theorem writtenValue {s : Csr} (inside : i < nbPccr) (all : Bool) (value : Word) :
    (s.written i all value).value i = value ↔ Fresh s i all value := by
  cases all with
  | false =>
      rw [writtenOne inside]
      by_cases internal : i < pcerNbInternalEvents
      · rw [if_pos internal]
        refine iff_of_true ?_ (.inl internal)
        unfold Csr.value
        rw [if_pos internal]
        exact Function.update_self ..
      · rw [if_neg internal, foldedValue (updateOwn i s s.pcer s.pcmr) (Nat.not_lt.mp internal)]
        exact (or_iff_right internal).symm
  | true =>
      have member : i ∈ List.range 31 := List.mem_range.mpr inside
      obtain ⟨t, before, after⟩ := loopOwn (setLocal value) List.nodup_range member s
      have traced : t.issPccrTraceActive i = s.issPccrTraceActive i := by
        rw [Csr.issPccrTraceActive, Csr.issPccrTraceActive, before.bound, before.traced]
      rw [writtenAll, sameValue after, setValue, sameCounting before, samePending before, before.pcer, before.pcmr, traced]
      by_cases internal : i < pcerNbInternalEvents
      · rw [if_pos internal, BitVec.add_zero]
        exact iff_of_true rfl (.inl internal)
      · rw [if_neg internal, Fresh, or_iff_right internal, if_pos rfl]
        cases (if i < pcerNbEvents then s.issPccrTraceActive i else s.counting s.pcer s.pcmr i) with
        | false => exact iff_of_true (BitVec.add_zero _) (.inr rfl)
        | true =>
            rw [if_pos rfl, BitVec.add_right_eq_self]
            exact ⟨.inl, fun none => none.resolve_right Bool.noConfusion⟩

theorem runValue {s : Csr} {value : Word} (first : s.value i = value) {actions : List Action} (leaves : ∀ a ∈ actions, Leaves i a) :
    (∀ n, (run s (actions.take n)).value i = value + total i s (actions.take n)) ↔ AllKeep i s actions := by
  induction actions generalizing s value with
  | nil =>
      refine iff_of_true (fun n => ?_) trivial
      rw [List.take_nil]
      exact first.trans (BitVec.add_zero _).symm
  | cons a rest rec =>
      obtain ⟨head, later⟩ := List.forall_mem_cons.mp leaves
      have keeps := stepValue (s := s) a head
      rw [first] at keeps
      constructor
      · intro all
        have next : (step s a).value i = value + (s.accounted i a + 0#32) := all 1
        rw [BitVec.add_zero] at next
        refine ⟨keeps.mp next, (rec next later).mp fun n => ?_⟩
        rw [BitVec.add_assoc]
        exact all (n + 1)
      · rintro ⟨keep, rest⟩ n
        have next := keeps.mpr keep
        cases n with
        | zero => exact first.trans (BitVec.add_zero _).symm
        | succ n =>
            have tail := (rec next later).mpr rest n
            rw [BitVec.add_assoc] at tail
            exact tail

/- A read after the write of a counter, and after any number of actions behind it. -/
theorem writeReads (s : Csr) (inside : i < nbPccr) (all : Bool) (value : Word) {actions : List Action}
    (leaves : ∀ a ∈ actions, Leaves i a) :
    (∀ n, ((run (s.written i all value) (actions.take n)).perfCountersRead (csrPccr i)).2 =
        value + total i (s.written i all value) (actions.take n)) ↔
      Fresh s i all value ∧ AllKeep i (s.written i all value) actions := by
  simp only [readValue _ inside]
  constructor
  · intro reads
    have first : (s.written i all value).value i = value + 0#32 := reads 0
    rw [BitVec.add_zero] at first
    exact ⟨(writtenValue inside all value).mp first, (runValue first leaves).mp reads⟩
  · rintro ⟨fresh, keep⟩
    exact (runValue ((writtenValue inside all value).mpr fresh) leaves).mpr keep

def cleared : Csr :=
  { pccr := fun _ => 0, pcer := 0, pcmr := 0, ext := fun _ => 0, bound := fun _ => true, traced := fun _ => false }

def counted : List Action := [.write csrPcer 1, .write csrPcmr 1, .cycles 7, .count 11 4]

theorem writeReadsCycles :
    ((run (cleared.written 0 true 5) (counted.take 4)).perfCountersRead (csrPccr 0)).2 =
      5 + total 0 (cleared.written 0 true 5) (counted.take 4) :=
  (writeReads cleared (by decide) true 5 (by simp [counted, Leaves, csrPcer, csrPcmr, csrPccr, nbPccr])).mpr
    ⟨.inl (by decide), by simp [AllKeep, Keeps, counted, pcerNbEvents]⟩ 4

/- The value for the counter of an external event is dropped. -/
theorem writeDropped : ((cleared.written 11 false 5).perfCountersRead (csrPccr 11)).2 ≠ 5 := by
  decide

end Law

end Gvsoc.PerfCounters
