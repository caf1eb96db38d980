import Mathlib.Logic.Function.Basic
import Mathlib.Data.Nat.Bitwise

/-! The performance counters of a core and their CSRs. The counters of the external events are also kept outside, and a
counter is brought up to date from there when it is read. -/
namespace Gvsoc.PerfCounters

abbrev Word := BitVec 32

def pcerNbInternalEvents : Nat := 11

def pcerNbEvents : Nat := 17

def nbPccr : Nat := 31

def csrPccr (n : Nat) : Nat := 0x780 + n

def csrPcer : Nat := 0x7A0

def csrPcmr : Nat := 0x7A1

structure Csr where
  pccr : Nat → Word
  pcer : Word
  pcmr : Word
  ext : Nat → Word
  bound : Nat → Bool
  traced : Nat → Bool

def enabled (pcer pcmr : Word) (id : Nat) : Bool := pcer &&& (1#32 <<< id) ≠ 0 && pcmr &&& 1#32 ≠ 0

namespace Csr

variable (s : Csr)

def issPccrTraceActive (event : Nat) : Bool := s.traced event && s.bound event

/- A counter outside that is not bound gives nothing. -/
def pending (id : Nat) : Word := if s.bound id then s.ext id else 0#32

def updateExternalPccr (id : Nat) (pcer pcmr : Word) : Csr :=
  { s with
    pccr := if enabled pcer pcmr id || s.issPccrTraceActive id then Function.update s.pccr id (s.pccr id + s.pending id) else s.pccr
    ext := if s.bound id then Function.update s.ext id 0#32 else s.ext }

def checkPerfConfigChange (pcer pcmr : Word) : Csr :=
  (List.range' pcerNbInternalEvents 6).foldl (fun s i => s.updateExternalPccr i pcer pcmr) s

def pcerWrite (value : Word) : Csr := { s with pcer := value &&& 0x7fffffff }.checkPerfConfigChange s.pcer s.pcmr

def pcmrWrite (value : Word) : Csr := { s with pcmr := value }.checkPerfConfigChange s.pcer s.pcmr

def perfCountersRead (reg : Nat) : Csr × Word :=
  if csrPccr pcerNbInternalEvents ≤ reg ∧ reg < csrPccr nbPccr then
    let s := s.updateExternalPccr (reg - csrPccr 0) s.pcer s.pcmr
    (s, s.pccr (reg - csrPccr 0))
  else if reg = csrPcer then (s, s.pcer)
  else if reg = csrPcmr then (s, s.pcmr)
  else (s, s.pccr (reg - csrPccr 0))

def setOne (value : Word) (i : Nat) : Csr :=
  let s := { s with pccr := Function.update s.pccr i value }
  if pcerNbInternalEvents ≤ i ∧ i < pcerNbEvents then s.updateExternalPccr i 0 0 else s

/- A counter of an external event is brought up to date, and does not get the value. -/
def perfCountersWrite (reg : Nat) (value : Word) : Csr :=
  if reg = csrPcer then s.pcerWrite value
  else if reg = csrPcmr then s.pcmrWrite value
  else if csrPccr pcerNbInternalEvents ≤ reg ∧ reg < csrPccr nbPccr then
    s.updateExternalPccr (reg - csrPccr 0) s.pcer s.pcmr
  else if reg = csrPccr nbPccr then (List.range 31).foldl (fun s i => s.setOne value i) s
  else { s with pccr := Function.update s.pccr (reg - csrPccr 0) value }

def isPerf (reg : Nat) : Bool := (csrPccr 0 ≤ reg && reg ≤ csrPccr nbPccr) || reg == csrPcer || reg == csrPcmr

def issPccrAccountEvent (event : Nat) (incr : Word) : Csr :=
  if enabled s.pcer s.pcmr event then { s with pccr := Function.update s.pccr event (s.pccr event + incr) } else s

def updateTraced (i : Nat) : Csr := if s.issPccrTraceActive i then s.updateExternalPccr i s.pcer s.pcmr else s

def issExecAccountCycles (cycles : Int) : Csr :=
  let s := if 0 ≤ cycles then s.issPccrAccountEvent 0 (BitVec.ofInt 32 cycles) else s
  (List.range' pcerNbInternalEvents 6).foldl updateTraced s

def countOutside (id : Nat) (incr : Word) : Csr :=
  if s.bound id then { s with ext := Function.update s.ext id (s.ext id + incr) } else s

end Csr

inductive Action where
  | account (event : Nat) (incr : Word)
  | count (id : Nat) (incr : Word)
  | cycles (cycles : Int)
  | read (reg : Nat)
  | write (reg : Nat) (value : Word)

def step (s : Csr) : Action → Csr
  | .account event incr => s.issPccrAccountEvent event incr
  | .count id incr => s.countOutside id incr
  | .cycles cycles => s.issExecAccountCycles cycles
  | .read reg => if Csr.isPerf reg then (s.perfCountersRead reg).1 else s
  | .write reg value => if Csr.isPerf reg then s.perfCountersWrite reg value else s

section Locality

structure Same (i : Nat) (s t : Csr) : Prop where
  pccr : t.pccr i = s.pccr i
  ext : t.ext i = s.ext i
  pcer : t.pcer = s.pcer
  pcmr : t.pcmr = s.pcmr
  bound : t.bound = s.bound
  traced : t.traced = s.traced

variable {i : Nat} {s t u : Csr}

theorem sameRefl (i : Nat) (s : Csr) : Same i s s := ⟨rfl, rfl, rfl, rfl, rfl, rfl⟩

theorem sameTrans (first : Same i s t) (second : Same i t u) : Same i s u :=
  ⟨second.pccr.trans first.pccr, second.ext.trans first.ext, second.pcer.trans first.pcer, second.pcmr.trans first.pcmr,
    second.bound.trans first.bound, second.traced.trans first.traced⟩

def Local (round : Csr → Nat → Csr) : Prop := ∀ s j i, i ≠ j → Same i s (round s j)

theorem loopOther {round : Csr → Nat → Csr} (rounds : Local round) {ids : List Nat} (absent : i ∉ ids) (s : Csr) :
    Same i s (ids.foldl round s) := by
  induction ids generalizing s with
  | nil => exact sameRefl i s
  | cons j rest rec =>
      rw [List.mem_cons, not_or] at absent
      exact sameTrans (rounds s j i absent.1) (rec absent.2 (round s j))

/- The one round of an event is made in a state that is as before, and nothing changes behind it. -/
theorem loopOwn {round : Csr → Nat → Csr} (rounds : Local round) {ids : List Nat} (once : ids.Nodup) (member : i ∈ ids) (s : Csr) :
    ∃ t, Same i s t ∧ Same i (round t i) (ids.foldl round s) := by
  induction ids generalizing s with
  | nil => cases member
  | cons j rest rec =>
      obtain ⟨absent, later⟩ := List.nodup_cons.mp once
      by_cases own : i = j
      · subst own
        exact ⟨s, sameRefl i s, loopOther rounds absent (round s i)⟩
      · obtain ⟨t, before, after⟩ := rec later ((List.mem_cons.mp member).resolve_left own) (round s j)
        exact ⟨t, sameTrans (rounds s j i own) before, after⟩

end Locality

section Updates

variable {i : Nat} {s t : Csr}

def Csr.counting (s : Csr) (pcer pcmr : Word) (i : Nat) : Bool := enabled pcer pcmr i || s.issPccrTraceActive i

structure Folded (i : Nat) (on : Bool) (s t : Csr) : Prop where
  pccr : t.pccr i = s.pccr i + if on then s.pending i else 0#32
  pending : t.pending i = 0#32
  pcer : t.pcer = s.pcer
  pcmr : t.pcmr = s.pcmr
  bound : t.bound = s.bound
  traced : t.traced = s.traced

theorem updateOther {j : Nat} (s : Csr) (pcer pcmr : Word) (other : i ≠ j) : Same i s (s.updateExternalPccr j pcer pcmr) := by
  refine ⟨?_, ?_, rfl, rfl, rfl, rfl⟩
  · change (if enabled pcer pcmr j || s.issPccrTraceActive j then Function.update s.pccr j _ else s.pccr) i = s.pccr i
    split_ifs
    · exact Function.update_of_ne other _ _
    · rfl
  · change (if s.bound j then Function.update s.ext j 0#32 else s.ext) i = s.ext i
    split_ifs
    · exact Function.update_of_ne other _ _
    · rfl

theorem updateOwn (i : Nat) (s : Csr) (pcer pcmr : Word) :
    Folded i (s.counting pcer pcmr i) s (s.updateExternalPccr i pcer pcmr) := by
  refine ⟨?_, ?_, rfl, rfl, rfl, rfl⟩
  · change (if s.counting pcer pcmr i then Function.update s.pccr i (s.pccr i + s.pending i) else s.pccr) i = _
    split_ifs
    · exact Function.update_self ..
    · exact (BitVec.add_zero _).symm
  · change (if s.bound i then (if s.bound i then Function.update s.ext i 0#32 else s.ext) i else 0#32) = 0#32
    split_ifs
    · exact Function.update_self ..
    · rfl

theorem updatesLocal (pcer pcmr : Word) : Local fun s i => s.updateExternalPccr i pcer pcmr :=
  fun s _ _ other => updateOther s pcer pcmr other

theorem tracedLocal : Local Csr.updateTraced := by
  intro s j i other
  unfold Csr.updateTraced
  split_ifs
  · exact updateOther s _ _ other
  · exact sameRefl i s

theorem setOther {j : Nat} (s : Csr) (value : Word) (other : i ≠ j) : Same i s { s with pccr := Function.update s.pccr j value } :=
  ⟨Function.update_of_ne other _ _, rfl, rfl, rfl, rfl, rfl⟩

theorem setLocal (value : Word) : Local fun s i => s.setOne value i := by
  intro s j i other
  have set := setOther s value other
  change Same i s (s.setOne value j)
  unfold Csr.setOne
  split_ifs
  · exact sameTrans set (updateOther _ 0 0 other)
  · exact set

theorem samePending (same : Same i s t) : t.pending i = s.pending i := by
  rw [Csr.pending, Csr.pending, same.bound, same.ext]

theorem sameCounting (same : Same i s t) (pcer pcmr : Word) : t.counting pcer pcmr i = s.counting pcer pcmr i := by
  rw [Csr.counting, Csr.counting, Csr.issPccrTraceActive, Csr.issPccrTraceActive, same.bound, same.traced]

theorem checkOwn (s : Csr) (pcer pcmr : Word) (external : pcerNbInternalEvents ≤ i ∧ i < pcerNbEvents) :
    Folded i (s.counting pcer pcmr i) s (s.checkPerfConfigChange pcer pcmr) := by
  have member : i ∈ List.range' pcerNbInternalEvents 6 := List.mem_range'_1.mpr external
  obtain ⟨t, before, after⟩ := loopOwn (updatesLocal pcer pcmr) List.nodup_range' member s
  have folded := updateOwn i t pcer pcmr
  rw [sameCounting before] at folded
  refine ⟨?_, ?_, ?_, ?_, ?_, ?_⟩
  · exact after.pccr.trans (folded.pccr.trans (by rw [before.pccr, samePending before]))
  · exact (samePending after).trans folded.pending
  · exact after.pcer.trans (folded.pcer.trans before.pcer)
  · exact after.pcmr.trans (folded.pcmr.trans before.pcmr)
  · exact after.bound.trans (folded.bound.trans before.bound)
  · exact after.traced.trans (folded.traced.trans before.traced)

theorem checkOther (s : Csr) (pcer pcmr : Word) (internal : ¬(pcerNbInternalEvents ≤ i ∧ i < pcerNbEvents)) :
    Same i s (s.checkPerfConfigChange pcer pcmr) :=
  loopOther (updatesLocal pcer pcmr) (mt List.mem_range'_1.mp internal) s

end Updates

section Values

variable {i : Nat} {s t : Csr}

def Csr.value (s : Csr) (i : Nat) : Word :=
  if i < pcerNbInternalEvents then s.pccr i else s.pccr i + if s.counting s.pcer s.pcmr i then s.pending i else 0#32

theorem readValue (s : Csr) (inside : i < nbPccr) : (s.perfCountersRead (csrPccr i)).2 = s.value i := by
  have place : csrPccr i - csrPccr 0 = i := by simp [csrPccr]
  unfold Csr.perfCountersRead Csr.value
  by_cases internal : i < pcerNbInternalEvents
  · have low : ¬(csrPccr pcerNbInternalEvents ≤ csrPccr i ∧ csrPccr i < csrPccr nbPccr) := by
      unfold csrPccr
      omega
    have notPcer : csrPccr i ≠ csrPcer := by
      unfold csrPccr csrPcer
      unfold nbPccr at inside
      omega
    have notPcmr : csrPccr i ≠ csrPcmr := by
      unfold csrPccr csrPcmr
      unfold nbPccr at inside
      omega
    rw [if_pos internal, if_neg low, if_neg notPcer, if_neg notPcmr, place]
  · have high : csrPccr pcerNbInternalEvents ≤ csrPccr i ∧ csrPccr i < csrPccr nbPccr := by
      unfold csrPccr
      omega
    rw [if_neg internal, if_pos high, place]
    exact (updateOwn i s s.pcer s.pcmr).pccr

theorem sameValue (same : Same i s t) : t.value i = s.value i := by
  rw [Csr.value, Csr.value, sameCounting same, samePending same, same.pccr, same.pcer, same.pcmr]

theorem foldedValue {on : Bool} (folded : Folded i on s t) (external : pcerNbInternalEvents ≤ i) :
    t.value i = s.pccr i + if on then s.pending i else 0#32 := by
  rw [Csr.value, if_neg (Nat.not_lt.mpr external), folded.pending, ite_self, BitVec.add_zero, folded.pccr]

theorem foldedKeeps (folded : Folded i (s.counting s.pcer s.pcmr i) s t) (external : pcerNbInternalEvents ≤ i) :
    t.value i = s.value i := by
  rw [foldedValue folded external, Csr.value, if_neg (Nat.not_lt.mpr external)]

end Values

end Gvsoc.PerfCounters
