import Gvsoc.FetchLatency
import Gvsoc.PrefetchOpcode

/-! What the executed instructions are charged for their fetches, and what they owed. -/
namespace Gvsoc.FetchLatency
open Prefetch (Addr)
open PerfCounters (Word enabled)

section Fetches

variable {s t u : Iss}

theorem fillSame (addr : Addr) (answer : Answer) :
    (s.prefetcherFill addr answer).fetcher = (s.fetcher.prefetcherFill addr answer.port).1 ∧
      (s.prefetcherFill addr answer).currentInsn = s.currentInsn := by
  unfold Iss.prefetcherFill Iss.issFetchReq
  split_ifs <;> exact ⟨rfl, rfl⟩

theorem fillDone (state : Prefetch.State) (addr : Addr) (answer : Answer) : (state.prefetcherFill addr answer.port).2 = false := by
  unfold Prefetch.State.prefetcherFill Answer.port
  cases answer.bytes <;> rfl

theorem afterFillSame (index : Int) (next : Answer) :
    (s.prefetcherFetchValueAfterFill0 index next).fetcher =
      s.fetcher.prefetcherFetchValueAfterFill0 s.currentInsn index next.port := by
  unfold Iss.prefetcherFetchValueAfterFill0 Prefetch.State.prefetcherFetchValueAfterFill0
  dsimp only
  split_ifs with inside pending
  · rfl
  · rw [fillDone] at pending
    contradiction
  · rw [Iss.withFetcher, (fillSame _ next).1]
    rfl

theorem overflowSame (index : Int) (next : Answer) :
    (s.prefetcherFetchNovalueCheckOverflow index next).fetcher =
      s.fetcher.prefetcherFetchNovalueCheckOverflow s.currentInsn index next.port := by
  unfold Iss.prefetcherFetchNovalueCheckOverflow Prefetch.State.prefetcherFetchNovalueCheckOverflow
  dsimp only
  split_ifs with outside pending
  · rw [fillDone] at pending
    contradiction
  · exact (fillSame _ next).1
  · rfl

theorem novalueSame (line next : Answer) :
    (s.prefetcherFetchNovalue line next).fetcher = s.fetcher.prefetcherFetchNovalue s.currentInsn line.port next.port := by
  obtain ⟨filled, same⟩ := fillSame (s := s) s.currentInsn line
  unfold Iss.prefetcherFetchNovalue Prefetch.State.prefetcherFetchNovalue
  dsimp only
  rw [fillDone, if_neg Bool.false_ne_true]
  split_ifs
  · rfl
  · rw [overflowSame, same, filled]
  · exact overflowSame _ next

theorem valueSame (line next : Answer) :
    (s.prefetcherFetchValue line next).fetcher = s.fetcher.prefetcherFetchValue s.currentInsn line.port next.port := by
  obtain ⟨filled, same⟩ := fillSame (s := s) s.currentInsn line
  unfold Iss.prefetcherFetchValue Prefetch.State.prefetcherFetchValue
  dsimp only
  rw [fillDone, if_neg Bool.false_ne_true]
  split_ifs
  · rfl
  · rw [afterFillSame, same, filled]
  · exact afterFillSame _ next

theorem fetchSame (line next : Answer) :
    (s.prefetcherFetch line next).fetcher = s.fetcher.prefetcherFetch s.currentInsn line.port next.port := by
  unfold Iss.prefetcherFetch Prefetch.State.prefetcherFetch
  split_ifs
  · exact novalueSame line next
  · exact valueSame line next

structure Quiet (s t : Iss) : Prop where
  due : t.history.due = s.history.due
  charged : t.history.charged = s.history.charged
  missDue : t.history.missDue = s.history.missDue
  missed : t.history.missed = s.history.missed
  held : s.fetchCycles = s.history.latest.setWidth 32 → t.fetchCycles = t.history.latest.setWidth 32

theorem quietSame (history : t.history = s.history) (cycles : t.fetchCycles = s.fetchCycles) : Quiet s t := by
  refine ⟨?_, ?_, ?_, ?_, fun held => ?_⟩
  · rw [history]
  · rw [history]
  · rw [history]
  · rw [history]
  · rw [history, cycles, held]

theorem quietTrans (first : Quiet s t) (second : Quiet t u) : Quiet s u :=
  ⟨second.due.trans first.due, second.charged.trans first.charged, second.missDue.trans first.missDue,
    second.missed.trans first.missed, fun held => second.held (first.held held)⟩

theorem withQuiet (s : Iss) (fetcher : Prefetch.State) : Quiet s (s.withFetcher fetcher) := quietSame rfl rfl

theorem fillQuiet (addr : Addr) (answer : Answer) : Quiet s (s.prefetcherFill addr answer) := by
  unfold Iss.prefetcherFill Iss.issFetchReq
  cases valid : answer.bytes.isSome with
  | false =>
      rw [if_neg Bool.false_ne_true]
      refine ⟨rfl, rfl, rfl, rfl, fun held => ?_⟩
      change s.fetchCycles = (if answer.bytes.isSome = true then answer.latency else s.history.latest).setWidth 32
      rw [valid, if_neg Bool.false_ne_true, held]
  | true =>
      rw [if_pos rfl]
      refine ⟨rfl, rfl, rfl, rfl, fun _ => ?_⟩
      change answer.latency.setWidth 32 = (if answer.bytes.isSome = true then answer.latency else s.history.latest).setWidth 32
      rw [valid, if_pos rfl]

theorem afterFillQuiet (index : Int) (next : Answer) : Quiet s (s.prefetcherFetchValueAfterFill0 index next) := by
  unfold Iss.prefetcherFetchValueAfterFill0
  dsimp only
  split_ifs
  · exact withQuiet s _
  · have noted := withQuiet s (s.fetcher.noteRead index (Prefetch.nbBytes s.currentInsn))
    exact quietTrans (quietTrans noted (fillQuiet (Prefetch.nextLine s.currentInsn) next)) (withQuiet _ _)

theorem overflowQuiet (index : Int) (next : Answer) : Quiet s (s.prefetcherFetchNovalueCheckOverflow index next) := by
  unfold Iss.prefetcherFetchNovalueCheckOverflow
  split_ifs
  · exact fillQuiet _ next
  · exact quietSame rfl rfl

theorem novalueQuiet (line next : Answer) : Quiet s (s.prefetcherFetchNovalue line next) := by
  unfold Iss.prefetcherFetchNovalue
  dsimp only
  split_ifs
  · exact quietSame rfl rfl
  · exact quietTrans (fillQuiet _ line) (overflowQuiet _ next)
  · exact overflowQuiet _ next

theorem valueQuiet (line next : Answer) : Quiet s (s.prefetcherFetchValue line next) := by
  unfold Iss.prefetcherFetchValue
  dsimp only
  split_ifs
  · exact withQuiet s _
  · exact quietTrans (fillQuiet _ line) (afterFillQuiet _ next)
  · exact afterFillQuiet _ next

theorem fetchQuiet (line next : Answer) : Quiet s (s.prefetcherFetch line next) := by
  unfold Iss.prefetcherFetch
  split_ifs
  · exact novalueQuiet line next
  · exact quietTrans (withQuiet s _) (valueQuiet line next)

end Fetches

section Steps

variable {s : Iss}

def Balanced (s : Iss) : Prop := s.history.charged = s.history.due ∧ s.history.missed = s.history.missDue

def Held (s : Iss) : Prop := s.fetchCycles = s.history.latest.setWidth 32

/- The last accepted latency is, as an `int`, all that the instruction owes, and nothing where the misses are counted. -/
def Payable (s : Iss) : Prop :=
  (s.history.latest.setWidth 32).toInt = s.history.owed s.currentInsn ∧
    (enabled s.csr.pcer s.csr.pcmr csrPcerImiss = true → BitVec.ofNat 32 (s.history.owed s.currentInsn) = 0#32)

def Allowed (s : Iss) : Action → Prop
  | .exec .. => Payable s
  | .execPerf .. => Payable s
  | _ => True

theorem quietBalanced {t : Iss} (quiet : Quiet s t) : Balanced t ↔ Balanced s := by
  rw [Balanced, Balanced, quiet.due, quiet.charged, quiet.missDue, quiet.missed]

theorem chargeCycles (s : Iss) : s.chargeFetch.insnCycles - s.insnCycles = s.fetchCycles := by
  unfold Iss.chargeFetch
  split_ifs with some
  · change s.insnCycles + s.fetchCycles - s.insnCycles = s.fetchCycles
    rw [BitVec.add_comm, BitVec.add_sub_cancel]
  · rw [BitVec.sub_self]
    exact (not_not.mp some).symm

/- The counter gets the latency after it was cleared. -/
theorem chargeMissed (s : Iss) : s.chargeFetch.csr.pccr csrPcerImiss = s.csr.pccr csrPcerImiss := by
  unfold Iss.chargeFetch
  split_ifs
  · change (s.csr.issPccrAccountEvent csrPcerImiss 0#32).pccr csrPcerImiss = _
    unfold PerfCounters.Csr.issPccrAccountEvent
    split_ifs
    · change Function.update s.csr.pccr csrPcerImiss (s.csr.pccr csrPcerImiss + 0#32) csrPcerImiss = _
      rw [Function.update_self, BitVec.add_zero]
    · rfl
  · rfl

theorem chargeCleared (s : Iss) : s.chargeFetch.fetchCycles = 0#32 := by
  unfold Iss.chargeFetch
  split_ifs with some
  · rfl
  · exact not_not.mp some

theorem handleQuiet (func : Handler) : Quiet s (s.handle func) := by
  unfold Iss.handle Iss.issCacheFlush
  split_ifs <;> exact quietSame rfl rfl

theorem commonBalanced (held : Held s) (before : Balanced s) (func : Handler) : Balanced (s.execNoFetchCommon func) ↔ Payable s := by
  unfold Iss.execNoFetchCommon
  dsimp only
  rw [quietBalanced (handleQuiet func)]
  unfold Balanced Iss.settled
  dsimp only
  rw [chargeCycles, chargeMissed, BitVec.sub_self, BitVec.add_zero, before.1, before.2]
  dsimp only
  rw [Int.add_right_inj, BitVec.self_eq_add_right, held]
  refine and_congr Iff.rfl ?_
  split_ifs with counts
  · exact ⟨fun none _ => none, fun none => none counts⟩
  · exact iff_of_true rfl fun on => absurd on counts

theorem commonHeld (s : Iss) (func : Handler) : Held (s.execNoFetchCommon func) := by
  unfold Iss.execNoFetchCommon
  refine (handleQuiet func).held ?_
  exact chargeCleared _

theorem stepHeld (a : Action) (held : Held s) : Held (step s a) := by
  cases a with
  | fetch line next => exact (fetchQuiet line next).held held
  | pcSet insn => exact held
  | irq vector line next => exact (fetchQuiet line next).held held
  | exec func line next => exact (fetchQuiet line next).held (commonHeld s func)
  | execPerf func line next => exact (fetchQuiet line next).held (commonHeld s func)
  | flush => exact held
  | counters a => exact held

theorem stepBalanced (a : Action) (held : Held s) (before : Balanced s) : Balanced (step s a) ↔ Allowed s a := by
  cases a with
  | fetch line next => exact iff_of_true ((quietBalanced (fetchQuiet line next)).mpr before) trivial
  | pcSet insn => exact iff_of_true before trivial
  | irq vector line next =>
      exact iff_of_true ((quietBalanced (fetchQuiet (s := { s with currentInsn := vector }) line next)).mpr before) trivial
  | exec func line next => exact (quietBalanced (fetchQuiet line next)).trans (commonBalanced held before func)
  | execPerf func line next => exact (quietBalanced (fetchQuiet line next)).trans (commonBalanced held before func)
  | flush => exact iff_of_true before trivial
  | counters a => exact iff_of_true before trivial

end Steps

section Lines

variable {s : Iss}

theorem fillHistory (addr : Addr) (answer : Answer) :
    (s.prefetcherFill addr answer).history = s.history.asked s.currentInsn answer := by
  unfold Iss.prefetcherFill Iss.issFetchReq
  split_ifs <;> rfl

theorem fillLine (addr : Addr) (answer : Answer) : (s.prefetcherFill addr answer).fetcher.prefetcher.addr = Prefetch.lineOf addr := by
  rw [(fillSame addr answer).1]
  unfold Prefetch.State.prefetcherFill Answer.port
  cases answer.bytes <;> rfl

theorem fillIndex (insn : Addr) (answer : Answer) :
    (s.prefetcherFill insn answer).fetcher.index insn = ((insn.toNat % 16 : Nat) : Int) := by
  rw [Prefetch.State.index, fillLine, Prefetch.indexInLine]

theorem afterFillHistory (index : Int) (next : Answer) : (s.prefetcherFetchValueAfterFill0 index next).history =
    if index + Prefetch.opcodeSize ≤ Prefetch.prefetcherSize then s.history else s.history.asked s.currentInsn next := by
  unfold Iss.prefetcherFetchValueAfterFill0
  dsimp only
  split_ifs
  · rfl
  · exact fillHistory (s := s.withFetcher _) _ next

theorem overflowHistory (index : Int) (next : Answer) : (s.prefetcherFetchNovalueCheckOverflow index next).history =
    if index + Prefetch.opcodeSize ≤ Prefetch.prefetcherSize then s.history else s.history.asked s.currentInsn next := by
  unfold Iss.prefetcherFetchNovalueCheckOverflow
  by_cases inside : index + Prefetch.opcodeSize ≤ Prefetch.prefetcherSize
  · rw [if_neg (Int.not_lt.mpr inside), if_pos inside]
  · rw [if_pos (Int.not_le.mp inside), if_neg inside]
    exact fillHistory _ next

theorem oneRequest (line next : Answer) (inside : s.currentInsn.toNat % 16 ≤ 12) :
    (s.prefetcherFetch line next).history = s.history ∨
      ∃ answer ∈ [line, next], (s.prefetcherFetch line next).history = s.history.asked s.currentInsn answer := by
  have whole : ((s.currentInsn.toNat % 16 : Nat) : Int) + Prefetch.opcodeSize ≤ Prefetch.prefetcherSize := by
    unfold Prefetch.opcodeSize Prefetch.prefetcherSize
    omega
  unfold Iss.prefetcherFetch
  split_ifs
  · unfold Iss.prefetcherFetchNovalue
    dsimp only
    rw [fillIndex]
    split_ifs
    · exact .inl rfl
    · refine .inr ⟨line, by simp, ?_⟩
      rw [overflowHistory, if_pos whole, fillHistory]
    · rw [overflowHistory]
      split_ifs
      · exact .inl rfl
      · exact .inr ⟨next, by simp, rfl⟩
  · unfold Iss.prefetcherFetchValue
    dsimp only
    rw [fillIndex]
    split_ifs
    · exact .inl rfl
    · refine .inr ⟨line, by simp, ?_⟩
      rw [afterFillHistory]
      exact (if_pos whole).trans (fillHistory _ line)
    · rw [afterFillHistory]
      split_ifs
      · exact .inl rfl
      · exact .inr ⟨next, by simp, rfl⟩

/- So its latency is what it owes, if nothing was waiting and the port accepts the request. -/
theorem oneRequestPaid (line next : Answer) (inside : s.currentInsn.toNat % 16 ≤ 12) (latest : s.history.latest = 0)
    (owed : s.history.owed s.currentInsn = 0) (accepted : ∀ answer ∈ [line, next], answer.bytes.isSome = true)
    (short : ∀ answer ∈ [line, next], answer.latency.toNat < 2 ^ 31) :
    ((s.prefetcherFetch line next).history.latest.setWidth 32).toInt = (s.prefetcherFetch line next).history.owed s.currentInsn := by
  obtain same | ⟨answer, member, asked⟩ := oneRequest line next inside
  · rw [same, latest, owed]
    rfl
  · have small := short answer member
    have whole : (answer.latency.setWidth 32).toNat = answer.latency.toNat := by
      rw [BitVec.toNat_setWidth]
      exact Nat.mod_eq_of_lt (by omega)
    rw [asked]
    unfold History.asked
    dsimp only
    rw [if_pos (accepted answer member), Function.update_self, owed, Nat.zero_add, BitVec.toInt_eq_toNat_of_lt (by omega), whole]

end Lines

section Runs

def History.start : History := ⟨fun _ => 0, 0#64, 0, 0, 0#32, 0#32⟩

structure Opened (s : Iss) : Prop where
  cycles : s.fetchCycles = 0#32
  history : s.history = .start

/- In every state of a run the charges are what the executed instructions owed, if and only if each of them was payable
when it was executed. -/
theorem fetchesCharged {s : Iss} (opened : Opened s) (actions : List Action) :
    (∀ n, Balanced (Runs.run step s (actions.take n))) ↔ Runs.AllSteps step Allowed s actions := by
  refine Runs.alwaysIff (I := Held) (fun _ a => stepBalanced a) (fun _ a => stepHeld a) ?_ ?_ actions
  · rw [Held, opened.cycles, opened.history]
    rfl
  · rw [Balanced, opened.history]
    exact ⟨rfl, rfl⟩

def opened (pcer pcmr : Word) : Iss :=
  { fetcher :=
      { prefetcher := ⟨-1, fun _ => 0⟩, beyond := fun _ => 0, undefinedShift := fun _ _ => 0, fetched := fun _ => false
        callback := none, prefetchInsn := 0, fetchStallOpcode := 0, pending := none, returned := fun _ => none, decoded := [], reads := [] }
    currentInsn := 0, fetchCycles := 0, insnCycles := 0
    csr := { pccr := fun _ => 0, pcer := pcer, pcmr := pcmr, ext := fun _ => 0, bound := fun _ => false, traced := fun _ => false }
    history := .start }

def answered (latency : BitVec 64) : Answer := ⟨some fun _ => 0, latency⟩

def startedAt (insn : Addr) : List Action :=
  [.pcSet insn, .fetch (answered 3) (answered 5), .exec ⟨insn + 4, 0, false, []⟩ (answered 3) (answered 5),
    .execPerf ⟨insn + 8, 0, false, []⟩ (answered 3) (answered 5)]

theorem fetchesChargedInside : Balanced (Runs.run step (opened 0 0) ((startedAt 0x100).take 4)) := by
  refine (fetchesCharged ⟨rfl, rfl⟩ (startedAt 0x100)).mpr ?_ 4
  refine ⟨trivial, trivial, ⟨?_, ?_⟩, ⟨?_, ?_⟩, trivial⟩ <;> decide

/- Of two requests only the second is charged, and the counter of the misses stays as it is. -/
theorem requestLost : ¬Balanced (Runs.run step (opened 0 0) ((startedAt 0x10e).take 3)) ∧
    ¬Balanced (Runs.run step (opened 0x10 1) ((startedAt 0x100).take 3)) := by
  constructor
  · exact fun balanced => absurd balanced.1 (by decide)
  · exact fun balanced => absurd balanced.2 (by decide)

end Runs

end Gvsoc.FetchLatency
