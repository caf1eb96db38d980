import Gvsoc.Cache

/-! Reads through the cache. Every answered read has the first bytes of its line, as long as no
read hits the line that is being refilled; a read at the start of a line is then the direct
access. -/
namespace Gvsoc.Cache
open Bytes (Byte)
open Io (IoStatus bytesFrom)
open Machine (Run)

variable (c : Config) (memory : Nat → Byte)

structure InLine (r : Req) : Prop where
  read : r.isWrite = false
  buffer : r.data.isSome = true
  within : r.addr % c.lineSize + r.size ≤ c.lineSize

/- Addresses for which the 32-bit arithmetic of tags and refills is exact. -/
structure Addressed (r : Req) : Prop where
  low : r.addr < 2 ^ 32
  offset : r.addr / c.lineSize * c.lineSize + c.addOffset.toNat < 2 ^ 32
  tag : c.tagOf r.addr ≠ -1

instance (r : Req) : Decidable (InLine c r) :=
  decidable_of_iff (r.isWrite = false ∧ r.data.isSome = true ∧ r.addr % c.lineSize + r.size ≤ c.lineSize)
    ⟨fun all => ⟨all.1, all.2.1, all.2.2⟩, fun all => ⟨all.read, all.buffer, all.within⟩⟩

instance (r : Req) : Decidable (Addressed c r) :=
  decidable_of_iff (r.addr < 2 ^ 32 ∧ r.addr / c.lineSize * c.lineSize + c.addOffset.toNat < 2 ^ 32 ∧ c.tagOf r.addr ≠ -1)
    ⟨fun all => ⟨all.1, all.2.1, all.2.2⟩, fun all => ⟨all.low, all.offset, all.tag⟩⟩

def Answers (answer : IoStatus) : Prop := answer = .ok ∨ answer = .pending

instance (answer : IoStatus) : Decidable (Answers answer) := inferInstanceAs (Decidable (_ ∨ _))

/- Runs of an enabled cache: reads at addresses with `place`, refills answered at once or later,
flushes. A read does not hit the line whose refill is pending. -/
def ReadsApart (place : Nat → Prop) (s : State) : Action → Prop
  | .req r answer => place r.addr ∧ InLine c r ∧ Addressed c r ∧ Answers answer ∧
      ¬ (s.pendingRefill = true ∧ s.getLine c r = some s.refillLine)
  | .fsm answer => Answers answer
  | .enable active => active = true
  | _ => True

instance (place : Nat → Prop) [DecidablePred place] (s : State) (a : Action) : Decidable (ReadsApart c place s a) :=
  match a with
  | .req _ _ => inferInstanceAs (Decidable (_ ∧ _ ∧ _ ∧ _ ∧ ¬ (_ ∧ _)))
  | .fsm _ => inferInstanceAs (Decidable (Answers _))
  | .enable _ => inferInstanceAs (Decidable (_ = _))
  | .moves _ => .isTrue trivial
  | .refillResponse => .isTrue trivial
  | .flush => .isTrue trivial
  | .flushLineAddr _ => .isTrue trivial
  | .flushLine => .isTrue trivial

section Tags

variable {c} {r : Req}

theorem tagNumber (fits : Addressed c r) : (c.tagOf r.addr).toNat = r.addr / c.lineSize := by
  unfold Config.tagOf
  rw [BitVec.toNat_ofNat]
  exact Nat.mod_eq_of_lt (lt_of_le_of_lt (Nat.div_le_self _ _) fits.low)

theorem refillNumber (noShift : c.refillShift = 0) (fits : Addressed c r) :
    (c.getLineBase (BitVec.ofNat 32 r.addr <<< c.refillShift) + c.addOffset).toNat =
      (c.tagOf r.addr).toNat * c.lineSize + c.addOffset.toNat := by
  have base : (c.getLineBase (BitVec.ofNat 32 r.addr)).toNat = r.addr / c.lineSize * c.lineSize := by
    unfold Config.getLineBase Config.lineSize
    rw [Bytes.maskNumber, BitVec.toNat_ofNat, Nat.mod_eq_of_lt fits.low]
  rw [noShift, BitVec.shiftLeft_zero, BitVec.toNat_add, base, tagNumber fits]
  exact Nat.mod_eq_of_lt fits.offset

theorem getLineTag {s : State} {j : Nat} (hit : s.getLine c r = some j) : (s.lines j).tag = c.tagOf r.addr := by
  obtain ⟨way, found, rfl⟩ := Option.map_eq_some_iff.mp hit
  have same := List.find?_some found
  exact of_decide_eq_true same

end Tags

section Invariant

def Filled (line : Line) : Prop :=
  ∀ i < c.lineSize, line.data i = memory (line.tag.toNat * c.lineSize + c.addOffset.toNat + i)

def LineStart (r : Req) : Prop :=
  r.data = some (bytesFrom memory (r.addr / c.lineSize * c.lineSize + c.addOffset.toNat) r.size)

structure Readable (place : Nat → Prop) (r : Req) : Prop where
  place : place r.addr
  inLine : InLine c r
  addressed : Addressed c r

structure Refilling (s : State) : Prop where
  line : s.refillReq.line = s.refillLine
  addr : s.refillReq.addr.toNat = s.refillTag.toNat * c.lineSize + c.addOffset.toNat
  first : ∃ r rest, s.refillPendingReqs = r :: rest ∧ c.tagOf r.addr = s.refillTag

structure Good (place : Nat → Prop) (s : State) : Prop where
  enabled : s.enabled = true
  filled : ∀ j, ¬ (s.pendingRefill = true ∧ j = s.refillLine) → (s.lines j).tag ≠ -1 → Filled c memory (s.lines j)
  queue : ∀ r ∈ s.refillPendingReqs, Readable c place r
  pending : s.pendingRefill = true → Refilling c s
  replies : ∀ r ∈ s.replies, place r.addr ∧ LineStart c memory r

variable {c memory} {place : Nat → Prop} {s : State} {r : Req} {j : Nat}

theorem refillingKept {next : State} (refilling : Refilling c s) (same : next.refillReq = s.refillReq ∧
    next.refillLine = s.refillLine ∧ next.refillTag = s.refillTag ∧ next.refillPendingReqs = s.refillPendingReqs) :
    Refilling c next := by
  obtain ⟨req, line, tag, queue⟩ := same
  refine ⟨?_, ?_, ?_⟩
  · rw [req, line]
    exact refilling.line
  · rw [req, tag]
    exact refilling.addr
  · rw [queue, tag]
    exact refilling.first

theorem checkStateGood (good : Good c memory place s) : Good c memory place s.checkState := by
  unfold State.checkState
  split
  · exact ⟨good.enabled, good.filled, good.queue, fun pending => refillingKept (good.pending pending) ⟨rfl, rfl, rfl, rfl⟩, good.replies⟩
  · exact good

theorem transferGood (good : Good c memory place s) (readable : Readable c place r)
    (tag : (s.lines j).tag = c.tagOf r.addr) (filled : Filled c memory (s.lines j)) :
    Good c memory place (s.transfer j r false) := by
  obtain ⟨bytes, buffer⟩ := Option.isSome_iff_exists.mp readable.inLine.buffer
  unfold State.transfer
  rw [buffer]
  simp only [Bool.false_eq_true, if_false]
  refine ⟨good.enabled, good.filled, good.queue, fun pending => refillingKept (good.pending pending) ⟨rfl, rfl, rfl, rfl⟩, ?_⟩
  intro reply member
  rcases List.mem_append.mp member with before | new
  · exact good.replies reply before
  · rw [List.mem_singleton.mp new]
    refine ⟨readable.place, ?_⟩
    unfold LineStart bytesFrom
    refine congrArg some (List.map_congr_left ?_)
    intro i inside
    have small : i < c.lineSize := by
      have within := readable.inLine.within
      have := List.mem_range.mp inside
      omega
    rw [filled i small, tag, tagNumber readable.addressed]

theorem refillWaits (answer : IoStatus) (busy : s.pendingRefill = true) :
    s.refill c memory r answer = ({ s with refillPendingReqs := s.refillPendingReqs ++ [r] }, none, true) := by
  rw [State.refill, if_pos busy]

theorem refillBusyGood (answer : IoStatus) (good : Good c memory place s) (readable : Readable c place r)
    (busy : s.pendingRefill = true) :
    ∃ next, s.refill c memory r answer = (next, none, true) ∧ Good c memory place next := by
  refine ⟨_, refillWaits answer busy, ?_⟩
  obtain ⟨line, addr, first, rest, queue, tag⟩ := good.pending busy
  refine ⟨good.enabled, good.filled, ?_, fun _ => ⟨line, addr, first, rest ++ [r], ?_, tag⟩, good.replies⟩
  · intro waiting member
    rcases List.mem_append.mp member with before | new
    · exact good.queue waiting before
    · rw [List.mem_singleton.mp new]
      exact readable
  · change s.refillPendingReqs ++ [r] = _
    rw [queue]
    rfl

def Config.victim (c : Config) (s : State) (r : Req) : Nat :=
  c.lineIndexOf (c.tagOf r.addr) * c.nbWays + (s.stepLru c).2 % c.nbWays

def State.asked (c : Config) (s : State) (r : Req) : State :=
  { (s.stepLru c).1 with
    refillReq := ⟨c.getLineBase (BitVec.ofNat 32 r.addr <<< c.refillShift) + c.addOffset, c.victim s r⟩ }

theorem refillAsks (answer : IoStatus) (free : s.pendingRefill = false) :
    s.refill c memory r answer = match answer with
      | .ok => ((s.asked c r).setLine (c.victim s r) ⟨c.tagOf r.addr, (s.asked c r).loaded c memory⟩,
          some (c.victim s r), false)
      | .pending => ({ s.asked c r with
          refillPendingReqs := r :: s.refillPendingReqs
          refillLine := c.victim s r
          refillTag := c.tagOf r.addr
          pendingRefill := true }, none, true)
      | .invalid => (s.asked c r, none, false)
      | .denied => (s.asked c r, none, false) := by
  rw [State.refill, if_neg (by simp [free])]
  cases answer <;> rfl

theorem refillNowGood (noShift : c.refillShift = 0) (good : Good c memory place s) (readable : Readable c place r)
    (free : s.pendingRefill = false) :
    ∃ next j, s.refill c memory r .ok = (next, some j, false) ∧ Good c memory place next ∧
      (next.lines j).tag = c.tagOf r.addr ∧ Filled c memory (next.lines j) := by
  have new : ((s.asked c r).setLine (c.victim s r) ⟨c.tagOf r.addr, (s.asked c r).loaded c memory⟩).lines (c.victim s r) =
      ⟨c.tagOf r.addr, (s.asked c r).loaded c memory⟩ := Function.update_self _ _ _
  have filled : Filled c memory ⟨c.tagOf r.addr, (s.asked c r).loaded c memory⟩ := by
    intro i inside
    change (if i < c.lineSize then memory (BitVec.toNat _ + i) else _) = _
    rw [if_pos inside]
    exact congrArg (fun base => memory (base + i)) (refillNumber noShift readable.addressed)
  refine ⟨_, _, refillAsks .ok free, ?_, by rw [new], by rw [new]; exact filled⟩
  refine ⟨good.enabled, ?_, good.queue, fun pending => absurd (free.symm.trans pending) (by simp), good.replies⟩
  intro j apart tagged
  by_cases same : j = c.victim s r
  · rw [same, new]
    exact filled
  · have old : ((s.asked c r).setLine (c.victim s r) ⟨c.tagOf r.addr, (s.asked c r).loaded c memory⟩).lines j = s.lines j :=
      Function.update_of_ne same _ _
    rw [old] at tagged ⊢
    exact good.filled j (by simp [free]) tagged

theorem refillLaterGood (noShift : c.refillShift = 0) (good : Good c memory place s) (readable : Readable c place r)
    (free : s.pendingRefill = false) :
    ∃ next, s.refill c memory r .pending = (next, none, true) ∧ Good c memory place next := by
  refine ⟨_, refillAsks .pending free, good.enabled, ?_, ?_, fun _ => ⟨rfl, ?_, r, _, rfl, rfl⟩, good.replies⟩
  · intro j apart tagged
    exact good.filled j (by simp [free]) tagged
  · intro waiting member
    rcases List.mem_cons.mp member with rfl | before
    · exact readable
    · exact good.queue waiting before
  · exact refillNumber noShift readable.addressed

theorem handleReqGood {answer : IoStatus} (noShift : c.refillShift = 0) (good : Good c memory place s)
    (readable : Readable c place r) (answers : Answers answer)
    (apart : ¬ (s.pendingRefill = true ∧ s.getLine c r = some s.refillLine)) :
    Good c memory place (s.handleReq c memory r answer).1 := by
  unfold State.handleReq
  rw [readable.inLine.read]
  cases hit : s.getLine c r with
  | some j =>
      have tag := getLineTag hit
      have valid : (s.lines j).tag ≠ -1 := by
        rw [tag]
        exact readable.addressed.tag
      refine transferGood good readable tag (good.filled j ?_ valid)
      rintro ⟨busy, rfl⟩
      exact apart ⟨busy, hit⟩
  | none =>
      dsimp only
      cases free : s.pendingRefill with
      | true =>
          obtain ⟨next, waits, good'⟩ := refillBusyGood answer good readable free
          rw [waits]
          exact good'
      | false =>
          rcases answers with rfl | rfl
          · obtain ⟨next, j, refilled, good', tag, filled⟩ := refillNowGood noShift good readable free
            rw [refilled]
            exact transferGood good' readable tag filled
          · obtain ⟨next, waits, good'⟩ := refillLaterGood noShift good readable free
            rw [waits]
            exact good'

def State.landed (c : Config) (memory : Nat → Byte) (s : State) (rest : List Req) : State :=
  { s with
    lines := Function.update s.lines s.refillLine ⟨s.refillTag, s.loaded c memory⟩
    refillPendingReqs := rest
    pendingRefill := false }

theorem landedGood {rest : List Req} (good : Good c memory place s) (busy : s.pendingRefill = true)
    (queue : s.refillPendingReqs = r :: rest) :
    Good c memory place (s.landed c memory rest) ∧ Filled c memory ((s.landed c memory rest).lines s.refillLine) := by
  have refilling := good.pending busy
  have new : (s.landed c memory rest).lines s.refillLine = ⟨s.refillTag, s.loaded c memory⟩ := Function.update_self _ _ _
  have filled : Filled c memory ⟨s.refillTag, s.loaded c memory⟩ := by
    intro i inside
    change (if i < c.lineSize then memory (s.refillReq.addr.toNat + i) else _) = _
    rw [if_pos inside, refilling.addr]
  refine ⟨⟨good.enabled, ?_, ?_, fun pending => by contradiction, good.replies⟩, by rw [new]; exact filled⟩
  · intro j _ tagged
    by_cases same : j = s.refillLine
    · rw [same, new]
      exact filled
    · have old : (s.landed c memory rest).lines j = s.lines j := Function.update_of_ne same _ _
      rw [old] at tagged ⊢
      exact good.filled j (fun both => same both.2) tagged
  · intro waiting member
    exact good.queue waiting (by rw [queue]; exact List.mem_cons_of_mem _ member)

theorem refillResponseGood {next : State} (good : Good c memory place s) (busy : s.pendingRefill = true)
    (taken : s.refillResponse c memory = some next) : Good c memory place next := by
  have refilling := good.pending busy
  obtain ⟨r, rest, queue, tag⟩ := refilling.first
  have readable := good.queue r (by rw [queue]; exact List.mem_cons_self)
  obtain ⟨bytes, buffer⟩ := Option.isSome_iff_exists.mp readable.inLine.buffer
  obtain ⟨good', filled⟩ := landedGood good busy queue
  have served : next = ((s.landed c memory rest).transfer s.refillLine r false).checkState := by
    unfold State.refillResponse at taken
    simp only [queue, buffer, refilling.line, State.setLine, Function.update_self, Function.update_idem,
      Option.some.injEq] at taken
    exact taken.symm
  rw [served]
  refine checkStateGood (transferGood good' readable ?_ filled)
  have new : (s.landed c memory rest).lines s.refillLine = ⟨s.refillTag, s.loaded c memory⟩ := Function.update_self _ _ _
  rw [new, tag]

theorem fsmHandlerGood {answer : IoStatus} (noShift : c.refillShift = 0) (good : Good c memory place s)
    (answers : Answers answer) : Good c memory place (s.fsmHandler c memory answer) := by
  have quiet : Good c memory place { s with fsmEvent := false } :=
    ⟨good.enabled, good.filled, good.queue, fun pending => refillingKept (good.pending pending) ⟨rfl, rfl, rfl, rfl⟩, good.replies⟩
  unfold State.fsmHandler
  dsimp only
  split
  · rename_i r rest free queue
    have readable : Readable c place r := good.queue r (by rw [queue]; exact List.mem_cons_self)
    have popped : Good c memory place { s with fsmEvent := false, refillPendingReqs := rest } :=
      ⟨good.enabled, good.filled, fun waiting member => good.queue waiting (by rw [queue]; exact List.mem_cons_of_mem _ member),
        fun pending => absurd (free.symm.trans pending) (by simp), good.replies⟩
    exact checkStateGood (handleReqGood noShift popped readable answers (fun both => by simp [free] at both))
  · exact checkStateGood quiet

theorem movesGood {i : Nat} {next : State} (good : Good c memory place s)
    (taken : step c memory s (.moves i) = some next) : Good c memory place next := by
  obtain ⟨busy, done⟩ := Option.ite_none_right_eq_some.mp taken
  cases done
  have refilling := good.pending busy.1
  refine ⟨good.enabled, ?_, good.queue, fun _ => ⟨refilling.line, refilling.addr, refilling.first⟩, good.replies⟩
  intro j apart tagged
  have other : j ≠ s.refillReq.line := fun same => apart ⟨busy.1, same.trans refilling.line⟩
  simp only [State.setLine, Function.update_of_ne other] at tagged ⊢
  exact good.filled j apart tagged

theorem clearedGood {lines : Nat → Line} (good : Good c memory place s)
    (cleared : ∀ j, (lines j).tag = -1 ∨ lines j = s.lines j) : Good c memory place { s with lines := lines } := by
  refine ⟨good.enabled, ?_, good.queue, fun pending => refillingKept (good.pending pending) ⟨rfl, rfl, rfl, rfl⟩, good.replies⟩
  intro j apart tagged
  rcases cleared j with gone | kept
  · contradiction
  · change Filled c memory (lines j)
    change (lines j).tag ≠ -1 at tagged
    rw [kept] at tagged ⊢
    exact good.filled j apart tagged

theorem stepGood {a : Action} {next : State} (noShift : c.refillShift = 0) (good : Good c memory place s)
    (allowed : ReadsApart c place s a) (taken : step c memory s a = some next) : Good c memory place next := by
  cases a with
  | req r answer =>
      obtain ⟨here, inLine, addressed, answers, apart⟩ := allowed
      cases taken
      have handled : s.req c memory r answer = s.handleReq c memory r answer := if_pos good.enabled
      rw [handled]
      exact handleReqGood noShift good ⟨here, inLine, addressed⟩ answers apart
  | moves i => exact movesGood good taken
  | refillResponse =>
      simp only [step] at taken
      split at taken
      · rename_i busy
        exact refillResponseGood good busy taken
      · contradiction
  | fsm answer =>
      obtain ⟨-, done⟩ := Option.ite_none_right_eq_some.mp taken
      cases done
      exact fsmHandlerGood noShift good allowed
  | flush =>
      cases taken
      refine clearedGood good (fun j => ?_)
      dsimp only
      split
      · exact .inl rfl
      · exact .inr rfl
  | flushLineAddr addr =>
      cases taken
      exact ⟨good.enabled, good.filled, good.queue, fun pending => refillingKept (good.pending pending) ⟨rfl, rfl, rfl, rfl⟩, good.replies⟩
  | flushLine =>
      cases taken
      refine clearedGood good (fun j => ?_)
      dsimp only
      split
      · exact .inl rfl
      · exact .inr rfl
  | enable active =>
      cases taken
      exact ⟨allowed, good.filled, good.queue, fun pending => refillingKept (good.pending pending) ⟨rfl, rfl, rfl, rfl⟩, good.replies⟩

end Invariant

section Runs

variable {c} {memory} {s last : State} {trace : List (Action × State)}

structure Built (s : State) : Prop where
  enabled : s.enabled = true
  lines : ∀ j, (s.lines j).tag = -1
  queue : s.refillPendingReqs = []
  free : s.pendingRefill = false
  replies : s.replies = []

theorem builtGood (c : Config) (memory : Nat → Byte) (place : Nat → Prop) (built : Built s) :
    Good c memory place s :=
  ⟨built.enabled, fun j _ tagged => absurd (built.lines j) tagged, by simp [built.queue], by simp [built.free],
    by simp [built.replies]⟩

def atLineStart (c : Config) (addr : Nat) : Prop := addr % c.lineSize = 0

instance : DecidablePred (atLineStart c) := fun addr => inferInstanceAs (Decidable (addr % c.lineSize = 0))

theorem readsApartLow {a : Action} {place : Nat → Prop} (allowed : ReadsApart c place s a) :
    ReadsApart c (fun addr => place addr ∧ addr < 2 ^ 32) s a := by
  cases a with
  | req r answer =>
      obtain ⟨here, inLine, addressed, rest⟩ := allowed
      exact ⟨⟨here, addressed.low⟩, inLine, addressed, rest⟩
  | _ => exact allowed

theorem directStart (noShift : c.refillShift = 0) {addr : Nat} (start : atLineStart c addr) (low : addr < 2 ^ 32) :
    addr / c.lineSize * c.lineSize + c.addOffset.toNat = c.directAddr addr := by
  have aligned : addr / c.lineSize * c.lineSize = addr := Nat.div_mul_cancel (Nat.dvd_of_mod_eq_zero start)
  have offset := c.addOffset.isLt
  unfold Config.directAddr
  rw [aligned, noShift, pow_zero, Nat.mul_one, Nat.mod_eq_of_lt (by omega)]

/- Whatever the offset in the line, a read gets the first bytes of the line. -/
theorem repliesLineStart {place : Nat → Prop} (noShift : c.refillShift = 0) (built : Built s)
    (run : Run (step c memory) (ReadsApart c place) s trace last) :
    ∀ r ∈ last.replies, (place r.addr ∧ r.addr < 2 ^ 32) ∧ LineStart c memory r := by
  have low := Machine.runWeaken (fun _ _ allowed => readsApartLow allowed) run
  have good := Machine.runInvariant low (builtGood c memory _ built)
    (fun _ _ _ good allowed taken => stepGood noShift good allowed taken)
  exact good.replies

theorem cacheTransparent (noShift : c.refillShift = 0) (built : Built s)
    (run : Run (step c memory) (ReadsApart c (atLineStart c)) s trace last) :
    ∀ r ∈ last.replies, r.data = some (bytesFrom memory (c.directAddr r.addr) r.size) := by
  intro r member
  obtain ⟨⟨start, low⟩, bytes⟩ := repliesLineStart noShift built run r member
  rw [← directStart noShift start low]
  exact bytes

def small : Config := ⟨0, 1, 2, 0, 0x100⟩

def counting (addr : Nat) : Byte := BitVec.ofNat 8 addr

def built : State where
  lines := fun _ => ⟨-1, fun _ => 0⟩
  lruOut := 0
  enabled := true
  refillPendingReqs := []
  refillReq := ⟨0, 0⟩
  refillLine := 0
  refillTag := 0
  pendingRefill := false
  fsmEvent := false
  flushLineAddr := 0
  replies := []

theorem builtBuilt : Built built := ⟨rfl, fun _ => rfl, rfl, rfl, rfl⟩

def read (addr size : Nat) : Req := ⟨addr, size, false, some []⟩

/- A refill answered later, a read that waits behind it, a flush, and a refill answered at once. -/
def queued : List Action :=
  [.req (read 8 4) .pending, .req (read 12 2) .ok, .moves 1, .refillResponse, .fsm .pending, .flush, .refillResponse,
    .req (read 8 2) .ok]

theorem cacheTransparentQueued :
    (Machine.reach (step small counting) (ReadsApart small (atLineStart small)) built queued).replies.map Req.data =
      [some [8, 9, 10, 11], some [12, 13], some [8, 9]] ∧
    ∀ r ∈ (Machine.reach (step small counting) (ReadsApart small (atLineStart small)) built queued).replies,
      r.data = some (bytesFrom counting (small.directAddr r.addr) r.size) := by
  obtain ⟨trace, run, _⟩ := Machine.reachRun (step small counting) (ReadsApart small (atLineStart small)) built queued
    (by decide +kernel)
  exact ⟨by decide +kernel, cacheTransparent rfl builtBuilt run⟩

def insideLine : List Action := [.req (read 9 1) .ok]

/- Address 0 is read while the only line of its set is refilled for address 8. -/
def duringRefill : List Action := [.req (read 0 4) .ok, .req (read 8 4) .pending, .moves 0, .req (read 0 4) .ok]

theorem offsetIgnored :
    (∃ trace last, Run (step small counting) Machine.anyStep built trace last ∧ trace.map Prod.fst = insideLine ∧
      last.replies = [⟨9, 1, false, some [8]⟩] ∧ bytesFrom counting (small.directAddr 9) 1 = [9]) ∧
    ∃ trace last, Run (step small counting) Machine.anyStep built trace last ∧ trace.map Prod.fst = duringRefill ∧
      last.replies = [⟨0, 4, false, some [0, 1, 2, 3]⟩, ⟨0, 4, false, some [8, 1, 2, 3]⟩] ∧
      bytesFrom counting (small.directAddr 0) 4 = [0, 1, 2, 3] := by
  obtain ⟨inside, first, labels⟩ := Machine.reachRun (step small counting) Machine.anyStep built insideLine
    (by decide +kernel)
  obtain ⟨during, second, labels'⟩ := Machine.reachRun (step small counting) Machine.anyStep built duringRefill
    (by decide +kernel)
  exact ⟨⟨inside, _, first, labels, by decide +kernel, by decide +kernel⟩,
    ⟨during, _, second, labels', by decide +kernel, by decide +kernel⟩⟩

end Runs

end Gvsoc.Cache
