import Gvsoc.CacheWatch

/-! Valid lines. A line with a tag has the bytes that the port returned for it, under what was
stored since, and no flush came after its refill was issued, as long as a pending or failed refill
changes no byte of a line with a tag and no flush meets a pending refill. -/
namespace Gvsoc.Cache
open Bytes (Byte)
open Io (IoStatus)
open Machine (Run)

variable (c : Config)

def LinesValid (w : Watched) : Prop :=
  ∀ j, (w.cache.lines j).tag ≠ -1 → ∃ fill, w.fills j = some fill ∧ fill.tag = (w.cache.lines j).tag ∧
    fill.stale = false ∧ ∀ i < c.lineSize, (w.cache.lines j).data i = (w.stores j i).getD (fill.bytes i)

def State.asks (s : State) (r : Req) : Prop := s.getLine c r = none ∧ s.pendingRefill = false

/- The port that fails writes only to a line without a tag, and none is denied. -/
def Gentle (s : State) (r : Req) (answer : IoStatus) (left : Nat → Option Byte) : Prop :=
  match answer with
  | .ok => True
  | .pending => True
  | .invalid => (s.lines (c.victim s r)).tag = -1 ∨ ∀ i < c.lineSize, left i = none
  | .denied => False

def State.refillsUntagged (s : State) : Prop := (s.lines s.refillReq.line).tag = -1

def State.installs (s : State) : Bool :=
  s.pendingRefill && s.refillPendingReqs.head?.any (fun r => r.data.isSome)

/- The victim keeps its tag until the response, which sets the one of the refill for a request with a buffer only. -/
def Careful (w : Watched) : Event → Prop
  | .req r answer left => w.cache.enabled = true → w.cache.asks c r → Gentle c w.cache r answer left
  | .moves i => w.cache.refillsUntagged ∨ (w.cache.lines w.cache.refillReq.line).data i = w.memory (w.cache.refillReq.addr.toNat + i)
  | .refillResponse => w.cache.refillsUntagged ∨ w.cache.installs = true
  | .fsm answer left => ∀ r ∈ w.cache.refillPendingReqs.head?, w.cache.asks c r → Gentle c w.cache r answer left
  | .flush => w.cache.installs = false
  | .flushLine => w.cache.installs = true → w.cache.refillTag ≠ w.cache.flushLineAddr >>> c.lineSizeBits
  | _ => True

instance (s : State) (r : Req) (answer : IoStatus) (left : Nat → Option Byte) : Decidable (Gentle c s r answer left) :=
  match answer with
  | .ok => .isTrue trivial
  | .pending => .isTrue trivial
  | .invalid => inferInstanceAs (Decidable (_ ∨ _))
  | .denied => .isFalse id

instance (s : State) : Decidable s.refillsUntagged := inferInstanceAs (Decidable (_ = _))

instance (s : State) (r : Req) : Decidable (s.asks c r) := inferInstanceAs (Decidable (_ ∧ _))

instance (w : Watched) (e : Event) : Decidable (Careful c w e) :=
  match e with
  | .req _ _ _ => inferInstanceAs (Decidable (_ → _ → _))
  | .fsm answer left => inferInstanceAs (Decidable (∀ r ∈ w.cache.refillPendingReqs.head?, w.cache.asks c r → Gentle c w.cache r answer left))
  | .flush => inferInstanceAs (Decidable (_ = _))
  | .flushLine => inferInstanceAs (Decidable (_ → _ ≠ _))
  | .moves _ => inferInstanceAs (Decidable (_ ∨ _))
  | .refillResponse => inferInstanceAs (Decidable (_ ∨ _))
  | .flushLineAddr _ => .isTrue trivial
  | .enable _ => .isTrue trivial
  | .memory _ => .isTrue trivial

section Invariant

def InSet (j : Nat) (tag : BitVec 32) : Prop :=
  c.lineIndexOf tag * c.nbWays ≤ j ∧ j < c.lineIndexOf tag * c.nbWays + c.nbWays

def LineSound (j : Nat) (line : Line) (filled : Option Fill) (stores : Nat → Option Byte) : Prop :=
  line.tag ≠ -1 → InSet c j line.tag ∧ ∃ fill, filled = some fill ∧ fill.tag = line.tag ∧ fill.stale = false ∧
    ∀ i < c.lineSize, line.data i = (stores i).getD (fill.bytes i)

def AllSound (w : Watched) : Prop := ∀ j, LineSound c j (w.cache.lines j) (w.fills j) (w.stores j)

structure Apart (w : Watched) : Prop where
  line : w.cache.refillReq.line = w.cache.refillLine
  place : InSet c w.cache.refillReq.line w.cache.refillTag
  queue : w.cache.refillPendingReqs ≠ []
  fresh : w.cache.installs = true → w.outdated = false

structure Sound (w : Watched) : Prop where
  lines : AllSound c w
  quiet : w.granted = false
  pending : w.cache.pendingRefill = true → Apart c w

variable {c} {w next : Watched} {s : State} {r : Req} {answer : IoStatus} {id j : Nat} {left : Nat → Option Byte}

theorem linesValid (sound : Sound c w) : LinesValid c w := by
  intro j tagged
  exact (sound.lines j tagged).2

theorem untagged {line : Line} {filled : Option Fill} {stores : Nat → Option Byte} (gone : line.tag = -1) :
    LineSound c j line filled stores := fun tagged => absurd gone tagged

theorem victimInSet (s : State) (r : Req) : InSet c (c.victim s r) (c.tagOf r.addr) := by
  have positive : 0 < c.nbWays := Nat.two_pow_pos _
  have bound := Nat.mod_lt (s.stepLru c).2 positive
  unfold InSet Config.victim
  omega

theorem inSetBound {tag : BitVec 32} (place : InSet c j tag) : j < c.nbSets * c.nbWays := by
  have small : c.lineIndexOf tag + 1 ≤ c.nbSets := by
    have positive : 0 < c.nbSets := Nat.two_pow_pos _
    have mask : c.lineIndexOf tag ≤ c.nbSets - 1 := by
      unfold Config.lineIndexOf
      rw [BitVec.toNat_and, BitVec.toNat_ofNat]
      exact le_trans Nat.and_le_right (Nat.mod_le _ _)
    omega
  calc j < (c.lineIndexOf tag + 1) * c.nbWays := by rw [Nat.add_mul, Nat.one_mul]; exact place.2
    _ ≤ c.nbSets * c.nbWays := Nat.mul_le_mul_right _ small

section Transfer

theorem transferKeeps (isWrite : Bool) : (s.transfer j r isWrite).refillReq = s.refillReq ∧
    (s.transfer j r isWrite).refillLine = s.refillLine ∧ (s.transfer j r isWrite).refillTag = s.refillTag ∧
    (s.transfer j r isWrite).refillPendingReqs = s.refillPendingReqs ∧
    (s.transfer j r isWrite).pendingRefill = s.pendingRefill ∧ (s.transfer j r isWrite).fsmEvent = s.fsmEvent := by
  unfold State.transfer
  split
  · exact ⟨rfl, rfl, rfl, rfl, rfl, rfl⟩
  · split <;> exact ⟨rfl, rfl, rfl, rfl, rfl, rfl⟩

/- The order of the two in the history does not matter. -/
theorem transferFilled (tag : BitVec 32) (stale isWrite : Bool) :
    { w with cache := s.transfer j r isWrite }.filled j tag stale =
      { { w with cache := s }.filled j tag stale with cache := s.transfer j r isWrite } := by
  unfold Watched.filled
  dsimp only
  rw [(transferKeeps isWrite).1]

theorem transferSound (sound : AllSound c w) :
    AllSound c ({ w with cache := w.cache.transfer j r r.isWrite }.stored j r) := by
  intro k
  unfold State.transfer Watched.stored
  cases buffer : r.data with
  | none => cases r.isWrite <;> exact sound k
  | some bytes =>
      cases r.isWrite with
      | false => exact sound k
      | true =>
          by_cases same : k = j
          · subst same
            intro tagged
            simp only [State.setLine, if_true, Function.update_self] at tagged ⊢
            obtain ⟨place, fill, filled, tag, stale, matching⟩ := sound k tagged
            refine ⟨place, fill, filled, tag, stale, ?_⟩
            intro i inside
            by_cases covered : i < r.size
            · simp [covered]
            · simp [covered, matching i inside]
          · intro tagged
            simp only [State.setLine, if_true, Function.update_of_ne same] at tagged ⊢
            exact sound k tagged

end Transfer

section Steps

theorem apartKept (apart : Apart c w)
    (req : next.cache.refillReq = w.cache.refillReq) (line : next.cache.refillLine = w.cache.refillLine)
    (tag : next.cache.refillTag = w.cache.refillTag) (queue : next.cache.refillPendingReqs = w.cache.refillPendingReqs)
    (busy : next.cache.pendingRefill = w.cache.pendingRefill) (outdated : next.outdated = w.outdated) : Apart c next := by
  refine ⟨?_, ?_, ?_, ?_⟩
  · rw [req, line]
    exact apart.line
  · rw [req, tag]
    exact apart.place
  · rw [queue]
    exact apart.queue
  · intro installs
    rw [outdated]
    refine apart.fresh ?_
    unfold State.installs at installs ⊢
    rwa [busy, queue] at installs

@[simp] theorem storedGranted (w : Watched) (j : Nat) (r : Req) : (w.stored j r).granted = w.granted := by
  unfold Watched.stored
  split <;> rfl

@[simp] theorem storedOutdated (w : Watched) (j : Nat) (r : Req) : (w.stored j r).outdated = w.outdated := by
  unfold Watched.stored
  split <;> rfl

theorem serveSound (sound : Sound c w) : Sound c ({ w with cache := w.cache.transfer j r r.isWrite }.stored j r) := by
  obtain ⟨req, line, tag, queue, busy, -⟩ := transferKeeps (s := w.cache) (j := j) (r := r) r.isWrite
  refine ⟨transferSound sound.lines, ?_, ?_⟩
  · rw [storedGranted]
    exact sound.quiet
  · intro pending
    rw [storedCache] at pending
    have apart := sound.pending (busy.symm.trans pending)
    refine apartKept apart ?_ ?_ ?_ ?_ ?_ ?_
    all_goals simp only [storedCache, storedOutdated, req, line, tag, queue, busy]

theorem waitSound (sound : Sound c w) (busy : w.cache.pendingRefill = true) :
    Sound c { w with
      cache := { w.cache with refillPendingReqs := w.cache.refillPendingReqs ++ [r] }
      waiting := w.waiting ++ [id] } := by
  refine ⟨sound.lines, sound.quiet, fun _ => ?_⟩
  obtain ⟨line, place, queue, fresh⟩ := sound.pending busy
  refine ⟨line, place, by simp, ?_⟩
  intro installs
  refine fresh ?_
  unfold State.installs at installs ⊢
  cases shape : w.cache.refillPendingReqs with
  | nil => exact absurd shape queue
  | cons first rest => simpa [shape] using installs

theorem filledSound (sound : Sound c w) (free : w.cache.pendingRefill = false) :
    let cache := (w.cache.asked c r).setLine (c.victim w.cache r) ⟨c.tagOf r.addr, (w.cache.asked c r).loaded c w.memory⟩
    Sound c ({ w with cache := cache }.filled (c.victim w.cache r) (c.tagOf r.addr) false) := by
  refine ⟨?_, sound.quiet, fun pending => absurd (free.symm.trans pending) (by simp)⟩
  intro k
  by_cases same : k = c.victim w.cache r
  · subst same
    intro _
    simp only [Watched.filled, State.setLine, Function.update_self]
    refine ⟨victimInSet _ _, _, rfl, rfl, rfl, ?_⟩
    intro i inside
    simp [State.loaded, inside]
  · simp only [Watched.filled, State.setLine, Function.update_of_ne same]
    exact sound.lines k

theorem laterSound (sound : Sound c w) :
    Sound c { w with
      cache := { w.cache.asked c r with
        refillPendingReqs := r :: w.cache.refillPendingReqs
        refillLine := c.victim w.cache r
        refillTag := c.tagOf r.addr
        pendingRefill := true }
      waiting := id :: w.waiting
      outdated := false } :=
  ⟨sound.lines, sound.quiet, fun _ => ⟨rfl, victimInSet _ _, by simp, fun _ => rfl⟩⟩

theorem failedSound (sound : Sound c w) (free : w.cache.pendingRefill = false)
    (harmless : (w.cache.lines (c.victim w.cache r)).tag = -1 ∨ ∀ i < c.lineSize, left i = none) :
    Sound c { w with cache := (w.cache.asked c r).spoil (c.victim w.cache r) left } := by
  refine ⟨?_, sound.quiet, fun pending => absurd (free.symm.trans pending) (by simp)⟩
  intro k
  by_cases same : k = c.victim w.cache r
  · subst same
    simp only [State.spoil, State.setLine, Function.update_self]
    rcases harmless with empty | nothing
    · exact untagged empty
    · intro tagged
      obtain ⟨place, fill, filled, tag, stale, matching⟩ := sound.lines _ tagged
      refine ⟨place, fill, filled, tag, stale, ?_⟩
      intro i inside
      simp only [nothing i inside, Option.getD_none]
      exact matching i inside
  · simp only [State.spoil, State.setLine, Function.update_of_ne same]
    exact sound.lines k

theorem handleSound (id : Nat) (sound : Sound c w) (gentle : w.cache.asks c r → Gentle c w.cache r answer left) :
    Sound c (w.handle c id r answer left).1 := by
  unfold Watched.handle State.handleReq
  cases hit : w.cache.getLine c r with
  | some j => exact serveSound sound
  | none =>
      cases free : w.cache.pendingRefill with
      | true =>
          simp only [refillWaits answer free]
          exact waitSound sound free
      | false =>
          have harmless := gentle ⟨hit, free⟩
          simp only [refillAsks answer free]
          cases answer with
          | ok =>
              dsimp only
              rw [transferFilled]
              exact serveSound (filledSound sound free)
          | pending => exact laterSound sound
          | invalid => exact failedSound sound free harmless
          | denied => exact harmless.elim

@[simp] theorem checkStateLines : s.checkState.lines = s.lines := by
  unfold State.checkState
  split <;> rfl

@[simp] theorem checkStatePending : s.checkState.pendingRefill = s.pendingRefill := by
  unfold State.checkState
  split <;> rfl

@[simp] theorem checkStateQueue : s.checkState.refillPendingReqs = s.refillPendingReqs := by
  unfold State.checkState
  split <;> rfl

theorem checkStateSound (sound : Sound c w) : Sound c { w with cache := w.cache.checkState } := by
  unfold State.checkState
  split
  · refine ⟨sound.lines, sound.quiet, fun pending => ?_⟩
    exact apartKept (sound.pending pending) rfl rfl rfl rfl rfl rfl
  · exact sound

/- The response writes the line; it sets the tag if the request has a buffer. -/
theorem responseLines {rest : List Req} {memory : Nat → Byte} {s' : State} (line : s.refillReq.line = s.refillLine)
    (queue : s.refillPendingReqs = r :: rest) (response : s.refillResponse c memory = some s') :
    s'.pendingRefill = false ∧ s'.refillPendingReqs = rest ∧ s'.lines = Function.update s.lines s.refillReq.line
      ⟨if r.data.isSome then s.refillTag else (s.lines s.refillReq.line).tag, s.loaded c memory⟩ := by
  unfold State.refillResponse at response
  simp only [queue] at response
  cases buffer : r.data with
  | none =>
      simp only [buffer, Option.some.injEq] at response
      subst response
      simp [State.setLine]
  | some bytes =>
      simp only [buffer, Option.some.injEq] at response
      subst response
      simp [State.transfer, buffer, State.setLine, line]

theorem responseSound (sound : Sound c w) (allowed : Careful c w .refillResponse) (taken : watchedStep c w .refillResponse = some next) : Sound c next := by
  simp only [watchedStep, Watched.owed, sound.quiet, Bool.or_false] at taken
  split at taken
  · rename_i busy
    obtain ⟨cache, response, rfl⟩ := Option.map_eq_some_iff.mp taken
    have apart := sound.pending busy
    cases queue : w.cache.refillPendingReqs with
    | nil => exact absurd queue apart.queue
    | cons first rest =>
        obtain ⟨free, -, lines⟩ := responseLines apart.line queue response
        refine ⟨?_, rfl, fun pending => absurd (free.symm.trans pending) (by simp)⟩
        intro k
        by_cases same : k = w.cache.refillReq.line
        · subst same
          simp only [Watched.filled, lines, Function.update_self]
          cases buffer : first.data with
          | none =>
              have quiet : w.cache.installs = false := by simp [State.installs, queue, buffer]
              rcases allowed with free | installs
              · exact untagged free
              · exact absurd (quiet.symm.trans installs) Bool.false_ne_true
          | some bytes =>
              have installs : w.cache.installs = true := by simp [State.installs, busy, queue, buffer]
              intro _
              refine ⟨apart.place, _, rfl, rfl, apart.fresh installs, ?_⟩
              intro i inside
              simp [State.loaded, inside]
        · simp only [Watched.filled, lines, Function.update_of_ne same]
          exact sound.lines k
  · contradiction

theorem forwardSound (sound : Sound c w) (disabled : ¬ w.cache.enabled = true) :
    Sound c { w with cache := (w.cache.req c w.memory r answer).1 } := by
  unfold State.req
  rw [if_neg disabled]
  split
  · exact ⟨sound.lines, sound.quiet,
      fun pending => apartKept (sound.pending pending) rfl rfl rfl rfl rfl rfl⟩
  · exact sound

theorem movesSound {i : Nat} (sound : Sound c w) (allowed : Careful c w (.moves i))
    (taken : watchedStep c w (.moves i) = some next) : Sound c next := by
  simp only [watchedStep, Watched.owed, sound.quiet, Bool.or_false] at taken
  split at taken
  · rename_i busy
    cases taken
    refine ⟨?_, rfl, fun _ => apartKept (sound.pending busy.1) rfl rfl rfl rfl rfl rfl⟩
    intro k
    by_cases same : k = w.cache.refillReq.line
    · subst same
      simp only [State.setLine, Function.update_self]
      rcases allowed with free | moved
      · exact untagged free
      · rw [← moved, Function.update_eq_self]
        exact sound.lines _
    · simp only [State.setLine, Function.update_of_ne same]
      exact sound.lines k
  · contradiction

theorem replaySound (sound : Sound c w)
    (gentle : ∀ r ∈ w.cache.refillPendingReqs.head?, w.cache.asks c r → Gentle c w.cache r answer left) :
    Sound c (w.replay c answer left) := by
  unfold Watched.replay
  dsimp only
  split
  · rename_i r rest id ids free queue waiting
    have popped : Sound c { w with
        cache := { w.cache with fsmEvent := false, refillPendingReqs := rest }
        waiting := ids } :=
      ⟨sound.lines, sound.quiet, fun pending => absurd (free.symm.trans pending) (by simp)⟩
    have handled := handleSound id popped
      (gentle r (by rw [queue]; rfl))
    obtain ⟨lines, quiet, pending⟩ := checkStateSound handled
    exact ⟨lines, quiet, fun busy => apartKept (pending busy) rfl rfl rfl rfl rfl rfl⟩
  · refine checkStateSound (w := { w with cache := { w.cache with fsmEvent := false } }) ?_
    exact ⟨sound.lines, sound.quiet, fun pending => apartKept (sound.pending pending) rfl rfl rfl rfl rfl rfl⟩

theorem clearedSound {lines : Nat → Line} {fills : Nat → Option Fill} {outdated : Bool} (sound : Sound c w)
    (cleared : ∀ j, (lines j).tag = -1 ∨ lines j = w.cache.lines j ∧
      ∀ fill, InSet c j (lines j).tag → w.fills j = some fill → fill.tag = (lines j).tag → fills j = some fill)
    (meets : w.cache.installs = true → outdated = w.outdated) :
    Sound c { w with cache := { w.cache with lines := lines }, fills := fills, outdated := outdated } := by
  refine ⟨?_, sound.quiet, ?_⟩
  · intro j tagged
    rcases cleared j with gone | ⟨kept, fillKept⟩
    · exact absurd gone tagged
    · simp only [kept] at tagged fillKept ⊢
      obtain ⟨place, fill, filled, tag, rest⟩ := sound.lines j tagged
      exact ⟨place, fill, fillKept fill place filled tag, tag, rest⟩
  · intro pending
    have apart := sound.pending pending
    exact ⟨apart.line, apart.place, apart.queue, fun installs => (meets installs).trans (apart.fresh installs)⟩

theorem flushSound (sound : Sound c w) (apart : w.cache.installs = false)
    (taken : watchedStep c w .flush = some next) : Sound c next := by
  cases taken
  refine clearedSound sound ?_ (fun installs => by simp [apart] at installs)
  intro j
  by_cases inside : j < c.nbSets * c.nbWays
  · exact .inl (by simp [inside])
  · refine .inr ⟨by simp [inside], fun fill place => ?_⟩
    exact absurd (inSetBound place) inside

theorem flushLineSound (sound : Sound c w)
    (apart : w.cache.installs = true → w.cache.refillTag ≠ w.cache.flushLineAddr >>> c.lineSizeBits)
    (taken : watchedStep c w .flushLine = some next) : Sound c next := by
  cases taken
  refine clearedSound sound ?_ (fun installs => by simp [apart installs])
  intro j
  dsimp only
  split
  · exact .inl rfl
  · rename_i elsewhere
    refine .inr ⟨rfl, ?_⟩
    intro fill place filled tag
    have other : fill.tag ≠ w.cache.flushLineAddr >>> c.lineSizeBits := by
      intro same
      rw [tag] at same
      rw [same] at place
      exact elsewhere ⟨place.1, place.2, same⟩
    rw [filled]
    simp [other]

end Steps

theorem watchedStepSound {e : Event} (sound : Sound c w) (allowed : Careful c w e)
    (taken : watchedStep c w e = some next) : Sound c next := by
  cases e with
  | req r answer left =>
      simp only [watchedStep] at taken
      split at taken
      · rename_i enabled
        cases taken
        obtain ⟨lines, quiet, pending⟩ := handleSound w.answers.length sound (allowed enabled)
        exact ⟨lines, quiet, fun busy => apartKept (pending busy) rfl rfl rfl rfl rfl rfl⟩
      · rename_i disabled
        cases taken
        exact forwardSound sound disabled
  | moves i => exact movesSound sound allowed taken
  | refillResponse => exact responseSound sound allowed taken
  | fsm answer left =>
      simp only [watchedStep] at taken
      split at taken
      · cases taken
        exact replaySound sound allowed
      · contradiction
  | flush => exact flushSound sound allowed taken
  | flushLine => exact flushLineSound sound allowed taken
  | _ =>
      cases taken
      exact ⟨sound.lines, sound.quiet,
        fun pending => apartKept (sound.pending pending) rfl rfl rfl rfl rfl rfl⟩

end Invariant

section Runs

variable {c} {w last : Watched} {trace : List (Event × Watched)}

structure Unused (w : Watched) : Prop where
  lines : ∀ j, (w.cache.lines j).tag = -1
  queue : w.cache.refillPendingReqs = []
  free : w.cache.pendingRefill = false
  granted : w.granted = false
  waiting : w.waiting = []
  requests : w.requests = []
  answers : w.answers = []
  resps : w.resps = []

theorem unusedSound (c : Config) (unused : Unused w) : Sound c w :=
  ⟨fun j => untagged (unused.lines j), unused.granted, fun pending => by simp [unused.free] at pending⟩

theorem validLines (unused : Unused w) (run : Run (watchedStep c) (Careful c) w trace last) : LinesValid c last := by
  have sound := Machine.runInvariant run (unusedSound c unused)
    (fun _ _ _ sound allowed taken => watchedStepSound sound allowed taken)
  exact linesValid sound

def unused : Watched where
  cache := built
  memory := counting
  granted := false
  fills := fun _ => none
  stores := fun _ _ => none
  outdated := false
  waiting := []
  requests := []
  answers := []
  resps := []

theorem unusedUnused : Unused unused := ⟨fun _ => rfl, rfl, rfl, rfl, rfl, rfl, rfl, rfl⟩

def nothing : Nat → Option Byte := fun _ => none

/- A refill answered later while the memory changes, a write to the line, a failed refill of the
other set, a flush, a line that is there at once, and a hit on it while it waits to be replaced. -/
def carefully : List Event :=
  [.req (read 8 4) .pending nothing, .moves 1, .memory (fun addr => BitVec.ofNat 8 (addr + 1)), .refillResponse,
    .req ⟨8, 2, true, some [7, 7]⟩ .ok nothing, .req (read 4 4) .invalid (fun i => if i = 0 then some 99 else none), .flush,
    .req (read 0 4) .ok nothing, .req ⟨0, 1, true, some [5]⟩ .ok nothing, .req (read 8 4) .pending nothing,
    .req (read 0 4) .ok nothing]

theorem validLinesCarefully :
    let last := Machine.reach (watchedStep small) (Careful small) unused carefully
    (last.cache.lines 0).tag = 0 ∧ (List.range 4).map (last.cache.lines 0).data = [5, 2, 3, 4] ∧ LinesValid small last := by
  obtain ⟨trace, run, _⟩ := Machine.reachRun (watchedStep small) (Careful small) unused carefully (by decide +kernel)
  exact ⟨by decide +kernel, by decide +kernel, validLines unusedUnused run⟩

/- The line of address 0 is overwritten for address 8, under the tag of address 0. -/
def overwritten : List Event := [.req (read 0 4) .ok nothing, .req (read 8 4) .pending nothing, .moves 0]

/- The flush comes between the refill and its response. -/
def flushedEarly : List Event := [.req (read 0 4) .pending nothing, .flush, .refillResponse]

theorem invalidLines :
    (∃ trace last, Run (watchedStep small) Machine.anyStep unused trace last ∧ trace.map Prod.fst = overwritten ∧
      ¬ LinesValid small last) ∧
    ∃ trace last, Run (watchedStep small) Machine.anyStep unused trace last ∧ trace.map Prod.fst = flushedEarly ∧
      ¬ LinesValid small last := by
  obtain ⟨trace, run, labels⟩ := Machine.reachRun (watchedStep small) Machine.anyStep unused overwritten (by decide +kernel)
  obtain ⟨trace', run', labels'⟩ := Machine.reachRun (watchedStep small) Machine.anyStep unused flushedEarly (by decide +kernel)
  refine ⟨⟨trace, _, run, labels, ?_⟩, ⟨trace', _, run', labels', ?_⟩⟩
  · intro valid
    obtain ⟨fill, found, -, -, matching⟩ := valid 0 (by decide +kernel)
    have returned : ((Machine.reach (watchedStep small) Machine.anyStep unused overwritten).fills 0).map (fun fill => fill.bytes 0) =
        some 0 := by decide +kernel
    have byte : 8 = ((none : Option Byte)).getD (fill.bytes 0) := matching 0 (by decide)
    rw [found] at returned
    simp_all
  · intro valid
    obtain ⟨fill, found, -, fresh, -⟩ := valid 0 (by decide +kernel)
    have stale : ((Machine.reach (watchedStep small) Machine.anyStep unused flushedEarly).fills 0).map Fill.stale = some true := by
      decide +kernel
    rw [found] at stale
    simp [fresh] at stale

end Runs

end Gvsoc.Cache
