import Gvsoc.ClockLinks
import Gvsoc.TimeSchedule

/-! The clock's own share of every operation, cut loose from the time engine: it depends
on the engine only through the running flag and the engine time. All of them keep the
events linked as their flags say. -/
namespace Gvsoc.ClockEngine

variable {ε : Type} [DecidableEq ε] {k : Clock ε} {e f : ε} {n time : Int} {running : Bool}

section Share

def Clock.enqueue (k : Clock ε) (running : Bool) (time : Int) (e : ε) (n : Int) : Clock ε :=
  let k := (k.setEvent e {k.event e with enqueued := true}).sync running time
  if running ∧ n < 32 then k.enqueueToCycle e n else k.enqueueDelayed e n

def Clock.cancel (k : Clock ε) (e : ε) : Clock ε :=
  if (k.event e).enqueued then
    (k.unlink e).setEvent e {(k.unlink e).event e with enqueued := false}
  else k

def Clock.reenqueue (k : Clock ε) (running : Bool) (time : Int) (e : ε) (n : Int) : Clock ε :=
  if (k.event e).enqueued ∧ (k.event e).cycle ≤ k.cycles + n then k
  else
    let done := (k.cancel e).enqueue running time e n
    done.setEvent e {done.event e with cycle := k.cycles + n}

def Clock.applyFrequency (k : Clock ε) (frequency : Int) : Clock ε :=
  if 0 < frequency then {k with period := periodOf frequency}
  else if frequency = 0 then {k with period := 0}
  else k

def Clock.perform (k : Clock ε) (running : Bool) (time : Int) : Op ε → Clock ε
  | .enqueue e n => k.enqueue running time e n
  | .enqueueExt e n => (k.sync running time).enqueue running time e n
  | .reenqueue e n => k.reenqueue running time e n
  | .reenqueueExt e n => (k.sync running time).reenqueue running time e n
  | .cancel e => k.cancel e
  | .sync => k.sync running time
  | .applyFrequency f => k.applyFrequency f

end Share

section System

omit [DecidableEq ε] in
theorem syncRunning (k : Clock ε) (time : Int) : k.sync true time = k := rfl

omit [DecidableEq ε] in
theorem syncPeriod (k : Clock ε) : (k.sync running time).period = k.period := by
  unfold Clock.sync Clock.update
  split
  · split
    · rfl
    · dsimp only
      split <;> rfl
  · rfl

variable {κ : Type} [DecidableEq κ] {s : System ε κ}

/- `enqueue` tests the running flag before `sync`, which tests it again. -/
omit [DecidableEq ε] [DecidableEq κ] in
theorem enqueueGuard (s : System ε κ) : (if !s.running then s.sync else s) = s.sync := by
  cases h : s.running with
  | true => simp [System.sync, h, syncRunning]
  | false => rfl

theorem enqueueSplit (s : System ε κ) (e : ε) (n : Int) :
    let k := (s.clock.setEvent e {s.clock.event e with enqueued := true}).sync s.running s.engine.time
    s.enqueue e n = if s.running ∧ n < 32 then {s with clock := k.enqueueToCycle e n}
      else {s with clock := k}.enqueueOther e n := by
  unfold System.enqueue
  dsimp only
  rw [enqueueGuard]
  rfl

theorem enqueueParts (s : System ε κ) (e : ε) (n : Int) :
    (s.enqueue e n).clock = s.clock.enqueue s.running s.engine.time e n ∧
    (s.enqueue e n).engine = (if s.running ∧ n < 32 ∨ s.clock.period = 0 then s.engine
      else s.engine.enqueue .clock (n * s.clock.period)) ∧
    (s.enqueue e n).control = s.control := by
  rw [enqueueSplit]
  unfold Clock.enqueue
  dsimp only
  by_cases short : s.running ∧ n < 32
  · simp only [if_pos short, if_pos (Or.inl short), and_self]
  · have period : (s.clock.setEvent e {s.clock.event e with enqueued := true}).period = s.clock.period := rfl
    simp only [if_neg short, System.enqueueOther, syncPeriod, period]
    by_cases gated : s.clock.period = 0
    · simp [gated]
    · simp [short, gated]

omit [DecidableEq ε] in
theorem dequeueFromEngineParts (s : System ε κ) :
    s.dequeueFromEngine.1.clock = s.clock ∧ s.dequeueFromEngine.1.control = s.control ∧
    s.dequeueFromEngine.1.engine = (if s.running then s.engine else s.engine.dequeue .clock) ∧
    s.dequeueFromEngine.2 = (!s.running && (s.engine.client .clock).isEnqueued) := by
  unfold System.dequeueFromEngine
  cases running : s.running with
  | true => exact ⟨rfl, rfl, rfl, rfl⟩
  | false =>
      cases flag : (s.engine.client .clock).isEnqueued with
      | true => exact ⟨rfl, rfl, rfl, rfl⟩
      | false => simp [TimeEngine.Engine.dequeue, flag]

theorem cancelParts (s : System ε κ) (e : ε) :
    (s.cancel e).clock = s.clock.cancel e ∧ (s.cancel e).control = s.control ∧
    (s.cancel e).engine = (if (s.clock.event e).enqueued = false ∨ (s.clock.cancel e).hasEvents = true ∨ s.running
      then s.engine else s.engine.dequeue .clock) := by
  unfold System.cancel Clock.cancel
  cases flag : (s.clock.event e).enqueued with
  | false => simp
  | true =>
      simp only [if_true]
      split
      · rename_i left
        exact ⟨rfl, rfl, (if_pos (Or.inr (Or.inl left))).symm⟩
      · rename_i empty
        obtain ⟨clock, control, engine, _⟩ := dequeueFromEngineParts
          {s with clock := (s.clock.unlink e).setEvent e {(s.clock.unlink e).event e with enqueued := false}}
        refine ⟨clock, control, engine.trans ?_⟩
        cases running : s.running with
        | true => simp [System.running] at running ⊢; simp [running]
        | false => simp [System.running] at running ⊢; simp [running, empty]

theorem cancelFrame (s : System ε κ) (e : ε) :
    (s.cancel e).running = s.running ∧ (s.cancel e).engine.time = s.engine.time := by
  unfold System.running
  rw [(cancelParts s e).2.2]
  split
  · exact ⟨rfl, rfl⟩
  · exact ⟨(TimeEngine.dequeueClient _).1, TimeEngine.dequeueTime⟩

theorem cancelUnflagged (clear : (s.clock.event e).enqueued = false) : s.cancel e = s := by
  unfold System.cancel
  simp [clear]

theorem reenqueueSplit (s : System ε κ) (e : ε) (n : Int) :
    let done := (s.cancel e).enqueue e n
    s.reenqueue e n = if (s.clock.event e).enqueued ∧ (s.clock.event e).cycle ≤ s.clock.cycles + n then s
      else {done with clock := done.clock.setEvent e {done.clock.event e with cycle := s.clock.cycles + n}} := by
  unfold System.reenqueue
  dsimp only
  cases flag : (s.clock.event e).enqueued with
  | true => simp
  | false => simp [cancelUnflagged flag]

theorem reenqueueClock (s : System ε κ) (e : ε) (n : Int) :
    (s.reenqueue e n).clock = s.clock.reenqueue s.running s.engine.time e n := by
  rw [reenqueueSplit]
  unfold Clock.reenqueue
  split
  · rfl
  · dsimp only
    rw [(enqueueParts _ e n).1, (cancelParts s e).1, (cancelFrame s e).1, (cancelFrame s e).2]

omit [DecidableEq ε] in
theorem reenqueueToEngineParts (s : System ε κ) (t : Int) :
    (s.reenqueueToEngine t).clock = s.clock ∧ (s.reenqueueToEngine t).control = s.control := ⟨rfl, rfl⟩

omit [DecidableEq ε] in
theorem applyFrequencyClock (s : System ε κ) (f : Int) :
    (s.applyFrequency f).clock = s.clock.applyFrequency f ∧ (s.applyFrequency f).control = s.control := by
  obtain ⟨clock, control, _, _⟩ := dequeueFromEngineParts s
  unfold System.applyFrequency Clock.applyFrequency
  dsimp only
  split
  · split
    · simp [reenqueueToEngineParts, clock, control]
    · split
      · split
        · split
          · simp [reenqueueToEngineParts, clock, control]
          · simp [clock, control]
        · simp [clock, control]
      · simp [clock, control]
  · split
    · simp [clock, control]
    · simp

theorem performClock (s : System ε κ) (o : Op ε) :
    (s.perform o).clock = s.clock.perform s.running s.engine.time o := by
  cases o with
  | enqueue e n => exact (enqueueParts s e n).1
  | enqueueExt e n => exact (enqueueParts s.sync e n).1
  | reenqueue e n => exact reenqueueClock s e n
  | reenqueueExt e n => exact reenqueueClock s.sync e n
  | cancel e => exact (cancelParts s e).1
  | sync => rfl
  | applyFrequency f => exact (applyFrequencyClock s f).1

theorem performControl (s : System ε κ) (o : Op ε) : (s.perform o).control = s.control := by
  have again : ∀ t : System ε κ, ∀ e n, (t.reenqueue e n).control = t.control := by
    intro t e n
    rw [reenqueueSplit]
    split
    · rfl
    · exact (enqueueParts _ e n).2.2.trans (cancelParts t e).2.1
  cases o with
  | enqueue e n => exact (enqueueParts s e n).2.2
  | enqueueExt e n => exact (enqueueParts s.sync e n).2.2
  | reenqueue e n => exact again s e n
  | reenqueueExt e n => exact again s.sync e n
  | cancel e => exact (cancelParts s e).2.1
  | sync => rfl
  | applyFrequency f => exact (applyFrequencyClock s f).2

end System

end Gvsoc.ClockEngine
