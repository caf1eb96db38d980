import Gvsoc.ClockEngine

/-! Where the events of a clock engine are linked. Each operation is described once by how
it moves one event: it takes the event out of the chains (`Detached`) or puts a detached
event into one of them. -/
namespace Gvsoc.ClockEngine

variable {ε : Type} [DecidableEq ε] {k : Clock ε} {e f : ε} {n : Int}

def Clock.links (k : Clock ε) (e : ε) : Nat :=
  (∑ s, (k.eventQueue s).count e) + k.delayedQueue.count e

def Clock.slotLength (k : Clock ε) : Nat := ∑ s, (k.eventQueue s).length

/- All events but `e` are linked as their flag says, and `e` is linked nowhere. -/
structure Detached (k : Clock ε) (e : ε) : Prop where
  links : ∀ f, k.links f = if f ≠ e ∧ (k.event f).enqueued = true then 1 else 0
  count : k.nbEnqueuedToCycle = k.slotLength
  slots : ∀ s, ∀ f ∈ k.eventQueue s, k.cycleOf f = k.cycles + ahead k.currentCycle s

structure WellLinked (k : Clock ε) : Prop where
  links : ∀ f, k.links f = if (k.event f).enqueued = true then 1 else 0
  count : k.nbEnqueuedToCycle = k.slotLength
  slots : ∀ s, ∀ f ∈ k.eventQueue s, k.cycleOf f = k.cycles + ahead k.currentCycle s

theorem slotLinked {s : Fin 32} (inside : f ∈ k.eventQueue s) : 0 < k.links f := by
  have here : 0 < (k.eventQueue s).count f := List.count_pos_iff.mpr inside
  have below := Chain.sumPositive k.eventQueue (fun xs => xs.count f) s
  unfold Clock.links
  omega

theorem delayedLinked (inside : f ∈ k.delayedQueue) : 0 < k.links f := by
  have here : 0 < k.delayedQueue.count f := List.count_pos_iff.mpr inside
  unfold Clock.links
  omega

theorem detachedSlot (free : Detached k e) {s : Fin 32} (inside : f ∈ k.eventQueue s) : f ≠ e := by
  intro same
  have linked := slotLinked inside
  rw [free.links f, if_neg (by simp [same])] at linked
  contradiction

theorem linkedFlag (good : WellLinked k) (linked : 0 < k.links f) : (k.event f).enqueued = true := by
  by_contra clear
  rw [good.links f, if_neg clear] at linked
  contradiction

theorem setEventEvent (v : Event) (f : ε) :
    (k.setEvent e v).event f = if f = e then v else k.event f := Function.update_apply _ _ _ _

theorem setEventCycle (v : Event) (f : ε) :
    (k.setEvent e v).cycleOf f = if f = e then v.cycle else k.cycleOf f := by
  unfold Clock.cycleOf
  rw [setEventEvent]
  split <;> rfl

@[simp] theorem setEventLinks (v : Event) (f : ε) : (k.setEvent e v).links f = k.links f := rfl

theorem detachedSet (free : Detached k e) (v : Event) : Detached (k.setEvent e v) e where
  links := by
    intro f
    rw [setEventLinks, free.links, setEventEvent]
    by_cases same : f = e
    · simp [same]
    · simp [same]
  count := free.count
  slots := by
    intro s f inside
    rw [setEventCycle, if_neg (detachedSlot free inside)]
    exact free.slots s f inside

theorem detachUnflagged (good : WellLinked k) (clear : (k.event e).enqueued = false) : Detached k e where
  links := by
    intro f
    rw [good.links]
    by_cases same : f = e
    · simp [same, clear]
    · simp [same]
  count := good.count
  slots := good.slots

theorem wellLinkedUnflagged (free : Detached k e) (clear : (k.event e).enqueued = false) : WellLinked k where
  links := by
    intro f
    rw [free.links]
    by_cases same : f = e
    · simp [same, clear]
    · simp [same]
  count := free.count
  slots := free.slots

theorem aheadSlotAt (current : Fin 32) (low : 0 ≤ n) (high : n < 32) : ahead current (slotAt current n) = n := by
  have := current.isLt
  unfold ahead slotAt
  simp only
  omega

theorem enqueueToCycleLinked (free : Detached k e) (flag : (k.event e).enqueued = true)
    (low : 0 ≤ n) (high : n < 32) : WellLinked (k.enqueueToCycle e n) where
  links := by
    intro f
    have moved := Chain.sumUpdate k.eventQueue (fun xs => xs.count f) (slotAt k.currentCycle n)
      (e :: k.eventQueue (slotAt k.currentCycle n))
    have before := free.links f
    change (∑ s, (Function.update k.eventQueue _ _ s).count f) + k.delayedQueue.count f =
      if ((k.setEvent e _).event f).enqueued = true then 1 else 0
    rw [setEventEvent]
    unfold Clock.links at before
    by_cases same : f = e
    · subst f
      simp only [List.count_cons_self, ne_eq, not_true_eq_false, false_and, if_false] at moved before
      simp only [if_true, flag]
      omega
    · rw [List.count_cons_of_ne (Ne.symm same)] at moved
      simp only [ne_eq, same, not_false_eq_true, true_and] at before
      rw [if_neg same, ← before]
      omega
  count := by
    have moved := Chain.sumUpdate k.eventQueue List.length (slotAt k.currentCycle n)
      (e :: k.eventQueue (slotAt k.currentCycle n))
    have before := free.count
    unfold Clock.slotLength at before
    change k.nbEnqueuedToCycle + 1 = ((∑ s, (Function.update k.eventQueue _ _ s).length : Nat) : Int)
    rw [List.length_cons] at moved
    omega
  slots := by
    intro s f inside
    change (k.setEvent e _).cycleOf f = k.cycles + ahead k.currentCycle s
    change f ∈ Function.update k.eventQueue _ _ s at inside
    rw [setEventCycle]
    by_cases here : s = slotAt k.currentCycle n
    · subst s
      rw [Function.update_self] at inside
      rw [aheadSlotAt k.currentCycle low high]
      rcases List.mem_cons.mp inside with rfl | old
      · rw [if_pos rfl]
        exact Int.add_comm _ _
      · rw [if_neg (detachedSlot free old), free.slots _ f old, aheadSlotAt k.currentCycle low high]
    · rw [Function.update_of_ne here] at inside
      rw [if_neg (detachedSlot free inside)]
      exact free.slots s f inside

theorem enqueueDelayedLinked (free : Detached k e) (flag : (k.event e).enqueued = true) :
    WellLinked (k.enqueueDelayed e n) where
  links := by
    intro f
    have before := free.links f
    change (∑ s, (k.eventQueue s).count f) + (Chain.insert _ _ e k.delayedQueue).count f =
      if ((k.setEvent e _).event f).enqueued = true then 1 else 0
    rw [setEventEvent, Chain.countInsert]
    unfold Clock.links at before
    by_cases same : f = e
    · subst f
      simp only [ne_eq, not_true_eq_false, false_and, if_false] at before
      simp only [if_true, flag]
      omega
    · simp only [ne_eq, same, not_false_eq_true, true_and] at before
      rw [if_neg same, if_neg same, ← before]
      rfl
  count := free.count
  slots := by
    intro s f inside
    change (k.setEvent e _).cycleOf f = k.cycles + ahead k.currentCycle s
    rw [setEventCycle, if_neg (detachedSlot free inside)]
    exact free.slots s f inside

theorem delayedDetached (good : WellLinked k) (inside : e ∈ k.delayedQueue) {rest : List ε}
    (removed : ∀ f, rest.count f + (if f = e then 1 else 0) = k.delayedQueue.count f) :
    Detached {k with delayedQueue := rest} e where
  links := by
    intro f
    have before := good.links f
    have gone := removed f
    change (∑ s, (k.eventQueue s).count f) + rest.count f = _
    unfold Clock.links at before
    by_cases same : f = e
    · subst f
      rw [linkedFlag good (delayedLinked inside)] at before
      simp only [if_true] at before gone
      simp only [ne_eq, not_true_eq_false, false_and, if_false]
      omega
    · simp only [ne_eq, same, not_false_eq_true, true_and]
      rw [if_neg same] at gone
      rw [← before]
      omega
  count := good.count
  slots := good.slots

theorem slotDetached (good : WellLinked k) {i : Fin 32} (inside : e ∈ k.eventQueue i) {rest : List ε}
    (removed : ∀ f, rest.count f + (if f = e then 1 else 0) = (k.eventQueue i).count f)
    (kept : ∀ f ∈ rest, f ∈ k.eventQueue i) (shorter : rest.length + 1 = (k.eventQueue i).length) :
    Detached {k with
      eventQueue := Function.update k.eventQueue i rest, nbEnqueuedToCycle := k.nbEnqueuedToCycle - 1} e where
  links := by
    intro f
    have moved := Chain.sumUpdate k.eventQueue (fun xs => xs.count f) i rest
    have before := good.links f
    have gone := removed f
    change (∑ s, (Function.update k.eventQueue i rest s).count f) + k.delayedQueue.count f = _
    unfold Clock.links at before
    by_cases same : f = e
    · subst f
      rw [linkedFlag good (slotLinked inside)] at before
      simp only [if_true] at before gone
      simp only [ne_eq, not_true_eq_false, false_and, if_false]
      omega
    · simp only [ne_eq, same, not_false_eq_true, true_and]
      rw [if_neg same] at gone
      rw [← before]
      omega
  count := by
    have moved := Chain.sumUpdate k.eventQueue List.length i rest
    have before := good.count
    unfold Clock.slotLength at before
    change k.nbEnqueuedToCycle - 1 = ((∑ s, (Function.update k.eventQueue i rest s).length : Nat) : Int)
    omega
  slots := by
    intro s f inside
    change f ∈ Function.update k.eventQueue i rest s at inside
    refine good.slots s f ?_
    by_cases here : s = i
    · subst s
      rw [Function.update_self] at inside
      exact kept f inside
    · rwa [Function.update_of_ne here] at inside

end Gvsoc.ClockEngine
