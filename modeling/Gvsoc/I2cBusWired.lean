import Gvsoc.I2cBus
import Gvsoc.Machine
import Mathlib.Data.List.Chain
import Mathlib.Data.List.Nodup

/-! After every call from outside, the lines are low where a device last drove them low, and every device was told so. -/
namespace Gvsoc.I2cBus
open Machine (latest latestSelf latestOther)

variable {listeners : List Int} {w : World}

def WiredAnd (driven : List (Int × Pair)) (line : Pair → Int) (level : Int) : Prop :=
  (level = 0 ∨ level = 1) ∧ (level = 0 ↔ ∃ id value, latest Prod.fst id driven = some (id, value) ∧ line value = 0)

def heardBy (w : World) (device : Int) : List Pair := (w.heard.filter fun entry => entry.1 = device).map Prod.snd

def lastBroadcast (w : World) : Pair := w.broadcasts.getLast?.getD ⟨1, 1⟩

structure Settled (listeners : List Int) (w : World) : Prop where
  scl : WiredAnd w.driven Pair.scl w.bus.busScl
  sda : WiredAnd w.driven Pair.sda w.bus.busSda
  shown : lastBroadcast w = ⟨w.bus.busScl, w.bus.busSda⟩
  changes : List.IsChain (· ≠ ·) (⟨1, 1⟩ :: w.broadcasts)
  told : ∀ device ∈ listeners, heardBy w device = w.broadcasts
  resolved : w.bus.doResolve = false
  unlocked : w.bus.pendingResolve = false

section Values

def Tracked (w : World) : Prop := ∀ id value, (id, value) ∈ w.bus.values ↔ latest Prod.fst id w.driven = some (id, value)

theorem driveTracked (tracked : Tracked w) (id : Int) (value : Pair) : Tracked (w.drive id value) := by
  intro other last
  simp only [World.drive, List.mem_append, List.mem_filter, List.mem_singleton, decide_eq_true_eq]
  by_cases same : id = other
  · subst same
    have newest : latest Prod.fst id (w.driven ++ [(id, value)]) = some (id, value) := latestSelf w.driven (id, value)
    rw [newest]
    simp [eq_comm]
  · have older : latest Prod.fst other (w.driven ++ [(id, value)]) = latest Prod.fst other w.driven := latestOther w.driven same
    rw [older, ← tracked other last]
    simp [Ne.symm same]

theorem foldLow (line : Pair → Int) (values : List (Int × Pair)) (level : Int) :
    values.foldl (fun res entry => if line entry.2 = 0 then 0 else res) level =
      if ∃ entry ∈ values, line entry.2 = 0 then 0 else level := by
  induction values generalizing level with
  | nil => simp
  | cons entry rest ih =>
      rw [List.foldl_cons, ih]
      by_cases low : line entry.2 = 0 <;> by_cases later : ∃ entry ∈ rest, line entry.2 = 0 <;> simp [low, later]

theorem resolvedLines (w : World) : w.resolved =
    ⟨w.bus.values.foldl (fun res entry => if entry.2.scl = 0 then 0 else res) 1,
     w.bus.values.foldl (fun res entry => if entry.2.sda = 0 then 0 else res) 1⟩ := by
  have both : ∀ (values : List (Int × Pair)) (scl sda : Int),
      values.foldl (fun res entry => (⟨if entry.2.scl = 0 then 0 else res.scl, if entry.2.sda = 0 then 0 else res.sda⟩ : Pair)) ⟨scl, sda⟩ =
        ⟨values.foldl (fun res entry => if entry.2.scl = 0 then 0 else res) scl,
         values.foldl (fun res entry => if entry.2.sda = 0 then 0 else res) sda⟩ := fun values => by
    induction values with
    | nil => exact fun _ _ => rfl
    | cons entry rest ih => exact fun scl sda => ih _ _
  exact both w.bus.values 1 1

theorem foldWired (tracked : Tracked w) (line : Pair → Int) :
    WiredAnd w.driven line (w.bus.values.foldl (fun res entry => if line entry.2 = 0 then 0 else res) 1) := by
  have low : (∃ entry ∈ w.bus.values, line entry.2 = 0) ↔ ∃ id value, latest Prod.fst id w.driven = some (id, value) ∧ line value = 0 := by
    constructor
    · rintro ⟨⟨id, value⟩, inside, zero⟩
      exact ⟨id, value, (tracked id value).mp inside, zero⟩
    · rintro ⟨id, value, newest, zero⟩
      exact ⟨(id, value), (tracked id value).mpr newest, zero⟩
  unfold WiredAnd
  rw [foldLow, ← low]
  split
  · rename_i found
    exact ⟨.inl rfl, iff_of_true rfl found⟩
  · rename_i missing
    exact ⟨.inr rfl, iff_of_false (by decide) missing⟩

end Values

section Nested

structure Nested (w after : World) : Prop where
  scl : after.bus.busScl = w.bus.busScl
  sda : after.bus.busSda = w.bus.busSda
  locked : after.bus.pendingResolve = w.bus.pendingResolve
  broadcasts : after.broadcasts = w.broadcasts
  asked : after.bus.doResolve = true ∨ (after.bus.values = w.bus.values ∧ after.bus.doResolve = w.bus.doResolve)
  tracked : Tracked w → Tracked after

theorem nestedSame (w : World) : Nested w w := ⟨rfl, rfl, rfl, rfl, .inr ⟨rfl, rfl⟩, id⟩

theorem nestedTrans {before after : World} (first : Nested before w) (second : Nested w after) : Nested before after where
  scl := second.scl.trans first.scl
  sda := second.sda.trans first.sda
  locked := second.locked.trans first.locked
  broadcasts := second.broadcasts.trans first.broadcasts
  asked := by
    obtain asked | ⟨values, asked⟩ := second.asked
    · exact .inl asked
    · obtain earlier | ⟨same, earlier⟩ := first.asked
      · exact .inl (asked.trans earlier)
      · exact .inr ⟨values.trans same, asked.trans earlier⟩
  tracked := fun tracked => second.tracked (first.tracked tracked)

theorem driveNested (w : World) (id : Int) (value : Pair) : Nested w (w.drive id value) :=
  ⟨rfl, rfl, rfl, rfl, .inl rfl, fun tracked => driveTracked tracked id value⟩

theorem hearNested (w : World) (value : Pair) (device : Int) : Nested w (w.hear value device) :=
  ⟨rfl, rfl, rfl, rfl, .inr ⟨rfl, rfl⟩, id⟩

variable (listeners) in
theorem syncLocked (locked : w.bus.pendingResolve = true) (call : Call) :
    Nested w (sync listeners w call) ∧ (sync listeners w call).heard = w.heard := by
  obtain ⟨scl, sda, id, broadcasts⟩ := call
  have returned : sync listeners w (.sync scl sda id broadcasts) = w.drive id ⟨scl, sda⟩ := by
    rw [sync]
    exact if_pos locked
  rw [returned]
  exact ⟨driveNested w id _, rfl⟩

variable (listeners) in
theorem callbackNested (calls : List Call) {w : World} (locked : w.bus.pendingResolve = true) :
    Nested w (callback listeners w calls) ∧ (callback listeners w calls).heard = w.heard := by
  induction calls generalizing w with
  | nil =>
      rw [callback]
      exact ⟨nestedSame w, rfl⟩
  | cons call rest ih =>
      obtain ⟨first, heard⟩ := syncLocked listeners locked call
      obtain ⟨later, kept⟩ := ih (first.locked.trans locked)
      rw [callback]
      exact ⟨nestedTrans first later, kept.trans heard⟩

variable (listeners) in
theorem broadcastNested (calls : List (List Call)) (told : List Int) (value : Pair) {w : World} (locked : w.bus.pendingResolve = true) :
    Nested w (broadcast listeners told value w calls) ∧
      (broadcast listeners told value w calls).heard = w.heard ++ told.map fun device => (device, value) := by
  induction calls generalizing told w with
  | nil =>
      rw [broadcast]
      induction told generalizing w with
      | nil => exact ⟨nestedSame w, by simp [World.hearAll]⟩
      | cons device rest ih =>
          obtain ⟨later, heard⟩ := ih (w := w.hear value device) locked
          refine ⟨nestedTrans (hearNested w value device) later, ?_⟩
          rw [World.hearAll, List.foldl_cons, ← World.hearAll, heard, World.hear, List.map_cons, List.append_assoc, List.singleton_append]
  | cons calls others ih =>
      cases told with
      | nil =>
          rw [broadcast]
          exact ⟨nestedSame w, by simp⟩
      | cons device rest =>
          obtain ⟨inside, kept⟩ := callbackNested listeners calls (w := w.hear value device) locked
          obtain ⟨later, heard⟩ := ih rest (inside.locked.trans locked)
          rw [broadcast]
          refine ⟨nestedTrans (nestedTrans (hearNested w value device) inside) later, ?_⟩
          rw [heard, kept, World.hear, List.map_cons, List.append_assoc, List.singleton_append]

end Nested

section Loop

structure Kept (listeners : List Int) (w : World) : Prop where
  tracked : Tracked w
  shown : lastBroadcast w = ⟨w.bus.busScl, w.bus.busSda⟩
  changes : List.IsChain (· ≠ ·) (⟨1, 1⟩ :: w.broadcasts)
  told : ∀ device ∈ listeners, heardBy w device = w.broadcasts

/- The bus shows what its devices drive, unless it was asked to look again. -/
def Current (w : World) : Prop := w.bus.doResolve = true ∨ w.resolved = ⟨w.bus.busScl, w.bus.busSda⟩

theorem clearKept (kept : Kept listeners w) : Kept listeners w.clear := ⟨kept.tracked, kept.shown, kept.changes, kept.told⟩

theorem heardAll {told : List Int} (distinct : told.Nodup) {device : Int} (inside : device ∈ told) (value : Pair) :
    ((told.map fun device => (device, value)).filter fun entry => entry.1 = device).map Prod.snd = [value] := by
  have one : told.filter (fun other => other = device) = [device] := by
    rw [List.filter_eq, List.count_eq_one_of_mem distinct inside]
    rfl
  rw [List.filter_map, List.map_map]
  simp only [Function.comp_def]
  rw [one]
  rfl

/- A change is broadcast to all devices, and what they drive in between is looked at later. -/
theorem broadcastKept (distinct : listeners.Nodup) (kept : Kept listeners w) (locked : w.bus.pendingResolve = true) (changed : w.changed)
    (calls : List (List Call)) :
    Kept listeners (broadcast listeners listeners w.resolved (w.set w.resolved) calls) ∧
      Current (broadcast listeners listeners w.resolved (w.set w.resolved) calls) ∧
      (broadcast listeners listeners w.resolved (w.set w.resolved) calls).bus.pendingResolve = true := by
  obtain ⟨nested, heard⟩ := broadcastNested listeners calls listeners w.resolved (w := w.set w.resolved) locked
  obtain ⟨after, shape⟩ : ∃ after, after = broadcast listeners listeners w.resolved (w.set w.resolved) calls := ⟨_, rfl⟩
  rw [← shape] at nested heard ⊢
  have values : after.broadcasts = w.broadcasts ++ [w.resolved] := nested.broadcasts
  have different : lastBroadcast w ≠ w.resolved := fun same => by
    rw [kept.shown] at same
    rcases changed with scl | sda
    · exact scl (congrArg Pair.scl same).symm
    · exact sda (congrArg Pair.sda same).symm
  refine ⟨⟨nested.tracked kept.tracked, ?_, ?_, fun device inside => ?_⟩, ?_, nested.locked.trans locked⟩
  · rw [lastBroadcast, values, List.getLast?_concat, nested.scl, nested.sda]
    rfl
  · rw [values, ← List.cons_append, List.isChain_append]
    refine ⟨kept.changes, .singleton _, fun last final next first => ?_⟩
    rw [List.head?_cons, Option.mem_some_iff] at first
    subst first
    rw [List.getLast?_cons, Option.mem_some_iff] at final
    rwa [← final]
  · rw [heardBy, heard, List.filter_append, List.map_append, heardAll distinct inside, values]
    exact congrArg (· ++ [w.resolved]) (kept.told device inside)
  · obtain asked | ⟨same, -⟩ := nested.asked
    · exact .inl asked
    · refine .inr ?_
      rw [nested.scl, nested.sda, World.resolved, same]
      rfl

theorem hearAllBus (told : List Int) (value : Pair) (w : World) : (w.hearAll value told).bus = w.bus := by
  induction told generalizing w with
  | nil => rfl
  | cons device rest ih => exact ih (w.hear value device)

theorem unchangedCurrent (same : ¬w.changed) : w.resolved = ⟨w.bus.busScl, w.bus.busSda⟩ := by
  unfold World.changed at same
  rw [not_or, not_not, not_not] at same
  rw [← same.1, ← same.2]

theorem updatesKept (distinct : listeners.Nodup) (broadcasts : List (List (List Call))) {w : World} (kept : Kept listeners w)
    (locked : w.bus.pendingResolve = true) (current : Current w) :
    Kept listeners (updates listeners w broadcasts) ∧
      (updates listeners w broadcasts).resolved = ⟨(updates listeners w broadcasts).bus.busScl, (updates listeners w broadcasts).bus.busSda⟩ ∧
      (updates listeners w broadcasts).bus.doResolve = false := by
  have stopped : ¬w.bus.doResolve = true → w.resolved = ⟨w.bus.busScl, w.bus.busSda⟩ ∧ w.bus.doResolve = false := fun idle =>
    ⟨current.resolve_left idle, Bool.eq_false_iff.mpr idle⟩
  induction broadcasts generalizing w with
  | nil =>
      rw [updates]
      by_cases asked : w.bus.doResolve = true
      · rw [if_pos asked]
        by_cases changed : w.clear.changed
        · obtain ⟨after, shown, -⟩ := broadcastKept distinct (clearKept kept) locked changed []
          rw [broadcast] at after shown
          dsimp only
          rw [if_pos changed]
          have idle : ((w.clear.set w.clear.resolved).hearAll w.clear.resolved listeners).bus.doResolve = false := by
            rw [hearAllBus]
            rfl
          exact ⟨after, shown.resolve_left (by rw [idle]; decide), idle⟩
        · dsimp only
          rw [if_neg changed]
          exact ⟨clearKept kept, unchangedCurrent changed, rfl⟩
      · rw [if_neg asked]
        exact ⟨kept, stopped asked⟩
  | cons calls later ih =>
      rw [updates]
      by_cases asked : w.bus.doResolve = true
      · rw [if_pos asked]
        by_cases changed : w.clear.changed
        · obtain ⟨after, shown, still⟩ := broadcastKept distinct (clearKept kept) locked changed calls
          dsimp only
          rw [if_pos changed]
          exact ih after still shown fun idle => ⟨shown.resolve_left idle, Bool.eq_false_iff.mpr idle⟩
        · dsimp only
          rw [if_neg changed]
          exact ⟨clearKept kept, unchangedCurrent changed, rfl⟩
      · rw [if_neg asked]
        exact ⟨kept, stopped asked⟩

end Loop

section Outermost

structure Idle (listeners : List Int) (w : World) : Prop where
  kept : Kept listeners w
  unlocked : w.bus.pendingResolve = false

theorem buildIdle (listeners : List Int) (doResolve : Bool) : Idle listeners (World.build doResolve) :=
  ⟨⟨fun _ _ => by simp [World.build, Bus.build, latest], rfl, .singleton _, fun _ _ => rfl⟩, rfl⟩

theorem driveKept (kept : Kept listeners w) (id : Int) (value : Pair) : Kept listeners (w.drive id value) :=
  ⟨driveTracked kept.tracked id value, kept.shown, kept.changes, kept.told⟩

theorem syncSettled (distinct : listeners.Nodup) (idle : Idle listeners w) (call : Call) :
    Settled listeners (sync listeners w call) ∧ Idle listeners (sync listeners w call) := by
  obtain ⟨scl, sda, id, broadcasts⟩ := call
  have driven : Kept listeners ((w.drive id ⟨scl, sda⟩).lock true) := by
    obtain ⟨tracked, shown, changes, told⟩ := driveKept idle.kept id ⟨scl, sda⟩
    exact ⟨tracked, shown, changes, told⟩
  obtain ⟨kept, current, resolved⟩ := updatesKept distinct broadcasts driven rfl (.inl rfl)
  obtain ⟨after, shape⟩ : ∃ after, after = updates listeners ((w.drive id ⟨scl, sda⟩).lock true) broadcasts := ⟨_, rfl⟩
  have entered : ¬(w.drive id ⟨scl, sda⟩).bus.pendingResolve = true := by
    rw [show (w.drive id ⟨scl, sda⟩).bus.pendingResolve = w.bus.pendingResolve from rfl, idle.unlocked]
    decide
  have returned : sync listeners w (.sync scl sda id broadcasts) = after.lock false := by
    rw [sync, if_neg entered, shape]
  rw [← shape] at kept current resolved
  rw [resolvedLines, Pair.mk.injEq] at current
  rw [returned]
  refine ⟨⟨?_, ?_, kept.shown, kept.changes, kept.told, resolved, rfl⟩, ⟨kept.tracked, kept.shown, kept.changes, kept.told⟩, rfl⟩
  · have low := foldWired kept.tracked Pair.scl
    rwa [current.1] at low
  · have low := foldWired kept.tracked Pair.sda
    rwa [current.2] at low

theorem runIdle (distinct : listeners.Nodup) (calls : List Call) {w : World} (idle : Idle listeners w) : Idle listeners (run listeners w calls) := by
  induction calls generalizing w with
  | nil => exact idle
  | cons call rest ih => exact ih (syncSettled distinct idle call).2

end Outermost

/- Whatever the devices do from inside of their notifications, and whatever was called before. -/
theorem busSettles (listeners : List Int) (distinct : listeners.Nodup) (doResolve : Bool) (earlier : List Call) (call : Call) :
    Settled listeners (run listeners (World.build doResolve) (earlier ++ [call])) := by
  unfold run
  rw [List.foldl_append]
  exact (syncSettled distinct (runIdle distinct earlier (buildIdle listeners doResolve)) call).1

/- A device that is told of a low clock pulls the data low, and the first one then lets the clock go. -/
def answered : Call := .sync 0 1 0 [[[], [.sync 1 0 1 []]], [[.sync 1 1 0 []]]]

theorem busSettlesTwice : Settled [0, 1] (run [0, 1] (World.build false) ([] ++ [answered])) :=
  busSettles [0, 1] (by decide) false [] answered

example : (run [0, 1] (World.build false) [answered]).broadcasts = [⟨0, 1⟩, ⟨0, 0⟩, ⟨1, 0⟩] := by decide

end Gvsoc.I2cBus
