import Gvsoc.I2cHelperPlaces

/-! What the state machine does at each place. -/
namespace Gvsoc.I2cHelper
open Bytes (Byte)

variable {low high : Nat} {w next : World} {v : View} {requests : List Request} {current : Option Request} {seen : List Seen}

def View.observe (low high : Nat) (v : View) : View :=
  { v with
    scl := v.desiredScl
    sda := v.desiredSda && !v.pull
    waiting := false
    fsmEvent := none
    clockValue := if v.enabled = true ∧ v.desiredScl ≠ v.scl then !v.clockValue else v.clockValue
    clockEvent := if v.enabled = true ∧ v.desiredScl ≠ v.scl then some (if v.clockValue = true then high else low) else v.clockEvent }

def View.acts (v : View) (w : World) : World :=
  w.act (v.desiredScl && !v.scl) (!v.desiredScl && v.scl) (v.desiredScl == v.scl) ((v.desiredSda && !v.pull) && !v.sda)
    (!(v.desiredSda && !v.pull) && v.sda)

theorem fsmView (due : v.fsmEvent = some 0) :
    step (v.world low high requests current seen) .fsm = some (v.acts ((v.observe low high).world low high requests current seen)).syncPins := by
  obtain ⟨state, scl, sda, desiredScl, desiredSda, isStopping, isStarting, enabled, clockValue, data, bits, waiting, clockEvent, fsmEvent,
    pull, count⟩ := v
  dsimp only at due
  subst due
  cases enabled <;> cases scl <;> cases desiredScl <;> cases clockValue <;>
    simp [step, View.world, View.acts, View.observe, World.fsmEventHandler, World.fsmStep, Helper.observe, Helper.clockToggle,
      Helper.enqueueClockToggle]

theorem fsmSteady (state : v.state = .data ∨ v.state = .ack ∨ v.state = .stopClock) (steady : v.scl = v.desiredScl)
    (slot : v.desiredScl = false → v.count ≠ 9) (due : v.fsmEvent = some 0) :
    step (v.world low high requests current seen) .fsm =
      some (View.world low high { v with sda := v.desiredSda && !v.pull, waiting := false, fsmEvent := none } requests current seen) := by
  rw [fsmView due]
  obtain ⟨st, scl, sda, desiredScl, desiredSda, isStopping, isStarting, enabled, clockValue, data, bits, waiting, clockEvent, fsmEvent,
    pull, count⟩ := v
  dsimp only at state steady slot
  subst steady
  rcases state with rfl | rfl | rfl <;> cases scl <;>
    simp [View.acts, View.observe, View.world, World.act, World.syncPins, World.sync, World.settle, World.release, Helper.resScl,
      Helper.resSda] at slot ⊢ <;> simp [slot]

theorem fallStep (state : v.state = .data) (was : v.scl = true) (is : v.desiredScl = false) (enabled : v.enabled = true)
    (value : v.clockValue = false) (free : v.pull = false) (slot : v.count ≠ 9) (due : v.fsmEvent = some 0) :
    ∃ event, Soon event ∧ step (v.world low high requests current seen) .fsm = some (View.world low high { v with
      scl := false
      sda := v.desiredSda
      desiredSda := v.data.getLsbD 7
      clockValue := true
      data := v.data <<< 1
      bits := v.bits - 1
      waiting := false
      clockEvent := some low
      fsmEvent := event } requests current seen) := by
  refine ⟨if v.data.getLsbD 7 = v.desiredSda then none else some 1, fun n same => ?_, ?_⟩
  · split at same <;> cases same
    exact Nat.le_refl 1
  rw [fsmView due]
  obtain ⟨st, scl, sda, desiredScl, desiredSda, isStopping, isStarting, en, clockValue, data, bits, waiting, clockEvent, fsmEvent,
    pull, count⟩ := v
  dsimp only at state was is enabled value free slot ⊢
  subst state was is enabled value free
  generalize bit : data.getLsbD 7 = b
  have same : data[7] = b := bit
  cases desiredSda <;> cases b <;>
    simp [View.acts, View.observe, View.world, World.act, Helper.sendDataBit, same, World.syncPins, World.sync, World.settle, World.release,
      World.counted, World.edges, Helper.resScl, Helper.resSda, Helper.updatePins, Helper.fsmEnqueueEvent, slot]

theorem riseStep (state : v.state = .data) (was : v.scl = false) (is : v.desiredScl = true) (enabled : v.enabled = true)
    (value : v.clockValue = true) (due : v.fsmEvent = some 0) :
    step (v.world low high requests current seen) .fsm = some (View.world low high { v with
      state := if v.bits = 0 then .ack else .data
      scl := true
      sda := v.desiredSda && !v.pull
      clockValue := false
      waiting := false
      clockEvent := some high
      fsmEvent := none } requests current seen) := by
  rw [fsmView due]
  obtain ⟨st, scl, sda, desiredScl, desiredSda, isStopping, isStarting, en, clockValue, data, bits, waiting, clockEvent, fsmEvent,
    pull, count⟩ := v
  dsimp only at state was is enabled value ⊢
  subst state was is enabled value
  by_cases none : bits = 0 <;>
    simp [View.acts, View.observe, View.world, World.act, World.syncPins, World.sync, World.settle, World.release, Helper.resScl,
      Helper.resSda, none]

theorem ackFallStep (state : v.state = .ack) (was : v.scl = true) (is : v.desiredScl = false) (enabled : v.enabled = true)
    (value : v.clockValue = false) (slot : v.count ≠ 9) (due : v.fsmEvent = some 0) :
    step (v.world low high requests current seen) .fsm = some (View.world low high { v with
      scl := false
      sda := v.desiredSda && !v.pull
      clockValue := true
      waiting := false
      clockEvent := some low
      fsmEvent := none } requests current seen) := by
  rw [fsmView due]
  obtain ⟨st, scl, sda, desiredScl, desiredSda, isStopping, isStarting, en, clockValue, data, bits, waiting, clockEvent, fsmEvent,
    pull, count⟩ := v
  dsimp only at state was is enabled value slot ⊢
  subst state was is enabled value
  simp [View.acts, View.observe, View.world, World.act, World.syncPins, World.sync, World.settle, World.release, Helper.resScl,
    Helper.resSda, slot]

theorem stopFallStep (state : v.state = .stopClock) (was : v.scl = true) (is : v.desiredScl = false) (enabled : v.enabled = true)
    (free : v.pull = false) (slot : v.count ≠ 9) (due : v.fsmEvent = some 0) :
    step (v.world low high requests current seen) .fsm = some (View.world low high { v with
      state := .stopClockWait
      scl := false
      sda := v.desiredSda
      desiredSda := true
      enabled := false
      clockValue := !v.clockValue
      waiting := true
      clockEvent := none
      fsmEvent := some high } requests current seen) := by
  rw [fsmView due]
  obtain ⟨st, scl, sda, desiredScl, desiredSda, isStopping, isStarting, en, clockValue, data, bits, waiting, clockEvent, fsmEvent,
    pull, count⟩ := v
  dsimp only at state was is enabled free slot ⊢
  subst state was is enabled free
  cases desiredSda <;>
    simp [View.acts, View.observe, View.world, World.act, Helper.stopClock, Helper.await, World.syncPins, World.sync, World.settle,
      World.release, World.counted, World.edges, Helper.resScl, Helper.resSda, Helper.updatePins, Helper.fsmEnqueueEvent, slot]

section Between

structure Between (v : View) : Prop where
  state : v.state = .stopClockWait
  scl : v.scl = false
  desiredScl : v.desiredScl = false
  desiredSda : v.desiredSda = true
  enabled : v.enabled = false
  pull : v.pull = false
  count : v.count = 0
  due : v.fsmEvent = some 0

theorem betweenByte (between : Between v) (more : v.bits ≠ 0) :
    ∃ event, Soon event ∧ step (v.world low high requests current seen) .fsm = some (View.world low high { v with
      state := .data
      sda := true
      desiredSda := v.data.getLsbD 7
      enabled := true
      clockValue := true
      data := v.data <<< 1
      bits := v.bits - 1
      waiting := false
      clockEvent := some low
      fsmEvent := event } requests current seen) := by
  refine ⟨if v.data.getLsbD 7 = true then none else some 1, fun n same => ?_, ?_⟩
  · split at same <;> cases same
    exact Nat.le_refl 1
  rw [fsmView between.due]
  obtain ⟨state, was, is, high, off, free, slot, due⟩ := between
  obtain ⟨st, scl, sda, desiredScl, desiredSda, isStopping, isStarting, en, clockValue, data, bits, waiting, clockEvent, fsmEvent,
    pull, count⟩ := v
  dsimp only at state was is high off free slot more ⊢
  subst state was is high off free slot
  generalize bit : data.getLsbD 7 = b
  have same : data[7] = b := bit
  cases b <;>
    simp [View.acts, View.observe, View.world, World.act, Helper.sendDataBit, Helper.startClock, Helper.enqueueClockToggle, same, more,
      World.syncPins, World.sync, World.settle, World.release, World.counted, World.edges, Helper.resScl, Helper.resSda, Helper.updatePins,
      Helper.fsmEnqueueEvent]

theorem betweenStart (between : Between v) (none : v.bits = 0) (starting : v.isStarting = true) :
    step (v.world low high requests current seen) .fsm = some (View.world low high { v with
      state := .restart
      sda := true
      isStarting := false
      desiredScl := true
      waiting := true
      fsmEvent := some high
      count := 1 } requests current (seen ++ [.rising true false])) := by
  rw [fsmView between.due]
  obtain ⟨state, was, is, high, off, free, slot, due⟩ := between
  obtain ⟨st, scl, sda, desiredScl, desiredSda, isStopping, isStarting, en, clockValue, data, bits, waiting, clockEvent, fsmEvent,
    pull, count⟩ := v
  dsimp only at state was is high off free slot none starting ⊢
  subst state was is high off free slot none starting
  simp [View.acts, View.observe, View.world, World.act, Helper.await, World.syncPins, World.sync, World.settle, World.release, World.counted,
    World.edges, Helper.resScl, Helper.resSda, Helper.updatePins, Helper.fsmEnqueueEvent]

theorem betweenStop (between : Between v) (none : v.bits = 0) (starting : v.isStarting = false) (stopping : v.isStopping = true) :
    step (v.world low high requests current seen) .fsm = some (View.world low high { v with
      state := .stop0
      sda := true
      isStopping := false
      desiredSda := false
      waiting := true
      fsmEvent := some high } requests current seen) := by
  rw [fsmView between.due]
  obtain ⟨state, was, is, high, off, free, slot, due⟩ := between
  obtain ⟨st, scl, sda, desiredScl, desiredSda, isStopping, isStarting, en, clockValue, data, bits, waiting, clockEvent, fsmEvent,
    pull, count⟩ := v
  dsimp only at state was is high off free slot none starting stopping ⊢
  subst state was is high off free slot none starting stopping
  simp [View.acts, View.observe, View.world, World.act, Helper.await, World.syncPins, World.sync, World.settle, World.release, World.counted,
    World.edges, Helper.resScl, Helper.resSda, Helper.updatePins, Helper.fsmEnqueueEvent]

end Between

section Conditions

theorem startingStep (state : v.state = .idle) (starting : v.isStarting = true) (scl : v.scl = true) (desiredScl : v.desiredScl = true)
    (desiredSda : v.desiredSda = true) (free : v.pull = false) (due : v.fsmEvent = some 0) :
    step (v.world low high requests current seen) .fsm = some (View.world low high { v with
      state := .waitStart
      sda := true
      isStarting := false
      desiredSda := false
      waiting := false
      fsmEvent := some 1
      count := 0 } requests current (seen ++ [.sdaHigh false])) := by
  rw [fsmView due]
  obtain ⟨st, scl, sda, desiredScl, desiredSda, isStopping, isStarting, en, clockValue, data, bits, waiting, clockEvent, fsmEvent,
    pull, count⟩ := v
  dsimp only at state starting scl desiredScl desiredSda free ⊢
  subst state starting scl desiredScl desiredSda free
  simp [View.acts, View.observe, View.world, World.act, World.syncPins, World.sync, World.settle, World.release, World.counted,
    World.edges, Helper.resScl, Helper.resSda, Helper.updatePins, Helper.fsmEnqueueEvent]

theorem restartStep (state : v.state = .restart) (scl : v.scl = false) (desiredScl : v.desiredScl = true) (desiredSda : v.desiredSda = true)
    (off : v.enabled = false) (free : v.pull = false) (due : v.fsmEvent = some 0) :
    step (v.world low high requests current seen) .fsm = some (View.world low high { v with
      state := .waitStart
      scl := true
      sda := true
      desiredSda := false
      waiting := false
      fsmEvent := some 1
      count := 0 } requests current (seen ++ [.sdaHigh false])) := by
  rw [fsmView due]
  obtain ⟨st, scl, sda, desiredScl, desiredSda, isStopping, isStarting, en, clockValue, data, bits, waiting, clockEvent, fsmEvent,
    pull, count⟩ := v
  dsimp only at state scl desiredScl desiredSda off free ⊢
  subst state scl desiredScl desiredSda off free
  simp [View.acts, View.observe, View.world, World.act, World.syncPins, World.sync, World.settle, World.release, World.counted,
    World.edges, Helper.resScl, Helper.resSda, Helper.updatePins, Helper.fsmEnqueueEvent]

theorem stop0Step (state : v.state = .stop0) (scl : v.scl = false) (desiredScl : v.desiredScl = false) (desiredSda : v.desiredSda = false)
    (free : v.pull = false) (due : v.fsmEvent = some 0) :
    step (v.world low high requests current seen) .fsm = some (View.world low high { v with
      state := .stop1
      sda := false
      desiredScl := true
      waiting := true
      fsmEvent := some high
      count := v.count + 1 } requests current (seen ++ [.rising false false])) := by
  rw [fsmView due]
  obtain ⟨st, scl, sda, desiredScl, desiredSda, isStopping, isStarting, en, clockValue, data, bits, waiting, clockEvent, fsmEvent,
    pull, count⟩ := v
  dsimp only at state scl desiredScl desiredSda free ⊢
  subst state scl desiredScl desiredSda free
  simp [View.acts, View.observe, View.world, World.act, Helper.await, World.syncPins, World.sync, World.settle, World.release, World.counted,
    World.edges, Helper.resScl, Helper.resSda, Helper.updatePins, Helper.fsmEnqueueEvent]

theorem stop1Step (state : v.state = .stop1) (scl : v.scl = false) (desiredScl : v.desiredScl = true) (desiredSda : v.desiredSda = false)
    (off : v.enabled = false) (free : v.pull = false) (due : v.fsmEvent = some 0) :
    step (v.world low high requests current seen) .fsm = some (View.world low high { v with
      state := .waitStop
      scl := true
      sda := false
      desiredSda := true
      waiting := false
      fsmEvent := some 1 } requests current (seen ++ [.sdaHigh true])) := by
  rw [fsmView due]
  obtain ⟨st, scl, sda, desiredScl, desiredSda, isStopping, isStarting, en, clockValue, data, bits, waiting, clockEvent, fsmEvent,
    pull, count⟩ := v
  dsimp only at state scl desiredScl desiredSda off free ⊢
  subst state scl desiredScl desiredSda off free
  simp [View.acts, View.observe, View.world, World.act, World.syncPins, World.sync, World.settle, World.release, World.counted,
    World.edges, Helper.resScl, Helper.resSda, Helper.updatePins, Helper.fsmEnqueueEvent]

theorem idleStep (state : v.state = .idle) (starting : v.isStarting = false) (scl : v.scl = true) (desiredScl : v.desiredScl = true)
    (desiredSda : v.desiredSda = true) (free : v.pull = false) (due : v.fsmEvent = some 0) :
    step (v.world low high requests current seen) .fsm =
      some (View.world low high { v with sda := true, waiting := false, fsmEvent := none } requests current seen) := by
  rw [fsmView due]
  obtain ⟨st, scl, sda, desiredScl, desiredSda, isStopping, isStarting, en, clockValue, data, bits, waiting, clockEvent, fsmEvent,
    pull, count⟩ := v
  dsimp only at state starting scl desiredScl desiredSda free ⊢
  subst state starting scl desiredScl desiredSda free
  simp [View.acts, View.observe, View.world, World.act, World.syncPins, World.sync, World.settle, World.release, Helper.resScl, Helper.resSda]

end Conditions

section WaitData

theorem waitDataStep (state : v.state = .waitData) (desiredSda : v.desiredSda = false) (slot : v.desiredScl = false → v.count ≠ 9)
    (due : v.fsmEvent = some 0) :
    step (v.world low high requests current seen) .fsm = some (View.world low high { v with
      state := if v.bits = 0 then .waitData else .data
      scl := v.desiredScl
      sda := false
      enabled := true
      clockValue := !v.desiredScl
      clockEvent := some (if v.desiredScl = true then high else low)
      waiting := false
      fsmEvent := none } requests current seen) := by
  rw [fsmView due]
  obtain ⟨st, scl, sda, desiredScl, desiredSda, isStopping, isStarting, en, clockValue, data, bits, waiting, clockEvent, fsmEvent,
    pull, count⟩ := v
  dsimp only at state desiredSda slot ⊢
  subst state desiredSda
  by_cases none : bits = 0 <;> cases desiredScl <;>
    simp [View.acts, View.observe, View.world, World.act, Helper.startClock, Helper.enqueueClockToggle, none, World.syncPins, World.sync,
      World.settle, World.release, Helper.resScl, Helper.resSda] at slot ⊢ <;> simp [slot]

end WaitData

section Callback

structure Answers (request : Request) (data : Byte) (bits : Int) (isStarting isStopping : Bool) (event : Option Nat) : Prop where
  asks : Asks request data bits isStarting isStopping
  soon : Soon event
  noticed : request.byte ≠ none → event = some 1

variable (low high v requests current seen) in
theorem askView (request : Request) (bits : v.bits = 0) (starting : v.isStarting = false) (stopping : v.isStopping = false)
    (idle : v.fsmEvent = none) :
    ∃ data bits isStarting isStopping event, Answers request data bits isStarting isStopping event ∧
      (v.world low high (request :: requests) current seen).ask =
        View.world low high { v with data, bits, isStarting, isStopping, fsmEvent := event } requests (some request)
          (seen ++ [.request request]) := by
  obtain ⟨st, scl, sda, desiredScl, desiredSda, isStopping, isStarting, en, clockValue, data, bits, waiting, clockEvent, fsmEvent,
    pull, count⟩ := v
  dsimp only at bits starting stopping idle
  subst bits starting stopping idle
  have next : Soon (some 1) := fun n same => by cases same; exact Nat.le_refl 1
  cases request with
  | start =>
      exact ⟨data, 0, true, false, some 1, ⟨⟨rfl, rfl, rfl⟩, next, fun _ => rfl⟩, rfl⟩
  | data byte =>
      exact ⟨byte.setWidth 8, 8, false, false, some 1, ⟨⟨rfl, rfl, rfl, rfl⟩, next, fun _ => rfl⟩, rfl⟩
  | address addr isWrite =>
      exact ⟨_, 8, false, false, some 1, ⟨⟨rfl, rfl, rfl, rfl⟩, next, fun _ => rfl⟩, rfl⟩
  | stop =>
      exact ⟨data, 0, false, true, none, ⟨⟨rfl, rfl, rfl⟩, fun n same => (by cases same), fun byte => absurd rfl byte⟩, rfl⟩

theorem syncSame (driven : v.state = .idle → v.desiredScl = true ∧ v.desiredSda = true) (slot : v.desiredScl = false → v.count ≠ 9) :
    (v.world low high requests current seen).syncPins = v.world low high requests current seen := by
  have scl : (v.world low high requests current seen).helper.resScl = v.desiredScl := by
    by_cases idle : v.state = .idle
    · simp [Helper.resScl, View.world, idle, driven idle]
    · simp [Helper.resScl, View.world, idle]
  have sda : (v.world low high requests current seen).helper.resSda = v.desiredSda := by
    by_cases idle : v.state = .idle
    · simp [Helper.resSda, View.world, idle, driven idle]
    · simp [Helper.resSda, View.world, idle]
  rw [World.syncPins, scl, sda]
  have settled : World.settle { v.world low high requests current seen with masterScl := v.desiredScl, masterSda := v.desiredSda } =
      v.world low high requests current seen := if_pos ⟨rfl, rfl⟩
  rw [World.sync, settled, World.release, if_neg]
  rintro ⟨down, nine⟩
  exact slot down nine

theorem startsStep {request : Request} (state : v.state = .waitStart) (scl : v.scl = true) (sda : v.sda = true) (desiredScl : v.desiredScl = true)
    (desiredSda : v.desiredSda = false) (bits : v.bits = 0) (starting : v.isStarting = false) (stopping : v.isStopping = false)
    (free : v.pull = false) (due : v.fsmEvent = some 0) :
    ∃ data bits isStarting isStopping event, Answers request data bits isStarting isStopping event ∧
      step (v.world low high (request :: requests) current seen) .fsm = some (View.world low high { v with
        state := .waitData, sda := false, waiting := false, data, bits, isStarting, isStopping, fsmEvent := event } requests (some request)
        (seen ++ [.callback current .start .ok false, .request request])) := by
  obtain ⟨data', bits', starting', stopping', event, answers, asked⟩ := askView low high { v with
      state := .waitData, sda := false, waiting := false, fsmEvent := none } requests current
    (seen ++ [.callback current .start .ok false]) request bits starting stopping rfl
  refine ⟨data', bits', starting', stopping', event, answers, ?_⟩
  have acted : v.acts ((v.observe low high).world low high (request :: requests) current seen) =
      (View.world low high { v with state := .waitData, sda := false, waiting := false, fsmEvent := none } (request :: requests) current
        (seen ++ [.callback current .start .ok false])).ask := by
    simp [View.acts, View.observe, View.world, World.act, World.callback, state, scl, sda, desiredScl, desiredSda, free]
  rw [fsmView due, acted, asked, syncSame]
  · simp
  · intro idle
    contradiction
  · intro down
    exact absurd (desiredScl.symm.trans down) (by decide)

theorem ackStep {request : Request} (state : v.state = .ack) (scl : v.scl = false) (desiredScl : v.desiredScl = true)
    (enabled : v.enabled = true) (value : v.clockValue = true) (bits : v.bits = 0) (starting : v.isStarting = false)
    (stopping : v.isStopping = false) (due : v.fsmEvent = some 0) :
    ∃ data bits isStarting isStopping event, Answers request data bits isStarting isStopping event ∧
      step (v.world low high (request :: requests) current seen) .fsm = some (View.world low high { v with
        state := .stopClock, scl := true, sda := v.desiredSda && !v.pull, clockValue := false, waiting := false, clockEvent := some high
        data, bits, isStarting, isStopping, fsmEvent := event } requests (some request)
        (seen ++ [.callback current .ack (if (v.desiredSda && !v.pull) = true then .ko else .ok) v.pull, .request request])) := by
  obtain ⟨data', bits', starting', stopping', event, answers, asked⟩ := askView low high { v with
      scl := true, sda := v.desiredSda && !v.pull, clockValue := false, waiting := false, clockEvent := some high, fsmEvent := none } requests
    current (seen ++ [.callback current .ack (if (v.desiredSda && !v.pull) = true then .ko else .ok) v.pull]) request bits starting stopping rfl
  refine ⟨data', bits', starting', stopping', event, answers, ?_⟩
  have acted : v.acts ((v.observe low high).world low high (request :: requests) current seen) =
      (fun w : World => { w with helper := { w.helper with internalState := .stopClock } })
        (View.world low high { v with
          scl := true, sda := v.desiredSda && !v.pull, clockValue := false, waiting := false, clockEvent := some high, fsmEvent := none }
          (request :: requests) current (seen ++ [.callback current .ack (if (v.desiredSda && !v.pull) = true then .ko else .ok) v.pull])).ask := by
    simp [View.acts, View.observe, View.world, World.act, World.callback, state, scl, desiredScl, enabled, value]
  rw [fsmView due, acted, asked]
  have shape : ∀ seen', (View.world low high { v with
      state := .stopClock, scl := true, sda := v.desiredSda && !v.pull, clockValue := false, waiting := false, clockEvent := some high
      data := data', bits := bits', isStarting := starting', isStopping := stopping', fsmEvent := event } requests (some request) seen').syncPins =
      View.world low high { v with
      state := .stopClock, scl := true, sda := v.desiredSda && !v.pull, clockValue := false, waiting := false, clockEvent := some high
      data := data', bits := bits', isStarting := starting', isStopping := stopping', fsmEvent := event } requests (some request) seen' :=
    fun seen' => syncSame (fun idle => by contradiction) (fun down => absurd (desiredScl.symm.trans down) (by decide))
  rw [List.append_assoc] at *
  exact congrArg some (shape _)

theorem stopsStep (state : v.state = .waitStop) (scl : v.scl = true) (sda : v.sda = false) (desiredScl : v.desiredScl = true)
    (desiredSda : v.desiredSda = true) (free : v.pull = false) (due : v.fsmEvent = some 0) :
    step (v.world low high [] current seen) .fsm = some (View.world low high { v with
      state := .idle, sda := true, waiting := false, fsmEvent := none } [] none (seen ++ [.callback current .stop .ok false])) := by
  have acted : v.acts ((v.observe low high).world low high [] current seen) =
      View.world low high { v with state := .idle, sda := true, waiting := false, fsmEvent := none } [] none
        (seen ++ [.callback current .stop .ok false]) := by
    simp [View.acts, View.observe, View.world, World.act, World.callback, World.ask, state, scl, sda, desiredScl, desiredSda, free]
  rw [fsmView due, acted, syncSame]
  · exact fun _ => ⟨desiredScl, desiredSda⟩
  · exact fun down => absurd (desiredScl.symm.trans down) (by decide)

end Callback

section Fsm

theorem soonNone : Soon none := fun _ same => nomatch same

theorem restAfter (rest : Rest requests) : ∃ request left, requests = request :: left ∧ After request left := by
  obtain ⟨body, rfl, free⟩ := rest
  cases body with
  | nil => exact ⟨.stop, [], rfl, rfl⟩
  | cons request body =>
      have other : request ≠ .stop := fun same => free (by simp [same])
      have left : Rest (body ++ [.stop]) := ⟨body, rfl, fun member => free (List.mem_cons_of_mem request member)⟩
      exact ⟨request, body ++ [.stop], rfl, by rw [After, if_neg other]; exact left⟩

theorem byteRest {request : Request} {b : Byte} (carries : request.byte = some b) (after : After request requests) : Rest requests := by
  rw [After, if_neg] at after
  · exact after
  · rintro rfl
    contradiction

theorem byteAsks {request : Request} {b data : Byte} {bits : Int} {isStarting isStopping : Bool} (carries : request.byte = some b)
    (asks : Asks request data bits isStarting isStopping) : data = b ∧ bits = 8 ∧ isStarting = false ∧ isStopping = false := by
  simpa only [Asks, carries] using asks

theorem plainAsks {request : Request} {data : Byte} {bits : Int} {isStarting isStopping : Bool} (plain : request.byte = none)
    (asks : Asks request data bits isStarting isStopping) :
    bits = 0 ∧ isStarting = (request = .start : Bool) ∧ isStopping = (request = .stop : Bool) := by
  simpa only [Asks, plain] using asks

theorem shiftedBit {b : Byte} {k : Nat} (few : k < 8) : (b <<< k).getLsbD 7 = b.getLsbD (7 - k) := by
  have inside : k ≤ 7 := by omega
  rw [BitVec.getLsbD_shiftLeft]
  simp only [show (7 : Nat) < 8 by decide, decide_true, Bool.true_and, Nat.not_lt.mpr inside, decide_false, Bool.not_false]

theorem ackMeasured (b : Byte) (pull : Bool) : Measured b pull (if (b.getLsbD 0 && !pull) = true then .ko else .ok) := by
  unfold Measured
  cases b.getLsbD 0 <;> cases pull <;> simp

theorem lowBound : low ≤ low + high + 2 := by omega

theorem highBound : high ≤ low + high + 2 := by omega

theorem startsReached {f : Nat} {past edges : List Seen} (rest : Rest requests) (old : Past Measured past) (clocks : Clocks edges)
    (place : w = View.world low high { v with
      state := .waitStart, scl := true, sda := true, desiredScl := true, desiredSda := false, isStopping := false, isStarting := false
      enabled := false, bits := 0, waiting := false, clockEvent := none, fsmEvent := some f, pull := false, count := 0 } requests (some .start)
      (past ++ .request .start :: (edges ++ [.sdaHigh false])))
    (due : w.helper.fsmEvent = some 0) (moved : step w .fsm = some next) : Reached low high next ∧ Nears low high 0 w next := by
  subst place
  obtain ⟨request, left, rfl, after⟩ := restAfter rest
  obtain ⟨data, bits, isStarting, isStopping, event, answers, stepped⟩ := @startsStep low high
    { v with
      state := .waitStart, scl := true, sda := true, desiredScl := true, desiredSda := false, isStopping := false, isStarting := false
      enabled := false, bits := 0, waiting := false, clockEvent := none, fsmEvent := some f, pull := false, count := 0 }
    left (some .start) (past ++ .request .start :: (edges ++ [.sdaHigh false])) request rfl rfl rfl rfl rfl rfl rfl rfl rfl due
  rw [stepped] at moved
  rw [← Option.some.inj moved]
  have ended : Past Measured (past ++ .request .start :: (edges ++ [.sdaHigh false, .callback (some .start) .start .ok false])) :=
    old.more (.start clocks)
  have log : (past ++ Seen.request .start :: (edges ++ [.sdaHigh false])) ++ [.callback (some .start) .start .ok false, .request request] =
      (past ++ Seen.request .start :: (edges ++ [.sdaHigh false, .callback (some .start) .start .ok false])) ++ .request request :: [] := by
    simp
  rw [log]
  cases carries : request.byte with
  | none =>
      obtain ⟨rfl, -, -⟩ := plainAsks carries answers.asks
      exact ⟨.stuck ⟨rfl, rfl, rfl, rfl, fun down => Bool.noConfusion down⟩ carries ended (fun _ member => absurd member List.not_mem_nil), nearsOther rfl⟩
  | some b =>
      obtain ⟨rfl, rfl, rfl, rfl⟩ := byteAsks carries answers.asks
      have due := answers.noticed (by simp [carries])
      subst due
      exact ⟨.ready (v := { v with sda := false }) (Nat.le_refl 1) after ended carries, nearsOther rfl⟩

theorem ackReached {f : Nat} {request : Request} {b : Byte} {past : List Seen} (after : After request requests) (old : Past Measured past)
    (carries : request.byte = some b)
    (place : w = View.world low high { v with
      state := .ack, scl := false, desiredScl := true, desiredSda := b.getLsbD 0, isStopping := false, isStarting := false, enabled := true
      clockValue := true, bits := 0, waiting := false, clockEvent := none, fsmEvent := some f, count := 9 } requests
      (some request) (past ++ .request request :: (bits b ++ [.rising (b.getLsbD 0 && !v.pull) v.pull])))
    (due : w.helper.fsmEvent = some 0) (moved : step w .fsm = some next) : Reached low high next ∧ Nears low high 0 w next := by
  subst place
  obtain ⟨asked, left, rfl, afterwards⟩ := restAfter (byteRest carries after)
  obtain ⟨data, bits', isStarting, isStopping, event, answers, stepped⟩ := @ackStep low high
    { v with
      state := .ack, scl := false, desiredScl := true, desiredSda := b.getLsbD 0, isStopping := false, isStarting := false, enabled := true
      clockValue := true, bits := 0, waiting := false, clockEvent := none, fsmEvent := some f, count := 9 }
    left (some request) (past ++ .request request :: (bits b ++ [.rising (b.getLsbD 0 && !v.pull) v.pull])) asked rfl rfl rfl rfl rfl rfl rfl rfl due
  rw [stepped] at moved
  rw [← Option.some.inj moved]
  dsimp only
  have ended : Past Measured (past ++ .request request :: (bits b ++ [.rising (b.getLsbD 0 && !v.pull) v.pull,
      .callback (some request) .ack (if (b.getLsbD 0 && !v.pull) = true then .ko else .ok) v.pull])) :=
    old.more (.byte carries (ackMeasured b v.pull))
  generalize (if (b.getLsbD 0 && !v.pull) = true then Status.ko else .ok) = status at ended ⊢
  have log : (past ++ Seen.request request :: (bits b ++ [.rising (b.getLsbD 0 && !v.pull) v.pull])) ++
        [.callback (some request) .ack status v.pull, .request asked] =
      (past ++ Seen.request request :: (bits b ++ [.rising (b.getLsbD 0 && !v.pull) v.pull, .callback (some request) .ack status v.pull])) ++
        .request asked :: [] := by
    simp
  refine ⟨?_, nearsAnswer rfl rfl⟩
  rw [log]
  exact .stopHigh (v := { v with
    sda := b.getLsbD 0 && !v.pull, desiredSda := b.getLsbD 0, data := data, bits := bits', isStarting := isStarting
    isStopping := isStopping }) (Nat.le_refl high) answers.soon afterwards ended answers.asks

theorem betweenReached {f : Nat} {request : Request} {past : List Seen} (after : After request requests) (old : Past Measured past)
    (asks : Asks request v.data v.bits v.isStarting v.isStopping)
    (shape : w = View.world low high { v with
      state := .stopClockWait, scl := false, desiredScl := false, desiredSda := true, enabled := false, waiting := true, clockEvent := none
      fsmEvent := some f, pull := false, count := 0 } requests (some request) (past ++ .request request :: []))
    (due : w.helper.fsmEvent = some 0) (moved : step w .fsm = some next) : Reached low high next ∧ Nears low high 0 w next := by
  subst shape
  have place : Between { v with
    state := .stopClockWait, scl := false, desiredScl := false, desiredSda := true, enabled := false, waiting := true, clockEvent := none
    fsmEvent := some f, pull := false, count := 0 } := ⟨rfl, rfl, rfl, rfl, rfl, rfl, rfl, due⟩
  cases carries : request.byte with
  | some b =>
      obtain ⟨data, count, starting, stopping⟩ := byteAsks carries asks
      obtain ⟨event, next, stepped⟩ := @betweenByte low high _ requests (some request) (past ++ .request request :: []) place
        (by simp [count])
      rw [stepped] at moved
      rw [← Option.some.inj moved]
      dsimp only
      rw [data, count, starting, stopping]
      refine ⟨.dataLow (k := 0) (v := { v with sda := true }) (by decide) (Nat.le_refl low) next after old carries, ?_⟩
      exact nearsRank rfl (Nat.lt_succ_self 33) lowBound
  | none =>
      obtain ⟨none, starting, stopping⟩ := plainAsks carries asks
      cases request with
      | data | address => contradiction
      | start =>
          rw [betweenStart place none starting] at moved
          rw [← Option.some.inj moved, List.append_assoc, List.cons_append]
          dsimp only
          rw [none, stopping]
          exact ⟨.restart (v := { v with sda := true, count := 1 }) (Nat.le_refl high) after old, nearsOther rfl⟩
      | stop =>
          obtain rfl : requests = [] := after
          rw [betweenStop place none starting stopping] at moved
          rw [← Option.some.inj moved]
          dsimp only
          rw [none, starting]
          exact ⟨.stop0 (v := { v with sda := true }) (Nat.le_refl high) old, nearsOther rfl⟩

theorem fsmReached (reached : Reached low high w) (moved : step w .fsm = some next) :
    Reached low high next ∧ Nears low high 0 w next := by
  have due : w.helper.fsmEvent = some 0 := by
    simp only [step] at moved
    split at moved
    · assumption
    · contradiction
  cases reached
  case starting v f requests soon rest =>
      rw [startingStep rfl rfl rfl rfl rfl rfl due] at moved
      rw [← Option.some.inj moved]
      have quiet : Clocks [] := fun _ member => absurd member List.not_mem_nil
      exact ⟨.starts (Nat.le_refl 1) rest .nil quiet, nearsOther rfl⟩
  case starts v f requests past edges soon rest old clocks => exact startsReached rest old clocks rfl due moved
  case ready v f request b requests past soon after old carries =>
      rw [waitDataStep rfl rfl (fun down => Bool.noConfusion down) due] at moved
      rw [← Option.some.inj moved]
      have place : Reached low high _ := .dataHigh (k := 0) (v := { v with sda := false, desiredSda := false }) (by decide) (Nat.le_refl high)
        soonNone after old carries
      rw [BitVec.shiftLeft_zero] at place
      exact ⟨place, nearsRank rfl (Nat.lt_succ_self 35) highBound⟩
  case stuck v request requests past edges stays plain old clocks =>
      obtain ⟨state, sda, none, waiting, slot⟩ := stays
      rw [waitDataStep state sda slot due] at moved
      rw [← Option.some.inj moved]
      exact ⟨.stuck ⟨if_pos none, sda, none, rfl, slot⟩ plain old clocks, nearsOther plain⟩
  case dataHigh v k c event request b requests past few near soon after old carries =>
      rw [fsmSteady (.inl rfl) rfl (fun down => Bool.noConfusion down) due] at moved
      rw [← Option.some.inj moved]
      exact ⟨.dataHigh (v := { v with sda := v.desiredSda && true }) few near soonNone after old carries, nearsTimer rfl rfl (Nat.le_refl c)⟩
  case dataFallen v k f request b requests past few soon after old carries =>
      obtain ⟨event, next, stepped⟩ := @fallStep low high
        { v with
          state := .data, scl := true, desiredScl := false, isStopping := false, isStarting := false, enabled := true, clockValue := false
          data := b <<< k, bits := 8 - k, waiting := false, clockEvent := none, fsmEvent := some f, pull := false, count := k }
        requests (some request) (past ++ .request request :: (bits b).take k) rfl rfl rfl rfl rfl rfl (by dsimp only; omega) due
      rw [stepped] at moved
      rw [← Option.some.inj moved]
      dsimp only
      rw [shiftedBit few, ← BitVec.shiftLeft_add]
      refine ⟨.dataLow (v := { v with sda := v.desiredSda }) few (Nat.le_refl low) next after old carries, nearsRank rfl ?_ lowBound⟩
      exact Nat.lt_succ_self (4 * (8 - k) + 1)
  case dataLow v k c event request b requests past few near soon after old carries =>
      rw [fsmSteady (.inl rfl) rfl (fun _ => by dsimp only; omega) due] at moved
      rw [← Option.some.inj moved]
      exact ⟨.dataLow (v := { v with sda := b.getLsbD (7 - k) && true }) few near soonNone after old carries, nearsTimer rfl rfl (Nat.le_refl c)⟩
  case dataRisen v k f request b requests past few soon after old carries =>
      rw [riseStep rfl rfl rfl rfl rfl due] at moved
      rw [← Option.some.inj moved]
      by_cases last : k = 7
      · subst last
        refine ⟨.ackHigh (v := { v with sda := b.getLsbD 0 && true, data := b <<< 8 }) (Nat.le_refl high) soonNone after old carries, ?_⟩
        exact nearsRank rfl (Nat.lt_succ_self 3) highBound
      · have more : (8 - (k : Int) - 1) ≠ 0 := by omega
        have left : (8 - (k : Int) - 1) = 8 - ((k + 1 : Nat) : Int) := by omega
        dsimp only
        rw [if_neg more, left]
        refine ⟨.dataHigh (v := { v with sda := b.getLsbD (7 - k) && true, desiredSda := b.getLsbD (7 - k) }) (by omega) (Nat.le_refl high)
          soonNone after old carries, nearsRank rfl ?_ highBound⟩
        show 4 * (8 - (k + 1)) + 3 < 4 * (9 - (k + 1))
        omega
  case ackHigh v c event request b requests past near soon after old carries =>
      rw [fsmSteady (.inr (.inl rfl)) rfl (fun down => Bool.noConfusion down) due] at moved
      rw [← Option.some.inj moved]
      exact ⟨.ackHigh (v := { v with sda := b.getLsbD 0 && true }) near soonNone after old carries, nearsTimer rfl rfl (Nat.le_refl c)⟩
  case ackFallen v f request b requests past soon after old carries =>
      rw [ackFallStep rfl rfl rfl rfl rfl (by simp) due] at moved
      rw [← Option.some.inj moved]
      refine ⟨.ackLow (v := { v with sda := b.getLsbD 0 && !v.pull }) (Nat.le_refl low) soonNone after old carries, ?_⟩
      exact nearsRank rfl (Nat.lt_succ_self 1) lowBound
  case ackLow v c event request b requests past near soon after old carries =>
      rw [fsmSteady (.inr (.inl rfl)) rfl (fun _ => by simp) due] at moved
      rw [← Option.some.inj moved]
      exact ⟨.ackLow (v := { v with sda := b.getLsbD 0 && !v.pull }) near soonNone after old carries, nearsTimer rfl rfl (Nat.le_refl c)⟩
  case ackRisen v f request b requests past soon after old carries => exact ackReached after old carries rfl due moved
  case stopHigh v c event request requests past near soon after old asks =>
      rw [fsmSteady (.inr (.inr rfl)) rfl (fun down => Bool.noConfusion down) due] at moved
      rw [← Option.some.inj moved]
      exact ⟨.stopHigh (v := { v with sda := v.desiredSda && !v.pull }) near soonNone after old asks, nearsTimer rfl rfl (Nat.le_refl c)⟩
  case stopFallen v f request requests past soon after old asks =>
      rw [stopFallStep rfl rfl rfl rfl rfl (by simp) due] at moved
      rw [← Option.some.inj moved]
      refine ⟨.between (v := { v with sda := v.desiredSda, clockValue := true }) (Nat.le_refl high) after old asks, ?_⟩
      exact nearsRank rfl (Nat.lt_succ_self 34) highBound
  case between v f request requests past near after old asks => exact betweenReached after old asks rfl due moved
  case restart v f requests past near rest old =>
      rw [restartStep rfl rfl rfl rfl rfl rfl due] at moved
      rw [← Option.some.inj moved, List.append_assoc, List.cons_append]
      exact ⟨.starts (Nat.le_refl 1) rest old (fun seen member => ⟨true, false, List.mem_singleton.mp member⟩), nearsOther rfl⟩
  case stop0 v f past near old =>
      rw [stop0Step rfl rfl rfl rfl rfl due] at moved
      rw [← Option.some.inj moved, List.append_assoc, List.cons_append]
      exact ⟨.stop1 (v := { v with sda := false, count := 1 }) (Nat.le_refl high) old, nearsOther rfl⟩
  case stop1 v f past near old =>
      rw [stop1Step rfl rfl rfl rfl rfl rfl due] at moved
      rw [← Option.some.inj moved, List.append_assoc, List.cons_append]
      exact ⟨.stops (Nat.le_refl 1) old, nearsOther rfl⟩
  case stops v f past soon old =>
      rw [stopsStep rfl rfl rfl rfl rfl rfl due] at moved
      rw [← Option.some.inj moved, List.append_assoc, List.cons_append]
      have clocks : Clocks [.rising false false] := fun seen member => ⟨false, false, List.mem_singleton.mp member⟩
      have ended : Past Measured (past ++ .request .stop :: ([.rising false false] ++ [.sdaHigh true, .callback (some .stop) .stop .ok false])) :=
        old.more (.stop clocks)
      exact ⟨.finished (v := { v with sda := true }) ended, nearsOther rfl⟩
  case finished v event past old =>
      rw [idleStep rfl rfl rfl rfl rfl rfl due] at moved
      rw [← Option.some.inj moved]
      exact ⟨.finished (v := { v with sda := true }) old, nearsPlain fun _ same => absurd same.symm (Option.some_ne_none _)⟩

end Fsm

end Gvsoc.I2cHelper
