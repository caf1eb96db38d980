import Gvsoc.HwLoopEnds

/-! Runs of the core beside those of its programs. A handler that restores the loop registers may still disturb the
loop it has interrupted: `elw_interrupted` is one flag for the core, set from the interrupt of a `p.elw` to the next one
that is executed, whoever executes it, and it is looked at by every instruction that ends a loop. -/
namespace Gvsoc.HwLoop
open Machine (Run reach reachRun runInvariant)

structure Paired where
  cpu : Cpu
  spec : Spec

def Paired.boot (pc : Word) : Paired := ⟨.boot pc, .boot pc⟩

def step (p : Program) (s : Paired) (a : Action) : Option Paired :=
  (s.cpu.step p a).map fun cpu => ⟨cpu, s.spec.step p a⟩

def Restores (p : Program) (s : Paired) : Action → Prop
  | .exec _ => p.insn s.cpu.currentInsn = .mret →
      ∃ frame ∈ s.spec.frames.head?, insnCacheGet s.cpu.epc = frame.address ∧ Held s.cpu frame.loops
  | _ => True

/- What an instruction has to find. The end of a loop under way is patched, and is no `mret`. A patched instruction
finds `elw_interrupted` only if it is itself a `p.elw` that was interrupted; such a one still finds it, and is patched,
if it has ended a pass. No other program makes it an end. -/
def Finds (p : Program) (s : Paired) (o : Outcome) : Prop :=
  let pc := s.cpu.currentInsn
  (EndsLoop (s.cpu.handler p pc o).1 pc → s.cpu.patched pc = true ∧ p.insn pc ≠ .mret) ∧
    (s.cpu.patched pc = true → s.cpu.elwInterrupted = true → s.spec.context.again.isSome = true) ∧
    (∀ elw ∈ s.spec.context.again, elw.closed = true → s.cpu.patched pc = true ∧ s.cpu.elwInterrupted = true) ∧
    ∀ last ∈ p.endSet pc, s.cpu.patched last = true ∨ ∀ frame ∈ s.spec.frames, ∀ elw ∈ frame.again, elw.insn ≠ last

instance (p : Program) (s : Paired) (a : Action) : Decidable (Restores p s a) :=
  match a with
  | .exec _ => inferInstanceAs (Decidable (_ → _))
  | .elwOver | .irqTaken _ | .flush => .isTrue trivial

instance (p : Program) (s : Paired) (o : Outcome) : Decidable (Finds p s o) :=
  have : Decidable (∀ last ∈ p.endSet s.cpu.currentInsn,
      s.cpu.patched last = true ∨ ∀ frame ∈ s.spec.frames, ∀ elw ∈ frame.again, elw.insn ≠ last) := Option.decidableForallMem _
  inferInstanceAs (Decidable (_ ∧ _ ∧ _ ∧ _))

def Undisturbed (p : Program) (s : Paired) (a : Action) : Prop :=
  Restores p s a ∧ match a with
    | .exec o => Finds p s o
    | _ => True

instance (p : Program) (s : Paired) (a : Action) : Decidable (Undisturbed p s a) :=
  match a with
  | .exec _ => inferInstanceAs (Decidable (_ ∧ _))
  | .elwOver | .irqTaken _ | .flush => .isTrue ⟨trivial, trivial⟩

def Awaits (p : Program) (x : Context) (elw : Elw) : Prop :=
  p.insn elw.insn = .pElw ∧
    (elw.closed = false → x.pc = insnCacheGet (elw.insn + p.size elw.insn) ∧ ∀ i, (x.loops i).endsAt elw.insn = false)

/- The flag is about the last program that was interrupted in a `p.elw`. -/
def Remembers (c : Cpu) (programs : List Context) : Prop :=
  c.elwInterrupted = true → ∀ x ∈ programs.find? (·.again.isSome), ∀ elw ∈ x.again,
    c.patched elw.insn = true → c.hwloopNextInsn = x.pc

structure Related (p : Program) (s : Paired) : Prop where
  held : Held s.cpu s.spec.context.loops
  starts : Starts s.cpu
  marks : Marks s.cpu
  place : s.cpu.currentInsn = s.spec.context.address
  elw : s.cpu.elwInsn = s.spec.context.waits.map Elw.insn
  waiting : ∀ elw ∈ s.spec.context.waits, s.spec.context.again = none ∧ Awaits p s.spec.context elw ∧
    (s.cpu.patched elw.insn = true → s.cpu.hwloopNextInsn = s.spec.context.pc)
  paused : ∀ x ∈ s.spec.frames, x.waits = none
  awaiting : ∀ x ∈ s.spec.context :: s.spec.frames, ∀ elw ∈ x.again, Awaits p x elw
  next : Remembers s.cpu (s.spec.context :: s.spec.frames)

section Steps

variable {p : Program} {s : Paired} {o : Outcome} {next : Cpu}

/- A `p.elw` that was interrupted is not counted again, and goes on where it would have gone. -/
theorem execAgain (related : Related p s) (finds : Finds p s o) {elw : Elw} (again : s.spec.context.again = some elw)
    (taken : s.cpu.exec p o = some next) :
    ∃ kept, next = { s.cpu with
        currentInsn := s.spec.context.pc, elwInsn := if o.waits then some elw.insn else none
        elwInterrupted := false, hwloopNextInsn := kept } ∧
      (s.cpu.patched elw.insn = true → kept = s.spec.context.pc) := by
  have place : s.cpu.currentInsn = elw.insn := by
    rw [related.place]
    simp [Context.address, again]
  obtain ⟨insn, open'⟩ := related.awaiting s.spec.context List.mem_cons_self elw again
  obtain ⟨-, -, closed, -⟩ := finds
  have handled : s.cpu.handler p elw.insn o = (s.cpu.pElw elw.insn o.waits, insnCacheGet (elw.insn + p.size elw.insn)) := by
    simp [Cpu.handler, insn]
  have idle (passed : elw.closed = false) : ¬ EndsLoop (s.cpu.pElw elw.insn o.waits) elw.insn := by
    intro ends
    obtain ⟨i, ends⟩ := (endsLoopIff related.held).mp ends
    rw [(open' passed).2 i] at ends
    contradiction
  unfold Cpu.exec at taken
  rw [place, handled] at taken
  split at taken
  · contradiction
  · cases marked : s.cpu.patched elw.insn with
    | true =>
        cases flag : s.cpu.elwInterrupted with
        | true =>
            have kept := related.next flag s.spec.context (by simp [again]) elw again marked
            simp only [marked, Cpu.hwloopCheckExec, handled, flag, if_true, Option.some.injEq] at taken
            refine ⟨s.cpu.hwloopNextInsn, ?_, fun _ => kept⟩
            rw [← taken, ← kept]
            rfl
        | false =>
            have passed : elw.closed = false := by
              by_contra some
              have both := closed elw again (by simpa using some)
              rw [flag] at both
              exact absurd both.2 (by simp)
            simp only [marked, Cpu.hwloopCheckExec, handled, flag, if_true, Bool.false_eq_true, if_false,
              checkEndsIdle (idle passed), Option.some.injEq] at taken
            refine ⟨s.spec.context.pc, ?_, fun _ => rfl⟩
            rw [← taken, (open' passed).1]
            rfl
    | false =>
        have passed : elw.closed = false := by
          by_contra some
          have both := closed elw again (by simpa using some)
          rw [place, marked] at both
          exact absurd both.1 (by simp)
        simp only [marked, Bool.false_eq_true, if_false, Option.some.injEq] at taken
        refine ⟨s.cpu.hwloopNextInsn, ?_, fun no => absurd no (by simp)⟩
        rw [← taken, (open' passed).1]
        rfl

theorem execReturn (finds : Finds p s o) (again : s.spec.context.again = none) (insn : p.insn s.cpu.currentInsn = .mret)
    (taken : s.cpu.exec p o = some next) :
    ∃ kept, next = { s.cpu with currentInsn := insnCacheGet s.cpu.epc, hwloopNextInsn := kept } ∧
      (s.cpu.elwInterrupted = true → kept = s.cpu.hwloopNextInsn) := by
  obtain ⟨ends, alone, -, -⟩ := finds
  have handled : s.cpu.handler p s.cpu.currentInsn o = (s.cpu, insnCacheGet s.cpu.epc) := by
    simp [Cpu.handler, insn]
  rw [handled] at ends
  have idle : ¬ EndsLoop s.cpu s.cpu.currentInsn := fun ending => (ends ending).2 insn
  unfold Cpu.exec at taken
  rw [handled] at taken
  split at taken
  · contradiction
  · cases marked : s.cpu.patched s.cpu.currentInsn with
    | true =>
        have flag : s.cpu.elwInterrupted = false := by
          by_contra set
          have own := alone marked (by simpa using set)
          rw [again] at own
          contradiction
        simp only [marked, Cpu.hwloopCheckExec, handled, flag, if_true, Bool.false_eq_true, if_false,
          checkEndsIdle idle, Option.some.injEq] at taken
        refine ⟨insnCacheGet s.cpu.epc, ?_, fun no => ?_⟩
        · rw [← taken, ← flag]
        · rw [flag] at no
          contradiction
    | false =>
        simp only [marked, Bool.false_eq_true, if_false, Option.some.injEq] at taken
        exact ⟨s.cpu.hwloopNextInsn, taken.symm, fun _ => rfl⟩

def Loops.after (l : Loops) (p : Program) (pc : Word) (o : Outcome) : Loops × Word :=
  (l.written p pc o.value).finish pc (insnCacheGet (if p.insn pc = .other then o.target else pc + p.size pc))

theorem handlerNext (c : Cpu) {pc : Word} (plain : p.insn pc ≠ .mret) :
    (c.handler p pc o).2 = insnCacheGet (if p.insn pc = .other then o.target else pc + p.size pc) := by
  unfold Cpu.handler
  cases insn : p.insn pc <;> simp_all

theorem execOrdinary (related : Related p s) (finds : Finds p s o) (again : s.spec.context.again = none)
    (plain : p.insn s.cpu.currentInsn ≠ .mret) (taken : s.cpu.exec p o = some next) :
    ∃ regs kept, next = { (s.cpu.handler p s.cpu.currentInsn o).1 with
        currentInsn := (s.spec.context.loops.after p s.cpu.currentInsn o).2, hwloopRegs := regs, hwloopNextInsn := kept } ∧
      Held next (s.spec.context.loops.after p s.cpu.currentInsn o).1 ∧ Starts next ∧
      (s.cpu.patched s.cpu.currentInsn = true →
        s.cpu.elwInterrupted = false ∧ kept = (s.spec.context.loops.after p s.cpu.currentInsn o).2) ∧
      (s.cpu.patched s.cpu.currentInsn = false → kept = s.cpu.hwloopNextInsn) := by
  obtain ⟨ends, alone, -, -⟩ := finds
  have held : Held (s.cpu.handler p s.cpu.currentInsn o).1 (s.spec.context.loops.written p s.cpu.currentInsn o.value) :=
    handlerHeld related.held
  have starts : Starts (s.cpu.handler p s.cpu.currentInsn o).1 := handlerStarts related.starts
  have goes := handlerNext (o := o) s.cpu plain
  unfold Cpu.exec at taken
  unfold Loops.after
  rw [← goes]
  split at taken
  · contradiction
  · cases marked : s.cpu.patched s.cpu.currentInsn with
    | true =>
        have flag : s.cpu.elwInterrupted = false := by
          by_contra set
          have own := alone marked (by simpa using set)
          rw [again] at own
          contradiction
        obtain ⟨counted, jump⟩ := checkEndsFinish held starts s.cpu.currentInsn (s.cpu.handler p s.cpu.currentInsn o).2
        obtain ⟨regs, same, starting⟩ := checkEndsKeeps (s.cpu.handler p s.cpu.currentInsn o).1 s.cpu.currentInsn
          (s.cpu.handler p s.cpu.currentInsn o).2
        simp only [marked, Cpu.hwloopCheckExec, flag, if_true, Bool.false_eq_true, if_false, Option.some.injEq] at taken
        rw [jump] at same taken
        rw [same] at counted taken
        subst taken
        exact ⟨regs, _, rfl, counted, fun i => (starts i).trans (congrArg insnCacheGet (starting i).symm),
          fun _ => ⟨flag, rfl⟩, fun no => absurd no (by simp)⟩
    | false =>
        have idle (i : Fin 2) : (s.spec.context.loops.written p s.cpu.currentInsn o.value i).endsAt s.cpu.currentInsn = false := by
          by_contra ending
          have ending := (ends ((endsLoopIff held).mpr ⟨i, by simpa using ending⟩)).1
          rw [marked] at ending
          contradiction
        simp only [marked, Bool.false_eq_true, if_false, Option.some.injEq] at taken
        rw [finishIdle idle]
        subst taken
        exact ⟨_, s.cpu.hwloopNextInsn, by rw [← (handlerKeeps s.cpu p s.cpu.currentInsn o).2.1], held, starts,
          fun no => absurd no (by simp), fun _ => rfl⟩

theorem heldRegs {c c' : Cpu} {l : Loops} (held : Held c l) (regs : c'.hwloopRegs = c.hwloopRegs) : Held c' l := by
  unfold Held
  rw [regs]
  exact held

theorem stepAgain (related : Related p s) (finds : Finds p s o) {elw : Elw} (again : s.spec.context.again = some elw)
    (taken : s.cpu.exec p o = some next) : Related p ⟨next, s.spec.exec p o⟩ := by
  obtain ⟨kept, rfl, right⟩ := execAgain related finds again taken
  have program : s.spec.exec p o = { s.spec with context := { s.spec.context with again := none, waits := if o.waits then some elw else none } } := by
    simp [Spec.exec, again]
  rw [program]
  refine { held := heldRegs related.held rfl, starts := related.starts, marks := related.marks, place := rfl, elw := ?_,
           waiting := ?_, paused := related.paused, awaiting := ?_, next := fun no => absurd no (by simp) }
  · dsimp only
    split <;> rfl
  · intro waiting found
    have same : waiting = elw := by
      dsimp only at found
      split at found
      · exact (Option.some.inj found).symm
      · contradiction
    subst same
    exact ⟨rfl, related.awaiting _ List.mem_cons_self _ again, right⟩
  · intro x inside waiting found
    rcases List.mem_cons.mp inside with rfl | frame
    · contradiction
    · exact related.awaiting x (List.mem_cons_of_mem _ frame) waiting found

theorem execIdle {c : Cpu} (taken : c.exec p o = some next) : c.elwInsn = none := by
  unfold Cpu.exec at taken
  split at taken
  · contradiction
  · rename_i idle
    simpa using idle

theorem placeOf (related : Related p s) (again : s.spec.context.again = none) : s.cpu.currentInsn = s.spec.context.pc := by
  rw [related.place]
  simp [Context.address, again]

theorem stepReturn (related : Related p s) (finds : Finds p s o) (restores : Restores p s (.exec o))
    (again : s.spec.context.again = none) (insn : p.insn s.cpu.currentInsn = .mret) (taken : s.cpu.exec p o = some next) :
    Related p ⟨next, s.spec.exec p o⟩ := by
  have ready := execIdle taken
  obtain ⟨kept, rfl, same⟩ := execReturn finds again insn taken
  obtain ⟨frame, first, target, restored⟩ := restores insn
  obtain ⟨rest, frames⟩ : ∃ rest, s.spec.frames = frame :: rest := by
    cases shape : s.spec.frames with
    | nil => rw [shape] at first; contradiction
    | cons x rest => rw [shape] at first; cases first; exact ⟨rest, rfl⟩
  have place := placeOf related again
  have program : s.spec.exec p o = ⟨frame, rest⟩ := by
    rw [place] at insn
    simp [Spec.exec, again, insn, frames]
  have paused := related.paused
  have awaiting := related.awaiting
  have remembers := related.next
  unfold Remembers at remembers
  rw [frames] at paused awaiting remembers
  rw [program]
  refine { held := heldRegs restored rfl, starts := related.starts, marks := related.marks, place := target, elw := ?_,
           waiting := ?_, paused := fun x inside => paused x (List.mem_cons_of_mem _ inside),
           awaiting := fun x inside => awaiting x (List.mem_cons_of_mem _ inside), next := fun flag => ?_ }
  · rw [paused frame List.mem_cons_self]
    exact ready
  · intro waiting found
    rw [paused frame List.mem_cons_self] at found
    contradiction
  · rw [same flag]
    simpa [again] using remembers flag

theorem specOrdinary {spec : Spec} (again : spec.context.again = none) (plain : p.insn spec.context.pc ≠ .mret) :
    spec.exec p o = { spec with context := ⟨(spec.context.loops.after p spec.context.pc o).2, (spec.context.loops.after p spec.context.pc o).1,
      if p.insn spec.context.pc = .pElw ∧ o.waits then
        some ⟨spec.context.pc, (spec.context.loops 0).endsAt spec.context.pc || (spec.context.loops 1).endsAt spec.context.pc⟩
      else none, none⟩ } := by
  unfold Spec.exec Loops.after
  rw [again]
  cases insn : p.insn spec.context.pc <;> simp_all

theorem stepOrdinary (related : Related p s) (finds : Finds p s o) (again : s.spec.context.again = none)
    (plain : p.insn s.cpu.currentInsn ≠ .mret) (taken : s.cpu.exec p o = some next) :
    Related p ⟨next, s.spec.exec p o⟩ := by
  have ready := execIdle taken
  have place := placeOf related again
  obtain ⟨regs, kept, rfl, held, starts, counted, apart⟩ := execOrdinary related finds again plain taken
  obtain ⟨marks, marked⟩ := handlerMarks p s.cpu.currentInsn o related.marks
  obtain ⟨-, -, others⟩ := handlerKeeps s.cpu p s.cpu.currentInsn o
  obtain ⟨-, -, -, fresh⟩ := finds
  rw [specOrdinary again (place ▸ plain)]
  rw [place] at *
  refine { held := held, starts := starts, marks := marks, place := rfl, elw := ?_, waiting := ?_, paused := related.paused,
           awaiting := ?_, next := fun flag x found elw awaits patched => ?_ }
  · by_cases insn : p.insn s.spec.context.pc = .pElw
    · cases waits : o.waits <;> simp [Cpu.handler, insn, Cpu.pElw, waits]
    · simp [insn, (others insn).1, ready]
  · intro elw found
    dsimp only at found
    split at found
    · rename_i waits
      cases found
      have handled : (s.cpu.handler p s.spec.context.pc o).1.patched = s.cpu.patched := by
        simp [Cpu.handler, waits.1, Cpu.pElw]
      refine ⟨rfl, ⟨waits.1, fun passed => ?_⟩, fun patched => (counted (handled ▸ patched)).2⟩
      have idle (i : Fin 2) : (s.spec.context.loops i).endsAt s.spec.context.pc = false := by
        rcases (by omega : i = 0 ∨ i = 1) with rfl | rfl <;> simp_all
      have stays : s.spec.context.loops.after p s.spec.context.pc o =
          (s.spec.context.loops, insnCacheGet (s.spec.context.pc + p.size s.spec.context.pc)) := by
        unfold Loops.after Loops.written
        simp only [waits.1]
        exact finishIdle idle
      rw [stays]
      exact ⟨rfl, idle⟩
    · contradiction
  · intro x inside waiting found
    rcases List.mem_cons.mp inside with rfl | frame
    · contradiction
    · exact related.awaiting x (List.mem_cons_of_mem _ frame) waiting found
  · have other : p.insn s.spec.context.pc ≠ .pElw := by
      intro insn
      simp [Cpu.handler, insn, Cpu.pElw] at flag
    have before : s.cpu.elwInterrupted = true := (others other).2 ▸ flag
    have frame : s.spec.frames.find? (·.again.isSome) = some x := by simpa using found
    have kept' : kept = s.cpu.hwloopNextInsn := by
      refine apart ?_
      by_contra set
      have none := (counted (by simpa using set)).1
      rw [before] at none
      contradiction
    have old : s.cpu.patched elw.insn = true := by
      rcases marked elw.insn patched with old | made
      · exact old
      · exact (fresh elw.insn made).resolve_right fun differs => differs x (List.mem_of_find?_eq_some frame) elw awaits rfl
    exact kept'.trans (related.next before x (by simpa [again] using frame) elw awaits old)

theorem stepExec (related : Related p s) (allowed : Undisturbed p s (.exec o)) (taken : s.cpu.exec p o = some next) :
    Related p ⟨next, s.spec.exec p o⟩ := by
  obtain ⟨restores, finds⟩ := allowed
  cases again : s.spec.context.again with
  | some elw => exact stepAgain related finds again taken
  | none =>
      by_cases insn : p.insn s.cpu.currentInsn = .mret
      · exact stepReturn related finds restores again insn taken
      · exact stepOrdinary related finds again insn taken

theorem remembersHead {c : Cpu} {x y : Context} {rest : List Context} (remembers : Remembers c (x :: rest))
    (again : y.again = x.again) (pc : y.pc = x.pc) : Remembers c (y :: rest) := by
  intro flag z found elw awaits patched
  cases here : x.again with
  | some own =>
      obtain rfl : y = z := by simpa [again, here] using found
      rw [pc]
      exact remembers flag x (by simp [here]) elw (again ▸ awaits) patched
  | none => exact remembers flag z (by simpa [again, here] using found) elw awaits patched

theorem stepOver (related : Related p s) : Related p ⟨{ s.cpu with elwInsn := none }, s.spec.step p .elwOver⟩ := by
  refine { held := heldRegs related.held rfl, starts := related.starts, marks := related.marks, place := related.place, elw := rfl,
           waiting := fun _ no => absurd no (by simp [Spec.step]), paused := related.paused, awaiting := fun x inside elw found => ?_,
           next := remembersHead (c := { s.cpu with elwInsn := none }) related.next rfl rfl }
  rcases List.mem_cons.mp inside with rfl | frame
  · exact related.awaiting s.spec.context List.mem_cons_self elw found
  · exact related.awaiting x (List.mem_cons_of_mem _ frame) elw found

theorem stepIrq (related : Related p s) (vector : Word) : Related p ⟨s.cpu.irqTaken vector, s.spec.irqTaken vector⟩ := by
  have paused : ∀ x ∈ (s.spec.irqTaken vector).frames, x.waits = none := by
    intro x inside
    rcases List.mem_cons.mp inside with rfl | frame
    · rfl
    · exact related.paused x frame
  have elw := related.elw
  cases waits : s.spec.context.waits with
  | some waiting =>
      obtain ⟨-, awaits, kept⟩ := related.waiting waiting waits
      rw [waits, Option.map_some] at elw
      have taken : s.cpu.irqTaken vector = { s.cpu with
          currentInsn := insnCacheGet vector, elwInsn := none, elwInterrupted := true, epc := waiting.insn } := by
        simp [Cpu.irqTaken, elw]
      rw [taken]
      refine { held := heldRegs related.held rfl, starts := related.starts, marks := related.marks, place := rfl, elw := rfl,
               waiting := fun _ no => absurd no (by simp [Spec.irqTaken]), paused := paused,
               awaiting := fun x inside other found => ?_, next := fun _ x found other awaits patched => ?_ }
      · rcases List.mem_cons.mp inside with rfl | inside
        · contradiction
        · rcases List.mem_cons.mp inside with rfl | frame
          · obtain rfl : waiting = other := by simpa [waits] using found
            exact awaits
          · exact related.awaiting x (List.mem_cons_of_mem _ frame) other found
      · obtain rfl : _ = x := by simpa [Spec.irqTaken, waits] using found
        obtain rfl : waiting = other := by simpa [waits] using awaits
        exact kept patched
  | none =>
      rw [waits, Option.map_none] at elw
      have taken : s.cpu.irqTaken vector = { s.cpu with currentInsn := insnCacheGet vector, elwInsn := none, epc := s.cpu.currentInsn } := by
        simp [Cpu.irqTaken, elw]
      have frame : (s.spec.irqTaken vector).frames = { s.spec.context with waits := none } :: s.spec.frames := by
        simp [Spec.irqTaken, waits]
      rw [taken]
      refine { held := heldRegs related.held rfl, starts := related.starts, marks := related.marks, place := rfl, elw := rfl,
               waiting := fun _ no => absurd no (by simp [Spec.irqTaken]), paused := paused,
               awaiting := fun x inside other found => ?_, next := ?_ }
      · rcases List.mem_cons.mp inside with rfl | inside
        · contradiction
        · rw [frame] at inside
          rcases List.mem_cons.mp inside with rfl | frame
          · exact related.awaiting s.spec.context List.mem_cons_self other found
          · exact related.awaiting x (List.mem_cons_of_mem _ frame) other found
      · have before : Remembers s.cpu ({ s.spec.context with waits := none } :: s.spec.frames) :=
          remembersHead related.next rfl rfl
        rw [frame]
        exact fun flag x found => before flag x found

theorem stepFlush (related : Related p s) : Related p ⟨s.cpu.cacheFlush, s.spec⟩ := by
  obtain ⟨marks, before⟩ := flushMarks related.marks
  exact { held := heldRegs related.held rfl, starts := related.starts, marks := marks, place := related.place, elw := related.elw,
          waiting := fun elw found => (related.waiting elw found).imp_right (And.imp_right fun kept patched => kept (before _ patched)),
          paused := related.paused, awaiting := related.awaiting,
          next := fun flag x found elw awaits patched => related.next flag x found elw awaits (before _ patched) }

theorem stepRelated (related : Related p s) {a : Action} (allowed : Undisturbed p s a) {t : Paired}
    (taken : step p s a = some t) : Related p t := by
  obtain ⟨cpu, done, rfl⟩ := Option.map_eq_some_iff.mp taken
  cases a with
  | exec o => exact stepExec related allowed done
  | elwOver =>
      simp only [Cpu.step] at done
      split at done
      · cases done
        exact stepOver related
      · contradiction
  | irqTaken vector =>
      cases done
      exact stepIrq related vector
  | flush =>
      cases done
      exact stepFlush related

theorem bootRelated (p : Program) (pc : Word) : Related p (.boot pc) where
  held := fun _ => ⟨rfl, rfl, rfl⟩
  starts := fun _ => by simp [Paired.boot, Cpu.boot, insnCacheGet]
  marks := fun _ _ no => by contradiction
  place := rfl
  elw := rfl
  waiting := fun _ no => by contradiction
  paused := fun _ no => by contradiction
  awaiting := fun x inside elw found => by
    rcases List.mem_singleton.mp inside with rfl
    contradiction
  next := fun no => by contradiction

end Steps

/- In every run whose steps are not disturbed the core is where its programs are, and the counter of a loop is what its
count exceeds its passes by. The end of a loop is left when every pass is over and the counter is zero. -/
theorem loopsCounted (p : Program) (pc : Word) {trace last} (run : Run (step p) (Undisturbed p) (.boot pc) trace last) :
    last.cpu.currentInsn = last.spec.context.address ∧ Held last.cpu last.spec.context.loops ∧
      ∀ o next, step p last (.exec o) = some next → Undisturbed p last (.exec o) →
        last.spec.context.again = none → p.insn last.cpu.currentInsn ≠ .mret →
        ∀ i, (last.spec.context.loops.written p last.cpu.currentInsn o.value i).endsAt last.cpu.currentInsn = true →
          (∃ j, (next.spec.context.loops j).runs = true ∧
            next.cpu.currentInsn = insnCacheGet (next.spec.context.loops j).start) ∨
          ((next.spec.context.loops i).passes = (next.spec.context.loops i).set.toNat ∧
            next.cpu.hwloopRegs (lpCount i) = 0) := by
  have related : Related p last :=
    runInvariant run (bootRelated p pc) fun s a t related allowed taken => stepRelated related allowed taken
  refine ⟨related.place, related.held, fun o next taken allowed again plain i ends => ?_⟩
  have later := stepRelated related allowed taken
  obtain ⟨cpu, done, rfl⟩ := Option.map_eq_some_iff.mp taken
  have place := placeOf related again
  have program := specOrdinary (o := o) again (place ▸ plain)
  rw [place] at ends
  have left := finishEnds (insnCacheGet (if p.insn last.spec.context.pc = .other then o.target
    else last.spec.context.pc + p.size last.spec.context.pc)) ends
  have held := later.held
  have goes := later.place
  simp only [Spec.step, program, Context.address, Option.map_none, Option.getD_none, Loops.after] at held goes ⊢
  rw [goes]
  refine left.imp_right fun done => ?_
  have count := (held i).2.2
  simp only [Loop.runs, decide_eq_false_iff_not, Nat.not_lt] at done
  have zero : (cpu.hwloopRegs (lpCount i)).toNat = 0 := by omega
  exact ⟨by omega, by bv_omega⟩

def Program.placed (code : List (Word × Insn)) : Program := ⟨fun pc => (code.lookup pc).getD .other, fun _ => 4, false⟩

def loopOfTwo : Program :=
  .placed [(0x80, .lpSetupi 0 2 2), (0x84, .pElw), (0x04, .mret), (0x10, .lpSetupi 0 2 2), (0x18, .csrHwloop 0),
    (0x1c, .csrHwloop 1), (0x20, .csrHwloop 2), (0x24, .mret)]

def plain : Action := .exec ⟨0, 0, false⟩

/- The first pass is interrupted in its `p.elw`, and the second one before it. -/
def interruptedTwice : List Action :=
  [plain, .exec ⟨0, 0, true⟩, .irqTaken 0, .exec ⟨0, 0x04, false⟩, plain, plain, .irqTaken 0x10, plain, .exec ⟨0, 0x14, false⟩,
    .exec ⟨0, 0x18, false⟩, .exec ⟨0x84, 0, false⟩, .exec ⟨0x84, 0, false⟩, .exec ⟨1, 0, false⟩, plain]

/- The second pass ends the loop. -/
theorem loopsCountedTwice :
    ∃ next, step loopOfTwo (reach (step loopOfTwo) (Undisturbed loopOfTwo) (.boot 0x80) interruptedTwice) plain = some next ∧
      (next.spec.context.loops 0).passes = 2 ∧ next.cpu.hwloopRegs (lpCount 0) = 0 := by
  obtain ⟨trace, run, -⟩ := reachRun (step loopOfTwo) (Undisturbed loopOfTwo) (.boot 0x80) interruptedTwice (by decide +kernel)
  have enabled : (step loopOfTwo (reach (step loopOfTwo) (Undisturbed loopOfTwo) (.boot 0x80) interruptedTwice) plain).isSome = true := by
    decide +kernel
  obtain ⟨next, taken⟩ := Option.isSome_iff_exists.mp enabled
  have ended := (loopsCounted loopOfTwo 0x80 run).2.2 ⟨0, 0, false⟩ next taken (by decide +kernel) (by decide +kernel)
    (by decide +kernel) 0 (by decide +kernel)
  have last : ∀ s ∈ step loopOfTwo (reach (step loopOfTwo) (Undisturbed loopOfTwo) (.boot 0x80) interruptedTwice) plain,
      (∀ j, (s.spec.context.loops j).runs = false) ∧ (s.spec.context.loops 0).set = 2 := by
    decide +kernel
  obtain ⟨done, set⟩ := last next taken
  rcases ended with ⟨j, runs, -⟩ | ⟨passes, zero⟩
  · rw [done j] at runs
    exact absurd runs Bool.false_ne_true
  · rw [set] at passes
    exact ⟨next, taken, passes, zero⟩

def elwInHandler : Program := .placed [(0x80, .lpSetupi 0 2 2), (0x84, .pElw), (0x00, .pElw), (0x04, .mret)]

/- The body is executed once, and the loop is left. -/
theorem passLeftOut :
    ∃ trace last, Run (step elwInHandler) (Restores elwInHandler) (.boot 0x80) trace last ∧
      last.cpu.currentInsn = 0x88 ∧ last.cpu.hwloopRegs (lpCount 0) = 0 ∧
      (last.spec.context.loops 0).passes = 1 ∧ (last.spec.context.loops 0).set = 2 := by
  obtain ⟨trace, run, -⟩ := reachRun (step elwInHandler) (Restores elwInHandler) (.boot 0x80)
    [plain, .exec ⟨0, 0, true⟩, .irqTaken 0, plain, plain, plain] (by decide +kernel)
  exact ⟨trace, _, run, by decide +kernel⟩

end Gvsoc.HwLoop
