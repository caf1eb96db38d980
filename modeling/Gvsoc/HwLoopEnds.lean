import Gvsoc.HwLoop
import Mathlib.Data.Fin.VecNotation
import Mathlib.Tactic.FinCases

/-! What the registers and the patched handlers say of the loops, and what an instruction makes of both. -/
namespace Gvsoc.HwLoop

def Held (c : Cpu) (l : Loops) : Prop :=
  ∀ i, c.hwloopRegs (lpStart i) = (l i).start ∧ c.hwloopRegs (lpEnd i) = (l i).last ∧
    (l i).passes + (c.hwloopRegs (lpCount i)).toNat = (l i).set.toNat

def Starts (c : Cpu) : Prop := ∀ i, c.hwloopStartInsn i = insnCacheGet (c.hwloopRegs (lpStart i))

def Marks (c : Cpu) : Prop := ∀ i insn, c.hwloopEndInsn i = some insn → c.patched insn = true

def EndsLoop (c : Cpu) (pc : Word) : Prop := ∃ i, c.hwloopRegs (lpCount i) ≠ 0 ∧ c.hwloopRegs (lpEnd i) = pc

instance (c : Cpu) (pc : Word) : Decidable (EndsLoop c pc) := inferInstanceAs (Decidable (∃ _, _))

instance (c : Cpu) (l : Loops) : Decidable (Held c l) := inferInstanceAs (Decidable (∀ _, _))

def Program.endSet (p : Program) (pc : Word) : Option Word :=
  match p.insn pc with
  | .lpEndi _ uim | .lpSetup _ uim | .lpSetupi _ _ uim => some (insnCacheGet (pc + uim <<< 1))
  | _ => none

section Writes

variable {c : Cpu} {l : Loops} {p : Program} {pc : Word} {o : Outcome}

theorem setStartHeld (held : Held c l) (i : Fin 2) (start : Word) :
    Held (c.hwloopSetStart i start) (Function.update l i { l i with start := start }) := by
  rcases (by omega : i = 0 ∨ i = 1) with rfl | rfl <;>
    simp_all [Held, Fin.forall_fin_two, Cpu.hwloopSetStart, lpStart, lpEnd, lpCount, Function.update]

theorem setEndHeld (held : Held c l) (i : Fin 2) (last : Word) :
    Held (c.hwloopSetEnd i last) (Function.update l i { l i with last := last }) := by
  rcases (by omega : i = 0 ∨ i = 1) with rfl | rfl <;>
    simp_all [Held, Fin.forall_fin_two, Cpu.hwloopSetEnd, Cpu.hwloopSetInsnEnd, lpStart, lpEnd, lpCount, Function.update]

theorem setCountHeld (held : Held c l) (i : Fin 2) (count : Word) :
    Held (c.hwloopSetCount i count) (Function.update l i ((l i).count count)) := by
  rcases (by omega : i = 0 ∨ i = 1) with rfl | rfl <;>
    simp_all [Held, Fin.forall_fin_two, Cpu.hwloopSetCount, Loop.count, lpStart, lpEnd, lpCount, Function.update]

theorem setAllHeld (held : Held c l) (i : Fin 2) (start last count : Word) :
    Held (c.hwloopSetAll i start last count) (Function.update l i ⟨start, last, count, 0⟩) := by
  have each := setCountHeld (setStartHeld (setEndHeld held i last) i start) i count
  simpa [Cpu.hwloopSetAll, Loop.count] using each

/- A CSR write of a loop register does what its `lp` instruction does to the registers. -/
theorem writeHeld (held : Held c l) {reg : Fin 7} (csr : p.insn pc = .csrHwloop reg) (value : Word) :
    Held (c.hwloopWrite reg value) (l.written p pc value) := by
  unfold Loops.written
  rw [csr]
  match reg with
  | 0 => exact setStartHeld held 0 value
  | 1 => exact setEndHeld held 0 value
  | 2 => exact setCountHeld held 0 value
  | 3 => exact fun i => by rcases (by omega : i = 0 ∨ i = 1) with rfl | rfl <;> exact held _
  | 4 => exact setStartHeld held 1 value
  | 5 => exact setEndHeld held 1 value
  | 6 => exact setCountHeld held 1 value

theorem handlerHeld (held : Held c l) : Held (c.handler p pc o).1 (l.written p pc o.value) := by
  have same : (l.written p pc o.value = l) → (c.handler p pc o).1.hwloopRegs = c.hwloopRegs → Held (c.handler p pc o).1 (l.written p pc o.value) := by
    intro loops regs
    unfold Held
    rw [loops, regs]
    exact held
  cases insn : p.insn pc with
  | lpStarti index uim => simpa [Cpu.handler, Loops.written, insn] using setStartHeld held index _
  | lpEndi index uim => simpa [Cpu.handler, Loops.written, insn] using setEndHeld held index _
  | lpCount index => simpa [Cpu.handler, Loops.written, insn] using setCountHeld held index _
  | lpCounti index count => simpa [Cpu.handler, Loops.written, insn] using setCountHeld held index _
  | lpSetup index uim => simpa [Cpu.handler, Loops.written, insn] using setAllHeld held index _ _ _
  | lpSetupi index count uim => simpa [Cpu.handler, Loops.written, insn] using setAllHeld held index _ _ _
  | csrHwloop reg =>
      unfold Cpu.handler
      rw [insn]
      exact writeHeld held insn o.value
  | csrEpc => exact same (by simp [Loops.written, insn]) (by simp [Cpu.handler, insn])
  | pElw => exact same (by simp [Loops.written, insn]) (by simp [Cpu.handler, insn, Cpu.pElw])
  | mret => exact same (by simp [Loops.written, insn]) (by simp [Cpu.handler, insn])
  | fence =>
      refine same (by simp [Loops.written, insn]) ?_
      simp only [Cpu.handler, insn]
      split <;> rfl
  | other => exact same (by simp [Loops.written, insn]) (by simp [Cpu.handler, insn])

theorem setStartStarts (starts : Starts c) (i : Fin 2) (start : Word) : Starts (c.hwloopSetStart i start) := by
  rcases (by omega : i = 0 ∨ i = 1) with rfl | rfl <;>
    simp_all [Starts, Fin.forall_fin_two, Cpu.hwloopSetStart, lpStart, Function.update]

theorem setEndStarts (starts : Starts c) (i : Fin 2) (last : Word) : Starts (c.hwloopSetEnd i last) := by
  rcases (by omega : i = 0 ∨ i = 1) with rfl | rfl <;>
    simp_all [Starts, Fin.forall_fin_two, Cpu.hwloopSetEnd, Cpu.hwloopSetInsnEnd, lpStart, lpEnd, Function.update]

theorem setCountStarts (starts : Starts c) (i : Fin 2) (count : Word) : Starts (c.hwloopSetCount i count) := by
  rcases (by omega : i = 0 ∨ i = 1) with rfl | rfl <;>
    simp_all [Starts, Fin.forall_fin_two, Cpu.hwloopSetCount, lpStart, lpCount, Function.update]

theorem writeStarts (starts : Starts c) (reg : Fin 7) (value : Word) : Starts (c.hwloopWrite reg value) := by
  match reg with
  | 0 => exact setStartStarts starts 0 value
  | 1 => exact setEndStarts starts 0 value
  | 2 => exact setCountStarts starts 0 value
  | 3 => exact fun i => by rcases (by omega : i = 0 ∨ i = 1) with rfl | rfl <;> exact starts _
  | 4 => exact setStartStarts starts 1 value
  | 5 => exact setEndStarts starts 1 value
  | 6 => exact setCountStarts starts 1 value

theorem handlerStarts (starts : Starts c) : Starts (c.handler p pc o).1 := by
  have all (index : Fin 2) (start last count : Word) : Starts (c.hwloopSetAll index start last count) :=
    setCountStarts (setStartStarts (setEndStarts starts index last) index start) index count
  unfold Cpu.handler
  cases p.insn pc with
  | lpStarti index uim => exact setStartStarts starts index _
  | lpEndi index uim => exact setEndStarts starts index _
  | lpCount index => exact setCountStarts starts index _
  | lpCounti index count => exact setCountStarts starts index _
  | lpSetup index uim => exact all index _ _ _
  | lpSetupi index count uim => exact all index _ _ _
  | csrHwloop reg => exact writeStarts starts reg _
  | csrEpc | pElw | mret | other => exact starts
  | fence =>
      dsimp only
      split <;> exact starts

end Writes

section Ends

variable {c : Cpu} {l : Loops} {pc next : Word}

theorem startCount (i j : Fin 2) : lpStart i ≠ lpCount j := by decide +revert

theorem endCount (i j : Fin 2) : lpEnd i ≠ lpCount j := by decide +revert

theorem countCount (i j : Fin 2) : lpCount i = lpCount j ↔ i = j := by decide +revert

theorem endsIff (held : Held c l) (i : Fin 2) :
    (c.hwloopRegs (lpCount i) ≠ 0 ∧ c.hwloopRegs (lpEnd i) = pc) ↔ (l i).endsAt pc = true := by
  obtain ⟨-, last, count⟩ := held i
  have left : c.hwloopRegs (lpCount i) ≠ 0 ↔ (l i).passes < (l i).set.toNat := by
    have zero : c.hwloopRegs (lpCount i) = 0 ↔ (c.hwloopRegs (lpCount i)).toNat = 0 := by bv_omega
    rw [Ne, zero]
    omega
  rw [left, last]
  simp [Loop.endsAt, Loop.runs]

theorem reachedEndPass (held : Held c l) (i : Fin 2) (pc : Word) :
    Held (c.reachedEnd i pc).1 (l.pass i pc).1 ∧ (c.reachedEnd i pc).2 = (l.pass i pc).2 := by
  unfold Cpu.reachedEnd Loops.pass
  by_cases ends : (l i).endsAt pc = true
  · have left := (endsIff held i).mpr ends
    rw [if_pos left, if_pos ends]
    have less : (c.hwloopRegs (lpCount i) - 1).toNat = (c.hwloopRegs (lpCount i)).toNat - 1 := by bv_omega
    have some : 0 < (c.hwloopRegs (lpCount i)).toNat := by bv_omega
    have count := (held i).2.2
    have counted : Held { c with hwloopRegs := Function.update c.hwloopRegs (lpCount i) (c.hwloopRegs (lpCount i) - 1) }
        (Function.update l i { l i with passes := (l i).passes + 1 }) := by
      intro j
      have other := held j
      by_cases same : j = i
      · subst same
        simp only [ne_eq, startCount, endCount, not_false_eq_true, Function.update_of_ne, Function.update_self]
        exact ⟨other.1, other.2.1, by omega⟩
      · simp only [ne_eq, startCount, endCount, countCount, same, not_false_eq_true, Function.update_of_ne]
        exact other
    refine ⟨counted, ?_⟩
    have zero : c.hwloopRegs (lpCount i) - 1 = 0 ↔ (c.hwloopRegs (lpCount i) - 1).toNat = 0 := by bv_omega
    simp only [Function.update_self, ne_eq, decide_not, Loop.runs, zero]
    rw [← decide_not]
    congr 1
    simp only [eq_iff_iff]
    omega
  · rw [if_neg (mt (endsIff held i).mp ends), if_neg ends]
    exact ⟨held, rfl⟩

theorem reachedEndKeeps (c : Cpu) (i : Fin 2) (pc : Word) :
    ∃ regs, (c.reachedEnd i pc).1 = { c with hwloopRegs := regs } ∧ ∀ j, regs (lpStart j) = c.hwloopRegs (lpStart j) := by
  unfold Cpu.reachedEnd
  split
  · exact ⟨_, rfl, fun j => Function.update_of_ne (startCount j i) ..⟩
  · exact ⟨_, rfl, fun _ => rfl⟩

theorem reachedEndStarts (starts : Starts c) (i : Fin 2) (pc : Word) : Starts (c.reachedEnd i pc).1 := by
  obtain ⟨regs, same, starting⟩ := reachedEndKeeps c i pc
  rw [same]
  exact fun j => (starts j).trans (congrArg insnCacheGet (starting j).symm)

theorem startHeld (held : Held c l) (starts : Starts c) (i : Fin 2) : c.hwloopStartInsn i = insnCacheGet (l i).start := by
  rw [starts, (held i).1]

/- The two tests are those of the loops, and a loop that jumps back finds its start instruction. -/
theorem checkEndsFinish (held : Held c l) (starts : Starts c) (pc next : Word) :
    Held (c.checkEnds pc next).1 (l.finish pc next).1 ∧ (c.checkEnds pc next).2 = (l.finish pc next).2 := by
  obtain ⟨inner, again⟩ := reachedEndPass held 0 pc
  have startsInner : Starts (c.reachedEnd 0 pc).1 := reachedEndStarts starts 0 pc
  unfold Cpu.checkEnds Loops.finish
  simp only [again]
  cases (l.pass 0 pc).2 with
  | true => exact ⟨inner, startHeld inner startsInner 0⟩
  | false =>
      obtain ⟨outer, again⟩ := reachedEndPass inner 1 pc
      have startsOuter : Starts ((c.reachedEnd 0 pc).1.reachedEnd 1 pc).1 := reachedEndStarts startsInner 1 pc
      simp only [again, Bool.false_eq_true, if_false]
      cases ((l.pass 0 pc).1.pass 1 pc).2 with
      | true => exact ⟨outer, startHeld outer startsOuter 1⟩
      | false => exact ⟨outer, rfl⟩

theorem checkEndsKeeps (c : Cpu) (pc next : Word) :
    ∃ regs, (c.checkEnds pc next).1 = { c with hwloopRegs := regs, hwloopNextInsn := (c.checkEnds pc next).2 } ∧
      ∀ j, regs (lpStart j) = c.hwloopRegs (lpStart j) := by
  obtain ⟨regs, same, starting⟩ := reachedEndKeeps c 0 pc
  obtain ⟨regs', same', starting'⟩ := reachedEndKeeps (c.reachedEnd 0 pc).1 1 pc
  have before (j : Fin 2) : regs' (lpStart j) = c.hwloopRegs (lpStart j) := by
    rw [starting', same]
    exact starting j
  unfold Cpu.checkEnds
  dsimp only
  split
  · exact ⟨regs, by rw [same], starting⟩
  · split
    · exact ⟨regs', by rw [same', same], before⟩
    · exact ⟨regs', by rw [same', same], before⟩

theorem finishIdle (idle : ∀ i, (l i).endsAt pc = false) : l.finish pc next = (l, next) := by
  simp [Loops.finish, Loops.pass, idle]

theorem passOther (l : Loops) {i j : Fin 2} (other : j ≠ i) (pc : Word) : (l.pass i pc).1 j = l j := by
  unfold Loops.pass
  split
  · exact Function.update_of_ne other ..
  · rfl

theorem passBack {i : Fin 2} (back : (l.pass i pc).2 = true) : ((l.pass i pc).1 i).runs = true := by
  unfold Loops.pass at *
  split at back
  · rename_i ends
    rw [if_pos ends]
    exact back
  · contradiction

theorem passDone {i : Fin 2} (ends : (l i).endsAt pc = true) (done : (l.pass i pc).2 = false) : ((l.pass i pc).1 i).runs = false := by
  unfold Loops.pass at *
  rw [if_pos ends] at *
  exact done

theorem finishEnds (next : Word) {i : Fin 2} (ends : (l i).endsAt pc = true) :
    (∃ j, ((l.finish pc next).1 j).runs = true ∧ (l.finish pc next).2 = insnCacheGet ((l.finish pc next).1 j).start) ∨
      ((l.finish pc next).1 i).runs = false := by
  unfold Loops.finish
  dsimp only
  cases inner : (l.pass 0 pc).2 with
  | true => exact .inl ⟨0, passBack inner, rfl⟩
  | false =>
      cases outer : ((l.pass 0 pc).1.pass 1 pc).2 with
      | true => exact .inl ⟨1, passBack outer, rfl⟩
      | false =>
          refine .inr ?_
          simp only [Bool.false_eq_true, if_false]
          match i with
          | 0 =>
              rw [passOther (l.pass 0 pc).1 (by decide : (0 : Fin 2) ≠ 1) pc]
              exact passDone ends inner
          | 1 => exact passDone (by rw [passOther l (by decide) pc]; exact ends) outer

theorem checkEndsIdle (idle : ¬ EndsLoop c pc) : c.checkEnds pc next = ({ c with hwloopNextInsn := next }, next) := by
  have none (i : Fin 2) : c.reachedEnd i pc = (c, false) := if_neg fun ends => idle ⟨i, ends⟩
  simp [Cpu.checkEnds, none]

theorem endsLoopIff (held : Held c l) : EndsLoop c pc ↔ ∃ i, (l i).endsAt pc = true :=
  exists_congr fun i => endsIff held i

end Ends

section Handler

variable {c : Cpu} {p : Program} {pc : Word} {o : Outcome}

theorem handlerKeeps (c : Cpu) (p : Program) (pc : Word) (o : Outcome) :
    (c.handler p pc o).1.currentInsn = c.currentInsn ∧ (c.handler p pc o).1.hwloopNextInsn = c.hwloopNextInsn ∧
      (p.insn pc ≠ .pElw → (c.handler p pc o).1.elwInsn = c.elwInsn ∧ (c.handler p pc o).1.elwInterrupted = c.elwInterrupted) := by
  unfold Cpu.handler
  cases p.insn pc with
  | lpStarti | lpEndi | lpCount | lpCounti | lpSetup | lpSetupi | csrEpc | mret | other => exact ⟨rfl, rfl, fun _ => ⟨rfl, rfl⟩⟩
  | csrHwloop reg =>
      unfold Cpu.hwloopWrite
      dsimp only
      split_ifs <;> exact ⟨rfl, rfl, fun _ => ⟨rfl, rfl⟩⟩
  | pElw => exact ⟨rfl, rfl, fun elw => absurd rfl elw⟩
  | fence =>
      dsimp only
      split <;> exact ⟨rfl, rfl, fun _ => ⟨rfl, rfl⟩⟩

theorem flushMarks (marks : Marks c) : Marks c.cacheFlush ∧ ∀ insn, c.cacheFlush.patched insn = true → c.patched insn = true := by
  refine ⟨fun i insn last => ?_, fun insn marked => ?_⟩
  · rcases (by omega : i = 0 ∨ i = 1) with rfl | rfl <;> simp_all [Cpu.cacheFlush]
  · rcases (by simpa [Cpu.cacheFlush] using marked) with first | second
    · exact marks 0 insn first
    · exact marks 1 insn second

theorem setEndMarks (marks : Marks c) (i : Fin 2) (last : Word) :
    Marks (c.hwloopSetEnd i last) ∧
      ∀ insn, (c.hwloopSetEnd i last).patched insn = true → c.patched insn = true ∨ insnCacheGet last = insn := by
  have marked (insn : Word) : (c.hwloopSetEnd i last).patched insn = true ↔ insnCacheGet last = insn ∨ c.patched insn = true := by
    by_cases same : insn = insnCacheGet last
    · simp [Cpu.hwloopSetEnd, Cpu.hwloopSetInsnEnd, same]
    · simp [Cpu.hwloopSetEnd, Cpu.hwloopSetInsnEnd, same, Ne.symm same]
  refine ⟨fun j insn found => (marked insn).mpr ?_, fun insn patched => ((marked insn).mp patched).symm⟩
  by_cases same : j = i
  · subst same
    left
    simpa [Cpu.hwloopSetEnd, Cpu.hwloopSetInsnEnd] using found
  · right
    exact marks j insn (by simpa [Cpu.hwloopSetEnd, Cpu.hwloopSetInsnEnd, same] using found)

theorem handlerMarks (p : Program) (pc : Word) (o : Outcome) (marks : Marks c) :
    Marks (c.handler p pc o).1 ∧
      ∀ insn, (c.handler p pc o).1.patched insn = true → c.patched insn = true ∨ p.endSet pc = some insn := by
  have same (m : Cpu) (patched : m.patched = c.patched) (ends : m.hwloopEndInsn = c.hwloopEndInsn) :
      Marks m ∧ ∀ insn, m.patched insn = true → c.patched insn = true ∨ p.endSet pc = some insn := by
    unfold Marks
    rw [patched, ends]
    exact ⟨marks, fun _ => .inl⟩
  have set (i : Fin 2) (last : Word) (found : p.endSet pc = some (insnCacheGet last)) (m : Cpu)
      (patched : m.patched = (c.hwloopSetEnd i last).patched) (ends : m.hwloopEndInsn = (c.hwloopSetEnd i last).hwloopEndInsn) :
      Marks m ∧ ∀ insn, m.patched insn = true → c.patched insn = true ∨ p.endSet pc = some insn := by
    unfold Marks
    rw [patched, ends, found]
    obtain ⟨first, second⟩ := setEndMarks marks i last
    exact ⟨first, fun insn marked => (second insn marked).imp_right (congrArg some)⟩
  unfold Cpu.handler
  cases insn : p.insn pc with
  | lpStarti | lpCount | lpCounti | csrEpc | pElw | mret | other => exact same _ rfl rfl
  | lpEndi index uim => exact set index (pc + uim <<< 1) (by simp [Program.endSet, insn]) _ rfl rfl
  | lpSetup index uim => exact set index (pc + uim <<< 1) (by simp [Program.endSet, insn]) _ rfl rfl
  | lpSetupi index count uim => exact set index (pc + uim <<< 1) (by simp [Program.endSet, insn]) _ rfl rfl
  | csrHwloop reg =>
      unfold Cpu.hwloopWrite
      dsimp only
      split_ifs <;> exact same _ rfl rfl
  | fence =>
      dsimp only
      split
      · obtain ⟨first, second⟩ := flushMarks marks
        exact ⟨first, fun insn marked => .inl (second insn marked)⟩
      · exact same _ rfl rfl

end Handler

end Gvsoc.HwLoop
