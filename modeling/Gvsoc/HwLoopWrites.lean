import Gvsoc.HwLoopEnds

/-! The two ways to set a loop. `hwloop_write` leaves the end instruction as it is, which is seen as soon as this
instruction is executed without its loop check. -/
namespace Gvsoc.HwLoop
open Machine (Run traceOf runInvariant)

def Cpu.csrWritten (c : Cpu) (i : Fin 2) (start last count : Word) : Cpu :=
  ((c.hwloopWrite (lpStart i) start).hwloopWrite (lpEnd i) last).hwloopWrite (lpCount i) count

def Cpu.lpWritten (c : Cpu) (i : Fin 2) (start last count : Word) : Cpu :=
  ((c.hwloopSetStart i start).hwloopSetEnd i last).hwloopSetCount i count

def path (p : Program) (c : Cpu) (actions : List Action) : List Word :=
  (traceOf (Cpu.step p) c actions).map fun taken => taken.2.currentInsn

section Marks

variable {c next : Cpu} {p : Program}

theorem checkExecKeeps (c : Cpu) (p : Program) (pc : Word) (o : Outcome) :
    (c.hwloopCheckExec p pc o).1.patched = (c.handler p pc o).1.patched ∧
      (c.hwloopCheckExec p pc o).1.hwloopEndInsn = (c.handler p pc o).1.hwloopEndInsn := by
  obtain ⟨regs, same, -⟩ := checkEndsKeeps (c.handler p pc o).1 pc (c.handler p pc o).2
  unfold Cpu.hwloopCheckExec
  dsimp only
  split
  · exact ⟨rfl, rfl⟩
  · rw [same]
    exact ⟨rfl, rfl⟩

theorem stepMarks (marks : Marks c) {a : Action} (taken : c.step p a = some next) : Marks next := by
  cases a with
  | exec o =>
      have handled := (handlerMarks p c.currentInsn o marks).1
      have checked := checkExecKeeps c p c.currentInsn o
      simp only [Cpu.step, Cpu.exec] at taken
      split at taken
      · contradiction
      · cases taken
        unfold Marks
        split
        · rw [checked.1, checked.2]
          exact handled
        · exact handled
  | elwOver =>
      simp only [Cpu.step] at taken
      split at taken
      · cases taken
        exact marks
      · contradiction
  | irqTaken vector =>
      cases taken
      unfold Cpu.irqTaken
      split <;> exact marks
  | flush =>
      cases taken
      exact (flushMarks marks).1

end Marks

section Writes

variable {c : Cpu} {i : Fin 2} {start last count : Word}

theorem csrWrittenEq (c : Cpu) (i : Fin 2) (start last count : Word) :
    c.csrWritten i start last count =
      { c.lpWritten i start last count with patched := c.patched, hwloopEndInsn := c.hwloopEndInsn } := by
  rcases (by omega : i = 0 ∨ i = 1) with rfl | rfl <;> rfl

theorem lpWrittenEq (c : Cpu) (i : Fin 2) (start last count : Word) :
    (c.lpWritten i start last count).patched = Function.update c.patched (insnCacheGet last) true ∧
      (c.lpWritten i start last count).hwloopEndInsn = Function.update c.hwloopEndInsn i (some (insnCacheGet last)) :=
  ⟨rfl, rfl⟩

end Writes

section Probe

/- An interrupt to `base`, where the other loop gets an end of its own and a `p.elw` waits; then a flush, and an
interrupt to the instruction in question, which goes to `target`. -/
def probeProgram (i : Fin 2) (base : Word) : Program :=
  { insn := fun pc => if pc = base then .lpEndi (1 - i) 0x20 else if pc = base + 4#32 then .pElw else .other
    size := fun _ => 4#32, flushBound := false }

def probe (base insn target : Word) : List Action :=
  [.flush, .irqTaken base, .exec ⟨0, 0, false⟩, .exec ⟨0, 0, true⟩, .flush, .irqTaken insn, .exec ⟨0, target, false⟩]

theorem irqFields (c : Cpu) (vector : Word) :
    (c.irqTaken vector).currentInsn = insnCacheGet vector ∧ (c.irqTaken vector).elwInsn = none ∧
      (c.irqTaken vector).patched = c.patched ∧ (c.irqTaken vector).hwloopEndInsn = c.hwloopEndInsn ∧
      (c.irqTaken vector).hwloopNextInsn = c.hwloopNextInsn ∧
      (c.irqTaken vector).elwInterrupted = (c.elwInsn.isSome || c.elwInterrupted) := by
  unfold Cpu.irqTaken
  cases waiting : c.elwInsn <;> simp

theorem execPlain {c : Cpu} (p : Program) (o : Outcome) (free : c.elwInsn = none) (plain : c.patched c.currentInsn = false) :
    c.exec p o = some { (c.handler p c.currentInsn o).1 with currentInsn := (c.handler p c.currentInsn o).2 } := by
  simp [Cpu.exec, free, plain]

def Apart (base insn : Word) : Prop := insn ≠ base ∧ insn ≠ base + 4#32 ∧ insn ≠ base + 64#32

/- The next instruction is the remembered one, if the probed one is the end that the loop was given. -/
theorem probeEnds (m : Cpu) (i : Fin 2) {base insn : Word} (target : Word) (own : insnCacheGet insn = insn)
    (first : insnCacheGet base = base) (second : insnCacheGet (base + 4#32) = base + 4#32) (last : insnCacheGet (base + 64#32) = base + 64#32)
    (apart : Apart base insn) (ends : ∀ j w, m.hwloopEndInsn j = some w → Apart base w) :
    (path (probeProgram i base) m (probe base insn target)).getLast? =
      some (if m.hwloopEndInsn i = some insn then m.hwloopNextInsn else insnCacheGet target) := by
  obtain ⟨at2, free2, patched2, ends2, next2, -⟩ := irqFields m.cacheFlush base
  generalize made2 : m.cacheFlush.irqTaken base = s2 at *
  have plain2 : s2.patched s2.currentInsn = false := by
    rw [patched2, at2, first]
    simp only [Cpu.cacheFlush, Bool.or_eq_false_iff, decide_eq_false_iff_not]
    exact ⟨fun set => (ends 0 base set).1 rfl, fun set => (ends 1 base set).1 rfl⟩
  -- The other loop gets its end.
  have handled2 : s2.handler (probeProgram i base) s2.currentInsn ⟨0, 0, false⟩ =
      (s2.hwloopSetEnd (1 - i) (base + 64#32), base + 4#32) := by
    simp only [Cpu.handler, probeProgram, at2, first, if_true, second]
    rfl
  have taken2 := execPlain (probeProgram i base) ⟨0, 0, false⟩ free2 plain2
  rw [handled2] at taken2
  generalize made3 : { s2.hwloopSetEnd (1 - i) (base + 64#32) with currentInsn := base + 4#32 } = s3 at taken2
  have plain3 : s3.patched s3.currentInsn = false := by
    have set (j : Fin 2) : m.hwloopEndInsn j ≠ some (base + 4#32) := fun set => (ends j _ set).2.1 rfl
    have different : base + 4#32 ≠ base + 64#32 := by bv_omega
    rw [← made3]
    simp [Cpu.hwloopSetEnd, Cpu.hwloopSetInsnEnd, last, patched2, Cpu.cacheFlush, set, different]
  -- The `p.elw` waits.
  have handled3 : s3.handler (probeProgram i base) s3.currentInsn ⟨0, 0, true⟩ =
      (s3.pElw (base + 4#32) true, insnCacheGet (base + 4#32 + 4#32)) := by
    have different : base + 4#32 ≠ base := by bv_omega
    rw [← made3]
    simp [Cpu.handler, probeProgram, different]
  have free3 : s3.elwInsn = none := by
    rw [← made3]
    exact free2
  have taken3 := execPlain (probeProgram i base) ⟨0, 0, true⟩ free3 plain3
  rw [handled3] at taken3
  generalize made4 : { s3.pElw (base + 4#32) true with currentInsn := insnCacheGet (base + 4#32 + 4#32) } = s4 at taken3
  -- After the flush only the two ends are patched.
  obtain ⟨at6, free6, patched6, -, next6, flag6⟩ := irqFields s4.cacheFlush insn
  generalize made6 : s4.cacheFlush.irqTaken insn = s6 at *
  have next : s6.hwloopNextInsn = m.hwloopNextInsn := by
    rw [next6, ← made4, ← made3]
    exact next2
  have flag : s6.elwInterrupted = true := by
    rw [flag6, ← made4]
    rfl
  have marked : s6.patched insn = decide (m.hwloopEndInsn i = some insn) := by
    have different : base + 64#32 ≠ insn := fun same => apart.2.2 same.symm
    rw [patched6, ← made4, ← made3]
    rcases (by omega : i = 0 ∨ i = 1) with rfl | rfl <;>
      simp [Cpu.cacheFlush, Cpu.pElw, Cpu.hwloopSetEnd, Cpu.hwloopSetInsnEnd, last, ends2, different, Function.update]
  have handled6 : s6.handler (probeProgram i base) insn ⟨0, target, false⟩ = (s6, insnCacheGet target) := by
    simp [Cpu.handler, probeProgram, apart.1, apart.2.1]
  have taken6 : s6.exec (probeProgram i base) ⟨0, target, false⟩ =
      some { s6 with currentInsn := if m.hwloopEndInsn i = some insn then m.hwloopNextInsn else insnCacheGet target } := by
    unfold Cpu.exec
    rw [at6, own, marked]
    by_cases end' : m.hwloopEndInsn i = some insn
    · simp only [free6, Option.isSome_none, Bool.false_eq_true, if_false, end', decide_true, if_true, Cpu.hwloopCheckExec,
        handled6, flag, next]
    · simp only [free6, Option.isSome_none, Bool.false_eq_true, if_false, end', decide_false, handled6]
  simp only [path, traceOf, probe, Cpu.step, made2, taken2, taken3, made6, taken6]
  rfl

end Probe

section Agree

/- Four places of which one is apart from any three instructions. -/
theorem roomFor (x y z : Word) : ∃ k < 4, x.toNat / 256 ≠ k ∧ y.toNat / 256 ≠ k ∧ z.toNat / 256 ≠ k := by
  by_contra none
  simp only [not_exists, not_and, Classical.not_not] at none
  have first := none 0 (by omega)
  have second := none 1 (by omega)
  have third := none 2 (by omega)
  have fourth := none 3 (by omega)
  omega

theorem roomApart {k : Nat} (small : k < 4) {x : Word} (other : x.toNat / 256 ≠ k) : Apart (BitVec.ofNat 32 (256 * k)) x := by
  refine ⟨?_, ?_, ?_⟩ <;> rintro rfl <;> simp [BitVec.toNat_add] at other <;> omega

/- The two ways make the same of every continuation exactly if the loop had this end already. -/
theorem writesAgree (p : Program) (pc : Word) {trace c} (run : Run (Cpu.step p) Machine.anyStep (.boot pc) trace c)
    (i : Fin 2) (start last count : Word) :
    (∀ q actions, path q (c.csrWritten i start last count) actions = path q (c.lpWritten i start last count) actions) ↔
      c.hwloopEndInsn i = some (insnCacheGet last) := by
  have marks : Marks c := runInvariant run (fun _ _ no => by contradiction) fun _ _ _ marks _ taken => stepMarks marks taken
  refine ⟨fun agree => ?_, fun same q actions => ?_⟩
  · by_contra other
    -- The block for the probe is apart from the end and from those that the loops have.
    obtain ⟨k, small, apart, first, second⟩ := roomFor (insnCacheGet last) ((c.hwloopEndInsn 0).getD 0) ((c.hwloopEndInsn 1).getD 0)
    have ends (j : Fin 2) (w : Word) (set : c.hwloopEndInsn j = some w) : Apart (BitVec.ofNat 32 (256 * k)) w := by
      rcases (by omega : j = 0 ∨ j = 1) with rfl | rfl
      · rw [set] at first
        exact roomApart small first
      · rw [set] at second
        exact roomApart small second
    obtain ⟨target, own, different⟩ : ∃ target, insnCacheGet target = target ∧ target ≠ c.hwloopNextInsn := by
      by_cases zero : c.hwloopNextInsn = 0
      · exact ⟨2, by decide, by rw [zero]; decide⟩
      · exact ⟨0, by decide, fun same => zero same.symm⟩
    have places : insnCacheGet (BitVec.ofNat 32 (256 * k)) = BitVec.ofNat 32 (256 * k) ∧
        insnCacheGet (BitVec.ofNat 32 (256 * k) + 4#32) = BitVec.ofNat 32 (256 * k) + 4#32 ∧
        insnCacheGet (BitVec.ofNat 32 (256 * k) + 64#32) = BitVec.ofNat 32 (256 * k) + 64#32 := by
      match k with
      | 0 | 1 | 2 | 3 => decide
    obtain ⟨at', after, last'⟩ := places
    have kept : insnCacheGet (insnCacheGet last) = insnCacheGet last := by
      simp [insnCacheGet, BitVec.and_assoc]
    have byCsr := probeEnds (c.csrWritten i start last count) i target kept at' after last'
      (roomApart small apart) (by rw [csrWrittenEq]; exact ends)
    have byLp := probeEnds (c.lpWritten i start last count) i target kept at' after last'
      (roomApart small apart) (by
        intro j w set
        rw [(lpWrittenEq c i start last count).2] at set
        by_cases same : j = i
        · rw [same, Function.update_self] at set
          cases set
          exact roomApart small apart
        · rw [Function.update_of_ne same] at set
          exact ends j w set)
    rw [agree, byLp, csrWrittenEq, (lpWrittenEq c i start last count).2] at byCsr
    simp only [Function.update_self, if_true, other, if_false, own, Option.some.injEq] at byCsr
    exact different byCsr.symm
  · have marked : c.patched (insnCacheGet last) = true := marks i _ same
    rw [csrWrittenEq]
    obtain ⟨patched, ends⟩ := lpWrittenEq c i start last count
    have patched' : c.patched = (c.lpWritten i start last count).patched := by
      rw [patched, ← marked, Function.update_eq_self]
    have ends' : c.hwloopEndInsn = (c.lpWritten i start last count).hwloopEndInsn := by
      rw [ends, ← same, Function.update_eq_self]
    rw [patched', ends']

end Agree

def setupOnly : Program := ⟨fun pc => if pc = 0x80 then .lpSetupi 0 2 2 else .other, fun _ => 4, false⟩

/- The loop is restored that the core has set itself, and the cache flushed. -/
theorem writesAgreeRestored :
    path setupOnly ((Machine.reach (Cpu.step setupOnly) Machine.anyStep (.boot 0x80) [.exec ⟨0, 0, false⟩]).csrWritten 0 0x84 0x84 1)
        [.flush, .exec ⟨0, 0x88, false⟩] =
      path setupOnly ((Machine.reach (Cpu.step setupOnly) Machine.anyStep (.boot 0x80) [.exec ⟨0, 0, false⟩]).lpWritten 0 0x84 0x84 1)
        [.flush, .exec ⟨0, 0x88, false⟩] := by
  obtain ⟨trace, run, -⟩ := Machine.reachRun (Cpu.step setupOnly) Machine.anyStep (.boot 0x80) [.exec ⟨0, 0, false⟩] (by decide +kernel)
  exact (writesAgree setupOnly 0x80 run 0 0x84 0x84 1).mpr (by decide +kernel) setupOnly _

/- A loop of two instructions that no `lp` instruction has set is left at its end. -/
theorem restoredLoopLeft :
    path setupOnly ((Cpu.boot 0x104).csrWritten 0 0x100 0x104 2) [.exec ⟨0, 0x108, false⟩] = [0x108] ∧
      path setupOnly ((Cpu.boot 0x104).lpWritten 0 0x100 0x104 2) [.exec ⟨0, 0x108, false⟩] = [0x100] := by
  decide +kernel

end Gvsoc.HwLoop
