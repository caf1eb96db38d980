import Gvsoc.Machine
import Mathlib.Logic.Function.Basic

/-! The hardware loops of `pulp_v2.hpp` under the interrupts of `irq.hpp`: the `lp` instructions and the CSR writes
that set the loop registers, `hwloop_check_exec` in place of the handler of an end instruction, `iss_irq_check`, which
abandons a `p.elw` that waits, and `mret`. What the other instructions compute is left open: an action tells where they
go, the value of a register operand and whether the access of a `p.elw` has to wait. Exceptions and the debug mode are
left out. -/
namespace Gvsoc.HwLoop

abbrev Word := BitVec 32

def insnCacheGet (pc : Word) : Word := pc &&& ~~~1

def lpStart (i : Fin 2) : Fin 7 := ⟨0 + i * 4, by omega⟩
def lpEnd (i : Fin 2) : Fin 7 := ⟨1 + i * 4, by omega⟩
def lpCount (i : Fin 2) : Fin 7 := ⟨2 + i * 4, by omega⟩

/- `csrHwloop` and `csrEpc` are CSR instructions that write; one that reads is an `other`. -/
inductive Insn where
  | lpStarti (index : Fin 2) (uim : Word)
  | lpEndi (index : Fin 2) (uim : Word)
  | lpCount (index : Fin 2)
  | lpCounti (index : Fin 2) (count : Word)
  | lpSetup (index : Fin 2) (uim : Word)
  | lpSetupi (index : Fin 2) (count uim : Word)
  | csrHwloop (reg : Fin 7)
  | csrEpc
  | pElw
  | mret
  | fence
  | other
  deriving DecidableEq

structure Program where
  insn : Word → Insn
  size : Word → Word
  flushBound : Bool

/- What is not modelled of an instruction: the value of its register, where it goes, whether its access waits. -/
structure Outcome where
  value : Word
  target : Word
  waits : Bool

/- `patched` are the instructions whose handler is `hwloop_check_exec`, at once or as soon as they are decoded. -/
structure Cpu where
  currentInsn : Word
  hwloopRegs : Fin 7 → Word
  hwloopStartInsn : Fin 2 → Word
  hwloopEndInsn : Fin 2 → Option Word
  patched : Word → Bool
  hwloopNextInsn : Word
  elwInsn : Option Word
  elwInterrupted : Bool
  epc : Word

namespace Cpu

variable (c : Cpu)

def hwloopSetStart (index : Fin 2) (start : Word) : Cpu :=
  { c with
    hwloopRegs := Function.update c.hwloopRegs (lpStart index) start
    hwloopStartInsn := Function.update c.hwloopStartInsn index (insnCacheGet start) }

def hwloopSetInsnEnd (insn : Word) : Cpu := { c with patched := Function.update c.patched insn true }

def hwloopSetEnd (index : Fin 2) (last : Word) : Cpu :=
  let c := { c with hwloopEndInsn := Function.update c.hwloopEndInsn index (some (insnCacheGet last)) }
  let c := c.hwloopSetInsnEnd (insnCacheGet last)
  { c with hwloopRegs := Function.update c.hwloopRegs (lpEnd index) last }

def hwloopSetCount (index : Fin 2) (count : Word) : Cpu :=
  { c with hwloopRegs := Function.update c.hwloopRegs (lpCount index) count }

def hwloopSetAll (index : Fin 2) (start last count : Word) : Cpu :=
  ((c.hwloopSetEnd index last).hwloopSetStart index start).hwloopSetCount index count

/- The CSR write. It changes the start instruction with its register, but marks no end. -/
def hwloopWrite (reg : Fin 7) (value : Word) : Cpu :=
  let c := { c with hwloopRegs := Function.update c.hwloopRegs reg value }
  if reg = 0 then { c with hwloopStartInsn := Function.update c.hwloopStartInsn 0 (insnCacheGet value) }
  else if reg = 4 then { c with hwloopStartInsn := Function.update c.hwloopStartInsn 1 (insnCacheGet value) }
  else c

/- `iss_cache_flush`. Only the last end of each loop is marked again. -/
def cacheFlush : Cpu :=
  { c with patched := fun insn => c.hwloopEndInsn 0 = some insn || c.hwloopEndInsn 1 = some insn }

def pElw (insn : Word) (waits : Bool) : Cpu :=
  { c with elwInterrupted := false, elwInsn := if waits then some insn else none }

def handler (p : Program) (pc : Word) (o : Outcome) : Cpu × Word :=
  let next := insnCacheGet (pc + p.size pc)
  match p.insn pc with
  | .lpStarti index uim => (c.hwloopSetStart index (pc + uim <<< 1), next)
  | .lpEndi index uim => (c.hwloopSetEnd index (pc + uim <<< 1), next)
  | .lpCount index => (c.hwloopSetCount index o.value, next)
  | .lpCounti index count => (c.hwloopSetCount index count, next)
  | .lpSetup index uim => (c.hwloopSetAll index (pc + p.size pc) (pc + uim <<< 1) o.value, next)
  | .lpSetupi index count uim => (c.hwloopSetAll index (pc + p.size pc) (pc + uim <<< 1) count, next)
  | .csrHwloop reg => (c.hwloopWrite reg o.value, next)
  | .csrEpc => ({ c with epc := o.value &&& ~~~1 }, next)
  | .pElw => (c.pElw pc o.waits, next)
  | .mret => (c, insnCacheGet c.epc)
  | .fence => (if p.flushBound then c.cacheFlush else c, next)
  | .other => (c, insnCacheGet o.target)

/- One of the two tests of `hwloop_check_exec`, and whether the loop jumps back. -/
def reachedEnd (index : Fin 2) (pc : Word) : Cpu × Bool :=
  if c.hwloopRegs (lpCount index) ≠ 0 ∧ c.hwloopRegs (lpEnd index) = pc then
    let c := { c with hwloopRegs := Function.update c.hwloopRegs (lpCount index) (c.hwloopRegs (lpCount index) - 1) }
    (c, c.hwloopRegs (lpCount index) ≠ 0)
  else (c, false)

def checkEnds (pc insnNext : Word) : Cpu × Word :=
  let (c, back) := c.reachedEnd 0 pc
  if back then ({ c with hwloopNextInsn := c.hwloopStartInsn 0 }, c.hwloopStartInsn 0)
  else
    let (c, back) := c.reachedEnd 1 pc
    if back then ({ c with hwloopNextInsn := c.hwloopStartInsn 1 }, c.hwloopStartInsn 1)
    else ({ c with hwloopNextInsn := insnNext }, insnNext)

def hwloopCheckExec (p : Program) (pc : Word) (o : Outcome) : Cpu × Word :=
  let elwInterrupted := c.elwInterrupted
  let (c, insnNext) := c.handler p pc o
  if elwInterrupted then (c, c.hwloopNextInsn) else c.checkEnds pc insnNext

def exec (p : Program) (o : Outcome) : Option Cpu :=
  if c.elwInsn.isSome then none
  else
    let (next, insn) :=
      if c.patched c.currentInsn then c.hwloopCheckExec p c.currentInsn o else c.handler p c.currentInsn o
    some { next with currentInsn := insn }

def irqTaken (vector : Word) : Cpu :=
  let c := match c.elwInsn with
    | some insn => { c with currentInsn := insn, elwInsn := none, elwInterrupted := true }
    | none => c
  { c with epc := c.currentInsn, currentInsn := insnCacheGet vector, elwInsn := none }

end Cpu

/- A `p.elw` that waits is over when its answer arrives, and when an interrupt that is not taken wakes the core. -/
inductive Action where
  | exec (o : Outcome)
  | elwOver
  | irqTaken (vector : Word)
  | flush

def Cpu.step (p : Program) (c : Cpu) : Action → Option Cpu
  | .exec o => c.exec p o
  | .elwOver => if c.elwInsn.isSome then some { c with elwInsn := none } else none
  | .irqTaken vector => some (c.irqTaken vector)
  | .flush => some c.cacheFlush

def Cpu.boot (pc : Word) : Cpu := ⟨insnCacheGet pc, fun _ => 0, fun _ => 0, fun _ => none, fun _ => false, 0, none, false, 0⟩

/- What the loops are for: `set` is how often the body shall run, and `passes` how often its end has been executed. -/
structure Loop where
  start : Word
  last : Word
  set : Word
  passes : Nat

namespace Loop

def runs (l : Loop) : Bool := l.passes < l.set.toNat

def endsAt (l : Loop) (pc : Word) : Bool := l.runs && l.last == pc

def count (l : Loop) (set : Word) : Loop := { l with set := set, passes := 0 }

end Loop

abbrev Loops := Fin 2 → Loop

namespace Loops

variable (l : Loops)

def written (p : Program) (pc value : Word) : Loops :=
  match p.insn pc with
  | .lpStarti i uim => Function.update l i { l i with start := pc + uim <<< 1 }
  | .lpEndi i uim => Function.update l i { l i with last := pc + uim <<< 1 }
  | .lpCount i => Function.update l i ((l i).count value)
  | .lpCounti i count => Function.update l i ((l i).count count)
  | .lpSetup i uim => Function.update l i ⟨pc + p.size pc, pc + uim <<< 1, value, 0⟩
  | .lpSetupi i count uim => Function.update l i ⟨pc + p.size pc, pc + uim <<< 1, count, 0⟩
  | .csrHwloop 0 => Function.update l 0 { l 0 with start := value }
  | .csrHwloop 1 => Function.update l 0 { l 0 with last := value }
  | .csrHwloop 2 => Function.update l 0 ((l 0).count value)
  | .csrHwloop 4 => Function.update l 1 { l 1 with start := value }
  | .csrHwloop 5 => Function.update l 1 { l 1 with last := value }
  | .csrHwloop 6 => Function.update l 1 ((l 1).count value)
  | _ => l

def pass (i : Fin 2) (pc : Word) : Loops × Bool :=
  if (l i).endsAt pc then
    let l := Function.update l i { l i with passes := (l i).passes + 1 }
    (l, (l i).runs)
  else (l, false)

def finish (pc next : Word) : Loops × Word :=
  let (l, back) := l.pass 0 pc
  if back then (l, insnCacheGet (l 0).start)
  else
    let (l, back) := l.pass 1 pc
    if back then (l, insnCacheGet (l 1).start) else (l, next)

end Loops

structure Elw where
  insn : Word
  closed : Bool

/- One program, the main one or a handler. `again` is the `p.elw` it was interrupted in, that it executes once more as
part of the same pass before it goes on at `pc`. -/
structure Context where
  pc : Word
  loops : Loops
  waits : Option Elw
  again : Option Elw

def Context.address (x : Context) : Word := (x.again.map Elw.insn).getD x.pc

structure Spec where
  context : Context
  frames : List Context

namespace Spec

variable (s : Spec)

def exec (p : Program) (o : Outcome) : Spec :=
  let pc := s.context.pc
  match s.context.again, p.insn pc, s.frames with
  | some elw, _, _ => { s with context := { s.context with again := none, waits := if o.waits then some elw else none } }
  | none, .mret, frame :: rest => ⟨frame, rest⟩
  | none, insn, _ =>
      let loops := s.context.loops.written p pc o.value
      let next := if insn = .other then o.target else pc + p.size pc
      let (loops, pc') := loops.finish pc (insnCacheGet next)
      let elw : Elw := ⟨pc, (s.context.loops 0).endsAt pc || (s.context.loops 1).endsAt pc⟩
      { s with context := ⟨pc', loops, if insn = .pElw ∧ o.waits then some elw else none, none⟩ }

def irqTaken (vector : Word) : Spec :=
  let frame := { s.context with waits := none, again := s.context.waits.or s.context.again }
  ⟨⟨insnCacheGet vector, s.context.loops, none, none⟩, frame :: s.frames⟩

def step (p : Program) : Action → Spec
  | .exec o => s.exec p o
  | .elwOver => { s with context := { s.context with waits := none } }
  | .irqTaken vector => s.irqTaken vector
  | .flush => s

def boot (pc : Word) : Spec := ⟨⟨insnCacheGet pc, fun _ => ⟨0, 0, 0, 0⟩, none, none⟩, []⟩

end Spec

end Gvsoc.HwLoop
