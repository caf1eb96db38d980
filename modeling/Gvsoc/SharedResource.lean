import Gvsoc.PerfCounters
import Mathlib.Order.Lattice
import Mathlib.Data.List.Chain

/-! The resources that several cores use. An instance keeps the cycle from which it can take the next access, and an
access that comes earlier waits until then. -/
namespace Gvsoc.SharedResource
open PerfCounters (Csr)

def csrPcerInsnCont : Nat := 30

structure Insn where
  resourceId : Nat
  resourceLatency : Int
  resourceBandwidth : Int
  deriving DecidableEq, Repr

structure Core where
  resources : Nat → Nat
  csr : Csr
  insnCycles : BitVec 32

structure System (κ : Type) where
  cores : κ → Core
  cycles : Nat → Int

structure Call (κ : Type) where
  core : κ
  getCycles : Nat
  insn : Insn
  deriving DecidableEq, Repr

structure Access where
  unit : Nat
  called : Nat
  contention : Int
  insn : Insn
  before : Core
  after : Core

def Access.start (a : Access) : Int := a.called + a.contention

def Access.free (a : Access) : Int := a.start + a.insn.resourceBandwidth

section Offload

variable {κ : Type} [DecidableEq κ]

def opened (cores : κ → Core) : System κ := ⟨cores, fun _ => 0⟩

/- Up to the handler of the instruction. The counters of the core have 32 bits. -/
def issResourceOffload (s : System κ) (call : Call κ) : System κ × Access :=
  let core := s.cores call.core
  let unit := core.resources call.insn.resourceId
  let now : Int := call.getCycles
  let (cycles, csr, free) :=
    if now < s.cycles unit then
      let cycles := s.cycles unit - now
      (cycles, core.csr.issPccrAccountEvent csrPcerInsnCont (BitVec.ofInt 32 cycles), s.cycles unit + call.insn.resourceBandwidth)
    else (0, core.csr, now + call.insn.resourceBandwidth)
  let after := { core with csr, insnCycles := core.insnCycles + BitVec.ofInt 32 (cycles + call.insn.resourceLatency - 1) }
  (⟨Function.update s.cores call.core after, Function.update s.cycles unit free⟩,
    ⟨unit, call.getCycles, cycles, call.insn, core, after⟩)

def accesses (s : System κ) : List (Call κ) → List Access
  | [] => []
  | call :: rest =>
      let (s, access) := issResourceOffload s call
      access :: accesses s rest

variable {s : System κ} {call : Call κ}

theorem offloadStart : (issResourceOffload s call).2.start = max (call.getCycles : Int) (s.cycles (issResourceOffload s call).2.unit) := by
  unfold issResourceOffload Access.start
  dsimp only
  split
  · rename_i busy
    rw [max_eq_right busy.le]
    exact add_sub_cancel _ _
  · rename_i idle
    rw [max_eq_left (Int.not_lt.mp idle)]
    exact Int.add_zero _

theorem offloadFree : (issResourceOffload s call).1.cycles (issResourceOffload s call).2.unit = (issResourceOffload s call).2.free := by
  unfold issResourceOffload Access.free Access.start
  dsimp only
  rw [Function.update_self]
  split <;> simp

theorem offloadOther {unit : Nat} (other : (issResourceOffload s call).2.unit ≠ unit) :
    (issResourceOffload s call).1.cycles unit = s.cycles unit :=
  Function.update_of_ne (Ne.symm other) _ _

theorem accountNothing (csr : Csr) : csr.issPccrAccountEvent csrPcerInsnCont (BitVec.ofInt 32 0) = csr := by
  unfold Csr.issPccrAccountEvent
  split
  · have same : csr.pccr csrPcerInsnCont + BitVec.ofInt 32 0 = csr.pccr csrPcerInsnCont := by simp
    rw [same, Function.update_eq_self]
  · rfl

end Offload

structure Accounted (a : Access) : Prop where
  contention : a.contention = a.start - a.called
  csr : a.after.csr = a.before.csr.issPccrAccountEvent csrPcerInsnCont (BitVec.ofInt 32 (a.start - a.called))
  cycles : a.after.insnCycles = a.before.insnCycles + BitVec.ofInt 32 (a.start - a.called + a.insn.resourceLatency - 1)

def Spaced : Int → List Access → Prop
  | _, [] => True
  | free, a :: rest => a.start = max (a.called : Int) free ∧ Spaced a.free rest

structure Serialised (list : List Access) : Prop where
  spaced : list.IsChain fun a b => a.start + a.insn.resourceBandwidth ≤ b.start
  prompt : list.IsChain fun a b => a.start + a.insn.resourceBandwidth ≤ (b.called : Int) → b.start = b.called
  first : ∀ a ∈ list.head?, a.start = a.called
  forward : ∀ a ∈ list, (a.called : Int) ≤ a.start

section Laws

variable {κ : Type} [DecidableEq κ]

theorem offloadAccounted (s : System κ) (call : Call κ) : Accounted (issResourceOffload s call).2 := by
  have contention : (issResourceOffload s call).2.contention =
      (issResourceOffload s call).2.start - (issResourceOffload s call).2.called := by
    unfold Access.start
    omega
  refine ⟨contention, ?_, ?_⟩ <;> rw [← contention] <;> unfold issResourceOffload <;> dsimp only
  split
  · rfl
  · exact (accountNothing _).symm

theorem accessesAccounted (s : System κ) (calls : List (Call κ)) : ∀ a ∈ accesses s calls, Accounted a := by
  induction calls generalizing s with
  | nil => exact nofun
  | cons call rest ih =>
      intro a member
      rcases List.mem_cons.mp member with rfl | later
      · exact offloadAccounted s call
      · exact ih _ a later

theorem callsSpaced (s : System κ) (calls : List (Call κ)) (unit : Nat) :
    Spaced (s.cycles unit) ((accesses s calls).filter fun a => a.unit = unit) := by
  induction calls generalizing s with
  | nil => trivial
  | cons call rest ih =>
      have later := ih (issResourceOffload s call).1
      unfold accesses
      dsimp only
      by_cases own : (issResourceOffload s call).2.unit = unit
      · rw [List.filter_cons, if_pos (decide_eq_true own)]
        subst own
        rw [offloadFree] at later
        exact ⟨offloadStart, later⟩
      · rw [List.filter_cons, if_neg (by simpa using own)]
        rwa [offloadOther own] at later

theorem spacedChain {free : Int} {list : List Access} (spaced : Spaced free list) :
    list.IsChain (fun a b => b.start = max (b.called : Int) a.free) := by
  induction list generalizing free with
  | nil => exact .nil
  | cons a rest ih =>
      cases rest with
      | nil => exact .singleton a
      | cons b rest => exact .cons_cons spaced.2.1 (ih spaced.2)

theorem spacedForward {free : Int} {list : List Access} (spaced : Spaced free list) : ∀ a ∈ list, (a.called : Int) ≤ a.start := by
  induction list generalizing free with
  | nil => exact nofun
  | cons a rest ih =>
      intro b member
      rcases List.mem_cons.mp member with rfl | inside
      · exact spaced.1 ▸ le_max_left _ _
      · exact ih spaced.2 b inside

theorem spacedSerialised {free : Int} {list : List Access} (spaced : Spaced free list) (early : ∀ a ∈ list.head?, free ≤ a.called) :
    Serialised list := by
  have chain := spacedChain spaced
  refine ⟨chain.imp ?_, chain.imp ?_, ?_, spacedForward spaced⟩
  · intro a b start
    exact start ▸ le_max_right _ _
  · intro a b start idle
    rw [start]
    exact max_eq_left idle
  · cases list with
    | nil => exact nofun
    | cons a rest =>
        intro b first
        cases first
        rw [spaced.1]
        exact max_eq_left (early a rfl)

end Laws

/- Whatever the cores and their calls, the accesses to an instance start one after the other, each at least the
bandwidth of the one before behind its start and as soon as it can, and are charged the cycles they wait. -/
theorem accessesSerialised {κ : Type} [DecidableEq κ] (cores : κ → Core) (calls : List (Call κ)) (unit : Nat) :
    Serialised ((accesses (opened cores) calls).filter fun a => a.unit = unit) ∧ ∀ a ∈ accesses (opened cores) calls, Accounted a :=
  ⟨spacedSerialised (callsSpaced (opened cores) calls unit) fun a _ => Int.natCast_nonneg a.called,
    accessesAccounted (opened cores) calls⟩

/- Two cores on one instance: the second waits for the first, the third call comes when it is free again. -/
example : ((accesses (opened fun _ : Bool => ⟨fun _ => 0, ⟨fun _ => 0, 0, 0, fun _ => 0, fun _ => false, fun _ => false⟩, 1⟩)
    [⟨false, 5, 0, 4, 3⟩, ⟨true, 6, 0, 4, 2⟩, ⟨false, 10, 0, 4, 1⟩]).map Access.start) = [5, 8, 10] := by decide

end Gvsoc.SharedResource
