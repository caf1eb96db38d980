import Gvsoc.InsnSteady
import Gvsoc.Runs
import Mathlib.Data.List.Nodup

/-! The instruction cache as a map from addresses to instructions: the same instruction for the same address, at any time
and across flushes. -/
namespace Gvsoc.InsnBlocks

/- The use of the cache. Between lookups the decoder and the core write into the instructions, but never their address. -/
inductive Use where
  | insnCacheGet (pc : Addr)
  | flush
  | write (r : Ref) (f : Insn → Insn)

structure Map where
  cache : Cache
  got : List (Addr × Ref)

def Map.step (s : Map) : Use → Map
  | .insnCacheGet pc =>
      let (cache, r) := s.cache.insnCacheGet pc
      ⟨cache, s.got ++ [(pc, r)]⟩
  | .flush => { s with cache := s.cache.flushCache }
  | .write r f => { s with cache := s.cache.modify r fun insn => { f insn with addr := insn.addr } }

def Map.init (heap : Nat → Block) : Map := ⟨⟨heap, 0, fun _ => []⟩, []⟩

def Cache.Apart (c : Cache) : Prop := ∀ k, ((c.blocks k).map fun b => (c.heap b).pc).Nodup

section Apart

variable {c c' : Cache}

theorem apartSame (blocks : c'.blocks = c.blocks) (pc : ∀ b, (c'.heap b).pc = (c.heap b).pc) (apart : c.Apart) : c'.Apart := by
  intro k
  simp only [blocks, pc]
  exact apart k

theorem modifyPc (c : Cache) (r : Ref) (f : Insn → Insn) (b : Nat) : ((c.modify r f).heap b).pc = (c.heap b).pc := by
  unfold Cache.modify
  dsimp only
  by_cases own : b = r.block
  · subst own
    rw [Function.update_self]
  · rw [Function.update_of_ne own]

theorem blockInitPc (c : Cache) (own b : Nat) : ((c.insnBlockInit own (c.heap own).pc).heap b).pc = (c.heap b).pc := by
  unfold Cache.insnBlockInit
  dsimp only
  by_cases same : b = own
  · subst same
    rw [Function.update_self]
    rfl
  · rw [Function.update_of_ne same]

theorem flushListPc (c : Cache) (list : List Nat) (b : Nat) :
    (c.flushList list).blocks = c.blocks ∧ ((c.flushList list).heap b).pc = (c.heap b).pc := by
  unfold Cache.flushList
  induction list generalizing c with
  | nil => exact ⟨rfl, rfl⟩
  | cons own rest ih =>
      obtain ⟨blocks, pc⟩ := ih (c.insnBlockInit own (c.heap own).pc)
      exact ⟨blocks, pc.trans (blockInitPc c own b)⟩

theorem flushListsPc (c : Cache) (ids : List Nat) (b : Nat) :
    (ids.foldl (fun c i => c.flushList (c.blocks i)) c).blocks = c.blocks ∧
      ((ids.foldl (fun c i => c.flushList (c.blocks i)) c).heap b).pc = (c.heap b).pc := by
  induction ids generalizing c with
  | nil => exact ⟨rfl, rfl⟩
  | cons i rest ih =>
      obtain ⟨blocks, pc⟩ := ih (c.flushList (c.blocks i))
      obtain ⟨first, here⟩ := flushListPc c (c.blocks i) b
      exact ⟨blocks.trans first, pc.trans here⟩

theorem grownApart {base : Addr} (sound : c.Sound) (new : ∀ b ∈ c.blocks (blockId base), (c.heap b).pc ≠ base) (apart : c.Apart) :
    (c.grown base).Apart := by
  have old : ∀ k, (c.blocks k).map (fun b => ((c.grown base).heap b).pc) = (c.blocks k).map fun b => (c.heap b).pc := by
    intro k
    refine List.map_congr_left fun b member => ?_
    rw [grownOld c base (sound k b member).1]
  intro k
  by_cases own : k = blockId base
  · subst own
    have list : (c.grown base).blocks (blockId base) = c.allocated :: c.blocks (blockId base) := Function.update_self ..
    rw [list, List.map_cons, List.nodup_cons, old, grownNew]
    refine ⟨fun member => ?_, apart _⟩
    obtain ⟨b, inside, same⟩ := List.mem_map.mp member
    exact new b inside same
  · have list : (c.grown base).blocks k = c.blocks k := Function.update_of_ne own ..
    rw [list, old]
    exact apart k

theorem getApart (sound : c.Sound) (apart : c.Apart) (pc : Addr) : (c.insnCacheGet pc).1.Apart := by
  rcases getCases sound pc with ⟨b, -, -, get⟩ | ⟨new, get⟩
  · rw [get]
    exact apart
  · rw [get]
    exact grownApart sound new apart

theorem addrFinds (sound : c.Sound) (apart : c.Apart) {r r' : Ref} (linked : c.Linked r) (linked' : c.Linked r')
    (addr : (c.insn r).addr = (c.insn r').addr) : r = r' := by
  obtain ⟨-, holds⟩ := linkedHolds sound linked
  obtain ⟨-, holds'⟩ := linkedHolds sound linked'
  rw [linkedAddr sound linked, linkedAddr sound linked'] at addr
  have number := congrArg BitVec.toNat addr
  rw [insnAddrNumber holds.aligned, insnAddrNumber holds'.aligned] at number
  have base := baseNumber (c.heap r.block).pc
  have base' := baseNumber (c.heap r'.block).pc
  rw [holds.aligned] at base
  rw [holds'.aligned] at base'
  have low := r.insnId.isLt
  have low' := r'.insnId.isLt
  have place : r.insnId = r'.insnId := BitVec.eq_of_toNat_eq (by omega)
  have pc : (c.heap r.block).pc = (c.heap r'.block).pc := BitVec.eq_of_toNat_eq (by omega)
  have inside : r'.block ∈ c.blocks (blockId (c.heap r.block).pc) := by
    rw [pc]
    exact linked'
  have block : r.block = r'.block := List.inj_on_of_nodup_map (apart _) linked inside pc
  cases r
  cases r'
  exact Ref.mk.injEq .. ▸ ⟨block, place⟩

end Apart

structure Mapped (s : Map) : Prop where
  sound : s.cache.Sound
  apart : s.cache.Apart
  linked : ∀ p ∈ s.got, s.cache.Linked p.2
  addr : ∀ p ∈ s.got, (s.cache.insn p.2).addr = p.1 &&& ~~~1#32

section Steps

variable {s : Map}

theorem steadyMapped {P : Insn → Prop} {cache : Cache} (mapped : Mapped s) (steady : Steady P s.cache cache) (apart : cache.Apart) :
    Mapped { s with cache } :=
  ⟨steady.sound, apart, fun p member => steady.linked p.2 (mapped.linked p member),
    fun p member => (steady.addr p.2 (mapped.linked p member)).trans (mapped.addr p member)⟩

theorem getMapped (mapped : Mapped s) (pc : Addr) : Mapped (s.step (.insnCacheGet pc)) := by
  have got : Got (fun _ => True) s.cache pc _ _ := getGot (fun _ _ => trivial) mapped.sound pc
  have before := steadyMapped mapped got.steady (getApart mapped.sound mapped.apart pc)
  refine ⟨before.sound, before.apart, fun p member => ?_, fun p member => ?_⟩
  · rcases List.mem_append.mp member with old | new
    · exact before.linked p old
    · exact List.mem_singleton.mp new ▸ got.linked
  · rcases List.mem_append.mp member with old | new
    · exact before.addr p old
    · exact List.mem_singleton.mp new ▸ got.addr

theorem flushMapped (mapped : Mapped s) : Mapped (s.step .flush) := by
  have apart : s.cache.flushCache.Apart := by
    unfold Cache.flushCache
    exact apartSame (flushListsPc s.cache _ 0).1 (fun b => (flushListsPc s.cache _ b).2) mapped.apart
  exact steadyMapped mapped (flushCacheSteady mapped.sound).1 apart

theorem writeMapped (mapped : Mapped s) (r : Ref) (f : Insn → Insn) : Mapped (s.step (.write r f)) := by
  have steady : Steady (fun _ => True) s.cache (s.cache.modify r fun insn => { f insn with addr := insn.addr }) :=
    modifySteady mapped.sound r (fun _ => rfl) fun _ _ => trivial
  exact steadyMapped mapped steady (apartSame (c := s.cache) rfl (modifyPc s.cache r _) mapped.apart)

theorem initMapped (heap : Nat → Block) : Mapped (Map.init heap) := ⟨nofun, fun _ => .nil, nofun, nofun⟩

theorem runMapped (heap : Nat → Block) (uses : List Use) : Mapped (Runs.run Map.step (Map.init heap) uses) := by
  refine Runs.runInvariant (fun s use mapped => ?_) (initMapped heap) uses
  cases use with
  | insnCacheGet pc => exact getMapped mapped pc
  | flush => exact flushMapped mapped
  | write r f => exact writeMapped mapped r f

end Steps

/- After any use of the cache, whatever a lookup returned, now or before a flush, is the instruction of its address, two
lookups returned the same one exactly for the same address, and no list has two blocks of one base address. -/
theorem cacheMaps (heap : Nat → Block) (uses : List Use) :
    let s := Runs.run Map.step (Map.init heap) uses
    (∀ p ∈ s.got, p.2.block < s.cache.allocated ∧ (s.cache.insn p.2).addr = p.1 &&& ~~~1#32) ∧
      (∀ p ∈ s.got, ∀ q ∈ s.got, p.2 = q.2 ↔ p.1 &&& ~~~1#32 = q.1 &&& ~~~1#32) ∧
      ∀ k, ((s.cache.blocks k).map fun b => (s.cache.heap b).pc).Nodup := by
  intro s
  have mapped : Mapped s := runMapped heap uses
  refine ⟨fun p member => ⟨(linkedHolds mapped.sound (mapped.linked p member)).1, mapped.addr p member⟩, ?_, mapped.apart⟩
  intro p first q second
  constructor
  · intro same
    rw [← mapped.addr p first, same, mapped.addr q second]
  · intro same
    refine addrFinds mapped.sound mapped.apart (mapped.linked p first) (mapped.linked q second) ?_
    rw [mapped.addr p first, mapped.addr q second, same]

end Gvsoc.InsnBlocks
