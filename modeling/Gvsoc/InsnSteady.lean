import Gvsoc.Bytes
import Gvsoc.InsnBlocks

/-! What the operations of the instruction cache keep: the blocks of the lists and the addresses of their instructions. -/
namespace Gvsoc.InsnBlocks

section Addresses

theorem baseNumber (pc : Addr) : (pcBase pc).toNat = pc.toNat / 512 * 512 := Bytes.maskNumber (k := 9) pc

theorem insnAddrNumber {pc : Addr} (aligned : pcBase pc = pc) (i : BitVec 8) : (insnAddr pc i).toNat = pc.toNat + i.toNat * 2 := by
  have number := baseNumber pc
  rw [aligned] at number
  have low := i.isLt
  have high := pc.isLt
  have small : (i.setWidth 32).toNat = i.toNat := BitVec.toNat_setWidth_of_le (by omega)
  rw [insnAddr, BitVec.toNat_add, BitVec.toNat_shiftLeft, small, Nat.shiftLeft_eq]
  omega

theorem baseTwice (pc : Addr) : pcBase (pcBase pc) = pcBase pc := by
  unfold pcBase
  rw [BitVec.and_assoc, BitVec.and_self]

theorem insnAddrOf (pc : Addr) : insnAddr (pcBase pc) ((pc >>> 1).setWidth 8) = pc &&& ~~~1#32 := by
  apply BitVec.eq_of_toNat_eq
  have even : (pc &&& ~~~1#32).toNat = pc.toNat / 2 * 2 := Bytes.maskNumber (k := 1) pc
  rw [insnAddrNumber (baseTwice pc), baseNumber, even, BitVec.toNat_setWidth, BitVec.toNat_ushiftRight, Nat.shiftRight_eq_div_pow]
  omega

theorem insnAddrEven {pc : Addr} (aligned : pcBase pc = pc) (i : BitVec 8) : insnAddr pc i &&& ~~~1#32 = insnAddr pc i := by
  apply BitVec.eq_of_toNat_eq
  have even : (insnAddr pc i &&& ~~~1#32).toNat = (insnAddr pc i).toNat / 2 * 2 := Bytes.maskNumber (k := 1) _
  have number := baseNumber pc
  rw [aligned] at number
  rw [even, insnAddrNumber aligned]
  omega

theorem blockBelow (pc : Addr) : blockId pc < issInsnNbBlocks := by
  unfold blockId issInsnNbBlocks
  rw [BitVec.toNat_and]
  exact lt_of_le_of_lt Nat.and_le_right (by decide)

end Addresses

structure Block.Holds (b : Block) (k : Nat) : Prop where
  init : b.isInit = true
  aligned : pcBase b.pc = b.pc
  place : blockId b.pc = k
  addr : ∀ i, (b.insns i).addr = insnAddr b.pc i

namespace Cache

def Sound (c : Cache) : Prop := ∀ k, ∀ b ∈ c.blocks k, b < c.allocated ∧ (c.heap b).Holds k

def Linked (c : Cache) (r : Ref) : Prop := r.block ∈ c.blocks (blockId (c.heap r.block).pc)

def All (P : Insn → Prop) (c : Cache) : Prop := ∀ r, c.Linked r → P (c.insn r)

end Cache

structure Steady (P : Insn → Prop) (c c' : Cache) : Prop where
  sound : c'.Sound
  linked : ∀ r, c.Linked r → c'.Linked r
  addr : ∀ r, c.Linked r → (c'.insn r).addr = (c.insn r).addr
  all : c.All P → c'.All P

section Caches

variable {P : Insn → Prop} {c c' c'' : Cache} {r : Ref}

theorem steadyRefl (sound : c.Sound) : Steady P c c := ⟨sound, fun _ linked => linked, fun _ _ => rfl, id⟩

theorem steadyTrans (first : Steady P c c') (second : Steady P c' c'') : Steady P c c'' :=
  ⟨second.sound, fun r linked => second.linked r (first.linked r linked),
    fun r linked => (second.addr r (first.linked r linked)).trans (first.addr r linked), fun all => second.all (first.all all)⟩

theorem linkedHolds (sound : c.Sound) (linked : c.Linked r) :
    r.block < c.allocated ∧ (c.heap r.block).Holds (blockId (c.heap r.block).pc) :=
  sound _ _ linked

theorem linkedAddr (sound : c.Sound) (linked : c.Linked r) : (c.insn r).addr = insnAddr (c.heap r.block).pc r.insnId :=
  (linkedHolds sound linked).2.addr r.insnId

theorem addrEven (sound : c.Sound) (linked : c.Linked r) : (c.insn r).addr &&& ~~~1#32 = (c.insn r).addr := by
  rw [linkedAddr sound linked]
  exact insnAddrEven (linkedHolds sound linked).2.aligned _

theorem heapSteady {heap : Nat → Block} (sound : c.Sound)
    (holds : ∀ k, ∀ b ∈ c.blocks k, (heap b).Holds k ∧ (heap b).pc = (c.heap b).pc)
    (all : c.All P → ∀ r, c.Linked r → P ((heap r.block).insns r.insnId)) : Steady P c { c with heap := heap } := by
  have place : ∀ r, c.Linked r → (heap r.block).pc = (c.heap r.block).pc := fun r linked => (holds _ _ linked).2
  refine ⟨fun k b member => ⟨(sound k b member).1, (holds k b member).1⟩, fun r linked => ?_, fun r linked => ?_, fun before r linked => ?_⟩
  · change r.block ∈ c.blocks (blockId (heap r.block).pc)
    rw [place r linked]
    exact linked
  · rw [linkedAddr sound linked, ← place r linked]
    exact (holds _ _ linked).1.addr r.insnId
  · refine all before r ?_
    have other : r.block ∈ c.blocks (blockId (heap r.block).pc) := linked
    have same := (holds _ _ other).2
    rwa [same] at other

theorem modifyInsn (c : Cache) (r other : Ref) (f : Insn → Insn) :
    (c.modify r f).insn other = if other = r then f (c.insn r) else c.insn other := by
  unfold Cache.modify Cache.insn
  dsimp only
  by_cases block : other.block = r.block
  · rw [block, Function.update_self]
    by_cases place : other.insnId = r.insnId
    · have same : other = r := by
        cases other
        cases r
        simp_all
      rw [if_pos same, place]
      exact Function.update_self ..
    · have differs : other ≠ r := fun same => place (by rw [same])
      rw [if_neg differs]
      exact Function.update_of_ne place ..
  · have differs : other ≠ r := fun same => block (by rw [same])
    rw [if_neg differs, Function.update_of_ne block]

theorem modifySteady {f : Insn → Insn} (sound : c.Sound) (r : Ref) (addr : ∀ insn, (f insn).addr = insn.addr)
    (keeps : ∀ insn, P insn → P (f insn)) : Steady P c (c.modify r f) := by
  refine heapSteady sound (fun k b member => ?_) (fun all other linked => ?_)
  · obtain ⟨-, holds⟩ := sound k b member
    by_cases own : b = r.block
    · subst own
      rw [Function.update_self]
      refine ⟨⟨holds.init, holds.aligned, holds.place, fun i => ?_⟩, rfl⟩
      by_cases place : i = r.insnId
      · subst place
        change (Function.update (c.heap r.block).insns r.insnId _ r.insnId).addr = _
        rw [Function.update_self, addr]
        exact holds.addr _
      · change (Function.update (c.heap r.block).insns r.insnId _ i).addr = _
        rw [Function.update_of_ne place]
        exact holds.addr i
    · rw [Function.update_of_ne own]
      exact ⟨holds, rfl⟩
  · change P ((c.modify r f).insn other)
    rw [modifyInsn]
    split_ifs with same
    · subst same
      exact keeps _ (all other linked)
    · exact all other linked

theorem initHolds {b : Block} {pc : Addr} (aligned : pcBase pc = pc) : (({ b with pc := pc } : Block).init pc).Holds (blockId pc) :=
  ⟨rfl, aligned, rfl, fun _ => rfl⟩

structure Got (P : Insn → Prop) (c : Cache) (pc : Addr) (c' : Cache) (r : Ref) : Prop where
  steady : Steady P c c'
  linked : c'.Linked r
  addr : (c'.insn r).addr = pc &&& ~~~1#32
  same : ∀ other, c.Linked other → c'.insn other = c.insn other

def Cache.grown (c : Cache) (base : Addr) : Cache :=
  { heap := Function.update c.heap c.allocated (({ c.heap c.allocated with pc := base } : Block).init base)
    allocated := c.allocated + 1
    blocks := Function.update c.blocks (blockId base) (c.allocated :: c.blocks (blockId base)) }

theorem grownMember (c : Cache) (base : Addr) (k b : Nat) :
    b ∈ (c.grown base).blocks k ↔ b ∈ c.blocks k ∨ k = blockId base ∧ b = c.allocated := by
  unfold Cache.grown
  dsimp only
  by_cases own : k = blockId base
  · subst own
    rw [Function.update_self, List.mem_cons, or_comm, and_iff_right rfl]
  · rw [Function.update_of_ne own]
    exact ⟨.inl, fun either => either.resolve_right fun both => own both.1⟩

theorem grownOld (c : Cache) (base : Addr) {b : Nat} (old : b < c.allocated) : (c.grown base).heap b = c.heap b :=
  Function.update_of_ne old.ne _ _

theorem grownNew (c : Cache) (base : Addr) :
    (c.grown base).heap c.allocated = ({ c.heap c.allocated with pc := base } : Block).init base :=
  Function.update_self ..

theorem grownGot (new : ∀ insn addr, P (Insn.init insn addr)) (sound : c.Sound) (pc : Addr) :
    Got P c pc (c.grown (pcBase pc)) ⟨c.allocated, (pc >>> 1).setWidth 8⟩ := by
  have same : ∀ other, c.Linked other → (c.grown (pcBase pc)).insn other = c.insn other := by
    intro other linked
    rw [Cache.insn, Cache.insn, grownOld c _ (linkedHolds sound linked).1]
  refine ⟨⟨fun k b member => ?_, fun other linked => ?_, fun other linked => ?_, fun all other linked => ?_⟩, ?_, ?_, same⟩
  · obtain before | ⟨rfl, rfl⟩ := (grownMember c _ k b).mp member
    · obtain ⟨inside, holds⟩ := sound k b before
      rw [grownOld c _ inside]
      exact ⟨Nat.lt_succ_of_lt inside, holds⟩
    · rw [grownNew]
      exact ⟨Nat.lt_succ_self _, initHolds (baseTwice pc)⟩
  · have old := (linkedHolds sound linked).1
    rw [Cache.Linked, grownOld c _ old]
    exact (grownMember ..).mpr (.inl linked)
  · rw [same other linked]
  · by_cases block : other.block = c.allocated
    · rw [Cache.insn, block, grownNew]
      exact new _ _
    · have before : c.Linked other := by
        have member := (grownMember ..).mp linked
        have inside : other.block ∈ c.blocks (blockId ((c.grown (pcBase pc)).heap other.block).pc) :=
          member.resolve_right fun both => block both.2
        rwa [grownOld c _ (sound _ _ inside).1] at inside
      rw [same other before]
      exact all other before
  · rw [Cache.Linked, grownNew]
    exact (grownMember ..).mpr (.inr ⟨rfl, rfl⟩)
  · rw [Cache.insn, grownNew]
    exact insnAddrOf pc

/- The block of the address is in its list; or it is not, and as every block there is in use, a new one is allocated. -/
theorem getCases (sound : c.Sound) (pc : Addr) :
    (∃ b ∈ c.blocks (blockId (pcBase pc)), (c.heap b).pc = pcBase pc ∧ c.insnCacheGet pc = (c, ⟨b, (pc >>> 1).setWidth 8⟩)) ∨
      (∀ b ∈ c.blocks (blockId (pcBase pc)), (c.heap b).pc ≠ pcBase pc) ∧
        c.insnCacheGet pc = (c.grown (pcBase pc), ⟨c.allocated, (pc >>> 1).setWidth 8⟩) := by
  unfold Cache.insnCacheGet
  dsimp only
  cases found : (c.blocks (blockId (pcBase pc))).find? fun b => (c.heap b).isInit && (c.heap b).pc == pcBase pc with
  | some b =>
      have both := List.find?_some found
      simp only [Bool.and_eq_true, beq_iff_eq] at both
      exact .inl ⟨b, List.mem_of_find?_eq_some found, both.2, rfl⟩
  | none =>
      refine .inr ⟨fun b member same => ?_, ?_⟩
      · have missed := List.find?_eq_none.mp found b member
        simp [(sound _ b member).2.init, same] at missed
      · have free : (c.blocks (blockId (pcBase pc))).filter (fun b => !(c.heap b).isInit) = [] := by
          rw [List.filter_eq_nil_iff]
          intro b member
          rw [(sound _ b member).2.init]
          exact Bool.false_ne_true
        rw [free, List.getLast?_nil]
        dsimp only [Cache.insnBlockInit]
        rw [Function.update_idem, Function.update_self]
        rfl

theorem getGot (new : ∀ insn addr, P (Insn.init insn addr)) (sound : c.Sound) (pc : Addr) :
    Got P c pc (c.insnCacheGet pc).1 (c.insnCacheGet pc).2 := by
  rcases getCases sound pc with ⟨b, member, base, get⟩ | ⟨-, get⟩
  · rw [get]
    have linked : c.Linked ⟨b, (pc >>> 1).setWidth 8⟩ := by
      change b ∈ c.blocks (blockId (c.heap b).pc)
      rwa [base]
    refine ⟨steadyRefl sound, linked, ?_, fun _ _ => rfl⟩
    rw [linkedAddr sound linked]
    change insnAddr (c.heap b).pc _ = _
    rw [base, insnAddrOf]
  · rw [get]
    exact grownGot new sound pc

end Caches

def Unchecked (insn : Insn) : Prop := insn.hwloopHandler = none

def Checked (insn : Insn) : Prop :=
  if insn.fetched then insn.handler = .hwloopCheckExec ∧ insn.fastHandler = .hwloopCheckExec ∧ insn.hwloopHandler ≠ none
  else insn.hwloopHandler = some .hwloopCheckExec

section Decoder

variable {c : Cache}

theorem initUnchecked (insn : Insn) (addr : Addr) : Unchecked (insn.init addr) := rfl

theorem getUnchecked (sound : c.Sound) (pc : Addr) : Got Unchecked c pc (c.insnCacheGet pc).1 (c.insnCacheGet pc).2 :=
  getGot initUnchecked sound pc

theorem changeSteady {f : Insn → Insn} (sound : c.Sound) (r : Ref) (addr : ∀ insn, (f insn).addr = insn.addr)
    (keeps : ∀ insn, Unchecked insn → Unchecked (f insn)) : Steady Unchecked c (c.modify r f) :=
  modifySteady sound r addr keeps

theorem setInputLatencySteady (sound : c.Sound) (addr : Addr) (out : Int × Int) : Steady Unchecked c (c.setInputLatency addr out) := by
  have got := getUnchecked sound addr
  unfold Cache.setInputLatency
  exact steadyTrans got.steady (changeSteady got.steady.sound _ (fun _ => rfl) fun _ none => none)

theorem setInputLatenciesSteady (sound : c.Sound) (addr : Addr) (outs : List (Int × Int)) :
    Steady Unchecked c (outs.foldl (fun c out => c.setInputLatency addr out) c) := by
  induction outs generalizing c with
  | nil => exact steadyRefl sound
  | cons out rest rec =>
      have first := setInputLatencySteady sound addr out
      exact steadyTrans first (rec first.sound)

theorem setNextSteady (sound : c.Sound) (r : Ref) (addr : Addr) : Steady Unchecked c (c.setNext r addr) := by
  have got := getUnchecked sound addr
  unfold Cache.setNext
  exact steadyTrans got.steady (changeSteady got.steady.sound _ (fun _ => rfl) fun _ none => none)

theorem setBranchSteady (sound : c.Sound) (r : Ref) (addr : Addr) : Steady Unchecked c (c.setBranch r addr) := by
  have got := getUnchecked sound addr
  unfold Cache.setBranch
  exact steadyTrans got.steady (changeSteady got.steady.sound _ (fun _ => rfl) fun _ none => none)

theorem setHandlersKeeps (insn : Insn) (item : Item) :
    (insn.setHandlers item).addr = insn.addr ∧ (Unchecked insn → Unchecked (insn.setHandlers item)) := by
  unfold Insn.setHandlers Unchecked
  dsimp only
  cases insn.hwloopHandler with
  | none => split_ifs <;> exact ⟨rfl, fun none => none⟩
  | some hwloopHandler => split_ifs <;> exact ⟨rfl, fun never => by contradiction⟩

theorem addLatencyKeeps (insn : Insn) (pipelineStages : Int) (inRegs : List Int) :
    (insn.addLatency pipelineStages inRegs).addr = insn.addr ∧
      (Unchecked insn → Unchecked (insn.addLatency pipelineStages inRegs)) := by
  unfold Insn.addLatency Unchecked
  split_ifs <;> exact ⟨rfl, id⟩

theorem setStallKeeps (insn : Insn) : insn.setStall.addr = insn.addr ∧ (Unchecked insn → Unchecked insn.setStall) := by
  unfold Insn.setStall Unchecked
  split_ifs <;> exact ⟨rfl, id⟩

theorem decodeInsnSteady (sound : c.Sound) (pipelineStages : Int) (r : Ref) (opcode : Opcode) (item : Item) :
    Steady Unchecked c (c.decodeInsn pipelineStages r opcode item) := by
  unfold Cache.decodeInsn
  dsimp only
  have handlers := changeSteady sound r (fun insn => (setHandlersKeeps insn item).1) fun insn => (setHandlersKeeps insn item).2
  have outs := steadyTrans handlers
    (setInputLatenciesSteady handlers.sound ((c.insn r).addr + item.size) (item.outLatencies opcode))
  have latency := steadyTrans outs (changeSteady outs.sound r
    (fun insn => (addLatencyKeeps insn pipelineStages (item.inRegs opcode)).1)
    fun insn => (addLatencyKeeps insn pipelineStages (item.inRegs opcode)).2)
  have next := steadyTrans latency (setNextSteady latency.sound r ((c.insn r).addr + item.size))
  have stall : ∀ c', Steady Unchecked c c' → Steady Unchecked c (c'.modify r Insn.setStall) := fun c' steady =>
    steadyTrans steady (changeSteady steady.sound r (fun insn => (setStallKeeps insn).1) fun insn => (setStallKeeps insn).2)
  refine stall _ ?_
  have branch : ∀ c' addr, Steady Unchecked c c' → Steady Unchecked c (c'.setBranch r addr) := fun c' addr steady =>
    steadyTrans steady (setBranchSteady steady.sound r addr)
  have jump : ∀ addr, Steady Unchecked c (Cache.setNext _ r addr) := fun addr =>
    steadyTrans next (setNextSteady next.sound r addr)
  cases item.nextAt opcode with
  | none =>
      cases item.branchAt opcode with
      | none => exact next
      | some offset => exact branch _ _ next
  | some target =>
      cases item.branchAt opcode with
      | none => exact jump _
      | some offset => exact branch _ _ (jump _)

theorem decodeSteady (config : Config) (traced : Bool) (sound : c.Sound) (r : Ref) :
    Steady Unchecked c (c.issDecodePcNoexec config traced r) := by
  unfold Cache.issDecodePcNoexec
  dsimp only
  cases config.decodeOpcode (c.insn r).opcode with
  | none => exact changeSteady sound r (fun _ => rfl) fun _ none => none
  | some item =>
      have decoded := decodeInsnSteady sound config.pipelineStages r (c.insn r).opcode item
      cases traced with
      | false => exact decoded
      | true => exact steadyTrans decoded (changeSteady decoded.sound r (fun _ => rfl) fun _ none => none)

end Decoder

section Flush

variable {c : Cache}

def Cache.Cleared (c : Cache) (b : Nat) : Prop := ∀ i, Unchecked ((c.heap b).insns i)

theorem blockInitSteady (sound : c.Sound) (b : Nat) :
    Steady Unchecked c (c.insnBlockInit b (c.heap b).pc) ∧ (c.insnBlockInit b (c.heap b).pc).Cleared b ∧
      ∀ other, c.Cleared other → (c.insnBlockInit b (c.heap b).pc).Cleared other := by
  have own : (c.insnBlockInit b (c.heap b).pc).heap b = (c.heap b).init (c.heap b).pc := Function.update_self ..
  have apart : ∀ other ≠ b, (c.insnBlockInit b (c.heap b).pc).heap other = c.heap other := fun other differs =>
    Function.update_of_ne differs ..
  have cleared : (c.insnBlockInit b (c.heap b).pc).Cleared b := by
    intro i
    rw [own]
    exact initUnchecked _ _
  refine ⟨heapSteady sound (fun k other member => ?_) (fun all r linked => ?_), cleared, fun other before => ?_⟩
  · obtain ⟨-, holds⟩ := sound k other member
    by_cases same : other = b
    · subst same
      rw [Function.update_self]
      exact ⟨⟨rfl, holds.aligned, holds.place, fun _ => rfl⟩, rfl⟩
    · rw [Function.update_of_ne same]
      exact ⟨holds, rfl⟩
  · by_cases same : r.block = b
    · rw [same, Function.update_self]
      exact initUnchecked _ _
    · rw [Function.update_of_ne same]
      exact all r linked
  · by_cases same : other = b
    · rw [same]
      exact cleared
    · intro i
      rw [apart other same]
      exact before i

theorem flushListSteady (sound : c.Sound) (list : List Nat) :
    Steady Unchecked c (c.flushList list) ∧ (c.flushList list).blocks = c.blocks ∧
      ∀ b, b ∈ list ∨ c.Cleared b → (c.flushList list).Cleared b := by
  unfold Cache.flushList
  induction list generalizing c with
  | nil => exact ⟨steadyRefl sound, rfl, fun b either => either.resolve_left List.not_mem_nil⟩
  | cons b rest rec =>
      obtain ⟨first, own, others⟩ := blockInitSteady sound b
      obtain ⟨steady, lists, cleared⟩ := rec first.sound
      refine ⟨steadyTrans first steady, lists, fun other either => cleared other ?_⟩
      rcases either with member | before
      · rcases List.mem_cons.mp member with rfl | later
        · exact .inr own
        · exact .inl later
      · exact .inr (others other before)

theorem flushListsSteady (sound : c.Sound) (ids : List Nat) :
    Steady Unchecked c (ids.foldl (fun c i => c.flushList (c.blocks i)) c) ∧
      (ids.foldl (fun c i => c.flushList (c.blocks i)) c).blocks = c.blocks ∧
      ∀ b, (∃ k ∈ ids, b ∈ c.blocks k) ∨ c.Cleared b → (ids.foldl (fun c i => c.flushList (c.blocks i)) c).Cleared b := by
  induction ids generalizing c with
  | nil =>
      refine ⟨steadyRefl sound, rfl, fun b either => either.resolve_left ?_⟩
      rintro ⟨k, never, -⟩
      exact List.not_mem_nil never
  | cons i rest rec =>
      obtain ⟨first, lists, cleared⟩ := flushListSteady sound (c.blocks i)
      obtain ⟨steady, after, later⟩ := rec first.sound
      refine ⟨steadyTrans first steady, after.trans lists, fun b either => later b ?_⟩
      rcases either with ⟨k, member, inside⟩ | before
      · rcases List.mem_cons.mp member with rfl | member
        · exact .inr (cleared b (.inl inside))
        · exact .inl ⟨k, member, by rwa [lists]⟩
      · exact .inr (cleared b (.inr before))

theorem flushListsAll (sound : c.Sound) {ids : List Nat} (every : ∀ pc, blockId pc ∈ ids) :
    (ids.foldl (fun c i => c.flushList (c.blocks i)) c).All Unchecked := by
  obtain ⟨-, lists, cleared⟩ := flushListsSteady sound ids
  intro r linked
  rw [Cache.Linked, lists] at linked
  exact cleared r.block (.inl ⟨_, every _, linked⟩) r.insnId

theorem flushCacheSteady (sound : c.Sound) : Steady Unchecked c c.flushCache ∧ c.flushCache.All Unchecked := by
  unfold Cache.flushCache
  exact ⟨(flushListsSteady sound _).1, flushListsAll sound fun pc => List.mem_range.mpr (blockBelow pc)⟩

end Flush

section Checks

variable {c : Cache} {r : Ref}

def Ready (insn : Insn) : Prop := Unchecked insn ∨ Checked insn

theorem getReady (sound : c.Sound) (pc : Addr) : Got Ready c pc (c.insnCacheGet pc).1 (c.insnCacheGet pc).2 :=
  getGot (fun insn addr => .inl (initUnchecked insn addr)) sound pc

theorem setCheckAddr (insn : Insn) : insn.setCheck.addr = insn.addr := by
  unfold Insn.setCheck
  cases insn.hwloopHandler <;> split_ifs <;> rfl

theorem setCheckChecked {insn : Insn} (ready : Ready insn) : Checked insn.setCheck := by
  unfold Insn.setCheck
  by_cases fetched : insn.fetched = true
  · rw [if_pos fetched]
    cases handler : insn.hwloopHandler with
    | none =>
        unfold Checked
        dsimp only
        rw [if_pos fetched]
        exact ⟨rfl, rfl, by simp⟩
    | some before =>
        refine ready.resolve_left fun none => ?_
        rw [Unchecked, handler] at none
        contradiction
  · rw [if_neg fetched]
    unfold Checked
    dsimp only
    rw [if_neg fetched]

theorem setEndSteady (sound : c.Sound) (r : Ref) : Steady Ready c (c.hwloopSetInsnEnd r) :=
  modifySteady sound r setCheckAddr fun _ ready => .inr (setCheckChecked ready)

theorem setEndChecked (ready : Ready (c.insn r)) : Checked ((c.hwloopSetInsnEnd r).insn r) ∧
    ∀ other, Checked (c.insn other) → Checked ((c.hwloopSetInsnEnd r).insn other) := by
  have cell : ∀ other, (c.hwloopSetInsnEnd r).insn other = if other = r then (c.insn r).setCheck else c.insn other :=
    fun other => modifyInsn c r other Insn.setCheck
  refine ⟨?_, fun other before => ?_⟩
  · rw [cell, if_pos rfl]
    exact setCheckChecked ready
  · rw [cell]
    split_ifs
    · exact setCheckChecked ready
    · exact before

end Checks

end Gvsoc.InsnBlocks
