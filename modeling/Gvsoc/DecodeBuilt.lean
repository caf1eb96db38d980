import Gvsoc.DecodeSearch
import Mathlib.Data.Finset.Sort

/-! What the tree of a set of encodings looks like, and what the walk reads at each of its groups. -/
namespace Gvsoc.Decoder
open Grouping (groupBy groupByCollect collect)

section Lists

variable {α β ε : Type}

theorem mapMSome {f : α → Option β} {list : List α} {results : List β} :
    list.mapM f = some results ↔ list.map f = results.map some := by
  induction list generalizing results with
  | nil => cases results <;> simp
  | cons a rest ih =>
      rw [List.mapM_cons]
      cases value : f a with
      | none => cases results <;> simp [value]
      | some b =>
          cases later : rest.mapM f with
          | none => cases results <;> simp [value, ← ih, later]
          | some bs => cases results <;> simp [value, ← ih, later]

theorem bindOk {x : Except ε α} {f : α → Except ε β} {result : β} (done : x >>= f = .ok result) :
    ∃ a, x = .ok a ∧ f a = .ok result := by
  cases x with
  | error e => cases done
  | ok a => exact ⟨a, rfl, done⟩

theorem errorFirst {x : Except ε α} {f : α → β} {e : ε} (failed : (x >>= fun a => .ok (f a)) = .error e) : x = .error e := by
  cases x with
  | error e' =>
      cases failed
      rfl
  | ok a => cases failed

theorem mapMOk [Inhabited β] {f : α → Except ε β} {list : List α} {results : List β} (done : list.mapM f = .ok results) :
    ∃ g : α → β, (∀ a ∈ list, f a = .ok (g a)) ∧ results = list.map g := by
  refine ⟨fun a => (f a).toOption.getD default, ?_⟩
  induction list generalizing results with
  | nil =>
      cases done
      simp
  | cons a rest ih =>
      rw [List.mapM_cons] at done
      cases value : f a with
      | error e =>
          rw [value] at done
          cases done
      | ok b =>
          cases later : rest.mapM f with
          | error e =>
              rw [value, later] at done
              cases done
          | ok bs =>
              rw [value, later] at done
              cases done
              obtain ⟨each, same⟩ := ih later
              have here : (f a).toOption.getD default = b := by rw [value]; rfl
              refine ⟨?_, by rw [List.map_cons, here, ← same]⟩
              intro c member
              rcases List.mem_cons.mp member with rfl | inside
              · show f c = .ok ((f c).toOption.getD default)
                rw [here, value]
              · exact each c inside

theorem mapMError {f : α → Except ε β} {list : List α} {e : ε} (failed : list.mapM f = .error e) : ∃ a ∈ list, f a = .error e := by
  induction list with
  | nil => cases failed
  | cons a rest ih =>
      rw [List.mapM_cons] at failed
      cases value : f a with
      | error e' =>
          rw [value] at failed
          cases failed
          exact ⟨a, by simp, value⟩
      | ok b =>
          cases later : rest.mapM f with
          | error e' =>
              rw [value, later] at failed
              cases failed
              obtain ⟨c, inside, error⟩ := ih later
              exact ⟨c, by simp [inside], error⟩
          | ok bs =>
              rw [value, later] at failed
              cases failed

end Lists

section Opcodes

variable {m : Mask} {i j : Instr} {s s' : Opcode}

theorem binarySnoc (s : Opcode) (b : Bool) : binary (s ++ [b]) = 2 * binary s + b.toNat := by
  simp [binary, List.foldl_append]

theorem testBitBinary (s : Opcode) (k : ℕ) : (binary s).testBit k = (s.reverse[k]?).getD false := by
  induction s using List.reverseRecOn generalizing k with
  | nil => simp [binary]
  | append_singleton s b ih =>
      rw [binarySnoc]
      cases k with
      | zero => cases b <;> simp [Nat.testBit_zero]
      | succ k =>
          have half : (2 * binary s + b.toNat) / 2 = binary s := by
            cases b
            · simp
            · simp only [Bool.toNat_true]
              omega
          rw [Nat.testBit_succ, half, ih]
          simp

theorem binaryInj (same : s.length = s'.length) (value : binary s = binary s') : s = s' := by
  rw [← List.reverse_inj]
  apply List.ext_getElem (by simpa using same)
  intro k here there
  have bit := testBitBinary s k
  rw [value, testBitBinary s' k, List.getElem?_eq_getElem here, List.getElem?_eq_getElem there] at bit
  simpa using bit.symm

def positions (m : Mask) (length : ℕ) : List ℕ := (List.range length).filter (fun bit => m.getLsbD bit)

theorem memPositions {length x : ℕ} : x ∈ positions m length ↔ x ∈ bits m ∧ x < length := by
  simp only [positions, List.mem_filter, List.mem_range, memBits]
  exact and_comm

theorem positionsLength {length : ℕ} (inside : ∀ x ∈ bits m, x < length) : (positions m length).length = (bits m).card := by
  have same : (positions m length).toFinset = bits m := by
    ext x
    rw [List.mem_toFinset, memPositions]
    exact ⟨And.left, fun member => ⟨member, inside x member⟩⟩
  have distinct : (positions m length).Nodup := List.nodup_range.filter _
  rw [← same, List.toFinset_card_of_nodup distinct]

theorem opcodeOfSome : opcodeOf m i = some s ↔ (positions m i.len).map i.fixed = s.reverse.map some := by
  rw [opcodeOf, mapMSome, List.filter_reverse, List.map_reverse]
  constructor
  · intro same
    rw [List.map_reverse, ← same, List.reverse_reverse]
    rfl
  · intro same
    rw [← positions, same, List.map_reverse, List.reverse_reverse]

theorem opcodeExists (fixed : bits m ⊆ i.fixedBits) : ∃ s, opcodeOf m i = some s := by
  refine ⟨((positions m i.len).map (fun x => (i.fixed x).getD false)).reverse, ?_⟩
  rw [opcodeOfSome, List.reverse_reverse, List.map_map]
  apply List.map_congr_left
  intro x member
  obtain ⟨b, value⟩ := Option.ne_none_iff_exists'.mp (memFixed.mp (fixed (memPositions.mp member).1))
  simp [value]

theorem opcodeLength (opcode : opcodeOf m i = some s) (inside : ∀ x ∈ bits m, x < i.len) : s.length = (bits m).card := by
  have lengths := congrArg List.length (opcodeOfSome.mp opcode)
  rw [List.length_map, List.length_map, List.length_reverse, positionsLength inside] at lengths
  exact lengths.symm

theorem opcodeFixed (opcode : opcodeOf m i = some s) (inside : ∀ x ∈ bits m, x < i.len) : bits m ⊆ i.fixedBits := by
  intro x member
  have listed : i.fixed x ∈ (positions m i.len).map i.fixed := List.mem_map_of_mem (memPositions.mpr ⟨member, inside x member⟩)
  rw [opcodeOfSome.mp opcode] at listed
  obtain ⟨b, -, value⟩ := List.mem_map.mp listed
  rw [memFixed, ← value]
  simp

theorem opcodeSame (opcode : opcodeOf m i = some s) (other : opcodeOf m j = some s) (length : i.len = j.len)
    (inside : ∀ x ∈ bits m, x < i.len) : ∀ x ∈ bits m, i.fixed x = j.fixed x := by
  intro x member
  have same : (positions m i.len).map i.fixed = (positions m i.len).map j.fixed := by
    rw [opcodeOfSome.mp opcode, length, opcodeOfSome.mp other]
  exact List.map_inj_left.mp same x (memPositions.mpr ⟨member, inside x member⟩)

end Opcodes

section Reading

variable {m : Mask} {i : Instr} {s : Opcode} {opcode opcode' : ℕ}

def lowest (s : Finset ℕ) : ℕ := if some : s.Nonempty then s.min' some else 0

theorem lowestEq {s : Finset ℕ} {first : ℕ} (member : first ∈ s) (lower : ∀ x ∈ s, first ≤ x) : lowest s = first := by
  have some : s.Nonempty := ⟨first, member⟩
  rw [lowest, dif_pos some]
  exact le_antisymm (Finset.min'_le s first member) (lower _ (Finset.min'_mem s some))

theorem lowestLower {s : Finset ℕ} : ∀ x ∈ s, lowest s ≤ x := by
  intro x member
  rw [lowest, dif_pos ⟨x, member⟩]
  exact Finset.min'_le s x member

def readField (m : Mask) (opcode : ℕ) : ℕ := (opcode >>> lowest (bits m)) &&& (2 ^ (bits m).card - 1)

def fieldOf (m : Mask) : Finset ℕ := Fields.field (lowest (bits m)) (bits m)

theorem testBitRead (m : Mask) (opcode k : ℕ) :
    (readField m opcode).testBit k = (decide (k < (bits m).card) && opcode.testBit (lowest (bits m) + k)) := by
  rw [readField, Nat.testBit_and, Nat.testBit_shiftRight, Nat.testBit_two_pow_sub_one, Bool.and_comm]

theorem readAgree (agree : ∀ x ∈ fieldOf m, opcode.testBit x = opcode'.testBit x) : readField m opcode = readField m opcode' := by
  apply Nat.eq_of_testBit_eq
  intro k
  rw [testBitRead, testBitRead]
  by_cases within : k < (bits m).card
  · have member : lowest (bits m) + k ∈ fieldOf m := Finset.mem_Ico.mpr ⟨by omega, by omega⟩
    rw [agree _ member]
  · simp [within]

theorem consecutiveField (consecutive : Consecutive m) : fieldOf m = bits m := by
  refine Fields.fieldConnected lowestLower (fun x member y above below => ?_)
  have some : (bits m).Nonempty := ⟨x, member⟩
  have low : lowest (bits m) ∈ bits m := by
    rw [lowest, dif_pos some]
    exact Finset.min'_mem _ some
  exact consecutive _ low x member y above below

theorem fieldConsecutive (same : fieldOf m = bits m) : Consecutive m := by
  intro x first y last z above below
  rw [← same] at first last ⊢
  have start := Finset.mem_Ico.mp first
  have stop := Finset.mem_Ico.mp last
  exact Finset.mem_Ico.mpr ⟨by omega, by omega⟩

theorem memConsecutive {x : ℕ} (consecutive : Consecutive m) :
    x ∈ bits m ↔ lowest (bits m) ≤ x ∧ x < lowest (bits m) + (bits m).card := by
  have same := Finset.ext_iff.mp (consecutiveField consecutive) x
  rw [← same]
  exact Finset.mem_Ico

theorem positionsField {length : ℕ} (consecutive : Consecutive m) (inside : ∀ x ∈ bits m, x < length) :
    positions m length = List.range' (lowest (bits m)) (bits m).card := by
  have sorted : (positions m length).Pairwise (· < ·) := List.pairwise_lt_range.filter _
  have sorted' : (List.range' (lowest (bits m)) (bits m).card).Pairwise (· < ·) := List.pairwise_lt_range'
  refine List.Perm.eq_of_pairwise (fun a b _ _ less more => absurd (lt_trans less more) (lt_irrefl _)) sorted sorted' ?_
  rw [List.perm_ext_iff_of_nodup (sorted.imp ne_of_lt) (sorted'.imp ne_of_lt)]
  intro x
  rw [memPositions, List.mem_range'_1, ← memConsecutive consecutive]
  exact ⟨And.left, fun member => ⟨member, inside x member⟩⟩

theorem readMatches (consecutive : Consecutive m) (inside : ∀ x ∈ bits m, x < i.len) (key : opcodeOf m i = some s) :
    binary s = readField m opcode ↔ ∀ x ∈ bits m, i.fixed x = some (opcode.testBit x) := by
  have values := opcodeOfSome.mp key
  rw [positionsField consecutive inside] at values
  have length := opcodeLength key inside
  have bit (k : ℕ) (within : k < (bits m).card) : i.fixed (lowest (bits m) + k) = some ((binary s).testBit k) := by
    have entry := congrArg (fun list => list[k]?) values
    have there : k < s.reverse.length := by simpa [length] using within
    have listed : (List.range' (lowest (bits m)) (bits m).card)[k]? = some (lowest (bits m) + k) := by
      rw [List.getElem?_range' within, Nat.one_mul]
    simp only [List.getElem?_map, listed, List.getElem?_eq_getElem there, Option.map_some, Option.some.injEq] at entry
    rw [testBitBinary, List.getElem?_eq_getElem there, Option.getD_some, entry]
  have member (x : ℕ) (inM : x ∈ bits m) : ∃ k < (bits m).card, x = lowest (bits m) + k := by
    have range := (memConsecutive consecutive).mp inM
    exact ⟨x - lowest (bits m), by omega, by omega⟩
  constructor
  · intro same x inM
    obtain ⟨k, within, rfl⟩ := member x inM
    rw [bit k within, same, testBitRead]
    simp [within]
  · intro all
    apply Nat.eq_of_testBit_eq
    intro k
    rw [testBitRead]
    by_cases within : k < (bits m).card
    · have inM : lowest (bits m) + k ∈ bits m := (memConsecutive consecutive).mpr ⟨by omega, by omega⟩
      have value := (bit k within).symm.trans (all _ inM)
      simpa [within] using value
    · have short : s.reverse[k]? = none := List.getElem?_eq_none (by simp only [List.length_reverse, length]; omega)
      simp [testBitBinary, short, within]

end Reading

section Built

variable {instrs : List Instr} {mask : Mask} {length : ℕ}

inductive Built : List Instr → Mask → Item → Prop where
  | leaf {mask : Mask} {instr : Instr} (opcode : ℕ) (nothing : bits mask ∩ instr.fixedBits = ∅) :
      Built [instr] mask (.insn opcode false instr)
  | group {instrs : List Instr} {mask : Mask} (opcode : ℕ) (keys : List (Option Opcode)) (item : Option Opcode → Item)
      (found : (search instrs mask).1 ≠ 0)
      (members : ∀ k, k ∈ keys ↔ ∃ i ∈ instrs, opcodeOf (search instrs mask).1 i = k)
      (labels : ∀ s, some s ∈ keys → (item (some s)).opcode = binary s ∧ (item (some s)).opcodeOthers = false)
      (others : none ∈ keys → ∃ opcode i, item none = .insn opcode true i)
      (subtrees : ∀ s, some s ∈ keys → Built (instrs.filter (fun i => opcodeOf (search instrs mask).1 i = some s))
        (mask &&& ~~~ (search instrs mask).1) (item (some s))) :
      Built instrs mask (.group opcode (search instrs mask).2 (opcodeWidth keys) (keys.map item))

instance : Inhabited DecodeTree := ⟨.tree [] 0 0 false []⟩

theorem genAllMap (subtrees : List DecodeTree) : genAll subtrees = subtrees.map DecodeTree.gen := by
  induction subtrees with
  | nil => simp [genAll]
  | cons subtree rest ih => simp [genAll, ih]

theorem foundInside (same : ∀ i ∈ instrs, i.len = length) (some : instrs ≠ []) : ∀ x ∈ bits (search instrs mask).1, x < length := by
  intro x member
  obtain ⟨i, inside, fixed⟩ := (searchSpec same some).within x member
  exact same i inside ▸ fixedBelow fixed

theorem opcodeEmpty (i : Instr) : opcodeOf 0 i = some [] := by
  rw [opcodeOfSome]
  simp [positions]

theorem singleInstr (some : instrs ≠ []) (few : ¬ 1 < instrs.length) : ∃ i, instrs = [i] := by
  have positive := List.length_pos_iff.mpr some
  rw [← List.length_eq_one_iff]
  omega

theorem buildLeaf {fuel : ℕ} {i : Instr} {opcode : Opcode} (nothing : (search [i] mask).1 = 0) :
    build (fuel + 1) [i] mask opcode =
      .ok (.tree opcode (search [i] mask).2 (opcodeWidth [some []]) false [.leaf i opcode false]) := by
  have groups : groupBy (opcodeOf (0 : Mask)) [i] = [(some [], [i])] := by
    simp only [groupBy, List.foldl_cons, List.foldl_nil, Grouping.register, opcodeEmpty]
  simp only [build, nothing, groups, reduceCtorEq, if_false]
  rfl

theorem buildGroup {fuel : ℕ} {opcode : Opcode} {tree : DecodeTree} (some : instrs ≠ []) (found : (search instrs mask).1 ≠ 0)
    (built : build (fuel + 1) instrs mask opcode = .ok tree) :
    ∃ (keys : List (Option Opcode)) (subtree : Option Opcode → DecodeTree),
      (∀ k, k ∈ keys ↔ ∃ i ∈ instrs, opcodeOf (search instrs mask).1 i = k) ∧
      tree = .tree opcode (search instrs mask).2 (opcodeWidth keys) (keys.any (fun k => k ≠ Option.some [])) (keys.map subtree) ∧
      (∀ s, Option.some s ∈ keys → build fuel (instrs.filter (fun i => opcodeOf (search instrs mask).1 i = Option.some s))
        (mask &&& ~~~ (search instrs mask).1) s = .ok (subtree (Option.some s))) ∧
      (none ∈ keys → ∃ i, subtree none = .leaf i opcode true) := by
  obtain ⟨keys, -, members, groups⟩ := groupByCollect (opcodeOf (search instrs mask).1) instrs
  simp only [build, if_neg some, found, false_and, if_false, groups] at built
  obtain ⟨subtrees, mapped, last⟩ := bindOk built
  obtain ⟨choice, each, rfl⟩ := mapMOk mapped
  cases last
  refine ⟨keys, fun k => choice (k, instrs.filter (fun i => opcodeOf (search instrs mask).1 i = k)), members, ?_, ?_, ?_⟩
  · simp [collect, Function.comp_def]
  · intro s member
    have made := each _ (List.mem_map_of_mem member)
    simpa using made
  · intro member
    obtain ⟨i, inside, key⟩ := (members none).mp member
    have made := each _ (List.mem_map_of_mem member)
    have first : ∃ j, (instrs.filter (fun i => opcodeOf (search instrs mask).1 i = none)).head? = Option.some j := by
      apply Option.ne_none_iff_exists'.mp
      intro empty
      have absent := List.head?_eq_none_iff.mp empty
      have present : i ∈ instrs.filter (fun i => opcodeOf (search instrs mask).1 i = none) := by simp [inside, key]
      rw [absent] at present
      contradiction
    obtain ⟨j, head⟩ := first
    simp only [and_false, or_true, if_true, head, Option.isNone_none] at made
    exact ⟨j, (Except.ok.inj made).symm⟩

theorem buildBuilt {fuel : ℕ} {opcode : Opcode} {tree : DecodeTree} (same : ∀ i ∈ instrs, i.len = length) (some : instrs ≠ [])
    (built : build fuel instrs mask opcode = .ok tree) :
    Built instrs mask tree.gen ∧ tree.gen.opcode = binary opcode ∧ tree.gen.opcodeOthers = false := by
  induction fuel generalizing instrs mask opcode tree with
  | zero => cases built
  | succ fuel ih =>
      by_cases nothing : (search instrs mask).1 = 0
      · -- only a single instruction passes the check
        have clash : ¬ 1 < instrs.length := by
          intro more
          simp [build, some, nothing, more] at built
        obtain ⟨i, rfl⟩ := singleInstr some clash
        rw [buildLeaf nothing] at built
        cases built
        exact ⟨.leaf _ (searchAlone nothing), rfl, rfl⟩
      · obtain ⟨keys, subtree, members, rfl, made, others⟩ := buildGroup some nothing built
        have needTree : keys.any (fun k => k ≠ Option.some []) = true := by
          obtain ⟨i, inside⟩ := List.exists_mem_of_ne_nil _ some
          rw [List.any_eq_true]
          refine ⟨opcodeOf (search instrs mask).1 i, (members _).mpr ⟨i, inside, rfl⟩, ?_⟩
          simp only [ne_eq, decide_not, Bool.not_eq_true', decide_eq_false_iff_not]
          intro empty
          have length := opcodeLength empty (fun x member => same i inside ▸ foundInside same some x member)
          exact nothing (bitsEmpty.mp (Finset.card_eq_zero.mp length.symm))
        have whole : (DecodeTree.tree opcode (search instrs mask).2 (opcodeWidth keys) true (keys.map subtree)).gen =
            .group (binary opcode) (search instrs mask).2 (opcodeWidth keys) (keys.map (fun k => (subtree k).gen)) := by
          simp [DecodeTree.gen, genAllMap, Function.comp_def]
        have occupied (s : Opcode) (member : Option.some s ∈ keys) :
            instrs.filter (fun i => opcodeOf (search instrs mask).1 i = Option.some s) ≠ [] := by
          obtain ⟨i, inside, key⟩ := (members _).mp member
          exact List.ne_nil_of_mem (List.mem_filter.mpr ⟨inside, by simpa using key⟩)
        have below (s : Opcode) (member : Option.some s ∈ keys) :=
          ih (fun j inside => same j (List.mem_filter.mp inside).1) (occupied s member) (made s member)
        rw [needTree, whole]
        refine ⟨.group _ keys _ nothing members (fun s member => (below s member).2) (fun member => ?_)
          (fun s member => (below s member).1), rfl, rfl⟩
        obtain ⟨i, leaf⟩ := others member
        exact ⟨binary opcode, i, by rw [leaf]; rfl⟩

/- Every level takes bits from the mask, so the depth is enough for all of them: only the message is raised. -/
theorem buildEnds {fuel : ℕ} {opcode : Opcode} {e : BuildError} (same : ∀ i ∈ instrs, i.len = length) (enough : (bits mask).card < fuel)
    (failed : build fuel instrs mask opcode = .error e) : ∃ text, e = .sameOpcode text := by
  induction fuel generalizing instrs mask opcode with
  | zero => omega
  | succ fuel ih =>
      by_cases empty : instrs = []
      · simp [build, empty] at failed
      · by_cases nothing : (search instrs mask).1 = 0
        · by_cases clash : 1 < instrs.length
          · simp only [build, empty, nothing, clash, and_self, if_true, if_false] at failed
            exact ⟨_, (Except.error.inj failed).symm⟩
          · obtain ⟨i, rfl⟩ := singleInstr empty clash
            rw [buildLeaf nothing] at failed
            cases failed
        · simp only [build, empty, nothing, false_and, if_false] at failed
          obtain ⟨keys, -, members, groups⟩ := groupByCollect (opcodeOf (search instrs mask).1) instrs
          rw [groups] at failed
          obtain ⟨⟨k, group⟩, listed, error⟩ := mapMError (errorFirst failed)
          obtain ⟨k', member, pair⟩ := List.mem_map.mp listed
          cases pair
          have smaller : bits (mask &&& ~~~ (search instrs mask).1) ⊂ bits mask := by
            have spec : SearchSpec instrs mask := searchSpec same empty
            rw [bitsMinus]
            exact Finset.sdiff_ssubset spec.inside (Finset.nonempty_iff_ne_empty.mpr (fun none => nothing (bitsEmpty.mp none)))
          have fewer := Finset.card_lt_card smaller
          dsimp only at error
          split at error
          · cases error
          · exact ih (fun j inside => same j (List.mem_filter.mp inside).1) (by omega) error

end Built

section Walk

variable {active : Instr → Bool} {opcode value : ℕ} {keys : List (Option Opcode)} {item : Option Opcode → Item}

theorem opcodeWidthBound {n : ℕ} (lengths : ∀ s, some s ∈ keys → s.length = n) :
    opcodeWidth keys ≤ n ∧ (∀ s, some s ∈ keys → opcodeWidth keys = n) := by
  induction keys using List.reverseRecOn with
  | nil => simp [opcodeWidth]
  | append_singleton keys k ih =>
      obtain ⟨bound, reached⟩ := ih (fun s member => lengths s (by simp [member]))
      cases k with
      | none =>
          have same : opcodeWidth (keys ++ [none]) = opcodeWidth keys := by simp [opcodeWidth, List.foldl_append]
          rw [same]
          exact ⟨bound, fun s member => reached s (by simpa using member)⟩
      | some s =>
          have here : s.length = n := lengths s (by simp)
          have next : opcodeWidth (keys ++ [some s]) = n := by
            have unfolded : opcodeWidth (keys ++ [some s]) = if opcodeWidth keys < s.length then s.length else opcodeWidth keys := by
              rw [opcodeWidth, List.foldl_append]
              rfl
            rw [unfolded]
            split_ifs <;> omega
          exact ⟨next.le, fun _ _ => next⟩

theorem decodeGroupFind (plain : ∀ k ∈ keys, (item k).opcodeOthers = false) (other : Option (Option Instr)) :
    decodeOpcodeGroup active opcode value (keys.map item) other =
      match keys.find? (fun k => value = (item k).opcode) with
      | some k => decodeItem active opcode (item k)
      | none => other.getD none := by
  induction keys with
  | nil => simp [decodeOpcodeGroup]
  | cons k keys ih =>
      have here := plain k (by simp)
      have later := ih (fun k member => plain k (by simp [member]))
      rw [List.map_cons, decodeOpcodeGroup, List.find?_cons]
      by_cases equal : value = (item k).opcode
      · simp [equal, here]
      · simp [equal, here, later]

theorem decodeGroupCongr {opcode' : ℕ} {items : List Item}
    (same : ∀ i ∈ items, decodeItem active opcode i = decodeItem active opcode' i) (other : Option (Option Instr)) :
    decodeOpcodeGroup active opcode value items other = decodeOpcodeGroup active opcode' value items other := by
  induction items generalizing other with
  | nil => simp [decodeOpcodeGroup]
  | cons i items ih =>
      rw [decodeOpcodeGroup, decodeOpcodeGroup, same i (by simp), ih (fun j member => same j (by simp [member]))]

end Walk

end Gvsoc.Decoder
