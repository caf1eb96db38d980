import Gvsoc.DecodeBuilt

/-! When the walk of the tree finds for every opcode the instruction that it matches. -/
namespace Gvsoc.Decoder

section Spec

variable {i j : Instr} {opcode : ℕ}

def Instr.Matches (i : Instr) (opcode : ℕ) : Prop := ∀ bit b, i.fixed bit = some b → opcode.testBit bit = b

def Apart (i j : Instr) : Prop := ∀ opcode, ¬ (i.Matches opcode ∧ j.Matches opcode)

instance : Std.Symm Apart := ⟨fun _ _ apart opcode both => apart opcode both.symm⟩

def sample (i j : Instr) : ℕ :=
  Nat.ofBits (fun bit : Fin (max i.len j.len) => (i.fixed bit).getD ((j.fixed bit).getD false))

theorem testBitSample {x : ℕ} (inside : x < max i.len j.len) :
    (sample i j).testBit x = (i.fixed x).getD ((j.fixed x).getD false) := by
  rw [sample, Nat.testBit_ofBits_lt _ x inside]

theorem sampleMatches (i j : Instr) : i.Matches (sample i j) := by
  intro bit b fixed
  have inside := fixedInside fixed
  rw [testBitSample (by omega), fixed, Option.getD_some]

theorem apartDiffer (apart : Apart i j) : ∃ x, x ∈ i.fixedBits ∧ x ∈ j.fixedBits ∧ i.fixed x ≠ j.fixed x := by
  by_contra agree
  refine apart (sample i j) ⟨sampleMatches i j, fun bit b fixed => ?_⟩
  have inside := fixedInside fixed
  rw [testBitSample (by omega)]
  cases own : i.fixed bit with
  | none => simp [fixed]
  | some b' =>
      by_contra differ
      refine agree ⟨bit, memFixed.mpr (by simp [own]), memFixed.mpr (by simp [fixed]), ?_⟩
      simpa [own, fixed] using differ

theorem matchesOn : i.Matches opcode ↔ ∀ x ∈ i.fixedBits, i.fixed x = some (opcode.testBit x) := by
  constructor
  · intro agrees x member
    obtain ⟨b, value⟩ := Option.ne_none_iff_exists'.mp (memFixed.mp member)
    rw [value, agrees x b value]
  · intro agrees x b value
    have own := agrees x (memFixed.mpr (by simp [value]))
    rw [value] at own
    exact (Option.some.inj own).symm

end Spec

section Groups

variable {instrs group : List Instr} {mask m : Mask} {length : ℕ} {i j : Instr}

def Differ (mask : Mask) (i j : Instr) : Prop := ∃ x ∈ bits mask, x ∈ i.fixedBits ∧ x ∈ j.fixedBits ∧ i.fixed x ≠ j.fixed x

theorem differSymm (differ : Differ mask i j) : Differ mask j i := by
  obtain ⟨x, inside, left, right, other⟩ := differ
  exact ⟨x, inside, right, left, other.symm⟩

theorem differSome (differ : instrs.Pairwise (Differ mask)) (several : 1 < instrs.length) (member : i ∈ instrs) :
    bits mask ∩ i.fixedBits ≠ ∅ := by
  obtain ⟨j, pair⟩ : ∃ j, Differ mask i j := by
    cases differ with
    | nil => contradiction
    | @cons first rest before later =>
        rcases List.mem_cons.mp member with rfl | inside
        · obtain ⟨second, present⟩ := List.exists_mem_of_length_pos (by simpa using several)
          exact ⟨second, before second present⟩
        · exact ⟨first, differSymm (before i inside)⟩
  obtain ⟨x, inside, fixed, -⟩ := pair
  exact Finset.nonempty_iff_ne_empty.mp ⟨x, Finset.mem_inter.mpr ⟨inside, fixed⟩⟩

theorem searchFixed (same : ∀ i ∈ instrs, i.len = length) (some : instrs ≠ []) (differ : instrs.Pairwise (Differ mask)) :
    ∀ i ∈ instrs, bits (search instrs mask).1 ⊆ i.fixedBits :=
  (searchSpec same some).fixed (fun several _ member => differSome differ several member)

theorem groupDiffer {s : Opcode} (same : ∀ i ∈ instrs, i.len = length) (some : instrs ≠ []) (differ : instrs.Pairwise (Differ mask)) :
    (instrs.filter (fun i => opcodeOf (search instrs mask).1 i = Option.some s)).Pairwise
      (Differ (mask &&& ~~~ (search instrs mask).1)) := by
  refine (differ.filter _).imp_of_mem ?_
  rintro i j first second ⟨x, inside, left, right, other⟩
  obtain ⟨memberI, keyI⟩ := List.mem_filter.mp first
  obtain ⟨memberJ, keyJ⟩ := List.mem_filter.mp second
  refine ⟨x, ?_, left, right, other⟩
  rw [bitsMinus]
  refine Finset.mem_sdiff.mpr ⟨inside, fun looked => other ?_⟩
  exact opcodeSame (by simpa using keyI) (by simpa using keyJ) ((same i memberI).trans (same j memberJ).symm)
    (fun y member => same i memberI ▸ foundInside same some y member) x looked

inductive Considered : List Instr → Mask → List Instr → Mask → Prop where
  | here (instrs : List Instr) (mask : Mask) : Considered instrs mask instrs mask
  | split {instrs group : List Instr} {mask m : Mask} (s : Opcode)
      (later : Considered (instrs.filter (fun i => opcodeOf (search instrs mask).1 i = some s)) (mask &&& ~~~ (search instrs mask).1) group m) :
      Considered instrs mask group m

theorem consideredSublist (considered : Considered instrs mask group m) : group.Sublist instrs := by
  induction considered with
  | here => exact .refl _
  | split s later ih => exact ih.trans List.filter_sublist

end Groups

section Paths

variable {instrs : List Instr} {mask : Mask} {length : ℕ} {i : Instr} {path : List Mask}

inductive Path (i : Instr) : List Instr → Mask → List Mask → Prop where
  | leaf {mask : Mask} (nothing : bits mask ∩ i.fixedBits = ∅) : Path i [i] mask []
  | step {instrs : List Instr} {mask : Mask} {s : Opcode} {path : List Mask} (found : (search instrs mask).1 ≠ 0)
      (member : i ∈ instrs) (key : opcodeOf (search instrs mask).1 i = some s)
      (later : Path i (instrs.filter (fun j => opcodeOf (search instrs mask).1 j = some s)) (mask &&& ~~~ (search instrs mask).1) path) :
      Path i instrs mask ((search instrs mask).1 :: path)

theorem pathBits (onPath : Path i instrs mask path) (same : ∀ i ∈ instrs, i.len = length) :
    (∀ m ∈ path, bits m ⊆ bits mask ∩ i.fixedBits) ∧ path.Pairwise (fun m m' => Disjoint (bits m) (bits m')) ∧
      ∀ x ∈ bits mask ∩ i.fixedBits, ∃ m ∈ path, x ∈ bits m := by
  induction onPath with
  | leaf nothing =>
      refine ⟨by simp, .nil, fun x member => ?_⟩
      rw [nothing] at member
      contradiction
  | @step instrs mask s path found member key later ih =>
      have any : instrs ≠ [] := List.ne_nil_of_mem member
      obtain ⟨inside, apart, covers⟩ := ih (fun j inside => same j (List.mem_filter.mp inside).1)
      have spec : SearchSpec instrs mask := searchSpec same any
      have fixed := opcodeFixed key (fun x inM => same i member ▸ foundInside same any x inM)
      rw [bitsMinus] at inside covers
      refine ⟨?_, ?_, ?_⟩
      · rw [List.forall_mem_cons]
        refine ⟨fun x inM => Finset.mem_inter.mpr ⟨spec.inside inM, fixed inM⟩, fun m inPath x inM => ?_⟩
        obtain ⟨rest, own⟩ := Finset.mem_inter.mp (inside m inPath inM)
        exact Finset.mem_inter.mpr ⟨(Finset.mem_sdiff.mp rest).1, own⟩
      · refine .cons (fun m inPath => ?_) apart
        rw [Finset.disjoint_right]
        intro x inM
        exact (Finset.mem_sdiff.mp (Finset.mem_inter.mp (inside m inPath inM)).1).2
      · intro x member'
        obtain ⟨inMask, own⟩ := Finset.mem_inter.mp member'
        by_cases looked : x ∈ bits (search instrs mask).1
        · exact ⟨_, by simp, looked⟩
        · obtain ⟨m, inPath, inM⟩ := covers x (Finset.mem_inter.mpr ⟨Finset.mem_sdiff.mpr ⟨inMask, looked⟩, own⟩)
          exact ⟨m, by simp [inPath], inM⟩

end Paths

section Reach

variable {instrs : List Instr} {mask : Mask} {item : Item} {length : ℕ} {active : Instr → Bool} {opcode : ℕ} {i j : Instr}

theorem searchNil (mask : Mask) : (search [] mask).1 = 0 := by
  simp [search, findCommon, currentMask]

theorem decodeGroup (c : ℕ) (active : Instr → Bool) (opcode : ℕ) {keys : List (Option Opcode)} {items : Option Opcode → Item}
    (same : ∀ i ∈ instrs, i.len = length) (any : instrs ≠ []) (differ : instrs.Pairwise (Differ mask))
    (found : (search instrs mask).1 ≠ 0) (members : ∀ k, k ∈ keys ↔ ∃ i ∈ instrs, opcodeOf (search instrs mask).1 i = k)
    (labels : ∀ s, some s ∈ keys → (items (some s)).opcode = binary s ∧ (items (some s)).opcodeOthers = false) :
    (∀ s, some s ∈ keys → binary s = readField (search instrs mask).1 opcode →
      decodeItem active opcode (.group c (search instrs mask).2 (opcodeWidth keys) (keys.map items)) =
        decodeItem active opcode (items (some s))) ∧
      ((∀ s, some s ∈ keys → binary s ≠ readField (search instrs mask).1 opcode) →
        decodeItem active opcode (.group c (search instrs mask).2 (opcodeWidth keys) (keys.map items)) = none) := by
  have keyed (k : Option Opcode) (member : k ∈ keys) : ∃ s, k = some s := by
    obtain ⟨i, inside, key⟩ := (members k).mp member
    obtain ⟨s, own⟩ := opcodeExists (searchFixed same any differ i inside)
    exact ⟨s, key.symm.trans own⟩
  have plain (k : Option Opcode) (member : k ∈ keys) : (items k).opcodeOthers = false := by
    obtain ⟨s, rfl⟩ := keyed k member
    exact (labels s member).2
  have lengths (s : Opcode) (member : some s ∈ keys) : s.length = (bits (search instrs mask).1).card := by
    obtain ⟨i, inside, key⟩ := (members _).mp member
    exact opcodeLength key (fun x inM => same i inside ▸ foundInside same any x inM)
  have width : opcodeWidth keys = (bits (search instrs mask).1).card := by
    obtain ⟨i, inside⟩ := List.exists_mem_of_ne_nil _ any
    have listed := (members _).mpr ⟨i, inside, rfl⟩
    obtain ⟨s, key⟩ := keyed _ listed
    exact (opcodeWidthBound lengths).2 s (key ▸ listed)
  have first : (search instrs mask).2 = lowest (bits (search instrs mask).1) := by
    obtain ⟨least, lower⟩ := (searchSpec same any).first found
    exact (lowestEq least lower).symm
  rw [decodeItem, width, first, ← readField, decodeGroupFind plain]
  cases taken : keys.find? (fun k => readField (search instrs mask).1 opcode = (items k).opcode) with
  | none =>
      refine ⟨fun s listed value => ?_, fun _ => rfl⟩
      have absent := List.find?_eq_none.mp taken (some s) listed
      simp [(labels s listed).1, value] at absent
  | some k =>
      have listed := List.mem_of_find?_eq_some taken
      obtain ⟨s, rfl⟩ := keyed k listed
      have value : readField (search instrs mask).1 opcode = binary s := by
        rw [← (labels s listed).1]
        simpa using List.find?_some taken
      refine ⟨fun s' listed' value' => ?_, fun absent => absurd value.symm (absent s listed)⟩
      obtain rfl := binaryInj ((lengths s listed).trans (lengths s' listed').symm) (value.symm.trans value'.symm)
      rfl

theorem pathReach (built : Built instrs mask item) (same : ∀ i ∈ instrs, i.len = length) (differ : instrs.Pairwise (Differ mask)) :
    (∀ active opcode j, decodeItem active opcode item = some j → j ∈ instrs) ∧
      ∀ i ∈ instrs, ∃ path, Path i instrs mask path ∧ ∀ active opcode, decodeItem active opcode item = some i ↔
        active i = true ∧ ∀ m ∈ path, ∃ s, opcodeOf m i = some s ∧ binary s = readField m opcode := by
  induction built with
  | @leaf mask instr c nothing =>
      refine ⟨fun active opcode j => ?_, fun i member => ?_⟩
      · simp only [decodeItem, decodeInsn]
        split_ifs <;> simp [eq_comm]
      · obtain rfl := List.mem_singleton.mp member
        refine ⟨[], .leaf nothing, fun active opcode => ?_⟩
        simp [decodeItem, decodeInsn]
  | @group instrs mask c keys items found members labels others subtrees ih =>
      have any : instrs ≠ [] := by
        rintro rfl
        exact found (searchNil mask)
      have below (s : Opcode) (listed : some s ∈ keys) :=
        ih s listed (fun j inside => same j (List.mem_filter.mp inside).1) (groupDiffer same any differ)
      have walk (active : Instr → Bool) (opcode : ℕ) := decodeGroup c active opcode same any differ found members labels
      -- what the walk ends at is in the group that it went into
      have ended (active : Instr → Bool) (opcode : ℕ) (j : Instr)
          (ends : decodeItem active opcode (.group c (search instrs mask).2 (opcodeWidth keys) (keys.map items)) = some j) :
          ∃ s, binary s = readField (search instrs mask).1 opcode ∧ decodeItem active opcode (items (some s)) = some j ∧
            j ∈ instrs ∧ opcodeOf (search instrs mask).1 j = some s := by
        by_cases known : ∃ s, some s ∈ keys ∧ binary s = readField (search instrs mask).1 opcode
        · obtain ⟨s, listed, value⟩ := known
          rw [(walk active opcode).1 s listed value] at ends
          have inGroup := List.mem_filter.mp ((below s listed).1 active opcode j ends)
          exact ⟨s, value, ends, inGroup.1, by simpa using inGroup.2⟩
        · rw [(walk active opcode).2 (fun s listed value => known ⟨s, listed, value⟩)] at ends
          contradiction
      refine ⟨fun active opcode j ends => ?_, fun i member => ?_⟩
      · obtain ⟨s, -, -, inside, -⟩ := ended active opcode j ends
        exact inside
      · obtain ⟨s, key⟩ := opcodeExists (searchFixed same any differ i member)
        have listed := (members (some s)).mpr ⟨i, member, key⟩
        obtain ⟨path, onPath, reaches⟩ := (below s listed).2 i (List.mem_filter.mpr ⟨member, by simpa using key⟩)
        refine ⟨(search instrs mask).1 :: path, .step found member key onPath, fun active opcode => ?_⟩
        rw [List.forall_mem_cons]
        constructor
        · intro ends
          obtain ⟨s', value, later, -, key'⟩ := ended active opcode i ends
          obtain rfl : s = s' := Option.some.inj (key.symm.trans key')
          obtain ⟨on, rest⟩ := (reaches active opcode).mp later
          exact ⟨on, ⟨s, key, value⟩, rest⟩
        · rintro ⟨on, ⟨s', key', value⟩, rest⟩
          obtain rfl : s = s' := Option.some.inj (key.symm.trans key')
          rw [(walk active opcode).1 s listed value]
          exact (reaches active opcode).mpr ⟨on, rest⟩

end Reach

section Exact

variable {instrs group : List Instr} {mask m : Mask} {item : Item} {length : ℕ} {i j : Instr} {path : List Mask}

def Decodes (item : Item) (instrs : List Instr) : Prop :=
  ∀ (active : Instr → Bool) (opcode : ℕ),
    (∀ i ∈ instrs, i.Matches opcode → decodeOpcode active [item] opcode = decodeInsn active i) ∧
      ((∀ i ∈ instrs, ¬ i.Matches opcode) → decodeOpcode active [item] opcode = none)

def WithinMask (instrs : List Instr) : Prop := ∀ i ∈ instrs, ∀ x, 32 ≤ x → i.fixed x = none

/- Where the first search finds nothing, the bits that the second one finds are consecutive. -/
def WithoutGaps (instrs : List Instr) (mask : Mask) : Prop :=
  ∀ group m, Considered instrs mask group m → 1 < group.length → (findCommon group m).1 = 0 → Consecutive (findDefined group m 0).1

theorem decodeSingle (active : Instr → Bool) (opcode : ℕ) : decodeOpcode active [item] opcode = decodeItem active opcode item := by
  cases found : decodeItem active opcode item <;> simp [decodeOpcode, found]

theorem pathConsecutive (onPath : Path i instrs mask path) (same : ∀ i ∈ instrs, i.len = length) (gaps : WithoutGaps instrs mask) :
    ∀ m ∈ path, Consecutive m := by
  induction onPath with
  | leaf nothing => simp
  | @step instrs mask s path found member key later ih =>
      rw [List.forall_mem_cons]
      refine ⟨searchConsecutive same (List.ne_nil_of_mem member) (gaps instrs mask (.here instrs mask)), ?_⟩
      exact ih (fun j inside => same j (List.mem_filter.mp inside).1)
        (fun group m considered => gaps group m (.split s considered))

theorem consideredOnPath (considered : Considered instrs mask group m) (onPath : Path i instrs mask path) (member : i ∈ group)
    (several : 1 < group.length) : (search group m).1 ∈ path := by
  induction considered generalizing path with
  | here instrs mask =>
      cases onPath with
      | leaf nothing => simp at several
      | step found inside key later => simp
  | @split instrs group mask m s later ih =>
      have inside := (consideredSublist later).mem member
      cases onPath with
      | leaf nothing =>
          have few := ((consideredSublist later).trans List.filter_sublist).length_le
          simp only [List.length_singleton] at few
          omega
      | @step _ _ s' path found inInstrs key onPath =>
          have own : opcodeOf (search instrs mask).1 i = some s := by simpa using (List.mem_filter.mp inside).2
          obtain rfl : s = s' := Option.some.inj (own.symm.trans key)
          exact List.mem_cons_of_mem _ (ih onPath member several)

theorem decodeLow (built : Built instrs mask item) (same : ∀ i ∈ instrs, i.len = length) {opcode opcode' : ℕ}
    (agree : ∀ x < 32, opcode.testBit x = opcode'.testBit x) (active : Instr → Bool) :
    decodeItem active opcode item = decodeItem active opcode' item := by
  induction built with
  | leaf c nothing => simp [decodeItem]
  | @group instrs mask c keys items found members labels others subtrees ih =>
      have any : instrs ≠ [] := by
        rintro rfl
        exact found (searchNil mask)
      obtain ⟨-, lower⟩ := (searchSpec same any).first found
      have width : opcodeWidth keys ≤ (bits (search instrs mask).1).card := by
        refine (opcodeWidthBound (fun s listed => ?_)).1
        obtain ⟨i, inside, key⟩ := (members _).mp listed
        exact opcodeLength key (fun x inM => same i inside ▸ foundInside same any x inM)
      have room : (bits (search instrs mask).1).card ≤ 32 - (search instrs mask).2 := by
        have within : bits (search instrs mask).1 ⊆ Finset.Ico (search instrs mask).2 32 :=
          fun x member => Finset.mem_Ico.mpr ⟨lower x member, bitsBelow member⟩
        simpa using Finset.card_le_card within
      have field : (opcode >>> (search instrs mask).2) &&& (2 ^ opcodeWidth keys - 1) =
          (opcode' >>> (search instrs mask).2) &&& (2 ^ opcodeWidth keys - 1) := by
        apply Nat.eq_of_testBit_eq
        intro k
        simp only [Nat.testBit_and, Nat.testBit_shiftRight, Nat.testBit_two_pow_sub_one]
        by_cases inside : k < opcodeWidth keys
        · rw [agree _ (by omega)]
        · simp [inside]
      rw [decodeItem, decodeItem, field]
      refine decodeGroupCongr (fun entry listed => ?_) none
      obtain ⟨k, member, rfl⟩ := List.mem_map.mp listed
      cases k with
      | none =>
          obtain ⟨c', i, leaf⟩ := others member
          simp [leaf, decodeItem]
      | some s => exact ih s member (fun j inside => same j (List.mem_filter.mp inside).1)

def flipped (opcode x : ℕ) : ℕ := opcode ^^^ 2 ^ x

theorem flippedOther {opcode x y : ℕ} (other : y ≠ x) : (flipped opcode x).testBit y = opcode.testBit y := by
  simp [flipped, Nat.testBit_xor, Ne.symm other]

theorem flippedMismatch {opcode x : ℕ} (fits : i.Matches opcode) (fixed : x ∈ i.fixedBits) : ¬ i.Matches (flipped opcode x) := by
  intro still
  obtain ⟨b, value⟩ := Option.ne_none_iff_exists'.mp (memFixed.mp fixed)
  have before := fits x b value
  have after := still x b value
  rw [flipped, Nat.testBit_xor, Nat.testBit_two_pow_self, before] at after
  cases b <;> simp at after

theorem decodedMatches (decodes : Decodes item instrs) {opcode : ℕ}
    (found : decodeItem (fun _ => true) opcode item = some i) : i.Matches opcode := by
  obtain ⟨matched, unmatched⟩ := decodes (fun _ => true) opcode
  rw [decodeSingle, found] at matched unmatched
  by_cases known : ∃ j ∈ instrs, j.Matches opcode
  · obtain ⟨j, member, fits⟩ := known
    have same : i = j := by simpa [decodeInsn] using matched j member fits
    rwa [same]
  · have none := unmatched (fun j member fits => known ⟨j, member, fits⟩)
    contradiction

theorem exactWithinMask (built : Built instrs mask item) (same : ∀ i ∈ instrs, i.len = length) (decodes : Decodes item instrs) :
    WithinMask instrs := by
  intro i member x high
  by_contra fixed
  have fits := sampleMatches i i
  have found : decodeItem (fun _ => true) (sample i i) item = some i := by
    rw [← decodeSingle, (decodes _ _).1 i member fits]
    rfl
  -- the walk does not see that the bit was changed
  have agree (y : ℕ) (low : y < 32) : (flipped (sample i i) x).testBit y = (sample i i).testBit y := flippedOther (by omega)
  rw [← decodeLow built same agree] at found
  exact flippedMismatch fits (memFixed.mpr fixed) (decodedMatches decodes found)

theorem exactWithoutGaps (built : Built instrs mask item) (same : ∀ i ∈ instrs, i.len = length)
    (differ : instrs.Pairwise (Differ mask)) (decodes : Decodes item instrs) : WithoutGaps instrs mask := by
  intro group m considered several first
  by_contra gap
  obtain ⟨i, member⟩ := List.exists_mem_of_length_pos (Nat.lt_of_succ_lt several)
  have inInstrs := (consideredSublist considered).mem member
  obtain ⟨path, onPath, reaches⟩ := (pathReach built same differ).2 i inInstrs
  obtain ⟨inside, apart, -⟩ := pathBits onPath same
  have looked := consideredOnPath considered onPath member several
  have second : search group m = findDefined group m (findCommon group m).2 := if_pos ⟨first, several⟩
  have notField : fieldOf (search group m).1 ≠ bits (search group m).1 := by
    intro field
    have consecutive := fieldConsecutive field
    rw [second] at consecutive
    exact gap consecutive
  -- a bit that no field on the path has
  obtain ⟨bits', listed, t, inBits, unread⟩ := Fields.unread (path.map bits) lowest (fun _ _ => lowestLower)
    (by
      intro s first s' second other
      obtain ⟨m, inPath, rfl⟩ := List.mem_map.mp first
      obtain ⟨m', inPath', rfl⟩ := List.mem_map.mp second
      have symmetric : Std.Symm (fun m m' : Mask => Disjoint (bits m) (bits m')) := ⟨fun _ _ disjoint => disjoint.symm⟩
      exact apart.forall inPath inPath' (fun equal => other (by rw [equal])))
    ⟨_, List.mem_map_of_mem looked, notField⟩
  obtain ⟨m', inPath, rfl⟩ := List.mem_map.mp listed
  have fixed : t ∈ i.fixedBits := (Finset.mem_inter.mp (inside m' inPath inBits)).2
  have fits := sampleMatches i i
  have found : decodeItem (fun _ => true) (sample i i) item = some i := by
    rw [← decodeSingle, (decodes _ _).1 i inInstrs fits]
    rfl
  obtain ⟨on, fields⟩ := (reaches _ _).mp found
  refine flippedMismatch fits fixed (decodedMatches decodes ((reaches _ _).mpr ⟨on, fun m'' inPath' => ?_⟩))
  obtain ⟨s, key, value⟩ := fields m'' inPath'
  refine ⟨s, key, value.trans (readAgree (fun x read => ?_))⟩
  have other : x ≠ t := fun equal => unread _ (List.mem_map_of_mem inPath') (equal ▸ read)
  exact (flippedOther other).symm

theorem reachesMatch (built : Built instrs mask item) (same : ∀ i ∈ instrs, i.len = length) (differ : instrs.Pairwise (Differ mask))
    (whole : ∀ i ∈ instrs, i.fixedBits ⊆ bits mask) (gaps : WithoutGaps instrs mask) (active : Instr → Bool) (opcode : ℕ)
    (member : i ∈ instrs) : decodeItem active opcode item = some i ↔ active i = true ∧ i.Matches opcode := by
  obtain ⟨path, onPath, reaches⟩ := (pathReach built same differ).2 i member
  obtain ⟨inside, -, covers⟩ := pathBits onPath same
  have consecutive := pathConsecutive onPath same gaps
  have below (m : Mask) (inPath : m ∈ path) (x : ℕ) (inM : x ∈ bits m) : x < i.len :=
    fixedBelow (Finset.mem_inter.mp (inside m inPath inM)).2
  rw [reaches, matchesOn]
  refine and_congr_right (fun _ => ⟨fun fields x fixed => ?_, fun agrees m inPath => ?_⟩)
  · obtain ⟨m, inPath, inM⟩ := covers x (Finset.mem_inter.mpr ⟨whole i member fixed, fixed⟩)
    obtain ⟨s, key, value⟩ := fields m inPath
    exact (readMatches (consecutive m inPath) (below m inPath) key).mp value x inM
  · have fixed : bits m ⊆ i.fixedBits := fun x inM => (Finset.mem_inter.mp (inside m inPath inM)).2
    obtain ⟨s, key⟩ := opcodeExists fixed
    exact ⟨s, key, (readMatches (consecutive m inPath) (below m inPath) key).mpr (fun x inM => agrees x (fixed inM))⟩

theorem matchesDecodes (built : Built instrs mask item) (same : ∀ i ∈ instrs, i.len = length) (apart : instrs.Pairwise Apart)
    (differ : instrs.Pairwise (Differ mask)) (whole : ∀ i ∈ instrs, i.fixedBits ⊆ bits mask) (gaps : WithoutGaps instrs mask) :
    Decodes item instrs := by
  intro active opcode
  have reaches (i : Instr) (member : i ∈ instrs) := reachesMatch built same differ whole gaps active opcode member
  have inside := (pathReach built same differ).1 active opcode
  rw [decodeSingle]
  refine ⟨fun i member fits => ?_, fun nothing => ?_⟩
  · cases ends : decodeItem active opcode item with
    | none =>
        have off : ¬ active i = true := fun on => by simp [(reaches i member).mpr ⟨on, fits⟩] at ends
        simp [decodeInsn, off]
    | some j =>
        obtain ⟨on, fits'⟩ := (reaches j (inside j ends)).mp ends
        have equal : i = j := by
          by_contra other
          have never := apart.forall member (inside j ends) other
          exact never opcode ⟨fits, fits'⟩
        subst equal
        simp [decodeInsn, on]
  · cases ends : decodeItem active opcode item with
    | none => rfl
    | some j => exact absurd ((reaches j (inside j ends)).mp ends).2 (nothing j (inside j ends))

theorem allBits {x : ℕ} : x ∈ bits 0xffffffff ↔ x < 32 := by
  have all : (0xffffffff : Mask) = BitVec.allOnes 32 := rfl
  rw [memBits, all, BitVec.getLsbD_allOnes, decide_eq_true_eq]

/- The construction fails with its message or gives a tree, which decodes all opcodes if and only if no encoding fixes a bit
behind the mask and the second search never leaves a gap. -/
theorem decodesExactly (any : instrs ≠ []) (same : ∀ i ∈ instrs, i.len = length) (apart : instrs.Pairwise Apart) :
    (∃ text, dumpTree instrs = .error (.sameOpcode text)) ∨
      ∃ item, dumpTree instrs = .ok item ∧ (Decodes item instrs ↔ WithinMask instrs ∧ WithoutGaps instrs 0xffffffff) := by
  have enough : (bits 0xffffffff).card < 33 := by
    have few : bits 0xffffffff ⊆ Finset.range 32 := fun x member => Finset.mem_range.mpr (bitsBelow member)
    have count := Finset.card_le_card few
    rw [Finset.card_range] at count
    omega
  cases made : build 33 instrs 0xffffffff [false] with
  | error e =>
      obtain ⟨text, rfl⟩ := buildEnds same enough made
      refine .inl ⟨text, ?_⟩
      rw [dumpTree, if_neg any, made]
      rfl
  | ok tree =>
      obtain ⟨built, -⟩ := buildBuilt same any made
      refine .inr ⟨tree.gen, ?_, ?_⟩
      · rw [dumpTree, if_neg any, made]
        rfl
      have differ (within : WithinMask instrs) : instrs.Pairwise (Differ 0xffffffff) := by
        refine apart.imp_of_mem (fun {i j} member _ never => ?_)
        obtain ⟨x, left, right, other⟩ := apartDiffer never
        refine ⟨x, allBits.mpr ?_, left, right, other⟩
        by_contra high
        exact memFixed.mp left (within i member x (by omega))
      constructor
      · intro decodes
        have within := exactWithinMask built same decodes
        exact ⟨within, exactWithoutGaps built same (differ within) decodes⟩
      · rintro ⟨within, gaps⟩
        refine matchesDecodes built same apart (differ within) (fun i member x fixed => allBits.mpr ?_) gaps
        by_contra high
        exact memFixed.mp fixed (within i member x (by omega))

theorem withoutGapsSplit (here : 1 < instrs.length → (findCommon instrs mask).1 = 0 → Consecutive (findDefined instrs mask 0).1)
    (below : ∀ s, WithoutGaps (instrs.filter (fun i => opcodeOf (search instrs mask).1 i = some s)) (mask &&& ~~~ (search instrs mask).1)) :
    WithoutGaps instrs mask := by
  intro group m considered
  cases considered with
  | here => exact here
  | split s later => exact below s group m later

theorem withoutGapsFew (few : instrs.length ≤ 1) : WithoutGaps instrs mask := by
  intro group m considered several
  have less := (consideredSublist considered).length_le
  omega

theorem withoutGapsDistinct (here : 1 < instrs.length → (findCommon instrs mask).1 = 0 → Consecutive (findDefined instrs mask 0).1)
    (distinct : (instrs.map (opcodeOf (search instrs mask).1)).Nodup) : WithoutGaps instrs mask := by
  refine withoutGapsSplit here (fun s => withoutGapsFew ?_)
  have once := List.nodup_iff_count_le_one.mp distinct (some s)
  rw [List.count_eq_countP, List.countP_map, List.countP_eq_length_filter] at once
  simpa [Function.comp_def, ← beq_eq_decide] using once

theorem fixedWithin (short : ∀ i ∈ instrs, i.len ≤ 32) : WithinMask instrs := by
  intro i member x high
  by_contra fixed
  have inside := fixedBelow (memFixed.mpr fixed)
  have bound := short i member
  omega

theorem apartAt (x : ℕ) (b : Bool) (left : i.fixed x = some b) (right : j.fixed x = some (!b)) : Apart i j := by
  rintro opcode ⟨fitsI, fitsJ⟩
  have first := fitsI x b left
  rw [fitsJ x (!b) right] at first
  cases b <;> contradiction

def load : Instr := Instr.new "load" ['-', '-', '-', '-', '-', '0', '0', '0']
def storeByte : Instr := Instr.new "storeByte" ['-', '-', '0', '-', '-', '0', '0', '1']
def storeWord : Instr := Instr.new "storeWord" ['-', '-', '1', '-', '-', '0', '0', '1']

def threeInstrs : List Instr := [load, storeByte, storeWord]

theorem decodesExactlyThree : ∃ item, dumpTree threeInstrs = .ok item ∧ Decodes item threeInstrs := by
  have apart : threeInstrs.Pairwise Apart := by
    refine .cons ?_ (.cons ?_ (.cons (by simp) .nil))
    · intro other member
      rcases List.mem_cons.mp member with rfl | last
      · exact apartAt 0 false rfl rfl
      · rw [List.mem_singleton.mp last]
        exact apartAt 0 false rfl rfl
    · intro other last
      rw [List.mem_singleton.mp last]
      exact apartAt 5 false rfl rfl
  have gaps : WithoutGaps threeInstrs 0xffffffff := by
    refine withoutGapsSplit (fun _ nothing => absurd nothing (by decide +kernel)) (fun s => ?_)
    by_cases stores : s = [false, false, true]
    · subst stores
      have group : threeInstrs.filter (fun i => opcodeOf (search threeInstrs 0xffffffff).1 i = some [false, false, true]) =
          [storeByte, storeWord] := by decide +kernel
      have rest : (0xffffffff : Mask) &&& ~~~ (search threeInstrs 0xffffffff).1 = 0xfffffff8 := by decide +kernel
      rw [group, rest]
      exact withoutGapsDistinct (fun _ nothing => absurd nothing (by decide +kernel)) (by decide +kernel)
    · refine withoutGapsFew ?_
      have first : opcodeOf (search threeInstrs 0xffffffff).1 storeByte = some [false, false, true] := by decide +kernel
      have second : opcodeOf (search threeInstrs 0xffffffff).1 storeWord = some [false, false, true] := by decide +kernel
      generalize (search threeInstrs 0xffffffff).1 = m at first second ⊢
      simp only [threeInstrs, List.filter_cons, first, second, Option.some.injEq, Ne.symm stores, decide_false, List.filter_nil]
      split <;> simp
  have same : ∀ i ∈ threeInstrs, i.len = 8 := by decide
  rcases decodesExactly (by simp [threeInstrs]) same apart with ⟨text, failed⟩ | ⟨item, made, exact⟩
  · have fine : (dumpTree threeInstrs).isOk = true := by decide +kernel
    rw [failed] at fine
    exact absurd fine (by simp [Except.isOk, Except.toBool])
  · exact ⟨item, made, exact.mpr ⟨fixedWithin (by decide), gaps⟩⟩

/- The first search takes bit 0 of the first instruction, which the second one leaves free; the bits 2 and 4 that both of them
fix are then read as the bits 2 and 3. -/
def first : Instr := Instr.new "first" ['-', '-', '-', '0', '-', '0', '-', '0']
def second : Instr := Instr.new "second" ['-', '-', '-', '0', '-', '1', '-', '-']

def gapInstrs : List Instr := [first, second]

def gapItem : Item := (dumpTree gapInstrs).toOption.getD (.group 0 0 0 [])

theorem gapMisread :
    (∀ i ∈ gapInstrs, i.len = 8) ∧ gapInstrs.Pairwise Apart ∧ dumpTree gapInstrs = .ok gapItem ∧
      second.Matches 0x0c ∧ decodeOpcode (fun _ => true) [gapItem] 0x0c = none ∧
      ¬ second.Matches 0x14 ∧ decodeOpcode (fun _ => true) [gapItem] 0x14 = some second ∧ ¬ Decodes gapItem gapInstrs := by
  have fits : second.Matches 0x0c := by
    rw [matchesOn]
    decide
  have lost : decodeOpcode (fun _ => true) [gapItem] 0x0c = none := by decide +kernel
  have made : dumpTree gapInstrs = .ok gapItem := by
    have fine : (dumpTree gapInstrs).isOk = true := by decide +kernel
    unfold gapItem
    cases result : dumpTree gapInstrs with
    | error e =>
        rw [result] at fine
        exact absurd fine (by simp [Except.isOk, Except.toBool])
    | ok item => rfl
  refine ⟨by decide, .cons ?_ (.cons (by simp) .nil), made, fits, lost, ?_, by decide +kernel, fun decodes => ?_⟩
  · intro other member
    rw [List.mem_singleton.mp member]
    exact apartAt 2 false rfl rfl
  · rw [matchesOn]
    decide
  · have found := (decodes (fun _ => true) 0x0c).1 second (by decide) fits
    rw [lost] at found
    contradiction

end Exact

end Gvsoc.Decoder
