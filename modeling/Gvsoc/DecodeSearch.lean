import Gvsoc.DecodeTree
import Gvsoc.Fields

/-! What the two searches of the generator find, in terms of the bits that the encodings fix. -/
namespace Gvsoc.Decoder

section Bits

def bits (m : Mask) : Finset ℕ := (Finset.range 32).filter (fun b => m.getLsbD b = true)

def Instr.fixedBits (i : Instr) : Finset ℕ := (Finset.range i.len).filter (fun b => i.fixed b ≠ none)

variable {m m' : Mask} {i : Instr} {x : ℕ}

@[simp] theorem memBits : x ∈ bits m ↔ m.getLsbD x = true := by
  simp only [bits, Finset.mem_filter, Finset.mem_range, and_iff_right_iff_imp]
  exact BitVec.lt_of_getLsbD

theorem fixedInside {b : Bool} (fixed : i.fixed x = some b) : x < i.len := by
  by_contra outside
  have none : i.encoding[x]? = none := List.getElem?_eq_none (by simpa [Instr.len] using outside)
  simp [Instr.fixed, none] at fixed

@[simp] theorem memFixed : x ∈ i.fixedBits ↔ i.fixed x ≠ none := by
  simp only [Instr.fixedBits, Finset.mem_filter, Finset.mem_range, and_iff_right_iff_imp]
  intro fixed
  obtain ⟨b, value⟩ := Option.ne_none_iff_exists'.mp fixed
  exact fixedInside value

theorem fixedBelow (member : x ∈ i.fixedBits) : x < i.len := Finset.mem_range.mp (Finset.mem_filter.mp member).1

theorem bitsBelow (member : x ∈ bits m) : x < 32 := Finset.mem_range.mp (Finset.mem_filter.mp member).1

theorem bitsZero : bits 0 = ∅ := by
  ext x
  simp [memBits]

theorem bitsInj (same : bits m = bits m') : m = m' := by
  apply BitVec.eq_of_getLsbD_eq
  intro x _
  have either := Finset.ext_iff.mp same x
  rw [memBits, memBits] at either
  exact Bool.eq_iff_iff.mpr either

theorem bitsEmpty : bits m = ∅ ↔ m = 0 := by
  constructor
  · intro empty
    exact bitsInj (empty.trans bitsZero.symm)
  · rintro rfl
    exact bitsZero

theorem bitsAnd (m m' : Mask) : bits (m &&& m') = bits m ∩ bits m' := by
  ext x
  simp

theorem bitsOr (m m' : Mask) : bits (m ||| m') = bits m ∪ bits m' := by
  ext x
  simp

theorem bitsMinus (m m' : Mask) : bits (m &&& ~~~ m') = bits m \ bits m' := by
  ext x
  simp only [memBits, BitVec.getLsbD_and, BitVec.getLsbD_not, Bool.and_eq_true, decide_eq_true_eq, Bool.not_eq_eq_eq_not,
    Bool.not_true, Finset.mem_sdiff, Bool.not_eq_true]
  constructor
  · rintro ⟨inside, -, out⟩
    exact ⟨inside, out⟩
  · rintro ⟨inside, out⟩
    exact ⟨inside, BitVec.lt_of_getLsbD inside, out⟩

theorem bitsMask {b : ℕ} (small : b < 32) : bits (bitMask b) = {b} := by
  ext x
  simp [bitMask, BitVec.getLsbD_twoPow, small, eq_comm]

theorem bitsBefore (size : ℕ) : bits (bitMask size - 1) = Finset.range size ∩ Finset.range 32 := by
  ext x
  simp only [memBits, Finset.mem_inter, Finset.mem_range]
  by_cases small : size < 32
  · have value : (bitMask size - 1).toNat = 2 ^ size - 1 := by
      have fits : 2 ^ size < 2 ^ 32 := Nat.pow_lt_pow_right (by omega) small
      have some : 0 < 2 ^ size := Nat.two_pow_pos size
      have whole : (bitMask size).toNat = 2 ^ size := BitVec.toNat_twoPow_of_lt small
      have one : BitVec.toNat (1 : Mask) = 1 := rfl
      rw [BitVec.toNat_sub, whole, one]
      omega
    rw [← BitVec.testBit_toNat, value, Nat.testBit_two_pow_sub_one]
    simp only [decide_eq_true_eq]
    omega
  · have zero : bitMask size = 0 := BitVec.eq_of_toNat_eq (BitVec.toNat_twoPow_of_le (by omega))
    have all : (bitMask size - 1) = BitVec.allOnes 32 := by
      rw [zero]
      decide
    rw [all, BitVec.getLsbD_allOnes]
    simp only [decide_eq_true_eq]
    omega

end Bits

section Masks

variable {instrs : List Instr} {i : Instr} {mask current start : Mask} {length : ℕ}

theorem addFixedBits (i : Instr) (size : ℕ) (current start : Mask) :
    bits (addFixed i size current start) = bits start ∪ bits current ∩ i.fixedBits ∩ Finset.range size := by
  induction size with
  | zero => simp [addFixed]
  | succ size ih =>
      have unfolded : addFixed i (size + 1) current start =
          if current.getLsbD size = false then addFixed i size current start
          else if (i.fixed size).isSome then addFixed i size current start ||| bitMask size else addFixed i size current start := by
        simp [addFixed, List.range_succ, List.foldl_append]
      have more : Finset.range (size + 1) = insert size (Finset.range size) := Finset.range_add_one
      rw [unfolded, more]
      split_ifs with out fixed
      · rw [ih, Finset.inter_insert_of_notMem]
        simp [out]
      · have small : size < 32 := BitVec.lt_of_getLsbD (by simpa using out)
        rw [bitsOr, ih, bitsMask small, Finset.inter_insert_of_mem, Finset.union_assoc, Finset.union_comm _ {size}]
        · rfl
        · simp only [Finset.mem_inter, memBits, memFixed]
          exact ⟨by simpa using out, Option.isSome_iff_ne_none.mp fixed⟩
      · rw [ih, Finset.inter_insert_of_notMem]
        simp only [Finset.mem_inter, memFixed]
        simpa using fun _ => Option.not_isSome_iff_eq_none.mp fixed

theorem minSizeSame (same : ∀ i ∈ instrs, i.len = length) (some : instrs ≠ []) : minSize instrs = length := by
  cases instrs with
  | nil => contradiction
  | cons i rest =>
      have start : i.len = length := same i (by simp)
      simp only [minSize, start]
      have keeps (others : List Instr) (same : ∀ j ∈ others, j.len = length) :
          others.foldl (fun size other => if other.len < size then other.len else size) length = length := by
        induction others with
        | nil => rfl
        | cons j others ih => simp [same j (by simp), ih (fun k inside => same k (by simp [inside]))]
      exact keeps rest (fun j inside => same j (by simp [inside]))

theorem foldFixedBits (instrs : List Instr) (size : ℕ) (current start : Mask) (x : ℕ) :
    x ∈ bits (instrs.foldl (fun searchMask i => addFixed i size current searchMask) start) ↔
      x ∈ bits start ∨ x ∈ bits current ∧ x < size ∧ ∃ i ∈ instrs, x ∈ i.fixedBits := by
  induction instrs generalizing start with
  | nil => simp
  | cons i rest ih =>
      rw [List.foldl_cons, ih, addFixedBits]
      simp only [Finset.mem_union, Finset.mem_inter, Finset.mem_range, List.mem_cons, exists_eq_or_imp]
      tauto

theorem currentMaskBits (same : ∀ i ∈ instrs, i.len = length) (some : instrs ≠ []) (x : ℕ) :
    x ∈ bits (currentMask instrs mask) ↔ x ∈ bits mask ∧ ∃ i ∈ instrs, x ∈ i.fixedBits := by
  simp only [currentMask, bitsAnd, Finset.mem_inter, foldFixedBits, minSizeSame same some, bitsBefore, bitsZero,
    Finset.notMem_empty, false_or, Finset.mem_range]
  constructor
  · rintro ⟨⟨inside, -⟩, -, -, found⟩
    exact ⟨inside, found⟩
  · rintro ⟨inside, i, member, fixed⟩
    have below : x < length := same i member ▸ fixedBelow fixed
    have small := bitsBelow inside
    exact ⟨⟨inside, below, small⟩, ⟨inside, below, small⟩, below, i, member, fixed⟩

end Masks

section Common

variable {instrs : List Instr} {i : Instr} {mask m : Mask} {length : ℕ}

/- The state of `browse` after the bits below `n`: nothing yet, or a run that is still growing unless `done`. -/
inductive Browsed (i : Instr) (m : Mask) (n : ℕ) : Browse → Prop where
  | none {searchMask} (rest : bits searchMask = bits m \ Finset.range n) (nothing : ∀ x < n, x ∉ bits m ∩ i.fixedBits) :
      Browsed i m n ⟨searchMask, false, none⟩
  | run {searchMask done} (f e : ℕ) (begun : f < e) (within : e ≤ n) (growing : done = false → e = n)
      (inside : Finset.Ico f e ⊆ bits m ∩ i.fixedBits)
      (rest : bits searchMask = Finset.Ico f e ∪ bits m \ Finset.range n) : Browsed i m n ⟨searchMask, done, some f⟩

theorem minusBit (m : Mask) (n : ℕ) : bits (m &&& ~~~ bitMask n) = bits m \ {n} := by
  rw [bitsMinus]
  by_cases small : n < 32
  · rw [bitsMask small]
  · have out : n ∉ bits m := fun inside => small (bitsBelow inside)
    have none : bits (bitMask n) = ∅ := by
      rw [bitsEmpty]
      exact BitVec.eq_of_toNat_eq (BitVec.toNat_twoPow_of_le (by omega))
    rw [none, Finset.sdiff_empty, Finset.sdiff_singleton_eq_erase, Finset.erase_eq_of_notMem out]

theorem sdiffNext (s : Finset ℕ) (n : ℕ) : s \ Finset.range (n + 1) = (s \ Finset.range n) \ {n} := by
  ext x
  by_cases inside : x ∈ s
  · simp only [Finset.mem_sdiff, Finset.mem_range, Finset.mem_singleton, inside, true_and]
    omega
  · simp [inside]

theorem runNext {s : Finset ℕ} {f n : ℕ} (member : n ∈ s) (before : f ≤ n) :
    Finset.Ico f n ∪ s \ Finset.range n = Finset.Ico f (n + 1) ∪ s \ Finset.range (n + 1) := by
  ext x
  by_cases inside : x ∈ s
  · simp only [Finset.mem_union, Finset.mem_Ico, Finset.mem_sdiff, Finset.mem_range, inside, true_and]
    omega
  · have other : x ≠ n := fun same => inside (same ▸ member)
    simp only [Finset.mem_union, Finset.mem_Ico, Finset.mem_sdiff, inside, false_and, or_false]
    omega

theorem browseBitBrowsed {b : Browse} {n : ℕ} (before : Browsed i m n b) : Browsed i m (n + 1) (browseBit i b n) := by
  cases before with
  | @none searchMask rest nothing =>
      by_cases goes : n ∈ bits m ∩ i.fixedBits
      · obtain ⟨inM, fixed⟩ := Finset.mem_inter.mp goes
        have present : n ∈ bits searchMask := by
          rw [rest]
          simpa using inM
        have next : browseBit i ⟨searchMask, false, none⟩ n = ⟨searchMask, false, some n⟩ := by
          simp [browseBit, memFixed.mp fixed, memBits.mp present]
        rw [next]
        refine .run n (n + 1) (by omega) (by omega) (fun _ => rfl) ?_ ?_
        · intro x inside
          obtain rfl : x = n := by simpa using inside
          exact goes
        · rw [rest, ← runNext inM (le_refl n)]
          simp
      · have stop : i.fixed n = none ∨ searchMask.getLsbD n = false := by
          by_contra goes'
          simp only [not_or] at goes'
          have present : n ∈ bits searchMask := memBits.mpr (by simpa using goes'.2)
          rw [rest] at present
          exact goes (Finset.mem_inter.mpr ⟨(Finset.mem_sdiff.mp present).1, memFixed.mpr goes'.1⟩)
        have next : browseBit i ⟨searchMask, false, none⟩ n = ⟨searchMask &&& ~~~ bitMask n, false, none⟩ := by
          simp [browseBit, stop]
        rw [next]
        refine .none (by rw [minusBit, rest, sdiffNext]) (fun x below => ?_)
        rcases Nat.lt_succ_iff_lt_or_eq.mp below with less | rfl
        · exact nothing x less
        · exact goes
  | @run searchMask done f e begun within growing inside rest =>
      by_cases goes : done = false ∧ n ∈ bits m ∩ i.fixedBits
      · obtain ⟨open', member⟩ := goes
        obtain ⟨inM, fixed⟩ := Finset.mem_inter.mp member
        obtain rfl : e = n := growing open'
        have present : e ∈ bits searchMask := by
          rw [rest]
          simpa using inM
        have next : browseBit i ⟨searchMask, done, some f⟩ e = ⟨searchMask, done, some f⟩ := by
          simp [browseBit, open', memFixed.mp fixed, memBits.mp present]
        rw [next]
        refine .run f (e + 1) (by omega) (by omega) (fun _ => rfl) ?_ ?_
        · intro x inside'
          by_cases last : x = e
          · subst last
            exact member
          · have below := Finset.mem_Ico.mp inside'
            exact inside (Finset.mem_Ico.mpr ⟨below.1, by omega⟩)
        · rw [rest, runNext inM (by omega)]
      · have stop : done = true ∨ i.fixed n = none ∨ searchMask.getLsbD n = false := by
          by_contra goes'
          simp only [not_or] at goes'
          have present : n ∈ bits searchMask := memBits.mpr (by simpa using goes'.2.2)
          rw [rest] at present
          have inM : n ∈ bits m := by
            rcases Finset.mem_union.mp present with run | later
            · have := Finset.mem_Ico.mp run
              omega
            · exact (Finset.mem_sdiff.mp later).1
          exact goes ⟨by simpa using goes'.1, Finset.mem_inter.mpr ⟨inM, memFixed.mpr goes'.2.1⟩⟩
        have next : browseBit i ⟨searchMask, done, some f⟩ n = ⟨searchMask &&& ~~~ bitMask n, true, some f⟩ := by
          simp [browseBit, stop]
        rw [next]
        refine .run f e begun (by omega) (by simp) inside ?_
        rw [minusBit, rest, sdiffNext, Finset.union_sdiff_distrib]
        congr 1
        rw [Finset.sdiff_singleton_eq_erase, Finset.erase_eq_of_notMem]
        simp only [Finset.mem_Ico]
        omega

theorem browseRun (i : Instr) (inside : ∀ x ∈ bits m, x < i.len) :
    (browse i m).firstBit = none ∧ bits (browse i m).searchMask = ∅ ∧ bits m ∩ i.fixedBits = ∅ ∨
      ∃ f e, (browse i m).firstBit = some f ∧ f < e ∧ bits (browse i m).searchMask = Finset.Ico f e ∧
        Finset.Ico f e ⊆ bits m ∩ i.fixedBits := by
  have along (n : ℕ) : Browsed i m n ((List.range n).foldl (browseBit i) ⟨m, false, none⟩) := by
    induction n with
    | zero => exact .none (by simp) (by simp)
    | succ n ih =>
        rw [List.range_succ, List.foldl_append]
        exact browseBitBrowsed ih
  have whole : bits m \ Finset.range i.len = ∅ := by
    rw [Finset.sdiff_eq_empty_iff_subset]
    intro x member
    exact Finset.mem_range.mpr (inside x member)
  have all : Browsed i m i.len (browse i m) := along i.len
  generalize browse i m = b at all
  cases all with
  | none rest nothing =>
      refine .inl ⟨rfl, rest.trans whole, ?_⟩
      rw [Finset.eq_empty_iff_forall_notMem]
      intro x member
      exact nothing x (inside x (Finset.mem_inter.mp member).1) member
  | run f e begun within growing inside' rest =>
      refine .inr ⟨f, e, rfl, begun, ?_, inside'⟩
      rw [rest, whole, Finset.union_empty]

def IsRun (found : Mask × ℕ) : Prop := bits found.1 = ∅ ∨ ∃ e, found.2 < e ∧ bits found.1 = Finset.Ico found.2 e

theorem browseInstrRun (found : Mask × ℕ) (i : Instr) (inside : ∀ x ∈ bits found.1, x < i.len) (lower : ∀ x ∈ bits found.1, found.2 ≤ x) :
    IsRun (browseInstr found i) ∧ bits (browseInstr found i).1 ⊆ bits found.1 ∩ i.fixedBits ∧
      (bits (browseInstr found i).1 = ∅ → bits found.1 ∩ i.fixedBits = ∅) := by
  rcases browseRun i inside with ⟨-, empty, nothing⟩ | ⟨f, e, first, some, run, subset⟩
  · refine ⟨.inl empty, ?_, fun _ => nothing⟩
    simp [browseInstr, empty]
  · have start : f ∈ Finset.Ico f e := Finset.mem_Ico.mpr ⟨le_refl f, some⟩
    have above : found.2 ≤ f := lower f (Finset.mem_inter.mp (subset start)).1
    have low : (browseInstr found i).2 = f := by
      simp only [browseInstr, first]
      split_ifs <;> omega
    refine ⟨.inr ⟨e, by rw [low]; exact some, by rw [low]; exact run⟩, ?_, ?_⟩
    · simpa only [browseInstr, run] using subset
    · intro empty
      simp only [browseInstr, run] at empty
      rw [empty] at start
      contradiction

theorem runLower {found : Mask × ℕ} (run : IsRun found) : ∀ x ∈ bits found.1, found.2 ≤ x := by
  intro x member
  rcases run with empty | ⟨e, -, whole⟩
  · rw [empty] at member
    contradiction
  · rw [whole] at member
    exact (Finset.mem_Ico.mp member).1

theorem foldBrowse (instrs : List Instr) {found : Mask × ℕ} (same : ∀ i ∈ instrs, i.len = length) (inside : ∀ x ∈ bits found.1, x < length)
    (run : IsRun found) :
    IsRun (instrs.foldl browseInstr found) ∧ bits (instrs.foldl browseInstr found).1 ⊆ bits found.1 ∧
      ∀ i ∈ instrs, bits (instrs.foldl browseInstr found).1 ⊆ i.fixedBits := by
  induction instrs generalizing found with
  | nil => exact ⟨run, subset_rfl, by simp⟩
  | cons i rest ih =>
      have here : i.len = length := same i (by simp)
      obtain ⟨run', smaller, -⟩ := browseInstrRun found i (fun x member => here ▸ inside x member) (runLower run)
      have inside' (x : ℕ) (member : x ∈ bits (browseInstr found i).1) : x < length :=
        inside x (Finset.mem_inter.mp (smaller member)).1
      obtain ⟨runs, subset, fixed⟩ := ih (fun j member => same j (by simp [member])) inside' run'
      refine ⟨runs, fun x member => (Finset.mem_inter.mp (smaller (subset member))).1, ?_⟩
      intro j member
      rcases List.mem_cons.mp member with rfl | later
      · exact fun x inM => (Finset.mem_inter.mp (smaller (subset inM))).2
      · exact fixed j later

theorem findCommonRun (same : ∀ i ∈ instrs, i.len = length) (some : instrs ≠ []) :
    IsRun (findCommon instrs mask) ∧ bits (findCommon instrs mask).1 ⊆ bits (currentMask instrs mask) ∧
      ∀ i ∈ instrs, bits (findCommon instrs mask).1 ⊆ i.fixedBits := by
  have current (x : ℕ) (member : x ∈ bits (currentMask instrs mask)) : x < length := by
    obtain ⟨-, i, inside, fixed⟩ := (currentMaskBits same some x).mp member
    exact same i inside ▸ fixedBelow fixed
  unfold findCommon
  generalize currentMask instrs mask = start at current
  cases instrs with
  | nil => contradiction
  | cons i rest =>
      have here : i.len = length := same i (by simp)
      obtain ⟨run, smaller, -⟩ := browseInstrRun (start, 0) i (fun x member => here ▸ current x member) (fun x _ => Nat.zero_le x)
      have inside' (x : ℕ) (member : x ∈ bits (browseInstr (start, 0) i).1) : x < length :=
        current x (Finset.mem_inter.mp (smaller member)).1
      obtain ⟨runs, subset, fixed⟩ := foldBrowse rest (fun j member => same j (by simp [member])) inside' run
      refine ⟨runs, fun x member => (Finset.mem_inter.mp (smaller (subset member))).1, ?_⟩
      intro j member
      rcases List.mem_cons.mp member with rfl | later
      · exact fun x inM => (Finset.mem_inter.mp (smaller (subset inM))).2
      · exact fixed j later

theorem findCommonAlone (nothing : (findCommon [i] mask).1 = 0) : bits mask ∩ i.fixedBits = ∅ := by
  have same (j : Instr) (member : j ∈ [i]) : j.len = i.len := by rw [List.mem_singleton.mp member]
  have current (x : ℕ) : x ∈ bits (currentMask [i] mask) ↔ _ := currentMaskBits same (by simp) x
  have inside (x : ℕ) (member : x ∈ bits (currentMask [i] mask)) : x < i.len := by
    obtain ⟨-, j, single, fixed⟩ := (current x).mp member
    rw [List.mem_singleton.mp single] at fixed
    exact fixedBelow fixed
  obtain ⟨-, -, empty⟩ := browseInstrRun (currentMask [i] mask, 0) i inside (fun x _ => Nat.zero_le x)
  have none := empty (bitsEmpty.mpr nothing)
  rw [Finset.eq_empty_iff_forall_notMem] at none ⊢
  intro x member
  obtain ⟨inMask, fixed⟩ := Finset.mem_inter.mp member
  exact none x (Finset.mem_inter.mpr ⟨(current x).mpr ⟨inMask, i, by simp, fixed⟩, fixed⟩)

end Common

section Defined

variable {instrs : List Instr} {i : Instr} {mask : Mask} {length : ℕ}

theorem foldDefined (instrs : List Instr) (size : ℕ) (current start : Mask) (x : ℕ) :
    x ∈ bits (instrs.foldl (keepDefined size current) start) ↔
      x ∈ bits start ∧ ∀ i ∈ instrs, bits current ∩ i.fixedBits ∩ Finset.range size ≠ ∅ →
        x ∈ bits current ∩ i.fixedBits ∩ Finset.range size := by
  induction instrs generalizing start with
  | nil => simp
  | cons i rest ih =>
      have instrMask : bits (addFixed i size current 0) = bits current ∩ i.fixedBits ∩ Finset.range size := by
        rw [addFixedBits, bitsZero, Finset.empty_union]
      have one : x ∈ bits (keepDefined size current start i) ↔ x ∈ bits start ∧
          (bits current ∩ i.fixedBits ∩ Finset.range size ≠ ∅ → x ∈ bits current ∩ i.fixedBits ∩ Finset.range size) := by
        simp only [keepDefined, ← instrMask, ne_eq, bitsEmpty]
        split_ifs with none
        · exact ⟨fun inside => ⟨inside, fun some => absurd none some⟩, fun both => both.1⟩
        · simp only [bitsAnd, Finset.mem_inter, none, not_false_eq_true, true_imp_iff]
      rw [List.foldl_cons, ih, one, List.forall_mem_cons]
      tauto

theorem lastSize (same : ∀ i ∈ instrs, i.len = length) (some : instrs ≠ []) :
    instrs.foldl (fun _ i => i.len) 0 = length := by
  rcases List.eq_nil_or_concat instrs with none | ⟨front, last, rfl⟩
  · contradiction
  · simp [List.foldl_append, same]

/- The second search finds the bits that are fixed in all instructions which fix any, and the first of them. -/
theorem findDefinedBits (same : ∀ i ∈ instrs, i.len = length) (some : instrs ≠ []) (first x : ℕ) :
    x ∈ bits (findDefined instrs mask first).1 ↔ x ∈ bits (currentMask instrs mask) ∧
      ∀ i ∈ instrs, bits mask ∩ i.fixedBits ≠ ∅ → x ∈ i.fixedBits := by
  have own (i : Instr) (member : i ∈ instrs) :
      bits (currentMask instrs mask) ∩ i.fixedBits ∩ Finset.range length = bits mask ∩ i.fixedBits := by
    ext y
    simp only [Finset.mem_inter, currentMaskBits same some, Finset.mem_range]
    constructor
    · rintro ⟨⟨⟨inside, -⟩, fixed⟩, -⟩
      exact ⟨inside, fixed⟩
    · rintro ⟨inside, fixed⟩
      exact ⟨⟨⟨inside, i, member, fixed⟩, fixed⟩, same i member ▸ fixedBelow fixed⟩
  simp only [findDefined, lastSize same some, foldDefined]
  constructor
  · rintro ⟨inside, all⟩
    refine ⟨inside, fun i member any => ?_⟩
    have fixed := all i member (by rw [own i member]; exact any)
    rw [own i member] at fixed
    exact (Finset.mem_inter.mp fixed).2
  · rintro ⟨inside, all⟩
    refine ⟨inside, fun i member any => ?_⟩
    rw [own i member] at any ⊢
    exact Finset.mem_inter.mpr ⟨((currentMaskBits same some x).mp inside).1, all i member any⟩

theorem findDefinedFirst (same : ∀ i ∈ instrs, i.len = length) (some : instrs ≠ []) (first : ℕ)
    (found : (findDefined instrs mask first).1 ≠ 0) :
    (findDefined instrs mask first).2 ∈ bits (findDefined instrs mask first).1 ∧
      ∀ x ∈ bits (findDefined instrs mask first).1, (findDefined instrs mask first).2 ≤ x := by
  have below (x : ℕ) (member : x ∈ bits (findDefined instrs mask first).1) : x < length := by
    obtain ⟨inside, -⟩ := (findDefinedBits same some first x).mp member
    obtain ⟨-, i, inList, fixed⟩ := (currentMaskBits same some x).mp inside
    exact same i inList ▸ fixedBelow fixed
  simp only [findDefined, lastSize same some] at found below ⊢
  generalize instrs.foldl (keepDefined length (currentMask instrs mask)) (currentMask instrs mask) = m at found below ⊢
  cases lowest : (List.range length).find? (fun bit => m.getLsbD bit) with
  | none =>
      obtain ⟨x, member⟩ := Finset.nonempty_iff_ne_empty.mpr (fun empty => found (bitsEmpty.mp empty))
      have absent := List.find?_eq_none.mp lowest x (by simpa using below x member)
      exact absurd (memBits.mp member) absent
  | some bit =>
      refine ⟨memBits.mpr (by simpa using List.find?_some lowest), fun x member => ?_⟩
      by_contra early
      have absent := List.find?_range_eq_some.mp lowest
      have := absent.2.2 x (by simpa using early)
      simp [memBits.mp member] at this

end Defined

section Search

variable {instrs : List Instr} {i : Instr} {mask : Mask} {length : ℕ}

structure SearchSpec (instrs : List Instr) (mask : Mask) : Prop where
  inside : bits (search instrs mask).1 ⊆ bits mask
  within : ∀ x ∈ bits (search instrs mask).1, ∃ i ∈ instrs, x ∈ i.fixedBits
  first : (search instrs mask).1 ≠ 0 → (search instrs mask).2 ∈ bits (search instrs mask).1 ∧
    ∀ x ∈ bits (search instrs mask).1, (search instrs mask).2 ≤ x
  fixed : (1 < instrs.length → ∀ i ∈ instrs, bits mask ∩ i.fixedBits ≠ ∅) → ∀ i ∈ instrs, bits (search instrs mask).1 ⊆ i.fixedBits

theorem searchSpec (same : ∀ i ∈ instrs, i.len = length) (some : instrs ≠ []) : SearchSpec instrs mask := by
  have current (x : ℕ) : x ∈ bits (currentMask instrs mask) ↔ _ := currentMaskBits same some x
  by_cases second : (findCommon instrs mask).1 = 0 ∧ 1 < instrs.length
  · have found : search instrs mask = findDefined instrs mask (findCommon instrs mask).2 := if_pos second
    have defined (x : ℕ) : x ∈ bits (findDefined instrs mask (findCommon instrs mask).2).1 ↔ _ := findDefinedBits same some _ x
    rw [← found] at defined
    refine ⟨fun x member => ?_, fun x member => ?_, fun some' => ?_, fun any i member x inside => ?_⟩
    · exact ((current x).mp ((defined x).mp member).1).1
    · exact ((current x).mp ((defined x).mp member).1).2
    · rw [found] at some' ⊢
      exact findDefinedFirst same some _ some'
    · exact ((defined x).mp inside).2 i member (any second.2 i member)
  · have found : search instrs mask = findCommon instrs mask := if_neg second
    obtain ⟨run, smaller, fixed⟩ : _ ∧ bits (findCommon instrs mask).1 ⊆ _ ∧ _ := findCommonRun same some
    rw [← found] at run smaller fixed
    refine ⟨fun x member => ?_, fun x member => ?_, fun some' => ?_, fun _ => fixed⟩
    · exact ((current x).mp (smaller member)).1
    · exact ((current x).mp (smaller member)).2
    · rcases run with empty | ⟨e, begun, whole⟩
      · exact absurd (bitsEmpty.mp empty) some'
      · rw [whole]
        exact ⟨Finset.mem_Ico.mpr ⟨le_refl _, begun⟩, fun x member => (Finset.mem_Ico.mp member).1⟩

theorem searchAlone (nothing : (search [i] mask).1 = 0) : bits mask ∩ i.fixedBits = ∅ := by
  have found : search [i] mask = findCommon [i] mask := if_neg (by simp)
  rw [found] at nothing
  exact findCommonAlone nothing

def Consecutive (m : Mask) : Prop := ∀ x ∈ bits m, ∀ y ∈ bits m, ∀ z, x ≤ z → z ≤ y → z ∈ bits m

/- Only the second search can find bits that are not consecutive. -/
theorem searchConsecutive (same : ∀ i ∈ instrs, i.len = length) (some : instrs ≠ [])
    (fallback : 1 < instrs.length → (findCommon instrs mask).1 = 0 → Consecutive (findDefined instrs mask 0).1) :
    Consecutive (search instrs mask).1 := by
  by_cases second : (findCommon instrs mask).1 = 0 ∧ 1 < instrs.length
  · have found : search instrs mask = findDefined instrs mask (findCommon instrs mask).2 := if_pos second
    rw [found]
    exact fallback second.2 second.1
  · have found : search instrs mask = findCommon instrs mask := if_neg second
    obtain ⟨run, -⟩ : IsRun (findCommon instrs mask) ∧ _ := findCommonRun same some
    rw [found]
    intro x first y last z above below
    rcases run with empty | ⟨e, -, whole⟩
    · rw [empty] at first
      contradiction
    · rw [whole] at first last ⊢
      have start := Finset.mem_Ico.mp first
      have stop := Finset.mem_Ico.mp last
      exact Finset.mem_Ico.mpr ⟨by omega, by omega⟩

end Search

end Gvsoc.Decoder
