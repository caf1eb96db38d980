import Mathlib.Data.Nat.Size
import Mathlib.Data.Nat.Dist
import Mathlib.Tactic.Ring

/-! Rounding to numbers with a significand of so many bits, in units of the smallest one. The weight of the last place of a number does
not go below that of the subnormal numbers. There is no greatest number here. -/
namespace Gvsoc.Rounding

def Floating (p q n : Nat) : Prop := ∃ m x, m < 2 ^ p ∧ q ≤ x ∧ n = m * 2 ^ x

def place (p q n : Nat) : Nat := max q (n.size - p)

inductive Direction where
  | nearest
  | away
  | zero
  deriving DecidableEq, Repr

def Direction.up : Direction → (k lost x : Nat) → Bool
  | .nearest, k, lost, x => decide (2 ^ x < 2 * lost) || (decide (2 * lost = 2 ^ x) && decide (k % 2 = 1))
  | .away, _, lost, _ => decide (0 < lost)
  | .zero, _, _, _ => false

def goesUp (dir : Direction) (p q n : Nat) : Bool := dir.up (n / 2 ^ place p q n) (n % 2 ^ place p q n) (place p q n)

def roundTo (dir : Direction) (p q n : Nat) : Nat := (n / 2 ^ place p q n + (goesUp dir p q n).toNat) * 2 ^ place p q n

section Neighbours

variable {dir : Direction} {p q n z : Nat}

theorem placeLow : q ≤ place p q n := le_max_left _ _

theorem sizePlace : n.size ≤ place p q n + p := by
  unfold place
  omega

theorem significandBound : n / 2 ^ place p q n < 2 ^ p := by
  rw [Nat.div_lt_iff_lt_mul (Nat.two_pow_pos _), ← Nat.pow_add, Nat.add_comm]
  exact Nat.size_le.mp sizePlace

theorem cutBelow : n / 2 ^ place p q n * 2 ^ place p q n ≤ n := Nat.div_mul_le_self _ _

theorem cutAbove : n < (n / 2 ^ place p q n + 1) * 2 ^ place p q n := by
  rw [Nat.add_mul, Nat.one_mul]
  exact Nat.lt_div_mul_add (Nat.two_pow_pos _)

theorem multiplesApart {x y : Nat} (whole : x ≤ y) (k m : Nat) : m * 2 ^ y ≤ k * 2 ^ x ∨ (k + 1) * 2 ^ x ≤ m * 2 ^ y := by
  obtain ⟨d, rfl⟩ := Nat.exists_eq_add_of_le whole
  have shape : m * 2 ^ (x + d) = m * 2 ^ d * 2 ^ x := by
    rw [Nat.pow_add]
    ring
  rw [shape]
  rcases Nat.lt_or_ge k (m * 2 ^ d) with above | below
  · exact .inr (Nat.mul_le_mul_right _ above)
  · exact .inl (Nat.mul_le_mul_right _ below)

theorem floatingApart (float : Floating p q z) :
    z ≤ n / 2 ^ place p q n * 2 ^ place p q n ∨ (n / 2 ^ place p q n + 1) * 2 ^ place p q n ≤ z := by
  obtain ⟨m, y, small, low, rfl⟩ := float
  rcases Nat.lt_or_ge y (place p q n) with fine | whole
  · -- The last place of the other one is finer, so that it is too small.
    left
    have normal : place p q n = n.size - p := by
      unfold place at fine ⊢
      omega
    have high : 2 ^ (place p q n + p - 1) ≤ n := Nat.lt_size.mp (by omega)
    cases p with
    | zero =>
        obtain rfl : m = 0 := by omega
        simp
    | succ p =>
        have bound : m * 2 ^ y ≤ 2 ^ p * 2 ^ place (p + 1) q n := by
          calc m * 2 ^ y ≤ 2 ^ (p + 1) * 2 ^ y := Nat.mul_le_mul_right _ (Nat.le_of_lt small)
            _ = 2 ^ p * 2 ^ (y + 1) := by ring
            _ ≤ 2 ^ p * 2 ^ place (p + 1) q n := Nat.mul_le_mul_left _ (Nat.pow_le_pow_right (by omega) fine)
        refine bound.trans (Nat.mul_le_mul_right _ ?_)
        rw [Nat.le_div_iff_mul_le (Nat.two_pow_pos _), ← Nat.pow_add]
        refine Nat.le_trans (Nat.le_of_eq ?_) high
        congr 1
        omega
  · exact multiplesApart whole _ _

theorem roundBelow : n / 2 ^ place p q n * 2 ^ place p q n ≤ roundTo dir p q n :=
  Nat.mul_le_mul_right _ (Nat.le_add_right _ _)

theorem roundAbove : roundTo dir p q n ≤ (n / 2 ^ place p q n + 1) * 2 ^ place p q n :=
  Nat.mul_le_mul_right _ (Nat.add_le_add_left (Bool.toNat_le _) _)

theorem upExact (k x : Nat) : dir.up k 0 x = false := by
  have positive := Nat.two_pow_pos x
  cases dir with
  | nearest => simp [Direction.up]; omega
  | away => rfl
  | zero => rfl

theorem roundExact (exact : n % 2 ^ place p q n = 0) : roundTo dir p q n = n := by
  unfold roundTo goesUp
  rw [exact, upExact, Bool.toNat_false, Nat.add_zero]
  exact Nat.div_mul_cancel (Nat.dvd_of_mod_eq_zero exact)

theorem roundUnder (float : Floating p q z) (below : n ≤ z) : roundTo dir p q n ≤ z := by
  rcases floatingApart (n := n) float with here | above
  · have same : n = z := Nat.le_antisymm below (here.trans cutBelow)
    have cut : n = n / 2 ^ place p q n * 2 ^ place p q n := Nat.le_antisymm (below.trans here) cutBelow
    rw [roundExact (Nat.mod_eq_zero_of_dvd ⟨_, cut.trans (Nat.mul_comm _ _)⟩), same]
  · exact roundAbove.trans above

theorem roundOver (float : Floating p q z) (above : z ≤ n) : z ≤ roundTo dir p q n := by
  rcases floatingApart (n := n) float with here | below
  · exact here.trans roundBelow
  · exact absurd (below.trans above) (Nat.not_le.mpr cutAbove)

theorem roundSelf (float : Floating p q n) : roundTo dir p q n = n :=
  Nat.le_antisymm (roundUnder float (Nat.le_refl n)) (roundOver float (Nat.le_refl n))

theorem roundFloating (some : 0 < p) : Floating p q (roundTo dir p q n) := by
  have bound := significandBound (p := p) (q := q) (n := n)
  have low := placeLow (p := p) (q := q) (n := n)
  have bit := Bool.toNat_le (goesUp dir p q n)
  unfold roundTo
  rcases Nat.lt_or_ge (n / 2 ^ place p q n + (goesUp dir p q n).toNat) (2 ^ p) with fits | carry
  · exact ⟨_, _, fits, low, rfl⟩
  · -- The carry leaves a power of two.
    obtain ⟨p, rfl⟩ := Nat.exists_eq_add_of_lt some
    have whole : n / 2 ^ place (0 + p + 1) q n + (goesUp dir (0 + p + 1) q n).toNat = 2 ^ (0 + p + 1) := by omega
    refine ⟨2 ^ p, place (0 + p + 1) q n + 1, Nat.pow_lt_pow_right (by omega) (by omega), by omega, ?_⟩
    rw [whole]
    ring

end Neighbours

section Meets

variable {dir : Direction} {p q n r : Nat}

/- What rounding is for: the nearest number with such a significand, or the next one in a direction. Of two that are as near it is the
one whose significand is even. -/
def Rounds : Direction → (p q n r : Nat) → Prop
  | .nearest, p, q, n, r => Floating p q r ∧ ∀ z, Floating p q z → n.dist r ≤ n.dist z ∧
      (n.dist r = n.dist z → z ≠ r → r / 2 ^ place p q n % 2 = 0)
  | .away, p, q, n, r => Floating p q r ∧ n ≤ r ∧ ∀ z, Floating p q z → n ≤ z → r ≤ z
  | .zero, p, q, n, r => Floating p q r ∧ r ≤ n ∧ ∀ z, Floating p q z → z ≤ n → z ≤ r

theorem roundZero : roundTo .zero p q n = n / 2 ^ place p q n * 2 ^ place p q n := by
  unfold roundTo goesUp Direction.up
  rw [Bool.toNat_false, Nat.add_zero]

theorem lostBound : n % 2 ^ place p q n < 2 ^ place p q n := Nat.mod_lt _ (Nat.two_pow_pos _)

theorem cutSum : n = n / 2 ^ place p q n * 2 ^ place p q n + n % 2 ^ place p q n := by
  rw [Nat.mul_comm]
  exact (Nat.div_add_mod _ _).symm

theorem upNearest {k lost x : Nat} : Direction.nearest.up k lost x = true ↔ 2 ^ x < 2 * lost ∨ 2 * lost = 2 ^ x ∧ k % 2 = 1 := by
  simp [Direction.up]

theorem roundNearest (some : 0 < p) : Rounds .nearest p q n (roundTo .nearest p q n) := by
  refine ⟨roundFloating some, fun z float => ?_⟩
  have sum := cutSum (p := p) (q := q) (n := n)
  have bound := lostBound (p := p) (q := q) (n := n)
  have apart := floatingApart (n := n) float
  have positive := Nat.two_pow_pos (place p q n)
  have decides := @upNearest (n / 2 ^ place p q n) (n % 2 ^ place p q n) (place p q n)
  unfold roundTo goesUp
  rw [Nat.mul_div_cancel _ positive]
  rw [Nat.add_mul, Nat.one_mul] at apart
  unfold Nat.dist
  cases up : Direction.nearest.up (n / 2 ^ place p q n) (n % 2 ^ place p q n) (place p q n) with
  | true =>
      have more := decides.mp up
      rw [Bool.toNat_true, Nat.add_mul, Nat.one_mul]
      generalize n / 2 ^ place p q n = k at *
      generalize n % 2 ^ place p q n = lost at *
      generalize 2 ^ place p q n = w at *
      omega
  | false =>
      have less : ¬_ := fun more => Bool.false_ne_true (up.symm.trans (decides.mpr more))
      rw [Bool.toNat_false, Nat.add_zero]
      generalize n / 2 ^ place p q n = k at *
      generalize n % 2 ^ place p q n = lost at *
      generalize 2 ^ place p q n = w at *
      omega

theorem roundMeets (some : 0 < p) (dir : Direction) : Rounds dir p q n (roundTo dir p q n) := by
  cases dir with
  | nearest => exact roundNearest some
  | away =>
      refine ⟨roundFloating some, ?_, fun z float above => roundUnder float above⟩
      have sum := cutSum (p := p) (q := q) (n := n)
      have bound := lostBound (p := p) (q := q) (n := n)
      unfold roundTo goesUp
      cases up : Direction.away.up (n / 2 ^ place p q n) (n % 2 ^ place p q n) (place p q n) with
      | true =>
          rw [Bool.toNat_true, Nat.add_mul, Nat.one_mul]
          omega
      | false =>
          have none : n % 2 ^ place p q n = 0 := by simpa [Direction.up] using up
          rw [Bool.toNat_false, Nat.add_zero]
          omega
  | zero =>
      refine ⟨roundFloating some, ?_, fun z float below => roundOver float below⟩
      rw [roundZero]
      exact cutBelow

end Meets

section Bits

variable {dir : Direction} {p q k lost m c x : Nat}

theorem upScaled (y : Nat) : dir.up k (lost * 2 ^ y) (x + y) = dir.up k lost x := by
  have positive := Nat.two_pow_pos y
  have weight : 2 ^ (x + y) = 2 ^ x * 2 ^ y := Nat.pow_add 2 x y
  have double : 2 * (lost * 2 ^ y) = 2 * lost * 2 ^ y := (Nat.mul_assoc _ _ _).symm
  cases dir with
  | nearest =>
      simp only [Direction.up, weight, double, Nat.mul_lt_mul_right positive, Nat.mul_left_inj (Nat.pos_iff_ne_zero.mp positive)]
  | away => simp only [Direction.up, Nat.mul_pos_iff_of_pos_right positive]
  | zero => rfl

theorem lostBits (c m : Nat) : m % 2 ^ (c + 1) = m / 2 ^ c % 2 * 2 ^ c + m % 2 ^ c := by
  rw [Nat.mod_pow_succ, Nat.add_comm, Nat.mul_comm]

theorem upNearestBits (c m : Nat) : Direction.nearest.up (m / 2 ^ (c + 1)) (m % 2 ^ (c + 1)) (c + 1) =
    (decide (m / 2 ^ c % 2 = 1) && (decide (m % 2 ^ c ≠ 0) || decide (m / 2 ^ (c + 1) % 2 = 1))) := by
  have bound := Nat.mod_lt m (Nat.two_pow_pos c)
  have lost := lostBits c m
  have double : 2 ^ (c + 1) = 2 ^ c * 2 := Nat.pow_succ 2 c
  generalize m / 2 ^ (c + 1) = k
  rw [Bool.eq_iff_iff, upNearest, lost, double]
  simp only [Bool.and_eq_true, Bool.or_eq_true, decide_eq_true_eq]
  rcases Nat.mod_two_eq_zero_or_one (m / 2 ^ c) with bit | bit
  · rw [bit]
    omega
  · rw [bit, Nat.one_mul]
    omega

theorem upAwayBits (c m : Nat) : Direction.away.up k (m % 2 ^ (c + 1)) x = (decide (m / 2 ^ c % 2 = 1) || decide (m % 2 ^ c ≠ 0)) := by
  have positive := Nat.two_pow_pos c
  unfold Direction.up
  rw [lostBits]
  rcases Nat.mod_two_eq_zero_or_one (m / 2 ^ c) with bit | bit
  · rw [bit]
    simp [Nat.pos_iff_ne_zero]
  · rw [bit, Nat.one_mul]
    have some : 0 < 2 ^ c + m % 2 ^ c := by omega
    simp [some]

theorem goesUpCut (last : place p q (m * 2 ^ x) = c + x) : goesUp dir p q (m * 2 ^ x) = dir.up (m / 2 ^ c) (m % 2 ^ c) c := by
  unfold goesUp
  rw [last, Nat.pow_add, Nat.mul_div_mul_right _ _ (Nat.two_pow_pos x), Nat.mul_mod_mul_right, upScaled]

end Bits

section Carry

variable {dir d : Direction} {p q P n m : Nat}

theorem cutNext (some : 0 < p) (low : (n / 2 ^ place p q n + 1) * 2 ^ place p q n ≤ m)
    (high : m < (n / 2 ^ place p q n + 2) * 2 ^ place p q n ∨
      n / 2 ^ place p q n + 1 = 2 ^ p ∧ m ≤ (n / 2 ^ place p q n + 2) * 2 ^ place p q n) :
    roundTo .zero p q m = (n / 2 ^ place p q n + 1) * 2 ^ place p q n := by
  have bound := significandBound (p := p) (q := q) (n := n)
  have below : n ≤ m := Nat.le_of_lt (cutAbove.trans_le low)
  have sizes := Nat.size_le_size below
  have before := placeLow (p := p) (q := q) (n := n)
  rw [roundZero]
  by_cases carry : n / 2 ^ place p q n + 1 = 2 ^ p
  · -- The last place is one higher.
    have most : m ≤ (2 ^ p + 1) * 2 ^ place p q n := by
      rcases high with inside | ⟨-, limit⟩
      · rw [show 2 ^ p + 1 = n / 2 ^ place p q n + 2 by omega]
        omega
      · rwa [show 2 ^ p + 1 = n / 2 ^ place p q n + 2 by omega]
    have power : 1 < 2 ^ p := Nat.one_lt_two_pow (by omega)
    have least : 2 ^ (p + place p q n) ≤ m := by
      rw [Nat.pow_add, ← carry]
      exact low
    have room : m < 2 ^ (p + place p q n + 1) := by
      calc m ≤ (2 ^ p + 1) * 2 ^ place p q n := most
        _ < 2 ^ (p + 1) * 2 ^ place p q n := Nat.mul_lt_mul_of_pos_right (by rw [Nat.pow_succ]; omega) (Nat.two_pow_pos _)
        _ = 2 ^ (p + place p q n + 1) := by ring
    have size : m.size = p + place p q n + 1 := Nat.le_antisymm (Nat.size_le.mpr room) (Nat.lt_size.mpr least)
    have next : place p q m = place p q n + 1 := by
      generalize place p q n = x at *
      unfold place
      omega
    obtain ⟨p, rfl⟩ := Nat.exists_eq_add_of_lt some
    rw [next, carry]
    have quotient : m / 2 ^ (place (0 + p + 1) q n + 1) = 2 ^ p := by
      rw [Nat.div_eq_iff (Nat.two_pow_pos _)]
      constructor
      · refine Nat.le_trans (Nat.le_of_eq ?_) least
        ring
      · have positive := Nat.two_pow_pos (place (0 + p + 1) q n)
        have expand : (2 ^ (0 + p + 1) + 1) * 2 ^ place (0 + p + 1) q n =
            2 ^ p * 2 ^ (place (0 + p + 1) q n + 1) + 2 ^ place (0 + p + 1) q n := by ring
        rw [Nat.pow_succ 2 (place (0 + p + 1) q n)] at *
        omega
    rw [quotient]
    ring
  · have inside : m < (n / 2 ^ place p q n + 2) * 2 ^ place p q n := by
      rcases high with inside | ⟨same, -⟩
      · exact inside
      · exact absurd same carry
    have room : m < 2 ^ (p + place p q n) := by
      rw [Nat.pow_add]
      exact inside.trans_le (Nat.mul_le_mul_right _ (by omega))
    have size := Nat.size_le.mpr room
    have same : place p q m = place p q n := by
      unfold place at size ⊢
      omega
    rw [same]
    congr 1
    rw [Nat.div_eq_iff (Nat.two_pow_pos _)]
    have positive := Nat.two_pow_pos (place p q n)
    rw [Nat.add_mul] at inside
    constructor
    · exact low
    · rw [Nat.add_mul, Nat.one_mul] at *
      omega

theorem upLost (up : goesUp dir p q n = true) : n % 2 ^ place p q n ≠ 0 := by
  intro none
  unfold goesUp at up
  rw [none, upExact] at up
  exact Bool.false_ne_true up

theorem finePlace {y : Nat} (up : goesUp dir p q (m * 2 ^ y) = true) : y < place p q (m * 2 ^ y) := by
  refine Nat.lt_of_not_le fun whole => upLost up ?_
  exact Nat.mod_eq_zero_of_dvd (Dvd.dvd.mul_left (Nat.pow_dvd_pow 2 whole) m)

theorem sumDeep {y s : Nat} (two : 2 ≤ P) (small : m < 2 ^ P) (deep : P ≤ s) :
    roundTo d P 0 ((m + 2 ^ (s + 1)) * 2 ^ y) < 2 * (2 ^ (s + 1) * 2 ^ y) := by
  have shorter : 2 ^ P ≤ 2 ^ s := Nat.pow_le_pow_right (by omega) deep
  have four : 2 ^ 2 ≤ 2 ^ P := Nat.pow_le_pow_right (by omega) two
  have between : Floating P 0 (3 * 2 ^ (s + y)) := ⟨3, s + y, by omega, Nat.zero_le _, rfl⟩
  have shape : 3 * 2 ^ (s + y) = 3 * 2 ^ s * 2 ^ y := by ring
  have under : (m + 2 ^ (s + 1)) * 2 ^ y ≤ 3 * 2 ^ (s + y) := by
    rw [shape]
    exact Nat.mul_le_mul_right _ (by rw [Nat.pow_succ]; omega)
  refine Nat.lt_of_le_of_lt (roundUnder between under) ?_
  rw [shape, ← Nat.mul_assoc]
  refine Nat.mul_lt_mul_of_pos_right ?_ (Nat.two_pow_pos _)
  have positive := Nat.two_pow_pos s
  rw [Nat.pow_succ]
  omega

/- The even number below the end of the next last place is a bound. The sum does not reach it unless all its lower bits are ones. -/
theorem sumNear {y s e : Nat} (small : m < 2 ^ (s + 1 + e)) (other : m + 1 ≠ (m / 2 ^ (s + 1) + 1) * 2 ^ (s + 1)) :
    roundTo d (s + 1 + e) 0 ((m + 2 ^ (s + 1)) * 2 ^ y) < (m / 2 ^ (s + 1) + 2) * (2 ^ (s + 1) * 2 ^ y) := by
  have least : m / 2 ^ (s + 1) < 2 ^ e := by
    rw [Nat.div_lt_iff_lt_mul (Nat.two_pow_pos _)]
    exact small.trans_le (Nat.le_of_eq (by ring))
  have cut := Nat.lt_mul_div_succ m (Nat.two_pow_pos (s + 1))
  rw [Nat.mul_comm] at cut
  generalize m / 2 ^ (s + 1) = k at *
  have positive := Nat.two_pow_pos s
  have double : (k + 2) * 2 ^ (s + 1) = (k + 2) * 2 ^ s * 2 := by ring
  have expand : (k + 2) * 2 ^ (s + 1) = (k + 1) * 2 ^ (s + 1) + 2 ^ (s + 1) := by ring
  have room : (k + 2) * 2 ^ s ≤ 2 ^ (s + 1 + e) := by
    calc (k + 2) * 2 ^ s ≤ (2 ^ e * 2) * 2 ^ s := Nat.mul_le_mul_right _ (by omega)
      _ = 2 ^ (s + 1 + e) := by ring
  have some : 0 < (k + 2) * 2 ^ s := Nat.mul_pos (by omega) positive
  have between : Floating (s + 1 + e) 0 (((k + 2) * 2 ^ s - 1) * 2 ^ (y + 1)) := ⟨_, y + 1, by omega, Nat.zero_le _, rfl⟩
  have shape : ((k + 2) * 2 ^ s - 1) * 2 ^ (y + 1) = ((k + 2) * 2 ^ s * 2 - 2) * 2 ^ y := by
    rw [Nat.pow_succ, Nat.mul_comm (2 ^ y), ← Nat.mul_assoc, Nat.sub_mul]
  have under : (m + 2 ^ (s + 1)) * 2 ^ y ≤ ((k + 2) * 2 ^ s - 1) * 2 ^ (y + 1) := by
    rw [shape]
    exact Nat.mul_le_mul_right _ (by omega)
  refine Nat.lt_of_le_of_lt (roundUnder between under) ?_
  rw [shape, ← Nat.mul_assoc]
  exact Nat.mul_lt_mul_of_pos_right (by omega) (Nat.two_pow_pos _)

/- One last place more of the coarser numbers, rounded to the finer ones, stays in the next last place, but for one number. -/
theorem sumHigh (some : 0 < p) (fine : p < P) (float : Floating P 0 n) (up : goesUp dir p q n = true)
    (ordinary : n.size < q + p → ∀ y, n ≠ (2 ^ P - 1) * 2 ^ y) :
    roundTo d P 0 (n + 2 ^ place p q n) < (n / 2 ^ place p q n + 2) * 2 ^ place p q n ∨
      n / 2 ^ place p q n + 1 = 2 ^ p ∧
        roundTo d P 0 (n + 2 ^ place p q n) ≤ (n / 2 ^ place p q n + 2) * 2 ^ place p q n := by
  have bound := significandBound (p := p) (q := q) (n := n)
  by_cases carry : n / 2 ^ place p q n + 1 = 2 ^ p
  · right
    have cut := cutAbove (p := p) (q := q) (n := n)
    have expand : (n / 2 ^ place p q n + 2) * 2 ^ place p q n =
        (n / 2 ^ place p q n + 1) * 2 ^ place p q n + 2 ^ place p q n := by ring
    have powers : 2 ^ (p + 1) ≤ 2 ^ P := Nat.pow_le_pow_right (by omega) fine
    have power : 1 < 2 ^ p := Nat.one_lt_two_pow (by omega)
    rw [Nat.pow_succ] at powers
    exact ⟨carry, roundUnder ⟨_, _, by omega, Nat.zero_le _, rfl⟩ (by omega)⟩
  · left
    obtain ⟨m, y, small, -, rfl⟩ := float
    obtain ⟨s, gap⟩ := Nat.exists_eq_add_of_lt (finePlace up)
    have weight : 2 ^ place p q (m * 2 ^ y) = 2 ^ (s + 1) * 2 ^ y := by
      rw [gap]
      ring
    have split : m * 2 ^ y / (2 ^ (s + 1) * 2 ^ y) = m / 2 ^ (s + 1) := Nat.mul_div_mul_right _ _ (Nat.two_pow_pos _)
    have size : (m * 2 ^ y).size ≤ P + y := by
      rw [Nat.size_le, Nat.pow_add]
      exact Nat.mul_lt_mul_of_pos_right small (Nat.two_pow_pos y)
    rw [weight, ← Nat.add_mul, split]
    rw [weight, split] at carry bound
    rcases Nat.lt_or_ge s P with near | deep
    · obtain ⟨e, rfl⟩ : ∃ e, P = s + 1 + e := Nat.exists_eq_add_of_le near
      rcases Nat.lt_or_ge (m + 2 ^ (s + 1)) (2 ^ (s + 1 + e)) with fits | long
      · rw [roundSelf ⟨_, y, fits, Nat.zero_le _, rfl⟩, ← Nat.mul_assoc]
        refine Nat.mul_lt_mul_of_pos_right ?_ (Nat.two_pow_pos _)
        have cut := Nat.lt_mul_div_succ m (Nat.two_pow_pos (s + 1))
        rw [Nat.mul_comm, Nat.add_mul] at cut
        rw [Nat.add_mul]
        omega
      · refine sumNear small fun same => ?_
        have least : m / 2 ^ (s + 1) < 2 ^ e := by
          rw [Nat.div_lt_iff_lt_mul (Nat.two_pow_pos _)]
          exact small.trans_le (Nat.le_of_eq (by ring))
        have whole : 2 ^ (s + 1 + e) = 2 ^ e * 2 ^ (s + 1) := by ring
        have least' : 2 ^ e < m / 2 ^ (s + 1) + 2 := by
          refine Nat.lt_of_mul_lt_mul_right (a := 2 ^ (s + 1)) ?_
          rw [← whole, Nat.add_mul]
          rw [Nat.add_mul] at same
          omega
        have used : m / 2 ^ (s + 1) + 1 = 2 ^ e := by omega
        have last : m = 2 ^ (s + 1 + e) - 1 := by
          rw [used, ← whole] at same
          omega
        have narrow : e < p := by
          rw [used] at carry
          have less : 2 ^ e < 2 ^ p := by omega
          exact (Nat.pow_lt_pow_iff_right (by omega)).mp less
        have low : place p q (m * 2 ^ y) = q := by
          unfold place at gap ⊢
          omega
        exact ordinary (by omega) y (by rw [← last])
    · have zero : m / 2 ^ (s + 1) = 0 := by
        refine Nat.div_eq_of_lt (small.trans_le ?_)
        exact Nat.pow_le_pow_right (by omega) (by omega)
      rw [zero]
      exact sumDeep (by omega) small deep

theorem sumLow (fine : p < P) :
    (n / 2 ^ place p q n + 1) * 2 ^ place p q n ≤ roundTo d P 0 (n + 2 ^ place p q n) := by
  have bound := significandBound (p := p) (q := q) (n := n)
  have powers : 2 ^ p < 2 ^ P := Nat.pow_lt_pow_right (by omega) fine
  refine roundOver ⟨_, _, by omega, Nat.zero_le _, rfl⟩ ?_
  have cut := cutBelow (p := p) (q := q) (n := n)
  rw [Nat.add_mul, Nat.one_mul]
  omega

/- A number is rounded to a shorter significand when its last place there is added, as far as it goes up, and the sum is cut. The sum may
itself be rounded to the finer numbers, in any direction. -/
theorem roundByCarry (dir d : Direction) (some : 0 < p) (fine : p < P) (float : Floating P 0 n)
    (ordinary : n.size < q + p → ∀ y, n ≠ (2 ^ P - 1) * 2 ^ y) :
    roundTo .zero p q (if goesUp dir p q n then roundTo d P 0 (n + 2 ^ place p q n) else n) = roundTo dir p q n := by
  cases up : goesUp dir p q n with
  | true =>
      rw [if_pos rfl, cutNext some (sumLow fine) (sumHigh some fine float up ordinary)]
      unfold roundTo
      rw [up, Bool.toNat_true]
  | false =>
      rw [if_neg (by simp), roundZero]
      unfold roundTo
      rw [up, Bool.toNat_false, Nat.add_zero]

end Carry

section Twice

variable {dir : Direction} {p q P n a b m x : Nat}

theorem floatingFiner (fine : p ≤ P) (float : Floating p q n) : Floating P 0 n := by
  obtain ⟨m, x, small, -, rfl⟩ := float
  exact ⟨m, x, small.trans_le (Nat.pow_le_pow_right (by omega) fine), Nat.zero_le _, rfl⟩

theorem nearestAlone (positive : 0 < p) (float : Floating p q a) (alone : ∀ z, Floating p q z → z ≠ a → n.dist a < n.dist z) :
    roundTo .nearest p q n = a := by
  obtain ⟨float', near⟩ := roundNearest (p := p) (q := q) (n := n) positive
  by_contra other
  have nearer := alone _ float' other
  have least := (near a float).1
  omega

theorem floatingGap {z : Nat} (positive : 0 < p) (full : 2 ^ (p - 1) ≤ m) (normal : q < x) (float : Floating p q z)
    (other : z ≠ m * 2 ^ x) : 2 ^ (x - 1) ≤ (m * 2 ^ x).dist z := by
  obtain ⟨l, y, small, -, rfl⟩ := float
  obtain ⟨x, rfl⟩ : ∃ w, x = w + 1 := ⟨x - 1, by omega⟩
  rw [Nat.add_sub_cancel]
  have shape : m * 2 ^ (x + 1) = 2 * m * 2 ^ x := by ring
  rw [shape] at other ⊢
  unfold Nat.dist
  rcases Nat.lt_or_ge y x with fine | whole
  · obtain ⟨p, rfl⟩ := Nat.exists_eq_add_of_lt positive
    have bound : l * 2 ^ y ≤ 2 ^ p * 2 ^ x := by
      calc l * 2 ^ y ≤ 2 ^ (0 + p + 1) * 2 ^ y := Nat.mul_le_mul_right _ (Nat.le_of_lt small)
        _ = 2 ^ p * 2 ^ (y + 1) := by ring
        _ ≤ 2 ^ p * 2 ^ x := Nat.mul_le_mul_left _ (Nat.pow_le_pow_right (by omega) fine)
    have above : (2 ^ p + 2 ^ p) * 2 ^ x ≤ 2 * m * 2 ^ x := by
      refine Nat.mul_le_mul_right _ ?_
      rw [Nat.zero_add, Nat.add_sub_cancel] at full
      omega
    have least : 2 ^ x ≤ 2 ^ p * 2 ^ x := Nat.le_mul_of_pos_left _ (Nat.two_pow_pos _)
    rw [Nat.add_mul] at above
    omega
  · rcases multiplesApart whole (2 * m) l with below | above
    · rcases multiplesApart whole (2 * m - 1) l with under | same
      · have some : 1 ≤ 2 * m := by
          have power := Nat.two_pow_pos (p - 1)
          omega
        rw [Nat.sub_mul, Nat.one_mul] at under
        have least : 2 ^ x ≤ 2 * m * 2 ^ x := Nat.le_mul_of_pos_left _ some
        omega
      · have some : 1 ≤ 2 * m := by
          have power := Nat.two_pow_pos (p - 1)
          omega
        rw [Nat.sub_add_cancel some] at same
        exact absurd (Nat.le_antisymm below same) other
    · rw [Nat.add_mul, Nat.one_mul] at above
      omega

theorem nearRound (some : 0 < p) (small : m < 2 ^ p) (full : 2 ^ (p - 1) ≤ m) (normal : q < x)
    (near : 2 * n.dist (m * 2 ^ x) < 2 ^ (x - 1)) : roundTo .nearest p q n = m * 2 ^ x := by
  refine nearestAlone some ⟨m, x, small, Nat.le_of_lt normal, rfl⟩ fun z float other => ?_
  have gap := floatingGap some full normal float other
  unfold Nat.dist at *
  omega

theorem roundTwiceZero (some : 0 < p) (fine : p ≤ P) : roundTo .zero p q (roundTo .zero P 0 n) = roundTo .zero p q n := by
  obtain ⟨-, under, -⟩ := roundMeets (p := P) (q := 0) (n := n) (by omega) .zero
  obtain ⟨float, below, -⟩ := roundMeets (p := p) (q := q) (n := n) some .zero
  obtain ⟨float', below', -⟩ := roundMeets (p := p) (q := q) (n := roundTo .zero P 0 n) some .zero
  refine Nat.le_antisymm (roundOver float' (below'.trans under)) (roundOver float ?_)
  exact roundOver (floatingFiner fine float) below

theorem roundTwiceAway (some : 0 < p) (fine : p ≤ P) : roundTo .away p q (roundTo .away P 0 n) = roundTo .away p q n := by
  obtain ⟨-, above, -⟩ := roundMeets (p := P) (q := 0) (n := n) (by omega) .away
  obtain ⟨float, over', -⟩ := roundMeets (p := p) (q := q) (n := n) some .away
  obtain ⟨float', over'', -⟩ := roundMeets (p := p) (q := q) (n := roundTo .away P 0 n) some .away
  refine Nat.le_antisymm (roundUnder float ?_) (roundUnder float' (above.trans over''))
  exact roundUnder (floatingFiner fine float) over'

def Sums (a b n : Nat) : Prop := n = a + b ∨ n = a - b

theorem sumFar (positive : 0 < p) (twice : 2 * p + 2 ≤ P) (first : Floating p q a) (second : Floating p q b) (less : b ≤ a) (sums : Sums a b n)
    (long : ¬Floating P 0 n) : ∃ m x, m < 2 ^ p ∧ 2 ^ (p - 1) ≤ m ∧ q < x ∧ p + 2 ≤ x ∧ a = m * 2 ^ x ∧
      b ≤ (2 ^ p - 1) * 2 ^ (x - (p + 2)) := by
  have bound : n ≤ 2 * a := by
    rcases sums with rfl | rfl <;> omega
  -- A common last place that is high enough makes the sum a number of the finer kind.
  have common (y : Nat) (l : Nat) (one : a = l * 2 ^ y) (k : Nat) (two : b = k * 2 ^ y) : 2 ^ (P + y) ≤ n := by
    by_contra few
    refine long ⟨n / 2 ^ y, y, ?_, Nat.zero_le _, (Nat.div_mul_cancel ?_).symm⟩
    · rw [Nat.div_lt_iff_lt_mul (Nat.two_pow_pos _), ← Nat.pow_add]
      omega
    · rcases sums with rfl | rfl
      · exact Nat.dvd_add ⟨l, by rw [one, Nat.mul_comm]⟩ ⟨k, by rw [two, Nat.mul_comm]⟩
      · exact Nat.dvd_sub ⟨l, by rw [one, Nat.mul_comm]⟩ ⟨k, by rw [two, Nat.mul_comm]⟩
  have small := significandBound (p := p) (q := q) (n := a)
  have low := placeLow (p := p) (q := q) (n := a)
  have whole : a = a / 2 ^ place p q a * 2 ^ place p q a := by
    have cut := roundZero (p := p) (q := q) (n := a)
    rwa [roundSelf first] at cut
  have size : a < 2 ^ (p + place p q a) := by
    rw [Nat.add_comm]
    exact Nat.size_le.mp sizePlace
  obtain ⟨k, y, small', low', rfl⟩ := second
  rcases Nat.lt_or_ge y (place p q a) with fine | high
  · have reach := common y (a / 2 ^ place p q a * 2 ^ (place p q a - y)) (by
      rw [Nat.mul_assoc, ← Nat.pow_add, Nat.sub_add_cancel (Nat.le_of_lt fine)]
      exact whole) k rfl
    have room : 2 ^ (P + y) < 2 ^ (p + place p q a + 1) := by
      rw [Nat.pow_succ]
      omega
    have exponents : P + y < p + place p q a + 1 := (Nat.pow_lt_pow_iff_right (by omega)).mp room
    have normal : place p q a = a.size - p := by
      unfold place at fine ⊢
      omega
    have least : 2 ^ (place p q a + p - 1) ≤ a := Nat.lt_size.mp (by omega)
    refine ⟨a / 2 ^ place p q a, place p q a, small, ?_, by omega, by omega, whole, ?_⟩
    · rw [Nat.le_div_iff_mul_le (Nat.two_pow_pos _), ← Nat.pow_add]
      refine Nat.le_trans ?_ least
      exact Nat.pow_le_pow_right (by omega) (by omega)
    · exact Nat.mul_le_mul (by omega) (Nat.pow_le_pow_right (by omega) (by omega))
  · have reach := common (place p q a) _ whole (k * 2 ^ (y - place p q a)) (by
      rw [Nat.mul_assoc, ← Nat.pow_add, Nat.sub_add_cancel high])
    have room : 2 ^ (P + place p q a) < 2 ^ (p + place p q a + 1) := by
      rw [Nat.pow_succ]
      omega
    have exponents := (Nat.pow_lt_pow_iff_right (by omega)).mp room
    omega

/- A sum is rounded to twice the places first: this changes nothing. -/
theorem roundTwiceNearest (some : 0 < p) (twice : 2 * p + 2 ≤ P) (first : Floating p q a) (second : Floating p q b) (less : b ≤ a)
    (sums : Sums a b n) : roundTo .nearest p q (roundTo .nearest P 0 n) = roundTo .nearest p q n := by
  by_cases short : Floating P 0 n
  · rw [roundSelf short]
  · obtain ⟨m, x, small, full, normal, deep, rfl, bound⟩ := sumFar some twice first second less sums short
    obtain ⟨y, rfl⟩ := Nat.exists_eq_add_of_le deep
    have power := Nat.two_pow_pos p
    have weight := Nat.two_pow_pos y
    rw [Nat.add_sub_cancel_left] at bound
    have grid : m * 2 ^ (p + 2 + y) = m * 2 ^ (p + 2) * 2 ^ y := by ring
    have quarter : 2 ^ (p + 2 + y - 1) = 2 * 2 ^ p * 2 ^ y := by
      rw [show p + 2 + y - 1 = 1 + p + y by omega]
      ring
    have strict : 2 * ((2 ^ p - 1) * 2 ^ y) < 2 ^ (p + 2 + y - 1) := by
      rw [quarter, ← Nat.mul_assoc]
      exact Nat.mul_lt_mul_of_pos_right (by omega) weight
    have fits : m * 2 ^ (p + 2) + (2 ^ p - 1) < 2 ^ P := by
      have most : (m + 1) * 2 ^ (p + 2) ≤ 2 ^ p * 2 ^ (p + 2) := Nat.mul_le_mul_right _ small
      have powers : 2 ^ (2 * p + 2) ≤ 2 ^ P := Nat.pow_le_pow_right (by omega) twice
      have shape : 2 ^ p * 2 ^ (p + 2) = 2 ^ (2 * p + 2) := by ring
      rw [Nat.add_mul, Nat.one_mul] at most
      have next : 2 ^ (p + 2) = 4 * 2 ^ p := by ring
      omega
    have upper : Floating P 0 (m * 2 ^ (p + 2 + y) + (2 ^ p - 1) * 2 ^ y) :=
      ⟨_, y, fits, Nat.zero_le _, by rw [grid, Nat.add_mul]⟩
    have lower : Floating P 0 (m * 2 ^ (p + 2 + y) - (2 ^ p - 1) * 2 ^ y) :=
      ⟨m * 2 ^ (p + 2) - (2 ^ p - 1), y, by omega, Nat.zero_le _, by rw [grid, Nat.sub_mul (m * 2 ^ (p + 2))]⟩
    have under : roundTo .nearest P 0 n ≤ m * 2 ^ (p + 2 + y) + (2 ^ p - 1) * 2 ^ y := by
      refine roundUnder upper ?_
      rcases sums with rfl | rfl <;> omega
    have above : m * 2 ^ (p + 2 + y) - (2 ^ p - 1) * 2 ^ y ≤ roundTo .nearest P 0 n := by
      refine roundOver lower ?_
      rcases sums with rfl | rfl <;> omega
    rw [nearRound some small full normal (by unfold Nat.dist; omega)]
    refine (nearRound some small full normal ?_).symm
    unfold Nat.dist
    rcases sums with rfl | rfl <;> omega

theorem roundTwice (dir : Direction) (some : 0 < p) (twice : 2 * p + 2 ≤ P) (first : Floating p q a) (second : Floating p q b)
    (less : b ≤ a) (sums : Sums a b n) : roundTo dir p q (roundTo dir P 0 n) = roundTo dir p q n := by
  cases dir with
  | nearest => exact roundTwiceNearest some twice first second less sums
  | away => exact roundTwiceAway some (by omega)
  | zero => exact roundTwiceZero some (by omega)

end Twice

end Gvsoc.Rounding
