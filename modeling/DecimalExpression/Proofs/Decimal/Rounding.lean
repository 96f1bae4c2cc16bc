import DecimalExpression.Decimal.Rounding
import Mathlib

/-!
# Rounding is rounding of the exact quotient

What a mode means is said of rational numbers, by floor and ceiling and the nearer of the two
(`RoundingMode.round?`).  A quotient of integers is rounded from what the truncating division
leaves, and that is the rounding of the exact quotient (`RoundingMode.roundQuotient_eq`).  So the
outcome does not depend on the fraction that the quotient is written as.

Rounding moves a number by less than one (`RoundingMode.abs_sub_lt_one`), so it passes no integer.
Where it carries, rounding the same number in coarser steps carries as well
(`RoundingMode.round?_of_carry`).
-/

namespace DecimalExpression
namespace RoundingMode

/-! ## 1. The modes as functions

The eight modes are functions on rational numbers here, built from floor and ceiling.  This is the
meaning that every other statement on rounding refers to, and it is said without a quotient, a
remainder or a sign. -/

/-- The neighbour further from zero. -/
def awayFromZero (q : ℚ) : ℤ := if 0 ≤ q then ⌈q⌉ else ⌊q⌋

/-- The neighbour nearer to zero. -/
def towardsZero (q : ℚ) : ℤ := if 0 ≤ q then ⌊q⌋ else ⌈q⌉

/-- The even one of the two neighbours. -/
def evenNeighbour (q : ℚ) : ℤ := if Even ⌊q⌋ then ⌊q⌋ else ⌈q⌉

/-- **The nearer neighbour**, or `tie` in the middle of the two. -/
def nearest (tie : ℤ) (q : ℚ) : ℤ :=
  if Int.fract q < 1 / 2 then ⌊q⌋ else if 1 / 2 < Int.fract q then ⌈q⌉ else tie

/-- **A rational number rounded** to an integer.  A mode that refuses to round takes integers
only. -/
def round? (mode : RoundingMode) (q : ℚ) : Option ℤ :=
  match mode with
  | up => some (awayFromZero q)
  | down => some (towardsZero q)
  | ceiling => some ⌈q⌉
  | floor => some ⌊q⌋
  | halfUp => some (nearest (awayFromZero q) q)
  | halfDown => some (nearest (towardsZero q) q)
  | halfEven => some (nearest (evenNeighbour q) q)
  | unnecessary => if (⌊q⌋ : ℚ) = q then some ⌊q⌋ else none

variable {k : ℤ} {f : ℚ}

/-- **Integers stay.** -/
@[simp] theorem round?_intCast (mode : RoundingMode) (n : ℤ) : mode.round? (n : ℚ) = some n := by
  cases mode <;> simp [round?, awayFromZero, towardsZero, nearest]

/-! ## 2. Between two neighbours

A number that is no integer lies between two, and is one of them plus or minus a fraction.  In that
form all the functions above can be computed, and each mode turns into a choice between the integer
nearer to zero and the other one.  Positive and negative numbers are treated apart, because the
truncation that a computation starts from is on different sides of them. -/

section Neighbours

variable (positive : 0 < f) (small : f < 1)
include positive small

theorem floor_add : ⌊(k : ℚ) + f⌋ = k := by
  rw [Int.floor_intCast_add, Int.floor_eq_zero_iff.mpr ⟨positive.le, small⟩, add_zero]

theorem ceil_add : ⌈(k : ℚ) + f⌉ = k + 1 := by
  rw [Int.ceil_eq_iff]
  push_cast
  constructor <;> linarith

theorem floor_sub : ⌊(k : ℚ) - f⌋ = k - 1 := by
  rw [Int.floor_eq_iff]
  push_cast
  constructor <;> linarith

theorem ceil_sub : ⌈(k : ℚ) - f⌉ = k := by
  rw [Int.ceil_eq_iff]
  constructor <;> linarith

/-- The nearer neighbour of a number above `k`. -/
theorem nearest_add (tie : ℤ) : nearest tie (k + f) =
    match compare (2 * f) 1 with | .lt => k | .eq => tie | .gt => k + 1 := by
  have fraction : Int.fract ((k : ℚ) + f) = f := by
    rw [Int.fract, floor_add positive small]
    ring
  rw [nearest, fraction, floor_add positive small, ceil_add positive small]
  rcases lt_trichotomy (2 * f) 1 with below | middle | above
  · rw [compare_lt_iff_lt.mpr below, if_pos (by linarith)]
  · rw [compare_eq_iff_eq.mpr middle, if_neg (by linarith), if_neg (by linarith)]
  · rw [compare_gt_iff_gt.mpr above, if_neg (by linarith), if_pos (by linarith)]

/-- The nearer neighbour of a number below `k`. -/
theorem nearest_sub (tie : ℤ) : nearest tie (k - f) =
    match compare (2 * f) 1 with | .lt => k | .eq => tie | .gt => k - 1 := by
  have fraction : Int.fract ((k : ℚ) - f) = 1 - f := by
    rw [Int.fract, floor_sub positive small]
    push_cast
    ring
  rw [nearest, fraction, floor_sub positive small, ceil_sub positive small]
  rcases lt_trichotomy (2 * f) 1 with below | middle | above
  · rw [compare_lt_iff_lt.mpr below, if_neg (by linarith), if_pos (by linarith)]
  · rw [compare_eq_iff_eq.mpr middle, if_neg (by linarith), if_neg (by linarith)]
  · rw [compare_gt_iff_gt.mpr above, if_pos (by linarith)]

/-- **A positive number between two integers**: the lower one is kept, or is moved away from zero.
Mode by mode: five do not look at where between the integers the number is, two look at the half,
and one at the parity as well. -/
theorem round?_add (mode : RoundingMode) (nonneg : 0 ≤ k) :
    mode.round? (k + f) = (mode.movesAway false (k.natAbs % 2 = 1) (compare (2 * f) 1)).map
      fun away => if away then k + 1 else k := by
  have sign : (0 : ℚ) ≤ k + f := by positivity
  have noInteger : (k : ℚ) ≠ k + f := by linarith
  have floor := floor_add (k := k) positive small
  have ceil := ceil_add (k := k) positive small
  cases mode with
  | up | down | ceiling | floor | unnecessary =>
    simp [round?, movesAway, awayFromZero, towardsZero, floor, ceil, sign, noInteger]
  | halfUp | halfDown =>
    rw [round?, nearest_add positive small]
    cases compare (2 * f) 1 <;> simp [movesAway, awayFromZero, towardsZero, floor, ceil, sign]
  | halfEven =>
    have parity : Even k ↔ ¬ k.natAbs % 2 = 1 := by
      rw [Int.even_iff]
      omega
    rw [round?, nearest_add positive small, evenNeighbour, floor, ceil]
    cases compare (2 * f) 1 with
    | lt | gt => simp [movesAway]
    | eq => by_cases odd : k.natAbs % 2 = 1 <;> simp only [parity, odd, movesAway] <;> rfl

/-- **A negative number between two integers**: the upper one is kept, or is moved away from zero.
As for positive numbers, with the neighbours and the halves the other way round. -/
theorem round?_sub (mode : RoundingMode) (nonpos : k ≤ 0) :
    mode.round? (k - f) = (mode.movesAway true (k.natAbs % 2 = 1) (compare (2 * f) 1)).map
      fun away => if away then k - 1 else k := by
  have sign : ¬ (0 : ℚ) ≤ k - f := by
    have nonpos : (k : ℚ) ≤ 0 := by exact_mod_cast nonpos
    linarith
  have noInteger : (k : ℚ) - 1 ≠ k - f := by
    intro same
    linarith
  have floor := floor_sub (k := k) positive small
  have ceil := ceil_sub (k := k) positive small
  cases mode with
  | up | down | ceiling | floor | unnecessary =>
    simp [round?, movesAway, awayFromZero, towardsZero, floor, ceil, sign, noInteger]
  | halfUp | halfDown =>
    rw [round?, nearest_sub positive small]
    cases compare (2 * f) 1 <;> simp [movesAway, awayFromZero, towardsZero, floor, ceil, sign]
  | halfEven =>
    have parity : Even (k - 1) ↔ k.natAbs % 2 = 1 := by
      rw [Int.even_iff]
      omega
    rw [round?, nearest_sub positive small, evenNeighbour, floor, ceil]
    cases compare (2 * f) 1 <;> simp [movesAway, parity]

end Neighbours

/-! ## 3. Quotients

Truncating division gives the integer nearer to zero, and its remainder says all that a mode asks
for: whether there is a fraction at all, and how it compares with a half.  So the facts that
`movesAway` decides from are the facts that the cases above were split by. -/

/-- A fraction is its integer part and what is left. -/
theorem quotient_add_remainder (n : ℕ) {d : ℕ} (nonzero : d ≠ 0) :
    (n : ℚ) / d = (n / d : ℕ) + ((n % d : ℕ) : ℚ) / d := by
  have whole : (d : ℚ) * (n / d : ℕ) + (n % d : ℕ) = n := by exact_mod_cast Nat.div_add_mod n d
  have positive : (d : ℚ) ≠ 0 := by exact_mod_cast nonzero
  field_simp
  linarith

/-- How twice a remainder compares with the divisor. -/
theorem compare_remainder (r : ℕ) {d : ℕ} (nonzero : d ≠ 0) :
    compare (2 * r) d = compare (2 * ((r : ℚ) / d)) 1 := by
  have positive : (0 : ℚ) < d := by exact_mod_cast Nat.pos_of_ne_zero nonzero
  have mono : StrictMono fun n : ℕ => (n : ℚ) / d := fun m n less =>
    div_lt_div_of_pos_right (by exact_mod_cast less) positive
  have scaled := mono.cmp_map_eq (2 * r) d
  rw [cmp_eq_compare, cmp_eq_compare, div_self positive.ne', Nat.cast_mul, Nat.cast_ofNat,
    mul_div_assoc] at scaled
  exact scaled.symm

/-- **The sign of a quotient** with a remainder, and the quotient without it.  The four combinations
of signs come to two. -/
theorem sign_cases {n d : ℤ} (nonzero : d ≠ 0) (remainder : n.tmod d ≠ 0) :
    (((n < 0) != (d < 0)) = false ∧ n.tdiv d = (n.natAbs / d.natAbs : ℕ) ∧
      (n : ℚ) / d = (n.natAbs : ℚ) / d.natAbs) ∨
    (((n < 0) != (d < 0)) = true ∧ n.tdiv d = -(n.natAbs / d.natAbs : ℕ) ∧
      (n : ℚ) / d = -((n.natAbs : ℚ) / d.natAbs)) := by
  have dividend : n ≠ 0 := by
    rintro rfl
    exact remainder (Int.zero_tmod d)
  clear remainder
  obtain ⟨s, rfl | rfl⟩ := n.eq_nat_or_neg <;> obtain ⟨t, rfl | rfl⟩ := d.eq_nat_or_neg
  · refine .inl ⟨?_, by simp, by simp⟩
    rw [bne_eq_false_iff_eq, decide_eq_decide]
    omega
  · refine .inr ⟨?_, by simp, by simp [div_neg]⟩
    rw [bne_iff_ne, ne_eq, decide_eq_decide]
    omega
  · refine .inr ⟨?_, by simp, by simp [neg_div]⟩
    rw [bne_iff_ne, ne_eq, decide_eq_decide]
    omega
  · refine .inl ⟨?_, by simp, by simp⟩
    rw [bne_eq_false_iff_eq, decide_eq_decide]
    omega

/-- **A quotient of integers is rounded as the rational number** that it is.  Without a remainder
the quotient is an integer, and all modes keep it.  With one, the quotient lies between two
integers, on the side that the signs say. -/
theorem roundQuotient_eq (mode : RoundingMode) (n : ℤ) {d : ℤ} (nonzero : d ≠ 0) :
    mode.roundQuotient n d = mode.round? (n / d) := by
  rw [roundQuotient]
  dsimp only
  split
  · rename_i whole
    have product : d * n.tdiv d = n := by
      have split := Int.mul_tdiv_add_tmod n d
      rwa [whole, add_zero] at split
    have value : (n : ℚ) / d = (n.tdiv d : ℤ) := by
      rw [div_eq_iff (by exact_mod_cast nonzero), mul_comm]
      exact_mod_cast product.symm
    rw [value, round?_intCast]
  · rename_i remainder
    have divisor : d.natAbs ≠ 0 := Int.natAbs_ne_zero.mpr nonzero
    have left : n.natAbs % d.natAbs ≠ 0 := by rwa [← Int.natAbs_tmod, Int.natAbs_ne_zero]
    have bound : (0 : ℚ) < d.natAbs := by exact_mod_cast Nat.pos_of_ne_zero divisor
    have positive : 0 < ((n.natAbs % d.natAbs : ℕ) : ℚ) / d.natAbs :=
      div_pos (by exact_mod_cast Nat.pos_of_ne_zero left) bound
    have small : ((n.natAbs % d.natAbs : ℕ) : ℚ) / d.natAbs < 1 := by
      rw [div_lt_one bound]
      exact_mod_cast Nat.mod_lt _ (Nat.pos_of_ne_zero divisor)
    have split := quotient_add_remainder n.natAbs divisor
    rw [Int.natAbs_tmod, compare_remainder _ divisor]
    obtain ⟨sign, truncated, value⟩ | ⟨sign, truncated, value⟩ := sign_cases nonzero remainder
    · have rounded := round?_add positive small mode (Int.natCast_nonneg (n.natAbs / d.natAbs))
      rw [value, split, sign, truncated]
      exact rounded.symm
    · have rounded := round?_sub positive small mode
        (Int.neg_nonpos_of_nonneg (Int.natCast_nonneg (n.natAbs / d.natAbs)))
      rw [value, split, neg_add', sign, truncated]
      rw [Int.cast_neg, Int.cast_natCast] at rounded
      exact rounded.symm

/-! ## 4. Near the number

Bounds on what rounding can do, for any mode.  They follow from one fact, that a rounded number is
one of its two neighbours, and they are what later proofs use in place of the definition. -/

section Near

variable {mode : RoundingMode} {q : ℚ} {z : ℤ}

/-- The nearer neighbour is one of the two, if the tie is. -/
theorem nearest_eq_floor_or_ceil {tie : ℤ} (q : ℚ) (neighbour : tie = ⌊q⌋ ∨ tie = ⌈q⌉) :
    nearest tie q = ⌊q⌋ ∨ nearest tie q = ⌈q⌉ := by
  rw [nearest]
  split_ifs
  · exact .inl rfl
  · exact .inr rfl
  · exact neighbour

/-- **A number is rounded to a neighbour.**  Each mode chooses one of the two, whatever it goes by.
-/
theorem eq_floor_or_ceil (rounded : mode.round? q = some z) : z = ⌊q⌋ ∨ z = ⌈q⌉ := by
  have away : awayFromZero q = ⌊q⌋ ∨ awayFromZero q = ⌈q⌉ := by
    rw [awayFromZero]
    split_ifs <;> simp
  have towards : towardsZero q = ⌊q⌋ ∨ towardsZero q = ⌈q⌉ := by
    rw [towardsZero]
    split_ifs <;> simp
  have even : evenNeighbour q = ⌊q⌋ ∨ evenNeighbour q = ⌈q⌉ := by
    rw [evenNeighbour]
    split_ifs <;> simp
  cases mode with
  | up => cases rounded; exact away
  | down => cases rounded; exact towards
  | ceiling => cases rounded; exact .inr rfl
  | floor => cases rounded; exact .inl rfl
  | halfUp => cases rounded; exact nearest_eq_floor_or_ceil q away
  | halfDown => cases rounded; exact nearest_eq_floor_or_ceil q towards
  | halfEven => cases rounded; exact nearest_eq_floor_or_ceil q even
  | unnecessary =>
    rw [round?] at rounded
    split_ifs at rounded
    cases rounded
    exact .inl rfl

/-- **Rounding moves a number by less than one.** -/
theorem abs_sub_lt_one (rounded : mode.round? q = some z) : |(z : ℚ) - q| < 1 := by
  rw [abs_lt]
  obtain rfl | rfl := eq_floor_or_ceil rounded
  · have lower := Int.floor_le q
    have upper := Int.lt_floor_add_one q
    constructor <;> linarith
  · have lower := Int.le_ceil q
    have upper := Int.ceil_lt_add_one q
    constructor <;> linarith

/-- Rounding does not pass an integer: a number below `n` in size stays so. -/
theorem natAbs_le_of_abs_lt {n : ℕ} (rounded : mode.round? q = some z) (below : |q| < n) :
    z.natAbs ≤ n := by
  have near := abs_sub_lt_one rounded
  have size : |(z : ℚ)| < n + 1 := by
    have triangle := abs_add_le ((z : ℚ) - q) q
    rw [sub_add_cancel] at triangle
    linarith
  rw [← Int.cast_abs, ← Nat.cast_natAbs] at size
  exact Nat.lt_succ_iff.mp (by exact_mod_cast size)

/-- Rounding does not pass an integer: a number of size `n` or more stays so. -/
theorem le_natAbs_of_le_abs {n : ℕ} (rounded : mode.round? q = some z) (above : (n : ℚ) ≤ |q|) :
    n ≤ z.natAbs := by
  have near := abs_sub_lt_one rounded
  have size : (n : ℚ) < |(z : ℚ)| + 1 := by
    have triangle := abs_add_le (q - (z : ℚ)) z
    rw [sub_add_cancel, abs_sub_comm] at triangle
    linarith
  rw [← Int.cast_abs, ← Nat.cast_natAbs] at size
  exact Nat.lt_succ_iff.mp (by exact_mod_cast size)

/-- **Only one mode refuses to round**, and it does so unless there is nothing to round. -/
theorem round?_eq_none_iff : mode.round? q = none ↔ mode = .unnecessary ∧ ¬ ∃ n : ℤ, q = n := by
  cases mode with
  | unnecessary =>
    have whole : (⌊q⌋ : ℚ) = q ↔ ∃ n : ℤ, q = n := by
      refine ⟨fun same => ⟨_, same.symm⟩, ?_⟩
      rintro ⟨n, rfl⟩
      rw [Int.floor_intCast]
    simp [round?, whole]
  | up | down | ceiling | floor | halfUp | halfDown | halfEven => simp [round?]

/-! ## 5. Carries

Where digits are cut, a carry can make a number longer, and then it has to be cut again, one place
coarser.  That the second cut agrees with rounding at once is not true of numbers in general, since
rounding twice can go wrong; it is true of a number that was just carried to a multiple of the
step. -/

/-- What moves away from zero at all does so more than half way. -/
theorem movesAway_gt {negative odd odd' : Bool} {half : Ordering}
    (moves : mode.movesAway negative odd half = some true) :
    mode.movesAway negative odd' .gt = some true := by
  cases mode <;> simp_all [movesAway]

/-- A positive number between two integers moves up exactly where the mode says so. -/
theorem round?_eq_above_iff {k : ℤ} (positive : 1 ≤ k) (above : (k : ℚ) - 1 < q) (below : q < k) :
    mode.round? q = some k ↔
      mode.movesAway false ((k - 1).natAbs % 2 = 1) (compare (2 * (q - (k - 1))) 1)
        = some true := by
  have rounded := round?_add (k := k - 1) (f := q - (k - 1)) (by linarith) (by linarith) mode
    (by omega)
  rw [Int.cast_sub, Int.cast_one, add_sub_cancel] at rounded
  rw [rounded, Option.map_eq_some_iff]
  constructor
  · rintro ⟨away, moves, moved⟩
    cases away with
    | true => exact moves
    | false => exact absurd (if_neg Bool.false_ne_true ▸ moved) (by omega)
  · exact fun moves => ⟨true, moves, sub_add_cancel k 1⟩

/-- A negative number between two integers moves down exactly where the mode says so. -/
theorem round?_eq_below_iff {k : ℤ} (negative : k ≤ -1) (above : (k : ℚ) < q) (below : q < k + 1) :
    mode.round? q = some k ↔
      mode.movesAway true ((k + 1).natAbs % 2 = 1) (compare (2 * (k + 1 - q)) 1) = some true := by
  have rounded := round?_sub (k := k + 1) (f := k + 1 - q) (by linarith) (by linarith) mode
    (by omega)
  rw [Int.cast_add, Int.cast_one, sub_sub_cancel] at rounded
  rw [rounded, Option.map_eq_some_iff]
  constructor
  · rintro ⟨away, moves, moved⟩
    cases away with
    | true => exact moves
    | false => exact absurd (if_neg Bool.false_ne_true ▸ moved) (by omega)
  · exact fun moves => ⟨true, moves, add_sub_cancel_right k 1⟩

/-- A carry upwards stays one in coarser steps. -/
theorem round?_of_carry_up {t : ℕ} (several : 2 ≤ t) {w : ℤ} (positive : 1 ≤ w)
    (rounded : mode.round? q = some (w * t)) (less : q < w * t) :
    mode.round? (q / t) = some w := by
  have steps : (2 : ℚ) ≤ t := by exact_mod_cast several
  have near := abs_lt.mp (abs_sub_lt_one rounded)
  push_cast at near
  have closer : (w : ℚ) - 1 / 2 < q / t := by
    rw [lt_div_iff₀ (by linarith)]
    linarith
  have below : q / t < w := by rwa [div_lt_iff₀ (by linarith)]
  rw [round?_eq_above_iff (by nlinarith) (by push_cast; linarith) (by push_cast; exact less)]
    at rounded
  rw [round?_eq_above_iff positive (by linarith) below, compare_gt_iff_gt.mpr (by linarith)]
  exact movesAway_gt rounded

/-- A carry downwards stays one in coarser steps. -/
theorem round?_of_carry_down {t : ℕ} (several : 2 ≤ t) {w : ℤ} (negative : w ≤ -1)
    (rounded : mode.round? q = some (w * t)) (less : w * t < q) :
    mode.round? (q / t) = some w := by
  have steps : (2 : ℚ) ≤ t := by exact_mod_cast several
  have near := abs_lt.mp (abs_sub_lt_one rounded)
  push_cast at near
  have closer : q / t < w + 1 / 2 := by
    rw [div_lt_iff₀ (by linarith)]
    linarith
  have above : (w : ℚ) < q / t := by rwa [lt_div_iff₀ (by linarith)]
  rw [round?_eq_below_iff (by nlinarith) (by push_cast; exact less) (by push_cast; linarith)]
    at rounded
  rw [round?_eq_below_iff negative above (by linarith), compare_gt_iff_gt.mpr (by linarith)]
  exact movesAway_gt rounded

/-- **A carry stays one in coarser steps.**  A number that is rounded away from zero to a multiple
of `t` is rounded to the same in steps of `t`: it is closer to it there. -/
theorem round?_of_carry {t : ℕ} (positive : 1 ≤ t) {w : ℤ} (rounded : mode.round? q = some (w * t))
    (carried : |q| ≤ |(w : ℚ) * t|) : mode.round? (q / t) = some w := by
  have step : (1 : ℚ) ≤ t := by exact_mod_cast positive
  -- A number that is such a multiple already is an integer in these steps.
  by_cases same : q = w * t
  · rw [same, mul_div_assoc, div_self (by linarith), mul_one, round?_intCast]
  obtain rfl | several := positive.eq_or_lt
  · simpa using rounded
  obtain ⟨lower, upper⟩ := abs_le.mp carried
  rcases lt_trichotomy w 0 with negative | rfl | above
  · have sign : (w : ℚ) ≤ -1 := by exact_mod_cast Int.le_sub_one_of_lt negative
    rw [abs_of_nonpos (by nlinarith), neg_neg] at lower
    exact round?_of_carry_down several (by omega) rounded (lt_of_le_of_ne lower (Ne.symm same))
  · simp_all
  · have sign : (1 : ℚ) ≤ w := by exact_mod_cast above
    rw [abs_of_nonneg (by nlinarith)] at upper
    exact round?_of_carry_up several (by omega) rounded (lt_of_le_of_ne upper same)

end Near
end RoundingMode
end DecimalExpression
