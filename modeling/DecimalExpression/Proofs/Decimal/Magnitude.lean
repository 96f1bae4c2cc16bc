import DecimalExpression.Proofs.Decimal.Number

/-!
# Digits, magnitude and order

The number of digits that is written is the decimal logarithm and one more (`Digits.count_eq`).  So
the magnitude of a decimal is the logarithm of its number (`Decimal.magnitude_eq`), whatever its
scale is, and comparing two decimals is comparing their numbers (`Decimal.compare_eq`).
-/

namespace DecimalExpression

/-! ## 1. How many digits are written

The count of digits is read off what `write` gives, so the question is how long that is.  A block
has a length that is known beforehand; only the leading block is as long as its number.  The
induction is on the halvings, and the case is whether the upper half is zero. -/

namespace Digits

theorem length_block (k n : Nat) (tail : List Char) :
    (block k n tail).length = 2 ^ k + tail.length := by
  induction k generalizing n tail with
  | zero =>
    rw [block, List.length_cons]
    omega
  | succ k ih =>
    rw [block, ih, ih]
    omega

/-- The unit between the halves of a block. -/
theorem unit_half (k : Nat) : unit (1 <<< k) = 10 ^ 2 ^ k := by
  rw [unit, Nat.one_shiftLeft]
  rfl

/-- A number that takes both halves of a block has either half of it in one. -/
theorem div_half_lt {k n : Nat} (small : n < 10 ^ 2 ^ (k + 1)) : n / 10 ^ 2 ^ k < 10 ^ 2 ^ k := by
  rw [Nat.div_lt_iff_lt_mul (by positivity), ← pow_add, ← two_mul, ← pow_succ']
  exact small

/-- **The leading digits** are as many as the logarithm says, where `2 ^ k` digits suffice. -/
theorem length_leading {k n : Nat} (tail : List Char) (small : n < 10 ^ 2 ^ k) :
    (leading k n tail).length = Nat.log 10 n + 1 + tail.length := by
  induction k generalizing n tail with
  | zero =>
    rw [leading, List.length_cons, Nat.log_of_lt (by simpa using small)]
    omega
  | succ k ih =>
    rw [leading, unit_half]
    split
    · rename_i below
      exact ih tail below
    · rename_i above
      have upper := div_half_lt small
      have enough : 2 ^ k ≤ Nat.log 10 n := Nat.le_log_of_pow_le (by decide) (not_lt.mp above)
      rw [ih _ upper, length_block, Nat.log_div_base_pow]
      omega

/-- A number has room in the block that is written for it. -/
theorem lt_block_of_write (n : Nat) : n < 10 ^ 2 ^ (Nat.log2 (Nat.log2 n + 1) + 1) := by
  have bits : n < 2 ^ (Nat.log2 n + 1) := Nat.lt_log2_self
  have enough : Nat.log2 n + 1 < 2 ^ (Nat.log2 (Nat.log2 n + 1) + 1) := Nat.lt_log2_self
  calc n < 2 ^ (Nat.log2 n + 1) := bits
    _ ≤ 2 ^ 2 ^ (Nat.log2 (Nat.log2 n + 1) + 1) := Nat.pow_le_pow_right (by decide) enough.le
    _ ≤ 10 ^ 2 ^ (Nat.log2 (Nat.log2 n + 1) + 1) := Nat.pow_le_pow_left (by decide) _

/-- **The number of digits** of a number is its decimal logarithm and one. -/
theorem count_eq (n : Nat) : count n = Nat.log 10 n + 1 := by
  rw [count, write, length_leading [] (lt_block_of_write n), List.length_nil, add_zero]

end Digits

namespace Decimal

variable {a b d : Decimal}

theorem one_le_digitCount (d : Decimal) : 1 ≤ d.digitCount := by
  rw [digitCount, Digits.count_eq]
  omega

/-! ## 2. The magnitude

Magnitudes are computed from the count of digits and the scale.  Both depend on how a number is
represented, but their difference does not: it is the logarithm of the number. -/

theorem abs_toRat (d : Decimal) : |d.toRat| = (d.unscaled.natAbs : ℚ) * 10 ^ (-d.scale) := by
  rw [toRat_eq, abs_mul, abs_of_pos (ten_zpow_pos _), Nat.cast_natAbs, Int.cast_abs]

/-- **The magnitude is the logarithm of the number.** -/
theorem magnitude_eq (nonzero : d.toRat ≠ 0) : d.magnitude = Int.log 10 |d.toRat| := by
  have unscaled : 0 < d.unscaled.natAbs := by
    rw [Int.natAbs_pos]
    exact fun zero => nonzero (toRat_eq_zero_iff.mpr zero)
  have base : 1 < 10 := by decide
  refine eq_of_forall_le_iff fun e => ?_
  have moved : (10 : ℚ) ^ e ≤ |d.toRat| ↔ (10 : ℚ) ^ (e + d.scale) ≤ (d.unscaled.natAbs : ℚ) := by
    rw [abs_toRat, zpow_neg, ← div_eq_mul_inv, le_div_iff₀ (ten_zpow_pos _), ten_zpow_add]
  have atNumber := Int.zpow_le_iff_le_log base (x := e) (abs_pos.mpr nonzero)
  have atUnscaled := Int.zpow_le_iff_le_log base (x := e + d.scale)
    (r := (d.unscaled.natAbs : ℚ)) (by exact_mod_cast unscaled)
  rw [Int.log_natCast] at atUnscaled
  push_cast at atNumber atUnscaled
  rw [← atNumber, moved, atUnscaled, magnitude, digitCount, Digits.count_eq]
  omega

/-! ## 3. The order

Comparing looks at the signs first, then at the magnitudes, and at the digits only where these
agree.  Each stage settles what the one before left open, so the proof follows the stages; the last
one brings both to a common scale, which keeps the numbers. -/

/-- The absolute value of the unscaled integer at a scale that is no smaller. -/
theorem cast_natAbs_unscaledAt {scale : Int} (h : d.scale ≤ scale) :
    ((d.unscaledAt scale).natAbs : ℚ) = |d.toRat| * 10 ^ scale := by
  rw [Nat.cast_natAbs, Int.cast_abs, cast_unscaledAt h, abs_mul, abs_of_pos (ten_zpow_pos _)]

/-- A smaller magnitude is a smaller number. -/
theorem abs_lt_of_magnitude_lt (left : a.toRat ≠ 0) (right : b.toRat ≠ 0)
    (less : a.magnitude < b.magnitude) : |a.toRat| < |b.toRat| := by
  rw [magnitude_eq left, magnitude_eq right] at less
  by_contra no
  exact absurd (Int.log_mono_right (abs_pos.mpr right) (not_lt.mp no)) (not_le.mpr less)

/-- **Comparing two decimals without their signs** compares the absolute values.  The magnitudes are
compared first, and where they differ that decides.  Where they are the same the unscaled integers
are compared at one scale. -/
theorem compareMagnitude_eq (left : a.toRat ≠ 0) (right : b.toRat ≠ 0) :
    a.compareMagnitude b = compare |a.toRat| |b.toRat| := by
  rw [compareMagnitude]
  cases order : compare a.magnitude b.magnitude with
  | lt =>
    exact (compare_lt_iff_lt.mpr
      (abs_lt_of_magnitude_lt left right (compare_lt_iff_lt.mp order))).symm
  | gt =>
    exact (compare_gt_iff_gt.mpr
      (abs_lt_of_magnitude_lt right left (compare_gt_iff_gt.mp order))).symm
  | eq =>
    -- Aligned at one scale, both are multiplied by the same power of ten.
    have scale := ten_zpow_pos (max a.scale b.scale)
    have aligned := (Nat.strictMono_cast (α := ℚ)).cmp_map_eq
      (a.unscaledAt (max a.scale b.scale)).natAbs (b.unscaledAt (max a.scale b.scale)).natAbs
    rw [cast_natAbs_unscaledAt (le_max_left _ _), cast_natAbs_unscaledAt (le_max_right _ _),
      (strictMono_mul_right_of_pos scale).cmp_map_eq, cmp_eq_compare, cmp_eq_compare] at aligned
    exact aligned.symm

/-- A decimal has the sign of its unscaled integer. -/
theorem sign_toRat (d : Decimal) : (SignType.sign d.toRat : ℤ) = d.unscaled.sign := by
  rw [Int.sign_eq_sign, toRat_eq, sign_mul, sign_pos (ten_zpow_pos _), mul_one]
  rcases lt_trichotomy d.unscaled 0 with negative | zero | positive
  · rw [sign_neg negative, sign_neg (by exact_mod_cast negative)]
  · rw [zero, Int.cast_zero, sign_zero, sign_zero]
  · rw [sign_pos positive, sign_pos (by exact_mod_cast positive)]

theorem lt_of_sign_lt (less : a.unscaled.sign < b.unscaled.sign) : a.toRat < b.toRat := by
  rw [← sign_toRat, ← sign_toRat] at less
  have order : ∀ s t : SignType, s ≤ t → (s : ℤ) ≤ t := by decide
  by_contra no
  exact absurd (order _ _ (SignType.sign.monotone (not_lt.mp no))) (not_le.mpr less)

/-- **Comparing two decimals compares their numbers**, whatever their scales are.  The signs are
compared first.  For two negative decimals the comparison of the absolute values is the other way
round. -/
theorem compare_eq (a b : Decimal) : a.compare b = compare a.toRat b.toRat := by
  rw [Decimal.compare]
  cases order : compare a.unscaled.sign b.unscaled.sign with
  | lt => exact (compare_lt_iff_lt.mpr (lt_of_sign_lt (compare_lt_iff_lt.mp order))).symm
  | gt => exact (compare_gt_iff_gt.mpr (lt_of_sign_lt (compare_gt_iff_gt.mp order))).symm
  | eq =>
    have injective : ∀ s t : SignType, (s : ℤ) = t → s = t := by decide
    have same : SignType.sign a.toRat = SignType.sign b.toRat :=
      injective _ _ (by rw [sign_toRat, sign_toRat, compare_eq_iff_eq.mp order])
    dsimp only
    rcases lt_trichotomy a.toRat 0 with left | left | left
    · have right : b.toRat < 0 := sign_eq_neg_one_iff.mp (same ▸ sign_neg left)
      have reversed : StrictAnti fun x : ℚ => -x := fun _ _ => neg_lt_neg
      rw [if_neg (isZero_iff.not.mpr left.ne), if_pos (toRat_lt_zero_iff.mp left),
        compareMagnitude_eq right.ne left.ne, abs_of_neg left, abs_of_neg right, ← cmp_eq_compare,
        reversed.cmp_map_eq, cmp_eq_compare]
    · have right : b.toRat = 0 := sign_eq_zero_iff.mp (same ▸ left ▸ sign_zero)
      rw [if_pos (isZero_iff.mpr left), left, right, compare_eq_iff_eq.mpr rfl]
    · have right : 0 < b.toRat := sign_eq_one_iff.mp (same ▸ sign_pos left)
      rw [if_neg (isZero_iff.not.mpr left.ne'), if_neg (toRat_lt_zero_iff.not.mp left.not_gt),
        compareMagnitude_eq left.ne' right.ne', abs_of_pos left, abs_of_pos right]

end Decimal
end DecimalExpression
