import DecimalExpression.Proofs.Decimal.SignificantDigits

/-!
# Quotients of some significant digits

Division to a precision guesses the scale of its result from the magnitudes of the operands.  The
guess is the right one or one place too many (`log_div`), and the digits of the first quotient tell
which, but for a carry: then the second quotient, of the same operands, has a place less than it
could have, and is a power of ten in its place, too (`exists_carried`).  So the quotient is rounded
only once (`Decimal.divideToPrecision_rounds`).
-/

namespace DecimalExpression

open Decimal

variable {n : ℕ} {q : ℚ} {mode : RoundingMode} {a b : Decimal}

/-! ## 1. The guess

Dividing numbers subtracts their logarithms, but rounding these down loses something: the difference
is the logarithm of the quotient or one more.  Hence a guess made of magnitudes is right, or has a
place too many. -/

/-- **The logarithm of a quotient** is the difference of the logarithms, or one less.  The two
bounds on each logarithm give two on that of the quotient, and these leave room for two integers. -/
theorem log_div {x y : ℚ} (dividend : x ≠ 0) (divisor : y ≠ 0) :
    Int.log 10 |x / y| = Int.log 10 |x| - Int.log 10 |y| ∨
      Int.log 10 |x / y| = Int.log 10 |x| - Int.log 10 |y| - 1 := by
  have base : 1 < 10 := by decide
  have top := abs_pos.mpr dividend
  have bottom := abs_pos.mpr divisor
  have quotient : 0 < |x / y| := abs_pos.mpr (div_ne_zero dividend divisor)
  have topLower := Int.zpow_log_le_self base top
  have topUpper := Int.lt_zpow_succ_log_self base |x|
  have bottomLower := Int.zpow_log_le_self base bottom
  have bottomUpper := Int.lt_zpow_succ_log_self base |y|
  push_cast at topLower topUpper bottomLower bottomUpper
  have lower : (10 : ℚ) ^ (Int.log 10 |x| - (Int.log 10 |y| + 1)) ≤ |x / y| := by
    rw [zpow_sub₀ (by norm_num), abs_div]
    exact div_le_div₀ top.le topLower bottom bottomUpper.le
  have upper : |x / y| < (10 : ℚ) ^ (Int.log 10 |x| + 1 - Int.log 10 |y|) := by
    rw [zpow_sub₀ (by norm_num), abs_div]
    exact div_lt_div₀ topUpper bottomLower (ten_zpow_pos _).le (ten_zpow_pos _)
  have least := (Int.zpow_le_iff_le_log base quotient).mp (by exact_mod_cast lower)
  have most := (Int.lt_zpow_iff_log_lt base quotient).mp (by exact_mod_cast upper)
  omega

/-- **The guess** is the scale of the last digit, or has one place more. -/
theorem exists_guess (dividend : a.toRat ≠ 0) (divisor : b.toRat ≠ 0) (n : ℕ) :
    ∃ k : ℕ, k ≤ 1 ∧ (n : Int) - (a.magnitude - b.magnitude)
      = cutScale (a.toRat / b.toRat) n + k := by
  rw [magnitude_eq dividend, magnitude_eq divisor, cutScale]
  obtain log | log := log_div dividend divisor
  · exact ⟨1, le_rfl, by omega⟩
  · exact ⟨0, by omega, by omega⟩

/-! ## 2. The correction

The digits of the first quotient tell whether there is a place too many, for they are counted.
Behind a carry they are misleading, because a number that was rounded up to a power of ten has a
digit that the exact quotient has not.  Then the corrected scale is a place short, and still the
result is the same power of ten: the carry happens at fewer places as well (`exists_carried`). -/

/-- **The digits of a rounded number**: those in front of the point, or one more behind a carry. -/
theorem digitCount_of_rounded (nonzero : q ≠ 0) (positive : 1 ≤ n) {k : ℕ} {z : ℤ} (scale : Int)
    (rounded : mode.round? (q * 10 ^ (cutScale q n + k)) = some z) :
    (⟨z, scale⟩ : Decimal).digitCount = n + k ∨
      (⟨z, scale⟩ : Decimal).digitCount = n + k + 1 ∧ z.natAbs = 10 ^ (n + k) := by
  obtain ⟨lower, upper⟩ := natAbs_of_rounded nonzero positive rounded
  rw [digitCount, Digits.count_eq]
  dsimp only
  obtain less | power := upper.lt_or_eq
  · have log : Nat.log 10 z.natAbs = n + k - 1 :=
      Nat.log_eq_of_pow_le_of_lt_pow lower (by rwa [Nat.sub_add_cancel (by omega)])
    exact .inl (by rw [log]; omega)
  · exact .inr ⟨by rw [power, Nat.log_pow (by decide)], power⟩

/-- **A power of ten that a number is rounded to** is the one that it is rounded to at fewer places.
The number is below that power, so it was moved away from zero, and it is moved further at fewer
places, in the same direction. -/
theorem exists_coarser {scale : Int} {m j : ℕ} {z : ℤ} (below : |q * 10 ^ scale| < 10 ^ m)
    (rounded : mode.round? (q * 10 ^ scale) = some z) (power : z.natAbs = 10 ^ m) (fewer : j ≤ m) :
    ∃ w : ℤ, z = w * 10 ^ j ∧ w.natAbs = 10 ^ (m - j) ∧
      mode.round? (q * 10 ^ (scale - j)) = some w := by
  have divides : (10 : ℤ) ^ j ∣ z := by
    rw [← Int.natAbs_dvd_natAbs, power, Int.natAbs_pow]
    exact pow_dvd_pow 10 fewer
  obtain ⟨w, product⟩ := divides
  rw [mul_comm] at product
  refine ⟨w, product, ?_, ?_⟩
  · rw [product, Int.natAbs_mul, Int.natAbs_pow, ← Nat.sub_add_cancel fewer, pow_add] at power
    exact Nat.eq_of_mul_eq_mul_right (by positivity) power
  · have shifted : q * 10 ^ (scale - j) = q * 10 ^ scale / (10 ^ j : ℕ) := by
      rw [zpow_sub₀ (by norm_num), zpow_natCast, mul_div_assoc, Nat.cast_pow, Nat.cast_ofNat]
    have carried : |q * 10 ^ scale| ≤ |(w : ℚ) * (10 ^ j : ℕ)| := by
      have size : |(w : ℚ) * (10 ^ j : ℕ)| = 10 ^ m := by
        have same : (w : ℚ) * (10 ^ j : ℕ) = z := by exact_mod_cast product.symm
        rw [same, ← Int.cast_abs, ← Nat.cast_natAbs, power, Nat.cast_pow, Nat.cast_ofNat]
      exact size.symm ▸ below.le
    rw [shifted]
    refine RoundingMode.round?_of_carry (Nat.one_le_pow _ _ (by decide)) ?_ carried
    rw [rounded, product, Nat.cast_pow, Nat.cast_ofNat]

/-- **Behind a carry**, the same number rounded at one place less than its last digit needs is the
power of ten as well. -/
theorem exists_carried (nonzero : q ≠ 0) (positive : 1 ≤ n) {k : ℕ} {z : ℤ}
    (rounded : mode.round? (q * 10 ^ (cutScale q n + k)) = some z)
    (carried : z.natAbs = 10 ^ (n + k)) :
    ∃ w : ℤ, mode.round? (q * 10 ^ (cutScale q n - 1)) = some w ∧ w.natAbs = 10 ^ (n - 1) ∧
      mode.toDigits? n q = some (toRat ⟨w, cutScale q n - 1⟩) := by
  have below := (abs_atCutScale nonzero n k).2
  obtain ⟨w, tail, size, coarse⟩ := exists_coarser (j := k + 1) below rounded carried (by omega)
  obtain ⟨v, tail', -, fine⟩ := exists_coarser (j := k) below rounded carried (by omega)
  rw [add_sub_cancel_right] at fine
  have zero : v = w * 10 := by
    rw [tail, pow_succ', ← mul_assoc] at tail'
    exact (mul_right_cancel₀ (by positivity) tail').symm
  refine ⟨w, ?_, ?_, ?_⟩
  · have scale : cutScale q n + k - (k + 1 : ℕ) = cutScale q n - 1 := by omega
    rwa [scale] at coarse
  · rw [size]
    congr 1
    omega
  · rw [RoundingMode.toDigits?, fine, toRat_eq, zero]
    have exponent : -(cutScale q n - 1) = 1 + -cutScale q n := by ring
    rw [exponent, ten_zpow_add, zpow_one]
    simp [mul_assoc]

/-- A number that is refused at more places is refused at its last digit. -/
theorem not_hasDigits_of_refused {k : ℕ}
    (refused : mode.round? (q * 10 ^ (cutScale q n + k)) = none) :
    mode = .unnecessary ∧ ¬ HasDigits n q := by
  obtain ⟨exact, fraction⟩ := RoundingMode.round?_eq_none_iff.mp refused
  refine ⟨exact, fun digits => fraction ?_⟩
  obtain ⟨z, integer⟩ := hasDigits_iff.mp digits
  refine ⟨z * 10 ^ k, ?_⟩
  rw [ten_zpow_add, ← mul_assoc, integer, zpow_natCast, Int.cast_mul, Int.cast_pow, Int.cast_ofNat]

namespace Decimal

/-- **Rounded at the last digit and rounded to the precision**, a number is rounded once. -/
theorem rounds_roundedAt_roundToPrecision {p : Precision} (digits : p.digits ≠ 0) (positive : 1 ≤ n)
    (bound : p.bound = n) (nonzero : q ≠ 0) :
    Rounds p.mode n q (fun scale => scale = cutScale q n ∨ scale = cutScale q n - 1)
      ((roundedAt q (cutScale q n) p.mode).bind (·.roundToPrecision p)) := by
  have rounds := rounds_roundedAt p.mode positive nonzero
  have same : (roundedAt q (cutScale q n) p.mode).bind (·.roundToPrecision p)
      = (roundedAt q (cutScale q n) p.mode).bind (·.cutToDigits n p.mode) := by
    simp only [roundToPrecision_eq digits, bound]
    conv_rhs => rw [← rounds.cut]
    cases roundedAt q (cutScale q n) p.mode <;> rfl
  rw [same]
  exact rounds

/-- **The scale corrected** by the digits that are too many. -/
def corrected (q : ℚ) (bound scale : Int) (mode : RoundingMode) (d : Decimal) :
    Except ArithmeticFault Decimal :=
  if 0 < d.digitCount - bound then roundedAt q (scale - (d.digitCount - bound)) mode else .ok d

/-- **What the correction aims at**: the last digit, or behind a carry one place less.  The digits
of what was rounded are as many as they should be, or one more behind a carry, and the correction
takes off all that are too many. -/
theorem corrected_cases (nonzero : q ≠ 0) (positive : 1 ≤ n) {k : ℕ} {z : ℤ}
    (rounded : mode.round? (q * 10 ^ (cutScale q n + k)) = some z)
    (first : roundedAt q (cutScale q n + k) mode = .ok ⟨z, cutScale q n + k⟩) :
    corrected q n (cutScale q n + k) mode ⟨z, cutScale q n + k⟩ = roundedAt q (cutScale q n) mode ∨
      z.natAbs = 10 ^ (n + k) ∧
        corrected q n (cutScale q n + k) mode ⟨z, cutScale q n + k⟩
          = roundedAt q (cutScale q n - 1) mode := by
  obtain count | ⟨count, power⟩ := digitCount_of_rounded nonzero positive (cutScale q n + k) rounded
  · left
    rw [corrected, count]
    split
    · congr 1
      push_cast
      ring
    · have right : k = 0 := by omega
      rw [right, Nat.cast_zero, add_zero] at first
      rw [right, Nat.cast_zero, add_zero, first]
  · refine .inr ⟨power, ?_⟩
    rw [corrected, count, if_pos (by omega)]
    congr 1
    push_cast
    ring

/-- **Rounded at one place less behind a carry**, a number is rounded once, too.  What is divided
there has too few digits to be cut again, so the cut leaves it alone. -/
theorem rounds_of_carried {p : Precision} (bound : p.bound = n) (positive : 1 ≤ n) {w : ℤ}
    (carried : p.mode.round? (q * 10 ^ (cutScale q n - 1)) = some w)
    (size : w.natAbs = 10 ^ (n - 1))
    (value : p.mode.toDigits? n q = some (toRat ⟨w, cutScale q n - 1⟩)) :
    Rounds p.mode n q (· = cutScale q n - 1)
      ((roundedAt q (cutScale q n - 1) p.mode).bind (·.roundToPrecision p)) := by
  obtain ⟨v, -, again, outcome⟩ | ⟨none, -⟩ | ⟨unsupported, outcome⟩ :=
    roundedAt_cases q (cutScale q n - 1) p.mode
  · cases carried.symm.trans again
    have few : (⟨w, cutScale q n - 1⟩ : Decimal).digitCount ≤ n := by
      rw [digitCount_le_iff positive, size]
      exact Nat.pow_lt_pow_right (by decide) (by omega)
    have stays : (Except.ok ⟨w, cutScale q n - 1⟩).bind (roundToPrecision · p)
        = .ok ⟨w, cutScale q n - 1⟩ :=
      roundToPrecision_of_digitCount_le (by rw [bound]; exact_mod_cast few)
    rw [outcome, stays]
    exact .rounded value few
  · exact absurd (carried.symm.trans none) (Option.some_ne_none _)
  · rw [outcome]
    exact .outOfRange rfl unsupported

/-- **A guess, a correction and a cut** round a number once.  Three outcomes of the guess: it is
refused for want of a rounding or of a scale, and then so is the whole; or it is made, and the
correction goes to the cut scale or to the one behind a carry. -/
theorem rounds_corrected {p : Precision} (digits : p.digits ≠ 0) (positive : 1 ≤ n)
    (bound : p.bound = n) (nonzero : q ≠ 0) {k : ℕ} (near : k ≤ 1) :
    Rounds p.mode n q (fun scale => ∃ fewer : ℕ, fewer ≤ 2 ∧ scale = cutScale q n + k - fewer)
      (((roundedAt q (cutScale q n + k) p.mode).bind
        (corrected q n (cutScale q n + k) p.mode)).bind (·.roundToPrecision p)) := by
  obtain ⟨z, -, rounded, first⟩ | ⟨refused, first⟩ | ⟨unsupported, first⟩ :=
    roundedAt_cases q (cutScale q n + k) p.mode
  · have correction : (roundedAt q (cutScale q n + k) p.mode).bind
        (corrected q n (cutScale q n + k) p.mode)
          = corrected q n (cutScale q n + k) p.mode ⟨z, cutScale q n + k⟩ := by
      rw [first]
      rfl
    rw [correction]
    obtain atLast | ⟨power, below⟩ := corrected_cases nonzero positive rounded first
    · rw [atLast]
      refine (rounds_roundedAt_roundToPrecision digits positive bound nonzero).mono ?_
      rintro scale (rfl | rfl)
      · exact ⟨k, by omega, by omega⟩
      · exact ⟨k + 1, by omega, by omega⟩
    · obtain ⟨w, carried, size, value⟩ := exists_carried nonzero positive rounded power
      rw [below]
      refine (rounds_of_carried bound positive carried size value).mono ?_
      rintro scale rfl
      exact ⟨k + 1, by omega, by omega⟩
  · obtain ⟨exact, more⟩ := not_hasDigits_of_refused refused
    rw [first]
    exact .refused exact more
  · rw [first]
    exact .outOfRange ⟨0, by omega, by omega⟩ unsupported

/-! ## 3. Division to a precision

The steps are put together with the refusals of scales between them.  `AsksQuotientScale` lists the
scales that may be asked for, which is what a fault can name.  Zero as a dividend has no magnitude
and is answered before any of this. -/

/-- **Division to a precision** of numbers that are not zero: the quotient rounded at the guessed
scale, corrected, and rounded to the precision. -/
theorem divideToPrecision_eq {p : Precision} (digits : p.digits ≠ 0) (left : a.InRange)
    (right : b.InRange) (dividend : a.toRat ≠ 0) (divisor : b.toRat ≠ 0) :
    divideToPrecision a b p =
      ((roundedAt (a.toRat / b.toRat) (p.bound - (a.magnitude - b.magnitude)) p.mode).bind
        (corrected (a.toRat / b.toRat) p.bound (p.bound - (a.magnitude - b.magnitude)) p.mode)).bind
          (·.roundToPrecision p) := by
  have quotient : ∀ scale, divideToScale a b scale p.mode
      = roundedAt (a.toRat / b.toRat) scale p.mode :=
    fun _ => divideToScale_of_ne_zero left.wide right divisor
  rw [divideToPrecision, if_neg digits, if_neg (isZero_iff.not.mpr dividend)]
  simp only [quotient]
  generalize p.bound - (a.magnitude - b.magnitude) = scale
  cases roundedAt (a.toRat / b.toRat) scale p.mode with
  | error cause => rfl
  | ok d =>
    change _ = (corrected (a.toRat / b.toRat) p.bound scale p.mode d).bind _
    rw [ok_bind, corrected]
    split <;> rfl

/-- **What a division to a precision gives** is a quotient rounded to it, unless zero was
divided. -/
theorem exists_of_divideToPrecision {p : Precision} {r : Decimal} (digits : p.digits ≠ 0)
    (done : divideToPrecision a b p = .ok r) :
    (a.toRat = 0 ∧ divideToScale a b 0 p.mode = .ok r) ∨
      ∃ scale q, divideToScale a b scale p.mode = .ok q ∧ q.roundToPrecision p = .ok r := by
  rw [divideToPrecision, if_neg digits] at done
  split at done
  · rename_i zero
    exact .inl ⟨isZero_iff.mp zero, done⟩
  · obtain ⟨q, first, done⟩ := bind_eq_ok done
    dsimp only at done
    split at done
    · obtain ⟨q', second, done⟩ := bind_eq_ok done
      exact .inr ⟨_, q', second, done⟩
    · exact .inr ⟨_, q, first, done⟩

/-- The scales that division to a precision asks for: the guess, and less where there are digits too
many. -/
def AsksQuotientScale (a b : Decimal) (p : Precision) (scale : Int) : Prop :=
  ∃ fewer : ℕ, fewer ≤ 2 ∧ scale = p.bound - (a.magnitude - b.magnitude) - fewer

/-- **More digits than can be counted** are out of range. -/
theorem guess_unsupported {p : Precision} (left : a.InRange) (right : b.InRange)
    (large : ¬ p.digits.toNat < 2 ^ 63) (short : a.digitCount < 2 ^ 62) :
    ¬ scaleSupported (p.bound - (a.magnitude - b.magnitude)) = true := by
  have limit : scaleLimit = 100000 := rfl
  have some := one_le_digitCount b
  rw [inRange_iff] at left right
  rw [scaleSupported_iff, Precision.bound, magnitude, magnitude]
  omega

/-- **Division to a precision is rounded once and correctly**: the outcome is the exact quotient
rounded to the digits of the precision.  Zero divided is zero, with no places. -/
theorem divideToPrecision_rounds {p : Precision} (digits : p.digits ≠ 0) (left : a.InRange)
    (right : b.InRange) (divisor : b.toRat ≠ 0) (counts : p.Counts a) :
    (a.toRat ≠ 0 → Rounds p.mode p.digits.toNat (a.toRat / b.toRat) (AsksQuotientScale a b p)
      (divideToPrecision a b p)) ∧
    (a.toRat = 0 → divideToPrecision a b p = .ok ⟨0, 0⟩) := by
  constructor
  · intro dividend
    rw [divideToPrecision_eq digits left right dividend divisor]
    by_cases fits : p.digits.toNat < 2 ^ 63
    · have bound : p.bound = p.digits.toNat := by
        rw [Precision.bound]
        omega
      obtain ⟨k, near, guess⟩ := exists_guess dividend divisor p.digits.toNat
      rw [bound, guess]
      refine (rounds_corrected digits (one_le_digits digits) bound
        (div_ne_zero dividend divisor) near).mono ?_
      rintro scale ⟨fewer, few, same⟩
      exact ⟨fewer, few, by rw [bound, guess, same]⟩
    · have unsupported := guess_unsupported left right fits (counts.resolve_left fits)
      rw [roundedAt, if_neg unsupported]
      exact .outOfRange ⟨0, by omega, by omega⟩ unsupported
  · intro zero
    have whole : a.toRat / b.toRat * 10 ^ (0 : Int) = (0 : ℤ) := by simp [zero]
    rw [divideToPrecision, if_neg digits, if_pos (isZero_iff.mpr zero),
      divideToScale_eq left.wide right, if_neg divisor, if_pos (by decide)]
    exact (roundedTo_of_integer p.mode whole).1

/-- `99999.9` to five digits carries to a power of ten. -/
theorem divideToPrecision_rounds_carry :
    divideToPrecision ⟨999999, 1⟩ ⟨1, 0⟩ ⟨5, .halfUp⟩ = .ok ⟨10000, -1⟩ ∧
      RoundingMode.halfUp.toDigits? 5 (toRat ⟨999999, 1⟩ / toRat ⟨1, 0⟩)
        = some (toRat ⟨10000, -1⟩) := by
  have outcome : divideToPrecision ⟨999999, 1⟩ ⟨1, 0⟩ ⟨5, .halfUp⟩ = .ok ⟨10000, -1⟩ := rfl
  have rounds := (@divideToPrecision_rounds ⟨999999, 1⟩ ⟨1, 0⟩ ⟨5, .halfUp⟩ (by decide) rfl rfl
    (by norm_num [toRat_eq]) (.inl (by decide))).1 (by norm_num [toRat_eq])
  rw [outcome] at rounds
  cases rounds with
  | rounded value few => exact ⟨outcome, value⟩

end Decimal

end DecimalExpression
