import DecimalExpression.Proofs.Decimal.Overflow

/-!
# Division with bounded scales

The scale that a division is asked for is itself an integer of 64 bits, and the check of it takes
its absolute value.  There is one scale for which that is no such integer, the least of them all,
and there the check overflows instead of refusing the scale.  At every other scale division gives
the exact quotient correctly rounded, or fails for one of the reasons it should
(`Bounded.divideToScale_outcomes`).

Division to a precision asks for a scale that it has worked out from its operands, and this may be
too large.  Where it fits, the quotient is rounded once and correctly as well
(`Bounded.divideToPrecision_outcomes`).
-/

namespace DecimalExpression
namespace Bounded

variable {a b r : Decimal} {scale : Int} {mode : RoundingMode} {p : Precision}

/-! ## 1. To a scale

The three outcomes exclude each other and have their own conditions.  The order of the checks
matters for one combination only: a divisor of zero is refused before the scale is looked at, so it
never overflows. -/

/-- Zero is refused as a divisor before the scale is looked at. -/
theorem divideToScale_of_zero (a : Decimal) (zero : b.toRat = 0) (scale : Int)
    (mode : RoundingMode) :
    divideToScale a b scale mode = fail .divisionByZero := by
  rw [divideToScale, Decimal.isZero_iff.mpr zero]
  rfl

/-- **The least scale overflows**, for every divisor but zero. -/
theorem divideToScale_least (a : Decimal) (nonzero : b.toRat ≠ 0) (mode : RoundingMode) :
    divideToScale a b leastWord mode = .error .overflow := by
  rw [divideToScale, Bool.eq_false_iff.mpr (Decimal.isZero_iff.not.mpr nonzero),
    word_of_large (by decide)]
  rfl

/-- **Division to a scale is the exact quotient correctly rounded, or overflows at the least
scale.**  It gives a decimal exactly where the divisor is not zero, the scale is within the limit
and the mode can round the quotient there; the decimal has that scale, and its unscaled integer is
the quotient at that scale rounded by the mode.  It fails exactly where the divisor is zero, or
where the scale, which is not the least, is beyond the limit, or the mode refuses to round what is
no integer.  It overflows exactly where the scale is the least and the divisor is not zero. -/
theorem divideToScale_outcomes (left : a.InRange) (right : b.InRange)
    (fits : Decimal.scaleFits scale = true) (mode : RoundingMode) :
    (∀ r, divideToScale a b scale mode = .ok r ↔
      b.toRat ≠ 0 ∧ scale.natAbs ≤ scaleLimit ∧ r.scale = scale ∧
        mode.round? (a.toRat / b.toRat * 10 ^ scale) = some r.unscaled) ∧
    ((∃ cause, divideToScale a b scale mode = .error (.failed cause)) ↔
      b.toRat = 0 ∨ scale ≠ leastWord ∧ (scaleLimit < scale.natAbs ∨
        mode = .unnecessary ∧ ¬ ∃ n : ℤ, a.toRat / b.toRat * 10 ^ scale = n)) ∧
    (divideToScale a b scale mode = .error .overflow ↔ b.toRat ≠ 0 ∧ scale = leastWord) := by
  by_cases zero : b.toRat = 0
  · rw [divideToScale_of_zero a zero]
    exact ⟨fun r => iff_of_false (by rintro ⟨⟩) fun done => done.1 zero,
      iff_of_true ⟨_, rfl⟩ (.inl zero), iff_of_false (by rintro ⟨⟩) fun least => least.1 zero⟩
  by_cases least : scale = leastWord
  · subst least
    rw [divideToScale_least a zero mode]
    refine ⟨fun r => iff_of_false (by rintro ⟨⟩) ?_, iff_of_false (by rintro ⟨_, ⟨⟩⟩) ?_,
      iff_of_true rfl ⟨zero, rfl⟩⟩
    · rintro ⟨-, supported, -⟩
      exact absurd supported (by decide)
    · rintro (none | ⟨more, -⟩)
      · exact zero none
      · exact more rfl
  · -- What is left is the division without bounds.
    obtain ⟨lower, upper⟩ := scaleFits_iff.mp fits
    have above : leastWord < scale := lt_of_le_of_ne lower (Ne.symm least)
    obtain ⟨done, failed⟩ := Decimal.divideToScale_rounds left right scale mode
    rw [divideToScale_eq left.wide right above upper]
    refine ⟨fun r => lift_eq_ok_iff.trans (done r), ?_,
      iff_of_false (lift_ne_overflow _) fun overflows => least overflows.2⟩
    simp only [lift_eq_failed_iff, failed, zero, least, false_or, ne_eq,
      not_false_eq_true, true_and]

/-- Five halves below zero go to the even neighbour, a third has too many places to stay, and at the
least scale one by one overflows. -/
theorem divideToScale_outcomes_one :
    divideToScale ⟨-5, 0⟩ ⟨2, 0⟩ 0 .halfEven = .ok ⟨-2, 0⟩ ∧
      (∃ cause, divideToScale ⟨1, 0⟩ ⟨3, 0⟩ 2 .unnecessary = .error (.failed cause)) ∧
      divideToScale ⟨1, 0⟩ ⟨1, 0⟩ leastWord .halfUp = .error .overflow := by
  have whole : ∀ n, (Decimal.ofInt n).InRange := Decimal.inRange_ofInt
  refine ⟨?_, ?_, ?_⟩
  · refine ((divideToScale_outcomes (whole (-5)) (whole 2) (by decide) .halfEven).1 ⟨-2, 0⟩).mpr
      ⟨?_, by decide, rfl, ?_⟩
    · norm_num
    · norm_num [RoundingMode.round?, RoundingMode.nearest, RoundingMode.evenNeighbour, Int.fract]
  · refine (divideToScale_outcomes (whole 1) (whole 3) (by decide) .unnecessary).2.1.mpr
      (.inr ⟨by decide, .inr ⟨rfl, ?_⟩⟩)
    rintro ⟨n, hundred⟩
    norm_num at hundred
    have multiple : 100 = 3 * n := by
      field_simp at hundred
      exact_mod_cast hundred
    omega
  · refine (divideToScale_outcomes (whole 1) (whole 1) (by decide) .halfUp).2.2.mpr ⟨?_, rfl⟩
    norm_num

/-- **A scale beyond the limit is not always refused**: the least one is not. -/
theorem divideToScale_not_refused :
    ¬ ∀ (a b : Decimal) (scale : Int) (mode : RoundingMode), a.InRange → b.InRange →
      Decimal.scaleFits scale = true →
      ((∃ cause, divideToScale a b scale mode = .error (.failed cause)) ↔
        b.toRat = 0 ∨ scaleLimit < scale.natAbs ∨
          mode = .unnecessary ∧ ¬ ∃ n : ℤ, a.toRat / b.toRat * 10 ^ scale = n) := by
  intro refused
  obtain ⟨cause, failed⟩ := (refused ⟨1, 0⟩ ⟨1, 0⟩ leastWord .halfUp rfl rfl (by decide)).mpr
    (.inr (.inl (by decide)))
  rw [divideToScale_least _ (by norm_num [Decimal.toRat_eq])] at failed
  cases failed

/-! ## 2. To a precision

The scale that is worked out here is not asked for by anybody, so there is no condition on it in the
statement, but one on the overflow: it occurs where that scale is no word. -/

/-- **Division to a precision is rounded once and correctly, or overflows.**  It overflows exactly
where the scale that it works out from its operands is no integer of 64 bits; otherwise its outcome
is the exact quotient rounded to the digits of the precision.  Zero divided is zero, with no
places. -/
theorem divideToPrecision_outcomes (digits : p.digits ≠ 0) (left : a.InRange) (right : b.InRange)
    (divisor : b.toRat ≠ 0) (fewLeft : a.digitCount < 2 ^ 62) (fewRight : b.digitCount < 2 ^ 62) :
    (divideToPrecision a b p = .error .overflow ↔
      a.toRat ≠ 0 ∧ 2 ^ 63 ≤ p.bound - (a.magnitude - b.magnitude)) ∧
    (a.toRat ≠ 0 → p.bound - (a.magnitude - b.magnitude) < 2 ^ 63 →
      ∃ outcome, divideToPrecision a b p = lift outcome ∧
        Rounds p.mode p.digits.toNat (a.toRat / b.toRat) (Decimal.AsksQuotientScale a b p)
          outcome) ∧
    (a.toRat = 0 → divideToPrecision a b p = .ok ⟨0, 0⟩) := by
  have overflows : DivisionOverflows a b p ↔
      a.toRat ≠ 0 ∧ 2 ^ 63 ≤ p.bound - (a.magnitude - b.magnitude) := by
    constructor
    · rintro (⟨-, dividend, beyond⟩ | ⟨unlimited, -⟩ | ⟨unlimited, -⟩)
      · exact ⟨dividend, beyond⟩
      · exact absurd unlimited digits
      · exact absurd unlimited digits
    · exact fun both => .guess digits both.1 both.2
  obtain ⟨rounds, zero⟩ := Decimal.divideToPrecision_rounds digits left right divisor (.inr fewLeft)
  have same (fits : ¬ DivisionOverflows a b p) :
      divideToPrecision a b p = lift (Decimal.divideToPrecision a b p) :=
    divideToPrecision_eq fits left right fewLeft fewRight
  refine ⟨?_, fun dividend below => ⟨_, same ?_, rounds dividend⟩, fun none => ?_⟩
  · rw [← overflows]
    refine ⟨fun halted => ?_, fun beyond =>
      divideToPrecision_overflow beyond left right fewLeft fewRight⟩
    by_contra fits
    exact lift_ne_overflow _ ((same fits).symm.trans halted)
  · exact fun beyond => absurd (overflows.mp beyond).2 (not_le.mpr below)
  · rw [same fun beyond => (overflows.mp beyond).1 none, zero none, lift_ok]

end Bounded
end DecimalExpression
