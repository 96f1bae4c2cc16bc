import DecimalExpression.Proofs.Decimal.ExactDivision

/-!
# Exact quotients

The twos and fives of a divisor can be taken out one at a time, with a count that goes up by one
each time (`Digits.Strips`).  That loop ends for every number but zero, and it comes to what
splitting off the whole power comes to (`Digits.strips_iff`, `Decimal.stripsTwosAndFives_iff`).

With a place for each factor that was counted, and for each place of either operand, a quotient has
enough places.  So what exact division gives is the quotient itself in normal form, and it never has
to round (`Decimal.divideToPrecision_sound`).
-/

namespace DecimalExpression

/-! ## 1. One factor at a time

The relation has one rule for going on and one for stopping, and at each number only one of them
applies, so the loop has one end at most.  That it has an end is shown from the power of the factor
in the number, by induction on the exponent; zero has no such power, and runs for ever. -/

namespace Digits

/-- **A loop that takes a factor out of a number**, and counts how often: from a number and a count
to what is left and the count by then.  It goes on as long as the factor divides. -/
inductive Strips (p : ℕ) : ℕ × ℕ → ℕ × ℕ → Prop
  | stop {n count : ℕ} (remains : ¬ p ∣ n) : Strips p (n, count) (n, count)
  | step {n count : ℕ} {result : ℕ × ℕ} (divides : p ∣ n)
    (rest : Strips p (n / p, count + 1) result) : Strips p (n, count) result

variable {p n count : ℕ} {start result : ℕ × ℕ}

/-- The loop comes to one end only. -/
theorem Strips.unique {other : ℕ × ℕ} (one : Strips p start result) (two : Strips p start other) :
    result = other := by
  induction one with
  | stop remains =>
    cases two with
    | stop _ => rfl
    | step divides _ => exact absurd divides remains
  | step divides _ ih =>
    cases two with
    | stop remains => exact absurd divides remains
    | step _ rest => exact ih rest

/-- The factors of a power are taken out one by one, until what is left does not have the factor. -/
theorem strips_of_power {m : ℕ} (factor : 2 ≤ p) (remains : ¬ p ∣ m) (k : ℕ) :
    ∀ count, Strips p (p ^ k * m, count) (m, count + k) := by
  induction k with
  | zero =>
    intro count
    rw [pow_zero, one_mul]
    exact .stop remains
  | succ k ih =>
    intro count
    have product : p ^ (k + 1) * m = p * (p ^ k * m) := by rw [pow_succ', mul_assoc]
    refine .step (product ▸ Dvd.intro _ rfl) ?_
    rw [product, Nat.mul_div_cancel_left _ (by omega), ← add_assoc, add_right_comm]
    exact ih (count + 1)

/-- **The loop comes to the power that is split off**, and to what is left without it. -/
theorem strips_iff (factor : 2 ≤ p) (positive : 0 < n) :
    Strips p (n, count) result ↔ result = ((splitPower p n).2, count + (splitPower p n).1) := by
  obtain ⟨product, remains⟩ := splitPower_spec factor positive
  have ends := strips_of_power factor remains (splitPower p n).1 count
  rw [product] at ends
  exact ⟨fun strips => strips.unique ends, fun same => same ▸ ends⟩

/-- **For zero the loop never ends**: every factor divides it, and zero is left. -/
theorem not_strips_zero : ¬ Strips p (0, count) result := by
  intro strips
  generalize begin : ((0 : ℕ), count) = start at strips
  induction strips generalizing count with
  | stop remains =>
    cases begin
    exact remains (dvd_zero p)
  | step _ _ ih =>
    cases begin
    exact ih (by rw [Nat.zero_div])

end Digits

namespace Decimal

variable {a b : Decimal}

/-- **The loop for both factors**: first the twos, then the fives, in one count. -/
def StripsTwosAndFives (n : ℕ) (result : ℕ × ℕ) : Prop :=
  ∃ middle, Digits.Strips 2 (n, 0) middle ∧ Digits.Strips 5 middle result

/-- **The loop for both factors ends**, with what is left and the count of twos and fives. -/
theorem stripsTwosAndFives_iff {n : ℕ} (positive : 0 < n) {result : ℕ × ℕ} :
    StripsTwosAndFives n result
      ↔ result = ((splitTwosAndFives n).2, (splitTwosAndFives n).1) := by
  obtain ⟨twos, odd⟩ := Digits.splitPower_spec (le_refl 2) positive
  have left : 0 < (Digits.splitPower 2 n).2 :=
    Nat.pos_of_ne_zero fun zero => odd (zero ▸ dvd_zero 2)
  rw [StripsTwosAndFives, splitTwosAndFives]
  simp only [Digits.strips_iff (le_refl 2) positive, exists_eq_left,
    Digits.strips_iff (p := 5) (by decide) left, zero_add]

/-! ## 2. The quotient

Dividing at the reserved scale leaves no remainder, so any mode gives the same quotient, even the
one that refuses to round.  The statement on soundness has no rounding in it for that reason: what
comes out times the divisor is the dividend. -/

/-- **Exact division divides at the scale that it reserves**, without rounding. -/
theorem divideExactly_eq (a : Decimal) (nonzero : b.toRat ≠ 0) :
    divideExactly a b =
      if (splitTwosAndFives b.unscaled.natAbs).2 = 1 then
        (divideToScale a b (exactScale a b) .unnecessary).map normalize
      else .error .nonTerminating := by
  split
  · rename_i one
    rw [divideExactly, Bool.eq_false_iff.mpr (isZero_iff.not.mpr nonzero)]
    dsimp only
    rw [if_neg (not_not.mpr one)]
    rfl
  · rename_i rest
    exact divideExactly_of_rest a nonzero rest

/-- **What exact division gives** is the quotient, in normal form. -/
theorem exists_of_divideExactly (left : a.InRange) (right : b.InRange) {q : Decimal}
    (divided : divideExactly a b = .ok q) :
    b.toRat ≠ 0 ∧ q.toRat = a.toRat / b.toRat ∧ q.IsNormal := by
  by_cases zero : b.toRat = 0
  · rw [divideExactly_of_zero a zero] at divided
    cases divided
  by_cases one : (splitTwosAndFives b.unscaled.natAbs).2 = 1
  · obtain ⟨d, value, outcome⟩ := divideExactly_of_factors left right zero one
    rw [outcome] at divided
    split at divided <;> cases divided
    exact ⟨zero, (toRat_normalize d).trans value, isNormal_normalize d⟩
  · rw [divideExactly_of_rest a zero one] at divided
    cases divided

/-- **The scale that exact division reserves is enough**: where no other factor is left, dividing at
that scale has nothing to round. -/
theorem divideToScale_exactScale_ne (left : a.InRange) (right : b.InRange) (nonzero : b.toRat ≠ 0)
    (one : (splitTwosAndFives b.unscaled.natAbs).2 = 1) :
    divideToScale a b (exactScale a b) .unnecessary ≠ .error .roundingNecessary := by
  obtain ⟨d, -, outcome⟩ := divideExactly_of_factors left right nonzero one
  rw [divideExactly_eq a nonzero, if_pos one] at outcome
  intro refused
  rw [refused] at outcome
  split at outcome <;> cases outcome

/-- **Division without a limit on the digits is sound**: what it gives, times the divisor, is the
dividend, and it is in normal form.  For every divisor but zero, the twos and fives can be taken out
one by one until neither is left, with one end only; if one is what is left, the places of both
operands and one for each factor are enough, and otherwise the divisor is refused.  So a divisor
without other factors is taken as long as these places are within the limit.  Zero, for which the
loop would not end, is refused before. -/
theorem divideToPrecision_sound {p : Precision} (unlimited : p.digits = 0) (left : a.InRange)
    (right : b.InRange) :
    (∀ q, divideToPrecision a b p = .ok q → q.toRat * b.toRat = a.toRat ∧ q.IsNormal) ∧
    (b.toRat ≠ 0 → ∃ rest extra : ℕ,
      (∀ result, StripsTwosAndFives b.unscaled.natAbs result ↔ result = (rest, extra)) ∧
      (divideToPrecision a b p =
        if rest = 1 then
          (divideToScale a b (a.scale.natAbs + b.scale.natAbs + extra) .unnecessary).map normalize
        else .error .nonTerminating) ∧
      (rest = 1 → divideToScale a b (a.scale.natAbs + b.scale.natAbs + extra) .unnecessary
        ≠ .error .roundingNecessary)) ∧
    (∀ i j : ℕ, b.unscaled.natAbs = 2 ^ i * 5 ^ j →
      a.scale.natAbs + b.scale.natAbs + i + j ≤ scaleLimit →
      ∃ q, divideToPrecision a b p = .ok q) ∧
    (b.toRat = 0 → divideToPrecision a b p = .error .divisionByZero ∧
      ∀ result, ¬ StripsTwosAndFives b.unscaled.natAbs result) := by
  have exactly : divideToPrecision a b p = divideExactly a b := by
    rw [divideToPrecision, if_pos unlimited]
  rw [exactly]
  refine ⟨fun q divided => ?_, fun nonzero => ?_, fun i j factors few => ?_, fun zero => ?_⟩
  · obtain ⟨nonzero, value, normal⟩ := exists_of_divideExactly left right divided
    exact ⟨by rw [value, div_mul_cancel₀ _ nonzero], normal⟩
  · have positive : 0 < b.unscaled.natAbs := Int.natAbs_pos.mpr (toRat_eq_zero_iff.not.mp nonzero)
    exact ⟨_, _, fun result => stripsTwosAndFives_iff positive, divideExactly_eq a nonzero,
      divideToScale_exactScale_ne left right nonzero⟩
  · have nonzero : b.toRat ≠ 0 := by
      rw [Ne, toRat_eq_zero_iff, ← Int.natAbs_eq_zero, factors]
      positivity
    have split : splitTwosAndFives b.unscaled.natAbs = (i + j, 1) :=
      factors ▸ splitTwosAndFives_of_factors i j
    have scale : exactScale a b = (a.scale.natAbs + b.scale.natAbs + (i + j) : ℕ) := by
      rw [exactScale, split]
      push_cast
      rfl
    have supported : scaleSupported (exactScale a b) = true := by
      rw [scaleSupported_iff, scale, Int.natAbs_natCast, ← add_assoc]
      exact few
    obtain ⟨d, -, outcome⟩ := divideExactly_of_factors left right nonzero (by rw [split])
    exact ⟨d.normalize, by rw [outcome, if_pos supported]⟩
  · refine ⟨divideExactly_of_zero a zero, ?_⟩
    rw [toRat_eq_zero_iff.mp zero]
    rintro result ⟨middle, twos, -⟩
    exact Digits.not_strips_zero twos

/-- `-300 / -4.0`: the forty of the divisor is three twos and a five, so seven places are enough. -/
theorem divideToPrecision_sound_forty :
    (∃ q, divideToPrecision ⟨-3, -2⟩ ⟨-40, 1⟩ ⟨0, .up⟩ = .ok q ∧
      q.toRat * toRat ⟨-40, 1⟩ = toRat ⟨-3, -2⟩ ∧ q.IsNormal) ∧
    StripsTwosAndFives 40 (1, 4) ∧
      divideToScale ⟨-3, -2⟩ ⟨-40, 1⟩ 7 .unnecessary ≠ .error .roundingNecessary := by
  obtain ⟨sound, loop, complete, -⟩ :=
    @divideToPrecision_sound ⟨-3, -2⟩ ⟨-40, 1⟩ ⟨0, .up⟩ rfl rfl rfl
  obtain ⟨q, divided⟩ := complete 3 1 rfl (by decide)
  obtain ⟨rest, extra, ends, -, enough⟩ := loop (by norm_num [toRat_eq])
  have strips : StripsTwosAndFives 40 (1, 4) := by
    rw [stripsTwosAndFives_iff (by decide)]
    exact congrArg Prod.swap (splitTwosAndFives_of_factors 3 1).symm
  cases (ends (1, 4)).mp strips
  exact ⟨⟨q, divided, sound q divided⟩, strips, enough rfl⟩

end Decimal

end DecimalExpression
