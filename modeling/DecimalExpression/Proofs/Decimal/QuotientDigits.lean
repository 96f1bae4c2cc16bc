import DecimalExpression.Proofs.Decimal.Quotients
import Mathlib

/-!
# The digits of a guessed quotient

Division to a precision guesses the scale of its result from two magnitudes, which are logarithms
rounded down (`Decimal.magnitude_eq_floor_logb`).  At the guessed scale the quotient has the digits
that are wanted in front of its point, or one digit more (`count_floor_guessed`).  Rounding can add
a digit, but only by a carry, and then the result is a power of ten.  The second division takes back
the digits that are too many, so behind a carry it has one place less than the quotient needs, and
still gives the quotient rounded once (`divideToScale_of_carry`).

That is, if it gives anything.  A scale within the limit for the first division need not be within
it for the second, and then the division is refused (`guessed_digits_refused`).
-/

namespace DecimalExpression
namespace Decimal

variable {a b d : Decimal} {mode : RoundingMode} {n : ℕ}

/-! ## 1. Magnitudes

A magnitude is computed by counting the digits of an unscaled integer and taking off the scale.
That this is a logarithm rounded down does not depend on the representation, so any two decimals of
one number have the same. -/

/-- The logarithm of a number does not depend on where the number is taken. -/
theorem log_ratCast {x : ℚ} (positive : 0 < x) : Int.log 10 (x : ℝ) = Int.log 10 x := by
  have base : 1 < 10 := by decide
  refine eq_of_forall_le_iff fun e => ?_
  have power : (((10 : ℕ) : ℚ) ^ e : ℚ) = (((10 : ℕ) : ℝ) ^ e : ℝ) := by push_cast; rfl
  rw [← Int.zpow_le_iff_le_log base (by exact_mod_cast positive),
    ← Int.zpow_le_iff_le_log base positive,
    ← power, Rat.cast_le]

/-- **The magnitude is the decimal logarithm, rounded down.** -/
theorem magnitude_eq_floor_logb (nonzero : d.toRat ≠ 0) :
    d.magnitude = ⌊Real.logb 10 |(d.toRat : ℝ)|⌋ := by
  have positive : 0 < |d.toRat| := abs_pos.mpr nonzero
  have real : |(d.toRat : ℝ)| = (|d.toRat| : ℚ) := by push_cast; rfl
  have floor := Real.floor_logb_natCast (b := 10) (r := (|d.toRat| : ℚ))
    (by exact_mod_cast positive.le)
  rw [magnitude_eq nonzero, real, ← log_ratCast positive, ← floor, Nat.cast_ofNat]

/-! ## 2. The guess

With `n` more places than the difference of the magnitudes, the integer part of the quotient has `n`
digits or one more, whatever the operands are.  No rounding is involved here: the digits counted are
those of the integer part. -/

/-- **The scale that is guessed** for a quotient of `n` digits. -/
def guessedScale (a b : Decimal) (n : ℕ) : Int := n - (a.magnitude - b.magnitude)

/-- The digits of the integer part of a number between two powers of ten. -/
theorem count_floor {x : ℚ} {m : ℕ} (some : 1 ≤ m) (lower : 10 ^ (m - 1) ≤ x) (upper : x < 10 ^ m) :
    Digits.count ⌊x⌋₊ = m := by
  have nonneg : 0 ≤ x := le_trans (by positivity) lower
  have least : 10 ^ (m - 1) ≤ ⌊x⌋₊ := Nat.le_floor (by exact_mod_cast lower)
  have most : ⌊x⌋₊ < 10 ^ m := (Nat.floor_lt nonneg).mpr (by exact_mod_cast upper)
  rw [Digits.count_eq, Nat.log_eq_of_pow_le_of_lt_pow least (by rwa [Nat.sub_add_cancel some])]
  omega

/-- **At the guessed scale** a quotient has `n` digits in front of its point, or one more. -/
theorem count_floor_guessed (dividend : a.toRat ≠ 0) (divisor : b.toRat ≠ 0) (positive : 1 ≤ n) :
    Digits.count ⌊|a.toRat / b.toRat| * 10 ^ guessedScale a b n⌋₊ = n ∨
      Digits.count ⌊|a.toRat / b.toRat| * 10 ^ guessedScale a b n⌋₊ = n + 1 := by
  obtain ⟨k, near, guess⟩ := exists_guess dividend divisor n
  obtain ⟨lower, upper⟩ := abs_atCutScale (div_ne_zero dividend divisor) n k
  have exponent : ((n + k : ℕ) - 1 : ℤ) = (n + k - 1 : ℕ) := by omega
  rw [abs_mul, abs_of_pos (ten_zpow_pos _)] at lower upper
  rw [exponent, zpow_natCast] at lower
  rw [guessedScale, guess, count_floor (Nat.le_add_right_of_le positive) lower upper]
  omega

/-! ## 3. The carry

Rounding adds a digit only by carrying to a power of ten, and only then the quotient has two digits
more than are wanted.  The second division takes both back at once.  It gives the same power of ten
with two zeros less, which is the quotient rounded once to `n` digits, unless the lower scale is out
of range; that it can be is shown by the last theorem. -/

/-- **What a quotient at a scale is made of**: a scale within the limit, operands that are near
enough, and the exact quotient rounded there. -/
theorem rounded_of_divideToScale {r : Decimal} {scale : Int} (divisor : b.toRat ≠ 0)
    (done : divideToScale a b scale mode = .ok r) :
    (shift a b scale).natAbs ≤ shiftLimit ∧ mode.round? (a.toRat / b.toRat * 10 ^ scale)
      = some r.unscaled := by
  obtain ⟨-, supported⟩ := scale_of_divideToScale done
  have same : scaleSupported scale = true := by
    have here := (scale_of_divideToScale done).1
    rwa [InRange, here] at supported
  rw [divideToScale_of_supported divisor same] at done
  split at done
  · rename_i near
    rw [roundedTo] at done
    split at done
    · rename_i z rounded
      cases done
      exact ⟨near, rounded⟩
    · cases done
  · cases done

/-- **A quotient with more digits** than one too many is a power of ten, which a smaller number was
rounded to.  With as many places less as it has digits too many, the quotient rounds to a power of
ten with the digits that are wanted, and that is the quotient rounded once. -/
theorem exists_of_carry (dividend : a.toRat ≠ 0) (divisor : b.toRat ≠ 0)
    (positive : 1 ≤ n) {r : Decimal}
    (first : divideToScale a b (guessedScale a b n) mode = .ok r) (more : n + 1 < r.digitCount) :
    r.digitCount = n + 2 ∧ r.unscaled.natAbs = 10 ^ (n + 1) ∧
      |a.toRat / b.toRat| * 10 ^ guessedScale a b n < 10 ^ (n + 1) ∧
      ∃ w : ℤ, mode.round? (a.toRat / b.toRat * 10 ^ (guessedScale a b n - 2)) = some w ∧
      w.natAbs = 10 ^ (n - 1) ∧
        mode.toDigits? n (a.toRat / b.toRat) = some (toRat ⟨w, guessedScale a b n - 2⟩) := by
  have nonzero := div_ne_zero dividend divisor
  obtain ⟨-, rounded⟩ := rounded_of_divideToScale divisor first
  obtain ⟨k, near, guess⟩ := exists_guess dividend divisor n
  rw [guessedScale, guess] at rounded ⊢
  have count := digitCount_of_rounded nonzero positive r.scale rounded
  have same : (⟨r.unscaled, r.scale⟩ : Decimal) = r := rfl
  rw [same] at count
  -- only with a place too many and a carry there are two digits too many
  obtain few | ⟨count, power⟩ := count
  · omega
  obtain rfl : k = 1 := by omega
  have below := (abs_atCutScale nonzero n 1).2
  rw [abs_mul, abs_of_pos (ten_zpow_pos _)] at below
  obtain ⟨w, coarse, size, value⟩ := exists_carried nonzero positive rounded power
  have scale : cutScale (a.toRat / b.toRat) n + (1 : ℕ) - 2 = cutScale (a.toRat / b.toRat) n
    - 1 := by omega
  rw [scale]
  exact ⟨count, power, below, w, coarse, size, value⟩

/-- **What a second division comes to** that rounds to `s`: it is refused if the scale of `s` is
beyond the limit, or if the operands are too far apart at that scale. -/
def orRefused (a b s : Decimal) : Except ArithmeticFault Decimal :=
  if scaleSupported s.scale then
    if (shift a b s.scale).natAbs ≤ shiftLimit then .ok s
    else .error (.shiftRange (shift a b s.scale).natAbs)
  else .error (.scaleRange s.scale)

theorem eq_of_orRefused {r s : Decimal} (given : orRefused a b s = .ok r) : s = r := by
  rw [orRefused] at given
  split at given
  · split at given
    · exact Except.ok.inj given
    · cases given
  · cases given

theorem divideToScale_eq_orRefused (divisor : b.toRat ≠ 0) {s : Decimal}
    (rounded : mode.round? (a.toRat / b.toRat * 10 ^ s.scale) = some s.unscaled) :
    divideToScale a b s.scale mode = orRefused a b s := by
  rw [orRefused]
  split
  · rename_i within
    rw [divideToScale_of_supported divisor within, roundedTo, rounded]
  · rename_i beyond
    exact divideToScale_of_unsupported divisor beyond

/-- **Division to a precision ends with the second division**, where that has no more digits than
are wanted. -/
theorem divideToPrecision_of_second {p : Precision} {r s : Decimal} {scale : Int}
    (dividend : a.toRat ≠ 0)
    (digits : p.digits ≠ 0) (guess : p.bound - (a.magnitude - b.magnitude) = scale)
    (first : divideToScale a b scale p.mode = .ok r) (more : p.bound < r.digitCount)
    (second : divideToScale a b (scale - (r.digitCount - p.bound)) p.mode = orRefused a b s)
    (few : s.digitCount ≤ p.bound) : divideToPrecision a b p = orRefused a b s := by
  have excess : 0 < r.digitCount - p.bound := by omega
  rw [divideToPrecision, if_neg digits, if_neg (isZero_iff.not.mpr dividend)]
  dsimp only
  rw [guess, first, ok_bind]
  rw [if_pos excess, second, orRefused]
  split
  · split
    · exact roundToPrecision_of_digitCount_le few
    · rfl
  · rfl

/-- **How good the guess is.**  At the guessed scale the integer part of a quotient has `n` digits
or one more; the guess is made of magnitudes, and these are decimal logarithms rounded down, however
a number is represented.  The quotient that is rounded there has more than `n + 1` digits only if it
is a power of ten that a smaller number was carried to.  Then the second division asks for the
quotient with all digits that are too many taken back: it gives the quotient rounded once to `n`
digits, and so does division to a precision, unless that scale or the shift that it needs is out of
range. -/
theorem guessed_digits (dividend : a.toRat ≠ 0) (divisor : b.toRat ≠ 0) (positive : 1 ≤ n)
    (mode : RoundingMode) :
    (Digits.count ⌊|a.toRat / b.toRat| * 10 ^ guessedScale a b n⌋₊ = n ∨
      Digits.count ⌊|a.toRat / b.toRat| * 10 ^ guessedScale a b n⌋₊ = n + 1) ∧
    (∀ v : Decimal, v.toRat ≠ 0 → v.magnitude = ⌊Real.logb 10 |(v.toRat : ℝ)|⌋) ∧
    (∀ v w : Decimal, v.toRat ≠ 0 → v.toRat = w.toRat → v.magnitude = w.magnitude) ∧
    ∀ r, divideToScale a b (guessedScale a b n) mode = .ok r → n + 1 < r.digitCount →
      (r.digitCount = n + 2 ∧ r.unscaled.natAbs = 10 ^ (n + 1) ∧
        |a.toRat / b.toRat| * 10 ^ guessedScale a b n < 10 ^ (n + 1)) ∧
      ∃ s : Decimal, s.digitCount = n ∧ mode.toDigits? n (a.toRat / b.toRat) = some s.toRat ∧
        divideToScale a b (guessedScale a b n - (r.digitCount - n)) mode = orRefused a b s ∧
        ∀ p : Precision, p.bound = n → p.mode = mode →
        divideToPrecision a b p = orRefused a b s := by
  refine ⟨count_floor_guessed dividend divisor positive,
    fun v nonzero => magnitude_eq_floor_logb nonzero, ?_, ?_⟩
  · intro v w nonzero same
    rw [magnitude_eq nonzero, magnitude_eq (same ▸ nonzero), same]
  · intro r first more
    obtain ⟨count, power, below, w, rounded, size, value⟩ :=
      exists_of_carry dividend divisor positive first more
    have digits : (⟨w, guessedScale a b n - 2⟩ : Decimal).digitCount = n := by
      rw [digitCount, Digits.count_eq, size, Nat.log_pow (by decide)]
      omega
    have scale : guessedScale a b n - (r.digitCount - n) = guessedScale a b n - 2 := by
      rw [count]
      push_cast
      ring
    have second := divideToScale_eq_orRefused (s := ⟨w, guessedScale a b n - 2⟩) divisor rounded
    refine ⟨⟨count, power, below⟩, _, digits, value, scale ▸ second, ?_⟩
    rintro p bound rfl
    have some : p.digits ≠ 0 := by
      intro none
      rw [Precision.bound, none] at bound
      simp at bound
      omega
    refine divideToPrecision_of_second dividend some (by rw [bound, guessedScale]) first
      (by omega) ?_ (by omega)
    rw [bound, scale]
    exact second

/-- `99.9996` to three digits: a carry to `100.00`, and the second division at no places. -/
theorem guessed_digits_carry :
    divideToScale ⟨999996, 4⟩ ⟨1, 0⟩ 2 .halfUp = .ok ⟨10000, 2⟩ ∧
    divideToScale ⟨999996, 4⟩ ⟨1, 0⟩ 0 .halfUp = .ok ⟨100, 0⟩ ∧
    RoundingMode.halfUp.toDigits? 3 (toRat ⟨999996, 4⟩ / toRat ⟨1, 0⟩) = some (toRat ⟨100, 0⟩) ∧
    divideToPrecision ⟨999996, 4⟩ ⟨1, 0⟩ ⟨3, .halfUp⟩ = .ok ⟨100, 0⟩ := by
  have first : divideToScale ⟨999996, 4⟩ ⟨1, 0⟩ 2 .halfUp = .ok ⟨10000, 2⟩ := by decide
  have again : divideToScale ⟨999996, 4⟩ ⟨1, 0⟩ 0 .halfUp = .ok ⟨100, 0⟩ := by decide
  obtain ⟨-, -, -, carried⟩ := guessed_digits (a := ⟨999996, 4⟩) (b := ⟨1, 0⟩) (n := 3)
    (toRat_eq_zero_iff.not.mpr (by decide)) (toRat_eq_zero_iff.not.mpr (by decide))
    (by decide) .halfUp
  obtain ⟨-, s, -, value, second, precise⟩ := carried ⟨10000, 2⟩ first (by decide)
  obtain rfl : s = ⟨100, 0⟩ := eq_of_orRefused (second.symm.trans again)
  exact ⟨first, again, value, (precise ⟨3, .halfUp⟩ rfl rfl).trans (second.symm.trans again)⟩

/-- **Behind a carry the second division may be refused**, although the first was not. -/
theorem guessed_digits_refused : ¬ ∀ (a b : Decimal) (n : ℕ) (mode : RoundingMode) (r : Decimal),
    a.toRat ≠ 0 → b.toRat ≠ 0 → 1 ≤ n → divideToScale a b (guessedScale a b n) mode = .ok r →
      n + 1 < r.digitCount → ∃ s : Decimal,
        divideToScale a b (guessedScale a b n - (r.digitCount - n)) mode = .ok s ∧
          mode.toDigits? n (a.toRat / b.toRat) = some s.toRat := by
  intro yields
  obtain ⟨s, second, -⟩ :=
    yields ⟨996, -99998⟩ ⟨1, 0⟩ 1 .halfUp ⟨100, -99999⟩ (toRat_eq_zero_iff.not.mpr (by decide))
    (toRat_eq_zero_iff.not.mpr (by decide)) le_rfl (by decide) (by decide)
  have refused : divideToScale ⟨996, -99998⟩ ⟨1, 0⟩ (guessedScale ⟨996, -99998⟩ ⟨1, 0⟩ 1 -
      ((⟨100, -99999⟩ : Decimal).digitCount - (1 : ℕ))) .halfUp
      = .error (.scaleRange (-100001)) := by decide
  cases refused.symm.trans second

end Decimal
end DecimalExpression
