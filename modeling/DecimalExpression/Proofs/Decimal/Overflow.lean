import DecimalExpression.Proofs.BoundedOutcomes
import DecimalExpression.Proofs.Decimal.ExactQuotients
import DecimalExpression.Proofs.Decimal.Quotients

/-!
# Where a scale outgrows 64 bits

Scales and digit counts are bounded, and most of what is computed from them cannot outgrow the
bound: the check of the operands comes first, and it keeps their scales small.  Three computations
can.  The check takes the absolute value of a scale, which the least integer of 64 bits does not
have; a text may be written at that scale.  A division to a precision takes its estimate from the
digits asked for, and a negative estimate from very many digits is too large.  And exact division
counts the twos and fives of its divisor.

Each operation overflows there, and otherwise it comes to what it comes to without bounds
(`checkScale_eq`, `cutToDigits_eq`, `roundToPrecision_eq`, `divideToPrecision_eq`).  From these
follows the same for the operations on values (`Bounded.apply_overflows`).
-/

namespace DecimalExpression

/-- **The least integer of 64 bits**, the only one whose absolute value is none. -/
def leastWord : Int := -2 ^ 63

namespace Bounded

variable {Cause α β : Type} {a b d r : Decimal} {scale n : Int} {mode : RoundingMode}
  {p : Precision}

/-! ## 1. The check of a scale

The check computes an absolute value before it compares it with the limit.  For one scale that value
is no word, and this is the root of every overflow below but those of division to a precision. -/

/-- **The check overflows for the least scale**, and for no other. -/
theorem checkScale_eq (fits : Decimal.scaleFits d.scale = true) :
    checkScale d = if d.scale = leastWord then .error .overflow else lift d.checkScale := by
  obtain ⟨lower, upper⟩ := scaleFits_iff.mp fits
  rw [checkScale, leastWord]
  split
  · rename_i least
    rw [least, word_of_large (by decide)]
    rfl
  · rename_i more
    rw [word_of_fits (by omega) (by omega), ok_bind, Decimal.checkScale, Decimal.scaleSupported]
    by_cases small : d.scale.natAbs ≤ scaleLimit
    · rw [if_neg (by omega), decide_eq_true small, if_pos rfl]
      rfl
    · rw [if_pos (by omega), decide_eq_false small, word_of_fits (by omega) (by omega)]
      rfl

/-! ## 2. Division to a scale

Where the scale that is asked for passes the check, the scales of the operands are small as well,
and everything computed from the three has room. -/

/-- **Division to a scale never overflows** but at the least scale: where it goes on, all scales are
small.  Scales beyond the limit are refused on both sides; within it, all that is added and taken
off afterwards fits by far. -/
theorem divideToScale_eq (left : a.Wide) (right : b.InRange) (lower : leastWord < scale)
    (upper : scale < 2 ^ 63) :
    divideToScale a b scale mode = lift (Decimal.divideToScale a b scale mode) := by
  have limit : scaleLimit = 100000 := rfl
  rw [leastWord] at lower
  rw [Decimal.Wide] at left
  rw [Decimal.inRange_iff] at right
  rw [divideToScale, Decimal.divideToScale]
  cases b.isZero with
  | true => rfl
  | false =>
    rw [word_of_fits (by omega) (by omega)]
    -- A scale beyond the limit is refused before anything is taken from it.
    by_cases small : scale.natAbs ≤ scaleLimit
    swap
    · have unsupported : Decimal.scaleSupported scale = false := decide_eq_false small
      have beyond : (scaleLimit : Int) < scale.natAbs := by omega
      simp only [unsupported, beyond, ok_bind, if_true]
      rfl
    have supported : Decimal.scaleSupported scale = true := decide_eq_true small
    have within : ¬ (scaleLimit : Int) < scale.natAbs := by omega
    simp only [supported, within, ok_bind, if_false, Bool.not_true, Bool.false_eq_true]
    rw [word_of_fits (by omega) (by omega), ok_bind, word_of_fits (by omega) (by omega), ok_bind]
    generalize gap : scale - a.scale + b.scale = shift
    by_cases nonneg : 0 ≤ shift
    · rw [if_pos nonneg, if_pos nonneg]
      cases Decimal.shiftUnit shift with
      | error cause => rfl
      | ok unit =>
        simp only [lift_ok, ok_bind, pure, Except.pure]
        cases mode.roundQuotient (a.unscaled * unit) b.unscaled <;> rfl
    · rw [if_neg nonneg, if_neg nonneg, word_of_fits (by omega) (by omega), ok_bind]
      cases Decimal.shiftUnit (-shift) with
      | error cause => rfl
      | ok unit =>
        simp only [lift_ok, ok_bind, pure, Except.pure]
        cases mode.roundQuotient a.unscaled (b.unscaled * unit) <;> rfl

/-! ## 3. Rounding to a precision

Digit counts have no check in front of them.  They have room because operands are taken to have
fewer than `2 ^ 62` digits, and because a division adds only as many digits as it moves its dividend
by. -/

/-- The number of digits, where it fits. -/
theorem digitCount_eq (few : d.digitCount < 2 ^ 63) : digitCount d = d.digitCount := by
  rw [digitCount]
  omega

/-- The digits asked for fit, and there is one at least. -/
theorem bound_lt (p : Precision) : p.bound < 2 ^ 63 := by
  rw [Precision.bound]
  omega

/-- **A quotient has as many digits** as the dividend and the places it is moved by, and one more at
most.  Within the limit a dividend is moved by `4 * scaleLimit` places at most, a divisor is no less
than one, and rounding may carry once. -/
theorem digitCount_of_divideToScale (left : a.Wide) (right : b.InRange)
    (done : Decimal.divideToScale a b scale mode = .ok r) :
    r.digitCount ≤ a.digitCount + 4 * scaleLimit + 1 := by
  by_cases zero : b.toRat = 0
  · rw [Decimal.divideToScale_eq left right, if_pos zero] at done
    cases done
  rw [Decimal.divideToScale_of_ne_zero left right zero] at done
  obtain ⟨z, supported, rounded, outcome⟩ | ⟨-, outcome⟩ | ⟨-, outcome⟩ :=
    Decimal.roundedAt_cases (a.toRat / b.toRat) scale mode <;>
    rw [outcome] at done <;> cases done
  have places : scale - a.scale + b.scale ≤ (4 * scaleLimit : ℕ) := by
    rw [Decimal.scaleSupported_iff] at supported
    rw [Decimal.Wide] at left
    rw [Decimal.inRange_iff] at right
    omega
  have dividend : (a.unscaled.natAbs : ℚ) < 10 ^ a.digitCount := by
    exact_mod_cast (digitCount_le_iff (Decimal.one_le_digitCount a)).mp le_rfl
  have divisor : (1 : ℚ) ≤ |(b.unscaled : ℚ)| := by
    exact_mod_cast Int.one_le_abs (Decimal.toRat_eq_zero_iff.not.mp zero)
  have below : |a.toRat / b.toRat * 10 ^ scale| < (10 ^ (a.digitCount + 4 * scaleLimit) : ℕ) := by
    rw [Decimal.quotient_eq, abs_mul, abs_div, abs_of_pos (Decimal.ten_zpow_pos _)]
    calc |(a.unscaled : ℚ)| / |(b.unscaled : ℚ)| * 10 ^ (scale - a.scale + b.scale)
        ≤ |(a.unscaled : ℚ)| * 10 ^ ((4 * scaleLimit : ℕ) : ℤ) :=
          mul_le_mul (div_le_self (abs_nonneg _) divisor) (zpow_le_zpow_right₀ (by norm_num) places)
            (Decimal.ten_zpow_pos _).le (abs_nonneg _)
      _ < 10 ^ a.digitCount * 10 ^ (4 * scaleLimit) := by
          rw [← Int.cast_abs, ← Nat.cast_natAbs, zpow_natCast]
          exact mul_lt_mul_of_pos_right dividend (by positivity)
      _ = (10 ^ (a.digitCount + 4 * scaleLimit) : ℕ) := by
          rw [← pow_add]
          push_cast
          rfl
  refine (digitCount_le_iff (Nat.le_add_left 1 _)).mpr ?_
  exact (RoundingMode.natAbs_le_of_abs_lt rounded below).trans_lt
    (Nat.pow_lt_pow_right (by decide) (Nat.lt_succ_self _))

/-- **A cut never overflows**: the digits in excess, and the scale without them, fit. -/
theorem cutToDigits_eq {bound : Int} (positive : 1 ≤ bound) (small : bound < 2 ^ 63)
    (wide : d.Wide) (few : d.digitCount + 2 * scaleLimit < 2 ^ 63) :
    cutToDigits d bound mode = lift (d.cutToDigits bound mode) := by
  rw [cutToDigits, digitCount_eq (by omega), word_of_fits (by omega) (by omega), ok_bind,
    Decimal.cutToDigits]
  split
  · rfl
  · have limit : scaleLimit = 100000 := rfl
    have scale := wide
    rw [Decimal.Wide] at scale
    rw [word_of_fits (by omega) (by omega), ok_bind]
    exact divideToScale_eq wide (Decimal.inRange_ofInt 1) (by rw [leastWord]; omega) (by omega)

/-- What a cut gives has no more digits than a quotient, and its scale is wide. -/
theorem digitCount_of_cutToDigits {bound : Int} (wide : d.Wide)
    (cut : d.cutToDigits bound mode = .ok r) :
    r.digitCount ≤ d.digitCount + 4 * scaleLimit + 1 ∧ r.Wide := by
  rw [Decimal.cutToDigits] at cut
  split at cut
  · cases cut
    exact ⟨by omega, wide⟩
  · exact ⟨digitCount_of_divideToScale wide (Decimal.inRange_ofInt 1) cut,
      (Decimal.scale_of_divideToScale cut).2.wide⟩

/-- **Rounding to a precision never overflows.** -/
theorem roundToPrecision_eq (p : Precision) (wide : d.Wide)
    (few : d.digitCount + 6 * scaleLimit + 1 < 2 ^ 63) :
    roundToPrecision d p = lift (d.roundToPrecision p) := by
  rw [roundToPrecision, Decimal.roundToPrecision]
  split
  · rfl
  · rename_i digits
    have positive := Decimal.one_le_bound digits
    rw [cutToDigits_eq positive (bound_lt p) wide (by omega), lift_bind]
    cases cut : d.cutToDigits p.bound p.mode with
    | error cause => rfl
    | ok e =>
      obtain ⟨fewer, wider⟩ := digitCount_of_cutToDigits wide cut
      exact cutToDigits_eq positive (bound_lt p) wider (by omega)

/-! ## 4. Division to a precision

The guess of a scale is made of two magnitudes and of the digits asked for, and these may be as many
as there are words.  With magnitudes of the wrong sign the guess is too large.  Exact division
counts factors instead of digits, and then asks for a scale with a place for each. -/

/-- **A magnitude never overflows.** -/
theorem magnitude_eq (inRange : d.InRange) (few : d.digitCount < 2 ^ 62) :
    (magnitude d : Outcome ArithmeticFault Int) = .ok d.magnitude := by
  have limit : scaleLimit = 100000 := rfl
  rw [Decimal.inRange_iff] at inRange
  rw [magnitude, digitCount_eq (by omega), word_of_fits (by omega) (by omega), ok_bind,
    word_of_fits (by omega) (by omega), Decimal.magnitude]

/-- **When a division to a precision overflows.**  With digits asked for, it does where the scale
that holds them is too large; without, where the divisor has too many twos and fives, or the places
for them are too many. -/
inductive DivisionOverflows (a b : Decimal) (p : Precision) : Prop
  | guess (digits : p.digits ≠ 0) (dividend : a.toRat ≠ 0)
    (beyond : 2 ^ 63 ≤ p.bound - (a.magnitude - b.magnitude))
  | factors (unlimited : p.digits = 0) (divisor : b.toRat ≠ 0)
    (beyond : 2 ^ 63 ≤ (Decimal.splitTwosAndFives b.unscaled.natAbs).1)
  | places (unlimited : p.digits = 0) (divisor : b.toRat ≠ 0)
    (one : (Decimal.splitTwosAndFives b.unscaled.natAbs).2 = 1)
    (beyond : 2 ^ 63 ≤ Decimal.exactScale a b)

/-- Exact division with a divisor that is not zero, once its factors are counted. -/
theorem divideExactly_of_ne_zero (nonzero : b.toRat ≠ 0) :
    divideExactly a b = (do
      let extra ← word (Decimal.splitTwosAndFives b.unscaled.natAbs).1
      if (Decimal.splitTwosAndFives b.unscaled.natAbs).2 ≠ 1 then fail .nonTerminating
      let left ← word a.scale.natAbs
      let right ← word b.scale.natAbs
      let places ← word (left + right)
      let scale ← word (places + extra)
      return (← divideToScale a b scale .unnecessary).normalize) := by
  rw [divideExactly, Bool.eq_false_iff.mpr (Decimal.isZero_iff.not.mpr nonzero)]
  rfl

/-- **Exact division by a divisor whose factors can be counted** overflows where it goes on to
divide at a scale that is too large. -/
theorem divideExactly_eq (left : a.InRange) (right : b.InRange) (nonzero : b.toRat ≠ 0)
    (few : (Decimal.splitTwosAndFives b.unscaled.natAbs).1 < 2 ^ 63) :
    divideExactly a b =
      if (Decimal.splitTwosAndFives b.unscaled.natAbs).2 = 1
        ∧ 2 ^ 63 ≤ Decimal.exactScale a b
      then .error .overflow else lift (Decimal.divideExactly a b) := by
  have limit : scaleLimit = 100000 := rfl
  have placesLeft := Decimal.inRange_iff.mp left
  have placesRight := Decimal.inRange_iff.mp right
  rw [divideExactly_of_ne_zero nonzero, word_of_fits (by omega) (by omega), ok_bind,
    Decimal.divideExactly_eq a nonzero, Decimal.exactScale]
  by_cases one : (Decimal.splitTwosAndFives b.unscaled.natAbs).2 = 1
  swap
  · rw [if_pos one, if_neg fun both => one both.1, if_neg one]
    rfl
  rw [if_neg (not_not.mpr one), if_pos one]
  simp only [one, true_and]
  rw [word_of_fits (by omega) (by omega), ok_bind, word_of_fits (by omega) (by omega), ok_bind,
    word_of_fits (by omega) (by omega), ok_bind]
  split
  · rename_i beyond
    rw [word_of_large beyond]
    rfl
  · rw [word_of_fits (by omega) (by omega), ok_bind,
      divideToScale_eq left.wide right (by rw [leastWord]; omega) (by omega)]
    cases Decimal.divideToScale a b _ .unnecessary <;> rfl

/-- The magnitudes and the estimate fit; the scale that is taken from the estimate need not.  So
this scale is the first thing that can overflow. -/
theorem divideToPrecision_of_digits (digits : p.digits ≠ 0) (dividend : a.toRat ≠ 0)
    (left : a.InRange) (right : b.InRange) (fewLeft : a.digitCount < 2 ^ 62)
    (fewRight : b.digitCount < 2 ^ 62) :
    divideToPrecision a b p = (do
      let scale ← word (p.bound - (a.magnitude - b.magnitude))
      let quotient ← divideToScale a b scale p.mode
      let excess ← word (digitCount quotient - p.bound)
      let quotient ←
        if 0 < excess then do
          let scale ← word (scale - excess)
          divideToScale a b scale p.mode
        else .ok quotient
      roundToPrecision quotient p) := by
  have limit : scaleLimit = 100000 := rfl
  have placesLeft := Decimal.inRange_iff.mp left
  have placesRight := Decimal.inRange_iff.mp right
  rw [divideToPrecision, if_neg digits, if_neg (Decimal.isZero_iff.not.mpr dividend),
    magnitude_eq left fewLeft, ok_bind, magnitude_eq right fewRight, ok_bind,
    word_of_fits (by rw [Decimal.magnitude, Decimal.magnitude]; omega)
      (by rw [Decimal.magnitude, Decimal.magnitude]; omega), ok_bind]

/-- **A division to a precision overflows as said.** -/
theorem divideToPrecision_overflow (overflows : DivisionOverflows a b p) (left : a.InRange)
    (right : b.InRange) (fewLeft : a.digitCount < 2 ^ 62)
    (fewRight : b.digitCount < 2 ^ 62) :
    divideToPrecision a b p = .error .overflow := by
  cases overflows with
  | guess digits dividend beyond =>
    rw [divideToPrecision_of_digits digits dividend left right fewLeft fewRight,
      word_of_large beyond]
    rfl
  | factors unlimited divisor beyond =>
    rw [divideToPrecision, if_pos unlimited, divideExactly_of_ne_zero divisor,
      word_of_large (by omega)]
    rfl
  | places unlimited divisor one beyond =>
    rw [divideToPrecision, if_pos unlimited]
    by_cases few : (Decimal.splitTwosAndFives b.unscaled.natAbs).1 < 2 ^ 63
    · rw [divideExactly_eq left right divisor few, if_pos ⟨one, beyond⟩]
    · rw [divideExactly_of_ne_zero divisor, word_of_large (by omega)]
      rfl

/-- With digits asked for, a scale that fits is all it takes.  Behind it everything is small: the
first division has gone through, so its scale is within the limit and its digits are few, and so it
is with the second one. -/
theorem divideToPrecision_of_guess (digits : p.digits ≠ 0) (dividend : a.toRat ≠ 0)
    (left : a.InRange)
    (right : b.InRange) (fewLeft : a.digitCount < 2 ^ 62) (fewRight : b.digitCount < 2 ^ 62)
    (below : p.bound - (a.magnitude - b.magnitude) < 2 ^ 63) :
    divideToPrecision a b p = lift (Decimal.divideToPrecision a b p) := by
  have limit : scaleLimit = 100000 := rfl
  have positive := Decimal.one_le_bound digits
  have small := bound_lt p
  have above : -(2 ^ 63) < p.bound - (a.magnitude - b.magnitude) := by
    have placesLeft := Decimal.inRange_iff.mp left
    have placesRight := Decimal.inRange_iff.mp right
    rw [Decimal.magnitude, Decimal.magnitude]
    omega
  rw [divideToPrecision_of_digits digits dividend left right fewLeft fewRight,
    Decimal.divideToPrecision, if_neg digits, if_neg (Decimal.isZero_iff.not.mpr dividend)]
  dsimp only
  generalize p.bound - (a.magnitude - b.magnitude) = guess at above below ⊢
  rw [word_of_fits (by omega) below, ok_bind,
    divideToScale_eq left.wide right (by rw [leastWord]; omega) below]
  cases first : Decimal.divideToScale a b guess p.mode with
  | error cause => rfl
  | ok q =>
    -- The guess went through, so it is a scale within the limit, and the digits of the quotient are
    -- few.
    have fewer := digitCount_of_divideToScale left.wide right first
    obtain ⟨rfl, inRange⟩ := Decimal.scale_of_divideToScale first
    have supported := Decimal.inRange_iff.mp inRange
    simp only [lift_ok, ok_bind]
    rw [digitCount_eq (by omega), word_of_fits (by omega) (by omega), ok_bind]
    by_cases more : 0 < (q.digitCount : Int) - p.bound
    · rw [if_pos more, if_pos more, word_of_fits (by omega) (by omega), ok_bind,
        divideToScale_eq left.wide right (by rw [leastWord]; omega) (by omega)]
      cases second : Decimal.divideToScale a b (q.scale - (q.digitCount - p.bound)) p.mode with
      | error cause => rfl
      | ok r =>
        have fewer' := digitCount_of_divideToScale left.wide right second
        exact roundToPrecision_eq p (Decimal.scale_of_divideToScale second).2.wide (by omega)
    · rw [if_neg more, if_neg more]
      exact roundToPrecision_eq p inRange.wide (by omega)

/-- **A division to a precision overflows in no other case.** -/
theorem divideToPrecision_eq (fits : ¬ DivisionOverflows a b p) (left : a.InRange)
    (right : b.InRange) (fewLeft : a.digitCount < 2 ^ 62)
    (fewRight : b.digitCount < 2 ^ 62) :
    divideToPrecision a b p = lift (Decimal.divideToPrecision a b p) := by
  by_cases digits : p.digits = 0
  · rw [divideToPrecision, Decimal.divideToPrecision, if_pos digits, if_pos digits]
    by_cases zero : b.toRat = 0
    · rw [Decimal.divideExactly_of_zero a zero, divideExactly, Decimal.isZero_iff.mpr zero]
      rfl
    · rw [divideExactly_eq left right zero
        (not_le.mp fun many => fits (.factors digits zero (by omega))), if_neg]
      rintro ⟨one, beyond⟩
      exact fits (.places digits zero one beyond)
  by_cases dividend : a.toRat = 0
  · rw [divideToPrecision, Decimal.divideToPrecision, if_neg digits, if_neg digits,
      if_pos (Decimal.isZero_iff.mpr dividend), if_pos (Decimal.isZero_iff.mpr dividend)]
    exact divideToScale_eq left.wide right (by decide) (by decide)
  · exact divideToPrecision_of_guess digits dividend left right fewLeft fewRight
      (not_le.mp fun beyond => fits (.guess digits dividend beyond))

end Bounded

/-! ## 5. Operands

An operand is a decimal, or a text that is read as one, and its scale is whatever was bound or
written.  `number?` is what it stands for before the check; so the condition of the first section
can be put on values. -/

/-- **What is read from a text** has a scale of 64 bits, and the digits of its mantissa.  The digits
are read last, so a text that is refused for its scale may have any mantissa. -/
theorem Decimal.readChars_eq_ok {text : List Char} {d : Decimal} (done : readChars text = .ok d) :
    scaleFits d.scale = true ∧
      readInteger (splitPoint (splitExponent text).1).1 = .ok d.unscaled := by
  -- Whatever the exponent is, the scale is looked at before the digits are.
  have behind : ∀ {exponent : Int} {mantissa : List Char},
      (do
        if mantissa.isEmpty then .error .noMantissa
        let scale := ((splitPoint mantissa).2 : Int) - exponent
        if !scaleFits scale then .error (.scaleOverflow (String.ofList text))
        let unscaled ← readInteger (splitPoint mantissa).1
        return ⟨unscaled, scale⟩ : Except Unreadable Decimal) = .ok d →
      scaleFits d.scale = true ∧ readInteger (splitPoint mantissa).1 = .ok d.unscaled := by
    intro exponent mantissa done
    dsimp only at done
    split at done
    · cases done
    cases fits : scaleFits ((splitPoint mantissa).2 - exponent) with
    | false => rw [fits] at done; cases done
    | true =>
      rw [fits] at done
      obtain ⟨unscaled, read, made⟩ := bind_eq_ok done
      cases made
      exact ⟨fits, read⟩
  rw [readChars] at done
  dsimp only at done
  split at done
  · exact behind done
  · obtain ⟨exponent, -, done⟩ := bind_eq_ok done
    exact behind done

theorem Decimal.scaleFits_of_readChars {text : List Char} {d : Decimal}
    (done : readChars text = .ok d) : scaleFits d.scale = true :=
  (readChars_eq_ok done).1

namespace Value

/-- **The decimal that an operand stands for**, before its scale is checked. -/
def number? : Value → Option Decimal
  | decimal number => some number
  | text content => (Decimal.readChars (Text.trim content.toList)).toOption
  | null | bool _ => none

theorem number?_text_eq_some {content : String} {d : Decimal} :
    (text content).number? = some d
      ↔ Decimal.readChars (Text.trim content.toList) = .ok d := by
  rw [number?]
  cases Decimal.readChars (Text.trim content.toList) <;> simp [Except.toOption]

theorem ne_null_of_number? {v : Value} {d : Decimal} (number : v.number? = some d) : v ≠ .null := by
  rintro rfl
  cases number

/-- **An operand that there can be**: its scale is an integer of 64 bits, and it has fewer digits
than half of these integers. -/
def Fits (v : Value) : Prop :=
  (∀ d, v = .decimal d → Decimal.scaleFits d.scale = true) ∧
    ∀ d, v.number? = some d → d.digitCount < 2 ^ 62

/-- A decimal whose scale is an integer of 64 bits; a text has one anyway. -/
def ScaleFits (v : Value) : Prop := ∀ d, v = .decimal d → Decimal.scaleFits d.scale = true

/-- The scale of an operand fits, also where it is read. -/
theorem ScaleFits.number {v : Value} {d : Decimal} (fits : v.ScaleFits)
    (number : v.number? = some d) :
    Decimal.scaleFits d.scale = true := by
  cases v with
  | null | bool => cases number
  | decimal e =>
    cases number
    exact fits d rfl
  | text content => exact Decimal.scaleFits_of_readChars (number?_text_eq_some.mp number)

/-- **An operand at the least scale**, be it a decimal or a text. -/
def AtLeastScale (v : Value) : Prop := ∃ d, v.number? = some d ∧ d.scale = leastWord

/-- An operand that passes its check is the decimal it stands for. -/
theorem number?_of_toDecimal {v : Value} {d : Decimal} (operand : v.toDecimal = .ok d) :
    v.number? = some d := by
  have checked : ∀ {e : Decimal}, e.checkScale.mapError Fault.ofArithmetic = .ok d → e = d :=
    fun passed => (Decimal.inRange_of_checkScale (mapError_eq_ok passed)).1.symm
  cases v with
  | null | bool => cases operand
  | decimal e => rw [number?, checked operand]
  | text content =>
    rw [toDecimal] at operand
    rw [number?_text_eq_some]
    cases done : Decimal.readChars (Text.trim content.toList) with
    | error cause => rw [done] at operand; cases operand
    | ok e =>
      rw [done] at operand
      rw [checked operand]

end Value

namespace Bounded

variable {a b d r : Decimal} {operator : Operator} {policy : Policy} {p : Precision}
  {left right v : Value}

/-- A check of an operand is one of its scale, and a fault of it is one of the operand. -/
theorem asFault_checkScale (fits : Decimal.scaleFits d.scale = true) (more : d.scale ≠ leastWord) :
    asFault (checkScale d) = lift (d.checkScale.mapError Fault.ofArithmetic) := by
  rw [checkScale_eq fits, if_neg more]
  cases d.checkScale <;> rfl

/-- **An operand at the least scale overflows.** -/
theorem toDecimal_overflow (number : v.number? = some d) (least : d.scale = leastWord) :
    toDecimal v = .error .overflow := by
  have overflow : (asFault (checkScale d) : Outcome Fault Decimal) = .error .overflow := by
    rw [checkScale_eq (by rw [least]; decide), if_pos least]
    rfl
  cases v with
  | null | bool => cases number
  | decimal e =>
    cases number
    exact overflow
  | text content =>
    rw [toDecimal, Value.number?_text_eq_some.mp number]
    exact overflow

/-- **An operand at any other scale** is what it is without bounds. -/
theorem toDecimal_eq (fits : v.ScaleFits) (more : ¬ v.AtLeastScale) :
    toDecimal v = lift v.toDecimal := by
  cases v with
  | null | bool => rfl
  | decimal d => exact asFault_checkScale (fits.number rfl) fun least => more ⟨d, rfl, least⟩
  | text content =>
    rw [toDecimal, Value.toDecimal]
    cases done : Decimal.readChars (Text.trim content.toList) with
    | error cause => rfl
    | ok d =>
      have number := Value.number?_text_eq_some.mpr done
      exact asFault_checkScale (fits.number number) fun least => more ⟨d, number, least⟩

/-- **Coercing an operand overflows at the least scale**, and nowhere else. -/
theorem toDecimal_overflowsWhere (fits : v.ScaleFits) :
    OverflowsWhere v.AtLeastScale v.toDecimal (toDecimal v) where
  overflow := by
    rintro ⟨d, number, least⟩
    exact toDecimal_overflow number least
  eq_lift := toDecimal_eq fits

/-! ## 6. Operations on values

An operation coerces the left operand, then the right one, and computes.  It overflows where one of
these steps does and those before it succeed, so the condition has a case for each (`Overflows`);
the check of the result has none, since results are never that far out. -/

/-- What a precision leaves of a decimal has no larger scale than a product. -/
theorem wide_of_roundToPrecision (wide : d.Wide) (done : d.roundToPrecision p = .ok r) :
    r.Wide := by
  rw [Decimal.roundToPrecision] at done
  split at done
  · cases done
    exact wide
  · obtain ⟨e, first, second⟩ := bind_eq_ok done
    exact (digitCount_of_cutToDigits (digitCount_of_cutToDigits wide first).2 second).2

theorem scale_of_wide (wide : d.Wide) : leastWord < d.scale ∧ d.scale < 2 ^ 63 := by
  have limit : scaleLimit = 100000 := rfl
  rw [Decimal.Wide] at wide
  rw [leastWord]
  omega

/-- The normal form has no more places to the left than there are digits. -/
theorem scale_normalize (d : Decimal) :
    d.normalize.scale ≤ max d.scale 0 ∧ min d.scale 0 - d.digitCount ≤ d.normalize.scale := by
  rw [Decimal.normalize]
  split
  · dsimp only
    omega
  · rename_i nonzero
    have positive : 0 < d.unscaled.natAbs :=
      Int.natAbs_pos.mpr (Decimal.toRat_eq_zero_iff.not.mp (Decimal.isZero_iff.not.mp nonzero))
    obtain ⟨product, -⟩ := Digits.splitPower_spec (p := 10) (by decide) positive
    have zeros : (Digits.splitPower 10 d.unscaled.natAbs).1 < d.digitCount := by
      rw [Decimal.digitCount, Digits.count_eq, Nat.lt_succ_iff]
      exact Nat.le_log_of_pow_le (by decide)
        (Nat.le_of_dvd positive (Dvd.intro _ product))
    dsimp only
    omega

/-- **The scale of a quotient fits**, also where it is in normal form.  A normal form may have a
scale below the limit, by as many places as the quotient has digits; these are counted in 64 bits.
-/
theorem scale_of_divideToPrecision (left : a.InRange) (right : b.InRange)
    (few : a.digitCount < 2 ^ 62) (done : Decimal.divideToPrecision a b p = .ok r) :
    leastWord < r.scale ∧ r.scale < 2 ^ 63 := by
  have limit : scaleLimit = 100000 := rfl
  by_cases digits : p.digits = 0
  · rw [Decimal.divideToPrecision, if_pos digits] at done
    by_cases zero : b.toRat = 0
    · rw [Decimal.divideExactly_of_zero a zero] at done
      cases done
    rw [Decimal.divideExactly_eq a zero] at done
    split at done
    swap
    · cases done
    cases divided : Decimal.divideToScale a b (Decimal.exactScale a b) .unnecessary with
    | error cause => rw [divided] at done; cases done
    | ok q =>
      rw [divided] at done
      cases done
      have fewer := digitCount_of_divideToScale left.wide right divided
      have inRange := Decimal.inRange_iff.mp (Decimal.scale_of_divideToScale divided).2
      have normal := scale_normalize q
      rw [leastWord]
      omega
  · obtain ⟨-, done⟩ | ⟨scale, q, divided, done⟩ := Decimal.exists_of_divideToPrecision digits done
    · exact scale_of_wide (Decimal.scale_of_divideToScale done).2.wide
    · have inRange := (Decimal.scale_of_divideToScale divided).2
      exact scale_of_wide (wide_of_roundToPrecision inRange.wide done)

/-- **When an operation on decimals overflows**: where it is a division to a precision that does. -/
def DecimalsOverflow (operator : Operator) (policy : Policy) (a b : Decimal) : Prop :=
  ∃ p, operator = .divide ∧ policy.precision = some p ∧ DivisionOverflows a b p

theorem roundResult_eq (policy : Policy) (wide : d.Wide) (few : d.digitCount < 2 ^ 62) :
    roundResult policy d = lift (Operator.roundResult policy d) := by
  rw [roundResult, Operator.roundResult]
  cases policy.precision with
  | none => rfl
  | some p =>
    have limit : scaleLimit = 100000 := rfl
    exact roundToPrecision_eq p wide (by omega)

theorem scale_of_roundResult (wide : d.Wide) (done : Operator.roundResult policy d = .ok r) :
    leastWord < r.scale ∧ r.scale < 2 ^ 63 := by
  rw [Operator.roundResult] at done
  split at done
  · cases done
    exact scale_of_wide wide
  · exact scale_of_wide (wide_of_roundToPrecision wide done)

/-- **An operation on decimals overflows as said**, and otherwise gives what it gives without
bounds, with a scale that passes the check. -/
theorem applyDecimal_eq (operator : Operator) (policy : Policy) (left : a.InRange)
    (right : b.InRange)
    (fewLeft : a.digitCount < 2 ^ 62) (fewRight : b.digitCount < 2 ^ 62)
    (fewExact : ∀ e, operator.exactResult? a b = some e → e.digitCount < 2 ^ 62) :
    (DecimalsOverflow operator policy a b → applyDecimal operator policy a b = .error .overflow) ∧
    (¬ DecimalsOverflow operator policy a b →
      applyDecimal operator policy a b = lift (operator.applyDecimal policy a b)) ∧
    ∀ r, operator.applyDecimal policy a b = .ok r →
      leastWord < r.scale ∧ r.scale < 2 ^ 63 := by
  have exactly : ∀ {e : Decimal}, operator.exactResult? a b = some e →
      applyDecimal operator policy a b = roundResult policy e →
      operator.applyDecimal policy a b = Operator.roundResult policy e →
      applyDecimal operator policy a b = lift (operator.applyDecimal policy a b) ∧
      ∀ r, operator.applyDecimal policy a b = .ok r →
        leastWord < r.scale ∧ r.scale < 2 ^ 63 := by
    intro e result bounded unbounded
    obtain ⟨-, wide⟩ := Operator.exactResult?_spec left right result
    rw [bounded, unbounded]
    exact ⟨roundResult_eq policy wide (fewExact e result), fun r => scale_of_roundResult wide⟩
  cases operator with
  | add | subtract | multiply =>
    obtain ⟨same, scale⟩ := exactly rfl rfl rfl
    refine ⟨?_, fun _ => same, scale⟩
    rintro ⟨p, division, -⟩
    cases division
  | divide =>
    rw [applyDecimal, Operator.applyDecimal]
    cases precision : policy.precision with
    | none =>
      refine ⟨?_, fun _ => ?_, fun r done => ?_⟩
      · rintro ⟨p, -, precise, -⟩
        cases precision.symm.trans precise
      · have places := policy.scale.toNat_lt
        exact divideToScale_eq left.wide right (by rw [leastWord]; omega) (by omega)
      · exact scale_of_wide (Decimal.scale_of_divideToScale done).2.wide
    | some p =>
      refine ⟨?_, fun fits => ?_, fun r => scale_of_divideToPrecision left right fewLeft⟩
      · rintro ⟨q, -, precise, overflows⟩
        cases precision.symm.trans precise
        exact divideToPrecision_overflow overflows left right fewLeft fewRight
      · exact divideToPrecision_eq (fun overflows => fits ⟨p, rfl, precision, overflows⟩) left right
          fewLeft fewRight

/-- **When an operation on values overflows**: an operand that is looked at has the least scale, or
the operation on their decimals overflows. -/
inductive Overflows (operator : Operator) (policy : Policy) (left right : Value) : Prop
  | left {a : Decimal} (present : right ≠ .null) (number : left.number? = some a)
    (least : a.scale = leastWord)
  | right {a b : Decimal} (operand : left.toDecimal = .ok a) (number : right.number? = some b)
    (least : b.scale = leastWord)
  | operation {a b : Decimal} (atLeft : left.toDecimal = .ok a) (atRight : right.toDecimal = .ok b)
    (overflows : DecimalsOverflow operator policy a b)

theorem scale_ne_leastWord (inRange : d.InRange) : d.scale ≠ leastWord :=
  (scale_of_wide inRange.wide).1.ne'

/-- An operand that passes its check without bounds passes it with them. -/
theorem toDecimal_of_ok (fits : v.Fits) (operand : v.toDecimal = .ok d) : toDecimal v = .ok d := by
  rw [toDecimal_eq fits.1, operand, lift_ok]
  rintro ⟨e, number, least⟩
  cases (Value.number?_of_toDecimal operand).symm.trans number
  exact scale_ne_leastWord (Value.inRange_of_toDecimal operand) least

/-- **Where neither operand is null**, both are coerced, the left one first; so it is without
bounds. -/
theorem apply_of_present (operator : Operator) (policy : Policy) (atLeft : left ≠ .null)
    (atRight : right ≠ .null) :
    apply operator policy left right = (do
      let a ← toDecimal left
      let b ← toDecimal right
      asFault ((applyDecimal operator policy a b).bind checkScale)) ∧
    operator.apply policy left right = (do
      let a ← left.toDecimal
      let b ← right.toDecimal
      ((operator.applyDecimal policy a b).bind Decimal.checkScale).mapError
        Fault.ofArithmetic) := by
  cases left with
  | null => exact absurd rfl atLeft
  | bool | decimal | text =>
    cases right with
    | null => exact absurd rfl atRight
    | bool | decimal | text => exact ⟨rfl, rfl⟩

/-- **An operation on values overflows as said.**  One case for each way to overflow: the left
operand, the right one behind a left one that passes, or the operation behind both. -/
theorem apply_overflow (fitsLeft : left.Fits) (fitsRight : right.Fits)
    (fewExact : ∀ a b e, left.toDecimal = .ok a → right.toDecimal = .ok b →
      operator.exactResult? a b = some e → e.digitCount < 2 ^ 62)
    (overflows : Overflows operator policy left right) :
    apply operator policy left right = .error .overflow := by
  cases overflows with
  | left present number least =>
    rw [(apply_of_present operator policy (Value.ne_null_of_number? number) present).1,
      toDecimal_overflow number least]
    rfl
  | right operand number least =>
    have numberLeft := Value.number?_of_toDecimal operand
    rw [(apply_of_present operator policy (Value.ne_null_of_number? numberLeft)
        (Value.ne_null_of_number? number)).1,
      toDecimal_of_ok fitsLeft operand, ok_bind, toDecimal_overflow number least]
    rfl
  | @operation a b atLeft atRight overflows =>
    have numberLeft := Value.number?_of_toDecimal atLeft
    have numberRight := Value.number?_of_toDecimal atRight
    rw [(apply_of_present operator policy (Value.ne_null_of_number? numberLeft)
        (Value.ne_null_of_number? numberRight)).1,
      toDecimal_of_ok fitsLeft atLeft, ok_bind, toDecimal_of_ok fitsRight atRight, ok_bind,
      (applyDecimal_eq operator policy (Value.inRange_of_toDecimal atLeft)
        (Value.inRange_of_toDecimal atRight) (fitsLeft.2 a numberLeft) (fitsRight.2 b numberRight)
        (fun e => fewExact a b e atLeft atRight)).1 overflows]
    rfl

/-- **An operation on values overflows in no other case.**  Nulls are settled before anything is
coerced.  Then each step is the one without bounds, since the condition excludes it, and the check
of the result is never the one that overflows. -/
theorem apply_eq (fitsLeft : left.Fits) (fitsRight : right.Fits)
    (fewExact : ∀ a b e, left.toDecimal = .ok a → right.toDecimal = .ok b →
      operator.exactResult? a b = some e → e.digitCount < 2 ^ 62)
    (fits : ¬ Overflows operator policy left right) :
    apply operator policy left right = lift (operator.apply policy left right) := by
  by_cases absentLeft : left = .null
  · subst absentLeft
    rfl
  by_cases absentRight : right = .null
  · subst absentRight
    cases left <;> rfl
  obtain ⟨bounded, unbounded⟩ := apply_of_present operator policy absentLeft absentRight
  rw [bounded, unbounded,
    toDecimal_eq fitsLeft.1 fun ⟨a, number, least⟩ => fits (.left absentRight number least)]
  cases atLeft : left.toDecimal with
  | error fault => rfl
  | ok a =>
    rw [toDecimal_eq fitsRight.1 fun ⟨b, number, least⟩ => fits (.right atLeft number least)]
    cases atRight : right.toDecimal with
    | error fault => rfl
    | ok b =>
      obtain ⟨-, same, checked⟩ :=
        applyDecimal_eq operator policy (Value.inRange_of_toDecimal atLeft)
        (Value.inRange_of_toDecimal atRight) (fitsLeft.2 a (Value.number?_of_toDecimal atLeft))
        (fitsRight.2 b (Value.number?_of_toDecimal atRight))
        (fun e => fewExact a b e atLeft atRight)
      simp only [lift_ok, ok_bind]
      rw [same fun overflows => fits (.operation atLeft atRight overflows)]
      cases result : operator.applyDecimal policy a b with
      | error cause => rfl
      | ok r =>
        obtain ⟨lower, upper⟩ := checked r result
        exact asFault_checkScale (scaleFits_iff.mpr ⟨lower.le, upper⟩) lower.ne'

/-- **Where an operation on values overflows**, and what it comes to elsewhere. -/
theorem apply_overflowsWhere (fitsLeft : left.Fits) (fitsRight : right.Fits)
    (fewExact : ∀ a b e, left.toDecimal = .ok a → right.toDecimal = .ok b →
      operator.exactResult? a b = some e → e.digitCount < 2 ^ 62) :
    OverflowsWhere (Overflows operator policy left right) (operator.apply policy left right)
      (apply operator policy left right) where
  overflow := apply_overflow fitsLeft fitsRight fewExact
  eq_lift := apply_eq fitsLeft fitsRight fewExact

/-! ## 7. Where nothing overflows

The conditions say exactly when there is an overflow; these lemmas say where there is certainly
none.  The factors of a divisor are bounded by its digits, and a moderate number of digits cannot
push a guess out of range. -/

/-- A number has fewer than four factors for each of its digits. -/
theorem splitTwosAndFives_lt (nonzero : b.toRat ≠ 0) :
    (Decimal.splitTwosAndFives b.unscaled.natAbs).1 < 4 * b.digitCount := by
  have positive : 0 < b.unscaled.natAbs :=
    Int.natAbs_pos.mpr (Decimal.toRat_eq_zero_iff.not.mp nonzero)
  obtain ⟨i, j, factors, product, -⟩ := Decimal.splitTwosAndFives_spec positive
  rw [factors, ← Nat.pow_lt_pow_iff_right (a := 2) (by decide)]
  calc 2 ^ (i + j) = 2 ^ i * 2 ^ j := pow_add 2 i j
    _ ≤ 2 ^ i * 5 ^ j := Nat.mul_le_mul_left _ (Nat.pow_le_pow_left (by decide) j)
    _ ≤ b.unscaled.natAbs := Nat.le_of_dvd positive (Dvd.intro _ product)
    _ < 10 ^ b.digitCount := (digitCount_le_iff (Decimal.one_le_digitCount b)).mp le_rfl
    _ ≤ 2 ^ (4 * b.digitCount) := by
      rw [pow_mul]
      exact Nat.pow_le_pow_left (by decide) _

/-- **A division to a moderate precision does not overflow.**  The guess is off by the digits and
the scales of the operands, the factors of a divisor are fewer than four times its digits, and both
are far below what is left. -/
theorem not_divisionOverflows (left : a.InRange) (right : b.InRange)
    (fewRight : b.digitCount < 2 ^ 62)
    (moderate : p.digits.toNat < 2 ^ 61) (fewFactors : p.digits = 0 → b.digitCount < 2 ^ 60) :
    ¬ DivisionOverflows a b p := by
  have limit : scaleLimit = 100000 := rfl
  have placesLeft := Decimal.inRange_iff.mp left
  have placesRight := Decimal.inRange_iff.mp right
  intro overflows
  cases overflows with
  | guess digits dividend beyond =>
    have some := Decimal.one_le_digitCount a
    rw [Precision.bound, Decimal.magnitude, Decimal.magnitude] at beyond
    omega
  | factors unlimited divisor beyond =>
    have factors := splitTwosAndFives_lt divisor
    have few := fewFactors unlimited
    omega
  | places unlimited divisor one beyond =>
    have factors := splitTwosAndFives_lt divisor
    have few := fewFactors unlimited
    rw [Decimal.exactScale] at beyond
    omega

/-- **A numeral at the least scale overflows.** -/
theorem ofNumeral_overflow {text : String} (read : Decimal.read text = .ok d)
    (least : d.scale = leastWord) :
    ofNumeral text = .error .overflow := by
  rw [ofNumeral, read]
  dsimp only
  rw [checkScale_eq (Decimal.scaleFits_of_readChars read), if_pos least]

/-- **A numeral at any other scale** is what it is without bounds. -/
theorem ofNumeral_eq {text : String} (more : ∀ d, Decimal.read text = .ok d → d.scale ≠ leastWord) :
    ofNumeral text = lift (Decimal.ofNumeral text) := by
  rw [ofNumeral, Decimal.ofNumeral]
  cases read : Decimal.read text with
  | error reason => rfl
  | ok d =>
    dsimp only
    rw [checkScale_eq (Decimal.scaleFits_of_readChars read), if_neg (more d read)]

/-- **Where a numeral overflows**, and what it comes to elsewhere. -/
theorem ofNumeral_overflowsWhere (text : String) :
    OverflowsWhere (∃ d, Decimal.read text = .ok d ∧ d.scale = leastWord) (Decimal.ofNumeral text)
      (ofNumeral text) where
  overflow := by
    rintro ⟨d, read, least⟩
    exact ofNumeral_overflow read least
  eq_lift := fun more => ofNumeral_eq fun d read least => more ⟨d, read, least⟩

/-- **Operands at other scales do not overflow** under a moderate precision. -/
theorem not_overflows (fitsRight : right.Fits)
    (more : ∀ d, left.number? = some d ∨ right.number? = some d → d.scale ≠ leastWord)
    (moderate : ∀ p, policy.precision = some p → p.digits.toNat < 2 ^ 61 ∧
      (p.digits = 0 → ∀ d, right.number? = some d → d.digitCount < 2 ^ 60)) :
    ¬ Overflows operator policy left right := by
  intro overflows
  cases overflows with
  | left _ number least => exact more _ (.inl number) least
  | right _ number least => exact more _ (.inr number) least
  | operation atLeft atRight overflows =>
    obtain ⟨p, -, precise, overflows⟩ := overflows
    obtain ⟨few, fewFactors⟩ := moderate p precise
    have number := Value.number?_of_toDecimal atRight
    exact not_divisionOverflows (Value.inRange_of_toDecimal atLeft)
      (Value.inRange_of_toDecimal atRight) (fitsRight.2 _ number) few
      (fun unlimited => fewFactors unlimited _ number) overflows

/-- **Arithmetic with bounded scales is arithmetic without bounds, or overflows in one of three
ways.**  A numeral overflows where it is read at the least scale, and no other does.  An operation
overflows exactly where an operand that is looked at has the least scale, or where a division to a
precision asks for a scale that is too large or counts too many factors; otherwise its outcome is
the one without bounds, result or fault.  So nothing overflows for operands at other scales with a
precision of fewer than `2 ^ 61` digits, if those that divide exactly have fewer than `2 ^ 60`. -/
theorem apply_overflows (text : String) (operator : Operator) (policy : Policy) {left right : Value}
    (fitsLeft : left.Fits) (fitsRight : right.Fits)
    (fewExact : ∀ a b e, left.toDecimal = .ok a → right.toDecimal = .ok b →
      operator.exactResult? a b = some e → e.digitCount < 2 ^ 62) :
    ((ofNumeral text = .error .overflow ↔ ∃ d, Decimal.read text = .ok d ∧ d.scale = leastWord) ∧
      (ofNumeral text ≠ .error .overflow → ofNumeral text = lift (Decimal.ofNumeral text))) ∧
    (apply operator policy left right = .error .overflow ↔ Overflows operator policy left right) ∧
    (¬ Overflows operator policy left right →
      apply operator policy left right = lift (operator.apply policy left right)) ∧
    ((∀ d, left.number? = some d ∨ right.number? = some d → d.scale ≠ leastWord) →
      (∀ p, policy.precision = some p → p.digits.toNat < 2 ^ 61 ∧
        (p.digits = 0 → ∀ d, right.number? = some d → d.digitCount < 2 ^ 60)) →
      ¬ Overflows operator policy left right) := by
  have literal := ofNumeral_overflowsWhere text
  have operation : OverflowsWhere (Overflows operator policy left right)
      (operator.apply policy left right) (apply operator policy left right) :=
    apply_overflowsWhere fitsLeft fitsRight fewExact
  refine ⟨⟨literal.overflow_iff, fun fits => ?_⟩, operation.overflow_iff, operation.eq_lift,
    not_overflows fitsRight⟩
  exact literal.eq_lift fun least => fits (literal.overflow least)

/-- A decimal of one digit, as an operand. -/
theorem fits_digit {n scale : Int} (small : n.natAbs < 10) (fits : Decimal.scaleFits scale = true) :
    (Value.decimal ⟨n, scale⟩).Fits := by
  constructor
  · rintro d ⟨⟩
    exact fits
  · rintro d ⟨⟩
    have one : Decimal.digitCount ⟨n, scale⟩ ≤ 1 := (digitCount_le_iff le_rfl).mpr small
    omega

/-- A numeral may be at the least scale.  One by ten (`1 / 1e1`) has a negative estimate, so with
the most digits that can be asked for it asks for the scale `2 ^ 63`; with thirty-four digits it
does not overflow. -/
theorem apply_overflows_tenth :
    ofNumeral "1e9223372036854775808" = .error .overflow ∧
      apply .divide ⟨10, .halfUp, some ⟨18446744073709551615, .halfUp⟩⟩ (.decimal ⟨1, 0⟩)
        (.decimal ⟨1, -1⟩) = .error .overflow ∧
      apply .divide ⟨10, .halfUp, some ⟨34, .halfUp⟩⟩ (.decimal ⟨1, 0⟩) (.decimal ⟨1, -1⟩)
        = lift (Operator.divide.apply ⟨10, .halfUp, some ⟨34, .halfUp⟩⟩ (.decimal ⟨1, 0⟩)
          (.decimal ⟨1, -1⟩)) := by
  have one : (Value.decimal ⟨1, 0⟩).Fits := fits_digit (by decide) (by decide)
  have ten : (Value.decimal ⟨1, -1⟩).Fits := fits_digit (by decide) (by decide)
  have least : Decimal.read "1e9223372036854775808" = .ok ⟨1, leastWord⟩ := by cbv
  obtain ⟨⟨literal, -⟩, overflow, -⟩ := apply_overflows "1e9223372036854775808" .divide
    ⟨10, .halfUp, some ⟨18446744073709551615, .halfUp⟩⟩ one ten (by rintro _ _ _ - - ⟨⟩)
  obtain ⟨-, -, same, moderate⟩ := apply_overflows "0" .divide ⟨10, .halfUp, some ⟨34, .halfUp⟩⟩
    one ten (by rintro _ _ _ - - ⟨⟩)
  refine ⟨literal.mpr ⟨_, least, rfl⟩, overflow.mpr (.operation (a := ⟨1, 0⟩) (b := ⟨1, -1⟩) rfl rfl
    ⟨_, rfl, rfl, ?_⟩), same (moderate ?_ ?_)⟩
  · exact .guess (by decide) (by norm_num [Decimal.toRat_eq]) (by decide)
  · rintro d (⟨⟨⟩⟩ | ⟨⟨⟩⟩) <;> decide
  · rintro p ⟨⟩
    exact ⟨by decide, by decide⟩

/-- A text may be read at the least scale. -/
theorem number?_least : (Value.text "1e9223372036854775808").number? = some ⟨1, leastWord⟩ :=
  Value.number?_text_eq_some.mpr (by cbv)

/-- **Operands that can be read overflow**: the exponent of a text may be one that no scale has. -/
theorem apply_overflows_text :
    ¬ ∀ (operator : Operator) (policy : Policy) (left right : Value), left.Fits → right.Fits →
      (∀ a b e, left.toDecimal = .ok a → right.toDecimal = .ok b →
        operator.exactResult? a b = some e → e.digitCount < 2 ^ 62) →
      apply operator policy left right ≠ .error .overflow := by
  intro never
  have number := number?_least
  have large : (Value.text "1e9223372036854775808").toDecimal
      = .error (.ofArithmetic (.exponentRange 9223372036854775808)) := by
    rw [Value.toDecimal, Value.number?_text_eq_some.mp number]
    rfl
  refine never .multiply Policy.standard (.text "1e9223372036854775808") (.decimal ⟨2, 0⟩) ?_
    (fits_digit (by decide) (by decide)) ?_ ?_
  · refine ⟨by rintro d ⟨⟩, fun d same => ?_⟩
    cases number.symm.trans same
    exact (fits_digit (by decide) (by decide)).2 _ rfl
  · intro a b e operand
    cases large.symm.trans operand
  · rw [(apply_of_present _ _ (Value.ne_null_of_number? number) (by rintro ⟨⟩)).1,
      toDecimal_overflow number rfl]
    rfl

end Bounded
end DecimalExpression
