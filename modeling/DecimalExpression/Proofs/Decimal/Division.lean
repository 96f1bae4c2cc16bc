import DecimalExpression.Proofs.Decimal.Magnitude
import DecimalExpression.Proofs.Decimal.Rounding

/-!
# Division is of the numbers

A quotient at a scale is the exact quotient of the two numbers, rounded once (`divideToScale_eq`).
So it depends on the numbers alone, and it fails only for a divisor of zero, a scale beyond the
limit or a mode that refuses to round (`divideToScale_rounds`).  Cutting a decimal to some digits
rounds its number at a scale that its magnitude says, or leaves a decimal as it is that has no more
places than that (`cutToDigits_eq`).

Exact division never has to round: a divisor that it takes has no other prime factors than 2 and 5,
and the scale that it asks for has a place for each of them (`divideExactly_of_factors`).
-/

namespace DecimalExpression
namespace Decimal

variable {a b d : Decimal} {mode : RoundingMode} {scale : Int}

/-! ## 1. Division to a scale

The quotient is computed as one fraction of integers: whichever unscaled integer has too few places
is moved up.  The places that are missing are the shift, and it is an exponent of a power of ten
that has to be computable.  Operands within the limit never shift too far, so for them the fault is
dropped and the quotient is the rounded rational number. -/

/-- **A number rounded to some places**: an integer at that scale, unless the mode refuses to
round. -/
def roundedTo (q : ℚ) (scale : Int) (mode : RoundingMode) : Except ArithmeticFault Decimal :=
  match mode.round? (q * 10 ^ scale) with
  | some unscaled => .ok ⟨unscaled, scale⟩
  | none => .error .roundingNecessary

/-- A number with few enough places stays. -/
theorem roundedTo_of_integer (mode : RoundingMode) {q : ℚ} {n : ℤ} (integer : q * 10 ^ scale = n) :
    roundedTo q scale mode = .ok ⟨n, scale⟩ ∧ toRat ⟨n, scale⟩ = q := by
  constructor
  · rw [roundedTo, integer, RoundingMode.round?_intCast]
  · rw [toRat_eq, ← integer, mul_assoc, ← ten_zpow_add, add_neg_cancel, zpow_zero, mul_one]

/-- **A quotient as a fraction of unscaled integers**, shifted by what the scales are apart. -/
theorem quotient_eq (a b : Decimal) (scale : Int) : a.toRat / b.toRat * 10 ^ scale =
    (a.unscaled : ℚ) / b.unscaled * 10 ^ (scale - a.scale + b.scale) := by
  have exponent : scale - a.scale + b.scale = scale + -a.scale - -b.scale := by ring
  rw [toRat_eq a, toRat_eq b, exponent, zpow_sub₀ (by norm_num), ten_zpow_add, mul_div_mul_comm]
  ring

/-- How far apart the unscaled integers of two operands are, where their quotient has a scale. -/
def shift (a b : Decimal) (scale : Int) : Int := scale - a.scale + b.scale

/-- Powers of ten that can be computed have an exponent of 32 bits. -/
def shiftLimit : Nat := 4294967295

theorem shiftUnit_of_nonneg {gap : Int} (nonneg : 0 ≤ gap) :
    shiftUnit gap = if gap.natAbs ≤ shiftLimit then .ok (tenPower gap.toNat)
      else .error (.shiftRange gap.natAbs) := by
  rw [shiftUnit, Int.natAbs_of_nonneg nonneg]
  exact if_congr (by rw [shiftLimit]; omega) rfl rfl

/-- **A quotient at a scale within the limit** is the exact quotient rounded once, unless the
unscaled integers are too far apart. -/
theorem divideToScale_of_supported (divisor : b.toRat ≠ 0)
    (supported : scaleSupported scale = true) :
    divideToScale a b scale mode =
      if (shift a b scale).natAbs ≤ shiftLimit then roundedTo (a.toRat / b.toRat) scale mode
      else .error (.shiftRange (shift a b scale).natAbs) := by
  rw [divideToScale, Bool.eq_false_iff.mpr (isZero_iff.not.mpr divisor), supported,
    roundedTo, quotient_eq]
  have nonzero : b.unscaled ≠ 0 := toRat_eq_zero_iff.not.mp divisor
  rw [shift]
  dsimp only
  generalize scale - a.scale + b.scale = gap
  by_cases nonneg : 0 ≤ gap
  · have fraction : (a.unscaled : ℚ) / b.unscaled * 10 ^ gap
        = (a.unscaled * tenPower gap.toNat : ℤ) / b.unscaled := by
      rw [Int.cast_mul, cast_tenPower nonneg, div_mul_eq_mul_div]
    rw [fraction, ← RoundingMode.roundQuotient_eq mode _ nonzero, if_pos nonneg,
      shiftUnit_of_nonneg nonneg]
    by_cases near : gap.natAbs ≤ shiftLimit
    · rw [if_pos near, if_pos near]
      rfl
    · rw [if_neg near, if_neg near]
      rfl
  · have fraction : (a.unscaled : ℚ) / b.unscaled * 10 ^ gap
        = a.unscaled / (b.unscaled * tenPower (-gap).toNat : ℤ) := by
      rw [Int.cast_mul, cast_tenPower (by omega), zpow_neg, ← div_div, div_inv_eq_mul]
    rw [fraction, ← RoundingMode.roundQuotient_eq mode _ (mul_ne_zero nonzero (tenPower_ne_zero _)),
      if_neg nonneg, shiftUnit_of_nonneg (by omega), Int.natAbs_neg]
    by_cases near : gap.natAbs ≤ shiftLimit
    · rw [if_pos near, if_pos near]
      rfl
    · rw [if_neg near, if_neg near]
      rfl

/-- A scale beyond the limit is refused. -/
theorem divideToScale_of_unsupported (divisor : b.toRat ≠ 0)
    (unsupported : ¬ scaleSupported scale = true) :
    divideToScale a b scale mode = .error (.scaleRange scale) := by
  rw [divideToScale, Bool.eq_false_iff.mpr (isZero_iff.not.mpr divisor),
    Bool.eq_false_iff.mpr unsupported]
  rfl

/-- **A quotient at a scale** is the exact quotient rounded once, or one of two faults.  The
dividend's scale may be as large as that of a product. -/
theorem divideToScale_eq (left : a.Wide) (right : b.InRange) :
    divideToScale a b scale mode =
      if b.toRat = 0 then .error .divisionByZero
      else if scaleSupported scale then roundedTo (a.toRat / b.toRat) scale mode
      else .error (.scaleRange scale) := by
  by_cases zero : b.toRat = 0
  · rw [if_pos zero, divideToScale, isZero_iff.mpr zero]
    rfl
  rw [if_neg zero]
  by_cases supported : scaleSupported scale = true
  swap
  · rw [if_neg supported, divideToScale_of_unsupported zero supported]
  rw [Wide] at left
  rw [inRange_iff] at right
  have bound : scale.natAbs ≤ scaleLimit := of_decide_eq_true supported
  have limit : scaleLimit = 100000 := rfl
  have near : (shift a b scale).natAbs ≤ shiftLimit := by
    rw [shift, shiftLimit]
    omega
  rw [if_pos supported, divideToScale_of_supported zero supported, if_pos near]

/-- **A quotient depends on the numbers alone.** -/
theorem divideToScale_congr {a' b' : Decimal} (left : a.InRange) (left' : a'.InRange)
    (right : b.InRange) (right' : b'.InRange) (sameLeft : a.toRat = a'.toRat)
    (sameRight : b.toRat = b'.toRat) :
    divideToScale a b scale mode = divideToScale a' b' scale mode := by
  rw [divideToScale_eq left.wide right, divideToScale_eq left'.wide right', sameLeft, sameRight]

/-- **A number rounded at a scale**, if the scale is supported. -/
def roundedAt (q : ℚ) (scale : Int) (mode : RoundingMode) : Except ArithmeticFault Decimal :=
  if scaleSupported scale then roundedTo q scale mode else .error (.scaleRange scale)

/-- What comes of a number that is rounded at a scale. -/
theorem roundedAt_cases (q : ℚ) (scale : Int) (mode : RoundingMode) :
    (∃ z : ℤ, scaleSupported scale = true ∧ mode.round? (q * 10 ^ scale) = some z ∧
      roundedAt q scale mode = .ok ⟨z, scale⟩) ∨
    (mode.round? (q * 10 ^ scale) = none ∧ roundedAt q scale mode = .error .roundingNecessary) ∨
    (¬ scaleSupported scale = true ∧ roundedAt q scale mode = .error (.scaleRange scale)) := by
  rw [roundedAt, roundedTo]
  split
  · rename_i supported
    cases rounded : mode.round? (q * 10 ^ scale) with
    | some z => exact .inl ⟨z, supported, rfl, rfl⟩
    | none => exact .inr (.inl ⟨rfl, rfl⟩)
  · rename_i unsupported
    exact .inr (.inr ⟨unsupported, rfl⟩)

/-- A quotient is rounded at the scale that is asked for. -/
theorem divideToScale_of_ne_zero (left : a.Wide) (right : b.InRange) (divisor : b.toRat ≠ 0) :
    divideToScale a b scale mode = roundedAt (a.toRat / b.toRat) scale mode := by
  rw [divideToScale_eq left right, if_neg divisor, roundedAt]

theorem scaleSupported_iff : scaleSupported scale = true ↔ scale.natAbs ≤ scaleLimit := by
  rw [scaleSupported, decide_eq_true_eq]

/-- **A quotient has the scale that is asked for**, which is within the limit.  Both branches, for a
positive and for a negative shift, end with that scale. -/
theorem scale_of_divideToScale {r : Decimal} (done : divideToScale a b scale mode = .ok r) :
    r.scale = scale ∧ r.InRange := by
  rw [divideToScale] at done
  dsimp only at done
  split at done
  · cases done
  split at done
  · cases done
  rename_i supported
  have limited : scaleSupported scale = true := by simpa using supported
  split at done
  · obtain ⟨unit, -, done⟩ := bind_eq_ok done
    obtain ⟨fraction, -, done⟩ := bind_eq_ok done
    split at done <;> cases done
    exact ⟨rfl, limited⟩
  · obtain ⟨unit, -, done⟩ := bind_eq_ok done
    obtain ⟨fraction, -, done⟩ := bind_eq_ok done
    split at done <;> cases done
    exact ⟨rfl, limited⟩

/-- **Division to a scale is the exact quotient, rounded once**, at that scale.  It fails for a
divisor of zero, for a scale beyond the limit, and where the mode refuses to round a quotient with
more places, and in no other case. -/
theorem divideToScale_rounds (left : a.InRange) (right : b.InRange) (scale : Int)
    (mode : RoundingMode) :
    (∀ r, divideToScale a b scale mode = .ok r ↔
      b.toRat ≠ 0 ∧ scale.natAbs ≤ scaleLimit ∧ r.scale = scale ∧
        mode.round? (a.toRat / b.toRat * 10 ^ scale) = some r.unscaled) ∧
    ((∃ cause, divideToScale a b scale mode = .error cause) ↔
      b.toRat = 0 ∨ scaleLimit < scale.natAbs ∨
        mode = .unnecessary ∧ ¬ ∃ n : ℤ, a.toRat / b.toRat * 10 ^ scale = n) := by
  rw [← not_le, ← scaleSupported_iff, ← RoundingMode.round?_eq_none_iff]
  by_cases zero : b.toRat = 0
  · rw [divideToScale_eq left.wide right, if_pos zero]
    exact ⟨fun r => iff_of_false nofun fun done => done.1 zero, iff_of_true ⟨_, rfl⟩ (.inl zero)⟩
  rw [divideToScale_of_ne_zero left.wide right zero]
  obtain ⟨z, supported, rounded, outcome⟩ | ⟨refused, outcome⟩ | ⟨unsupported, outcome⟩ :=
    roundedAt_cases (a.toRat / b.toRat) scale mode
  · rw [outcome, rounded]
    constructor
    · rintro ⟨unscaled, place⟩
      constructor
      · rintro ⟨⟩
        exact ⟨zero, supported, rfl, rfl⟩
      · rintro ⟨-, -, rfl, same⟩
        cases same
        rfl
    · refine iff_of_false nofun ?_
      rintro (none | beyond | refused)
      · exact zero none
      · exact beyond supported
      · cases refused
  · rw [outcome, refused]
    refine ⟨fun r => iff_of_false nofun ?_, iff_of_true ⟨_, rfl⟩ (.inr (.inr rfl))⟩
    rintro ⟨-, -, -, none⟩
    cases none
  · rw [outcome]
    exact ⟨fun r => iff_of_false nofun fun done => unsupported done.2.1,
      iff_of_true ⟨_, rfl⟩ (.inr (.inl unsupported))⟩

/-! ## 2. Cutting to digits

A cut is a division by a power of ten, at a scale that the magnitude says.  So it is a case of the
section above, unless the decimal has no more places than that, and then it is left alone.  Zero has
no magnitude and one digit, and is treated apart throughout. -/

/-- **The scale at which a number has some digits**, before it is rounded. -/
def cutScale (q : ℚ) (bound : Int) : Int := bound - 1 - Int.log 10 |q|

/-- **A cut** leaves a decimal as it is whose places are few enough, and rounds its number once
where they are not. -/
theorem cutToDigits_eq (wide : d.Wide) (nonzero : d.toRat ≠ 0) (bound : Int) :
    d.cutToDigits bound mode =
      if d.scale ≤ cutScale d.toRat bound then .ok d
      else if scaleSupported (cutScale d.toRat bound) then
        roundedTo d.toRat (cutScale d.toRat bound) mode
      else .error (.scaleRange (cutScale d.toRat bound)) := by
  have excess : d.digitCount - bound = d.scale - cutScale d.toRat bound := by
    rw [cutScale, ← magnitude_eq nonzero, magnitude]
    ring
  rw [cutToDigits, excess, sub_sub_cancel]
  by_cases few : d.scale ≤ cutScale d.toRat bound
  · rw [if_pos few, if_pos (sub_nonpos.mpr few)]
  · rw [if_neg few, if_neg (sub_nonpos.not.mpr few), rescale,
      divideToScale_eq wide (inRange_ofInt 1), toRat_ofInt, Int.cast_one, div_one,
      if_neg one_ne_zero]

/-- A decimal with few enough places is an integer at the scale of the cut. -/
theorem exists_integer_of_scale_le (few : d.scale ≤ scale) : ∃ n : ℤ, d.toRat * 10 ^ scale = n :=
  ⟨d.unscaledAt scale, (cast_unscaledAt few).symm⟩

theorem digitCount_of_zero (zero : d.toRat = 0) : d.digitCount = 1 := by
  rw [digitCount, toRat_eq_zero_iff.mp zero]
  rfl

/-- Zero has one digit, and is not cut. -/
theorem cutToDigits_zero (zero : d.toRat = 0) {bound : Int} (positive : 1 ≤ bound) :
    d.cutToDigits bound mode = .ok d := by
  rw [cutToDigits, digitCount_of_zero zero]
  exact if_pos (by omega)

/-- **A cut keeps the scale wide**: it leaves it, or has checked the new one. -/
theorem wide_of_cutToDigits {bound : Int} (positive : 1 ≤ bound) (wide : d.Wide) {e : Decimal}
    (cut : d.cutToDigits bound mode = .ok e) : e.Wide := by
  by_cases zero : d.toRat = 0
  · rw [cutToDigits_zero zero positive] at cut
    cases cut
    exact wide
  · rw [cutToDigits_eq wide zero] at cut
    split at cut
    · cases cut
      exact wide
    split at cut
    · rename_i supported
      rw [roundedTo] at cut
      split at cut <;> cases cut
      exact InRange.wide supported
    · cases cut

/-- A precision with any digits has one at least. -/
theorem one_le_digits {p : Precision} (digits : p.digits ≠ 0) : 1 ≤ p.digits.toNat := by
  rw [Nat.one_le_iff_ne_zero]
  exact fun none => digits (UInt64.toNat_inj.mp none)

theorem one_le_bound {p : Precision} (digits : p.digits ≠ 0) : 1 ≤ p.bound := by
  have some := one_le_digits digits
  rw [Precision.bound]
  omega

end Decimal

/-! ## 3. Factors

Exact division asks whether a divisor has other factors than 2 and 5, and how many of these.  The
factors are taken out by repeated squaring; what comes of it is a power and a rest that the factor
does not divide, which determines both. -/

namespace Digits

/-- **The power of a factor is split off**, and nothing of it is left.  By the recursion of the
function, which takes off squares of the factor first, and then one more where the square left one.
-/
theorem splitPower_spec {p n : Nat} (factor : 2 ≤ p) (positive : 0 < n) :
    p ^ (splitPower p n).1 * (splitPower p n).2 = n ∧ ¬ p ∣ (splitPower p n).2 := by
  induction p, n using splitPower.induct with
  | case1 p n divides squares even ih =>
    have whole := Nat.dvd_of_mod_eq_zero divides.2.2
    obtain ⟨product, remains⟩ := ih (factor.trans (Nat.le_mul_self p))
      (Nat.div_pos (Nat.le_of_dvd positive whole) (by omega))
    have split : splitPower p n = (2 * squares.1 + 2, squares.2 / p) := by
      rw [splitPower, dif_pos divides]
      exact if_pos even
    have rest : p * (squares.2 / p) = squares.2 := Nat.mul_div_cancel' (Nat.dvd_of_mod_eq_zero even)
    rw [split]
    constructor
    · calc p ^ (2 * squares.1 + 2) * (squares.2 / p)
          = p * ((p * p) ^ squares.1 * (p * (squares.2 / p))) := by ring
        _ = p * (n / p) := by rw [rest, product]
        _ = n := Nat.mul_div_cancel' whole
    · intro more
      exact remains (rest ▸ Nat.mul_dvd_mul_left p more)
  | case2 p n divides squares odd ih =>
    have whole := Nat.dvd_of_mod_eq_zero divides.2.2
    obtain ⟨product, -⟩ := ih (factor.trans (Nat.le_mul_self p))
      (Nat.div_pos (Nat.le_of_dvd positive whole) (by omega))
    have split : splitPower p n = (2 * squares.1 + 1, squares.2) := by
      rw [splitPower, dif_pos divides]
      exact if_neg odd
    rw [split]
    constructor
    · calc p ^ (2 * squares.1 + 1) * squares.2
          = p * ((p * p) ^ squares.1 * squares.2) := by ring
        _ = p * (n / p) := by rw [product]
        _ = n := Nat.mul_div_cancel' whole
    · exact fun more => odd (Nat.mod_eq_zero_of_dvd more)
  | case3 p n indivisible =>
    have split : splitPower p n = (0, n) := by rw [splitPower, dif_neg indivisible]
    rw [split]
    exact ⟨by simp, fun more => indivisible ⟨factor, positive, Nat.mod_eq_zero_of_dvd more⟩⟩

end Digits

namespace Decimal

variable {a b d : Decimal}

/-- **The twos and fives of a number** are split off, and what is left has neither. -/
theorem splitTwosAndFives_spec {n : Nat} (positive : 0 < n) :
    ∃ i j, (splitTwosAndFives n).1 = i + j ∧ 2 ^ i * 5 ^ j * (splitTwosAndFives n).2 = n ∧
      Nat.Coprime (splitTwosAndFives n).2 10 := by
  obtain ⟨twos, odd⟩ := Digits.splitPower_spec (le_refl 2) positive
  have left : 0 < (Digits.splitPower 2 n).2 :=
    Nat.pos_of_ne_zero fun zero => odd (zero ▸ dvd_zero 2)
  obtain ⟨fives, noFive⟩ := Digits.splitPower_spec (p := 5) (by decide) left
  refine ⟨_, _, rfl, ?_, ?_⟩
  · rw [mul_assoc]
    exact fives.symm ▸ twos
  · have noTwo : ¬ 2 ∣ (splitTwosAndFives n).2 := fun even =>
      odd (fives ▸ Dvd.dvd.mul_left even _)
    exact Nat.Coprime.mul_right ((Nat.prime_two.coprime_iff_not_dvd.mpr noTwo).symm)
      ((Nat.prime_five.coprime_iff_not_dvd.mpr noFive).symm)

/-- A ten for each two and each five is enough. -/
theorem factors_dvd (i j : Nat) : 2 ^ i * 5 ^ j ∣ 10 ^ (i + j) := by
  have tens : 10 ^ (i + j) = 2 ^ (i + j) * 5 ^ (i + j) := mul_pow 2 5 (i + j)
  rw [tens]
  exact mul_dvd_mul (pow_dvd_pow 2 (Nat.le_add_right i j)) (pow_dvd_pow 5 (Nat.le_add_left j i))

/-- Without other factors, there are as many tens as there are twos and fives together. -/
theorem dvd_of_rest_eq_one {n : Nat} (positive : 0 < n) (one : (splitTwosAndFives n).2 = 1) :
    n ∣ 10 ^ (splitTwosAndFives n).1 := by
  obtain ⟨i, j, extra, product, -⟩ := splitTwosAndFives_spec positive
  rw [one, mul_one] at product
  rw [extra, ← product]
  exact factors_dvd i j

/-- **Nothing but twos and fives** is to divide a power of ten. -/
theorem rest_eq_one_iff {n : Nat} (positive : 0 < n) :
    (splitTwosAndFives n).2 = 1 ↔ ∃ k, n ∣ 10 ^ k := by
  refine ⟨fun one => ⟨_, dvd_of_rest_eq_one positive one⟩, fun ⟨k, divides⟩ => ?_⟩
  obtain ⟨i, j, -, product, coprime⟩ := splitTwosAndFives_spec positive
  have rest : (splitTwosAndFives n).2 ∣ 10 ^ k := (Dvd.intro_left _ product).trans divides
  exact (coprime.pow_right k).eq_one_of_dvd rest

/-! ## 4. Exact division

Without a limit on digits a quotient is computed at a scale that is certainly large enough, and its
zeros are taken off afterwards.  The scale has a place for each factor of the divisor and for each
place of an operand, so it may be refused although the quotient itself would have few. -/

/-- **The normal form has the same number.**  The tens that are split off the unscaled integer are
as many as the places that are taken off the scale. -/
theorem toRat_normalize (d : Decimal) : d.normalize.toRat = d.toRat := by
  rw [normalize]
  split
  · rename_i zero
    rw [isZero_iff.mp zero, toRat_eq_zero_iff]
  · rename_i nonzero
    have positive : 0 < d.unscaled.natAbs := by
      rw [Int.natAbs_pos]
      exact toRat_eq_zero_iff.not.mp (isZero_iff.not.mp nonzero)
    obtain ⟨product, -⟩ := Digits.splitPower_spec (p := 10) (by decide) positive
    set split := Digits.splitPower 10 d.unscaled.natAbs
    have unscaled : d.unscaled = d.unscaled.sign * split.2 * 10 ^ split.1 := by
      calc d.unscaled = d.unscaled.sign * d.unscaled.natAbs := (Int.sign_mul_natAbs _).symm
        _ = d.unscaled.sign * (10 ^ split.1 * split.2 : ℕ) := by rw [product]
        _ = d.unscaled.sign * split.2 * 10 ^ split.1 := by push_cast; ring
    have shifted : (10 : ℚ) ^ (-(d.scale - split.1)) = 10 ^ split.1 * 10 ^ (-d.scale) := by
      rw [neg_sub, sub_eq_add_neg, ten_zpow_add, zpow_natCast]
    rw [toRat_eq, toRat_eq d, shifted, ← mul_assoc]
    congr 1
    exact_mod_cast unscaled.symm

/-- **The scale that exact division asks for.** -/
def exactScale (a b : Decimal) : Int :=
  a.scale.natAbs + b.scale.natAbs + (splitTwosAndFives b.unscaled.natAbs).1

theorem divideExactly_of_zero (a : Decimal) (zero : b.toRat = 0) :
    divideExactly a b = .error .divisionByZero := by
  rw [divideExactly, isZero_iff.mpr zero]
  rfl

/-- **A divisor with other factors** is refused. -/
theorem divideExactly_of_rest (a : Decimal) (nonzero : b.toRat ≠ 0)
    (rest : (splitTwosAndFives b.unscaled.natAbs).2 ≠ 1) :
    divideExactly a b = .error .nonTerminating := by
  rw [divideExactly, Bool.eq_false_iff.mpr (isZero_iff.not.mpr nonzero)]
  exact if_pos rest

/-- **A divisor without other factors** gives the exact quotient in normal form, unless the scale is
too large.  At the scale that is used the quotient is an integer, since that scale has a place for
each two and each five of the divisor; so nothing is left to round. -/
theorem divideExactly_of_factors (left : a.InRange) (right : b.InRange) (nonzero : b.toRat ≠ 0)
    (one : (splitTwosAndFives b.unscaled.natAbs).2 = 1) :
    ∃ q : Decimal, q.toRat = a.toRat / b.toRat ∧ divideExactly a b =
      if scaleSupported (exactScale a b) then .ok q.normalize
      else .error (.scaleRange (exactScale a b)) := by
  have positive : 0 < b.unscaled.natAbs := Int.natAbs_pos.mpr (toRat_eq_zero_iff.not.mp nonzero)
  have integer : ∃ n : ℤ, a.toRat / b.toRat * 10 ^ exactScale a b = n := by
    -- The shift has a place for each two and five of the divisor.
    have enough : (splitTwosAndFives b.unscaled.natAbs).1 ≤ exactScale a b - a.scale + b.scale := by
      rw [exactScale]
      omega
    have divides : b.unscaled ∣ 10 ^ (exactScale a b - a.scale + b.scale).toNat := by
      rw [← Int.natAbs_dvd_natAbs, Int.natAbs_pow]
      exact (dvd_of_rest_eq_one positive one).trans (pow_dvd_pow 10 (by omega))
    obtain ⟨c, product⟩ := divides
    have unit : (10 : ℚ) ^ (exactScale a b - a.scale + b.scale) = b.unscaled * c := by
      rw [← cast_tenPower (by omega), tenPower_eq_pow, product, Int.cast_mul]
    refine ⟨a.unscaled * c, ?_⟩
    rw [quotient_eq, unit, ← mul_assoc, div_mul_cancel₀, Int.cast_mul]
    exact_mod_cast toRat_eq_zero_iff.not.mp nonzero
  obtain ⟨n, integer⟩ := integer
  obtain ⟨rounded, same⟩ := roundedTo_of_integer .unnecessary integer
  refine ⟨⟨n, exactScale a b⟩, same, ?_⟩
  have unfolded : divideExactly a b
      = (divideToScale a b (exactScale a b) .unnecessary).map normalize := by
    rw [divideExactly, Bool.eq_false_iff.mpr (isZero_iff.not.mpr nonzero)]
    dsimp only
    rw [if_neg (not_not.mpr one)]
    rfl
  rw [unfolded, divideToScale_eq left.wide right, if_neg nonzero, rounded]
  split <;> rfl

end Decimal

end DecimalExpression
