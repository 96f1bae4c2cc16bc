import DecimalExpression.Proofs.Decimal.Division

/-!
# Significant digits

What it means to round a number to some significant digits is said of rational numbers
(`RoundingMode.toDigits?`): the number is rounded once, at the place where its last digit stands.
The cut of a decimal does that (`Decimal.rounds_roundToPrecision`).  It may ask for two scales,
since a carry can add a digit, but the second cut drops a zero and loses nothing
(`Decimal.cutToDigits_of_hasDigits`).

So sums, differences and products under a precision are the exact ones, rounded once
(`Decimal.roundToPrecision_rounds`).
-/

namespace DecimalExpression

open Decimal

variable {n : ℕ} {q : ℚ} {mode : RoundingMode}

/-! ## 1. Numbers of some digits

A number has some digits if it is an integer of that many digits times a power of ten.  The decimal
that stands for it may have more, all of them zeros, so "has at most `n` digits" is said of the
number and compared with `digitCount` afterwards.  The scale at which a number has `n` digits in
front of the point is its `cutScale`, and there the condition is that it is an integer
(`hasDigits_iff`). -/

/-- **A number of at most `n` significant digits.** -/
def HasDigits (n : ℕ) (q : ℚ) : Prop :=
  ∃ m e : ℤ, m.natAbs < 10 ^ n ∧ q = m * 10 ^ e

/-- **A number rounded once to `n` significant digits**; nothing where the mode refuses to round. -/
def RoundingMode.toDigits? (mode : RoundingMode) (n : ℕ) (q : ℚ) : Option ℚ :=
  (mode.round? (q * 10 ^ cutScale q n)).map fun z : ℤ => (z : ℚ) * 10 ^ (-cutScale q n)

/-- With `n` digits in front of the point, a number is below `10 ^ n`, and no less than a tenth of
it.  The scale is chosen by the logarithm, and these are the two bounds that a logarithm has. -/
theorem abs_atCutScale (nonzero : q ≠ 0) (n k : ℕ) :
    (10 : ℚ) ^ ((n + k : ℕ) - 1 : ℤ) ≤ |q * 10 ^ (cutScale q n + k)| ∧
      |q * 10 ^ (cutScale q n + k)| < 10 ^ (n + k) := by
  have lower := Int.zpow_log_le_self (b := 10) (by decide) (abs_pos.mpr nonzero)
  have upper := Int.lt_zpow_succ_log_self (b := 10) (by decide) |q|
  push_cast at lower upper
  have scale := ten_zpow_pos (cutScale q n + k)
  rw [abs_mul, abs_of_pos scale]
  constructor
  · calc (10 : ℚ) ^ ((n + k : ℕ) - 1 : ℤ) = 10 ^ Int.log 10 |q| * 10 ^ (cutScale q n + k) := by
          rw [← ten_zpow_add, cutScale]
          congr 1
          push_cast
          ring
      _ ≤ |q| * 10 ^ (cutScale q n + k) := mul_le_mul_of_nonneg_right lower scale.le
  · calc |q| * 10 ^ (cutScale q n + k) < 10 ^ (Int.log 10 |q| + 1) * 10 ^ (cutScale q n + k) :=
          mul_lt_mul_of_pos_right upper scale
      _ = 10 ^ (n + k) := by
          rw [← ten_zpow_add, cutScale, ← zpow_natCast]
          congr 1
          push_cast
          ring

/-- Rounded with `n + k` digits in front of the point, a number has as many, or is the least power
of ten with one more. -/
theorem natAbs_of_rounded (nonzero : q ≠ 0) (positive : 1 ≤ n) {k : ℕ} {z : ℤ}
    (rounded : mode.round? (q * 10 ^ (cutScale q n + k)) = some z) :
    10 ^ (n + k - 1) ≤ z.natAbs ∧ z.natAbs ≤ 10 ^ (n + k) := by
  obtain ⟨lower, upper⟩ := abs_atCutScale nonzero n k
  have exponent : ((n + k : ℕ) - 1 : ℤ) = (n + k - 1 : ℕ) := by omega
  rw [exponent, zpow_natCast] at lower
  exact ⟨RoundingMode.le_natAbs_of_le_abs rounded (by exact_mod_cast lower),
    RoundingMode.natAbs_le_of_abs_lt rounded (by exact_mod_cast upper)⟩

/-- A number that is an integer there has no more than `n` digits. -/
theorem natAbs_lt_of_eq (nonzero : q ≠ 0) {z : ℤ} (integer : q * 10 ^ cutScale q n = z) :
    z.natAbs < 10 ^ n := by
  have below := (abs_atCutScale nonzero n 0).2
  rw [Nat.cast_zero, add_zero, add_zero, integer, ← Int.cast_abs, ← Nat.cast_natAbs] at below
  exact_mod_cast below

/-- **A number has `n` digits** where it is an integer with `n` digits in front of the point.  A
number of that form may have digits to spare, and then the power of ten makes up for them. -/
theorem hasDigits_iff : HasDigits n q ↔ ∃ z : ℤ, q * 10 ^ cutScale q n = z := by
  by_cases zero : q = 0
  · refine iff_of_true ⟨0, 0, by positivity, by simp [zero]⟩ ⟨0, by simp [zero]⟩
  constructor
  · rintro ⟨m, e, small, rfl⟩
    -- The power of ten that is left over is no fraction.
    have below : |(m : ℚ) * 10 ^ e| < 10 ^ (n + e) := by
      rw [abs_mul, abs_of_pos (ten_zpow_pos e), ten_zpow_add, zpow_natCast, ← Int.cast_abs,
        ← Nat.cast_natAbs]
      exact mul_lt_mul_of_pos_right (by exact_mod_cast small) (ten_zpow_pos e)
    have log := (Int.lt_zpow_iff_log_lt (b := 10) (by decide) (abs_pos.mpr zero)).mp
      (by exact_mod_cast below)
    have whole : 0 ≤ e + cutScale ((m : ℚ) * 10 ^ e) n := by
      rw [cutScale]
      omega
    refine ⟨m * tenPower (e + cutScale ((m : ℚ) * 10 ^ e) n).toNat, ?_⟩
    rw [Int.cast_mul, cast_tenPower whole, ten_zpow_add, mul_assoc]
  · rintro ⟨z, integer⟩
    refine ⟨z, -cutScale q n, natAbs_lt_of_eq zero integer, ?_⟩
    rw [← integer, mul_assoc, ← ten_zpow_add, add_neg_cancel, zpow_zero, mul_one]

/-- A power of ten more has `n` digits, too: all but the first are zeros. -/
theorem hasDigits_of_natAbs_le (positive : 1 ≤ n) {m : ℤ} (small : m.natAbs ≤ 10 ^ n) (e : ℤ) :
    HasDigits n (m * 10 ^ e) := by
  obtain less | power := small.lt_or_eq
  · exact ⟨m, e, less, rfl⟩
  · refine ⟨m.sign, n + e, ?_, ?_⟩
    · have one : 1 < 10 ^ n := Nat.one_lt_pow (by omega) (by decide)
      have nonzero : m ≠ 0 := by
        rintro rfl
        exact absurd power (by positivity)
      rwa [Int.natAbs_sign_of_ne_zero nonzero]
    · have value : (m : ℚ) = m.sign * 10 ^ n := by
        have split := Int.sign_mul_natAbs m
        rw [power] at split
        exact_mod_cast split.symm
      rw [value, ten_zpow_add, zpow_natCast, mul_assoc]

/-- **A number of `n` digits stays.** -/
theorem toDigits?_of_hasDigits (mode : RoundingMode) (digits : HasDigits n q) :
    mode.toDigits? n q = some q := by
  obtain ⟨z, integer⟩ := hasDigits_iff.mp digits
  rw [RoundingMode.toDigits?, integer, RoundingMode.round?_intCast, Option.map_some, ← integer,
    mul_assoc, ← ten_zpow_add, add_neg_cancel, zpow_zero, mul_one]

/-- **Only the mode that refuses to round does so**, and only to numbers of more digits. -/
theorem toDigits?_eq_none_iff :
    mode.toDigits? n q = none ↔ mode = .unnecessary ∧ ¬ HasDigits n q := by
  rw [RoundingMode.toDigits?, Option.map_eq_none_iff, RoundingMode.round?_eq_none_iff,
    hasDigits_iff]

/-- **The digits of a decimal** are those of its unscaled integer. -/
theorem digitCount_le_iff (positive : 1 ≤ n) {d : Decimal} :
    d.digitCount ≤ n ↔ d.unscaled.natAbs < 10 ^ n := by
  rw [digitCount, Digits.count_eq, Nat.succ_le_iff]
  exact ⟨Nat.lt_pow_of_log_lt (by decide), fun small => Nat.log_lt_of_lt_pow' (by omega) small⟩

theorem hasDigits_of_digitCount_le (positive : 1 ≤ n) {d : Decimal} (few : d.digitCount ≤ n) :
    HasDigits n d.toRat :=
  ⟨d.unscaled, -d.scale, (digitCount_le_iff positive).mp few, toRat_eq d⟩

/-! ## 2. Outcomes of one rounding

The outcome of rounding is not a function of the number, since an intermediate scale may be refused
on the way.  So what rounding comes to is a relation with three cases (`Rounds`), and the scales
that were asked for are its parameter: a refusal has to be one of them. -/

/-- **An outcome is a number rounded once** to `n` significant digits: a decimal of no more digits
that stands for it, or a refusal where the mode refuses, or one of the scales that were asked for is
out of range. -/
inductive Rounds (mode : RoundingMode) (n : ℕ) (q : ℚ) (asked : Int → Prop) :
    Except ArithmeticFault Decimal → Prop
  | rounded {d : Decimal} (value : mode.toDigits? n q = some d.toRat) (few : d.digitCount ≤ n) :
    Rounds mode n q asked (.ok d)
  | refused (exact : mode = .unnecessary) (more : ¬ HasDigits n q) :
    Rounds mode n q asked (.error .roundingNecessary)
  | outOfRange {scale : Int} (wanted : asked scale) (unsupported : ¬ scaleSupported scale = true) :
    Rounds mode n q asked (.error (.scaleRange scale))

variable {asked : Int → Prop} {d : Decimal} {outcome : Except ArithmeticFault Decimal}

/-- A decimal of few digits is rounded already. -/
theorem rounds_of_digitCount_le (mode : RoundingMode) (positive : 1 ≤ n) (few : d.digitCount ≤ n) :
    Rounds mode n d.toRat asked (.ok d) :=
  .rounded (toDigits?_of_hasDigits mode (hasDigits_of_digitCount_le positive few)) few

theorem Rounds.mono {asked' : Int → Prop} (rounds : Rounds mode n q asked outcome)
    (more : ∀ scale, asked scale → asked' scale) : Rounds mode n q asked' outcome := by
  cases rounds with
  | rounded value few => exact .rounded value few
  | refused exact more => exact .refused exact more
  | outOfRange wanted unsupported => exact .outOfRange (more _ wanted) unsupported

/-- **Rounding what is rounded** is no second rounding. -/
theorem Rounds.of_rounded {x : ℚ} (value : mode.toDigits? n q = some x) (digits : HasDigits n x)
    (rounds : Rounds mode n x asked outcome) : Rounds mode n q asked outcome := by
  cases rounds with
  | rounded same few =>
    rw [toDigits?_of_hasDigits mode digits] at same
    exact .rounded (value.trans same) few
  | refused _ more => exact absurd digits more
  | outOfRange wanted unsupported => exact .outOfRange wanted unsupported

namespace Decimal

/-! ## 3. Cuts

A precision is applied by cutting twice.  The first cut rounds the number at the place of its last
digit, and a carry can make it one digit longer.  Then it is a power of ten, so the second cut takes
off a zero and does not round again (`cutToDigits_of_hasDigits`); this is why the two cuts together
are one rounding. -/

/-- The scale that one cut asks for, if there are digits to cut. -/
def AsksScale (d : Decimal) (n : ℕ) (scale : Int) : Prop :=
  n < d.digitCount ∧ scale = d.scale - (d.digitCount - n)

/-- Few digits are not cut. -/
theorem cutToDigits_of_digitCount_le {bound : Int} (few : d.digitCount ≤ bound) :
    d.cutToDigits bound mode = .ok d := by
  rw [cutToDigits]
  exact if_pos (by omega)

/-- Zero does not have too many digits. -/
theorem toRat_ne_zero_of_lt_digitCount (positive : 1 ≤ n) (more : n < d.digitCount) :
    d.toRat ≠ 0 := by
  intro zero
  rw [digitCount_of_zero zero] at more
  omega

/-- The scale that one cut asks for is that of the last digit of the number. -/
theorem cutScale_eq (nonzero : d.toRat ≠ 0) (n : ℕ) :
    cutScale d.toRat n = d.scale - (d.digitCount - n) := by
  rw [cutScale, ← magnitude_eq nonzero, magnitude]
  ring

/-- More digits are cut at the scale of the last of them, where the number is rounded. -/
theorem cutToDigits_of_lt_digitCount (mode : RoundingMode) (positive : 1 ≤ n) (wide : d.Wide)
    (more : n < d.digitCount) :
    d.AsksScale n (cutScale d.toRat n) ∧
      d.cutToDigits n mode = roundedAt d.toRat (cutScale d.toRat n) mode := by
  have nonzero := toRat_ne_zero_of_lt_digitCount positive more
  have scale := cutScale_eq nonzero n
  refine ⟨⟨more, scale⟩, ?_⟩
  rw [cutToDigits_eq wide nonzero, if_neg (by omega), roundedAt]

/-- **A cut of zeros** loses nothing. -/
theorem cutToDigits_of_hasDigits (mode : RoundingMode) (positive : 1 ≤ n) (wide : d.Wide)
    (digits : HasDigits n d.toRat) :
    Rounds mode n d.toRat (d.AsksScale n) (d.cutToDigits n mode) := by
  obtain few | more := le_or_gt d.digitCount n
  · rw [cutToDigits_of_digitCount_le (by exact_mod_cast few)]
    exact rounds_of_digitCount_le mode positive few
  obtain ⟨asks, cut⟩ := cutToDigits_of_lt_digitCount mode positive wide more
  have nonzero := toRat_ne_zero_of_lt_digitCount positive more
  rw [cut, roundedAt]
  split
  · obtain ⟨z, integer⟩ := hasDigits_iff.mp digits
    obtain ⟨rounded, same⟩ := roundedTo_of_integer mode integer
    rw [rounded]
    refine .rounded (by rw [same, toDigits?_of_hasDigits mode digits]) ?_
    rw [digitCount_le_iff positive]
    exact natAbs_lt_of_eq nonzero integer
  · rename_i unsupported
    exact .outOfRange asks unsupported

end Decimal

/-- **What is rounded is not cut again.** -/
theorem Rounds.cut (rounds : Rounds mode n q asked outcome) :
    outcome.bind (·.cutToDigits n mode) = outcome := by
  cases rounds with
  | rounded value few => exact cutToDigits_of_digitCount_le (by exact_mod_cast few)
  | refused | outOfRange => rfl

namespace Decimal

/-- **A number rounded at the place of its last digit** is rounded to its digits; behind a carry, a
zero is left to be cut. -/
theorem rounds_roundedAt (mode : RoundingMode) (positive : 1 ≤ n) (nonzero : q ≠ 0) :
    Rounds mode n q (fun scale => scale = cutScale q n ∨ scale = cutScale q n - 1)
      ((roundedAt q (cutScale q n) mode).bind (·.cutToDigits n mode)) := by
  obtain ⟨z, supported, rounded, outcome⟩ | ⟨refused, outcome⟩ | ⟨unsupported, outcome⟩ :=
    roundedAt_cases q (cutScale q n) mode
  · have value : mode.toDigits? n q = some (toRat ⟨z, cutScale q n⟩) := by
      rw [RoundingMode.toDigits?, rounded, toRat_eq]
      rfl
    have small : z.natAbs ≤ 10 ^ n := (natAbs_of_rounded nonzero positive (k := 0)
      (by rwa [Nat.cast_zero, add_zero])).2
    have digits : HasDigits n (toRat ⟨z, cutScale q n⟩) := by
      rw [toRat_eq]
      exact hasDigits_of_natAbs_le positive small _
    have inRange : (⟨z, cutScale q n⟩ : Decimal).InRange := supported
    have cut := cutToDigits_of_hasDigits mode positive inRange.wide digits
    rw [outcome]
    refine (cut.of_rounded value digits).mono ?_
    rintro scale ⟨more, rfl⟩
    have one : (⟨z, cutScale q n⟩ : Decimal).digitCount ≤ n + 1 := by
      rw [digitCount_le_iff (by omega)]
      exact small.trans_lt (Nat.pow_lt_pow_succ (by decide))
    refine .inr ?_
    dsimp only
    omega
  · have none : mode.toDigits? n q = none := by
      rw [RoundingMode.toDigits?, refused]
      rfl
    obtain ⟨exact, more⟩ := toDigits?_eq_none_iff.mp none
    rw [outcome]
    exact .refused exact more
  · rw [outcome]
    exact .outOfRange (.inl rfl) unsupported

theorem roundToPrecision_eq {p : Precision} (digits : p.digits ≠ 0) (d : Decimal) :
    d.roundToPrecision p
      = (d.cutToDigits p.bound p.mode).bind (·.cutToDigits p.bound p.mode) := by
  rw [roundToPrecision, if_neg digits]
  rfl

/-- **The scales that rounding to `n` digits asks for**: one for the digits that are cut, and behind
a carry one less. -/
def AsksRoundingScale (d : Decimal) (n : ℕ) (scale : Int) : Prop :=
  ∃ carry : ℕ, carry ≤ 1 ∧ d.AsksScale n (scale + carry)

/-- **Rounding to a precision** is one rounding of the number. -/
theorem rounds_roundToPrecision {p : Precision} (digits : p.digits ≠ 0) (positive : 1 ≤ n)
    (bound : p.bound = n) (wide : d.Wide) :
    Rounds p.mode n d.toRat (d.AsksRoundingScale n) (d.roundToPrecision p) := by
  rw [roundToPrecision_eq digits, bound]
  obtain few | more := le_or_gt d.digitCount n
  · have rounds : Rounds p.mode n d.toRat (d.AsksRoundingScale n) (.ok d) :=
      rounds_of_digitCount_le p.mode positive few
    rw [cutToDigits_of_digitCount_le (by exact_mod_cast few)]
    exact rounds.cut.symm ▸ rounds
  obtain ⟨asks, cut⟩ := cutToDigits_of_lt_digitCount p.mode positive wide more
  rw [cut]
  refine (rounds_roundedAt p.mode positive
    (toRat_ne_zero_of_lt_digitCount positive more)).mono ?_
  rintro scale (rfl | rfl)
  · exact ⟨0, by omega, by rwa [Nat.cast_zero, add_zero]⟩
  · exact ⟨1, le_rfl, by rwa [Nat.cast_one, sub_add_cancel]⟩

/-- A decimal of few digits stays as it is. -/
theorem roundToPrecision_of_digitCount_le {p : Precision} (few : d.digitCount ≤ p.bound) :
    d.roundToPrecision p = .ok d := by
  by_cases digits : p.digits = 0
  · rw [roundToPrecision, if_pos digits]
  · rw [roundToPrecision_eq digits, cutToDigits_of_digitCount_le few]
    exact cutToDigits_of_digitCount_le few

/-- **The digits that are cut are zeros** where the number has no more than `n` digits.  The cut
scale is the scale of the decimal less the digits that are too many, so what is an integer there is
a quotient by that power. -/
theorem hasDigits_iff_dvd (positive : 1 ≤ n) (d : Decimal) :
    HasDigits n d.toRat ↔ (10 : ℤ) ^ (d.digitCount - n) ∣ d.unscaled := by
  obtain few | more := le_or_gt d.digitCount n
  · rw [Nat.sub_eq_zero_of_le few, pow_zero]
    exact iff_of_true (hasDigits_of_digitCount_le positive few) (one_dvd _)
  have nonzero := toRat_ne_zero_of_lt_digitCount positive more
  have shift : d.toRat * 10 ^ cutScale d.toRat n = d.unscaled / 10 ^ (d.digitCount - n) := by
    have exponent : -d.scale + cutScale d.toRat n = -(d.digitCount - n : ℕ) := by
      rw [cutScale_eq nonzero]
      omega
    rw [toRat_eq, mul_assoc, ← ten_zpow_add, ← toRat_eq, exponent, zpow_neg, zpow_natCast,
      div_eq_mul_inv]
  have unit : (10 : ℚ) ^ (d.digitCount - n) ≠ 0 := by positivity
  rw [hasDigits_iff, shift]
  constructor
  · rintro ⟨z, integer⟩
    refine ⟨z, ?_⟩
    rw [div_eq_iff unit, mul_comm] at integer
    exact_mod_cast integer
  · rintro ⟨z, product⟩
    refine ⟨z, ?_⟩
    rw [div_eq_iff unit, mul_comm, product]
    push_cast
    rfl

end Decimal

/-! ## 4. Counting digits

Numbers of digits are counted in 64 bits, and a precision may ask for more digits than can be
counted there.  Then it asks for all there are, as long as a decimal has no more; `Counts` says so,
and under it nothing else has to be said about the bound. -/

/-- **Digits that can be counted** in signed 64-bit integers: as many as are asked for, or else all
that there are, with room to compute with their number. -/
def Precision.Counts (p : Precision) (d : Decimal) : Prop :=
  p.digits.toNat < 2 ^ 63 ∨ d.digitCount < 2 ^ 62

/-- As many digits are kept as are asked for, or there are no more to be had. -/
theorem Precision.Counts.bound_eq_or_le {p : Precision} (counts : p.Counts d) :
    p.bound = p.digits.toNat ∨ d.digitCount ≤ p.bound ∧ p.bound ≤ p.digits.toNat := by
  rw [Precision.Counts] at counts
  rw [Precision.bound]
  omega

namespace Decimal

/-- **Rounding to a precision**, whichever number of digits is asked for. -/
theorem rounds_of_counts {p : Precision} (digits : p.digits ≠ 0) (wide : d.Wide)
    (counts : p.Counts d) :
    Rounds p.mode p.digits.toNat d.toRat (d.AsksRoundingScale p.digits.toNat)
      (d.roundToPrecision p) := by
  have positive := one_le_digits digits
  obtain bound | ⟨few, below⟩ := counts.bound_eq_or_le
  · exact rounds_roundToPrecision digits positive bound wide
  · rw [roundToPrecision_of_digitCount_le few]
    exact rounds_of_digitCount_le p.mode positive (by omega)

/-- **A rounded decimal stays as it is** when it is rounded again. -/
theorem roundToPrecision_idempotent {p : Precision} (digits : p.digits ≠ 0) (wide : d.Wide)
    (counts : p.Counts d) {r : Decimal} (rounded : d.roundToPrecision p = .ok r) :
    r.roundToPrecision p = .ok r := by
  obtain bound | ⟨few, -⟩ := counts.bound_eq_or_le
  · have rounds := rounds_of_counts digits wide counts
    rw [rounded] at rounds
    cases rounds with
    | rounded value few => exact roundToPrecision_of_digitCount_le (by omega)
  · rw [roundToPrecision_of_digitCount_le few] at rounded
    cases rounded
    exact roundToPrecision_of_digitCount_le few

end Decimal

/-! ## 5. Operators

Sums, differences and products are computed exactly and then rounded.  So what the section on cuts
says of a decimal it says of the number of an operation.  Quotients are not of this kind: they are
rounded as they are computed. -/

namespace Operator

/-- The operation on numbers. -/
def onNumbers : Operator → ℚ → ℚ → ℚ
  | add => (· + ·)
  | subtract => (· - ·)
  | multiply => (· * ·)
  | divide => (· / ·)

/-- **The exact result**, of the operations that have one with finitely many digits. -/
def exactResult? : Operator → Decimal → Decimal → Option Decimal
  | add, a, b => some (a.add b)
  | subtract, a, b => some (a.sub b)
  | multiply, a, b => some (a.mul b)
  | divide, _, _ => none

variable {operator : Operator} {a b exact : Decimal}

/-- **An exact result stands for the result**, and its scale is that of a product at most. -/
theorem exactResult?_spec (left : a.InRange) (right : b.InRange)
    (result : operator.exactResult? a b = some exact) :
    exact.toRat = operator.onNumbers a.toRat b.toRat ∧ exact.Wide := by
  cases operator with
  | add => cases result; exact ⟨toRat_add a b, (inRange_add left right).wide⟩
  | subtract => cases result; exact ⟨toRat_sub a b, (inRange_sub left right).wide⟩
  | multiply => cases result; exact ⟨toRat_mul a b, wide_mul left right⟩
  | divide => cases result

/-- Under a precision, an exact result is rounded to it. -/
theorem applyDecimal_of_exactResult? {policy : Policy} {p : Precision}
    (precise : policy.precision = some p) (result : operator.exactResult? a b = some exact) :
    operator.applyDecimal policy a b = exact.roundToPrecision p := by
  cases operator with
  | add | subtract | multiply => cases result; rw [applyDecimal, roundResult, precise]
  | divide => cases result

end Operator

namespace Decimal

/-- **Rounding to a precision is single, correct and idempotent**: the outcome is the number rounded
once to the digits of the precision.  A decimal of no more digits stays as it is, and so does a
rounded one that is rounded again; the mode that refuses to round does so where one of the digits
that are cut is no zero.  Hence sums, differences and products under a precision are the exact ones,
rounded once, and the scale of the result is checked. -/
theorem roundToPrecision_rounds {p : Precision} (digits : p.digits ≠ 0) :
    (∀ d : Decimal, d.Wide → p.Counts d →
      Rounds p.mode p.digits.toNat d.toRat (d.AsksRoundingScale p.digits.toNat)
          (d.roundToPrecision p) ∧
        (d.digitCount ≤ p.digits.toNat → d.roundToPrecision p = .ok d) ∧
        (HasDigits p.digits.toNat d.toRat
          ↔ (10 : ℤ) ^ (d.digitCount - p.digits.toNat) ∣ d.unscaled) ∧
        ∀ r, d.roundToPrecision p = .ok r → r.roundToPrecision p = .ok r) ∧
    ∀ (operator : Operator) (policy : Policy) (left right : Value) (a b exact : Decimal),
      policy.precision = some p → left.toDecimal = .ok a → right.toDecimal = .ok b →
      operator.exactResult? a b = some exact → p.Counts exact →
      ∃ outcome, Rounds p.mode p.digits.toNat (operator.onNumbers a.toRat b.toRat)
          (exact.AsksRoundingScale p.digits.toNat) outcome ∧
        operator.apply policy left right
          = (outcome.bind checkScale).mapError Fault.ofArithmetic := by
  have positive := one_le_digits digits
  constructor
  · intro d wide counts
    refine ⟨rounds_of_counts digits wide counts, fun few => ?_, hasDigits_iff_dvd positive d,
      fun r rounded => roundToPrecision_idempotent digits wide counts rounded⟩
    refine roundToPrecision_of_digitCount_le ?_
    obtain bound | ⟨few, -⟩ := counts.bound_eq_or_le
    · omega
    · exact few
  · intro operator policy left right a b exact precise atLeft atRight result counts
    obtain ⟨value, wide⟩ := Operator.exactResult?_spec (Value.inRange_of_toDecimal atLeft)
      (Value.inRange_of_toDecimal atRight) result
    refine ⟨exact.roundToPrecision p, value ▸ rounds_of_counts digits wide counts, ?_⟩
    rw [Operator.apply_of_toDecimal operator policy atLeft atRight,
      Operator.applyDecimal_of_exactResult? precise result]

/-- `9.96` to two digits carries to a power of ten, and the product of `1.1` and `1.1` is rounded to
them. -/
theorem roundToPrecision_rounds_carry :
    roundToPrecision ⟨996, 2⟩ ⟨2, .halfUp⟩ = .ok ⟨10, 0⟩ ∧
      RoundingMode.halfUp.toDigits? 2 (toRat ⟨996, 2⟩) = some (toRat ⟨10, 0⟩) ∧
      roundToPrecision ⟨10, 0⟩ ⟨2, .halfUp⟩ = .ok ⟨10, 0⟩ ∧
      ∃ outcome, Rounds .halfUp 2 (toRat ⟨11, 1⟩ * toRat ⟨11, 1⟩)
          (AsksRoundingScale ⟨121, 2⟩ 2) outcome ∧
        Operator.multiply.apply ⟨10, .down, some ⟨2, .halfUp⟩⟩ (.decimal ⟨11, 1⟩) (.text "1.1")
          = (outcome.bind checkScale).mapError Fault.ofArithmetic := by
  have outcome : roundToPrecision ⟨996, 2⟩ ⟨2, .halfUp⟩ = .ok ⟨10, 0⟩ := rfl
  have inRange : InRange ⟨996, 2⟩ := rfl
  obtain ⟨alone, operators⟩ := @roundToPrecision_rounds ⟨2, .halfUp⟩ (by decide)
  obtain ⟨rounds, -, -, again⟩ := alone ⟨996, 2⟩ inRange.wide (.inl (by decide))
  have product := operators .multiply ⟨10, .down, some ⟨2, .halfUp⟩⟩
    (.decimal ⟨11, 1⟩) (.text "1.1")
    ⟨11, 1⟩ ⟨11, 1⟩ ⟨121, 2⟩ rfl rfl (by cbv) rfl (.inl (by decide))
  rw [outcome] at rounds
  cases rounds with
  | rounded value few => exact ⟨outcome, value, again _ outcome, product⟩

end Decimal

end DecimalExpression
