import DecimalExpression.Evaluation.Arithmetic
import DecimalExpression.Proofs.Outcomes
import Mathlib

/-!
# The number of a decimal

A decimal stands for its unscaled integer times a power of ten (`toRat_eq`).  Sum, difference and
product are exact: they stand for the sum, the difference and the product of the numbers
(`toRat_add`, `toRat_sub`, `toRat_mul`), whatever scale they are given and whichever shortcut they
take.

The scales matter only for the limit.  Sums and differences of decimals within the limit are within
it, and so are products unless the scales of the factors add up to more (`inRange_add`,
`inRange_sub`, `inRange_mul`).
-/

namespace DecimalExpression
namespace Decimal

/-! ## 1. Powers of ten

Powers of ten are computed through the same units as digits are written in.  Here they become
powers, and rational ones with integer exponents, since a scale may have either sign. -/

theorem unit_eq_pow (n : Nat) : Digits.unit n = 10 ^ n := rfl

theorem tenPower_eq_pow (n : Nat) : tenPower n = 10 ^ n := by
  rw [tenPower, unit_eq_pow]
  push_cast
  rfl

theorem tenPower_ne_zero (n : Nat) : tenPower n ≠ 0 := by
  rw [tenPower_eq_pow]
  positivity

/-- An integer power of ten, where the exponent is not negative. -/
theorem cast_tenPower {n : Int} (h : 0 ≤ n) : (tenPower n.toNat : ℚ) = 10 ^ n := by
  rw [tenPower_eq_pow, Int.cast_pow, Int.cast_ofNat, ← zpow_natCast, Int.toNat_of_nonneg h]

theorem ten_zpow_pos (n : Int) : (0 : ℚ) < 10 ^ n := by positivity

theorem ten_zpow_ne_zero (n : Int) : (10 : ℚ) ^ n ≠ 0 := (ten_zpow_pos n).ne'

theorem ten_zpow_add (m n : Int) : (10 : ℚ) ^ (m + n) = 10 ^ m * 10 ^ n :=
  zpow_add₀ (by norm_num) m n

/-! ## 2. The number

Every question about numbers goes through `toRat_eq`, and nothing below opens `toRat` again.  A
decimal brought to a larger scale has zeros behind it and the same number (`cast_unscaledAt`), which
is what adding and comparing rely on. -/

variable {a b d : Decimal}

/-- **The number of a decimal.** -/
theorem toRat_eq (d : Decimal) : d.toRat = d.unscaled * 10 ^ (-d.scale) := by
  rw [toRat, Rat.mkRat_eq_div, unit_eq_pow, Int.cast_mul]
  rcases le_total 0 d.scale with places | zeros
  · have none : (-d.scale).toNat = 0 := by omega
    rw [none, zpow_neg, tenPower_eq_pow, pow_zero, Int.cast_one, mul_one, div_eq_mul_inv]
    congr 2
    rw [Nat.cast_pow, Nat.cast_ofNat, ← zpow_natCast, Int.toNat_of_nonneg places]
  · have none : d.scale.toNat = 0 := by omega
    rw [none, cast_tenPower (by omega)]
    simp

@[simp] theorem toRat_ofInt (n : Int) : (ofInt n).toRat = n := by
  rw [toRat_eq, ofInt, neg_zero, zpow_zero, mul_one]

theorem unscaled_eq (d : Decimal) : (d.unscaled : ℚ) = d.toRat * 10 ^ d.scale := by
  rw [toRat_eq, mul_assoc, ← ten_zpow_add, neg_add_cancel, zpow_zero, mul_one]

/-- A decimal at a scale that is no smaller has the same number. -/
theorem cast_unscaledAt {scale : Int} (h : d.scale ≤ scale) :
    (d.unscaledAt scale : ℚ) = d.toRat * 10 ^ scale := by
  rw [unscaledAt, Int.cast_mul, cast_tenPower (by omega), unscaled_eq, mul_assoc, ← ten_zpow_add]
  congr 2
  omega

theorem toRat_eq_zero_iff : d.toRat = 0 ↔ d.unscaled = 0 := by
  rw [toRat_eq, mul_eq_zero_iff_right (ten_zpow_ne_zero _), Int.cast_eq_zero]

theorem isZero_iff : d.isZero = true ↔ d.toRat = 0 := by
  rw [toRat_eq_zero_iff, isZero, beq_iff_eq]

theorem neg_eq_iff : a.neg = b ↔ a = b.neg := by
  obtain ⟨unscaled, scale⟩ := a
  obtain ⟨unscaled', scale'⟩ := b
  simp only [neg, mk.injEq]
  omega

theorem toRat_neg (d : Decimal) : d.neg.toRat = -d.toRat := by
  rw [toRat_eq, toRat_eq, neg, Int.cast_neg, neg_mul]

theorem toRat_pos_iff : 0 < d.toRat ↔ 0 < d.unscaled := by
  rw [toRat_eq, mul_pos_iff_of_pos_right (ten_zpow_pos _), Int.cast_pos]

theorem toRat_lt_zero_iff : d.toRat < 0 ↔ d.unscaled < 0 := by
  rw [← neg_pos, ← toRat_neg, toRat_pos_iff, neg, neg_pos]

/-! ## 3. Exact operations

Each operation has shortcuts that save work and change the scale: a zero on one side of a
difference, a written one in a product.  None of them changes the number, and that is all that the
three laws say. -/

/-- **A sum is exact.** -/
theorem toRat_add (a b : Decimal) : (a.add b).toRat = a.toRat + b.toRat := by
  rw [add, toRat_eq]
  dsimp only
  rw [Int.cast_add, cast_unscaledAt (le_max_left _ _),
    cast_unscaledAt (le_max_right _ _), ← add_mul,
    mul_assoc, ← ten_zpow_add, add_neg_cancel, zpow_zero, mul_one]

/-- **A difference is exact.** -/
theorem toRat_sub (a b : Decimal) : (a.sub b).toRat = a.toRat - b.toRat := by
  rw [sub]
  split
  · rename_i right
    rw [isZero_iff.mp right, sub_zero]
  split
  · rename_i left
    rw [isZero_iff.mp left, zero_sub, toRat_neg]
  · rw [toRat_eq]
    dsimp only
    rw [Int.cast_sub, cast_unscaledAt (le_max_left _ _), cast_unscaledAt (le_max_right _ _),
      ← sub_mul, mul_assoc, ← ten_zpow_add, add_neg_cancel, zpow_zero, mul_one]

/-- A written one is the number one. -/
theorem toRat_of_isWrittenOne (one : d.isWrittenOne = true) : d.toRat = 1 := by
  simp only [isWrittenOne, Bool.and_eq_true, decide_eq_true_eq, beq_iff_eq] at one
  obtain ⟨⟨places, -⟩, unscaled⟩ := one
  rw [toRat_eq, unscaled, cast_tenPower places, ← ten_zpow_add, add_neg_cancel, zpow_zero]

/-- **A product is exact.** -/
theorem toRat_mul (a b : Decimal) : (a.mul b).toRat = a.toRat * b.toRat := by
  rw [mul]
  split
  · rename_i left
    rw [toRat_of_isWrittenOne left, one_mul]
  split
  · rename_i right
    rw [toRat_of_isWrittenOne right, mul_one]
  · rw [toRat_eq, toRat_eq a, toRat_eq b]
    dsimp only
    rw [Int.cast_mul, neg_add, ten_zpow_add]
    ring

/-! ## 4. Scales

The check of a scale looks at nothing but the scale, so what passes it is a condition on decimals
(`InRange`).  Only a product can leave it, and then by no more than twice the limit (`Wide`), which
is as far as the later steps of a computation have to care. -/

/-- **Within the scale limit.** -/
def InRange (d : Decimal) : Prop := scaleSupported d.scale = true

theorem inRange_iff : d.InRange ↔ d.scale.natAbs ≤ scaleLimit := by
  rw [InRange, scaleSupported, decide_eq_true_eq]

theorem inRange_ofInt (n : Int) : (ofInt n).InRange := by
  rw [inRange_iff]
  exact Nat.zero_le _

theorem checkScale_of_inRange (h : d.InRange) : d.checkScale = .ok d := by
  rw [checkScale]
  exact if_pos h

/-- What passes the check is within the limit, and stays as it is. -/
theorem inRange_of_checkScale {e : Decimal} (passed : d.checkScale = .ok e) :
    e = d ∧ d.InRange := by
  rw [checkScale] at passed
  split at passed
  · rename_i inRange
    cases passed
    exact ⟨rfl, inRange⟩
  · cases passed

/-- **A numeral** stands for a decimal within the limit. -/
theorem inRange_of_ofNumeral {slice : String} (read : ofNumeral slice = .ok d) : d.InRange := by
  rw [ofNumeral] at read
  split at read
  · cases read
  · obtain ⟨rfl, inRange⟩ := inRange_of_checkScale read
    exact inRange

theorem inRange_add (left : a.InRange) (right : b.InRange) : (a.add b).InRange := by
  rw [inRange_iff] at left right ⊢
  rw [add]
  dsimp only
  omega

theorem inRange_sub (left : a.InRange) (right : b.InRange) : (a.sub b).InRange := by
  rw [inRange_iff] at left right ⊢
  rw [sub]
  split
  · exact left
  split
  · exact right
  · dsimp only
    omega

/-- A product is within the limit unless the scales of the factors add up to more. -/
theorem inRange_mul (left : a.InRange) (right : b.InRange)
    (sum : scaleSupported (a.scale + b.scale) = true) : (a.mul b).InRange := by
  rw [mul]
  split
  · exact right
  split
  · exact left
  · exact sum

/-- **Scales up to twice the limit**, as products have them. -/
def Wide (d : Decimal) : Prop := d.scale.natAbs ≤ 2 * scaleLimit

theorem InRange.wide (h : d.InRange) : d.Wide :=
  (inRange_iff.mp h).trans (Nat.le_mul_of_pos_left _ (by decide))

theorem wide_mul (left : a.InRange) (right : b.InRange) : (a.mul b).Wide := by
  rw [mul]
  split
  · exact right.wide
  split
  · exact left.wide
  · rw [inRange_iff] at left right
    rw [Wide]
    dsimp only
    omega

end Decimal

/-! ## 5. Operations on values

An operation on values coerces both operands, computes, and checks.  The two lemmas at the end open
it once from either side: from operands that are decimals, and from an outcome that is a value. -/

variable {left right : Value} {a b : Decimal}

theorem Decimal.toDecimal_of_inRange (h : a.InRange) : (Value.decimal a).toDecimal = .ok a := by
  rw [Value.toDecimal, checkScale_of_inRange h]
  rfl

/-- An operand that is a decimal, or the text of one, is no null. -/
theorem Value.isNull_of_toDecimal (operand : left.toDecimal = .ok a) : left.isNull = false := by
  cases left with
  | null => cases operand
  | bool | decimal | text => rfl

/-- An operand that is a decimal is within the limit. -/
theorem Value.inRange_of_toDecimal {v : Value} {d : Decimal} (operand : v.toDecimal = .ok d) :
    d.InRange := by
  have checked : ∀ {number : Decimal},
      number.checkScale.mapError Fault.ofArithmetic = .ok d → d.InRange := by
    intro number passed
    obtain ⟨rfl, inRange⟩ := Decimal.inRange_of_checkScale (mapError_eq_ok passed)
    exact inRange
  cases v with
  | null | bool => cases operand
  | decimal number => exact checked operand
  | text content =>
    rw [toDecimal] at operand
    split at operand
    · cases operand
    · exact checked operand

/-- **An operation on operands** is the operation on their decimals, and a check of the result. -/
theorem Operator.apply_of_toDecimal (operator : Operator) (policy : Policy)
    (atLeft : left.toDecimal = .ok a) (atRight : right.toDecimal = .ok b) :
    operator.apply policy left right
      = ((operator.applyDecimal policy a b).bind Decimal.checkScale).mapError
        Fault.ofArithmetic := by
  rw [Operator.apply, Value.isNull_of_toDecimal atLeft, Value.isNull_of_toDecimal atRight,
    if_neg Bool.false_ne_true, if_neg Bool.false_ne_true, atLeft, atRight]
  rfl

/-- **An operation that succeeds** has two operands, and its result is within the limit. -/
theorem Operator.exists_of_apply {operator : Operator} {policy : Policy} {r : Decimal}
    (done : operator.apply policy left right = .ok r) :
    ∃ a b, left.toDecimal = .ok a ∧ right.toDecimal = .ok b ∧
      operator.applyDecimal policy a b = .ok r ∧ r.InRange := by
  rw [Operator.apply] at done
  split at done
  · cases done
  split at done
  · cases done
  obtain ⟨a, atLeft, done⟩ := bind_eq_ok done
  obtain ⟨b, atRight, done⟩ := bind_eq_ok done
  obtain ⟨d, result, checked⟩ := bind_eq_ok (mapError_eq_ok done)
  obtain ⟨rfl, inRange⟩ := Decimal.inRange_of_checkScale checked
  exact ⟨a, b, atLeft, atRight, result, inRange⟩

end DecimalExpression
