import DecimalExpression.Proofs.Decimal.Digits
import DecimalExpression.Proofs.Decimal.Overflow

/-!
# How fast digits grow

An operation adds the digits of its operands, and a fixed number more: a result within the scale
limit is moved by so many places at most, and each rounding moves it again
(`Operator.digitCount_of_apply`).  A literal has no more digits than characters
(`Decimal.digitCount_of_ofNumeral`).

So the digits that come up in a calculation are bounded by what goes into it, whatever is
calculated, and numbers of `2 ^ 60` digits do not come out of a source that fits into a memory.
-/

namespace DecimalExpression

/-- **The digits that one operation adds** to those of its operands, at most. -/
def digitGrowth : Nat := 13 * scaleLimit

namespace Decimal

variable {a b d r : Decimal} {p : Precision} {scale : Int} {mode : RoundingMode}

/-! ## 1. Bounds on numbers

A number below a power of ten, at a scale within the limit, has as many digits as the exponent and
the places.  So digits are bounded by bounding numbers, and representations do not matter. -/

/-- A decimal within the limit is bounded by its digits. -/
theorem abs_toRat_lt (inRange : d.InRange) : |d.toRat| < 10 ^ (d.digitCount + scaleLimit) := by
  have digits : (d.unscaled.natAbs : ℚ) < 10 ^ d.digitCount := by
    exact_mod_cast (digitCount_le_iff (one_le_digitCount d)).mp le_rfl
  have places : -d.scale ≤ (scaleLimit : ℕ) := by
    rw [inRange_iff] at inRange
    omega
  calc |d.toRat| = (d.unscaled.natAbs : ℚ) * 10 ^ (-d.scale) := abs_toRat d
    _ ≤ (d.unscaled.natAbs : ℚ) * 10 ^ ((scaleLimit : ℕ) : ℤ) :=
      mul_le_mul_of_nonneg_left (zpow_le_zpow_right₀ (by norm_num) places) (Nat.cast_nonneg _)
    _ < 10 ^ d.digitCount * 10 ^ scaleLimit := by
      rw [zpow_natCast]
      exact mul_lt_mul_of_pos_right digits (by positivity)
    _ = 10 ^ (d.digitCount + scaleLimit) := (pow_add 10 _ _).symm

/-- A bounded decimal has as many digits as the bound, and its places. -/
theorem digitCount_of_abs_lt {n places : ℕ} (small : |d.toRat| < 10 ^ n) (positive : 1 ≤ n)
    (least : d.scale ≤ places) : d.digitCount ≤ n + places := by
  refine (digitCount_le_iff (by omega)).mpr ?_
  have unscaled : (d.unscaled.natAbs : ℚ) = |d.toRat| * 10 ^ d.scale := by
    rw [abs_toRat, mul_assoc, ← ten_zpow_add, neg_add_cancel, zpow_zero, mul_one]
  have below : (d.unscaled.natAbs : ℚ) < 10 ^ (n + places) := by
    calc (d.unscaled.natAbs : ℚ) = |d.toRat| * 10 ^ d.scale := unscaled
      _ ≤ |d.toRat| * 10 ^ (places : ℤ) :=
        mul_le_mul_of_nonneg_left (zpow_le_zpow_right₀ (by norm_num) least) (abs_nonneg _)
      _ < 10 ^ n * 10 ^ places := by
        rw [zpow_natCast]
        exact mul_lt_mul_of_pos_right small (by positivity)
      _ = 10 ^ (n + places) := (pow_add 10 _ _).symm
  exact_mod_cast below

/-! ## 2. Operations

Sums, differences and products are bounded by their numbers.  A rounding adds the places it moves
its operand by, and a division to a precision rounds three times at most.  The constant
`digitGrowth` is large enough for the worst of these, and is not meant to be sharp. -/

/-- **An exact result** has the digits of both operands, and the places they are apart.  This is
read off the size of the number and not off the algorithm.  The operands are below powers of ten, so
are their sum and product, and the places of the result add the rest. -/
theorem digitCount_of_exactResult? {operator : Operator} {e : Decimal} (left : a.InRange)
    (right : b.InRange) (result : operator.exactResult? a b = some e) :
    e.digitCount ≤ a.digitCount + b.digitCount + 4 * scaleLimit := by
  obtain ⟨value, wide⟩ := Operator.exactResult?_spec left right result
  have first := abs_toRat_lt left
  have second := abs_toRat_lt right
  have several : ∀ n : ℕ, 1 ≤ n → (2 : ℚ) ≤ 10 ^ n := by
    intro n positive
    calc (2 : ℚ) ≤ 10 ^ 1 := by norm_num
      _ ≤ 10 ^ n := pow_le_pow_right₀ (by norm_num) positive
  have atLeft := several (a.digitCount + scaleLimit) (by have := one_le_digitCount a; omega)
  have atRight := several (b.digitCount + scaleLimit) (by have := one_le_digitCount b; omega)
  have small : |e.toRat| < 10 ^ (a.digitCount + b.digitCount + 2 * scaleLimit) := by
    have exponents : a.digitCount + b.digitCount + 2 * scaleLimit
        = (a.digitCount + scaleLimit) + (b.digitCount + scaleLimit) := by omega
    rw [value, exponents, pow_add]
    generalize (10 : ℚ) ^ (a.digitCount + scaleLimit) = x at first atLeft ⊢
    generalize (10 : ℚ) ^ (b.digitCount + scaleLimit) = y at second atRight ⊢
    -- A sum of two numbers is no more than their product, if neither is below two.
    have sum : x + y ≤ x * y := by nlinarith
    cases operator with
    | add => exact (abs_add_le a.toRat b.toRat).trans_lt (by linarith)
    | subtract => exact (abs_sub a.toRat b.toRat).trans_lt (by linarith)
    | multiply =>
      rw [Operator.onNumbers, abs_mul]
      exact mul_lt_mul'' first second (abs_nonneg _) (abs_nonneg _)
    | divide => cases result
  have places : e.scale ≤ (2 * scaleLimit : ℕ) := by
    rw [Wide] at wide
    omega
  have positive := one_le_digitCount a
  have digits := digitCount_of_abs_lt small (by omega) places
  omega

/-- **Rounding to a precision** adds no more than its two cuts do. -/
theorem digitCount_le_of_roundToPrecision (wide : d.Wide) (done : d.roundToPrecision p = .ok r) :
    r.digitCount ≤ d.digitCount + 8 * scaleLimit + 2 := by
  rw [roundToPrecision] at done
  split at done
  · cases done
    omega
  · obtain ⟨e, first, second⟩ := bind_eq_ok done
    obtain ⟨fewer, wider⟩ := Bounded.digitCount_of_cutToDigits wide first
    have fewest := (Bounded.digitCount_of_cutToDigits wider second).1
    omega

/-- The normal form has no more digits. -/
theorem digitCount_normalize_le (d : Decimal) : d.normalize.digitCount ≤ d.digitCount := by
  rw [normalize]
  split
  · exact one_le_digitCount d
  · rename_i nonzero
    have positive : 0 < d.unscaled.natAbs :=
      Int.natAbs_pos.mpr (toRat_eq_zero_iff.not.mp (isZero_iff.not.mp nonzero))
    obtain ⟨product, -⟩ := Digits.splitPower_spec (p := 10) (by decide) positive
    have less : (Digits.splitPower 10 d.unscaled.natAbs).2 ≤ d.unscaled.natAbs :=
      Nat.le_of_dvd positive (Dvd.intro_left _ product)
    refine (digitCount_le_iff (one_le_digitCount d)).mpr ?_
    dsimp only
    rw [Int.natAbs_mul, Int.natAbs_sign_of_ne_zero (Int.natAbs_pos.mp positive), one_mul,
      Int.natAbs_natCast]
    exact less.trans_lt ((digitCount_le_iff (one_le_digitCount d)).mp le_rfl)

/-- **A division to a precision** adds what a division and a rounding add.  Without a limit on
digits there is one division, and its normal form is no longer; with one there is a division,
perhaps with a rounding behind it. -/
theorem digitCount_le_of_divideToPrecision (left : a.InRange) (right : b.InRange)
    (done : divideToPrecision a b p = .ok r) : r.digitCount ≤ a.digitCount + digitGrowth := by
  have limit : scaleLimit = 100000 := rfl
  rw [digitGrowth]
  by_cases digits : p.digits = 0
  · rw [divideToPrecision, if_pos digits] at done
    by_cases zero : b.toRat = 0
    · rw [divideExactly_of_zero a zero] at done
      cases done
    rw [divideExactly_eq a zero] at done
    split at done
    swap
    · cases done
    cases divided : divideToScale a b (exactScale a b) .unnecessary with
    | error cause => rw [divided] at done; cases done
    | ok q =>
      rw [divided] at done
      cases done
      have fewer := Bounded.digitCount_of_divideToScale left.wide right divided
      have normal := digitCount_normalize_le q
      omega
  · obtain ⟨-, done⟩ | ⟨scale, q, divided, done⟩ := exists_of_divideToPrecision digits done
    · have fewer := Bounded.digitCount_of_divideToScale left.wide right done
      omega
    · have fewer := Bounded.digitCount_of_divideToScale left.wide right divided
      have wide := (scale_of_divideToScale divided).2.wide
      have rounded := digitCount_le_of_roundToPrecision wide done
      omega

end Decimal

namespace Operator

variable {operator : Operator} {policy : Policy} {a b r : Decimal} {left right : Value}

/-- **An operation adds the digits of its operands**, and `digitGrowth` more.  Sums, differences and
products have an exact result that is rounded at most once; quotients have a bound of their own. -/
theorem digitCount_of_applyDecimal_le (left : a.InRange) (right : b.InRange)
    (done : operator.applyDecimal policy a b = .ok r) :
    r.digitCount ≤ a.digitCount + b.digitCount + digitGrowth := by
  have limit : scaleLimit = 100000 := rfl
  have exactly : ∀ {e : Decimal}, operator.exactResult? a b = some e →
      roundResult policy e = .ok r → r.digitCount ≤ a.digitCount + b.digitCount + digitGrowth := by
    intro e result rounded
    have digits := Decimal.digitCount_of_exactResult? left right result
    have wide := (exactResult?_spec left right result).2
    rw [digitGrowth]
    rw [roundResult] at rounded
    split at rounded
    · cases rounded
      omega
    · have more := Decimal.digitCount_le_of_roundToPrecision wide rounded
      omega
  cases operator with
  | add | subtract | multiply => exact exactly rfl done
  | divide =>
    rw [applyDecimal] at done
    cases precision : policy.precision with
    | some p =>
      rw [precision] at done
      have digits := Decimal.digitCount_le_of_divideToPrecision left right done
      omega
    | none =>
      rw [precision] at done
      have digits := Bounded.digitCount_of_divideToScale left.wide right done
      rw [digitGrowth]
      omega

/-- **So does an operation on values.** -/
theorem digitCount_of_apply (atLeft : left.toDecimal = .ok a) (atRight : right.toDecimal = .ok b)
    (done : operator.apply policy left right = .ok r) :
    r.digitCount ≤ a.digitCount + b.digitCount + digitGrowth := by
  obtain ⟨a', b', same, same', done, -⟩ := exists_of_apply done
  cases atLeft.symm.trans same
  cases atRight.symm.trans same'
  exact digitCount_of_applyDecimal_le (Value.inRange_of_toDecimal atLeft)
    (Value.inRange_of_toDecimal atRight) done

end Operator

/-! ## 3. Literals

A literal is read from its characters, one digit from each of them. -/

namespace Decimal

/-- Digits stand for a number below a power of ten. -/
theorem read_lt {digits : List Char} (each : ∀ c ∈ digits, c.isDigit) :
    Digits.read digits < 10 ^ digits.length := by
  induction digits with
  | nil => exact Nat.one_pos
  | cons c rest ih =>
    obtain ⟨here, later⟩ := List.forall_mem_cons.mp each
    have small : Digits.value c ≤ 9 := by
      simp only [Char.isDigit, Bool.and_eq_true, decide_eq_true_eq] at here
      have upper : c.toNat ≤ '9'.toNat := here.2
      rw [Digits.value]
      have nine : '9'.toNat = 57 := rfl
      have zero : '0'.toNat = 48 := rfl
      omega
    have behind := ih later
    have split : Digits.read (c :: rest) = Digits.value c * 10 ^ rest.length
        + Digits.read rest := by
      rw [← List.singleton_append, Digits.read_append, Digits.read_singleton]
    rw [split, List.length_cons, pow_succ]
    nlinarith

/-- An integer has no more digits than characters.  A sign and the scores between digits are
characters that add no digit. -/
theorem natAbs_lt_of_readInteger {text : List Char} {n : Int} (done : readInteger text = .ok n) :
    n.natAbs < 10 ^ text.length := by
  have unsigned : ∀ {digits : List Char} {m : Nat}, readDigits (dropPlus digits) = .ok m →
      m < 10 ^ digits.length := by
    intro digits m read
    have shorter : (dropPlus digits).length ≤ digits.length := by
      rw [dropPlus.eq_def]
      split <;> simp
    rw [readDigits] at read
    split at read
    · cases read
    split at read
    · cases read
    dsimp only at read
    split at read
    swap
    · cases read
    rename_i each
    cases read
    have fewer := List.length_filter_le (fun c => decide (c ≠ '_')) (dropPlus digits)
    calc Digits.read _ < 10 ^ ((dropPlus digits).filter (· ≠ '_')).length :=
          read_lt (List.all_eq_true.mp each)
      _ ≤ 10 ^ digits.length := Nat.pow_le_pow_right (by decide) (fewer.trans shorter)
  rw [readInteger.eq_def] at done
  split at done
  · cases done
  · cases read : readDigits (dropPlus _) with
    | error cause => rw [read] at done; cases done
    | ok m =>
      rw [read] at done
      cases done
      have small := unsigned read
      rw [Int.natAbs_neg, Int.natAbs_natCast]
      exact small.trans (Nat.pow_lt_pow_right (by decide) (by simp))
  · cases read : readDigits (dropPlus text) with
    | error cause => rw [read] at done; cases done
    | ok m =>
      rw [read] at done
      cases done
      exact unsigned read

/-- **A decimal that is read** has no more digits than characters.  The digits are those of the
mantissa without its point, and the mantissa is a part of the text. -/
theorem digitCount_of_readChars {text : List Char} {d : Decimal} (done : readChars text = .ok d) :
    d.digitCount ≤ text.length + 1 := by
  have mantissa : (splitExponent text).1.length ≤ text.length := by
    rw [splitExponent]
    split
    · exact le_rfl
    · exact (List.takeWhile_prefix _).length_le
  have digits : (splitPoint (splitExponent text).1).1.length ≤ (splitExponent text).1.length := by
    rw [splitPoint]
    split
    · exact le_rfl
    · rename_i fraction behind
      have whole := congrArg List.length
        (List.takeWhile_append_dropWhile (p := (· ≠ '.')) (l := (splitExponent text).1))
      rw [behind] at whole
      simp only [List.length_append, List.length_cons] at whole ⊢
      omega
  have read := (readChars_eq_ok done).2
  refine (digitCount_le_iff (by omega)).mpr ((natAbs_lt_of_readInteger read).trans_le ?_)
  exact Nat.pow_le_pow_right (by decide) (by omega)

theorem digitCount_of_ofNumeral {text : String} {d : Decimal} (done : ofNumeral text = .ok d) :
    d.digitCount ≤ text.length + 1 := by
  rw [ofNumeral] at done
  cases read : Decimal.read text with
  | error cause => rw [read] at done; cases done
  | ok e =>
    rw [read] at done
    obtain ⟨rfl, -⟩ := inRange_of_checkScale done
    rw [← String.length_toList]
    exact digitCount_of_readChars read

end Decimal
end DecimalExpression
