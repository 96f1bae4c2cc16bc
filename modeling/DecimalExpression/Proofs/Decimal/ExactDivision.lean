import DecimalExpression.Proofs.Decimal.Division

/-!
# Exact division

A quotient has a finite decimal expansion where the divisor divides the dividend and a power of ten
(`terminates_div_iff`).  Exact division looks at the divisor alone, and takes it where its
reciprocal has such an expansion, which is where it has no other prime factors than 2 and 5
(`terminates_inverse_iff`).  So it refuses some quotients that have one, `3 / 3` among them; but it
refuses none where dividend and divisor have no other prime factor in common
(`terminates_div_iff_inverse`).

What it takes it divides, as long as the places that it reserves are within the scale limit
(`Decimal.divideToPrecision_exactly`).
-/

namespace DecimalExpression

open Decimal

variable {a b d : Decimal}

/-! ## 1. Finite expansions

A finite expansion is a property of the number, while exact division looks at the divisor only.  How
far these are apart is the content of this section: they agree if no factor other than 2 and 5
cancels, and the counterexample at the end of the module is the shortest where one does. -/

/-- **A finite decimal expansion**: with enough places, the number is an integer. -/
def Terminates (q : ℚ) : Prop := ∃ (places : ℕ) (n : ℤ), q * 10 ^ places = n

/-- **A quotient has a finite expansion** where the divisor divides the dividend with zeros behind
it.  The scales of the two only shift the point, so they cost zeros on one side or the other, and a
number of zeros can always be added. -/
theorem terminates_div_iff (divisor : b.toRat ≠ 0) :
    Terminates (a.toRat / b.toRat) ↔ ∃ k : ℕ, b.unscaled ∣ a.unscaled * 10 ^ k := by
  have nonzero : (b.unscaled : ℚ) ≠ 0 := by exact_mod_cast toRat_eq_zero_iff.not.mp divisor
  constructor
  · rintro ⟨places, n, integer⟩
    rw [← zpow_natCast, quotient_eq] at integer
    generalize (places : ℤ) - a.scale + b.scale = shift at integer
    refine ⟨shift.toNat, n * 10 ^ (-shift).toNat, ?_⟩
    have balance : (10 : ℚ) ^ shift.toNat = 10 ^ shift * 10 ^ (-shift).toNat := by
      rw [← zpow_natCast, ← zpow_natCast, ← ten_zpow_add]
      congr 1
      omega
    rw [div_mul_eq_mul_div, div_eq_iff nonzero] at integer
    have product : (a.unscaled : ℚ) * 10 ^ shift.toNat
        = b.unscaled * (n * 10 ^ (-shift).toNat) := by
      rw [balance, ← mul_assoc, integer]
      ring
    exact_mod_cast product
  · rintro ⟨k, c, product⟩
    have product : (a.unscaled : ℚ) * 10 ^ k = b.unscaled * c := by exact_mod_cast product
    have shift : ((k + a.scale.natAbs + b.scale.natAbs : ℕ) : ℤ) - a.scale + b.scale
        = k + (a.scale.natAbs - a.scale + b.scale.natAbs + b.scale).toNat := by omega
    refine ⟨k + a.scale.natAbs + b.scale.natAbs,
      c * 10 ^ (a.scale.natAbs - a.scale + b.scale.natAbs + b.scale).toNat, ?_⟩
    rw [← zpow_natCast, quotient_eq, shift, ten_zpow_add, zpow_natCast, zpow_natCast, ← mul_assoc,
      div_mul_eq_mul_div, product, mul_div_cancel_left₀ _ nonzero]
    push_cast
    rfl

/-- **A reciprocal has a finite expansion** where the number divides a power of ten. -/
theorem terminates_inverse_iff (nonzero : b.toRat ≠ 0) :
    Terminates (1 / b.toRat) ↔ ∃ k, b.unscaled.natAbs ∣ 10 ^ k := by
  have one := terminates_div_iff (a := ofInt 1) nonzero
  rw [toRat_ofInt, Int.cast_one] at one
  rw [one]
  refine exists_congr fun k => ?_
  rw [ofInt, one_mul, ← Int.natAbs_dvd_natAbs, Int.natAbs_pow]
  rfl

/-- To divide a power of ten is to have no prime factors but 2 and 5. -/
theorem exists_dvd_ten_pow_iff {m : ℕ} (positive : 0 < m) :
    (∃ k, m ∣ 10 ^ k) ↔ ∃ i j, m = 2 ^ i * 5 ^ j := by
  constructor
  · intro divides
    obtain ⟨i, j, -, product, -⟩ := splitTwosAndFives_spec positive
    rw [(rest_eq_one_iff positive).mpr divides, mul_one] at product
    exact ⟨i, j, product.symm⟩
  · rintro ⟨i, j, rfl⟩
    exact ⟨i + j, factors_dvd i j⟩

/-- The exponents of 2 and 5 are those of their powers. -/
theorem factorization_factors (i j : ℕ) :
    (2 ^ i * 5 ^ j).factorization 2 = i ∧ (2 ^ i * 5 ^ j).factorization 5 = j := by
  rw [Nat.factorization_mul (by positivity) (by positivity), Nat.factorization_pow,
    Nat.factorization_pow]
  constructor <;> simp [Nat.prime_two.factorization, Nat.prime_five.factorization]

/-- **The twos and fives are counted**, each with its power. -/
theorem splitTwosAndFives_of_factors (i j : ℕ) :
    splitTwosAndFives (2 ^ i * 5 ^ j) = (i + j, 1) := by
  have positive : 0 < 2 ^ i * 5 ^ j := by positivity
  have one := (rest_eq_one_iff positive).mpr ⟨i + j, factors_dvd i j⟩
  obtain ⟨i', j', extra, product, -⟩ := splitTwosAndFives_spec positive
  rw [one, mul_one] at product
  obtain ⟨twos, fives⟩ := factorization_factors i j
  obtain ⟨twos', fives'⟩ := factorization_factors i' j'
  rw [product] at twos' fives'
  have count : i' + j' = i + j := by omega
  exact Prod.ext (extra.trans count) one

/-- **Looking at the divisor alone** is looking at the quotient, where dividend and divisor have no
prime factor but 2 and 5 in common: no other factor of the divisor cancels. -/
theorem terminates_div_iff_inverse (divisor : b.toRat ≠ 0)
    (reduced : ∀ r : ℕ, r.Prime → (r : ℤ) ∣ a.unscaled → (r : ℤ) ∣ b.unscaled → r = 2 ∨ r = 5) :
    Terminates (a.toRat / b.toRat) ↔ Terminates (1 / b.toRat) := by
  have positive : 0 < b.unscaled.natAbs := Int.natAbs_pos.mpr (toRat_eq_zero_iff.not.mp divisor)
  rw [terminates_div_iff divisor, terminates_inverse_iff divisor]
  constructor
  · rintro ⟨k, divides⟩
    rw [← Int.natAbs_dvd_natAbs, Int.natAbs_mul, Int.natAbs_pow] at divides
    rw [← rest_eq_one_iff positive]
    obtain ⟨i, j, -, product, coprime⟩ := splitTwosAndFives_spec positive
    have inDivisor : (splitTwosAndFives b.unscaled.natAbs).2 ∣ b.unscaled.natAbs :=
      Dvd.intro_left _ product
    have inDividend : (splitTwosAndFives b.unscaled.natAbs).2 ∣ a.unscaled.natAbs :=
      (coprime.pow_right k).dvd_of_dvd_mul_right (inDivisor.trans divides)
    by_contra other
    -- A prime factor of what is left is one of both, and neither 2 nor 5.
    obtain ⟨r, prime, factor⟩ := Nat.exists_prime_and_dvd other
    have common := reduced r prime (Int.natCast_dvd.mpr (factor.trans inDividend))
      (Int.natCast_dvd.mpr (factor.trans inDivisor))
    have ten : r ∣ 10 := by
      obtain rfl | rfl := common <;> decide
    exact prime.not_dvd_one (coprime ▸ Nat.dvd_gcd factor ten)
  · rintro ⟨k, divides⟩
    refine ⟨k, Dvd.dvd.mul_left ?_ _⟩
    rw [← Int.natAbs_dvd_natAbs, Int.natAbs_pow]
    exact divides

/-! ## 2. Normal form

The quotient comes out with a place for every factor, so it mostly ends in zeros.  These are taken
off to a normal form that only depends on the number, zero included. -/

namespace Decimal

/-- **Normal form**: no zero behind the last digit, and zero without places. -/
def IsNormal (d : Decimal) : Prop := d = ⟨0, 0⟩ ∨ ¬ (10 : ℤ) ∣ d.unscaled

theorem isNormal_normalize (d : Decimal) : d.normalize.IsNormal := by
  rw [normalize]
  split
  · exact .inl rfl
  · rename_i nonzero
    have positive : 0 < d.unscaled.natAbs :=
      Int.natAbs_pos.mpr (toRat_eq_zero_iff.not.mp (isZero_iff.not.mp nonzero))
    obtain ⟨-, remains⟩ := Digits.splitPower_spec (p := 10) (by decide) positive
    refine .inr fun divides => remains ?_
    rw [← Int.natAbs_dvd_natAbs, Int.natAbs_mul, Int.natAbs_sign_of_ne_zero (by omega), one_mul]
      at divides
    exact divides

/-! ## 3. Unlimited digits

All three outcomes are said at once, each with the condition under which it occurs: the divisor is
zero, or has another factor, or reserves too many places.  What is left is the quotient, and it is
exact. -/

/-- **Division without a limit on the digits** divides exactly where the reciprocal of the divisor
has a finite expansion, which is where the divisor has no prime factors but 2 and 5, and where the
places that are reserved are within the limit: those of both operands and one for each of these
factors.  The other divisors are refused, and that is right where they have no other prime factor in
common with the dividend. -/
theorem divideToPrecision_exactly {p : Precision} (unlimited : p.digits = 0) (left : a.InRange)
    (right : b.InRange) (divisor : b.toRat ≠ 0) :
    (∀ i j : ℕ, b.unscaled.natAbs = 2 ^ i * 5 ^ j →
      if a.scale.natAbs + b.scale.natAbs + (i + j) ≤ scaleLimit then
        ∃ q, divideToPrecision a b p = .ok q ∧ q.toRat = a.toRat / b.toRat ∧ q.IsNormal
      else divideToPrecision a b p
        = .error (.scaleRange (a.scale.natAbs + b.scale.natAbs + (i + j : ℕ)))) ∧
    (divideToPrecision a b p = .error .nonTerminating ↔ ¬ Terminates (1 / b.toRat)) ∧
    (Terminates (1 / b.toRat) ↔ ∃ i j, b.unscaled.natAbs = 2 ^ i * 5 ^ j) ∧
    ((∀ r : ℕ, r.Prime → (r : ℤ) ∣ a.unscaled → (r : ℤ) ∣ b.unscaled → r = 2 ∨ r = 5) →
      (Terminates (a.toRat / b.toRat) ↔ Terminates (1 / b.toRat))) := by
  have positive : 0 < b.unscaled.natAbs := Int.natAbs_pos.mpr (toRat_eq_zero_iff.not.mp divisor)
  rw [divideToPrecision, if_pos unlimited]
  refine ⟨fun i j factors => ?_, ?_, ?_, terminates_div_iff_inverse divisor⟩
  · have split : splitTwosAndFives b.unscaled.natAbs = (i + j, 1) :=
      factors ▸ splitTwosAndFives_of_factors i j
    have scale : exactScale a b = (a.scale.natAbs + b.scale.natAbs + (i + j) : ℕ) := by
      rw [exactScale, split]
      push_cast
      rfl
    obtain ⟨q, value, outcome⟩ := divideExactly_of_factors left right divisor (by rw [split])
    have supported : scaleSupported (exactScale a b) = true
        ↔ a.scale.natAbs + b.scale.natAbs + (i + j) ≤ scaleLimit := by
      rw [scaleSupported_iff, scale, Int.natAbs_natCast]
    rw [outcome]
    split
    · rename_i fits
      rw [if_pos (supported.mpr fits)]
      exact ⟨q.normalize, rfl, (toRat_normalize q).trans value, isNormal_normalize q⟩
    · rename_i large
      rw [if_neg (supported.not.mpr large), scale]
      push_cast
      rfl
  · rw [terminates_inverse_iff divisor, ← rest_eq_one_iff positive]
    by_cases one : (splitTwosAndFives b.unscaled.natAbs).2 = 1
    · obtain ⟨q, -, outcome⟩ := divideExactly_of_factors left right divisor one
      refine iff_of_false ?_ (not_not.mpr one)
      rw [outcome]
      intro refused
      split at refused <;> cases refused
    · exact iff_of_true (divideExactly_of_rest a divisor one) one
  · rw [terminates_inverse_iff divisor, exists_dvd_ten_pow_iff positive]

/-- `1.5 / 0.4` has two places. -/
theorem divideToPrecision_exactly_quarters :
    (∃ q, divideToPrecision ⟨15, 1⟩ ⟨4, 1⟩ ⟨0, .halfUp⟩ = .ok q ∧
      q.toRat = toRat ⟨15, 1⟩ / toRat ⟨4, 1⟩ ∧ q.IsNormal) ∧
    Terminates (toRat ⟨15, 1⟩ / toRat ⟨4, 1⟩) := by
  obtain ⟨outcome, -, reciprocal, reduced⟩ := @divideToPrecision_exactly ⟨15, 1⟩ ⟨4, 1⟩ ⟨0, .halfUp⟩
    rfl rfl rfl (by norm_num [toRat_eq])
  have divided := outcome 2 0 rfl
  rw [if_pos (by decide)] at divided
  refine ⟨divided, (reduced fun r prime _ inFour => ?_).mpr (reciprocal.mpr ⟨2, 0, rfl⟩)⟩
  have inSquare : r ∣ 2 ^ 2 := Int.natCast_dvd_natCast.mp inFour
  exact .inl ((Nat.prime_dvd_prime_iff_eq prime Nat.prime_two).mp (prime.dvd_of_dvd_pow inSquare))

/-- **Some quotients with a finite expansion are refused**: `3 / 3` is one, for the factor that
cancels. -/
theorem divideToPrecision_incomplete :
    ¬ ∀ (a b : Decimal) (p : Precision), p.digits = 0 → a.InRange → b.InRange → b.toRat ≠ 0 →
      (∀ d : Decimal, d.toRat = a.toRat / b.toRat → d.IsNormal → d.InRange →
        ∃ q, divideToPrecision a b p = .ok q) ∧
      (divideToPrecision a b p = .error .nonTerminating → ¬ Terminates (a.toRat / b.toRat)) := by
  intro complete
  have three : toRat ⟨3, 0⟩ ≠ 0 := by norm_num [toRat_eq]
  have refused : divideToPrecision ⟨3, 0⟩ ⟨3, 0⟩ ⟨0, .halfUp⟩ = .error .nonTerminating := by cbv
  obtain ⟨q, done⟩ := (complete ⟨3, 0⟩ ⟨3, 0⟩ ⟨0, .halfUp⟩ rfl rfl rfl three).1 ⟨1, 0⟩
    (by rw [div_self three]; norm_num [toRat_eq]) (.inr (by decide)) rfl
  cases refused.symm.trans done

end Decimal

end DecimalExpression
