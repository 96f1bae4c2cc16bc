import DecimalExpression.Evaluation.Method
import DecimalExpression.Proofs.Decimal.ExactDivision

/-!
# Equal numbers compute alike

Several decimals stand for one number, and most operations look at more than the number: at digits,
at scales and at zeros behind the last digit.  Still the outcomes of an operation on equal numbers
agree (`arithmetic_congr`): two results are equal numbers, and a fault on one side comes with a
fault on the other, except where a scale or an exponent is out of range, which depends on the
representation.

The relation on outcomes (`Alike`) is kept by sequencing (`Alike.bind`), so it is enough that each
step keeps it.  The steps that have to be looked at are the cut to a number of digits, where one
side may round and the other have nothing to do (`alike_cutToDigits`), and exact division, where the
scales that are tried differ (`alike_divideExactly`).
-/

namespace DecimalExpression

/-! ## 1. Outcomes alike

Two outcomes are alike if nothing but a range tells them apart.  The relation is reflexive and
symmetric, and sequences keep it as long as each continuation does, on equal numbers.  It is not
transitive: a range between two other faults would relate them. -/

/-- **A scale or an exponent is out of range.** -/
def ArithmeticFault.IsRange : ArithmeticFault → Prop
  | exponentRange _ | scaleRange _ => True
  | _ => False

/-- **Outcomes alike**: equal numbers, one fault on both sides, or a scale or an exponent out of
range on one of them. -/
inductive Alike : Except ArithmeticFault Decimal → Except ArithmeticFault Decimal → Prop
  | number {a b : Decimal} (same : a.toRat = b.toRat) : Alike (.ok a) (.ok b)
  | fault (cause : ArithmeticFault) : Alike (.error cause) (.error cause)
  | left {cause : ArithmeticFault} (range : cause.IsRange) (y : Except ArithmeticFault Decimal) :
    Alike (.error cause) y
  | right (x : Except ArithmeticFault Decimal) {cause : ArithmeticFault} (range : cause.IsRange) :
    Alike x (.error cause)

section Alike

variable {x y : Except ArithmeticFault Decimal} {f g : Decimal → Except ArithmeticFault Decimal}

theorem Alike.refl (x : Except ArithmeticFault Decimal) : Alike x x := by
  cases x with
  | error cause => exact .fault cause
  | ok d => exact .number rfl

theorem Alike.of_eq (same : x = y) : Alike x y := same ▸ .refl x

theorem Alike.symm (alike : Alike x y) : Alike y x := by
  cases alike with
  | number same => exact .number same.symm
  | fault cause => exact .fault cause
  | left range => exact .right y range
  | right _ range => exact .left range x

/-- **Alike outcomes go on alike**, if equal numbers do. -/
theorem Alike.bind (alike : Alike x y)
    (next : ∀ a b, x = .ok a → y = .ok b → a.toRat = b.toRat → Alike (f a) (g b)) :
    Alike (x.bind f) (y.bind g) := by
  cases alike with
  | number same => exact next _ _ rfl rfl same
  | fault cause => exact .fault cause
  | left range => exact .left range _
  | right _ range => exact .right _ range

end Alike

/-! ## 2. Decimals

Checks and cuts look at a decimal, not at its number.  A cut aims at a scale that the magnitude
says, so two decimals of one number aim at the same; one of them may be cut and the other not, and
then the second has nothing behind that scale. -/

namespace Decimal

variable {a a' b b' d d' : Decimal} {mode : RoundingMode}

theorem alike_checkScale (same : d.toRat = d'.toRat) : Alike d.checkScale d'.checkScale := by
  have refused : ∀ exponent, (ArithmeticFault.exponentRange exponent).IsRange := fun _ => trivial
  rw [checkScale, checkScale]
  split
  · split
    · exact .number same
    · exact .right _ (refused _)
  · exact .left (refused _) _

/-- **A cut of equal numbers.**  The magnitude is the same, so the scale that is aimed at is.  A
side that has nothing to cut is an integer at that scale, and rounding leaves it alone on the other
side. -/
theorem alike_cutToDigits {bound : Int} (positive : 1 ≤ bound) (wide : d.Wide) (wide' : d'.Wide)
    (same : d.toRat = d'.toRat) : Alike (d.cutToDigits bound mode) (d'.cutToDigits bound mode) := by
  by_cases zero : d.toRat = 0
  · rw [cutToDigits_zero zero positive, cutToDigits_zero (same ▸ zero) positive]
    exact .number same
  have stays : ∀ {e e' : Decimal} {scale : Int}, e.toRat = e'.toRat → e.scale ≤ scale →
      Alike (.ok e) (if scaleSupported scale then roundedTo e'.toRat scale mode
        else .error (.scaleRange scale)) := by
    intro e e' scale same few
    split
    · obtain ⟨n, integer⟩ := exists_integer_of_scale_le few
      obtain ⟨rounded, value⟩ := roundedTo_of_integer mode (same ▸ integer)
      rw [rounded]
      exact .number (same.trans value.symm)
    · exact .right _ trivial
  rw [cutToDigits_eq wide zero, cutToDigits_eq wide' (same ▸ zero), same]
  by_cases few : d.scale ≤ cutScale d'.toRat bound
  · rw [if_pos few]
    split
    · exact .number same
    · exact stays same few
  · rw [if_neg few]
    by_cases few' : d'.scale ≤ cutScale d'.toRat bound
    · rw [if_pos few']
      exact (stays rfl few').symm
    · rw [if_neg few']
      exact .refl _

/-- **Rounding equal numbers** to a precision. -/
theorem alike_roundToPrecision (p : Precision) (wide : d.Wide) (wide' : d'.Wide)
    (same : d.toRat = d'.toRat) : Alike (d.roundToPrecision p) (d'.roundToPrecision p) := by
  rw [roundToPrecision, roundToPrecision]
  split
  · exact .number same
  · rename_i digits
    have positive := one_le_bound digits
    refine (alike_cutToDigits positive wide wide' same).bind fun a b cut cut' same => ?_
    exact alike_cutToDigits positive (wide_of_cutToDigits positive wide cut)
      (wide_of_cutToDigits positive wide' cut') same

/-! ## 3. Quotients

Division to a precision looks at magnitudes and at quotients, which are those of the numbers.  Exact
division is the exception, because the places it reserves depend on the representation: both sides
give the exact quotient where they give anything. -/

/-- **One number twice**: two decimals within the limit that stand for it. -/
structure SameNumber (a b : Decimal) : Prop where
  left : a.InRange
  right : b.InRange
  toRat_eq : a.toRat = b.toRat

/-- **Exact division of equal numbers.**  The scales that are tried may differ, and one of them may
be out of range; the quotients are equal. -/
theorem alike_divideExactly (dividend : a.SameNumber a') (divisor : b.SameNumber b') :
    Alike (divideExactly a b) (divideExactly a' b') := by
  by_cases zero : b.toRat = 0
  · rw [divideExactly_of_zero a zero, divideExactly_of_zero a' (divisor.toRat_eq ▸ zero)]
    exact .fault _
  have zero' : b'.toRat ≠ 0 := divisor.toRat_eq ▸ zero
  have positive : ∀ {d : Decimal}, d.toRat ≠ 0 → 0 < d.unscaled.natAbs := fun nonzero =>
    Int.natAbs_pos.mpr (toRat_eq_zero_iff.not.mp nonzero)
  have rests : (splitTwosAndFives b.unscaled.natAbs).2 = 1
      ↔ (splitTwosAndFives b'.unscaled.natAbs).2 = 1 := by
    rw [rest_eq_one_iff (positive zero), rest_eq_one_iff (positive zero'),
      ← terminates_inverse_iff zero, ← terminates_inverse_iff zero', divisor.toRat_eq]
  by_cases one : (splitTwosAndFives b.unscaled.natAbs).2 = 1
  · obtain ⟨q, value, quotient⟩ := divideExactly_of_factors dividend.left divisor.left zero one
    obtain ⟨q', value', quotient'⟩ :=
      divideExactly_of_factors dividend.right divisor.right zero' (rests.mp one)
    have refused : ∀ scale, (ArithmeticFault.scaleRange scale).IsRange := fun _ => trivial
    rw [quotient, quotient']
    split
    · split
      · exact .number (by rw [toRat_normalize, toRat_normalize, value, value', dividend.toRat_eq,
          divisor.toRat_eq])
      · exact .right _ (refused _)
    · exact .left (refused _) _
  · rw [divideExactly_of_rest a zero one, divideExactly_of_rest a' zero' (rests.not.mp one)]
    exact .fault _

/-- **Division of equal numbers to a precision.**  With some digits, all that the operation looks at
is the numbers: the magnitudes, and quotients at scales. -/
theorem alike_divideToPrecision (p : Precision) (dividend : a.SameNumber a')
    (divisor : b.SameNumber b') : Alike (divideToPrecision a b p) (divideToPrecision a' b' p) := by
  have quotients : ∀ scale, divideToScale a b scale p.mode = divideToScale a' b' scale p.mode :=
    fun scale => divideToScale_congr dividend.left dividend.right divisor.left divisor.right
      dividend.toRat_eq divisor.toRat_eq
  rw [divideToPrecision, divideToPrecision]
  split
  · exact alike_divideExactly dividend divisor
  by_cases zero : a.toRat = 0
  · rw [if_pos (isZero_iff.mpr zero), if_pos (isZero_iff.mpr (dividend.toRat_eq ▸ zero)), quotients]
    exact .refl _
  have zero' : a'.toRat ≠ 0 := dividend.toRat_eq ▸ zero
  rw [if_neg (isZero_iff.not.mpr zero), if_neg (isZero_iff.not.mpr zero')]
  by_cases divisorZero : b.toRat = 0
  · -- The magnitudes of two zeros may differ, but a division by zero does not get so far.
    have refused : ∀ scale, divideToScale a' b' scale p.mode = .error .divisionByZero := by
      intro scale
      rw [divideToScale_eq dividend.right.wide divisor.right,
        if_pos (divisor.toRat_eq ▸ divisorZero)]
    dsimp only
    rw [quotients, refused, refused]
    exact .fault _
  · have divisorZero' : b'.toRat ≠ 0 := divisor.toRat_eq ▸ divisorZero
    have dividends : a.magnitude = a'.magnitude := by
      rw [magnitude_eq zero, magnitude_eq zero', dividend.toRat_eq]
    have divisors : b.magnitude = b'.magnitude := by
      rw [magnitude_eq divisorZero, magnitude_eq divisorZero', divisor.toRat_eq]
    simp only [dividends, divisors, quotients]
    exact .refl _

end Decimal

/-! ## 4. Operators

An operation is coercion, arithmetic and a check, all of which are treated above.  Operands that are
texts are compared through the decimals they stand for. -/

section Operators

variable {a a' b b' : Decimal}

open Decimal in
/-- **Every operation on equal numbers** has outcomes alike.  Sums, differences and products are
equal numbers that are rounded alike, and quotients are functions of the numbers alone. -/
theorem alike_applyDecimal (operator : Operator) (policy : Policy) (left : a.SameNumber a')
    (right : b.SameNumber b') :
    Alike (operator.applyDecimal policy a b) (operator.applyDecimal policy a' b') := by
  have rounded : ∀ {d d' : Decimal}, d.Wide → d'.Wide → d.toRat = d'.toRat →
      Alike (Operator.roundResult policy d) (Operator.roundResult policy d') := by
    intro d d' wide wide' same
    rw [Operator.roundResult, Operator.roundResult]
    split
    · exact .number same
    · exact alike_roundToPrecision _ wide wide' same
  cases operator with
  | add =>
    exact rounded (inRange_add left.left right.left).wide (inRange_add left.right right.right).wide
      (by rw [toRat_add, toRat_add, left.toRat_eq, right.toRat_eq])
  | subtract =>
    exact rounded (inRange_sub left.left right.left).wide (inRange_sub left.right right.right).wide
      (by rw [toRat_sub, toRat_sub, left.toRat_eq, right.toRat_eq])
  | multiply =>
    exact rounded (wide_mul left.left right.left) (wide_mul left.right right.right)
      (by rw [toRat_mul, toRat_mul, left.toRat_eq, right.toRat_eq])
  | divide =>
    rw [Operator.applyDecimal, Operator.applyDecimal]
    split
    · exact alike_divideToPrecision _ left right
    · exact .of_eq (divideToScale_congr left.left left.right right.left right.right left.toRat_eq
        right.toRat_eq)

end Operators

/-- **Decimals are equal as values** where they are equal numbers. -/
theorem Value.equals_decimal (a b : Decimal) :
    (Value.decimal a).equals (.decimal b) = true ↔ a.toRat = b.toRat := by
  rw [equals, Decimal.compare_eq, beq_iff_eq, compare_eq_iff_eq]

/-- **Operands that stand for one number**, be they decimals or texts. -/
def Value.SameNumber (v w : Value) : Prop :=
  ∃ a b, v.toDecimal = .ok a ∧ w.toDecimal = .ok b ∧ a.toRat = b.toRat

/-- The decimals of operands that stand for one number. -/
theorem Value.SameNumber.exists_decimals {v w : Value} (same : v.SameNumber w) :
    ∃ a b, v.toDecimal = .ok a ∧ w.toDecimal = .ok b ∧ a.SameNumber b := by
  obtain ⟨a, b, left, right, toRat_eq⟩ := same
  exact ⟨a, b, left, right, ⟨inRange_of_toDecimal left, inRange_of_toDecimal right, toRat_eq⟩⟩

/-! ## 5. Extremes

`min` and `max` return one of their arguments, so the results are not only equal numbers but come
from the same place.  The induction keeps the two best decimals so far in step; a comparison of
equal numbers with equal numbers has one answer. -/

/-- **Arguments that stand for one number**, or are both null. -/
def Value.SameArgument (v w : Value) : Prop :=
  (v = .null ∧ w = .null) ∨ v.SameNumber w

namespace Method

variable {wanted : Ordering} {best best' : Option Decimal} {vs ws : List Value}

/-- The better of equal numbers. -/
theorem sameNumber_better (sofar : Option.Rel Decimal.SameNumber best best') {a a' : Decimal}
    (same : a.SameNumber a') : (better wanted best a).SameNumber (better wanted best' a') := by
  cases sofar with
  | none => exact same
  | some one =>
    rw [better, better, Decimal.compare_eq, Decimal.compare_eq, same.toRat_eq, one.toRat_eq]
    split
    · exact same
    · exact one

/-- An argument that is a decimal is compared with the best so far. -/
theorem extremumFrom_cons {v : Value} {a : Decimal} (operand : v.toDecimal = .ok a)
    (rest : List Value) : extremumFrom wanted best (v :: rest)
      = extremumFrom wanted (some (better wanted best a)) rest := by
  cases v with
  | null => cases operand
  | bool | decimal | text =>
    rw [extremumFrom, operand]
    · rfl
    · exact nofun

/-- **The best so far stays one number**, argument by argument. -/
theorem extremumFrom_same (wanted : Ordering) (arguments : List.Forall₂ Value.SameArgument vs ws)
    (sofar : Option.Rel Decimal.SameNumber best best') :
    ∃ b b', extremumFrom wanted best vs = .ok b ∧ extremumFrom wanted best' ws = .ok b' ∧
      Option.Rel Decimal.SameNumber b b' := by
  induction arguments generalizing best best' with
  | nil => exact ⟨best, best', rfl, rfl, sofar⟩
  | cons argument _ ih =>
    obtain ⟨rfl, rfl⟩ | same := argument
    · exact ih sofar
    · obtain ⟨a, a', left, right, same⟩ := same.exists_decimals
      rw [extremumFrom_cons left, extremumFrom_cons right]
      exact ih (.some (sameNumber_better sofar same))

/-- **The extremes of equal numbers** are there, and are equal numbers or both null. -/
theorem extremum_same (wanted : Ordering) (arguments : List.Forall₂ Value.SameArgument vs ws) :
    ∃ v w, extremum wanted vs = .ok v ∧ extremum wanted ws = .ok w ∧ v.SameArgument w := by
  obtain ⟨b, b', left, right, same⟩ := extremumFrom_same wanted arguments .none
  rw [extremum, extremum, left, right]
  cases same with
  | none => exact ⟨.null, .null, rfl, rfl, .inl ⟨rfl, rfl⟩⟩
  | @some a a' same =>
    exact ⟨.decimal a, .decimal a', rfl, rfl, .inr ⟨a, a', Decimal.toDecimal_of_inRange same.left,
      Decimal.toDecimal_of_inRange same.right, same.toRat_eq⟩⟩

end Method

/-! ## 6. Equality of numbers is a congruence

On values the relation is put without its cases: what follows from a result, and what from a fault.
That is weaker than `Alike` in no case that matters, and it can be read without knowing how the
arithmetic is built. -/

/-- **The fault is of a range**: a scale or an exponent is out of it. -/
def Fault.IsRange : Fault → Prop
  | arithmetic cause _ => cause.IsRange
  | _ => False

/-- **Two outcomes agree**: their results are equal numbers, and where one fails for another reason
than a range, the other fails too, for the same reason or because of a range. -/
structure Agree (x y : Except Fault Decimal) : Prop where
  number : ∀ a b, x = .ok a → y = .ok b → a.toRat = b.toRat
  right : ∀ fault, x = .error fault → ¬ fault.IsRange →
    ∃ other, y = .error other ∧ (other = fault ∨ other.IsRange)
  left : ∀ fault, y = .error fault → ¬ fault.IsRange →
    ∃ other, x = .error other ∧ (other = fault ∨ other.IsRange)

/-- **Outcomes alike agree**, named as faults: only a fault that is no range says something of the
other outcome, and then the two are the same fault or the other one is a range. -/
theorem Alike.agree {x y : Except ArithmeticFault Decimal} (alike : Alike x y) :
    Agree (x.mapError Fault.ofArithmetic) (y.mapError Fault.ofArithmetic) := by
  cases alike with
  | number same =>
    refine ⟨fun a b left right => ?_, fun fault failed => ?_, fun fault failed => ?_⟩
    · cases left
      cases right
      exact same
    · cases failed
    · cases failed
  | fault cause =>
    refine ⟨fun a b failed => ?_, fun fault failed _ => ⟨fault, failed, .inl rfl⟩,
      fun fault failed _ => ⟨fault, failed, .inl rfl⟩⟩
    cases failed
  | left range y =>
    refine ⟨fun a b failed => ?_, fun fault failed other => ?_, fun _ _ _ => ⟨_, rfl, .inr range⟩⟩
    · cases failed
    · cases failed
      exact absurd range other
  | right x range =>
    refine ⟨fun a b _ failed => ?_, fun _ _ _ => ⟨_, rfl, .inr range⟩, fun fault failed other => ?_⟩
    · cases failed
    · cases failed
      exact absurd range other

/-- **Equality of numbers is a congruence for arithmetic.**  Under every policy, the outcomes of an
operation on operands that stand for equal numbers agree.  The least and the greatest of arguments
that stand for equal numbers are equal numbers. -/
theorem arithmetic_congr :
    (∀ (operator : Operator) (policy : Policy) {l l' r r' : Value}, l.SameNumber l' →
      r.SameNumber r' → Agree (operator.apply policy l r) (operator.apply policy l' r')) ∧
    ∀ {vs ws : List Value}, List.Forall₂ Value.SameArgument vs ws →
      (∃ v w, Method.min vs = .ok v ∧ Method.min ws = .ok w ∧ v.SameArgument w) ∧
      ∃ v w, Method.max vs = .ok v ∧ Method.max ws = .ok w ∧ v.SameArgument w := by
  refine ⟨fun operator policy l l' r r' left right => ?_, fun arguments => ?_⟩
  · obtain ⟨a, a', atLeft, atLeft', sameLeft⟩ := left.exists_decimals
    obtain ⟨b, b', atRight, atRight', sameRight⟩ := right.exists_decimals
    rw [Operator.apply_of_toDecimal operator policy atLeft atRight,
      Operator.apply_of_toDecimal operator policy atLeft' atRight']
    refine ((alike_applyDecimal operator policy sameLeft sameRight).bind ?_).agree
    exact fun d d' _ _ same => Decimal.alike_checkScale same
  · exact ⟨Method.extremum_same .lt arguments, Method.extremum_same .gt arguments⟩

/-- `1.0` and the text `1.00`, and `12300` and `123e2`. -/
theorem arithmetic_congr_trailingZeros :
    Agree (Operator.divide.apply ⟨2, .halfUp, some ⟨3, .halfEven⟩⟩ (.decimal ⟨10, 1⟩)
        (.decimal ⟨12300, 0⟩))
      (Operator.divide.apply ⟨2, .halfUp, some ⟨3, .halfEven⟩⟩ (.text "1.00")
        (.decimal ⟨123, -2⟩)) ∧
    ∃ v w, Method.min [.decimal ⟨12300, 0⟩, .null, .decimal ⟨10, 1⟩] = .ok v ∧
      Method.min [.decimal ⟨123, -2⟩, .null, .text "1.00"] = .ok w ∧ v.SameArgument w := by
  have one : Value.SameNumber (.decimal ⟨10, 1⟩) (.text "1.00") :=
    ⟨⟨10, 1⟩, ⟨100, 2⟩, rfl, by cbv, by norm_num [Decimal.toRat_eq]⟩
  have many : Value.SameNumber (.decimal ⟨12300, 0⟩) (.decimal ⟨123, -2⟩) :=
    ⟨⟨12300, 0⟩, ⟨123, -2⟩, rfl, rfl, by norm_num [Decimal.toRat_eq]⟩
  exact ⟨arithmetic_congr.1 _ _ one many,
    (arithmetic_congr.2 (.cons (.inr many) (.cons (.inl ⟨rfl, rfl⟩) (.cons (.inr one) .nil)))).1⟩

end DecimalExpression
