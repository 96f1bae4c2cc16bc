import DecimalExpression.Evaluation.Arithmetic

/-!
# Arithmetic with bounded scales

Where decimals are divided, rounded and checked, scales and digit counts are signed 64-bit integers,
and every sum, difference, negation and absolute value of them has to be one again.  The operations
here are those of `DecimalExpression.Decimal.Division` and
`DecimalExpression.Evaluation.Arithmetic`, with each such result looked at when it is computed
(`word`).  A result that does not fit ends the computation, and that is not a fault of the operands:
it is a second way to halt (`Halt`).

Unscaled integers are unbounded here as there.

The steps are those of `check_scale`, `divide_to_scale`, `round_to_precision`, `magnitude`,
`divide_with_precision` and `divide_exact`, in their order: an integer is looked at where they
compute it.
-/

namespace DecimalExpression

/-- **How a computation halts without a result**: an integer outgrows 64 bits, or there is a cause
to report. -/
inductive Halt (Cause : Type) where
  | overflow
  | failed (cause : Cause)
deriving DecidableEq, Repr

namespace Halt

def map {Cause Cause' : Type} (f : Cause → Cause') : Halt Cause → Halt Cause'
  | overflow => overflow
  | failed cause => failed (f cause)

end Halt

namespace Bounded

/-! ## 1. Integers of 64 bits -/

/-- An outcome that may be a bounded computation's. -/
abbrev Outcome (Cause α : Type) := Except (Halt Cause) α

variable {Cause α : Type}

/-- **An integer that has to fit into 64 bits.** -/
def word (n : Int) : Outcome Cause Int :=
  if Decimal.scaleFits n then .ok n else .error .overflow

/-- A halt with a cause. -/
def fail (cause : Cause) : Outcome Cause α := .error (.failed cause)

/-- **An outcome without bounds**, as one that has not overflowed. -/
def lift (outcome : Except Cause α) : Outcome Cause α := outcome.mapError .failed

/-! ## 2. Decimals -/

/-- The number of digits; one that does not fit is taken for the largest integer that does. -/
def digitCount (d : Decimal) : Int := min (d.digitCount : Int) 9223372036854775807

/-- **A decimal within the limit.**  The scale's absolute value has to fit, and so has the exponent
that is reported. -/
def checkScale (d : Decimal) : Outcome ArithmeticFault Decimal := do
  let size ← word d.scale.natAbs
  if scaleLimit < size then
    let exponent ← word (-d.scale)
    fail (.exponentRange exponent)
  else .ok d

/-- **The decimal of a numeral.** -/
def ofNumeral (text : String) : Outcome ArithmeticFault Decimal :=
  match Decimal.read text with
  | .error reason => fail (.invalidNumber text reason)
  | .ok d => checkScale d

/-- **Division to a scale.** -/
def divideToScale (a b : Decimal) (scale : Int) (mode : RoundingMode) :
    Outcome ArithmeticFault Decimal := do
  if b.isZero then fail .divisionByZero
  let size ← word scale.natAbs
  if scaleLimit < size then fail (.scaleRange scale)
  let gap ← word (scale - a.scale)
  let shift ← word (gap + b.scale)
  let (numerator, denominator) ←
    if 0 ≤ shift then do pure (a.unscaled * (← lift (Decimal.shiftUnit shift)), b.unscaled)
    else do
      let back ← word (-shift)
      pure (a.unscaled, b.unscaled * (← lift (Decimal.shiftUnit back)))
  match mode.roundQuotient numerator denominator with
  | some unscaled => .ok ⟨unscaled, scale⟩
  | none => fail .roundingNecessary

/-- One cut to `bound` digits. -/
def cutToDigits (d : Decimal) (bound : Int) (mode : RoundingMode) :
    Outcome ArithmeticFault Decimal := do
  let excess ← word (digitCount d - bound)
  if excess ≤ 0 then .ok d
  else
    let scale ← word (d.scale - excess)
    divideToScale d (.ofInt 1) scale mode

/-- **Rounding to a precision.** -/
def roundToPrecision (d : Decimal) (p : Precision) : Outcome ArithmeticFault Decimal :=
  if p.digits = 0 then .ok d
  else do cutToDigits (← cutToDigits d p.bound p.mode) p.bound p.mode

/-- **The magnitude**: the decimal position of the leading digit. -/
def magnitude (d : Decimal) : Outcome ArithmeticFault Int := do
  let leading ← word (digitCount d - 1)
  word (leading - d.scale)

/-- **Exact division.**  The factors 2 and 5 of the divisor are counted in 64 bits, those of a
divisor that is refused as well. -/
def divideExactly (a b : Decimal) : Outcome ArithmeticFault Decimal := do
  if b.isZero then fail .divisionByZero
  let (factors, rest) := Decimal.splitTwosAndFives b.unscaled.natAbs
  let extra ← word factors
  if rest ≠ 1 then fail .nonTerminating
  let left ← word a.scale.natAbs
  let right ← word b.scale.natAbs
  let places ← word (left + right)
  let scale ← word (places + extra)
  return (← divideToScale a b scale .unnecessary).normalize

/-- **Division to a precision.** -/
def divideToPrecision (a b : Decimal) (p : Precision) : Outcome ArithmeticFault Decimal := do
  if p.digits = 0 then divideExactly a b
  else if a.isZero then divideToScale a b 0 p.mode
  else
    let left ← magnitude a
    let right ← magnitude b
    let estimate ← word (left - right)
    let scale ← word (p.bound - estimate)
    let quotient ← divideToScale a b scale p.mode
    let excess ← word (digitCount quotient - p.bound)
    let quotient ←
      if 0 < excess then do
        let scale ← word (scale - excess)
        divideToScale a b scale p.mode
      else .ok quotient
    roundToPrecision quotient p

/-! ## 3. Operations on values -/

/-- A result rounded to the policy's precision, if there is one. -/
def roundResult (policy : Policy) (exact : Decimal) : Outcome ArithmeticFault Decimal :=
  match policy.precision with
  | none => .ok exact
  | some precision => roundToPrecision exact precision

/-- **An operation on decimals** under a policy. -/
def applyDecimal (operator : Operator) (policy : Policy) (a b : Decimal) :
    Outcome ArithmeticFault Decimal :=
  match operator with
  | .add => roundResult policy (a.add b)
  | .subtract => roundResult policy (a.sub b)
  | .multiply => roundResult policy (a.mul b)
  | .divide =>
    match policy.precision with
    | some precision => divideToPrecision a b precision
    | none => divideToScale a b policy.scale.toNat policy.mode

/-- An arithmetic outcome, with its cause as a fault. -/
def asFault (outcome : Outcome ArithmeticFault α) : Outcome Fault α :=
  outcome.mapError (.map Fault.ofArithmetic)

/-- **The decimal of a value**, within the scale limit. -/
def toDecimal : Value → Outcome Fault Decimal
  | .decimal number => asFault (checkScale number)
  | .text content =>
    match Decimal.readChars (Text.trim content.toList) with
    | .error _ => fail (.ofType (.notNumeric content))
    | .ok number => asFault (checkScale number)
  | .null => fail (.ofNull .operand)
  | .bool truth => fail (.ofType (.notNumber truth))

/-- **An operation on values** under a policy. -/
def apply (operator : Operator) (policy : Policy) (left right : Value) : Outcome Fault Decimal := do
  if left.isNull then fail (.ofNull (.leftOperand operator.symbol))
  if right.isNull then fail (.ofNull (.rightOperand operator.symbol))
  let a ← toDecimal left
  let b ← toDecimal right
  asFault ((applyDecimal operator policy a b).bind checkScale)

end Bounded
end DecimalExpression
