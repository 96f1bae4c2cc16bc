import DecimalExpression.Decimal.Rounding
import DecimalExpression.Decimal.Written

/-!
# Division and rounding of decimals

Three ways to divide, all of them one rounding of the exact quotient:

* `divideToScale` gives a quotient with a stated number of places;
* `divideToPrecision` gives one with a stated number of significant digits;
* `divideExactly` gives the quotient itself, where it has finitely many digits.

`roundToPrecision` cuts a decimal to a stated number of significant digits.  The scale of an
operand or result is limited to `scaleLimit` on either side, and so is every scale that a division
is asked for.

The numeric engine (specification, sections 4.3 and 14) calls them `divide_to_scale`,
`divide_with_precision`, `divide_exact` and `round_to_precision`.  `checkScale` is its
`check_scale`, with `scaleLimit` for `MAX_SCALE`; `Decimal.ofNumeral` is `parse_literal`, which
reads a literal and checks it.
-/

namespace DecimalExpression

/-! ## 1. Why an arithmetic step fails -/

/-- **Why an arithmetic step fails.** -/
inductive ArithmeticFault where
  /-- a decimal whose exponent is out of range -/
  | exponentRange (exponent : Int)
  /-- a numeral that is no decimal -/
  | invalidNumber (text : String) (reason : Unreadable)
  | divisionByZero
  /-- a quotient asked for at a scale that is out of range -/
  | scaleRange (scale : Int)
  /-- operands too many decimal places apart to be aligned -/
  | shiftRange (shift : Int)
  /-- digits would be lost, and the mode refuses to round -/
  | roundingNecessary
  /-- a quotient with infinitely many digits -/
  | nonTerminating
  /-- stated by a method of the host -/
  | stated (message : String)
deriving DecidableEq, Repr

/-- **The scale limit**: the largest decimal exponent, of either sign, of an operand or result. -/
def scaleLimit : Nat := 100000

namespace ArithmeticFault

def message : ArithmeticFault → String
  | exponentRange exponent =>
    s!"decimal exponent {exponent} is outside the supported range of +/-{scaleLimit}"
  | invalidNumber text reason => s!"invalid number '{text}': {reason.message}"
  | divisionByZero => "division by zero"
  | scaleRange scale =>
    s!"division scale {scale} is outside the supported range of +/-{scaleLimit}"
  | shiftRange shift => s!"scale adjustment {shift} out of range"
  | roundingNecessary => "rounding necessary but rounding mode is UNNECESSARY"
  | nonTerminating =>
    "non-terminating decimal expansion; no exact representable decimal result"
  | stated message => message

end ArithmeticFault

/-- **A precision**: a number of significant digits and the way to round to it.  No digits at all
means an exact result. -/
structure Precision where
  digits : UInt64
  mode : RoundingMode
deriving DecidableEq, Repr, Inhabited

namespace Precision

/-- Thirty-four digits, ties to even. -/
def decimal128 : Precision := ⟨34, .halfEven⟩

/-- The number of digits, within signed 64-bit integers. -/
def bound (p : Precision) : Int :=
  min (p.digits.toNat : Int) 9223372036854775807

end Precision

namespace Decimal

/-! ## 2. Range -/

/-- Whether a scale is within the limit. -/
def scaleSupported (scale : Int) : Bool :=
  scale.natAbs ≤ scaleLimit

/-- **A decimal within the limit**, or the report of its exponent. -/
def checkScale (d : Decimal) : Except ArithmeticFault Decimal :=
  if scaleSupported d.scale then .ok d else .error (.exponentRange (-d.scale))

/-- **The decimal of a numeral.** -/
def ofNumeral (text : String) : Except ArithmeticFault Decimal :=
  match read text with
  | .error reason => .error (.invalidNumber text reason)
  | .ok d => d.checkScale

/-- A power of ten with an exponent of at most 32 bits. -/
def shiftUnit (shift : Int) : Except ArithmeticFault Int :=
  if 0 ≤ shift ∧ shift ≤ 4294967295 then .ok (tenPower shift.toNat) else .error (.shiftRange shift)

/-! ## 3. Division to a scale -/

/-- **Division to a scale**: the exact quotient, rounded once to `scale` places.
With `shift = scale - a.scale + b.scale`, the quotient times `10 ^ scale` is
`a.unscaled * 10 ^ shift / b.unscaled`. -/
def divideToScale (a b : Decimal) (scale : Int) (mode : RoundingMode) :
    Except ArithmeticFault Decimal := do
  if b.isZero then .error .divisionByZero
  if !scaleSupported scale then .error (.scaleRange scale)
  let shift := scale - a.scale + b.scale
  let (numerator, denominator) ←
    if 0 ≤ shift then do pure (a.unscaled * (← shiftUnit shift), b.unscaled)
    else do pure (a.unscaled, b.unscaled * (← shiftUnit (-shift)))
  match mode.roundQuotient numerator denominator with
  | some unscaled => .ok ⟨unscaled, scale⟩
  | none => .error .roundingNecessary

/-! ## 4. Rounding to a precision -/

/-- The same number at fewer places. -/
def rescale (d : Decimal) (scale : Int) (mode : RoundingMode) : Except ArithmeticFault Decimal :=
  divideToScale d (ofInt 1) scale mode

/-- One cut to `bound` digits; nothing happens where there are no more than that. -/
def cutToDigits (d : Decimal) (bound : Int) (mode : RoundingMode) :
    Except ArithmeticFault Decimal :=
  let excess := d.digitCount - bound
  if excess ≤ 0 then .ok d else d.rescale (d.scale - excess) mode

/-- **Rounding to a precision.**  A carry can add a digit (`9.99` to `10.0`); that digit is a zero
and a second cut drops it. -/
def roundToPrecision (d : Decimal) (p : Precision) : Except ArithmeticFault Decimal :=
  if p.digits = 0 then .ok d
  else do (← d.cutToDigits p.bound p.mode).cutToDigits p.bound p.mode

/-! ## 5. Exact division -/

/-- The number of factors 2 and 5 in a positive number, and what is left without them. -/
def splitTwosAndFives (n : Nat) : Nat × Nat :=
  let twos := Digits.splitPower 2 n
  let fives := Digits.splitPower 5 twos.2
  (twos.1 + fives.1, fives.2)

/-- **Exact division**, in normal form.  A divisor whose unscaled integer has other prime factors
than 2 and 5 is refused; each factor 2 or 5 costs the quotient at most one place. -/
def divideExactly (a b : Decimal) : Except ArithmeticFault Decimal := do
  if b.isZero then .error .divisionByZero
  let (extra, rest) := splitTwosAndFives b.unscaled.natAbs
  if rest ≠ 1 then .error .nonTerminating
  let scale : Int := a.scale.natAbs + b.scale.natAbs + extra
  return (← divideToScale a b scale .unnecessary).normalize

/-! ## 6. Division to a precision -/

/-- **Division to a precision.**  The quotient's leading digit stands at
`a.magnitude - b.magnitude` or one place below it, so the first division gives as many digits as
asked for or one more, and a second one, of the same operands, corrects the scale. -/
def divideToPrecision (a b : Decimal) (p : Precision) : Except ArithmeticFault Decimal := do
  if p.digits = 0 then divideExactly a b
  else if a.isZero then divideToScale a b 0 p.mode
  else
    let estimate := a.magnitude - b.magnitude
    let scale := p.bound - estimate
    let quotient ← divideToScale a b scale p.mode
    let excess := quotient.digitCount - p.bound
    let quotient ← if 0 < excess then divideToScale a b (scale - excess) p.mode else .ok quotient
    quotient.roundToPrecision p

end Decimal
end DecimalExpression
