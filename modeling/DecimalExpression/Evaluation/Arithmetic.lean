import DecimalExpression.Decimal.Binary64
import DecimalExpression.Fault
import DecimalExpression.Text.Blank

/-!
# Arithmetic on values

Operands are coerced to decimals: a text that reads as a decimal stands for it, null and truth
values stand for none.  A double from outside stands for the decimal of its shortest text.

A policy says how results are rounded.  Without a precision, sums, differences and products are
exact and quotients have the policy's number of places; with one, every result is rounded to it.
Operands and results are kept within the scale limit.

The coercion of operands is `to_decimal`, the operation of an operator is `calculate_number`, and
the rounding of what it gives is `round_optional` (specification, sections 4.3 and 14).  Here they
are `Value.toDecimal`, `Operator.apply` and `Operator.roundResult`.
-/

namespace DecimalExpression

/-! ## 1. Operators and policies -/

/-- **A binary operator.** -/
inductive Operator where
  | add
  | subtract
  | multiply
  | divide
deriving DecidableEq, Repr

namespace Operator

def all : List Operator := [add, subtract, multiply, divide]

def symbol : Operator → String
  | add => "+"
  | subtract => "-"
  | multiply => "*"
  | divide => "/"

def ofSymbol? (symbol : String) : Option Operator :=
  all.find? (·.symbol == symbol)

@[simp] theorem ofSymbol?_symbol (operator : Operator) :
    ofSymbol? operator.symbol = some operator := by
  cases operator <;> decide

end Operator

/-- **A numeric policy**: the places of a quotient and the way to round to them, and, if there is
one, the precision that takes their place. -/
structure Policy where
  scale : UInt32
  mode : RoundingMode
  precision : Option Precision
deriving DecidableEq, Repr

namespace Policy

/-- **The default policy**: ten places, ties away from zero. -/
def standard : Policy := ⟨10, .halfUp, none⟩

end Policy

/-! ## 2. Coercion -/

/-- **The decimal of a value**, within the scale limit.  Blanks around a text do not count. -/
def Value.toDecimal : Value → Except Fault Decimal
  | .decimal number => number.checkScale.mapError Fault.ofArithmetic
  | .text content =>
    match Decimal.readChars (Text.trim content.toList) with
    | .error _ => .error (.ofType (.notNumeric content))
    | .ok number => number.checkScale.mapError Fault.ofArithmetic
  | .null => .error (.ofNull .operand)
  | .bool truth => .error (.ofType (.notNumber truth))

/-- **The value of a double**, unless it is infinite or no number. -/
def Value.ofBinary64 (double : Binary64) : Except InputFault Value :=
  match double.toDecimal? with
  | some number => .ok (.decimal number)
  | none => .error (.noDecimal double.name)

/-! ## 3. Operations -/

namespace Operator

/-- A result rounded to the policy's precision, if there is one. -/
def roundResult (policy : Policy) (exact : Decimal) : Except ArithmeticFault Decimal :=
  match policy.precision with
  | none => .ok exact
  | some precision => exact.roundToPrecision precision

/-- **An operation on decimals** under a policy. -/
def applyDecimal (operator : Operator) (policy : Policy) (a b : Decimal) :
    Except ArithmeticFault Decimal :=
  match operator with
  | add => roundResult policy (a.add b)
  | subtract => roundResult policy (a.sub b)
  | multiply => roundResult policy (a.mul b)
  | divide =>
    match policy.precision with
    | some precision => a.divideToPrecision b precision
    | none => a.divideToScale b policy.scale.toNat policy.mode

/-- **An operation on values** under a policy.  A null operand is refused before anything else is
looked at; then the left operand is coerced, then the right one, and the result must be within the
scale limit. -/
def apply (operator : Operator) (policy : Policy) (left right : Value) :
    Except Fault Decimal := do
  if left.isNull then .error (.ofNull (.leftOperand operator.symbol))
  if right.isNull then .error (.ofNull (.rightOperand operator.symbol))
  let a ← left.toDecimal
  let b ← right.toDecimal
  ((operator.applyDecimal policy a b).bind Decimal.checkScale).mapError Fault.ofArithmetic

end Operator
end DecimalExpression
