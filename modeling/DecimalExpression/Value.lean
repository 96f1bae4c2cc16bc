import DecimalExpression.Decimal.Written

/-!
# Values

What an expression evaluates to: nothing, a truth value, a decimal or a text.  Values of different
kinds are never equal and never ordered; decimals are compared as numbers (`1.0` and `1.00` are
equal), texts by code points, and false comes before true.

The kinds, equality and order are those of section 13 of the specification; `compare?` is `compare`,
and `typeName` the `type_name` that reports use.
-/

namespace DecimalExpression

/-- **A value.**  `null` is the absent one, such as that of an unbound variable. -/
inductive Value where
  | null
  | bool (truth : Bool)
  | decimal (number : Decimal)
  | text (content : String)
deriving DecidableEq, Repr, Inhabited

namespace Value

/-! ## 1. Parts -/

def isNull : Value → Bool
  | null => true
  | _ => false

def asBool? : Value → Option Bool
  | bool truth => some truth
  | _ => none

def asDecimal? : Value → Option Decimal
  | decimal number => some number
  | _ => none

def asText? : Value → Option String
  | text content => some content
  | _ => none

/-- The name of a value's kind, as reports use it. -/
def typeName : Value → String
  | null => "null"
  | bool _ => "boolean"
  | decimal _ => "decimal"
  | text _ => "string"

/-- **The text of a value.** -/
def write : Value → String
  | null => "null"
  | bool true => "true"
  | bool false => "false"
  | decimal number => number.write
  | text content => content

/-- An integer as a value. -/
def ofInt (n : Int) : Value := decimal (.ofInt n)

/-! ## 2. Comparison -/

/-- **The order of two values**, where they are of one kind that has an order. -/
def compare? : Value → Value → Option Ordering
  | decimal a, decimal b => some (a.compare b)
  | text a, text b => some (compare a b)
  | bool a, bool b => some (compare a.toNat b.toNat)
  | _, _ => none

/-- **Equality of values**: numeric for decimals, literal otherwise. -/
def equals : Value → Value → Bool
  | null, null => true
  | bool a, bool b => a == b
  | decimal a, decimal b => a.compare b == .eq
  | text a, text b => a == b
  | _, _ => false

end Value
end DecimalExpression
