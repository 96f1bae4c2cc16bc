import DecimalExpression.Evaluation.Arithmetic
import DecimalExpression.Json.Reader

/-!
# Policies in JSON

A policy is written as an object with the members `default_scale`, `default_rounding_mode` and
`precision`, and read back from it (`Policy.write`, `Policy.ofJson?`).  On reading, a member that is
missing has its default, other members are ignored, and a member that comes up twice is refused.
An array stands for the same fields in that order; missing fields at its end have their defaults.

A precision is null, an object with both `digits` and `rounding_mode`, or an array of the two.  A
rounding mode is its name, or an object with that name for its only member and null for its value.
Numbers are plain integers within their range.

This is what section 18 of the specification says of policies: the modes are spelled `HALF_UP` and
so on, and `from_json` reads what the derived writer wrote.  The other forms are those that a
derived reader takes as well.
-/

namespace DecimalExpression

/-! ## 1. Fields -/

namespace JsonNumber

/-- The natural number of a plain integer literal without a sign. -/
def natural? (n : JsonNumber) : Option Nat :=
  if !n.negative && n.fraction.isNone && n.exponent.isNone then some (Digits.read n.whole)
  else none

end JsonNumber

namespace Json

/-- A plain integer below a bound. -/
def natBelow? (bound : Nat) : Json → Option Nat
  | number n => n.natural?.filter (· < bound)
  | _ => none

/-- **A field of an object**: nothing where a name comes up twice, and otherwise its value, if it
is there. -/
def field? (name : String) (members : List (String × Json)) : Option (Option Json) :=
  match members.filter (·.1 == name) with
  | [] => some none
  | [member] => some (some member.2)
  | _ => none

end Json

/-- **A rounding mode.** -/
def RoundingMode.ofJson? : Json → Option RoundingMode
  | .string (some name) => ofName? name
  | .object [(some name, .null)] => ofName? name
  | _ => none

/-- **A precision**, from both its fields. -/
def Precision.ofJson? : Json → Option Precision
  | .array [digits, mode] => do
    return ⟨.ofNat (← digits.natBelow? UInt64.size), ← RoundingMode.ofJson? mode⟩
  | .object members => do
    let members ← Json.namedMembers? members
    let digits ← ← Json.field? "digits" members
    let mode ← ← Json.field? "rounding_mode" members
    return ⟨.ofNat (← digits.natBelow? UInt64.size), ← RoundingMode.ofJson? mode⟩
  | _ => none

namespace Policy

/-- A precision, or null for none. -/
def precisionOfJson? : Json → Option (Option Precision)
  | .null => some none
  | json => (Precision.ofJson? json).map some

/-- The number of places. -/
def scaleOfJson? (json : Json) : Option UInt32 :=
  (json.natBelow? UInt32.size).map UInt32.ofNat

/-- The value of a field, or its default where it is missing. -/
def fieldOr {α : Type} (default : α) (read : Json → Option α) : Option Json → Option α
  | none => some default
  | some json => read json

/-! ## 2. Reading and writing -/

/-- **The policy of its fields**, some of which may be missing. -/
def ofFields? (scale mode precision : Option Json) : Option Policy := do
  return ⟨← fieldOr standard.scale scaleOfJson? scale,
    ← fieldOr standard.mode RoundingMode.ofJson? mode,
    ← fieldOr standard.precision precisionOfJson? precision⟩

/-- **The policy of a JSON value.** -/
def ofJson? : Json → Option Policy
  | .object members => do
    let members ← Json.namedMembers? members
    ofFields? (← Json.field? "default_scale" members)
      (← Json.field? "default_rounding_mode" members) (← Json.field? "precision" members)
  | .array [] => ofFields? none none none
  | .array [scale] => ofFields? (some scale) none none
  | .array [scale, mode] => ofFields? (some scale) (some mode) none
  | .array [scale, mode, precision] => ofFields? (some scale) (some mode) (some precision)
  | _ => none

/-- **The policy of a JSON text.** -/
def ofJsonText (text : String) : Except InputFault Policy :=
  match (Json.read? text).bind ofJson? with
  | some policy => .ok policy
  | none => .error .invalidJson

/-- A precision as JSON, or null for none. -/
def writePrecision : Option Precision → String
  | none => "null"
  | some p =>
    "\x7b\"digits\":" ++ String.ofList (Digits.write p.digits.toNat)
      ++ ",\"rounding_mode\":\"" ++ p.mode.name ++ "\"\x7d"

/-- **A policy as JSON**, with all its fields and no blanks. -/
def write (p : Policy) : String :=
  "\x7b\"default_scale\":" ++ String.ofList (Digits.write p.scale.toNat)
    ++ ",\"default_rounding_mode\":\"" ++ p.mode.name
    ++ "\",\"precision\":" ++ writePrecision p.precision ++ "\x7d"

end Policy
end DecimalExpression
