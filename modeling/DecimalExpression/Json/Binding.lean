import DecimalExpression.Evaluation.Bounded
import DecimalExpression.Evaluation.Named
import DecimalExpression.Json.Basic
import DecimalExpression.Json.Reader

/-!
# Variables from JSON

An object gives each of its names a value.  Numbers become decimals with all their digits, so
`0.1` is exactly `0.1`; arrays and objects are no values.  Of several members of one name the last
one counts.  Reading is all or nothing: the names are visited in order, and the first one whose
value cannot be used is reported.

The scale of a number is checked in 64 bits, as that of a literal is, so that reading can overflow.

This is `from_json` of an evaluation context (specification, section 18), by way of
`from_json_value` and of the conversion of one JSON value.
-/

namespace DecimalExpression

/-- **The value of a number**, which is refused where the decimal of its text is. -/
def Value.ofJsonNumber (n : JsonNumber) : Bounded.Outcome InputFault Value :=
  match Bounded.ofNumeral n.write with
  | .ok number => .ok (.decimal number)
  | .error halt => .error (halt.map fun _ => .unsupportedNumber n.write)

/-- **The value of a JSON value.** -/
def Value.ofJson : Json → Bounded.Outcome InputFault Value
  | .null => .ok .null
  | .bool truth => .ok (.bool truth)
  | .number n => Value.ofJsonNumber n
  | .string content => .ok (.text (content.getD ""))
  | .array _ => Bounded.fail .arrayValue
  | .object _ => Bounded.fail .objectValue

/-- **The value of a JSON text.** -/
def Value.ofJsonText (text : String) : Bounded.Outcome InputFault Value :=
  match Json.readStrict? text with
  | none => Bounded.fail .invalidJson
  | some json => Value.ofJson json

namespace Named

/-- A member with its value; a fault names the member. -/
def ofMember (member : String × Json) : Bounded.Outcome InputFault (String × Value) :=
  match Value.ofJson member.2 with
  | .ok value => .ok (member.1, value)
  | .error halt => .error (halt.map (InputFault.binding member.1))

/-- Entries in the order of their names. -/
def sortEntries {α : Type} (entries : List (String × α)) : List (String × α) :=
  entries.mergeSort fun a b => compare a.1 b.1 != .gt

/-- **The variables of an object**, visited in the order of their names. -/
def ofMembers (members : List (String × Json)) : Bounded.Outcome InputFault (Named Value) := do
  let values ← (sortEntries (Named.empty.setAll members).entries).mapM ofMember
  return Named.empty.setAll values

/-- **The variables of a JSON text**, which has to be an object. -/
def ofJsonText (text : String) : Bounded.Outcome InputFault (Named Value) :=
  match Json.readStrict? text with
  | none => Bounded.fail .invalidJson
  | some (.object members) =>
    match Json.namedMembers? members with
    | none => Bounded.fail .invalidJson
    | some members => ofMembers members
  | some _ => Bounded.fail .notAnObject

end Named
end DecimalExpression
