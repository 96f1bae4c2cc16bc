import DecimalExpression.Decimal.Division
import DecimalExpression.Evaluation.Named
import DecimalExpression.Json.Reader
import DecimalExpression.Json.Sentence
import DecimalExpression.Value

/-!
# What JSON means

A number stands for all its digits at a scale, as a literal does (`JsonNumber.decimal`), and null,
truth values, strings and numbers within the scale limit are values (`Json.Means`).  Of several
members of one name the last one counts (`Named.IsLast`).

A strict text spells a value whose strings all have texts and whose depth is limited; then the
numbers that are given as objects are read (`Json.IsStrict`).  In a plain value there are none
(`Json.IsPlain`).

It is what section 18 of the specification promises of a context, said without a reader.
-/

namespace DecimalExpression

namespace JsonNumber

/-- All digits in front of the exponent. -/
def digits (n : JsonNumber) : List Char := n.whole ++ n.fraction.getD []

/-- The number that an exponent stands for. -/
def power (n : JsonNumber) : Int :=
  match n.exponent with
  | none => 0
  | some (true, digits) => -(Digits.read digits : Int)
  | some (false, digits) => Digits.read digits

/-- **The scale of a number**: the places behind its point less its exponent. -/
def scale (n : JsonNumber) : Int := (n.fraction.getD []).length - n.power

/-- The integer of all digits, with the sign. -/
def unscaled (n : JsonNumber) : Int :=
  if n.negative then -(Digits.read n.digits : Int) else Digits.read n.digits

/-- **The decimal of a number**: all its digits, at its scale. -/
def decimal (n : JsonNumber) : Decimal := ⟨n.unscaled, n.scale⟩

end JsonNumber

/-- **The last entry of a name** has this content. -/
def Named.IsLast {α : Type} (entries : List (String × α)) (name : String) (content : α) : Prop :=
  ∃ front back, entries = front ++ (name, content) :: back ∧ ∀ entry ∈ back, entry.1 ≠ name

namespace Json

/-- **What a value means**, if it means one: arrays and objects mean none, and neither do numbers
beyond the scale limit. -/
inductive Means : Json → Value → Prop
  | null : Means .null .null
  | bool (truth : Bool) : Means (.bool truth) (.bool truth)
  | number {n : JsonNumber} (within : n.scale.natAbs ≤ scaleLimit) :
    Means (.number n) (.decimal n.decimal)
  | text (content : String) : Means (.string (some content)) (.text content)

/-- **A plain value**: no object in it has the reserved name in front. -/
inductive IsPlain : Json → Prop
  | null : IsPlain .null
  | bool (truth : Bool) : IsPlain (.bool truth)
  | number (n : JsonNumber) : IsPlain (.number n)
  | string (content : Option String) : IsPlain (.string content)
  | array {items : List Json} (each : ∀ item ∈ items, IsPlain item) : IsPlain (.array items)
  | object {members : List (Option String × Json)} (front : isNumberObject members = false)
    (each : ∀ member ∈ members, IsPlain member.2) : IsPlain (.object members)

/-- **A strict text of a value.** -/
def IsStrict (text : String) (json : Json) : Prop :=
  ∃ spelled, SpellsText text spelled ∧ spelled.hasTexts ∧ spelled.depth ≤ depthLimit ∧
    readNumbers? spelled = some json

/-- Members whose names have texts. -/
def named (members : List (String × Json)) : List (Option String × Json) :=
  members.map fun member => (some member.1, member.2)

/-- **A strict text of an object.** -/
def IsStrictObject (text : String) (members : List (String × Json)) : Prop :=
  IsStrict text (.object (named members))

end Json
end DecimalExpression
