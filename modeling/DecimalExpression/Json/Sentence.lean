import DecimalExpression.Json.Basic
import DecimalExpression.Json.Reader

/-!
# The sentences of JSON

Which texts spell a JSON value, said without a reader: the grammar of numbers, of strings with their
escapes, of arrays and of objects, with blanks around every token (`Json.Spells`).  A text spells
one value at most, but a value has many texts: blanks, escapes and the letter and sign of an
exponent are free.

What a string stands for is said in two steps.  Its characters and escapes give units, and the units
are those of a text, where a pair of surrogates is one character (`Json.Encodes`).  A string with
half of a pair is a sentence that stands for no text.

The grammar is the standard one of JSON, and the reader in `DecimalExpression.Json.Reader` is
measured by it.
-/

namespace DecimalExpression

/-! ## 1. Numbers -/

namespace JsonNumber

/-- Digits, at least one. -/
def IsDigits (text : List Char) : Prop := text ≠ [] ∧ ∀ c ∈ text, c.isDigit

/-- **A number that JSON can spell.**  Zero is the only whole part that starts with zero, and where
there is a point or an exponent, there are digits behind it. -/
structure IsStrict (n : JsonNumber) : Prop where
  whole : IsDigits n.whole
  noLeadingZero : n.whole.head? = some '0' → n.whole = ['0']
  fraction : ∀ digits ∈ n.fraction, IsDigits digits
  exponent : ∀ e ∈ n.exponent, IsDigits e.2

/-- The minus in front of a negative number. -/
def sign (n : JsonNumber) : List Char := if n.negative then ['-'] else []

/-- The point and the digits behind it. -/
def pointed : Option (List Char) → List Char
  | none => []
  | some digits => '.' :: digits

/-- **The texts of an exponent.**  The letter may be small or not, and a plus need not be there. -/
inductive SpellsExponent : List Char → Option (Bool × List Char) → Prop
  | absent : SpellsExponent [] none
  | unsigned {letter : Char} (isLetter : letter = 'e' ∨ letter = 'E') (digits : List Char) :
    SpellsExponent (letter :: digits) (some (false, digits))
  | plus {letter : Char} (isLetter : letter = 'e' ∨ letter = 'E') (digits : List Char) :
    SpellsExponent (letter :: '+' :: digits) (some (false, digits))
  | minus {letter : Char} (isLetter : letter = 'e' ∨ letter = 'E') (digits : List Char) :
    SpellsExponent (letter :: '-' :: digits) (some (true, digits))

/-- **The texts of a number.** -/
def Spells (text : List Char) (n : JsonNumber) : Prop :=
  n.IsStrict ∧ ∃ power, SpellsExponent power n.exponent ∧
    text = n.sign ++ n.whole ++ pointed n.fraction ++ power

end JsonNumber

namespace Json

/-! ## 2. Strings -/

/-- **What may stand between two quotes**, and the units that it stands for. -/
inductive SpellsUnits : List Char → List Nat → Prop
  | nil : SpellsUnits [] []
  | plain {c : Char} (noQuote : c ≠ '"') (noEscape : c ≠ '\\') (noControl : 0x20 ≤ c.toNat)
    {text : List Char} {units : List Nat} (rest : SpellsUnits text units) :
    SpellsUnits (c :: text) (c.toNat :: units)
  | escape {letter c : Char} (escapes : escaped? letter = some c)
    {text : List Char} {units : List Nat} (rest : SpellsUnits text units) :
    SpellsUnits ('\\' :: letter :: text) (c.toNat :: units)
  | hex {a b c d : Char} {unit : Nat} (value : hexUnit? a b c d = some unit)
    {text : List Char} {units : List Nat} (rest : SpellsUnits text units) :
    SpellsUnits ('\\' :: 'u' :: a :: b :: c :: d :: text) (unit :: units)

/-- **The units of a text**: the code point of a character, or two surrogates. -/
inductive Encodes : List Nat → List Char → Prop
  | nil : Encodes [] []
  | single (c : Char) {units : List Nat} {text : List Char} (rest : Encodes units text) :
    Encodes (c.toNat :: units) (c :: text)
  | pair {high low : Nat} (isHigh : isHighSurrogate high) (isLow : isLowSurrogate low) {c : Char}
    (codePoint : c.toNat = 0x10000 + (high - 0xD800) * 0x400 + (low - 0xDC00))
    {units : List Nat} {text : List Char} (rest : Encodes units text) :
    Encodes (high :: low :: units) (c :: text)

/-- **What stands between the quotes of a string**, and the text that the string stands for, if
any. -/
def SpellsString (chars : List Char) (content : Option String) : Prop :=
  ∃ units, SpellsUnits chars units ∧ ∀ text, content = some text ↔ Encodes units text.toList

/-! ## 3. Values -/

/-- **Blanks**, perhaps none. -/
def IsBlank (text : List Char) : Prop := ∀ c ∈ text, Text.isLayout c

/-- **Words in a row**: one at least, with commas between them and blanks around them. -/
inductive Row : List (List Char) → List Char → Prop
  | last {before word behind : List Char} (atFront : IsBlank before) (atEnd : IsBlank behind) :
    Row [word] (before ++ word ++ behind)
  | more {before word behind : List Char} (atFront : IsBlank before) (atEnd : IsBlank behind)
    {words : List (List Char)} {text : List Char} (rest : Row words text) :
    Row (word :: words) (before ++ word ++ behind ++ ',' :: text)

/-- **A member of an object as it is spelled**: what stands between the quotes of its name, the
blanks on both sides of the colon, and the text of its value. -/
structure Member where
  name : List Char
  before : List Char
  behind : List Char
  text : List Char
  content : Option String
  value : Json

namespace Member

/-- The characters of a member. -/
def chars (m : Member) : List Char :=
  '"' :: m.name ++ '"' :: m.before ++ ':' :: m.behind ++ m.text

/-- The name is spelled as it is, and blanks are blank. -/
structure IsNamed (m : Member) : Prop where
  name : SpellsString m.name m.content
  before : IsBlank m.before
  behind : IsBlank m.behind

/-- The member of the object. -/
def entry (m : Member) : Option String × Json := (m.content, m.value)

end Member

/-- **The texts of a value.** -/
inductive Spells : List Char → Json → Prop
  | null : Spells ['n', 'u', 'l', 'l'] .null
  | isTrue : Spells ['t', 'r', 'u', 'e'] (.bool true)
  | isFalse : Spells ['f', 'a', 'l', 's', 'e'] (.bool false)
  | number {text : List Char} {n : JsonNumber} (spells : n.Spells text) : Spells text (.number n)
  | string {chars : List Char} {content : Option String} (spells : SpellsString chars content) :
    Spells ('"' :: chars ++ ['"']) (.string content)
  | emptyArray {gap : List Char} (blank : IsBlank gap) : Spells ('[' :: gap ++ [']']) (.array [])
  | array {items : List (List Char × Json)} (each : ∀ item ∈ items, Spells item.1 item.2)
    {text : List Char} (row : Row (items.map (·.1)) text) :
    Spells ('[' :: text ++ [']']) (.array (items.map (·.2)))
  | emptyObject {gap : List Char} (blank : IsBlank gap) :
    Spells ('\x7b' :: gap ++ ['\x7d']) (.object [])
  | object {members : List Member} (each : ∀ m ∈ members, Spells m.text m.value)
    (named : ∀ m ∈ members, m.IsNamed) {text : List Char}
    (row : Row (members.map Member.chars) text) :
    Spells ('\x7b' :: text ++ ['\x7d']) (.object (members.map Member.entry))

/-- **The JSON texts of a value**: one of its texts, with blanks around it. -/
def SpellsText (text : String) (json : Json) : Prop :=
  ∃ before word behind, IsBlank before ∧ IsBlank behind ∧ Spells word json ∧
    text.toList = before ++ word ++ behind

end Json
end DecimalExpression
