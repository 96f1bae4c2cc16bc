import DecimalExpression.Json.Basic
import DecimalExpression.Text.Blank
import DecimalExpression.Text.Digits

/-!
# Reading JSON

The strict grammar of JSON: no comments, no trailing commas, no leading zeros, no control
characters in strings, nothing behind the value.  Each reader gives a value and the characters
behind it, and knows that fewer are left than it was given.

`Json.read?` accepts every text of that grammar, however deep.  `Json.readStrict?` also wants a
text for every string, limits the depth and reads the numbers that are given as objects; it is the
one to use where all of the value matters.

Contexts and policies are read by it (specification, section 18).  The first wants the whole value;
the second skips what it does not know.
-/

namespace DecimalExpression
namespace Json

/-- A value and the characters behind it, of which there are fewer than `n`. -/
abbrev Left (n : Nat) (α : Type) := { found : α × List Char // found.2.length < n }

/-- The value, if no characters are behind it. -/
def Left.alone? {n : Nat} {α : Type} (found : Left n α) : Option α :=
  if found.val.2.isEmpty then some found.val.1 else none

/-- **Blanks between tokens** are the same four characters as the language's own layout. -/
def skipBlank (text : List Char) : List Char := text.dropWhile Text.isLayout

theorem skipBlank_length (text : List Char) : (skipBlank text).length ≤ text.length :=
  (List.dropWhile_sublist _).length_le

/-- What is behind the first character that is no blank. -/
theorem skipBlank_cons_length {text rest : List Char} {c : Char} (h : skipBlank text = c :: rest) :
    rest.length < text.length := by
  have shorter := skipBlank_length text
  rw [h, List.length_cons] at shorter
  omega

/-! ## 1. Numbers -/

theorem dropDigits_length (c : Char) (rest : List Char) :
    (rest.dropWhile Char.isDigit).length < (c :: rest).length :=
  Nat.lt_succ_of_le (List.dropWhile_sublist _).length_le

/-- Digits in front, at least one, and what is behind them. -/
def digits? (text : List Char) : Option (Left text.length (List Char)) :=
  match text with
  | [] => none
  | c :: rest =>
    if c.isDigit then
      some ⟨(c :: rest.takeWhile Char.isDigit, rest.dropWhile Char.isDigit),
        dropDigits_length c rest⟩
    else none

/-- The fraction in front, if a point stands there; a point without digits is no number. -/
def fraction? (text : List Char) : Option (Left (text.length + 1) (Option (List Char))) :=
  match text with
  | '.' :: rest =>
    (digits? rest).map fun found => ⟨(some found.val.1, found.val.2), by
      have := found.property
      simp only [List.length_cons]
      omega⟩
  | other => some ⟨(none, other), Nat.lt_succ_self _⟩

/-- A sign in front of an exponent: whether it is a minus, and what is behind it. -/
def exponentSign (text : List Char) : Left (text.length + 1) Bool :=
  match text with
  | '-' :: rest => ⟨(true, rest), by simp only [List.length_cons]; omega⟩
  | '+' :: rest => ⟨(false, rest), by simp only [List.length_cons]; omega⟩
  | other => ⟨(false, other), Nat.lt_succ_self _⟩

/-- The exponent in front, if its letter stands there. -/
def exponent? (text : List Char) : Option (Left (text.length + 1) (Option (Bool × List Char))) :=
  match text with
  | [] => some ⟨(none, []), by simp⟩
  | c :: rest =>
    if c = 'e' ∨ c = 'E' then
      let signed := exponentSign rest
      (digits? signed.val.2).map fun found =>
        ⟨(some (signed.val.1, found.val.1), found.val.2), by
          have := signed.property
          have := found.property
          simp only [List.length_cons]
          omega⟩
    else some ⟨(none, c :: rest), by simp⟩

/-- The whole part: zero alone, or digits that do not start with zero. -/
def whole? (text : List Char) : Option (Left text.length (List Char)) :=
  match digits? text with
  | some ⟨(['0'], rest), h⟩ => some ⟨(['0'], rest), h⟩
  | some ⟨('0' :: _ :: _, _), _⟩ => none
  | found => found

/-- **A number without its sign.** -/
def unsigned? (negative : Bool) (text : List Char) : Option (Left text.length JsonNumber) :=
  match whole? text with
  | none => none
  | some whole =>
    match fraction? whole.val.2 with
    | none => none
    | some fraction =>
      (exponent? fraction.val.2).map fun exponent =>
        ⟨(⟨negative, whole.val.1, fraction.val.1, exponent.val.1⟩, exponent.val.2), by
          have := whole.property
          have := fraction.property
          have := exponent.property
          simp only
          omega⟩

/-- **The number that a text writes**, with nothing around it, not even blanks. -/
def number? (text : List Char) : Option JsonNumber :=
  match text with
  | '-' :: rest => (unsigned? true rest).bind Left.alone?
  | other => (unsigned? false other).bind Left.alone?

/-! ## 2. Strings -/

/-- The value of a hexadecimal digit. -/
def hexValue? (c : Char) : Option Nat :=
  if c.isDigit then some (c.toNat - '0'.toNat)
  else if 'a' ≤ c ∧ c ≤ 'f' then some (c.toNat - 'a'.toNat + 10)
  else if 'A' ≤ c ∧ c ≤ 'F' then some (c.toNat - 'A'.toNat + 10)
  else none

/-- The value of four hexadecimal digits. -/
def hexUnit? (a b c d : Char) : Option Nat := do
  return (((← hexValue? a) * 16 + (← hexValue? b)) * 16 + (← hexValue? c)) * 16 + (← hexValue? d)

/-- The character that a letter escapes. -/
def escaped? : Char → Option Char
  | '"' => some '"'
  | '\\' => some '\\'
  | '/' => some '/'
  | 'b' => some '\x08'
  | 'f' => some '\x0c'
  | 'n' => some '\n'
  | 'r' => some '\r'
  | 't' => some '\t'
  | _ => none

/-- **A string from behind its opening quote**, as code points and escaped units, the last of
those read so far first. -/
def stringFrom (n : Nat) (done : List Nat) : (text : List Char) → text.length < n →
    Option (Left n (List Nat))
  | [], _ => none
  | c :: rest, h =>
    if c = '"' then some ⟨(done.reverse, rest), Nat.lt_of_succ_lt h⟩
    else if c = '\\' then
      match rest with
      | 'u' :: a :: b :: c :: d :: behind =>
        match hexUnit? a b c d with
        | none => none
        | some unit =>
          stringFrom n (unit :: done) behind (by simp only [List.length_cons] at h; omega)
      | e :: behind =>
        match escaped? e with
        | none => none
        | some c =>
          stringFrom n (c.toNat :: done) behind (by simp only [List.length_cons] at h; omega)
      | [] => none
    else if c.toNat < 0x20 then none
    else stringFrom n (c.toNat :: done) rest (by simp only [List.length_cons] at h; omega)

/-- The first half of a surrogate pair. -/
def isHighSurrogate (unit : Nat) : Bool := 0xD800 ≤ unit && unit < 0xDC00

/-- The second half of a surrogate pair. -/
def isLowSurrogate (unit : Nat) : Bool := 0xDC00 ≤ unit && unit < 0xE000

/-- **The text of code points and units**, where both halves of every surrogate pair are there. -/
def decode? : List Nat → Option (List Char)
  | [] => some []
  | [unit] =>
    if isHighSurrogate unit || isLowSurrogate unit then none else some [Char.ofNat unit]
  | high :: low :: rest =>
    if isHighSurrogate high then
      if isLowSurrogate low then
        (decode? rest).map fun text =>
          Char.ofNat (0x10000 + (high - 0xD800) * 0x400 + (low - 0xDC00)) :: text
      else none
    else if isLowSurrogate high then none
    else (decode? (low :: rest)).map fun text => Char.ofNat high :: text

/-- **A string from behind its opening quote**: its text, if it has one. -/
def string? (text : List Char) : Option (Left (text.length + 1) (Option String)) :=
  (stringFrom (text.length + 1) [] text (Nat.lt_succ_self _)).map fun found =>
    ⟨((decode? found.val.1).map String.ofList, found.val.2), found.property⟩

/-! ## 3. Values -/

/-- What is behind a word, if it stands in front. -/
def word? (word text : List Char) : Option { rest : List Char // rest.length ≤ text.length } :=
  if word.isPrefixOf text then some ⟨text.drop word.length, by simp⟩ else none

/-- The same characters left, of which there are fewer than some larger number. -/
def Left.widen {n m : Nat} {α : Type} (found : Left n α) (h : n ≤ m) : Left m α :=
  ⟨found.val, Nat.lt_of_lt_of_le found.property h⟩

/-- Another value with the same characters left. -/
def Left.give {n : Nat} {α β : Type} (found : Left n α) (value : β) : Left n β :=
  ⟨(value, found.val.2), found.property⟩

/-- **A value that is neither an array nor an object**, from its first character on. -/
def scalar? (c : Char) (rest : List Char) : Option (Left (rest.length + 1) Json) :=
  let named := fun (word : List Char) (value : Json) =>
    (word? word rest).map fun r => (⟨(value, r.val), Nat.lt_succ_of_le r.property⟩ : Left _ Json)
  if c = 'n' then named ['u', 'l', 'l'] .null
  else if c = 't' then named ['r', 'u', 'e'] (.bool true)
  else if c = 'f' then named ['a', 'l', 's', 'e'] (.bool false)
  else if c = '"' then (string? rest).map fun found => found.give (.string found.val.1)
  else if c = '-' then
    (unsigned? true rest).map fun found => (found.widen (Nat.le_succ _)).give (.number found.val.1)
  else (unsigned? false (c :: rest)).map fun found => found.give (.number found.val.1)

/-- The name of a member and the colon behind it, behind blanks. -/
def memberName? (text : List Char) : Option (Left text.length (Option String)) :=
  match h : skipBlank text with
  | '"' :: rest =>
    match string? rest with
    | none => none
    | some name =>
      match hc : skipBlank name.val.2 with
      | ':' :: behind =>
        some ⟨(name.val.1, behind), by
          have := skipBlank_cons_length h
          have := skipBlank_cons_length hc
          have := name.property
          simp only
          omega⟩
      | _ => none
  | _ => none

mutual

/-- **A value**, behind blanks. -/
def value? (text : List Char) : Option (Left text.length Json) :=
  match h : skipBlank text with
  | [] => none
  | c :: rest =>
    have shorter := skipBlank_cons_length h
    if c = '[' then
      match hc : skipBlank rest with
      | ']' :: behind =>
        some ⟨(.array [], behind), by have := skipBlank_cons_length hc; simp only; omega⟩
      | _ => (items? text.length #[] rest shorter).map fun found =>
        found.give (.array found.val.1.toList)
    else if c = '\x7b' then
      match hc : skipBlank rest with
      | '\x7d' :: behind =>
        some ⟨(.object [], behind), by have := skipBlank_cons_length hc; simp only; omega⟩
      | _ => (members? text.length #[] rest shorter).map fun found =>
        found.give (.object found.val.1.toList)
    else (scalar? c rest).map fun found => found.widen (by omega)
termination_by (text.length, 0)
decreasing_by all_goals omega

/-- **The items from one on**, behind those already read, and the bracket that closes them. -/
def items? (n : Nat) (done : Array Json) (text : List Char) (h : text.length < n) :
    Option (Left n (Array Json)) :=
  match value? text with
  | none => none
  | some item =>
    match hs : skipBlank item.val.2 with
    | ']' :: rest =>
      some ⟨(done.push item.val.1, rest), by
        have := skipBlank_cons_length hs
        have := item.property
        simp only
        omega⟩
    | ',' :: rest =>
      items? n (done.push item.val.1) rest
        (by have := skipBlank_cons_length hs; have := item.property; omega)
    | _ => none
termination_by (text.length, 1)
decreasing_by
  · exact Prod.Lex.right _ Nat.zero_lt_one
  · have := skipBlank_cons_length hs
    have := item.property
    omega

/-- **The members from one on**, behind those already read, and the brace that closes them. -/
def members? (n : Nat) (done : Array (Option String × Json)) (text : List Char)
    (h : text.length < n) : Option (Left n (Array (Option String × Json))) :=
  match memberName? text with
  | none => none
  | some name =>
    match value? name.val.2 with
    | none => none
    | some item =>
      match hs : skipBlank item.val.2 with
      | '\x7d' :: rest =>
        some ⟨(done.push (name.val.1, item.val.1), rest), by
          have := skipBlank_cons_length hs
          have := item.property
          have := name.property
          simp only
          omega⟩
      | ',' :: rest =>
        members? n (done.push (name.val.1, item.val.1)) rest
          (by
            have := skipBlank_cons_length hs
            have := item.property
            have := name.property
            omega)
      | _ => none
termination_by (text.length, 1)
decreasing_by
  · have := name.property
    omega
  · have := skipBlank_cons_length hs
    have := item.property
    have := name.property
    omega

end

/-! ## 4. Numbers given as objects

A number may also be given as an object: its only member has the reserved name `numberName`, and the
value of that member is a string that writes the number.  The name is reserved in front of an object
only; behind another member it is a name like any other. -/

/-- The name in front of an object that makes the object a number. -/
def numberName : String := "$serde_json::private::Number"

/-- Whether an object has the reserved name in front. -/
def isNumberObject : List (Option String × Json) → Bool
  | (some name, _) :: _ => name == numberName
  | _ => false

/-- The number of an object with the reserved name in front: there is no other member, and the
value is a string that writes a number. -/
def objectNumber? : List (Option String × Json) → Option JsonNumber
  | [(_, string (some text))] => number? text.toList
  | _ => none

/-- **A value with the numbers that it gives as objects**, if each of them is a number. -/
def readNumbers? : Json → Option Json
  | array items => do
    return array (← items.attach.mapM fun item => readNumbers? item.val)
  | object members =>
    if isNumberObject members then (objectNumber? members).map number
    else do
      return object (← members.attach.mapM fun member =>
        (readNumbers? member.val.2).map fun value => (member.val.1, value))
  | json => some json
decreasing_by
  · have := List.sizeOf_lt_of_mem item.property
    simp only [array.sizeOf_spec]
    omega
  · have := List.sizeOf_lt_of_mem member.property
    have : sizeOf member.val.2 < sizeOf member.val := by
      rcases member with ⟨⟨_, _⟩, _⟩
      simp only [Prod.mk.sizeOf_spec]
      omega
    simp only [object.sizeOf_spec]
    omega

/-! ## 5. Whole texts -/

/-- **A JSON text**: one value, with nothing but blanks behind it. -/
def read? (text : String) : Option Json :=
  match value? text.toList with
  | none => none
  | some found => if (skipBlank found.val.2).isEmpty then some found.val.1 else none

/-- The deepest value that `readStrict?` accepts. -/
def depthLimit : Nat := 127

/-- **A JSON text all of whose value matters**: every string has a text, the depth is limited, and
the numbers that are given as objects are read. -/
def readStrict? (text : String) : Option Json :=
  ((read? text).filter fun json => json.hasTexts && json.depth ≤ depthLimit).bind readNumbers?

end Json
end DecimalExpression
