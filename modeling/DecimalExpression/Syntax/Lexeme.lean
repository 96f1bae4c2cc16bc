import DecimalExpression.Text.Blank

/-!
# Lexemes

The tokens of a source that are read character by character: identifiers, number literals, texts
in quotes and fixed tokens.  Each reader looks at the characters that are left and, if a lexeme
stands in front, hands back its characters together with a proof that they are not empty and that,
with the rest, they are all there was (`Lexeme.split`).  Nothing is skipped here: layout between
tokens is the business of the grammar.

The readers are `identifier`, `scientific`, `string_literal`, and `terminal` for fixed tokens
(specification, section 10).  `numeral` reads no token: it is the scan by which a report of a
literal out of range finds the text it shows.
-/

namespace DecimalExpression

/-- **A lexeme in front of `source`**, and what is left behind it. -/
structure Lexeme (source : List Char) where
  text : List Char
  rest : List Char
  split : text ++ rest = source
  nonempty : text ≠ []

namespace Lexeme

/-! ## 1. Fixed tokens -/

/-- What is left behind `token`, if the source starts with it. -/
def dropToken? : (token source : List Char) → Option { rest // token ++ rest = source }
  | [], source => some ⟨source, rfl⟩
  | _ :: _, [] => none
  | t :: token, c :: source =>
    if h : t = c then
      (dropToken? token source).map fun rest =>
        ⟨rest.val, by rw [List.cons_append, rest.property, h]⟩
    else none

/-- **A fixed token**: the first of `tokens` that the source starts with. -/
def token? (source : List Char) : (tokens : List (List Char)) → Option (Lexeme source)
  | [] => none
  | [] :: tokens => token? source tokens
  | (t :: token) :: tokens =>
    match dropToken? (t :: token) source with
    | some rest => some ⟨t :: token, rest.val, rest.property, List.cons_ne_nil _ _⟩
    | none => token? source tokens

/-! ## 2. Identifiers -/

/-- Letters of the Latin alphabet, the underscore and the dollar sign start a name. -/
def isNameStart (c : Char) : Bool :=
  c.isAlpha || c = '_' || c = '$'

/-- What goes on in a name: digits too. -/
def isNamePart (c : Char) : Bool :=
  isNameStart c || c.isDigit

/-- **An identifier.** -/
def identifier? : (source : List Char) → Option (Lexeme source)
  | [] => none
  | c :: source =>
    if isNameStart c then
      some ⟨c :: source.takeWhile isNamePart, source.dropWhile isNamePart,
        by rw [List.cons_append, List.takeWhile_append_dropWhile], List.cons_ne_nil _ _⟩
    else none

/-! ## 3. Number literals -/

/-- The digits in front, and the rest. -/
def digits (source : List Char) : List Char × List Char :=
  (source.takeWhile Char.isDigit, source.dropWhile Char.isDigit)

theorem digits_split (source : List Char) : (digits source).1 ++ (digits source).2 = source :=
  List.takeWhile_append_dropWhile

/-- A mantissa: digits with or without a point behind or between them, or a point with digits
behind it. -/
def mantissa? (source : List Char) : Option (Lexeme source) :=
  match hw : digits source with
  | ([], '.' :: rest) =>
    match hf : digits rest with
    | ([], _) => none
    | (f :: fraction, rest') =>
      some ⟨'.' :: f :: fraction, rest', by
        have whole := digits_split source
        have tail := digits_split rest
        rw [hw] at whole
        rw [hf] at tail
        simp_all, List.cons_ne_nil _ _⟩
  | ([], _) => none
  | (w :: whole, '.' :: rest) =>
    some ⟨(w :: whole) ++ '.' :: (digits rest).1, (digits rest).2, by
      have split := digits_split source
      rw [hw] at split
      rw [List.append_assoc, ← split]
      exact congrArg (fun tail => w :: whole ++ '.' :: tail) (digits_split rest),
      by simp⟩
  | (w :: whole, rest) =>
    some ⟨w :: whole, rest, by
      have split := digits_split source
      rwa [hw] at split, List.cons_ne_nil _ _⟩

/-- The sign in front, if there is one, and the rest. -/
def sign : List Char → List Char × List Char
  | '+' :: rest => (['+'], rest)
  | '-' :: rest => (['-'], rest)
  | rest => ([], rest)

theorem sign_split (source : List Char) : (sign source).1 ++ (sign source).2 = source := by
  unfold sign
  split <;> rfl

/-- An exponent, if one stands in front: the letter, an optional sign and digits. -/
def exponent (source : List Char) : List Char × List Char :=
  match source with
  | [] => ([], [])
  | c :: rest =>
    if c = 'e' ∨ c = 'E' then
      match digits (sign rest).2 with
      | ([], _) => ([], source)
      | (d :: more, rest') => (c :: (sign rest).1 ++ d :: more, rest')
    else ([], source)

theorem exponent_split (source : List Char) :
    (exponent source).1 ++ (exponent source).2 = source := by
  unfold exponent
  split
  · rfl
  · rename_i c rest
    split
    · split
      · rfl
      · rename_i d more rest' hd
        have tail := digits_split (sign rest).2
        rw [hd] at tail
        calc c :: (sign rest).1 ++ d :: more ++ rest'
            = c :: ((sign rest).1 ++ (d :: more ++ rest')) := by simp
          _ = c :: rest := by rw [tail, sign_split]
    · rfl

/-- **A number literal**: a mantissa and an optional exponent, without a sign in front. -/
def number? (source : List Char) : Option (Lexeme source) :=
  (mantissa? source).map fun mantissa =>
    ⟨mantissa.text ++ (exponent mantissa.rest).1, (exponent mantissa.rest).2,
      by rw [List.append_assoc, exponent_split, mantissa.split],
      by simp [mantissa.nonempty]⟩

/-! ## 4. Texts in quotes -/

/-- What stands in front as a text in quotes. -/
inductive Quoted (source : List Char) where
  /-- no quote in front -/
  | absent
  /-- a quote without a second one behind it -/
  | unclosed
  /-- the text with both its quotes -/
  | closed (lexeme : Lexeme source)

/-- **A text in quotes.**  All characters but the quote may stand in it, and there are no
escapes. -/
def quoted : (source : List Char) → Quoted source
  | [] => .absent
  | c :: source =>
    if c = '"' then
      match h : source.dropWhile (· ≠ '"') with
      | [] => .unclosed
      | close :: rest =>
        .closed ⟨c :: source.takeWhile (· ≠ '"') ++ [close], rest, by
          have split := List.takeWhile_append_dropWhile (p := (· ≠ '"')) (l := source)
          rw [h] at split
          simpa using split, List.cons_ne_nil _ _⟩
    else .absent

/-! ## 5. The numeral a report quotes -/

/-- Whether a character goes on a numeral that a report quotes: letters, digits and points, and a
sign directly behind the exponent letter. -/
def continuesNumeral (previous : Char) (c : Char) : Bool :=
  c.isAlphanum || c = '.'
    || ((c = '+' || c = '-') && (previous = 'e' || previous = 'E'))

/-- The longest numeral that goes on behind `previous`. -/
def numeralFrom (previous : Char) : List Char → List Char
  | [] => []
  | c :: rest => if continuesNumeral previous c then c :: numeralFrom c rest else []

/-- **The numeral a report quotes**: more than the literal itself, up to the first character that
could not stand in one. -/
def numeral (source : List Char) : List Char :=
  numeralFrom ' ' source

end Lexeme
end DecimalExpression
