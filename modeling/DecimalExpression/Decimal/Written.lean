import DecimalExpression.Decimal.Basic

/-!
# Decimals in writing

`Decimal.read` takes a text to a decimal and keeps its scale: the places after the point less the
exponent.  `Decimal.write` chooses between three forms: plain digits, `d.dddE-n` for a number that
would need more than five zeros behind its point, and `dddE+n` with a small `e` for an integer that
would need more than fifteen zeros behind its digits.

The reading is generous where plain numerals are not: an underscore may stand between digits, a
point may end the text, and a sign may stand in front.  It looks for faults in a fixed order, the
exponent first, then a missing mantissa, then the range of the scale, and the digits last.

Reading is what `parse_literal` and `to_decimal` do to a text before they check its scale, and
writing is the text form of a decimal value, which `stringContainsAny` searches (specification,
section 13).
-/

namespace DecimalExpression

/-! ## 1. Why a text is no decimal -/

/-- **Why a text is no decimal.** -/
inductive Unreadable where
  /-- nothing stands in front of the exponent -/
  | noMantissa
  /-- an integer without any digits -/
  | noDigits
  /-- a character that is no digit, where a digit has to stand -/
  | notADigit
  /-- the exponent is beyond `Decimal.largestExponent` -/
  | exponentTooLarge
  /-- the exponent is below its least value, which is one further from zero -/
  | exponentTooSmall
  /-- the scale of the whole text is no 64-bit integer -/
  | scaleOverflow (text : String)
deriving DecidableEq, Repr

namespace Unreadable

def message : Unreadable → String
  | noMantissa => "Failed to parse empty string"
  | noDigits => "cannot parse integer from empty string"
  | notADigit => "invalid digit found in string"
  | exponentTooLarge => "number too large to fit in target type"
  | exponentTooSmall => "number too small to fit in target type"
  | scaleOverflow text => s!"Exponent overflow when parsing '{text}'"

end Unreadable

namespace Decimal

/-! ## 2. Reading -/

/-- The digits of an exponent, refused at the first character that is no digit or makes the
number exceed `limit`. -/
def readBounded (limit : Nat) (excess : Unreadable) : (number : Nat) → List Char →
    Except Unreadable Nat
  | number, [] => .ok number
  | number, c :: rest =>
    if !c.isDigit then .error .notADigit
    else
      let next := 10 * number + Digits.value c
      if limit < next then .error excess
      else readBounded limit excess next rest

/-- The largest exponent that is read, `2 ^ 127 - 1`; the least one is `-2 ^ 127`. -/
def largestExponent : Nat := (1 <<< 127) - 1

/-- **An exponent**: one optional sign, then digits, within 128-bit integers. -/
def readExponent : List Char → Except Unreadable Int
  | [] => .error .noDigits
  | ['+'] | ['-'] => .error .notADigit
  | '+' :: digits => (readBounded largestExponent .exponentTooLarge 0 digits).map Int.ofNat
  | '-' :: digits =>
    (readBounded (largestExponent + 1) .exponentTooSmall 0 digits).map fun n => -(n : Int)
  | digits => (readBounded largestExponent .exponentTooLarge 0 digits).map Int.ofNat

/-- The mantissa in front of the exponent letter, and what follows that letter, if it is there. -/
def splitExponent (text : List Char) : List Char × Option (List Char) :=
  match text.dropWhile (fun c => !(c = 'e' || c = 'E')) with
  | [] => (text, none)
  | _ :: exponent => (text.takeWhile (fun c => !(c = 'e' || c = 'E')), some exponent)

/-- The mantissa without its first point, and the number of places behind that point.
Underscores are no places. -/
def splitPoint (mantissa : List Char) : List Char × Nat :=
  match mantissa.dropWhile (· ≠ '.') with
  | [] => (mantissa, 0)
  | _ :: fraction =>
    (mantissa.takeWhile (· ≠ '.') ++ fraction, (fraction.filter (· ≠ '_')).length)

/-- **Digits with underscores between them**; a digit comes first. -/
def readDigits (text : List Char) : Except Unreadable Nat :=
  if text.isEmpty then .error .noDigits
  else if text.head? = some '_' then .error .notADigit
  else
    let digits := text.filter (· ≠ '_')
    if digits.all Char.isDigit then .ok (Digits.read digits) else .error .notADigit

/-- A plus sign in front is dropped, unless a second one follows. -/
def dropPlus : List Char → List Char
  | '+' :: '+' :: rest => '+' :: '+' :: rest
  | '+' :: rest => rest
  | text => text

/-- **An integer**: digits behind at most one sign. -/
def readInteger : List Char → Except Unreadable Int
  | '-' :: '+' :: _ => .error .notADigit
  | '-' :: rest => (readDigits (dropPlus rest)).map fun n => -(n : Int)
  | text => (readDigits (dropPlus text)).map Int.ofNat

/-- Whether a scale is a signed 64-bit integer. -/
def scaleFits (scale : Int) : Bool :=
  -9223372036854775808 ≤ scale && scale ≤ 9223372036854775807

/-- **A decimal from its characters.**  The exponent is read first, then the mantissa must not be
empty, then the scale must fit, and the digits are read last. -/
def readChars (text : List Char) : Except Unreadable Decimal := do
  let (mantissa, exponentText) := splitExponent text
  let exponent ← match exponentText with
    | none => .ok 0
    | some digits => readExponent digits
  if mantissa.isEmpty then .error .noMantissa
  let (digits, places) := splitPoint mantissa
  let scale := (places : Int) - exponent
  if !scaleFits scale then .error (.scaleOverflow (String.ofList text))
  let unscaled ← readInteger digits
  return ⟨unscaled, scale⟩

/-- **A decimal from its text**, with the scale it is written at. -/
def read (text : String) : Except Unreadable Decimal :=
  readChars text.toList

/-! ## 3. Writing -/

/-- The fewest zeros behind the point that make the form `d.dddE-n`, less one. -/
def leadingZeroLimit : Int := 5

/-- The most zeros written behind the digits of an integer. -/
def trailingZeroLimit : Int := 15

/-- `d.dddE-n`: one digit in front of the point, and no point behind a single digit. -/
def writeSmall (digits : List Char) (scale : Int) : List Char :=
  let exponent := (digits.length : Int) - 1 - scale
  let sign := if exponent < 0 then '-' else '+'
  let mantissa := match digits with
    | first :: second :: rest => first :: '.' :: second :: rest
    | short => short
  mantissa ++ 'E' :: sign :: Digits.write exponent.natAbs

/-- `ddde+n`: the digits, and the number of zeros that would follow them. -/
def writeLarge (digits : List Char) (scale : Int) : List Char :=
  digits ++ 'e' :: '+' :: Digits.write scale.natAbs

/-- Plain digits: zeros behind an integer of negative scale, or a point with as many places as
the scale says. -/
def writePlain (digits : List Char) (scale : Int) : List Char :=
  if scale ≤ 0 then digits ++ List.replicate scale.natAbs '0'
  else
    let places := scale.natAbs
    if digits.length ≤ places then
      '0' :: '.' :: (List.replicate (places - digits.length) '0' ++ digits)
    else
      digits.take (digits.length - places) ++ '.' :: digits.drop (digits.length - places)

/-- **The text of a decimal**, as characters.  Zero is `0` at every scale. -/
def writeChars (d : Decimal) : List Char :=
  let digits := Digits.write d.unscaled.natAbs
  let scale := if d.isZero then 0 else d.scale
  let unsigned :=
    if leadingZeroLimit < scale - digits.length then writeSmall digits scale
    else if trailingZeroLimit < -scale then writeLarge digits scale
    else writePlain digits scale
  if d.unscaled < 0 then '-' :: unsigned else unsigned

/-- **The text of a decimal.** -/
def write (d : Decimal) : String :=
  String.ofList d.writeChars

end Decimal
end DecimalExpression
