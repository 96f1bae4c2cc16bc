import DecimalExpression.Proofs.Decimal.Number
import DecimalExpression.Proofs.Decimal.Overflow
import DecimalExpression.Proofs.Syntax.Words
import Mathlib

/-!
# What a numeral says

A numeral is digits with or without a point, and perhaps an exponent (`Numeral`).  Its digits
without the point are its unscaled integer, and the places behind the point less the exponent are
its scale.

Reading the text of a numeral gives that decimal, unless the scale is no integer of 64 bits
(`Numeral.readChars_eq_ok_iff`), and a minus in front makes it negative
(`Numeral.readChars_minus_eq_ok_iff`).  So the literal is accepted exactly if the scale is within
the limit (`Numeral.ofNumeral_eq_ok_iff`), however far beyond any machine integer the exponent is.
-/

namespace DecimalExpression

/-! ## 1. Numerals

The parts of a numeral are kept as they are written, with a proof that they may stand there.  What
it says is computed from the parts without a reader, so that a reader can be compared with it. -/

/-- **The exponent of a numeral**: a letter, perhaps a sign, and digits. -/
structure Numeral.Exponent where
  letter : Char
  sign : Option Char
  digits : List Char
  isLetter : letter = 'e' ∨ letter = 'E'
  isSign : ∀ c ∈ sign, c = '+' ∨ c = '-'
  allDigits : ∀ c ∈ digits, c.isDigit
  nonempty : digits ≠ []

/-- **A numeral**: digits, then perhaps a point with digits behind it, then perhaps an exponent.
One side of the point may be empty. -/
structure Numeral where
  whole : List Char
  fraction : Option (List Char)
  exponent : Option Numeral.Exponent
  wholeDigits : ∀ c ∈ whole, c.isDigit
  fractionDigits : ∀ digits ∈ fraction, ∀ c ∈ digits, c.isDigit
  nonempty : whole ≠ [] ∨ ∃ digits ∈ fraction, digits ≠ []

namespace Numeral

/-- What stands behind the letter of an exponent. -/
def Exponent.power (e : Exponent) : List Char := e.sign.toList ++ e.digits

/-- **The number an exponent stands for.** -/
def Exponent.value (e : Exponent) : Int :=
  if e.sign = some '-' then -(Digits.read e.digits : Int) else Digits.read e.digits

/-- The characters in front of the exponent. -/
def mantissa (n : Numeral) : List Char :=
  n.whole ++ n.fraction.elim [] fun digits => '.' :: digits

/-- **The characters of a numeral.** -/
def chars (n : Numeral) : List Char :=
  n.mantissa ++ n.exponent.elim [] fun e => e.letter :: e.power

/-- The text of a numeral. -/
def text (n : Numeral) : String := String.ofList n.chars

/-- All digits of the mantissa. -/
def digits (n : Numeral) : List Char := n.whole ++ n.fraction.getD []

/-- The number of digits behind the point. -/
def places (n : Numeral) : Nat := (n.fraction.getD []).length

/-- **The scale of a numeral**: the places behind its point less its exponent. -/
def scale (n : Numeral) : Int := n.places - n.exponent.elim 0 Exponent.value

/-- **The decimal of a numeral**: the number that all its digits stand for, at its scale. -/
def decimal (n : Numeral) : Decimal := ⟨Digits.read n.digits, n.scale⟩

variable {e : Exponent} {n : Numeral} {d : Decimal}

/-! ## 2. Numerals are the words for numbers

The grammar describes number tokens as words with certain parts.  A numeral has these parts by
construction, and a word for a number can be taken apart into them; so statements about all literals
are statements about all numerals. -/

theorem isDigits_iff {text : List Char} :
    Word.isDigits text ↔ text ≠ [] ∧ ∀ c ∈ text, c.isDigit := by
  simp [Word.isDigits]

theorem not_isSign_of_isDigit {c : Char} (digit : c.isDigit) : ¬ (c = '+' ∨ c = '-') := by
  rintro (rfl | rfl) <;> cases digit

theorem isExponent_power (e : Exponent) : Word.isExponent e.power := by
  obtain ⟨letter, sign, digits, isLetter, isSign, allDigits, nonempty⟩ := e
  cases sign with
  | some c =>
    simpa [Exponent.power, Word.isExponent, isSign c rfl] using isDigits_iff.mpr
      ⟨nonempty, allDigits⟩
  | none =>
    obtain ⟨c, more, rfl⟩ := List.exists_cons_of_ne_nil nonempty
    have noSign := not_isSign_of_isDigit (allDigits c List.mem_cons_self)
    simpa [Exponent.power, Word.isExponent, noSign] using isDigits_iff.mpr ⟨nonempty, allDigits⟩

theorem isMantissa_mantissa (n : Numeral) : Word.isMantissa n.mantissa := by
  obtain ⟨whole, fraction, exponent, wholeDigits, fractionDigits, nonempty⟩ := n
  cases fraction with
  | none =>
    have some : whole ≠ [] := nonempty.resolve_right (by simp)
    simpa [mantissa] using Lexeme.isMantissa_of_digits some wholeDigits
  | some digits =>
    exact Lexeme.isMantissa_of_point wholeDigits (fractionDigits digits rfl)
      (by simpa using nonempty)

/-- **A numeral is a word for a number.** -/
theorem isNumeral_chars (n : Numeral) : Word.isNumeral n.chars := by
  rw [Lexeme.isNumeral_iff, chars]
  cases n.exponent with
  | none => exact .inl (by simpa using n.isMantissa_mantissa)
  | some e => exact .inr ⟨_, _, _, rfl, n.isMantissa_mantissa, e.isLetter, isExponent_power e⟩

/-- A mantissa is one of a numeral, with any exponent. -/
theorem exists_of_isMantissa {word : List Char} (isMantissa : Word.isMantissa word)
    (exponent : Option Exponent) :
    ∃ n : Numeral, n.mantissa = word ∧ n.exponent = exponent := by
  rcases Lexeme.isMantissa_iff.mp isMantissa with
    ⟨some, digits⟩ | ⟨whole, fraction, rfl, atWhole, atFraction, some⟩
  · exact ⟨⟨word, none, exponent, digits, by rintro _ ⟨⟩, .inl some⟩, List.append_nil _, rfl⟩
  · exact ⟨⟨whole, Option.some fraction, exponent, atWhole, by rintro _ ⟨⟩; exact atFraction,
      some.imp_right fun some => ⟨fraction, rfl, some⟩⟩, rfl, rfl⟩

theorem exists_of_isExponent {letter : Char} {power : List Char}
    (isLetter : letter = 'e' ∨ letter = 'E')
    (isExponent : Word.isExponent power) : ∃ e : Exponent, e.letter = letter ∧ e.power = power := by
  cases power with
  | nil => cases isExponent
  | cons c rest =>
    rw [Word.isExponent] at isExponent
    split at isExponent
    · rename_i sign
      obtain ⟨some, digits⟩ := isDigits_iff.mp isExponent
      exact ⟨⟨letter, Option.some c, rest, isLetter, by rintro _ ⟨⟩; exact sign, digits,
        some⟩, rfl, rfl⟩
    · obtain ⟨some, digits⟩ := isDigits_iff.mp isExponent
      exact ⟨⟨letter, none, c :: rest, isLetter, by rintro _ ⟨⟩, digits, some⟩, rfl, rfl⟩

/-- **A word for a number is a numeral.** -/
theorem exists_of_isNumeral {word : List Char} (isNumeral : Word.isNumeral word) :
    ∃ n : Numeral, n.chars = word := by
  rcases Lexeme.isNumeral_iff.mp isNumeral with
    isMantissa | ⟨mantissa, letter, power, rfl, isMantissa, isLetter, isExponent⟩
  · obtain ⟨n, rfl, none⟩ := exists_of_isMantissa isMantissa none
    exact ⟨n, by rw [chars, none]; exact List.append_nil _⟩
  · obtain ⟨e, rfl, rfl⟩ := exists_of_isExponent isLetter isExponent
    obtain ⟨n, rfl, same⟩ := exists_of_isMantissa isMantissa (some e)
    exact ⟨n, by rw [chars, same]; rfl⟩

/-! ## 3. Reading digits

Exponents are read with a limit, digit by digit, and the reading stops where the limit is passed.
It would be refused at the end as well, because reading on makes a number no smaller
(`le_readOnto`).  So a row of digits is refused exactly where the number it stands for is beyond the
limit. -/

/-- The number that digits stand for behind other ones. -/
def readOnto (number : Nat) (digits : List Char) : Nat :=
  digits.foldl (fun number c => 10 * number + Digits.value c) number

theorem le_readOnto (digits : List Char) (number : Nat) : number ≤ readOnto number digits := by
  induction digits generalizing number with
  | nil => exact Nat.le_refl _
  | cons c digits ih =>
    have next : 10 * number + Digits.value c ≤ readOnto number (c :: digits) := ih _
    omega

/-- **Digits are refused** exactly where the number they stand for is beyond the limit. -/
theorem readBounded_eq {limit number : Nat} {excess : Unreadable} {digits : List Char}
    (allDigits : ∀ c ∈ digits, c.isDigit) (within : number ≤ limit) :
    Decimal.readBounded limit excess number digits
      = if limit < readOnto number digits then .error excess else .ok (readOnto number digits) := by
  induction digits generalizing number with
  | nil => exact (if_neg (Nat.not_lt.mpr within)).symm
  | cons c digits ih =>
    obtain ⟨here, later⟩ := List.forall_mem_cons.mp allDigits
    have onward : readOnto number (c :: digits)
      = readOnto (10 * number + Digits.value c) digits := rfl
    rw [Decimal.readBounded, here, onward]
    simp only [Bool.not_true, Bool.false_eq_true, if_false]
    split
    · rename_i beyond
      rw [if_pos (beyond.trans_le (le_readOnto digits _))]
    · rename_i below
      exact ih later (Nat.not_lt.mp below)

theorem natAbs_value (e : Exponent) : e.value.natAbs = Digits.read e.digits := by
  rw [Exponent.value]
  split
  · rw [Int.natAbs_neg, Int.natAbs_natCast]
  · exact Int.natAbs_natCast _

/-- The sign of an exponent decides what its digits are read within.  Behind a minus the bound is
one higher, as it is for integers of 64 bits. -/
theorem exists_readBounded (e : Exponent) : ∃ limit excess, ∃ f : Nat → Int,
    Decimal.largestExponent ≤ limit ∧ f (Digits.read e.digits) = e.value ∧
      Decimal.readExponent e.power = (Decimal.readBounded limit excess 0 e.digits).map f := by
  obtain ⟨letter, sign, digits, isLetter, isSign, allDigits, nonempty⟩ := e
  obtain ⟨c, more, rfl⟩ := List.exists_cons_of_ne_nil nonempty
  cases sign with
  | none =>
    obtain ⟨noPlus, noMinus⟩ := not_or.mp (not_isSign_of_isDigit (allDigits c List.mem_cons_self))
    refine ⟨_, .exponentTooLarge, Int.ofNat, Nat.le_refl _, rfl, ?_⟩
    rw [Exponent.power, Option.toList_none, List.nil_append, Decimal.readExponent]
    · exact nonempty
    · rintro ⟨⟩
      exact noPlus rfl
    · rintro ⟨⟩
      exact noMinus rfl
    · rintro _ ⟨⟩
      exact noPlus rfl
    · rintro _ ⟨⟩
      exact noMinus rfl
  | some sign =>
    rcases isSign sign rfl with rfl | rfl
    · exact ⟨_, _, Int.ofNat, Nat.le_refl _, rfl, rfl⟩
    · refine ⟨Decimal.largestExponent + 1, .exponentTooSmall, fun n => -(n : Int),
        Nat.le_add_right _ 1, rfl, ?_⟩
      rw [Exponent.power, Option.toList_some, List.singleton_append, Decimal.readExponent]
      · cases Decimal.readBounded (Decimal.largestExponent + 1) .exponentTooSmall 0 (c :: more)
          <;> rfl
      · rintro ⟨⟩

/-- **An exponent is read** as the number it stands for, unless that is beyond 128 bits. -/
theorem readExponent_power (e : Exponent) :
    Decimal.readExponent e.power = .ok e.value ∨
      Decimal.largestExponent < e.value.natAbs ∧
        ∃ reason, Decimal.readExponent e.power = .error reason := by
  obtain ⟨limit, excess, f, most, value, read⟩ := exists_readBounded e
  have bounded : Decimal.readBounded limit excess 0 e.digits
      = if limit < Digits.read e.digits then .error excess else .ok (Digits.read e.digits) :=
    readBounded_eq e.allDigits (Nat.zero_le limit)
  rw [read, bounded, natAbs_value, ← value]
  split
  · rename_i beyond
    exact .inr ⟨most.trans_lt beyond, excess, rfl⟩
  · exact .inl rfl

/-! ## 4. Reading a numeral

The reader splits at the letter of the exponent, then at the point, and looks at the scale before it
reads digits.  Each split is undone by the parts of the numeral.  An exponent beyond 128 bits is
refused before the scale is known; with the few places that a text has, its scale would be refused
too. -/

theorem mem_mantissa (n : Numeral) : ∀ c ∈ n.mantissa, c.isDigit ∨ c = '.' := by
  intro c member
  rw [mantissa, List.mem_append] at member
  rcases member with whole | fraction
  · exact .inl (n.wholeDigits c whole)
  · cases same : n.fraction with
    | none => simp [same] at fraction
    | some digits =>
      rw [same] at fraction
      rcases List.mem_cons.mp fraction with point | digit
      · exact .inr point
      · exact .inl (n.fractionDigits digits same c digit)

theorem isDigit_of_mem_digits (n : Numeral) : ∀ c ∈ n.digits, c.isDigit := by
  intro c member
  rcases List.mem_append.mp member with whole | fraction
  · exact n.wholeDigits c whole
  · cases same : n.fraction with
    | none => simp [same] at fraction
    | some digits => exact n.fractionDigits digits same c (by simpa [same] using fraction)

theorem digits_ne_nil (n : Numeral) : n.digits ≠ [] := by
  rw [digits, Ne, List.append_eq_nil_iff]
  rintro ⟨whole, fraction⟩
  rcases n.nonempty with some | ⟨digits, same, some⟩
  · exact some whole
  · rw [Option.mem_def] at same
    rw [same] at fraction
    exact some fraction

/-- The letter of the exponent ends the mantissa.  There is no `e` among the digits and the point,
so the first one is the letter. -/
theorem splitExponent_chars (n : Numeral) :
    Decimal.splitExponent n.chars = (n.mantissa, n.exponent.map Exponent.power) := by
  have inMantissa : ∀ c ∈ n.mantissa, !(c = 'e' || c = 'E') := by
    intro c member
    rcases n.mem_mantissa c member with digit | rfl
    · by_contra letter
      simp only [Bool.not_eq_true, Bool.not_eq_false', Bool.or_eq_true, decide_eq_true_eq] at letter
      rcases letter with rfl | rfl <;> cases digit
    · rfl
  rw [Decimal.splitExponent, chars]
  cases n.exponent with
  | none =>
    rw [Option.elim_none, List.append_nil, List.dropWhile_eq_nil_iff.mpr inMantissa]
    rfl
  | some e =>
    have stops : Lexeme.Stops (fun c => !(c = 'e' || c = 'E')) (e.letter :: e.power) := by
      rintro c ⟨⟩
      rcases e.isLetter with letter | letter <;> simp [letter]
    rw [Option.elim_some, Lexeme.dropWhile_append_of_stops inMantissa stops,
      Lexeme.takeWhile_append_of_stops inMantissa stops]
    rfl

/-- The point stands between the digits.  There is no point among the digits in front of it, and no
score among those behind. -/
theorem splitPoint_mantissa (n : Numeral) :
    Decimal.splitPoint n.mantissa = (n.digits, n.places) := by
  have inWhole : ∀ c ∈ n.whole, (decide (c ≠ '.') : Bool) := by
    intro c member
    refine decide_eq_true ?_
    rintro rfl
    cases n.wholeDigits _ member
  rw [Decimal.splitPoint, mantissa, digits, places]
  cases same : n.fraction with
  | none =>
    rw [Option.elim_none, List.append_nil, List.dropWhile_eq_nil_iff.mpr inWhole]
    simp
  | some fraction =>
    have stops : Lexeme.Stops (fun c => decide (c ≠ '.')) ('.' :: fraction) := by
      rintro c ⟨⟩
      rfl
    have noScores : fraction.filter (· ≠ '_') = fraction := by
      refine List.filter_eq_self.mpr fun c member => decide_eq_true ?_
      rintro rfl
      cases n.fractionDigits fraction same _ member
    rw [Option.elim_some, Lexeme.dropWhile_append_of_stops inWhole stops,
      Lexeme.takeWhile_append_of_stops inWhole stops, Option.getD_some]
    dsimp only
    rw [noScores]

/-- Digits are an integer without a sign.  Neither a sign nor a score is among them, so each of the
steps that would take one off does nothing. -/
theorem readInteger_digits (n : Numeral) :
    Decimal.readInteger n.digits = .ok (Digits.read n.digits : Int) := by
  have each := n.isDigit_of_mem_digits
  obtain ⟨c, more, same⟩ := List.exists_cons_of_ne_nil n.digits_ne_nil
  rw [same] at each ⊢
  obtain ⟨noPlus, noMinus⟩ := not_or.mp (not_isSign_of_isDigit (each c List.mem_cons_self))
  have noScore : ∀ d ∈ c :: more, d ≠ '_' := by
    rintro d member rfl
    cases each _ member
  have unsigned : Decimal.dropPlus (c :: more) = c :: more := by
    rw [Decimal.dropPlus]
    · rintro _ ⟨⟩
      exact noPlus rfl
    · rintro _ ⟨⟩
      exact noPlus rfl
  have read : Decimal.readDigits (c :: more) = .ok (Digits.read (c :: more)) := by
    have filtered : (c :: more).filter (· ≠ '_') = c :: more :=
      List.filter_eq_self.mpr fun d member => decide_eq_true (noScore d member)
    rw [Decimal.readDigits, filtered, if_neg (by simp),
      if_neg (by simpa using noScore c List.mem_cons_self)]
    exact if_pos (List.all_eq_true.mpr each)
  rw [Decimal.readInteger, unsigned, read]
  · rfl
  · rintro _ ⟨⟩
    exact noMinus rfl
  · rintro _ ⟨⟩
    exact noMinus rfl

/-- **What is left to do behind the exponent**: the scale is looked at, and the digits are read.
The digits of a numeral are always read, so only the scale can be refused. -/
theorem readBehind_eq_ok_iff (n : Numeral) (exponent : Int) :
    (do
      if n.mantissa.isEmpty then .error .noMantissa
      let scale := ((Decimal.splitPoint n.mantissa).2 : Int) - exponent
      if !Decimal.scaleFits scale then .error (.scaleOverflow (String.ofList n.chars))
      let unscaled ← Decimal.readInteger (Decimal.splitPoint n.mantissa).1
      return ⟨unscaled, scale⟩ : Except Unreadable Decimal) = .ok d ↔
    Decimal.scaleFits (n.places - exponent) = true ∧
      d = ⟨Digits.read n.digits, n.places - exponent⟩ := by
  have some : n.mantissa.isEmpty = false := by
    rw [List.isEmpty_eq_false_iff]
    exact Lexeme.ne_nil_of_isMantissa n.isMantissa_mantissa
  rw [some, splitPoint_mantissa]
  dsimp only
  rw [readInteger_digits]
  cases Decimal.scaleFits (n.places - exponent) with
  | false => exact iff_of_false (by rintro ⟨⟩) (by rintro ⟨⟨⟩, -⟩)
  | true =>
    constructor
    · rintro ⟨⟩
      exact ⟨rfl, rfl⟩
    · rintro ⟨-, rfl⟩
      rfl

theorem length_places_le (n : Numeral) : n.places ≤ n.chars.length := by
  rw [places, chars, mantissa, List.length_append, List.length_append]
  cases n.fraction with
  | none => exact Nat.zero_le _
  | some digits =>
    simp only [Option.getD_some, Option.elim_some, List.length_cons]
    omega

/-- **An exponent that is read** leaves the scale to decide. -/
theorem readChars_eq_ok_iff_of_exponent
    (read : ∀ e ∈ n.exponent, Decimal.readExponent e.power = .ok e.value) :
    Decimal.readChars n.chars = .ok d ↔ Decimal.scaleFits n.scale = true ∧ d = n.decimal := by
  rw [Decimal.readChars, splitExponent_chars, decimal, scale]
  cases same : n.exponent with
  | none => exact n.readBehind_eq_ok_iff 0
  | some e =>
    dsimp only [Option.map_some, Option.elim_some]
    rw [read e same]
    exact n.readBehind_eq_ok_iff e.value

/-- **A numeral is read as its decimal**, if its scale is an integer of 64 bits.  An exponent beyond
128 bits is refused before, but then the scale is none, with so few places. -/
theorem readChars_eq_ok_iff (short : n.chars.length < 2 ^ 63) :
    Decimal.readChars n.chars = .ok d ↔ Decimal.scaleFits n.scale = true ∧ d = n.decimal := by
  by_cases read : ∀ e ∈ n.exponent, Decimal.readExponent e.power = .ok e.value
  · exact readChars_eq_ok_iff_of_exponent read
  obtain ⟨e, same, unread⟩ :
    ∃ e, n.exponent = some e ∧ Decimal.readExponent e.power ≠ .ok e.value := by
    simpa using read
  obtain ⟨beyond, reason, failed⟩ := (readExponent_power e).resolve_left unread
  rw [Decimal.readChars, splitExponent_chars, scale, same]
  dsimp only [Option.map_some, Option.elim_some]
  rw [failed]
  refine iff_of_false (by rintro ⟨⟩) ?_
  rintro ⟨fits, -⟩
  have places := n.length_places_le
  have most : Decimal.largestExponent = 2 ^ 127 - 1 := rfl
  simp only [Decimal.scaleFits, Bool.and_eq_true, decide_eq_true_eq] at fits
  omega

theorem read_text_eq_ok_iff (short : n.chars.length < 2 ^ 63) :
    Decimal.read n.text = .ok d ↔ Decimal.scaleFits n.scale = true ∧ d = n.decimal := by
  rw [Decimal.read, text, String.toList_ofList]
  exact readChars_eq_ok_iff short

/-! ## 5. A minus in front

A minus goes with the digits in front of the point, and every split leaves it there.  So the reading
of a negative number is that of the numeral, with the sign changed at the end. -/

/-- Digits behind a minus are an integer below zero.  What stands behind the minus is read as
before, since it starts with a digit. -/
theorem readInteger_minus (n : Numeral) :
    Decimal.readInteger ('-' :: n.digits) = .ok (-(Digits.read n.digits : Int)) := by
  have each := n.isDigit_of_mem_digits
  have unsigned := n.readInteger_digits
  obtain ⟨c, more, same⟩ := List.exists_cons_of_ne_nil n.digits_ne_nil
  rw [same] at each unsigned ⊢
  obtain ⟨noPlus, noMinus⟩ := not_or.mp (not_isSign_of_isDigit (each c List.mem_cons_self))
  have behind : Decimal.readInteger ('-' :: c :: more) =
      (Decimal.readDigits (Decimal.dropPlus (c :: more))).map fun n => -(n : Int) := by
    refine Decimal.readInteger.eq_2 _ ?_
    rintro _ ⟨⟩
    exact noPlus rfl
  rw [Decimal.readInteger] at unsigned
  · cases read : Decimal.readDigits (Decimal.dropPlus (c :: more)) with
    | error reason =>
      rw [read] at unsigned
      cases unsigned
    | ok number =>
      rw [read] at unsigned
      cases unsigned
      rw [behind, read]
      rfl
  all_goals
    rintro _ ⟨⟩
    exact noMinus rfl

/-- A minus stays in front of the exponent. -/
theorem splitExponent_minus (text : List Char) : Decimal.splitExponent ('-' :: text) =
    ('-' :: (Decimal.splitExponent text).1, (Decimal.splitExponent text).2) := by
  let inMantissa (c : Char) : Bool := !(c = 'e' || c = 'E')
  have drop : ('-' :: text).dropWhile inMantissa = text.dropWhile inMantissa :=
    List.dropWhile_cons_of_pos rfl
  have take : ('-' :: text).takeWhile inMantissa = '-' :: text.takeWhile inMantissa :=
    List.takeWhile_cons_of_pos rfl
  rw [Decimal.splitExponent, Decimal.splitExponent, drop, take]
  cases text.dropWhile inMantissa <;> rfl

/-- A minus stays in front of the point. -/
theorem splitPoint_minus (mantissa : List Char) : Decimal.splitPoint ('-' :: mantissa) =
    ('-' :: (Decimal.splitPoint mantissa).1, (Decimal.splitPoint mantissa).2) := by
  let inWhole (c : Char) : Bool := c ≠ '.'
  have drop : ('-' :: mantissa).dropWhile inWhole = mantissa.dropWhile inWhole :=
    List.dropWhile_cons_of_pos rfl
  have take : ('-' :: mantissa).takeWhile inWhole = '-' :: mantissa.takeWhile inWhole :=
    List.takeWhile_cons_of_pos rfl
  rw [Decimal.splitPoint, Decimal.splitPoint, drop, take]
  cases mantissa.dropWhile inWhole <;> rfl

/-- **A minus in front of a numeral** makes its decimal negative.  The minus stays with the mantissa
at both splits, so the exponent and the scale are the same, and the sign is all that differs. -/
theorem readChars_minus_eq_ok_iff :
    Decimal.readChars ('-' :: n.chars) = .ok d ↔ Decimal.readChars n.chars = .ok d.neg := by
  have some : n.mantissa.isEmpty = false := by
    rw [List.isEmpty_eq_false_iff]
    exact Lexeme.ne_nil_of_isMantissa n.isMantissa_mantissa
  have negated (exponent : Int) :
      (.ok ⟨-(Digits.read n.digits : Int), n.places - exponent⟩ : Except Unreadable _)
        = .ok d ↔ .ok ⟨Digits.read n.digits, n.places - exponent⟩
        = (.ok d.neg : Except Unreadable _) := by
    rw [Except.ok.injEq, Except.ok.injEq, ← Decimal.neg_eq_iff]
    rfl
  rw [Decimal.readChars, Decimal.readChars, splitExponent_minus, splitExponent_chars]
  dsimp only
  rw [splitPoint_minus, splitPoint_mantissa, some]
  dsimp only
  rw [readInteger_minus, readInteger_digits]
  cases n.exponent
  all_goals
    refine bind_eq_ok_congr fun exponent => ?_
    cases Decimal.scaleFits (n.places - exponent) with
    | false => exact iff_of_false (by rintro ⟨⟩) (by rintro ⟨⟩)
    | true => exact negated exponent

/-! ## 6. Literals

Behind the reader stands the check of the scale.  Together they accept the numerals within the
limit, and with 64 bits for the scale they overflow at one scale and nowhere else. -/

/-- **A literal is accepted** exactly if its scale is within the limit, and is the decimal of the
numeral.  A numeral that is not that long is read exactly where its scale fits into 64 bits, and a
scale within the limit does. -/
theorem ofNumeral_eq_ok_iff (short : n.chars.length < 2 ^ 63) :
    Decimal.ofNumeral n.text = .ok d ↔ n.scale.natAbs ≤ scaleLimit ∧ d = n.decimal := by
  have limit : scaleLimit = 100000 := rfl
  rw [Decimal.ofNumeral]
  cases found : Decimal.read n.text with
  | error reason =>
    refine iff_of_false (by rintro ⟨⟩) ?_
    rintro ⟨within, rfl⟩
    have fits : Decimal.scaleFits n.scale = true := by
      simp only [Decimal.scaleFits, Bool.and_eq_true, decide_eq_true_eq]
      omega
    cases found.symm.trans ((read_text_eq_ok_iff short).mpr ⟨fits, rfl⟩)
  | ok e =>
    obtain ⟨-, rfl⟩ := (read_text_eq_ok_iff short).mp found
    have inRange : n.decimal.InRange ↔ n.scale.natAbs ≤ scaleLimit := Decimal.inRange_iff
    constructor
    · intro done
      obtain ⟨rfl, within⟩ := Decimal.inRange_of_checkScale done
      exact ⟨inRange.mp within, rfl⟩
    · rintro ⟨within, rfl⟩
      exact Decimal.checkScale_of_inRange (inRange.mpr within)

/-- **A literal overflows** exactly if its scale is the least integer of 64 bits. -/
theorem ofNumeral_overflow_iff (short : n.chars.length < 2 ^ 63) :
    Bounded.ofNumeral n.text = .error .overflow ↔ n.scale = leastWord := by
  constructor
  · intro overflow
    by_contra more
    have lifted : Bounded.ofNumeral n.text = Bounded.lift (Decimal.ofNumeral n.text) := by
      refine Bounded.ofNumeral_eq fun d found => ?_
      obtain ⟨-, rfl⟩ := (read_text_eq_ok_iff short).mp found
      exact more
    exact Bounded.lift_ne_overflow _ (lifted.symm.trans overflow)
  · intro least
    have fits : Decimal.scaleFits n.scale = true := by
      rw [least]
      rfl
    exact Bounded.ofNumeral_overflow ((read_text_eq_ok_iff short).mpr ⟨fits, rfl⟩) least

end Numeral
end DecimalExpression
