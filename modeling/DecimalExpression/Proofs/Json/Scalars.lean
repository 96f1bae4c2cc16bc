import DecimalExpression.Json.Sentence
import DecimalExpression.Proofs.Syntax.Words

/-!
# Reading numbers and strings

What the readers of `DecimalExpression.Json.Reader` take off a text is spelled as the grammar says
(`unsigned?_sound`, `string?_sound`), and what is spelled so is read, if what stands behind a number
cannot go on in it (`unsigned?_complete`, `string?_complete`).

A string is read as units.  Those of a text are decoded to that text, and where they are decoded
they are units of the text (`decode?_eq_some_iff`).
-/

namespace DecimalExpression
namespace Json

open JsonNumber Lexeme

/-! ## 1. Numbers that are read

Each of the small readers takes a part of a number and leaves the rest.  What they take is put
together again in `unsigned?_sound`, with the exponent spelled as it was: its letter, its sign and
its leading zeros are not kept in the number, so they only come back as some text that spells it. -/

section Sound

variable {text rest : List Char}

theorem digits?_sound {word : List Char} {shorter}
    (read : digits? text = some ⟨(word, rest), shorter⟩) :
    IsDigits word ∧ text = word ++ rest := by
  cases text with
  | nil => cases read
  | cons c more =>
    rw [digits?] at read
    split at read
    · rename_i digit
      cases read
      refine ⟨⟨List.cons_ne_nil _ _, List.forall_mem_cons.mpr ⟨digit, fun d => ?_⟩⟩, ?_⟩
      · exact List.mem_takeWhile_imp
      · exact congrArg (c :: ·) (List.takeWhile_append_dropWhile).symm
    · cases read

theorem fraction?_sound {fraction : Option (List Char)} {shorter}
    (read : fraction? text = some ⟨(fraction, rest), shorter⟩) :
    (∀ digits ∈ fraction, IsDigits digits) ∧ text = pointed fraction ++ rest := by
  unfold fraction? at read
  split at read
  · obtain ⟨⟨⟨digits, left⟩, _⟩, isDigits, same⟩ := Option.map_eq_some_iff.mp read
    cases same
    obtain ⟨all, rfl⟩ := digits?_sound isDigits
    refine ⟨?_, rfl⟩
    rintro _ ⟨⟩
    exact all
  · cases read
    exact ⟨by rintro _ ⟨⟩, rfl⟩

/-- The sign in front of the digits of an exponent. -/
theorem spellsExponent_of_sign {letter : Char} {negative : Bool} {digits : List Char}
    (isLetter : letter = 'e' ∨ letter = 'E')
    (sign : (exponentSign text).val = (negative, digits ++ rest)) :
    ∃ power, SpellsExponent power (some (negative, digits)) ∧ letter :: text = power ++ rest := by
  unfold exponentSign at sign
  split at sign
  · cases sign
    exact ⟨_, .minus isLetter digits, rfl⟩
  · cases sign
    exact ⟨_, .plus isLetter digits, rfl⟩
  · cases sign
    exact ⟨_, .unsigned isLetter digits, rfl⟩

/-- **An exponent that is read** is spelled by what is taken off, and has digits. -/
theorem exponent?_sound {exponent : Option (Bool × List Char)} {shorter}
    (read : exponent? text = some ⟨(exponent, rest), shorter⟩) :
    (∀ e ∈ exponent, IsDigits e.2) ∧ ∃ power, SpellsExponent power exponent ∧
    text = power ++ rest := by
  cases text with
  | nil =>
    cases read
    exact ⟨by rintro _ ⟨⟩, [], .absent, rfl⟩
  | cons c more =>
    rw [exponent?] at read
    split at read
    · rename_i isLetter
      obtain ⟨⟨⟨digits, left⟩, _⟩, isDigits, same⟩ := Option.map_eq_some_iff.mp read
      cases same
      obtain ⟨all, split⟩ := digits?_sound isDigits
      refine ⟨?_, spellsExponent_of_sign isLetter (Prod.ext rfl split)⟩
      rintro _ ⟨⟩
      exact all
    · cases read
      exact ⟨by rintro _ ⟨⟩, [], .absent, rfl⟩

theorem whole?_sound {word : List Char} {shorter}
    (read : whole? text = some ⟨(word, rest), shorter⟩) :
    IsDigits word ∧ (word.head? = some '0' → word = ['0']) ∧ text = word ++ rest := by
  unfold whole? at read
  split at read
  · rename_i isDigits
    cases read
    obtain ⟨all, split⟩ := digits?_sound isDigits
    exact ⟨all, fun _ => rfl, split⟩
  · cases read
  · rename_i noZero noLonger
    obtain ⟨all, split⟩ := digits?_sound read
    refine ⟨all, fun zero => ?_, split⟩
    obtain ⟨more, rfl⟩ := List.head?_eq_some_iff.mp zero
    cases more with
    | nil => rfl
    | cons c more => exact absurd read (noLonger c more rest shorter)

/-- **A number that is read** is spelled by what is taken off.  The three parts are taken off one
behind the other. -/
theorem unsigned?_sound {negative : Bool} {number : JsonNumber} {shorter}
    (read : unsigned? negative text = some ⟨(number, rest), shorter⟩) :
    number.negative = negative ∧ ∃ word, number.Spells (number.sign ++ word) ∧
    text = word ++ rest := by
  unfold unsigned? at read
  split at read
  · cases read
  rename_i whole isWhole
  split at read
  · cases read
  rename_i fraction isFraction
  obtain ⟨exponent, isExponent, same⟩ := Option.map_eq_some_iff.mp read
  cases same
  obtain ⟨wholeDigits, noLeadingZero, split⟩ := whole?_sound isWhole
  obtain ⟨fractionDigits, split'⟩ := fraction?_sound isFraction
  obtain ⟨exponentDigits, power, spells, split''⟩ := exponent?_sound isExponent
  refine ⟨rfl, whole.val.1 ++ pointed fraction.val.1 ++ power,
    ⟨⟨wholeDigits, noLeadingZero, fractionDigits, exponentDigits⟩, power, spells, by simp⟩, ?_⟩
  calc text
      = whole.val.1 ++ (pointed fraction.val.1 ++ (power ++ exponent.val.2)) := by
        rw [← split'', ← split', ← split]
    _ = whole.val.1 ++ pointed fraction.val.1 ++ power ++ exponent.val.2 := by
      simp only [List.append_assoc]

end Sound

/-! ## 2. Numbers that are spelled

A reader takes as many digits as there are.  So a part of a number is read back only if what follows
it stops the reader (`Stops`), and the condition on a whole number is the strongest of these: no
digit, no point and no letter of an exponent (`EndsNumber`).  For a number that is alone there is
nothing behind, and reading and spelling are the same (`number?_eq_some_iff`). -/

section Complete

variable {n : Nat} {α : Type} {word rest : List Char}

/-- What is read is known without the bound on what is left. -/
theorem Left.exists_eq_some {read : Option (Left n α)} {value : α}
    (h : read.map Subtype.val = some (value, rest)) :
    ∃ shorter, read = some ⟨(value, rest), shorter⟩ := by
  obtain ⟨found, same, value⟩ := Option.map_eq_some_iff.mp h
  exact ⟨value ▸ found.property, same.trans (congrArg some (Subtype.ext value))⟩

theorem stops_of_imp {p q : Char → Bool} (stops : Stops p rest) (h : ∀ c, q c → p c) :
    Stops q rest := by
  intro c head
  rw [Bool.eq_false_iff]
  exact fun goes => Bool.false_ne_true ((stops c head).symm.trans (h c goes))

theorem digits?_complete (digits : IsDigits word) (stops : Stops Char.isDigit rest) :
    ∃ shorter, digits? (word ++ rest) = some ⟨(word, rest), shorter⟩ := by
  obtain ⟨some, all⟩ := digits
  obtain ⟨c, more, rfl⟩ := List.exists_cons_of_ne_nil some
  obtain ⟨digit, others⟩ := List.forall_mem_cons.mp all
  refine Left.exists_eq_some ?_
  simp only [digits?, List.cons_append, digit, if_true, Option.map_some,
    takeWhile_append_of_stops others stops, dropWhile_append_of_stops others stops]

theorem whole?_complete (digits : IsDigits word)
    (noLeadingZero : word.head? = some '0' → word = ['0'])
    (stops : Stops Char.isDigit rest) :
    ∃ shorter, whole? (word ++ rest) = some ⟨(word, rest), shorter⟩ := by
  obtain ⟨shorter, read⟩ := digits?_complete digits stops
  refine ⟨shorter, ?_⟩
  rw [whole?, read]
  split
  · rename_i same
    cases same
    rfl
  · rename_i same
    cases same
    cases noLeadingZero rfl
  · rfl

theorem fraction?_complete {fraction : Option (List Char)}
    (digits : ∀ word ∈ fraction, IsDigits word)
    (stops : Stops (fun c => c.isDigit || c = '.') rest) :
    ∃ shorter, fraction? (pointed fraction ++ rest) = some ⟨(fraction, rest), shorter⟩ := by
  refine Left.exists_eq_some ?_
  cases fraction with
  | none =>
    rw [pointed, List.nil_append, fraction?]
    · rfl
    · rintro more rfl
      cases stops '.' rfl
  | some word =>
    obtain ⟨shorter, read⟩ := digits?_complete (digits word rfl)
      (stops_of_imp stops fun c digit => by rw [digit, Bool.true_or])
    simp only [pointed, List.cons_append, fraction?, read, Option.map_some]

/-- Digits in an exponent have no sign. -/
theorem exponentSign_of_isDigits (digits : IsDigits word) :
    (exponentSign (word ++ rest)).val = (false, word ++ rest) := by
  obtain ⟨c, more, rfl⟩ := List.exists_cons_of_ne_nil digits.1
  have digit := digits.2 c List.mem_cons_self
  rw [List.cons_append, exponentSign]
  · rintro _ ⟨⟩
    cases digit
  · rintro _ ⟨⟩
    cases digit

/-- Behind the letter of an exponent and its sign there are digits. -/
theorem exponent?_cons {letter : Char} {text : List Char} {negative : Bool}
    (isLetter : letter = 'e' ∨ letter = 'E')
    (sign : (exponentSign text).val = (negative, word ++ rest))
    (digits : IsDigits word) (stops : Stops Char.isDigit rest) :
    ∃ shorter, exponent? (letter :: text) = some ⟨(some (negative, word), rest), shorter⟩ := by
  obtain ⟨shorter, read⟩ := digits?_complete digits stops
  refine Left.exists_eq_some ?_
  simp only [exponent?, if_pos isLetter, Option.map_map, Function.comp_def]
  rw [sign, read]
  rfl

/-- **An exponent that is spelled** is read, where neither a digit nor a letter of an exponent
follows. -/
theorem exponent?_complete {exponent : Option (Bool × List Char)}
    (digits : ∀ e ∈ exponent, IsDigits e.2)
    (spells : SpellsExponent word exponent)
    (stops : Stops (fun c => c.isDigit || c = 'e' || c = 'E') rest) :
    ∃ shorter, exponent? (word ++ rest) = some ⟨(exponent, rest), shorter⟩ := by
  have noDigit : Stops Char.isDigit rest := stops_of_imp stops fun c digit => by
    simp only [digit, Bool.true_or]
  cases spells with
  | absent =>
    refine Left.exists_eq_some ?_
    cases rest with
    | nil => rfl
    | cons c rest =>
      have := stops c rfl
      simp only [Bool.or_eq_false_iff, decide_eq_false_iff_not] at this
      simp [exponent?, this]
  | unsigned isLetter word =>
    exact exponent?_cons isLetter (exponentSign_of_isDigits (digits _ rfl)) (digits _ rfl) noDigit
  | plus isLetter word => exact exponent?_cons isLetter rfl (digits _ rfl) noDigit
  | minus isLetter word => exact exponent?_cons isLetter rfl (digits _ rfl) noDigit

/-- What ends a number: a character that could not go on in it. -/
def EndsNumber (rest : List Char) : Prop :=
  Stops (fun c => c.isDigit || c = '.' || c = 'e' || c = 'E') rest

/-- **A number that is spelled** is read, where it ends.  Each part ends where the next one starts,
and the last one where the number does. -/
theorem unsigned?_complete {number : JsonNumber} (spells : number.Spells (number.sign ++ word))
    (ends : EndsNumber rest) :
    ∃ shorter, unsigned? number.negative (word ++ rest) = some ⟨(number, rest), shorter⟩ := by
  obtain ⟨strict, power, spellsPower, same⟩ := spells
  obtain ⟨negative, whole, fraction, exponent⟩ := number
  obtain rfl : word = whole ++ (pointed fraction ++ power) := by simpa using same
  have pastPower : Stops (fun c => c.isDigit || c = 'e' || c = 'E') rest :=
    stops_of_imp ends fun c goes => by grind
  have pastFraction : Stops (fun c => c.isDigit || c = '.') (power ++ rest) := by
    cases spellsPower with
    | absent => exact stops_of_imp ends fun c goes => by grind
    | _ isLetter =>
      rintro c ⟨⟩
      rcases isLetter with rfl | rfl <;> rfl
  have pastWhole : Stops Char.isDigit (pointed fraction ++ (power ++ rest)) := by
    cases fraction with
    | none => exact stops_of_imp pastFraction fun c digit => by rw [digit, Bool.true_or]
    | some digits =>
      rintro c ⟨⟩
      rfl
  obtain ⟨_, exponentRead⟩ := exponent?_complete strict.exponent spellsPower pastPower
  obtain ⟨_, fractionRead⟩ := fraction?_complete strict.fraction pastFraction
  have wholeRead := whole?_complete strict.whole strict.noLeadingZero pastWhole
  have split : whole ++ (pointed fraction ++ (power ++ rest))
      = whole ++ (pointed fraction ++ power) ++ rest := by
    simp only [List.append_assoc]
  rw [split] at wholeRead
  obtain ⟨_, wholeRead⟩ := wholeRead
  refine Left.exists_eq_some ?_
  rw [unsigned?, wholeRead]
  dsimp only
  rw [fractionRead]
  dsimp only
  rw [exponentRead]
  rfl

end Complete

/-- Nothing is behind a number that is alone. -/
theorem alone?_eq_some_iff {n : Nat} {α : Type} {found : Left n α} {value : α} :
    found.alone? = some value ↔ found.val = (value, []) := by
  obtain ⟨⟨other, rest⟩, shorter⟩ := found
  rw [Left.alone?]
  cases rest <;> simp

/-- A number is spelled behind its sign, and there it starts with a digit. -/
theorem exists_of_spells {text : List Char} {number : JsonNumber} (spells : number.Spells text) :
    ∃ c word, c.isDigit ∧ text = number.sign ++ c :: word := by
  obtain ⟨strict, power, -, rfl⟩ := spells
  obtain ⟨c, more, same⟩ := List.exists_cons_of_ne_nil strict.whole.1
  refine ⟨c, more ++ pointed number.fraction ++ power,
    strict.whole.2 c (same ▸ List.mem_cons_self), ?_⟩
  simp [same]

theorem unsigned?_alone_iff {text : List Char} {negative : Bool} {number : JsonNumber} :
    (unsigned? negative text).bind Left.alone? = some number ↔
      number.negative = negative ∧ number.Spells (number.sign ++ text) := by
  constructor
  · intro read
    obtain ⟨⟨⟨found, rest⟩, _⟩, isFound, alone⟩ := Option.bind_eq_some_iff.mp read
    cases alone?_eq_some_iff.mp alone
    obtain ⟨sign, word, spells, rfl⟩ := unsigned?_sound isFound
    rw [List.append_nil]
    exact ⟨sign, spells⟩
  · rintro ⟨rfl, spells⟩
    have ends : EndsNumber [] := by rintro c ⟨⟩
    have read := unsigned?_complete spells ends
    rw [List.append_nil] at read
    obtain ⟨shorter, read⟩ := read
    rw [read, Option.bind_some]
    exact alone?_eq_some_iff.mpr rfl

/-- A number is negative if its text has a minus in front. -/
theorem negative_iff_of_spells {text : List Char} {number : JsonNumber}
    (spells : number.Spells text) :
    number.negative = true ↔ text.head? = some '-' := by
  obtain ⟨c, word, digit, rfl⟩ := exists_of_spells spells
  rw [JsonNumber.sign]
  cases number.negative with
  | true => exact iff_of_true rfl rfl
  | false =>
    refine iff_of_false Bool.false_ne_true ?_
    rintro ⟨⟩
    cases digit

/-- **The texts of a number** are those that are read as it.  The minus in front decides which of
the two ways is taken, and belongs to one of the spellings only. -/
theorem number?_eq_some_iff {text : List Char} {number : JsonNumber} :
    number? text = some number ↔ number.Spells text := by
  rw [number?.eq_def]
  split
  · rw [unsigned?_alone_iff]
    constructor
    · rintro ⟨negative, spells⟩
      rwa [JsonNumber.sign, negative] at spells
    · intro spells
      have negative := (negative_iff_of_spells spells).mpr rfl
      exact ⟨negative, by rwa [JsonNumber.sign, negative]⟩
  · rename_i noMinus
    rw [unsigned?_alone_iff]
    constructor
    · rintro ⟨negative, spells⟩
      rwa [JsonNumber.sign, negative] at spells
    · intro spells
      have negative : number.negative = false := by
        rw [← Bool.not_eq_true, negative_iff_of_spells spells, List.head?_eq_some_iff]
        rintro ⟨more, rfl⟩
        exact noMinus more rfl
      exact ⟨negative, by rwa [JsonNumber.sign, negative]⟩

/-! ## 3. Units

Between the characters of a string and its text stand the units: an escape is one unit, and two
units may be one character.  Decoding follows the cases of `decode?`; a pair of surrogates is told
from two characters because no character is a surrogate (`not_surrogate`), and that units are below
`codePoints` is what keeps the code of a single unit from being changed. -/

section Units

variable {units : List Nat} {text : List Char}

/-- The number of code points. -/
def codePoints : Nat := 0x110000

/-- A hexadecimal digit is below sixteen, for each of the three ranges of characters. -/
theorem hexValue?_lt {c : Char} {value : Nat} (read : hexValue? c = some value) : value < 16 := by
  have zero : '0'.toNat = 48 := rfl
  have small : 'a'.toNat = 97 := rfl
  have large : 'A'.toNat = 65 := rfl
  rw [hexValue?] at read
  split at read
  · rename_i digit
    cases read
    have := toNat_of_isDigit digit
    omega
  split at read
  · rename_i letter
    cases read
    have : c.toNat ≤ 102 := letter.2
    omega
  split at read
  · rename_i letter
    cases read
    have : c.toNat ≤ 70 := letter.2
    omega
  · cases read

/-- Four hexadecimal digits are below the last code point. -/
theorem hexUnit?_lt {a b c d : Char} {unit : Nat} (read : hexUnit? a b c d = some unit) :
    unit < codePoints := by
  simp only [hexUnit?, Option.bind_eq_bind, Option.bind_eq_some_iff, Option.pure_def,
    Option.some.injEq] at read
  obtain ⟨i, first, j, second, k, third, l, fourth, rfl⟩ := read
  have := hexValue?_lt first
  have := hexValue?_lt second
  have := hexValue?_lt third
  have := hexValue?_lt fourth
  rw [codePoints]
  omega

theorem toNat_lt_codePoints (c : Char) : c.toNat < codePoints := by
  have valid := c.valid
  simp only [UInt32.isValidChar, Nat.isValidChar] at valid
  rw [codePoints, Char.toNat]
  omega

theorem lt_of_spellsUnits {chars : List Char} (spells : SpellsUnits chars units) :
    ∀ unit ∈ units, unit < codePoints := by
  induction spells with
  | nil => exact List.forall_mem_nil _
  | plain _ _ _ _ ih => exact List.forall_mem_cons.mpr ⟨toNat_lt_codePoints _, ih⟩
  | escape _ _ ih => exact List.forall_mem_cons.mpr ⟨toNat_lt_codePoints _, ih⟩
  | hex value _ ih => exact List.forall_mem_cons.mpr ⟨hexUnit?_lt value, ih⟩

/-- A character is neither half of a pair. -/
theorem not_surrogate (c : Char) :
    isHighSurrogate c.toNat = false ∧ isLowSurrogate c.toNat = false := by
  have valid := c.valid
  simp only [UInt32.isValidChar, Nat.isValidChar] at valid
  simp only [isHighSurrogate, isLowSurrogate, Bool.and_eq_false_iff,
    decide_eq_false_iff_not, Char.toNat]
  omega

theorem toNat_ofNat {unit : Nat} (below : unit < codePoints) (noHigh : isHighSurrogate unit = false)
    (noLow : isLowSurrogate unit = false) : (Char.ofNat unit).toNat = unit := by
  simp only [isHighSurrogate, isLowSurrogate, Bool.and_eq_false_iff,
    decide_eq_false_iff_not] at noHigh noLow
  rw [codePoints] at below
  have valid : unit.isValidChar := by
    rw [Nat.isValidChar]
    omega
  rw [Char.ofNat, dif_pos valid]
  rfl

/-- Two halves of a pair are one character. -/
theorem toNat_ofNat_pair {high low : Nat} (isHigh : isHighSurrogate high)
    (isLow : isLowSurrogate low) :
    (Char.ofNat (0x10000 + (high - 0xD800) * 0x400 + (low - 0xDC00))).toNat =
      0x10000 + (high - 0xD800) * 0x400 + (low - 0xDC00) := by
  simp only [isHighSurrogate, isLowSurrogate, Bool.and_eq_true, decide_eq_true_eq] at isHigh isLow
  refine toNat_ofNat (by rw [codePoints]; omega) ?_ ?_
  · rw [isHighSurrogate, Bool.and_eq_false_iff, decide_eq_false_iff_not, decide_eq_false_iff_not]
    omega
  · rw [isLowSurrogate, Bool.and_eq_false_iff, decide_eq_false_iff_not, decide_eq_false_iff_not]
    omega

theorem decode?_complete (encodes : Encodes units text) : decode? units = some text := by
  induction encodes with
  | nil => rfl
  | @single c units text _ ih =>
    obtain ⟨noHigh, noLow⟩ := not_surrogate c
    cases units with
    | nil =>
      cases ih
      simp [decode?, noHigh, noLow]
    | cons low units => simp [decode?, noHigh, noLow, ih]
  | pair isHigh isLow codePoint _ ih =>
    rw [decode?, if_pos isHigh, if_pos isLow, ih, ← codePoint, Char.ofNat_toNat]
    rfl

/-- **What is decoded is encoded by the units**, by the recursion of the function: a high and a low
unit are one character, and any other unit is a character by itself. -/
theorem decode?_sound (below : ∀ unit ∈ units, unit < codePoints)
    (read : decode? units = some text) :
    Encodes units text := by
  fun_induction decode? units generalizing text with
  | case1 =>
    cases read
    exact .nil
  | case2 => cases read
  | case3 unit single =>
    cases read
    obtain ⟨noHigh, noLow⟩ := Bool.or_eq_false_iff.mp (Bool.eq_false_iff.mpr single)
    have same := toNat_ofNat (below unit List.mem_cons_self) noHigh noLow
    have one : Encodes [(Char.ofNat unit).toNat] [Char.ofNat unit] := .single _ .nil
    rwa [same] at one
  | case4 high low rest isHigh isLow ih =>
    obtain ⟨more, behind, rfl⟩ := Option.map_eq_some_iff.mp read
    obtain ⟨-, later⟩ := List.forall_mem_cons.mp below
    exact .pair isHigh isLow (toNat_ofNat_pair isHigh isLow)
      (ih (List.forall_mem_cons.mp later).2 behind)
  | case5 => cases read
  | case6 => cases read
  | case7 unit low rest noHigh noLow ih =>
    obtain ⟨more, behind, rfl⟩ := Option.map_eq_some_iff.mp read
    obtain ⟨here, later⟩ := List.forall_mem_cons.mp below
    have same := toNat_ofNat here (Bool.eq_false_iff.mpr noHigh) (Bool.eq_false_iff.mpr noLow)
    have one : Encodes ((Char.ofNat unit).toNat :: low :: rest) (Char.ofNat unit :: more) :=
      .single _ (ih later behind)
    rwa [same] at one

/-- **Units are decoded** to the text whose units they are. -/
theorem decode?_eq_some_iff (below : ∀ unit ∈ units, unit < codePoints) :
    decode? units = some text ↔ Encodes units text :=
  ⟨decode?_sound below, decode?_complete⟩

theorem text_eq_some_iff {content : String} (below : ∀ unit ∈ units, unit < codePoints) :
    (decode? units).map String.ofList = some content ↔ Encodes units content.toList := by
  rw [← decode?_eq_some_iff below, Option.map_eq_some_iff]
  constructor
  · rintro ⟨text, decoded, rfl⟩
    rw [decoded, String.toList_ofList]
  · exact fun decoded => ⟨_, decoded, String.ofList_toList⟩

end Units

/-! ## 4. Strings

A string is read with the units so far in an accumulator, in reverse.  `Ends` says what that
accumulator stands for, so that soundness is an induction on the recursion of `stringFrom` and
completeness one on the units that are spelled. -/

section Strings

variable {n : Nat} {units done : List Nat} {text chars rest : List Char}

/-- A string whose units were begun before it: what is behind `done` are the units of the characters
up to the quote. -/
def Ends (done : List Nat) (text : List Char) (found : List Nat × List Char) : Prop :=
  ∃ chars units, SpellsUnits chars units ∧ found.1 = done.reverse ++ units ∧
    text = chars ++ '"' :: found.2

/-- One more unit, spelled in front. -/
theorem Ends.cons {unit : Nat} (front : List Char) {found : List Nat × List Char}
    (ends : Ends (unit :: done) text found)
    (spells : ∀ {chars units}, SpellsUnits chars units →
      SpellsUnits (front ++ chars) (unit :: units)) :
    Ends done (front ++ text) found := by
  obtain ⟨chars, units, spelled, same, rfl⟩ := ends
  exact ⟨front ++ chars, unit :: units, spells spelled, by simp [same], by simp⟩

theorem stringFrom_sound {shorter : text.length < n} {found : Left n (List Nat)}
    (read : stringFrom n done text shorter = some found) : Ends done text found.val := by
  fun_induction stringFrom n done text shorter with
  | case1 => cases read
  | case2 =>
    cases read
    exact ⟨[], [], .nil, (List.append_nil _).symm, rfl⟩
  | case3 => cases read
  | case4 _ _ _ _ _ _ _ value _ _ ih => exact (ih read).cons ['\\', 'u', _, _, _, _] (.hex value)
  | case5 => cases read
  | case6 _ _ _ _ escapes _ _ _ ih => exact (ih read).cons ['\\', _] (.escape escapes)
  | case7 => cases read
  | case8 => cases read
  | case9 _ _ _ _ noQuote noEscape noControl ih =>
    exact (ih read).cons [_] (.plain noQuote noEscape (Nat.not_lt.mp noControl))

/-- **Units that are spelled** are read up to the quote, behind those that were read before. -/
theorem stringFrom_complete (spells : SpellsUnits chars units) (done : List Nat) {rest : List Char}
    (shorter : (chars ++ '"' :: rest).length < n) :
    (stringFrom n done (chars ++ '"' :: rest) shorter).map Subtype.val
      = some (done.reverse ++ units, rest) := by
  induction spells generalizing done with
  | nil =>
    rw [stringFrom.eq_def]
    simp
  | plain noQuote noEscape noControl _ ih =>
    simp only [List.cons_append] at shorter ⊢
    rw [stringFrom.eq_def]
    dsimp only
    rw [if_neg noQuote, if_neg noEscape, if_neg (Nat.not_lt.mpr noControl), ih]
    simp
  | @escape letter c escapes _ _ _ ih =>
    simp only [List.cons_append] at shorter ⊢
    have noUnit : letter ≠ 'u' := by
      rintro rfl
      cases escapes
    rw [stringFrom, if_neg (by decide), if_pos rfl, escapes]
    · dsimp only
      rw [ih]
      simp
    · rintro a b c d behind h h' rfl
      exact absurd rfl noUnit
  | hex value _ ih =>
    simp only [List.cons_append] at shorter ⊢
    rw [stringFrom, if_neg (by decide), if_pos rfl, value]
    dsimp only
    rw [ih]
    simp

theorem string?_sound {content : Option String} {shorter}
    (read : string? text = some ⟨(content, rest), shorter⟩) :
    ∃ chars, SpellsString chars content ∧ text = chars ++ '"' :: rest := by
  obtain ⟨string, isString, same⟩ := Option.map_eq_some_iff.mp read
  cases same
  obtain ⟨chars, units, spells, same, split⟩ := stringFrom_sound isString
  refine ⟨chars, ⟨units, spells, fun text => ?_⟩, split⟩
  rw [← text_eq_some_iff (lt_of_spellsUnits spells), same, List.reverse_nil, List.nil_append]

theorem string?_complete {content : Option String} (spells : SpellsString chars content)
    (rest : List Char) :
    ∃ shorter, string? (chars ++ '"' :: rest) = some ⟨(content, rest), shorter⟩ := by
  obtain ⟨units, spells, decodes⟩ := spells
  have decoded : (decode? units).map String.ofList = content :=
    Option.ext fun text => (text_eq_some_iff (lt_of_spellsUnits spells)).trans (decodes text).symm
  refine Left.exists_eq_some ?_
  have read := stringFrom_complete spells [] (Nat.lt_succ_self (chars ++ '"' :: rest).length)
  obtain ⟨shorter, read⟩ := Left.exists_eq_some read
  rw [string?, read]
  simp [decoded]

end Strings
end Json
end DecimalExpression
