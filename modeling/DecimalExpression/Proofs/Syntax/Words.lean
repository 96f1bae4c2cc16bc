import DecimalExpression.Syntax.Sentence
import Mathlib.Data.List.TakeWhile

/-!
# Words

The lexemes of a source are names, numerals and texts in quotes.  `Word` says which texts these are,
and `Lexeme` reads them from the front of a source.  The two agree:

* what is read is a word (`isName_of_identifier?`, `isNumeral_of_number?`, `isQuoted_of_quoted`);
* a word is read as itself, where what stands behind it cannot go on in it (`Boundary`).

No word starts or ends with a blank, so trimming leaves it alone.
-/

namespace DecimalExpression

/-! ## 1. Trimming

Trimming takes blanks off both ends.  For the words of this language it takes off nothing, and
around them everything, which is how slices get their texts. -/

namespace Text

/-- Blanks in front do not count. -/
theorem trim_append_left {blanks : List Char} (h : ∀ c ∈ blanks, isBlank c) (slice : List Char) :
    trim (blanks ++ slice) = trim slice := by
  simp only [trim, trimStart, List.dropWhile_append_of_pos h]

/-- Blanks behind do not count either. -/
theorem trim_append_right {blanks : List Char} (h : ∀ c ∈ blanks, isBlank c) (slice : List Char) :
    trim (slice ++ blanks) = trim slice := by
  have none : blanks.dropWhile isBlank = [] := List.dropWhile_eq_nil_iff.mpr h
  rw [trim, trim, trimStart, trimStart, List.dropWhile_append]
  split
  · rename_i empty
    rw [none, List.isEmpty_iff.mp empty]
  · rw [List.reverse_append, List.dropWhile_append_of_pos fun c member =>
      h c (List.mem_reverse.mp member)]

/-- What starts and ends with something else than a blank is left alone. -/
theorem trim_eq_self {slice : List Char} (first : ∀ c ∈ slice.head?, isBlank c = false)
    (last : ∀ c ∈ slice.getLast?, isBlank c = false) : trim slice = slice := by
  have dropped : ∀ {l : List Char}, (∀ c ∈ l.head?, isBlank c = false) →
      l.dropWhile isBlank = l := by
    intro l head
    cases l with
    | nil => rfl
    | cons c rest => rw [List.dropWhile_cons_of_neg (by simpa using head c rfl)]
  rw [trim, trimStart, dropped first, dropped (by rwa [List.head?_reverse]), List.reverse_reverse]

/-- Something else than a blank is not trimmed away. -/
theorem trim_ne_nil {slice : List Char} {c : Char} (member : c ∈ slice)
    (visible : isBlank c = false) :
    trim slice ≠ [] := by
  intro empty
  have behind := List.dropWhile_eq_nil_iff.mp (List.reverse_eq_nil_iff.mp empty)
  rw [← List.takeWhile_append_dropWhile (p := isBlank) (l := slice)] at member
  have blank : isBlank c = true := by
    rcases List.mem_append.mp member with front | rest
    · exact List.mem_takeWhile_imp front
    · exact behind c (List.mem_reverse.mpr rest)
  exact Bool.false_ne_true (visible.symm.trans blank)

end Text

/-! ## 2. Characters

The classes of characters that words start with and go on with, by their code points: apart from
each other, and apart from blanks. -/

namespace Lexeme

open Text

/-- A character by a property of its code point. -/
theorem isBlank_eq_false {c : Char} (h : 0x20 < c.toNat) (h' : c.toNat < 0x7F) :
    isBlank c = false := by
  simp only [isBlank, Bool.or_eq_false_iff, Bool.and_eq_false_iff, decide_eq_false_iff_not]
  omega

theorem toNat_of_isDigit {c : Char} (h : c.isDigit) : 48 ≤ c.toNat ∧ c.toNat ≤ 57 := by
  simpa [Char.isDigit, UInt32.le_iff_toNat_le] using h

theorem toNat_of_isNameStart {c : Char} (h : isNameStart c) : 0x20 < c.toNat ∧ c.toNat < 0x7F := by
  simp only [isNameStart, Bool.or_eq_true, decide_eq_true_eq] at h
  rcases h with (h | rfl) | rfl
  · unfold Char.isAlpha Char.isUpper Char.isLower at h
    simp [UInt32.le_iff_toNat_le] at h
    have : c.val.toNat = c.toNat := rfl
    omega
  · decide
  · decide

/-- No digit starts a name. -/
theorem isNameStart_of_isDigit {c : Char} (h : c.isDigit) : isNameStart c = false := by
  have digit := toNat_of_isDigit h
  rw [Bool.eq_false_iff]
  intro start
  simp only [isNameStart, Bool.or_eq_true, decide_eq_true_eq] at start
  rcases start with (start | rfl) | rfl
  · unfold Char.isAlpha Char.isUpper Char.isLower at start
    simp [UInt32.le_iff_toNat_le] at start
    have : c.val.toNat = c.toNat := rfl
    omega
  · revert digit
    decide
  · revert digit
    decide

theorem isBlank_of_isNameStart {c : Char} (h : isNameStart c) : isBlank c = false :=
  isBlank_eq_false (toNat_of_isNameStart h).1 (toNat_of_isNameStart h).2

theorem isBlank_of_isDigit {c : Char} (h : c.isDigit) : isBlank c = false :=
  isBlank_eq_false (by have := toNat_of_isDigit h; omega) (by have := toNat_of_isDigit h; omega)

theorem isBlank_of_isNamePart {c : Char} (h : isNamePart c) : isBlank c = false := by
  simp only [isNamePart, Bool.or_eq_true] at h
  rcases h with h | h
  · exact isBlank_of_isNameStart h
  · exact isBlank_of_isDigit h

/-! ## 3. Where a word stops

A word is read as far as it goes on, so it is read back only in front of something that stops it.
`Stops` is that condition; for a whole lexeme the end of the source satisfies it. -/

/-- What stands in front of `rest` does not go on in it. -/
def Stops (p : Char → Bool) (rest : List Char) : Prop :=
  ∀ c ∈ rest.head?, p c = false

variable {word rest source : List Char} {p : Char → Bool}

theorem Stops.takeWhile_eq (stops : Stops p rest) : rest.takeWhile p = [] := by
  cases rest with
  | nil => rfl
  | cons c more => rw [List.takeWhile_cons_of_neg (by simpa using stops c rfl)]

theorem Stops.dropWhile_eq (stops : Stops p rest) : rest.dropWhile p = rest := by
  cases rest with
  | nil => rfl
  | cons c more => rw [List.dropWhile_cons_of_neg (by simpa using stops c rfl)]

theorem takeWhile_append_of_stops (all : ∀ c ∈ word, p c) (stops : Stops p rest) :
    (word ++ rest).takeWhile p = word := by
  rw [List.takeWhile_append_of_pos all, stops.takeWhile_eq, List.append_nil]

theorem dropWhile_append_of_stops (all : ∀ c ∈ word, p c) (stops : Stops p rest) :
    (word ++ rest).dropWhile p = rest := by
  rw [List.dropWhile_append_of_pos all, stops.dropWhile_eq]

/-- A lexeme is known by its text. -/
theorem eq_of_text {a b : Lexeme source} (same : a.text = b.text) : a = b := by
  obtain ⟨text, rest, split, nonempty⟩ := a
  obtain ⟨_, rest', split', _⟩ := b
  cases same
  cases List.append_cancel_left (split.trans split'.symm)
  rfl

/-! ## 4. Names

A name is an identifier, in both directions: what is read is one, and one is read where it ends. -/

/-- What is read as an identifier is a name. -/
theorem isName_of_identifier? {lexeme : Lexeme source} (read : identifier? source = some lexeme) :
    Word.isName lexeme.text := by
  cases source with
  | nil => cases read
  | cons c rest =>
    rw [identifier?] at read
    split at read
    · rename_i start
      cases read
      simp only [Word.isName, start, Bool.true_and, List.all_eq_true]
      exact fun c member => List.mem_takeWhile_imp member
    · cases read

theorem ne_nil_of_isName (name : Word.isName word) : word ≠ [] := by
  rintro rfl
  cases name

/-- **A name is read as an identifier.** -/
theorem identifier?_of_split (split : word ++ rest = source) (name : Word.isName word)
    (stops : Stops isNamePart rest) :
    identifier? source = some ⟨word, rest, split, ne_nil_of_isName name⟩ := by
  subst split
  cases word with
  | nil => cases name
  | cons c word =>
    simp only [Word.isName, Bool.and_eq_true, List.all_eq_true] at name
    show identifier? (c :: (word ++ rest)) = _
    rw [identifier?, if_pos name.1]
    refine congrArg some (eq_of_text ?_)
    exact congrArg (c :: ·) (takeWhile_append_of_stops name.2 stops)

theorem isNamePart_of_mem_name (name : Word.isName word) : ∀ c ∈ word, isNamePart c := by
  cases word with
  | nil => cases name
  | cons c word =>
    simp only [Word.isName, Bool.and_eq_true, List.all_eq_true] at name
    refine List.forall_mem_cons.mpr ⟨?_, name.2⟩
    rw [isNamePart, name.1, Bool.true_or]

/-! ## 5. Texts in quotes

The quote behind a text ends it, so nothing is asked of what stands there. -/

/-- A text in quotes has no quote in between. -/
theorem isQuoted_iff : Word.isQuoted word ↔
    ∃ content, word = '"' :: (content ++ ['"']) ∧ '"' ∉ content := by
  constructor
  · intro quoted
    cases word with
    | nil => cases quoted
    | cons c rest =>
      simp only [Word.isQuoted, Bool.and_eq_true, decide_eq_true_eq] at quoted
      obtain ⟨⟨rfl, last⟩, count⟩ := quoted
      obtain ⟨content, rfl⟩ := List.getLast?_eq_some_iff.mp last
      rw [List.count_append, List.count_singleton_self] at count
      exact ⟨content, rfl, List.count_eq_zero.mp (by omega)⟩
  · rintro ⟨content, rfl, absent⟩
    simp [Word.isQuoted, List.count_eq_zero.mpr absent]

theorem ne_nil_of_isQuoted (quoted : Word.isQuoted word) : word ≠ [] := by
  rintro rfl
  cases quoted

/-- What is read as a text in quotes is one. -/
theorem isQuoted_of_quoted {lexeme : Lexeme source} (read : quoted source = .closed lexeme) :
    Word.isQuoted lexeme.text := by
  rw [quoted.eq_def] at read
  split at read
  · cases read
  · split at read
    · rename_i c source quote
      subst quote
      split at read
      · cases read
      · rename_i close rest left
        cases read
        have stop := List.head?_dropWhile_not (· ≠ '"') source
        rw [left] at stop
        have close : close = '"' := by simpa using stop
        subst close
        refine isQuoted_iff.mpr ⟨_, rfl, fun member => ?_⟩
        simpa using List.mem_takeWhile_imp member
    · cases read

/-- **A text in quotes is read as such**, whatever stands behind it.  The first quote behind the
opening one closes it, and the content has none. -/
theorem quoted_of_split (split : word ++ rest = source) (isQuoted : Word.isQuoted word) :
    quoted source = .closed ⟨word, rest, split, ne_nil_of_isQuoted isQuoted⟩ := by
  subst split
  obtain ⟨content, rfl, absent⟩ := isQuoted_iff.mp isQuoted
  have inside : ∀ c ∈ content, decide (c ≠ '"') = true := fun c member =>
    decide_eq_true fun same => absent (same ▸ member)
  have stop : Stops (fun c => decide (c ≠ '"')) ('"' :: rest) := fun c head => by
    cases head
    rfl
  have whole : content ++ ['"'] ++ rest = content ++ '"' :: rest := by simp
  have before := takeWhile_append_of_stops inside stop
  have behind := dropWhile_append_of_stops inside stop
  rw [← whole] at before behind
  show quoted ('"' :: (content ++ ['"'] ++ rest)) = _
  rw [quoted, if_pos rfl]
  split
  · rename_i left
    cases behind.symm.trans left
  · rename_i close left more
    cases behind.symm.trans more
    refine congrArg Quoted.closed (eq_of_text ?_)
    exact congrArg (fun inner => '"' :: inner ++ ['"']) before

/-! ## 6. Numerals

A numeral has three parts, and each is read as far as it goes; the point belongs to the mantissa
only if there are digits beside it, and the letter to the exponent only if there are digits behind
it.  So a numeral is read back where neither letter, digit nor point follows (`Boundary`). -/

/-- Among digits stands no point. -/
theorem point_not_mem_digits (digits : ∀ c ∈ word, c.isDigit) : '.' ∉ word := fun member => by
  cases digits '.' member

theorem filter_digits (digits : ∀ c ∈ word, c.isDigit) : word.filter (· ≠ '.') = word := by
  refine List.filter_eq_self.mpr fun c member => decide_eq_true ?_
  rintro rfl
  exact point_not_mem_digits digits member

theorem isDigit_of_no_point (each : ∀ c ∈ word, c.isDigit ∨ c = '.') (none : '.' ∉ word) :
    ∀ c ∈ word, c.isDigit := by
  intro c member
  rcases each c member with digit | rfl
  · exact digit
  · exact absurd member none

/-- A mantissa has digits, and perhaps a point, and nothing else. -/
theorem isMantissa_iff_count : Word.isMantissa word ↔
    (word.filter (· ≠ '.') ≠ [] ∧ ∀ c ∈ word.filter (· ≠ '.'), c.isDigit) ∧
      (∀ c ∈ word, c.isDigit ∨ c = '.') ∧ word.count '.' ≤ 1 := by
  simp only [Word.isMantissa, Word.isDigits, Bool.and_eq_true, Bool.not_eq_true',
    List.isEmpty_eq_false_iff, List.all_eq_true, Bool.or_eq_true, decide_eq_true_eq, and_assoc]

theorem isMantissa_of_digits (nonempty : word ≠ []) (digits : ∀ c ∈ word, c.isDigit) :
    Word.isMantissa word := by
  rw [isMantissa_iff_count, filter_digits digits,
    List.count_eq_zero.mpr (point_not_mem_digits digits)]
  exact ⟨⟨nonempty, digits⟩, fun c member => .inl (digits c member), Nat.zero_le 1⟩

theorem isMantissa_of_point {whole fraction : List Char} (atWhole : ∀ c ∈ whole, c.isDigit)
    (atFraction : ∀ c ∈ fraction, c.isDigit) (nonempty : whole ≠ [] ∨ fraction ≠ []) :
    Word.isMantissa (whole ++ '.' :: fraction) := by
  have filtered : (whole ++ '.' :: fraction).filter (· ≠ '.') = whole ++ fraction := by
    rw [List.filter_append, filter_digits atWhole, List.filter_cons_of_neg (by decide),
      filter_digits atFraction]
  have count : (whole ++ '.' :: fraction).count '.' = 1 := by
    rw [List.count_append, List.count_cons_self,
      List.count_eq_zero.mpr (point_not_mem_digits atWhole),
      List.count_eq_zero.mpr (point_not_mem_digits atFraction)]
  rw [isMantissa_iff_count, filtered, count]
  refine ⟨⟨?_, ?_⟩, ?_, Nat.le_refl 1⟩
  · rw [Ne, List.append_eq_nil_iff]
    exact not_and_or.mpr nonempty
  · exact List.forall_mem_append.mpr ⟨atWhole, atFraction⟩
  · refine List.forall_mem_append.mpr ⟨fun c member => .inl (atWhole c member), ?_⟩
    exact List.forall_mem_cons.mpr ⟨.inr rfl, fun c member => .inl (atFraction c member)⟩

/-- **A mantissa** is digits, with or without a point.  The count of points, one or none, says which
of the two forms it is. -/
theorem isMantissa_iff : Word.isMantissa word ↔
    (word ≠ [] ∧ ∀ c ∈ word, c.isDigit) ∨
      ∃ whole fraction, word = whole ++ '.' :: fraction ∧ (∀ c ∈ whole, c.isDigit) ∧
        (∀ c ∈ fraction, c.isDigit) ∧ (whole ≠ [] ∨ fraction ≠ []) := by
  constructor
  · intro mantissa
    obtain ⟨⟨nonempty, -⟩, each, count⟩ := isMantissa_iff_count.mp mantissa
    by_cases point : '.' ∈ word
    · right
      obtain ⟨whole, fraction, rfl⟩ := List.append_of_mem point
      rw [List.count_append, List.count_cons_self] at count
      have atWhole : '.' ∉ whole := List.count_eq_zero.mp (by omega)
      have atFraction : '.' ∉ fraction := List.count_eq_zero.mp (by omega)
      refine ⟨whole, fraction, rfl, isDigit_of_no_point (fun c member => each c (by simp [member]))
        atWhole, isDigit_of_no_point (fun c member => each c (by simp [member])) atFraction, ?_⟩
      by_contra neither
      obtain ⟨rfl, rfl⟩ : whole = [] ∧ fraction = [] := by simpa using neither
      exact nonempty rfl
    · left
      refine ⟨?_, isDigit_of_no_point each point⟩
      rintro rfl
      exact nonempty rfl
  · rintro (⟨nonempty, digits⟩ | ⟨whole, fraction, rfl, atWhole, atFraction, nonempty⟩)
    · exact isMantissa_of_digits nonempty digits
    · exact isMantissa_of_point atWhole atFraction nonempty

/-- Digits are read up to where they stop. -/
theorem digits_of_stops (all : ∀ c ∈ word, c.isDigit) (stops : Stops Char.isDigit rest) :
    digits (word ++ rest) = (word, rest) := by
  rw [digits, takeWhile_append_of_stops all stops, dropWhile_append_of_stops all stops]

theorem isDigit_of_mem_digits {found : List Char} (read : digits source = (found, rest)) :
    ∀ c ∈ found, c.isDigit := by
  intro c member
  have same : source.takeWhile Char.isDigit = found := congrArg Prod.fst read
  rw [← same] at member
  exact List.mem_takeWhile_imp member

/-- What is read as a mantissa is one.  Four ways to read one: digits or none, in front of a point
or of none. -/
theorem isMantissa_of_mantissa? {lexeme : Lexeme source} (read : mantissa? source = some lexeme) :
    Word.isMantissa lexeme.text := by
  rw [mantissa?] at read
  split at read
  · rename_i rest _
    split at read
    · cases read
    · rename_i f fraction rest' hf
      cases read
      exact isMantissa_of_point (List.forall_mem_nil _) (isDigit_of_mem_digits hf)
        (.inr (List.cons_ne_nil _ _))
  · cases read
  · rename_i w whole rest hw
    cases read
    have fraction : digits rest = ((digits rest).1, (digits rest).2) := rfl
    exact isMantissa_of_point (isDigit_of_mem_digits hw) (isDigit_of_mem_digits fraction)
      (.inl (List.cons_ne_nil _ _))
  · rename_i w whole rest _ hw
    cases read
    exact isMantissa_of_digits (List.cons_ne_nil _ _) (isDigit_of_mem_digits hw)

theorem ne_nil_of_isMantissa (mantissa : Word.isMantissa word) : word ≠ [] := by
  rintro rfl
  cases mantissa

theorem mantissa?_of_digits (nonempty : word ≠ []) (all : ∀ c ∈ word, c.isDigit)
    (digit : Stops Char.isDigit rest) (point : Stops (· = '.') rest) :
    mantissa? (word ++ rest) = some ⟨word, rest, rfl, nonempty⟩ := by
  have read := digits_of_stops all digit
  rw [mantissa?]
  split
  · rename_i hw
    cases read.symm.trans hw
    exact absurd rfl nonempty
  · rename_i hw
    cases read.symm.trans hw
    exact absurd rfl nonempty
  · rename_i hw
    cases read.symm.trans hw
    cases point '.' rfl
  · rename_i hw
    cases read.symm.trans hw
    rfl

/-- A mantissa with a point is read as such, where no digit follows it. -/
theorem mantissa?_of_point {whole fraction : List Char} (atWhole : ∀ c ∈ whole, c.isDigit)
    (atFraction : ∀ c ∈ fraction, c.isDigit) (nonempty : whole ≠ [] ∨ fraction ≠ [])
    (digit : Stops Char.isDigit rest) : mantissa? (whole ++ '.' :: fraction ++ rest)
      = some ⟨whole ++ '.' :: fraction, rest, rfl, by simp⟩ := by
  have read : digits (whole ++ '.' :: fraction ++ rest) = (whole, '.' :: (fraction ++ rest)) := by
    have stop : Stops Char.isDigit ('.' :: (fraction ++ rest)) := fun c head => by
      cases head
      rfl
    rw [List.append_assoc]
    exact digits_of_stops atWhole stop
  have more := digits_of_stops atFraction digit
  rw [mantissa?]
  split
  · rename_i hw
    cases read.symm.trans hw
    split
    · rename_i hf
      cases more.symm.trans hf
      simp at nonempty
    · rename_i hf
      cases more.symm.trans hf
      exact congrArg some (eq_of_text rfl)
  · rename_i other hw
    cases read.symm.trans hw
    exact absurd rfl (other _)
  · rename_i w whole rest' hw
    cases read.symm.trans hw
    refine congrArg some (eq_of_text ?_)
    exact congrArg (fun found => w :: whole ++ '.' :: found) (congrArg Prod.fst more)
  · rename_i other hw
    cases read.symm.trans hw
    exact absurd rfl (other _)

/-- **A mantissa is read as such** in front of what is neither a digit nor a point. -/
theorem mantissa?_of_split (split : word ++ rest = source) (mantissa : Word.isMantissa word)
    (digit : Stops Char.isDigit rest) (point : Stops (· = '.') rest) :
    mantissa? source = some ⟨word, rest, split, ne_nil_of_isMantissa mantissa⟩ := by
  subst split
  rcases isMantissa_iff.mp mantissa with
    ⟨nonempty, all⟩ | ⟨whole, fraction, rfl, atWhole, atFraction, nonempty⟩
  · exact mantissa?_of_digits nonempty all digit point
  · exact mantissa?_of_point atWhole atFraction nonempty digit

/-- What is read as an exponent is a letter and an exponent behind it, or nothing at all.  A letter
without digits behind it is left to what follows. -/
theorem exponent_cases (source : List Char) : (exponent source).1 = [] ∨
    ∃ letter power, (exponent source).1 = letter :: power ∧ (letter = 'e' ∨ letter = 'E') ∧
      Word.isExponent power := by
  unfold exponent
  split
  · exact .inl rfl
  · rename_i c rest
    split
    · rename_i letter
      split
      · exact .inl rfl
      · rename_i d more rest' hd
        refine .inr ⟨c, _, rfl, letter, ?_⟩
        have all := isDigit_of_mem_digits hd
        have isDigits : Word.isDigits (d :: more) := by simpa [Word.isDigits] using all
        have first : d.isDigit := all d List.mem_cons_self
        have notSign : ¬ (d = '+' ∨ d = '-') := by
          rintro (rfl | rfl) <;> cases first
        unfold sign
        split
        · simpa [Word.isExponent] using isDigits
        · simpa [Word.isExponent] using isDigits
        · simpa [Word.isExponent, notSign] using isDigits
    · exact .inl rfl

theorem exponent_of_stops (stops : Stops (fun c => c = 'e' || c = 'E') rest) :
    exponent rest = ([], rest) := by
  cases rest with
  | nil => rfl
  | cons c rest =>
    have other : ¬ (c = 'e' ∨ c = 'E') := by simpa using stops c rfl
    rw [exponent, if_neg other]

/-- **An exponent is read as such** in front of what is no digit.  With or without a sign, the
digits go as far as they can. -/
theorem exponent_of_split {letter : Char} {power : List Char}
    (isLetter : letter = 'e' ∨ letter = 'E')
    (isExponent : Word.isExponent power) (digit : Stops Char.isDigit rest) :
    exponent (letter :: power ++ rest) = (letter :: power, rest) := by
  have plain : ∀ {l : List Char}, Word.isDigits l → ∀ front : List Char,
      sign (front ++ l ++ rest) = (front, l ++ rest) → power = front ++ l →
      exponent (letter :: power ++ rest) = (letter :: power, rest) := by
    intro l isDigits front signed whole
    simp only [Word.isDigits, Bool.and_eq_true, Bool.not_eq_true', List.isEmpty_eq_false_iff,
      List.all_eq_true] at isDigits
    have read := digits_of_stops isDigits.2 digit
    rw [List.cons_append, exponent, if_pos isLetter, whole, signed]
    dsimp only
    rw [read]
    obtain ⟨d, more, rfl⟩ := List.exists_cons_of_ne_nil isDigits.1
    rfl
  cases power with
  | nil => cases isExponent
  | cons c power =>
    rw [Word.isExponent] at isExponent
    split at isExponent
    · rename_i sign
      refine plain isExponent [c] ?_ rfl
      rcases sign with rfl | rfl <;> rfl
    · rename_i notSign
      refine plain isExponent [] ?_ rfl
      unfold Lexeme.sign
      split
      · rename_i same
        cases same
        exact absurd (.inl rfl) notSign
      · rename_i same
        cases same
        exact absurd (.inr rfl) notSign
      · rfl

/-- Whether a letter starts an exponent. -/
def notLetter (c : Char) : Bool := c ≠ 'e' ∧ c ≠ 'E'

theorem notLetter_of_mem_mantissa (mantissa : Word.isMantissa word) :
    ∀ c ∈ word, notLetter c := by
  intro c member
  simp only [Word.isMantissa, Bool.and_eq_true, List.all_eq_true, Bool.or_eq_true,
    decide_eq_true_eq] at mantissa
  refine decide_eq_true ⟨?_, ?_⟩ <;> rintro rfl <;>
    · rcases mantissa.1.2 _ member with digit | same
      · cases digit
      · cases same

/-- **A numeral** is a mantissa, with or without an exponent. -/
theorem isNumeral_of_no_letter (none : word.dropWhile notLetter = []) :
    Word.isNumeral word = Word.isMantissa word := by
  have none : word.dropWhile (fun c => decide (c ≠ 'e' ∧ c ≠ 'E')) = [] := none
  unfold Word.isNumeral
  rw [none]

theorem isNumeral_of_letter {letter : Char} {power : List Char}
    (left : word.dropWhile notLetter = letter :: power) : Word.isNumeral word
      = (Word.isMantissa (word.takeWhile notLetter) && Word.isExponent power) := by
  have left : word.dropWhile (fun c => decide (c ≠ 'e' ∧ c ≠ 'E')) = letter :: power := left
  unfold Word.isNumeral
  rw [left]
  rfl

/-- A numeral is a mantissa, or a mantissa and an exponent behind a letter.  The first letter ends
the mantissa. -/
theorem isNumeral_iff : Word.isNumeral word ↔ Word.isMantissa word ∨
    ∃ mantissa letter power, word = mantissa ++ letter :: power ∧ Word.isMantissa mantissa ∧
      (letter = 'e' ∨ letter = 'E') ∧ Word.isExponent power := by
  constructor
  · intro numeral
    cases left : word.dropWhile notLetter with
    | nil =>
      rw [isNumeral_of_no_letter left] at numeral
      exact .inl numeral
    | cons letter power =>
      rw [isNumeral_of_letter left, Bool.and_eq_true] at numeral
      have stop := List.head?_dropWhile_not notLetter word
      rw [left] at stop
      refine .inr ⟨word.takeWhile notLetter, letter, power, ?_, numeral.1, ?_, numeral.2⟩
      · rw [← left, List.takeWhile_append_dropWhile]
      · by_contra neither
        have : notLetter letter = true := decide_eq_true (not_or.mp neither)
        simp [this] at stop
  · rintro (mantissa | ⟨mantissa, letter, power, rfl, isMantissa, isLetter, isExponent⟩)
    · have none : word.dropWhile notLetter = [] :=
        List.dropWhile_eq_nil_iff.mpr (notLetter_of_mem_mantissa mantissa)
      rwa [isNumeral_of_no_letter none]
    · have stop : Stops notLetter (letter :: power) := fun c head => by
        cases head
        rcases isLetter with rfl | rfl <;> rfl
      have before := notLetter_of_mem_mantissa isMantissa
      rw [isNumeral_of_letter (dropWhile_append_of_stops before stop),
        takeWhile_append_of_stops before stop, isMantissa, isExponent]
      rfl

/-- What is read as a number literal is a numeral. -/
theorem isNumeral_of_number? {lexeme : Lexeme source} (read : number? source = some lexeme) :
    Word.isNumeral lexeme.text := by
  rw [number?, Option.map_eq_some_iff] at read
  obtain ⟨mantissa, atMantissa, rfl⟩ := read
  have isMantissa := isMantissa_of_mantissa? atMantissa
  rcases exponent_cases mantissa.rest with none | ⟨letter, power, same, isLetter, isExponent⟩
  · refine isNumeral_iff.mpr (.inl ?_)
    simpa [none] using isMantissa
  · exact isNumeral_iff.mpr (.inr ⟨_, _, _, by simp [same], isMantissa, isLetter, isExponent⟩)

theorem ne_nil_of_isNumeral (numeral : Word.isNumeral word) : word ≠ [] := by
  rintro rfl
  cases numeral

/-- A numeral starts with a digit or a point. -/
theorem exists_of_isNumeral (numeral : Word.isNumeral word) :
    ∃ c rest, word = c :: rest ∧ (c.isDigit ∨ c = '.') := by
  have atMantissa : ∀ {l : List Char}, Word.isMantissa l →
      ∃ c rest, l = c :: rest ∧ (c.isDigit ∨ c = '.') := by
    intro l mantissa
    obtain ⟨c, rest, rfl⟩ := List.exists_cons_of_ne_nil (ne_nil_of_isMantissa mantissa)
    simp only [Word.isMantissa, Bool.and_eq_true, List.all_eq_true, Bool.or_eq_true,
      decide_eq_true_eq] at mantissa
    exact ⟨c, rest, rfl, mantissa.1.2 c List.mem_cons_self⟩
  rcases isNumeral_iff.mp numeral with mantissa | ⟨m, letter, power, rfl, mantissa, -⟩
  · exact atMantissa mantissa
  · obtain ⟨c, rest, rfl, first⟩ := atMantissa mantissa
    exact ⟨c, rest ++ letter :: power, rfl, first⟩

/-- **What ends a word**: no letter, no digit and no point stands behind it. -/
def Boundary (rest : List Char) : Prop := Stops (fun c => isNamePart c || c = '.') rest

theorem Boundary.stops (boundary : Boundary rest)
    (h : ∀ c, isNamePart c = false → c ≠ '.' → p c = false) : Stops p rest := fun c head => by
  have both := boundary c head
  simp only [Bool.or_eq_false_iff, decide_eq_false_iff_not] at both
  exact h c both.1 both.2

/-- **A numeral is read as such** at a boundary.  Nothing that a boundary allows would have been
read on. -/
theorem number?_of_split (split : word ++ rest = source) (numeral : Word.isNumeral word)
    (boundary : Boundary rest) :
    number? source = some ⟨word, rest, split, ne_nil_of_isNumeral numeral⟩ := by
  have digit : Stops Char.isDigit rest := boundary.stops fun c name _ => by
    simp only [isNamePart, Bool.or_eq_false_iff] at name
    exact name.2
  have point : Stops (· = '.') rest := boundary.stops fun c _ other => decide_eq_false other
  have letter : Stops (fun c => c = 'e' || c = 'E') rest := boundary.stops fun c name _ => by
    rw [Bool.or_eq_false_iff, decide_eq_false_iff_not, decide_eq_false_iff_not]
    constructor <;> rintro rfl <;> cases name
  subst split
  rcases isNumeral_iff.mp numeral with
    mantissa | ⟨mantissa, letter, power, rfl, isMantissa, isLetter, isExponent⟩
  · rw [number?, mantissa?_of_split rfl mantissa digit point]
    refine congrArg some (eq_of_text ?_)
    simp [exponent_of_stops letter]
  · have notDigit : Stops Char.isDigit (letter :: power ++ rest) := fun c head => by
      cases head
      rcases isLetter with rfl | rfl <;> rfl
    have notPoint : Stops (· = '.') (letter :: power ++ rest) := fun c head => by
      cases head
      rcases isLetter with rfl | rfl <;> rfl
    have split : mantissa ++ (letter :: power ++ rest) = mantissa ++ letter :: power ++ rest := by
      simp
    rw [number?, mantissa?_of_split split isMantissa notDigit notPoint]
    refine congrArg some (eq_of_text ?_)
    show mantissa ++ (exponent (letter :: power ++ rest)).1 = _
    rw [exponent_of_split isLetter isExponent digit]

/-! ## 7. Words and blanks

No word has a blank at its ends, so trimming leaves words alone. -/

/-- **The characters of numerals**: digits, the point, the exponent letters and signs.  In the
mantissa they are digits and the point, and behind the letter digits and a sign in front of them. -/
theorem mem_numeral (numeral : Word.isNumeral word) :
    ∀ c ∈ word, c.isDigit ∨ c ∈ ['.', 'e', 'E', '+', '-'] := by
  have atMantissa : ∀ {l : List Char}, Word.isMantissa l → ∀ c ∈ l, c.isDigit ∨ c = '.' := by
    intro l mantissa c member
    simp only [Word.isMantissa, Bool.and_eq_true, List.all_eq_true, Bool.or_eq_true,
      decide_eq_true_eq] at mantissa
    exact mantissa.1.2 c member
  have atDigits : ∀ {l : List Char}, Word.isDigits l → ∀ c ∈ l, c.isDigit := by
    intro l digits c member
    simp only [Word.isDigits, Bool.and_eq_true, List.all_eq_true] at digits
    exact digits.2 c member
  rcases isNumeral_iff.mp numeral with
    mantissa | ⟨mantissa, letter, power, rfl, isMantissa, isLetter, isExponent⟩
  · intro c member
    exact (atMantissa mantissa c member).imp_right (by rintro rfl; decide)
  · intro c member
    rcases List.mem_append.mp member with member | member
    · exact (atMantissa isMantissa c member).imp_right (by rintro rfl; decide)
    rcases List.mem_cons.mp member with rfl | member
    · rcases isLetter with rfl | rfl <;> decide
    cases power with
    | nil => cases member
    | cons sign power =>
      rw [Word.isExponent] at isExponent
      split at isExponent
      · rename_i isSign
        rcases List.mem_cons.mp member with rfl | member
        · rcases isSign with rfl | rfl <;> decide
        · exact .inl (atDigits isExponent c member)
      · exact .inl (atDigits isExponent c member)

theorem isBlank_of_mem_numeral (numeral : Word.isNumeral word) : ∀ c ∈ word, isBlank c = false := by
  intro c member
  have others : ∀ c ∈ ['.', 'e', 'E', '+', '-'], isBlank c = false := by simp [isBlank]
  rcases mem_numeral numeral c member with digit | other
  · exact isBlank_of_isDigit digit
  · exact others c other

theorem trim_of_not_blank (h : ∀ c ∈ word, isBlank c = false) : trim word = word :=
  trim_eq_self (fun c head => h c (List.mem_of_mem_head? head))
    (fun c last => h c (List.mem_of_mem_getLast? last))

theorem trim_of_isNumeral (numeral : Word.isNumeral word) : trim word = word :=
  trim_of_not_blank (isBlank_of_mem_numeral numeral)

theorem trim_of_isName (name : Word.isName word) : trim word = word :=
  trim_of_not_blank fun c member => isBlank_of_isNamePart (isNamePart_of_mem_name name c member)

/-- Blanks inside quotes stay. -/
theorem trim_of_isQuoted (isQuoted : Word.isQuoted word) : trim word = word := by
  obtain ⟨content, rfl, _⟩ := isQuoted_iff.mp isQuoted
  refine trim_eq_self (fun c head => ?_) fun c last => ?_
  · cases head
    decide
  · rw [← List.cons_append, List.getLast?_concat] at last
    cases last
    decide

end Lexeme
end DecimalExpression
