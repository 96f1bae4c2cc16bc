import DecimalExpression.Proofs.Decimal.Digits
import DecimalExpression.Proofs.Decimal.Numerals

/-!
# Decimals that are written

Whichever form a decimal is written in, its text is a numeral behind its sign
(`Decimal.reads_unsigned`), so it is read.  What is read is the decimal itself, but for zeros: zero
has lost its scale, and so has an integer whose zeros are written out
(`Decimal.readChars_writeChars`).

So the text of a decimal stands for the same number wherever an operand is wanted, with blanks
around it or not (`Value.toDecimal_write`).
-/

namespace DecimalExpression

/-! ## 1. What characters read as

What is written is read back by way of a numeral, so "reads as" means that there is one with that
decimal.  That leaves the size of the exponent, which the reader limits, and the scale. -/

/-- **Characters that read as a decimal**: they are a numeral of it, and its exponent is not too
large. -/
def Reads (chars : List Char) (d : Decimal) : Prop :=
  ∃ n : Numeral, chars = n.chars ∧ n.decimal = d ∧ ∀ e ∈ n.exponent,
    e.value.natAbs ≤ Decimal.largestExponent

section Reads

variable {chars : List Char} {d : Decimal}

theorem exponents_read {n : Numeral}
    (small : ∀ e ∈ n.exponent, e.value.natAbs ≤ Decimal.largestExponent) :
    ∀ e ∈ n.exponent, Decimal.readExponent e.power = .ok e.value := fun e member =>
  (Numeral.readExponent_power e).resolve_right fun beyond =>
    absurd (small e member) (Nat.not_le.mpr beyond.1)

/-- They do, if the scale is an integer of 64 bits. -/
theorem Reads.readChars (reads : Reads chars d) (fits : Decimal.scaleFits d.scale) :
    Decimal.readChars chars = .ok d := by
  obtain ⟨n, rfl, rfl, small⟩ := reads
  exact (Numeral.readChars_eq_ok_iff_of_exponent (exponents_read small)).mpr ⟨fits, rfl⟩

/-- Behind a minus they read as its negative. -/
theorem Reads.readChars_minus (reads : Reads chars d) (fits : Decimal.scaleFits d.scale) :
    Decimal.readChars ('-' :: chars) = .ok d.neg := by
  have unsigned := reads.readChars fits
  obtain ⟨n, rfl, -, -⟩ := reads
  refine Numeral.readChars_minus_eq_ok_iff.mpr ?_
  rwa [Decimal.neg_eq_iff.mpr rfl]

theorem Reads.not_blank (reads : Reads chars d) : ∀ c ∈ chars, Text.isBlank c = false := by
  obtain ⟨n, rfl, -, -⟩ := reads
  exact Lexeme.isBlank_of_mem_numeral n.isNumeral_chars

end Reads

/-! ## 2. The three forms

Each form is a numeral by construction, and what has to be shown is that its digits spell the
unscaled integer and that places and exponent add up to the scale.  Zeros are the only digits that
are written without being there: in front of few digits behind the point, and behind an integer. -/

namespace Decimal

variable {digits : List Char} {n : Nat} {scale : Int} {d : Decimal}

/-- An exponent with a written number. -/
def writtenExponent (letter : Char) (isLetter : letter = 'e' ∨ letter = 'E') (sign : Char)
    (isSign : sign = '+' ∨ sign = '-') (number : Nat) : Numeral.Exponent :=
  ⟨letter, some sign, Digits.write number, isLetter, fun _ same => Option.some.inj same ▸ isSign,
    Digits.isDigit_of_mem_write number, Digits.write_ne_nil number⟩

/-- A numeral reads as its decimal. -/
theorem reads_numeral (m : Numeral) (spell : Digits.Spell m.digits n)
    (small : ∀ e ∈ m.exponent, e.value.natAbs ≤ largestExponent) : Reads m.chars ⟨n, m.scale⟩ :=
  ⟨m, rfl, by rw [Numeral.decimal, spell.read_eq], small⟩

/-- **One digit in front of the point**, and no point behind a single digit. -/
theorem exists_writeSmall {c : Char} {more : List Char} (allDigits : ∀ d ∈ c :: more, d.isDigit)
    (exponent : Option Numeral.Exponent) :
    ∃ m : Numeral, m.digits = c :: more ∧ m.places = more.length ∧
      m.exponent = exponent ∧ ∀ scale, writeSmall (c :: more) scale = m.mantissa
        ++ 'E' :: (if (more.length : Int) - scale < 0 then '-' else '+')
        :: Digits.write ((more.length : Int) - scale).natAbs := by
  obtain ⟨digit, others⟩ := List.forall_mem_cons.mp allDigits
  cases more with
  | nil =>
    refine ⟨⟨[c], none, exponent, List.forall_mem_singleton.mpr digit, by rintro _ ⟨⟩,
      .inl (List.cons_ne_nil _ _)⟩, rfl, rfl, rfl, fun scale => rfl⟩
  | cons second rest =>
    refine ⟨⟨[c], some (second :: rest), exponent, List.forall_mem_singleton.mpr digit,
      by rintro _ ⟨⟩; exact others, .inl (List.cons_ne_nil _ _)⟩, rfl, rfl, rfl, fun scale => ?_⟩
    have length : ((c :: second :: rest).length : Int) - 1 = (second :: rest).length := by simp
    rw [writeSmall, length]
    rfl

/-- **Many places**: one digit in front of the point, and an exponent that is negative.  The
exponent takes back the places that the point has been moved by. -/
theorem reads_writeSmall (spell : Digits.Spell digits n) (places : (digits.length : Int) ≤ scale)
    (small : scale.natAbs ≤ largestExponent) : Reads (writeSmall digits scale) ⟨n, scale⟩ := by
  obtain ⟨c, more, rfl⟩ := List.exists_cons_of_ne_nil spell.nonempty
  rw [List.length_cons] at places
  let e := writtenExponent 'E' (.inr rfl) '-' (.inr rfl) ((more.length : Int) - scale).natAbs
  have value : e.value = more.length - scale := by
    show -(Digits.read (Digits.write _) : Int) = _
    rw [Digits.read_write]
    omega
  obtain ⟨m, isDigits, isPlaces, isExponent, written⟩ := exists_writeSmall spell.allDigits (some e)
  have reads := reads_numeral m (isDigits ▸ spell) (by
    rw [isExponent]
    rintro _ ⟨⟩
    rw [value]
    omega)
  have isScale : m.scale = scale := by
    rw [Numeral.scale, isPlaces, isExponent, Option.elim_some, value]
    omega
  rw [Numeral.chars, isExponent, isScale] at reads
  rw [written, if_pos (by omega)]
  exact reads

/-- **Many zeros**: the digits, and an exponent that is positive. -/
theorem reads_writeLarge (spell : Digits.Spell digits n) (zeros : scale ≤ 0)
    (small : scale.natAbs ≤ largestExponent) : Reads (writeLarge digits scale) ⟨n, scale⟩ := by
  let e := writtenExponent 'e' (.inl rfl) '+' (.inl rfl) scale.natAbs
  have value : e.value = -scale := by
    show (Digits.read (Digits.write _) : Int) = _
    rw [Digits.read_write]
    omega
  let m : Numeral := ⟨digits, none, some e, spell.allDigits, by rintro _ ⟨⟩, .inl spell.nonempty⟩
  have reads : Reads m.chars ⟨n, 0 - e.value⟩ :=
    reads_numeral m (by simpa [m, Numeral.digits] using spell) (by
    rintro _ ⟨⟩
    rw [value]
    omega)
  rw [value, zero_sub, neg_neg] at reads
  simpa [m, Numeral.chars, Numeral.mantissa, e, writtenExponent, Numeral.Exponent.power,
    writeLarge] using reads

/-- Digits without an exponent, the last of them behind a point. -/
theorem reads_pointed {whole fraction : List Char} (spell : Digits.Spell (whole ++ fraction) n)
    (some : whole ≠ []) :
    Reads (whole ++ '.' :: fraction) ⟨n, fraction.length⟩ := by
  obtain ⟨wholeDigits, fractionDigits⟩ := List.forall_mem_append.mp spell.allDigits
  let m : Numeral :=
    ⟨whole, .some fraction, none, wholeDigits, by rintro _ ⟨⟩; exact fractionDigits, .inl some⟩
  have reads := reads_numeral m spell (by rintro _ ⟨⟩)
  simpa [m, Numeral.chars, Numeral.mantissa, Numeral.scale, Numeral.places] using reads

theorem reads_digits (spell : Digits.Spell digits n) : Reads digits ⟨n, 0⟩ := by
  let m : Numeral := ⟨digits, none, none, spell.allDigits, by rintro _ ⟨⟩, .inl spell.nonempty⟩
  have reads := reads_numeral m (by simpa [m, Numeral.digits] using spell) (by rintro _ ⟨⟩)
  simpa [m, Numeral.chars, Numeral.mantissa, Numeral.scale, Numeral.places] using reads

theorem isDigit_zeros (k : Nat) : ∀ c ∈ List.replicate k '0', c.isDigit := by
  intro c member
  rw [List.eq_of_mem_replicate member]
  rfl

/-- Zeros behind digits multiply by ten. -/
theorem spell_append_zeros (spell : Digits.Spell digits n) (k : Nat) :
    Digits.Spell (digits ++ List.replicate k '0') (n * 10 ^ k) where
  nonempty := List.append_ne_nil_of_left_ne_nil spell.nonempty _
  allDigits := List.forall_mem_append.mpr ⟨spell.allDigits, isDigit_zeros k⟩
  read_eq := by
    rw [Digits.read_append, spell.read_eq, Digits.read_zeros, List.length_replicate, add_zero]

/-- Zeros in front of digits leave the number as it is. -/
theorem spell_zeros_append (spell : Digits.Spell digits n) (k : Nat) :
    Digits.Spell (List.replicate k '0' ++ digits) n where
  nonempty := List.append_ne_nil_of_right_ne_nil _ spell.nonempty
  allDigits := List.forall_mem_append.mpr ⟨isDigit_zeros k, spell.allDigits⟩
  read_eq := by rw [Digits.read_append, spell.read_eq, Digits.read_zeros, zero_mul, zero_add]

/-- **An integer** is written with its zeros, at scale zero. -/
theorem reads_writePlain_of_zeros (spell : Digits.Spell digits n) (zeros : scale ≤ 0) :
    Reads (writePlain digits scale) ⟨(n * 10 ^ (-scale).toNat : Nat), 0⟩ := by
  have same : scale.natAbs = (-scale).toNat := by omega
  rw [writePlain, if_pos zeros, same]
  exact reads_digits (spell_append_zeros spell _)

/-- **A decimal with places** is written with a point, and with zeros in front if there are few
digits.  With fewer digits than places a zero stands in front of the point, and then as many as are
missing. -/
theorem reads_writePlain_of_places (spell : Digits.Spell digits n) (places : 0 < scale) :
    Reads (writePlain digits scale) ⟨n, scale⟩ := by
  have same : (scale.natAbs : Int) = scale := by omega
  rw [writePlain, if_neg (not_le.mpr places)]
  dsimp only
  split
  · rename_i few
    have padded := spell_zeros_append spell (scale.natAbs - digits.length + 1)
    rw [List.replicate_succ, List.cons_append] at padded
    have behind : (List.replicate (scale.natAbs - digits.length) '0' ++ digits).length
        = scale.natAbs := by
      rw [List.length_append, List.length_replicate, Nat.sub_add_cancel few]
    have pointed :
        Digits.Spell (['0'] ++ (List.replicate (scale.natAbs - digits.length) '0' ++ digits)) n :=
      padded
    have reads := reads_pointed pointed (List.cons_ne_nil _ _)
    rw [behind, same] at reads
    exact reads
  · rename_i many
    have behind : (digits.drop (digits.length - scale.natAbs)).length = scale.natAbs := by
      rw [List.length_drop]
      omega
    have some : digits.take (digits.length - scale.natAbs) ≠ [] := by
      rw [← List.length_pos_iff, List.length_take]
      omega
    have reads := reads_pointed (by rwa [List.take_append_drop]) some
    rw [behind, same] at reads
    exact reads

/-! ## 3. Reading a decimal that is written

Two decimals are not read back as they were: zero, and an integer whose zeros are written out.
`reread` says what is read instead, so that the main statement has no cases, and how far it is from
the decimal is said separately. -/

/-- **The decimal that a decimal is written as**: zero, and an integer whose zeros are written out,
have scale zero. -/
def reread (d : Decimal) : Decimal :=
  if d.isZero ∨ (d.scale ≤ 0 ∧ -d.scale ≤ trailingZeroLimit) then ⟨d.unscaledAt 0, 0⟩ else d

theorem isZero_iff_unscaled : d.isZero ↔ d.unscaled = 0 := by simp [isZero]

theorem reread_of_zero (zero : d.unscaled = 0) : d.reread = ⟨0, 0⟩ := by
  rw [reread, if_pos (.inl (isZero_iff_unscaled.mpr zero)), unscaledAt, zero, zero_mul]

theorem reread_of_zeros (zeros : d.scale ≤ 0) (few : -d.scale ≤ trailingZeroLimit) :
    d.reread = ⟨d.unscaledAt 0, 0⟩ := if_pos (.inr ⟨zeros, few⟩)

/-- **Only zeros are lost**: another decimal with places, or with more zeros than are written out,
is itself. -/
theorem reread_eq_self (nonzero : d.unscaled ≠ 0)
    (scale : 0 ≤ d.scale ∨ trailingZeroLimit < -d.scale) :
    d.reread = d := by
  by_cases whole : d.scale = 0
  · have few : -d.scale ≤ trailingZeroLimit := by
      rw [whole]
      decide
    have unit : d.unscaledAt 0 = d.unscaled := by
      rw [unscaledAt, whole]
      exact mul_one _
    rw [reread_of_zeros whole.le few, unit, ← whole]
  · refine if_neg ?_
    rintro (zero | ⟨zeros, few⟩)
    · exact nonzero (isZero_iff_unscaled.mp zero)
    · omega

/-- **It is the same number.** -/
theorem toRat_reread (d : Decimal) : d.reread.toRat = d.toRat := by
  by_cases zero : d.unscaled = 0
  · rw [reread_of_zero zero, toRat_eq, toRat_eq, zero, Int.cast_zero, zero_mul, zero_mul]
  rcases le_or_gt d.scale 0 with zeros | places
  · rcases le_or_gt (-d.scale) trailingZeroLimit with few | many
    · rw [reread_of_zeros zeros few, toRat_eq, neg_zero, zpow_zero, mul_one, cast_unscaledAt zeros,
        zpow_zero, mul_one]
    · rw [reread_eq_self zero (.inr many)]
  · rw [reread_eq_self zero (.inl places.le)]

/-- **The text of a decimal without its sign** reads as that decimal without its sign.  Four ways to
write a number, by its scale and its digits, and for each the numeral that is read: with an exponent
on either side, with a point, or with zeros behind. -/
theorem reads_unsigned (d : Decimal) (small : d.scale.natAbs ≤ scaleLimit) :
    ∃ unsigned, Reads unsigned ⟨d.reread.unscaled.natAbs, d.reread.scale⟩ ∧
      d.writeChars = if d.unscaled < 0 then '-' :: unsigned else unsigned := by
  have spell := Digits.spell_write d.unscaled.natAbs
  have limit : scaleLimit = 100000 := rfl
  have most : largestExponent = 2 ^ 127 - 1 := rfl
  have leading : leadingZeroLimit = 5 := rfl
  have trailing : trailingZeroLimit = 15 := rfl
  refine ⟨_, ?_, rfl⟩
  by_cases zero : d.unscaled = 0
  · -- Zero is written at scale zero, whatever its scale is.
    rw [reread_of_zero zero, if_pos (isZero_iff_unscaled.mpr zero), zero]
    exact reads_digits (Digits.spell_write 0)
  rw [if_neg (isZero_iff_unscaled.not.mpr zero)]
  split
  · rename_i places
    rw [reread_eq_self zero (.inl (by omega))]
    exact reads_writeSmall spell (by omega) (by omega)
  split
  · rename_i zeros
    rw [reread_eq_self zero (.inr zeros)]
    exact reads_writeLarge spell (by omega) (by omega)
  · rename_i few
    rcases lt_or_ge 0 d.scale with places | zeros
    · rw [reread_eq_self zero (.inl places.le)]
      exact reads_writePlain_of_places spell places
    · rw [reread_of_zeros zeros (not_lt.mp few), unscaledAt, Int.natAbs_mul, tenPower,
        Int.natAbs_natCast, zero_sub]
      exact reads_writePlain_of_zeros spell zeros

/-- Reading a decimal again keeps its sign. -/
theorem reread_sign (d : Decimal) : d.reread.unscaled < 0 ↔ d.unscaled < 0 := by
  rw [← toRat_lt_zero_iff, ← toRat_lt_zero_iff, toRat_reread]

theorem natAbs_scale_reread (d : Decimal) : d.reread.scale.natAbs ≤ d.scale.natAbs := by
  rw [reread]
  split
  · exact Nat.zero_le _
  · exact Nat.le_refl _

theorem scaleFits_reread (d : Decimal) (small : d.scale.natAbs ≤ scaleLimit) :
    scaleFits d.reread.scale := by
  have limit : scaleLimit = 100000 := rfl
  have less := d.natAbs_scale_reread
  rw [Bounded.scaleFits_iff]
  omega

/-- **What is written is read back** as the same number, and where no zeros are lost as the same
decimal. -/
theorem readChars_writeChars (d : Decimal) (small : d.scale.natAbs ≤ scaleLimit) :
    readChars d.writeChars = .ok d.reread := by
  obtain ⟨unsigned, reads, written⟩ := reads_unsigned d small
  have fits := d.scaleFits_reread small
  rw [written]
  split
  · rename_i negative
    have size : -(d.reread.unscaled.natAbs : Int) = d.reread.unscaled := by
      have := d.reread_sign.mpr negative
      omega
    rw [reads.readChars_minus fits, neg, size]
  · rename_i positive
    have size : (d.reread.unscaled.natAbs : Int) = d.reread.unscaled := by
      have := d.reread_sign.not.mpr positive
      omega
    rw [reads.readChars fits, size]

/-- No blank is written. -/
theorem not_blank_of_mem_writeChars (d : Decimal) (small : d.scale.natAbs ≤ scaleLimit) :
    ∀ c ∈ d.writeChars, Text.isBlank c = false := by
  obtain ⟨unsigned, reads, written⟩ := reads_unsigned d small
  rw [written]
  split
  · exact List.forall_mem_cons.mpr ⟨rfl, reads.not_blank⟩
  · exact reads.not_blank

end Decimal

/-! ## 4. Operands that are written decimals

As an operand a text is trimmed first.  The text of a decimal has no blank in it, so trimming takes
off just what was put around it, whatever blanks these are. -/

section Operands

variable {before behind : List Char}

/-- Blanks around a decimal are trimmed off. -/
theorem trim_writeChars (d : Decimal) (small : d.scale.natAbs ≤ scaleLimit)
    (blankBefore : ∀ c ∈ before, Text.isBlank c) (blankBehind : ∀ c ∈ behind, Text.isBlank c) :
    Text.trim (before ++ (d.writeChars ++ behind)) = d.writeChars := by
  rw [Text.trim_append_left blankBefore, Text.trim_append_right blankBehind]
  exact Lexeme.trim_of_not_blank (d.not_blank_of_mem_writeChars small)

/-- **The text of a decimal, as an operand**, stands for what it is read as. -/
theorem Value.toDecimal_writeChars (d : Decimal) (small : d.scale.natAbs ≤ scaleLimit)
    (blankBefore : ∀ c ∈ before, Text.isBlank c) (blankBehind : ∀ c ∈ behind, Text.isBlank c) :
    (text (String.ofList (before ++ (d.writeChars ++ behind)))).toDecimal = .ok d.reread := by
  have inRange : d.reread.InRange := Decimal.inRange_iff.mpr (d.natAbs_scale_reread.trans small)
  rw [toDecimal, String.toList_ofList, trim_writeChars d small blankBefore blankBehind,
    d.readChars_writeChars small]
  dsimp only
  rw [Decimal.checkScale_of_inRange inRange]
  rfl

/-- With bounded scales it does too. -/
theorem Bounded.toDecimal_writeChars (d : Decimal) (small : d.scale.natAbs ≤ scaleLimit)
    (blankBefore : ∀ c ∈ before, Text.isBlank c) (blankBehind : ∀ c ∈ behind, Text.isBlank c) :
    toDecimal (.text (String.ofList (before ++ (d.writeChars ++ behind)))) = .ok d.reread := by
  have inRange : d.reread.InRange := Decimal.inRange_iff.mpr (d.natAbs_scale_reread.trans small)
  have fits := d.scaleFits_reread small
  rw [toDecimal, String.toList_ofList, trim_writeChars d small blankBefore blankBehind,
    d.readChars_writeChars small]
  dsimp only
  rw [asFault_checkScale fits (scale_ne_leastWord inRange), Decimal.checkScale_of_inRange inRange]
  rfl

/-- **The text of a decimal coerces back to it**, with any blanks around it and with bounded scales
too: to the same number always, and to the same unscaled integer and scale if it is neither zero nor
of a negative scale. -/
theorem Value.toDecimal_write (d : Decimal) (small : d.scale.natAbs ≤ scaleLimit)
    (before behind : String)
    (blankBefore : ∀ c ∈ before.toList, Text.isBlank c)
    (blankBehind : ∀ c ∈ behind.toList, Text.isBlank c) :
    ∃ e, (text (before ++ (decimal d).write ++ behind)).toDecimal = .ok e ∧
      Bounded.toDecimal (text (before ++ (decimal d).write ++ behind)) = .ok e ∧
      e.toRat = d.toRat ∧ (d.unscaled ≠ 0 → 0 ≤ d.scale → e = d) := by
  have chars : before ++ (decimal d).write ++ behind
      = String.ofList (before.toList ++ (d.writeChars ++ behind.toList)) := by
    rw [← String.toList_inj]
    simp [write, Decimal.write]
  rw [chars]
  exact ⟨d.reread, toDecimal_writeChars d small blankBefore blankBehind,
    Bounded.toDecimal_writeChars d small blankBefore blankBehind, d.toRat_reread,
    fun nonzero places => Decimal.reread_eq_self nonzero (.inl places)⟩

/-- `-1.2E-9`, behind a no-break space and in front of an ideographic one. -/
theorem Value.toDecimal_write_small : ∃ e,
    (text ("\u00a0" ++ (decimal ⟨-12, 10⟩).write ++ "\u3000")).toDecimal = .ok e ∧
      Bounded.toDecimal (text ("\u00a0" ++ (decimal ⟨-12, 10⟩).write ++ "\u3000")) = .ok e ∧
      e.toRat = (⟨-12, 10⟩ : Decimal).toRat ∧ ((-12 : Int) ≠ 0 → (0 : Int) ≤ 10 → e = ⟨-12, 10⟩) :=
  toDecimal_write ⟨-12, 10⟩ (by decide) _ _ (by simp [Text.isBlank]) (by simp [Text.isBlank])

end Operands
end DecimalExpression
