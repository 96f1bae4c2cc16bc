import DecimalExpression.Json.Binding
import DecimalExpression.Json.Meaning
import DecimalExpression.Proofs.Decimal.Numerals

/-!
# What JSON numbers are read as

Behind its sign a text of a number is a numeral of the language (`JsonNumber.exists_numeral`), so it
is read as the decimal that it stands for, unless its scale is no integer of 64 bits.  The value of
a number follows: it is the decimal of the number where the scale is within the limit
(`Value.ofJsonNumber_ok`), the check overflows at the least scale of 64 bits
(`Value.ofJsonNumber_overflow`), and any other number is refused (`Value.ofJsonNumber_refused`).
-/

namespace DecimalExpression

/-! ## 1. Numbers as numerals

The parts of a number in JSON are the parts of a numeral, with one difference in writing: the number
keeps whether its exponent is negative, a numeral keeps the sign as it was written.  So a number may
be written with a plus that its text did not have, and its length is that of the text or one more
(`length_write_le`). -/

namespace JsonNumber

variable {n : JsonNumber} {text power : List Char}

/-- An exponent is that of a numeral. -/
theorem exists_exponent {e : Bool × List Char} (digits : IsDigits e.2)
    (spells : SpellsExponent power (some e)) :
    ∃ exponent : Numeral.Exponent, power = exponent.letter :: exponent.power ∧
      exponent.value = if e.1 then -(Digits.read e.2 : Int) else Digits.read e.2 := by
  cases spells with
  | @unsigned letter isLetter word =>
    exact ⟨⟨letter, none, word, isLetter, by rintro _ ⟨⟩, digits.2, digits.1⟩, rfl, rfl⟩
  | @plus letter isLetter word =>
    exact ⟨⟨letter, some '+', word, isLetter, by rintro _ ⟨⟩; exact .inl rfl, digits.2,
      digits.1⟩, rfl, rfl⟩
  | @minus letter isLetter word =>
    exact ⟨⟨letter, some '-', word, isLetter, by rintro _ ⟨⟩; exact .inr rfl, digits.2,
      digits.1⟩, rfl, rfl⟩

/-- **Behind its sign a number is a numeral.**  Its grammar is narrower than that of numerals: no
zero in front, and digits on both sides of the point. -/
theorem exists_numeral (spells : n.Spells text) : ∃ m : Numeral, text = n.sign ++ m.chars ∧
    m.digits = n.digits ∧ m.scale = n.scale := by
  obtain ⟨strict, power, spellsPower, rfl⟩ := spells
  obtain ⟨negative, whole, fraction, exponent⟩ := n
  have mantissa : pointed fraction = fraction.elim [] fun digits => '.' :: digits := by
    cases fraction <;> rfl
  let numeral (e : Option Numeral.Exponent) : Numeral :=
    ⟨whole, fraction, e, strict.whole.2, fun digits member => (strict.fraction digits member).2,
      .inl strict.whole.1⟩
  cases exponent with
  | none =>
    cases spellsPower
    exact ⟨numeral none, by simp [numeral, Numeral.chars, Numeral.mantissa, mantissa], rfl, rfl⟩
  | some e =>
    obtain ⟨exponent, rfl, value⟩ := exists_exponent (strict.exponent e rfl) spellsPower
    refine ⟨numeral (some exponent), by simp [numeral, Numeral.chars, Numeral.mantissa,
      mantissa], rfl, ?_⟩
    rw [Numeral.scale, scale]
    simp only [numeral, Option.elim_some, value]
    obtain ⟨_ | _, digits⟩ := e <;> rfl

/-- How a written number spells its exponent. -/
theorem exists_power_write (n : JsonNumber) : ∃ power, SpellsExponent power n.exponent ∧
    n.write.toList = n.sign ++ n.whole ++ pointed n.fraction ++ power := by
  obtain ⟨negative, whole, fraction, exponent⟩ := n
  cases exponent with
  | none => exact ⟨[], .absent, by cases fraction <;> simp [write, sign, pointed]⟩
  | some e =>
    obtain ⟨_ | _, digits⟩ := e
    · exact ⟨_, .plus (.inl rfl) digits, by cases fraction <;> simp [write, sign, pointed]⟩
    · exact ⟨_, .minus (.inl rfl) digits, by cases fraction <;> simp [write, sign, pointed]⟩

/-- **The written text of a number** is one of its texts. -/
theorem spells_write (strict : n.IsStrict) : n.Spells n.write.toList :=
  ⟨strict, n.exists_power_write⟩

/-- Two texts of an exponent differ by a sign at most. -/
theorem length_spellsExponent_le {power' : List Char} {e : Option (Bool × List Char)}
    (spells : SpellsExponent power e) (spells' : SpellsExponent power' e) :
    power.length ≤ power'.length + 1 := by
  cases spells <;> cases spells' <;> simp

/-- Writing a number adds one character at most. -/
theorem length_write_le (spells : n.Spells text) : n.write.length ≤ text.length + 1 := by
  obtain ⟨-, power, spellsPower, rfl⟩ := spells
  obtain ⟨power', spellsPower', same⟩ := n.exists_power_write
  have longer := length_spellsExponent_le spellsPower' spellsPower
  rw [← String.length_toList, same]
  simp only [List.length_append]
  omega

/-- **The text of a number is read** as its decimal, if its scale is an integer of 64 bits. -/
theorem readChars_eq_ok_iff {d : Decimal} (spells : n.Spells text) (short : text.length < 2 ^ 63) :
    Decimal.readChars text = .ok d ↔ Decimal.scaleFits n.scale = true ∧ d = n.decimal := by
  obtain ⟨m, rfl, digits, scale⟩ := exists_numeral spells
  have short' : m.chars.length < 2 ^ 63 := by
    rw [List.length_append] at short
    omega
  have value : m.decimal = ⟨Digits.read n.digits, n.scale⟩ := by rw [Numeral.decimal, digits, scale]
  rw [sign, ← scale]
  cases negative : n.negative with
  | false =>
    have same : n.decimal = m.decimal := by rw [value, decimal, unscaled, negative]; rfl
    rw [same]
    exact Numeral.readChars_eq_ok_iff short'
  | true =>
    have same : n.decimal = m.decimal.neg := by rw [value, decimal, unscaled, negative]; rfl
    rw [same]
    exact Numeral.readChars_minus_eq_ok_iff.trans ((Numeral.readChars_eq_ok_iff short').trans
      (and_congr_right fun _ => Decimal.neg_eq_iff))

end JsonNumber

/-! ## 2. Values of numbers

A value is made from the number as it is written anew, not from the text it came from.  That the two
are read as the same decimal is what the section above is for; what is left here is the check of the
scale, with its three outcomes. -/

namespace Bounded

variable {text : String} {d : Decimal}

/-- **A text that is read as a decimal** where the scale fits: what the check of the scale makes of
it.  A scale that does not fit into 64 bits is refused when the text is read; one that fits may be
the least, or beyond the limit, or within it. -/
theorem ofNumeral_of_read (read : ∀ e, Decimal.read text = .ok e ↔
    Decimal.scaleFits d.scale = true ∧ e = d) :
    (d.scale.natAbs ≤ scaleLimit → ofNumeral text = .ok d) ∧
    (d.scale = leastWord → ofNumeral text = .error .overflow) ∧
    (scaleLimit < d.scale.natAbs → d.scale ≠ leastWord → ∃ cause, ofNumeral text = fail cause) := by
  have limit : scaleLimit = 100000 := rfl
  have least : leastWord = -2 ^ 63 := rfl
  cases fits : Decimal.scaleFits d.scale with
  | false =>
    have large : ¬ (-2 ^ 63 ≤ d.scale ∧ d.scale < 2 ^ 63) := by
      rw [← scaleFits_iff, fits]
      exact Bool.false_ne_true
    refine ⟨fun within => by omega, fun same => by omega, fun _ _ => ?_⟩
    rw [ofNumeral]
    cases found : Decimal.read text with
    | error reason => exact ⟨_, rfl⟩
    | ok e =>
      have fits' := ((read e).mp found).1
      rw [fits] at fits'
      cases fits'
  | true =>
    have found := (read d).mpr ⟨fits, rfl⟩
    have inRange : d.InRange ↔ d.scale.natAbs ≤ scaleLimit := Decimal.inRange_iff
    rw [ofNumeral, found]
    dsimp only
    rw [checkScale_eq fits]
    refine ⟨fun within => ?_, fun same => if_pos same, fun beyond more => ?_⟩
    · rw [if_neg (by omega), Decimal.checkScale_of_inRange (inRange.mpr within)]
      rfl
    · rw [if_neg more]
      cases done : d.checkScale with
      | error cause => exact ⟨cause, rfl⟩
      | ok e =>
        obtain ⟨rfl, within⟩ := Decimal.inRange_of_checkScale done
        exact absurd (inRange.mp within) (Nat.not_le.mpr beyond)

end Bounded

section Values

variable {n : JsonNumber}

/-- What the bounded reading makes of a written number. -/
theorem JsonNumber.ofNumeral_write (strict : n.IsStrict) (short : n.write.length < 2 ^ 63) :
    (n.scale.natAbs ≤ scaleLimit → Bounded.ofNumeral n.write = .ok n.decimal) ∧
    (n.scale = leastWord → Bounded.ofNumeral n.write = .error .overflow) ∧
    (scaleLimit < n.scale.natAbs → n.scale ≠ leastWord →
      ∃ cause, Bounded.ofNumeral n.write = Bounded.fail cause) :=
  Bounded.ofNumeral_of_read (d := n.decimal) fun _ =>
    readChars_eq_ok_iff (spells_write strict) (by rwa [String.length_toList])

/-- **The value of a number within the limit** is its decimal. -/
theorem Value.ofJsonNumber_ok (strict : n.IsStrict) (short : n.write.length < 2 ^ 63)
    (within : n.scale.natAbs ≤ scaleLimit) : Value.ofJsonNumber n = .ok (.decimal n.decimal) := by
  rw [Value.ofJsonNumber, (n.ofNumeral_write strict short).1 within]

theorem Value.ofJsonNumber_overflow (strict : n.IsStrict) (short : n.write.length < 2 ^ 63)
    (least : n.scale = leastWord) : Value.ofJsonNumber n = .error .overflow := by
  rw [Value.ofJsonNumber, (n.ofNumeral_write strict short).2.1 least]
  rfl

/-- **A number beyond the limit** is refused, and the report quotes it. -/
theorem Value.ofJsonNumber_refused (strict : n.IsStrict) (short : n.write.length < 2 ^ 63)
    (beyond : scaleLimit < n.scale.natAbs) (more : n.scale ≠ leastWord) :
    Value.ofJsonNumber n = Bounded.fail (.unsupportedNumber n.write) := by
  obtain ⟨cause, refused⟩ := (n.ofNumeral_write strict short).2.2 beyond more
  rw [Value.ofJsonNumber, refused]
  rfl

end Values

end DecimalExpression
