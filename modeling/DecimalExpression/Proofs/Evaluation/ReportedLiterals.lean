import DecimalExpression.Proofs.Evaluation.Rejections
import Mathlib

/-!
# The literal that a report names

Where the reading of a source ends at a number literal that is out of range, the source is refused
there, and the report names a numeral.  It does not take it from the literal: it goes over the
characters anew, from where the literal starts, and it goes on through letters, digits and points
that no literal has behind it (`Numeral.numeral_append`).  So what it names is the literal and
whatever goes on directly behind it, and it is the literal alone exactly if nothing does
(`Bounded.ofSource_names`).

That the report comes from such a literal at all is a matter of the grammar: only the rule for
numbers stops for want of a supported one (`Grammar.conditional_standsIn`).
-/

namespace DecimalExpression

/-! ## 1. Literals that are refused

What has to be said about a source is where its reading ends and which literal stands there.
`RefusesNumber` puts both into one structure, so that the report can be compared with it. -/

/-- **A source whose reading ends at a number that is refused**: it does not nest too deep, the rule
for conditionals stops behind `front` for want of a supported number, and `literal` is what the rule
for numbers takes there. -/
structure Source.RefusesNumber (chars front rest : List Char) (literal : Lexeme rest) : Prop where
  split : chars = front ++ rest
  nesting : Nesting.excess? chars = none
  stops : Grammar.conditional (.ofChars chars) = .error ⟨rest, .supportedNumber, true⟩
  isNumber : Lexeme.number? rest = some literal
  refused : ∃ cause, Bounded.ofNumeral (String.ofList literal.text) = Bounded.fail cause

namespace Lexeme

/-- Nothing goes on behind a literal but letters, digits and points: a sign needs the letter of an
exponent in front of it. -/
theorem numeral_eq_nil_iff (chars : List Char) :
    numeral chars = [] ↔ ∀ c ∈ chars.head?, ¬ (c.isAlphanum || c = '.') = true := by
  cases chars with
  | nil => simp [numeral, numeralFrom]
  | cons c chars => simp [numeral, numeralFrom, continuesNumeral]

end Lexeme

/-! ## 2. Reports

A refusal of this kind can come from the rule for numbers only, which gives the literal.  The text
that is shown is a scan from the same place, and it is the literal together with the letters, digits
and points directly behind it. -/

namespace Bounded

variable {source : String} {position : Nat} {shown : String} {front rest : List Char}
  {literal : Lexeme rest}

/-- A literal overflows, or it comes to what it comes to without bounds. -/
theorem ofNumeral_cases (text : String) :
    ofNumeral text = .error .overflow ∨ ofNumeral text = lift (Decimal.ofNumeral text) := by
  by_cases least : ∃ d, Decimal.read text = .ok d ∧ d.scale = leastWord
  · obtain ⟨d, read, least⟩ := least
    exact .inl (ofNumeral_overflow read least)
  · exact .inr (ofNumeral_eq fun d read same => least ⟨d, read, same⟩)

/-- What fails with bounds fails without them, in the same way. -/
theorem ofSource_eq_fail {fault : Fault} (failed : ofSource source = fail fault) :
    ParseTree.ofSource source = .error fault ∧
      (Source.refusedLiteral? source.toList).map ofNumeral ≠ some (.error .overflow) := by
  cases read : ParseTree.ofSource source with
  | ok tree => cases failed.symm.trans (ofSource_eq_ok_iff.mpr read)
  | error fault' =>
    by_cases overflow :
      (Source.refusedLiteral? source.toList).map ofNumeral = some (.error .overflow)
    · cases failed.symm.trans (ofSource_of_overflow read overflow)
    · cases failed.symm.trans (ofSource_of_error read overflow)
      exact ⟨rfl, overflow⟩

/-- Where a source is refused for a literal, its reading stops there for want of a supported
number. -/
theorem exists_stop (failed : ParseTree.ofSource source
    = .error (.source position (.literalRange shown))) :
    ∃ stop, Nesting.excess? source.toList = none ∧ Grammar.conditional (.ofChars source.toList)
      = .error stop ∧
      stop.wanted = .supportedNumber := by
  generalize cause : SourceFault.literalRange shown = reported at failed
  cases ParseTree.refused_of_error failed with
  | @stop stop nesting stops =>
    rcases stop.cause_cases with other | other | ⟨wanted, -⟩ | other | other
    · cases cause.trans other
    · cases cause.trans other
    · exact ⟨stop, nesting, stops, wanted⟩
    · cases cause.trans other
    · cases cause.trans other
  | nesting => cases cause
  | leftover => cases cause
  | height => cases cause

/-- **A report of a literal out of range** comes from a reading that ends at a number that is
refused. -/
theorem exists_refusesNumber (failed : ofSource source
    = fail (.source position (.literalRange shown))) :
    ∃ front rest, ∃ literal : Lexeme rest,
      Source.RefusesNumber source.toList front rest literal := by
  obtain ⟨unread, fits⟩ := ofSource_eq_fail failed
  obtain ⟨⟨rest, wanted, final⟩, nesting, stops, rfl⟩ := exists_stop unread
  obtain ⟨⟨front, split⟩, refused⟩ := Grammar.conditional_standsIn _ _ stops
  obtain ⟨rfl, literal, isNumber, fault, noDecimal⟩ := refused rfl
  refine ⟨front, rest, literal, split.symm, nesting, stops, isNumber, fault, ?_⟩
  rw [Source.refusedLiteral?_of_number? nesting stops isNumber] at fits
  rcases ofNumeral_cases (String.ofList literal.text) with overflow | same
  · exact absurd (congrArg some overflow) fits
  · rw [same, noDecimal]
    rfl

/-- Two reports of one kind at one place name the same. -/
theorem eq_of_fail_literalRange {named : String}
    (same : (fail (.source position (.literalRange shown)) : Outcome Fault ParseTree) =
      fail (.source position (.literalRange named))) : shown = named := by
  injection same with same
  injection same with same
  injection same with _ same
  injection same

/-- **A number that is refused is reported** where it starts, by a numeral that goes on behind
it. -/
theorem ofSource_of_refusesNumber
    (refuses : Source.RefusesNumber source.toList front rest literal) :
    ofSource source = fail (.source (Text.utf8Size front)
      (.literalRange (String.ofList (literal.text ++ Lexeme.numeral literal.rest)))) := by
  obtain ⟨split, nesting, stops, isNumber, cause, refused⟩ := refuses
  obtain ⟨n, same⟩ := Numeral.exists_of_isNumeral (Lexeme.isNumeral_of_number? isNumber)
  have whole : n.chars ++ literal.rest = rest := by rw [same, literal.split]
  have unread := Numeral.ofSource_of_stopsAt (n := n) front (split.trans (by rw [whole])) nesting
    (by rw [whole]; exact stops)
  rw [same] at unread
  refine ofSource_of_error unread ?_
  rw [Source.refusedLiteral?_of_number? nesting stops isNumber, Option.map_some, refused]
  rintro ⟨⟩

/-- **What a report of a literal out of range names.**  A source is refused with such a report
exactly if its reading ends at a number that is refused, and the place is where the literal of that
number starts.  The report names the literal together with the numeral that goes on directly behind
it: it names the literal itself exactly if the character behind it, if there is one, is no letter,
digit or point. -/
theorem ofSource_names (source : String) :
    (∀ position shown, ofSource source = fail (.source position (.literalRange shown)) ↔
      ∃ front rest, ∃ literal : Lexeme rest, Source.RefusesNumber source.toList front rest literal ∧
        position = Text.utf8Size front ∧
        shown = String.ofList (literal.text ++ Lexeme.numeral literal.rest)) ∧
    ∀ front rest, ∀ literal : Lexeme rest, Source.RefusesNumber source.toList front rest literal →
      (ofSource source = fail (.source (Text.utf8Size front)
        (.literalRange (String.ofList literal.text))) ↔
        ∀ c ∈ literal.rest.head?, ¬ (c.isAlphanum || c = '.') = true) := by
  refine ⟨fun position shown => ⟨fun failed => ?_, ?_⟩, fun front rest literal refuses => ?_⟩
  · obtain ⟨front, rest, literal, refuses⟩ := exists_refusesNumber failed
    rw [ofSource_of_refusesNumber refuses] at failed
    cases failed
    exact ⟨front, rest, literal, refuses, rfl, rfl⟩
  · rintro ⟨front, rest, literal, refuses, rfl, rfl⟩
    exact ofSource_of_refusesNumber refuses
  · rw [ofSource_of_refusesNumber refuses, ← Lexeme.numeral_eq_nil_iff]
    constructor
    · intro same
      simpa using String.ofList_injective (eq_of_fail_literalRange same)
    · intro nothing
      rw [nothing, List.append_nil]

/-- A number beyond the limit with letters directly behind it. -/
theorem refusesNumber_letters :
    Source.RefusesNumber "1e300000000abc".toList [] "1e300000000abc".toList
    ⟨"1e300000000".toList, "abc".toList, rfl, by decide⟩ where
  split := rfl
  nesting := by decide
  stops := by cbv
  isNumber := rfl
  refused := ⟨.exponentRange 300000000, by cbv⟩

/-- With letters directly behind it, a literal is reported together with them. -/
theorem ofSource_names_letters :
    ofSource "1e300000000abc" = fail (.source 0 (.literalRange "1e300000000abc")) ∧
    ¬ ofSource "1e300000000abc" = fail (.source 0 (.literalRange "1e300000000")) := by
  obtain ⟨reported, alone⟩ := ofSource_names "1e300000000abc"
  have whole : Lexeme.numeral "abc".toList = "abc".toList := by decide
  constructor
  · exact (reported 0 _).mpr ⟨_, _, _, refusesNumber_letters, rfl, by rw [whole]; rfl⟩
  · intro same
    exact (alone _ _ _ refusesNumber_letters).mp same 'a' rfl (by decide)

/-- **A report need not name the literal that was refused.** -/
theorem ofSource_names_more :
    ¬ ∀ (source : String) (front rest : List Char) (literal : Lexeme rest),
    Source.RefusesNumber source.toList front rest literal →
      ofSource source = fail (.source (Text.utf8Size front)
        (.literalRange (String.ofList literal.text))) := by
  intro named
  have alone := named _ _ _ _ refusesNumber_letters
  have more := ofSource_of_refusesNumber refusesNumber_letters
  have differ : "1e300000000" ≠ "1e300000000abc" := by decide
  exact differ (eq_of_fail_literalRange (alone.symm.trans more))

end Bounded
end DecimalExpression
