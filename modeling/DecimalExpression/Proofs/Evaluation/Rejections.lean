import DecimalExpression.Proofs.Evaluation.NumberLiterals
import DecimalExpression.Proofs.Syntax.Stops
import Mathlib

/-!
# Sources that are refused

A source is accepted, or it is refused with a fault of its own at a place where a character starts,
or at its end (`Bounded.ofSource_rejections`).  If something is left over there, the part in front
is accepted, unless its tree is too deep.

With bounded scales there is a third outcome, since the reading may end at a literal whose scale is
the least integer of 64 bits (`Bounded.EndsAtLeastScale`).  Then the check of that scale overflows,
and nothing is reported.
-/

namespace DecimalExpression

/-! ## 1. Byte sizes

A position counts the bytes of the characters in front of it. -/

/-- The byte size of a text is that of its characters. -/
theorem Text.utf8ByteSize_ofList (chars : List Char) :
    (String.ofList chars).utf8ByteSize = utf8Size chars := by
  rw [String.utf8ByteSize_ofList]
  induction chars with
  | nil => rfl
  | cons c chars ih => rw [String.utf8Len_cons, ih, utf8Size_cons, Nat.add_comm]

/-! ## 2. Literals that are refused

A reading that ends at a literal ends at a certain one: it stands in the source, it is a numeral,
and it is the last thing that was looked at.  These facts connect the reading with the check of the
literal's scale. -/

namespace Source

variable {chars : List Char} {text : String}

/-- **The literal at which a reading ends** stands in the source. -/
theorem exists_of_refusedLiteral? (refused : refusedLiteral? chars = some text) :
    ∃ stop lexeme, Nesting.excess? chars = none ∧ Grammar.conditional (.ofChars chars)
      = .error stop ∧
      Lexeme.number? stop.rest = some lexeme ∧ text = String.ofList lexeme.text := by
  rw [refusedLiteral?] at refused
  split at refused
  · cases refused
  rename_i nesting
  split at refused
  · cases refused
  rename_i stop stops
  split at refused
  · obtain ⟨lexeme, isNumber, rfl⟩ := Option.map_eq_some_iff.mp refused
    exact ⟨stop, lexeme, nesting, stops, isNumber, rfl⟩
  · cases refused

/-- It is a numeral. -/
theorem exists_numeral_of_refusedLiteral? (refused : refusedLiteral? chars = some text) :
    ∃ n : Numeral, n.text = text := by
  obtain ⟨stop, lexeme, -, -, isNumber, rfl⟩ := exists_of_refusedLiteral? refused
  obtain ⟨n, same⟩ := Numeral.exists_of_isNumeral (Lexeme.isNumeral_of_number? isNumber)
  exact ⟨n, congrArg String.ofList same⟩

/-- It is no longer than the source. -/
theorem length_of_refusedLiteral? (refused : refusedLiteral? chars = some text) :
    text.length ≤ chars.length := by
  obtain ⟨stop, lexeme, -, stops, -, rfl⟩ := exists_of_refusedLiteral? refused
  have inside := (Grammar.conditional_stops _ _ stops).length_le
  have whole := congrArg List.length lexeme.split
  rw [List.length_append] at whole
  rw [String.length_ofList]
  exact Nat.le_trans (by omega) inside

/-- Where a literal is refused, the source is. -/
theorem exists_fault_of_refusedLiteral? {source : String}
    (refused : refusedLiteral? source.toList = some text) :
    ∃ fault, ParseTree.ofSource source = .error fault := by
  obtain ⟨stop, -, nesting, stops, -⟩ := exists_of_refusedLiteral? refused
  have unread : readAll source.toList = .error (stopFault source.toList stop) := by
    rw [readAll, stops]
  exact ⟨_, by rw [ParseTree.ofSource]; dsimp only; rw [nesting, unread]⟩

/-- Where the reading comes to the end, no literal is refused. -/
theorem refusedLiteral?_of_readAll {body : ParseTree} (read : readAll chars = .ok body) :
    refusedLiteral? chars = none := by
  obtain ⟨reading, read, -⟩ := ParseTree.exists_reading_of_readAll read
  rw [refusedLiteral?, read]
  split <;> rfl

end Source

/-! ## 3. Sources with bounded scales

With bounded scales a source has three outcomes.  Which one it is can be said without running the
reader twice: where the reading without bounds ends at a literal, the literal decides between
overflow and refusal, and everywhere else both readings agree. -/

namespace Bounded

variable {source : String} {fault : Fault}

/-- **A source that ends at the least scale**: its reading ends at a literal with that scale. -/
def EndsAtLeastScale (source : String) : Prop :=
  ∃ n : Numeral, Source.refusedLiteral? source.toList = some n.text ∧ n.scale = leastWord

/-- A source that is refused overflows where its literal does. -/
theorem ofSource_of_overflow (failed : ParseTree.ofSource source = .error fault)
    (overflow : (Source.refusedLiteral? source.toList).map ofNumeral = some (.error .overflow)) :
    ofSource source = .error .overflow := by
  rw [ofSource, failed]
  dsimp only
  rw [overflow]

/-- In all other cases it is refused as it is without bounds. -/
theorem ofSource_of_error (failed : ParseTree.ofSource source = .error fault)
    (fits : (Source.refusedLiteral? source.toList).map ofNumeral ≠ some (.error .overflow)) :
    ofSource source = fail fault := by
  rw [ofSource, failed]
  dsimp only
  split
  · rename_i overflow
    exact absurd overflow fits
  · rfl

/-- A literal overflows exactly at the least scale. -/
theorem map_ofNumeral_iff (short : source.length < 2 ^ 63) :
    (Source.refusedLiteral? source.toList).map ofNumeral = some (.error .overflow) ↔
    EndsAtLeastScale source := by
  have least {n : Numeral} (refused : Source.refusedLiteral? source.toList = some n.text) :
      ofNumeral n.text = .error .overflow ↔ n.scale = leastWord := by
    have longer := Source.length_of_refusedLiteral? refused
    rw [Numeral.text, String.length_ofList, String.length_toList] at longer
    exact Numeral.ofNumeral_overflow_iff (longer.trans_lt short)
  rw [Option.map_eq_some_iff]
  constructor
  · rintro ⟨text, refused, overflow⟩
    obtain ⟨n, rfl⟩ := Source.exists_numeral_of_refusedLiteral? refused
    exact ⟨n, refused, (least refused).mp overflow⟩
  · rintro ⟨n, refused, scale⟩
    exact ⟨n.text, refused, (least refused).mpr scale⟩

/-- **A source overflows** exactly if its reading ends at a literal of the least scale. -/
theorem ofSource_eq_overflow_iff (short : source.length < 2 ^ 63) :
    ofSource source = .error .overflow ↔ EndsAtLeastScale source := by
  rw [← map_ofNumeral_iff short]
  constructor
  · intro overflow
    by_contra fits
    cases read : ParseTree.ofSource source with
    | ok tree => cases overflow.symm.trans (ofSource_eq_ok_iff.mpr read)
    | error fault => cases overflow.symm.trans (ofSource_of_error read fits)
  · intro overflow
    obtain ⟨text, refused, -⟩ := Option.map_eq_some_iff.mp overflow
    obtain ⟨fault, failed⟩ := Source.exists_fault_of_refusedLiteral? refused
    exact ofSource_of_overflow failed overflow

/-- **What is read as a whole** is accepted, but for the depth of its tree. -/
theorem ofSource_of_readAll {front : String} {body : ParseTree}
    (nesting : Nesting.excess? front.toList = none)
    (read : Source.readAll front.toList = .ok body) : (∃ tree, ofSource front = .ok tree) ∨
      ofSource front = fail (.source 0 (.treeTooDeep ParseTree.depthLimit)) := by
  rcases ParseTree.ofSource_of_readAll nesting read with ⟨tree, accepted⟩ | deep
  · rw [String.ofList_toList] at accepted
    exact .inl ⟨tree, ofSource_eq_ok_iff.mpr accepted⟩
  · rw [String.ofList_toList] at deep
    refine .inr (ofSource_of_error deep ?_)
    rw [Source.refusedLiteral?_of_readAll read]
    rintro ⟨⟩

/-- **Every refusal is at a place of the source**, but for one scale.  A source overflows exactly if
its reading ends at a literal of the scale `-2 ^ 63`.  Any other source is accepted or has a fault,
at a position within its bytes where a character starts or the source ends.  Where something is left
over, the part in front is accepted, or only its tree is too deep.  A text in memory has fewer than
`2 ^ 63` characters. -/
theorem ofSource_rejections (source : String) (short : source.length < 2 ^ 63) :
    (ofSource source = .error .overflow ↔ EndsAtLeastScale source) ∧
    (¬ EndsAtLeastScale source → (∃ tree, ofSource source = .ok tree) ∨
      ∃ position cause, ofSource source = fail (.source position cause) ∧
        position ≤ source.utf8ByteSize ∧ String.Pos.Raw.IsValid source ⟨position⟩ ∧
        ∀ left, cause = .leftover left → ∃ front back, source = front ++ back ∧
        front.utf8ByteSize = position ∧
          ((∃ tree, ofSource front = .ok tree) ∨
            ofSource front = fail (.source 0 (.treeTooDeep ParseTree.depthLimit)))) := by
  refine ⟨ofSource_eq_overflow_iff short, fun fits => ?_⟩
  cases read : ParseTree.ofSource source with
  | ok tree => exact .inl ⟨tree, ofSource_eq_ok_iff.mpr read⟩
  | error fault =>
    obtain ⟨front, back, cause, split, rfl, leftover⟩ := ParseTree.ofSource_located read
    have size : (String.ofList front).utf8ByteSize = Text.utf8Size front :=
      Text.utf8ByteSize_ofList front
    have whole : source = String.ofList front ++ String.ofList back := by
      rw [← String.toList_inj, split, String.toList_append, String.toList_ofList,
        String.toList_ofList]
    have refused := ofSource_of_error read ((map_ofNumeral_iff short).not.mpr fits)
    refine .inr ⟨_, cause, refused, ?_, ?_, fun left same => ?_⟩
    · rw [whole, String.utf8ByteSize_append, size]
      exact Nat.le_add_right _ _
    · rw [String.Pos.Raw.isValid_iff_exists_append]
      exact ⟨_, _, whole, by rw [← size]; rfl⟩
    · obtain ⟨nesting, body, alone⟩ := leftover left same
      rw [← String.toList_ofList (l := front)] at nesting alone
      exact ⟨_, _, whole, size, ofSource_of_readAll nesting alone⟩

/-- Behind a text with a character of two bytes, a number is left over. -/
theorem ofSource_rejections_leftover :
    ∃ front back, "\"é\" 2" = front ++ back ∧ front.utf8ByteSize = 5 ∧
    ((∃ tree, ofSource front = .ok tree) ∨
      ofSource front = fail (.source 0 (.treeTooDeep ParseTree.depthLimit))) := by
  obtain ⟨overflows, rejections⟩ := ofSource_rejections "\"é\" 2" (by decide)
  have refused : ofSource "\"é\" 2" = fail (.source 5 (.leftover "2")) := by cbv
  have fits : ¬ EndsAtLeastScale "\"é\" 2" := by
    rw [← overflows, refused]
    rintro ⟨⟩
  rcases rejections fits with ⟨tree, read⟩ | ⟨position, cause, same, -, -, leftover⟩
  · cases refused.symm.trans read
  · cases refused.symm.trans same
    exact leftover _ rfl

/-- **A source need neither be accepted nor have a fault.** -/
theorem ofSource_overflow_unlocated : ¬ ∀ source : String, (∃ tree, ofSource source = .ok tree) ∨
    ∃ position cause, ofSource source = fail (.source position cause) := by
  intro located
  have overflow : ofSource leastNumeral.text = .error .overflow :=
    ofSource_overflow (by decide) (by decide)
  rcases located leastNumeral.text with ⟨tree, read⟩ | ⟨position, cause, refused⟩
  · cases overflow.symm.trans read
  · cases overflow.symm.trans refused

end Bounded
end DecimalExpression
