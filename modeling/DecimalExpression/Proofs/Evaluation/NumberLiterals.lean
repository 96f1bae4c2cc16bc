import DecimalExpression.Evaluation.BoundedSource
import DecimalExpression.Proofs.Decimal.Numerals
import DecimalExpression.Proofs.Evaluation.Pipeline
import DecimalExpression.Proofs.Syntax.Subexpressions
import Mathlib

/-!
# Number literals as sources

A numeral is accepted as a whole source exactly if its scale is within the limit, and then it
evaluates to its decimal.  Otherwise it is refused at its first character, unless its scale is the
least integer of 64 bits, where the check of the scale overflows (`Bounded.ofSource_numeral`).

The literal that is accepted is a node alone.  The one that is refused stops the rule for primaries
for good, and every rule around it, since nothing stands in front of it.
-/

namespace DecimalExpression

/-! ## 1. Literals that are refused

A numeral starts with a digit or a point, and what the rules for signs, groups, calls and texts want
is something else.  So every rule above comes to the literal, and its refusal is final. -/

namespace Grammar

variable {k : Nat} {inner : InnerRule k} {s : Input}

/-- A numeral stands behind no layout. -/
theorem skipLayout_of_isNumeral (numeral : Word.isNumeral s.chars) :
    s.chars.dropWhile Text.isLayout = s.chars := by
  obtain ⟨c, more, same, first⟩ := Lexeme.exists_of_isNumeral numeral
  have visible : Text.isLayout c = false := by
    by_contra layout
    have blank := Text.isBlank_of_isLayout (Bool.not_eq_false _ ▸ layout)
    rw [Lexeme.isBlank_of_mem_numeral numeral c (same ▸ List.mem_cons_self)] at blank
    cases blank
  rw [same, List.dropWhile_cons_of_neg (by simp [visible])]

/-- **A literal out of range stops a primary** for good. -/
theorem primary_refused {fits : s.size ≤ k} (numeral : Word.isNumeral s.chars)
    (refused : ∀ d, Decimal.ofNumeral (String.ofList s.chars) ≠ .ok d) :
    primary inner s fits = .error ⟨s.chars, .supportedNumber, true⟩ := by
  have here : s.skipLayout.rest = s := Input.ext (skipLayout_of_isNumeral numeral)
  have start : s.chars ++ [] = s.skipLayout.rest.chars := by rw [here, List.append_nil]
  have boundary : Lexeme.Boundary [] := by rintro c ⟨⟩
  rw [primary, bareOperand_of_isNumeral start numeral boundary, number, Input.take]
  cases read : Decimal.ofNumeral (String.ofList s.chars) with
  | ok d => exact absurd read (refused d)
  | error cause =>
    dsimp only
    rw [here]

/-- No sign stands in front of a numeral. -/
theorem token?_sign_of_isNumeral (numeral : Word.isNumeral s.chars) :
    s.token? [['+'], ['-']] = none := by
  refine Input.token?_eq_none fun token member => ?_
  rw [skipLayout_of_isNumeral numeral]
  rintro ⟨behind, split⟩
  obtain ⟨c, more, same, first⟩ := Lexeme.exists_of_isNumeral numeral
  rw [same] at split
  simp only [List.mem_cons, List.not_mem_nil, or_false] at member
  rcases member with rfl | rfl
  · cases split
    revert first
    decide
  · cases split
    revert first
    decide

/-- **A literal out of range stops a conditional** for good. -/
theorem conditional_refused (numeral : Word.isNumeral s.chars)
    (refused : ∀ d, Decimal.ofNumeral (String.ofList s.chars) ≠ .ok d) :
    conditional s = .error ⟨s.chars, .supportedNumber, true⟩ := by
  rw [conditional]
  exact conditionalLayer_stops (token?_sign_of_isNumeral numeral) (primary_refused numeral refused)

end Grammar

/-- **The literal at which a reading ends** is the number literal that stands there. -/
theorem Source.refusedLiteral?_of_number? {chars rest : List Char} {literal : Lexeme rest}
    (nesting : Nesting.excess? chars = none)
    (stops : Grammar.conditional (.ofChars chars) = .error ⟨rest, .supportedNumber, true⟩)
    (isNumber : Lexeme.number? rest = some literal) :
    Source.refusedLiteral? chars = some (String.ofList literal.text) := by
  rw [Source.refusedLiteral?, nesting]
  dsimp only
  rw [stops]
  dsimp only
  rw [if_pos rfl, isNumber]
  rfl

/-! ## 2. Nodes as sources

The text of a node that may stand alone is a source, with the node's outcome.  For a numeral this
replaces running the reader on it. -/

/-- **The text of a node that may stand alone** has a forest, with the outcome of the node. -/
theorem Forest.exists_of_derives {p : Production} {u : ParseTree} (derives : ParseTree.Derives p u)
    (alone : p.standsAlone) (trimmed : u.Throughout ParseTree.Trimmed)
    (fits : u.Throughout ParseTree.NodeFits)
    (nesting : Nesting.excess? u.text.toList = none)
    (low : u.height + p.rank ≤ ParseTree.depthLimit) :
    ∃ tree f, ParseTree.ofSource u.text = .ok tree ∧ Forest.ofTree tree = .ok f ∧
      ∀ env : Environment, f.evaluate env = u.interpret env := by
  obtain ⟨tree, shown, leads⟩ := derives.exists_shownBy alone trimmed fits nesting low
  have read := ParseTree.ofSource_eq_ok_iff.mpr shown
  obtain ⟨f, forest, evaluates⟩ := Forest.exists_evaluate_of_ofSource read
  refine ⟨tree, f, read, forest, fun env => ?_⟩
  rw [evaluates, shown.derives.interpret_eq_of_entry derives leads.entry_eq]

/-! ## 3. The numeral of a report

A report finds the text it shows by a scan of its own.  The scan goes over letters, digits and
points, and over a sign behind the letter of an exponent; whatever a numeral is made of it goes
over, one part after another, and then it goes on. -/

namespace Lexeme

/-- Letters, digits and points go on a numeral, whatever stands in front. -/
theorem numeralFrom_append {word : List Char} (plain : ∀ c ∈ word, c.isAlphanum || c = '.')
    (previous : Char) (rest : List Char) :
    numeralFrom previous (word ++ rest)
      = word ++ numeralFrom (word.getLast?.getD previous) rest := by
  induction word generalizing previous with
  | nil => rfl
  | cons c word ih =>
    obtain ⟨here, later⟩ := List.forall_mem_cons.mp plain
    have goesOn : continuesNumeral previous c = true := by
      rw [continuesNumeral, here]
      rfl
    rw [List.cons_append, numeralFrom, if_pos goesOn, ih later]
    cases word with
    | nil => rfl
    | cons d word =>
      rw [List.getLast?_cons_cons, List.getLast?_cons, Option.getD_some, Option.getD_some]; rfl

/-- What stands in front counts only if it is the letter of an exponent. -/
theorem numeralFrom_eq {previous : Char} (other : previous ≠ 'e' ∧ previous ≠ 'E')
    (rest : List Char) :
    numeralFrom previous rest = numeral rest := by
  cases rest with
  | nil => rfl
  | cons c rest =>
    have same : continuesNumeral previous c = continuesNumeral ' ' c := by
      simp [continuesNumeral, other]
    rw [numeral, numeralFrom, numeralFrom, same]

theorem isAlphanum_of_isDigit {c : Char} (digit : c.isDigit) : c.isAlphanum || c = '.' := by
  simp [Char.isAlphanum, digit]

/-- **Digits and points** are gone over, and a numeral behind them starts anew. -/
theorem numeralFrom_append_of_digits {word : List Char} (digits : ∀ c ∈ word, c.isDigit ∨ c = '.')
    (nonempty : word ≠ []) (previous : Char) (rest : List Char) :
    numeralFrom previous (word ++ rest) = word ++ numeral rest := by
  have plain : ∀ c ∈ word, c.isAlphanum || c = '.' := by
    intro c member
    rcases digits c member with digit | rfl
    · exact isAlphanum_of_isDigit digit
    · rfl
  have last : word.getLast nonempty ≠ 'e' ∧ word.getLast nonempty ≠ 'E' := by
    rcases digits _ (List.getLast_mem nonempty) with digit | point
    · constructor <;> intro letter <;> rw [letter] at digit <;> cases digit
    · rw [point]
      decide
  rw [numeralFrom_append plain, List.getLast?_eq_some_getLast nonempty, Option.getD_some,
    numeralFrom_eq last]

end Lexeme

namespace Numeral

variable {n : Numeral}

/-- **A report goes over the whole numeral**, and on behind it.  A report goes over digits and
letters, so it takes in the exponent as well; the sign in it is the only character that needs the
letter in front. -/
theorem numeral_append (n : Numeral) (rest : List Char) :
    Lexeme.numeral (n.chars ++ rest) = n.chars ++ Lexeme.numeral rest := by
  have mantissa : n.mantissa ≠ [] := by
    have := n.isMantissa_mantissa
    rintro empty
    rw [empty] at this
    cases this
  rw [chars]
  cases n.exponent with
  | none =>
    rw [Option.elim_none, List.append_nil]
    exact Lexeme.numeralFrom_append_of_digits n.mem_mantissa mantissa ' ' rest
  | some e =>
    have letter : e.letter.isAlphanum || e.letter = '.' := by
      rcases e.isLetter with same | same <;> rw [same] <;> rfl
    have front : ∀ c ∈ n.mantissa ++ [e.letter], c.isAlphanum || c = '.' := by
      refine List.forall_mem_append.mpr ⟨fun c member => ?_, List.forall_mem_singleton.mpr letter⟩
      rcases n.mem_mantissa c member with digit | rfl
      · exact Lexeme.isAlphanum_of_isDigit digit
      · rfl
    have digits (previous : Char) :
        Lexeme.numeralFrom previous (e.digits ++ rest) = e.digits ++ Lexeme.numeral rest :=
      Lexeme.numeralFrom_append_of_digits (fun c member => .inl (e.allDigits c member))
        e.nonempty previous rest
    have split : n.mantissa ++ e.letter :: e.power ++ rest
        = (n.mantissa ++ [e.letter]) ++ (e.sign.toList ++ (e.digits ++ rest)) := by
          simp [Exponent.power]
    rw [Option.elim_some, split, Lexeme.numeral, Lexeme.numeralFrom_append front,
      List.getLast?_concat,
      Option.getD_some, Exponent.power]
    -- a sign goes on directly behind the letter
    cases same : e.sign with
    | none => simp [digits]
    | some sign =>
      have goesOn : Lexeme.continuesNumeral e.letter sign = true := by
        rcases e.isSign sign same with rfl | rfl <;> rcases e.isLetter with letter | letter <;>
          rw [letter] <;> rfl
      simp [Lexeme.numeralFrom, goesOn, digits]

/-- **A report quotes the whole numeral** where nothing stands behind it. -/
theorem numeral_chars (n : Numeral) : Lexeme.numeral n.chars = n.chars := by
  simpa [Lexeme.numeral, Lexeme.numeralFrom] using n.numeral_append []

/-! ## 4. Sources

A numeral within the limit is accepted; one beyond it is refused, or overflows at the least scale.
That a source is just a numeral is only used for the first of these: for the others it is enough
that the reading stops at one, which is how they are stated. -/

theorem toList_text (n : Numeral) : n.text.toList = n.chars := String.toList_ofList

/-- A numeral does not nest. -/
theorem excess?_text (n : Numeral) : Nesting.excess? n.text.toList = none := by
  have passed := Nesting.passed_of_isNumeral n.isNumeral_chars
  have within := passed.within Nesting.start rfl (Nat.zero_le _)
  rw [toList_text]
  exact passed.rises.excess?_eq_none rfl (Nat.zero_le _) within

/-- **A numeral within the limit** is accepted, and evaluates to its decimal. -/
theorem exists_forest (short : n.chars.length < 2 ^ 63) (within : n.scale.natAbs ≤ scaleLimit) :
    ∃ tree f, ParseTree.ofSource n.text = .ok tree ∧ Forest.ofTree tree = .ok f ∧
      ∀ env : Environment, f.evaluate env = .ok (.decimal n.decimal) := by
  have literal : Decimal.ofNumeral n.text = .ok n.decimal :=
    (ofNumeral_eq_ok_iff short).mpr ⟨within, rfl⟩
  have word : Word.isNumeral n.text.toList := n.toList_text.symm ▸ n.isNumeral_chars
  have fits : ParseTree.Throughout ParseTree.NodeFits (.leaf .number n.text) :=
    .node _ (ParseTree.fits_leaf fun _ => ⟨_, literal⟩) (List.forall_mem_nil _)
  have low : (ParseTree.leaf .number n.text).height + Production.number.rank
      ≤ ParseTree.depthLimit := by
    rw [ParseTree.leaf, ParseTree.height, List.foldl_nil]
    decide
  obtain ⟨tree, f, read, forest, evaluates⟩ :=
    Forest.exists_of_derives (.number word) rfl (ParseTree.trimmed_leaf _ _) fits n.excess?_text low
  refine ⟨tree, f, read, forest, fun env => ?_⟩
  rw [evaluates, ParseTree.leaf, ParseTree.interpret, Interpreter.literal, literal]
  rfl

/-- A numeral beyond the limit is no literal. -/
theorem not_literal (short : n.chars.length < 2 ^ 63) (beyond : scaleLimit < n.scale.natAbs)
    (d : Decimal) :
    Decimal.ofNumeral n.text ≠ .ok d := fun read =>
  absurd ((ofNumeral_eq_ok_iff short).mp read).1 (Nat.not_le.mpr beyond)

/-- The rule for conditionals stops at a numeral beyond the limit. -/
theorem conditional_text (short : n.chars.length < 2 ^ 63) (beyond : scaleLimit < n.scale.natAbs) :
    Grammar.conditional (.ofChars n.chars) = .error ⟨n.chars, .supportedNumber, true⟩ :=
  Grammar.conditional_refused (s := .ofChars n.chars) n.isNumeral_chars (not_literal short beyond)

section Stops

variable {source : String}

/-- **Where the reading stops at a numeral**, the source is refused there, and the report goes on
behind it.  Blanks are trimmed off what is reported, and a numeral has none in front. -/
theorem ofSource_of_stopsAt (front : List Char) {rest : List Char}
    (split : source.toList = front ++ (n.chars ++ rest))
    (nesting : Nesting.excess? source.toList = none)
    (stops : Grammar.conditional (.ofChars source.toList)
      = .error ⟨n.chars ++ rest, .supportedNumber, true⟩) :
    ParseTree.ofSource source =
      .error (.source (Text.utf8Size front)
        (.literalRange (String.ofList (n.chars ++ Lexeme.numeral rest)))) := by
  have some : (Text.trim (n.chars ++ rest)).isEmpty = false := by
    obtain ⟨c, more, same, -⟩ := Lexeme.exists_of_isNumeral n.isNumeral_chars
    have member : c ∈ n.chars := same ▸ List.mem_cons_self
    rw [List.isEmpty_eq_false_iff]
    exact Text.trim_ne_nil (List.mem_append_left rest member)
      (Lexeme.isBlank_of_mem_numeral n.isNumeral_chars c member)
  have cause : Stop.cause ⟨n.chars ++ rest, .supportedNumber, true⟩
      = .literalRange (String.ofList (n.chars ++ Lexeme.numeral rest)) := by
    rw [Stop.cause, some, if_neg Bool.false_ne_true, numeral_append]
  have position : Source.position source.toList (n.chars ++ rest) = Text.utf8Size front := by
    rw [Source.position, split, Text.utf8Size_append, Nat.add_sub_cancel]
  have stops : Source.readAll source.toList =
      .error (.source (Text.utf8Size front)
        (.literalRange (String.ofList (n.chars ++ Lexeme.numeral rest)))) := by
    rw [Source.readAll, stops]
    dsimp only
    rw [Source.stopFault, cause, position]
  simp only [ParseTree.ofSource, nesting, stops]

/-- Where nothing stands behind the numeral, the report names it. -/
theorem ofSource_of_stops (front : List Char) (split : source.toList = front ++ n.chars)
    (nesting : Nesting.excess? source.toList = none)
    (stops : Grammar.conditional (.ofChars source.toList)
      = .error ⟨n.chars, .supportedNumber, true⟩) :
    ParseTree.ofSource source = .error (.source (Text.utf8Size front) (.literalRange n.text)) := by
  have end_split : source.toList = front ++ (n.chars ++ []) := by rw [List.append_nil, split]
  have whole := ofSource_of_stopsAt front end_split nesting (by rw [List.append_nil, stops])
  rwa [← n.numeral_append, List.append_nil, numeral_chars] at whole

/-- The literal at which such a reading ends is the numeral. -/
theorem refusedLiteral?_of_stops (nesting : Nesting.excess? source.toList = none)
    (stops : Grammar.conditional (.ofChars source.toList)
      = .error ⟨n.chars, .supportedNumber, true⟩) :
    Source.refusedLiteral? source.toList = some n.text := by
  have boundary : Lexeme.Boundary [] := by rintro c ⟨⟩
  exact Source.refusedLiteral?_of_number? nesting stops
    (Lexeme.number?_of_split (List.append_nil _) n.isNumeral_chars boundary)

end Stops

/-- **A numeral beyond the limit** is refused at its first character. -/
theorem ofSource_eq_error (short : n.chars.length < 2 ^ 63) (beyond : scaleLimit < n.scale.natAbs) :
    ParseTree.ofSource n.text = .error (.source 0 (.literalRange n.text)) :=
  ofSource_of_stops [] n.toList_text n.excess?_text (n.toList_text ▸ conditional_text short beyond)

end Numeral

namespace Bounded

variable {source : String} {tree : ParseTree} {n : Numeral}

/-- **What is accepted** is accepted with bounded scales and without. -/
theorem ofSource_eq_ok_iff : ofSource source = .ok tree ↔ ParseTree.ofSource source = .ok tree := by
  rw [ofSource]
  cases read : ParseTree.ofSource source with
  | ok found => exact ⟨fun same => by cases same; rfl, fun same => by cases same; rfl⟩
  | error fault =>
    refine iff_of_false ?_ (by rintro ⟨⟩)
    dsimp only
    split
    · rintro ⟨⟩
    · rintro ⟨⟩

/-- A source that is accepted has the forest of its tree. -/
theorem forestOfSource_of_ofTree {f : Forest} (read : ParseTree.ofSource source = .ok tree)
    (planted : Forest.ofTree tree = .ok f) : forestOfSource source = .ok f := by
  rw [forestOfSource, ofSource_eq_ok_iff.mpr read, ok_bind, planted]
  rfl

/-- **The forests of sources** are the same with bounded scales and without. -/
theorem forestOfSource_eq_ok_iff {f : Forest} :
    forestOfSource source = .ok f ↔ Forest.ofSource source = .ok f := by
  constructor
  · intro read
    obtain ⟨tree, parsed, planted⟩ := bind_eq_ok read
    rw [Forest.ofSource, ofSource_eq_ok_iff.mp parsed, ok_bind]
    exact lift_eq_ok_iff.mp planted
  · intro read
    obtain ⟨tree, parsed, planted⟩ := bind_eq_ok read
    exact forestOfSource_of_ofTree parsed (mapError_eq_ok planted)

/-- **Where the reading stops at a numeral**, the source overflows if the scale is the least integer
of 64 bits, and is refused at any other scale. -/
theorem ofSource_of_stops (front : List Char) (split : source.toList = front ++ n.chars)
    (nesting : Nesting.excess? source.toList = none)
    (stops : Grammar.conditional (.ofChars source.toList)
      = .error ⟨n.chars, .supportedNumber, true⟩)
    (short : n.chars.length < 2 ^ 63) :
    (n.scale = leastWord → ofSource source = .error .overflow) ∧
    (n.scale ≠ leastWord → ofSource source
      = fail (.source (Text.utf8Size front) (.literalRange n.text))) := by
  have overflows := Numeral.ofNumeral_overflow_iff (n := n) short
  rw [ofSource, Numeral.ofSource_of_stops front split nesting stops]
  dsimp only
  rw [Numeral.refusedLiteral?_of_stops nesting stops, Option.map_some]
  refine ⟨fun least => by rw [overflows.mpr least], fun more => ?_⟩
  split
  · rename_i overflow
    exact absurd (overflows.mp (Option.some.inj overflow)) more
  · rfl

/-- A numeral at the least scale overflows. -/
theorem ofSource_overflow (short : n.chars.length < 2 ^ 63) (least : n.scale = leastWord) :
    ofSource n.text = .error .overflow := by
  have beyond : scaleLimit < n.scale.natAbs := by
    rw [least]
    decide
  exact (ofSource_of_stops [] n.toList_text n.excess?_text
    (n.toList_text ▸ n.conditional_text short beyond) short).1 least

/-- A numeral at any other scale beyond the limit is refused. -/
theorem ofSource_refused (short : n.chars.length < 2 ^ 63) (beyond : scaleLimit < n.scale.natAbs)
    (more : n.scale ≠ leastWord) : ofSource n.text = fail (.source 0 (.literalRange n.text)) :=
  (ofSource_of_stops [] n.toList_text n.excess?_text
    (n.toList_text ▸ n.conditional_text short beyond) short).2 more

/-- **A number literal means what it says**, but for one scale.  As a whole source a numeral is
accepted exactly if its scale, the places behind its point less its exponent, is within the limit.
Then it evaluates to the number that all its digits stand for, at that scale.  Otherwise it is
refused at its first character, and the report quotes it; but at the scale `-2 ^ 63` the check of
the scale overflows.  A text in memory has fewer than `2 ^ 63` characters. -/
theorem ofSource_numeral (n : Numeral) (short : n.chars.length < 2 ^ 63) :
    ((∃ tree, ofSource n.text = .ok tree) ↔ n.scale.natAbs ≤ scaleLimit) ∧
    (n.scale.natAbs ≤ scaleLimit → ∃ f, forestOfSource n.text = .ok f ∧
      ∀ env : DecimalExpression.Environment,
        f.evaluate env = .ok (.decimal ⟨Digits.read n.digits, n.scale⟩)) ∧
    (scaleLimit < n.scale.natAbs → n.scale ≠ leastWord →
      ofSource n.text = fail (.source 0 (.literalRange n.text))) ∧
    (n.scale = leastWord → ofSource n.text = .error .overflow) := by
  have accepted (within : n.scale.natAbs ≤ scaleLimit) : ∃ tree f, ofSource n.text = .ok tree ∧
      Forest.ofTree tree = .ok f ∧
      ∀ env : DecimalExpression.Environment,
      f.evaluate env = .ok (.decimal ⟨Digits.read n.digits, n.scale⟩) := by
    obtain ⟨tree, f, read, forest, evaluates⟩ := n.exists_forest short within
    exact ⟨tree, f, ofSource_eq_ok_iff.mpr read, forest, evaluates⟩
  refine ⟨⟨?_, fun within => ?_⟩, fun within => ?_, ofSource_refused short, ofSource_overflow short⟩
  · rintro ⟨tree, read⟩
    by_contra beyond
    rw [ofSource_eq_ok_iff, n.ofSource_eq_error short (Nat.not_le.mp beyond)] at read
    cases read
  · obtain ⟨tree, f, read, -⟩ := accepted within
    exact ⟨tree, read⟩
  · obtain ⟨tree, f, read, forest, evaluates⟩ := accepted within
    refine ⟨f, ?_, evaluates⟩
    rw [forestOfSource, read, ok_bind, forest]
    rfl

/-- Twelve and a half thousand, at a negative scale. -/
theorem ofSource_numeral_thousands : ∃ f, forestOfSource "12.50E+3" = .ok f ∧
    ∀ env : DecimalExpression.Environment, f.evaluate env = .ok (.decimal ⟨1250, -1⟩) :=
  (ofSource_numeral ⟨['1', '2'], some ['5', '0'],
    some ⟨'E', some '+', ['3'], .inr rfl, by simp, by simp, by simp⟩, by simp, by simp, by simp⟩
    (by decide)).2.1 (by decide)

/-- The exponent `2 ^ 63`. -/
def leastNumeral : Numeral :=
  ⟨['1'], none, some ⟨'e', none,
    ['9', '2', '2', '3', '3', '7', '2', '0', '3', '6', '8', '5', '4', '7', '7',
    '5', '8', '0', '8'], .inl rfl, by simp, by simp, by simp⟩, by simp, by simp, by simp⟩

/-- **A literal beyond the limit need not be refused.** -/
theorem ofSource_numeral_least : ¬ ∀ n : Numeral, n.chars.length < 2 ^ 63 →
    scaleLimit < n.scale.natAbs → ∃ cause, ofSource n.text = fail (.source 0 cause) := by
  intro refused
  obtain ⟨cause, same⟩ := refused leastNumeral (by decide) (by decide)
  rw [ofSource_overflow (by decide) (by decide)] at same
  cases same

end Bounded
end DecimalExpression
