import DecimalExpression.Proofs.Evaluation.Exactness
import DecimalExpression.Proofs.Evaluation.NumberLiterals

/-!
# Number literals behind a minus

A minus in front of a numeral is an operator, and what is behind it is the literal.  Such a source
is accepted exactly if the literal alone is, and evaluates to zero less its decimal
(`Numeral.exists_forest_minus`).  A literal beyond the limit stops the reading where it stands,
behind the minus (`Numeral.conditional_minus`).
-/

namespace DecimalExpression

/-! ## 1. Literals that are refused

The sign is read first, and behind it the literal is refused.  A stop behind a sign is final, so no
other alternative is tried, and the report is about the literal. -/

namespace Grammar

variable {k : Nat} {inner : InnerRule k} {s : Input} {word : List Char}

/-- **A literal out of range stops a signed operand** behind the sign.  The sign is read as such,
since no `=` follows it, and behind it nothing but a number can be read. -/
theorem unary_minus_refused {fits : s.size ≤ k} (split : s.chars = '-' :: word)
    (numeral : Word.isNumeral word)
    (refused : ∀ d, Decimal.ofNumeral (String.ofList word) ≠ .ok d) :
    unary inner s fits = .error ⟨word, .supportedNumber, true⟩ := by
  have noEqual : word.head? ≠ some '=' := by
    obtain ⟨c, more, rfl, first⟩ := Lexeme.exists_of_isNumeral numeral
    rintro ⟨⟩
    revert first
    decide
  have minus : s.chars = [] ++ ("-".toList ++ word) := split
  obtain ⟨sign, read, -, behind⟩ :=
    legible_additive.exists_token? (by decide) minus (List.forall_mem_nil _) noEqual
  have read : s.token? [['+'], ['-']] = some sign := read
  rw [← behind] at numeral refused ⊢
  have stops {fits : sign.rest.size ≤ k} :
      primary inner sign.rest fits = .error ⟨sign.rest.chars, .supportedNumber, true⟩ :=
    primary_refused numeral refused
  rw [unary, unaryTail, read]
  dsimp only
  rw [if_neg (by decide), unaryTail, token?_sign_of_isNumeral numeral]
  dsimp only
  rw [stops]
  rfl

end Grammar

namespace Numeral

variable {n : Numeral}

/-- The rule for conditionals stops behind the minus at a numeral beyond the limit. -/
theorem conditional_minus (short : n.chars.length < 2 ^ 63) (beyond : scaleLimit < n.scale.natAbs) :
    Grammar.conditional (.ofChars ('-' :: n.chars)) = .error ⟨n.chars, .supportedNumber, true⟩ := by
  rw [Grammar.conditional]
  exact Grammar.conditionalLayer_stops_of_unary
    (Grammar.unary_minus_refused rfl n.isNumeral_chars (not_literal short beyond))

/-- A numeral behind a minus does not nest. -/
theorem excess?_minus (n : Numeral) : Nesting.excess? ('-' :: n.chars) = none := by
  have within := n.excess?_text
  rw [toList_text, Nesting.excess?, Nesting.excessFrom_eq_none_iff] at within
  exact (Nesting.excessFrom_eq_none_iff 0 _).mpr ⟨by decide, within⟩

/-! ## 2. Literals that are accepted

The tree of a negated literal is written down, and shown to be the tree of its source; nothing is
run.  Its outcome is a difference from zero, not a negative literal: under a precision it would be
rounded. -/

/-- The signed operand of a numeral behind a minus. -/
def negated (n : Numeral) : ParseTree :=
  ⟨.unary, "-" ++ n.text, [.leaf .token "-", .wrap .unary (.wrap .primary (.leaf .number n.text))]⟩

theorem derives_negated (n : Numeral) : ParseTree.Derives .unary n.negated := by
  have word : Word.isNumeral n.text.toList := n.toList_text.symm ▸ n.isNumeral_chars
  exact .signed _ (by decide) (.layer .unary _ (.layer .number _ (.number word)))

theorem trimmed_negated (n : Numeral) : n.negated.Throughout ParseTree.Trimmed := by
  have operand : (ParseTree.wrap .unary (.wrap .primary (.leaf .number n.text))).Throughout
      ParseTree.Trimmed :=
    ParseTree.trimmed_wrap (ParseTree.trimmed_wrap (ParseTree.trimmed_leaf _ _) _) _
  have spelled : ParseTree.Spelled [n.text] ([] ++ (n.text.toList ++ [])) :=
    .cons (List.forall_mem_nil _) _ .nil
  rw [List.nil_append, List.append_nil] at spelled
  refine .node _ (fun _ => ⟨_, _, n.text.toList, rfl, String.toList_append, spelled⟩) ?_
  exact List.forall_mem_cons.mpr ⟨ParseTree.trimmed_leaf _ _, List.forall_mem_singleton.mpr operand⟩

theorem fits_negated {d : Decimal} (literal : Decimal.ofNumeral n.text = .ok d) :
    n.negated.Throughout ParseTree.NodeFits := by
  have number : (ParseTree.leaf .number n.text).Throughout ParseTree.NodeFits :=
    .node _ (ParseTree.fits_leaf fun _ => ⟨d, literal⟩) (List.forall_mem_nil _)
  have operand := ParseTree.fits_wrap (p := .unary) (by decide)
    (ParseTree.fits_wrap (p := .primary) (by decide) number)
  have signs : n.negated.signs ≤ Nesting.limit := (by decide : 1 ≤ Nesting.limit)
  refine .node _ ⟨by rintro ⟨⟩, signs, Nat.zero_le _⟩ ?_
  exact List.forall_mem_cons.mpr ⟨ParseTree.fits_token _, List.forall_mem_singleton.mpr operand⟩

/-- **A literal behind a minus** is subtracted from zero. -/
theorem interpret_negated {d : Decimal} (literal : Decimal.ofNumeral n.text = .ok d)
    (env : Environment) :
    ParseTree.interpret env n.negated =
      Interpreter.named n.negated.text
      (Interpreter.calculate env.policy (.ofInt 0) "-" (.decimal d)) := by
  have operand : ParseTree.interpret env (.wrap .unary (.wrap .primary (.leaf .number n.text)))
      = .ok (.decimal d) := by
    rw [ParseTree.wrap, ParseTree.interpret_layer .unary, ParseTree.wrap,
      ParseTree.interpret_layer .number,
      ParseTree.leaf, ParseTree.interpret, Interpreter.literal, literal]
    rfl
  rw [negated, ParseTree.interpret, operand]
  rfl

/-- **A numeral within the limit** is accepted behind a minus as well, and without a precision it
evaluates to zero less its decimal. -/
theorem exists_forest_minus (short : n.chars.length < 2 ^ 63)
    (within : n.scale.natAbs ≤ scaleLimit) :
    ∃ tree f, ParseTree.ofSource ("-" ++ n.text) = .ok tree ∧ Forest.ofTree tree = .ok f ∧
      ∀ env : Environment, env.policy.precision = none →
        f.evaluate env = .ok (.decimal ((Decimal.ofInt 0).sub n.decimal)) := by
  have literal : Decimal.ofNumeral n.text = .ok n.decimal :=
    (ofNumeral_eq_ok_iff short).mpr ⟨within, rfl⟩
  have text : n.negated.text.toList = '-' :: n.chars := by
    rw [negated, String.toList_append, toList_text]
    rfl
  have height : n.negated.height = 4 := by
    simp [negated, ParseTree.wrap, ParseTree.leaf, ParseTree.height]
  have low : n.negated.height + Production.unary.rank ≤ ParseTree.depthLimit := by
    rw [height]
    decide
  obtain ⟨tree, f, read, forest, evaluates⟩ :=
    Forest.exists_of_derives n.derives_negated rfl n.trimmed_negated
    (fits_negated literal) (text ▸ n.excess?_minus) low
  refine ⟨tree, f, read, forest, fun env exactly => ?_⟩
  rw [evaluates, interpret_negated literal]
  have inRange : n.decimal.InRange := Decimal.inRange_iff.mpr within
  have settles : Settles ((Decimal.ofInt 0).sub n.decimal) False _ :=
    (settles_sub exactly (Decimal.inRange_ofInt 0) inRange).named n.negated.text
  exact (settles.resolve_right fun overflow => overflow.1).1

end Numeral
end DecimalExpression
