import DecimalExpression.Proofs.Evaluation.NegatedLiterals
import DecimalExpression.Proofs.Json.Bindings

/-!
# Numbers in JSON and in sources

A number that JSON can spell is a source as well: a numeral, or a numeral behind a minus.  Both
readings go different ways, but they take the same numbers, and give them the same value
(`Named.ofJsonText_number`).

On one side an object binds the number to a name, and the name is evaluated
(`Named.ofMembers_single`, `Forest.exists_evaluate_name`).  On the other side the text itself is
evaluated (`JsonNumber.exists_forest`).  A number beyond the limit is refused on both sides, and the
check of its scale overflows on both sides or on none.
-/

namespace DecimalExpression

open Json

/-! ## 1. Names as sources

To compare the two readings a bound name has to be evaluated, so the name itself is taken as a
source: it is read as a reference, and the reference looks in the table. -/

/-- **A name is a source**, and evaluates to what is bound to it. -/
theorem Forest.exists_evaluate_name {name : String} (isName : Word.isName name.toList) :
    ∃ tree f, ParseTree.ofSource name = .ok tree ∧ Forest.ofTree tree = .ok f ∧
      ∀ env : Environment, f.evaluate env = .ok ((env.bindings.get? name).getD .null) := by
  have fits : ParseTree.Throughout ParseTree.NodeFits (.leaf .reference name) :=
    .node _ (ParseTree.fits_leaf (by rintro ⟨⟩)) (List.forall_mem_nil _)
  have passed := Nesting.passed_of_isName isName
  have nesting : Nesting.excess? name.toList = none :=
    passed.rises.excess?_eq_none rfl (Nat.zero_le _)
      (passed.within Nesting.start rfl (Nat.zero_le _))
  have low : (ParseTree.leaf .reference name).height + Production.reference.rank
      ≤ ParseTree.depthLimit := by
    rw [ParseTree.leaf, ParseTree.height, List.foldl_nil]
    decide
  obtain ⟨tree, f, read, forest, evaluates⟩ :=
    Forest.exists_of_derives (.reference isName) rfl (ParseTree.trimmed_leaf _ _) fits nesting low
  refine ⟨tree, f, read, forest, fun env => ?_⟩
  rw [evaluates, ParseTree.leaf, ParseTree.interpret]

/-! ## 2. Numbers as sources

The grammar of numbers in JSON is narrower than that of the language, but for the sign, which is an
operator here.  So a number is a numeral, or a numeral behind a minus, and the two cases are kept
apart to the end: a negated literal is computed, and a precision would round it. -/

namespace JsonNumber

variable {n : JsonNumber} {source : String}

/-- **A number is a numeral**, or a numeral behind a minus, which has the negative of its
decimal. -/
theorem exists_source (spells : n.Spells source.toList) (short : source.length < 2 ^ 63) :
    ∃ m : Numeral, m.chars.length < 2 ^ 63 ∧ m.scale = n.scale ∧
      ((n.negative = false ∧ source = m.text ∧ n.decimal = m.decimal) ∨
        n.negative = true ∧ source = "-" ++ m.text ∧ n.decimal = m.decimal.neg) := by
  obtain ⟨m, split, digits, scale⟩ := exists_numeral spells
  have value : m.decimal = ⟨Digits.read n.digits, n.scale⟩ := by rw [Numeral.decimal, digits, scale]
  have shorter : m.chars.length < 2 ^ 63 := by
    have length := congrArg List.length split
    rw [String.length_toList, List.length_append] at length
    omega
  refine ⟨m, shorter, scale, ?_⟩
  rw [← String.toList_inj, ← String.toList_inj, split, String.toList_append, m.toList_text, value,
    decimal, unscaled,
    sign]
  cases n.negative with
  | false => exact .inl ⟨rfl, rfl, rfl⟩
  | true => exact .inr ⟨rfl, rfl, rfl⟩

/-- **A number within the limit** is accepted as a source.  It evaluates to its decimal, and without
a precision to the same number if it is negative. -/
theorem exists_forest (spells : n.Spells source.toList) (short : source.length < 2 ^ 63)
    (within : n.scale.natAbs ≤ scaleLimit) :
    ∃ tree f, ParseTree.ofSource source = .ok tree ∧ Forest.ofTree tree = .ok f ∧
      (n.negative = false → ∀ env : Environment, f.evaluate env = .ok (.decimal n.decimal)) ∧
      ∀ env : Environment, env.policy.precision = none →
        ∃ d, f.evaluate env = .ok (.decimal d) ∧ d.toRat = n.decimal.toRat := by
  obtain ⟨m, shorter, scale, ⟨unsigned, rfl, value⟩ | ⟨negative, rfl, value⟩⟩ :=
    exists_source spells short
  · obtain ⟨tree, f, read, forest, evaluates⟩ := m.exists_forest shorter (scale ▸ within)
    rw [value]
    exact ⟨tree, f, read, forest, fun _ => evaluates, fun env _ => ⟨_, evaluates env, rfl⟩⟩
  · obtain ⟨tree, f, read, forest, evaluates⟩ := m.exists_forest_minus shorter (scale ▸ within)
    refine ⟨tree, f, read, forest, fun unsigned => ?_,
      fun env exactly => ⟨_, evaluates env exactly, ?_⟩⟩
    · cases negative.symm.trans unsigned
    · rw [value, Decimal.toRat_sub, Decimal.toRat_ofInt, Decimal.toRat_neg, Int.cast_zero, zero_sub]

/-- **A number beyond the limit** is refused as a source where its digits start, or overflows. -/
theorem ofSource_beyond (spells : n.Spells source.toList) (short : source.length < 2 ^ 63)
    (beyond : scaleLimit < n.scale.natAbs) :
    (n.scale = leastWord → Bounded.ofSource source = .error .overflow) ∧
    (n.scale ≠ leastWord → ∃ literal, source = String.ofList n.sign ++ literal ∧
      Bounded.ofSource source = Bounded.fail (.source n.sign.length (.literalRange literal))) := by
  obtain ⟨m, shorter, scale, ⟨unsigned, rfl, -⟩ | ⟨negative, rfl, -⟩⟩ := exists_source spells short
  · have stops := m.conditional_text shorter (scale ▸ beyond)
    rw [← m.toList_text] at stops
    obtain ⟨overflow, refused⟩ := Bounded.ofSource_of_stops [] m.toList_text m.excess?_text
      (m.toList_text ▸ stops) shorter
    rw [← scale, sign, unsigned]
    exact ⟨overflow, fun more => ⟨m.text, rfl, refused more⟩⟩
  · have split : ("-" ++ m.text).toList = '-' :: m.chars := by
      rw [String.toList_append, m.toList_text]
      rfl
    obtain ⟨overflow, refused⟩ := Bounded.ofSource_of_stops ['-'] split (split ▸ m.excess?_minus)
      (split ▸ m.conditional_minus shorter (scale ▸ beyond)) shorter
    rw [← scale, sign, negative]
    exact ⟨overflow, fun more => ⟨m.text, rfl, refused more⟩⟩

end JsonNumber

/-! ## 3. Numbers in JSON

An object with one member has nothing to sort and nothing to override.  What is left of loading it
is loading its value, and a fault is put under the name. -/

namespace Named

variable {n : JsonNumber} {text name source : String} {json : Json}

/-- One member is loaded alone. -/
theorem ofMembers_single (name : String) (json : Json) :
    ofMembers [(name, json)] = (ofMember (name, json)).map fun entry =>
      Named.empty.setAll [entry] := by
  have outcome : ofMembers [(name, json)]
    = ((sortEntries [(name, json)]).mapM ofMember >>= fun values =>
    pure (Named.empty.setAll values)) := rfl
  rw [outcome, sortEntries, List.mergeSort_singleton, List.mapM_cons, List.mapM_nil]
  cases ofMember (name, json) <;> rfl

/-- The object that binds a name to a number. -/
theorem ofJsonText_single (object : SpellsText text (.object [(some name, .number n)]))
    (isName : Word.isName name.toList) :
    ofJsonText text = (ofMember (name, .number n)).map (fun entry => Named.empty.setAll [entry]) ∧
      n.IsStrict ∧ n.write.length < text.length := by
  have free : name ≠ numberName := by
    rintro rfl
    exact absurd isName (by decide)
  have strict := isStrictObject_single object free
  have formed := strict.wellFormed _ (List.mem_singleton.mpr rfl)
  exact ⟨by rw [ofJsonText_object strict, ofMembers_single], formed.number n rfl⟩

/-- **A number within the limit** is bound to the name. -/
theorem exists_ofJsonText_number (object : SpellsText text (.object [(some name, .number n)]))
    (isName : Word.isName name.toList) (short : text.length < 2 ^ 63)
    (within : n.scale.natAbs ≤ scaleLimit) :
    ∃ table, ofJsonText text = .ok table ∧ table.get? name = some (.decimal n.decimal) := by
  obtain ⟨single, strict, shorter⟩ := ofJsonText_single object isName
  have member : ofMember (name, .number n) = .ok (name, .decimal n.decimal) := by
    rw [ofMember, Value.ofJson, Value.ofJsonNumber_ok strict (shorter.trans short) within]
  refine ⟨_, by rw [single, member]; rfl, get?_setAll.mpr ⟨[], [], rfl, List.forall_mem_nil _⟩⟩

/-- **A number beyond the limit** is refused in the name of the binding, or overflows. -/
theorem ofJsonText_beyond (object : SpellsText text (.object [(some name, .number n)]))
    (isName : Word.isName name.toList) (short : text.length < 2 ^ 63)
    (beyond : scaleLimit < n.scale.natAbs) :
    (n.scale = leastWord → ofJsonText text = .error .overflow) ∧
    (n.scale ≠ leastWord →
      ofJsonText text = Bounded.fail (.binding name (.unsupportedNumber n.write))) := by
  obtain ⟨single, strict, shorter⟩ := ofJsonText_single object isName
  rw [single, ofMember, Value.ofJson]
  refine ⟨fun least => ?_, fun more => ?_⟩
  · rw [Value.ofJsonNumber_overflow strict (shorter.trans short) least]
    rfl
  · rw [Value.ofJsonNumber_refused strict (shorter.trans short) beyond more]
    rfl

/-! ## 4. Both readings

Both readings accept where the scale is within the limit, so they accept together.  Where it is not
they differ in what they say: one names the binding, the other a place in the source.  At the least
scale of 64 bits both overflow. -/

/-- **Both sides take the same numbers.** -/
theorem exists_table_iff_exists_tree (object : SpellsText text (.object [(some name, .number n)]))
    (isName : Word.isName name.toList) (spells : n.Spells source.toList)
    (short : text.length < 2 ^ 63)
    (short' : source.length < 2 ^ 63) :
    (∃ table, ofJsonText text = .ok table) ↔ ∃ tree, Bounded.ofSource source = .ok tree := by
  by_cases within : n.scale.natAbs ≤ scaleLimit
  · obtain ⟨table, loaded, -⟩ := exists_ofJsonText_number object isName short within
    obtain ⟨tree, f, read, -⟩ := JsonNumber.exists_forest spells short' within
    exact iff_of_true ⟨table, loaded⟩ ⟨tree, Bounded.ofSource_eq_ok_iff.mpr read⟩
  · obtain ⟨overflow, refused⟩ := ofJsonText_beyond object isName short (Nat.not_le.mp within)
    obtain ⟨overflow', refused'⟩ := JsonNumber.ofSource_beyond spells short' (Nat.not_le.mp within)
    by_cases least : n.scale = leastWord
    · rw [overflow least, overflow' least]
      exact iff_of_false (by rintro ⟨_, ⟨⟩⟩) (by rintro ⟨_, ⟨⟩⟩)
    · obtain ⟨literal, -, refused'⟩ := refused' least
      rw [refused least, refused']
      exact iff_of_false (by rintro ⟨_, ⟨⟩⟩) (by rintro ⟨_, ⟨⟩⟩)

/-- **A number in JSON and the same text as a source agree**, but for one scale.  An object that
binds a name to the number is loaded exactly if the text of the number is accepted as a source,
which is where its scale is within the limit.  Then the name evaluates to the decimal of the number,
and so does the text, if it has no minus; behind a minus it evaluates to the same number in every
environment without a precision.  Beyond the limit loading is refused in the name of the binding,
and the source where its digits start; but at the scale `-2 ^ 63` the check of the scale overflows
on both sides.  A text in memory has fewer than `2 ^ 63` characters. -/
theorem ofJsonText_number (object : SpellsText text (.object [(some name, .number n)]))
    (isName : Word.isName name.toList) (spells : n.Spells source.toList)
    (short : text.length < 2 ^ 63)
    (short' : source.length < 2 ^ 63) :
    ((∃ table, ofJsonText text = .ok table) ↔ ∃ tree, Bounded.ofSource source = .ok tree) ∧
    (n.scale.natAbs ≤ scaleLimit → ∃ table f g, ofJsonText text = .ok table ∧
      Bounded.forestOfSource name = .ok f ∧ Bounded.forestOfSource source = .ok g ∧
      (∀ env : Environment, env.bindings = table → f.evaluate env = .ok (.decimal n.decimal)) ∧
      (n.negative = false → ∀ env : Environment, g.evaluate env = .ok (.decimal n.decimal)) ∧
      ∀ env : Environment, env.policy.precision = none →
        ∃ d, g.evaluate env = .ok (.decimal d) ∧ d.toRat = n.decimal.toRat) ∧
    (scaleLimit < n.scale.natAbs → n.scale ≠ leastWord →
      ofJsonText text = Bounded.fail (.binding name (.unsupportedNumber n.write)) ∧
      ∃ literal, source = String.ofList n.sign ++ literal ∧
        Bounded.ofSource source = Bounded.fail (.source n.sign.length (.literalRange literal))) ∧
    (n.scale = leastWord →
      ofJsonText text = .error .overflow ∧ Bounded.ofSource source = .error .overflow) := by
  have atLeast (least : n.scale = leastWord) : scaleLimit < n.scale.natAbs := by
    rw [least]
    decide
  refine ⟨exists_table_iff_exists_tree object isName spells short short', fun within => ?_,
    fun beyond more => ?_,
    fun least => ?_⟩
  · obtain ⟨table, loaded, bound⟩ := exists_ofJsonText_number object isName short within
    obtain ⟨tree, f, read, planted, evaluates⟩ := Forest.exists_evaluate_name isName
    obtain ⟨tree', g, read', planted', same⟩ := JsonNumber.exists_forest spells short' within
    refine ⟨table, f, g, loaded, Bounded.forestOfSource_of_ofTree read planted,
      Bounded.forestOfSource_of_ofTree read' planted', fun env bindings => ?_, same⟩
    rw [evaluates, bindings, bound]
    rfl
  · exact ⟨(ofJsonText_beyond object isName short beyond).2 more,
      (JsonNumber.ofSource_beyond spells short' beyond).2 more⟩
  · exact ⟨(ofJsonText_beyond object isName short (atLeast least)).1 least,
      (JsonNumber.ofSource_beyond spells short' (atLeast least)).1 least⟩

/-- Fifteen hundred, with an exponent. -/
def fifteenHundred : JsonNumber := ⟨false, ['1'], some ['5', '0'], some (false, ['3'])⟩

/-- A number with an exponent, at a negative scale. -/
theorem ofJsonText_number_exponent : ∃ table f g, ofJsonText "\x7b\"x\":1.50E3\x7d" = .ok table ∧
    Bounded.forestOfSource "x" = .ok f ∧ Bounded.forestOfSource "1.50E3" = .ok g ∧
    ∀ env : Environment, env.bindings = table →
      f.evaluate env = .ok (.decimal ⟨150, -1⟩) ∧ g.evaluate env = .ok (.decimal ⟨150, -1⟩) := by
  have spells : fifteenHundred.Spells "1.50E3".toList := number?_eq_some_iff.mp rfl
  have plain : ∀ c ∈ ['x'], c ≠ '"' ∧ c ≠ '\\' ∧ 0x20 ≤ c.toNat := by simp
  have object := spellsText_single plain spells
  have short : (single ['x'] "1.50E3".toList).length < 2 ^ 63 := by decide
  obtain ⟨-, agree, -⟩ := ofJsonText_number object (by decide) spells short (by decide)
  obtain ⟨table, f, g, loaded, name, source, bound, unsigned, -⟩ := agree (by decide)
  exact ⟨table, f, g, loaded, name, source,
    fun env bindings => ⟨bound env bindings, unsigned rfl env⟩⟩

/-- **A number that is not loaded need not be refused.** -/
theorem ofJsonText_number_overflow : ¬ ∀ (n : JsonNumber) (text name : String),
    SpellsText text (.object [(some name, .number n)]) → Word.isName name.toList →
    n.negative = false →
    text.length < 2 ^ 63 →
      (∃ table, ofJsonText text = .ok table) ∨ ∃ cause,
        ofJsonText text = Bounded.fail (.binding name cause) := by
  intro loads
  have spells : leastNumber.Spells leastNumber.write.toList := number?_eq_some_iff.mp rfl
  have plain : ∀ c ∈ ['x'], c ≠ '"' ∧ c ≠ '\\' ∧ 0x20 ≤ c.toNat := by simp
  have object := spellsText_single plain spells
  have short : (single ['x'] leastNumber.write.toList).length < 2 ^ 63 := by decide
  have overflow := (ofJsonText_beyond object (by decide) short (by decide)).1 (by decide)
  rcases loads _ _ _ object (by decide) rfl short with ⟨table, loaded⟩ | ⟨cause, refused⟩
  · cases loaded.symm.trans overflow
  · cases refused.symm.trans overflow

end Named
end DecimalExpression
