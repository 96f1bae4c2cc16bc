import DecimalExpression.Proofs.Syntax.Recovery

/-!
# Quotes in a source

Outside the text literals of a tree there are no quotes, and each literal has two of them
(`ParseTree.Derives.quotesLiterals`).  So the text of every node has its quotes in pairs, and so has
the text in front of every node (`ParseTree.exists_place`): counting quotes and reading literals
agree on where a literal starts.  The literals that pairs of quotes make (`Text.literals`) come
apart where quotes in pairs end (`Text.literals_append`).

Where a text in quotes starts behind quotes in pairs, it does not run across the border of anything
that has its quotes in pairs itself (`Text.split_quote`).
-/

namespace DecimalExpression

/-! ## 1. Quotes in pairs

Quotes have no nesting and no escapes, so where a text is in quotes is a matter of counting them.
Literals are read off by the same count, and where all quotes are closed a text can be cut in
two. -/

namespace Text

/-- **Quotes in pairs**: what stands behind them is outside quotes. -/
def Paired (chars : List Char) : Prop := chars.count '"' % 2 = 0

instance (chars : List Char) : Decidable (Paired chars) := inferInstanceAs (Decidable (_ = _))

/-- **The characters of a text literal.** -/
def quote (content : List Char) : List Char := '"' :: (content ++ ['"'])

variable {chars word front back rest old : List Char}

theorem count_quote (content : List Char) : (quote content).count '"' = content.count '"' + 2 := by
  rw [quote, List.count_cons_self, List.count_append, List.count_singleton_self]

theorem paired_of_not_mem (absent : '"' ∉ chars) : Paired chars := by
  rw [Paired, List.count_eq_zero.mpr absent]

theorem paired_quote (absent : '"' ∉ old) : Paired (quote old) := by
  rw [Paired, count_quote, List.count_eq_zero.mpr absent]

theorem Paired.append (h : Paired chars) (h' : Paired word) : Paired (chars ++ word) := by
  rw [Paired] at h h' ⊢
  rw [List.count_append]
  omega

theorem Paired.of_append (h : Paired (chars ++ word)) (h' : Paired chars) : Paired word := by
  rw [Paired] at h h' ⊢
  rw [List.count_append] at h
  omega

theorem quote_not_mem_layout (layout : ∀ c ∈ chars, isLayout c) : '"' ∉ chars := fun member => by
  cases layout '"' member

/-- The literals that are read on, behind an open quote with what has been read since, or
outside. -/
def literalsFrom : Option (List Char) → List Char → List String
  | _, [] => []
  | none, c :: rest => literalsFrom (if c = '"' then some [] else none) rest
  | some content, c :: rest =>
    if c = '"' then String.ofList (quote content) :: literalsFrom none rest
    else literalsFrom (some (content ++ [c])) rest

/-- **The literals of some characters**: from the first quote to the second one, from the third one
to the fourth one, and so on. -/
def literals (chars : List Char) : List String := literalsFrom none chars

/-- **Behind quotes that are all closed** reading starts again.  By induction on the characters: a
quote opens or closes, and any other character changes neither. -/
theorem literalsFrom_append {reading : Option (List Char)} (closed : Paired chars ↔ reading = none)
    (rest : List Char) :
    literalsFrom reading (chars ++ rest) = literalsFrom reading chars ++ literals rest := by
  induction chars generalizing reading with
  | nil =>
    obtain rfl := closed.mp rfl
    rfl
  | cons c chars ih =>
    by_cases isQuote : c = '"'
    · subst isQuote
      have flips : Paired ('"' :: chars) ↔ ¬ Paired chars := by
        rw [Paired, Paired, List.count_cons_self]
        omega
      rw [flips] at closed
      cases reading with
      | none =>
        have opened : Paired chars ↔ some ([] : List Char) = none := by simpa using closed
        exact ih opened
      | some content =>
        have done : Paired chars ↔ (none : Option (List Char)) = none := by simpa using closed
        exact congrArg (String.ofList (quote content) :: ·) (ih done)
    · have goesOn : Paired (c :: chars) ↔ Paired chars := by
        rw [Paired, Paired, List.count_cons_of_ne isQuote]
      rw [goesOn] at closed
      cases reading with
      | none =>
        rw [List.cons_append, literalsFrom, literalsFrom, if_neg isQuote]
        exact ih closed
      | some content =>
        rw [List.cons_append, literalsFrom, literalsFrom, if_neg isQuote, if_neg isQuote]
        exact ih (by simpa using closed)

theorem literals_append (paired : Paired chars) (rest : List Char) :
    literals (chars ++ rest) = literals chars ++ literals rest :=
  literalsFrom_append (iff_of_true paired rfl) rest

theorem literals_of_not_mem (absent : '"' ∉ chars) : literals chars = [] := by
  induction chars with
  | nil => rfl
  | cons c chars ih =>
    obtain ⟨here, later⟩ := not_or.mp (List.mem_cons.not.mp absent)
    rw [literals, literalsFrom, if_neg fun same => here same.symm]
    exact ih later

theorem literalsFrom_content (absent : '"' ∉ chars) (content : List Char) :
    literalsFrom (some content) (chars ++ ['"']) = [String.ofList (quote (content ++ chars))] := by
  induction chars generalizing content with
  | nil => rw [List.append_nil]; rfl
  | cons c chars ih =>
    obtain ⟨here, later⟩ := not_or.mp (List.mem_cons.not.mp absent)
    rw [List.cons_append, literalsFrom, if_neg fun same => here same.symm, ih later,
      List.append_assoc, List.singleton_append]

/-- **A text in quotes** is one literal. -/
theorem literals_quote (absent : '"' ∉ old) : literals (quote old) = [String.ofList (quote old)] :=
  literalsFrom_content absent []

/-- **A text in quotes behind quotes in pairs** is a literal of its own. -/
theorem literals_around (outside : Paired front) (absent : '"' ∉ old) (back : List Char) :
    literals (front ++ (quote old ++ back))
      = literals front ++ String.ofList (quote old) :: literals back := by
  rw [literals_append outside, literals_append (paired_quote absent), literals_quote absent,
    List.singleton_append]

theorem mem_quote_append (front old back : List Char) : '"' ∈ front ++ (quote old ++ back) :=
  List.mem_append_right _ List.mem_cons_self

/-- **A text in quotes stays on one side** of a border, where it starts behind quotes in pairs and
so does what stands behind the border. -/
theorem split_quote (outside : Paired front) (paired : Paired word) (absent : '"' ∉ old)
    (same : front ++ (quote old ++ back) = word ++ rest) :
    (∃ between, front = word ++ between ∧ rest = between ++ (quote old ++ back)) ∨
      ∃ behind, word = front ++ (quote old ++ behind) ∧ back = behind ++ rest := by
  rcases List.append_eq_append_iff.mp same with ⟨part, rfl, split⟩ | ⟨between, whole, split⟩
  · have inside := paired.of_append outside
    cases part with
    | nil => exact .inl ⟨[], by simp, by simpa using split.symm⟩
    | cons c part =>
      -- the part in front of the border has the opening quote, and so it has the closing one
      have content : old ++ ['"'] ++ back = part ++ rest := (List.cons.inj split).2
      obtain rfl := (List.cons.inj split).1
      rw [Paired, List.count_cons_self] at inside
      rcases List.append_eq_append_iff.mp content with ⟨behind, rfl, rfl⟩ | ⟨tail, whole, rfl⟩
      · exact .inr ⟨behind, by simp [quote], rfl⟩
      · have counts : (old ++ ['"']).count '"' = 1 := by
          rw [List.count_append, List.count_eq_zero.mpr absent, List.count_singleton_self]
        rw [whole, List.count_append] at counts
        have none : '"' ∉ tail := List.count_eq_zero.mp (by omega)
        rcases List.eq_nil_or_concat tail with rfl | ⟨others, d, rfl⟩
        · rw [List.append_nil] at whole
          exact .inr ⟨[], by simp [quote, whole], rfl⟩
        · rw [List.concat_eq_append, ← List.append_assoc] at whole
          obtain ⟨-, closing⟩ := List.append_inj' whole rfl
          rw [List.concat_eq_append, ← closing] at none
          exact absurd (List.mem_append_right _ List.mem_cons_self) none
  · exact .inl ⟨between, whole, split⟩

/-- **A text in quotes** has no other one in it.  There are two quotes on either side, so in front
of the text and behind it there are none. -/
theorem eq_of_quote_eq {content : List Char} (outside : Paired front) (absent : '"' ∉ content)
    (same : quote content = front ++ (quote old ++ back)) :
    front = [] ∧ content = old ∧ back = [] := by
  have counts := congrArg (List.count '"') same
  rw [count_quote, List.count_append, List.count_append, count_quote,
    List.count_eq_zero.mpr absent] at counts
  have noFront : '"' ∉ front := List.count_eq_zero.mp (by omega)
  have noBack : '"' ∉ back := List.count_eq_zero.mp (by omega)
  obtain rfl : front = [] := by
    cases front with
    | nil => rfl
    | cons c front =>
      obtain rfl := (List.cons.inj same).1
      exact absurd List.mem_cons_self noFront
  have inside : content ++ ['"'] = old ++ ['"'] ++ back := (List.cons.inj same).2
  rcases List.eq_nil_or_concat back with rfl | ⟨others, d, rfl⟩
  · rw [List.append_nil] at inside
    exact ⟨rfl, (List.append_inj' inside rfl).1, rfl⟩
  · rw [List.concat_eq_append, ← List.append_assoc] at inside
    obtain ⟨-, closing⟩ := List.append_inj' inside rfl
    rw [List.concat_eq_append, ← closing] at noBack
    exact absurd (List.mem_append_right _ List.mem_cons_self) noBack

end Text

/-! ## 2. Quotes in a tree

In a derived tree only text literals have quotes.  So each node has its quotes in pairs, and stands
in the text of the tree behind quotes in pairs. -/

namespace ParseTree

open Text

variable {tree child u : ParseTree} {trees : List ParseTree} {p : Production} {slice : String}
  {chars front back old : List Char}

/-- A leaf is a text literal in its quotes, or it has none. -/
def QuotesLiterals (tree : ParseTree) : Prop :=
  tree.children = [] →
    (tree.production = .text ∧ ∃ content, tree.text.toList = quote content ∧ '"' ∉ content) ∨
      tree.production ≠ .text ∧ '"' ∉ tree.text.toList

/-- **Of the leaves of a derived tree only text literals have quotes.** -/
theorem Derives.quotesLiterals (h : Derives p tree) : tree.Throughout QuotesLiterals := by
  have operators : ∀ operator ∈ levelOperators, '"' ∉ operator.toList := by decide
  have marks : ∀ mark ∈ ["(", ")", "?", ":"], '"' ∉ mark.toList := by decide
  have ofName : ∀ {slice : String}, Word.isName slice.toList → '"' ∉ slice.toList :=
    fun name member => absurd (Lexeme.isNamePart_of_mem_name name _ member) (by decide)
  have ofNumeral : ∀ {slice : String}, Word.isNumeral slice.toList → '"' ∉ slice.toList :=
    fun numeral member => absurd (Lexeme.mem_numeral numeral _ member) (by decide)
  refine h.throughout (fun text _ => ?_) fun derives leaf => ?_
  · refine .inr ⟨by rintro ⟨⟩, ?_⟩
    cases text with
    | operator known => exact operators _ known
    | mark known => exact marks _ known
    | name word => exact ofName word
  · cases derives with
    | number word => exact .inr ⟨by rintro ⟨⟩, ofNumeral word⟩
    | text word => exact .inl ⟨rfl, Lexeme.isQuoted_iff.mp word⟩
    | reference word => exact .inr ⟨by rintro ⟨⟩, ofName word⟩
    | layer | flat | left | right | choice | signed | group | call => cases leaf

/-- Where tokens have their quotes in pairs, they have them so spelled out. -/
theorem Spelled.paired {tokens : List String} (spelled : Spelled tokens chars)
    (each : ∀ token ∈ tokens, Paired token.toList) : Paired chars := by
  induction spelled with
  | nil => rfl
  | cons layout token _ ih =>
    obtain ⟨here, later⟩ := List.forall_mem_cons.mp each
    exact (paired_of_not_mem (quote_not_mem_layout layout)).append (here.append (ih later))

/-- The items of a trimmed node are spelled out in its text. -/
theorem Trimmed.spelled (h : tree.Trimmed) (inner : tree.children ≠ []) :
    Spelled (tree.items.map ParseTree.text) tree.text.toList := by
  obtain ⟨first, more, body, items, text, spelled⟩ := h inner
  rw [items, text, List.map_cons]
  exact .cons (List.forall_mem_nil _) first.text spelled

/-- A comma has no quotes. -/
theorem forall_items {P : String → Prop} (below : ∀ child ∈ tree.children, P child.text)
    (comma : P ",") : ∀ item ∈ tree.items, P item.text := by
  intro item member
  rcases mem_items member with child | rfl
  · exact below item child
  · exact comma

/-- **The text of every node** has its quotes in pairs. -/
theorem paired_text (trimmed : tree.Throughout Trimmed) (quotes : tree.Throughout QuotesLiterals) :
    Paired tree.text.toList := by
  induction trimmed with
  | node tree here _ ih =>
    by_cases inner : tree.children = []
    · rcases quotes.here inner with ⟨-, content, text, absent⟩ | ⟨-, absent⟩
      · rw [text]
        exact paired_quote absent
      · exact paired_of_not_mem absent
    · have each : ∀ item ∈ tree.items, Paired item.text.toList :=
        forall_items (P := fun slice => Paired slice.toList)
          (fun child member => ih child member (quotes.child member)) (by decide)
      exact (here.spelled inner).paired (List.forall_mem_map.mpr each)

/-- **The items of a node** have their quotes in pairs. -/
theorem paired_items (trimmed : tree.Throughout Trimmed) (quotes : tree.Throughout QuotesLiterals) :
    ∀ item ∈ tree.items, Paired item.text.toList :=
  forall_items (P := fun slice => Paired slice.toList)
    (fun _ member => paired_text (trimmed.child member) (quotes.child member)) (by decide)

/-- A child stands in the text of its parent, behind quotes in pairs. -/
theorem exists_place_of_mem (trimmed : tree.Throughout Trimmed)
    (quotes : tree.Throughout QuotesLiterals) (member : child ∈ tree.children) :
    ∃ front back, tree.text.toList = front ++ (child.text.toList ++ back) ∧ Paired front := by
  obtain ⟨first, last, items⟩ := List.append_of_mem (mem_items_of_mem member)
  have spelled := trimmed.here.spelled (List.ne_nil_of_mem member)
  have paired := paired_items trimmed quotes
  rw [items, List.map_append, List.map_cons] at spelled
  rw [items, List.forall_mem_append] at paired
  obtain ⟨x, y, text, atFirst, atLast⟩ := spelled.exists_of_append
  obtain ⟨gap, rest, rfl, layout, -⟩ := Spelled.exists_of_cons atLast
  refine ⟨x ++ gap, rest, by rw [text, List.append_assoc], ?_⟩
  exact (atFirst.paired (List.forall_mem_map.mpr paired.1)).append
    (paired_of_not_mem (quote_not_mem_layout layout))

/-- **Every node stands in the text of the tree**, behind quotes in pairs. -/
theorem exists_place {path : List ParseTree} (trimmed : tree.Throughout Trimmed)
    (quotes : tree.Throughout QuotesLiterals) (down : tree.Path path)
    (last : path.getLast? = some u) :
    ∃ front back, tree.text.toList = front ++ (u.text.toList ++ back) ∧ Paired front := by
  induction down with
  | here tree =>
    cases last
    exact ⟨[], [], by simp, rfl⟩
  | @child tree child path member onward ih =>
    obtain ⟨front, back, text, paired⟩ := exists_place_of_mem trimmed quotes member
    obtain ⟨front', back', text', paired'⟩ := ih (trimmed.child member) (quotes.child member)
      (by cases onward <;> exact last)
    exact ⟨front ++ front', back' ++ back, by rw [text, text']; simp, paired.append paired'⟩

end ParseTree
end DecimalExpression
