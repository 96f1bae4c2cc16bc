import DecimalExpression.Proofs.Outcomes
import DecimalExpression.Proofs.Syntax.Layout
import DecimalExpression.Proofs.Syntax.Soundness
import Mathlib

/-!
# A tree shows its source

Nothing of a source is lost in its tree and nothing is made up (`ParseTree.ofSource_faithful`).  The
tree follows the grammar.  It stands in the source, so the text of each inner node is the slice from
its first leaf to its last one.  Its leaves, one after another, are the source without separators
outside quotes (`Text.visible`).

The last point follows from the place of the tree: between two leaves are separators, and each leaf
is visible as a whole (`Text.Shown`), since it has no separators or is one text in quotes.
-/

namespace DecimalExpression

/-! ## 1. The visible part of a text

Separators outside quotes are all that a tree does not keep.  A word is shown if nothing of it is
lost in that way, and this does not depend on what stands behind it. -/

namespace Text

/-- The text without separators outside quotes, where a quote is open or not. -/
def visibleFrom (inside : Bool) : List Char → List Char
  | [] => []
  | c :: rest =>
    if c = '"' then c :: visibleFrom (!inside) rest
    else if !inside && isSeparator c then visibleFrom inside rest
    else c :: visibleFrom inside rest

/-- **The visible part of a text**: what is left without separators outside quotes. -/
def visible (text : List Char) : List Char := visibleFrom false text

/-- **A text shown as a whole**, whatever stands behind it. -/
def Shown (word : List Char) : Prop :=
  ∀ rest, visible (word ++ rest) = word ++ visible rest

variable {word gap : List Char}

/-- Separators are not visible. -/
theorem visible_separators (separators : ∀ c ∈ gap, isSeparator c) (rest : List Char) :
    visible (gap ++ rest) = visible rest := by
  induction gap with
  | nil => rfl
  | cons c gap ih =>
    obtain ⟨here, later⟩ := List.forall_mem_cons.mp separators
    have notQuote : c ≠ '"' := by
      rintro rfl
      cases here
    rw [List.cons_append, visible, visibleFrom, if_neg notQuote, here]
    exact ih later

/-- **A plain text** has no quotes and no separators. -/
def isPlain (word : List Char) : Bool :=
  word.all fun c => c ≠ '"' && !isSeparator c

theorem isPlain_iff : isPlain word ↔ ∀ c ∈ word, c ≠ '"' ∧ isSeparator c = false := by
  simp [isPlain]

/-- **A plain text is shown.** -/
theorem shown_of_isPlain (plain : isPlain word) : Shown word := by
  intro rest
  induction word with
  | nil => rfl
  | cons c word ih =>
    obtain ⟨⟨notQuote, notSeparator⟩, later⟩ := List.forall_mem_cons.mp (isPlain_iff.mp plain)
    rw [List.cons_append, visible, visibleFrom, if_neg notQuote, notSeparator]
    exact congrArg (c :: ·) (ih (isPlain_iff.mpr later))

/-- Everything is visible up to the closing quote. -/
theorem visibleFrom_content {content : List Char} (absent : '"' ∉ content)
    (rest : List Char) :
    visibleFrom true (content ++ '"' :: rest) = content ++ '"' :: visible rest := by
  induction content with
  | nil => rfl
  | cons c content ih =>
    rw [List.mem_cons, not_or] at absent
    obtain ⟨notQuote, later⟩ := absent
    rw [List.cons_append, visibleFrom, if_neg (Ne.symm notQuote)]
    exact congrArg (c :: ·) (ih later)

/-- **A text in quotes is shown**, with the separators in it. -/
theorem shown_of_isQuoted (isQuoted : Word.isQuoted word) : Shown word := by
  intro rest
  obtain ⟨content, rfl, absent⟩ := Lexeme.isQuoted_iff.mp isQuoted
  have inside := visibleFrom_content absent rest
  simpa [visible, visibleFrom] using inside

/-- Neither names nor numerals have quotes or separators in them. -/
theorem isPlain_of_forall {p : Char → Bool} (each : ∀ c ∈ word, p c)
    (others : ∀ c ∈ ['"', ' ', '\t', '\r', '\n', ','], p c = false) : isPlain word := by
  refine isPlain_iff.mpr fun c member => ?_
  have here := each c member
  constructor
  · rintro rfl
    exact absurd here (by rw [others _ (by decide)]; decide)
  · rw [Bool.eq_false_iff]
    intro separator
    simp only [isSeparator, isLayout, Bool.or_eq_true, decide_eq_true_eq] at separator
    have among : c ∈ ['"', ' ', '\t', '\r', '\n', ','] := by
      rcases separator with (((rfl | rfl) | rfl) | rfl) | rfl <;> decide
    exact absurd here (by rw [others c among]; decide)

theorem shown_of_isName (name : Word.isName word) : Shown word := by
  refine shown_of_isPlain (isPlain_of_forall (Lexeme.isNamePart_of_mem_name name) ?_)
  simp [Lexeme.isNamePart, Lexeme.isNameStart]

theorem shown_of_isNumeral (numeral : Word.isNumeral word) : Shown word := by
  have each : ∀ c ∈ word, c.isDigit || ['.', 'e', 'E', '+', '-'].contains c := by
    intro c member
    simpa using Lexeme.mem_numeral numeral c member
  exact shown_of_isPlain (isPlain_of_forall each (by simp))

end Text

namespace ParseTree

/-! ## 2. The leaves of a derived tree are shown

Operators and parentheses are plain, names and numerals have neither blanks nor commas, and a text
in quotes is shown whatever is in it. -/

/-- A leaf that is shown. -/
def ShowsLeaf (tree : ParseTree) : Prop :=
  tree.children = [] → Text.Shown tree.text.toList

variable {p : Production} {tree first : ParseTree} {more : List ParseTree}

/-- **Each leaf of a derived tree is shown**: it is an operator, a parenthesis or a word. -/
theorem Derives.showsLeaves (h : Derives p tree) : tree.Throughout ShowsLeaf := by
  have operators : ∀ operator ∈ levelOperators, Text.isPlain operator.toList := by decide
  have marks : ∀ mark ∈ ["(", ")", "?", ":"], Text.isPlain mark.toList := by decide
  exact h.leavesHave
    { operator := fun operator member => Text.shown_of_isPlain (operators operator member)
      mark := fun mark member => Text.shown_of_isPlain (marks mark member)
      name := Text.shown_of_isName
      numeral := Text.shown_of_isNumeral
      quoted := Text.shown_of_isQuoted }

/-! ## 3. The leaves of a tree that stands in a text

In front of each leaf stand separators, which are not visible, and the leaf itself is shown.  By
induction on the tree, and on rows of trees, what is visible of the text is the leaves in their
order. -/

theorem foldr_yieldOnto {trees : List ParseTree}
    (each : ∀ tree ∈ trees, ∀ rest, tree.yieldOnto rest = tree.yield ++ rest)
    (rest : List String) :
    trees.foldr (fun tree rest => tree.yieldOnto rest) rest = trees.flatMap yield ++ rest := by
  induction trees with
  | nil => rfl
  | cons tree trees ih =>
    obtain ⟨here, later⟩ := List.forall_mem_cons.mp each
    rw [List.foldr_cons, ih later, here, List.flatMap_cons, List.append_assoc]

/-- The leaves of a tree stand in front of what is there. -/
theorem yieldOnto_eq (tree : ParseTree) (rest : List String) :
    tree.yieldOnto rest = tree.yield ++ rest := by
  obtain ⟨production, slice, children⟩ := tree
  cases children with
  | nil => simp [yield, yieldOnto]
  | cons first more =>
    have each : ∀ tree ∈ more, ∀ rest, tree.yieldOnto rest = tree.yield ++ rest :=
      fun tree member rest => yieldOnto_eq tree rest
    have atFirst : ∀ rest, first.yieldOnto rest = first.yield ++ rest := yieldOnto_eq first
    rw [yield, yieldOnto, yieldOnto, foldr_yieldOnto each, foldr_yieldOnto each, atFirst, atFirst]
    simp only [List.append_assoc, List.nil_append]

theorem yield_leaf (production : Production) (slice : String) :
    yield ⟨production, slice, []⟩ = [slice] := by
  rw [yield, yieldOnto]

/-- **The leaves of a node** are those of its children. -/
theorem yield_node (production : Production) (slice : String) :
    yield ⟨production, slice, first :: more⟩ = first.yield ++ more.flatMap yield := by
  rw [yield, yieldOnto, yieldOnto_eq, foldr_yieldOnto fun tree _ => yieldOnto_eq tree,
    List.append_nil]

mutual

/-- **What is visible of a text in front of a tree** are the leaves of the tree, and then what is
visible behind it. -/
theorem Stands.visible_eq {tree : ParseTree} {start rest : List Char} (h : tree.Stands start rest)
    (shown : tree.Throughout ShowsLeaf) :
    Text.visible start = tree.yield.flatMap String.toList ++ Text.visible rest := by
  obtain ⟨production, slice, children⟩ := tree
  cases children with
  | nil =>
    have start_eq : start = slice.toList ++ rest := h
    have whole : Text.Shown slice.toList := shown.here rfl
    rw [start_eq, whole, yield_leaf, List.flatMap_singleton]
  | cons first more =>
    obtain ⟨-, behind, atFirst, others⟩ := h
    have visibleFirst := atFirst.visible_eq (shown.child List.mem_cons_self)
    have visibleMore := others.visible_eq fun tree member =>
      shown.child (List.mem_cons_of_mem _ member)
    rw [visibleFirst, visibleMore, yield_node, List.flatMap_append, List.append_assoc]

/-- The same for trees behind each other. -/
theorem StandBehind.visible_eq {trees : List ParseTree} {here rest : List Char}
    (h : StandBehind trees here rest) (shown : ∀ tree ∈ trees, tree.Throughout ShowsLeaf) :
    Text.visible here = (trees.flatMap yield).flatMap String.toList ++ Text.visible rest := by
  cases trees with
  | nil =>
    cases h
    rfl
  | cons tree more =>
    obtain ⟨gap, start, behind, rfl, separators, stands, others⟩ := h
    obtain ⟨shownTree, shownMore⟩ := List.forall_mem_cons.mp shown
    have visibleTree := stands.visible_eq shownTree
    have visibleMore := others.visible_eq shownMore
    rw [Text.visible_separators separators, visibleTree, visibleMore, List.flatMap_cons,
      List.flatMap_append, List.append_assoc]

end

/-! ## 4. Sources -/

/-- **A tree shows its source.**  The tree that is read follows the grammar, its leaves are what is
visible of the source, and it stands in the source with nothing but layout in front and behind. -/
theorem ofSource_faithful {source : String} {tree : ParseTree} (read : ofSource source = .ok tree) :
    (tree.Follows ∧ tree.production = .expression) ∧
      tree.yield.flatMap String.toList = Text.visible source.toList ∧
      ∃ behind, tree.StandsBehindLayout source.toList behind ∧ ∀ c ∈ behind, Text.isLayout c := by
  obtain ⟨derives, -, -⟩ := ofSource_sound read
  obtain ⟨behind, stands, layout⟩ := ofSource_stands read
  refine ⟨⟨derives.follows, derives.production_eq⟩, ?_, behind, stands, layout⟩
  obtain ⟨gap, start, split, layout', atStart⟩ := stands
  have nothing : Text.visible behind = [] := by
    have visible := Text.visible_separators
      (fun c member => Text.isSeparator_of_isLayout (layout c member)) []
    rwa [List.append_nil] at visible
  rw [split, Text.visible_separators fun c member => Text.isSeparator_of_isLayout
    (layout' c member),
    atStart.visible_eq derives.showsLeaves, nothing, List.append_nil]

/-- For instance, a comma between arguments is a separator, and a comma in quotes is not. -/
theorem ofSource_faithful_call : ∃ tree, ofSource " f( \"a, b\" , 1 ) " = .ok tree ∧
    tree.Follows ∧ tree.yield.flatMap String.toList = "f(\"a, b\"1)".toList := by
  have parses : (ofSource " f( \"a, b\" , 1 ) ").isOk = true := by cbv
  obtain ⟨tree, read⟩ := exists_of_isOk parses
  obtain ⟨⟨follows, -⟩, leaves, -⟩ := ofSource_faithful read
  exact ⟨tree, read, follows, leaves.trans (by decide)⟩

end ParseTree
end DecimalExpression
