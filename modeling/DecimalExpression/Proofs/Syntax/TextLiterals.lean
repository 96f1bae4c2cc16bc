import DecimalExpression.Evaluation.Rule
import DecimalExpression.Proofs.Expression.Leaves
import DecimalExpression.Proofs.Syntax.NestingBound
import DecimalExpression.Proofs.Syntax.Parentheses
import DecimalExpression.Proofs.Syntax.Quotes
import DecimalExpression.Proofs.Syntax.Replacement
import Mathlib

/-!
# Text literals are opaque

Where a source is accepted, any text literal in it can be exchanged for any other one, and the
source is accepted still (`ParseTree.ofSource_exchange`).  The tree differs in the text of that leaf
and in the texts of the nodes above it, and in nothing else (`ParseTree.Exchanged`), whatever stands
between the quotes.

The tree with the other literal is built first, from the root down to the place where the literal
stands (`exists_exchanged`).  It is derived, trimmed and within the limits as the first one is, and
the scan for nesting passes over either literal, so it is what the changed source shows.

Which leaf it is shows in the order of the literals: those of a tree are those that the quotes of
its source make, one after the other (`ParseTree.ShownBy.literals_eq`).
-/

namespace DecimalExpression
namespace ParseTree

open Text

variable {tree tree' : ParseTree} {trees : List ParseTree} {p : Production}
  {front back old new chars : List Char}

/-! ## 1. Trees that differ in one literal

The tree with the other literal differs along one path: the literal at its end, and the texts of the
nodes above it.  Everything that the limits ask of a node stays as it was. -/

/-- **One text literal is exchanged** for another one, in the tree and in the texts of the nodes
above it.  The literal stands between these characters of the text of the tree. -/
inductive Exchanged (old new : List Char) : ParseTree → ParseTree → (front back : List Char) → Prop
  | literal : Exchanged old new (leaf .text (String.ofList (quote old)))
      (leaf .text (String.ofList (quote new))) [] []
  | node {child child' : ParseTree} {front back : List Char} (production : Production)
    (first last : List ParseTree) (before behind : List Char)
    (below : Exchanged old new child child' front back) :
    Exchanged old new
      ⟨production, String.ofList (before ++ (child.text.toList ++ behind)), first ++ child :: last⟩
      ⟨production, String.ofList (before ++ (child'.text.toList ++ behind)),
        first ++ child' :: last⟩
      (before ++ front) (back ++ behind)

/-- The texts differ where the literal stands. -/
theorem Exchanged.text_eq (h : Exchanged old new tree tree' front back) :
    tree.text.toList = front ++ (quote old ++ back) ∧
      tree'.text.toList = front ++ (quote new ++ back) := by
  induction h with
  | literal => simp [leaf]
  | node production first last before behind below ih =>
    obtain ⟨text, text'⟩ := ih
    simp only [String.toList_ofList, text, text', List.append_assoc, and_self]

/-- A child in the place of one of its height leaves the height of the node. -/
theorem height_exchange {child child' : ParseTree} (same : child'.height = child.height)
    (slice slice' : String) (first last : List ParseTree) :
    height ⟨p, slice', first ++ child' :: last⟩ = height ⟨p, slice, first ++ child :: last⟩ := by
  rw [height, height]
  simp only [List.foldl_append, List.foldl_cons, same]

/-- Neither tree is higher. -/
theorem Exchanged.height_eq (h : Exchanged old new tree tree' front back) :
    tree'.height = tree.height := by
  induction h with
  | literal => rw [leaf, height, leaf, height]
  | node production first last before behind below ih => exact height_exchange ih _ _ first last

/-- A token has no literal in it. -/
theorem Exchanged.ne_token {slice : String} (h : Exchanged old new tree tree' front back) :
    tree ≠ leaf .token slice := by
  cases h with
  | literal => exact fun same => by cases same
  | node production first last before behind below =>
    intro same
    have none : first ++ _ :: last = [] := congrArg children same
    simp at none

/-- **The literal may be any text**: the tree with the other one may stand in the place of the
tree. -/
theorem Exchanged.replaces (h : Exchanged old new tree tree' front back) (absent : '"' ∉ new)
    (derives : Derives p tree) : Replaces tree tree' := by
  induction h generalizing p with
  | literal =>
    have word : Word.isQuoted (String.ofList (quote new)).toList := by
      rw [String.toList_ofList]
      exact Lexeme.isQuoted_iff.mpr ⟨new, rfl, absent⟩
    exact
      { token := fun slice same => by cases same
        derives := fun h => h.production_eq ▸ .text word
        signs_eq := rfl
        operators_eq := rfl }
  | @node child child' _ _ production first last before behind below ih =>
    obtain rfl : production = p := derives.production_eq
    have member : child ∈ first ++ child :: last := List.mem_append_right _ List.mem_cons_self
    rcases derives.child member with ⟨slice, token⟩ | atChild
    · exact absurd token below.ne_token
    · exact .node derives (List.ne_nil_of_mem member) (forall₂_replaces (ih atChild) first last)

/-- The tree with the other literal is within the limits. -/
theorem Exchanged.fits (h : Exchanged old new tree tree' front back) (absent : '"' ∉ new)
    (derives : Derives p tree) (fits : tree.Throughout NodeFits) : tree'.Throughout NodeFits := by
  induction h generalizing p with
  | literal => exact .node _ (fits_leaf fun number => by cases number) (List.forall_mem_nil _)
  | @node child child' _ _ production first last before behind below ih =>
    obtain rfl : production = p := derives.production_eq
    have member : child ∈ first ++ child :: last := List.mem_append_right _ List.mem_cons_self
    rcases derives.child member with ⟨slice, token⟩ | atChild
    · exact absurd token below.ne_token
    have same := forall₂_replaces (below.replaces absent atChild) first last
    refine .node _ (fits.here.replace derives (List.ne_nil_of_mem member) same) ?_
    intro other among
    rcases List.mem_append.mp among with among | among
    · exact fits.child (List.mem_append_left _ among)
    rcases List.mem_cons.mp among with rfl | among
    · exact ih atChild (fits.child member)
    · exact fits.child (List.mem_append_right _ (List.mem_cons_of_mem _ among))

/-! ## 2. The item with the literal

A text in quotes that stands in the text of a node stands in one of its items, since the items have
their quotes in pairs. -/

/-- **The item in which a text in quotes stands**, among items that are spelled out: what stands in
front of and behind the quotes in the item, and in front of and behind the item. -/
structure ItemWith (trees : List ParseTree) (front back old : List Char)
    (first : List ParseTree) (item : ParseTree) (last : List ParseTree)
    (before inFront behind after : List Char) : Prop where
  trees_eq : trees = first ++ item :: last
  text_eq : item.text.toList = inFront ++ (quote old ++ behind)
  front_eq : front = before ++ inFront
  back_eq : back = behind ++ after
  outside : Paired inFront

/-- **Where items are spelled out** one of them has the text in quotes, and another item may be
spelled out in its place. -/
theorem Spelled.exists_item (spelled : Spelled (trees.map ParseTree.text) chars)
    (paired : ∀ tree ∈ trees, Paired tree.text.toList) (outside : Paired front) (absent : '"' ∉ old)
    (split : chars = front ++ (quote old ++ back)) :
    ∃ first item last before inFront behind after,
      ItemWith trees front back old first item last before inFront behind after ∧
      ∀ other : ParseTree, Spelled ((first ++ other :: last).map ParseTree.text)
        (before ++ (other.text.toList ++ after)) := by
  induction trees generalizing front chars with
  | nil =>
    have nothing := Spelled.eq_nil spelled
    rw [split] at nothing
    simp [quote] at nothing
  | cons tree trees ih =>
    obtain ⟨here, later⟩ := List.forall_mem_cons.mp paired
    obtain ⟨gap, rest, rfl, layout, atRest⟩ := Spelled.exists_of_cons spelled
    have noQuote := quote_not_mem_layout layout
    rcases split_quote outside (paired_of_not_mem noQuote) absent split.symm with
      ⟨further, rfl, split'⟩ | ⟨_, rfl, -⟩
    · have outside := outside.of_append (paired_of_not_mem noQuote)
      rcases split_quote outside here absent split'.symm with
        ⟨beyond, rfl, atRest'⟩ | ⟨behind, text, rfl⟩
      · -- the quotes stand behind this item
        obtain ⟨first, item, last, before, inFront, behind, after, found, other⟩ :=
          ih atRest later (outside.of_append here) atRest'
        refine ⟨tree :: first, item, last, gap ++ (tree.text.toList ++ before), inFront,
          behind, after,
          ⟨by rw [found.trees_eq]; rfl, found.text_eq, by rw [found.front_eq]; simp, found.back_eq,
            found.outside⟩, fun u => ?_⟩
        rw [List.cons_append, List.map_cons]
        simp only [List.append_assoc]
        exact .cons layout tree.text (by simpa using other u)
      · refine ⟨[], tree, trees, gap, further, behind, rest, ⟨rfl, text, rfl, rfl, outside⟩,
          fun u => ?_⟩
        exact .cons layout u.text atRest
    · exact absurd (mem_quote_append front old _) noQuote

/-- **Of a trimmed node** one item has the text in quotes, and the node is trimmed with another item
in its place. -/
theorem Trimmed.exists_item (trimmed : tree.Trimmed) (inner : tree.children ≠ [])
    (paired : ∀ item ∈ tree.items, Paired item.text.toList) (outside : Paired front)
    (absent : '"' ∉ old) (split : tree.text.toList = front ++ (quote old ++ back)) :
    ∃ first item last before inFront behind after,
      ItemWith tree.items front back old first item last before inFront behind after ∧
      ∀ node other : ParseTree, node.items = first ++ other :: last →
        node.text.toList = before ++ (other.text.toList ++ after) → node.Trimmed := by
  obtain ⟨head, more, body, items, text, spelled⟩ := trimmed inner
  rw [items] at paired ⊢
  obtain ⟨here, later⟩ := List.forall_mem_cons.mp paired
  rcases split_quote outside here absent (split.symm.trans text) with
    ⟨further, rfl, atBody⟩ | ⟨behind, atHead, rfl⟩
  · obtain ⟨first, item, last, before, inFront, behind, after, found, others⟩ :=
      spelled.exists_item later (outside.of_append here) absent atBody
    refine ⟨head :: first, item, last, head.text.toList ++ before, inFront, behind, after,
      ⟨by rw [found.trees_eq]; rfl, found.text_eq, by rw [found.front_eq]; simp, found.back_eq,
        found.outside⟩, ?_⟩
    intro node other itemsNode textNode _
    exact ⟨head, first ++ other :: last, _, itemsNode, by rw [textNode, List.append_assoc],
      others other⟩
  · refine ⟨[], head, more, [], front, behind, body, ⟨rfl, atHead, rfl, rfl, outside⟩, ?_⟩
    intro node other itemsNode textNode _
    exact ⟨other, more, body, itemsNode, textNode, spelled⟩

/-! ## 3. The tree with the other literal

By induction on the tree, the item with the literal is exchanged, and around it the node is trimmed
as before. -/

/-- **The tree with the other literal**: wherever a text in quotes stands in the text of a tree, it
is a literal of the tree, and it may be exchanged. -/
theorem exists_exchanged (trimmed : tree.Throughout Trimmed)
    (quotes : tree.Throughout QuotesLiterals) (outside : Paired front) (absent : '"' ∉ old)
    (split : tree.text.toList = front ++ (quote old ++ back)) (new : List Char) :
    ∃ tree', Exchanged old new tree tree' front back ∧ tree'.Throughout Trimmed := by
  induction trimmed generalizing front back with
  | node tree here below ih =>
    have whole : tree.Throughout Trimmed := .node tree here below
    by_cases inner : tree.children = []
    · obtain ⟨production, slice, children⟩ := tree
      obtain rfl : children = [] := inner
      dsimp only at split
      -- the leaf is a literal, so the text in quotes is all of it
      obtain ⟨text, content, same, absent'⟩ := (quotes.here rfl).resolve_right fun none =>
        none.2 (split ▸ mem_quote_append front old back)
      obtain rfl : production = .text := text
      dsimp only at same
      obtain ⟨rfl, rfl, rfl⟩ := eq_of_quote_eq outside absent' (same.symm.trans split)
      have slice_eq : slice = String.ofList (quote content) := by rw [← same, String.ofList_toList]
      rw [slice_eq]
      exact ⟨_, .literal, trimmed_leaf _ _⟩
    · obtain ⟨first, item, last, before, inFront, behind, after, found, refit⟩ :=
        here.exists_item inner (paired_items whole quotes) outside absent split
      have noComma : item ≠ leaf .token "," := by
        rintro rfl
        have member := mem_quote_append inFront old behind
        rw [← found.text_eq] at member
        exact absurd member (by decide)
      obtain ⟨first', last', children, hole⟩ := items_hole found.trees_eq noComma
      have member : item ∈ tree.children := by simp [children]
      obtain ⟨item', exchanged, trimmed'⟩ :=
        ih item member (quotes.child member) found.outside found.text_eq
      obtain ⟨production, slice, _⟩ := tree
      obtain rfl : _ = first' ++ item :: last' := children
      have slice_eq : slice = String.ofList (before ++ (item.text.toList ++ after)) := by
        have text : slice.toList = before ++ (item.text.toList ++ after) := by
          rw [split, found.front_eq, found.back_eq, found.text_eq]
          simp only [List.append_assoc]
        rw [← text, String.ofList_toList]
      rw [found.front_eq, found.back_eq, slice_eq]
      refine ⟨_, .node production first' last' before after exchanged, .node _ ?_ ?_⟩
      · exact refit _ item' (hole _ item') String.toList_ofList
      · intro child among
        rcases List.mem_append.mp among with among | among
        · exact below child (List.mem_append_left _ among)
        rcases List.mem_cons.mp among with rfl | among
        · exact trimmed'
        · exact below child (List.mem_append_right _ (List.mem_cons_of_mem _ among))

/-! ## 4. Literals in order

The literals that a count of quotes finds in the text of a tree are the literals of the tree, in
order.  Commas and layout have no quotes. -/

/-- **The text literals of a tree** from left to right. -/
def literals (tree : ParseTree) : List String :=
  (tree.leaves.filter fun leaf => leaf.1 = .text).map Prod.snd

theorem literals_leaf (production : Production) (slice : String) :
    (leaf production slice).literals = if production = .text then [slice] else [] := by
  rw [literals, leaves_leaf, List.filter_singleton]
  by_cases text : production = .text <;> simp [text]

/-- The literals of a node are those of its children. -/
theorem literals_node (inner : tree.children ≠ []) :
    tree.literals = tree.children.flatMap literals := by
  obtain ⟨production, slice, children⟩ := tree
  rw [literals, leaves_node production slice inner, List.filter_flatMap, List.map_flatMap]
  rfl

/-- Commas add no literals.  A comma is a token, and only texts are literals. -/
theorem flatMap_items (tree : ParseTree) :
    tree.items.flatMap literals = tree.children.flatMap literals := by
  have comma : (leaf .token ",").literals = [] := literals_leaf .token ","
  have inArguments : ∀ trees : List ParseTree,
      (argumentItems trees).flatMap literals = trees.flatMap literals := by
    intro trees
    induction trees using argumentItems.induct with
    | case1 | case2 | case3 => rfl
    | case4 argument next last rest ih =>
      rw [argumentItems, List.flatMap_cons, List.flatMap_cons, ih, comma, List.nil_append]
      rfl
  obtain ⟨production, slice, children⟩ := tree
  rw [items.eq_def]
  split
  · rename_i name opening rest whole
    cases whole
    simp only [List.flatMap_cons, inArguments]
  · rename_i whole
    cases whole
    rfl

/-- Items that are spelled out are read one by one. -/
theorem Spelled.literals_eq (spelled : Spelled (trees.map ParseTree.text) chars)
    (paired : ∀ tree ∈ trees, Paired tree.text.toList)
    (each : ∀ tree ∈ trees, Text.literals tree.text.toList = tree.literals) :
    Text.literals chars = trees.flatMap literals := by
  induction trees generalizing chars with
  | nil =>
    rw [Spelled.eq_nil spelled]
    rfl
  | cons tree trees ih =>
    obtain ⟨pairedHere, pairedLater⟩ := List.forall_mem_cons.mp paired
    obtain ⟨here, later⟩ := List.forall_mem_cons.mp each
    obtain ⟨gap, rest, rfl, layout, atRest⟩ := Spelled.exists_of_cons spelled
    have noQuote := quote_not_mem_layout layout
    rw [literals_append (paired_of_not_mem noQuote), literals_of_not_mem noQuote, List.nil_append,
      literals_append pairedHere, here, ih atRest pairedLater later, List.flatMap_cons]

/-- **Counting quotes and reading literals agree**: the literals of the text of a tree are the
literals of the tree. -/
theorem literals_text (trimmed : tree.Throughout Trimmed)
    (quotes : tree.Throughout QuotesLiterals) :
    Text.literals tree.text.toList = tree.literals := by
  induction trimmed with
  | node tree here below ih =>
    by_cases inner : tree.children = []
    · obtain ⟨production, slice, children⟩ := tree
      obtain rfl : children = [] := inner
      have own : literals ⟨production, slice, []⟩ = if production = .text then [slice] else [] :=
        literals_leaf production slice
      rcases quotes.here rfl with ⟨literal, content, text, absent⟩ | ⟨other, absent⟩
      · rw [own, if_pos literal, text, literals_quote absent, ← text, String.ofList_toList]
      · rw [own, if_neg other, literals_of_not_mem absent]
    · have each : ∀ item ∈ tree.items, Text.literals item.text.toList = item.literals := by
        intro item member
        rcases mem_items member with child | rfl
        · exact ih item child (quotes.child child)
        · exact (literals_of_not_mem (by decide)).trans (literals_leaf .token ",").symm
      have paired := paired_items (.node tree here below) quotes
      rw [Spelled.literals_eq (here.spelled inner) paired each, flatMap_items, literals_node inner]

/-! ## 5. Sources

A source is accepted exactly if some tree is shown by it (`ParseTree.ofSource_eq_ok_iff`).  So it is
enough to show the tree with the other literal by the source with the other literal. -/

/-- **The literals of what a source shows** are the literals of the source. -/
theorem ShownBy.literals_eq (shown : tree.ShownBy chars) : tree.literals = Text.literals chars := by
  obtain ⟨gap, gap', around, layout, layout'⟩ := shown.surrounded
  have noQuote := quote_not_mem_layout layout
  have quotes := shown.derives.quotesLiterals
  rw [around, literals_append (paired_of_not_mem noQuote), literals_of_not_mem noQuote,
    literals_append (paired_text shown.trimmed quotes), literals_text shown.trimmed quotes,
    literals_of_not_mem (quote_not_mem_layout layout'), List.nil_append, List.append_nil]

/-- **A text literal stands in the tree**, not in the layout around it. -/
theorem ShownBy.exists_inside (shown : tree.ShownBy chars) (outside : Paired front)
    (absent : '"' ∉ old) (split : chars = front ++ (quote old ++ back)) :
    ∃ gap before behind gap', front = gap ++ before ∧ back = behind ++ gap' ∧
      (∀ c ∈ gap, Text.isLayout c) ∧ (∀ c ∈ gap', Text.isLayout c) ∧
      tree.text.toList = before ++ (quote old ++ behind) ∧ Paired before := by
  obtain ⟨gap, gap', around, layout, layout'⟩ := shown.surrounded
  have noQuote := quote_not_mem_layout layout
  have paired := paired_text shown.trimmed shown.derives.quotesLiterals
  rcases split_quote outside (paired_of_not_mem noQuote) absent (split.symm.trans around) with
    ⟨before, rfl, inside⟩ | ⟨_, rfl, -⟩
  · have outside := outside.of_append (paired_of_not_mem noQuote)
    rcases split_quote outside paired absent inside.symm with ⟨beyond, -, rfl⟩ | ⟨behind, text, rfl⟩
    · exact absurd (mem_quote_append beyond old back) (quote_not_mem_layout layout')
    · exact ⟨gap, before, behind, gap', rfl, rfl, layout, layout', text, outside⟩
  · exact absurd (mem_quote_append front old _) noQuote

/-- **What a source shows with the other literal** is the tree with the other literal.  The layout
around the tree stays, the tree in between is exchanged, and nothing that is counted depends on what
is in quotes. -/
theorem ShownBy.exchange (shown : tree.ShownBy chars) (outside : Paired front) (absent : '"' ∉ old)
    (absent' : '"' ∉ new) (split : chars = front ++ (quote old ++ back)) :
    ∃ tree' gap before behind gap', front = gap ++ before ∧ back = behind ++ gap' ∧
      (∀ c ∈ gap, Text.isLayout c) ∧ (∀ c ∈ gap', Text.isLayout c) ∧
      Exchanged old new tree tree' before behind ∧
      tree'.ShownBy (front ++ (quote new ++ back)) := by
  obtain ⟨gap, before, behind, gap', rfl, rfl, layout, layout', text, inside⟩ :=
    shown.exists_inside outside absent split
  obtain ⟨tree', exchanged, trimmed⟩ :=
    exists_exchanged shown.trimmed shown.derives.quotesLiterals inside absent text new
  refine ⟨tree', gap, before, behind, gap', rfl, rfl, layout, layout', exchanged, ?_⟩
  have passed : ∀ {content : List Char}, '"' ∉ content → Word.isQuoted (quote content) :=
    fun absent => Lexeme.isQuoted_iff.mpr ⟨_, rfl, absent⟩
  have nesting := shown.nesting
  rw [split, Nesting.excess?_eq_none_iff_of_isQuoted outside (passed absent),
    ← Nesting.excess?_eq_none_iff_of_isQuoted outside (passed absent')] at nesting
  exact
    { derives := (exchanged.replaces absent' shown.derives).derives shown.derives
      trimmed := trimmed
      fits := exchanged.fits absent' shown.derives shown.fits
      surrounded := by
        refine ⟨gap, gap', ?_, layout, layout'⟩
        rw [exchanged.text_eq.2]
        simp only [List.append_assoc]
      nesting := nesting
      height := exchanged.height_eq ▸ shown.height }

/-- The value of a text literal is the text between its quotes. -/
theorem rule_text (env : Environment) (content : List Char) (operands : List Operand) :
    rule env .text (String.ofList (quote content)) operands
      = .ok (.text (String.ofList content)) := by
  have unquoted : Rule.unquote? (String.ofList (quote content)) = some (String.ofList content) := by
    rw [Rule.unquote?, String.toList_ofList]
    show (if (content ++ ['"']).getLast? = some '"' then _ else none) = some _
    rw [List.getLast?_concat, if_pos rfl, List.dropLast_concat]
  rw [rule, unquoted]

/-- **Text literals are opaque to structure.**  In a source that is accepted the literals of the
tree are those that the quotes of the source make, in order.  The text between the quotes of any of
them, which is any text in quotes behind quotes in pairs, can be exchanged for any other one without
quotes: the source is accepted again, its tree differs in the text of that leaf and in the texts of
the nodes above it alone, and the value of the leaf is the new text. -/
theorem ofSource_exchange {source : String} (read : ofSource source = .ok tree) :
    tree.literals = Text.literals source.toList ∧
    ∀ front old back new, source.toList = front ++ (quote old ++ back) → Paired front →
      '"' ∉ old → '"' ∉ new →
      ∃ tree', ofSource (String.ofList (front ++ (quote new ++ back))) = .ok tree' ∧
        (∃ gap before behind gap', front = gap ++ before ∧ back = behind ++ gap' ∧
          (∀ c ∈ gap, Text.isLayout c) ∧ (∀ c ∈ gap', Text.isLayout c) ∧
          Exchanged old new tree tree' before behind) ∧
        tree.literals
          = Text.literals front ++ String.ofList (quote old) :: Text.literals back ∧
        tree'.literals
          = Text.literals front ++ String.ofList (quote new) :: Text.literals back ∧
        ∀ env operands, rule env .text (String.ofList (quote new)) operands
          = .ok (.text (String.ofList new)) := by
  have shown := ofSource_eq_ok_iff.mp read
  refine ⟨shown.literals_eq, ?_⟩
  intro front old back new split outside absent absent'
  obtain ⟨tree', gap, before, behind, gap', atFront, atBack, layout, layout', exchanged, shown'⟩ :=
    shown.exchange outside absent absent' split
  refine ⟨tree', ofSource_eq_ok_iff.mpr (by rwa [String.toList_ofList]), ?_, ?_, ?_, ?_⟩
  · exact ⟨gap, before, behind, gap', atFront, atBack, layout, layout', exchanged⟩
  · rw [shown.literals_eq, split, literals_around outside absent]
  · rw [shown'.literals_eq, literals_around outside absent']
  · exact fun env operands => rule_text env new operands

/-- For instance, a parenthesis, a comma, a question mark and an operator may stand in a literal. -/
theorem ofSource_exchange_call :
    (ofSource " f(\"a\", x) ").isOk = true ∧ (ofSource " f(\"(, ? &&\", x) ").isOk = true := by
  have parses : (ofSource " f(\"a\", x) ").isOk = true := by cbv
  obtain ⟨tree, read⟩ := exists_of_isOk parses
  obtain ⟨tree', read', -⟩ := (ofSource_exchange read).2 " f(".toList "a".toList ", x) ".toList
    "(, ? &&".toList (by decide) (by decide) (by decide) (by decide)
  have same : String.ofList (" f(".toList ++ (quote "(, ? &&".toList ++ ", x) ".toList))
      = " f(\"(, ? &&\", x) " := by decide
  rw [same] at read'
  exact ⟨parses, by rw [read']; rfl⟩

end ParseTree
end DecimalExpression
