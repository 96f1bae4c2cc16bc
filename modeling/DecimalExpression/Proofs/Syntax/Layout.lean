import DecimalExpression.Proofs.Syntax.Depth
import DecimalExpression.Proofs.Syntax.Derivation
import DecimalExpression.Proofs.Syntax.Words
import DecimalExpression.Syntax.Grammar

/-!
# Writing a tree down

A tree that the grammar derives can be written down as its tokens (`ParseTree.tokens`), with a comma
between two arguments of a call, and with layout, perhaps none, in front of, between and behind them
(`LaidOut`).  What is read back is the tree but for the texts of its inner nodes, which depend on
the layout: its `skeleton`.

A tree is small enough to be read back where its literals are in range and its chains and its runs
of signs are within their limits, node by node (`NodeFits`).  Each leaf of a derived tree is an
operator, a mark or a word (`Derives.leavesHave`).

The text of a node may lay out the texts of its items (`Written`), which are its children and the
commas.  Where every node does so, the text of the tree lays out its tokens (`Throughout.laidOut`).
-/

namespace DecimalExpression
namespace ParseTree

/-! ## 1. Tokens

The tokens are the leaves from left to right, with the commas that a call has between its arguments
and that no node keeps.  They are computed from the shape of a node, and fit every tree. -/

mutual

/-- **The tokens of a tree** from left to right. -/
def tokens : ParseTree → List String
  | ⟨_, slice, []⟩ => [slice]
  | ⟨.call, _, name :: opening :: rest⟩ => name.tokens ++ (opening.tokens ++ argumentTokens rest)
  | ⟨_, _, first :: more⟩ => first.tokens ++ tokensOfAll more

/-- The tokens of several trees. -/
def tokensOfAll : List ParseTree → List String
  | [] => []
  | tree :: rest => tree.tokens ++ tokensOfAll rest

/-- The tokens of arguments and of the parenthesis behind them, with commas between two
arguments. -/
def argumentTokens : List ParseTree → List String
  | [] => []
  | [closing] => closing.tokens
  | [argument, closing] => argument.tokens ++ closing.tokens
  | argument :: next :: last :: rest =>
    argument.tokens ++ "," :: argumentTokens (next :: last :: rest)

end

/-! ## 2. Skeletons

Two trees with the same skeleton differ in the texts of inner nodes at most.  Completeness gives
trees up to that, and the texts come from the slices. -/

/-- **The skeleton**: productions, children and the texts of the leaves. -/
def skeleton : ParseTree → ParseTree
  | ⟨production, slice, children⟩ =>
    ⟨production, if children.isEmpty then slice else "", children.map fun child => child.skeleton⟩

/-! ## 3. Limits

What the grammar refuses besides syntax is a matter of single nodes: a literal without a decimal,
too many signs, a chain too long.  `Throughout` carries a property of nodes through a tree, and can
be decided if the property can. -/

/-- A property of all nodes of a tree. -/
inductive Throughout (P : ParseTree → Prop) : ParseTree → Prop
  | node (tree : ParseTree) (here : P tree) (below : ∀ child ∈ tree.children, Throughout P child) :
    Throughout P tree

/-- The signs in front of an operand. -/
def signs : ParseTree → Nat
  | ⟨.unary, _, [_, operand]⟩ => operand.signs + 1
  | _ => 0

/-- The operators of a chain that nests, from its outermost node on. -/
def nestedOperators : ParseTree → Nat
  | ⟨.equality, _, [left, _, _]⟩ | ⟨.relational, _, [left, _, _]⟩ => left.nestedOperators + 1
  | ⟨.disjunction, _, [_, _, right]⟩ | ⟨.conjunction, _, [_, _, right]⟩ => right.nestedOperators + 1
  | _ => 0

/-- **A node within the limits**: a literal in range, not too many signs, no chain too long. -/
structure NodeFits (tree : ParseTree) : Prop where
  literal : tree.production = .number → ∃ number, Decimal.ofNumeral tree.text = .ok number
  signs : tree.signs ≤ Nesting.limit
  operators : tree.nestedOperators ≤ Grammar.chainLimit

variable {P : ParseTree → Prop} {tree : ParseTree}

theorem Throughout.here (h : Throughout P tree) : P tree := by
  obtain ⟨_, here, _⟩ := h
  exact here

theorem Throughout.child (h : Throughout P tree) {child : ParseTree}
    (member : child ∈ tree.children) : Throughout P child := by
  obtain ⟨_, _, below⟩ := h
  exact below child member

theorem Throughout.mono (h : Throughout P tree) {Q : ParseTree → Prop}
    (weaker : ∀ node, P node → Q node) :
    Throughout Q tree := by
  induction h with
  | node tree here _ ih => exact .node tree (weaker tree here) ih

/-- **A property of all nodes** holds of those below the end of a path. -/
theorem Throughout.onPath (h : Throughout P tree) {path : List ParseTree} {u : ParseTree}
    (down : tree.Path path) (last : path.getLast? = some u) : Throughout P u := by
  induction down with
  | here tree =>
    cases last
    exact h
  | child member onward ih => exact ih (h.child member) (by cases onward <;> exact last)

/-- A test of all nodes of a tree. -/
def all (test : ParseTree → Bool) : ParseTree → Bool
  | ⟨production, slice, children⟩ =>
    test ⟨production, slice, children⟩ && (children.map fun child => child.all test).all id

theorem throughout_iff_all [DecidablePred P] (tree : ParseTree) :
    tree.Throughout P ↔ tree.all (fun node => decide (P node)) = true := by
  obtain ⟨production, slice, children⟩ := tree
  have below : ∀ child ∈ children,
      child.Throughout P ↔ child.all (fun node => decide (P node)) = true := fun child _ =>
    throughout_iff_all child
  rw [all, Bool.and_eq_true, decide_eq_true_eq, List.all_map, List.all_eq_true]
  constructor
  · exact fun h => ⟨h.here, fun child member => (below child member).mp (h.child member)⟩
  · exact fun h => .node _ h.1 fun child member => (below child member).mpr (h.2 child member)

instance [DecidablePred P] (tree : ParseTree) : Decidable (tree.Throughout P) :=
  decidable_of_iff _ (throughout_iff_all tree).symm

/-! ## 4. Leaves

What holds of all operators, marks and words holds of the leaves of a derived tree.  This is proved
once, for any property, and used for leaves that are shown, that are solid, and that start with
something else than a separator. -/

/-- A property of the text of a leaf. -/
def LeafHas (Q : String → Prop) (tree : ParseTree) : Prop :=
  tree.children = [] → Q tree.text

variable {Q : String → Prop} {p : Production}

/-- **Texts that a token may have**: operators, marks and the names of calls. -/
inductive IsTokenText (slice : String) : Prop
  | operator (member : slice ∈ levelOperators)
  | mark (member : slice ∈ ["(", ")", "?", ":"])
  | name (word : Word.isName slice.toList)

/-- **A property of derived trees and of their tokens** holds throughout a derived tree.  By
induction on the derivation.  The tokens have texts that are listed, and all other nodes are derived
themselves. -/
theorem Derives.throughout (h : Derives p tree)
    (token : ∀ {slice : String}, IsTokenText slice → P (leaf .token slice))
    (derived : ∀ {q : Production} {u : ParseTree}, Derives q u → P u) : tree.Throughout P := by
  have atToken : ∀ {slice : String}, IsTokenText slice → Throughout P (leaf .token slice) :=
    fun text => .node _ (token text) (List.forall_mem_nil _)
  induction h with
  | layer level slice below ih =>
    exact .node _ (derived (.layer level slice below)) (List.forall_mem_singleton.mpr ih)
  | flat level slice links signs below belowLinks atFirst atLinks =>
    refine .node _ (derived (.flat level slice links signs below belowLinks))
      (List.forall_mem_cons.mpr ⟨atFirst, fun child member => ?_⟩)
    obtain ⟨link, among, rfl | rfl⟩ := mem_linkTrees member
    · exact atToken (.operator (level.mem_levelOperators _ (signs link among)))
    · exact atLinks link among
  | left level slice sign left right atLeft atRight =>
    refine .node _ (derived (.left level slice sign left right)) ?_
    simp only [List.forall_mem_cons]
    exact ⟨atLeft, atToken (.operator (level.mem_levelOperators _ sign)), atRight,
      List.forall_mem_nil _⟩
  | right level slice left right atLeft atRight =>
    refine .node _ (derived (.right level slice left right)) ?_
    simp only [List.forall_mem_cons]
    exact ⟨atLeft, atToken (.operator level.mem_levelOperators), atRight, List.forall_mem_nil _⟩
  | choice slice condition consequent alternative atCondition atConsequent atAlternative =>
    refine .node _ (derived (.choice slice condition consequent alternative)) ?_
    simp only [List.forall_mem_cons]
    exact ⟨atCondition, atToken (.mark (by decide)), atConsequent, atToken (.mark (by decide)),
      atAlternative, List.forall_mem_nil _⟩
  | signed slice plain below ih =>
    have signs : ∀ sign ∈ ["+", "-"], sign ∈ levelOperators := by decide
    refine .node _ (derived (.signed slice plain below)) ?_
    simp only [List.forall_mem_cons]
    exact ⟨atToken (.operator (signs _ plain)), ih, List.forall_mem_nil _⟩
  | group slice below ih =>
    refine .node _ (derived (.group slice below)) ?_
    simp only [List.forall_mem_cons]
    exact ⟨atToken (.mark (by decide)), ih, atToken (.mark (by decide)), List.forall_mem_nil _⟩
  | call slice word arguments below ih =>
    refine .node _ (derived (.call slice word arguments below)) ?_
    simp only [List.forall_mem_cons, List.forall_mem_append]
    exact ⟨atToken (.name word), atToken (.mark (by decide)), ih, atToken (.mark (by decide)),
      List.forall_mem_nil _⟩
  | number word => exact .node _ (derived (.number word)) (List.forall_mem_nil _)
  | text word => exact .node _ (derived (.text word)) (List.forall_mem_nil _)
  | reference word => exact .node _ (derived (.reference word)) (List.forall_mem_nil _)

/-- **A node of a derived tree** is a token, or derived. -/
theorem Derives.onPath (h : Derives p tree) {path : List ParseTree} {u : ParseTree}
    (down : tree.Path path) (last : path.getLast? = some u) :
    (∃ slice, u = leaf .token slice) ∨ Derives u.production u := by
  have each : tree.Throughout fun u => (∃ slice, u = leaf .token slice) ∨ Derives u.production u :=
    h.throughout (fun _ => .inl ⟨_, rfl⟩) fun derives => .inr (derives.production_eq.symm ▸ derives)
  exact (each.onPath down last).here

/-- **Texts that a leaf may have**: operators, marks and words. -/
structure HoldsOfLeaves (Q : String → Prop) : Prop where
  operator : ∀ o ∈ levelOperators, Q o
  mark : ∀ m ∈ ["(", ")", "?", ":"], Q m
  name : ∀ {slice : String}, Word.isName slice.toList → Q slice
  numeral : ∀ {slice : String}, Word.isNumeral slice.toList → Q slice
  quoted : ∀ {slice : String}, Word.isQuoted slice.toList → Q slice

/-- **Each leaf of a derived tree** is an operator, a mark or a word. -/
theorem Derives.leavesHave (h : Derives p tree) (each : HoldsOfLeaves Q) :
    tree.Throughout (LeafHas Q) := by
  refine h.throughout (fun text _ => ?_) fun derives leaf => ?_
  · cases text with
    | operator member => exact each.operator _ member
    | mark member => exact each.mark _ member
    | name word => exact each.name word
  · cases derives with
    | number word => exact each.numeral word
    | text word => exact each.quoted word
    | reference word => exact each.name word
    | layer | flat | left | right | choice | signed | group | call => cases leaf

/-! ## 5. Layout

A source is the tokens of its tree with layout around them.  `Spelled` has layout in front of each
token; `LaidOut` adds layout at the end, so that it can be put together and taken apart at any
token. -/

/-- **Tokens spelled out**, each with layout in front of it, perhaps none. -/
inductive Spelled : List String → List Char → Prop
  | nil : Spelled [] []
  | cons {gap : List Char} (layout : ∀ c ∈ gap, Text.isLayout c) (token : String)
    {more : List String} {rest : List Char} (spelled : Spelled more rest) :
    Spelled (token :: more) (gap ++ (token.toList ++ rest))

/-- **Tokens laid out**: layout may stand in front of them, between them and behind them. -/
def LaidOut (tokens : List String) (chars : List Char) : Prop :=
  ∃ body gap, chars = body ++ gap ∧ Spelled tokens body ∧ ∀ c ∈ gap, Text.isLayout c

variable {first second : List String} {chars : List Char}

theorem Spelled.exists_of_cons {token : String} {more : List String}
    (h : Spelled (token :: more) chars) :
    ∃ gap rest, chars = gap ++ (token.toList ++ rest) ∧ (∀ c ∈ gap, Text.isLayout c) ∧
      Spelled more rest := by
  cases h with
  | cons layout token spelled => exact ⟨_, _, rfl, layout, spelled⟩

theorem Spelled.eq_nil (h : Spelled [] chars) : chars = [] := by
  cases h
  rfl

/-- **Tokens in sequence** are spelled in sequence. -/
theorem Spelled.exists_of_append (h : Spelled (first ++ second) chars) :
    ∃ x y, chars = x ++ y ∧ Spelled first x ∧ Spelled second y := by
  induction first generalizing chars with
  | nil => exact ⟨[], chars, rfl, .nil, h⟩
  | cons token more ih =>
    obtain ⟨gap, rest, rfl, layout, spelled⟩ := Spelled.exists_of_cons h
    obtain ⟨x, y, rfl, atFirst, atSecond⟩ := ih spelled
    exact ⟨gap ++ (token.toList ++ x), y, by simp, .cons layout token atFirst, atSecond⟩

theorem Spelled.append {x y : List Char} (first_x : Spelled first x) (second_y : Spelled second y) :
    Spelled (first ++ second) (x ++ y) := by
  induction first_x with
  | nil => exact second_y
  | cons layout token _ ih =>
    simp only [List.cons_append, List.append_assoc]
    exact .cons layout token ih

theorem laidOut_nil {gap : List Char} (layout : ∀ c ∈ gap, Text.isLayout c) : LaidOut [] gap :=
  ⟨[], gap, rfl, .nil, layout⟩

theorem laidOut_token (token : String) : LaidOut [token] token.toList := by
  have spelled : Spelled [token] ([] ++ (token.toList ++ [])) :=
    .cons (List.forall_mem_nil _) token .nil
  exact ⟨_, [], by simp, spelled, List.forall_mem_nil _⟩

/-- **Tokens laid out in sequence** are laid out together. -/
theorem LaidOut.append {x y : List Char} (first_x : LaidOut first x) (second_y : LaidOut second y) :
    LaidOut (first ++ second) (x ++ y) := by
  obtain ⟨body, gap, rfl, spelled, layout⟩ := first_x
  obtain ⟨body', gap', rfl, spelled', layout'⟩ := second_y
  cases spelled' with
  | nil =>
    exact ⟨body, gap ++ gap', by simp, by simpa using spelled,
      List.forall_mem_append.mpr ⟨layout, layout'⟩⟩
  | @cons between _ token more rest more_rest =>
    -- the layout behind the first part goes in front of the first token of the second one
    have joined : Spelled (first ++ token :: more) _ :=
      spelled.append (.cons (List.forall_mem_append.mpr ⟨layout, ‹_›⟩) token more_rest)
    exact ⟨_, gap', by simp, joined, layout'⟩

/-- **Tokens laid out together** are laid out in sequence. -/
theorem LaidOut.exists_of_append (h : LaidOut (first ++ second) chars) :
    ∃ x y, chars = x ++ y ∧ LaidOut first x ∧ LaidOut second y := by
  obtain ⟨body, gap, rfl, spelled, layout⟩ := h
  obtain ⟨x, y, rfl, first_x, second_y⟩ := spelled.exists_of_append
  exact ⟨x, y ++ gap, List.append_assoc _ _ _, ⟨x, [], (List.append_nil x).symm, first_x,
    List.forall_mem_nil _⟩, y, gap, rfl, second_y, layout⟩

/-- The first token is laid out behind layout, and the others behind it. -/
theorem LaidOut.exists_of_cons {token : String} {more : List String}
    (h : LaidOut (token :: more) chars) :
    ∃ gap rest, chars = gap ++ (token.toList ++ rest) ∧ (∀ c ∈ gap, Text.isLayout c) ∧
      LaidOut more rest := by
  obtain ⟨body, behind, rfl, spelled, layout'⟩ := h
  obtain ⟨gap, rest, rfl, layout, more_rest⟩ := Spelled.exists_of_cons spelled
  exact ⟨gap, rest ++ behind, by simp, layout, rest, behind, rfl, more_rest, layout'⟩

/-! ## 6. Items

The text of a node has commas that are not among its children.  The items of a node are its children
with these commas, and are what its text is written with. -/

/-- Arguments and the parenthesis behind them, with commas between two arguments. -/
def argumentItems : List ParseTree → List ParseTree
  | [] => []
  | [closing] => [closing]
  | [argument, closing] => [argument, closing]
  | argument :: next :: last :: rest =>
    argument :: leaf .token "," :: argumentItems (next :: last :: rest)

/-- **What a node is written as**: its children, with commas between two arguments of a call. -/
def items : ParseTree → List ParseTree
  | ⟨.call, _, name :: opening :: rest⟩ => name :: opening :: argumentItems rest
  | ⟨_, _, children⟩ => children

theorem items_of_ne_call {production : Production} (other : production ≠ .call) (slice : String)
    (children : List ParseTree) : items ⟨production, slice, children⟩ = children := by
  rw [items.eq_def]
  split
  · rename_i whole
    cases whole
    exact absurd rfl other
  · rename_i whole
    cases whole
    rfl

theorem tokens_leaf (production : Production) (slice : String) :
    (leaf production slice).tokens = [slice] := by
  cases production <;> rfl

theorem flatMap_tokens (trees : List ParseTree) : trees.flatMap tokens = tokensOfAll trees := by
  induction trees with
  | nil => rfl
  | cons tree trees ih => rw [List.flatMap_cons, ih, tokensOfAll]

theorem flatMap_argumentItems (trees : List ParseTree) :
    (argumentItems trees).flatMap tokens = argumentTokens trees := by
  induction trees using argumentItems.induct with
  | case1 => rfl
  | case2 closing => simp [argumentItems, argumentTokens]
  | case3 argument closing => simp [argumentItems, argumentTokens]
  | case4 argument next last rest ih =>
    rw [argumentItems, List.flatMap_cons, List.flatMap_cons, ih, tokens_leaf, argumentTokens]
    rfl

/-- **The tokens of a node** are those of its items.  Only for calls do the items differ from the
children, by the commas between arguments. -/
theorem tokens_node {tree : ParseTree} (nonempty : tree.children ≠ []) :
    tree.tokens = tree.items.flatMap tokens := by
  obtain ⟨production, slice, children⟩ := tree
  obtain ⟨first, more, rfl⟩ := List.exists_cons_of_ne_nil nonempty
  by_cases call : production = .call
  · subst call
    cases more with
    | nil => simp [tokens, tokensOfAll, items]
    | cons opening rest =>
      rw [items, List.flatMap_cons, List.flatMap_cons, flatMap_argumentItems, tokens]
  · rw [items_of_ne_call call, flatMap_tokens, tokens.eq_def]
    split
    · rename_i whole
      cases whole
    · rename_i whole
      cases whole
      exact absurd rfl call
    · rename_i whole
      cases whole
      rw [tokensOfAll]

/-- The items behind an argument: a comma in front of each further one. -/
def moreItems (arguments : List ParseTree) : List ParseTree :=
  arguments.flatMap fun argument => [leaf .token ",", argument]

/-- The items of the arguments of a call. -/
def callItems : List ParseTree → List ParseTree
  | [] => []
  | argument :: rest => argument :: moreItems rest

theorem argumentItems_append (arguments : List ParseTree) (closing : ParseTree) :
    argumentItems (arguments ++ [closing]) = callItems arguments ++ [closing] := by
  induction arguments with
  | nil => rfl
  | cons argument rest ih =>
    cases rest with
    | nil => rfl
    | cons next rest =>
      obtain ⟨last, more, whole⟩ : ∃ last more, rest ++ [closing] = last :: more :=
        List.exists_cons_of_ne_nil (by simp)
      rw [List.cons_append, whole] at ih
      rw [List.cons_append, List.cons_append, whole, argumentItems, ih]
      rfl

theorem mem_argumentItems {item : ParseTree} {trees : List ParseTree}
    (member : item ∈ argumentItems trees) : item ∈ trees ∨ item = leaf .token "," := by
  induction trees using argumentItems.induct with
  | case1 | case2 closing | case3 argument closing => exact .inl member
  | case4 argument next last rest ih =>
    rcases List.mem_cons.mp member with rfl | member
    · exact .inl List.mem_cons_self
    rcases List.mem_cons.mp member with rfl | member
    · exact .inr rfl
    · exact (ih member).imp_left (List.mem_cons_of_mem _)

/-- An item is a child or a comma. -/
theorem mem_items {item tree : ParseTree} (member : item ∈ tree.items) :
    item ∈ tree.children ∨ item = leaf .token "," := by
  obtain ⟨production, slice, children⟩ := tree
  rw [items.eq_def] at member
  split at member
  · rename_i name opening rest whole
    cases whole
    simp only [List.mem_cons] at member ⊢
    rcases member with rfl | rfl | member
    · exact .inl (.inl rfl)
    · exact .inl (.inr (.inl rfl))
    · exact (mem_argumentItems member).imp_left fun among => .inr (.inr among)
  · rename_i whole
    cases whole
    exact .inl member

theorem mem_argumentItems_of_mem {item : ParseTree} {trees : List ParseTree}
    (member : item ∈ trees) :
    item ∈ argumentItems trees := by
  induction trees using argumentItems.induct with
  | case1 | case2 closing | case3 argument closing => exact member
  | case4 argument next last rest ih =>
    rcases List.mem_cons.mp member with rfl | member
    · exact List.mem_cons_self
    · exact List.mem_cons_of_mem _ (List.mem_cons_of_mem _ (ih member))

/-- A child is an item. -/
theorem mem_items_of_mem {child tree : ParseTree} (member : child ∈ tree.children) :
    child ∈ tree.items := by
  obtain ⟨production, slice, children⟩ := tree
  rw [items.eq_def]
  split
  · rename_i name opening rest whole
    cases whole
    simp only [List.mem_cons] at member ⊢
    exact member.imp_right fun later => later.imp_right mem_argumentItems_of_mem
  · rename_i whole
    cases whole
    exact member

/-- **A written node**: its text is its items laid out. -/
def Written (tree : ParseTree) : Prop :=
  tree.children ≠ [] → LaidOut (tree.items.map ParseTree.text) tree.text.toList

/-- Where each item is laid out as its tokens, all tokens are laid out. -/
theorem laidOut_flatMap {trees : List ParseTree}
    (each : ∀ tree ∈ trees, LaidOut tree.tokens tree.text.toList)
    (h : LaidOut (trees.map ParseTree.text) chars) : LaidOut (trees.flatMap tokens) chars := by
  induction trees generalizing chars with
  | nil => exact h
  | cons tree trees ih =>
    obtain ⟨here, later⟩ := List.forall_mem_cons.mp each
    obtain ⟨gap, rest, rfl, layout, more⟩ := LaidOut.exists_of_cons h
    exact (laidOut_nil layout).append (here.append (ih later more))

/-- Where the children of a node are laid out, all its items are. -/
theorem laidOut_items {tree : ParseTree}
    (below : ∀ child ∈ tree.children, LaidOut child.tokens child.text.toList) :
    ∀ item ∈ tree.items, LaidOut item.tokens item.text.toList := by
  intro item member
  rcases mem_items member with child | rfl
  · exact below item child
  · rw [tokens_leaf]
    exact laidOut_token ","

/-- **The tokens of a tree are laid out in its text**, if all its nodes are written. -/
theorem Throughout.laidOut {tree : ParseTree} (written : tree.Throughout Written) :
    LaidOut tree.tokens tree.text.toList := by
  induction written with
  | node tree here below ih =>
    obtain ⟨production, slice, children⟩ := tree
    cases children with
    | nil =>
      have single : tokens ⟨production, slice, []⟩ = [slice] := tokens_leaf production slice
      rw [single]
      exact laidOut_token slice
    | cons first more =>
      rw [tokens_node (List.cons_ne_nil _ _)]
      exact laidOut_flatMap (laidOut_items ih) (here (List.cons_ne_nil _ _))

/-! ## 7. Tokens by the rules

For a tree of each production, its tokens by those of its parts.  Completeness reads tokens from the
left, and these equations say what comes next. -/

/-- The tokens of the links of a flat chain. -/
def linkTokens : List (String × ParseTree) → List String
  | [] => []
  | (operator, operand) :: links => operator :: (operand.tokens ++ linkTokens links)

/-- The tokens behind an argument, up to the closing parenthesis. -/
def moreTokens : List ParseTree → List String
  | [] => [")"]
  | argument :: rest => "," :: (argument.tokens ++ moreTokens rest)

/-- The tokens behind the opening parenthesis of a call. -/
def callTokens : List ParseTree → List String
  | [] => [")"]
  | argument :: rest => argument.tokens ++ moreTokens rest

theorem tokensOfAll_linkTrees (links : List (String × ParseTree)) :
    tokensOfAll (linkTrees links) = linkTokens links := by
  induction links with
  | nil => rfl
  | cons link links ih =>
    obtain ⟨operator, operand⟩ := link
    rw [linkTrees, tokensOfAll, tokensOfAll, ih, tokens_leaf, linkTokens]
    rfl

theorem flatMap_moreItems (arguments : List ParseTree) :
    (moreItems arguments).flatMap tokens ++ [")"] = moreTokens arguments := by
  induction arguments with
  | nil => rfl
  | cons argument rest ih =>
    rw [moreItems, List.flatMap_cons, List.cons_append, List.singleton_append, List.flatMap_cons,
      List.flatMap_cons, tokens_leaf, moreTokens, ← ih]
    simp only [moreItems, List.cons_append, List.nil_append, List.append_assoc]

theorem argumentTokens_append (arguments : List ParseTree) :
    argumentTokens (arguments ++ [leaf .token ")"]) = callTokens arguments := by
  rw [← flatMap_argumentItems, argumentItems_append, List.flatMap_append, List.flatMap_singleton,
    tokens_leaf]
  cases arguments with
  | nil => rfl
  | cons argument rest =>
    rw [callItems, List.flatMap_cons, List.append_assoc, flatMap_moreItems, callTokens]

theorem tokens_layer {outer inner : Production} (level : Layer outer inner) (slice : String)
    (body : ParseTree) : tokens ⟨outer, slice, [body]⟩ = body.tokens := by
  cases level <;> simp [tokens, tokensOfAll]

theorem tokens_flat {outer operand : Production} {operators : List String}
    (level : FlatLevel outer operand operators) (slice : String) (first : ParseTree)
    (links : List (String × ParseTree)) :
    tokens ⟨outer, slice, first :: linkTrees links⟩ = first.tokens ++ linkTokens links := by
  cases level <;> simp [tokens, tokensOfAll_linkTrees]

theorem tokens_left {outer operand : Production} {operators : List String}
    (level : LeftLevel outer operand operators) (slice : String) (left right : ParseTree)
    (operator : String) : tokens ⟨outer, slice, [left, leaf .token operator, right]⟩
      = left.tokens ++ operator :: right.tokens := by
  cases level <;> simp [tokens, tokensOfAll, tokens_leaf]

theorem tokens_right {outer operand : Production} {operator : String}
    (level : RightLevel outer operand operator) (slice : String) (left right : ParseTree) :
    tokens ⟨outer, slice, [left, leaf .token operator, right]⟩
      = left.tokens ++ operator :: right.tokens := by
  cases level <;> simp [tokens, tokensOfAll, tokens_leaf]

theorem tokens_choice (slice : String) (condition consequent alternative : ParseTree) :
    tokens ⟨.conditional, slice,
        [condition, leaf .token "?", consequent, leaf .token ":", alternative]⟩
      = condition.tokens ++ "?" :: (consequent.tokens ++ ":" :: alternative.tokens) := by
  simp [tokens, tokensOfAll, tokens_leaf]

theorem tokens_signed (slice sign : String) (operand : ParseTree) :
    tokens ⟨.unary, slice, [leaf .token sign, operand]⟩ = sign :: operand.tokens := by
  simp [tokens, tokensOfAll, tokens_leaf]

theorem tokens_group (slice : String) (body : ParseTree) :
    tokens ⟨.group, slice, [leaf .token "(", body, leaf .token ")"]⟩
      = "(" :: (body.tokens ++ [")"]) := by
  simp [tokens, tokensOfAll, tokens_leaf]

theorem tokens_call (slice name : String) (arguments : List ParseTree) :
    tokens ⟨.call, slice,
        leaf .token name :: leaf .token "(" :: (arguments ++ [leaf .token ")"])⟩
      = name :: "(" :: callTokens arguments := by
  simp [tokens, tokens_leaf, argumentTokens_append]

/-! ## 8. Skeletons of nodes

Equal skeletons are put together from those of the children, so that each rule has to show no more
than that its parts agree. -/

/-- A node with children has the skeleton of its production and of its children. -/
theorem skeleton_node {production : Production} {slice slice' : String}
    {children children' : List ParseTree} (nonempty : children ≠ [])
    (same : children.map skeleton = children'.map skeleton) :
    skeleton ⟨production, slice, children⟩ = skeleton ⟨production, slice', children'⟩ := by
  have nonempty' : children' ≠ [] := by
    rintro rfl
    exact nonempty (List.map_eq_nil_iff.mp same)
  rw [skeleton, skeleton, same, if_neg (by simpa using nonempty), if_neg (by simpa using nonempty')]

/-- A layer has the skeleton of its production and of its child. -/
theorem skeleton_layer {production : Production} {slice slice' : String} {body body' : ParseTree}
    (same : body.skeleton = body'.skeleton) :
    skeleton ⟨production, slice, [body]⟩ = skeleton ⟨production, slice', [body']⟩ :=
  skeleton_node (List.cons_ne_nil _ _) (by rw [List.map_singleton, List.map_singleton, same])

/-- **The depth** of a tree is that of its skeleton. -/
theorem depth_skeleton (tree : ParseTree) : tree.skeleton.depth = tree.depth := by
  rw [depth_eq_height, depth_eq_height]
  obtain ⟨production, slice, children⟩ := tree
  have below : ∀ child ∈ children, child.skeleton.height = child.height := fun child member => by
    rw [← depth_eq_height, depth_skeleton child, depth_eq_height]
  rw [skeleton, height, height, List.foldl_map]
  congr 1
  exact List.foldl_ext _ _ _ fun highest child member => by rw [below child member]

end ParseTree
end DecimalExpression
