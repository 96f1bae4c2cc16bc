import DecimalExpression.Syntax.Sentence
import Mathlib.Data.List.Basic

/-!
# Derivations

`ParseTree.Follows` says of each node of a tree that it has the shape of its production.  The same
trees are derived by rules, one for each way to build a node (`ParseTree.Derives`); what is said of
all sentences of the grammar is proved by induction on a derivation, with one case for each rule.

Productions that are built alike share a rule.  The levels say which productions these are: a layer
around one child, a flat chain, and the chains that nest to the left and to the right.
-/

namespace DecimalExpression
namespace ParseTree

/-! ## 1. Levels

The productions come in few forms, and each form has a relation that lists its levels.  A statement
on chains is proved for a form, with the operators of the level as a parameter, and not for six
productions. -/

/-- **Layers**: a production that may have one child, of this production. -/
inductive Layer : Production → Production → Prop
  | expression : Layer .expression .conditional
  | conditional : Layer .conditional .disjunction
  | condition : Layer .condition .disjunction
  | consequent : Layer .consequent .conditional
  | alternative : Layer .alternative .conditional
  | disjunction : Layer .disjunction .conjunction
  | conjunction : Layer .conjunction .equality
  | equality : Layer .equality .relational
  | relational : Layer .relational .additive
  | unary : Layer .unary .primary
  | group : Layer .primary .group
  | call : Layer .primary .call
  | number : Layer .primary .number
  | text : Layer .primary .text
  | reference : Layer .primary .reference

/-- **Flat chains**: their operands and operators. -/
inductive FlatLevel : Production → Production → List String → Prop
  | additive : FlatLevel .additive .multiplicative ["+", "-"]
  | multiplicative : FlatLevel .multiplicative .unary ["*", "/"]

/-- **Chains that nest to the left**: their operands and operators. -/
inductive LeftLevel : Production → Production → List String → Prop
  | equality : LeftLevel .equality .relational ["==", "!="]
  | relational : LeftLevel .relational .additive ["<=", ">=", "<", ">"]

/-- **Chains that nest to the right**: their operands and their operator. -/
inductive RightLevel : Production → Production → String → Prop
  | disjunction : RightLevel .disjunction .conjunction "||"
  | conjunction : RightLevel .conjunction .equality "&&"

/-- **The operators of all levels.** -/
def levelOperators : List String :=
  ["+", "-", "*", "/", "==", "!=", "<=", ">=", "<", ">", "||", "&&"]

theorem FlatLevel.mem_levelOperators {outer operand : Production} {operators : List String}
    (level : FlatLevel outer operand operators) : ∀ o ∈ operators, o ∈ levelOperators := by
  cases level <;> decide

theorem LeftLevel.mem_levelOperators {outer operand : Production} {operators : List String}
    (level : LeftLevel outer operand operators) : ∀ o ∈ operators, o ∈ levelOperators := by
  cases level <;> decide

theorem RightLevel.mem_levelOperators {outer operand : Production} {operator : String}
    (level : RightLevel outer operand operator) : operator ∈ levelOperators := by
  cases level <;> decide

/-! ## 2. Derivations

Derivations are inductive, with one constructor for each form and a row of links where a chain has
one.  The texts of inner nodes are left open: what a grammar says of a tree does not depend on
them. -/

/-- The children of a flat chain behind its first operand. -/
def linkTrees : List (String × ParseTree) → List ParseTree
  | [] => []
  | (operator, operand) :: links => leaf .token operator :: operand :: linkTrees links

/-- **The trees that the grammar derives**, by production.  The texts of inner nodes are free. -/
inductive Derives : Production → ParseTree → Prop
  | layer {outer inner : Production} (level : Layer outer inner) (slice : String)
    {body : ParseTree} (below : Derives inner body) : Derives outer ⟨outer, slice, [body]⟩
  | flat {outer operand : Production} {operators : List String}
    (level : FlatLevel outer operand operators) (slice : String) {first : ParseTree}
    (links : List (String × ParseTree)) (signs : ∀ link ∈ links, link.1 ∈ operators)
    (atFirst : Derives operand first) (atLinks : ∀ link ∈ links, Derives operand link.2) :
    Derives outer ⟨outer, slice, first :: linkTrees links⟩
  | left {outer operand : Production} {operators : List String}
    (level : LeftLevel outer operand operators) (slice : String) {left right : ParseTree}
    {operator : String} (sign : operator ∈ operators) (atLeft : Derives outer left)
    (atRight : Derives operand right) :
    Derives outer ⟨outer, slice, [left, leaf .token operator, right]⟩
  | right {outer operand : Production} {operator : String}
    (level : RightLevel outer operand operator) (slice : String) {left right : ParseTree}
    (atLeft : Derives operand left) (atRight : Derives outer right) :
    Derives outer ⟨outer, slice, [left, leaf .token operator, right]⟩
  | choice (slice : String) {condition consequent alternative : ParseTree}
    (atCondition : Derives .condition condition) (atConsequent : Derives .consequent consequent)
    (atAlternative : Derives .alternative alternative) :
    Derives .conditional ⟨.conditional, slice,
      [condition, leaf .token "?", consequent, leaf .token ":", alternative]⟩
  | signed (slice : String) {sign : String} {operand : ParseTree} (plain : sign ∈ ["+", "-"])
    (below : Derives .unary operand) :
    Derives .unary ⟨.unary, slice, [leaf .token sign, operand]⟩
  | group (slice : String) {body : ParseTree} (below : Derives .conditional body) :
    Derives .group ⟨.group, slice, [leaf .token "(", body, leaf .token ")"]⟩
  | call (slice : String) {name : String} (word : Word.isName name.toList)
    (arguments : List ParseTree) (below : ∀ a ∈ arguments, Derives .conditional a) :
    Derives .call ⟨.call, slice,
      leaf .token name :: leaf .token "(" :: (arguments ++ [leaf .token ")"])⟩
  | number {slice : String} (word : Word.isNumeral slice.toList) :
    Derives .number (leaf .number slice)
  | text {slice : String} (word : Word.isQuoted slice.toList) : Derives .text (leaf .text slice)
  | reference {slice : String} (word : Word.isName slice.toList) :
    Derives .reference (leaf .reference slice)

variable {p outer operand : Production} {tree : ParseTree} {operators : List String}

theorem Derives.production_eq (h : Derives p tree) : tree.production = p := by
  cases h <;> rfl

/-! ## 3. Derived trees follow the grammar

From a derivation the shapes are computed, node by node.  What takes an argument are rows: operands
and operators alternate, and arguments end with a parenthesis. -/

theorem follows_token (slice : String) : Follows (leaf .token slice) :=
  .node _ rfl fun _ absent => absurd absent List.not_mem_nil

theorem isToken_leaf {texts : List String} {slice : String} (member : slice ∈ texts) :
    (leaf .token slice).isToken texts = true := by
  simpa [isToken, leaf] using member

/-- A flat chain alternates. -/
theorem alternates_linkTrees {first : ParseTree} (atFirst : first.production = operand)
    {links : List (String × ParseTree)} (signs : ∀ link ∈ links, link.1 ∈ operators)
    (atLinks : ∀ link ∈ links, link.2.production = operand) :
    alternates operand operators (first :: linkTrees links) = true := by
  induction links generalizing first with
  | nil => simpa [linkTrees, alternates] using atFirst
  | cons link links ih =>
    obtain ⟨operator, next⟩ := link
    have more := ih (atLinks _ List.mem_cons_self)
      (fun l member => signs l (List.mem_cons_of_mem _ member))
      (fun l member => atLinks l (List.mem_cons_of_mem _ member))
    have sign := isToken_leaf (signs _ List.mem_cons_self)
    rw [linkTrees, alternates, more, sign, atFirst]
    simp

theorem mem_linkTrees {links : List (String × ParseTree)} {child : ParseTree}
    (member : child ∈ linkTrees links) :
    ∃ link ∈ links, child = leaf .token link.1 ∨ child = link.2 := by
  induction links with
  | nil => cases member
  | cons link links ih =>
    obtain ⟨operator, next⟩ := link
    rcases List.mem_cons.mp member with rfl | member
    · exact ⟨_, List.mem_cons_self, .inl rfl⟩
    rcases List.mem_cons.mp member with rfl | member
    · exact ⟨_, List.mem_cons_self, .inr rfl⟩
    obtain ⟨other, later, same⟩ := ih member
    exact ⟨other, List.mem_cons_of_mem _ later, same⟩

/-- Arguments close with a parenthesis. -/
theorem closesArguments_append {arguments : List ParseTree}
    (each : ∀ a ∈ arguments, a.production = .conditional) :
    closesArguments (arguments ++ [leaf .token ")"]) = true := by
  induction arguments with
  | nil => rfl
  | cons first rest ih =>
    have more := ih fun a member => each a (List.mem_cons_of_mem _ member)
    have atFirst := each first List.mem_cons_self
    cases rest with
    | nil => simp [closesArguments, atFirst, isToken, leaf]
    | cons second rest =>
      rw [List.cons_append, List.cons_append, closesArguments]
      · rw [← List.cons_append, more, atFirst]
        rfl
      · simp

/-- **A derived tree follows the grammar.**  By induction on the derivation: each constructor gives
the shape of its node. -/
theorem Derives.follows (h : Derives p tree) : tree.Follows := by
  have three : ∀ {a b c : ParseTree}, a.Follows → b.Follows → c.Follows →
      ∀ child ∈ [a, b, c], child.Follows := by
    intro a b c ha hb hc child member
    simp only [List.mem_cons, List.not_mem_nil, or_false] at member
    rcases member with rfl | rfl | rfl
    · exact ha
    · exact hb
    · exact hc
  induction h with
  | layer level slice below ih =>
    have inner := below.production_eq
    refine .node _ ?_ (by simpa using ih)
    cases level <;> simp [hasShape, isLayerOf, inner]
  | flat level slice links signs atFirst atLinks first more =>
    refine .node _ ?_ fun child member => ?_
    · have alternate := alternates_linkTrees atFirst.production_eq signs
        fun link member => (atLinks link member).production_eq
      cases level <;> simpa [hasShape] using alternate
    · rcases List.mem_cons.mp member with rfl | member
      · exact first
      · obtain ⟨link, among, rfl | rfl⟩ := mem_linkTrees member
        · exact follows_token link.1
        · exact more link among
  | left level slice sign atLeft atRight left right =>
    refine .node _ ?_ (three left (follows_token _) right)
    have token := isToken_leaf sign
    have l := atLeft.production_eq
    have r := atRight.production_eq
    cases level <;> simp [hasShape, l, r, token]
  | right level slice atLeft atRight left right =>
    refine .node _ ?_ (three left (follows_token _) right)
    have l := atLeft.production_eq
    have r := atRight.production_eq
    cases level <;> simp [hasShape, l, r, isToken, leaf]
  | choice slice atCondition atConsequent atAlternative condition consequent alternative =>
    refine .node _ ?_ ?_
    · simp [hasShape, isToken, leaf, atCondition.production_eq, atConsequent.production_eq,
        atAlternative.production_eq]
    · simp [condition, consequent, alternative, follows_token]
  | signed slice plain below ih =>
    refine .node _ ?_ (by simp [ih, follows_token])
    simp [hasShape, isToken_leaf plain, below.production_eq]
  | group slice below ih =>
    refine .node _ ?_ (three (follows_token _) ih (follows_token _))
    simp [hasShape, isToken, leaf, below.production_eq]
  | call slice word arguments below ih =>
    refine .node _ ?_ fun child member => ?_
    · have closes := closesArguments_append fun a member => (below a member).production_eq
      simp [hasShape, isCallName, isToken, leaf, word] at closes ⊢
      exact closes
    · simp only [List.mem_cons, List.mem_append, List.not_mem_nil, or_false] at member
      rcases member with rfl | rfl | member | rfl
      · exact follows_token _
      · exact follows_token _
      · exact ih child member
      · exact follows_token _
  | number word | text word | reference word =>
    exact .node _ word fun _ absent => absurd absent List.not_mem_nil

/-! ## 4. Trees that follow the grammar are derived

From the shapes a derivation is built, by induction on the tree.  A row that alternates is taken
apart into links, and a production that fits several constructors is settled by the number of its
children. -/

theorem Follows.shape (h : tree.Follows) : tree.hasShape = true := by
  obtain ⟨_, shape, _⟩ := h
  exact shape

/-- A token has no children. -/
theorem Follows.token_eq {texts : List String} (h : tree.Follows) (token : tree.isToken texts) :
    ∃ slice ∈ texts, tree = leaf .token slice := by
  obtain ⟨production, slice, children⟩ := tree
  simp only [isToken, Bool.and_eq_true, decide_eq_true_eq, List.contains_iff_mem] at token
  obtain ⟨rfl, member⟩ := token
  have shape := h.shape
  cases children with
  | nil => exact ⟨slice, member, rfl⟩
  | cons first rest => cases shape

theorem exists_of_isLayerOf {inner : Production} {children : List ParseTree}
    (layer : isLayerOf inner children) : ∃ body, children = [body] ∧ body.production = inner := by
  match children, layer with
  | [body], layer => exact ⟨body, rfl, by simpa [isLayerOf] using layer⟩

/-- **Operands and operators that alternate** are a first operand and links. -/
theorem exists_of_alternates {children : List ParseTree} (below : ∀ child ∈ children, child.Follows)
    (alternate : alternates operand operators children) :
    ∃ first links, children = first :: linkTrees links ∧ first.production = operand ∧
      (∀ link ∈ links, link.1 ∈ operators) ∧ ∀ link ∈ links, link.2.production = operand := by
  match children, below, alternate with
  | [only], _, alternate =>
    refine ⟨only, [], rfl, by simpa [alternates] using alternate, ?_, ?_⟩ <;>
      exact fun _ absent => absurd absent List.not_mem_nil
  | first :: operator :: rest, below, alternate =>
    simp only [alternates, Bool.and_eq_true, decide_eq_true_eq] at alternate
    obtain ⟨⟨atFirst, sign⟩, alternate⟩ := alternate
    obtain ⟨slice, member, rfl⟩ := (below operator (by simp)).token_eq sign
    obtain ⟨second, links, rfl, atSecond, signs, operands⟩ :=
      exists_of_alternates (fun child member => below child (by simp [member])) alternate
    exact ⟨first, (slice, second) :: links, rfl, atFirst,
      List.forall_mem_cons.mpr ⟨member, signs⟩, List.forall_mem_cons.mpr ⟨atSecond, operands⟩⟩

/-- **Arguments that close with a parenthesis.** -/
theorem exists_of_closesArguments {children : List ParseTree}
    (below : ∀ child ∈ children, child.Follows) (closes : closesArguments children) :
    ∃ arguments, children = arguments ++ [leaf .token ")"] ∧
      ∀ a ∈ arguments, a.production = .conditional := by
  match children, below, closes with
  | [closing], below, closes =>
    obtain ⟨slice, member, rfl⟩ := (below closing (by simp)).token_eq closes
    cases List.mem_singleton.mp member
    exact ⟨[], rfl, fun _ absent => absurd absent List.not_mem_nil⟩
  | first :: second :: rest, below, closes =>
    simp only [closesArguments, Bool.and_eq_true, decide_eq_true_eq] at closes
    obtain ⟨arguments, same, each⟩ :=
      exists_of_closesArguments (fun child member => below child (by simp [member])) closes.2
    exact ⟨first :: arguments, by rw [same, List.cons_append],
      List.forall_mem_cons.mpr ⟨closes.1, each⟩⟩

theorem mem_linkTrees_of_mem {links : List (String × ParseTree)} {link : String × ParseTree}
    (member : link ∈ links) : link.2 ∈ linkTrees links := by
  induction links with
  | nil => cases member
  | cons first links ih =>
    rcases List.mem_cons.mp member with rfl | later
    · simp [linkTrees]
    · simp [linkTrees, ih later]

/-- A token that reads as one text only. -/
theorem Follows.eq_token {slice : String} (h : tree.Follows) (token : tree.isToken [slice]) :
    tree = leaf .token slice := by
  obtain ⟨other, member, same⟩ := h.token_eq token
  rw [same, List.mem_singleton.mp member]

/-- **Children that follow the grammar**, and are derived unless they are tokens. -/
structure DerivedBelow (children : List ParseTree) : Prop where
  follows : ∀ child ∈ children, child.Follows
  derives : ∀ child ∈ children, ∀ {inner : Production}, child.production = inner →
    inner ≠ .token → Derives inner child

section Below

variable {slice : String} {children : List ParseTree} (below : DerivedBelow children)
include below

theorem derives_layer {inner : Production} (level : Layer p inner) (inside : inner ≠ .token)
    (shape : isLayerOf inner children) : Derives p ⟨p, slice, children⟩ := by
  obtain ⟨body, rfl, production⟩ := exists_of_isLayerOf shape
  exact .layer level slice (below.derives body (by simp) production inside)

theorem derives_flat (level : FlatLevel p operand operators) (inside : operand ≠ .token)
    (shape : alternates operand operators children) : Derives p ⟨p, slice, children⟩ := by
  obtain ⟨first, links, rfl, atFirst, signs, atLinks⟩ := exists_of_alternates below.follows shape
  refine .flat level slice links signs (below.derives first (by simp) atFirst inside) ?_
  intro link member
  exact below.derives link.2 (by simp [mem_linkTrees_of_mem member]) (atLinks link member) inside

theorem derives_left {left sign right : ParseTree} (level : LeftLevel p operand operators)
    (inside : operand ≠ .token) (outside : p ≠ .token) (same : children = [left, sign, right])
    (shape : (left.production = p && sign.isToken operators && right.production = operand)) :
    Derives p ⟨p, slice, children⟩ := by
  subst same
  simp only [Bool.and_eq_true, decide_eq_true_eq] at shape
  obtain ⟨⟨atLeft, isSign⟩, atRight⟩ := shape
  obtain ⟨operator, member, rfl⟩ := (below.follows sign (by simp)).token_eq isSign
  exact .left level slice member (below.derives left (by simp) atLeft outside)
    (below.derives right (by simp) atRight inside)

theorem derives_right {operator : String} {left sign right : ParseTree}
    (level : RightLevel p operand operator) (inside : operand ≠ .token) (outside : p ≠ .token)
    (same : children = [left, sign, right])
    (shape : (left.production = operand && sign.isToken [operator] && right.production = p)) :
    Derives p ⟨p, slice, children⟩ := by
  subst same
  simp only [Bool.and_eq_true, decide_eq_true_eq] at shape
  obtain ⟨⟨atLeft, isSign⟩, atRight⟩ := shape
  obtain rfl := (below.follows sign (by simp)).eq_token isSign
  exact .right level slice (below.derives left (by simp) atLeft inside)
    (below.derives right (by simp) atRight outside)

theorem derives_choice {condition question consequent colon alternative : ParseTree}
    (same : children = [condition, question, consequent, colon, alternative])
    (shape : (condition.production = .condition && question.isToken ["?"]
      && consequent.production = .consequent && colon.isToken [":"]
      && alternative.production = .alternative)) :
    Derives .conditional ⟨.conditional, slice, children⟩ := by
  subst same
  simp only [Bool.and_eq_true, decide_eq_true_eq] at shape
  obtain ⟨⟨⟨⟨atCondition, isQuestion⟩, atConsequent⟩, isColon⟩, atAlternative⟩ := shape
  obtain rfl := (below.follows question (by simp)).eq_token isQuestion
  obtain rfl := (below.follows colon (by simp)).eq_token isColon
  exact .choice slice (below.derives condition (by simp) atCondition nofun)
    (below.derives consequent (by simp) atConsequent nofun)
    (below.derives alternative (by simp) atAlternative nofun)

theorem derives_signed {sign body : ParseTree} (same : children = [sign, body])
    (shape : (sign.isToken ["+", "-"] && body.production = .unary)) :
    Derives .unary ⟨.unary, slice, children⟩ := by
  subst same
  simp only [Bool.and_eq_true, decide_eq_true_eq] at shape
  obtain ⟨_, member, rfl⟩ := (below.follows sign (by simp)).token_eq shape.1
  exact .signed slice member (below.derives body (by simp) shape.2 nofun)

theorem derives_group {opening body closing : ParseTree}
    (same : children = [opening, body, closing])
    (shape : (opening.isToken ["("] && body.production = .conditional && closing.isToken [")"])) :
    Derives .group ⟨.group, slice, children⟩ := by
  subst same
  simp only [Bool.and_eq_true, decide_eq_true_eq] at shape
  obtain ⟨⟨isOpening, atBody⟩, isClosing⟩ := shape
  obtain rfl := (below.follows opening (by simp)).eq_token isOpening
  obtain rfl := (below.follows closing (by simp)).eq_token isClosing
  exact .group slice (below.derives body (by simp) atBody nofun)

theorem derives_call {name opening : ParseTree} {rest : List ParseTree}
    (same : children = name :: opening :: rest)
    (shape : (name.isCallName && opening.isToken ["("] && closesArguments rest)) :
    Derives .call ⟨.call, slice, children⟩ := by
  subst same
  simp only [isCallName, Bool.and_eq_true, decide_eq_true_eq] at shape
  obtain ⟨⟨⟨token, word⟩, isOpening⟩, closes⟩ := shape
  obtain rfl := (below.follows opening (by simp)).eq_token isOpening
  have own : name.isToken [name.text] := by simp [isToken, token]
  rw [(below.follows name (by simp)).eq_token own]
  obtain ⟨arguments, rfl, each⟩ :=
    exists_of_closesArguments (fun child member => below.follows child (by simp [member])) closes
  refine .call slice word arguments fun a member => ?_
  exact below.derives a (by simp [member]) (each a member) nofun

/-- A primary is a layer around an operand of any kind. -/
theorem derives_primary {only : ParseTree} (same : children = [only])
    (shape : [Production.group, .call, .number, .text, .reference].contains only.production) :
    Derives .primary ⟨.primary, slice, children⟩ := by
  subst same
  have single : ∀ {inner : Production}, only.production = inner → isLayerOf inner [only] :=
    fun same => decide_eq_true same
  simp only [List.contains_iff_mem, List.mem_cons, List.not_mem_nil, or_false] at shape
  rcases shape with kind | kind | kind | kind | kind
  · exact derives_layer below .group nofun (single kind)
  · exact derives_layer below .call nofun (single kind)
  · exact derives_layer below .number nofun (single kind)
  · exact derives_layer below .text nofun (single kind)
  · exact derives_layer below .reference nofun (single kind)

end Below

/-- **A tree that follows the grammar is derived**, unless it is a bare token.  By recursion on the
tree.  The production and the number of children say which constructor it is. -/
theorem Follows.derives (h : tree.Follows) (notToken : tree.production ≠ .token) :
    Derives tree.production tree := by
  induction h with
  | node tree shape follows ih =>
    obtain ⟨production, slice, children⟩ := tree
    have below : DerivedBelow children := by
      refine ⟨follows, ?_⟩
      rintro child member _ rfl inside
      exact ih child member inside
    unfold hasShape at shape
    dsimp only at shape notToken ⊢
    -- One case for each line of `hasShape`, in its order.
    split at shape
    · exact derives_layer below .expression nofun shape
    · exact derives_choice below rfl shape
    · exact derives_layer below .conditional nofun shape
    · exact derives_layer below .condition nofun shape
    · exact derives_layer below .consequent nofun shape
    · exact derives_layer below .alternative nofun shape
    · exact derives_right below .disjunction nofun nofun rfl shape
    · exact derives_layer below .disjunction nofun shape
    · exact derives_right below .conjunction nofun nofun rfl shape
    · exact derives_layer below .conjunction nofun shape
    · exact derives_left below .equality nofun nofun rfl shape
    · exact derives_layer below .equality nofun shape
    · exact derives_left below .relational nofun nofun rfl shape
    · exact derives_layer below .relational nofun shape
    · exact derives_flat below .additive nofun shape
    · exact derives_flat below .multiplicative nofun shape
    · exact derives_signed below rfl shape
    · exact derives_layer below .unary nofun shape
    · exact derives_primary below rfl shape
    · exact derives_group below rfl shape
    · exact derives_call below rfl shape
    · exact .number shape
    · exact .text shape
    · exact .reference shape
    · exact absurd rfl notToken
    · cases shape

/-- A child of a derived tree is a token, or derived. -/
theorem Derives.child (h : Derives p tree) {child : ParseTree} (member : child ∈ tree.children) :
    (∃ slice, child = leaf .token slice) ∨ Derives child.production child := by
  obtain ⟨_, _, follows⟩ := h.follows
  by_cases token : child.production = .token
  · left
    have shape := (follows child member).shape
    obtain ⟨production, slice, children⟩ := child
    cases token
    cases children with
    | nil => exact ⟨slice, rfl⟩
    | cons first more => cases shape
  · exact .inr ((follows child member).derives token)

end ParseTree
end DecimalExpression
