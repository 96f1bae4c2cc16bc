import DecimalExpression.Fault
import DecimalExpression.Syntax.ParseTree

/-!
# Terms

A term is an expression as a tree: a kind, a text and the terms below.  It is what a parse tree
becomes once punctuation is dropped, and what a node of a forest unfolds to.

`Term.ofTree` takes a parse tree to a term.  Every layer of the grammar stays a node, with three
exceptions: a conditional without branches is its only child, a conditional with branches keeps
just those, and a signed operand has a kind of its own.  Trees can be built by hand, so each
production's children are counted, and what no source gives rise to is refused.

`Term.ofTree` follows the translator (specification, sections 4.1 and 11): `translate_node`, with
`translate_conditional`, `translate_unary` and `translate_method` for the exceptions.  The checks
are `expect_count`, `expect_odd` and `expect_production`; the first two are one table here
(`childCount`).
-/

namespace DecimalExpression

/-- **A term.** -/
structure Term where
  kind : Kind
  text : String
  children : List Term

namespace Term

/-! ## 1. Basic operations -/

/-- A term without children. -/
def leaf (kind : Kind) (text : String) : Term := ⟨kind, text, []⟩

/-- The number of nodes. -/
def size : Term → Nat
  | ⟨_, _, children⟩ => children.foldl (fun total child => total + child.size) 1

/-- **Height**: the number of nodes on the longest path from the root to a leaf. -/
def height : Term → Nat
  | ⟨_, _, children⟩ => children.foldl (fun highest child => max highest child.height) 0 + 1

/-- **The leaves** from left to right, each with its kind and text, in front of `rest`. -/
def leavesOnto (rest : List (Kind × String)) : Term → List (Kind × String)
  | ⟨kind, text, []⟩ => (kind, text) :: rest
  | ⟨_, _, first :: more⟩ =>
    first.leavesOnto (more.foldr (fun child rest => child.leavesOnto rest) rest)

/-- **The leaves** from left to right, each with its kind and text. -/
def leaves (t : Term) : List (Kind × String) := t.leavesOnto []

/-! ## 2. Terms of parse trees -/

/-- How many children a production may have. -/
def childCount : Production → ChildCount
  | .expression => .any
  | .conditional => .oneOrFive
  | .condition | .consequent | .alternative | .primary => .one
  | .disjunction | .conjunction | .equality | .relational => .oneOrThree
  | .additive | .multiplicative => .odd
  | .unary => .oneOrTwo
  | .group => .three
  | .call => .atLeastOne
  | .number | .text | .reference | .token => .none

/-- The kind of node that a production becomes where it stays a layer. -/
def layerKind : Production → Kind
  | .expression => .expression
  | .conditional => .conditional
  | .condition => .condition
  | .consequent => .consequent
  | .alternative => .alternative
  | .disjunction => .disjunction
  | .conjunction => .conjunction
  | .equality => .equality
  | .relational => .relational
  | .additive => .additive
  | .multiplicative => .multiplicative
  | .unary => .unary
  | .primary => .primary
  | .group => .group
  | .call => .call
  | .number => .number
  | .text => .text
  | .reference => .reference
  | .token => .symbol

/-- The tree has as many children as its production may have. -/
def expectCount (tree : ParseTree) : Except ShapeFault Unit :=
  let expected := childCount tree.production
  if expected.admits tree.children.length then .ok ()
  else .error (.childCount tree.production tree.text tree.children.length expected)

/-- The tree is one of the production expected. -/
def expectProduction (expected : Production) (tree : ParseTree) : Except ShapeFault Unit :=
  if tree.production = expected then .ok ()
  else .error (.unexpectedProduction expected tree.production tree.text)

/-- The sign of a signed operand: a token that reads `+` or `-`. -/
def signOf (sign : ParseTree) (text : String) : Except ShapeFault Term := do
  expectProduction .token sign
  if sign.text = "+" ∨ sign.text = "-" then .ok (leaf .symbol sign.text)
  else .error (.unexpectedSign sign.text text)

/-- The name of a call: a token, of which only the text counts. -/
def nameOf (name : ParseTree) : Except ShapeFault Term := do
  expectProduction .token name
  return leaf .symbol name.text

/-- **The term of a parse tree**, or the first fault of its shape: a node is checked before its
children, and children from left to right. -/
def ofTree (tree : ParseTree) : Except ShapeFault Term := do
  expectCount tree
  match tree with
  | ⟨.conditional, _, [only]⟩ => ofTree only
  | ⟨.conditional, text, [condition, _, consequent, _, alternative]⟩ =>
    expectProduction .condition condition
    expectProduction .consequent consequent
    expectProduction .alternative alternative
    return ⟨.conditional, text,
      [← ofTree condition, ← ofTree consequent, ← ofTree alternative]⟩
  | ⟨.unary, text, [sign, operand]⟩ =>
    return ⟨.signed, text, [← signOf sign text, ← ofTree operand]⟩
  | ⟨.group, text, [_, body, _]⟩ => return ⟨.group, text, [← ofTree body]⟩
  | ⟨.call, text, name :: rest⟩ =>
    let name ← nameOf name
    let arguments ← rest.filterMapM fun child =>
      if child.production = .token then pure none else return some (← ofTree child)
    return ⟨.call, text, name :: arguments⟩
  | ⟨production, text, children⟩ =>
    return ⟨layerKind production, text, ← children.mapM fun child => ofTree child⟩

end Term
end DecimalExpression
