import DecimalExpression.Syntax.Lexeme
import DecimalExpression.Syntax.ParseTree

/-!
# Sentences

Which parse trees the grammar generates, said of the trees alone: a tree follows the grammar when
every node has the shape of its production (`ParseTree.Follows`).  A shape is a condition on one
node, on the productions of its children and on the texts of its tokens.  What the texts of the
inner nodes are, and whether a number is in range, is not part of it.

`ParseTree.yield` gives the texts of the leaves, which is what is left of a source without its
layout and without the commas of its calls.

It is section 10 of the specification as a condition on trees, with nothing of how they are read.
-/

namespace DecimalExpression

/-! ## 1. Words -/

namespace Word

/-- **A name**: a character that starts one, and characters that go on in one. -/
def isName : List Char → Bool
  | [] => false
  | c :: rest => Lexeme.isNameStart c && rest.all Lexeme.isNamePart

/-- **A text in quotes**: no third quote stands between the two. -/
def isQuoted (text : List Char) : Bool :=
  match text with
  | [] => false
  | c :: rest => c = '"' && rest.getLast? = some '"' && rest.count '"' = 1

/-- One digit at least, and nothing else. -/
def isDigits (text : List Char) : Bool := !text.isEmpty && text.all Char.isDigit

/-- **A mantissa**: digits, with a point in front of, between or behind them. -/
def isMantissa (text : List Char) : Bool :=
  isDigits (text.filter (· ≠ '.')) && text.all (fun c => c.isDigit || c = '.')
    && text.count '.' ≤ 1

/-- **An exponent** without its letter: digits behind an optional sign. -/
def isExponent : List Char → Bool
  | [] => false
  | c :: rest => isDigits (if c = '+' ∨ c = '-' then rest else c :: rest)

/-- **A numeral**: a mantissa, and an exponent where a letter `e` stands. -/
def isNumeral (text : List Char) : Bool :=
  match text.dropWhile (fun c => c ≠ 'e' ∧ c ≠ 'E') with
  | [] => isMantissa text
  | _ :: exponent =>
    isMantissa (text.takeWhile fun c => c ≠ 'e' ∧ c ≠ 'E') && isExponent exponent

end Word

namespace ParseTree

/-! ## 2. Shapes -/

/-- A token that reads as one of some texts. -/
def isToken (texts : List String) (tree : ParseTree) : Bool :=
  tree.production = .token && texts.contains tree.text

/-- A name as the token in front of a call. -/
def isCallName (tree : ParseTree) : Bool :=
  tree.production = .token && Word.isName tree.text.toList

/-- Operands of one production, with an operator between each two of them. -/
def alternates (operand : Production) (operators : List String) : List ParseTree → Bool
  | [] => false
  | [only] => only.production = operand
  | first :: operator :: rest =>
    first.production = operand && operator.isToken operators && alternates operand operators rest

/-- Arguments, and a closing parenthesis behind them. -/
def closesArguments : List ParseTree → Bool
  | [] => false
  | [closing] => closing.isToken [")"]
  | argument :: rest => argument.production = .conditional && closesArguments rest

/-- One child of a production. -/
def isLayerOf (inner : Production) : List ParseTree → Bool
  | [only] => only.production = inner
  | _ => false

/-- **The shape of a node**, by its production. -/
def hasShape (tree : ParseTree) : Bool :=
  match tree.production, tree.children with
  | .expression, children => isLayerOf .conditional children
  | .conditional, [condition, question, consequent, colon, alternative] =>
    condition.production = .condition && question.isToken ["?"]
      && consequent.production = .consequent && colon.isToken [":"]
      && alternative.production = .alternative
  | .conditional, children => isLayerOf .disjunction children
  | .condition, children => isLayerOf .disjunction children
  | .consequent, children => isLayerOf .conditional children
  | .alternative, children => isLayerOf .conditional children
  | .disjunction, [left, operator, right] =>
    left.production = .conjunction && operator.isToken ["||"]
      && right.production = .disjunction
  | .disjunction, children => isLayerOf .conjunction children
  | .conjunction, [left, operator, right] =>
    left.production = .equality && operator.isToken ["&&"] && right.production = .conjunction
  | .conjunction, children => isLayerOf .equality children
  | .equality, [left, operator, right] =>
    left.production = .equality && operator.isToken ["==", "!="]
      && right.production = .relational
  | .equality, children => isLayerOf .relational children
  | .relational, [left, operator, right] =>
    left.production = .relational && operator.isToken ["<=", ">=", "<", ">"]
      && right.production = .additive
  | .relational, children => isLayerOf .additive children
  | .additive, children => alternates .multiplicative ["+", "-"] children
  | .multiplicative, children => alternates .unary ["*", "/"] children
  | .unary, [sign, operand] => sign.isToken ["+", "-"] && operand.production = .unary
  | .unary, children => isLayerOf .primary children
  | .primary, [only] =>
    [Production.group, .call, .number, .text, .reference].contains only.production
  | .group, [opening, body, closing] =>
    opening.isToken ["("] && body.production = .conditional && closing.isToken [")"]
  | .call, name :: opening :: rest =>
    name.isCallName && opening.isToken ["("] && closesArguments rest
  | .number, [] => Word.isNumeral tree.text.toList
  | .text, [] => Word.isQuoted tree.text.toList
  | .reference, [] => Word.isName tree.text.toList
  | .token, [] => true
  | _, _ => false

/-- **A tree follows the grammar** when each of its nodes has the shape of its production. -/
inductive Follows : ParseTree → Prop
  | node (tree : ParseTree) (shape : tree.hasShape)
    (below : ∀ child ∈ tree.children, Follows child) : Follows tree

/-! ## 3. Leaves -/

/-- The texts of the leaves from left to right, in front of `rest`. -/
def yieldOnto (rest : List String) : ParseTree → List String
  | ⟨_, text, []⟩ => text :: rest
  | ⟨_, _, first :: more⟩ =>
    first.yieldOnto (more.foldr (fun child rest => child.yieldOnto rest) rest)

/-- **The texts of the leaves** from left to right. -/
def yield (tree : ParseTree) : List String := tree.yieldOnto []

end ParseTree
end DecimalExpression
