/-!
# Kinds of expression nodes

What a node of an expression is.  The kinds follow the layers of the grammar; a signed operand has
a kind of its own, and operators and the names of calls are symbols.

The list is that of section 3 of the specification (`ExpressionKind`), and `Kind.name` gives the
names there.
-/

namespace DecimalExpression

/-- **The kind of an expression node.** -/
inductive Kind where
  | additive
  | multiplicative
  /-- a sign and its operand -/
  | signed
  /-- a condition and two branches -/
  | conditional
  | condition
  | consequent
  | alternative
  | disjunction
  | conjunction
  | equality
  | relational
  | expression
  /-- the name of a method and its arguments -/
  | call
  | number
  /-- a pair of parentheses -/
  | group
  | primary
  | text
  | symbol
  | unary
  /-- the name of a variable -/
  | reference
deriving DecidableEq, Repr, Inhabited

namespace Kind

def all : List Kind :=
  [additive, multiplicative, signed, conditional, condition, consequent, alternative,
    disjunction, conjunction, equality, relational, expression, call, number, group, primary,
    text, symbol, unary, reference]

/-- The name of a kind, as expressions are displayed with it. -/
def name : Kind → String
  | additive => "Additive"
  | multiplicative => "Multiplicative"
  | signed => "Arithmetic"
  | conditional => "Conditional"
  | condition => "ConditionalCondition"
  | consequent => "ConditionalThen"
  | alternative => "ConditionalElse"
  | disjunction => "ConditionalOr"
  | conjunction => "ConditionalAnd"
  | equality => "Equality"
  | relational => "Relational"
  | expression => "Expression"
  | call => "MethodInvocation"
  | number => "Number"
  | group => "Parenthesis"
  | primary => "Primary"
  | text => "StringLiteral"
  | symbol => "Symbol"
  | unary => "Unary"
  | reference => "Variable"

def ofName? (name : String) : Option Kind :=
  all.find? (·.name == name)

/-- **Leaf kinds**: those whose value comes from their own text, or from a binding of it. -/
def isLeaf : Kind → Bool
  | number | text | symbol | reference => true
  | _ => false

end Kind
end DecimalExpression
