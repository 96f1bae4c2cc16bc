/-!
# Productions of the grammar

    Expression   = Conditional
    Conditional  = Or ("?" Conditional ":" Conditional)?
    Or           = And ("||" Or)?
    And          = Equality ("&&" And)?
    Equality     = Relational (("==" | "!=") Relational)*          nested to the left
    Relational   = Additive (("<=" | ">=" | "<" | ">") Additive)*   nested to the left
    Additive     = Multiplicative (("+" | "-") Multiplicative)*     one flat node
    Multiplicative = Unary (("*" | "/") Unary)*                     one flat node
    Unary        = ("+" | "-") Unary | Primary
    Primary      = Group | Call | Number | Text | Variable
    Group        = "(" Conditional ")"
    Call         = name "(" (Conditional ("," Conditional)*)? ")"

Every layer is a node of its own, also where it has one child.

The grammar and the names are those of section 10 of the specification.
-/

namespace DecimalExpression

/-- **A production**: what a node of a parse tree was read as. -/
inductive Production where
  | expression
  | conditional
  | condition
  | consequent
  | alternative
  | disjunction
  | conjunction
  | equality
  | relational
  | additive
  | multiplicative
  | unary
  | primary
  | group
  | call
  | number
  | text
  /-- the name of a variable -/
  | reference
  /-- an operator, a punctuation mark or the name of a call -/
  | token
deriving DecidableEq, Repr, Inhabited

namespace Production

def all : List Production :=
  [expression, conditional, condition, consequent, alternative, disjunction, conjunction,
    equality, relational, additive, multiplicative, unary, primary, group, call, number, text,
    reference, token]

/-- The name of a production, as reports use it. -/
def name : Production → String
  | expression => "Expression"
  | conditional => "ConditionalExpression"
  | condition => "ConditionalCondition"
  | consequent => "ConditionalThen"
  | alternative => "ConditionalElse"
  | disjunction => "ConditionalOrExpression"
  | conjunction => "ConditionalAndExpression"
  | equality => "EqualityExpression"
  | relational => "RelationalExpression"
  | additive => "AdditiveExpression"
  | multiplicative => "MultiplicativeExpression"
  | unary => "UnaryExpression"
  | primary => "PrimaryExpression"
  | group => "ParenthesisExpression"
  | call => "MethodInvocation"
  | number => "Scientific"
  | text => "StringLiteral"
  | reference => "Variable"
  | token => "Terminal"

def ofName? (name : String) : Option Production :=
  all.find? (·.name == name)

end Production
end DecimalExpression
