import DecimalExpression.Evaluation.Rule
import DecimalExpression.Syntax.ParseTree

/-!
# A direct interpreter

What a source means can be said of its parse tree alone, without terms, forests, collapsing or
tables: `ParseTree.interpret` is plain recursion over the tree.

* A layer with one child and a pair of parentheses pass on what is inside them.
* A flat chain evaluates all its operands from left to right, and only then folds them from the
  left.  A signed operand is zero plus or minus that operand.
* A comparison evaluates both its sides, and then compares them.
* A connective evaluates its right side only where the left one is the truth value that does not
  decide.  A conditional evaluates its condition, and then only the branch that is chosen.
* A call evaluates its arguments from left to right, and then calls the method.

The first fault in this order is the outcome.  A fault that does not yet name an expression names
the text of the node whose own step failed.
-/

namespace DecimalExpression
namespace Interpreter

/-! ## 1. Single steps

The steps are written out once more, and not taken from the rules: no operand of a node occurs in
them, no kind and no slot of a table.  That makes them a second description of the language, with
which the first one is compared. -/

/-- An outcome of the step of a node: a fault without a name is named by the node's text. -/
def named {α : Type} (slice : String) (outcome : Except Fault α) : Except Fault α :=
  outcome.mapError (Fault.within slice)

/-- **One operation**, by the symbol of its operator. -/
def calculate (policy : Policy) (left : Value) (symbol : String) (right : Value) :
    Except Fault Value :=
  match Operator.ofSymbol? symbol with
  | some operator => (operator.apply policy left right).map .decimal
  | none => .error (.ofShape (.notArithmetic symbol))

/-- **A chain of operations**, from the left.  A first operand without links keeps its value. -/
def fold (policy : Policy) (first : Value) (links : List (String × Value)) : Except Fault Value :=
  links.foldlM (fun result link => calculate policy result link.1 link.2) first

/-- The truth value that a role asks for. -/
def truth (role : Role) : Value → Except Fault Bool
  | .bool truth => .ok truth
  | found => .error (.ofType (.notBoolean role found))

/-- **An equality** of two values. -/
def equality (left : Value) (symbol : String) (right : Value) : Except Fault Value :=
  match symbol with
  | "==" => .ok (.bool (left.equals right))
  | "!=" => .ok (.bool !left.equals right)
  | other => .error (.ofShape (.notEquality other))

/-- **A relation** of two values, which need to have an order. -/
def relation (left : Value) (symbol : String) (right : Value) : Except Fault Value :=
  match left.compare? right with
  | none => .error (.ofType (.incomparable left right))
  | some order =>
    match symbol with
    | "<" => .ok (.bool (order == .lt))
    | ">" => .ok (.bool (order == .gt))
    | "<=" => .ok (.bool (order != .gt))
    | ">=" => .ok (.bool (order != .lt))
    | other => .error (.ofShape (.notRelational other))

/-- **A number literal.** -/
def literal (slice : String) : Except Fault Value :=
  ((Decimal.ofNumeral slice).map .decimal).mapError .ofArithmetic

/-- **A text literal**, without its quotes. -/
def unquoted (slice : String) : Except Fault Value :=
  match Rule.unquote? slice with
  | some content => .ok (.text content)
  | none => .error (.ofShape (.unquoted slice))

end Interpreter

/-! ## 2. Trees

The recursion goes over the productions.  Links and arguments are rows of trees, with tokens between
them, and have a recursion of their own each, so that every call is on a part of the tree. -/

namespace ParseTree

open Interpreter

mutual

/-- **The outcome of a parse tree.** -/
def interpret (env : Environment) : ParseTree → Except Fault Value
  | ⟨.number, slice, []⟩ => named slice (literal slice)
  | ⟨.text, slice, []⟩ => named slice (unquoted slice)
  | ⟨.reference, slice, []⟩ => .ok ((env.bindings.get? slice).getD .null)
  | ⟨.group, _, [_, body, _]⟩ => interpret env body
  | ⟨.conditional, slice, [condition, _, consequent, _, alternative]⟩ => do
    if ← named slice (truth .condition (← interpret env condition)) then interpret env consequent
    else interpret env alternative
  | ⟨.disjunction, slice, [left, _, right]⟩ => do
    if ← named slice (truth .leftOperand (← interpret env left)) then return .bool true
    return .bool (← named slice (truth .rightOperand (← interpret env right)))
  | ⟨.conjunction, slice, [left, _, right]⟩ => do
    if ← named slice (truth .leftOperand (← interpret env left)) then
      return .bool (← named slice (truth .rightOperand (← interpret env right)))
    return .bool false
  | ⟨.equality, slice, [left, operator, right]⟩ => do
    named slice (equality (← interpret env left) operator.text (← interpret env right))
  | ⟨.relational, slice, [left, operator, right]⟩ => do
    named slice (relation (← interpret env left) operator.text (← interpret env right))
  | ⟨.additive, slice, first :: links⟩ => do
    named slice (fold env.policy (← interpret env first) (← interpretLinks env links))
  | ⟨.multiplicative, slice, first :: links⟩ => do
    named slice (fold env.policy (← interpret env first) (← interpretLinks env links))
  | ⟨.unary, slice, [sign, operand]⟩ => do
    named slice (calculate env.policy (.ofInt 0) sign.text (← interpret env operand))
  | ⟨.call, slice, name :: _ :: arguments⟩ => do
    named slice (env.methods.invoke name.text (← interpretArguments env arguments))
  | ⟨_, _, [only]⟩ => interpret env only
  | ⟨_, slice, _⟩ => named slice (.error (.ofShape .nothingToEvaluate))

/-- The operators and operands of a chain behind its first operand, from left to right. -/
def interpretLinks (env : Environment) : List ParseTree → Except Fault (List (String × Value))
  | operator :: operand :: rest => do
    let value ← interpret env operand
    let more ← interpretLinks env rest
    return (operator.text, value) :: more
  | _ => return []

/-- The arguments of a call up to its closing parenthesis, from left to right. -/
def interpretArguments (env : Environment) : List ParseTree → Except Fault (List Value)
  | argument :: closing :: rest => do
    let value ← interpret env argument
    let more ← interpretArguments env (closing :: rest)
    return value :: more
  | _ => return []

end

end ParseTree
end DecimalExpression
