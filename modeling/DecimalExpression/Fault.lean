import DecimalExpression.Decimal.Division
import DecimalExpression.Expression.Kind
import DecimalExpression.Syntax.Production
import DecimalExpression.Value

/-!
# Faults

Everything that can go wrong, as causes.  A fault says what happened; `Fault.message` alone says it
in words.  Four of the kinds also name the expression in which the fault arose, once that is known:
`Fault.within` fills the name in, and the innermost expression stays (`within_within`).

The kinds are those of the taxonomy in sections 7 and 16 of the specification.  Naming the innermost
expression is `in_expression`, which every calculation goes through.
-/

namespace DecimalExpression

/-! ## 1. Causes -/

/-- **Why a source is refused.** -/
inductive SourceFault where
  /-- groups and conditionals open inside each other beyond the limit -/
  | nestedTooDeep (limit : Nat)
  /-- the parse tree is higher than the limit -/
  | treeTooDeep (limit : Nat)
  /-- a chain of operators or signs is longer than the limit -/
  | chainTooLong
  | unexpectedEnd
  /-- a number literal outside the supported range -/
  | literalRange (literal : String)
  /-- another token has to stand here -/
  | unexpectedToken (near : String)
  /-- no operand can start here -/
  | noOperand (near : String)
  /-- text behind a complete expression -/
  | leftover (text : String)
  | stated (message : String)
deriving DecidableEq, Repr

/-- **The role of a truth value** in the rule that asks for it. -/
inductive Role where
  | condition
  | leftOperand
  | rightOperand
deriving DecidableEq, Repr

/-- **A value of the wrong type.** -/
inductive TypeFault where
  | notBoolean (role : Role) (found : Value)
  | incomparable (left right : Value)
  | notNumeric (text : String)
  | notNumber (truth : Bool)
  | stated (message : String)
deriving DecidableEq, Repr

/-- **A null where a value is needed.** -/
inductive NullFault where
  | leftOperand (operator : String)
  | rightOperand (operator : String)
  | operand
  | stated (message : String)
deriving DecidableEq, Repr

/-- **How many children a production may have.** -/
inductive ChildCount where
  | any
  | none
  | one
  | three
  | oneOrTwo
  | oneOrThree
  | oneOrFive
  | atLeastOne
  | odd
deriving DecidableEq, Repr

/-- **A tree or a node that no source gives rise to.** -/
inductive ShapeFault where
  /-- a production with another number of children than it may have -/
  | childCount (production : Production) (text : String) (found : Nat) (expected : ChildCount)
  | unexpectedProduction (expected found : Production) (text : String)
  | unexpectedSign (sign text : String)
  /-- a child index beyond the nodes there are -/
  | foreignChild (child : Nat) (kind : Kind) (text : String)
  | foreignNode (node : Nat)
  | notComputed (node : Nat)
  | notSymbol (kind : Kind) (text : String)
  /-- a node with another number of children than its kind has a rule for -/
  | arity (kind : Kind) (children : Nat)
  | emptyChain
  | danglingOperator
  | notArithmetic (operator : String)
  | notSign (operator : String)
  | notEquality (operator : String)
  | notRelational (operator : String)
  | unquoted (text : String)
  | nothingToEvaluate
  | stated (message : String)
deriving DecidableEq, Repr

/-- **Input from outside that cannot be taken.** -/
inductive InputFault where
  | noDecimal (name : String)
  | unsupportedNumber (text : String)
  | arrayValue
  | objectValue
  | notAnObject
  | invalidJson
  | binding (name : String) (cause : InputFault)
  | stated (message : String)
deriving DecidableEq, Repr

/-- **A fault.**  An empty `expression` means that it is not known yet. -/
inductive Fault where
  | source (position : Nat) (cause : SourceFault)
  | unknownMethod (name : String)
  | arity (method expected : String) (found : Nat)
  | typeMismatch (cause : TypeFault) (expression : String)
  | nullOperand (cause : NullFault) (expression : String)
  | arithmetic (cause : ArithmeticFault) (expression : String)
  | shape (cause : ShapeFault) (expression : String)
  | input (cause : InputFault)
deriving DecidableEq, Repr

/-! ## 2. Messages -/

namespace SourceFault

def message : SourceFault → String
  | nestedTooDeep limit => s!"Expression nests deeper than {limit} levels"
  | treeTooDeep limit => s!"Expression tree deeper than {limit} levels"
  | chainTooLong => "Expression nests too deeply"
  | unexpectedEnd => "Unexpected end of input"
  | literalRange literal => s!"Number literal {literal} is out of range"
  | unexpectedToken near => s!"Unexpected token near '{near}'"
  | noOperand near => s!"Invalid syntax near '{near}'"
  | leftover text => s!"Unexpected remaining input: '{text}'"
  | stated message => message

end SourceFault

namespace Role

def name : Role → String
  | condition => "condition"
  | leftOperand => "left operand"
  | rightOperand => "right operand"

end Role

namespace TypeFault

def message : TypeFault → String
  | notBoolean role found =>
    s!"{role.name} must be a boolean but was {found.typeName} {found.write}"
  | incomparable left right =>
    s!"can't compare {left.typeName} {left.write} with {right.typeName} {right.write}"
  | notNumeric text => s!"expected a decimal but got string \"{text}\""
  | notNumber truth => s!"expected a decimal but got boolean {(Value.bool truth).write}"
  | stated message => message

end TypeFault

namespace NullFault

def message : NullFault → String
  | leftOperand operator => s!"left operand of '{operator}' can't be null"
  | rightOperand operator => s!"right operand of '{operator}' can't be null"
  | operand => "operand value can't be null"
  | stated message => message

end NullFault

namespace ChildCount

def admits (count : ChildCount) (n : Nat) : Bool :=
  match count with
  | any => true
  | none => n = 0
  | one => n = 1
  | three => n = 3
  | oneOrTwo => n = 1 || n = 2
  | oneOrThree => n = 1 || n = 3
  | oneOrFive => n = 1 || n = 5
  | atLeastOne => 1 ≤ n
  | odd => n % 2 = 1

def name : ChildCount → String
  | any => "any number"
  | none => "0"
  | one => "1"
  | three => "3"
  | oneOrTwo => "1 or 2"
  | oneOrThree => "1 or 3"
  | oneOrFive => "1 or 5"
  | atLeastOne => "at least 1"
  | odd => "an odd number"

end ChildCount

namespace ShapeFault

def message : ShapeFault → String
  | childCount production text found expected =>
    s!"{production.name} '{text}' has {found} children, expected {expected.name}"
  | unexpectedProduction expected found text =>
    s!"expected {expected.name} but found {found.name} '{text}'"
  | unexpectedSign sign text => s!"unexpected sign '{sign}' in '{text}'"
  | foreignChild child kind text => s!"child {child} of {kind.name} '{text}' is not in the set"
  | foreignNode node => s!"node {node} is not in the set"
  | notComputed node => s!"node {node} used before it was computed"
  | notSymbol kind text => s!"expected an operator symbol but found {kind.name} '{text}'"
  | arity kind children => s!"{kind.name} node with {children} children"
  | emptyChain => "empty operator chain"
  | danglingOperator => "operator without a right operand"
  | notArithmetic operator => s!"'{operator}' is not an arithmetic operator"
  | notSign operator => s!"'{operator}' is not a sign"
  | notEquality operator => s!"'{operator}' is not an equality operator"
  | notRelational operator => s!"'{operator}' is not a relational operator"
  | unquoted text => s!"unquoted string literal {text}"
  | nothingToEvaluate => "nothing to evaluate"
  | stated message => message

end ShapeFault

namespace InputFault

def message : InputFault → String
  | noDecimal name => s!"{name} has no decimal representation"
  | unsupportedNumber text => s!"number {text} is not a supported decimal"
  | arrayValue => "arrays are not supported as values"
  | objectValue => "objects are not supported as values"
  | notAnObject => "an evaluation context must be a JSON object"
  | invalidJson => "Invalid JSON"
  | binding name cause => s!"binding '{name}': {cause.message}"
  | stated message => message

end InputFault

namespace Fault

/-- The line that names the expression, if it is known. -/
def expressionLine (expression : String) : String :=
  if expression.isEmpty then "" else s!"\n  Context: while evaluating: {expression}"

/-- **A fault in words.** -/
def message : Fault → String
  | source position cause => s!"Syntax error at position {position}: {cause.message}"
  | unknownMethod name => s!"Unknown method: {name}"
  | arity method expected found =>
    s!"Arity error: {method} expects {expected} arguments, got {found}"
  | typeMismatch cause expression =>
    s!"Type mismatch: {cause.message}{expressionLine expression}"
  | nullOperand cause expression =>
    s!"Null operand: {cause.message}{expressionLine expression}"
  | arithmetic cause expression =>
    s!"Arithmetic error: {cause.message}{expressionLine expression}"
  | shape cause expression =>
    s!"Internal invariant violated: {cause.message}{expressionLine expression}"
  | input cause => s!"Invalid input: {cause.message}"

/-! ## 3. The expression of a fault -/

/-- The expression already named, or else the new one. -/
def innermost (known new : String) : String :=
  if known.isEmpty then new else known

/-- **Names the expression a fault arose in**, unless one is named already. -/
def within (expression : String) : Fault → Fault
  | typeMismatch cause known => typeMismatch cause (innermost known expression)
  | nullOperand cause known => nullOperand cause (innermost known expression)
  | arithmetic cause known => arithmetic cause (innermost known expression)
  | shape cause known => shape cause (innermost known expression)
  | fault => fault

theorem innermost_innermost (known inner outer : String) :
    innermost (innermost known inner) outer = innermost known (innermost inner outer) := by
  unfold innermost
  split <;> simp_all

/-- **The innermost expression stays**: naming two in turn is naming the first of them that is
not empty. -/
theorem within_within (inner outer : String) (fault : Fault) :
    (fault.within inner).within outer = fault.within (innermost inner outer) := by
  cases fault <;> simp only [within, innermost_innermost]

/-! ## 4. Faults whose expression is not known yet -/

def ofType (cause : TypeFault) : Fault := typeMismatch cause ""

def ofNull (cause : NullFault) : Fault := nullOperand cause ""

def ofArithmetic (cause : ArithmeticFault) : Fault := arithmetic cause ""

def ofShape (cause : ShapeFault) : Fault := shape cause ""

end Fault

end DecimalExpression
