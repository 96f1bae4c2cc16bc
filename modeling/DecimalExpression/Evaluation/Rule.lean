import DecimalExpression.Evaluation.Method

/-!
# The rule of each kind

`rule` gives the value of a node from its kind, its text and its operands.  An operand is a child
as a rule sees it: it may not have been computed, and a rule only fails for that when it needs the
value.  Which children are computed is the business of `Demand`.

This is the dispatch of calculators, one rule for each kind (specification, sections 4.3 and 4.4):
`calculate`, with `symbol`, `expect_bool` and `fold_chain`.  A rule relies on the values of the
children that the driver has forced, and `Operand.value` is where it asks for them (`computed`).
-/

namespace DecimalExpression

/-- **What an expression is evaluated in**: the variables, the policy and the methods. -/
structure Environment where
  bindings : Named Value
  policy : Policy
  methods : Registry

/-- **A child as a rule sees it**: its index, kind and text, and its value, if computed. -/
structure Operand where
  index : Nat
  kind : Kind
  text : String
  value? : Option Value

namespace Operand

/-! ## 1. Operands -/

/-- The value, which has to be computed. -/
def value (o : Operand) : Except Fault Value :=
  match o.value? with
  | some value => .ok value
  | none => .error (.ofShape (.notComputed o.index))

/-- The text of a symbol. -/
def symbol (o : Operand) : Except Fault String :=
  if o.kind = .symbol then .ok o.text else .error (.ofShape (.notSymbol o.kind o.text))

/-- The truth value in a role. -/
def truth (o : Operand) (role : Role) : Except Fault Bool := do
  match ← o.value with
  | .bool truth => return truth
  | found => .error (.ofType (.notBoolean role found))

end Operand

namespace Rule

/-! ## 2. Chains -/

/-- The operators and operands behind a result. -/
def chainFrom (policy : Policy) (result : Value) : List Operand → Except Fault Value
  | [] => .ok result
  | [_] => .error (.ofShape .danglingOperator)
  | operator :: operand :: rest => do
    let symbol ← operator.symbol
    match Operator.ofSymbol? symbol with
    | none => .error (.ofShape (.notArithmetic symbol))
    | some operator =>
      let right ← operand.value
      let result ← operator.apply policy result right
      chainFrom policy (.decimal result) rest

/-- **A chain** `operand (operator operand)*`, from the left.  A single operand keeps its value,
whatever its type. -/
def chain (policy : Policy) : List Operand → Except Fault Value
  | [] => .error (.ofShape .emptyChain)
  | first :: rest => do chainFrom policy (← first.value) rest

/-! ## 3. Operators -/

/-- **A signed operand**: zero plus it, or zero less it. -/
def signed (policy : Policy) (sign operand : Operand) : Except Fault Value := do
  let symbol ← sign.symbol
  let operator ← match symbol with
    | "+" => .ok Operator.add
    | "-" => .ok Operator.subtract
    | other => .error (Fault.ofShape (.notSign other))
  let value ← operand.value
  return .decimal (← operator.apply policy (.ofInt 0) value)

/-- **A connective** that the truth value `decisive` on its left decides. -/
def connective (kind : Kind) (token : String) (decisive : Bool) (left operator right : Operand) :
    Except Fault Value := do
  if (← operator.symbol) ≠ token then .error (.ofShape (.arity kind 3))
  let truth ← left.truth .leftOperand
  if truth = decisive then return .bool decisive
  return .bool (← right.truth .rightOperand)

/-- **An equality**: both operands first, then the operator. -/
def equality (left operator right : Operand) : Except Fault Value := do
  let equal := (← left.value).equals (← right.value)
  match ← operator.symbol with
  | "==" => return .bool equal
  | "!=" => return .bool !equal
  | other => .error (.ofShape (.notEquality other))

/-- **A relation**: both operands and their order first, then the operator. -/
def relation (left operator right : Operand) : Except Fault Value := do
  let a ← left.value
  let b ← right.value
  match a.compare? b with
  | none => .error (.ofType (.incomparable a b))
  | some order =>
    match ← operator.symbol with
    | "<" => return .bool (order == .lt)
    | ">" => return .bool (order == .gt)
    | "<=" => return .bool (order != .gt)
    | ">=" => return .bool (order != .lt)
    | other => .error (.ofShape (.notRelational other))

/-- **A conditional**: the value of the branch that the condition chooses. -/
def choice (condition consequent alternative : Operand) : Except Fault Value := do
  if ← condition.truth .condition then consequent.value else alternative.value

/-! ## 4. Leaves -/

/-- **The text between two quotes**, if it stands between two. -/
def unquote? (text : String) : Option String :=
  match text.toList with
  | '"' :: rest => if rest.getLast? = some '"' then some (String.ofList rest.dropLast) else none
  | _ => none

end Rule

/-! ## 5. All kinds -/

/-- **The rule of a kind.** -/
def rule (env : Environment) (kind : Kind) (text : String) (operands : List Operand) :
    Except Fault Value :=
  let wrongArity := .error (.ofShape (.arity kind operands.length))
  match kind with
  | .additive | .multiplicative => Rule.chain env.policy operands
  | .signed =>
    match operands with
    | [sign, operand] => Rule.signed env.policy sign operand
    | _ => wrongArity
  | .group | .primary | .unary | .expression | .condition | .consequent | .alternative =>
    match operands with
    | [only] => only.value
    | _ => wrongArity
  | .conditional =>
    match operands with
    | [condition, consequent, alternative] => Rule.choice condition consequent alternative
    | _ => wrongArity
  | .disjunction =>
    match operands with
    | [only] => only.value
    | [left, operator, right] => Rule.connective kind "||" true left operator right
    | _ => wrongArity
  | .conjunction =>
    match operands with
    | [only] => only.value
    | [left, operator, right] => Rule.connective kind "&&" false left operator right
    | _ => wrongArity
  | .equality =>
    match operands with
    | [only] => only.value
    | [left, operator, right] => Rule.equality left operator right
    | _ => wrongArity
  | .relational =>
    match operands with
    | [only] => only.value
    | [left, operator, right] => Rule.relation left operator right
    | _ => wrongArity
  | .call =>
    match operands with
    | [] => wrongArity
    | name :: arguments => do
      let name ← name.symbol
      env.methods.invoke name (← arguments.mapM Operand.value)
  | .number =>
    match Decimal.ofNumeral text with
    | .ok number => .ok (.decimal number)
    | .error cause => .error (.ofArithmetic cause)
  | .text =>
    match Rule.unquote? text with
    | some content => .ok (.text content)
    | none => .error (.ofShape (.unquoted text))
  | .symbol => .ok (.text text)
  | .reference => .ok ((env.bindings.get? text).getD .null)

end DecimalExpression
