import DecimalExpression.Evaluation.Bounded
import DecimalExpression.Evaluation.Evaluate

/-!
# Evaluation with bounded scales

Methods, rules and the evaluation of forests, over the arithmetic of
`DecimalExpression.Evaluation.Bounded`.  Four things come to that arithmetic: an operator of a
chain, a sign, the arguments of `min` and `max`, and a number literal.  They are written out again
here.  Everything else is what it is without bounds, and is taken over (`lift`).

An overflow halts the whole evaluation.  No expression is named by it.

What is written out again is `extremum`, `fold_chain`, the calculation of a sign, and `force` around
them.
-/

namespace DecimalExpression
namespace Bounded

/-! ## 1. Methods -/

/-- The best number among those so far and the arguments. -/
def extremumFrom (wanted : Ordering) (best : Option Decimal) : List Value →
    Outcome Fault (Option Decimal)
  | [] => .ok best
  | .null :: rest => extremumFrom wanted best rest
  | argument :: rest => do
    let number ← toDecimal argument
    extremumFrom wanted (some (Method.better wanted best number)) rest

/-- **The first of the extreme arguments**, as a decimal; `wanted` is how a better number compares
with the best one so far. -/
def extremum (wanted : Ordering) (arguments : List Value) : Outcome Fault Value := do
  match ← extremumFrom wanted none arguments with
  | none => return .null
  | some best => return .decimal best

def min : List Value → Outcome Fault Value := extremum .lt

def max : List Value → Outcome Fault Value := extremum .gt

/-- **A method** whose arithmetic may overflow. -/
structure Method where
  arity : Arity
  run : List Value → Outcome Fault Value

/-- **A registry of methods**, by name. -/
abbrev Registry := Named Method

/-- **The built-in methods.** -/
def builtin : Registry :=
  ⟨[("min", ⟨.atLeast 2, min⟩), ("max", ⟨.atLeast 2, max⟩),
    ("stringContainsAny", ⟨.atLeast 2, fun arguments => lift (Method.containsAny arguments)⟩)]⟩

/-- **Calls a method**: it has to be there, and the number of arguments has to be right. -/
def invoke (registry : Registry) (name : String) (arguments : List Value) :
    Outcome Fault Value := do
  match registry.get? name with
  | none => fail (.unknownMethod name)
  | some method =>
    lift (method.arity.validate name arguments.length)
    method.run arguments

/-- **What an expression is evaluated in.** -/
structure Environment where
  bindings : Named Value
  policy : Policy
  methods : Registry

/-! ## 2. Rules -/

/-- The operators and operands behind a result. -/
def chainFrom (policy : Policy) (result : Value) : List Operand → Outcome Fault Value
  | [] => .ok result
  | [_] => fail (.ofShape .danglingOperator)
  | operator :: operand :: rest => do
    let symbol ← lift operator.symbol
    match Operator.ofSymbol? symbol with
    | none => fail (.ofShape (.notArithmetic symbol))
    | some operator =>
      let right ← lift operand.value
      let result ← apply operator policy result right
      chainFrom policy (.decimal result) rest

/-- **A chain**, from the left. -/
def chain (policy : Policy) : List Operand → Outcome Fault Value
  | [] => fail (.ofShape .emptyChain)
  | first :: rest => do chainFrom policy (← lift first.value) rest

/-- **A signed operand**: zero plus it, or zero less it. -/
def signed (policy : Policy) (sign operand : Operand) : Outcome Fault Value := do
  let symbol ← lift sign.symbol
  let operator ← match symbol with
    | "+" => .ok Operator.add
    | "-" => .ok Operator.subtract
    | other => fail (Fault.ofShape (.notSign other))
  let value ← lift operand.value
  return .decimal (← apply operator policy (.ofInt 0) value)

/-- **The rule of a kind.**  The kinds that calculate nothing and call nothing have the rule that
they have without bounds. -/
def rule (env : Environment) (kind : Kind) (text : String) (operands : List Operand) :
    Outcome Fault Value :=
  match kind, operands with
  | .additive, operands | .multiplicative, operands => chain env.policy operands
  | .signed, [sign, operand] => signed env.policy sign operand
  | .call, name :: arguments => do
    let name ← lift name.symbol
    invoke env.methods name (← lift (arguments.mapM Operand.value))
  | .number, _ => (asFault (ofNumeral text)).map .decimal
  | kind, operands =>
    lift (DecimalExpression.rule ⟨env.bindings, env.policy, .empty⟩ kind text operands)

/-! ## 3. Forests -/

/-- **The value of a node** by the rule of its kind, from what is in the table. -/
def calculate (f : Forest) (env : Environment) (values : Values) (i : Nat) (h : i < f.size) :
    Outcome Fault Value :=
  rule env (f.node i h).kind (f.node i h).text (f.operands values i h)

/-- The value of a node that has to be in the forest. -/
def calculate? (f : Forest) (env : Environment) (values : Values) (i : Nat) : Outcome Fault Value :=
  if h : i < f.size then calculate f env values i h else fail (.ofShape (.foreignNode i))

/-- **A node is forced**: the plan of its demand is carried out, and then its own value is
entered. -/
def force (f : Forest) (env : Environment) (values : Values) (i : Nat) (h : i < f.size) :
    Outcome Fault Values :=
  match values.get? i with
  | some _ => .ok values
  | none => do
    let values ← (f.plan i h).run
      (fun values (c : Fin i) => force f env values c.val (f.child_lt c h)) values
    match calculate f env values i h with
    | .ok value => .ok (values.fill i value)
    | .error halt => .error (halt.map (Fault.within (f.node i h).text))
termination_by i
decreasing_by exact c.isLt

/-- The roots are forced, from left to right. -/
def forceRoots (f : Forest) (env : Environment) : Outcome Fault Values :=
  (Plan.all f.rootNodes).run (fun values r => force f env values r.val (f.root_lt r))
    (Values.start f.size)

/-- **The outcome of a forest as it stands.** -/
def run (f : Forest) (env : Environment) : Outcome Fault Value := do
  let values ← forceRoots f env
  match f.rootOperands values with
  | [] => fail (.ofShape .nothingToEvaluate)
  | [only] => lift only.value
  | roots =>
    match chain env.policy roots with
    | .ok value => .ok value
    | .error halt => .error (halt.map (Fault.within f.title))

/-- **The outcome of a forest**, which is collapsed first unless it already is. -/
def evaluate (f : Forest) (env : Environment) : Outcome Fault Value :=
  run f.collapse env

end Bounded
end DecimalExpression
