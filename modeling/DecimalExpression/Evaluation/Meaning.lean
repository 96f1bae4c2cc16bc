import DecimalExpression.Evaluation.Evaluate

/-!
# The meaning of terms

What a term evaluates to, by plain recursion and without a table: the children that its kind
demands are evaluated first, from left to right, and the kind's rule is applied to their values.
The first fault ends it, and names the innermost term whose own rule failed.

`Forest.meaning` is the same for the terms of a forest.  It says what `Forest.run` has to come to,
however the nodes of the forest are laid out and shared.

No operation of the language works so.  It is the reading of section 4 of the specification on which
the driver, its table and its order of nodes leave no mark.
-/

namespace DecimalExpression
namespace Term

/-! ## 1. Terms as operands -/

/-- A term as an operand, with its value. -/
def evaluated (t : Term) (value : Value) : Operand := ⟨0, t.kind, t.text, some value⟩

/-- A term as an operand that is not evaluated. -/
def skipped (t : Term) : Operand := ⟨0, t.kind, t.text, none⟩

/-! ## 2. The value of a term -/

/-- **The value of a term.** -/
def evaluate (env : Environment) (t : Term) : Except Fault Value := do
  let operands ← match t with
    | ⟨.conditional, _, [condition, consequent, alternative]⟩ => do
      let decided ← condition.evaluate env
      if decided = .bool true then
        pure [condition.evaluated decided, consequent.evaluated (← consequent.evaluate env),
          alternative.skipped]
      else if decided = .bool false then
        pure [condition.evaluated decided, consequent.skipped,
          alternative.evaluated (← alternative.evaluate env)]
      else pure [condition.evaluated decided, consequent.skipped, alternative.skipped]
    | ⟨.conjunction, _, [left, operator, right]⟩ => do
      let decided ← left.evaluate env
      if decided = .bool true then
        pure [left.evaluated decided, operator.skipped,
          right.evaluated (← right.evaluate env)]
      else pure [left.evaluated decided, operator.skipped, right.skipped]
    | ⟨.disjunction, _, [left, operator, right]⟩ => do
      let decided ← left.evaluate env
      if decided = .bool false then
        pure [left.evaluated decided, operator.skipped,
          right.evaluated (← right.evaluate env)]
      else pure [left.evaluated decided, operator.skipped, right.skipped]
    | ⟨_, _, children⟩ =>
      children.mapM fun child => return child.evaluated (← child.evaluate env)
  (rule env t.kind t.text operands).mapError (Fault.within t.text)

end Term

namespace Forest

/-! ## 3. The value of a forest -/

/-- **The value of the terms of a forest**: that of the only one, or the chain of several. -/
def meaning (f : Forest) (env : Environment) : Except Fault Value := do
  let roots ← f.terms.mapM fun t => return t.evaluated (← t.evaluate env)
  match roots with
  | [] => .error (.ofShape .nothingToEvaluate)
  | [only] => only.value
  | roots => (Rule.chain env.policy roots).mapError (Fault.within f.title)

end Forest
end DecimalExpression
