import DecimalExpression.Proofs.Evaluation.Driver
import DecimalExpression.Proofs.Expression.NodeShapes

/-!
# Where faults come from

A rule whose demand is met can fail in three ways (`rule_excused`).  Values may not fit, which is
the business of whoever wrote the expression.  The node may not have a shape that the rule is
written for.  Or the method that the node calls raises a fault of its own.  In no case does a rule
ask for a value that is not in the table.

A fault of a term comes from the rule of a term below it, so the same holds of terms
(`Term.evaluate_excused`) and of forests (`Forest.run_excused`): what is internal to the evaluator
comes up only where a node is misshapen or a method raises it.
-/

namespace DecimalExpression

/-! ## 1. Internal faults

What an expression can cause is told from what only a broken node or a method can.  The distinction
is on causes and not on names, so naming an expression leaves it as it is.  Faults of the table are
set apart, because they have to be excluded even for nodes that are broken. -/

namespace Fault

/-- **Internal faults**: nothing that a value in an expression can cause. -/
def IsInternal : Fault → Prop
  | .source .. | .shape .. | .input .. => True
  | _ => False

/-- **Faults of the table**: a value that was not computed, or a node or a child that is not
there. -/
def IsTable : Fault → Prop
  | .shape (.notComputed _) _ | .shape (.foreignNode _) _ | .shape (.foreignChild ..) _ => True
  | _ => False

variable {fault : Fault}

@[simp] theorem isInternal_within (slice : String) :
    (fault.within slice).IsInternal ↔ fault.IsInternal := by
  cases fault <;> rfl

@[simp] theorem isTable_within (slice : String) : (fault.within slice).IsTable ↔ fault.IsTable := by
  cases fault with
  | shape cause expression => cases cause <;> rfl
  | _ => rfl

theorem IsTable.isInternal (h : fault.IsTable) : fault.IsInternal := by
  cases fault with
  | shape cause expression => trivial
  | _ => cases h

end Fault

/-- **A fault that is accounted for**: it is not internal, or some shape is broken and the fault is
not one of the table, or it is raised by a method. -/
inductive Excused (shaped : Prop) (raised : Fault → Prop) (fault : Fault) : Prop
  | ofValue (h : ¬ fault.IsInternal)
  | ofShape (broken : ¬ shaped) (h : ¬ fault.IsTable)
  | ofMethod (h : raised fault)

/-- Naming an expression leaves a fault accounted for. -/
theorem Excused.within {shaped shaped' : Prop} {raised raised' : Fault → Prop} {fault : Fault}
    (h : Excused shaped raised fault) (slice : String) (sound : shaped' → shaped)
    (method : raised fault → raised' (fault.within slice)) :
    Excused shaped' raised' (fault.within slice) := by
  cases h with
  | ofValue h => exact .ofValue (by simpa using h)
  | ofShape broken h => exact .ofShape (fun shape => broken (sound shape)) (by simpa using h)
  | ofMethod h => exact .ofMethod (method h)

/-! ## 2. Values

Operations on values have no shape to be broken and nothing to look up, so none of their faults is
internal. -/

/-- **Faults of an operation**: a value of the wrong type, a null, or the arithmetic.  None of them
names an expression. -/
inductive Fault.OfOperation : Fault → Prop
  | type (cause : TypeFault) : OfOperation (.ofType cause)
  | null (cause : NullFault) : OfOperation (.ofNull cause)
  | arithmetic (cause : ArithmeticFault) : OfOperation (.ofArithmetic cause)

theorem Fault.OfOperation.not_isInternal {fault : Fault} (h : fault.OfOperation) :
    ¬ fault.IsInternal := by
  cases h <;> exact id

theorem only_ofArithmetic {α : Type} (outcome : Except ArithmeticFault α) :
    Only Fault.OfOperation (outcome.mapError Fault.ofArithmetic) := by
  have any : Only (fun _ => True) outcome := fun _ _ => trivial
  exact any.mapError fun cause _ => .arithmetic cause

theorem toDecimal_only (v : Value) : Only Fault.OfOperation v.toDecimal := by
  cases v with
  | decimal number => exact only_ofArithmetic _
  | text content =>
    rw [Value.toDecimal]
    split
    · exact only_error (.type _)
    · exact only_ofArithmetic _
  | null => exact only_error (.null _)
  | bool truth => exact only_error (.type _)

/-- **No operation on values fails internally.** -/
theorem apply_only (operator : Operator) (policy : Policy) (left right : Value) :
    Only Fault.OfOperation (operator.apply policy left right) := by
  rw [Operator.apply]
  split
  · exact only_error (.null _)
  split
  · exact only_error (.null _)
  refine (toDecimal_only left).bind fun a _ => (toDecimal_only right).bind fun b _ => ?_
  exact only_ofArithmetic _

/-! ## 3. Operands

The proofs below are about outcomes whose faults are all accounted for, and a fault may be accounted
for by a broken shape.  So a read that a shape protects comes with the implication from the shape,
and a read of a known value with none. -/

section Rules

variable {shaped : Prop} {raised : Fault → Prop}

theorem only_excused {α : Type} {outcome : Except Fault α} (only : Only Fault.OfOperation outcome) :
    Only (Excused shaped raised) outcome :=
  only.mono fun _ operation => .ofValue operation.not_isInternal

/-- A fault of the shape of a node, where the shape is broken. -/
theorem excused_shape {α : Type} {cause : ShapeFault} (broken : ¬ shaped)
    (h : ¬ (Fault.ofShape cause).IsTable) :
    Only (Excused shaped raised) (.error (.ofShape cause) : Except Fault α) :=
  only_error (.ofShape broken h)

/-- What a rule sees of an operand apart from its value. -/
def Operand.label (o : Operand) : Label := ⟨o.kind, o.text⟩

variable {o : Operand}

theorem excused_value (known : o.value? ≠ none) : Only (Excused shaped raised) o.value := by
  obtain ⟨v, value⟩ := exists_value_of_known known
  rw [value]
  exact only_ok v

theorem excused_truth (known : o.value? ≠ none) (role : Role) :
    Only (Excused shaped raised) (o.truth role) := by
  refine (excused_value known).bind fun v _ => ?_
  cases v with
  | bool truth => exact only_ok truth
  | null | decimal | text => exact only_error (.ofValue id)

theorem excused_symbol (sound : shaped → o.kind = .symbol) :
    Only (Excused shaped raised) o.symbol := by
  rw [Operand.symbol]
  split
  · exact only_ok _
  · rename_i other
    exact excused_shape (fun shape => other (sound shape)) id

/-- The symbol of an operand is its text. -/
theorem symbol_eq_text {symbol : String} (read : o.symbol = .ok symbol) : symbol = o.text := by
  rw [Operand.symbol] at read
  split at read
  · cases read
    rfl
  · cases read

theorem kind_of_symbol {symbol : String} (read : o.symbol = .ok symbol) : o.kind = .symbol := by
  rw [Operand.symbol] at read
  split at read
  · assumption
  · cases read

/-! ## 4. Rules

One lemma for each rule, with what the rule reads as hypotheses: which operands are known, and which
are symbols if the node has its shape.  The rest of a chain is an induction on the operands that are
left, two at a time. -/

variable {policy : Policy} {operators : List String}

/-- **The rest of a chain** fails internally only where operators and operands do not alternate.  By
recursion on the operands, two at a time, as the loop takes them. -/
theorem excused_chainFrom (arithmetic : ∀ symbol ∈ operators, Operator.ofSymbol? symbol ≠ none)
    {operands : List Operand} (known : ∀ o ∈ operands, o.value? ≠ none) {first : Label}
    (sound : shaped → interleaves operators (first :: operands.map Operand.label))
    (result : Value) : Only (Excused shaped raised) (Rule.chainFrom policy result operands) := by
  match operands with
  | [] => exact only_ok result
  | [_] => exact excused_shape (fun shape => by simpa [interleaves] using sound shape) id
  | operator :: operand :: rest =>
    have atOperator : shaped → operator.label.isOperator operators := fun shape => by
      have whole := sound shape
      simp only [List.map_cons, interleaves, Bool.and_eq_true] at whole
      exact whole.1.2
    have more : shaped → interleaves operators (operand.label :: rest.map Operand.label) :=
      fun shape => by
        have whole := sound shape
        simp only [List.map_cons, interleaves, Bool.and_eq_true] at whole
        exact whole.2
    rw [Rule.chainFrom]
    refine (excused_symbol fun shape => (Label.isOperator_iff.mp (atOperator shape)).1).bind
      fun symbol read => ?_
    split
    · rename_i unknown
      refine excused_shape (fun shape => ?_) id
      rw [symbol_eq_text read] at unknown
      exact arithmetic _ (Label.isOperator_iff.mp (atOperator shape)).2 unknown
    · refine (excused_value (known operand (by simp))).bind fun right _ => ?_
      refine (only_excused (apply_only _ policy result right)).bind fun number _ => ?_
      exact excused_chainFrom arithmetic (fun o member => known o (by simp [member])) more _
termination_by operands.length

theorem excused_chain (arithmetic : ∀ symbol ∈ operators, Operator.ofSymbol? symbol ≠ none)
    {operands : List Operand} (known : ∀ o ∈ operands, o.value? ≠ none)
    (sound : shaped → interleaves operators (operands.map Operand.label)) :
    Only (Excused shaped raised) (Rule.chain policy operands) := by
  cases operands with
  | nil => exact excused_shape (fun shape => by simpa [interleaves] using sound shape) id
  | cons first rest =>
    refine (excused_value (known first (by simp))).bind fun v _ => ?_
    exact excused_chainFrom arithmetic (fun o member => known o (by simp [member])) sound v

variable {a b c : Operand}

/-- **A signed operand** fails internally only where its sign is none. -/
theorem excused_signed (sound : shaped → a.label.isOperator ["+", "-"]) (known : b.value? ≠ none) :
    Only (Excused shaped raised) (Rule.signed policy a b) := by
  refine (excused_symbol fun shape => (Label.isOperator_iff.mp (sound shape)).1).bind
    fun symbol read => ?_
  have plain : shaped → symbol = "+" ∨ symbol = "-" := fun shape => by
    have text := (Label.isOperator_iff.mp (sound shape)).2
    rw [symbol_eq_text read]
    simpa [Operand.label] using text
  have operation : ∀ operator : Operator, Only (Excused shaped raised) (do
      let value ← b.value
      return Value.decimal (← operator.apply policy (.ofInt 0) value)) := by
    intro operator
    refine (excused_value known).bind fun v _ => ?_
    refine (only_excused (apply_only operator policy _ v)).bind fun number _ => ?_
    exact only_ok _
  dsimp only
  split
  · exact operation .add
  · exact operation .subtract
  · rename_i notPlus notMinus
    refine excused_shape (fun shape => ?_) id
    rcases plain shape with rfl | rfl
    · exact notPlus rfl
    · exact notMinus rfl

/-- **A connective** fails internally only where its operator is another one: an operand that it
reads has a value by then. -/
theorem excused_connective {kind : Kind} {token : String} (decisive : Bool)
    (sound : shaped → b.label.isOperator [token]) {v : Value} (known : a.value? = some v)
    (passes : v = .bool (!decisive) → c.value? ≠ none) :
    Only (Excused shaped raised) (Rule.connective kind token decisive a b c) := by
  refine (excused_symbol fun shape => (Label.isOperator_iff.mp (sound shape)).1).bind
    fun symbol read => ?_
  dsimp only
  split
  · rename_i other
    refine excused_shape (fun shape => other ?_) id
    have text := (Label.isOperator_iff.mp (sound shape)).2
    rw [symbol_eq_text read]
    exact List.mem_singleton.mp text
  · refine (excused_truth (by simp [known]) _).bind fun truth decided => ?_
    split
    · exact only_ok _
    · rename_i undecided
      have through : truth = !decisive := by cases truth <;> cases decisive <;> simp_all
      have decided := (truth_eq_ok_iff known).mp decided
      refine (excused_truth (passes (through ▸ decided)) _).bind fun result _ => ?_
      exact only_ok _

theorem excused_equality (sound : shaped → b.label.isOperator ["==", "!="])
    (left : a.value? ≠ none) (right : c.value? ≠ none) :
    Only (Excused shaped raised) (Rule.equality a b c) := by
  refine (excused_value left).bind fun v _ => (excused_value right).bind fun w _ => ?_
  refine (excused_symbol fun shape => (Label.isOperator_iff.mp (sound shape)).1).bind
    fun symbol read => ?_
  split
  · exact only_ok _
  · exact only_ok _
  · rename_i notEqual notDifferent
    refine excused_shape (fun shape => ?_) id
    have text := (Label.isOperator_iff.mp (sound shape)).2
    rw [symbol_eq_text read] at notEqual notDifferent
    simp_all [Operand.label]

theorem excused_relation (sound : shaped → b.label.isOperator ["<=", ">=", "<", ">"])
    (left : a.value? ≠ none) (right : c.value? ≠ none) :
    Only (Excused shaped raised) (Rule.relation a b c) := by
  refine (excused_value left).bind fun v _ => (excused_value right).bind fun w _ => ?_
  split
  · exact only_error (.ofValue id)
  refine (excused_symbol fun shape => (Label.isOperator_iff.mp (sound shape)).1).bind
    fun symbol read => ?_
  split
  · exact only_ok _
  · exact only_ok _
  · exact only_ok _
  · exact only_ok _
  · rename_i notLess notGreater notAtMost notAtLeast
    refine excused_shape (fun shape => ?_) id
    have text := (Label.isOperator_iff.mp (sound shape)).2
    rw [symbol_eq_text read] at notLess notGreater notAtMost notAtLeast
    simp_all [Operand.label]

theorem excused_choice {v : Value} (known : a.value? = some v)
    (yes : v = .bool true → b.value? ≠ none) (no : v = .bool false → c.value? ≠ none) :
    Only (Excused shaped raised) (Rule.choice a b c) := by
  refine (excused_truth (by simp [known]) _).bind fun truth decided => ?_
  have decided := (truth_eq_ok_iff known).mp decided
  cases truth with
  | true => exact excused_value (yes decided)
  | false => exact excused_value (no decided)

theorem excused_values {operands : List Operand} (known : ∀ o ∈ operands, o.value? ≠ none) :
    Only (Excused shaped raised) (operands.mapM Operand.value) := by
  induction operands with
  | nil => exact only_ok []
  | cons o rest ih =>
    rw [List.mapM_cons]
    refine (excused_value (known o (by simp))).bind fun v _ => ?_
    refine (ih fun o member => known o (by simp [member])).bind fun values _ => ?_
    exact only_ok _

/-- The value of a single operand is passed on. -/
theorem excused_passOne {kind : Kind} {operands : List Operand}
    (known : ∀ o ∈ operands, o.value? ≠ none) (sound : shaped → operands.length = 1) :
    Only (Excused shaped raised) (Rule.passOne kind operands) := by
  match operands with
  | [only] => exact excused_value (known only (by simp))
  | [] | _ :: _ :: _ => exact excused_shape (fun shape => by simpa using sound shape) id

end Rules

/-! ## 5. All kinds

The kinds choose between these rules by the number of operands, and where the number fits none the
shape is broken.  A call is the one kind with a fault that comes from outside; `MethodRaises` says
which method it was and with what values. -/

variable {env : Environment}

/-- **A method raises a fault** for a call of these operands: it is there under the name that the
first operand is a symbol for, it takes as many arguments as there are, and it fails on their
values. -/
inductive MethodRaises (env : Environment) : Kind → List Operand → Fault → Prop
  | call {name : Operand} {arguments : List Operand} {values : List Value} {method : Method}
    {fault : Fault} (symbol : name.kind = .symbol)
    (known : arguments.mapM Operand.value = .ok values)
    (found : env.methods.get? name.text = some method)
    (admits : method.arity.admits values.length) (failed : method.run values = .error fault) :
    MethodRaises env .call (name :: arguments) fault

/-- **A call** fails internally only where its name is no symbol or its method raises the fault. -/
theorem excused_call {shaped : Prop} {name : Operand} {arguments : List Operand}
    (sound : shaped → name.kind = .symbol) (known : ∀ o ∈ arguments, o.value? ≠ none) :
    Only (Excused shaped (MethodRaises env .call (name :: arguments))) (do
      let symbol ← name.symbol
      env.methods.invoke symbol (← arguments.mapM Operand.value)) := by
  refine (excused_symbol sound).bind fun symbol read => ?_
  refine (excused_values known).bind fun values given => ?_
  rw [Registry.invoke]
  split
  · exact only_error (.ofValue id)
  · rename_i method found
    rw [symbol_eq_text read] at found
    rw [Arity.validate]
    split
    · rename_i admits
      intro fault failed
      exact .ofMethod (.call (kind_of_symbol read) given found admits failed)
    · exact only_error (.ofValue id)

/-- A text in quotes has a content. -/
theorem unquote?_ne_none {slice : String} (quoted : Word.isQuoted slice.toList) :
    Rule.unquote? slice ≠ none := by
  rw [Word.isQuoted.eq_def] at quoted
  rw [Rule.unquote?]
  split at quoted
  · cases quoted
  · rename_i c rest chars
    simp only [Bool.and_eq_true, decide_eq_true_eq] at quoted
    obtain ⟨⟨rfl, last⟩, -⟩ := quoted
    rw [chars]
    simp [last]

/-- The operator in the middle of three children belongs to the kind. -/
theorem isOperator_of_hasShape {kind : Kind} {slice : String} {left operator right : Label}
    (binary : kind ∈ [.disjunction, .conjunction, .equality, .relational])
    (shape : hasShape kind slice [left, operator, right]) :
    operator.isOperator kind.operators := by
  have shape : (left.isOperand && operator.isOperator kind.operators
      && right.isOperand) = true := by
    simp only [List.mem_cons, List.not_mem_nil, or_false] at binary
    rcases binary with rfl | rfl | rfl | rfl <;> exact shape
  rw [Bool.and_eq_true, Bool.and_eq_true] at shape
  exact shape.1.2

/-- **Where the demand is met, the rule of a kind fails internally only if the node has no shape or
its method raises the fault.** -/
theorem rule_excused (env : Environment) (slice : String) {kind : Kind} {operands : List Operand}
    (met : DemandMet kind operands) :
    Only (Excused (hasShape kind slice (operands.map Operand.label))
      (MethodRaises env kind operands))
      (rule env kind slice operands) := by
  have arithmetic : ∀ kind ∈ [Kind.additive, .multiplicative], ∀ symbol ∈ kind.operators,
      Operator.ofSymbol? symbol ≠ none := by decide
  cases kind with
  | additive =>
    refine excused_chain (arithmetic .additive (by decide)) met fun shape => ?_
    rw [hasShape, Bool.and_eq_true] at shape
    exact shape.2
  | multiplicative =>
    refine excused_chain (arithmetic .multiplicative (by decide)) met fun shape => ?_
    rw [hasShape, Bool.and_eq_true] at shape
    exact shape.2
  | signed =>
    match operands, met with
    | [sign, operand], met =>
      refine excused_signed (fun shape => ?_) (met operand (by simp))
      simp only [List.map_cons, List.map_nil, hasShape, Bool.and_eq_true] at shape
      exact shape.1
    | [], _ | [_], _ | _ :: _ :: _ :: _, _ => exact excused_shape (by simp [hasShape]) id
  | group =>
    refine excused_passOne met fun shape => ?_
    match operands with
    | [only] => rfl
    | [] | _ :: _ :: _ => cases shape
  | primary | unary | expression | condition | consequent | alternative =>
    exact excused_passOne met nofun
  | conditional =>
    match operands, met with
    | [condition, consequent, alternative], met =>
      obtain ⟨v, known, yes, no⟩ := met
      exact excused_choice known yes no
    | [], _ | [_], _ | [_, _], _ | _ :: _ :: _ :: _ :: _, _ =>
      exact excused_shape (by simp [hasShape]) id
  | disjunction =>
    match operands, met with
    | [only], met => exact excused_value (met only (by simp))
    | [left, operator, right], met =>
      obtain ⟨v, known, passes⟩ := met
      exact excused_connective true (isOperator_of_hasShape (by decide)) known passes
    | [], _ | [_, _], _ | _ :: _ :: _ :: _ :: _, _ => exact excused_shape (by simp [hasShape]) id
  | conjunction =>
    match operands, met with
    | [only], met => exact excused_value (met only (by simp))
    | [left, operator, right], met =>
      obtain ⟨v, known, passes⟩ := met
      exact excused_connective false (isOperator_of_hasShape (by decide)) known passes
    | [], _ | [_, _], _ | _ :: _ :: _ :: _ :: _, _ => exact excused_shape (by simp [hasShape]) id
  | equality =>
    match operands, met with
    | [only], met => exact excused_value (met only (by simp))
    | [left, operator, right], met =>
      exact excused_equality (isOperator_of_hasShape (by decide)) (met left (by simp))
        (met right (by simp))
    | [], _ | [_, _], _ | _ :: _ :: _ :: _ :: _, _ => exact excused_shape (by simp [hasShape]) id
  | relational =>
    match operands, met with
    | [only], met => exact excused_value (met only (by simp))
    | [left, operator, right], met =>
      exact excused_relation (isOperator_of_hasShape (by decide)) (met left (by simp))
        (met right (by simp))
    | [], _ | [_, _], _ | _ :: _ :: _ :: _ :: _, _ => exact excused_shape (by simp [hasShape]) id
  | call =>
    match operands, met with
    | [], _ => exact excused_shape (by simp [hasShape]) id
    | name :: arguments, met =>
      refine excused_call (fun shape => ?_) fun o member => met o (by simp [member])
      simp only [List.map_cons, hasShape, Bool.and_eq_true, decide_eq_true_eq] at shape
      exact shape.1
  | number =>
    rw [rule]
    split
    · exact only_ok _
    · exact only_error (.ofValue id)
  | text =>
    rw [rule]
    split
    · exact only_ok _
    · rename_i unquoted
      refine excused_shape (fun shape => ?_) id
      cases operands with
      | nil => exact unquote?_ne_none shape unquoted
      | cons o rest => cases shape
  | symbol => exact only_ok _
  | reference => exact only_ok _

/-! ## 6. Terms

A fault of a term is a fault of its own rule, or one of a child that was evaluated.  By induction a
fault of the second kind has been accounted for below, and shapes and calls of children are shapes
and calls of the term. -/

namespace Term

/-- **A call in a term raises a fault**, which becomes the fault of each term around it: the method
is there under the name of the call, it takes as many arguments as there are, and it fails on their
values. -/
inductive Raises (env : Environment) : Term → Fault → Prop
  | call {slice : String} {name : Term} {arguments : List Term} {values : List Value}
    {method : Method} {fault : Fault} (symbol : name.kind = .symbol)
    (known : arguments.mapM (evaluate env) = .ok values)
    (found : env.methods.get? name.text = some method)
    (admits : method.arity.admits values.length) (failed : method.run values = .error fault) :
    Raises env ⟨.call, slice, name :: arguments⟩ (fault.within slice)
  | around {t child : Term} {fault : Fault} (member : child ∈ t.children)
    (failed : t.evaluate env = .error fault) (h : Raises env child fault) : Raises env t fault

theorem labels_of_answers {ts : List Term} {operands : List Operand}
    (answers : List.Forall₂ (Answers env) ts operands) :
    operands.map Operand.label = ts.map label := by
  induction answers with
  | nil => rfl
  | @cons t o _ _ first _ ih =>
    have own : o.label = t.label := by rw [Operand.label, label, first.kind_eq, first.text_eq]
    rw [List.map_cons, List.map_cons, own, ih]

/-- **Operands have the labels of the children**, evaluated or not. -/
theorem labels_operands {t : Term} {operands : List Operand}
    (read : t.operands env = .ok operands) :
    operands.map Operand.label = t.children.map label :=
  labels_of_answers (answers_operands read)

theorem mapM_evaluating_only {ts : List Term} {allowed : Fault → Prop}
    (each : ∀ t ∈ ts, Only allowed (t.evaluate env)) :
    Only allowed (ts.mapM (evaluating env)) := by
  induction ts with
  | nil => exact only_ok []
  | cons t rest ih =>
    obtain ⟨here, later⟩ := List.forall_mem_cons.mp each
    rw [List.mapM_cons]
    refine Only.bind (here.bind fun v _ => only_ok _) fun first _ => ?_
    exact (ih later).bind fun more _ => only_ok _

/-- **Operands have the faults of the children.**  Whatever is demanded, an operand is evaluated or
skipped. -/
theorem operands_only {t : Term} {allowed : Fault → Prop}
    (each : ∀ child ∈ t.children, Only allowed (child.evaluate env)) :
    Only allowed (t.operands env) := by
  have gate : ∀ {passing : Bool} {left operator right : Term}, Only allowed (left.evaluate env) →
      Only allowed (right.evaluate env) →
      Only allowed (gateOperands env passing left operator right) := by
    intro passing left operator right atLeft atRight
    refine atLeft.bind fun v _ => ?_
    split
    · exact atRight.bind fun w _ => only_ok _
    · exact only_ok _
  rw [Term.operands.eq_def]
  split
  · refine (each _ (by simp)).bind fun v _ => ?_
    split
    · exact (each _ (by simp)).bind fun w _ => only_ok _
    split
    · exact (each _ (by simp)).bind fun w _ => only_ok _
    · exact only_ok _
  · exact gate (each _ (by simp)) (each _ (by simp))
  · exact gate (each _ (by simp)) (each _ (by simp))
  · exact mapM_evaluating_only each

/-- The method that the rule of a term calls is the one that the term calls.  The operands of a call
are evaluated from left to right, name first, so the values that the method gets are those of the
arguments. -/
theorem raises_of_methodRaises {t : Term} {operands : List Operand} {fault : Fault}
    (read : t.operands env = .ok operands) (raises : MethodRaises env t.kind operands fault) :
    t.Raises env (fault.within t.text) := by
  obtain ⟨kind, slice, children⟩ := t
  cases raises with
  | @call name arguments values method fault symbol known found admits failed =>
    have all : ¬ IsSelective .call children.length := fun selective => by
      rcases selective.2 with same | same | same <;> cases same
    rw [operands_of_not_selective all] at read
    cases children with
    | nil => cases read
    | cons first rest =>
      rw [List.mapM_cons, mapM_evaluating] at read
      obtain ⟨o, atFirst, read⟩ := bind_eq_ok read
      obtain ⟨v, _, atFirst⟩ := bind_eq_ok atFirst
      cases atFirst
      cases atRest : rest.mapM (evaluate env) with
      | error other =>
        rw [atRest] at read
        cases read
      | ok given =>
        rw [atRest] at read
        cases read
        have same : given = values := by
          rw [mapM_value_evaluatedAll atRest] at known
          cases known
          rfl
        exact .call symbol (same ▸ atRest) found admits failed

/-- **The faults of a term**: an internal one comes up only where a node is misshapen or a call
raises it, and one of the table only where a call raises it. -/
theorem evaluate_excused (t : Term) : Only (Excused t.Shaped (t.Raises env)) (t.evaluate env) := by
  induction t with
  | node kind slice children ih =>
    intro fault failed
    cases operands : (⟨kind, slice, children⟩ : Term).operands env with
    | error other =>
      have below : Only (fun fault => ∃ child ∈ children,
          Excused child.Shaped (child.Raises env) fault)
          (.error other : Except Fault (List Operand)) :=
        operands ▸ operands_only fun child member =>
          (ih child member).mono fun _ excused => ⟨child, member, excused⟩
      have same : other = fault := by
        rw [evaluate_eq, operands] at failed
        cases failed
        rfl
      obtain ⟨child, member, excused⟩ := below fault (by rw [same])
      cases excused with
      | ofValue h => exact .ofValue h
      | ofShape broken h => exact .ofShape (fun shaped => broken (shaped.child member)) h
      | ofMethod h => exact .ofMethod (.around member failed h)
    | ok found =>
      have own := rule_excused env slice (demandMet_operands operands)
      rw [labels_operands operands] at own
      rw [evaluate_eq, operands, ok_bind] at failed
      refine own.mapError (fun raised excused => ?_) fault failed
      exact excused.within slice Shaped.shape (raises_of_methodRaises operands)

end Term

/-! ## 7. Forests -/

namespace Forest

variable {f : Forest}

/-- **The faults of a forest**: an internal one comes up only where the forest is misshapen or a
call raises it, and one of the table only where a call raises it. -/
theorem meaning_excused (f : Forest) (env : Environment) :
    Only (Excused f.IsShaped fun fault => ∃ t ∈ f.terms, t.Raises env fault) (f.meaning env) := by
  have terms : Only (Excused f.IsShaped fun fault => ∃ t ∈ f.terms, t.Raises env fault)
      (f.terms.mapM (Term.evaluating env)) := by
    refine Term.mapM_evaluating_only fun t member => (Term.evaluate_excused t).mono ?_
    rintro fault (h | ⟨broken, h⟩ | h)
    · exact .ofValue h
    · exact .ofShape (fun shaped => broken ((isShaped_iff.mp shaped).1 t member)) h
    · exact .ofMethod ⟨t, member, h⟩
  refine terms.bind fun roots read => ?_
  have known := Term.known_of_mapM_evaluating read
  have sound : f.IsShaped → interleaves Kind.additive.operators (roots.map Operand.label) :=
    fun shaped => by
      rw [Term.labels_of_answers (Term.answers_mapM read)]
      exact (isShaped_iff.mp shaped).2
  split
  · exact excused_shape (fun shaped => by simpa [interleaves] using sound shaped) id
  · exact excused_value (known _ (by simp))
  · have chain : Only (Excused f.IsShaped fun _ => False) (Rule.chain env.policy roots) :=
      excused_chain (by decide) known sound
    exact chain.mapError fun fault excused => excused.within f.title id False.elim

theorem run_excused (f : Forest) (env : Environment) :
    Only (Excused f.IsShaped fun fault => ∃ t ∈ f.terms, t.Raises env fault) (f.run env) := by
  rw [run_eq_meaning]
  exact f.meaning_excused env

/-- **A fault of the table comes up only where a call raises it**, in whatever forest. -/
theorem raises_of_isTable {fault : Fault} (failed : f.run env = .error fault)
    (table : fault.IsTable) : ∃ t ∈ f.terms, t.Raises env fault := by
  rcases f.run_excused env fault failed with h | ⟨-, h⟩ | h
  · exact absurd table.isInternal h
  · exact absurd table h
  · exact h

/-- **In a shaped forest an internal fault comes up only where a call raises it.** -/
theorem IsShaped.raises_of_isInternal (shaped : f.IsShaped) {fault : Fault}
    (failed : f.run env = .error fault) (internal : fault.IsInternal) :
    ∃ t ∈ f.terms, t.Raises env fault := by
  rcases f.run_excused env fault failed with h | ⟨broken, -⟩ | h
  · exact absurd internal h
  · exact absurd shaped broken
  · exact h

end Forest
end DecimalExpression
