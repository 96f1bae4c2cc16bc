import DecimalExpression.Proofs.Evaluation.ArithmeticSteps

/-!
# Where a run overflows

A run with bounded scales overflows exactly where a step of its arithmetic does, and otherwise has
the outcome of the run without bounds, value or fault (`run_overflowsBy`).  The steps are those of
the run without bounds, so what overflows can be found without the bounded run.

This is one statement about a list of steps and two outcomes (`OverflowsBy`), and it goes through
sequences (`OverflowsBy.bind`).  It is shown of each rule, then of carrying out a plan, of forcing a
node, and of the roots.  A rule reads the table, which may know more than the operands that the
steps were taken from; the steps are the same (`Term.arithmetic_eq`).
-/

namespace DecimalExpression
namespace Bounded

/-! ## 1. Overflows by steps

The condition under which a computation overflows is that some step on a list does.  The relation
has the same laws for sequences as `OverflowsWhere`, with lists appended; the difference is that it
is an implication, from the steps being ones that there can be. -/

/-- **A computation that overflows by one of its steps**, and otherwise has its outcome without
bounds.  The steps have to be ones that there can be. -/
def OverflowsBy {α : Type} (policy : Policy) (steps : List ArithmeticStep)
    (outcome : Except Fault α) (bounded : Outcome Fault α) : Prop :=
  (∀ step ∈ steps, step.Fits) →
    OverflowsWhere (∃ step ∈ steps, step.Overflows policy) outcome bounded

section Sequences

variable {α β : Type} {policy : Policy} {steps : List ArithmeticStep} {x : Except Fault α}
  {y : Outcome Fault α} {next : α → List ArithmeticStep} {f : α → Except Fault β}
  {g : α → Outcome Fault β}

/-- What does no arithmetic does not overflow. -/
theorem overflowsBy_nil (x : Except Fault α) : OverflowsBy policy [] x (lift x) := by
  intro _
  exact (OverflowsWhere.never x).congr (by simp)

/-- **A sequence** does the steps of its first part, and then those of what follows. -/
theorem OverflowsBy.bind (first : OverflowsBy policy steps x y)
    (second : ∀ a, x = .ok a → OverflowsBy policy (next a) (f a) (g a)) :
    OverflowsBy policy (steps ++ stepsBehind x next) (x >>= f) (y >>= g) := by
  intro fits
  obtain ⟨atFirst, atSecond⟩ := List.forall_mem_append.mp fits
  have first := first atFirst
  refine (first.bind fun a found => second a found fun step member => ?_).congr ?_
  · exact atSecond step (mem_stepsBehind.mpr ⟨a, found, member⟩)
  · simp only [List.mem_append, mem_stepsBehind]
    constructor
    · rintro ⟨step, member | ⟨a, found, member⟩, overflows⟩
      · exact .inl ⟨step, member, overflows⟩
      · exact .inr ⟨a, found, step, member, overflows⟩
    · rintro (⟨step, member, overflows⟩ | ⟨a, found, step, member, overflows⟩)
      · exact ⟨step, .inl member, overflows⟩
      · exact ⟨step, .inr ⟨a, found, member⟩, overflows⟩

/-- **Behind a part without arithmetic** only what follows does any. -/
theorem overflowsBy_bind_lift (second : ∀ a, x = .ok a → OverflowsBy policy (next a) (f a) (g a)) :
    OverflowsBy policy (stepsBehind x next) (x >>= f) (lift x >>= g) :=
  (overflowsBy_nil x).bind second

/-- In front of a part without arithmetic, the steps are all there are. -/
theorem OverflowsBy.bind_eq_lift (first : OverflowsBy policy steps x y)
    (second : ∀ a, g a = lift (f a)) : OverflowsBy policy steps (x >>= f) (y >>= g) := by
  intro fits
  exact (first fits).bind_eq_lift second

theorem OverflowsBy.mapError (first : OverflowsBy policy steps x y) (name : Fault → Fault) :
    OverflowsBy policy steps (x.mapError name) (y.mapError (.map name)) := by
  intro fits
  exact (first fits).mapError name

theorem OverflowsBy.map (first : OverflowsBy policy steps x y) (make : α → β) :
    OverflowsBy policy steps (x.map make) (y.map make) := by
  intro fits
  exact (first fits).map make

end Sequences

/-! ## 2. Rules

Each rule with bounded scales is compared with the rule without bounds.  Only four things do
arithmetic, and each is a step or a row of steps; every other rule is taken over, with no steps at
all. -/

section Rules

variable {policy : Policy}

/-- **An operation on values is one step.** -/
theorem apply_overflowsBy (operator : Operator) (policy : Policy) (left right : Value) :
    OverflowsBy policy [.operation operator left right] (operator.apply policy left right)
      (apply operator policy left right) := by
  intro fits
  obtain ⟨fitsLeft, fitsRight, fewExact⟩ := List.forall_mem_singleton.mp fits
  refine (apply_overflowsWhere fitsLeft fitsRight fewExact).congr ?_
  simp [ArithmeticStep.Overflows]

theorem chainFrom_overflowsBy (result : Value) (operands : List Operand) :
    OverflowsBy policy (Rule.chainFromArithmetic policy result operands)
      (Rule.chainFrom policy result operands) (chainFrom policy result operands) := by
  induction result, operands using Rule.chainFrom.induct with
  | case1 result => exact overflowsBy_nil _
  | case2 result only => exact overflowsBy_nil _
  | case3 result operator operand rest ih =>
    rw [Rule.chainFromArithmetic, Rule.chainFrom, chainFrom]
    refine overflowsBy_bind_lift fun symbol _ => ?_
    cases Operator.ofSymbol? symbol with
    | none => exact overflowsBy_nil _
    | some operator =>
      refine overflowsBy_bind_lift fun right _ => ?_
      exact (apply_overflowsBy operator policy result right).bind fun d _ => ih d

/-- **A chain** overflows by one of its operations. -/
theorem chain_overflowsBy (operands : List Operand) :
    OverflowsBy policy (Rule.chainArithmetic policy operands) (Rule.chain policy operands)
      (chain policy operands) := by
  cases operands with
  | nil => exact overflowsBy_nil _
  | cons first rest => exact overflowsBy_bind_lift fun value _ => chainFrom_overflowsBy value rest

/-- **A signed operand** overflows by its one operation.  A sign is an operator with zero on its
left, so it is the one operation that can overflow. -/
theorem signed_overflowsBy (sign operand : Operand) :
    OverflowsBy policy (Rule.signedArithmetic sign operand) (Rule.signed policy sign operand)
      (signed policy sign operand) := by
  -- Whichever operator the sign stands for, zero is on its left.
  have operation (operator : Operator) :
      OverflowsBy policy
        (stepsBehind operand.value fun value => [.operation operator (.ofInt 0) value])
        (operand.value >>= fun value => (operator.apply policy (.ofInt 0) value).map Value.decimal)
        (lift operand.value >>= fun value =>
          (apply operator policy (.ofInt 0) value).map Value.decimal) :=
    overflowsBy_bind_lift fun value _ =>
      (apply_overflowsBy operator policy (.ofInt 0) value).map Value.decimal
  refine overflowsBy_bind_lift fun symbol _ => ?_
  by_cases plus : symbol = "+"
  · subst plus
    exact operation .add
  by_cases minus : symbol = "-"
  · subst minus
    exact operation .subtract
  · simp only
    exact overflowsBy_nil _

/-- **Going through arguments is one step.** -/
theorem extremum_overflowsBy (wanted : Ordering) (values : List Value) :
    OverflowsBy policy [.extremum values] (Method.extremum wanted values)
      (extremum wanted values) := by
  intro fits
  refine (extremum_overflowsWhere wanted (List.forall_mem_singleton.mp fits)).congr ?_
  simp [ArithmeticStep.Overflows]

/-- A method that takes two arguments at least, called with some. -/
theorem atLeastTwo_overflowsBy (name : String) {values : List Value} {steps : List ArithmeticStep}
    {outcome : Except Fault Value} {bounded : Outcome Fault Value}
    (run : OverflowsBy policy steps outcome bounded) :
    OverflowsBy policy (if 2 ≤ values.length then steps else [])
      ((Arity.atLeast 2).validate name values.length >>= fun _ => outcome)
      (lift ((Arity.atLeast 2).validate name values.length) >>= fun _ => bounded) := by
  rw [Arity.validate]
  by_cases enough : 2 ≤ values.length
  · have admitted : (Arity.atLeast 2).admits values.length = true := decide_eq_true enough
    rw [if_pos enough, if_pos admitted]
    exact run
  · have refused : ¬ (Arity.atLeast 2).admits values.length = true := by
      simpa [Arity.admits] using enough
    rw [if_neg enough, if_neg refused]
    exact overflowsBy_nil _

/-- **A built-in method** overflows by going through its arguments, if it does.  Of the three
built-in methods only `min` and `max` do arithmetic, and any other name is not found with or without
bounds. -/
theorem invoke_overflowsBy (name : String) (values : List Value) :
    OverflowsBy policy
      (if (name = "min" ∨ name = "max") ∧ 2 ≤ values.length then [.extremum values] else [])
      (Registry.builtin.invoke name values) (invoke builtin name values) := by
  by_cases least : name = "min"
  · subst least
    simp only [true_or, true_and]
    exact atLeastTwo_overflowsBy "min" (extremum_overflowsBy .lt values)
  by_cases greatest : name = "max"
  · subst greatest
    simp only [or_true, true_and]
    exact atLeastTwo_overflowsBy "max" (extremum_overflowsBy .gt values)
  rw [if_neg (by simp [least, greatest])]
  by_cases contains : name = "stringContainsAny"
  · subst contains
    have silent := @atLeastTwo_overflowsBy policy "stringContainsAny" values _ _ _
      (overflowsBy_nil (Method.containsAny values))
    rwa [ite_self] at silent
  · have absent : Registry.builtin.get? name = none := by
      simp [Registry.builtin, Named.get?, List.lookup_cons, beq_eq_false_iff_ne.mpr least,
        beq_eq_false_iff_ne.mpr greatest, beq_eq_false_iff_ne.mpr contains]
    have absent' : builtin.get? name = none := by
      simp [builtin, Named.get?, List.lookup_cons, beq_eq_false_iff_ne.mpr least,
        beq_eq_false_iff_ne.mpr greatest, beq_eq_false_iff_ne.mpr contains]
    rw [Registry.invoke, absent, invoke, absent']
    exact overflowsBy_nil _

/-- **The rule of a kind** overflows by a step of its arithmetic.  One case for each kind: chains,
signs, calls and number literals do arithmetic, and the rest is taken over. -/
theorem rule_overflowsBy (bindings : Named Value) (policy : Policy) (kind : Kind) (text : String)
    (operands : List Operand) :
    OverflowsBy policy (Rule.arithmetic policy kind text operands)
      (DecimalExpression.rule ⟨bindings, policy, .builtin⟩ kind text operands)
      (rule ⟨bindings, policy, builtin⟩ kind text operands) := by
  cases kind with
  | additive | multiplicative => exact chain_overflowsBy operands
  | signed =>
    match operands with
    | [sign, operand] => exact signed_overflowsBy sign operand
    | [] | [_] | _ :: _ :: _ :: _ => exact overflowsBy_nil _
  | call =>
    cases operands with
    | nil => exact overflowsBy_nil _
    | cons name arguments =>
      refine overflowsBy_bind_lift fun name _ => ?_
      exact overflowsBy_bind_lift fun values _ => invoke_overflowsBy name values
  | number =>
    intro _
    have literal := (ofNumeral_overflowsWhere text).mapError Fault.ofArithmetic
    have same : DecimalExpression.rule ⟨bindings, policy, .builtin⟩ .number text operands
        = ((Decimal.ofNumeral text).mapError Fault.ofArithmetic).map .decimal := by
      rw [DecimalExpression.rule]
      cases Decimal.ofNumeral text <;> rfl
    rw [same]
    refine (literal.map Value.decimal).congr ?_
    simp [Rule.arithmetic, ArithmeticStep.Overflows]
  | _ => exact overflowsBy_nil _

end Rules

/-! ## 3. Forcing

Forcing is compared by induction on the index, as in `DecimalExpression.Proofs.Evaluation.Driver`,
with one thing more to carry: the list of steps.  The table in front of a node has to agree with the
terms, since the steps of the node are read off its term. -/

open Forest (Agrees)

variable {f : Forest} {bindings : Named Value} {policy : Policy} {before middle : Values} {i : Nat}

/-- The value of a node is entered, or what halts its rule is named. -/
def enter (f : Forest) (env : Environment) (i : Nat) (h : i < f.size) (values : Values) :
    Outcome Fault Values :=
  match calculate f env values i h with
  | .ok value => .ok (values.fill i value)
  | .error halt => .error (halt.map (Fault.within (f.node i h).text))

theorem force_of_known {env : Environment} (h : i < f.size) {v : Value}
    (known : before.get? i = some v) : force f env before i h = .ok before := by
  rw [force, known]

theorem force_of_unknown {env : Environment} (h : i < f.size) (unknown : before.get? i = none) :
    force f env before i h
      = (f.plan i h).run (fun values c => force f env values c.val (f.child_lt c h)) before
        >>= enter f env i h := by
  rw [force, unknown]
  rfl

/-- **Entering the value of a node** overflows by the arithmetic of its term, where the table covers
the operands of the term. -/
theorem enter_overflowsBy (h : i < f.size) {found : List Operand}
    (evaluated : (f.unfold i h).operands ⟨bindings, policy, .builtin⟩ = .ok found)
    (covers : List.Forall₂ Operand.Covers (f.operands middle i h) found) :
    OverflowsBy policy ((f.unfold i h).arithmetic ⟨bindings, policy, .builtin⟩)
      (f.enter ⟨bindings, policy, .builtin⟩ i h middle)
      (enter f ⟨bindings, policy, builtin⟩ i h middle) := by
  have own := rule_overflowsBy bindings policy (f.node i h).kind (f.node i h).text
    (f.operands middle i h)
  have entered := (own.mapError (Fault.within (f.node i h).text)).map (middle.fill i)
  rw [Term.arithmetic_eq evaluated covers, Forest.kind_unfold, Forest.text_unfold]
  rw [Forest.enter, enter, Forest.calculate, calculate]
  generalize DecimalExpression.rule _ _ _ _ = outcome at entered ⊢
  generalize rule _ _ _ _ = bounded at entered ⊢
  cases outcome <;> cases bounded <;> exact entered

/-- **Carrying out a plan** overflows by the arithmetic of its events, if forcing each child
does. -/
theorem run_plan_overflowsBy {n : Nat} (f : Forest) (env : DecimalExpression.Environment)
    (child : Values → Fin n → Traced Values) (child' : Values → Fin n → Outcome Fault Values)
    (each : ∀ (values : Values) (c : Fin n), Agrees f env values →
      OverflowsBy policy (f.arithmeticOf env (child values c).events) (child values c).outcome
        (child' values c))
    (keeps : ∀ (values after : Values) (c : Fin n), Agrees f env values →
      (child values c).outcome = .ok after → Agrees f env after)
    (plan : Plan n) : ∀ before : Values, Agrees f env before →
      OverflowsBy policy (f.arithmeticOf env (plan.run child before).events)
        (plan.run child before).outcome (plan.run child' before) := by
  induction plan with
  | done => exact fun before _ => overflowsBy_nil _
  | force c next ih =>
    intro before agrees
    rw [Plan.run, Plan.run, Traced.outcome_bind, Forest.arithmeticOf_bind]
    refine (each before c agrees).bind fun after forced => ?_
    exact ih _ after (keeps before after c agrees forced)

/-- **The arithmetic of forcing a node** is that of its children, and then that of its own rule. -/
theorem arithmeticOf_trace {env : DecimalExpression.Environment} (h : i < f.size)
    (unknown : before.get? i = none) :
    f.arithmeticOf env (f.trace env before i h).events
      = f.arithmeticOf env (f.traceChildren env before i h).events
        ++ stepsBehind (f.forceDemanded env before i h) fun _ => (f.unfold i h).arithmetic env := by
  rw [← Forest.outcome_traceChildren]
  cases forced : (f.traceChildren env before i h).outcome with
  | error fault =>
    rw [Forest.trace_of_failed h unknown forced]
    simp [Forest.arithmeticOf, Forest.eventArithmetic, stepsBehind]
  | ok middle =>
    cases value : f.calculate env middle i h with
    | error fault =>
      rw [Forest.trace_of_fault h unknown forced value]
      simp [Forest.arithmeticOf, Forest.eventArithmetic, stepsBehind, h]
    | ok v =>
      rw [Forest.trace_of_value h unknown forced value]
      simp [Forest.arithmeticOf, Forest.eventArithmetic, stepsBehind, h]

/-- **Forcing a node** overflows by the arithmetic of its events.  By induction on the index: the
children are forced first, and then the node's own rule is applied. -/
theorem force_overflowsBy (i : Nat) (h : i < f.size) : ∀ before : Values,
    Agrees f ⟨bindings, policy, .builtin⟩ before →
      OverflowsBy policy
        (f.arithmeticOf ⟨bindings, policy, .builtin⟩
          (f.trace ⟨bindings, policy, .builtin⟩ before i h).events)
        (f.force ⟨bindings, policy, .builtin⟩ before i h)
        (force f ⟨bindings, policy, builtin⟩ before i h) := by
  induction i using Nat.strongRecOn with
  | ind i ih =>
    intro before agrees
    cases known : before.get? i with
    | some v =>
      rw [Forest.trace_of_known h known, Forest.force_of_known h known, force_of_known h known]
      exact overflowsBy_nil _
    | none =>
      have children := run_plan_overflowsBy f ⟨bindings, policy, .builtin⟩
        (fun values (c : Fin i) => f.trace _ values c.val (f.child_lt c h))
        (fun values c => force f ⟨bindings, policy, builtin⟩ values c.val (f.child_lt c h))
        (fun values c agrees => by
          rw [Forest.outcome_trace]
          exact ih c.val c.isLt (f.child_lt c h) values agrees)
        (fun values after c agrees forced =>
          (Forest.agrees_of_outcome_trace (f.child_lt c h) agrees forced).1)
        (f.plan i h) before agrees
      change OverflowsBy policy (f.arithmeticOf _ (f.traceChildren _ before i h).events)
        (f.traceChildren _ before i h).outcome _ at children
      rw [Forest.outcome_traceChildren] at children
      rw [Forest.force_of_unknown h known, force_of_unknown h known, arithmeticOf_trace h known]
      refine children.bind fun middle forced => ?_
      have demanded := Forest.forceDemanded_spec h
        (fun values c agrees => Forest.force_spec c.val (f.child_lt c h) values agrees) agrees
      rw [forced] at demanded
      obtain ⟨-, -, found, evaluated, covers⟩ := demanded
      exact enter_overflowsBy h evaluated covers

/-! ## 4. Whole runs

The roots are forced, and then the chain of the roots is one more rule. -/

/-- The roots in the table do the arithmetic of the terms. -/
theorem rootArithmetic_eq (f : Forest) (env : DecimalExpression.Environment) :
    f.rootArithmetic env
      = stepsBehind (f.forceRoots env) fun values =>
          Rule.chainArithmetic env.policy (f.rootOperands values) := by
  have demanded := Forest.forceRoots_spec f env
  rw [Forest.rootArithmetic]
  cases forced : f.forceRoots env with
  | error fault =>
    rw [forced] at demanded
    have failed : f.terms.mapM (Term.evaluating env) = .error fault := demanded
    rw [failed]
    rfl
  | ok values =>
    rw [forced] at demanded
    obtain ⟨-, -, found, evaluated, covers⟩ := demanded
    rw [evaluated]
    exact (Rule.chainArithmetic_of_covers covers (Term.known_of_mapM_evaluating evaluated)).symm

/-- A single root is passed on, and nothing is calculated. -/
theorem chainArithmetic_single (policy : Policy) (only : Operand) :
    Rule.chainArithmetic policy [only] = [] := by
  rw [Rule.chainArithmetic]
  cases only.value <;> rfl

/-- **A run overflows by a step of its arithmetic**, and by nothing else; where no step overflows,
it has the outcome of the run without bounds. -/
theorem run_overflowsBy (f : Forest) (bindings : Named Value) (policy : Policy) :
    OverflowsBy policy (f.arithmetic ⟨bindings, policy, .builtin⟩)
      (f.run ⟨bindings, policy, .builtin⟩) (run f ⟨bindings, policy, builtin⟩) := by
  have roots := run_plan_overflowsBy f ⟨bindings, policy, .builtin⟩
    (fun values (r : Fin f.size) => f.trace _ values r.val (f.root_lt r))
    (fun values r => force f ⟨bindings, policy, builtin⟩ values r.val (f.root_lt r))
    (fun values r agrees => by
      rw [Forest.outcome_trace]
      exact force_overflowsBy r.val (f.root_lt r) values agrees)
    (fun values after r agrees forced =>
      (Forest.agrees_of_outcome_trace (f.root_lt r) agrees forced).1)
    (.all f.rootNodes) (.start f.size) (Forest.agrees_start f _)
  change OverflowsBy policy (f.arithmeticOf _ (f.traceRoots _).events) (f.traceRoots _).outcome
    (forceRoots f _) at roots
  rw [Forest.outcome_traceRoots] at roots
  rw [Forest.arithmetic, rootArithmetic_eq, Forest.run, run]
  refine roots.bind fun values _ => ?_
  rcases f.rootOperands values with - | ⟨first, - | ⟨second, rest⟩⟩
  · exact overflowsBy_nil _
  · rw [chainArithmetic_single]
    exact overflowsBy_nil _
  · have chain := (@chain_overflowsBy policy (first :: second :: rest)).mapError
      (Fault.within f.title)
    dsimp only
    generalize Rule.chain policy (first :: second :: rest) = outcome at chain ⊢
    generalize Bounded.chain policy (first :: second :: rest) = bounded at chain ⊢
    cases outcome <;> cases bounded <;> exact chain

/-- **The first root is always forced**, and where its operands have values, its rule is applied.
So the arithmetic of its term is among that of the run. -/
theorem arithmetic_subset_of_first {env : DecimalExpression.Environment} {t : Term}
    {others : List Term} (terms : f.terms = t :: others) : t.arithmetic env ⊆ f.arithmetic env := by
  intro step own
  obtain ⟨found, evaluated, -⟩ := mem_stepsBehind.mp own
  obtain ⟨r, rest, roots, rfl, -⟩ := List.map_eq_cons_iff.mp terms
  have demanded := Forest.forceDemanded_spec (f.root_lt r)
    (fun values c agrees => Forest.force_spec c.val (f.child_lt c (f.root_lt r)) values agrees)
    (Forest.agrees_start f env)
  obtain ⟨after, forced⟩ :
      ∃ after, f.forceDemanded env (.start f.size) r.val (f.root_lt r) = .ok after := by
    cases forced : f.forceDemanded env (.start f.size) r.val (f.root_lt r) with
    | ok after => exact ⟨after, rfl⟩
    | error fault =>
      rw [forced] at demanded
      cases evaluated.symm.trans demanded
  rw [Forest.arithmetic, Forest.traceRoots, roots, Plan.all, Plan.run, Forest.arithmeticOf_bind,
    arithmeticOf_trace (f.root_lt r) (Values.get?_start f.size r.val), forced, stepsBehind]
  simp only [List.mem_append]
  exact .inl (.inl (.inr own))

end Bounded
end DecimalExpression
