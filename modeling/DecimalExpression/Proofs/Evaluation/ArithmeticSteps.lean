import DecimalExpression.Proofs.Evaluation.BoundedExtrema
import DecimalExpression.Proofs.Evaluation.Influence

/-!
# The arithmetic of a run

Four things in a run come to decimal arithmetic: a number literal is read, an operator of a chain is
applied, a sign is applied, and `min` or `max` goes through its arguments.  Which of these a rule
does, and on which values, follows from its operands (`Rule.arithmetic`), and so the arithmetic of a
whole run can be listed (`Forest.arithmetic`): that of the rules it applies, and that of the chain
of its roots.

The list is made from the run without bounds.  Whether a run with bounded scales overflows can be
read off it, step by step, and that is done elsewhere; here it is said what a step needs for that
(`ArithmeticStep.Fits`) and what overflows (`ArithmeticStep.Overflows`).
-/

namespace DecimalExpression

/-- **A step of decimal arithmetic.** -/
inductive ArithmeticStep where
  /-- a number literal is read -/
  | literal (text : String)
  /-- an operator is applied to two values -/
  | operation (operator : Operator) (left right : Value)
  /-- `min` or `max` goes through its arguments -/
  | extremum (arguments : List Value)

namespace ArithmeticStep

/-- **A step overflows** with bounded scales. -/
def Overflows (policy : Policy) : ArithmeticStep → Prop
  | literal text => ∃ d, Decimal.read text = .ok d ∧ d.scale = leastWord
  | operation operator left right => Bounded.Overflows operator policy left right
  | extremum arguments => Bounded.MeetsLeast arguments

/-- **A step that there can be**: the scales of its values are integers of 64 bits, and what it
adds, subtracts, multiplies or divides has fewer digits than half of these integers, the exact
result included. -/
def Fits : ArithmeticStep → Prop
  | literal _ => True
  | operation operator left right => left.Fits ∧ right.Fits ∧
    ∀ a b e, left.toDecimal = .ok a → right.toDecimal = .ok b →
      operator.exactResult? a b = some e → e.digitCount < 2 ^ 62
  | extremum arguments => ∀ v ∈ arguments, v.ScaleFits

end ArithmeticStep

/-! ## 1. The arithmetic of a rule

The steps of a rule are listed from its operands, in the order in which the rule does them.  A list
is needed rather than a condition, because a step behind one that fails is not done; so the list of
a chain goes on only behind a result. -/

section Behind

variable {Cause α : Type} {outcome : Except Cause α} {next : α → List ArithmeticStep}

/-- The steps behind an outcome; there are none behind a fault. -/
def stepsBehind (outcome : Except Cause α) (next : α → List ArithmeticStep) : List ArithmeticStep :=
  match outcome with
  | .ok a => next a
  | .error _ => []

theorem mem_stepsBehind {step : ArithmeticStep} :
    step ∈ stepsBehind outcome next ↔ ∃ a, outcome = .ok a ∧ step ∈ next a := by
  cases outcome with
  | error cause => simp [stepsBehind]
  | ok a => simp [stepsBehind]

end Behind

namespace Rule

/-- The operators behind a result, one after another, each applied to the result so far. -/
def chainFromArithmetic (policy : Policy) (result : Value) : List Operand → List ArithmeticStep
  | operator :: operand :: rest =>
    stepsBehind operator.symbol fun symbol =>
      match Operator.ofSymbol? symbol with
      | none => []
      | some operator =>
        stepsBehind operand.value fun right =>
          .operation operator result right ::
            stepsBehind (operator.apply policy result right) fun result =>
              chainFromArithmetic policy (.decimal result) rest
  | _ => []

/-- A chain begins with its first operand. -/
def chainArithmetic (policy : Policy) : List Operand → List ArithmeticStep
  | [] => []
  | first :: rest => stepsBehind first.value fun value => chainFromArithmetic policy value rest

/-- A sign is an operator with zero on its left. -/
def signedArithmetic (sign operand : Operand) : List ArithmeticStep :=
  stepsBehind sign.symbol fun symbol =>
    match symbol with
    | "+" => stepsBehind operand.value fun value => [.operation .add (.ofInt 0) value]
    | "-" => stepsBehind operand.value fun value => [.operation .subtract (.ofInt 0) value]
    | _ => []

/-- A call goes through its arguments where it is one of `min` or `max`, and has enough of them. -/
def callArithmetic (name : Operand) (arguments : List Operand) : List ArithmeticStep :=
  stepsBehind name.symbol fun name =>
    stepsBehind (arguments.mapM Operand.value) fun values =>
      if (name = "min" ∨ name = "max") ∧ 2 ≤ values.length then [.extremum values] else []

/-- **The arithmetic of a rule**, from its operands. -/
def arithmetic (policy : Policy) (kind : Kind) (text : String) (operands : List Operand) :
    List ArithmeticStep :=
  match kind, operands with
  | .additive, operands | .multiplicative, operands => chainArithmetic policy operands
  | .signed, [sign, operand] => signedArithmetic sign operand
  | .call, name :: arguments => callArithmetic name arguments
  | .number, _ => [.literal text]
  | _, _ => []

end Rule

/-! ## 2. The arithmetic of a run

The steps of a run are those of the rules that it applies, found through the events of the run, and
those of the chain of its roots.  Two readings of an event have to agree for this to be sensible, by
the operands in the table and by those of the term; the list is made from the term. -/

/-- **The arithmetic of a term's own rule**, if the operands that it demands have values. -/
def Term.arithmetic (env : Environment) (t : Term) : List ArithmeticStep :=
  stepsBehind (t.operands env) (Rule.arithmetic env.policy t.kind t.text)

namespace Forest

/-- The arithmetic of an event: where the rule of a node is applied, that of its term. -/
def eventArithmetic (f : Forest) (env : Environment) : Event → List ArithmeticStep
  | .apply i => if h : i < f.size then (f.unfold i h).arithmetic env else []
  | .call _ | .fill _ _ | .done _ => []

/-- The arithmetic of some events, in their order. -/
def arithmeticOf (f : Forest) (env : Environment) (events : List Event) : List ArithmeticStep :=
  events.flatMap (f.eventArithmetic env)

/-- The arithmetic of the chain of the roots. -/
def rootArithmetic (f : Forest) (env : Environment) : List ArithmeticStep :=
  stepsBehind (f.terms.mapM (Term.evaluating env)) (Rule.chainArithmetic env.policy)

/-- **The arithmetic of a run**: that of the rules it applies, and that of the chain of its
roots. -/
def arithmetic (f : Forest) (env : Environment) : List ArithmeticStep :=
  f.arithmeticOf env (f.traceRoots env).events ++ f.rootArithmetic env

end Forest

/-! ## 3. Operands that know more

The table may know more than a rule demands.  The kinds that do arithmetic demand all of their
operands, so for them there is nothing more to know, and the kinds with a demand of their own do no
arithmetic. -/

namespace Rule

open Operand

variable {policy : Policy} {more less : List Operand}

/-- An operand that knows what a known one knows has the same value. -/
theorem value_eq_of_covers {more less : Operand} (covers : Covers more less)
    (known : less.value? ≠ none) : more.value = less.value := by
  obtain ⟨v, value⟩ := Option.ne_none_iff_exists'.mp known
  rw [Operand.value, Operand.value, value, covers.value v value]

theorem values_eq_of_covers (covers : List.Forall₂ Covers more less)
    (known : ∀ o ∈ less, o.value? ≠ none) :
    more.mapM Operand.value = less.mapM Operand.value := by
  induction covers with
  | nil => rfl
  | cons first _ ih =>
    obtain ⟨here, later⟩ := List.forall_mem_cons.mp known
    rw [List.mapM_cons, List.mapM_cons, value_eq_of_covers first here, ih later]

theorem chainFromArithmetic_of_covers {policy : Policy} {more less : List Operand} (result : Value)
    (covers : List.Forall₂ Covers more less) (known : ∀ o ∈ less, o.value? ≠ none) :
    chainFromArithmetic policy result more = chainFromArithmetic policy result less := by
  cases covers with
  | nil => rfl
  | cons first rest =>
    cases rest with
    | nil => rfl
    | cons second rest =>
      obtain ⟨-, atSecond, later⟩ : _ ∧ _ ∧ _ := by simpa only [List.forall_mem_cons] using known
      have behind (result : Value) :=
        @chainFromArithmetic_of_covers policy _ _ result rest later
      rw [chainFromArithmetic, chainFromArithmetic, first.symbol_eq,
        value_eq_of_covers second atSecond]
      simp only [behind]
termination_by less.length

theorem chainArithmetic_of_covers (covers : List.Forall₂ Covers more less)
    (known : ∀ o ∈ less, o.value? ≠ none) :
    chainArithmetic policy more = chainArithmetic policy less := by
  cases covers with
  | nil => rfl
  | cons first rest =>
    obtain ⟨here, later⟩ := List.forall_mem_cons.mp known
    rw [chainArithmetic, chainArithmetic, value_eq_of_covers first here]
    simp only [chainFromArithmetic_of_covers _ rest later]

/-- **The arithmetic of a rule stays the same** however much more its operands know, if they are all
known.  Only chains, signed operands and calls read their operands for it, and of these all values.
-/
theorem arithmetic_of_covers (kind : Kind) (text : String) (covers : List.Forall₂ Covers more less)
    (known : ∀ o ∈ less, o.value? ≠ none) :
    arithmetic policy kind text more = arithmetic policy kind text less := by
  cases kind with
  | additive | multiplicative => exact chainArithmetic_of_covers covers known
  | signed =>
    cases covers with
    | nil => rfl
    | cons first rest =>
      cases rest with
      | nil => rfl
      | cons second rest =>
        cases rest with
        | nil =>
          have value := value_eq_of_covers second (known _ (by simp))
          simp only [arithmetic, signedArithmetic, first.symbol_eq, value]
        | cons _ _ => rfl
  | call =>
    cases covers with
    | nil => rfl
    | cons first rest =>
      have values := values_eq_of_covers rest (List.forall_mem_cons.mp known).2
      simp only [arithmetic, callArithmetic, first.symbol_eq, values]
  | _ => rfl

/-- A kind with a demand of its own does no arithmetic. -/
theorem arithmetic_of_selective {kind : Kind} (text : String) (operands : List Operand)
    (selective : kind = .conditional ∨ kind = .conjunction ∨ kind = .disjunction) :
    arithmetic policy kind text operands = [] := by
  rcases selective with rfl | rfl | rfl <;> rfl

end Rule

/-- **A term's rule does the same arithmetic** on operands that know more than the term demands. -/
theorem Term.arithmetic_eq {env : Environment} {t : Term} {more found : List Operand}
    (evaluated : t.operands env = .ok found) (covers : List.Forall₂ Operand.Covers more found) :
    t.arithmetic env = Rule.arithmetic env.policy t.kind t.text more := by
  rw [Term.arithmetic, evaluated, stepsBehind]
  by_cases selective : Term.IsSelective t.kind t.children.length
  · rw [Rule.arithmetic_of_selective t.text found selective.2,
      Rule.arithmetic_of_selective t.text more selective.2]
  · rw [Term.operands_of_not_selective selective] at evaluated
    exact (Rule.arithmetic_of_covers _ _ covers (Term.known_of_mapM_evaluating evaluated)).symm

/-! ## 4. Where a run does arithmetic

Where in a forest the steps of a run come from.  A rule is applied behind the call of its node, and
nodes that are called on are ones that evaluation comes to; so a step belongs to such a node, or to
the roots. -/

namespace Forest

variable {f : Forest} {env : Environment} {step : ArithmeticStep} {events events' : List Event}

theorem arithmeticOf_append :
    f.arithmeticOf env (events ++ events')
      = f.arithmeticOf env events ++ f.arithmeticOf env events' :=
  List.flatMap_append

/-- **The arithmetic of a sequence** is that of its first part, and that of what follows it. -/
theorem arithmeticOf_bind {α β : Type} (x : Traced α) (next : α → Traced β) :
    f.arithmeticOf env (x >>= next).events
      = f.arithmeticOf env x.events
        ++ stepsBehind x.outcome fun a => f.arithmeticOf env (next a).events := by
  cases outcome : x.outcome with
  | error fault => rw [Traced.bind_of_error outcome, stepsBehind, List.append_nil]
  | ok a => rw [Traced.bind_of_ok outcome, arithmeticOf_append, stepsBehind]

/-- What is said of the events of each child is said of those of a plan. -/
theorem forall_events_run {P : List Event → Prop} (nil : P [])
    (append : ∀ {events events'}, P events → P events' → P (events ++ events')) {n : Nat}
    {child : Values → Fin n → Traced Values} (each : ∀ values c, P (child values c).events)
    (plan : Plan n) : ∀ before, P (plan.run child before).events := by
  induction plan with
  | done => exact fun _ => nil
  | force c next ih =>
    intro before
    rw [Plan.run]
    cases outcome : (child before c).outcome with
    | error fault =>
      rw [Traced.bind_of_error outcome]
      exact each before c
    | ok after =>
      rw [Traced.bind_of_ok outcome]
      exact append (each before c) (ih _ after)

/-- A rule is applied only after its node was called on. -/
def CallsFirst (events : List Event) : Prop := ∀ j, Event.apply j ∈ events → j ∈ called events

theorem CallsFirst.append (first : CallsFirst events) (second : CallsFirst events') :
    CallsFirst (events ++ events') := by
  intro j applied
  rw [called_append, List.mem_append]
  exact (List.mem_append.mp applied).imp (first j) (second j)

/-- A rule is applied behind the call of its own node or inside the trace of a child, by induction
on the index. -/
theorem callsFirst_trace (i : Nat) (h : i < f.size) : ∀ before : Values,
    CallsFirst (f.trace env before i h).events := by
  induction i using Nat.strongRecOn with
  | ind i ih =>
    intro before j applied
    cases known : before.get? i with
    | some v =>
      rw [trace_of_known h known] at applied
      simp at applied
    | none =>
      have children : CallsFirst (f.traceChildren env before i h).events :=
        forall_events_run (fun j applied => by cases applied) CallsFirst.append
          (fun values c => ih c.val c.isLt (f.child_lt c h) values) (f.plan i h) before
      rw [called_trace env h known, List.mem_cons]
      cases forced : (f.traceChildren env before i h).outcome with
      | error fault =>
        rw [trace_of_failed h known forced] at applied
        exact .inr (children j (by simpa using applied))
      | ok middle =>
        cases value : f.calculate env middle i h with
        | error fault =>
          rw [trace_of_fault h known forced value] at applied
          simp only [List.mem_cons, List.mem_append, List.not_mem_nil, reduceCtorEq, false_or,
            or_false, Event.apply.injEq] at applied
          exact applied.symm.imp id (children j)
        | ok v =>
          rw [trace_of_value h known forced value] at applied
          simp only [List.mem_cons, List.mem_append, List.not_mem_nil, reduceCtorEq, false_or,
            or_false, Event.apply.injEq] at applied
          exact applied.symm.imp id (children j)

/-- **A run does arithmetic at nodes only that evaluation comes to**, and at its roots. -/
theorem exists_of_mem_arithmetic (member : step ∈ f.arithmetic env) :
    (∃ (i : Nat) (h : i < f.size), f.Taken env i ∧ step ∈ (f.unfold i h).arithmetic env) ∨
      step ∈ f.rootArithmetic env := by
  refine (List.mem_append.mp member).imp (fun inRules => ?_) id
  obtain ⟨event, happened, own⟩ := List.mem_flatMap.mp inRules
  cases event with
  | call | fill | done => cases own
  | apply i =>
    rw [eventArithmetic] at own
    split at own
    · rename_i h
      have calls : CallsFirst (f.traceRoots env).events :=
        forall_events_run (fun j applied => by cases applied) CallsFirst.append
          (fun values r => callsFirst_trace r.val (f.root_lt r) values) _ _
      exact ⟨i, h, taken_of_forced (calls i happened), own⟩
    · cases own

end Forest
end DecimalExpression
