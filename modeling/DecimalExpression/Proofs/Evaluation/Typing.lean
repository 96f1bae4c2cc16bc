import DecimalExpression.Proofs.Evaluation.Agreement

/-!
# Well typed sources compute

Three types of values are told apart: decimals, truth values and texts; null has none.  The rules
give types to the terms of a collapsed forest (`Term.HasType`) and to the forest (`Forest.HasType`).

A well typed source computes under every policy: evaluating it with the built-in methods gives a
value of its type, or fails in arithmetic (`Forest.evaluate_computes`).  No value is of a wrong type
or missing, every method is there and takes as many arguments as it gets, and nothing is internal.

Each operation has a lemma that says so of values, and an induction on the typing puts them
together.  The texts of operators and of quoted texts are no business of types.  They are right
because the collapsed form of a source is shaped (`Term.Shaped`).
-/

namespace DecimalExpression

open Interpreter

/-! ## 1. Types

The types are assigned to collapsed terms, so there is no rule for a layer.  A reference has the
type of what is bound to it, and a call of one of the built-in methods the type of its results; null
has no type, which is why a reference has to be bound. -/

/-- **The type of a value** that is there. -/
inductive ValueType where
  | decimal
  | boolean
  | text
deriving DecidableEq, Repr

/-- **The type of a value.**  Null has none. -/
def Value.type? : Value → Option ValueType
  | .null => none
  | .bool _ => some .boolean
  | .decimal _ => some .decimal
  | .text _ => some .text

namespace Value

variable {v w : Value} {τ : ValueType}

theorem exists_decimal (typed : v.type? = some .decimal) : ∃ number, v = .decimal number := by
  cases v with
  | decimal number => exact ⟨number, rfl⟩
  | null | bool | text => cases typed

theorem exists_bool (typed : v.type? = some .boolean) : ∃ truth, v = .bool truth := by
  cases v with
  | bool truth => exact ⟨truth, rfl⟩
  | null | decimal | text => cases typed

/-- Values of one type have an order. -/
theorem exists_compare? (left : v.type? = some τ) (right : w.type? = some τ) :
    ∃ order, v.compare? w = some order := by
  cases v with
  | null => cases left
  | bool a =>
    cases left
    obtain ⟨b, rfl⟩ := exists_bool right
    exact ⟨_, rfl⟩
  | decimal a =>
    cases left
    obtain ⟨b, rfl⟩ := exists_decimal right
    exact ⟨_, rfl⟩
  | text a =>
    cases left
    cases w with
    | text b => exact ⟨_, rfl⟩
    | null | bool | decimal => cases right

end Value

/-- **The types of terms** under bindings. -/
inductive Term.HasType (bindings : Named Value) : Term → ValueType → Prop
  | number (slice : String) : HasType bindings (leaf .number slice) .decimal
  | text (slice : String) : HasType bindings (leaf .text slice) .text
  | reference {slice : String} (v : Value) {τ : ValueType} (bound : bindings.get? slice = some v)
    (typed : v.type? = some τ) : HasType bindings (leaf .reference slice) τ
  | group (slice : String) {body : Term} {τ : ValueType} (below : HasType bindings body τ) :
    HasType bindings ⟨.group, slice, [body]⟩ τ
  | chain {kind : Kind} (flat : isChain kind) (slice : String) {first : Term}
    (rest : List (String × Term)) (atFirst : HasType bindings first .decimal)
    (atRest : ∀ link ∈ rest, HasType bindings link.2 .decimal) :
    HasType bindings ⟨kind, slice, first :: links rest⟩ .decimal
  | signed (slice sign : String) {operand : Term} (below : HasType bindings operand .decimal) :
    HasType bindings ⟨.signed, slice, [leaf .symbol sign, operand]⟩ .decimal
  | relation (slice operator : String) {left right : Term} {τ : ValueType}
    (atLeft : HasType bindings left τ) (atRight : HasType bindings right τ) :
    HasType bindings ⟨.relational, slice, [left, leaf .symbol operator, right]⟩ .boolean
  | equality (slice operator : String) {left right : Term} {σ τ : ValueType}
    (atLeft : HasType bindings left σ) (atRight : HasType bindings right τ) :
    HasType bindings ⟨.equality, slice, [left, leaf .symbol operator, right]⟩ .boolean
  | connective {kind : Kind} (connects : kind = .disjunction ∨ kind = .conjunction)
    (slice operator : String) {left right : Term} (atLeft : HasType bindings left .boolean)
    (atRight : HasType bindings right .boolean) :
    HasType bindings ⟨kind, slice, [left, leaf .symbol operator, right]⟩ .boolean
  | choice (slice : String) {condition consequent alternative : Term} {τ : ValueType}
    (atCondition : HasType bindings condition .boolean)
    (atConsequent : HasType bindings consequent τ)
    (atAlternative : HasType bindings alternative τ) :
    HasType bindings ⟨.conditional, slice, [condition, consequent, alternative]⟩ τ
  | extremum (slice : String) {name : String} (named : name = "min" ∨ name = "max")
    {arguments : List Term} (several : 2 ≤ arguments.length)
    (each : ∀ a ∈ arguments, HasType bindings a .decimal) :
    HasType bindings ⟨.call, slice, leaf .symbol name :: arguments⟩ .decimal
  | containsAny (slice : String) {arguments : List Term} (several : 2 ≤ arguments.length)
    (types : Term → ValueType) (each : ∀ a ∈ arguments, HasType bindings a (types a)) :
    HasType bindings ⟨.call, slice, leaf .symbol "stringContainsAny" :: arguments⟩ .boolean

/-- **The types of forests**: that of the only root, or of a sum of decimals. -/
inductive Forest.HasType (bindings : Named Value) (f : Forest) : ValueType → Prop
  | single {t : Term} {τ : ValueType} (terms : f.terms = [t]) (typed : t.HasType bindings τ) :
    HasType bindings f τ
  | sum {first : Term} {rest : List (String × Term)} (terms : f.terms = first :: Term.links rest)
    (atFirst : first.HasType bindings .decimal)
    (atRest : ∀ link ∈ rest, link.2.HasType bindings .decimal) : HasType bindings f .decimal

/-! ## 2. Outcomes

All that is claimed of a typed term is that its outcome is good or a failure in arithmetic.  This is
a property of outcomes that sequences keep, so each rule is shown to have it by following its
steps. -/

/-- **A computation that cannot go wrong otherwise**: it has a result, which is good, or it fails in
arithmetic. -/
def Computes {α : Type} (good : α → Prop) (outcome : Except Fault α) : Prop :=
  (∃ a, outcome = .ok a ∧ good a) ∨ ∃ cause slice, outcome = .error (.arithmetic cause slice)

/-- An outcome that is a value of a type, or a failure in arithmetic. -/
abbrev ComputesType (τ : ValueType) : Except Fault Value → Prop :=
  Computes fun v => v.type? = some τ

section Outcomes

variable {α β : Type} {good : α → Prop} {outcome : Except Fault α}

theorem computes_ok {a : α} (h : good a) : Computes good (.ok a) := .inl ⟨a, rfl, h⟩

theorem computes_arithmetic (cause : ArithmeticFault) (slice : String) :
    Computes good (.error (.arithmetic cause slice)) := .inr ⟨cause, slice, rfl⟩

theorem Computes.bind {good' : β → Prop} {next : α → Except Fault β} (first : Computes good outcome)
    (second : ∀ a, good a → Computes good' (next a)) : Computes good' (outcome >>= next) := by
  rcases first with ⟨a, rfl, h⟩ | ⟨cause, slice, rfl⟩
  · exact second a h
  · exact computes_arithmetic cause slice

theorem Computes.map {good' : β → Prop} {g : α → β} (first : Computes good outcome)
    (second : ∀ a, good a → good' (g a)) : Computes good' (outcome.map g) := by
  rcases first with ⟨a, rfl, h⟩ | ⟨cause, slice, rfl⟩
  · exact computes_ok (second a h)
  · exact computes_arithmetic cause slice

/-- Naming the expression of a fault leaves it one of arithmetic. -/
theorem Computes.named (slice : String) (h : Computes good outcome) :
    Computes good (named slice outcome) := by
  rcases h with ⟨a, rfl, h⟩ | ⟨cause, known, rfl⟩
  · exact computes_ok h
  · exact computes_arithmetic cause _

/-- What arithmetic does with decimals fails in arithmetic alone. -/
theorem computes_ofArithmetic (outcome : Except ArithmeticFault α) :
    Computes (fun _ => True) (outcome.mapError Fault.ofArithmetic) := by
  cases outcome with
  | ok a => exact computes_ok trivial
  | error cause => exact computes_arithmetic cause ""

end Outcomes

/-! ## 3. Operations on values

The operations on values, once for each kind of operator.  Their symbols are not part of the types:
that an operator belongs to its kind is what the shape of the node says. -/

section Operations

variable {policy : Policy} {v w : Value} {τ : ValueType}

theorem computes_toDecimal (typed : v.type? = some .decimal) :
    Computes (fun _ => True) v.toDecimal := by
  obtain ⟨number, rfl⟩ := Value.exists_decimal typed
  exact computes_ofArithmetic number.checkScale

/-- **An operation on decimals** gives a decimal or fails in arithmetic. -/
theorem computes_apply (operator : Operator) (left : v.type? = some .decimal)
    (right : w.type? = some .decimal) : Computes (fun _ => True) (operator.apply policy v w) := by
  have notNull : ∀ {u : Value}, u.type? = some .decimal → ¬ u.isNull := by
    intro u typed
    obtain ⟨number, rfl⟩ := Value.exists_decimal typed
    exact nofun
  rw [Operator.apply, if_neg (notNull left), if_neg (notNull right)]
  refine (computes_toDecimal left).bind fun a _ => (computes_toDecimal right).bind fun b _ => ?_
  exact computes_ofArithmetic _

theorem computes_calculate {symbol : String} (arithmetic : Operator.ofSymbol? symbol ≠ none)
    (left : v.type? = some .decimal) (right : w.type? = some .decimal) :
    ComputesType .decimal (calculate policy v symbol w) := by
  rw [calculate]
  split
  · rename_i operator _
    exact (computes_apply operator left right).map fun number _ => rfl
  · rename_i unknown
    exact absurd unknown arithmetic

/-- **A chain of decimals.** -/
theorem computes_fold {links : List (String × Value)}
    (arithmetic : ∀ link ∈ links, Operator.ofSymbol? link.1 ≠ none)
    (typed : ∀ link ∈ links, link.2.type? = some .decimal) (first : v.type? = some .decimal) :
    ComputesType .decimal (fold policy v links) := by
  induction links generalizing v with
  | nil => exact computes_ok first
  | cons link links ih =>
    obtain ⟨known, moreKnown⟩ := List.forall_mem_cons.mp arithmetic
    obtain ⟨right, moreTyped⟩ := List.forall_mem_cons.mp typed
    rw [fold, List.foldlM_cons]
    exact (computes_calculate known first right).bind fun result typed =>
      ih moreKnown moreTyped typed

theorem computes_truth (role : Role) (typed : v.type? = some .boolean) :
    Computes (fun _ => True) (truth role v) := by
  obtain ⟨decided, rfl⟩ := Value.exists_bool typed
  exact computes_ok trivial

theorem computes_equality {symbol : String} (sign : symbol ∈ Kind.equality.operators)
    (v w : Value) : ComputesType .boolean (equality v symbol w) := by
  simp only [Kind.operators, List.mem_cons, List.not_mem_nil, or_false] at sign
  rcases sign with rfl | rfl <;> exact computes_ok rfl

/-- **A relation of two values of one type.** -/
theorem computes_relation {symbol : String} (sign : symbol ∈ Kind.relational.operators)
    (left : v.type? = some τ) (right : w.type? = some τ) :
    ComputesType .boolean (relation v symbol w) := by
  obtain ⟨order, compared⟩ := Value.exists_compare? left right
  simp only [Kind.operators, List.mem_cons, List.not_mem_nil, or_false] at sign
  rw [relation, compared]
  rcases sign with rfl | rfl | rfl | rfl <;> exact computes_ok rfl

theorem computes_literal (slice : String) : ComputesType .decimal (literal slice) := by
  rw [literal]
  cases Decimal.ofNumeral slice with
  | ok number => exact computes_ok rfl
  | error cause => exact computes_arithmetic cause ""

theorem computes_unquoted {slice : String} (quoted : Word.isQuoted slice.toList) :
    ComputesType .text (unquoted slice) := by
  rw [unquoted]
  split
  · exact computes_ok rfl
  · rename_i missing
    exact absurd missing (unquote?_ne_none quoted)

/-! ## 4. Methods

The built-in methods on values of their types.  With a decimal among the arguments `min` and `max`
have a result, so null does not come back in through them. -/

variable {values : List Value}

/-- **The best of some decimals** is there as soon as there is one. -/
theorem computes_extremumFrom (wanted : Ordering) {best : Option Decimal}
    (typed : ∀ v ∈ values, v.type? = some .decimal) (some : values = [] → best ≠ none) :
    Computes (fun found => found ≠ none) (Method.extremumFrom wanted best values) := by
  induction values generalizing best with
  | nil => exact computes_ok (some rfl)
  | cons v rest ih =>
    obtain ⟨here, later⟩ := List.forall_mem_cons.mp typed
    obtain ⟨number, rfl⟩ := Value.exists_decimal here
    rw [Method.extremumFrom]
    · exact (computes_toDecimal here).bind fun a _ =>
        ih later fun _ => Option.some_ne_none (Method.better wanted best a)
    · exact nofun

theorem computes_extremum (wanted : Ordering) (typed : ∀ v ∈ values, v.type? = some .decimal)
    (nonempty : values ≠ []) : ComputesType .decimal (Method.extremum wanted values) := by
  refine (computes_extremumFrom wanted typed fun empty => absurd empty nonempty).bind
    fun found present => ?_
  cases found with
  | none => exact absurd rfl present
  | some best => exact computes_ok rfl

theorem computes_containsAny (values : List Value) :
    ComputesType .boolean (Method.containsAny values) := by
  unfold Method.containsAny
  split <;> exact computes_ok rfl

/-- **A built-in method called with as many arguments as it takes** is run. -/
theorem invoke_builtin {name : String} (method : Method)
    (found : Registry.builtin.get? name = some method)
    (admits : method.arity.admits values.length) :
    Registry.builtin.invoke name values = method.run values := by
  rw [Registry.invoke, found]
  show (method.arity.validate name values.length >>= fun _ => method.run values) = _
  rw [Arity.validate, if_pos admits]
  rfl

end Operations

/-! ## 5. Terms

By induction on the typing.  The shape of a term gives what the types leave open, the operators of
its rows and the form of its texts, and the equations of
`DecimalExpression.Proofs.Evaluation.Shapes` turn evaluation into a sequence. -/

namespace Term

variable {bindings : Named Value} {env : Environment} {policy : Policy} {operators : List String}

/-- The operators of a chain are those that its shape admits. -/
theorem signs_of_interleaves {rest : List (String × Term)} :
    ∀ first : Term, interleaves operators ((first :: links rest).map label) →
      ∀ link ∈ rest, link.1 ∈ operators := by
  induction rest with
  | nil => exact fun _ => nofun
  | cons link rest ih =>
    intro first shape
    rw [links, List.map_cons, List.map_cons, interleaves, Bool.and_eq_true,
      Bool.and_eq_true] at shape
    obtain ⟨⟨-, sign⟩, more⟩ := shape
    exact List.forall_mem_cons.mpr ⟨(Label.isOperator_iff.mp sign).2, ih link.2 more⟩

theorem operand_mem_links {rest : List (String × Term)} {link : String × Term}
    (member : link ∈ rest) : link.2 ∈ links rest := by
  induction rest with
  | nil => cases member
  | cons other rest ih =>
    rw [links]
    rcases List.mem_cons.mp member with rfl | later
    · simp
    · simp [ih later]

theorem Shaped.signs_of_chain {kind : Kind} {slice : String} {first : Term}
    {rest : List (String × Term)} (flat : isChain kind)
    (shaped : Shaped ⟨kind, slice, first :: links rest⟩) :
    ∀ link ∈ rest, link.1 ∈ kind.operators := by
  have shape := shaped.shape
  refine signs_of_interleaves first ?_
  cases kind with
  | additive | multiplicative =>
    rw [hasShape, Bool.and_eq_true] at shape
    exact shape.2
  | _ => cases flat

/-- The operator between two operands is one of its kind. -/
theorem Shaped.sign_of_binary {kind : Kind} {slice operator : String} {left right : Term}
    (binary : kind ∈ [.disjunction, .conjunction, .equality, .relational])
    (shaped : Shaped ⟨kind, slice, [left, leaf .symbol operator, right]⟩) :
    operator ∈ kind.operators :=
  (Label.isOperator_iff.mp (isOperator_of_hasShape binary shaped.shape)).2

theorem Shaped.plain_of_signed {slice sign : String} {operand : Term}
    (shaped : Shaped ⟨.signed, slice, [leaf .symbol sign, operand]⟩) :
    sign = "+" ∨ sign = "-" := by
  have shape := shaped.shape
  simp only [List.map_cons, List.map_nil, hasShape, Bool.and_eq_true] at shape
  simpa [Kind.operators, label, leaf] using (Label.isOperator_iff.mp shape.1).2

/-- **The links of a chain of decimals** are operators and decimals. -/
theorem computes_evaluateLinks {rest : List (String × Term)}
    (signs : ∀ link ∈ rest, link.1 ∈ operators)
    (each : ∀ link ∈ rest, ComputesType .decimal (link.2.evaluate env)) :
    Computes (fun values => ∀ value ∈ values,
      value.1 ∈ operators ∧ value.2.type? = some .decimal) (evaluateLinks env rest) := by
  induction rest with
  | nil => exact computes_ok nofun
  | cons link rest ih =>
    obtain ⟨operator, operand⟩ := link
    obtain ⟨sign, moreSigns⟩ := List.forall_mem_cons.mp signs
    obtain ⟨here, later⟩ := List.forall_mem_cons.mp each
    rw [evaluateLinks_cons]
    refine here.bind fun v typed => (ih moreSigns later).bind fun values more => ?_
    exact computes_ok (List.forall_mem_cons.mpr ⟨⟨sign, typed⟩, more⟩)

/-- **A chain of decimals**, whatever its fault is named by. -/
theorem computes_chain {first : Term} {rest : List (String × Term)}
    (arithmetic : ∀ symbol ∈ operators, Operator.ofSymbol? symbol ≠ none)
    (signs : ∀ link ∈ rest, link.1 ∈ operators)
    (atFirst : ComputesType .decimal (first.evaluate env))
    (atRest : ∀ link ∈ rest, ComputesType .decimal (link.2.evaluate env)) (slice : String) :
    ComputesType .decimal (do
      let v ← first.evaluate env
      let values ← evaluateLinks env rest
      named slice (fold env.policy v values)) := by
  refine atFirst.bind fun v typed =>
    (computes_evaluateLinks signs atRest).bind fun values each => ?_
  exact (computes_fold (fun value member => arithmetic _ (each value member).1)
    (fun value member => (each value member).2) typed).named slice

/-- **Typed arguments** are as many values, each of the type of an argument. -/
theorem computes_arguments (types : Term → ValueType) {arguments : List Term}
    (each : ∀ a ∈ arguments, ComputesType (types a) (a.evaluate env)) :
    Computes (fun values => values.length = arguments.length ∧
      ∀ v ∈ values, ∃ a ∈ arguments, v.type? = some (types a)) (arguments.mapM (evaluate env)) := by
  induction arguments with
  | nil => exact computes_ok ⟨rfl, nofun⟩
  | cons a rest ih =>
    obtain ⟨here, later⟩ := List.forall_mem_cons.mp each
    rw [List.mapM_cons]
    refine here.bind fun v typed => (ih later).bind fun values more => computes_ok ⟨?_, ?_⟩
    · rw [List.length_cons, List.length_cons, more.1]
    · intro w member
      rcases List.mem_cons.mp member with rfl | among
      · exact ⟨a, List.mem_cons_self, typed⟩
      · obtain ⟨b, inside, same⟩ := more.2 w among
        exact ⟨b, List.mem_cons_of_mem a inside, same⟩

/-- **A typed term computes its type**, where operators and texts are as rules expect them.  By
induction on the typing, one rule for each way to have a type: if the operands give values of their
types, the rule gives one of its own, or arithmetic fails. -/
theorem HasType.computes {t : Term} {τ : ValueType} (typed : t.HasType bindings τ)
    (shaped : t.Shaped) : ComputesType τ (t.evaluate ⟨bindings, policy, .builtin⟩) := by
  induction typed with
  | number slice =>
    rw [evaluate_number]
    exact (computes_literal slice).named slice
  | text slice =>
    rw [evaluate_text]
    exact (computes_unquoted shaped.shape).named slice
  | @reference slice v τ bound typed =>
    rw [evaluate_reference, bound]
    exact computes_ok typed
  | group slice below ih =>
    rw [evaluate_layer rfl]
    exact ih (shaped.child (by simp))
  | @chain kind flat slice first rest atFirst atRest ihFirst ihRest =>
    have arithmetic : ∀ symbol ∈ kind.operators, Operator.ofSymbol? symbol ≠ none := by
      cases kind with
      | additive | multiplicative => decide
      | _ => cases flat
    rw [evaluate_chain flat]
    refine computes_chain arithmetic (shaped.signs_of_chain flat) (ihFirst (shaped.child (by simp)))
      (fun link member => ihRest link member (shaped.child ?_)) slice
    exact List.mem_cons_of_mem first (operand_mem_links member)
  | signed slice sign below ih =>
    have plain := shaped.plain_of_signed
    have arithmetic : Operator.ofSymbol? sign ≠ none := by
      rcases plain with rfl | rfl <;> decide
    rw [evaluate_signed plain]
    refine (ih (shaped.child (by simp))).bind fun v typed => ?_
    exact (computes_calculate arithmetic rfl typed).named slice
  | relation slice operator atLeft atRight ihLeft ihRight =>
    rw [evaluate_relation]
    refine (ihLeft (shaped.child (by simp))).bind fun v left =>
      (ihRight (shaped.child (by simp))).bind fun w right => ?_
    exact (computes_relation (shaped.sign_of_binary (by decide)) left right).named slice
  | equality slice operator atLeft atRight ihLeft ihRight =>
    rw [evaluate_equality]
    refine (ihLeft (shaped.child (by simp))).bind fun v _ =>
      (ihRight (shaped.child (by simp))).bind fun w _ => ?_
    exact (computes_equality (shaped.sign_of_binary (by decide)) v w).named slice
  | @connective kind connects slice operator left right atLeft atRight ihLeft ihRight =>
    have atLeft := ihLeft (shaped.child (by simp))
    have atRight := ihRight (shaped.child (by simp))
    have second : ComputesType .boolean (do
        return .bool (← named slice (truth .rightOperand
          (← right.evaluate ⟨bindings, policy, .builtin⟩)))) := by
      refine atRight.bind fun w typed => ?_
      exact ((computes_truth .rightOperand typed).named slice).bind fun _ _ => computes_ok rfl
    rcases connects with rfl | rfl
    · obtain rfl := List.mem_singleton.mp (shaped.sign_of_binary (by decide))
      rw [evaluate_disjunction]
      refine atLeft.bind fun v typed => ((computes_truth .leftOperand typed).named slice).bind
        fun decided _ => ?_
      cases decided with
      | true => exact computes_ok rfl
      | false => exact second
    · obtain rfl := List.mem_singleton.mp (shaped.sign_of_binary (by decide))
      rw [evaluate_conjunction]
      refine atLeft.bind fun v typed => ((computes_truth .leftOperand typed).named slice).bind
        fun decided _ => ?_
      cases decided with
      | true => exact second
      | false => exact computes_ok rfl
  | choice slice atCondition atConsequent atAlternative condition consequent alternative =>
    rw [evaluate_choice]
    refine (condition (shaped.child (by simp))).bind fun v typed =>
      ((computes_truth .condition typed).named slice).bind fun decided _ => ?_
    cases decided with
    | true => exact consequent (shaped.child (by simp))
    | false => exact alternative (shaped.child (by simp))
  | @extremum slice name isNamed arguments several each ih =>
    have values := computes_arguments (fun _ => .decimal) fun a member =>
      ih a member (shaped.child (List.mem_cons_of_mem _ member))
    rw [evaluate_call]
    refine values.bind fun values given => Computes.named slice ?_
    have typed : ∀ v ∈ values, v.type? = some .decimal := fun v member => by
      obtain ⟨a, -, typed⟩ := given.2 v member
      exact typed
    have enough : 2 ≤ values.length := given.1 ▸ several
    have nonempty : values ≠ [] := List.ne_nil_of_length_pos (by omega)
    rcases isNamed with rfl | rfl
    · rw [invoke_builtin ⟨.atLeast 2, Method.min⟩ rfl (decide_eq_true enough)]
      exact computes_extremum .lt typed nonempty
    · rw [invoke_builtin ⟨.atLeast 2, Method.max⟩ rfl (decide_eq_true enough)]
      exact computes_extremum .gt typed nonempty
  | @containsAny slice arguments several types each ih =>
    have values := computes_arguments types fun a member =>
      ih a member (shaped.child (List.mem_cons_of_mem _ member))
    rw [evaluate_call]
    refine values.bind fun values given => Computes.named slice ?_
    have enough : 2 ≤ values.length := given.1 ▸ several
    rw [invoke_builtin ⟨.atLeast 2, Method.containsAny⟩ rfl (decide_eq_true enough)]
    exact computes_containsAny values

end Term

/-! ## 6. Sources

A forest of one root has its type, and one of several roots is a chain of decimals.  What a source
adds is that its collapsed forest is shaped. -/

namespace Forest

variable {f : Forest} {bindings : Named Value} {τ : ValueType}

/-- **A shaped forest of a type computes it.** -/
theorem HasType.computes (typed : f.HasType bindings τ) (shaped : f.IsShaped) (policy : Policy) :
    ComputesType τ (f.run ⟨bindings, policy, .builtin⟩) := by
  obtain ⟨each, roots⟩ := isShaped_iff.mp shaped
  rw [run_eq_meaning]
  cases typed with
  | single terms typed =>
    rw [meaning_single terms]
    exact typed.computes (each _ (by simp [terms]))
  | @sum first rest terms atFirst atRest =>
    rw [terms] at roots
    have below : ∀ link ∈ rest, link.2.Shaped := fun link member =>
      each _ (terms ▸ List.mem_cons_of_mem first (Term.operand_mem_links member))
    rw [meaning_chain terms]
    exact Term.computes_chain (by decide) (Term.signs_of_interleaves first roots)
      (atFirst.computes (each _ (by simp [terms])))
      (fun link member => (atRest link member).computes (below link member)) f.title

/-- **A well typed source computes.**  Where the collapsed form of a source has a type under some
bindings, evaluating the source with the built-in methods gives, under every policy, a value of that
type, or it fails in arithmetic. -/
theorem evaluate_computes {source : String} (read : ofSource source = .ok f)
    (typed : f.collapse.HasType bindings τ) (policy : Policy) :
    ComputesType τ (f.evaluate ⟨bindings, policy, .builtin⟩) := by
  obtain ⟨tree, -, -, represents⟩ := represents_of_ofSource read
  exact typed.computes (represents.roots.isShaped_collapse represents.unmarked) policy

end Forest
end DecimalExpression
