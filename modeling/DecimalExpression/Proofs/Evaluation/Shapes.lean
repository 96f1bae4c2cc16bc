import DecimalExpression.Proofs.Evaluation.Driver
import DecimalExpression.Proofs.Evaluation.Interpreter
import DecimalExpression.Proofs.Expression.NodeShapes

/-!
# What terms of each shape come to

The terms of sources are regular: operators and names are symbols where the rules look for them, and
everything else is a term with a value (`Term.Regular`).  For each shape of such a term there is one
lemma that says what it evaluates to, in terms of what its children evaluate to.

Collapsing keeps a regular term regular and keeps its value (`Regular.evaluate_collapse`): what goes
are layers that pass the value of their only child on, and what stays keeps its text and its
symbols.  So no fault is named differently either.
-/

namespace DecimalExpression
namespace Term

open Interpreter

variable {env : Environment}

/-! ## 1. Shapes

Not every term is the term of a source; a symbol may stand anywhere in a tree that was built by
hand.  `Regular` has one constructor for each shape that a source gives rise to, so inductions on it
have the cases of the language and no others. -/

/-- **Kinds that pass the value of a single child on.** -/
def passesOn : Kind → Bool
  | .additive | .multiplicative | .condition | .consequent | .alternative | .disjunction
  | .conjunction | .equality | .relational | .expression | .group | .primary | .unary => true
  | _ => false

/-- Kinds of chains. -/
def isChain : Kind → Bool
  | .additive | .multiplicative => true
  | _ => false

/-- The children of a chain behind its first operand. -/
def links : List (String × Term) → List Term
  | [] => []
  | (operator, operand) :: rest => leaf .symbol operator :: operand :: links rest

/-- **Regular terms**, which have a value: symbols stand only where a rule reads one. -/
inductive Regular : Term → Prop
  | number (slice : String) : Regular (leaf .number slice)
  | text (slice : String) (quoted : Word.isQuoted slice.toList) : Regular (leaf .text slice)
  | reference (slice : String) : Regular (leaf .reference slice)
  | layer {kind : Kind} (passes : passesOn kind) (slice : String) {body : Term}
    (below : Regular body) : Regular ⟨kind, slice, [body]⟩
  | chain {kind : Kind} (flat : isChain kind) (slice : String) {first : Term}
    (rest : List (String × Term)) (signs : ∀ link ∈ rest, link.1 ∈ kind.operators)
    (atFirst : Regular first) (atRest : ∀ link ∈ rest, Regular link.2) :
    Regular ⟨kind, slice, first :: links rest⟩
  | connective {kind : Kind} {operator : String}
    (matching : kind = .disjunction ∧ operator = "||" ∨ kind = .conjunction ∧ operator = "&&")
    (slice : String) {left right : Term} (atLeft : Regular left) (atRight : Regular right) :
    Regular ⟨kind, slice, [left, leaf .symbol operator, right]⟩
  | comparison {kind : Kind} (comparing : kind = .equality ∨ kind = .relational) (slice : String)
    {operator : String} (sign : operator ∈ kind.operators) {left right : Term}
    (atLeft : Regular left) (atRight : Regular right) :
    Regular ⟨kind, slice, [left, leaf .symbol operator, right]⟩
  | choice (slice : String) {condition consequent alternative : Term}
    (atCondition : Regular condition) (atConsequent : Regular consequent)
    (atAlternative : Regular alternative) :
    Regular ⟨.conditional, slice, [condition, consequent, alternative]⟩
  | signed {sign : String} (plain : sign = "+" ∨ sign = "-") (slice : String) {operand : Term}
    (below : Regular operand) : Regular ⟨.signed, slice, [leaf .symbol sign, operand]⟩
  | call (slice name : String) (arguments : List Term) (below : ∀ a ∈ arguments, Regular a) :
    Regular ⟨.call, slice, leaf .symbol name :: arguments⟩

/-! ## 2. Their values

For each shape, the value in one equation.  A rule reads a list of operands and checks it, and here
the checks are carried out once, so that later proofs see a sequence of evaluations and the step at
its end. -/

theorem evaluate_symbol (slice : String) :
    (leaf .symbol slice).evaluate env = .ok (.text slice) := by
  rw [evaluate_eq]
  rfl

theorem evaluate_number (slice : String) :
    (leaf .number slice).evaluate env = named slice (literal slice) := by
  rw [evaluate_eq]
  show ((rule env .number slice []).mapError _) = _
  rw [rule, named, literal]
  cases Decimal.ofNumeral slice <;> rfl

theorem evaluate_text (slice : String) :
    (leaf .text slice).evaluate env = named slice (unquoted slice) := by
  rw [evaluate_eq]
  show ((rule env .text slice []).mapError _) = _
  rw [rule, named, unquoted]
  cases Rule.unquote? slice <;> rfl

theorem evaluate_reference (slice : String) :
    (leaf .reference slice).evaluate env = .ok ((env.bindings.get? slice).getD .null) := by
  rw [evaluate_eq]
  rfl

/-- **A layer** passes the outcome of its child on. -/
theorem evaluate_layer {kind : Kind} (passes : passesOn kind) (slice : String) (body : Term) :
    (⟨kind, slice, [body]⟩ : Term).evaluate env = body.evaluate env := by
  have all : ¬ IsSelective kind [body].length := fun selective => by cases selective.1
  rw [evaluate_eq, operands_of_not_selective all]
  rw [List.mapM_cons, List.mapM_nil, evaluating]
  cases body.evaluate env with
  | error fault => rfl
  | ok v => cases kind <;> first | rfl | cases passes

theorem symbol_evaluated (slice : String) (v : Value) :
    ((leaf .symbol slice).evaluated v).symbol = .ok slice := rfl

/-- The operands of a chain behind its first one. -/
def linkOperands : List (String × Term) → List (String × Value) → List Operand
  | (operator, operand) :: rest, (_, v) :: values =>
    (leaf .symbol operator).evaluated (.text operator) :: operand.evaluated v ::
      linkOperands rest values
  | _, _ => []

/-- The outcomes of the links of a chain, from left to right. -/
def evaluateLinks (env : Environment) (rest : List (String × Term)) :
    Except Fault (List (String × Value)) :=
  rest.mapM fun link => return (link.1, ← link.2.evaluate env)

theorem evaluateLinks_cons (operator : String) (operand : Term) (rest : List (String × Term)) :
    evaluateLinks env ((operator, operand) :: rest) = (do
      let v ← operand.evaluate env
      let values ← evaluateLinks env rest
      return (operator, v) :: values) := by
  rw [evaluateLinks, List.mapM_cons, ← evaluateLinks]
  cases operand.evaluate env <;> rfl

theorem mapM_links (rest : List (String × Term)) :
    (links rest).mapM (evaluating env)
      = (evaluateLinks env rest).map (linkOperands rest) := by
  induction rest with
  | nil => rfl
  | cons link rest ih =>
    obtain ⟨operator, operand⟩ := link
    rw [links, List.mapM_cons, List.mapM_cons, ih, evaluateLinks_cons]
    rw [evaluating, evaluate_symbol, evaluating]
    cases operand.evaluate env with
    | error fault => rfl
    | ok v => cases evaluateLinks env rest <;> rfl

/-- Folding operands is folding their symbols and values. -/
theorem chainFrom_linkOperands (policy : Policy) {rest : List (String × Term)}
    {values : List (String × Value)}
    (found : List.Forall₂ (fun link value => value.1 = link.1) rest values) (result : Value) :
    Rule.chainFrom policy result (linkOperands rest values) = fold policy result values := by
  induction found generalizing result with
  | nil => rfl
  | @cons link value rest values same _ ih =>
    obtain ⟨operator, operand⟩ := link
    obtain ⟨_, v⟩ := value
    cases same
    rw [linkOperands, Rule.chainFrom, symbol_evaluated, ok_bind, fold, List.foldlM_cons, calculate]
    cases Operator.ofSymbol? operator with
    | none => rfl
    | some operator =>
      dsimp only
      rw [value_evaluated, ok_bind]
      cases operator.apply policy result v with
      | error fault => rfl
      | ok number => exact ih (.decimal number)

theorem symbols_evaluateLinks {rest : List (String × Term)} :
    ∀ {values : List (String × Value)}, evaluateLinks env rest = .ok values →
      List.Forall₂ (fun link value => value.1 = link.1) rest values := by
  induction rest with
  | nil =>
    intro values read
    cases read
    exact .nil
  | cons link rest ih =>
    intro values read
    obtain ⟨operator, operand⟩ := link
    rw [evaluateLinks_cons] at read
    obtain ⟨v, _, read⟩ := bind_eq_ok read
    obtain ⟨more, atRest, read⟩ := bind_eq_ok read
    cases read
    exact .cons rfl (ih atRest)

/-- **A chain** evaluates its operands from left to right, and then folds them.  The operators are
symbols, so what the rule finds between its operands are their texts. -/
theorem evaluate_chain {kind : Kind} (flat : isChain kind) (slice : String) (first : Term)
    (rest : List (String × Term)) :
    (⟨kind, slice, first :: links rest⟩ : Term).evaluate env = (do
      let v ← first.evaluate env
      let values ← evaluateLinks env rest
      named slice (fold env.policy v values)) := by
  have all : ¬ IsSelective kind (first :: links rest).length := fun selective => by
    rcases selective.2 with rfl | rfl | rfl <;> cases flat
  rw [evaluate_eq, operands_of_not_selective all]
  dsimp only
  rw [List.mapM_cons, mapM_links, evaluating]
  cases first.evaluate env with
  | error fault => rfl
  | ok v =>
    cases atRest : evaluateLinks env rest with
    | error fault => rfl
    | ok values =>
      have folded := chainFrom_linkOperands env.policy (symbols_evaluateLinks atRest) v
      show (rule env kind slice (first.evaluated v :: linkOperands rest values)).mapError _ = _
      have chain : rule env kind slice (first.evaluated v :: linkOperands rest values)
          = Rule.chain env.policy (first.evaluated v :: linkOperands rest values) := by
        cases kind <;> first | rfl | cases flat
      rw [chain, Rule.chain, value_evaluated, ok_bind, folded]
      rfl

/-- **A signed operand** is evaluated, and then added to zero or taken from it.  The sign is a
symbol, and is evaluated first, which never fails. -/
theorem evaluate_signed {sign : String} (plain : sign = "+" ∨ sign = "-") (slice : String)
    (operand : Term) :
    (⟨.signed, slice, [leaf .symbol sign, operand]⟩ : Term).evaluate env = (do
      named slice (calculate env.policy (.ofInt 0) sign (← operand.evaluate env))) := by
  have all : ¬ IsSelective .signed [leaf .symbol sign, operand].length := fun selective => by
    cases selective.1
  rw [evaluate_eq, operands_of_not_selective all]
  dsimp only
  rw [List.mapM_cons, List.mapM_cons, List.mapM_nil, evaluating, evaluate_symbol, evaluating]
  cases operand.evaluate env with
  | error fault => rfl
  | ok v =>
    show (Rule.signed env.policy ((leaf .symbol sign).evaluated _) (operand.evaluated v)).mapError _
      = _
    rw [Rule.signed, symbol_evaluated, ok_bind, ok_bind, named, calculate]
    rcases plain with rfl | rfl
    · show (((Operator.add.apply env.policy (.ofInt 0) v).map Value.decimal).mapError _) = _
      rfl
    · show (((Operator.subtract.apply env.policy (.ofInt 0) v).map Value.decimal).mapError _) = _
      rfl

/-- **A conditional** evaluates its condition, and then the branch that it chooses. -/
theorem evaluate_choice (slice : String) (condition consequent alternative : Term) :
    (⟨.conditional, slice, [condition, consequent, alternative]⟩ : Term).evaluate env = (do
      if ← named slice (truth .condition (← condition.evaluate env)) then consequent.evaluate env
      else alternative.evaluate env) := by
  rw [evaluate_eq, operands, choiceOperands]
  cases condition.evaluate env with
  | error fault => rfl
  | ok v =>
    cases v with
    | bool decided =>
      cases decided with
      | true => cases consequent.evaluate env <;> rfl
      | false => cases alternative.evaluate env <;> rfl
    | null | decimal | text => rfl

/-- **A disjunction** evaluates its right side only where the left one is false. -/
theorem evaluate_disjunction (slice : String) (left right : Term) :
    (⟨.disjunction, slice, [left, leaf .symbol "||", right]⟩ : Term).evaluate env = (do
      if ← named slice (truth .leftOperand (← left.evaluate env)) then return .bool true
      return .bool (← named slice (truth .rightOperand (← right.evaluate env)))) := by
  rw [evaluate_eq, operands, gateOperands]
  cases left.evaluate env with
  | error fault => rfl
  | ok v =>
    cases v with
    | bool decided =>
      cases decided with
      | true => rfl
      | false =>
        cases right.evaluate env with
        | error fault => rfl
        | ok w => cases w <;> rfl
    | null | decimal | text => rfl

/-- **A conjunction** evaluates its right side only where the left one is true. -/
theorem evaluate_conjunction (slice : String) (left right : Term) :
    (⟨.conjunction, slice, [left, leaf .symbol "&&", right]⟩ : Term).evaluate env = (do
      if ← named slice (truth .leftOperand (← left.evaluate env)) then
        return .bool (← named slice (truth .rightOperand (← right.evaluate env)))
      return .bool false) := by
  rw [evaluate_eq, operands, gateOperands]
  cases left.evaluate env with
  | error fault => rfl
  | ok v =>
    cases v with
    | bool decided =>
      cases decided with
      | true =>
        cases right.evaluate env with
        | error fault => rfl
        | ok w => cases w <;> rfl
      | false => rfl
    | null | decimal | text => rfl

/-- **An equality** evaluates both its sides, and then compares them. -/
theorem evaluate_equality (slice operator : String) (left right : Term) :
    (⟨.equality, slice, [left, leaf .symbol operator, right]⟩ : Term).evaluate env = (do
      named slice (equality (← left.evaluate env) operator (← right.evaluate env))) := by
  have all : ¬ IsSelective .equality [left, leaf .symbol operator, right].length :=
    fun selective => by rcases selective.2 with same | same | same <;> cases same
  rw [evaluate_eq, operands_of_not_selective all]
  dsimp only
  rw [List.mapM_cons, List.mapM_cons, List.mapM_cons, List.mapM_nil, evaluating, evaluating,
    evaluate_symbol, evaluating]
  cases left.evaluate env with
  | error fault => rfl
  | ok v =>
    cases right.evaluate env with
    | error fault => rfl
    | ok w =>
      show (Rule.equality (left.evaluated v) ((leaf .symbol operator).evaluated _)
        (right.evaluated w)).mapError _ = _
      rw [Rule.equality]
      rfl

/-- **A relation** evaluates both its sides, and then compares them.  The operator in between is a
symbol and has a value at once, so the order of the two sides is all there is to see. -/
theorem evaluate_relation (slice operator : String) (left right : Term) :
    (⟨.relational, slice, [left, leaf .symbol operator, right]⟩ : Term).evaluate env = (do
      named slice (relation (← left.evaluate env) operator (← right.evaluate env))) := by
  have all : ¬ IsSelective .relational [left, leaf .symbol operator, right].length :=
    fun selective => by rcases selective.2 with same | same | same <;> cases same
  rw [evaluate_eq, operands_of_not_selective all]
  dsimp only
  rw [List.mapM_cons, List.mapM_cons, List.mapM_cons, List.mapM_nil, evaluating, evaluating,
    evaluate_symbol, evaluating]
  cases left.evaluate env with
  | error fault => rfl
  | ok v =>
    cases right.evaluate env with
    | error fault => rfl
    | ok w =>
      show (Rule.relation (left.evaluated v) ((leaf .symbol operator).evaluated _)
        (right.evaluated w)).mapError _ = _
      show _ = named slice (relation v operator w)
      rw [Rule.relation, value_evaluated, value_evaluated, ok_bind, ok_bind]
      unfold relation
      cases v.compare? w <;> rfl

/-- **A call** evaluates its arguments from left to right, and then calls the method. -/
theorem evaluate_call (slice name : String) (arguments : List Term) :
    (⟨.call, slice, leaf .symbol name :: arguments⟩ : Term).evaluate env = (do
      named slice (env.methods.invoke name (← arguments.mapM (evaluate env)))) := by
  have all : ¬ IsSelective .call (leaf .symbol name :: arguments).length :=
    fun selective => by rcases selective.2 with same | same | same <;> cases same
  rw [evaluate_eq, operands_of_not_selective all]
  dsimp only
  rw [List.mapM_cons, evaluating, evaluate_symbol, mapM_evaluating]
  cases atArguments : arguments.mapM (evaluate env) with
  | error fault => rfl
  | ok values =>
    show ((env.methods.invoke name =<< (evaluatedAll arguments values).mapM
      Operand.value).mapError _)
      = _
    rw [mapM_value_evaluatedAll atArguments]
    rfl

/-! ## 3. Collapsing keeps values

Collapsing replaces a term by another one, and what has to be shown is that the other has the same
value in every environment (`StandsFor`).  The relation is closed under the constructors of regular
terms, so the induction has little to do in any case but those of groups: these stay or go,
depending on what is around them. -/

/-- **One regular term stands for another**: it has the same value in every environment. -/
structure StandsFor (u t : Term) : Prop where
  regular : u.Regular
  evaluate_eq : ∀ env : Environment, u.evaluate env = t.evaluate env

theorem Regular.standsFor_self {t : Term} (regular : t.Regular) : t.StandsFor t :=
  ⟨regular, fun _ => rfl⟩

theorem StandsFor.trans {t u w : Term} (first : w.StandsFor u) (second : u.StandsFor t) :
    w.StandsFor t :=
  ⟨first.regular, fun env => (first.evaluate_eq env).trans (second.evaluate_eq env)⟩

/-- A layer around what stands for its body stands for the layer, and so does the body's
substitute alone. -/
theorem StandsFor.layer {kind : Kind} (passes : passesOn kind) (slice : String) {body u : Term}
    (h : u.StandsFor body) :
    u.StandsFor ⟨kind, slice, [body]⟩ ∧ StandsFor ⟨kind, slice, [u]⟩ ⟨kind, slice, [body]⟩ := by
  constructor
  · exact ⟨h.regular, fun env => by rw [h.evaluate_eq, evaluate_layer passes]⟩
  · refine ⟨.layer passes slice h.regular, fun env => ?_⟩
    rw [evaluate_layer passes, evaluate_layer passes, h.evaluate_eq]

/-- Leaves stay as they are. -/
theorem collapse_leaf (inside : Bool) (kind : Kind) (slice : String) :
    (leaf kind slice).collapse inside = leaf kind slice := by
  rw [leaf, collapse_branch inside kind slice (by simp), List.map_nil]

/-- Links stay links under what leaves symbols alone. -/
theorem map_links {g : Term → Term} (symbols : ∀ slice, g (leaf .symbol slice) = leaf .symbol slice)
    (rest : List (String × Term)) :
    (links rest).map g = links (rest.map fun link => (link.1, g link.2)) := by
  induction rest with
  | nil => rfl
  | cons link rest ih => rw [links, List.map_cons, List.map_cons, ih, symbols, List.map_cons, links]

/-- Links with substitutes for their operands have the same outcomes. -/
theorem evaluateLinks_map (g : Term → Term) {rest : List (String × Term)}
    (each : ∀ link ∈ rest, (g link.2).StandsFor link.2) :
    evaluateLinks env (rest.map fun link => (link.1, g link.2)) = evaluateLinks env rest := by
  induction rest with
  | nil => rfl
  | cons link rest ih =>
    have atLink := each link List.mem_cons_self
    have more := ih fun l member => each l (List.mem_cons_of_mem _ member)
    rw [List.map_cons, evaluateLinks_cons, more, atLink.evaluate_eq, ← evaluateLinks_cons]

theorem mapM_evaluate_map {ts : List Term} {g : Term → Term}
    (each : ∀ t ∈ ts, (g t).StandsFor t) :
    (ts.map g).mapM (evaluate env) = ts.mapM (evaluate env) := by
  induction ts with
  | nil => rfl
  | cons t rest ih =>
    have atFirst := each t List.mem_cons_self
    have more := ih fun u member => each u (List.mem_cons_of_mem _ member)
    rw [List.map_cons, List.mapM_cons, List.mapM_cons, more, atFirst.evaluate_eq]

theorem passesOn_of_isChain {kind : Kind} (flat : isChain kind) : passesOn kind := by
  cases kind <;> first | rfl | cases flat

/-- **Collapsing a layer**: its only child takes its place, or the group around it stays. -/
theorem collapse_layer_standsFor {kind : Kind} (passes : passesOn kind) (slice : String)
    {body : Term} (h : (body.collapse true).StandsFor body) (inside : Bool) :
    (collapse inside ⟨kind, slice, [body]⟩).StandsFor ⟨kind, slice, [body]⟩ := by
  have notCall : kind ≠ .call := fun call => by rw [call] at passes; cases passes
  have both := h.layer passes slice
  by_cases group : kind = .group ∧ inside = true
  · obtain ⟨rfl, rfl⟩ := group
    rw [collapse_group_inside, regroup]
    split
    · exact both.1
    · exact both.2
  · rw [collapse_layer slice body notCall (by simp_all)]
    exact both.1

/-- **Collapsing keeps the value of a regular term.**  By induction on the regular term.  A layer
has the value of its body, with or without it, and all other terms keep their kind and have their
children collapsed. -/
theorem Regular.collapse {t : Term} (regular : t.Regular) :
    ∀ inside : Bool, (t.collapse inside).StandsFor t := by
  induction regular with
  | number slice =>
    intro inside
    rw [collapse_leaf]
    exact Regular.standsFor_self (.number slice)
  | text slice quoted =>
    intro inside
    rw [collapse_leaf]
    exact Regular.standsFor_self (.text slice quoted)
  | reference slice =>
    intro inside
    rw [collapse_leaf]
    exact Regular.standsFor_self (.reference slice)
  | layer passes slice below ih => exact collapse_layer_standsFor passes slice (ih true)
  | @chain kind flat slice first rest signs atFirst atRest ihFirst ihRest =>
    intro inside
    cases rest with
    | nil => exact collapse_layer_standsFor (passesOn_of_isChain flat) slice (ihFirst true) inside
    | cons link rest =>
      rw [collapse_branch inside kind slice (by simp [links]), List.map_cons,
        map_links (collapse_leaf true .symbol)]
      refine ⟨.chain flat slice _ ?_ (ihFirst true).regular ?_, fun env => ?_⟩
      · intro substitute member
        obtain ⟨link, among, rfl⟩ := List.mem_map.mp member
        exact signs link among
      · intro substitute member
        obtain ⟨link, among, rfl⟩ := List.mem_map.mp member
        exact (ihRest link among true).regular
      · rw [evaluate_chain flat, evaluate_chain flat, (ihFirst true).evaluate_eq,
          evaluateLinks_map (Term.collapse true) fun link member => ihRest link member true]
  | @connective kind operator matching slice left right atLeft atRight ihLeft ihRight =>
    intro inside
    rw [collapse_branch inside kind slice (by simp), List.map_cons, List.map_cons, List.map_cons,
      List.map_nil, collapse_leaf]
    refine ⟨.connective matching slice (ihLeft true).regular (ihRight true).regular, fun env => ?_⟩
    rcases matching with ⟨rfl, rfl⟩ | ⟨rfl, rfl⟩
    · rw [evaluate_disjunction, evaluate_disjunction, (ihLeft true).evaluate_eq,
        (ihRight true).evaluate_eq]
    · rw [evaluate_conjunction, evaluate_conjunction, (ihLeft true).evaluate_eq,
        (ihRight true).evaluate_eq]
  | @comparison kind comparing slice operator sign left right atLeft atRight ihLeft ihRight =>
    intro inside
    rw [collapse_branch inside kind slice (by simp), List.map_cons, List.map_cons, List.map_cons,
      List.map_nil, collapse_leaf]
    refine ⟨.comparison comparing slice sign (ihLeft true).regular (ihRight true).regular,
      fun env => ?_⟩
    rcases comparing with rfl | rfl
    · rw [evaluate_equality, evaluate_equality, (ihLeft true).evaluate_eq,
        (ihRight true).evaluate_eq]
    · rw [evaluate_relation, evaluate_relation, (ihLeft true).evaluate_eq,
        (ihRight true).evaluate_eq]
  | choice slice atCondition atConsequent atAlternative condition consequent alternative =>
    intro inside
    rw [collapse_branch inside .conditional slice (by simp), List.map_cons, List.map_cons,
      List.map_cons, List.map_nil]
    refine ⟨.choice slice (condition true).regular (consequent true).regular
      (alternative true).regular, fun env => ?_⟩
    rw [evaluate_choice, evaluate_choice, (condition true).evaluate_eq,
      (consequent true).evaluate_eq, (alternative true).evaluate_eq]
  | signed plain slice below ih =>
    intro inside
    rw [collapse_branch inside .signed slice (by simp), List.map_cons, List.map_cons, List.map_nil,
      collapse_leaf]
    refine ⟨.signed plain slice (ih true).regular, fun env => ?_⟩
    rw [evaluate_signed plain, evaluate_signed plain, (ih true).evaluate_eq]
  | call slice name arguments below ih =>
    intro inside
    rw [collapse_call, List.map_cons, collapse_leaf]
    refine ⟨.call slice name _ fun u member => ?_, fun env => ?_⟩
    · obtain ⟨a, among, rfl⟩ := List.mem_map.mp member
      exact (ih a among true).regular
    · rw [evaluate_call, evaluate_call, mapM_evaluate_map fun a member => ih a member true]

/-- **The bare term of a regular term has its value.**  By induction on the regular term: only
layers are passed, and each has the value of its body. -/
theorem Regular.bare {t : Term} (regular : t.Regular) : t.bare.StandsFor t := by
  have layer : ∀ {kind : Kind} (slice : String) {body : Term}, passesOn kind →
      body.bare.StandsFor body →
        (Term.bare ⟨kind, slice, [body]⟩).StandsFor ⟨kind, slice, [body]⟩ := by
    intro kind slice body passes h
    have bare : Term.bare ⟨kind, slice, [body]⟩ = body.bare := by
      rw [Term.bare]
      rintro rfl
      cases passes
    rw [bare]
    exact (h.layer passes slice).1
  have itself : ∀ {u : Term}, (u.children.length = 1 → u.kind = .call) → u.Regular →
      u.bare.StandsFor u := by
    intro u shape regular
    rw [bare_of_shape shape]
    exact regular.standsFor_self
  have several : ∀ {u : Term}, u.children.length ≠ 1 → u.Regular → u.bare.StandsFor u :=
    fun count => itself fun single => absurd single count
  induction regular with
  | number slice => exact several Nat.zero_ne_one (.number slice)
  | text slice quoted => exact several Nat.zero_ne_one (.text slice quoted)
  | reference slice => exact several Nat.zero_ne_one (.reference slice)
  | layer passes slice below ih => exact layer slice passes ih
  | chain flat slice rest signs atFirst atRest ihFirst ihRest =>
    cases rest with
    | nil => exact layer slice (passesOn_of_isChain flat) ihFirst
    | cons link rest =>
      exact several (by simp [links]) (.chain flat slice (link :: rest) signs atFirst atRest)
  | connective matching slice atLeft atRight =>
    exact several (by simp) (.connective matching slice atLeft atRight)
  | comparison comparing slice sign atLeft atRight =>
    exact several (by simp) (.comparison comparing slice sign atLeft atRight)
  | choice slice atCondition atConsequent atAlternative =>
    exact several (by simp) (.choice slice atCondition atConsequent atAlternative)
  | signed plain slice below => exact several (by simp) (.signed plain slice below)
  | call slice name arguments below =>
    exact itself (fun _ => rfl) (.call slice name arguments below)

end Term
end DecimalExpression
