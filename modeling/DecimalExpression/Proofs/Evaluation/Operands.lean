import DecimalExpression.Proofs.Evaluation.Reading

/-!
# The operands of a term

A term evaluates some of its children and skips others, and its rule reads what came of that
(`Term.operands`).  Said in these two steps, its value is that of the rule on the operands
(`Term.evaluate_eq`), and the operands meet the demand of its kind (`Term.demandMet_operands`).
-/

namespace DecimalExpression
namespace Term

variable {env : Environment}

/-! ## 1. The operands that are evaluated

Evaluation has two steps: some children are evaluated, and a rule is applied.  The three kinds that
choose their children are written out, and all others evaluate all of theirs; with `evaluate_eq`
this is the only place where evaluation is opened by kinds. -/

/-- A term as an operand, once it is evaluated. -/
def evaluating (env : Environment) (t : Term) : Except Fault Operand :=
  return t.evaluated (← t.evaluate env)

/-- The left side of a connective, and the right one where the left one is `passing`. -/
def gateOperands (env : Environment) (passing : Bool) (left operator right : Term) :
    Except Fault (List Operand) := do
  let decided ← left.evaluate env
  if decided = .bool passing then
    pure [left.evaluated decided, operator.skipped, right.evaluated (← right.evaluate env)]
  else pure [left.evaluated decided, operator.skipped, right.skipped]

/-- A condition, and the branch that it chooses. -/
def choiceOperands (env : Environment) (condition consequent alternative : Term) :
    Except Fault (List Operand) := do
  let decided ← condition.evaluate env
  if decided = .bool true then
    pure [condition.evaluated decided, consequent.evaluated (← consequent.evaluate env),
      alternative.skipped]
  else if decided = .bool false then
    pure [condition.evaluated decided, consequent.skipped,
      alternative.evaluated (← alternative.evaluate env)]
  else pure [condition.evaluated decided, consequent.skipped, alternative.skipped]

/-- **The operands of a term**, those evaluated that its kind demands. -/
def operands (env : Environment) : Term → Except Fault (List Operand)
  | ⟨.conditional, _, [condition, consequent, alternative]⟩ =>
    choiceOperands env condition consequent alternative
  | ⟨.conjunction, _, [left, operator, right]⟩ => gateOperands env true left operator right
  | ⟨.disjunction, _, [left, operator, right]⟩ => gateOperands env false left operator right
  | ⟨_, _, children⟩ => children.mapM (evaluating env)

/-- What follows the operands of a connective follows each way to get them. -/
theorem gate_eq {α : Type} {next : List Operand → Except Fault α} (passing : Bool)
    (left operator right : Term) :
    (do
      let decided ← left.evaluate env
      if decided = .bool passing then do
        let value ← right.evaluate env
        next [left.evaluated decided, operator.skipped, right.evaluated value]
      else next [left.evaluated decided, operator.skipped, right.skipped])
      = gateOperands env passing left operator right >>= next := by
  rw [gateOperands]
  cases left.evaluate env with
  | error fault => rfl
  | ok decided =>
    by_cases passes : decided = .bool passing
    · subst passes
      cases right.evaluate env <;> simp [bind, Except.bind, pure, Except.pure]
    · simp [passes, bind, Except.bind, pure, Except.pure]

/-- **The value of a term** is what its rule makes of its operands.  The recursion of the definition
goes into the operands first, in three orders, and the rule comes behind them in each. -/
theorem evaluate_eq (env : Environment) (t : Term) :
    t.evaluate env
      = t.operands env >>= fun operands =>
          (rule env t.kind t.text operands).mapError (Fault.within t.text) := by
  rw [evaluate.eq_def]
  split
  · rename_i condition consequent alternative
    rw [operands, choiceOperands]
    cases condition.evaluate env with
    | error fault => rfl
    | ok decided =>
      by_cases yes : decided = .bool true
      · subst yes
        cases consequent.evaluate env <;> rfl
      · by_cases no : decided = .bool false
        · subst no
          cases alternative.evaluate env <;> rfl
        · simp [yes, no, bind, Except.bind]
  · rw [operands, ← gate_eq]
    rfl
  · rw [operands, ← gate_eq]
    rfl
  · rename_i conditional conjunction disjunction
    rw [operands]
    · rfl
    · exact conditional
    · exact conjunction
    · exact disjunction

/-! ## 2. What is known of them

A rule may look at every operand, so it matters which of them are known.  The two facts that later
proofs use are that the operands meet the demand of the kind, and that each of them answers for the
child it was made from. -/

/-- A kind with this many children has a demand of its own, and not just all of them. -/
def IsSelective (kind : Kind) (count : Nat) : Prop :=
  count = 3 ∧ (kind = .conditional ∨ kind = .conjunction ∨ kind = .disjunction)

/-- Where a kind is not selective, all children are demanded. -/
theorem operands_of_not_selective {t : Term} (all : ¬ IsSelective t.kind t.children.length) :
    t.operands env = t.children.mapM (evaluating env) := by
  rw [operands.eq_def]
  split
  · exact absurd ⟨rfl, .inl rfl⟩ all
  · exact absurd ⟨rfl, .inr (.inl rfl)⟩ all
  · exact absurd ⟨rfl, .inr (.inr rfl)⟩ all
  · rfl

/-- A term that is evaluated as an operand has a value, and the operand knows it. -/
theorem exists_of_evaluating {t : Term} {o : Operand} (read : evaluating env t = .ok o) :
    ∃ v, t.evaluate env = .ok v ∧ o = t.evaluated v := by
  obtain ⟨v, value, read⟩ := bind_eq_ok read
  cases read
  exact ⟨v, value, rfl⟩

/-- Operands that are all evaluated are all known. -/
theorem known_of_mapM_evaluating {ts : List Term} {operands : List Operand}
    (read : ts.mapM (evaluating env) = .ok operands) : ∀ o ∈ operands, o.value? ≠ none := by
  have known : ∀ (t : Term) (o : Operand), evaluating env t = .ok o → True → o.value? ≠ none := by
    rintro t o read -
    obtain ⟨v, -, rfl⟩ := exists_of_evaluating read
    exact Option.some_ne_none v
  exact forall_mem_of_forall₂ (forall₂_of_mapM read) known fun _ _ => trivial

/-- A connective's operands: the left one is known, and the right one where that passes. -/
theorem gateOperands_eq_ok {passing : Bool} {left operator right : Term} {operands : List Operand}
    (read : gateOperands env passing left operator right = .ok operands) :
    ∃ v a b c, operands = [a, b, c] ∧ a.value? = some v ∧
      (v = .bool passing → c.value? ≠ none) := by
  obtain ⟨v, decided, read⟩ := bind_eq_ok read
  split at read
  · obtain ⟨w, value, read⟩ := bind_eq_ok read
    cases read
    exact ⟨v, _, _, _, rfl, rfl, fun _ => Option.some_ne_none w⟩
  · rename_i blocked
    cases read
    exact ⟨v, _, _, _, rfl, rfl, fun passes => absurd passes blocked⟩

/-- **The operands of a term meet the demand of its kind.**  Behind a condition the operand that is
chosen has a value, and no other needs one. -/
theorem demandMet_operands {t : Term} {operands : List Operand}
    (read : t.operands env = .ok operands) : DemandMet t.kind operands := by
  rw [Term.operands.eq_def] at read
  split at read
  · obtain ⟨v, decided, read⟩ := bind_eq_ok read
    split at read
    · rename_i yes
      obtain ⟨w, value, read⟩ := bind_eq_ok read
      cases read
      refine ⟨v, rfl, fun _ => Option.some_ne_none w, fun no => ?_⟩
      cases yes.symm.trans no
    · rename_i notYes
      split at read
      · obtain ⟨w, value, read⟩ := bind_eq_ok read
        cases read
        exact ⟨v, rfl, fun yes => absurd yes notYes, fun _ => Option.some_ne_none w⟩
      · rename_i notNo
        cases read
        exact ⟨v, rfl, fun yes => absurd yes notYes, fun no => absurd no notNo⟩
  · obtain ⟨v, a, b, c, rfl, known⟩ := gateOperands_eq_ok read
    exact ⟨v, known⟩
  · obtain ⟨v, a, b, c, rfl, known⟩ := gateOperands_eq_ok read
    exact ⟨v, known⟩
  · exact demandMet_of_known (known_of_mapM_evaluating read)

/-- **An operand answers for a term**: it has the term's kind and text and, if it is known, its
value. -/
structure Answers (env : Environment) (t : Term) (o : Operand) : Prop where
  kind_eq : o.kind = t.kind
  text_eq : o.text = t.text
  value : ∀ v, o.value? = some v → t.evaluate env = .ok v

theorem answers_evaluated {t : Term} {v : Value} (value : t.evaluate env = .ok v) :
    Answers env t (t.evaluated v) where
  kind_eq := rfl
  text_eq := rfl
  value := by
    rintro w ⟨⟩
    exact value

theorem answers_skipped (t : Term) : Answers env t t.skipped where
  kind_eq := rfl
  text_eq := rfl
  value := by rintro w ⟨⟩

theorem answers_gateOperands {passing : Bool} {left operator right : Term} {operands : List Operand}
    (read : gateOperands env passing left operator right = .ok operands) :
    List.Forall₂ (Answers env) [left, operator, right] operands := by
  obtain ⟨v, decided, read⟩ := bind_eq_ok read
  split at read
  · obtain ⟨w, value, read⟩ := bind_eq_ok read
    cases read
    exact .cons (answers_evaluated decided)
      (.cons (answers_skipped operator) (.cons (answers_evaluated value) .nil))
  · cases read
    exact .cons (answers_evaluated decided)
      (.cons (answers_skipped operator) (.cons (answers_skipped right) .nil))

theorem answers_choiceOperands {condition consequent alternative : Term} {operands : List Operand}
    (read : choiceOperands env condition consequent alternative = .ok operands) :
    List.Forall₂ (Answers env) [condition, consequent, alternative] operands := by
  obtain ⟨v, decided, read⟩ := bind_eq_ok read
  split at read
  · obtain ⟨w, value, read⟩ := bind_eq_ok read
    cases read
    exact .cons (answers_evaluated decided)
      (.cons (answers_evaluated value) (.cons (answers_skipped alternative) .nil))
  split at read
  · obtain ⟨w, value, read⟩ := bind_eq_ok read
    cases read
    exact .cons (answers_evaluated decided)
      (.cons (answers_skipped consequent) (.cons (answers_evaluated value) .nil))
  · cases read
    exact .cons (answers_evaluated decided)
      (.cons (answers_skipped consequent) (.cons (answers_skipped alternative) .nil))

theorem answers_mapM {ts : List Term} {operands : List Operand}
    (read : ts.mapM (evaluating env) = .ok operands) : List.Forall₂ (Answers env) ts operands := by
  refine (forall₂_of_mapM read).imp fun t o read => ?_
  obtain ⟨v, value, rfl⟩ := exists_of_evaluating read
  exact answers_evaluated value

/-- **The operands of a term answer for its children.** -/
theorem answers_operands {t : Term} {operands : List Operand}
    (read : t.operands env = .ok operands) :
    List.Forall₂ (Answers env) t.children operands := by
  rw [Term.operands.eq_def] at read
  split at read
  · exact answers_choiceOperands read
  · exact answers_gateOperands read
  · exact answers_gateOperands read
  · exact answers_mapM read

/-! ## 3. Operands that are all evaluated

Where nothing is chosen, operands are values with a kind and a text around them, in both
directions. -/

theorem value_evaluated (t : Term) (v : Value) : (t.evaluated v).value = .ok v := rfl

/-- Arguments as operands. -/
def evaluatedAll (ts : List Term) (values : List Value) : List Operand :=
  List.zipWith evaluated ts values

theorem mapM_evaluating (ts : List Term) :
    ts.mapM (evaluating env) = (ts.mapM (evaluate env)).map (evaluatedAll ts) := by
  induction ts with
  | nil => rfl
  | cons t rest ih =>
    rw [List.mapM_cons, List.mapM_cons, ih, evaluating]
    cases t.evaluate env with
    | error fault => rfl
    | ok v => cases rest.mapM (evaluate env) <;> rfl

theorem mapM_value_evaluatedAll {ts : List Term} : ∀ {values : List Value},
    ts.mapM (evaluate env) = .ok values →
      (evaluatedAll ts values).mapM Operand.value = .ok values := by
  induction ts with
  | nil =>
    intro values read
    cases read
    rfl
  | cons t rest ih =>
    intro values read
    rw [List.mapM_cons] at read
    obtain ⟨v, _, read⟩ := bind_eq_ok read
    obtain ⟨more, atRest, read⟩ := bind_eq_ok read
    cases read
    have known := ih atRest
    rw [evaluatedAll] at known ⊢
    rw [List.zipWith_cons_cons, List.mapM_cons, known, value_evaluated]
    rfl

end Term

end DecimalExpression
