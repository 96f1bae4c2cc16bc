import DecimalExpression.Proofs.Decimal.Quotients
import DecimalExpression.Proofs.Evaluation.Trace

/-!
# What values come up

Whatever arithmetic gives is within the scale limit, and where the policy has a precision with any
digits it has no more digits than that (`Operator.limits_of_apply`).  So is every literal and every
coerced operand.  Decimals of another kind come from outside only: from the variables, or from a
method of the host (`Admitted`).

A rule gives a value that may come up if its operands have such values (`admitted_rule`), and where
it calculates, its value has the digits of the precision whatever its operands are
(`calculated_rule`).  By induction both hold of every term (`Term.expected_evaluate`).  The slots of
the table hold values of terms at every point of a run, and so they hold nothing else
(`Forest.slotsExpected_replay`).
-/

namespace DecimalExpression

/-! ## 1. Results of arithmetic

What comes out of an operation has been checked, so it is within the limit, and if the policy has a
precision, it has been rounded last.  The exception is a decimal that nothing was done to: an
extremum returns what an argument was coerced to, and so does a chain without an operator. -/

section Arithmetic

open Decimal

variable {a b d r : Decimal} {p : Precision} {policy : Policy}

/-- **Rounding to a precision leaves no more digits** than it says. -/
theorem Decimal.digitCount_of_roundToPrecision (digits : p.digits ≠ 0) (wide : d.Wide)
    (done : d.roundToPrecision p = .ok r) : r.digitCount ≤ p.digits.toNat := by
  have least := one_le_bound digits
  have bound : p.bound = p.bound.toNat := (Int.toNat_of_nonneg (by omega)).symm
  have fewer : p.bound.toNat ≤ p.digits.toNat := by
    rw [Precision.bound]
    omega
  have rounds := rounds_roundToPrecision digits (by omega) bound wide
  rw [done] at rounds
  cases rounds with
  | rounded _ few => exact few.trans fewer

/-- **Division to a precision leaves no more digits** than it says, whatever it guesses and
corrects. -/
theorem Decimal.digitCount_of_divideToPrecision (digits : p.digits ≠ 0) (left : a.InRange)
    (right : b.InRange)
    (done : divideToPrecision a b p = .ok r) : r.digitCount ≤ p.digits.toNat := by
  obtain ⟨zero, done⟩ | ⟨scale, q, divided, done⟩ := exists_of_divideToPrecision digits done
  · have whole : a.toRat / b.toRat * 10 ^ (0 : Int) = (0 : ℤ) := by simp [zero]
    rw [divideToScale_eq left.wide right, (roundedTo_of_integer p.mode whole).1] at done
    split at done
    · cases done
    split at done <;> cases done
    exact one_le_digits digits
  · exact digitCount_of_roundToPrecision digits (scale_of_divideToScale divided).2.wide done

variable {operator : Operator} {left right : Value}

/-- **Under a precision an operation has no more digits** than it says. -/
theorem Operator.digitCount_of_applyDecimal (digits : p.digits ≠ 0)
    (precise : policy.precision = some p)
    (left : a.InRange) (right : b.InRange) (done : operator.applyDecimal policy a b = .ok r) :
    r.digitCount ≤ p.digits.toNat := by
  have exactly : ∀ {e : Decimal}, operator.exactResult? a b = some e →
      r.digitCount ≤ p.digits.toNat := by
    intro e result
    rw [applyDecimal_of_exactResult? precise result] at done
    exact digitCount_of_roundToPrecision digits (exactResult?_spec left right result).2 done
  cases operator with
  | add | subtract | multiply => exact exactly rfl
  | divide =>
    rw [applyDecimal, precise] at done
    exact digitCount_of_divideToPrecision digits left right done

/-- **A number of the policy**: it is within the limit, and has the digits of the precision, if
there is one with any. -/
def Policy.Limits (policy : Policy) (d : Decimal) : Prop :=
  d.InRange ∧ ∀ p, policy.precision = some p → p.digits ≠ 0 → d.digitCount ≤ p.digits.toNat

/-- **What an operation gives is limited by the policy.** -/
theorem Operator.limits_of_apply (done : operator.apply policy left right = .ok r) :
    policy.Limits r := by
  obtain ⟨a, b, atLeft, atRight, done, inRange⟩ := exists_of_apply done
  exact ⟨inRange, fun p precise digits => digitCount_of_applyDecimal digits precise
    (Value.inRange_of_toDecimal atLeft) (Value.inRange_of_toDecimal atRight) done⟩

variable {wanted : Ordering} {values : List Value}

/-- **The best of some numbers** is the best so far, or what one of the arguments is coerced to.  By
induction on the arguments, with the best so far. -/
theorem Method.mem_of_extremumFrom {best : Option Decimal}
    (done : extremumFrom wanted best values = .ok (some r)) :
    best = some r ∨ ∃ v ∈ values, v.toDecimal = .ok r := by
  induction values generalizing best with
  | nil =>
    cases done
    exact .inl rfl
  | cons v rest ih =>
    by_cases null : v = .null
    · subst null
      refine (ih done).imp id ?_
      rintro ⟨v, member, operand⟩
      exact ⟨v, List.mem_cons_of_mem _ member, operand⟩
    · rw [extremumFrom] at done
      · obtain ⟨number, operand, done⟩ := bind_eq_ok done
        rcases ih done with same | ⟨v, member, operand⟩
        · cases best with
          | none =>
            cases same
            exact .inr ⟨v, List.mem_cons_self, operand⟩
          | some e =>
            rw [better] at same
            split at same
            · cases same
              exact .inr ⟨v, List.mem_cons_self, operand⟩
            · exact .inl same
        · exact .inr ⟨v, List.mem_cons_of_mem _ member, operand⟩
      · exact null

/-- **What an extremum is** one of the arguments is coerced to. -/
theorem Method.mem_of_extremum (done : extremum wanted values = .ok (.decimal r)) :
    ∃ v ∈ values, v.toDecimal = .ok r := by
  obtain ⟨found, extreme, done⟩ := bind_eq_ok done
  cases found with
  | none => cases done
  | some best =>
    cases done
    exact (mem_of_extremumFrom extreme).resolve_left (by rintro ⟨⟩)

theorem Method.inRange_of_extremum (done : extremum wanted values = .ok (.decimal r)) :
    r.InRange := by
  obtain ⟨v, -, operand⟩ := mem_of_extremum done
  exact Value.inRange_of_toDecimal operand

end Arithmetic

/-! ## 2. Rules

`Admitted` says where a decimal beyond the limit can come from, and it has no case for arithmetic.
A rule is shown to give an admitted value from admitted ones, kind by kind.  The kinds that
calculate give more than that, a number of the policy. -/

/-- **A value that may come up** in an evaluation.  A decimal that is beyond the scale limit is one
that is bound to a name, or one that a method of the host gave for values that may come up. -/
inductive Admitted (env : Environment) : Value → Prop
  | null : Admitted env .null
  | bool (truth : Bool) : Admitted env (.bool truth)
  | text (content : String) : Admitted env (.text content)
  | bound {name : String} {d : Decimal} (bound : env.bindings.get? name = some (.decimal d)) :
    Admitted env (.decimal d)
  | returned {name : String} {method : Method} {arguments : List Value} {d : Decimal}
    (found : env.methods.get? name = some method) (host : ∀ entry ∈ Registry.builtin.entries,
      method.run ≠ entry.2.run)
    (admits : method.arity.admits arguments.length = true)
    (known : ∀ v ∈ arguments, Admitted env v) (done : method.run arguments = .ok (.decimal d)) :
    Admitted env (.decimal d)
  | inRange {d : Decimal} (inRange : d.InRange) : Admitted env (.decimal d)

/-- **A node that calculates**: a signed operand, or a chain with an operator. -/
def Calculates (kind : Kind) (children : Nat) : Prop :=
  kind = .signed ∨ (kind = .additive ∨ kind = .multiplicative) ∧ 2 ≤ children

/-- **A value that was calculated** is a decimal within the limits of the policy. -/
def Calculated (policy : Policy) (v : Value) : Prop := ∃ d, v = .decimal d ∧ policy.Limits d

section Rules

variable {env : Environment} {policy : Policy} {operands : List Operand} {v result : Value}
  {kind : Kind} {slice : String}

theorem Calculated.admitted (calculated : Calculated env.policy v) : Admitted env v := by
  obtain ⟨d, rfl, limits⟩ := calculated
  exact .inRange limits.1

/-- The values of operands that may come up. -/
def Known (env : Environment) (operands : List Operand) : Prop :=
  ∀ o ∈ operands, ∀ v, o.value? = some v → Admitted env v

theorem Known.value (known : Known env operands) {o : Operand} (member : o ∈ operands)
    (read : o.value = .ok v) : Admitted env v := by
  rw [Operand.value] at read
  split at read
  · rename_i value
    cases read
    exact known o member v value
  · cases read

/-- **Behind an operator a chain has calculated**: its last result comes from an operation. -/
theorem calculated_chainFrom (done : Rule.chainFrom policy result operands = .ok v) :
    operands = [] ∧ v = result ∨ Calculated policy v := by
  induction result, operands using Rule.chainFrom.induct with
  | case1 result =>
    cases done
    exact .inl ⟨rfl, rfl⟩
  | case2 result head => cases done
  | case3 result operator operand rest ih =>
    rw [Rule.chainFrom] at done
    obtain ⟨symbol, _, done⟩ := bind_eq_ok done
    split at done
    · cases done
    · obtain ⟨right, _, done⟩ := bind_eq_ok done
      obtain ⟨d, applied, done⟩ := bind_eq_ok done
      -- Whatever follows, the result so far is an operation's already.
      right
      rcases ih d done with ⟨_, rfl⟩ | calculated
      · exact ⟨d, rfl, Operator.limits_of_apply applied⟩
      · exact calculated

/-- **A chain** passes its only operand on, and has calculated otherwise. -/
theorem calculated_chain (done : Rule.chain policy operands = .ok v) :
    (∃ only, operands = [only] ∧ only.value = .ok v) ∨ Calculated policy v := by
  cases operands with
  | nil => cases done
  | cons first rest =>
    obtain ⟨start, read, done⟩ := bind_eq_ok done
    rcases calculated_chainFrom done with ⟨rfl, rfl⟩ | calculated
    · exact .inl ⟨first, rfl, read⟩
    · exact .inr calculated

theorem calculated_signed {sign operand : Operand}
    (done : Rule.signed policy sign operand = .ok v) : Calculated policy v := by
  have calculated : ∀ {operator : Operator}, (do
      let value ← operand.value
      return Value.decimal (← operator.apply policy (.ofInt 0) value)) = .ok v →
        Calculated policy v := by
    intro operator done
    obtain ⟨value, _, done⟩ := bind_eq_ok done
    obtain ⟨d, applied, done⟩ := bind_eq_ok done
    cases done
    exact ⟨d, rfl, Operator.limits_of_apply applied⟩
  obtain ⟨symbol, _, done⟩ := bind_eq_ok done
  dsimp only at done
  split at done
  · exact calculated done
  · exact calculated done
  · cases done

/-- **What calculates gives a number of the policy.** -/
theorem calculated_rule (calculates : Calculates kind operands.length)
    (done : rule env kind slice operands = .ok v) : Calculated env.policy v := by
  rcases calculates with rfl | ⟨chain, several⟩
  · rw [rule.eq_def] at done
    dsimp only at done
    split at done
    · exact calculated_signed done
    · cases done
  · have chained : Rule.chain env.policy operands = .ok v := by
      rcases chain with rfl | rfl <;> exact done
    rcases calculated_chain chained with ⟨only, rfl, _⟩ | calculated
    · exact absurd several (by simp)
    · exact calculated

variable {a b c : Operand}

theorem admitted_connective {token : String} {decisive : Bool}
    (done : Rule.connective kind token decisive a b c = .ok v) : Admitted env v := by
  obtain ⟨symbol, _, done⟩ := bind_eq_ok done
  split at done
  · cases done
  · obtain ⟨truth, _, done⟩ := bind_eq_ok done
    split at done
    · cases done
      exact .bool _
    · obtain ⟨truth, _, done⟩ := bind_eq_ok done
      cases done
      exact .bool _

theorem admitted_equality (done : Rule.equality a b c = .ok v) : Admitted env v := by
  obtain ⟨left, _, done⟩ := bind_eq_ok done
  obtain ⟨right, _, done⟩ := bind_eq_ok done
  obtain ⟨symbol, _, done⟩ := bind_eq_ok done
  split at done <;> cases done <;> exact .bool _

theorem admitted_relation (done : Rule.relation a b c = .ok v) : Admitted env v := by
  obtain ⟨left, _, done⟩ := bind_eq_ok done
  obtain ⟨right, _, done⟩ := bind_eq_ok done
  split at done
  · cases done
  · obtain ⟨symbol, _, done⟩ := bind_eq_ok done
    split at done <;> cases done <;> exact .bool _

theorem Known.choice (known : Known env [a, b, c]) (done : Rule.choice a b c = .ok v) :
    Admitted env v := by
  obtain ⟨truth, _, done⟩ := bind_eq_ok done
  split at done
  · exact known.value (by simp) done
  · exact known.value (by simp) done

theorem Known.passOne (known : Known env operands) (done : Rule.passOne kind operands = .ok v) :
    Admitted env v := by
  rw [Rule.passOne.eq_def] at done
  split at done
  · exact known.value List.mem_cons_self done
  · cases done

theorem Known.passOneOr (known : Known env operands)
    {three : Operand → Operand → Operand → Except Fault Value}
    (admitted : ∀ a b c, three a b c = .ok v → Admitted env v)
    (done : Rule.passOneOr kind three operands = .ok v) : Admitted env v := by
  rw [Rule.passOneOr.eq_def] at done
  split at done
  · exact known.value List.mem_cons_self done
  · exact admitted _ _ _ done
  · cases done

/-- **A built-in method** gives no decimal beyond the limit, whatever its arguments are. -/
theorem inRange_of_builtin {entry : String × Method} (member : entry ∈ Registry.builtin.entries)
    {values : List Value} {d : Decimal} (done : entry.2.run values = .ok (.decimal d)) :
    d.InRange := by
  simp only [Registry.builtin, List.mem_cons, List.not_mem_nil, or_false] at member
  rcases member with rfl | rfl | rfl
  · exact Method.inRange_of_extremum done
  · exact Method.inRange_of_extremum done
  · change Method.containsAny values = _ at done
    rw [Method.containsAny.eq_def] at done
    split at done <;> cases done

/-- **A call** gives what its method does.  What a decimal may be depends on whether a built-in
method gave it, for these keep to the limit. -/
theorem admitted_invoke {name : String} {arguments : List Value}
    (known : ∀ v ∈ arguments, Admitted env v)
    (done : env.methods.invoke name arguments = .ok v) : Admitted env v := by
  rw [Registry.invoke] at done
  split at done
  · cases done
  · rename_i method found
    obtain ⟨_, valid, done⟩ := bind_eq_ok done
    have admits : method.arity.admits arguments.length = true := by
      rw [Arity.validate] at valid
      split at valid
      · assumption
      · cases valid
    cases v with
    | null => exact .null
    | bool truth => exact .bool truth
    | text content => exact .text content
    | decimal d =>
      -- A built-in method may be registered under any name, and a method of the host under a
      -- built-in one's.
      by_cases host : ∀ entry ∈ Registry.builtin.entries, method.run ≠ entry.2.run
      · exact .returned found host admits known done
      · push Not at host
        obtain ⟨entry, member, same⟩ := host
        exact .inRange (inRange_of_builtin member (same ▸ done))

theorem Known.values (known : Known env operands) {values : List Value}
    (read : operands.mapM Operand.value = .ok values) : ∀ v ∈ values, Admitted env v := by
  have each : ∀ o ∈ operands, ∀ v, o.value = .ok v → Admitted env v := fun o member v =>
    known.value member
  exact forall_mem_of_forall₂ (forall₂_of_mapM read) (fun o v read admitted => admitted v read) each

theorem admitted_binding (name : String) : Admitted env ((env.bindings.get? name).getD .null) := by
  cases bound : env.bindings.get? name with
  | none => exact .null
  | some v =>
    cases v with
    | null => exact .null
    | bool truth => exact .bool truth
    | text content => exact .text content
    | decimal d => exact .bound bound

/-- **A rule gives a value that may come up** if its operands have such values.  One case for each
kind.  What is calculated has been checked, and everything else is one of the operands, bound, or no
decimal. -/
theorem admitted_rule (known : Known env operands) (done : rule env kind slice operands = .ok v) :
    Admitted env v := by
  cases kind with
  | additive | multiplicative =>
    rcases calculated_chain done with ⟨only, rfl, read⟩ | calculated
    · exact known.value List.mem_cons_self read
    · exact calculated.admitted
  | signed => exact (calculated_rule (.inl rfl) done).admitted
  | group | primary | unary | expression | condition | consequent | alternative =>
    exact known.passOne done
  | disjunction | conjunction => exact known.passOneOr (fun _ _ _ => admitted_connective) done
  | equality => exact known.passOneOr (fun _ _ _ => admitted_equality) done
  | relational => exact known.passOneOr (fun _ _ _ => admitted_relation) done
  | conditional =>
    rw [rule.eq_def] at done
    dsimp only at done
    split at done
    · exact known.choice done
    · cases done
  | call =>
    rw [rule.eq_def] at done
    dsimp only at done
    split at done
    · cases done
    · obtain ⟨name, _, done⟩ := bind_eq_ok done
      obtain ⟨values, read, done⟩ := bind_eq_ok done
      have behind : Known env _ := fun o member => known o (List.mem_cons_of_mem _ member)
      exact admitted_invoke (behind.values read) done
  | number =>
    rw [rule.eq_def] at done
    dsimp only at done
    split at done
    · rename_i literal
      cases done
      exact .inRange (Decimal.inRange_of_ofNumeral literal)
    · cases done
  | text =>
    rw [rule.eq_def] at done
    dsimp only at done
    split at done <;> cases done
    exact .text _
  | symbol =>
    cases done
    exact .text slice
  | reference =>
    cases done
    exact admitted_binding slice

/-- **A value as expected** of a node: it may come up, and where the node calculates it is a number
of the policy. -/
structure Expected (env : Environment) (kind : Kind) (children : Nat) (v : Value) : Prop where
  admitted : Admitted env v
  calculated : Calculates kind children → Calculated env.policy v

theorem expected_rule (known : Known env operands) (done : rule env kind slice operands = .ok v) :
    Expected env kind operands.length v where
  admitted := admitted_rule known done
  calculated := fun calculates => calculated_rule calculates done

end Rules

/-! ## 3. Terms

Evaluation applies rules to values of rules, so by induction on terms everything that comes up is as
expected of its node. -/

variable {env : Environment}

/-- Operands of terms with values that may come up have such values. -/
theorem known_of_answers {ts : List Term} {operands : List Operand}
    (answers : List.Forall₂ (Term.Answers env) ts operands)
    (below : ∀ t ∈ ts, ∀ v, t.evaluate env = .ok v → Admitted env v) : Known env operands :=
  forall_mem_of_forall₂ answers (fun _ _ answer admitted v known =>
    admitted v (answer.value v known)) below

/-- **Every term has a value as expected**, if it has any. -/
theorem Term.expected_evaluate (t : Term) : ∀ v, t.evaluate env = .ok v →
    Expected env t.kind t.children.length v := by
  induction t with
  | node kind slice children ih =>
    intro v done
    rw [evaluate_eq] at done
    obtain ⟨operands, read, done⟩ := bind_eq_ok done
    have answers := answers_operands read
    have known := known_of_answers answers fun child member v value =>
      (ih child member v value).admitted
    rw [answers.length_eq]
    exact expected_rule known (mapError_eq_ok done)

/-! ## 4. Runs

A run is looked at between any two of its events.  The table there is made from the events so far
(`replay`), and the events in front are a run's events, too.  So the invariant of the table holds at
every point, and with it a slot holds the value of a term, which the last section is about. -/

namespace Forest

/-- **The value of a forest** may come up, and that of several roots is calculated. -/
theorem expected_meaning {f : Forest} {v : Value} (done : f.meaning env = .ok v) :
    Admitted env v ∧ (2 ≤ f.terms.length → Calculated env.policy v) := by
  obtain ⟨roots, read, done⟩ := bind_eq_ok done
  have answers := Term.answers_mapM read
  have known := known_of_answers answers fun t _ v value => (t.expected_evaluate v value).admitted
  rw [answers.length_eq]
  split at done
  · cases done
  · exact ⟨known.value List.mem_cons_self done, fun several => absurd several (by simp)⟩
  · have chained := calculated_chain (mapError_eq_ok done)
    rcases chained with ⟨only, rfl, value⟩ | calculated
    · exact ⟨known.value List.mem_cons_self value, fun several => absurd several (by simp)⟩
    · exact ⟨calculated.admitted, fun _ => calculated⟩

/-! ### Points of a run -/

/-- **The table behind some events**, from the one in front of them. -/
def replay (before : Values) (events : List Event) : Values :=
  events.foldl (fun values event =>
    match event with
    | .fill i v => values.fill i v
    | .call _ | .apply _ | .done _ => values) before

variable {f : Forest} {before after : Values} {first later events : List Event}

/-- **Events as they should be have one table behind them.** -/
theorem Steps.after_eq (steps : f.Steps env before events after) :
    after = replay before events := by
  induction steps with
  | nil => rfl
  | call i _ ih => exact ih
  | apply h met answered _ ih => exact ih
  | fill h inside empty value _ ih => exact ih
  | done h known value _ ih => exact ih

/-- **They are so up to any point** between them. -/
theorem Steps.upTo (steps : f.Steps env before (first ++ later) after) :
    f.Steps env before first (replay before first) := by
  induction first generalizing before with
  | nil => exact .nil before
  | cons event first ih =>
    cases steps with
    | call i rest => exact .call i (ih rest)
    | apply h met answered rest => exact .apply h met answered (ih rest)
    | fill h inside empty value rest => exact .fill h inside empty value (ih rest)
    | done h known value rest => exact .done h known value (ih rest)

/-- **They keep the invariant of the table.** -/
theorem Steps.agrees (steps : f.Steps env before events after) (agrees : Agrees f env before) :
    Agrees f env after := by
  induction steps with
  | nil => exact agrees
  | call i _ ih => exact ih agrees
  | apply h met answered _ ih => exact ih agrees
  | fill h inside empty value _ ih => exact ih (agrees.fill h value).1
  | done h known value _ ih => exact ih agrees

/-- **Slots as expected**: each one that is filled is that of a node, and has a value as expected of
the node. -/
def SlotsExpected (f : Forest) (env : Environment) (values : Values) : Prop :=
  ∀ (i : Nat) (v : Value), values.get? i = some v →
    ∃ h : i < f.size, Expected env (f.node i h).kind (f.node i h).children.length v

theorem Agrees.slotsExpected {values : Values} (agrees : Agrees f env values) :
    f.SlotsExpected env values := by
  intro i v known
  have h : i < f.size := agrees.size_eq ▸ Values.lt_size_of_get? known
  have expected := (f.unfold i h).expected_evaluate v (agrees.holds i h v known)
  rw [kind_unfold, length_children_unfold] at expected
  exact ⟨h, expected⟩

/-- **The table at every point of a run** has slots as expected. -/
theorem slotsExpected_replay (point : (f.traceRoots env).events = first ++ later) :
    f.SlotsExpected env (replay (.start f.size) first) := by
  obtain ⟨after, steps, -, -⟩ := traceRoots_stepsTo f env
  rw [point] at steps
  exact (steps.upTo.agrees (agrees_start f env)).slotsExpected

/-! ### Outcomes -/

/-- **What values come up when a forest is evaluated.**  At every point of the run the slots that
are filled are as expected: no value there is a decimal beyond the scale limit, but one that is
bound to a name or that a method of the host gave, or one of these passed on; and under a precision,
a signed operand and a chain with an operator have no more digits than it says.  So it is with the
outcome, where several roots are such a chain. -/
theorem evaluate_expected (f : Forest) (env : Environment) :
    (f.collapse.traceRoots env).outcome = f.collapse.forceRoots env ∧
      (∀ values, f.collapse.forceRoots env = .ok values →
        values = replay (.start f.collapse.size) (f.collapse.traceRoots env).events) ∧
      (∀ first later, (f.collapse.traceRoots env).events = first ++ later →
        f.collapse.SlotsExpected env (replay (.start f.collapse.size) first)) ∧
      ∀ v, f.evaluate env = .ok v →
        Admitted env v ∧ (2 ≤ f.collapse.roots.size → Calculated env.policy v) := by
  obtain ⟨after, steps, out, -⟩ := traceRoots_stepsTo f.collapse env
  rw [outcome_traceRoots] at out
  refine ⟨outcome_traceRoots f.collapse env, fun values forced => ?_,
    fun first later point => slotsExpected_replay point, fun v done => ?_⟩
  · rw [out values forced, steps.after_eq]
  · rw [evaluate, run_eq_meaning] at done
    rw [← length_rootNodes, ← List.length_map, ← terms]
    exact expected_meaning done

/-- For instance, two thirds to three digits. -/
theorem evaluate_expected_thirds : ∃ (f : Forest) (env : Environment),
    f.evaluate env = .ok (.decimal ⟨667, 3⟩) ∧ env.policy.Limits ⟨667, 3⟩ := by
  let f : Forest := ((((((empty.grow .number "2" [] nofun).grow .symbol "/" [] nofun).grow
    .number "3" [] nofun).grantRoot 0 (by decide)).grantRoot 1 (by decide)).grantRoot 2
      (by decide)).markCollapsed
  let env : Environment := ⟨.empty, ⟨10, .halfUp, some ⟨3, .halfEven⟩⟩, .builtin⟩
  have value : f.evaluate env = .ok (.decimal ⟨667, 3⟩) := by decide +kernel
  obtain ⟨-, -, -, outcome⟩ := evaluate_expected f env
  obtain ⟨d, same, limits⟩ := (outcome _ value).2 (by decide)
  cases same
  exact ⟨f, env, value, limits⟩

end Forest

end DecimalExpression
