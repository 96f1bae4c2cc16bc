import DecimalExpression.Proofs.Decimal.Growth
import DecimalExpression.Proofs.Evaluation.ArithmeticSteps
import DecimalExpression.Proofs.Evaluation.Ranges
import DecimalExpression.Proofs.Evaluation.Typing

/-!
# The arithmetic of well typed terms

In a well typed term arithmetic works on decimals alone.  Each of these is within the scale limit or
bound to a name, and its digits are bounded by the **weight** of the term: the digits of its
literals and of the decimals bound to its references, and a fixed number for each of its nodes
(`HasType.arises`).  So what a step needs to be looked at with bounded scales follows from the
weight and from the bindings (`ArithmeticStep.Within.fits`), and so does what it needs not to
overflow (`ArithmeticStep.Within.not_overflows`).

The weight is computed from a term, without evaluating it.  A literal of a million digits weighs a
million more.
-/

namespace DecimalExpression

/-! ## 1. Decimals that come up

A decimal in a well typed run is within the limit, or it is one that somebody bound.  What an
operation gives is of the first kind, whatever it was given, and with few digits it cannot overflow;
this is where "moderate" gets its meaning. -/

/-- **A decimal that comes up** with no more than `n` digits: it is within the limit, or it is bound
to a name. -/
structure Arises (bindings : Named Value) (n : Nat) (d : Decimal) : Prop where
  origin : d.InRange ∨ ∃ name, bindings.get? name = some (.decimal d)
  digits : d.digitCount ≤ n

/-- A value that is such a decimal. -/
def ArisesIn (bindings : Named Value) (n : Nat) (v : Value) : Prop :=
  ∃ d, v = .decimal d ∧ Arises bindings n d

/-- **A step on decimals that come up.**  The digits of its operands, and what one operation adds to
them, are within `n`. -/
def ArithmeticStep.Within (bindings : Named Value) (n : Nat) : ArithmeticStep → Prop
  | literal text => ∃ d, Decimal.ofNumeral text = .ok d
  | operation _ left right => ∃ k m, k + m + digitGrowth ≤ n ∧
    ArisesIn bindings k left ∧ ArisesIn bindings m right
  | extremum arguments => ∀ v ∈ arguments, ArisesIn bindings n v

section Arising

variable {bindings : Named Value} {policy : Policy} {operator : Operator} {n m : Nat}
  {a b d r : Decimal} {v : Value} {step : ArithmeticStep}

theorem Arises.mono (arises : Arises bindings n d) (more : n ≤ m) : Arises bindings m d :=
  ⟨arises.origin, arises.digits.trans more⟩

theorem ArisesIn.mono (arises : ArisesIn bindings n v) (more : n ≤ m) : ArisesIn bindings m v := by
  obtain ⟨d, rfl, arises⟩ := arises
  exact ⟨d, rfl, arises.mono more⟩

theorem ArithmeticStep.Within.mono (within : step.Within bindings n) (more : n ≤ m) :
    step.Within bindings m := by
  cases step with
  | literal text => exact within
  | operation operator left right =>
    obtain ⟨k, l, fits, atLeft, atRight⟩ := within
    exact ⟨k, l, fits.trans more, atLeft, atRight⟩
  | extremum arguments => exact fun v member => (within v member).mono more

theorem arises_zero (bindings : Named Value) : ArisesIn bindings 1 (.ofInt 0) :=
  ⟨⟨0, 0⟩, rfl, .inl rfl, by decide⟩

/-- What an operand is coerced to, where it is a decimal. -/
theorem eq_of_toDecimal (operand : (Value.decimal a).toDecimal = .ok b) : b = a := by
  have number := Value.number?_of_toDecimal operand
  exact (Option.some.inj number).symm

/-- **The result of an operation comes up.** -/
theorem Arises.apply (left : Arises bindings n a) (right : Arises bindings m b)
    (done : operator.apply policy (.decimal a) (.decimal b) = .ok r) :
    Arises bindings (n + m + digitGrowth) r := by
  obtain ⟨a', b', atLeft, atRight, -, inRange⟩ := Operator.exists_of_apply done
  obtain rfl := eq_of_toDecimal atLeft
  obtain rfl := eq_of_toDecimal atRight
  have digits := Operator.digitCount_of_apply atLeft atRight done
  have fewer := left.digits
  have fewer' := right.digits
  exact ⟨.inl inRange, by omega⟩

/-- **A decimal that comes up fits**, if the bound ones do. -/
theorem Arises.fits (arises : Arises bindings n d) (few : n < 2 ^ 62)
    (scales : ∀ name d, bindings.get? name = some (.decimal d) → Decimal.scaleFits d.scale = true) :
    (Value.decimal d).Fits := by
  have digits := arises.digits
  constructor
  · rintro e ⟨⟩
    obtain inRange | ⟨name, bound⟩ := arises.origin
    · obtain ⟨lower, upper⟩ := Bounded.scale_of_wide inRange.wide
      exact Bounded.scaleFits_iff.mpr ⟨lower.le, upper⟩
    · exact scales name d bound
  · rintro e ⟨⟩
    omega

/-- It is at the least scale only if a bound one is. -/
theorem Arises.scale_ne (arises : Arises bindings n d)
    (more : ∀ name d, bindings.get? name = some (.decimal d) → d.scale ≠ leastWord) :
    d.scale ≠ leastWord := by
  obtain inRange | ⟨name, bound⟩ := arises.origin
  · exact Bounded.scale_ne_leastWord inRange
  · exact more name d bound

/-- **Steps on decimals that come up are ones that there can be.**  What an operation may add to the
digits is already counted in what the step is within. -/
theorem ArithmeticStep.Within.fits (within : step.Within bindings n) (few : n < 2 ^ 62)
    (scales : ∀ name d, bindings.get? name = some (.decimal d) → Decimal.scaleFits d.scale = true) :
    step.Fits := by
  cases step with
  | literal text => trivial
  | operation operator left right =>
    obtain ⟨k, m, small, ⟨a, rfl, first⟩, ⟨b, rfl, second⟩⟩ := within
    refine ⟨first.fits (by omega) scales, second.fits (by omega) scales, ?_⟩
    intro a' b' e atLeft atRight result
    obtain rfl := eq_of_toDecimal atLeft
    obtain rfl := eq_of_toDecimal atRight
    have digits := Decimal.digitCount_of_exactResult? (Value.inRange_of_toDecimal atLeft)
      (Value.inRange_of_toDecimal atRight) result
    have fewer := first.digits
    have fewer' := second.digits
    have growth : digitGrowth = 13 * scaleLimit := rfl
    omega
  | extremum arguments =>
    intro v member
    obtain ⟨d, rfl, arises⟩ := within v member
    exact (arises.fits few scales).1

/-- **They do not overflow** under a moderate precision, unless a bound decimal is at the least
scale.  A literal that was read is within the limit, and so is no decimal at the least scale; for
operations and extrema it is the operands that count. -/
theorem ArithmeticStep.Within.not_overflows (within : step.Within bindings n) (few : n < 2 ^ 60)
    (scales : ∀ name d, bindings.get? name = some (.decimal d) → Decimal.scaleFits d.scale = true)
    (more : ∀ name d, bindings.get? name = some (.decimal d) → d.scale ≠ leastWord)
    (moderate : ∀ p, policy.precision = some p → p.digits.toNat < 2 ^ 61) :
    ¬ step.Overflows policy := by
  have fits := within.fits (by omega) scales
  cases step with
  | literal text =>
    rintro ⟨e, read, least⟩
    obtain ⟨d, literal⟩ := within
    rw [Decimal.ofNumeral, read] at literal
    obtain ⟨rfl, inRange⟩ := Decimal.inRange_of_checkScale literal
    exact Bounded.scale_ne_leastWord inRange least
  | operation operator left right =>
    obtain ⟨k, m, small, ⟨a, rfl, first⟩, ⟨b, rfl, second⟩⟩ := within
    refine Bounded.not_overflows fits.2.1 ?_ fun p precise => ⟨moderate p precise, fun _ => ?_⟩
    · rintro d (⟨⟨⟩⟩ | ⟨⟨⟩⟩)
      · exact first.scale_ne more
      · exact second.scale_ne more
    · rintro d ⟨⟩
      have fewer := second.digits
      omega
  | extremum arguments =>
    intro meets
    induction meets with
    | @here v rest least =>
      obtain ⟨d, rfl, arises⟩ := within v List.mem_cons_self
      obtain ⟨e, ⟨⟩, least⟩ := least
      exact arises.scale_ne more least
    | later _ _ ih =>
      exact ih (fun v member => within v (List.mem_cons_of_mem _ member))
        fun v member => fits v (List.mem_cons_of_mem _ member)

end Arising

/-! ## 2. Weights

The digits of a result are bounded by the digits of its operands and a constant for each operation.
Added up over a term this is its weight, which can be computed from the term and the bindings
without evaluating anything. -/

/-- The digits of a literal, or of the decimal bound to a reference. -/
def Term.leafDigits (bindings : Named Value) (kind : Kind) (text : String) : Nat :=
  match kind with
  | .number => text.length + 1
  | .reference =>
    match bindings.get? text with
    | some (.decimal d) => d.digitCount
    | _ => 0
  | _ => 0

/-- **The weight of a term**, which bounds the digits that come up in it. -/
def Term.weight (bindings : Named Value) : Term → Nat
  | ⟨kind, text, children⟩ =>
    digitGrowth + leafDigits bindings kind text
      + (children.map fun child => child.weight bindings).sum

/-- **The weight of a forest**: that of its terms. -/
def Forest.weight (bindings : Named Value) (f : Forest) : Nat :=
  (f.terms.map (Term.weight bindings)).sum

section Weights

variable {bindings : Named Value}

theorem le_sum_of_mem {ts : List Term} {t : Term} (member : t ∈ ts) :
    t.weight bindings ≤ (ts.map (Term.weight bindings)).sum :=
  List.single_le_sum (fun _ _ => Nat.zero_le _) _ (List.mem_map_of_mem member)

/-- **A term weighs what its children weigh**, and more. -/
theorem Term.weight_eq (kind : Kind) (slice : String) (children : List Term) :
    (⟨kind, slice, children⟩ : Term).weight bindings
      = digitGrowth + leafDigits bindings kind slice + (children.map (weight bindings)).sum := by
  rw [weight]

theorem Term.weight_child_le {t child : Term} (member : child ∈ t.children) :
    child.weight bindings ≤ t.weight bindings := by
  obtain ⟨kind, text, children⟩ := t
  rw [Term.weight_eq]
  have part : child.weight bindings ≤ (children.map (weight bindings)).sum := le_sum_of_mem member
  exact part.trans (Nat.le_add_left _ _)

end Weights

/-! ## 3. Chains

In a chain the bound grows from link to link, and each result is the operand of the next step.  The
induction carries the digits so far, and the weight of the links behind; what it shows of a chain
are both the steps it does and the result it comes to. -/

section Chains

variable {bindings : Named Value} {policy : Policy} {operands : List Operand} {n m : Nat}

/-- **Operators and decimals that come up**, in turn; the digits of the decimals, and what one
operation adds for each, come to `m`. -/
inductive Linked (bindings : Named Value) : List Operand → Nat → Prop
  | nil : Linked bindings [] 0
  | cons (sign : Operand) {operand : Operand} {d : Decimal} {rest : List Operand} {n m : Nat}
    (value : operand.value = .ok (.decimal d)) (arises : Arises bindings n d)
    (behind : Linked bindings rest m) :
    Linked bindings (sign :: operand :: rest) (n + digitGrowth + m)

/-- **A chain on decimals that come up**: so are the steps that it does, and its result.  By
induction on the links, with the digits of the result so far. -/
theorem Linked.within (policy : Policy) (linked : Linked bindings operands m) {a : Decimal}
    (arises : Arises bindings n a) :
    (∀ step ∈ Rule.chainFromArithmetic policy (.decimal a) operands,
      step.Within bindings (n + m)) ∧
    ∀ v, Rule.chainFrom policy (.decimal a) operands = .ok v → ArisesIn bindings (n + m) v := by
  induction linked generalizing a n with
  | nil =>
    refine ⟨List.forall_mem_nil _, ?_⟩
    rintro v ⟨⟩
    exact ⟨a, rfl, arises⟩
  | @cons sign operand b rest k m value arisesRight behind ih =>
    -- What an operation gives comes up again, with the digits it has taken.
    have later {operator : Operator} {r : Decimal}
        (done : operator.apply policy (.decimal a) (.decimal b) = .ok r) :=
      ih (arises.apply arisesRight done)
    have total : n + k + digitGrowth + m = n + (k + digitGrowth + m) := by omega
    rw [Rule.chainFromArithmetic, Rule.chainFrom, value]
    constructor
    · intro step member
      obtain ⟨symbol, -, member⟩ := mem_stepsBehind.mp member
      split at member
      · cases member
      rcases List.mem_cons.mp member with rfl | member
      · exact ⟨n, k, by omega, ⟨a, rfl, arises⟩, b, rfl, arisesRight⟩
      · obtain ⟨r, done, member⟩ := mem_stepsBehind.mp member
        exact total ▸ (later done).1 step member
    · intro v done
      obtain ⟨symbol, -, done⟩ := bind_eq_ok done
      split at done
      · cases done
      rw [ok_bind] at done
      obtain ⟨r, applied, done⟩ := bind_eq_ok done
      exact total ▸ (later applied).2 v done

namespace Term

/-- Terms that are evaluated to operands, one by one. -/
abbrev Evaluated (env : Environment) : List Term → List Operand → Prop :=
  List.Forall₂ fun t o => evaluating env t = .ok o

/-- What the operands of a chain come to is linked, and its digits are within their weight.  By
induction on the links; an operator weighs as much as its operation may add. -/
theorem exists_linked {env : Environment} {rest : List (String × Term)}
    (each : ∀ link ∈ rest, ∀ v, link.2.evaluate env = .ok v →
      ArisesIn bindings (link.2.weight bindings) v) :
    ∀ {operands : List Operand}, Evaluated env (links rest) operands →
      ∃ m, Linked bindings operands m ∧ m ≤ ((links rest).map (weight bindings)).sum := by
  induction rest with
  | nil =>
    rintro operands ⟨⟩
    exact ⟨0, .nil, Nat.zero_le _⟩
  | cons link rest ih =>
    intro operands evaluated
    obtain ⟨here, later⟩ := List.forall_mem_cons.mp each
    obtain _ | ⟨-, behind⟩ := evaluated
    obtain _ | ⟨read, behind⟩ := behind
    obtain ⟨v, value, rfl⟩ := exists_of_evaluating read
    obtain ⟨d, rfl, arises⟩ := here v value
    obtain ⟨m, linked, few⟩ := ih later behind
    refine ⟨_, .cons _ rfl arises linked, ?_⟩
    have growth : digitGrowth ≤ (leaf .symbol link.1).weight bindings := by
      rw [leaf, weight_eq, Nat.add_assoc]
      exact Nat.le_add_right _ _
    rw [links, List.map_cons, List.map_cons, List.sum_cons, List.sum_cons]
    omega

/-- **A chain of terms whose decimals come up** does steps on such decimals, and gives one.  The
first operand starts with its own weight, and the links add theirs. -/
theorem chain_within (policy : Policy) {env : Environment} {first : Term}
    {rest : List (String × Term)}
    (atFirst : ∀ v, first.evaluate env = .ok v → ArisesIn bindings (first.weight bindings) v)
    (atRest : ∀ link ∈ rest, ∀ v, link.2.evaluate env = .ok v →
      ArisesIn bindings (link.2.weight bindings) v)
    (evaluated : Evaluated env (first :: links rest) operands) :
    (∀ step ∈ Rule.chainArithmetic policy operands,
      step.Within bindings ((first :: links rest).map (weight bindings)).sum) ∧
    ∀ v, Rule.chain policy operands = .ok v →
      ArisesIn bindings ((first :: links rest).map (weight bindings)).sum v := by
  obtain _ | ⟨read, behind⟩ := evaluated
  obtain ⟨v, value, rfl⟩ := exists_of_evaluating read
  obtain ⟨d, rfl, arises⟩ := atFirst v value
  obtain ⟨m, linked, few⟩ := exists_linked atRest behind
  obtain ⟨steps, result⟩ := linked.within policy arises
  have total : first.weight bindings + m ≤ ((first :: links rest).map (weight bindings)).sum := by
    rw [List.map_cons, List.sum_cons]
    omega
  exact ⟨fun step member => (steps step member).mono total,
    fun w done => (result w done).mono total⟩

/-- **A signed decimal that comes up**: its step is on such decimals, and so is its result.  Zero is
on the left, with one digit. -/
theorem signed_within (policy : Policy) {env : Environment} {sign : String} {operand : Term}
    (atOperand : ∀ v, operand.evaluate env = .ok v → ArisesIn bindings n v)
    (evaluated : Evaluated env [leaf .symbol sign, operand] operands) :
    ∃ a b, operands = [a, b] ∧
      (∀ step ∈ Rule.signedArithmetic a b, step.Within bindings (1 + n + digitGrowth)) ∧
      ∀ v, Rule.signed policy a b = .ok v → ArisesIn bindings (1 + n + digitGrowth) v := by
  obtain _ | ⟨-, behind⟩ := evaluated
  obtain _ | ⟨read, behind⟩ := behind
  obtain _ | _ := behind
  obtain ⟨w, value, rfl⟩ := exists_of_evaluating read
  obtain ⟨d, rfl, arises⟩ := atOperand w value
  obtain ⟨zero, same, zeroArises⟩ := arises_zero bindings
  have operation (operator : Operator) :
      (ArithmeticStep.operation operator (.ofInt 0) (.decimal d)).Within bindings
        (1 + n + digitGrowth) :=
    ⟨1, n, le_rfl, arises_zero bindings, d, rfl, arises⟩
  have result {operator : Operator} {v : Value}
      (done : (operator.apply policy (.ofInt 0) (.decimal d)).map Value.decimal = .ok v) :
      ArisesIn bindings (1 + n + digitGrowth) v := by
    rw [same] at done
    cases applied : operator.apply policy (.decimal zero) (.decimal d) with
    | error fault => rw [applied] at done; cases done
    | ok r =>
      rw [applied] at done
      cases done
      exact ⟨r, rfl, zeroArises.apply arises applied⟩
  refine ⟨_, _, rfl, ?_, ?_⟩
  · intro step member
    obtain ⟨symbol, -, member⟩ := mem_stepsBehind.mp member
    split at member
    · exact List.mem_singleton.mp member ▸ operation .add
    · exact List.mem_singleton.mp member ▸ operation .subtract
    · cases member
  · intro v done
    obtain ⟨symbol, -, done⟩ := bind_eq_ok done
    dsimp only at done
    split at done
    · exact result done
    · exact result done
    · cases done

/-- The values of evaluated arguments come up, if what these evaluate to does. -/
theorem values_arise {env : Environment} {arguments : List Term} {values : List Value}
    (each : ∀ a ∈ arguments, ∀ v, a.evaluate env = .ok v → ArisesIn bindings n v)
    (evaluated : Evaluated env arguments operands)
    (read : operands.mapM Operand.value = .ok values) : ∀ v ∈ values, ArisesIn bindings n v := by
  have known : ∀ o ∈ operands, ∀ v, o.value = .ok v → ArisesIn bindings n v := by
    refine forall_mem_of_forall₂ evaluated (fun a o read arise v value => ?_) each
    obtain ⟨w, result, rfl⟩ := exists_of_evaluating read
    obtain rfl : w = v := Except.ok.inj value
    exact arise w result
  exact forall_mem_of_forall₂ (forall₂_of_mapM read) (fun o v value arise => arise v value) known

end Term

end Chains

/-! ## 4. Terms -/

namespace Term

variable {bindings : Named Value} {policy : Policy} {t : Term}

/-- What is evaluated to a decimal with the built-in methods is within the limit or bound to a
name. -/
theorem origin_of_evaluate {d : Decimal}
    (value : t.evaluate ⟨bindings, policy, .builtin⟩ = .ok (.decimal d)) :
    d.InRange ∨ ∃ name, bindings.get? name = some (.decimal d) := by
  cases (t.expected_evaluate _ value).admitted with
  | bound bound => exact .inr ⟨_, bound⟩
  | inRange inRange => exact .inl inRange
  | returned found host => exact absurd rfl (host _ (Named.mem_of_get? found))

/-- A well typed decimal comes up with the digits that it has. -/
theorem HasType.arisesIn (policy : Policy) {n : Nat} (typed : t.HasType bindings .decimal)
    (shaped : t.Shaped)
    (digits : ∀ d, t.evaluate ⟨bindings, policy, .builtin⟩ = .ok (.decimal d) → d.digitCount ≤ n) :
    ∀ v, t.evaluate ⟨bindings, policy, .builtin⟩ = .ok v → ArisesIn bindings n v := by
  intro v value
  obtain ⟨d, rfl⟩ : ∃ d, v = .decimal d := by
    have outcome : ComputesType .decimal (t.evaluate ⟨bindings, policy, .builtin⟩) :=
      typed.computes shaped
    rcases outcome with ⟨w, same, decimal⟩ | ⟨_, _, failed⟩
    · cases value.symm.trans same
      exact Value.exists_decimal decimal
    · cases value.symm.trans failed
  exact ⟨d, rfl, origin_of_evaluate value, digits d value⟩

/-- What is evaluated without a selection is evaluated one by one. -/
theorem evaluated_of_operands {env : Environment} {operands : List Operand}
    (all : ¬ IsSelective t.kind t.children.length) (read : t.operands env = .ok operands) :
    Evaluated env t.children operands := by
  rw [operands_of_not_selective all] at read
  exact forall₂_of_mapM read

theorem not_selective_of_isChain {kind : Kind} {count : Nat} (flat : isChain kind) :
    ¬ IsSelective kind count := by
  rintro ⟨-, rfl | rfl | rfl⟩ <;> cases flat

theorem not_selective_call {count : Nat} : ¬ IsSelective .call count := by
  rintro ⟨-, same | same | same⟩ <;> cases same

/-- A signed operand weighs enough for its operation. -/
theorem signed_weight_le (slice sign : String) (operand : Term) :
    1 + operand.weight bindings + digitGrowth
      ≤ (⟨.signed, slice, [leaf .symbol sign, operand]⟩ : Term).weight bindings := by
  have growth : digitGrowth = 13 * scaleLimit := rfl
  have limit : scaleLimit = 100000 := rfl
  rw [weight_eq, List.map_cons, List.sum_cons, leaf, weight_eq, List.map_cons, List.sum_cons,
    List.map_nil]
  omega

/-- What `min` or `max` gives is one of its arguments. -/
theorem exists_of_invoke {name : String} (isNamed : name = "min" ∨ name = "max") {d : Decimal}
    {values : List Value} (done : Registry.builtin.invoke name values = .ok (.decimal d)) :
    ∃ v ∈ values, v.toDecimal = .ok d := by
  rcases isNamed with rfl | rfl
  · obtain ⟨-, -, done⟩ := bind_eq_ok done
    exact Method.mem_of_extremum done
  · obtain ⟨-, -, done⟩ := bind_eq_ok done
    exact Method.mem_of_extremum done

/-- **The digits of a well typed decimal** are within the weight of its term.  By induction on the
term: each operation adds the digits of its operands, and each node weighs what an operation
adds. -/
theorem HasType.digits (typed : t.HasType bindings .decimal) (shaped : t.Shaped) : ∀ d,
    t.evaluate ⟨bindings, policy, .builtin⟩ = .ok (.decimal d) →
      d.digitCount ≤ t.weight bindings := by
  induction t with
  | node kind slice children ih =>
    intro d value
    have part : ∀ child ∈ children,
        child.weight bindings ≤ (⟨kind, slice, children⟩ : Term).weight bindings :=
      fun child member => weight_child_le member
    have below {child : Term} (member : child ∈ children)
        (typed : child.HasType bindings .decimal) :=
      typed.arisesIn policy (shaped.child member)
        (ih child member typed (shaped.child member))
    cases typed with
    | number =>
      rw [← leaf, evaluate_number] at value
      have literal := mapError_eq_ok (mapError_eq_ok value)
      cases numeral : Decimal.ofNumeral slice with
      | error cause => rw [numeral] at literal; cases literal
      | ok number =>
        rw [numeral] at literal
        cases literal
        have fewer := Decimal.digitCount_of_ofNumeral numeral
        rw [weight_eq, leafDigits]
        omega
    | reference v bound typed =>
      rw [← leaf, evaluate_reference, bound] at value
      cases value
      rw [weight_eq, leafDigits, bound]
      dsimp only
      omega
    | @group _ body _ below =>
      have body := ih _ List.mem_cons_self below (shaped.child List.mem_cons_self)
      rw [evaluate_layer rfl] at value
      exact (body d value).trans (part _ List.mem_cons_self)
    | @chain _ flat _ first rest atFirst atRest =>
      obtain ⟨operands, read, done⟩ := bind_eq_ok ((evaluate_eq _ _).symm.trans value)
      have chained : Rule.chain policy operands = .ok (.decimal d) := by
        have done := mapError_eq_ok done
        cases kind <;> first | exact done | cases flat
      have evaluated := evaluated_of_operands (not_selective_of_isChain flat) read
      have behind {link : String × Term} (member : link ∈ rest) : link.2 ∈ first :: links rest :=
        List.mem_cons_of_mem first (operand_mem_links member)
      obtain ⟨e, ⟨⟩, arises⟩ := (chain_within policy
        (below List.mem_cons_self atFirst)
        (fun link member => below (behind member) (atRest link member)) evaluated).2 _ chained
      have digits := arises.digits
      rw [weight_eq]
      omega
    | @signed _ sign operand typed =>
      obtain ⟨operands, read, done⟩ := bind_eq_ok ((evaluate_eq _ _).symm.trans value)
      have evaluated := evaluated_of_operands (by rintro ⟨⟨⟩, -⟩) read
      obtain ⟨a, b, rfl, -, result⟩ := signed_within policy
        (below (List.mem_cons_of_mem _ List.mem_cons_self) typed) evaluated
      obtain ⟨e, ⟨⟩, arises⟩ := result _ (mapError_eq_ok done)
      exact arises.digits.trans (signed_weight_le _ _ _)
    | @choice _ condition consequent alternative _ atCondition atConsequent atAlternative =>
      rw [evaluate_choice] at value
      obtain ⟨v, -, value⟩ := bind_eq_ok value
      obtain ⟨decided, -, value⟩ := bind_eq_ok value
      have first : consequent ∈ [condition, consequent, alternative] := by simp
      have second : alternative ∈ [condition, consequent, alternative] := by simp
      cases decided with
      | true => exact (ih _ first atConsequent (shaped.child first) d value).trans (part _ first)
      | false =>
        exact (ih _ second atAlternative (shaped.child second) d value).trans (part _ second)
    | @extremum _ name isNamed arguments several each =>
      rw [evaluate_call] at value
      obtain ⟨values, read, done⟩ := bind_eq_ok value
      have arise : ∀ v ∈ values,
          ArisesIn bindings ((⟨.call, slice, leaf .symbol name :: arguments⟩ : Term).weight
            bindings) v :=
        forall_mem_of_forall₂ (forall₂_of_mapM read) (fun a v read arise => arise v read)
          fun a member v read =>
            (below (List.mem_cons_of_mem _ member) (each a member) v read).mono
              (part a (List.mem_cons_of_mem _ member))
      obtain ⟨v, member, operand⟩ := exists_of_invoke isNamed (mapError_eq_ok done)
      obtain ⟨e, rfl, arises⟩ := arise v member
      exact eq_of_toDecimal operand ▸ arises.digits

/-- A well typed decimal comes up with the weight of its term. -/
theorem HasType.arises (typed : t.HasType bindings .decimal) (shaped : t.Shaped) :
    ∀ v, t.evaluate ⟨bindings, policy, .builtin⟩ = .ok v →
      ArisesIn bindings (t.weight bindings) v :=
  typed.arisesIn policy shaped (typed.digits shaped)

/-- **The arithmetic of a well typed term's own rule** is on decimals that come up.  By cases on the
typing.  Chains, signs and extrema do steps on values of their children, literals read their own
text, and all other rules do no arithmetic. -/
theorem HasType.within {τ : ValueType} (typed : t.HasType bindings τ) (shaped : t.Shaped)
    (literal : t.kind = .number → ∃ d, Decimal.ofNumeral t.text = .ok d) :
    ∀ step ∈ t.arithmetic ⟨bindings, policy, .builtin⟩,
      step.Within bindings (t.weight bindings) := by
  intro step member
  obtain ⟨operands, read, member⟩ := mem_stepsBehind.mp member
  cases typed with
  | number => exact List.mem_singleton.mp member ▸ literal rfl
  | @chain kind flat _ first rest atFirst atRest =>
    have chained : step ∈ Rule.chainArithmetic policy operands := by
      cases kind <;> first | exact member | cases flat
    have behind {link : String × Term} (member : link ∈ rest) : link.2 ∈ first :: links rest :=
      List.mem_cons_of_mem first (operand_mem_links member)
    have within := (chain_within policy (atFirst.arises (shaped.child List.mem_cons_self))
      (fun link member => (atRest link member).arises (shaped.child (behind member)))
      (evaluated_of_operands (not_selective_of_isChain flat) read)).1 step chained
    refine within.mono ?_
    rw [weight_eq]
    exact Nat.le_add_left _ _
  | @signed _ sign operand below =>
    have evaluated := evaluated_of_operands (by rintro ⟨⟨⟩, -⟩) read
    obtain ⟨a, b, rfl, steps, -⟩ := signed_within policy
      (below.arises (shaped.child (List.mem_cons_of_mem _ List.mem_cons_self))) evaluated
    exact (steps step member).mono (signed_weight_le _ _ _)
  | @extremum _ name isNamed arguments several each =>
    have evaluated := evaluated_of_operands not_selective_call read
    obtain _ | ⟨-, evaluated⟩ := evaluated
    obtain ⟨symbol, -, member⟩ := mem_stepsBehind.mp member
    obtain ⟨values, read, member⟩ := mem_stepsBehind.mp member
    split at member
    · obtain rfl := List.mem_singleton.mp member
      refine values_arise (fun a member v read => ?_) evaluated read
      have among := List.mem_cons_of_mem (leaf .symbol name) member
      exact ((each a member).arises (shaped.child among) v read).mono (weight_child_le among)
    · cases member
  | containsAny slice several types each =>
    have evaluated := evaluated_of_operands not_selective_call read
    obtain _ | ⟨named, evaluated⟩ := evaluated
    obtain ⟨v, -, rfl⟩ := exists_of_evaluating named
    obtain ⟨values, -, member⟩ := mem_stepsBehind.mp member
    split at member
    · rename_i extremal
      have same : "stringContainsAny" = "min" ∨ "stringContainsAny" = "max" := extremal.1
      simp at same
    · cases member
  | connective connects => rcases connects with rfl | rfl <;> cases member
  | text | reference | group | relation | equality | choice => cases member

end Term

end DecimalExpression
