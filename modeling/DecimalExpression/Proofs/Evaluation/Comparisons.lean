import DecimalExpression.Proofs.Decimal.Magnitude
import DecimalExpression.Proofs.Evaluation.Pipeline
import Mathlib

/-!
# Comparisons

Six operators compare two operands.  Equality and order are looked up apart (`Value.equals`,
`Value.compare?`), and the operators of one kind come to one rule, those of the other kind to
another.  Still they agree (`evaluate_comparisons`): of two decimals, two texts or two truth values
exactly one of `<`, `==` and `>` holds, the other three operators are their negations, and `<` is an
order that looks at no more than `==` does.  Of other pairs the relational operators make a fault,
and only nulls are equal.

Both look-ups compare in one order: that of the numbers, of the texts, or of the truth values
(`OneKind.exists_order`).
-/

namespace DecimalExpression

open Interpreter

/-! ## 1. Values in order

Equality and order are two definitions on values.  They belong together only where the values are of
one kind: there is one order, and equality is that neither comes first.  For any two others there is
no order, and equality is both being null. -/

namespace Value

/-- **Values of one kind** that has an order. -/
inductive OneKind : Value → Value → Prop
  | decimal (a b : Decimal) : OneKind (.decimal a) (.decimal b)
  | text (a b : String) : OneKind (.text a) (.text b)
  | bool (a b : Bool) : OneKind (.bool a) (.bool b)

variable {a b c : Value} {order : Ordering}

/-- Decimals are compared as numbers. -/
theorem compare?_decimal (x y : Decimal) :
    (decimal x).compare? (decimal y) = some (compare x.toRat y.toRat) := by
  rw [compare?, Decimal.compare_eq]

theorem OneKind.symm (kind : a.OneKind b) : b.OneKind a := by
  cases kind with
  | decimal x y => exact .decimal y x
  | text x y => exact .text y x
  | bool x y => exact .bool y x

theorem OneKind.trans (left : a.OneKind b) (right : b.OneKind c) : a.OneKind c := by
  cases left with
  | decimal x y => cases right with | decimal _ z => exact .decimal x z
  | text x y => cases right with | text _ z => exact .text x z
  | bool x y => cases right with | bool _ z => exact .bool x z

/-- **Values of one kind have an order**, and are equal where neither comes first. -/
theorem OneKind.exists_order (kind : a.OneKind b) :
    ∃ order, a.compare? b = some order ∧ a.equals b = (order == .eq) := by
  cases kind with
  | decimal x y => exact ⟨_, rfl, rfl⟩
  | text x y =>
    refine ⟨_, rfl, ?_⟩
    rw [equals, Bool.eq_iff_iff, beq_iff_eq, beq_iff_eq, Std.compare_eq_iff_eq]
  | bool x y => cases x <;> cases y <;> exact ⟨_, rfl, rfl⟩

/-- What comes before a value comes before all that it comes before. -/
theorem OneKind.compare?_trans (left : a.OneKind b) (right : b.OneKind c)
    (first : a.compare? b = some .lt) (second : b.compare? c = some .lt) :
    a.compare? c = some .lt := by
  cases left with
  | decimal x y =>
    cases right with | decimal _ z =>
    rw [compare?_decimal, Option.some.injEq] at first second ⊢
    exact Std.TransCmp.lt_trans first second
  | text x y =>
    cases right with | text _ z =>
    rw [compare?, Option.some.injEq] at first second ⊢
    exact Std.TransCmp.lt_trans first second
  | bool x y =>
    cases right with | bool _ z =>
    rw [compare?, Option.some.injEq] at first second ⊢
    exact Std.TransCmp.lt_trans first second

/-- **Equal values stand at one place of the order.** -/
theorem OneKind.compare?_congr (left : a.OneKind b) (right : b.OneKind c)
    (equal : a.equals b = true) :
    a.compare? c = b.compare? c ∧ c.compare? a = c.compare? b := by
  cases left with
  | decimal x y =>
    cases right with | decimal _ z =>
    rw [equals, beq_iff_eq, Decimal.compare_eq] at equal
    simp only [compare?_decimal]
    exact ⟨congrArg some (Std.TransCmp.congr_left equal),
      congrArg some (Std.TransCmp.congr_right equal)⟩
  | text x y =>
    rw [equals, beq_iff_eq] at equal
    rw [equal]
    exact ⟨rfl, rfl⟩
  | bool x y =>
    rw [equals, beq_iff_eq] at equal
    rw [equal]
    exact ⟨rfl, rfl⟩

/-- **Other values have no order**, and are equal only where both are null.  All pairs of kinds are
gone through; two of the same kind are excluded, but for two nulls. -/
theorem of_not_oneKind (apart : ¬ a.OneKind b) :
    a.compare? b = none ∧ (a.equals b = true ↔ a = .null ∧ b = .null) := by
  have first : a ≠ .null → ¬ (a = .null ∧ b = .null) := fun present nulls => present nulls.1
  cases a with
  | null =>
    cases b with
    | null => exact ⟨rfl, iff_of_true rfl ⟨rfl, rfl⟩⟩
    | bool | decimal | text => exact ⟨rfl, iff_of_false Bool.false_ne_true (by rintro ⟨-, ⟨⟩⟩)⟩
  | bool x =>
    cases b with
    | bool y => exact absurd (.bool x y) apart
    | null | decimal | text => exact ⟨rfl, iff_of_false Bool.false_ne_true (first (by rintro ⟨⟩))⟩
  | decimal x =>
    cases b with
    | decimal y => exact absurd (.decimal x y) apart
    | null | bool | text => exact ⟨rfl, iff_of_false Bool.false_ne_true (first (by rintro ⟨⟩))⟩
  | text x =>
    cases b with
    | text y => exact absurd (.text x y) apart
    | null | bool | decimal => exact ⟨rfl, iff_of_false Bool.false_ne_true (first (by rintro ⟨⟩))⟩

end Value

/-! ## 2. Comparisons of terms

Six operators, two rules, one order: what a comparison comes to is read off the order of the two
values (`Comparison.ofOrder`).  So statements about several operators at once are statements about
the three cases of an order. -/

/-- **An operator that compares.** -/
inductive Comparison where
  | less
  | greater
  | atMost
  | atLeast
  | equal
  | unequal
deriving DecidableEq, Repr

namespace Comparison

def symbol : Comparison → String
  | less => "<"
  | greater => ">"
  | atMost => "<="
  | atLeast => ">="
  | equal => "=="
  | unequal => "!="

/-- Whether it is one of the four that want an order. -/
def isRelational : Comparison → Bool
  | equal | unequal => false
  | _ => true

def kind (c : Comparison) : Kind := if c.isRelational then .relational else .equality

/-- **The comparison of two terms**, with the text that it stands in. -/
def term (c : Comparison) (slice : String) (l r : Term) : Term :=
  ⟨c.kind, slice, [l, .leaf .symbol c.symbol, r]⟩

/-- What it says of two values in some order. -/
def ofOrder : Comparison → Ordering → Bool
  | less, order => order == .lt
  | greater, order => order == .gt
  | atMost, order => order != .gt
  | atLeast, order => order != .lt
  | equal, order => order == .eq
  | unequal, order => order != .eq

/-- **The truth value of a comparison** of two terms, whatever text it stands in. -/
def Is (env : Environment) (l r : Term) (c : Comparison) (truth : Bool) : Prop :=
  ∀ slice, (c.term slice l r).evaluate env = .ok (.bool truth)

variable {env : Environment} {l r s : Term} {a b d : Value} {c : Comparison} {order : Ordering}
  {truth : Bool}

/-- A relational comparison evaluates both operands, and then relates them. -/
theorem evaluate_relational (left : l.evaluate env = .ok a) (right : r.evaluate env = .ok b)
    (relational : c.isRelational = true) (slice : String) :
    (c.term slice l r).evaluate env = named slice (relation a c.symbol b) := by
  rw [term, kind, if_pos relational, Term.evaluate_relation, left, right]
  rfl

/-- A comparison for equality always gives a truth value. -/
theorem is_equal (left : l.evaluate env = .ok a) (right : r.evaluate env = .ok b) :
    Is env l r .equal (a.equals b) ∧ Is env l r .unequal (!a.equals b) := by
  have compared : ∀ c : Comparison, c.isRelational = false → ∀ slice,
      (c.term slice l r).evaluate env = named slice (equality a c.symbol b) := by
    intro c equality slice
    rw [term, kind, equality, if_neg Bool.false_ne_true, Term.evaluate_equality, left, right]
    rfl
  exact ⟨compared .equal rfl, compared .unequal rfl⟩

/-- **A comparison of values in order** says what that order is. -/
theorem is_ofOrder (left : l.evaluate env = .ok a) (right : r.evaluate env = .ok b)
    (ordered : a.compare? b = some order) (same : a.equals b = (order == .eq)) (c : Comparison) :
    Is env l r c (c.ofOrder order) := by
  obtain ⟨isEqual, isUnequal⟩ := is_equal left right
  rw [same] at isEqual isUnequal
  cases c with
  | less | greater | atMost | atLeast =>
    intro slice
    rw [evaluate_relational left right rfl, relation, ordered]
    rfl
  | equal => exact isEqual
  | unequal => exact isUnequal

/-- A comparison has one truth value. -/
theorem Is.unique {truth' : Bool} (one : Is env l r c truth) (other : Is env l r c truth') :
    truth = truth' := by
  have same := (one "").symm.trans (other "")
  cases same
  rfl

/-- Which comparisons hold is said by the order. -/
theorem is_true_iff (left : l.evaluate env = .ok a) (right : r.evaluate env = .ok b)
    (kind : a.OneKind b) : (Is env l r .less true ↔ a.compare? b = some .lt) ∧
      (Is env l r .equal true ↔ a.equals b = true) := by
  obtain ⟨order, ordered, same⟩ := kind.exists_order
  have said := is_ofOrder left right ordered same
  constructor
  · rw [ordered, Option.some.injEq]
    refine ⟨fun holds => beq_iff_eq.mp ((said .less).unique holds), ?_⟩
    rintro rfl
    exact said .less
  · rw [same]
    refine ⟨(said .equal).unique, fun holds => ?_⟩
    have said := said .equal
    rwa [ofOrder, holds] at said

end Comparison

/-! ## 3. Comparisons are consistent

The laws that one expects of `<` and `==` are laws of the order, one kind at a time.  The statement
is about terms with values and about any forest that collapses to a comparison of them; it says
nothing of terms without values, which fail before they are compared. -/

open Comparison

/-- **The comparisons of two terms whose values have an order.** -/
structure Consistent (env : Environment) (l r : Term) : Prop where
  exactlyOne :
    (Is env l r .less true ∧ Is env l r .equal false ∧ Is env l r .greater false) ∨
    (Is env l r .less false ∧ Is env l r .equal true ∧ Is env l r .greater false) ∨
    (Is env l r .less false ∧ Is env l r .equal false ∧ Is env l r .greater true)
  atMost : ∀ truth, Is env l r .greater truth → Is env l r .atMost (!truth)
  atLeast : ∀ truth, Is env l r .less truth → Is env l r .atLeast (!truth)
  unequal : ∀ truth, Is env l r .equal truth → Is env l r .unequal (!truth)

/-- **The comparisons of two terms whose values have none.** -/
structure Unordered (env : Environment) (l r : Term) (a b : Value) : Prop where
  relational : ∀ c : Comparison, c.isRelational = true → ∀ slice,
    (c.term slice l r).evaluate env = .error (.typeMismatch (.incomparable a b) slice)
  equal : ∃ truth, Is env l r .equal truth ∧ (truth = true ↔ a = .null ∧ b = .null)
  unequal : ∀ truth, Is env l r .equal truth → Is env l r .unequal (!truth)

section

variable {env : Environment} {l r s : Term} {a b d : Value}

theorem consistent_of_oneKind (left : l.evaluate env = .ok a) (right : r.evaluate env = .ok b)
    (kind : a.OneKind b) : Consistent env l r := by
  obtain ⟨order, ordered, same⟩ := kind.exists_order
  have said := is_ofOrder left right ordered same
  refine ⟨?_, fun truth is => ?_, fun truth is => ?_, fun truth is => ?_⟩
  · have less := said .less
    have equal := said .equal
    have greater := said .greater
    cases order with
    | lt => exact .inl ⟨less, equal, greater⟩
    | eq => exact .inr (.inl ⟨less, equal, greater⟩)
    | gt => exact .inr (.inr ⟨less, equal, greater⟩)
  · obtain rfl := is.unique (said .greater)
    exact said .atMost
  · obtain rfl := is.unique (said .less)
    exact said .atLeast
  · obtain rfl := is.unique (said .equal)
    exact said .unequal

theorem unordered_of_not_oneKind (left : l.evaluate env = .ok a) (right : r.evaluate env = .ok b)
    (apart : ¬ a.OneKind b) : Unordered env l r a b := by
  obtain ⟨unordered, equal⟩ := Value.of_not_oneKind apart
  obtain ⟨isEqual, isUnequal⟩ := is_equal left right
  refine ⟨fun c relational slice => ?_, ⟨_, isEqual, equal⟩, fun truth is => ?_⟩
  · rw [evaluate_relational left right relational, relation, unordered]
    rfl
  obtain rfl := is.unique isEqual
  exact isUnequal

end

/-- The outcome of a forest with one root is that of its term. -/
theorem Forest.evaluate_of_terms {f : Forest} {t : Term} (terms : f.collapse.terms = [t])
    (env : Environment) : f.evaluate env = t.evaluate env := by
  rw [evaluate, run_eq_meaning, meaning_single terms]

/-- **Comparisons are consistent.**  Let two terms have values.  If those are two decimals, two
texts or two truth values, exactly one of `<`, `==` and `>` holds, the other three operators are
negations of these, and `<` is transitive and the same for equal operands.  If they are not, the
four relational operators refuse them, and `==` holds only where both are null.  A forest that
collapses to a comparison has its outcome. -/
theorem evaluate_comparisons (env : Environment) {l r : Term} {a b : Value}
    (left : l.evaluate env = .ok a) (right : r.evaluate env = .ok b) :
    (a.OneKind b → Consistent env l r ∧ ∀ (s : Term) (d : Value), s.evaluate env = .ok d →
      b.OneKind d →
      (Is env l r .less true → Is env r s .less true → Is env l s .less true) ∧
      (Is env l r .equal true → (Is env l s .less true ↔ Is env r s .less true) ∧
        (Is env s l .less true ↔ Is env s r .less true))) ∧
    (¬ a.OneKind b → Unordered env l r a b) ∧
    ∀ (c : Comparison) (slice : String) (f : Forest), f.collapse.terms = [c.term slice l r] →
      f.evaluate env = (c.term slice l r).evaluate env := by
  refine ⟨fun kind => ⟨consistent_of_oneKind left right kind, fun s d other kind' => ?_⟩,
    unordered_of_not_oneKind left right, fun c slice f terms => f.evaluate_of_terms terms env⟩
  have outer := kind.trans kind'
  rw [(is_true_iff left right kind).1, (is_true_iff left right kind).2,
    (is_true_iff right other kind').1,
    (is_true_iff left other outer).1, (is_true_iff other left outer.symm).1,
    (is_true_iff other right kind'.symm).1]
  refine ⟨kind.compare?_trans kind', fun equal => ?_⟩
  obtain ⟨before, behind⟩ := kind.compare?_congr kind' equal
  rw [before, behind]
  exact ⟨Iff.rfl, Iff.rfl⟩

/-- `1.5` and `1.500` are equal, and neither has an order with an unbound name. -/
theorem evaluate_comparisons_scales : ∃ env : Environment,
    (Term.leaf .reference "x").evaluate env = .ok (.decimal ⟨15, 1⟩) ∧
    (Term.leaf .number "1.500").evaluate env = .ok (.decimal ⟨1500, 3⟩) ∧
    Consistent env (.leaf .reference "x") (.leaf .number "1.500") ∧
    (∃ f, Forest.ofSource "x == 1.500" = .ok f ∧ f.evaluate env = .ok (.bool true)) ∧
    Unordered env (.leaf .reference "x") (.leaf .reference "y") (.decimal ⟨15, 1⟩) .null := by
  let env : Environment := ⟨⟨[("x", .decimal ⟨15, 1⟩)]⟩, .standard, .builtin⟩
  have x : (Term.leaf .reference "x").evaluate env = .ok (.decimal ⟨15, 1⟩) :=
    Term.evaluate_reference "x"
  have y : (Term.leaf .reference "y").evaluate env = .ok .null := Term.evaluate_reference "y"
  have number : (Term.leaf .number "1.500").evaluate env = .ok (.decimal ⟨1500, 3⟩) := by
    rw [Term.evaluate_number]
    cbv
  obtain ⟨f, read, terms⟩ : ∃ f, Forest.ofSource "x == 1.500" = .ok f ∧ f.collapse.terms =
      [Comparison.equal.term "x == 1.500" (.leaf .reference "x") (.leaf .number "1.500")] :=
    Forest.exists_of_collapsedTerms (by cbv)
  refine ⟨env, x, number, ((evaluate_comparisons env x number).1 (.decimal _ _)).1, ⟨f, read, ?_⟩,
    (evaluate_comparisons env x y).2.1 (by rintro ⟨⟩)⟩
  rw [(evaluate_comparisons env x number).2.2 .equal _ f terms]
  exact (Comparison.is_equal x number).1 "x == 1.500"

end DecimalExpression
