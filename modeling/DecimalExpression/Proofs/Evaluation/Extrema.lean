import DecimalExpression.Proofs.Evaluation.EqualNumbers
import DecimalExpression.Proofs.Evaluation.Ranges
import Mathlib

/-!
# The least and the greatest argument

`min` and `max` go through their arguments once and keep the best decimal so far, which only a
strictly better one replaces.  What they end with can be said without the loop: it is the first of
the arguments than which no other is better (`IsFirst`), and there is only one such
(`IsFirst.unique`).

The rest follows without another look at the loop.  Nulls leave no decimal behind
(`extremum_eq_of_filter`), the first of the best in a permutation is an equal number
(`IsFirst.toRat_eq`), and the first of the best of some arguments may stand for all of them
(`IsFirst.append`).

`r` is what it means to be better: less for `min`, greater for `max`.
-/

namespace DecimalExpression

/-- **An argument that counts as a number or not at all**: it is null, or it is coerced to a
decimal. -/
def Value.Counts (v : Value) : Prop := v = .null ∨ ∃ d, v.toDecimal = .ok d

namespace Method

/-! ## 1. The first of the best

What the methods are for is said on lists of decimals: the first of those than which no other is
better.  There is only one such, and it behaves well under permuting and joining lists; none of this
mentions a loop.  Whether "better" means less or greater is a parameter, so each fact is proved
once. -/

/-- **The first of the best**: all in front of it are worse, and none behind it is better. -/
def IsFirst (r : ℚ → ℚ → Prop) (numbers : List Decimal) (d : Decimal) : Prop :=
  ∃ front behind, numbers = front ++ d :: behind ∧ (∀ e ∈ front, r d.toRat e.toRat) ∧
    ∀ e ∈ behind, ¬ r e.toRat d.toRat

section First

variable {r : ℚ → ℚ → Prop} {numbers more : List Decimal} {d e : Decimal}

theorem IsFirst.mem (first : IsFirst r numbers d) : d ∈ numbers := by
  obtain ⟨front, behind, rfl, -, -⟩ := first
  exact List.mem_append_right _ List.mem_cons_self

/-- **There is one first of the best.**  Of two, one would stand in front of the other, and be
worse. -/
theorem IsFirst.unique (first : IsFirst r numbers d) (other : IsFirst r numbers e) : d = e := by
  obtain ⟨front, behind, rfl, worse, others⟩ := first
  obtain ⟨front', behind', same, worse', others'⟩ := other
  rcases List.append_eq_append_iff.mp same with ⟨middle, rfl, split⟩ | ⟨middle, rfl, split⟩
  · cases middle with
    | nil => exact (List.cons.inj split).1
    | cons f middle =>
      obtain ⟨rfl, rfl⟩ := List.cons.inj split
      exact absurd (worse' d (by simp)) (others e (by simp))
  · cases middle with
    | nil => exact (List.cons.inj split).1.symm
    | cons f middle =>
      obtain ⟨rfl, rfl⟩ := List.cons.inj split
      exact absurd (worse e (by simp)) (others' d (by simp))

/-- What is worse than the first of the best may stand in front. -/
theorem IsFirst.behind (first : IsFirst r more d) (worse : ∀ e ∈ numbers, r d.toRat e.toRat) :
    IsFirst r (numbers ++ more) d := by
  obtain ⟨front, behind, rfl, atFront, atBehind⟩ := first
  exact ⟨numbers ++ front, behind, by simp, List.forall_mem_append.mpr ⟨worse, atFront⟩, atBehind⟩

variable [IsStrictTotalOrder ℚ r] {x y z : ℚ}

/-- What is better than another number is better than all that are no better. -/
theorem better_of_better_left (first : r x y) (second : ¬ r z y) : r x z := by
  rcases trichotomous_of r y z with worse | rfl | better
  · exact trans_of r first worse
  · exact first
  · exact absurd better second

/-- What is no worse than a better number is better. -/
theorem better_of_better_right (first : ¬ r y x) (second : r y z) : r x z := by
  rcases trichotomous_of r x y with better | rfl | worse
  · exact trans_of r better second
  · exact second
  · exact absurd worse first

/-- None of them all is better. -/
theorem IsFirst.not_better (first : IsFirst r numbers d) : ∀ e ∈ numbers, ¬ r e.toRat d.toRat := by
  obtain ⟨front, behind, rfl, worse, others⟩ := first
  refine List.forall_mem_append.mpr ⟨fun e member better => ?_, List.forall_mem_cons.mpr
    ⟨irrefl_of r _, others⟩⟩
  exact irrefl_of r _ (trans_of r (worse e member) better)

/-- **The first of the best is an equal number** in all lists of the same decimals. -/
theorem IsFirst.toRat_eq (same : numbers.Perm more) (first : IsFirst r numbers d)
    (other : IsFirst r more e) : d.toRat = e.toRat := by
  have left := first.not_better e (same.mem_iff.mpr other.mem)
  have right := other.not_better d (same.mem_iff.mp first.mem)
  rcases trichotomous_of r d.toRat e.toRat with better | equal | better
  · exact absurd better right
  · exact equal
  · exact absurd better left

/-- **The first of the best may stand for the list** it is taken from. -/
theorem IsFirst.append (inner : IsFirst r more e) (outer : IsFirst r (numbers ++ [e]) d) :
    IsFirst r (numbers ++ more) d := by
  obtain ⟨front, behind, same, worse, others⟩ := outer
  rcases List.eq_nil_or_concat' behind with rfl | ⟨behind, last, rfl⟩
  · obtain ⟨rfl, tail⟩ := List.append_inj' same rfl
    obtain ⟨rfl, -⟩ := List.cons.inj tail
    exact inner.behind worse
  · have split : numbers ++ [e] = (front ++ d :: behind) ++ [last] := by simpa using same
    obtain ⟨rfl, tail⟩ := List.append_inj' split rfl
    obtain ⟨rfl, -⟩ := List.cons.inj tail
    obtain ⟨before, atLast⟩ := List.forall_mem_append.mp others
    refine ⟨front, behind ++ more, by simp, worse, List.forall_mem_append.mpr ⟨before, ?_⟩⟩
    intro f member better
    -- `f` would be better than `e` then, but `e` is the best of its list
    exact inner.not_better f member (better_of_better_left better (atLast e (by simp)))

end First

/-! ## 2. The loop

The loop skips nulls, coerces, and replaces the best so far by a strictly better number.  On
arguments that count it is a loop through their decimals, and the invariant is that the best so far
is the first of the best among those seen. -/

section Loop

variable {r : ℚ → ℚ → Prop} {wanted : Ordering} {best : Option Decimal} {vs ws : List Value}
  {v : Value} {d : Decimal} {fault : Fault}

/-- The decimals of arguments, in order. -/
def numbers (arguments : List Value) : List Decimal :=
  arguments.filterMap fun v => v.toDecimal.toOption

/-- The best decimal so far, after some more. -/
def bestOf (wanted : Ordering) (best : Option Decimal) (numbers : List Decimal) : Option Decimal :=
  numbers.foldl (fun best number => some (better wanted best number)) best

theorem numbers_cons_of_toDecimal (operand : v.toDecimal = .ok d) (rest : List Value) :
    numbers (v :: rest) = d :: numbers rest := by
  rw [numbers, List.filterMap_cons, operand]
  rfl

/-- **The loop through arguments** is one through their decimals. -/
theorem extremumFrom_eq (each : ∀ v ∈ vs, v.Counts) :
    extremumFrom wanted best vs = .ok (bestOf wanted best (numbers vs)) := by
  induction vs generalizing best with
  | nil => rfl
  | cons v rest ih =>
    obtain ⟨here, later⟩ := List.forall_mem_cons.mp each
    obtain rfl | ⟨d, operand⟩ := here
    · exact ih later
    · rw [extremumFrom_cons operand, ih later, numbers_cons_of_toDecimal operand]
      rfl

/-- **The first argument that is not coerced** ends the loop. -/
theorem extremumFrom_error (each : ∀ u ∈ vs, u.Counts) (present : v ≠ .null)
    (failed : v.toDecimal = .error fault) (rest : List Value) :
    extremumFrom wanted best (vs ++ v :: rest) = .error fault := by
  induction vs generalizing best with
  | nil =>
    rw [List.nil_append, extremumFrom, failed]
    · rfl
    · exact present
  | cons u vs ih =>
    obtain ⟨here, later⟩ := List.forall_mem_cons.mp each
    obtain rfl | ⟨d, operand⟩ := here
    · exact ih later
    · rw [List.cons_append, extremumFrom_cons operand, ih later]

/-- Nulls are not looked at. -/
theorem extremumFrom_filter (wanted : Ordering) (best : Option Decimal) (vs : List Value) :
    extremumFrom wanted best (vs.filter fun v => !v.isNull) = extremumFrom wanted best vs := by
  induction vs generalizing best with
  | nil => rfl
  | cons v rest ih =>
    cases v with
    | null => exact ih best
    | bool | decimal | text =>
      rw [List.filter_cons_of_pos (by rfl), extremumFrom, extremumFrom]
      · cases Value.toDecimal _ with
        | error fault => rfl
        | ok d => exact ih _
      · rintro ⟨⟩
      · rintro ⟨⟩

/-- **What the loop keeps is the first of the best** of all it has seen.  By induction on the rest.
A better one takes the place of what was kept, which is then worse than the best of all; anything
else leaves it, and it is still the first. -/
theorem exists_bestOf [IsStrictTotalOrder ℚ r] (agrees : ∀ x y : ℚ, compare x y = wanted ↔ r x y)
    (first : Decimal) (rest : List Decimal) :
    ∃ d, bestOf wanted (some first) rest = some d ∧ IsFirst r (first :: rest) d := by
  induction rest generalizing first with
  | nil => exact ⟨first, rfl, [], [], rfl, List.forall_mem_nil _, List.forall_mem_nil _⟩
  | cons next rest ih =>
    have step : bestOf wanted (some first) (next :: rest)
        = bestOf wanted (some (better wanted (some first) next)) rest := rfl
    rw [step, better, Decimal.compare_eq]
    by_cases isBetter : compare next.toRat first.toRat = wanted
    · rw [if_pos isBetter]
      rw [agrees] at isBetter
      obtain ⟨d, found, isFirst⟩ := ih next
      have worse : r d.toRat first.toRat :=
        better_of_better_right (isFirst.not_better next List.mem_cons_self) isBetter
      exact ⟨d, found, isFirst.behind (List.forall_mem_singleton.mpr worse)⟩
    · rw [if_neg isBetter]
      rw [agrees] at isBetter
      obtain ⟨d, found, front, behind, same, worse, others⟩ := ih first
      refine ⟨d, found, ?_⟩
      cases front with
      | nil =>
        obtain ⟨rfl, rfl⟩ := List.cons.inj same
        exact ⟨[], next :: rest, rfl, List.forall_mem_nil _,
          List.forall_mem_cons.mpr ⟨isBetter, others⟩⟩
      | cons f front =>
        obtain ⟨rfl, rfl⟩ := List.cons.inj same
        obtain ⟨here, later⟩ := List.forall_mem_cons.mp worse
        exact ⟨first :: next :: front, behind, rfl, List.forall_mem_cons.mpr ⟨here,
          List.forall_mem_cons.mpr ⟨better_of_better_left here isBetter, later⟩⟩, others⟩

/-- **What a method gives for arguments that count**: null for none but nulls, and else the first of
the best. -/
theorem extremum_cases [IsStrictTotalOrder ℚ r] (agrees : ∀ x y : ℚ, compare x y = wanted ↔ r x y)
    (each : ∀ v ∈ vs, v.Counts) :
    (numbers vs = [] ∧ extremum wanted vs = .ok .null) ∨
      ∃ d, IsFirst r (numbers vs) d ∧ extremum wanted vs = .ok (.decimal d) := by
  rw [extremum, extremumFrom_eq each]
  cases numbers vs with
  | nil => exact .inl ⟨rfl, rfl⟩
  | cons first rest =>
    obtain ⟨d, found, isFirst⟩ := exists_bestOf agrees first rest
    have start : bestOf wanted none (first :: rest) = bestOf wanted (some first) rest := rfl
    rw [start, found]
    exact .inr ⟨d, isFirst, rfl⟩

end Loop

/-! ## 3. Methods that take the first of the best

`TakesFirst` lists what a user of the methods may rely on: null for nulls only, the first fault, the
value of an argument, and that neither the order of the arguments nor nesting changes the number.
Every clause comes from the first of the best being unique. -/

/-- **A method that takes the first of the best.**  `r` says which numbers are better. -/
structure TakesFirst (r : ℚ → ℚ → Prop) (method : List Value → Except Fault Value) : Prop where
  /-- only nulls give null -/
  null : ∀ vs, (∀ v ∈ vs, v = .null) → method vs = .ok .null
  /-- the fault of the first argument that is not coerced -/
  fault : ∀ vs v ws fault, (∀ u ∈ vs, u.Counts) → v ≠ .null → v.toDecimal = .error fault →
    method (vs ++ v :: ws) = .error fault
  /-- else the decimal of an argument: those in front are worse, and none behind is better -/
  first : ∀ vs, (∀ v ∈ vs, v.Counts) → (∃ v ∈ vs, v ≠ .null) → ∃ front v behind d,
    vs = front ++ v :: behind ∧ v.toDecimal = .ok d ∧ method vs = .ok (.decimal d) ∧
      (∀ u ∈ front, ∀ e, u.toDecimal = .ok e → r d.toRat e.toRat) ∧
      ∀ u ∈ behind, ∀ e, u.toDecimal = .ok e → ¬ r e.toRat d.toRat
  /-- nulls may be added and left out -/
  nulls : ∀ vs ws, vs.filter (fun v => !v.isNull) = ws.filter (fun v => !v.isNull) →
    method vs = method ws
  /-- the order of the arguments decides between equal numbers only -/
  perm : ∀ vs ws, vs.Perm ws → (∀ v ∈ vs, v.Counts) →
    ∃ v w, method vs = .ok v ∧ method ws = .ok w ∧ v.equals w = true
  /-- some of the arguments may be taken first, in a call of their own -/
  nest : ∀ vs ws, (∀ v ∈ vs ++ ws, v.Counts) →
    (do method (vs ++ [← method ws])) = method (vs ++ ws)

section Methods

variable {r : ℚ → ℚ → Prop} {wanted : Ordering} {vs ws : List Value} {d : Decimal}

theorem numbers_append (vs ws : List Value) : numbers (vs ++ ws) = numbers vs ++ numbers ws :=
  List.filterMap_append

theorem toOption_toDecimal_eq_some {v : Value} :
    v.toDecimal.toOption = some d ↔ v.toDecimal = .ok d := by
  cases v.toDecimal with
  | error fault => exact iff_of_false (by rintro ⟨⟩) (by rintro ⟨⟩)
  | ok e => exact ⟨fun same => by cases same; rfl, fun same => by cases same; rfl⟩

theorem mem_numbers {v : Value} (member : v ∈ vs) (operand : v.toDecimal = .ok d) :
    d ∈ numbers vs :=
  List.mem_filterMap.mpr ⟨v, member, toOption_toDecimal_eq_some.mpr operand⟩

/-- The first of the best decimals is that of an argument. -/
theorem IsFirst.exists_argument (isFirst : IsFirst r (numbers vs) d) : ∃ front v behind,
    vs = front ++ v :: behind ∧ v.toDecimal = .ok d ∧
      (∀ u ∈ front, ∀ e, u.toDecimal = .ok e → r d.toRat e.toRat) ∧
      ∀ u ∈ behind, ∀ e, u.toDecimal = .ok e → ¬ r e.toRat d.toRat := by
  obtain ⟨before, after, same, worse, others⟩ := isFirst
  obtain ⟨front, rest, rfl, rfl, atRest⟩ := List.filterMap_eq_append_iff.mp same
  obtain ⟨skipped, v, behind, rfl, none, operand, rfl⟩ := List.filterMap_eq_cons_iff.mp atRest
  refine ⟨front ++ skipped, v, behind, by simp, toOption_toDecimal_eq_some.mp operand,
    List.forall_mem_append.mpr ⟨fun u member e found => ?_, fun u member e found => ?_⟩,
    fun u member e found => others e (mem_numbers member found)⟩
  · exact worse e (mem_numbers member found)
  · cases (none u member).symm.trans (toOption_toDecimal_eq_some.mpr found)

/-- Arguments that count, but for no number, are null. -/
theorem eq_null_of_numbers (each : ∀ v ∈ vs, v.Counts) (none : numbers vs = []) :
    ∀ v ∈ vs, v = .null := by
  intro v member
  refine (each v member).resolve_right ?_
  rintro ⟨d, operand⟩
  have found := mem_numbers member operand
  rw [none] at found
  cases found

theorem extremum_eq_of_filter
    (same : vs.filter (fun v => !v.isNull) = ws.filter (fun v => !v.isNull)) :
    extremum wanted vs = extremum wanted ws := by
  rw [extremum, extremum, ← extremumFrom_filter wanted none vs, same, extremumFrom_filter]

/-- A null at the end is not looked at. -/
theorem extremum_concat_null (vs ws : List Value) (nulls : ∀ v ∈ ws, v = .null) :
    extremum wanted (vs ++ [.null]) = extremum wanted (vs ++ ws) := by
  refine extremum_eq_of_filter ?_
  rw [List.filter_append, List.filter_append]
  congr 1
  refine (List.filter_eq_nil_iff.mpr fun v member => ?_).symm
  rw [nulls v member]
  exact Bool.false_ne_true

theorem numbers_of_null (nulls : ∀ v ∈ vs, v = .null) : numbers vs = [] :=
  List.filterMap_eq_nil_iff.mpr fun v member => by rw [nulls v member]; rfl

variable [IsStrictTotalOrder ℚ r]

/-- The decimal that a method gave counts again, as itself. -/
theorem toDecimal_of_extremum (result : extremum wanted vs = .ok (.decimal d)) :
    (Value.decimal d).toDecimal = .ok d :=
  Decimal.toDecimal_of_inRange (inRange_of_extremum result)

variable (agrees : ∀ x y : ℚ, compare x y = wanted ↔ r x y)
include agrees

/-- Arguments in another order have an equal extremum. -/
theorem extremum_perm (perm : vs.Perm ws) (each : ∀ v ∈ vs, v.Counts) :
    ∃ v w, extremum wanted vs = .ok v ∧ extremum wanted ws = .ok w ∧ v.equals w = true := by
  have each' : ∀ v ∈ ws, v.Counts := fun v member => each v (perm.mem_iff.mpr member)
  have same : (numbers vs).Perm (numbers ws) := perm.filterMap _
  rcases extremum_cases agrees each with ⟨none, done⟩ | ⟨d, isFirst, done⟩ <;>
    rcases extremum_cases agrees each' with ⟨none', done'⟩ | ⟨d', isFirst', done'⟩
  · exact ⟨.null, .null, done, done', rfl⟩
  · rw [none, List.nil_perm] at same
    rw [same] at isFirst'
    cases isFirst'.mem
  · rw [none', List.perm_nil] at same
    rw [same] at isFirst
    cases isFirst.mem
  · exact ⟨_, _, done, done', (Value.equals_decimal d d').mpr (isFirst.toRat_eq same isFirst')⟩

/-- The extremum of the last arguments may stand for them.  The first of the best of all is the
first of the best of the front and of the one that was chosen from the rest. -/
theorem extremum_nest (each : ∀ v ∈ vs ++ ws, v.Counts) :
    (do let inner ← extremum wanted ws; extremum wanted (vs ++ [inner]))
      = extremum wanted (vs ++ ws) := by
  obtain ⟨atFront, atBehind⟩ := List.forall_mem_append.mp each
  rcases extremum_cases agrees atBehind with ⟨none, done⟩ | ⟨m, inner, done⟩
  · rw [done, ok_bind]
    exact extremum_concat_null vs ws (eq_null_of_numbers atBehind none)
  have operand := toDecimal_of_extremum done
  have each' : ∀ v ∈ vs ++ [.decimal m], v.Counts :=
    List.forall_mem_append.mpr ⟨atFront, List.forall_mem_singleton.mpr (.inr ⟨m, operand⟩)⟩
  have last : numbers (vs ++ [.decimal m]) = numbers vs ++ [m] := by
    rw [numbers_append, numbers_cons_of_toDecimal operand]
    rfl
  rw [done, ok_bind]
  rcases extremum_cases agrees each' with ⟨none, -⟩ | ⟨d, outer, result⟩
  · rw [last] at none
    simp at none
  · rw [last] at outer
    have first := inner.append outer
    rw [← numbers_append] at first
    rcases extremum_cases agrees each with ⟨none, -⟩ | ⟨d', first', result'⟩
    · rw [none] at first
      cases first.mem
    · rw [result, result', first.unique first']

/-- **Going through the arguments once takes the first of the best.**  Most of the laws are read off
the first of the best among the numbers of the arguments. -/
theorem takesFirst_extremum : TakesFirst r (extremum wanted) where
  null vs nulls := by
    have each : ∀ v ∈ vs, v.Counts := fun v member => .inl (nulls v member)
    rcases extremum_cases agrees each with ⟨-, done⟩ | ⟨d, isFirst, -⟩
    · exact done
    · have member := isFirst.mem
      rw [numbers_of_null nulls] at member
      cases member
  fault vs v ws fault each present failed := by
    rw [extremum, extremumFrom_error each present failed]
    rfl
  first vs each some := by
    obtain ⟨v, member, present⟩ := some
    rcases extremum_cases agrees each with ⟨none, -⟩ | ⟨d, isFirst, done⟩
    · exact absurd (eq_null_of_numbers each none v member) present
    · obtain ⟨front, v, behind, split, operand, worse, others⟩ := isFirst.exists_argument
      exact ⟨front, v, behind, d, split, operand, done, worse, others⟩
  nulls vs ws same := extremum_eq_of_filter same
  perm vs ws perm each := extremum_perm agrees perm each
  nest vs ws each := extremum_nest agrees each

end Methods

end Method
end DecimalExpression
