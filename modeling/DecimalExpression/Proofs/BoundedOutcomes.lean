import DecimalExpression.Evaluation.Bounded
import DecimalExpression.Proofs.Outcomes
import Mathlib

/-!
# Outcomes that may overflow

A computation with bounded scales either overflows or comes to what the same computation without
bounds comes to, and which of the two it is can be said without running it.  `OverflowsWhere` puts
this in one statement: a condition, an outcome without bounds, and the bounded one.

The condition of a sequence is that of its first part, or that of the second part behind a first one
that succeeds (`OverflowsWhere.bind`).  So each operation needs a lemma of its own, and what is put
together from operations follows its recursion.
-/

namespace DecimalExpression
namespace Bounded

variable {Cause Cause' α β : Type}

/-! ## 1. Integers that fit

A word is an integer between two powers of two, and whether an integer is one is all that `word`
decides. -/

section Words

variable {n : Int}

theorem scaleFits_iff : Decimal.scaleFits n = true ↔ -2 ^ 63 ≤ n ∧ n < 2 ^ 63 := by
  rw [Decimal.scaleFits, Bool.and_eq_true, decide_eq_true_eq, decide_eq_true_eq]
  omega

theorem word_of_fits (lower : -2 ^ 63 ≤ n) (upper : n < 2 ^ 63) :
    (word n : Outcome Cause Int) = .ok n :=
  if_pos (scaleFits_iff.mpr ⟨lower, upper⟩)

theorem word_of_large (large : 2 ^ 63 ≤ n) :
    (word n : Outcome Cause Int) = .error .overflow :=
  if_neg fun fits => by
    have small := (scaleFits_iff.mp fits).2
    omega

end Words

/-! ## 2. Outcomes without bounds

An outcome without bounds is taken over as it is.  It never is an overflow, which separates the two
ways to halt. -/

@[simp] theorem lift_ok (x : α) : lift (.ok x : Except Cause α) = .ok x := rfl

theorem lift_eq_ok_iff {outcome : Except Cause α} {x : α} :
    lift outcome = .ok x ↔ outcome = .ok x := by
  cases outcome with
  | ok y => exact ⟨fun same => by cases same; rfl, fun same => by cases same; rfl⟩
  | error cause => exact iff_of_false (by rintro ⟨⟩) (by rintro ⟨⟩)

theorem lift_eq_failed_iff {outcome : Except Cause α} {cause : Cause} :
    lift outcome = .error (.failed cause) ↔ outcome = .error cause := by
  cases outcome with
  | ok y => exact iff_of_false (by rintro ⟨⟩) (by rintro ⟨⟩)
  | error other => exact ⟨fun same => by cases same; rfl, fun same => by cases same; rfl⟩

/-- A sequence without bounds that stays one in each part. -/
theorem lift_bind (x : Except Cause α) (f : α → Except Cause β) :
    lift (x >>= f) = lift x >>= fun y => lift (f y) := by
  cases x <;> rfl

/-- What has not overflowed is no overflow. -/
theorem lift_ne_overflow (outcome : Except Cause α) : lift outcome ≠ .error .overflow := by
  cases outcome with
  | ok x => exact fun same => by cases same
  | error cause => exact fun same => by cases same

/-! ## 3. Where a computation overflows

The structure is made for sequences: where a computation is a sequence of steps its condition is
made from those of the steps (`bind`).  So the conditions of whole operations are put together as
the operations are, and are simplified afterwards (`congr`). -/

/-- **A computation that overflows under a condition**, and otherwise has its outcome without
bounds. -/
structure OverflowsWhere (condition : Prop) (outcome : Except Cause α)
    (bounded : Outcome Cause α) : Prop where
  overflow : condition → bounded = .error .overflow
  eq_lift : ¬ condition → bounded = lift outcome

namespace OverflowsWhere

variable {c : Prop} {x : Except Cause α} {y : Outcome Cause α}

/-- **It overflows under no other condition.** -/
theorem overflow_iff (exact : OverflowsWhere c x y) : y = .error .overflow ↔ c := by
  refine ⟨fun overflow => ?_, exact.overflow⟩
  by_contra fits
  exact lift_ne_overflow x ((exact.eq_lift fits).symm.trans overflow)

/-- What has no bounded part never overflows. -/
theorem never (x : Except Cause α) : OverflowsWhere False x (lift x) where
  overflow := False.elim
  eq_lift := fun _ => rfl

theorem congr {c' : Prop} (exact : OverflowsWhere c x y) (same : c' ↔ c) :
    OverflowsWhere c' x y where
  overflow := fun holds => exact.overflow (same.mp holds)
  eq_lift := fun fails => exact.eq_lift fun holds => fails (same.mpr holds)

/-- **A sequence** overflows where its first part does, or where that succeeds and the second part
does. -/
theorem bind {d : α → Prop} {f : α → Except Cause β} {g : α → Outcome Cause β}
    (first : OverflowsWhere c x y) (second : ∀ a, x = .ok a → OverflowsWhere (d a) (f a) (g a)) :
    OverflowsWhere (c ∨ ∃ a, x = .ok a ∧ d a) (x >>= f) (y >>= g) where
  overflow := by
    intro holds
    by_cases early : c
    · rw [first.overflow early]
      rfl
    · obtain ⟨a, found, late⟩ := holds.resolve_left early
      rw [first.eq_lift early, found, lift_ok, ok_bind, (second a found).overflow late]
  eq_lift := by
    intro fails
    obtain ⟨early, late⟩ := not_or.mp fails
    rw [first.eq_lift early]
    cases found : x with
    | error cause => rfl
    | ok a => exact (second a found).eq_lift fun holds => late ⟨a, found, holds⟩

/-- **In front of a part without bounds** only the first part can overflow. -/
theorem bind_eq_lift {f : α → Except Cause β} {g : α → Outcome Cause β}
    (first : OverflowsWhere c x y) (second : ∀ a, g a = lift (f a)) :
    OverflowsWhere c (x >>= f) (y >>= g) where
  overflow := fun holds => by rw [first.overflow holds]; rfl
  eq_lift := fun fails => by
    rw [first.eq_lift fails, lift_bind]
    exact congrArg _ (funext second)

/-- What is made of a result cannot overflow. -/
theorem map (exact : OverflowsWhere c x y) (f : α → β) : OverflowsWhere c (x.map f) (y.map f) where
  overflow := fun holds => by rw [exact.overflow holds]; rfl
  eq_lift := fun fails => by rw [exact.eq_lift fails]; cases x <;> rfl

/-- **Naming the cause differently** changes nothing: an overflow has none. -/
theorem mapError (exact : OverflowsWhere c x y) (f : Cause → Cause') :
    OverflowsWhere c (x.mapError f) (y.mapError (.map f)) where
  overflow := fun holds => by rw [exact.overflow holds]; rfl
  eq_lift := fun fails => by rw [exact.eq_lift fails]; cases x <;> rfl

end OverflowsWhere
end Bounded
end DecimalExpression
