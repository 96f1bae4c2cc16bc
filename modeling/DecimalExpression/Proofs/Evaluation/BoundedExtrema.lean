import DecimalExpression.Evaluation.BoundedEvaluate
import DecimalExpression.Proofs.Decimal.Overflow
import DecimalExpression.Proofs.Evaluation.Extrema
import Mathlib

/-!
# The least and the greatest argument, with bounded scales

`min` and `max` coerce their arguments one after another, and an argument at the least scale
overflows where it is coerced.  So these methods overflow exactly where they come to such an
argument before they come to one that is no number (`MeetsLeast`).  Everything else stays as it is
without bounds: which argument is taken, what nulls do, and what the order of the arguments decides
(`TakesFirst`).

The transfer rests on one fact.  An argument that is coerced with bounds is coerced to the same
decimal without them, and the other way around (`toDecimal_eq_ok_iff`); of the arguments that are
not coerced, only those at the least scale tell the difference.
-/

namespace DecimalExpression
namespace Bounded

/-! ## 1. Arguments

An argument that is coerced is so to the same decimal, and one that counts has no scale at which the
check could overflow.  So on arguments that count, bounds make no difference. -/

section Arguments

variable {v : Value} {d : Decimal}

/-- The check lets the same decimals through with and without bounds.  Within the limit neither
overflows, and beyond it neither gives a decimal, whether it refuses or overflows. -/
theorem checkScale_eq_ok_iff {e : Decimal} : checkScale d = .ok e ↔ d.checkScale = .ok e := by
  have limit : scaleLimit = 100000 := rfl
  by_cases small : d.scale.natAbs ≤ scaleLimit
  · have bounded : checkScale d = .ok d := by
      rw [checkScale, word_of_fits (by omega) (by omega), ok_bind, if_neg (by omega)]
    have unbounded : d.checkScale = .ok d := by
      rw [Decimal.checkScale, Decimal.scaleSupported, decide_eq_true small, if_pos rfl]
    rw [bounded, unbounded]
    constructor <;> rintro ⟨⟩ <;> rfl
  · refine iff_of_false (fun passed => ?_) fun passed => ?_
    · obtain ⟨size, fits, passed⟩ := bind_eq_ok passed
      rw [word] at fits
      split at fits
      · cases fits
        rw [if_pos (by omega)] at passed
        obtain ⟨_, -, passed⟩ := bind_eq_ok passed
        cases passed
      · cases fits
    · obtain ⟨rfl, inRange⟩ := Decimal.inRange_of_checkScale passed
      exact small (Decimal.inRange_iff.mp inRange)

/-- **An argument is coerced to the same decimal** with and without bounds. -/
theorem toDecimal_eq_ok_iff : toDecimal v = .ok d ↔ v.toDecimal = .ok d := by
  have checked : ∀ e : Decimal, asFault (checkScale e) = .ok d
      ↔ e.checkScale.mapError Fault.ofArithmetic = .ok d := by
    intro e
    constructor
    · intro passed
      rw [checkScale_eq_ok_iff.mp (mapError_eq_ok passed), ok_mapError]
    · intro passed
      rw [asFault, checkScale_eq_ok_iff.mpr (mapError_eq_ok passed), ok_mapError]
  cases v with
  | null | bool => exact iff_of_false (by rintro ⟨⟩) (by rintro ⟨⟩)
  | decimal e => exact checked e
  | text content =>
    rw [toDecimal, Value.toDecimal]
    cases Decimal.readChars (Text.trim content.toList) with
    | error cause => exact iff_of_false (by rintro ⟨⟩) (by rintro ⟨⟩)
    | ok e => exact checked e

/-- **An argument that counts as a number or not at all**: it is null, or it is coerced. -/
def Counts (v : Value) : Prop := v = .null ∨ ∃ d, toDecimal v = .ok d

theorem counts_iff : Counts v ↔ v.Counts := by
  simp only [Counts, Value.Counts, toDecimal_eq_ok_iff]

/-- What counts is at no scale that is beyond the limit. -/
theorem scaleFits_of_counts (counts : Counts v) : v.ScaleFits ∧ ¬ v.AtLeastScale := by
  obtain rfl | ⟨d, operand⟩ := counts
  · exact ⟨by rintro d ⟨⟩, by rintro ⟨d, ⟨⟩, -⟩⟩
  · rw [toDecimal_eq_ok_iff] at operand
    have number := Value.number?_of_toDecimal operand
    obtain ⟨lower, upper⟩ := scale_of_wide (Value.inRange_of_toDecimal operand).wide
    constructor
    · rintro e rfl
      cases number
      exact scaleFits_iff.mpr ⟨lower.le, upper⟩
    · rintro ⟨e, other, least⟩
      cases number.symm.trans other
      exact lower.ne' least

end Arguments

/-! ## 2. The loop

The loop coerces its arguments in order and stops at the first that cannot be.  `MeetsLeast` says
that this one is at the least scale; it is an induction on the list, as the loop is, and decides
between overflow and fault. -/

section Loop

variable {wanted : Ordering} {best : Option Decimal} {vs ws : List Value} {v : Value}
  {halt : Halt Fault}

/-- **The loop comes to an argument at the least scale**: those in front of it count. -/
inductive MeetsLeast : List Value → Prop
  | here {v : Value} {rest : List Value} (least : v.AtLeastScale) : MeetsLeast (v :: rest)
  | later {v : Value} {rest : List Value} (counts : Counts v) (behind : MeetsLeast rest) :
    MeetsLeast (v :: rest)

/-- The loop first coerces what is not null, and then compares. -/
theorem extremumFrom_eq_mapM (wanted : Ordering) (best : Option Decimal) (vs : List Value) :
    extremumFrom wanted best vs
      = ((vs.filter fun v => !v.isNull).mapM toDecimal).map (Method.bestOf wanted best) := by
  induction vs generalizing best with
  | nil => rfl
  | cons v rest ih =>
    cases v with
    | null => exact ih best
    | bool | decimal | text =>
      rw [List.filter_cons_of_pos (by rfl), List.mapM_cons, extremumFrom]
      · cases toDecimal _ with
        | error halt => rfl
        | ok d =>
          rw [ok_bind, ok_bind, ih]
          cases (rest.filter fun v => !v.isNull).mapM toDecimal <;> rfl
      · rintro ⟨⟩

/-- **The first argument that is not coerced** ends the loop. -/
theorem extremumFrom_error (each : ∀ u ∈ vs, Counts u) (present : v ≠ .null)
    (halted : toDecimal v = .error halt) (rest : List Value) :
    extremumFrom wanted best (vs ++ v :: rest) = .error halt := by
  have shown : (!v.isNull) = true := by
    cases v with
    | null => exact absurd rfl present
    | bool | decimal | text => rfl
  obtain ⟨numbers, coerced⟩ : ∃ numbers,
      (vs.filter fun v => !v.isNull).mapM toDecimal = .ok numbers := by
    refine exists_mapM_iff.mpr fun u member => ?_
    obtain ⟨inside, notNull⟩ := List.mem_filter.mp member
    refine (each u inside).resolve_left ?_
    rintro rfl
    cases notNull
  have inFront : (v :: rest).filter (fun v => !v.isNull) = v :: rest.filter fun v => !v.isNull :=
    List.filter_cons_of_pos shown
  rw [extremumFrom_eq_mapM, List.filter_append, inFront, List.mapM_append, coerced,
    List.mapM_cons, halted]
  rfl

/-- **The loop overflows where it comes to the least scale.**  By induction on the arguments: a null
is passed over, and any other argument overflows, fails, or lets the loop go on. -/
theorem extremumFrom_overflowsWhere (fits : ∀ v ∈ vs, v.ScaleFits) :
    OverflowsWhere (MeetsLeast vs) (Method.extremumFrom wanted best vs)
      (extremumFrom wanted best vs) := by
  induction vs generalizing best with
  | nil => exact (OverflowsWhere.never _).congr (iff_of_false (by rintro ⟨⟩) not_false)
  | cons v rest ih =>
    obtain ⟨here, later⟩ := List.forall_mem_cons.mp fits
    by_cases null : v = .null
    · subst null
      refine (ih later).congr ⟨?_, .later (.inl rfl)⟩
      rintro (⟨d, ⟨⟩, -⟩ | ⟨-, behind⟩)
      exact behind
    · rw [Method.extremumFrom, extremumFrom]
      · refine ((toDecimal_overflowsWhere here).bind fun d _ => ih later).congr ⟨?_, ?_⟩
        · rintro (least | ⟨counts, behind⟩)
          · exact .inl least
          · obtain ⟨d, operand⟩ := counts.resolve_left null
            exact .inr ⟨d, toDecimal_eq_ok_iff.mp operand, behind⟩
        · rintro (least | ⟨d, operand, behind⟩)
          · exact .here least
          · exact .later (.inr ⟨d, toDecimal_eq_ok_iff.mpr operand⟩) behind
      · exact null
      · exact null

theorem extremum_overflowsWhere (wanted : Ordering) (fits : ∀ v ∈ vs, v.ScaleFits) :
    OverflowsWhere (MeetsLeast vs) (Method.extremum wanted vs) (extremum wanted vs) := by
  refine (extremumFrom_overflowsWhere fits).bind_eq_lift fun best => ?_
  cases best <;> rfl

/-- **Arguments that count never overflow.** -/
theorem extremum_eq_lift (wanted : Ordering) (each : ∀ v ∈ vs, Counts v) :
    extremum wanted vs = lift (Method.extremum wanted vs) := by
  refine (extremum_overflowsWhere wanted fun v member =>
    (scaleFits_of_counts (each v member)).1).eq_lift fun meets => ?_
  induction meets with
  | @here v rest least => exact (scaleFits_of_counts (each v List.mem_cons_self)).2 least
  | later _ _ ih => exact ih fun v member => each v (List.mem_cons_of_mem _ member)

theorem extremum_eq_of_filter
    (same : vs.filter (fun v => !v.isNull) = ws.filter (fun v => !v.isNull)) :
    extremum wanted vs = extremum wanted ws := by
  rw [extremum, extremum, extremumFrom_eq_mapM, extremumFrom_eq_mapM, same]

end Loop

/-! ## 3. Methods that take the first of the best

The clauses of `Method.TakesFirst` are taken over one by one.  Only the clause on faults changes: an
argument that is not coerced is reported unless it is at the least scale, and then the method
overflows. -/

/-- **A method that takes the first of the best, or overflows.**  `r` says which numbers are
better. -/
structure TakesFirst (r : ℚ → ℚ → Prop) (method : List Value → Outcome Fault Value) : Prop where
  /-- only nulls give null -/
  null : ∀ vs, (∀ v ∈ vs, v = .null) → method vs = .ok .null
  /-- the first argument that is not coerced halts it, as its coercion halts -/
  halt : ∀ vs v ws halt, (∀ u ∈ vs, Counts u) → v ≠ .null → toDecimal v = .error halt →
    method (vs ++ v :: ws) = .error halt
  /-- it overflows where it comes to an argument at the least scale, and nowhere else -/
  overflow : ∀ vs, (∀ v ∈ vs, v.ScaleFits) → (method vs = .error .overflow ↔ MeetsLeast vs)
  /-- else the decimal of an argument: those in front are worse, and none behind is better -/
  first : ∀ vs, (∀ v ∈ vs, Counts v) → (∃ v ∈ vs, v ≠ .null) → ∃ front v behind d,
    vs = front ++ v :: behind ∧ toDecimal v = .ok d ∧ method vs = .ok (.decimal d) ∧
      (∀ u ∈ front, ∀ e, toDecimal u = .ok e → r d.toRat e.toRat) ∧
      ∀ u ∈ behind, ∀ e, toDecimal u = .ok e → ¬ r e.toRat d.toRat
  /-- nulls may be added and left out -/
  nulls : ∀ vs ws, vs.filter (fun v => !v.isNull) = ws.filter (fun v => !v.isNull) →
    method vs = method ws
  /-- the order of the arguments decides between equal numbers only -/
  perm : ∀ vs ws, vs.Perm ws → (∀ v ∈ vs, Counts v) →
    ∃ v w, method vs = .ok v ∧ method ws = .ok w ∧ v.equals w = true
  /-- some of the arguments may be taken first, in a call of their own -/
  nest : ∀ vs ws, (∀ v ∈ vs ++ ws, Counts v) →
    (do method (vs ++ [← method ws])) = method (vs ++ ws)

variable {r : ℚ → ℚ → Prop} {wanted : Ordering} {vs ws : List Value}

/-- The extremum of arguments that count is there, and counts again. -/
theorem counts_of_extremum (unbounded : Method.TakesFirst r (Method.extremum wanted))
    (each : ∀ v ∈ vs, Counts v) : ∃ v, Method.extremum wanted vs = .ok v ∧ Counts v := by
  by_cases some : ∃ v ∈ vs, v ≠ .null
  · obtain ⟨front, v, behind, d, -, operand, done, -⟩ :=
      unbounded.first vs (fun v member => counts_iff.mp (each v member)) some
    have again := Decimal.toDecimal_of_inRange (Value.inRange_of_toDecimal operand)
    exact ⟨.decimal d, done, .inr ⟨d, toDecimal_eq_ok_iff.mpr again⟩⟩
  · push Not at some
    exact ⟨.null, unbounded.null vs some, .inl rfl⟩

/-- **A method that takes the first of the best without bounds** takes it with bounds.  Arguments
that are null or give a decimal have the outcome they have without bounds, so the laws are taken
over one by one; only where the loop halts something is new. -/
theorem takesFirst_extremum (unbounded : Method.TakesFirst r (Method.extremum wanted)) :
    TakesFirst r (extremum wanted) where
  null := by
    intro vs nulls
    rw [extremum_eq_lift wanted fun v member => .inl (nulls v member), unbounded.null vs nulls]
    rfl
  halt := by
    intro vs v ws halt each present halted
    rw [extremum, extremumFrom_error each present halted]
    rfl
  overflow := fun vs fits => (extremum_overflowsWhere wanted fits).overflow_iff
  first := by
    intro vs each some
    have each' : ∀ v ∈ vs, v.Counts := fun v member => counts_iff.mp (each v member)
    obtain ⟨front, v, behind, d, split, operand, done, worse, others⟩ :=
      unbounded.first vs each' some
    rw [extremum_eq_lift wanted each, done]
    simp only [toDecimal_eq_ok_iff]
    exact ⟨front, v, behind, d, split, operand, rfl, worse, others⟩
  nulls := fun vs ws same => extremum_eq_of_filter same
  perm := by
    intro vs ws perm each
    have each' : ∀ v ∈ ws, Counts v := fun v member => each v (perm.mem_iff.mpr member)
    obtain ⟨v, w, first, second, equal⟩ :=
      unbounded.perm vs ws perm fun v member => counts_iff.mp (each v member)
    rw [extremum_eq_lift wanted each, extremum_eq_lift wanted each', first, second]
    exact ⟨v, w, rfl, rfl, equal⟩
  nest := by
    intro vs ws each
    obtain ⟨atFront, atBehind⟩ := List.forall_mem_append.mp each
    obtain ⟨inner, extreme, counts⟩ := counts_of_extremum unbounded atBehind
    have nested := unbounded.nest vs ws fun v member => counts_iff.mp (each v member)
    rw [extreme, ok_bind] at nested
    rw [extremum_eq_lift wanted atBehind, extreme, lift_ok, ok_bind, extremum_eq_lift wanted each,
      ← nested]
    exact extremum_eq_lift wanted
      (List.forall_mem_append.mpr ⟨atFront, List.forall_mem_singleton.mpr counts⟩)

/-- **`min` and `max` take the first of the least and the greatest arguments, or overflow.**  On
arguments whose scales are integers of 64 bits they overflow exactly where they come to one at the
least scale, and otherwise they have their outcome without bounds.  An argument that is no number
halts them with the fault of its coercion, and arguments that count never halt them. -/
theorem min_max_outcomes (vs : List Value) (fits : ∀ v ∈ vs, v.ScaleFits) :
    (min vs = .error .overflow ↔ MeetsLeast vs) ∧ (max vs = .error .overflow ↔ MeetsLeast vs) ∧
      (¬ MeetsLeast vs → min vs = lift (Method.min vs) ∧ max vs = lift (Method.max vs)) ∧
      (∀ v ∈ vs, OverflowsWhere v.AtLeastScale v.toDecimal (toDecimal v)) ∧
      TakesFirst (· < ·) min ∧ TakesFirst (· > ·) max := by
  have least := extremum_overflowsWhere .lt fits
  have greatest := extremum_overflowsWhere .gt fits
  refine ⟨least.overflow_iff, greatest.overflow_iff,
    fun passes => ⟨least.eq_lift passes, greatest.eq_lift passes⟩,
    fun v member => toDecimal_overflowsWhere (fits v member), ?_, ?_⟩
  · exact takesFirst_extremum (Method.takesFirst_extremum fun _ _ => compare_lt_iff_lt)
  · exact takesFirst_extremum (Method.takesFirst_extremum fun _ _ => compare_gt_iff_gt)

/-- For instance, with two and a half written in two ways.  A text that is no number is reported,
and a text at the least scale overflows. -/
theorem min_max_outcomes_halves :
    min [.null, .null] = .ok .null ∧
      min [.decimal ⟨3, 0⟩, .text "x", .null] = .error (.failed (.ofType (.notNumeric "x"))) ∧
      max [.decimal ⟨3, 0⟩, .text "1e9223372036854775808", .text "x"] = .error .overflow ∧
      (∃ v ∈ [.decimal ⟨3, 0⟩, .null, .decimal ⟨250, 2⟩, .decimal ⟨25, 1⟩], ∃ d,
        toDecimal v = .ok d ∧
          min [.decimal ⟨3, 0⟩, .null, .decimal ⟨250, 2⟩, .decimal ⟨25, 1⟩] = .ok (.decimal d)) ∧
      min [.decimal ⟨250, 2⟩, .null, .decimal ⟨25, 1⟩]
        = min [.decimal ⟨250, 2⟩, .decimal ⟨25, 1⟩] ∧
      (∃ v w, min [.decimal ⟨250, 2⟩, .decimal ⟨25, 1⟩] = .ok v ∧
        min [.decimal ⟨25, 1⟩, .decimal ⟨250, 2⟩] = .ok w ∧ v.equals w = true) ∧
      (do min ([.decimal ⟨3, 0⟩] ++ [← min [.decimal ⟨250, 2⟩, .decimal ⟨25, 1⟩]]))
        = min [.decimal ⟨3, 0⟩, .decimal ⟨250, 2⟩, .decimal ⟨25, 1⟩] := by
  have null : Counts .null := .inl rfl
  have three : Counts (.decimal ⟨3, 0⟩) := .inr ⟨_, rfl⟩
  have long : Counts (.decimal ⟨250, 2⟩) := .inr ⟨_, rfl⟩
  have short : Counts (.decimal ⟨25, 1⟩) := .inr ⟨_, rfl⟩
  have fits : ∀ v ∈ [Value.decimal ⟨3, 0⟩, .text "1e9223372036854775808", .text "x"],
      v.ScaleFits := by
    simp [Value.ScaleFits, Decimal.scaleFits]
  obtain ⟨-, overflow, -, -, least, -⟩ := min_max_outcomes _ fits
  refine ⟨least.null _ (by simp), ?_, ?_, ?_, least.nulls _ _ rfl, ?_, ?_⟩
  · exact least.halt [.decimal ⟨3, 0⟩] (.text "x") [.null] _ (by simp [three]) (by simp) (by cbv)
  · exact overflow.mpr (.later three (.here ⟨_, number?_least, rfl⟩))
  · obtain ⟨front, v, behind, d, split, operand, done, -⟩ :=
      least.first [.decimal ⟨3, 0⟩, .null, .decimal ⟨250, 2⟩, .decimal ⟨25, 1⟩]
        (by simp [null, three, long, short]) ⟨_, List.mem_cons_self, by simp⟩
    exact ⟨v, by simp [split], d, operand, done⟩
  · exact least.perm _ _ (List.Perm.swap _ _ _) (by simp [long, short])
  · exact least.nest [.decimal ⟨3, 0⟩] [.decimal ⟨250, 2⟩, .decimal ⟨25, 1⟩]
      (by simp [three, long, short])

/-- Of the two it is the first one, as it is written. -/
example : min [.decimal ⟨3, 0⟩, .null, .decimal ⟨250, 2⟩, .decimal ⟨25, 1⟩]
    = .ok (.decimal ⟨250, 2⟩) := by
  decide +kernel

/-- **An argument that is not coerced need not be reported**: a text at the least scale is not. -/
theorem min_max_not_reported :
    ¬ ∀ vs v ws, (∀ u ∈ vs, Counts u) → v ≠ .null → ¬ Counts v →
      ∃ fault, min (vs ++ v :: ws) = .error (.failed fault) := by
  intro reported
  have overflow : toDecimal (.text "1e9223372036854775808") = .error .overflow :=
    toDecimal_overflow number?_least rfl
  have uncounted : ¬ Counts (.text "1e9223372036854775808") := by
    rintro (null | ⟨d, operand⟩)
    · cases null
    · cases overflow.symm.trans operand
  obtain ⟨fault, failed⟩ := reported [] (.text "1e9223372036854775808") [.decimal ⟨2, 0⟩]
    (List.forall_mem_nil _) (by simp) uncounted
  rw [List.nil_append, min, extremum, ← List.nil_append (Value.text _ :: _),
    extremumFrom_error (List.forall_mem_nil _) (by simp) overflow] at failed
  cases failed

end Bounded
end DecimalExpression
