/-!
# Rounding modes

A quotient of integers is truncated first, and a mode then says whether to move one unit away from
zero.  It decides from three facts: the sign of the quotient, whether the truncated part is odd,
and how twice the remainder compares with the divisor.

The eight modes are those of section 14 of the specification.  Whether to move is what the numeric
engine asks in `round_away_from_zero`; here that is `movesAway`, and the mode `UNNECESSARY` answers
with a refusal.
-/

namespace DecimalExpression

/-- **A rounding mode**: which of two neighbours stands for a number between them. -/
inductive RoundingMode where
  /-- away from zero -/
  | up
  /-- towards zero -/
  | down
  /-- towards positive infinity -/
  | ceiling
  /-- towards negative infinity -/
  | floor
  /-- the nearer neighbour, a tie away from zero -/
  | halfUp
  /-- the nearer neighbour, a tie towards zero -/
  | halfDown
  /-- the nearer neighbour, a tie to the even one -/
  | halfEven
  /-- no rounding: a number between two neighbours is refused -/
  | unnecessary
deriving DecidableEq, Repr, Inhabited

namespace RoundingMode

/-! ## 1. Names -/

def all : List RoundingMode :=
  [up, down, ceiling, floor, halfUp, halfDown, halfEven, unnecessary]

/-- The name a policy is written with. -/
def name : RoundingMode → String
  | up => "UP"
  | down => "DOWN"
  | ceiling => "CEILING"
  | floor => "FLOOR"
  | halfUp => "HALF_UP"
  | halfDown => "HALF_DOWN"
  | halfEven => "HALF_EVEN"
  | unnecessary => "UNNECESSARY"

def ofName? (name : String) : Option RoundingMode :=
  all.find? (·.name == name)

@[simp] theorem ofName?_name (mode : RoundingMode) : ofName? mode.name = some mode := by
  cases mode <;> decide

/-! ## 2. The decision -/

/-- **Whether a truncated quotient moves one unit away from zero**, given that something was cut
off.  `half` compares twice the remainder with the divisor.  There is no answer where rounding is
refused. -/
def movesAway (mode : RoundingMode) (negative odd : Bool) (half : Ordering) : Option Bool :=
  match mode with
  | up => some true
  | down => some false
  | ceiling => some !negative
  | floor => some negative
  | halfUp => some (half != .lt)
  | halfDown => some (half == .gt)
  | halfEven => some (half == .gt || (half == .eq && odd))
  | unnecessary => none

/-- **A quotient of integers, rounded.**  There is no answer exactly where the division leaves a
remainder and the mode refuses to round. -/
def roundQuotient (mode : RoundingMode) (numerator denominator : Int) : Option Int :=
  let quotient := numerator.tdiv denominator
  let remainder := numerator.tmod denominator
  if remainder = 0 then some quotient
  else
    let negative := (numerator < 0) != (denominator < 0)
    let half := compare (2 * remainder.natAbs) denominator.natAbs
    (mode.movesAway negative (quotient.natAbs % 2 = 1) half).map fun away =>
      if away then (if negative then quotient - 1 else quotient + 1) else quotient

end RoundingMode
end DecimalExpression
