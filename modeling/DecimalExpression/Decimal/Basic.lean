import DecimalExpression.Text.Digits

/-!
# Decimals

A decimal is an unscaled integer and a scale, and stands for `unscaled * 10 ^ (-scale)`.  Several
decimals stand for one number (`1.0` and `1.00`), and which of them a computation gives is part of
its result.  So each operation here fixes a scale as well as a number:

* a sum has the larger scale of the two, a product the sum of the scales;
* a difference with a zero on one side keeps the other side's scale, and a product with a written
  one (`1`, `1.0`, `1.00`, ..) keeps the other factor's;
* `compare` and `normalize` look at the number alone.

Scales are unbounded integers here.  Which of them the language admits is decided where operands
are read (`DecimalExpression.Evaluation.Arithmetic`).

These are the big decimals that values are made of (specification, section 13): addition,
subtraction, multiplication, comparison, and the `normalized` form that division starts from.
`digitCount` and `magnitude` are the numeric engine's `digit_count` and `magnitude`, and `tenPower`
its `ten_pow`.
-/

namespace DecimalExpression

/-- **A decimal**: the number `unscaled * 10 ^ (-scale)`, together with its scale. -/
structure Decimal where
  unscaled : Int
  scale : Int
deriving DecidableEq, Repr, Inhabited

namespace Decimal

/-! ## 1. Parts -/

/-- An integer, at scale zero. -/
def ofInt (n : Int) : Decimal := ⟨n, 0⟩

def isZero (d : Decimal) : Bool := d.unscaled == 0

/-- A power of ten, as an integer. -/
def tenPower (n : Nat) : Int := (Digits.unit n : Int)

/-- **The number** that a decimal stands for. -/
def toRat (d : Decimal) : Rat :=
  mkRat (d.unscaled * tenPower (-d.scale).toNat) (Digits.unit d.scale.toNat)

/-- The unscaled integer of the same number at a scale that is no smaller. -/
def unscaledAt (d : Decimal) (scale : Int) : Int :=
  d.unscaled * tenPower (scale - d.scale).toNat

/-- The number of digits of the unscaled integer; zero has one. -/
def digitCount (d : Decimal) : Nat :=
  Digits.count d.unscaled.natAbs

/-- **The magnitude**: the decimal position of the leading digit, counted from the units. -/
def magnitude (d : Decimal) : Int :=
  d.digitCount - 1 - d.scale

/-! ## 2. Sum, difference and product -/

def neg (d : Decimal) : Decimal := ⟨-d.unscaled, d.scale⟩

/-- **Sum**, at the larger of the two scales. -/
def add (a b : Decimal) : Decimal :=
  let scale := max a.scale b.scale
  ⟨a.unscaledAt scale + b.unscaledAt scale, scale⟩

/-- **Difference**, at the larger of the two scales; where one side is zero, the other side as
it is written. -/
def sub (a b : Decimal) : Decimal :=
  if b.isZero then a
  else if a.isZero then b.neg
  else
    let scale := max a.scale b.scale
    ⟨a.unscaledAt scale - b.unscaledAt scale, scale⟩

/-- **A written one**: the number one with at most 38 places. -/
def isWrittenOne (d : Decimal) : Bool :=
  0 ≤ d.scale && d.scale ≤ 38 && d.unscaled == tenPower d.scale.toNat

/-- **Product**, at the sum of the scales; where one factor is a written one, the other as it
is written. -/
def mul (a b : Decimal) : Decimal :=
  if a.isWrittenOne then b
  else if b.isWrittenOne then a
  else ⟨a.unscaled * b.unscaled, a.scale + b.scale⟩

/-! ## 3. Order -/

/-- **The order of two positive numbers.**  The magnitudes decide where they differ.  Where they
agree, the scales differ by no more than the digit counts do, and aligning them is cheap. -/
def compareMagnitude (a b : Decimal) : Ordering :=
  match compare a.magnitude b.magnitude with
  | .eq =>
    let scale := max a.scale b.scale
    compare (a.unscaledAt scale).natAbs (b.unscaledAt scale).natAbs
  | decided => decided

/-- **The order of two numbers**, whatever their scales. -/
protected def compare (a b : Decimal) : Ordering :=
  match compare a.unscaled.sign b.unscaled.sign with
  | .eq =>
    if a.isZero then .eq
    else if a.unscaled < 0 then b.compareMagnitude a
    else a.compareMagnitude b
  | decided => decided

/-! ## 4. Normal form -/

/-- **Normal form**: the same number without trailing zeros in its unscaled integer; zero is
zero at scale zero. -/
def normalize (d : Decimal) : Decimal :=
  if d.isZero then ⟨0, 0⟩
  else
    let split := Digits.splitPower 10 d.unscaled.natAbs
    ⟨d.unscaled.sign * split.2, d.scale - split.1⟩

end Decimal
end DecimalExpression
