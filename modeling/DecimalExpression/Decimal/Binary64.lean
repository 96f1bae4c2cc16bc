import DecimalExpression.Decimal.Basic

/-!
# Decimals from binary floating point

A binary floating-point number is taken as the decimal of its **shortest text**: the fewest digits
that read back as the same number and, of those, the ones nearest to it.  So the double next to
`0.1` becomes exactly `0.1`.

The bits are decoded into `significand * 2 ^ power`.  All reals that round to that number form an
interval, which includes its ends when the significand is even.  For one digit, two digits and so
on, the two neighbours of the number on the grid of that many digits are tested against the
interval, in exact arithmetic.  If any point of a grid lies in the interval, so does one of those
two.

It is the conversion of a host's double to a value, which goes by "canonical decimal text" and
refuses what is not finite (specification, section 13).
-/

namespace DecimalExpression

/-- **A double, decoded from its bits.** -/
inductive Binary64 where
  | nan
  | infinite (negative : Bool)
  /-- `significand * 2 ^ power`, and whether its lower neighbour is only half as far away as its
  upper one -/
  | finite (negative : Bool) (significand : Nat) (power : Int) (closeBelow : Bool)
deriving DecidableEq, Repr

namespace Binary64

/-! ## 1. Decoding -/

/-- **The double of a bit pattern**: a sign, eleven bits of exponent, fifty-two of fraction. -/
def ofBits (bits : UInt64) : Binary64 :=
  let negative : Bool := bits.toNat >>> 63 = 1
  let exponent : Nat := (bits.toNat >>> 52) % 2048
  let fraction : Nat := bits.toNat % (1 <<< 52)
  if exponent = 2047 then
    if fraction = 0 then .infinite negative else .nan
  else if exponent = 0 then .finite negative fraction (-1074) false
  else
    .finite negative ((1 <<< 52) + fraction) ((exponent : Int) - 1075)
      (fraction = 0 && 1 < exponent)

/-! ## 2. The shortest digits -/

/-- A positive fraction. -/
structure Ratio where
  numerator : Nat
  denominator : Nat

/-- `n * 2 ^ power`. -/
def binaryRatio (n : Nat) (power : Int) : Ratio :=
  if 0 ≤ power then ⟨n <<< power.toNat, 1⟩ else ⟨n, 1 <<< (-power).toNat⟩

/-- The fraction in units of `10 ^ place`. -/
def Ratio.inUnits (r : Ratio) (place : Int) : Ratio :=
  if 0 ≤ place then ⟨r.numerator, r.denominator * Digits.unit place.toNat⟩
  else ⟨r.numerator * Digits.unit (-place).toNat, r.denominator⟩

/-- The decimal position of the leading digit of a positive fraction. -/
def Ratio.leadingPlace (r : Ratio) : Int :=
  let estimate : Int := Digits.count r.numerator - Digits.count r.denominator
  let scaled := r.inUnits estimate
  if scaled.denominator ≤ scaled.numerator then estimate else estimate - 1

/-- **The interval of a double**, in quarters of a unit of its last place: `low / 4` to `high / 4`
times `2 ^ power`, ends included or not. -/
structure Interval where
  low : Nat
  high : Nat
  power : Int
  closed : Bool

/-- Whether `n * 10 ^ place` lies in the interval. -/
def Interval.contains (i : Interval) (n : Nat) (place : Int) : Bool :=
  let low := (binaryRatio i.low (i.power - 2)).inUnits place
  let high := (binaryRatio i.high (i.power - 2)).inUnits place
  let point := n * low.denominator
  if i.closed then low.numerator ≤ point && point ≤ high.numerator
  else low.numerator < point && point < high.numerator

/-- **The digits on one grid**: of the two neighbours of the number on the grid of `10 ^ place`,
the one inside the interval, and of two the nearer. -/
def Interval.neighbour? (i : Interval) (value : Ratio) (place : Int) : Option Nat :=
  let scaled := value.inUnits place
  let below := scaled.numerator / scaled.denominator
  let rest := scaled.numerator % scaled.denominator
  match i.contains below place, i.contains (below + 1) place with
  | true, true => some (if 2 * rest < scaled.denominator then below else below + 1)
  | true, false => some below
  | false, true => some (below + 1)
  | false, false => none

/-- The same number without zeros behind its digits.  On the first grid the upper neighbour can be
ten, which is one digit a place higher. -/
def withoutZeros (digits : Nat) (place : Int) : Nat × Int :=
  let split := Digits.splitPower 10 digits
  (split.2, place + split.1)

/-- **The shortest digits** of a positive double, with the decimal place of the last of them.
Seventeen digits tell all doubles apart. -/
def shortest? (significand : Nat) (power : Int) (closeBelow : Bool) : Option (Nat × Int) :=
  let interval : Interval :=
    ⟨4 * significand - (if closeBelow then 1 else 2), 4 * significand + 2, power,
      significand % 2 = 0⟩
  let value := binaryRatio significand power
  let leading := value.leadingPlace
  (List.range 17).findSome? fun (more : Nat) =>
    let place := leading - (more : Int)
    (interval.neighbour? value place).map fun digits => withoutZeros digits place

/-! ## 3. The decimal -/

/-- `n * 10 ^ place` with no more places than it needs. -/
def decimalAt (n : Nat) (place : Int) : Decimal :=
  if 0 ≤ place then ⟨n * Decimal.tenPower place.toNat, 0⟩ else ⟨n, -place⟩

/-- `n * 2 ^ power`, exactly. -/
def exactDecimal (n : Nat) (power : Int) : Decimal :=
  if 0 ≤ power then ⟨(n <<< power.toNat : Nat), 0⟩
  else ⟨(n * Nat.pow 5 (-power).toNat : Nat), -power⟩

/-- **The decimal of a double**, if it is finite; both zeros become zero. -/
def toDecimal? : Binary64 → Option Decimal
  | nan | infinite _ => none
  | finite negative significand power closeBelow =>
    if significand = 0 then some ⟨0, 0⟩
    else
      let unsigned := match shortest? significand power closeBelow with
        | some (digits, place) => decimalAt digits place
        | none => exactDecimal significand power
      some (if negative then unsigned.neg else unsigned)

/-- The name of a double that has no decimal. -/
def name : Binary64 → String
  | nan => "NaN"
  | infinite negative => if negative then "-inf" else "inf"
  | finite .. => "finite"

end Binary64
end DecimalExpression
