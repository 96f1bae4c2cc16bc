/-!
# Natural numbers in decimal digits

`write` gives the digits of a number, most significant first and without leading zeros, and
`read` takes digits back to a number.  The numbers of this library run to hundreds of thousands
of digits, so `write` halves the digit count at each step (`block`, `leading`) in place of
dividing by ten once per digit.

The count of the digits is `digit_count`, and the factors that are taken out of a divisor are those
of `divide_exact`.
-/

namespace DecimalExpression.Digits

/-! ## 1. Units -/

/-- **The unit** `10 ^ n`: what a digit counts with `n` digits behind it. -/
def unit (n : Nat) : Nat := Nat.pow 10 n

@[simp] theorem unit_zero : unit 0 = 1 := rfl

/-! ## 2. Reading -/

/-- The value of one decimal digit. -/
def value (c : Char) : Nat :=
  c.toNat - '0'.toNat

/-- The number that a run of digits stands for. -/
def read (digits : List Char) : Nat :=
  digits.foldl (fun number c => 10 * number + value c) 0

/-! ## 3. Writing -/

/-- The digit of a number below ten. -/
def digit (n : Nat) : Char :=
  Char.ofNat ('0'.toNat + n)

/-- **A block**: exactly `2 ^ k` digits of `n`, padded with zeros, in front of `tail`. -/
def block : (k n : Nat) → (tail : List Char) → List Char
  | 0, n, tail => digit n :: tail
  | k + 1, n, tail =>
    let half := unit (1 <<< k)
    block k (n / half) (block k (n % half) tail)

/-- **The leading digits**: as `block`, but without the zeros that stand in front. -/
def leading : (k n : Nat) → (tail : List Char) → List Char
  | 0, n, tail => digit n :: tail
  | k + 1, n, tail =>
    let half := unit (1 <<< k)
    if n < half then leading k n tail
    else leading k (n / half) (block k (n % half) tail)

/-- The decimal digits of a number; zero has one.  A number below `2 ^ b` is below
`10 ^ 2 ^ k` as soon as `b ≤ 2 ^ k`. -/
def write (n : Nat) : List Char :=
  leading (Nat.log2 (Nat.log2 n + 1) + 1) n []

/-- The number of decimal digits; zero has one. -/
def count (n : Nat) : Nat :=
  (write n).length

/-! ## 4. Factors of a number -/

/-- **The power of `p` in `n`**: `(k, m)` with `n = p ^ k * m` and `p` no divisor of `m`.  One
factor is taken out and the rest is split by `p * p`, so the number of steps is logarithmic
in `k`. -/
def splitPower (p n : Nat) : Nat × Nat :=
  if h : 2 ≤ p ∧ 0 < n ∧ n % p = 0 then
    let squares := splitPower (p * p) (n / p)
    if squares.2 % p = 0 then (2 * squares.1 + 2, squares.2 / p)
    else (2 * squares.1 + 1, squares.2)
  else (0, n)
termination_by n
decreasing_by exact Nat.div_lt_self h.2.1 h.1

end DecimalExpression.Digits
