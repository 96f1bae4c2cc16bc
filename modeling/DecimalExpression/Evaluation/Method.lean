import DecimalExpression.Evaluation.Arithmetic
import DecimalExpression.Evaluation.Named

/-!
# Methods

A method is called by name with a list of values.  A registry knows, for each name, how many
arguments it takes and what it does.  Three methods are built in:

* `min` and `max` give the least and the greatest of their arguments as numbers.  Nulls are
  skipped, and only nulls give null.
* `stringContainsAny` asks whether the text of any later argument occurs in the text of the first
  one.  A null first argument contains nothing, and later nulls are skipped.

The subsystem is that of sections 4.5 and 15 of the specification.  An arity is checked by
`validate` before a method runs, and `invoke` does both; `extremum` is what `builtin_min` and
`builtin_max` share, and `containsAny` is `builtin_string_contains_any`.
-/

namespace DecimalExpression

/-! ## 1. Arity -/

/-- **How many arguments a method takes.** -/
inductive Arity where
  | exactly (n : Nat)
  | atLeast (n : Nat)
  | between (least most : Nat)
  | any
deriving DecidableEq, Repr

namespace Arity

def admits : Arity → Nat → Bool
  | exactly n, found => found = n
  | atLeast n, found => n ≤ found
  | between least most, found => least ≤ found && found ≤ most
  | any, _ => true

/-- The arity in words. -/
def describe : Arity → String
  | exactly n => s!"exactly {n}"
  | atLeast n => s!"at least {n}"
  | between least most => s!"between {least} and {most}"
  | any => "any number of"

/-- The number of arguments is right. -/
def validate (arity : Arity) (method : String) (found : Nat) : Except Fault Unit :=
  if arity.admits found then .ok () else .error (.arity method arity.describe found)

end Arity

/-! ## 2. Built-in methods -/

namespace Method

/-- The better of the best number so far and one more, which has to be strictly better. -/
def better (wanted : Ordering) (best : Option Decimal) (number : Decimal) : Decimal :=
  match best with
  | none => number
  | some best => if number.compare best = wanted then number else best

/-- The best number among those so far and the arguments. -/
def extremumFrom (wanted : Ordering) (best : Option Decimal) : List Value →
    Except Fault (Option Decimal)
  | [] => .ok best
  | .null :: rest => extremumFrom wanted best rest
  | argument :: rest => do
    let number ← argument.toDecimal
    extremumFrom wanted (some (better wanted best number)) rest

/-- **The first of the extreme arguments**, as a decimal; `wanted` is how a better number compares
with the best one so far. -/
def extremum (wanted : Ordering) (arguments : List Value) : Except Fault Value := do
  match ← extremumFrom wanted none arguments with
  | none => return .null
  | some best => return .decimal best

def min : List Value → Except Fault Value := extremum .lt

def max : List Value → Except Fault Value := extremum .gt

/-- Whether a text occurs in another one. -/
def occursIn (needle : List Char) : List Char → Bool
  | [] => needle.isEmpty
  | c :: rest => needle.isPrefixOf (c :: rest) || occursIn needle rest

/-- **Whether the first argument contains any of the others**, as texts. -/
def containsAny : List Value → Except Fault Value
  | [] | .null :: _ => .ok (.bool false)
  | haystack :: needles =>
    let text := haystack.write.toList
    .ok (.bool (needles.any fun needle => !needle.isNull && occursIn needle.write.toList text))

end Method

/-! ## 3. Registries -/

/-- **A method**: how many arguments it takes, and what it does with them. -/
structure Method where
  arity : Arity
  run : List Value → Except Fault Value

/-- **A registry of methods**, by name. -/
abbrev Registry := Named Method

namespace Registry

/-- **The built-in methods.** -/
def builtin : Registry :=
  ⟨[("min", ⟨.atLeast 2, Method.min⟩), ("max", ⟨.atLeast 2, Method.max⟩),
    ("stringContainsAny", ⟨.atLeast 2, Method.containsAny⟩)]⟩

/-- **Calls a method**: it has to be there, and the number of arguments has to be right. -/
def invoke (registry : Registry) (name : String) (arguments : List Value) :
    Except Fault Value := do
  match registry.get? name with
  | none => .error (.unknownMethod name)
  | some method =>
    method.arity.validate name arguments.length
    method.run arguments

end Registry
end DecimalExpression
