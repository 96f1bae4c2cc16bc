import DecimalExpression.Fault
import DecimalExpression.Text.Blank

/-!
# The nesting of a source

Groups and conditionals may open inside each other to a limited depth.  `scan` counts that depth
on the bare characters, before any rule of the grammar is tried, so the grammar's own recursion is
bounded.

A parenthesis opens a level.  A question mark opens a conditional on the innermost level; it stays
open until that level closes or a comma starts the next argument, so conditionals side by side do
not add up.  Characters inside quotes do not count, and a closing parenthesis without an open one
is ignored.

It is `check_nesting`, with its limit `MAX_NESTING`.
-/

namespace DecimalExpression

/-- **The state of the scan**: the open conditionals of each open level, the innermost level
apart from the levels around it, and their total. -/
structure Nesting where
  inner : Nat
  outer : List Nat
  conditionals : Nat
  quoted : Bool
deriving DecidableEq, Repr

namespace Nesting

/-- The most groups and conditionals that may be open at once. -/
def limit : Nat := 64

/-- Before the first character: the outermost level, with nothing open. -/
def start : Nesting := ⟨0, [], 0, false⟩

/-- The number of groups and conditionals open. -/
def depth (n : Nesting) : Nat :=
  n.outer.length + n.conditionals

/-- **One character.** -/
def step (n : Nesting) (c : Char) : Nesting :=
  if c = '"' then { n with quoted := !n.quoted }
  else if n.quoted then n
  else if c = '(' then { n with inner := 0, outer := n.inner :: n.outer }
  else if c = ')' then
    match n.outer with
    | [] => n
    | around :: outer =>
      { n with inner := around, outer := outer, conditionals := n.conditionals - n.inner }
  else if c = ',' then { n with inner := 0, conditionals := n.conditionals - n.inner }
  else if c = '?' then { n with inner := n.inner + 1, conditionals := n.conditionals + 1 }
  else n

/-- The byte position, counted on from `position`, of the first character at which the depth
exceeds the limit. -/
def excessFrom (position : Nat) (n : Nesting) : List Char → Option Nat
  | [] => none
  | c :: rest =>
    let next := n.step c
    if limit < next.depth then some position
    else excessFrom (position + c.utf8Size) next rest

/-- **The first place at which a source nests too deep**, if there is one. -/
def excess? (source : List Char) : Option Nat :=
  excessFrom 0 start source

/-! ## The counter agrees with the levels -/

/-- The total is the sum over all levels. -/
def Balanced (n : Nesting) : Prop :=
  n.conditionals = n.inner + n.outer.foldr (· + ·) 0

theorem balanced_start : start.Balanced := rfl

/-- **Every step keeps the total equal to the sum**, so no subtraction in `step` is cut off at
zero. -/
theorem Balanced.step {n : Nesting} (h : n.Balanced) (c : Char) : (n.step c).Balanced := by
  unfold Balanced at h
  unfold Nesting.step
  split
  · exact h
  split
  · exact h
  split
  · simp only [Balanced, List.foldr_cons]; omega
  split
  · split
    · exact h
    · rename_i around outer houter
      simp only [Balanced, houter, List.foldr_cons] at h ⊢
      omega
  split
  · simp only [Balanced]; omega
  split
  · simp only [Balanced]; omega
  · exact h

end Nesting
end DecimalExpression
