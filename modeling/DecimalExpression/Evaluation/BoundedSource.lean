import DecimalExpression.Evaluation.Bounded
import DecimalExpression.Expression.Planting

/-!
# Sources with bounded scales

A number literal is read while its source is, and where its scale is the least integer of 64 bits
the check of the scale overflows, as in `Bounded.checkScale`.  A literal that is refused is the last
thing that is read, so a source overflows only where the reading ends at one.

The reading is that of the rule `scientific`, which gives every numeral to `parse_literal` before it
goes on.
-/

namespace DecimalExpression

/-- **The literal at which a reading ends**, if it ends at one that is refused. -/
def Source.refusedLiteral? (chars : List Char) : Option String :=
  match Nesting.excess? chars with
  | some _ => none
  | none =>
    match Grammar.conditional (.ofChars chars) with
    | .ok _ => none
    | .error stop =>
      if stop.wanted = .supportedNumber then
        (Lexeme.number? stop.rest).map fun literal => String.ofList literal.text
      else none

namespace Bounded

/-- **The parse tree of a source**, whose literals have bounded scales. -/
def ofSource (source : String) : Outcome Fault ParseTree :=
  match ParseTree.ofSource source with
  | .ok tree => .ok tree
  | .error fault =>
    match (Source.refusedLiteral? source.toList).map ofNumeral with
    | some (.error .overflow) => .error .overflow
    | _ => fail fault

/-- **The forest of a source.** -/
def forestOfSource (source : String) : Outcome Fault Forest := do
  let tree ← ofSource source
  lift ((Forest.ofTree tree).mapError Fault.ofShape)

end Bounded

end DecimalExpression
