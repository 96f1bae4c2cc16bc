import DecimalExpression.Syntax.Grammar

/-!
# Sources

`ParseTree.ofSource` reads a whole source.  It checks the nesting first, then reads one
conditional, which has to reach the end of the source, and checks the depth of the tree last.
Every refusal is a fault at a byte position of the source.

This is `parse`, with `check_nesting` in front and `parse_error_to_message` behind it
(specification, sections 6 and 10).
-/

namespace DecimalExpression

/-- The highest parse tree that is accepted. -/
def ParseTree.depthLimit : Nat := 1024

namespace Source

/-- The byte position at which `rest` starts, where `rest` is the end of `chars`. -/
def position (chars rest : List Char) : Nat :=
  Text.utf8Size chars - Text.utf8Size rest

/-- The fault of a rule that stopped. -/
def stopFault (chars : List Char) (stop : Stop) : Fault :=
  .source (position chars stop.rest) stop.cause

/-- **One conditional that reaches the end**, apart from layout. -/
def readAll (chars : List Char) : Except Fault ParseTree :=
  match Grammar.conditional (.ofChars chars) with
  | .error stop => .error (stopFault chars stop)
  | .ok reading =>
    match reading.rest.skipLayout.rest.chars with
    | [] => .ok reading.value
    | left =>
      .error (.source (position chars left) (.leftover (String.ofList (Text.trim left))))

end Source

/-- **The parse tree of a source.** -/
def ParseTree.ofSource (source : String) : Except Fault ParseTree :=
  let chars := source.toList
  match Nesting.excess? chars with
  | some position => .error (.source position (.nestedTooDeep Nesting.limit))
  | none =>
    match Source.readAll chars with
    | .error fault => .error fault
    | .ok tree =>
      let root := ParseTree.wrap .expression tree
      if ParseTree.depthLimit < root.depth then
        .error (.source 0 (.treeTooDeep ParseTree.depthLimit))
      else .ok root

end DecimalExpression
