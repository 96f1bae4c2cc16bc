import DecimalExpression.Syntax.Input
import DecimalExpression.Syntax.Nesting
import DecimalExpression.Syntax.ParseTree

/-!
# The rules of the grammar

A rule reads one production from an input.  It either gives a tree and the input behind it, or
stops, and a stop says where, what was wanted there, and whether it is final.  A stop that is not
final lets another alternative be tried from the same place; behind an operator, an opening
parenthesis, a question mark or a quote every stop is final.

The rules are written for an input of at most `n` characters, from a rule `inner` for conditionals
on shorter inputs; `conditional` ties the knot.  Operators of one level make a chain, and there
are three ways to build its node:

* sums and products are **flat**: all operands and operators are children of one node;
* comparisons nest **to the left**: the node so far is the left child of the next one;
* `||` and `&&` nest **to the right**.

Chains that nest are limited to `chainLimit` operators and runs of signs to `Nesting.limit`, so
the depth of a tree stays within reach of the limit that `ParseTree.ofSource` checks.

There is one rule for each production in section 10 of the specification, from
`conditional_expression` down to `primary_expression`.  The three kinds of chains are `flat_chain`,
`left_nested_chain` and `right_nested_chain`.
-/

namespace DecimalExpression

/-! ## 1. Stops -/

/-- What was wanted where a rule stopped. -/
inductive Wanted where
  | operand
  | token
  | supportedNumber
  | shorterChain
deriving DecidableEq, Repr

/-- **Where and why a rule stopped.** -/
structure Stop where
  rest : List Char
  wanted : Wanted
  final : Bool

namespace Stop

/-- The stop as a final one. -/
def commit (stop : Stop) : Stop := { stop with final := true }

/-- The characters that a report quotes. -/
def near (rest : List Char) : String :=
  String.ofList ((Text.trimStart rest).take 10)

/-- **The cause to report.**  Where nothing but blanks is left, the end came too early, whatever
was wanted. -/
def cause (stop : Stop) : SourceFault :=
  if (Text.trim stop.rest).isEmpty then .unexpectedEnd
  else match stop.wanted with
    | .shorterChain => .chainTooLong
    | .supportedNumber => .literalRange (String.ofList (Lexeme.numeral stop.rest))
    | .token => .unexpectedToken (near stop.rest)
    | .operand => .noOperand (near stop.rest)

end Stop

/-- **What a rule comes to.** -/
abbrev Outcome (least : Nat) (s : Input) (α : Type) := Except Stop (Reading least s α)

/-- **A rule** for inputs of at most `n` characters. -/
abbrev Rule (n : Nat) := (s : Input) → s.size ≤ n → Outcome 1 s ParseTree

/-- A rule for inputs of fewer than `n` characters. -/
abbrev InnerRule (n : Nat) := (s : Input) → s.size < n → Outcome 1 s ParseTree

namespace Grammar

/-- The most operators in a chain that nests. -/
def chainLimit : Nat := 1024

/-- A token as a tree. -/
def tokenTree (text : String) : ParseTree := .leaf .token text

/-- A rule in a place where every stop is final. -/
def committed {least : Nat} {s : Input} {α : Type} (outcome : Outcome least s α) :
    Outcome least s α :=
  outcome.mapError Stop.commit

/-- **A token that has to stand here**, behind layout; the stop is behind that layout. -/
def expectToken (s : Input) (token : List Char) : Outcome 1 s String :=
  match s.token? [token] with
  | some reading => .ok reading
  | none => .error ⟨s.skipLayout.rest.chars, .token, true⟩

/-! ## 2. Chains -/

variable {n : Nat}

/-- The operators and operands behind the first operand of a flat chain, behind `done`. -/
def flatTail (operators : List (List Char)) (operand : Rule n) (start s : Input)
    (suffix : s.chars <:+ start.chars) (progress : s.size + 1 ≤ start.size)
    (fits : start.size ≤ n) (done : Array ParseTree) : Outcome 1 start (Array ParseTree) :=
  match s.token? operators with
  | none => .ok ⟨done, s, suffix, progress⟩
  | some operator =>
    match committed (operand operator.rest (by have := operator.progress; omega)) with
    | .error stop => .error stop
    | .ok right =>
      flatTail operators operand start right.rest
        ((right.suffix.trans operator.suffix).trans suffix)
        (by have := operator.progress; have := right.progress; omega) fits
        ((done.push (tokenTree operator.value)).push right.value)
termination_by s.size
decreasing_by have := operator.progress; have := right.progress; omega

/-- **A flat chain**: `operand (operator operand)*` as the children of one node. -/
def flatChain (production : Production) (operators : List (List Char)) (operand : Rule n) :
    Rule n := fun start fits =>
  match operand start fits with
  | .error stop => .error stop
  | .ok first =>
    match flatTail operators operand start first.rest first.suffix first.progress fits
        #[first.value] with
    | .error stop => .error stop
    | .ok children =>
      .ok (children.give ⟨production, start.slice children.rest, children.value.toList⟩)

/-- The rest of a chain that nests to the left, around the node so far, with the number of
operators in it. -/
def leftTail (production : Production) (operators : List (List Char)) (operand : Rule n)
    (start s : Input) (suffix : s.chars <:+ start.chars) (progress : s.size + 1 ≤ start.size)
    (fits : start.size ≤ n) (count : Nat) (node : ParseTree) : Outcome 1 start ParseTree :=
  match s.token? operators with
  | none => .ok ⟨node, s, suffix, progress⟩
  | some operator =>
    match committed (operand operator.rest (by have := operator.progress; omega)) with
    | .error stop => .error stop
    | .ok right =>
      if chainLimit < count + 1 then .error ⟨s.chars, .shorterChain, true⟩
      else
        leftTail production operators operand start right.rest
          ((right.suffix.trans operator.suffix).trans suffix)
          (by have := operator.progress; have := right.progress; omega) fits (count + 1)
          ⟨production, start.slice right.rest, [node, tokenTree operator.value, right.value]⟩
termination_by s.size
decreasing_by have := operator.progress; have := right.progress; omega

/-- **A chain that nests to the left**: `((a op b) op c)`. -/
def leftChain (production : Production) (operators : List (List Char)) (operand : Rule n) :
    Rule n := fun start fits =>
  match operand start fits with
  | .error stop => .error stop
  | .ok first =>
    leftTail production operators operand start first.rest first.suffix first.progress fits 0
      (.wrap production first.value)

/-- One operand of a chain that nests to the right: where it starts, the operand, and the
operator behind it. -/
structure Link where
  start : Input
  operand : ParseTree
  operator : String

/-- The node of a chain that nests to the right, from its last operand outwards. -/
def nestRight (production : Production) (rest : Input) (links : List Link) (last : ParseTree) :
    ParseTree :=
  links.foldl
    (fun node link =>
      ⟨production, link.start.slice rest, [link.operand, tokenTree link.operator, node]⟩)
    last

/-- The rest of a chain that nests to the right, from the operand that starts `here`, behind
`links`, the last of which comes first. -/
def rightTail (production : Production) (operator : List Char) (operand : Rule n)
    (start here : Input) (suffix : here.chars <:+ start.chars) (progress : here.size ≤ start.size)
    (fits : start.size ≤ n) (links : List Link) : Outcome 1 start ParseTree :=
  match operand here (by omega) with
  | .error stop => .error (if links.isEmpty then stop else stop.commit)
  | .ok reading =>
    match reading.rest.token? [operator] with
    | none =>
      .ok ⟨nestRight production reading.rest links
          ⟨production, here.slice reading.rest, [reading.value]⟩,
        reading.rest, reading.suffix.trans suffix, by have := reading.progress; omega⟩
    | some token =>
      if chainLimit ≤ links.length then .error ⟨reading.rest.chars, .shorterChain, true⟩
      else
        rightTail production operator operand start token.rest
          ((token.suffix.trans reading.suffix).trans suffix)
          (by have := token.progress; have := reading.progress; omega) fits
          (⟨here, reading.value, token.value⟩ :: links)
termination_by here.size
decreasing_by have := token.progress; have := reading.progress; omega

/-- **A chain that nests to the right**: `(a op (b op c))`. -/
def rightChain (production : Production) (operator : List Char) (operand : Rule n) : Rule n :=
  fun start fits =>
    rightTail production operator operand start start start.suffix_self (Nat.le_refl _) fits []

/-! ## 3. Operands -/

/-- **A group**, from its opening parenthesis. -/
def group (inner : InnerRule n) (s : Input) (fits : s.size ≤ n) (opening : Reading 1 s String) :
    Outcome 1 s ParseTree :=
  match committed (inner opening.rest (by have := opening.progress; omega)) with
  | .error stop => .error stop
  | .ok body =>
    match expectToken body.rest [')'] with
    | .error stop => .error stop
    | .ok closing =>
      .ok (((opening.andThen body).andThen closing).weaken (by omega) |>.give
        ⟨.group, s.slice closing.rest,
          [tokenTree opening.value, body.value, tokenTree closing.value]⟩)

/-- The arguments behind `done`, each behind a comma.  A comma without an argument is left
unread. -/
def moreArguments (inner : InnerRule n) (start s : Input) (suffix : s.chars <:+ start.chars)
    (progress : s.size ≤ start.size) (fits : start.size < n) (done : Array ParseTree) :
    Outcome 0 start (Array ParseTree) :=
  match s.token? [[',']] with
  | none => .ok ⟨done, s, suffix, by omega⟩
  | some comma =>
    match inner comma.rest (by have := comma.progress; omega) with
    | .error stop => if stop.final then .error stop else .ok ⟨done, s, suffix, by omega⟩
    | .ok argument =>
      moreArguments inner start argument.rest
        ((argument.suffix.trans comma.suffix).trans suffix)
        (by have := comma.progress; have := argument.progress; omega) fits
        (done.push argument.value)
termination_by s.size
decreasing_by have := comma.progress; have := argument.progress; omega

/-- **The arguments of a call**, perhaps none. -/
def arguments (inner : InnerRule n) (s : Input) (fits : s.size < n) :
    Outcome 0 s (Array ParseTree) :=
  match inner s fits with
  | .error stop => if stop.final then .error stop else .ok (.nothing s #[])
  | .ok first =>
    moreArguments inner s first.rest first.suffix (by have := first.progress; omega) fits
      #[first.value]

/-- **A call**, from its name and its opening parenthesis. -/
def call (inner : InnerRule n) (s : Input) (fits : s.size ≤ n) (name : Reading 1 s String)
    (opening : Reading 1 name.rest String) : Outcome 1 s ParseTree :=
  match arguments inner opening.rest
      (by have := name.progress; have := opening.progress; omega) with
  | .error stop => .error stop.commit
  | .ok args =>
    match expectToken args.rest [')'] with
    | .error stop => .error stop
    | .ok closing =>
      .ok ((((name.andThen opening).andThen args).andThen closing).weaken (by omega) |>.give
        ⟨.call, s.slice closing.rest,
          tokenTree name.value :: tokenTree opening.value ::
            (args.value.toList ++ [tokenTree closing.value])⟩)

/-- **A name**: a call where a parenthesis follows, a variable otherwise. -/
def callOrReference (inner : InnerRule n) (s : Input) (fits : s.size ≤ n)
    (name : Reading 1 s String) : Outcome 1 s ParseTree :=
  match name.rest.token? [['(']] with
  | some opening => call inner s fits name opening
  | none => .ok (name.give (.leaf .reference name.value))

/-- **A number literal**, refused where its decimal is out of range. -/
def number (s : Input) (literal : Reading 1 s String) : Outcome 1 s ParseTree :=
  match Decimal.ofNumeral literal.value with
  | .error _ => .error ⟨s.chars, .supportedNumber, true⟩
  | .ok _ => .ok (literal.give (.leaf .number literal.value))

/-- **A bare operand**: what a primary consists of, without layout in front.  The first character
decides which alternative it can be. -/
def bareOperand (inner : InnerRule n) (s : Input) (fits : s.size ≤ n) : Outcome 1 s ParseTree :=
  match Lexeme.token? s.chars [['(']] with
  | some opening => group inner s fits (s.take opening)
  | none =>
    match Lexeme.identifier? s.chars with
    | some name => callOrReference inner s fits (s.take name)
    | none =>
      match Lexeme.number? s.chars with
      | some literal => number s (s.take literal)
      | none =>
        match Lexeme.quoted s.chars with
        | .closed text =>
          let reading := s.take text
          .ok (reading.give (.leaf .text reading.value))
        | .unclosed => .error ⟨[], .token, true⟩
        | .absent => .error ⟨s.chars, .operand, false⟩

/-- **A primary**, behind layout. -/
def primary (inner : InnerRule n) : Rule n := fun s fits =>
  let start := s.skipLayout
  match bareOperand inner start.rest (by have := start.progress; omega) with
  | .error stop => .error stop
  | .ok reading =>
    .ok ((start.andThen reading).weaken (by omega) |>.give (.wrap .primary reading.value))

/-- A sign of an operand, and the input in front of it. -/
structure Signed where
  start : Input
  sign : String

/-- A signed operand, from the innermost sign outwards. -/
def nestSigns (rest : Input) (signs : List Signed) (operand : ParseTree) : ParseTree :=
  signs.foldl
    (fun node signed =>
      ⟨.unary, signed.start.slice rest, [tokenTree signed.sign, node]⟩)
    operand

/-- The rest of a signed operand behind `signs`, the last of which comes first. -/
def unaryTail (operand : Rule n) (start s : Input) (suffix : s.chars <:+ start.chars)
    (progress : s.size ≤ start.size) (fits : start.size ≤ n) (signs : List Signed) :
    Outcome 1 start ParseTree :=
  match s.token? [['+'], ['-']] with
  | some sign =>
    if Nesting.limit ≤ signs.length then .error ⟨s.chars, .shorterChain, true⟩
    else
      unaryTail operand start sign.rest (sign.suffix.trans suffix)
        (by have := sign.progress; omega) fits (⟨s, sign.value⟩ :: signs)
  | none =>
    match operand s (by omega) with
    | .error stop => .error (if signs.isEmpty then stop else stop.commit)
    | .ok reading =>
      .ok ⟨nestSigns reading.rest signs (.wrap .unary reading.value), reading.rest,
        reading.suffix.trans suffix, by have := reading.progress; omega⟩
termination_by s.size
decreasing_by have := sign.progress; omega

/-- **An operand with its signs.** -/
def unary (inner : InnerRule n) : Rule n := fun start fits =>
  unaryTail (primary inner) start start start.suffix_self (Nat.le_refl _) fits []

/-! ## 4. The layers -/

def multiplicative (inner : InnerRule n) : Rule n :=
  flatChain .multiplicative [['*'], ['/']] (unary inner)

def additive (inner : InnerRule n) : Rule n :=
  flatChain .additive [['+'], ['-']] (multiplicative inner)

/-- Longer operators come first. -/
def relational (inner : InnerRule n) : Rule n :=
  leftChain .relational [['<', '='], ['>', '='], ['<'], ['>']] (additive inner)

def equality (inner : InnerRule n) : Rule n :=
  leftChain .equality [['=', '='], ['!', '=']] (relational inner)

def conjunction (inner : InnerRule n) : Rule n :=
  rightChain .conjunction ['&', '&'] (equality inner)

def disjunction (inner : InnerRule n) : Rule n :=
  rightChain .disjunction ['|', '|'] (conjunction inner)

/-- The two branches of a conditional, from its question mark. -/
def branches (inner : InnerRule n) (s : Input) (fits : s.size ≤ n) (condition : ParseTree)
    (decided : Reading 1 s String) : Outcome 1 s ParseTree :=
  match committed (inner decided.rest (by have := decided.progress; omega)) with
  | .error stop => .error stop
  | .ok consequent =>
    match expectToken consequent.rest [':'] with
    | .error stop => .error stop
    | .ok colon =>
      match committed (inner colon.rest (by
          have := decided.progress; have := consequent.progress; have := colon.progress
          omega)) with
      | .error stop => .error stop
      | .ok alternative =>
        .ok ((((decided.andThen consequent).andThen colon).andThen alternative).weaken (by omega)
          |>.give ⟨.conditional, s.slice alternative.rest,
            [.wrap .condition condition, tokenTree decided.value,
              .wrap .consequent consequent.value, tokenTree colon.value,
              .wrap .alternative alternative.value]⟩)

/-- **A conditional**, or the disjunction alone where no question mark follows. -/
def conditionalLayer (inner : InnerRule n) : Rule n := fun s fits =>
  match disjunction inner s fits with
  | .error stop => .error stop
  | .ok condition =>
    match condition.rest.token? [['?']] with
    | none => .ok (condition.give (.wrap .conditional condition.value))
    | some question =>
      branches inner s fits condition.value ((condition.andThen question).weaken (by omega))

/-- **The rule for conditionals**, which the layers start from again inside groups, calls and
branches. -/
def conditional (s : Input) : Outcome 1 s ParseTree :=
  conditionalLayer (fun shorter _ => conditional shorter) s (Nat.le_refl s.size)
termination_by s.size

end Grammar
end DecimalExpression
