import DecimalExpression.Proofs.Decimal.Number
import DecimalExpression.Proofs.Evaluation.Pipeline

/-!
# Sums and products are exact

A source of number literals, variables, signs, parentheses, `+`, `-` and `*` stands for a
calculation (`ParseTree.calculation?`), which is what the tokens of the source say by the usual
precedence, with the operators of one level from the left (`Calculation.Denotes`).

Without a precision, evaluating such a source gives the exact value of its calculation, or fails
because an exponent is out of range.  Only a product of decimals whose scales add up to more than
the limit can make it fail (`Forest.evaluate_exact`).  One operation on decimals within the limit
gives the decimal that the operation is for, or fails so (`settles_binary`); a chain follows by
induction on its links (`settles_fold`), and a tree by induction on its derivation
(`ParseTree.Derives.settles`).
-/

namespace DecimalExpression

open Interpreter

/-! ## 1. Calculations

A calculation is what is written, as a tree of signs and operators.  It is described twice, from the
tokens by precedence (`Denotes`) and from the parse tree (`ParseTree.calculation?`), and the two are
compared below.  Groups leave no trace in it, and neither do layers. -/

/-- **A calculation**, as it is written. -/
inductive Calculation where
  | number (slice : String)
  | reference (name : String)
  | plus (body : Calculation)
  | minus (body : Calculation)
  | sum (left right : Calculation)
  | difference (left right : Calculation)
  | product (left right : Calculation)
deriving DecidableEq, Repr

namespace Calculation

/-- A sign in front of a calculation. -/
def signed? (sign : String) (body : Calculation) : Option Calculation :=
  match sign with
  | "+" => some (plus body)
  | "-" => some (minus body)
  | _ => none

/-- An operator between two calculations. -/
def binary? (operator : String) (left right : Calculation) : Option Calculation :=
  match operator with
  | "+" => some (sum left right)
  | "-" => some (difference left right)
  | "*" => some (product left right)
  | _ => none

/-- **A chain of operators**, from the left. -/
def chain? (first : Calculation) (links : List (String × Calculation)) : Option Calculation :=
  links.foldlM (fun left link => binary? link.1 left link.2) first

/-- **How tightly a calculation binds** in writing. -/
inductive Precedence where
  | sum
  | product
  | factor

/-- **What tokens say** by the usual precedence: a product binds tighter than a sum, a sign tighter
than a product, operators of one level group to the left, and parentheses hold a sum. -/
inductive Denotes : Precedence → List String → Calculation → Prop
  | number {slice : String} (word : Word.isNumeral slice.toList) :
    Denotes .factor [slice] (.number slice)
  | reference {name : String} (word : Word.isName name.toList) :
    Denotes .factor [name] (.reference name)
  | group {tokens : List String} {e : Calculation} (body : Denotes .sum tokens e) :
    Denotes .factor ("(" :: (tokens ++ [")"])) e
  | plus {tokens : List String} {e : Calculation} (body : Denotes .factor tokens e) :
    Denotes .factor ("+" :: tokens) e.plus
  | minus {tokens : List String} {e : Calculation} (body : Denotes .factor tokens e) :
    Denotes .factor ("-" :: tokens) e.minus
  | oneFactor {tokens : List String} {e : Calculation} (only : Denotes .factor tokens e) :
    Denotes .product tokens e
  | product {before behind : List String} {l r : Calculation} (left : Denotes .product before l)
    (right : Denotes .factor behind r) : Denotes .product (before ++ "*" :: behind) (l.product r)
  | oneProduct {tokens : List String} {e : Calculation} (only : Denotes .product tokens e) :
    Denotes .sum tokens e
  | sum {before behind : List String} {l r : Calculation} (left : Denotes .sum before l)
    (right : Denotes .product behind r) : Denotes .sum (before ++ "+" :: behind) (l.sum r)
  | difference {before behind : List String} {l r : Calculation} (left : Denotes .sum before l)
    (right : Denotes .product behind r) : Denotes .sum (before ++ "-" :: behind) (l.difference r)

end Calculation

namespace ParseTree

mutual

/-- **The calculation of a tree**, if it is made of literals, variables, signs, parentheses, sums,
differences and products. -/
def calculation? : ParseTree → Option Calculation
  | ⟨.number, slice, []⟩ => some (.number slice)
  | ⟨.reference, slice, []⟩ => some (.reference slice)
  | ⟨.group, _, [_, body, _]⟩ => calculation? body
  | ⟨.unary, _, [sign, operand]⟩ => do Calculation.signed? sign.text (← calculation? operand)
  | ⟨.additive, _, first :: links⟩ => do
    Calculation.chain? (← calculation? first) (← calculationLinks? links)
  | ⟨.multiplicative, _, first :: links⟩ => do
    Calculation.chain? (← calculation? first) (← calculationLinks? links)
  | ⟨_, _, [only]⟩ => calculation? only
  | _ => none

/-- The operators and operands of a chain behind its first operand. -/
def calculationLinks? : List ParseTree → Option (List (String × Calculation))
  | [] => some []
  | operator :: operand :: rest => do
    let e ← calculation? operand
    let more ← calculationLinks? rest
    return (operator.text, e) :: more
  | _ => none

end

/-- **A node of a calculation**: no call and no text, and no other tokens than parentheses and three
of the operators. -/
def IsArithmetic (node : ParseTree) : Prop :=
  node.production ≠ .call ∧ node.production ≠ .text ∧
    (node.production = .token → node.text ∈ ["+", "-", "*", "(", ")"])

instance : DecidablePred IsArithmetic := fun _ => inferInstanceAs (Decidable (_ ∧ _))

/-- **A variable is bound** to its value, a decimal within the limit. -/
def IsBound (bindings : Named Value) (values : String → Decimal) (node : ParseTree) : Prop :=
  node.production = .reference →
    bindings.get? node.text = some (.decimal (values node.text)) ∧ (values node.text).InRange

instance (bindings : Named Value) (values : String → Decimal) :
    DecidablePred (IsBound bindings values) := fun _ =>
  inferInstanceAs (Decidable (_ = _ → _ = some _ ∧ Decimal.scaleSupported _ = true))

/-- The precedence of what a production reads. -/
def precedence : Production → Calculation.Precedence
  | .unary | .primary | .group | .call | .number | .text | .reference | .token => .factor
  | .multiplicative => .product
  | _ => .sum

end ParseTree

/-! ## 2. Values

Its value is a rational number, by recursion, with no rounding and no scales.  The decimal that an
evaluation comes to has that number and a scale besides, and the only thing that can go wrong with
it is a scale: that of a product whose factors have large ones. -/

namespace Calculation

/-- The decimal of a number literal. -/
def literal (slice : String) : Decimal :=
  match Decimal.read slice with
  | .ok found => found
  | .error _ => .ofInt 0

/-- **The exact value** of a calculation, where its variables have values. -/
def exact (values : String → Decimal) : Calculation → ℚ
  | number slice => (literal slice).toRat
  | reference name => (values name).toRat
  | plus body => body.exact values
  | minus body => -body.exact values
  | sum left right => left.exact values + right.exact values
  | difference left right => left.exact values - right.exact values
  | product left right => left.exact values * right.exact values

/-- **The decimal of a calculation**, whatever its scale: a sign adds to zero or takes from it. -/
def decimal (values : String → Decimal) : Calculation → Decimal
  | number slice => literal slice
  | reference name => values name
  | plus body => (Decimal.ofInt 0).add (body.decimal values)
  | minus body => (Decimal.ofInt 0).sub (body.decimal values)
  | sum left right => (left.decimal values).add (right.decimal values)
  | difference left right => (left.decimal values).sub (right.decimal values)
  | product left right => (left.decimal values).mul (right.decimal values)

/-- **Some product overflows**: its factors are within the limit, and their scales add up to
more. -/
def Overflows (values : String → Decimal) : Calculation → Prop
  | number _ | reference _ => False
  | plus body | minus body => body.Overflows values
  | sum left right | difference left right => left.Overflows values ∨ right.Overflows values
  | product left right => left.Overflows values ∨ right.Overflows values ∨
    (left.decimal values).InRange ∧ (right.decimal values).InRange ∧
      scaleLimit < ((left.decimal values).scale + (right.decimal values).scale).natAbs

variable {values : String → Decimal} {e first : Calculation}

/-- **The decimal of a calculation has its exact value.** -/
theorem toRat_decimal (e : Calculation) : (e.decimal values).toRat = e.exact values := by
  induction e with
  | number slice => rfl
  | reference name => rfl
  | plus body ih =>
    rw [decimal, exact, Decimal.toRat_add, Decimal.toRat_ofInt, ih, Int.cast_zero, zero_add]
  | minus body ih =>
    rw [decimal, exact, Decimal.toRat_sub, Decimal.toRat_ofInt, ih, Int.cast_zero, zero_sub]
  | sum left right l r => rw [decimal, exact, Decimal.toRat_add, l, r]
  | difference left right l r => rw [decimal, exact, Decimal.toRat_sub, l, r]
  | product left right l r => rw [decimal, exact, Decimal.toRat_mul, l, r]

/-- A numeral that has a decimal stands for it. -/
theorem literal_of_ofNumeral {slice : String} {number : Decimal}
    (found : Decimal.ofNumeral slice = .ok number) : literal slice = number ∧ number.InRange := by
  rw [Decimal.ofNumeral] at found
  rw [literal]
  split at found
  · cases found
  · rename_i d read
    obtain ⟨rfl, inRange⟩ := Decimal.inRange_of_checkScale found
    rw [read]
    exact ⟨rfl, inRange⟩

/-- A sign in front of a calculation is one of two. -/
theorem signed?_eq_some {sign : String} {body : Calculation} (joined : signed? sign body = some e) :
    (sign = "+" ∧ e = body.plus) ∨ (sign = "-" ∧ e = body.minus) := by
  unfold signed? at joined
  split at joined <;> cases joined
  · exact .inl ⟨rfl, rfl⟩
  · exact .inr ⟨rfl, rfl⟩

/-- An operator that joins two calculations is one of three. -/
theorem binary?_eq_some {operator : String} {l r : Calculation}
    (joined : binary? operator l r = some e) :
    (operator = "+" ∧ e = l.sum r) ∨ (operator = "-" ∧ e = l.difference r) ∨
      (operator = "*" ∧ e = l.product r) := by
  unfold binary? at joined
  split at joined <;> cases joined
  · exact .inl ⟨rfl, rfl⟩
  · exact .inr (.inl ⟨rfl, rfl⟩)
  · exact .inr (.inr ⟨rfl, rfl⟩)

theorem overflows_binary? {operator : String} {l r : Calculation}
    (joined : binary? operator l r = some e) (overflow : l.Overflows values ∨ r.Overflows values) :
    e.Overflows values := by
  obtain ⟨-, rfl⟩ | ⟨-, rfl⟩ | ⟨-, rfl⟩ := binary?_eq_some joined <;> rw [Overflows]
  · exact overflow
  · exact overflow
  · exact overflow.imp_right .inl

/-- **A chain overflows** where an operand of it does. -/
theorem overflows_chain? {links : List (String × Calculation)} (chain : chain? first links = some e)
    (overflow : first.Overflows values ∨ ∃ link ∈ links, link.2.Overflows values) :
    e.Overflows values := by
  induction links generalizing first with
  | nil =>
    cases chain
    simpa using overflow
  | cons link links ih =>
    obtain ⟨next, joined, more⟩ := Option.bind_eq_some_iff.mp chain
    refine ih more ?_
    rw [List.exists_mem_cons_iff, ← or_assoc] at overflow
    exact overflow.imp_left (overflows_binary? joined)

end Calculation

/-! ## 3. Operations

An outcome is one of two things, and `Settles` says which decimal it is if it is the first, and what
must have happened if it is the second.  Sums, differences and signs stay within the limit, so only
the product has two cases. -/

/-- **An outcome settles** on a decimal, which is within the limit, or on an exponent out of range,
which takes an overflow. -/
def Settles (d : Decimal) (overflows : Prop) (outcome : Except Fault Value) : Prop :=
  (outcome = .ok (.decimal d) ∧ d.InRange) ∨
    overflows ∧ ∃ exponent slice, outcome = .error (.arithmetic (.exponentRange exponent) slice)

section Operations

variable {policy : Policy} {a b c d : Decimal} {overflows : Prop} {outcome : Except Fault Value}

theorem Settles.named (settles : Settles d overflows outcome) (slice : String) :
    Settles d overflows (named slice outcome) := by
  obtain ⟨rfl, inRange⟩ | ⟨overflow, exponent, known, rfl⟩ := settles
  · exact .inl ⟨rfl, inRange⟩
  · exact .inr ⟨overflow, exponent, _, rfl⟩

/-- An operation on decimals within the limit checks the scale of its result. -/
theorem calculate_decimals (operator : Operator) (left : a.InRange) (right : b.InRange)
    (result : operator.applyDecimal policy a b = .ok c) :
    calculate policy (.decimal a) operator.symbol (.decimal b)
      = (c.checkScale.mapError Fault.ofArithmetic).map .decimal := by
  have outcome := Operator.apply_of_toDecimal operator policy (Decimal.toDecimal_of_inRange left)
    (Decimal.toDecimal_of_inRange right)
  rw [result] at outcome
  rw [calculate, Operator.ofSymbol?_symbol]
  dsimp only
  rw [outcome]
  rfl

/-- A result within the limit stays. -/
theorem settles_of_inRange (operator : Operator) (left : a.InRange) (right : b.InRange)
    (result : operator.applyDecimal policy a b = .ok c) (inRange : c.InRange) :
    Settles c overflows (calculate policy (.decimal a) operator.symbol (.decimal b)) := by
  rw [calculate_decimals operator left right result, Decimal.checkScale_of_inRange inRange]
  exact .inl ⟨rfl, inRange⟩

variable (exactly : policy.precision = none)
include exactly

/-- Without a precision results are not rounded. -/
theorem roundResult_exact (d : Decimal) : Operator.roundResult policy d = .ok d := by
  rw [Operator.roundResult, exactly]

theorem settles_add (left : a.InRange) (right : b.InRange) :
    Settles (a.add b) overflows (calculate policy (.decimal a) "+" (.decimal b)) :=
  settles_of_inRange .add left right (roundResult_exact exactly _)
    (Decimal.inRange_add left right)

theorem settles_sub (left : a.InRange) (right : b.InRange) :
    Settles (a.sub b) overflows (calculate policy (.decimal a) "-" (.decimal b)) :=
  settles_of_inRange .subtract left right (roundResult_exact exactly _)
    (Decimal.inRange_sub left right)

/-- **A product settles**: it fails only where the scales of the factors add up to more than the
limit. -/
theorem settles_mul (left : a.InRange) (right : b.InRange) :
    Settles (a.mul b) (scaleLimit < (a.scale + b.scale).natAbs)
      (calculate policy (.decimal a) "*" (.decimal b)) := by
  have result : Operator.multiply.applyDecimal policy a b = .ok (a.mul b) :=
    roundResult_exact exactly _
  by_cases inRange : (a.mul b).InRange
  · exact settles_of_inRange .multiply left right result inRange
  · refine .inr ⟨?_, -(a.mul b).scale, "", ?_⟩
    · by_contra sum
      refine inRange (Decimal.inRange_mul left right ?_)
      exact decide_eq_true (Nat.le_of_not_lt sum)
    · have refused : (a.mul b).checkScale = .error (.exponentRange (-(a.mul b).scale)) :=
        if_neg inRange
      have outcome := calculate_decimals .multiply left right result
      rw [refused] at outcome
      exact outcome

end Operations

/-! ## 4. Chains

A chain is folded from the left, and each link joins what is there with one more operand.  If a link
overflows so does the chain, which is what lets the induction stop there. -/

section Chains

open Calculation

variable {values : String → Decimal} {e first : Calculation}

/-- **A calculation settles** on its decimal, or fails because a product in it overflows. -/
abbrev Calculation.Settles (values : String → Decimal) (e : Calculation) :
    Except Fault Value → Prop :=
  DecimalExpression.Settles (e.decimal values) (e.Overflows values)

variable {policy : Policy} (exactly : policy.precision = none)
include exactly

/-- **One operator settles.** -/
theorem settles_binary {operator : String} {l r : Calculation}
    (joined : binary? operator l r = some e) (left : (l.decimal values).InRange)
    (right : (r.decimal values).InRange) : e.Settles values
      (calculate policy (.decimal (l.decimal values)) operator (.decimal (r.decimal values))) := by
  obtain ⟨rfl, rfl⟩ | ⟨rfl, rfl⟩ | ⟨rfl, rfl⟩ := binary?_eq_some joined
  · exact settles_add exactly left right
  · exact settles_sub exactly left right
  · obtain done | ⟨overflow, failed⟩ := settles_mul exactly left right
    · exact .inl done
    · exact .inr ⟨.inr (.inr ⟨left, right, overflow⟩), failed⟩

/-- **A sign settles**, in front of a decimal within the limit. -/
theorem settles_signed {sign : String} {body : Calculation} (joined : signed? sign body = some e)
    (inRange : (body.decimal values).InRange) :
    e.Settles values (calculate policy (.ofInt 0) sign (.decimal (body.decimal values))) := by
  obtain ⟨rfl, rfl⟩ | ⟨rfl, rfl⟩ := signed?_eq_some joined
  · exact settles_add exactly (Decimal.inRange_ofInt 0) inRange
  · exact settles_sub exactly (Decimal.inRange_ofInt 0) inRange

/-- **A chain settles**, link by link from the left. -/
theorem settles_fold {links : List (String × Calculation)} (chain : chain? first links = some e)
    (atFirst : (first.decimal values).InRange)
    (atLinks : ∀ link ∈ links, (link.2.decimal values).InRange) :
    e.Settles values (fold policy (.decimal (first.decimal values))
      (links.map fun link => (link.1, .decimal (link.2.decimal values)))) := by
  induction links generalizing first with
  | nil =>
    cases chain
    exact .inl ⟨rfl, atFirst⟩
  | cons link links ih =>
    obtain ⟨next, joined, more⟩ := Option.bind_eq_some_iff.mp chain
    obtain ⟨atLink, atRest⟩ := List.forall_mem_cons.mp atLinks
    rw [List.map_cons, fold, List.foldlM_cons]
    obtain ⟨done, inRange⟩ | ⟨overflow, exponent, slice, failed⟩ :=
      settles_binary exactly joined atFirst atLink
    · rw [done]
      exact ih more inRange atRest
    · rw [failed]
      exact .inr ⟨overflows_chain? more (.inl overflow), exponent, slice, rfl⟩

end Chains

/-! ## 5. Trees

Three inductions on the derivation, for three things that are said of one tree: that it is a
calculation if its nodes are of the right kinds, that its tokens say this calculation, and that its
outcome settles on the decimal of it. -/

namespace ParseTree

open Calculation

variable {p outer operand : Production} {operators : List String} {tree : ParseTree}
  {e : Calculation}

theorem calculation?_layer {outer inner : Production} (level : Layer outer inner) (slice : String)
    (body : ParseTree) : calculation? ⟨outer, slice, [body]⟩ = body.calculation? := by
  cases level <;> rw [calculation?] <;> nofun

theorem calculation?_flat (level : FlatLevel outer operand operators) (slice : String)
    (first : ParseTree) (links : List (String × ParseTree)) :
    calculation? ⟨outer, slice, first :: linkTrees links⟩ = (do
      chain? (← first.calculation?) (← calculationLinks? (linkTrees links))) := by
  cases level <;> rw [calculation?]

/-- A chain that is a calculation has operands that are. -/
theorem exists_of_calculation?_flat (level : FlatLevel outer operand operators) {slice : String}
    {first : ParseTree} {links : List (String × ParseTree)}
    (read : calculation? ⟨outer, slice, first :: linkTrees links⟩ = some e) :
    ∃ l ls, first.calculation? = some l ∧ calculationLinks? (linkTrees links) = some ls ∧
      chain? l ls = some e := by
  rw [calculation?_flat level] at read
  obtain ⟨l, atFirst, read⟩ := Option.bind_eq_some_iff.mp read
  obtain ⟨ls, atLinks, chain⟩ := Option.bind_eq_some_iff.mp read
  exact ⟨l, ls, atFirst, atLinks, chain⟩

/-- The links of a chain that is a calculation, one after another. -/
theorem exists_of_calculationLinks? {operator : String} {operand : ParseTree}
    {links : List (String × ParseTree)} {ls : List (String × Calculation)}
    (read : calculationLinks? (linkTrees ((operator, operand) :: links)) = some ls) :
    ∃ l more, operand.calculation? = some l ∧ calculationLinks? (linkTrees links) = some more ∧
      ls = (operator, l) :: more := by
  rw [linkTrees, calculationLinks?] at read
  obtain ⟨l, atOperand, read⟩ := Option.bind_eq_some_iff.mp read
  obtain ⟨more, atMore, same⟩ := Option.bind_eq_some_iff.mp read
  cases same
  exact ⟨l, more, atOperand, atMore, rfl⟩

/-- An operator that a calculation may have joins any two. -/
theorem exists_of_binary? (level : FlatLevel outer operand operators) {operator : String}
    (sign : operator ∈ operators) (arithmetic : operator ∈ ["+", "-", "*", "(", ")"])
    (l r : Calculation) : ∃ e, binary? operator l r = some e := by
  cases level with
  | additive =>
    obtain rfl | rfl : operator = "+" ∨ operator = "-" := by simpa using sign
    · exact ⟨_, rfl⟩
    · exact ⟨_, rfl⟩
  | multiplicative =>
    obtain rfl | rfl : operator = "*" ∨ operator = "/" := by simpa using sign
    · exact ⟨_, rfl⟩
    · simp at arithmetic

/-- A chain of operands that are calculations is one.  By induction on the links, with the
calculation so far; each operator is one of three, since the tree has no other tokens. -/
theorem exists_of_chain? (level : FlatLevel outer operand operators)
    {links : List (String × ParseTree)} (signs : ∀ link ∈ links, link.1 ∈ operators)
    (arithmetic : ∀ child ∈ linkTrees links, child.Throughout IsArithmetic)
    (each : ∀ link ∈ links, link.2.Throughout IsArithmetic → ∃ r, link.2.calculation? = some r)
    (l : Calculation) :
    ∃ ls e, calculationLinks? (linkTrees links) = some ls ∧ chain? l ls = some e := by
  induction links generalizing l with
  | nil => exact ⟨[], l, rfl, rfl⟩
  | cons link links ih =>
    obtain ⟨operator, operand⟩ := link
    obtain ⟨sign, moreSigns⟩ := List.forall_mem_cons.mp signs
    obtain ⟨atLink, atMore⟩ := List.forall_mem_cons.mp each
    rw [linkTrees, List.forall_mem_cons, List.forall_mem_cons] at arithmetic
    obtain ⟨atOperator, atOperand, atRest⟩ := arithmetic
    obtain ⟨r, readOperand⟩ := atLink atOperand
    obtain ⟨next, joined⟩ := exists_of_binary? level sign (atOperator.here.2.2 rfl) l r
    obtain ⟨more, e, readMore, chain⟩ := ih moreSigns atRest atMore next
    refine ⟨(operator, r) :: more, e, ?_, ?_⟩
    · rw [linkTrees, calculationLinks?, readOperand, readMore]
      rfl
    · rw [chain?, List.foldlM_cons, joined]
      exact chain

/-- **A derived tree of arithmetic is a calculation.**  By induction on the derivation.  A
comparison, a connective or a choice has a token that arithmetic does not have, and calls and texts
are excluded as such. -/
theorem Derives.exists_calculation (h : Derives p tree) :
    tree.Throughout IsArithmetic → ∃ e, tree.calculation? = some e := by
  induction h with
  | layer level slice below ih =>
    intro arithmetic
    rw [calculation?_layer level]
    exact ih (arithmetic.child List.mem_cons_self)
  | flat level slice links signs atFirst atLinks ihFirst ihLinks =>
    intro arithmetic
    obtain ⟨l, readFirst⟩ := ihFirst (arithmetic.child List.mem_cons_self)
    obtain ⟨ls, e, readLinks, chain⟩ := exists_of_chain? level signs
      (fun child member => arithmetic.child (List.mem_cons_of_mem _ member)) ihLinks l
    rw [calculation?_flat level, readFirst, readLinks]
    exact ⟨e, chain⟩
  | @left _ _ operators level slice _ _ operator sign =>
    intro arithmetic
    have token := (arithmetic.child (List.mem_cons_of_mem _ List.mem_cons_self)).here.2.2 rfl
    have foreign : ∀ o ∈ operators, o ∉ ["+", "-", "*", "(", ")"] := by cases level <;> decide
    exact absurd token (foreign _ sign)
  | @right _ _ operator level slice =>
    intro arithmetic
    have token := (arithmetic.child (List.mem_cons_of_mem _ List.mem_cons_self)).here.2.2 rfl
    have foreign : operator ∉ ["+", "-", "*", "(", ")"] := by cases level <;> decide
    exact absurd token foreign
  | choice slice =>
    intro arithmetic
    have token := (arithmetic.child (List.mem_cons_of_mem _ List.mem_cons_self)).here.2.2 rfl
    exact absurd token (by decide)
  | @signed slice sign operand plain below ih =>
    intro arithmetic
    obtain ⟨body, readOperand⟩ :=
      ih (arithmetic.child (List.mem_cons_of_mem _ List.mem_cons_self))
    rw [calculation?, readOperand]
    obtain rfl | rfl : sign = "+" ∨ sign = "-" := by simpa using plain
    · exact ⟨_, rfl⟩
    · exact ⟨_, rfl⟩
  | group slice below ih =>
    intro arithmetic
    rw [calculation?]
    exact ih (arithmetic.child (List.mem_cons_of_mem _ List.mem_cons_self))
  | call => intro arithmetic; exact absurd rfl arithmetic.here.1
  | number => intro _; exact ⟨_, rfl⟩
  | text => intro arithmetic; exact absurd rfl arithmetic.here.2.1
  | reference => intro _; exact ⟨_, rfl⟩

/-! ### What the tokens say -/

/-- One operator of a level denotes what it joins. -/
theorem denotes_binary (level : FlatLevel outer operand operators) {operator : String}
    (sign : operator ∈ operators) {l r : Calculation} (joined : binary? operator l r = some e)
    {before behind : List String} (left : Denotes (precedence outer) before l)
    (right : Denotes (precedence operand) behind r) :
    Denotes (precedence outer) (before ++ operator :: behind) e := by
  obtain ⟨rfl, rfl⟩ | ⟨rfl, rfl⟩ | ⟨rfl, rfl⟩ := binary?_eq_some joined <;> cases level
  · exact .sum left right
  · simp at sign
  · exact .difference left right
  · simp at sign
  · simp at sign
  · exact .product left right

/-- An operand alone is a chain of its level. -/
theorem denotes_single (level : FlatLevel outer operand operators) {tokens : List String}
    (only : Denotes (precedence operand) tokens e) : Denotes (precedence outer) tokens e := by
  cases level
  · exact .oneProduct only
  · exact .oneFactor only

/-- **A chain denotes** what its links join, from the left.  By induction on the links: the tokens
so far are a chain themselves, at the precedence of the whole, and the next operand binds more
tightly. -/
theorem denotes_chain (level : FlatLevel outer operand operators)
    {links : List (String × ParseTree)} (signs : ∀ link ∈ links, link.1 ∈ operators)
    {l : Calculation} {ls : List (String × Calculation)}
    (read : calculationLinks? (linkTrees links) = some ls) (chain : chain? l ls = some e)
    (each : ∀ link ∈ links, ∀ {r : Calculation}, link.2.calculation? = some r →
      Denotes (precedence operand) link.2.tokens r)
    {before : List String} (left : Denotes (precedence outer) before l) :
    Denotes (precedence outer) (before ++ linkTokens links) e := by
  induction links generalizing l ls before with
  | nil =>
    cases read
    cases chain
    rw [linkTokens, List.append_nil]
    exact left
  | cons link links ih =>
    obtain ⟨operator, operand⟩ := link
    obtain ⟨sign, moreSigns⟩ := List.forall_mem_cons.mp signs
    obtain ⟨atLink, atMore⟩ := List.forall_mem_cons.mp each
    obtain ⟨r, more, atOperand, readMore, rfl⟩ := exists_of_calculationLinks? read
    obtain ⟨next, joined, chain⟩ := Option.bind_eq_some_iff.mp chain
    have extended := ih moreSigns readMore chain atMore
      (denotes_binary level sign joined left (atLink atOperand))
    rw [linkTokens]
    rwa [List.append_assoc, List.cons_append] at extended

/-- **A derived tree that is a calculation** is what its tokens say.  By induction on the
derivation.  Layers pass on the tokens, and a tighter precedence is one of the looser ones. -/
theorem Derives.denotes (h : Derives p tree) :
    ∀ {e : Calculation}, tree.calculation? = some e → Denotes (precedence p) tree.tokens e := by
  induction h with
  | layer level slice below ih =>
    intro e read
    rw [calculation?_layer level] at read
    rw [tokens_layer level]
    have same := ih read
    cases level <;> exact same
  | flat level slice links signs atFirst atLinks ihFirst ihLinks =>
    intro e read
    obtain ⟨l, ls, first, readLinks, chain⟩ := exists_of_calculation?_flat level read
    rw [tokens_flat level]
    exact denotes_chain level signs readLinks chain (fun link member => ihLinks link member)
      (denotes_single level (ihFirst first))
  | left level => intro e read; cases level <;> cases read
  | right level => intro e read; cases level <;> cases read
  | choice => intro e read; cases read
  | @signed slice sign operand plain below ih =>
    intro e read
    rw [calculation?] at read
    obtain ⟨body, atBody, joined⟩ := Option.bind_eq_some_iff.mp read
    rw [tokens_signed]
    obtain ⟨rfl, rfl⟩ | ⟨rfl, rfl⟩ := signed?_eq_some joined
    · exact .plus (ih atBody)
    · exact .minus (ih atBody)
  | group slice below ih =>
    intro e read
    rw [calculation?] at read
    rw [tokens_group]
    exact .group (ih read)
  | call => intro e read; cases read
  | number word =>
    intro e read
    cases read
    exact .number word
  | text => intro e read; cases read
  | reference word =>
    intro e read
    cases read
    exact .reference word

/-! ### What the tree comes to -/

variable {env : Environment} {values : String → Decimal}

/-- **The operands of a chain settle**, or one of them overflows.  By induction on the links, from
left to right, so the first operand that overflows is the one that the interpreter fails at. -/
theorem settles_links {links : List (String × ParseTree)} {ls : List (String × Calculation)}
    (read : calculationLinks? (linkTrees links) = some ls)
    (each : ∀ link ∈ links, ∀ {r : Calculation}, link.2.calculation? = some r →
      r.Settles values (link.2.interpret env)) :
    (interpretLinks env (linkTrees links)
        = .ok (ls.map fun link => (link.1, .decimal (link.2.decimal values))) ∧
      ∀ link ∈ ls, (link.2.decimal values).InRange) ∨
    (∃ link ∈ ls, link.2.Overflows values) ∧ ∃ exponent slice,
      interpretLinks env (linkTrees links)
        = .error (.arithmetic (.exponentRange exponent) slice) := by
  induction links generalizing ls with
  | nil =>
    cases read
    exact .inl ⟨rfl, nofun⟩
  | cons link links ih =>
    obtain ⟨operator, operand⟩ := link
    obtain ⟨atLink, atMore⟩ := List.forall_mem_cons.mp each
    obtain ⟨r, more, atOperand, readMore, rfl⟩ := exists_of_calculationLinks? read
    rw [linkTrees, interpretLinks, List.exists_mem_cons_iff]
    obtain ⟨done, inRange⟩ | ⟨overflow, exponent, slice, failed⟩ := atLink atOperand
    · rw [done]
      obtain ⟨rest, restInRange⟩ | ⟨overflow, exponent, slice, failed⟩ := ih readMore atMore
      · rw [rest]
        exact .inl ⟨rfl, List.forall_mem_cons.mpr ⟨inRange, restInRange⟩⟩
      · rw [failed]
        exact .inr ⟨.inr overflow, exponent, slice, rfl⟩
    · rw [failed]
      exact .inr ⟨.inl overflow, exponent, slice, rfl⟩

/-- **A derived tree that is a calculation settles**: its outcome is the decimal of the calculation,
or an exponent is out of range because a product overflows. -/
theorem Derives.settles (h : Derives p tree) (exactly : env.policy.precision = none) :
    tree.Throughout Readable → tree.Throughout (IsBound env.bindings values) →
      ∀ {e : Calculation}, tree.calculation? = some e → e.Settles values (tree.interpret env) := by
  induction h with
  | layer level slice below ih =>
    intro readable bound e read
    rw [calculation?_layer level] at read
    rw [interpret_layer level]
    exact ih (readable.child List.mem_cons_self) (bound.child List.mem_cons_self) read
  | @flat _ _ _ level slice first links signs atFirst atLinks ihFirst ihLinks =>
    intro readable bound e read
    obtain ⟨l, ls, readFirst, readLinks, chain⟩ := exists_of_calculation?_flat level read
    have each : ∀ link ∈ links, ∀ {r : Calculation}, link.2.calculation? = some r →
        r.Settles values (link.2.interpret env) := fun link member =>
      have among := List.mem_cons_of_mem first (mem_linkTrees_of_mem member)
      ihLinks link member (readable.child among) (bound.child among)
    rw [interpret_flat level]
    obtain ⟨done, inRange⟩ | ⟨overflow, exponent, failedAt, failed⟩ :=
      ihFirst (readable.child List.mem_cons_self) (bound.child List.mem_cons_self) readFirst
    · rw [done]
      obtain ⟨rest, restInRange⟩ | ⟨overflow, exponent, failedAt, failed⟩ :=
        settles_links readLinks each
      · rw [rest]
        exact (settles_fold exactly chain inRange restInRange).named slice
      · rw [failed]
        exact .inr ⟨overflows_chain? chain (.inr overflow), exponent, failedAt, rfl⟩
    · rw [failed]
      exact .inr ⟨overflows_chain? chain (.inl overflow), exponent, failedAt, rfl⟩
  | left level => intro _ _ e read; cases level <;> cases read
  | right level => intro _ _ e read; cases level <;> cases read
  | choice => intro _ _ e read; cases read
  | @signed slice sign operand plain below ih =>
    intro readable bound e read
    rw [calculation?] at read
    obtain ⟨body, atBody, joined⟩ := Option.bind_eq_some_iff.mp read
    rw [interpret]
    obtain ⟨done, inRange⟩ | ⟨overflow, exponent, failedAt, failed⟩ :=
      ih (readable.child (List.mem_cons_of_mem _ List.mem_cons_self))
        (bound.child (List.mem_cons_of_mem _ List.mem_cons_self)) atBody
    · rw [done]
      exact (settles_signed exactly joined inRange).named slice
    · rw [failed]
      refine .inr ⟨?_, exponent, failedAt, rfl⟩
      obtain ⟨-, rfl⟩ | ⟨-, rfl⟩ := signed?_eq_some joined <;> exact overflow
  | group slice below ih =>
    intro readable bound e read
    rw [calculation?] at read
    rw [interpret]
    exact ih (readable.child (List.mem_cons_of_mem _ List.mem_cons_self))
      (bound.child (List.mem_cons_of_mem _ List.mem_cons_self)) read
  | call => intro _ _ e read; cases read
  | @number slice word =>
    intro readable bound e read
    cases read
    obtain ⟨number, atLiteral⟩ : ∃ number, Decimal.ofNumeral slice = .ok number := readable.here rfl
    obtain ⟨rfl, inRange⟩ := literal_of_ofNumeral atLiteral
    rw [leaf, interpret, Interpreter.literal, atLiteral]
    exact .inl ⟨rfl, inRange⟩
  | text => intro _ _ e read; cases read
  | @reference slice word =>
    intro readable bound e read
    cases read
    obtain ⟨here, inRange⟩ : env.bindings.get? slice = some (.decimal (values slice)) ∧
      (values slice).InRange := bound.here rfl
    rw [leaf, interpret, here]
    exact .inl ⟨rfl, inRange⟩

end ParseTree

/-! ## 6. Sources

For a source, the bindings come in: every variable of the tree is bound to a decimal within the
limit.  The interpreter's outcome is the outcome of the forest, so no term occurs here. -/

namespace Forest

/-- **Sums and products are exact** without a precision.  Evaluating a source of literals, bound
variables, signs, parentheses, sums, differences and products gives a decimal of exactly the value
that its tokens denote, or fails with an exponent out of range, and then the scales of the factors
of some product add up to more than the limit. -/
theorem evaluate_exact {source : String} {tree : ParseTree}
    (read : ParseTree.ofSource source = .ok tree)
    (arithmetic : tree.Throughout ParseTree.IsArithmetic) {env : Environment}
    (exactly : env.policy.precision = none) {values : String → Decimal}
    (bound : tree.Throughout (ParseTree.IsBound env.bindings values)) :
    ∃ e, tree.calculation? = some e ∧ Calculation.Denotes .sum tree.tokens e ∧
      ∃ f, ofTree tree = .ok f ∧
        ((∃ d, f.evaluate env = .ok (.decimal d) ∧ d.toRat = e.exact values) ∨
          e.Overflows values ∧ ∃ exponent slice,
            f.evaluate env = .error (.arithmetic (.exponentRange exponent) slice)) := by
  obtain ⟨derives, labelled, nonempty⟩ := ParseTree.ofSource_sound read
  obtain ⟨e, calculation⟩ := derives.exists_calculation arithmetic
  have settles := derives.settles exactly (ParseTree.ofSource_readable read) bound calculation
  obtain ⟨f, forest, represents⟩ := exists_represents derives labelled nonempty
  refine ⟨e, calculation, derives.denotes calculation, f, forest, ?_⟩
  rw [represents.evaluate_eq nonempty]
  obtain ⟨done, -⟩ | overflow := settles
  · exact .inl ⟨_, done, e.toRat_decimal⟩
  · exact .inr overflow

/-- One half under the name `x`. -/
def halfBound : Environment := ⟨⟨[("x", .decimal ⟨5, 1⟩)]⟩, .standard, .builtin⟩

open Calculation in
/-- `2 * (0.5 - 1.5) - -0.5 * 400` is 198. -/
theorem evaluate_exact_difference :
    ∃ tree, ParseTree.ofSource "2 * (x - 1.5) - -x * 4e2" = .ok tree ∧ ∃ f, ofTree tree = .ok f ∧
      ∃ d, f.evaluate halfBound = .ok (.decimal d) ∧ d.toRat = 198 := by
  have reads : (ParseTree.ofSource "2 * (x - 1.5) - -x * 4e2").toOption.all (fun tree => decide
      (tree.Throughout ParseTree.IsArithmetic ∧
        tree.Throughout (ParseTree.IsBound halfBound.bindings fun _ => ⟨5, 1⟩) ∧
        tree.calculation?
          = some (.difference (.product (.number "2")
            (.difference (.reference "x") (.number "1.5")))
            (.product (.minus (.reference "x")) (.number "4e2"))))) := by cbv
  have parses : (ParseTree.ofSource "2 * (x - 1.5) - -x * 4e2").isOk = true := by cbv
  have two : Calculation.literal "2" = ⟨2, 0⟩ := by cbv
  have oneAndAHalf : Calculation.literal "1.5" = ⟨15, 1⟩ := by cbv
  have fourHundred : Calculation.literal "4e2" = ⟨4, -2⟩ := by cbv
  obtain ⟨tree, parsed⟩ := exists_of_isOk parses
  rw [parsed] at reads
  obtain ⟨arithmetic, bound, known⟩ := of_decide_eq_true reads
  obtain ⟨e, calculation, -, f, forest, outcome⟩ :=
    @evaluate_exact _ _ parsed arithmetic halfBound rfl _ bound
  cases known.symm.trans calculation
  refine ⟨tree, parsed, f, forest, ?_⟩
  obtain ⟨d, done, value⟩ | ⟨overflow, -⟩ := outcome
  · refine ⟨d, done, ?_⟩
    rw [value]
    norm_num [exact, two, oneAndAHalf, fourHundred, Decimal.toRat_eq]
  · simp [Overflows, decimal, two, oneAndAHalf, fourHundred, Decimal.sub, Decimal.ofInt,
      Decimal.isZero, Decimal.neg, scaleLimit] at overflow

end Forest

end DecimalExpression
