import DecimalExpression.Proofs.Syntax.Completeness
import DecimalExpression.Proofs.Syntax.NestingBound
import DecimalExpression.Proofs.Syntax.Soundness

/-!
# Where a source is refused

Every refusal stands at the end of a front part of the source, so its position is where a character
starts, or the end (`ParseTree.ofSource_located`).  A rule stops at an end part of its input: it
only ever hands on what it was given, less what it has read.  And where it stops for want of a
supported number, the literal that is refused stands there (`Stop.StandsIn`,
`Grammar.conditional_standsIn`).

Where something is left over, the part in front of it is a sentence.  Its tokens are laid out there
as they are in the source, so it is read as a whole (`Source.exists_readAll_front`), and only the
depth of its tree may still be too much (`ParseTree.ofSource_of_readAll`).
-/

namespace DecimalExpression

/-! ## 1. Rules that stop

A rule hands down what is left of its input and never looks back, so wherever it stops an end part
of its input is left.  That is proved for each rule, with one more thing to carry: a literal that is
refused stands where the rule stopped. -/

/-- **A literal that is refused**: a number literal stands in front, and there is no decimal for
it. -/
def Lexeme.IsRefused {source : List Char} (literal : Lexeme source) : Prop :=
  Lexeme.number? source = some literal ∧ ∃ cause, Decimal.ofNumeral (String.ofList literal.text)
    = .error cause

/-- **A stop in an input**: what is left there is an end part of it.  Where a number was wanted, the
stop is final and a literal stands there that is refused. -/
structure Stop.StandsIn (stop : Stop) (s : Input) : Prop where
  suffix : stop.rest <:+ s.chars
  refused : stop.wanted = .supportedNumber → stop.final = true ∧ ∃ literal : Lexeme stop.rest,
    literal.IsRefused

namespace Stop.StandsIn

variable {stop : Stop} {s t : Input}

/-- A stop in what is left of an input is one in that input. -/
theorem behind (stands : stop.StandsIn t) (suffix : t.chars <:+ s.chars) : stop.StandsIn s :=
  ⟨stands.suffix.trans suffix, stands.refused⟩

theorem commit (stands : stop.StandsIn s) : stop.commit.StandsIn s :=
  ⟨stands.suffix, fun wanted => ⟨rfl, (stands.refused wanted).2⟩⟩

/-- A stop that may have been made a final one. -/
theorem ite_commit (stands : stop.StandsIn s) (p : Prop) [Decidable p] :
    (if p then stop else stop.commit).StandsIn s := by
  split
  · exact stands
  · exact stands.commit

/-- Where no number was wanted, the place is all there is to show. -/
theorem of_suffix {rest : List Char} {wanted : Wanted} {final : Bool} (suffix : rest <:+ s.chars)
    (other : wanted ≠ .supportedNumber) : StandsIn ⟨rest, wanted, final⟩ s :=
  ⟨suffix, fun same => absurd same other⟩

end Stop.StandsIn

namespace Grammar

variable {n least : Nat} {s start : Input} {α : Type} {stop : Stop} {rule : Rule n}
  {inner : InnerRule n}
  {production : Production}

/-- **A rule that stops in its input.** -/
def RuleStops (rule : Rule n) : Prop :=
  ∀ (s : Input) (fits : s.size ≤ n) (stop : Stop), rule s fits = .error stop → stop.StandsIn s

/-- The same of a rule for shorter inputs. -/
def InnerStops (inner : InnerRule n) : Prop :=
  ∀ (s : Input) (fits : s.size < n) (stop : Stop), inner s fits = .error stop → stop.StandsIn s

/-- A stop that is made a final one stays where it is. -/
theorem standsIn_of_committed {outcome : Outcome least s α}
    (stands : ∀ stop, outcome = .error stop → stop.StandsIn s)
    (failed : committed outcome = .error stop) :
    stop.StandsIn s := by
  cases outcome with
  | ok => cases failed
  | error stop' =>
    cases failed
    exact (stands stop' rfl).commit

theorem RuleStops.committed (stops : RuleStops rule) {fits : s.size ≤ n}
    (failed : committed (rule s fits) = .error stop) : stop.StandsIn s :=
  standsIn_of_committed (stops s fits) failed

theorem InnerStops.committed (stops : InnerStops inner) {fits : s.size < n}
    (failed : Grammar.committed (inner s fits) = .error stop) : stop.StandsIn s :=
  standsIn_of_committed (stops s fits) failed

/-- A token that is missing is missing behind layout. -/
theorem expectToken_stops {token : List Char} (failed : expectToken s token = .error stop) :
    stop.StandsIn s := by
  rw [expectToken] at failed
  split at failed
  · cases failed
  · cases failed
    exact .of_suffix s.skipLayout.suffix (by decide)

/-! ### Chains -/

theorem flatTail_stops (stops : RuleStops rule) {operators : List (List Char)} {s : Input}
    {suffix : s.chars <:+ start.chars} {progress : s.size + 1 ≤ start.size} {fits : start.size ≤ n}
    {done : Array ParseTree}
    (failed : flatTail operators rule start s suffix progress fits done = .error stop) :
    stop.StandsIn start := by
  rw [flatTail] at failed
  split at failed
  · cases failed
  · rename_i operator found
    split at failed
    · rename_i stop' atRight
      cases failed
      exact (stops.committed atRight).behind (operator.suffix.trans suffix)
    · rename_i right atRight
      have shorter : right.rest.size < s.size := Nat.lt_trans right.progress operator.progress
      exact flatTail_stops stops failed
termination_by s.size

theorem flatChain_stopsWithin (stops : RuleStops rule) (production : Production)
    (operators : List (List Char)) :
    RuleStops (flatChain production operators rule) := by
  intro s fits stop failed
  rw [flatChain] at failed
  split at failed
  · rename_i stop' atFirst
    cases failed
    exact stops _ _ _ atFirst
  · rename_i first atFirst
    split at failed
    · rename_i stop' atTail
      cases failed
      exact flatTail_stops stops atTail
    · cases failed

/-- The rest of a chain to the left stops where an operand does, since it fails in no other way but
at the limit. -/
theorem leftTail_stops (stops : RuleStops rule) {operators : List (List Char)} {s : Input}
    {suffix : s.chars <:+ start.chars} {progress : s.size + 1 ≤ start.size} {fits : start.size ≤ n}
    {count : Nat} {node : ParseTree}
    (failed : leftTail production operators rule start s suffix progress fits count node
      = .error stop) :
    stop.StandsIn start := by
  rw [leftTail] at failed
  split at failed
  · cases failed
  · rename_i operator found
    split at failed
    · rename_i stop' atRight
      cases failed
      exact (stops.committed atRight).behind (operator.suffix.trans suffix)
    · rename_i right atRight
      split at failed
      · cases failed
        exact .of_suffix suffix (by decide)
      · have shorter : right.rest.size < s.size := Nat.lt_trans right.progress operator.progress
        exact leftTail_stops stops failed
termination_by s.size

theorem leftChain_stopsWithin (stops : RuleStops rule) (production : Production)
    (operators : List (List Char)) :
    RuleStops (leftChain production operators rule) := by
  intro s fits stop failed
  rw [leftChain] at failed
  split at failed
  · rename_i stop' atFirst
    cases failed
    exact stops _ _ _ atFirst
  · exact leftTail_stops stops failed

/-- The rest of a chain to the right stops where an operand does, or at the limit. -/
theorem rightTail_stops (stops : RuleStops rule) {operator : List Char} {here : Input}
    {suffix : here.chars <:+ start.chars} {progress : here.size ≤ start.size}
    {fits : start.size ≤ n}
    {links : List Link}
    (failed : rightTail production operator rule start here suffix progress fits links
      = .error stop) :
    stop.StandsIn start := by
  rw [rightTail] at failed
  split at failed
  · rename_i stop' atOperand
    cases failed
    exact ((stops _ _ _ atOperand).ite_commit _).behind suffix
  · rename_i operand atOperand
    split at failed
    · cases failed
    · rename_i token found
      split at failed
      · cases failed
        exact .of_suffix (operand.suffix.trans suffix) (by decide)
      · have shorter : token.rest.size < here.size := Nat.lt_trans token.progress operand.progress
        exact rightTail_stops stops failed
termination_by here.size

theorem rightChain_stopsWithin (stops : RuleStops rule) (production : Production)
    (operator : List Char) :
    RuleStops (rightChain production operator rule) :=
  fun _ _ _ failed => rightTail_stops stops failed

/-! ### Operands -/

theorem group_stops (stops : InnerStops inner) {fits : s.size ≤ n} {opening : Reading 1 s String}
    (failed : group inner s fits opening = .error stop) : stop.StandsIn s := by
  rw [group] at failed
  split at failed
  · rename_i stop' atBody
    cases failed
    exact (stops.committed atBody).behind opening.suffix
  · rename_i body atBody
    split at failed
    · rename_i stop' atClosing
      cases failed
      exact (expectToken_stops atClosing).behind (body.suffix.trans opening.suffix)
    · cases failed

theorem moreArguments_stops (stops : InnerStops inner) {s : Input}
    {suffix : s.chars <:+ start.chars}
    {progress : s.size ≤ start.size} {fits : start.size < n} {done : Array ParseTree}
    (failed : moreArguments inner start s suffix progress fits done = .error stop) :
    stop.StandsIn start := by
  rw [moreArguments] at failed
  split at failed
  · cases failed
  · rename_i comma found
    split at failed
    · rename_i stop' atArgument
      split at failed
      · cases failed
        exact (stops _ _ _ atArgument).behind (comma.suffix.trans suffix)
      · cases failed
    · rename_i argument atArgument
      have shorter : argument.rest.size < s.size := Nat.lt_trans argument.progress comma.progress
      exact moreArguments_stops stops failed
termination_by s.size

theorem arguments_stops (stops : InnerStops inner) {fits : s.size < n}
    (failed : arguments inner s fits = .error stop) : stop.StandsIn s := by
  rw [arguments] at failed
  split at failed
  · rename_i stop' atFirst
    split at failed
    · cases failed
      exact stops _ _ _ atFirst
    · cases failed
  · exact moreArguments_stops stops failed

theorem call_stops (stops : InnerStops inner) {fits : s.size ≤ n} {name : Reading 1 s String}
    {opening : Reading 1 name.rest String} (failed : call inner s fits name opening = .error stop) :
    stop.StandsIn s := by
  rw [call] at failed
  split at failed
  · rename_i stop' atArguments
    cases failed
    exact ((arguments_stops stops atArguments).behind (opening.suffix.trans name.suffix)).commit
  · rename_i args atArguments
    split at failed
    · rename_i stop' atClosing
      cases failed
      exact (expectToken_stops atClosing).behind
        ((args.suffix.trans opening.suffix).trans name.suffix)
    · cases failed

/-- **A bare operand stops** where it starts, inside its parentheses, or, behind a quote that is not
closed, at the end. -/
theorem bareOperand_stops (stops : InnerStops inner) {fits : s.size ≤ n}
    (failed : bareOperand inner s fits = .error stop) : stop.StandsIn s := by
  rw [bareOperand] at failed
  split at failed
  · exact group_stops stops failed
  split at failed
  · rw [callOrReference] at failed
    split at failed
    · exact call_stops stops failed
    · cases failed
  split at failed
  · rename_i literal isNumber
    rw [number] at failed
    split at failed
    · rename_i cause refused
      cases failed
      exact ⟨s.suffix_self, fun _ => ⟨rfl, literal, isNumber, cause, refused⟩⟩
    · cases failed
  split at failed
  · cases failed
  · cases failed
    exact .of_suffix List.nil_suffix (by decide)
  · cases failed
    exact .of_suffix s.suffix_self (by decide)

theorem primary_stopsWithin (stops : InnerStops inner) : RuleStops (primary inner) := by
  intro s fits stop failed
  rw [primary] at failed
  split at failed
  · rename_i stop' atOperand
    cases failed
    exact (bareOperand_stops stops atOperand).behind s.skipLayout.suffix
  · cases failed

theorem unaryTail_stops (stops : RuleStops rule) {s : Input} {suffix : s.chars <:+ start.chars}
    {progress : s.size ≤ start.size} {fits : start.size ≤ n} {signs : List Signed}
    (failed : unaryTail rule start s suffix progress fits signs = .error stop) :
    stop.StandsIn start := by
  rw [unaryTail] at failed
  split at failed
  · rename_i sign found
    split at failed
    · cases failed
      exact .of_suffix suffix (by decide)
    · have shorter : sign.rest.size < s.size := sign.progress
      exact unaryTail_stops stops failed
  · split at failed
    · rename_i stop' atOperand
      cases failed
      exact ((stops _ _ _ atOperand).ite_commit _).behind suffix
    · cases failed
termination_by s.size

/-! ### The layers -/

theorem disjunction_stopsWithin (stops : InnerStops inner) : RuleStops (disjunction inner) := by
  have unary : RuleStops (unary inner) :=
    fun _ _ _ failed => unaryTail_stops (primary_stopsWithin stops) failed
  have additive : RuleStops (additive inner) :=
    flatChain_stopsWithin (flatChain_stopsWithin unary _ _) _ _
  have equality : RuleStops (equality inner) :=
    leftChain_stopsWithin (leftChain_stopsWithin additive _ _) _ _
  exact rightChain_stopsWithin (rightChain_stopsWithin equality _ _) _ _

/-- The branches stop inside one of them, or where the colon is missing. -/
theorem branches_stops (stops : InnerStops inner) {fits : s.size ≤ n} {condition : ParseTree}
    {decided : Reading 1 s String}
    (failed : branches inner s fits condition decided = .error stop) :
    stop.StandsIn s := by
  rw [branches] at failed
  split at failed
  · rename_i stop' atConsequent
    cases failed
    exact (stops.committed atConsequent).behind decided.suffix
  · rename_i consequent atConsequent
    split at failed
    · rename_i stop' atColon
      cases failed
      exact (expectToken_stops atColon).behind (consequent.suffix.trans decided.suffix)
    · rename_i colon atColon
      split at failed
      · rename_i stop' atAlternative
        cases failed
        exact (stops.committed atAlternative).behind
          ((colon.suffix.trans consequent.suffix).trans decided.suffix)
      · cases failed

theorem conditionalLayer_stopsWithin (stops : InnerStops inner) :
    RuleStops (conditionalLayer inner) := by
  intro s fits stop failed
  rw [conditionalLayer] at failed
  split at failed
  · rename_i stop' atCondition
    cases failed
    exact disjunction_stopsWithin stops _ _ _ atCondition
  · split at failed
    · cases failed
    · exact branches_stops stops failed

/-- **The rule for conditionals stops in its input**, by induction on how long it is. -/
theorem conditional_standsIn (s : Input) (stop : Stop) (failed : conditional s = .error stop) :
    stop.StandsIn s := by
  rw [conditional] at failed
  exact conditionalLayer_stopsWithin
    (fun shorter _ stop failed => conditional_standsIn shorter stop failed)
    s (Nat.le_refl s.size) stop failed
termination_by s.size

theorem conditional_stops (s : Input) (stop : Stop) (failed : conditional s = .error stop) :
    stop.rest <:+ s.chars :=
  (conditional_standsIn s stop failed).suffix

end Grammar

/-! ## 2. Nesting

Behind a front part the scan goes on, so if the whole is within the limit, so is the part. -/

namespace Nesting

/-- A front part nests no deeper than the whole. -/
theorem excess?_front {front back : List Char} (within : excess? (front ++ back) = none) :
    excess? front = none := by
  rw [excess?, excessFrom_eq_none_iff] at within ⊢
  exact (within_append.mp within).1

end Nesting

/-! ## 3. What is left over

What is read in front of a rest is a sentence of its own: by soundness its tokens are laid out
there, and by completeness these characters are read as a whole. -/

namespace Source

open ParseTree

variable {chars front : List Char}

/-- **In front of what is left over stands a sentence**, which is read as a whole. -/
theorem exists_readAll_front {reading : Reading 1 (.ofChars chars) ParseTree}
    (read : Grammar.conditional (.ofChars chars) = .ok reading) :
    ∃ front, chars = front ++ reading.rest.skipLayout.rest.chars ∧
    ∃ body, readAll front = .ok body := by
  have sound := Grammar.conditional_sound _ _ read
  obtain ⟨gap, start, split, layout, stands⟩ := sound.stands
  obtain ⟨behind, rest, layout'⟩ :
    ∃ behind, reading.rest.chars = behind ++ reading.rest.skipLayout.rest.chars ∧
      ∀ c ∈ behind, Text.isLayout c :=
    ⟨_, List.takeWhile_append_dropWhile.symm, fun _ => List.mem_takeWhile_imp⟩
  have laid : LaidOut reading.value.tokens (gap ++ (reading.value.text.toList ++ behind)) := by
    have inside := sound.written.laidOut.append (laidOut_nil layout')
    rw [List.append_nil] at inside
    exact (laidOut_nil layout).append inside
  obtain ⟨body, whole, -⟩ := exists_readAll sound.derives sound.fits laid
  refine ⟨_, split.trans ?_, body, whole⟩
  rw [stands.start_eq, rest]
  simp

end Source

/-! ## 4. Refusals

A source is refused for one of four reasons, and the position of the report is read off the reason.
It is where a front part of the source ends, hence a boundary between characters. -/

/-- **What a stop is reported as.**  Only for want of a supported number is a literal reported. -/
theorem Stop.cause_cases (stop : Stop) :
    stop.cause = .unexpectedEnd ∨ stop.cause = .chainTooLong ∨
      (stop.wanted = .supportedNumber ∧
        stop.cause = .literalRange (String.ofList (Lexeme.numeral stop.rest))) ∨
      stop.cause = .unexpectedToken (near stop.rest) ∨
      stop.cause = .noOperand (near stop.rest) := by
  rw [Stop.cause]
  split
  · exact .inl rfl
  · obtain ⟨rest, wanted, final⟩ := stop
    cases wanted with
    | shorterChain => exact .inr (.inl rfl)
    | supportedNumber => exact .inr (.inr (.inl ⟨rfl, rfl⟩))
    | token => exact .inr (.inr (.inr (.inl rfl)))
    | operand => exact .inr (.inr (.inr (.inr rfl)))

namespace ParseTree

variable {source : String} {front back : List Char} {fault : Fault}

/-- **Why a source is refused**: it nests too deep, a rule stops, something is left over, or the
tree is too high. -/
inductive Refused (source : String) : Fault → Prop
  | nesting {position : Nat} (excess : Nesting.excess? source.toList = some position) :
    Refused source (.source position (.nestedTooDeep Nesting.limit))
  | stop {stop : Stop} (nesting : Nesting.excess? source.toList = none)
    (stops : Grammar.conditional (.ofChars source.toList) = .error stop) :
    Refused source (.source (Source.position source.toList stop.rest) stop.cause)
  | leftover {reading : Reading 1 (.ofChars source.toList) ParseTree}
    (nesting : Nesting.excess? source.toList = none)
    (read : Grammar.conditional (.ofChars source.toList) = .ok reading) :
    Refused source (.source (Source.position source.toList reading.rest.skipLayout.rest.chars)
      (.leftover (String.ofList (Text.trim reading.rest.skipLayout.rest.chars))))
  | height : Refused source (.source 0 (.treeTooDeep depthLimit))

/-- Every refusal has one of these reasons.  The checks are gone through in their order. -/
theorem refused_of_error (failed : ofSource source = .error fault) : Refused source fault := by
  rw [ofSource] at failed
  dsimp only at failed
  split at failed
  · rename_i position excess
    cases failed
    exact .nesting excess
  rename_i nesting
  split at failed
  · rename_i fault' unread
    cases failed
    rw [Source.readAll] at unread
    split at unread
    · rename_i stop stops
      cases unread
      exact .stop nesting stops
    · rename_i reading read
      split at unread
      · cases unread
      · cases unread
        exact .leftover nesting read
  · split at failed
    · cases failed
      exact .height
    · cases failed

/-- A source is refused for its nesting by the scan alone. -/
theorem ofSource_eq_nestedTooDeep_iff {position : Nat} :
    ofSource source = .error (.source position (.nestedTooDeep Nesting.limit)) ↔
      Nesting.excess? source.toList = some position := by
  constructor
  · intro failed
    generalize cause : SourceFault.nestedTooDeep Nesting.limit = shown at failed
    cases refused_of_error failed with
    | nesting excess => exact excess
    | @stop stop =>
      rcases stop.cause_cases with same | same | ⟨-, same⟩ | same | same <;> cases cause.trans same
    | leftover => cases cause
    | height => cases cause
  · intro excess
    rw [ofSource, excess]

/-- **A fault stands in a source** at the end of a front part of it.  If something is left over
there, the front part is read as a whole. -/
def LocatedIn (source : List Char) (fault : Fault) : Prop :=
  ∃ front back cause, source = front ++ back ∧ fault = .source (Text.utf8Size front) cause ∧
    ∀ left, cause = .leftover left → Nesting.excess? front = none ∧
    ∃ body, Source.readAll front = .ok body

theorem position_append (front back : List Char) :
    Source.position (front ++ back) back = Text.utf8Size front := by
  rw [Source.position, Text.utf8Size_append, Nat.add_sub_cancel]

/-- **Every refusal stands in the source.**  A stop leaves an end part of the source, so the
position is the size of what is in front of it. -/
theorem ofSource_located (failed : ofSource source = .error fault) :
    LocatedIn source.toList fault := by
  cases refused_of_error failed with
  | nesting excess =>
    obtain ⟨front, c, back, split, rfl, -⟩ := Nesting.excessFrom_eq_some_iff.mp excess
    exact ⟨front, c :: back, _, split, by rw [Nat.zero_add], by rintro _ ⟨⟩⟩
  | @stop stop nesting stops =>
    obtain ⟨front, split⟩ := Grammar.conditional_stops _ _ stops
    have split : source.toList = front ++ stop.rest := split.symm
    refine ⟨front, stop.rest, stop.cause, split, by rw [split, position_append],
      fun left same => ?_⟩
    rcases stop.cause_cases with other | other | ⟨-, other⟩ | other | other
      <;> cases same.symm.trans other
  | @leftover reading nesting read =>
    obtain ⟨front, split, whole⟩ := Source.exists_readAll_front read
    have here : Source.position source.toList reading.rest.skipLayout.rest.chars
        = Text.utf8Size front :=
      (congrArg (Source.position · _) split).trans (position_append _ _)
    exact ⟨front, _, _, split, congrArg (Fault.source · _) here, fun _ _ =>
      ⟨Nesting.excess?_front (split ▸ nesting), whole⟩⟩
  | height => exact ⟨[], source.toList, _, rfl, rfl, by rintro _ ⟨⟩⟩

/-- **What is read as a whole** is accepted, but for the depth of its tree. -/
theorem ofSource_of_readAll {chars : List Char} {body : ParseTree}
    (nesting : Nesting.excess? chars = none)
    (read : Source.readAll chars = .ok body) : (∃ tree, ofSource (String.ofList chars) = .ok tree) ∨
      ofSource (String.ofList chars) = .error (.source 0 (.treeTooDeep depthLimit)) := by
  rw [ofSource, String.toList_ofList, nesting]
  dsimp only
  rw [read]
  dsimp only
  split
  · exact .inr rfl
  · exact .inl ⟨_, rfl⟩

end ParseTree
end DecimalExpression
