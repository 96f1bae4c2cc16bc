import DecimalExpression.Proofs.Syntax.Chains

/-!
# Operands are read

An operand is a primary behind signs, and a primary is told by its first character: an opening
parenthesis, the start of a name, a digit or a point, or a quote.  A name is a call where a
parenthesis follows, and a variable elsewhere.

Groups and calls start from conditionals again, on shorter inputs, and are complete where that is
(`InnerComplete`).  A call may have no arguments, so it also matters where a rule stops: in front of
a closing parenthesis it does, and the stop is not final (`RuleYields`).
-/

namespace DecimalExpression
namespace Grammar

open ParseTree

variable {n : Nat} {s start : Input} {inner : InnerRule n} {rest : List Char}

/-! ## 1. Conditionals on shorter inputs

Groups, calls and branches read a conditional on a shorter input.  What is asked of that rule is
that it reads every conditional, and that it gives way where an argument list is empty. -/

/-- In front of a closing parenthesis a rule stops, and lets another alternative be tried. -/
def RuleYields (rule : Rule n) : Prop :=
  ∀ (s : Input) (fits : s.size ≤ n), (s.chars.dropWhile Text.isLayout).head? = some ')' →
    ∃ stop, rule s fits = .error stop ∧ stop.final = false

/-- **The rule for shorter inputs** reads all conditionals, and stops in front of a parenthesis. -/
structure InnerComplete (inner : InnerRule n) : Prop where
  reads : ∀ (tree : ParseTree) (body rest : List Char), Derives .conditional tree →
    tree.Throughout NodeFits → Spelled tree.tokens body → Ends conditionalEnds rest →
      ∀ (s : Input) (fits : s.size < n), s.chars = body ++ rest → Gives (inner s fits) tree rest
  yields : ∀ (s : Input) (fits : s.size < n),
    (s.chars.dropWhile Text.isLayout).head? = some ')' →
      ∃ stop, inner s fits = .error stop ∧ stop.final = false

/-! ## 2. Fixed tokens

Parentheses and commas are read where they stand, and an expression ends in front of them. -/

/-- In front of a token stands what ends there, where its first character says so. -/
theorem ends_of_spelled {follow : List Char} {token : String} {more : List String} {c : Char}
    {word body : List Char} (same : token.toList = c :: word) (visible : Text.isLayout c = false)
    (member : c ∈ follow) (spelled : Spelled (token :: more) body) :
    Ends follow (body ++ rest) := by
  obtain ⟨gap, behind, rfl, layout, -⟩ := Spelled.exists_of_cons spelled
  rw [same, List.append_assoc, List.append_assoc, List.cons_append]
  exact ends_of_visible layout visible member

/-- **A token that has to stand here** is read where it does. -/
theorem exists_expectToken {token : String} {c : Char} {word body : List Char}
    {more : List String} (same : token.toList = c :: word) (visible : Text.isLayout c = false)
    (spelled : Spelled (token :: more) body) (chars : s.chars = body ++ rest) :
    ∃ reading behind, expectToken s token.toList = .ok reading ∧ reading.value = token ∧
      Spelled more behind ∧ reading.rest.chars = behind ++ rest := by
  obtain ⟨gap, behind, rfl, layout, spelled⟩ := Spelled.exists_of_cons spelled
  rw [List.append_assoc, List.append_assoc] at chars
  obtain ⟨reading, read, value, readingRest⟩ := exists_token?_single same visible chars layout
  exact ⟨reading, behind, by rw [expectToken, read], value, spelled, readingRest⟩

/-! ## 3. Groups and calls

The arguments are an induction on their list, from the first comma to the closing parenthesis.  A
call without arguments goes another way: the rule for conditionals is tried, yields, and the
parenthesis is read instead. -/

/-- **A group is read** from its opening parenthesis on.  The conditional inside is read on a
shorter input, up to the closing parenthesis. -/
theorem group_complete (complete : InnerComplete inner) {slice : String} {tree : ParseTree}
    (derives : Derives .conditional tree) (fit : tree.Throughout NodeFits) {body : List Char}
    (spelled : Spelled (tree.tokens ++ [")"]) body) {fits : s.size ≤ n}
    {opening : Reading 1 s String} (parenthesis : opening.value = "(")
    (chars : opening.rest.chars = body ++ rest) :
    Gives (group inner s fits opening)
      ⟨.group, slice, [leaf .token "(", tree, leaf .token ")"]⟩ rest := by
  obtain ⟨inside, behind, rfl, spelledInside, spelledClosing⟩ := Spelled.exists_of_append spelled
  rw [List.append_assoc] at chars
  have ends : Ends conditionalEnds (behind ++ rest) :=
    ends_of_spelled rfl rfl (by decide) spelledClosing
  obtain ⟨reading, read, same, readingRest⟩ := (complete.reads tree inside _ derives fit
    spelledInside ends opening.rest (by have := opening.progress; omega) chars).committed
  obtain ⟨closing, empty, closingRead, value, spelledEmpty, closingRest⟩ :=
    exists_expectToken rfl rfl spelledClosing readingRest
  rw [spelledEmpty.eq_nil, List.nil_append] at closingRest
  have closingRead : expectToken reading.rest [')'] = .ok closing := closingRead
  rw [group, read]
  dsimp only
  rw [closingRead]
  refine ⟨_, rfl, skeleton_node (List.cons_ne_nil _ _) ?_, closingRest⟩
  rw [parenthesis, value]
  simp [tokenTree, same]

/-- Behind an argument a conditional ends. -/
theorem ends_of_moreTokens {arguments : List ParseTree} {body : List Char}
    (spelled : Spelled (moreTokens arguments) body) : Ends conditionalEnds (body ++ rest) := by
  cases arguments with
  | nil => exact ends_of_spelled rfl rfl (by decide) spelled
  | cons argument arguments => exact ends_of_spelled rfl rfl (by decide) spelled

/-- **The arguments behind a first one are read**, up to the closing parenthesis.  By induction on
the arguments; in front of each stands a comma, and behind it one more or the closing parenthesis.
-/
theorem moreArguments_complete (complete : InnerComplete inner) {fits : start.size < n}
    (arguments : List ParseTree) :
    ∀ (s : Input) (suffix : s.chars <:+ start.chars) (progress : s.size ≤ start.size)
      (done : Array ParseTree) (body : List Char), (∀ a ∈ arguments, Derives .conditional a) →
      (∀ a ∈ arguments, a.Throughout NodeFits) → Spelled (moreTokens arguments) body →
      s.chars = body ++ rest →
      ∃ reading behind, moreArguments inner start s suffix progress fits done = .ok reading ∧
        reading.value.toList.map skeleton = done.toList.map skeleton ++ arguments.map skeleton ∧
        Spelled [")"] behind ∧ reading.rest.chars = behind ++ rest := by
  induction arguments with
  | nil =>
    intro s suffix progress done body derives fit spelled chars
    -- The closing parenthesis stands here, and is left for the call.
    have ends : Ends [')'] s.chars := chars ▸ ends_of_spelled rfl rfl (by decide) spelled
    have none : s.token? [[',']] = none := ends.token?_eq_none rfl
    rw [moreArguments, none]
    exact ⟨_, body, rfl, by simp, spelled, chars⟩
  | cons argument arguments ih =>
    intro s suffix progress done body derives fit spelled chars
    obtain ⟨gap, more, rfl, layout, spelled⟩ := Spelled.exists_of_cons spelled
    obtain ⟨here, behind, rfl, spelledHere, spelledMore⟩ := Spelled.exists_of_append spelled
    have chars : s.chars = gap ++ (",".toList ++ (here ++ (behind ++ rest))) := by
      rw [chars]
      simp
    obtain ⟨comma, commaRead, -, commaRest⟩ := exists_token?_single rfl rfl chars layout
    have commaRead : s.token? [[',']] = some comma := commaRead
    obtain ⟨reading, read, same, readingRest⟩ := complete.reads argument here (behind ++ rest)
      (derives _ List.mem_cons_self) (fit _ List.mem_cons_self) spelledHere
      (ends_of_moreTokens spelledMore) comma.rest
      (by have := comma.progress; omega) commaRest
    obtain ⟨final, last, whole, values, spelledLast, finalRest⟩ := ih reading.rest
      ((reading.suffix.trans comma.suffix).trans suffix)
      (by have := comma.progress; have := reading.progress; omega) (done.push reading.value) behind
      (fun a member => derives a (List.mem_cons_of_mem _ member))
      (fun a member => fit a (List.mem_cons_of_mem _ member)) spelledMore readingRest
    rw [moreArguments, commaRead]
    dsimp only
    rw [read]
    dsimp only
    refine ⟨final, last, whole, ?_, spelledLast, finalRest⟩
    rw [values]
    simp [same]

/-- **The arguments of a call are read**, also where there are none.  Without any the rule for
conditionals yields at the closing parenthesis; otherwise the first one is read, and the others
behind their commas. -/
theorem arguments_complete (complete : InnerComplete inner) {trees : List ParseTree}
    (derives : ∀ a ∈ trees, Derives .conditional a) (fit : ∀ a ∈ trees, a.Throughout NodeFits)
    {body : List Char} (spelled : Spelled (callTokens trees) body) (fits : s.size < n)
    (chars : s.chars = body ++ rest) :
    ∃ reading behind, arguments inner s fits = .ok reading ∧
      reading.value.toList.map skeleton = trees.map skeleton ∧ Spelled [")"] behind ∧
      reading.rest.chars = behind ++ rest := by
  cases trees with
  | nil =>
    -- Without arguments the rule for conditionals has to stop in front of the parenthesis.
    have closing : (s.chars.dropWhile Text.isLayout).head? = some ')' := by
      obtain ⟨gap, behind, rfl, layout, -⟩ := Spelled.exists_of_cons spelled
      rw [chars, List.append_assoc]
      exact congrArg List.head? (dropWhile_of_visible layout rfl)
    obtain ⟨stop, stops, notFinal⟩ := complete.yields s fits closing
    rw [arguments, stops]
    dsimp only
    rw [notFinal]
    exact ⟨_, body, rfl, rfl, spelled, chars⟩
  | cons first trees =>
    obtain ⟨here, behind, rfl, spelledHere, spelledMore⟩ := Spelled.exists_of_append spelled
    rw [List.append_assoc] at chars
    obtain ⟨reading, read, same, readingRest⟩ := complete.reads first here (behind ++ rest)
      (derives _ List.mem_cons_self) (fit _ List.mem_cons_self) spelledHere
      (ends_of_moreTokens spelledMore) s fits chars
    obtain ⟨final, last, whole, values, spelledLast, finalRest⟩ := moreArguments_complete complete
      trees reading.rest reading.suffix (by have := reading.progress; omega) #[reading.value] behind
      (fun a member => derives a (List.mem_cons_of_mem _ member))
      (fun a member => fit a (List.mem_cons_of_mem _ member)) spelledMore readingRest
    rw [arguments, read]
    refine ⟨final, last, whole, ?_, spelledLast, finalRest⟩
    rw [values]
    simp [same]

/-- **A call is read** from behind its name on.  The opening parenthesis behind the name decides for
a call. -/
theorem callOrReference_call (complete : InnerComplete inner) {slice word : String}
    {trees : List ParseTree} (derives : ∀ a ∈ trees, Derives .conditional a)
    (fit : ∀ a ∈ trees, a.Throughout NodeFits) {body : List Char}
    (spelled : Spelled ("(" :: callTokens trees) body) {fits : s.size ≤ n}
    {name : Reading 1 s String} (value : name.value = word)
    (chars : name.rest.chars = body ++ rest) :
    Gives (callOrReference inner s fits name)
      ⟨.call, slice, leaf .token word :: leaf .token "(" :: (trees ++ [leaf .token ")"])⟩ rest := by
  obtain ⟨gap, inside, rfl, layout, spelled⟩ := Spelled.exists_of_cons spelled
  rw [List.append_assoc, List.append_assoc] at chars
  obtain ⟨opening, openingRead, parenthesis, openingRest⟩ :=
    exists_token?_single rfl rfl chars layout
  have openingRead : name.rest.token? [['(']] = some opening := openingRead
  obtain ⟨args, last, argsRead, values, spelledLast, argsRest⟩ :=
    arguments_complete complete derives
    fit spelled (by have := name.progress; have := opening.progress; omega) openingRest
  obtain ⟨closing, empty, closingRead, closingValue, spelledEmpty, closingRest⟩ :=
    exists_expectToken rfl rfl spelledLast argsRest
  rw [spelledEmpty.eq_nil, List.nil_append] at closingRest
  have closingRead : expectToken args.rest [')'] = .ok closing := closingRead
  rw [callOrReference, openingRead]
  dsimp only
  rw [call, argsRead]
  dsimp only
  rw [closingRead]
  refine ⟨_, rfl, skeleton_node (List.cons_ne_nil _ _) ?_, closingRest⟩
  rw [value, parenthesis, closingValue]
  simp [tokenTree, values]

/-- **A name alone is read** where no parenthesis follows. -/
theorem callOrReference_reference {word : String} {fits : s.size ≤ n} {name : Reading 1 s String}
    (ends : Ends operandEnds name.rest.chars) (value : name.value = word) :
    Gives (callOrReference inner s fits name) (leaf .reference word) name.rest.chars := by
  have none : name.rest.token? [['(']] = none := ends.token?_eq_none rfl
  rw [callOrReference, none]
  refine ⟨_, rfl, ?_, rfl⟩
  rw [Reading.give, value]

/-! ## 4. Primaries

The alternatives are tried in order, and each is told by its first character.  So an alternative
that comes too early is shown to fail on it, and the one that fits reads the whole operand. -/

/-- No parenthesis is read where something else stands. -/
theorem token?_opening_eq_none {c : Char} {more : List Char} (chars : s.chars = c :: more)
    (other : c ≠ '(') : Lexeme.token? s.chars [['(']] = none := by
  refine Lexeme.token?_eq_none fun token member => ?_
  cases List.mem_singleton.mp member
  rintro ⟨behind, split⟩
  rw [chars] at split
  exact other (List.cons.inj split).1.symm

/-- No identifier is read where none starts. -/
theorem identifier?_eq_none {c : Char} {more : List Char} (chars : s.chars = c :: more)
    (other : Lexeme.isNameStart c = false) : Lexeme.identifier? s.chars = none := by
  rw [chars, Lexeme.identifier?, if_neg (by simp [other])]

/-- No number is read in front of a quote. -/
theorem number?_eq_none {more : List Char} (chars : s.chars = '"' :: more) :
    Lexeme.number? s.chars = none := by
  rw [chars]
  rfl

/-- **A name** is told by its first character. -/
theorem bareOperand_of_isName {word more : List Char} {fits : s.size ≤ n}
    (split : word ++ more = s.chars) (name : Word.isName word) (boundary : Lexeme.Boundary more) :
    bareOperand inner s fits = callOrReference inner s fits
      (s.take ⟨word, more, split, Lexeme.ne_nil_of_isName name⟩) := by
  have stops : Lexeme.Stops Lexeme.isNamePart more := boundary.stops fun c other _ => other
  have notOpening : Lexeme.token? s.chars [['(']] = none := by
    cases word with
    | nil => cases name
    | cons c word =>
      refine token?_opening_eq_none split.symm ?_
      rintro rfl
      cases name
  rw [bareOperand, notOpening]
  dsimp only
  rw [Lexeme.identifier?_of_split split name stops]

/-- **A number** is told by its first character.  It is neither a parenthesis nor the start of a
name, so the first two alternatives fail. -/
theorem bareOperand_of_isNumeral {word more : List Char} {fits : s.size ≤ n}
    (split : word ++ more = s.chars) (numeral : Word.isNumeral word)
    (boundary : Lexeme.Boundary more) :
    bareOperand inner s fits
      = number s (s.take ⟨word, more, split, Lexeme.ne_nil_of_isNumeral numeral⟩) := by
  obtain ⟨c, behind, rfl, first⟩ := Lexeme.exists_of_isNumeral numeral
  have notOpening : Lexeme.token? s.chars [['(']] = none := by
    refine token?_opening_eq_none split.symm ?_
    rintro rfl
    revert first
    decide
  have notName : Lexeme.identifier? s.chars = none := by
    refine identifier?_eq_none split.symm ?_
    rcases first with digit | rfl
    · exact Lexeme.isNameStart_of_isDigit digit
    · rfl
  rw [bareOperand, notOpening]
  dsimp only
  rw [notName]
  dsimp only
  rw [Lexeme.number?_of_split split numeral boundary]

/-- **A number is read** at a boundary, where its decimal is in range. -/
theorem bareOperand_number {slice : String} {fits : s.size ≤ n}
    (split : slice.toList ++ rest = s.chars) (numeral : Word.isNumeral slice.toList)
    (fit : NodeFits (leaf .number slice)) (boundary : Lexeme.Boundary rest) :
    Gives (bareOperand inner s fits) (leaf .number slice) rest := by
  have value : String.ofList slice.toList = slice := String.ofList_toList
  obtain ⟨decimal, inRange⟩ : ∃ decimal, Decimal.ofNumeral slice = .ok decimal := fit.literal rfl
  rw [bareOperand_of_isNumeral split numeral boundary, number, Input.take, value, inRange]
  exact ⟨_, rfl, rfl, rfl⟩

/-- **A text in quotes is read.** -/
theorem bareOperand_text {slice : String} {fits : s.size ≤ n}
    (split : slice.toList ++ rest = s.chars) (quoted : Word.isQuoted slice.toList) :
    Gives (bareOperand inner s fits) (leaf .text slice) rest := by
  obtain ⟨content, same, -⟩ := Lexeme.isQuoted_iff.mp quoted
  have chars : s.chars = '"' :: (content ++ ['"'] ++ rest) := by
    rw [← split, same]
    rfl
  have notOpening : Lexeme.token? s.chars [['(']] = none :=
    token?_opening_eq_none chars (by decide)
  have value : String.ofList slice.toList = slice := String.ofList_toList
  rw [bareOperand, notOpening]
  dsimp only
  rw [identifier?_eq_none chars rfl]
  dsimp only
  rw [number?_eq_none chars]
  dsimp only
  rw [Lexeme.quoted_of_split split quoted]
  refine ⟨_, rfl, ?_, rfl⟩
  rw [Reading.give, Input.take, value]

/-- **A bare operand is read** from its first character on.  By the production: groups, calls,
names, numbers and texts each have their own lemma. -/
theorem bareOperand_complete (complete : InnerComplete inner) {p : Production}
    (level : Layer .primary p) {tree : ParseTree} (derives : Derives p tree)
    (fit : tree.Throughout NodeFits) {token : String} {more : List String} {behind : List Char}
    (tokens : tree.tokens = token :: more) (spelled : Spelled more behind)
    (ends : Ends operandEnds rest) (fits : s.size ≤ n)
    (split : token.toList ++ (behind ++ rest) = s.chars) :
    Gives (bareOperand inner s fits) tree rest := by
  have boundary : Lexeme.Boundary rest := boundary_of_ends ends (by decide)
  cases derives with
  | layer other => cases level <;> cases other
  | flat other | left other | right other => cases level <;> cases other
  | choice | signed => cases level
  | group slice below =>
    rw [tokens_group] at tokens
    cases tokens
    have earlier : ∀ other ∈ ([] : List (List Char)), ¬ other <+: s.chars := nofun
    have opening : Lexeme.token? s.chars [['(']]
        = some ⟨['('], behind ++ rest, split, List.cons_ne_nil _ _⟩ :=
      Lexeme.token?_of_split split (List.cons_ne_nil _ _) earlier
    rw [bareOperand, opening]
    exact group_complete complete below (fit.child (by simp)) spelled rfl rfl
  | call slice name arguments below =>
    rw [tokens_call] at tokens
    cases tokens
    have opens : Ends ['('] (behind ++ rest) := ends_of_spelled rfl rfl (by decide) spelled
    have stops : Lexeme.Boundary (behind ++ rest) := boundary_of_ends opens (by decide)
    rw [bareOperand_of_isName split name stops]
    refine callOrReference_call complete below ?_ spelled ?_ rfl
    · exact fun a member => fit.child (by simp [member])
    · exact String.ofList_toList
  | number numeral =>
    rw [tokens_leaf] at tokens
    cases tokens
    rw [spelled.eq_nil, List.nil_append] at split
    exact bareOperand_number split numeral fit.here boundary
  | text quoted =>
    rw [tokens_leaf] at tokens
    cases tokens
    rw [spelled.eq_nil, List.nil_append] at split
    exact bareOperand_text split quoted
  | reference name =>
    rw [tokens_leaf] at tokens
    cases tokens
    rw [spelled.eq_nil, List.nil_append] at split
    rw [bareOperand_of_isName split name boundary]
    exact callOrReference_reference ends String.ofList_toList

/-- **A primary is read**, behind layout.  The layout in front is skipped, and the node is a layer
around what is read. -/
theorem primary_complete (complete : InnerComplete inner) :
    RuleComplete .primary operandEnds (primary inner) := by
  intro tree body rest derives fit spelled ends s fits chars
  cases derives with
  | flat other | left other | right other => cases other
  | @layer _ kind level slice operand below =>
    rw [tokens_layer level] at spelled
    obtain ⟨c, word, more, tokens, opens⟩ := (startsWith_of_derives below).1
    rw [tokens] at spelled
    obtain ⟨gap, behind, rfl, layout, spelledMore⟩ := Spelled.exists_of_cons spelled
    rw [String.toList_ofList] at chars
    have split : s.chars = gap ++ ((c :: word) ++ (behind ++ rest)) := by
      rw [chars]
      simp
    have skipped : s.skipLayout.rest.chars = (c :: word) ++ (behind ++ rest) := by
      refine Input.skipLayout_chars_of_split split layout (List.cons_ne_nil _ _) fun d head => ?_
      cases head
      exact isLayout_of_opensTree opens
    have atStart : (String.ofList (c :: word)).toList ++ (behind ++ rest)
        = s.skipLayout.rest.chars := by
      rw [String.toList_ofList, skipped]
    obtain ⟨reading, read, same, readingRest⟩ := bareOperand_complete complete level below
      (fit.child List.mem_cons_self) tokens spelledMore ends
      (by have := s.skipLayout.progress; omega) atStart
    rw [primary, read]
    exact ⟨_, rfl, skeleton_layer same, readingRest⟩

/-! ## 5. Signs

Signs are read in a loop and put around the operand afterwards, the last one first, as with chains
to the right. -/

/-- No sign is read where an operand without signs starts. -/
theorem token?_sign_eq_none {tokens : List String} {body : List Char}
    (starts : StartsWith opensOperand tokens) (spelled : Spelled tokens body)
    (chars : s.chars = body ++ rest) : s.token? [['+'], ['-']] = none := by
  obtain ⟨gap, c, more, rfl, layout, opens⟩ := exists_of_startsWith starts spelled
  have visible : Text.isLayout c = false := isLayout_of_opensTree (by rw [opensTree, opens]; rfl)
  refine Input.token?_eq_none fun token member => ?_
  rw [chars, List.append_assoc, List.cons_append, dropWhile_of_visible layout visible]
  simp only [List.mem_cons, List.not_mem_nil, or_false] at member
  rcases member with rfl | rfl
  · rintro ⟨behind, split⟩
    cases (List.cons.inj split).1
    cases opens
  · rintro ⟨behind, split⟩
    cases (List.cons.inj split).1
    cases opens

/-- **An operand behind signs is read** inside the nodes of the signs that were there.  By induction
on the derivation, with the signs that wait for the operand. -/
theorem unaryTail_complete {operand : Rule n} (complete : RuleComplete .primary operandEnds operand)
    (ends : Ends operandEnds rest) {p : Production} {tree : ParseTree} (derives : Derives p tree)
    (level : p = .unary) {fits : start.size ≤ n} :
    ∀ (here : Input) (suffix : here.chars <:+ start.chars) (progress : here.size ≤ start.size)
      (signs : List Signed) (body : List Char), tree.Throughout NodeFits →
      Spelled tree.tokens body → here.chars = body ++ rest →
      signs.length + tree.signs ≤ Nesting.limit →
      ∃ reading node, unaryTail operand start here suffix progress fits signs = .ok reading ∧
        reading.rest.chars = rest ∧ node.skeleton = tree.skeleton ∧
        reading.value = nestSigns reading.rest signs node := by
  induction derives with
  | @layer outer inner layer slice body below =>
    intro here suffix progress signs chars fit spelled split _
    subst level
    cases layer
    rw [tokens_layer .unary] at spelled
    -- A primary starts with no sign, so the run of signs ends here.
    have none := token?_sign_eq_none ((startsWith_of_derives below).2 rfl) spelled split
    obtain ⟨reading, read, same, behind⟩ := complete body chars rest below
      (fit.child List.mem_cons_self) spelled ends here (by omega) split
    rw [unaryTail, none]
    dsimp only
    rw [read]
    refine ⟨_, .wrap .unary reading.value, rfl, behind, ?_, rfl⟩
    exact skeleton_layer same
  | @signed slice sign operand plain below ih =>
    intro here suffix progress signs chars fit spelled split limit
    rw [tokens_signed] at spelled
    obtain ⟨gap, behind, rfl, layout, spelledOperand⟩ := Spelled.exists_of_cons spelled
    rw [List.append_assoc, List.append_assoc] at split
    obtain ⟨token, read, value, tokenRest⟩ := legible_additive.exists_token? plain split layout
      (head?_ne_equal below spelledOperand _)
    have read : here.token? [['+'], ['-']] = some token := read
    rw [ParseTree.signs] at limit
    obtain ⟨final, node, whole, finalRest, same, nested⟩ := ih rfl token.rest
      (token.suffix.trans suffix) (by have := token.progress; omega)
      (⟨here, token.value⟩ :: signs) behind (fit.child (by simp)) spelledOperand tokenRest
      (by rw [List.length_cons]; omega)
    rw [unaryTail, read]
    dsimp only
    rw [if_neg (by omega)]
    refine ⟨final, ⟨.unary, here.slice final.rest, [tokenTree token.value, node]⟩, whole, finalRest,
      ?_, nested⟩
    refine skeleton_node (List.cons_ne_nil _ _) ?_
    rw [value]
    simp [same, tokenTree]
  | flat other | left other | right other =>
    subst level
    cases other
  | choice | group | call | number | text | reference => cases level

/-- **An operand with its signs is read.** -/
theorem unary_complete (complete : InnerComplete inner) :
    RuleComplete .unary operandEnds (unary inner) := by
  intro tree body rest derives fit spelled ends s fits chars
  obtain ⟨reading, node, read, behind, same, value⟩ := unaryTail_complete
    (primary_complete complete) ends derives rfl s s.suffix_self (Nat.le_refl _) [] body fit spelled
    chars (by have := fit.here.signs; simpa using this)
  exact ⟨reading, read, by rw [value]; exact same, behind⟩

end Grammar
end DecimalExpression
