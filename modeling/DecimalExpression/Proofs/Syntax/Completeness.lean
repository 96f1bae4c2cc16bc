import DecimalExpression.Proofs.Syntax.Primaries
import DecimalExpression.Syntax.Source

/-!
# Every sentence is read

A tree that the grammar derives, laid out in any way and within the limits, is read back
(`ParseTree.ofSource_complete`): the source is accepted, and what is read has the skeleton of the
tree.

The levels of the grammar are complete one after another, from the operands up to conditionals, if
conditionals on shorter inputs are.  The knot is tied by induction on the size of the input
(`conditional_complete`).
-/

namespace DecimalExpression
namespace Grammar

open ParseTree

variable {n : Nat} {s : Input} {inner : InnerRule n} {rest : List Char}

/-! ## 1. Chains, level by level

Each level is a chain over the one below, and what may follow it is what may follow the level below
without its own operators. -/

theorem multiplicative_complete (complete : InnerComplete inner) :
    RuleComplete .multiplicative multiplicativeEnds (multiplicative inner) :=
  flatChain_complete .multiplicative (unary_complete complete) legible_multiplicative (by decide)
    (by decide)

theorem additive_complete (complete : InnerComplete inner) :
    RuleComplete .additive additiveEnds (additive inner) :=
  flatChain_complete .additive (multiplicative_complete complete) legible_additive (by decide)
    (by decide)

theorem relational_complete (complete : InnerComplete inner) :
    RuleComplete .relational relationalEnds (relational inner) :=
  leftChain_complete .relational (additive_complete complete) legible_relational (by decide)
    (by decide)

theorem equality_complete (complete : InnerComplete inner) :
    RuleComplete .equality equalityEnds (equality inner) :=
  leftChain_complete .equality (relational_complete complete) legible_equality (by decide)
    (by decide)

theorem conjunction_complete (complete : InnerComplete inner) :
    RuleComplete .conjunction conjunctionEnds (conjunction inner) :=
  rightChain_complete .conjunction (equality_complete complete)
    (legible_single rfl (by decide) (by decide)) (by decide) (by decide)

theorem disjunction_complete (complete : InnerComplete inner) :
    RuleComplete .disjunction disjunctionEnds (disjunction inner) :=
  rightChain_complete .disjunction (conjunction_complete complete)
    (legible_single rfl (by decide) (by decide)) (by decide) (by decide)

/-! ## 2. Conditionals

Behind the first operand a question mark decides whether there are branches.  The branches are read
by the rule for shorter inputs, and are layers around conditionals. -/

/-- The parts of a conditional are layers. -/
theorem exists_of_branch {outer operand : Production} (level : Layer outer operand)
    (branch : outer = .condition ∨ outer = .consequent ∨ outer = .alternative) {tree : ParseTree}
    (derives : Derives outer tree) :
    ∃ slice body, tree = ⟨outer, slice, [body]⟩ ∧ Derives operand body := by
  cases derives with
  | layer other slice below =>
    rcases branch with rfl | rfl | rfl <;> cases level <;> cases other <;>
      exact ⟨slice, _, rfl, below⟩
  | flat other | left other | right other => rcases branch with rfl | rfl | rfl <;> cases other
  | choice | signed => exact absurd branch (by decide)
  | group | call | number | text | reference => cases level

/-- **The branches of a conditional are read**, from its question mark on.  Each of them is a
conditional on what is left, which is shorter, and the colon ends the first one. -/
theorem branches_complete (complete : InnerComplete inner) {slice : String}
    {condition consequent alternative : ParseTree} (atConsequent : Derives .consequent consequent)
    (atAlternative : Derives .alternative alternative)
    (fitConsequent : consequent.Throughout NodeFits)
    (fitAlternative : alternative.Throughout NodeFits) {body : List Char}
    (spelled : Spelled (consequent.tokens ++ ":" :: alternative.tokens) body)
    (ends : Ends conditionalEnds rest) {fits : s.size ≤ n} {found : ParseTree}
    (same : (ParseTree.wrap .condition found).skeleton = condition.skeleton)
    {decided : Reading 1 s String} (mark : decided.value = "?")
    (chars : decided.rest.chars = body ++ rest) :
    Gives (branches inner s fits found decided)
      ⟨.conditional, slice,
        [condition, leaf .token "?", consequent, leaf .token ":", alternative]⟩ rest := by
  have progress := decided.progress
  obtain ⟨slice, yes, rfl, belowYes⟩ := exists_of_branch .consequent (by simp) atConsequent
  obtain ⟨slice', no, rfl, belowNo⟩ := exists_of_branch .alternative (by simp) atAlternative
  rw [tokens_layer .consequent, tokens_layer .alternative] at spelled
  obtain ⟨here, behind, rfl, spelledYes, spelled⟩ := Spelled.exists_of_append spelled
  rw [List.append_assoc] at chars
  have endsYes : Ends conditionalEnds (behind ++ rest) :=
    ends_of_spelled rfl rfl (by decide) spelled
  obtain ⟨first, readYes, sameYes, firstRest⟩ := (complete.reads yes here _ belowYes
    (fitConsequent.child List.mem_cons_self) spelledYes endsYes decided.rest (by omega)
    chars).committed
  have firstProgress := first.progress
  obtain ⟨colon, last, colonRead, colonValue, spelledNo, colonRest⟩ :=
    exists_expectToken rfl rfl spelled firstRest
  have colonRead : expectToken first.rest [':'] = .ok colon := colonRead
  have colonProgress := colon.progress
  obtain ⟨second, readNo, sameNo, secondRest⟩ := (complete.reads no last rest belowNo
    (fitAlternative.child List.mem_cons_self) spelledNo ends colon.rest (by omega)
    colonRest).committed
  have sameYes : (ParseTree.wrap .consequent first.value).skeleton
      = skeleton ⟨.consequent, slice, [yes]⟩ := skeleton_layer sameYes
  have sameNo : (ParseTree.wrap .alternative second.value).skeleton
      = skeleton ⟨.alternative, slice', [no]⟩ := skeleton_layer sameNo
  rw [branches, readYes]
  dsimp only
  rw [colonRead]
  dsimp only
  rw [readNo]
  refine ⟨_, rfl, skeleton_node (List.cons_ne_nil _ _) ?_, secondRest⟩
  rw [mark, colonValue]
  simp only [List.map_cons, List.map_nil, same, sameYes, sameNo, tokenTree]

/-- **A conditional is read.**  Where no question mark follows the disjunction it is a layer; where
one does the branches are read. -/
theorem conditionalLayer_complete (complete : InnerComplete inner) :
    RuleComplete .conditional conditionalEnds (conditionalLayer inner) := by
  intro tree body rest derives fit spelled ends s fits chars
  cases derives with
  | flat other | left other | right other => cases other
  | @layer _ _ level slice below atBelow =>
    cases level
    rw [tokens_layer .conditional] at spelled
    obtain ⟨reading, read, same, readingRest⟩ := disjunction_complete complete below body rest
      atBelow (fit.child List.mem_cons_self) spelled (ends.mono (by decide)) s fits chars
    have none : reading.rest.token? [['?']] = none := (readingRest ▸ ends).token?_eq_none rfl
    rw [conditionalLayer, read]
    dsimp only
    rw [none]
    exact ⟨_, rfl, skeleton_layer same, readingRest⟩
  | @choice slice condition consequent alternative atCondition atConsequent atAlternative =>
    obtain ⟨slice', decider, rfl, below⟩ := exists_of_branch .condition (by simp) atCondition
    rw [tokens_choice, tokens_layer .condition] at spelled
    obtain ⟨here, behind, rfl, spelledHere, spelled⟩ := Spelled.exists_of_append spelled
    have endsHere : Ends disjunctionEnds (behind ++ rest) :=
      ends_of_spelled rfl rfl (by decide) spelled
    rw [List.append_assoc] at chars
    obtain ⟨reading, read, same, readingRest⟩ := disjunction_complete complete decider here _ below
      ((fit.child List.mem_cons_self).child List.mem_cons_self) spelledHere endsHere s fits chars
    obtain ⟨gap, last, rfl, layout, spelled⟩ := Spelled.exists_of_cons spelled
    rw [List.append_assoc, List.append_assoc] at readingRest
    obtain ⟨question, markRead, mark, questionRest⟩ :=
      exists_token?_single rfl rfl readingRest layout
    have markRead : reading.rest.token? [['?']] = some question := markRead
    rw [conditionalLayer, read]
    dsimp only
    rw [markRead]
    refine branches_complete complete atConsequent atAlternative (fit.child (by simp))
      (fit.child (by simp)) spelled ends ?_ mark questionRest
    exact skeleton_layer same

/-! ## 3. Where no operand is read

An empty list of arguments is found by failing to read one, and that failure must not be final.  So
what matters is where a conditional stops and how: in front of a closing parenthesis no rule below
has committed itself. -/

section Stops

variable {rule : Rule n} {production : Production} {operators : List (List Char)}
  {operator : List Char} {s : Input} {fits : s.size ≤ n} {stop : Stop}

theorem flatChain_stops (stops : rule s fits = .error stop) :
    flatChain production operators rule s fits = .error stop := by
  rw [flatChain, stops]

theorem leftChain_stops (stops : rule s fits = .error stop) :
    leftChain production operators rule s fits = .error stop := by
  rw [leftChain, stops]

theorem rightChain_stops (stops : rule s fits = .error stop) :
    rightChain production operator rule s fits = .error stop := by
  rw [rightChain, rightTail, stops]
  rfl

/-- **A conditional stops where its first operand does**, signs included. -/
theorem conditionalLayer_stops_of_unary (stops : unary inner s fits = .error stop) :
    conditionalLayer inner s fits = .error stop := by
  have additive : additive inner s fits = .error stop := flatChain_stops (flatChain_stops stops)
  have equality : equality inner s fits = .error stop := leftChain_stops (leftChain_stops additive)
  have disjunction : disjunction inner s fits = .error stop :=
    rightChain_stops (rightChain_stops equality)
  rw [conditionalLayer, disjunction]

/-- **A conditional stops where its first primary does**, unless a sign stands in front. -/
theorem conditionalLayer_stops (unsigned : s.token? [['+'], ['-']] = none)
    (stops : primary inner s fits = .error stop) : conditionalLayer inner s fits = .error stop := by
  refine conditionalLayer_stops_of_unary ?_
  rw [unary, unaryTail, unsigned]
  dsimp only
  rw [stops]
  rfl

/-- **No operand starts with a closing parenthesis.**  It is none of the characters that an operand
starts with, so all alternatives fail without a final stop. -/
theorem primary_yields : RuleYields (primary inner) := by
  intro s fits closing
  obtain ⟨more, chars⟩ : ∃ more, s.skipLayout.rest.chars = ')' :: more :=
    List.head?_eq_some_iff.mp closing
  have notNumber : Lexeme.number? s.skipLayout.rest.chars = none := by
    rw [chars]
    rfl
  have notQuoted : Lexeme.quoted s.skipLayout.rest.chars = .absent := by
    rw [chars]
    rfl
  have stops : bareOperand inner s.skipLayout.rest (by have := s.skipLayout.progress; omega)
      = .error ⟨s.skipLayout.rest.chars, .operand, false⟩ := by
    rw [bareOperand, token?_opening_eq_none chars (by decide)]
    dsimp only
    rw [identifier?_eq_none chars rfl]
    dsimp only
    rw [notNumber]
    dsimp only
    rw [notQuoted]
  exact ⟨_, by rw [primary, stops], rfl⟩

/-- **A conditional stops** in front of a closing parenthesis. -/
theorem conditionalLayer_yields : RuleYields (conditionalLayer inner) := by
  intro s fits closing
  have yields : RuleYields (primary inner) := primary_yields
  obtain ⟨stop, stops, notFinal⟩ := yields s fits closing
  have ends : Ends [')'] s.chars := fun c head => by
    rw [closing] at head
    cases head
    exact List.mem_singleton_self _
  exact ⟨stop, conditionalLayer_stops (ends.token?_eq_none rfl) stops, notFinal⟩

end Stops

/-! ## 4. The knot

The rule for conditionals refers to itself on shorter inputs, and the statement does too. -/

/-- **The rule for conditionals is complete**, by induction on the size of the input. -/
theorem conditional_complete (n : Nat) :
    InnerComplete (fun (s : Input) (_ : s.size < n) => conditional s) := by
  induction n using Nat.strong_induction_on with
  | _ n ih =>
    constructor
    · intro tree body rest derives fit spelled ends s fits chars
      show Gives (conditional s) tree rest
      rw [conditional]
      exact conditionalLayer_complete (ih s.size fits) tree body rest derives fit spelled ends s
        (Nat.le_refl _) chars
    · intro s fits closing
      show ∃ stop, conditional s = .error stop ∧ stop.final = false
      rw [conditional]
      exact conditionalLayer_yields s (Nat.le_refl _) closing

end Grammar

/-! ## 5. Sources

A source is laid out, its nesting is checked, and then the rule reads the conditional and nothing is
left.  That the tree which is found is the one that was laid out is said by their skeletons. -/

namespace ParseTree

open Grammar

/-- A tree with an expression at its root is one layer. -/
theorem exists_of_expression {tree : ParseTree} (derives : Derives .expression tree) :
    ∃ slice body, tree = ⟨.expression, slice, [body]⟩ ∧ Derives .conditional body := by
  cases derives with
  | flat other | left other | right other => cases other
  | layer level slice below =>
    cases level
    exact ⟨slice, _, rfl, below⟩

/-- **A conditional that is laid out is all that is read.** -/
theorem exists_readAll {tree : ParseTree} (derives : Derives .conditional tree)
    (fit : tree.Throughout NodeFits) {chars : List Char} (layout : LaidOut tree.tokens chars) :
    ∃ found, Source.readAll chars = .ok found ∧ found.skeleton = tree.skeleton := by
  obtain ⟨body, gap, rfl, spelled, blank⟩ := layout
  have complete := conditional_complete ((Input.ofChars (body ++ gap)).size + 1)
  obtain ⟨reading, read, same, behind⟩ := complete.reads tree body gap derives fit spelled
    (ends_of_layout blank) (.ofChars (body ++ gap)) (Nat.lt_succ_self _) rfl
  have read : conditional (.ofChars (body ++ gap)) = .ok reading := read
  have nothing : reading.rest.skipLayout.rest.chars = [] := by
    show reading.rest.chars.dropWhile Text.isLayout = []
    rw [behind, List.dropWhile_eq_nil_iff]
    exact blank
  refine ⟨reading.value, ?_, same⟩
  rw [Source.readAll, read]
  dsimp only
  rw [nothing]

/-- **Every sentence of the grammar is read.**  Where the tokens of a tree are laid out in a source
that does not nest too deep, and the tree is within the limits, the source is accepted, and the tree
that is read has the productions, the children and the texts of the leaves of this tree. -/
theorem ofSource_complete {tree : ParseTree} (follows : tree.Follows)
    (root : tree.production = .expression) {source : String}
    (layout : LaidOut tree.tokens source.toList) (nesting : Nesting.excess? source.toList = none)
    (fits : tree.Throughout NodeFits) (depth : tree.depth ≤ depthLimit) :
    ∃ found, ofSource source = .ok found ∧ found.skeleton = tree.skeleton := by
  have derives : Derives .expression tree := by
    have derives := follows.derives (by rw [root]; decide)
    rwa [root] at derives
  obtain ⟨slice, body, rfl, below⟩ := exists_of_expression derives
  rw [tokens_layer .expression] at layout
  obtain ⟨found, read, same⟩ := exists_readAll below (fits.child List.mem_cons_self) layout
  have skeleton : (ParseTree.wrap .expression found).skeleton
      = ParseTree.skeleton ⟨.expression, slice, [body]⟩ := skeleton_layer same
  have within : ¬ depthLimit < (ParseTree.wrap .expression found).depth := by
    rw [← depth_skeleton, skeleton, depth_skeleton]
    exact Nat.not_lt.mpr depth
  refine ⟨.wrap .expression found, ?_, skeleton⟩
  simp only [ofSource, nesting, read]
  rw [if_neg within]

/-- The tree of a call without arguments, behind a sign. -/
def signedCall : ParseTree :=
  [Production.expression, .conditional, .disjunction, .conjunction, .equality, .relational,
      .additive, .multiplicative].foldr wrap
    ⟨.unary, "", [leaf .token "-", wrap .unary (wrap .primary
      ⟨.call, "", [leaf .token "f", leaf .token "(", leaf .token ")"]⟩)]⟩

theorem signedCall_derives : Derives .expression signedCall := by
  have call : Derives .call ⟨.call, "", [leaf .token "f", leaf .token "(", leaf .token ")"]⟩ :=
    .call "" (by decide) [] nofun
  have minus : "-" ∈ ["+", "-"] := by decide
  have product : Derives .multiplicative _ :=
    .flat .multiplicative "" [] nofun
      (.signed "" minus (.layer .unary "" (.layer .call "" call))) nofun
  have comparison : Derives .relational _ :=
    .layer .relational "" (.flat .additive "" [] nofun product nofun)
  exact .layer .expression "" (.layer .conditional "" (.layer .disjunction ""
    (.layer .conjunction "" (.layer .equality "" comparison))))

theorem signedCall_fits : signedCall.Throughout NodeFits := by
  have token : ∀ slice, (leaf .token slice).Throughout NodeFits := fun slice =>
    .node _ ⟨nofun, Nat.zero_le _, Nat.zero_le _⟩ nofun
  iterate 8 refine .node _ ⟨nofun, by decide, by decide⟩ (List.forall_mem_singleton.mpr ?_)
  refine .node _ ⟨nofun, by decide, by decide⟩ (List.forall_mem_cons.mpr ⟨token _, ?_⟩)
  iterate 3 refine List.forall_mem_singleton.mpr (.node _ ⟨nofun, by decide, by decide⟩ ?_)
  simp [token]

/-- For instance, layout may stand on both sides of a token. -/
theorem ofSource_complete_signedCall :
    ∃ found, ofSource " -f( ) " = .ok found ∧ found.skeleton = signedCall.skeleton := by
  have space : ∀ c ∈ [' '], Text.isLayout c := List.forall_mem_singleton.mpr rfl
  have none : ∀ c ∈ ([] : List Char), Text.isLayout c := nofun
  have spelled : Spelled ["-", "f", "(", ")"] _ :=
    .cons space "-" (.cons none "f" (.cons none "(" (.cons space ")" .nil)))
  exact ofSource_complete signedCall_derives.follows rfl ⟨_, [' '], rfl, spelled, space⟩ (by decide)
    signedCall_fits (by cbv)

end ParseTree
end DecimalExpression
