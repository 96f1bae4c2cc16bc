import DecimalExpression.Proofs.Outcomes
import DecimalExpression.Proofs.Syntax.Completeness
import DecimalExpression.Proofs.Syntax.NestingBound
import Mathlib

/-!
# How deep the grammar recurses

The layers of the grammar start over from the rule for conditionals inside groups, calls and
branches.  `Grammar.conditionalWithin` cuts that recursion off: so many levels down, some other rule
stands in for it, and nothing is known of that one: it may stop for good wherever it is tried, and
that would be the end of the reading.  What the cut-off rule reads is the same wherever the tree
that is read has no more open levels than the cut allows (`Grammar.conditionalWithin_eq_ok`), so
there the other rule is never tried.

Each rule is followed through a reading that succeeds (`Keeps`).  The trees that it reads on its way
stay in the tree that it gives, so they nest no deeper.  A call without arguments is the one place
where an attempt has to fail: in front of the closing parenthesis it does, cut off or not.
-/

namespace DecimalExpression
namespace Grammar

open ParseTree

variable {n k : Nat} {start : Input} {production : Production} {rule rule' : Rule n}
  {inner inner' : InnerRule n} {operators : List (List Char)}

/-! ## 1. Rules that keep readings

The cut-off rule may refuse what the full rule reads, so nothing is kept in general.  A reading is
kept if its tree does not nest too deep.  Whatever is read on the way to it must then be kept too,
and that is why it matters that nothing that was read is dropped again. -/

/-- **A rule that keeps the readings of another one**, where the tree does not nest too deep. -/
def Keeps (k : Nat) (rule rule' : Rule n) : Prop :=
  ∀ (s : Input) (fits : s.size ≤ n) (reading : Reading 1 s ParseTree),
    rule s fits = .ok reading → reading.value.nesting ≤ k → rule' s fits = .ok reading

/-- **The same a level down**: the rule inside keeps what nests less, and, if there is a level left,
stops in front of a closing parenthesis. -/
structure KeepsInner (k : Nat) (inner inner' : InnerRule n) : Prop where
  reads : ∀ (s : Input) (fits : s.size < n) (reading : Reading 1 s ParseTree),
    inner s fits = .ok reading → reading.value.nesting < k → inner' s fits = .ok reading
  yields : 0 < k → ∀ (s : Input) (fits : s.size < n),
    (s.chars.dropWhile Text.isLayout).head? = some ')' →
      ∃ stop, inner' s fits = .error stop ∧ stop.final = false

/-! ## 2. Chains

For each chain two facts: what has been read so far is part of the tree in the end, so it nests no
deeper, and then the loop makes the same of it with the other rule. -/

/-- What is there stays in front of the rest of a flat chain. -/
theorem flatTail_done {s : Input} {suffix : s.chars <:+ start.chars}
    {progress : s.size + 1 ≤ start.size} {fits : start.size ≤ n} {done : Array ParseTree}
    {reading : Reading 1 start (Array ParseTree)}
    (read : flatTail operators rule start s suffix progress fits done = .ok reading) :
    done.toList ⊆ reading.value.toList := by
  rw [flatTail] at read
  split at read
  · cases read
    exact List.Subset.refl _
  · rename_i operator found
    split at read
    · cases read
    · rename_i right atRight
      have shorter : right.rest.size < s.size := Nat.lt_trans right.progress operator.progress
      refine fun child member => flatTail_done read ?_
      simp [member]
termination_by s.size

theorem flatTail_keeps (keeps : Keeps k rule rule') {s : Input}
    {suffix : s.chars <:+ start.chars} {progress : s.size + 1 ≤ start.size}
    {fits : start.size ≤ n} {done : Array ParseTree}
    {reading : Reading 1 start (Array ParseTree)}
    (read : flatTail operators rule start s suffix progress fits done = .ok reading)
    (within : ∀ child ∈ reading.value.toList, child.nesting ≤ k) :
    flatTail operators rule' start s suffix progress fits done = .ok reading := by
  rw [flatTail] at read ⊢
  split at read
  · exact read
  · rename_i operator found
    split at read
    · cases read
    · rename_i right atRight
      have shorter : right.rest.size < s.size := Nat.lt_trans right.progress operator.progress
      have member : right.value ∈ reading.value.toList := flatTail_done read (by simp)
      have same := keeps _ _ _ (committed_eq_ok atRight) (within _ member)
      rw [same]
      exact flatTail_keeps keeps read within
termination_by s.size

theorem flatChain_keeps (keeps : Keeps k rule rule') :
    Keeps k (flatChain production operators rule) (flatChain production operators rule') := by
  intro s fits reading read within
  rw [flatChain] at read ⊢
  split at read
  · cases read
  · rename_i first atFirst
    split at read
    · cases read
    · rename_i children atTail
      cases read
      have below : ∀ child ∈ children.value.toList, child.nesting ≤ k := fun child member =>
        (nesting_le_of_mem member).trans within
      rw [keeps _ _ _ atFirst (below _ (flatTail_done atTail (by simp)))]
      dsimp only
      rw [flatTail_keeps keeps atTail below]

/-- The node so far stays inside a chain that nests to the left. -/
theorem leftTail_node {s : Input} {suffix : s.chars <:+ start.chars}
    {progress : s.size + 1 ≤ start.size} {fits : start.size ≤ n} {count : Nat} {node : ParseTree}
    {reading : Reading 1 start ParseTree}
    (read : leftTail production operators rule start s suffix progress fits count node
      = .ok reading) : node.nesting ≤ reading.value.nesting := by
  rw [leftTail] at read
  split at read
  · cases read
    exact Nat.le_refl _
  · rename_i operator found
    split at read
    · cases read
    · rename_i right atRight
      split at read
      · cases read
      · have shorter : right.rest.size < s.size := Nat.lt_trans right.progress operator.progress
        exact (nesting_le_of_mem (by simp)).trans (leftTail_node read)
termination_by s.size

/-- The rest of a chain to the left is kept, link by link: the node so far is part of the tree in
the end. -/
theorem leftTail_keeps (keeps : Keeps k rule rule') {s : Input}
    {suffix : s.chars <:+ start.chars} {progress : s.size + 1 ≤ start.size}
    {fits : start.size ≤ n} {count : Nat} {node : ParseTree}
    {reading : Reading 1 start ParseTree}
    (read : leftTail production operators rule start s suffix progress fits count node
      = .ok reading) (within : reading.value.nesting ≤ k) :
    leftTail production operators rule' start s suffix progress fits count node = .ok reading := by
  rw [leftTail] at read ⊢
  split at read
  · exact read
  · rename_i operator found
    split at read
    · cases read
    · rename_i right atRight
      split at read
      · cases read
      · rename_i fewer
        have shorter : right.rest.size < s.size := Nat.lt_trans right.progress operator.progress
        have below : right.value.nesting ≤ reading.value.nesting :=
          (nesting_le_of_mem (by simp)).trans (leftTail_node read)
        rw [keeps _ _ _ (committed_eq_ok atRight) (below.trans within)]
        exact (if_neg fewer).trans (leftTail_keeps keeps read within)
termination_by s.size

theorem leftChain_keeps (keeps : Keeps k rule rule') :
    Keeps k (leftChain production operators rule) (leftChain production operators rule') := by
  intro s fits reading read within
  rw [leftChain] at read ⊢
  split at read
  · cases read
  · rename_i first atFirst
    have below : first.value.nesting ≤ reading.value.nesting :=
      (nesting_le_of_mem (List.mem_singleton_self _)).trans
        (leftTail_node read)
    rw [keeps _ _ _ atFirst (below.trans within)]
    exact leftTail_keeps keeps read within

/-- The last operand and the operands of the links stay inside a chain that nests to the right. -/
theorem nesting_nestRight (rest : Input) (links : List Link) (last : ParseTree) :
    last.nesting ≤ (nestRight production rest links last).nesting ∧
      ∀ link ∈ links, link.operand.nesting ≤ (nestRight production rest links last).nesting := by
  induction links generalizing last with
  | nil => exact ⟨Nat.le_refl _, nofun⟩
  | cons link links ih =>
    obtain ⟨node, others⟩ := ih ⟨production, link.start.slice rest,
      [link.operand, tokenTree link.operator, last]⟩
    have below : ∀ child ∈ [link.operand, tokenTree link.operator, last], child.nesting ≤ _ :=
      fun child member => (nesting_le_of_mem member).trans node
    exact ⟨below _ (by simp), List.forall_mem_cons.mpr ⟨below _ (by simp), others⟩⟩

theorem rightTail_links {operator : List Char} {here : Input} {suffix : here.chars <:+ start.chars}
    {progress : here.size ≤ start.size} {fits : start.size ≤ n} {links : List Link}
    {reading : Reading 1 start ParseTree}
    (read : rightTail production operator rule start here suffix progress fits links
      = .ok reading) : ∀ link ∈ links, link.operand.nesting ≤ reading.value.nesting := by
  rw [rightTail] at read
  split at read
  · cases read
  · rename_i last atLast
    split at read
    · cases read
      exact (nesting_nestRight _ links _).2
    · rename_i token found
      split at read
      · cases read
      · have shorter : token.rest.size < here.size := Nat.lt_trans token.progress last.progress
        exact fun link member => rightTail_links read link (List.mem_cons_of_mem _ member)
termination_by here.size

/-- The rest of a chain to the right is kept, link by link, since all operands end up in the tree.
-/
theorem rightTail_keeps (keeps : Keeps k rule rule') {operator : List Char} {here : Input}
    {suffix : here.chars <:+ start.chars} {progress : here.size ≤ start.size}
    {fits : start.size ≤ n} {links : List Link} {reading : Reading 1 start ParseTree}
    (read : rightTail production operator rule start here suffix progress fits links
      = .ok reading) (within : reading.value.nesting ≤ k) :
    rightTail production operator rule' start here suffix progress fits links = .ok reading := by
  rw [rightTail] at read ⊢
  split at read
  · cases read
  · rename_i last atLast
    split at read
    · rename_i found
      cases read
      have below := (nesting_nestRight last.rest links
        ⟨production, here.slice last.rest, [last.value]⟩).1.trans within
      have operand := (nesting_le_of_mem (List.mem_singleton_self last.value)).trans below
      rw [keeps _ _ _ atLast operand]
      dsimp only
      rw [found]
    · rename_i token found
      split at read
      · cases read
      · rename_i fewer
        have shorter : token.rest.size < here.size := Nat.lt_trans token.progress last.progress
        have operand := (rightTail_links read _ List.mem_cons_self).trans within
        rw [keeps _ _ _ atLast operand]
        dsimp only
        rw [found]
        exact (if_neg fewer).trans (rightTail_keeps keeps read within)
termination_by here.size

theorem rightChain_keeps {operator : List Char} (keeps : Keeps k rule rule') :
    Keeps k (rightChain production operator rule) (rightChain production operator rule') :=
  fun _ _ _ read within => rightTail_keeps keeps read within

/-! ## 3. Operands

Groups and arguments are read by the rule a level down.  The one attempt that may fail, at an empty
list of arguments, fails in the same way where a level is left, and a call has opened one. -/

theorem group_keeps (keeps : KeepsInner k inner inner') {s : Input} {fits : s.size ≤ n}
    {opening : Reading 1 s String} {reading : Reading 1 s ParseTree}
    (read : group inner s fits opening = .ok reading) (within : reading.value.nesting ≤ k) :
    group inner' s fits opening = .ok reading := by
  rw [group] at read ⊢
  split at read
  · cases read
  · rename_i body atBody
    split at read
    · cases read
    · rename_i closing found
      cases read
      have below : body.value.nesting < k :=
        Nat.lt_of_lt_of_le (nesting_lt_of_mem rfl (by simp)) within
      rw [keeps.reads _ _ _ (committed_eq_ok atBody) below, committed]
      dsimp only [Except.mapError]
      rw [found]

/-- A token of one character is what stands behind the layout. -/
theorem head?_of_expectToken {s : Input} {c : Char} (visible : Text.isLayout c = false)
    {reading : Reading 1 s String} (read : expectToken s [c] = .ok reading) :
    (s.chars.dropWhile Text.isLayout).head? = some c := by
  have list : (String.ofList [c]).toList = [c] := String.toList_ofList
  rw [← list] at read
  obtain ⟨value, gap, start, split, layout, stands⟩ := expectToken_sound read
  have start_eq : start = c :: reading.rest.chars := by
    rw [stands.start_eq]
    show reading.value.toList ++ _ = _
    rw [value, list]
    rfl
  rw [split, start_eq]
  exact congrArg List.head? (dropWhile_of_visible layout visible)

/-- What is there stays in front of more arguments.  By recursion on what is left. -/
theorem moreArguments_done {s : Input} {suffix : s.chars <:+ start.chars}
    {progress : s.size ≤ start.size} {fits : start.size < n} {done : Array ParseTree}
    {reading : Reading 0 start (Array ParseTree)}
    (read : moreArguments inner start s suffix progress fits done = .ok reading) :
    done.toList ⊆ reading.value.toList := by
  rw [moreArguments] at read
  split at read
  · cases read
    exact List.Subset.refl _
  · rename_i comma found
    split at read
    · split at read
      · cases read
      · cases read
        exact List.Subset.refl _
    · rename_i argument atArgument
      have shorter : argument.rest.size < s.size := Nat.lt_trans argument.progress comma.progress
      refine fun child member => moreArguments_done read ?_
      simp [member]
termination_by s.size

/-- **More arguments** are kept up to a closing parenthesis.  A comma that no argument follows would
be left unread, and no parenthesis would stand there. -/
theorem moreArguments_keeps (keeps : KeepsInner k inner inner') {s : Input}
    {suffix : s.chars <:+ start.chars} {progress : s.size ≤ start.size} {fits : start.size < n}
    {done : Array ParseTree} {reading : Reading 0 start (Array ParseTree)}
    (read : moreArguments inner start s suffix progress fits done = .ok reading)
    (closing : (reading.rest.chars.dropWhile Text.isLayout).head? = some ')')
    (within : ∀ a ∈ reading.value.toList, a.nesting < k) :
    moreArguments inner' start s suffix progress fits done = .ok reading := by
  rw [moreArguments] at read ⊢
  split at read
  · exact read
  · rename_i comma found
    split at read
    · split at read
      · cases read
      · cases read
        have atComma : expectToken s [','] = .ok comma := by rw [expectToken, found]
        rw [head?_of_expectToken rfl atComma] at closing
        cases closing
    · rename_i argument atArgument
      have shorter : argument.rest.size < s.size := Nat.lt_trans argument.progress comma.progress
      have member : argument.value ∈ reading.value.toList := moreArguments_done read (by simp)
      rw [keeps.reads _ _ _ atArgument (within _ member)]
      exact moreArguments_keeps keeps read closing within
termination_by s.size

/-- **The arguments of a call** are kept where there is a level left. -/
theorem arguments_keeps (keeps : KeepsInner k inner inner') (left : 0 < k) {s : Input}
    {fits : s.size < n} {reading : Reading 0 s (Array ParseTree)}
    (read : arguments inner s fits = .ok reading)
    (closing : (reading.rest.chars.dropWhile Text.isLayout).head? = some ')')
    (within : ∀ a ∈ reading.value.toList, a.nesting < k) :
    arguments inner' s fits = .ok reading := by
  rw [arguments] at read ⊢
  split at read
  · split at read
    · cases read
    · cases read
      -- no argument stands here: the other rule has to stop in front of the parenthesis too
      obtain ⟨stop, stops, notFinal⟩ := keeps.yields left s fits closing
      rw [stops]
      exact if_neg (by rw [notFinal]; nofun)
  · rename_i first atFirst
    have member : first.value ∈ reading.value.toList := moreArguments_done read (by simp)
    rw [keeps.reads _ _ _ atFirst (within _ member)]
    exact moreArguments_keeps keeps read closing within

theorem call_keeps (keeps : KeepsInner k inner inner') {s : Input} {fits : s.size ≤ n}
    {name : Reading 1 s String} {opening : Reading 1 name.rest String}
    {reading : Reading 1 s ParseTree} (read : call inner s fits name opening = .ok reading)
    (within : reading.value.nesting ≤ k) : call inner' s fits name opening = .ok reading := by
  rw [call] at read ⊢
  split at read
  · cases read
  · rename_i args atArguments
    split at read
    · cases read
    · rename_i closing found
      cases read
      have left : 0 < k :=
        Nat.zero_lt_of_lt (Nat.lt_of_lt_of_le (nesting_lt_of_mem rfl List.mem_cons_self) within)
      have below : ∀ a ∈ args.value.toList, a.nesting < k := fun a member =>
        Nat.lt_of_lt_of_le (nesting_lt_of_mem rfl (by simp [member])) within
      rw [arguments_keeps keeps left atArguments (head?_of_expectToken rfl found) below]
      dsimp only
      rw [found]

/-- A name alone is kept, and so is a call. -/
theorem callOrReference_keeps (keeps : KeepsInner k inner inner') {s : Input} {fits : s.size ≤ n}
    {name : Reading 1 s String} {reading : Reading 1 s ParseTree}
    (read : callOrReference inner s fits name = .ok reading) (within : reading.value.nesting ≤ k) :
    callOrReference inner' s fits name = .ok reading := by
  rw [callOrReference] at read ⊢
  split at read
  · exact call_keeps keeps read within
  · exact read

theorem bareOperand_keeps (keeps : KeepsInner k inner inner') {s : Input} {fits : s.size ≤ n}
    {reading : Reading 1 s ParseTree} (read : bareOperand inner s fits = .ok reading)
    (within : reading.value.nesting ≤ k) : bareOperand inner' s fits = .ok reading := by
  rw [bareOperand] at read ⊢
  split at read
  · exact group_keeps keeps read within
  split at read
  · exact callOrReference_keeps keeps read within
  · exact read

theorem primary_keeps (keeps : KeepsInner k inner inner') :
    Keeps k (primary inner) (primary inner') := by
  intro s fits reading read within
  rw [primary] at read ⊢
  split at read
  · cases read
  · rename_i operand atOperand
    cases read
    have below := (nesting_le_of_mem (List.mem_singleton_self operand.value)).trans within
    rw [bareOperand_keeps keeps atOperand below]

/-- The operand stays inside its signs. -/
theorem nesting_nestSigns (rest : Input) (signs : List Signed) (operand : ParseTree) :
    operand.nesting ≤ (nestSigns rest signs operand).nesting := by
  induction signs generalizing operand with
  | nil => exact Nat.le_refl _
  | cons signed signs ih => exact (nesting_le_of_mem (by simp)).trans (ih _)

/-- Behind signs an operand is kept, since the signs add no levels. -/
theorem unaryTail_keeps (keeps : Keeps k rule rule') {s : Input} {suffix : s.chars <:+ start.chars}
    {progress : s.size ≤ start.size} {fits : start.size ≤ n} {signs : List Signed}
    {reading : Reading 1 start ParseTree}
    (read : unaryTail rule start s suffix progress fits signs = .ok reading)
    (within : reading.value.nesting ≤ k) :
    unaryTail rule' start s suffix progress fits signs = .ok reading := by
  rw [unaryTail] at read ⊢
  split at read
  · rename_i sign found
    split at read
    · cases read
    · rename_i fewer
      have shorter : sign.rest.size < s.size := sign.progress
      exact (if_neg fewer).trans (unaryTail_keeps keeps read within)
  · split at read
    · cases read
    · rename_i operand atOperand
      cases read
      have below := (nesting_nestSigns operand.rest signs (.wrap .unary operand.value)).trans within
      have inside := (nesting_le_of_mem (List.mem_singleton_self operand.value)).trans below
      rw [keeps _ _ _ atOperand inside]
termination_by s.size

/-! ## 4. The layers

Branches are read a level down too, and the condition in front of them is a child of the conditional
in the end. -/

/-- **A disjunction is kept**: so is each layer below it, from the signed operand upwards. -/
theorem disjunction_keeps (keeps : KeepsInner k inner inner') :
    Keeps k (disjunction inner) (disjunction inner') := by
  have unary : Keeps k (unary inner) (unary inner') := fun _ _ _ read within =>
    unaryTail_keeps (primary_keeps keeps) read within
  have additive : Keeps k (additive inner) (additive inner') :=
    flatChain_keeps (flatChain_keeps unary)
  have equality : Keeps k (equality inner) (equality inner') :=
    leftChain_keeps (leftChain_keeps additive)
  exact rightChain_keeps (rightChain_keeps equality)

/-- **The branches of a conditional** open a level each.  So each branch nests less than the
conditional, and the rule a level down reads it. -/
theorem branches_keeps (keeps : KeepsInner k inner inner') {s : Input} {fits : s.size ≤ n}
    {condition : ParseTree} {decided : Reading 1 s String} {reading : Reading 1 s ParseTree}
    (read : branches inner s fits condition decided = .ok reading)
    (within : reading.value.nesting ≤ k) :
    branches inner' s fits condition decided = .ok reading := by
  rw [branches] at read ⊢
  split at read
  · cases read
  · rename_i consequent atConsequent
    split at read
    · cases read
    · rename_i colon found
      split at read
      · cases read
      · rename_i alternative atAlternative
        cases read
        have parts : ∀ child ∈ [wrap .condition condition, tokenTree decided.value,
            wrap .consequent consequent.value, tokenTree colon.value,
            wrap .alternative alternative.value], child.nesting ≤ k := fun child member =>
          (nesting_le_of_mem member).trans within
        have atConsequent' : consequent.value.nesting + 1 ≤ k := by
          have part := parts (wrap .consequent consequent.value) (by simp)
          rwa [wrap, nesting_layer] at part
        have atAlternative' : alternative.value.nesting + 1 ≤ k := by
          have part := parts (wrap .alternative alternative.value) (by simp)
          rwa [wrap, nesting_layer] at part
        rw [keeps.reads _ _ _ (committed_eq_ok atConsequent) atConsequent', committed]
        dsimp only [Except.mapError]
        rw [found]
        dsimp only
        rw [keeps.reads _ _ _ (committed_eq_ok atAlternative) atAlternative', committed]
        rfl

/-- The condition stays in front of its branches. -/
theorem branches_condition {s : Input} {fits : s.size ≤ n} {condition : ParseTree}
    {decided : Reading 1 s String} {reading : Reading 1 s ParseTree}
    (read : branches inner s fits condition decided = .ok reading) :
    condition.nesting ≤ reading.value.nesting := by
  rw [branches] at read
  split at read
  · cases read
  split at read
  · cases read
  split at read
  · cases read
  · cases read
    have inside : condition.nesting ≤ (wrap .condition condition).nesting :=
      nesting_le_of_mem (List.mem_singleton_self _)
    exact inside.trans (nesting_le_of_mem List.mem_cons_self)

/-- **A conditional is kept** where the rule a level down keeps what nests less.  The condition and
the branches are children of the tree, so none of them nests deeper. -/
theorem conditionalLayer_keeps (keeps : KeepsInner k inner inner') :
    Keeps k (conditionalLayer inner) (conditionalLayer inner') := by
  intro s fits reading read within
  rw [conditionalLayer] at read ⊢
  split at read
  · cases read
  · rename_i condition atCondition
    split at read
    · rename_i found
      cases read
      have below := (nesting_le_of_mem (List.mem_singleton_self condition.value)).trans within
      rw [disjunction_keeps keeps _ _ _ atCondition below]
      dsimp only
      rw [found]
    · rename_i question found
      have below := (branches_condition read).trans within
      rw [disjunction_keeps keeps _ _ _ atCondition below]
      dsimp only
      rw [found]
      exact branches_keeps keeps read within

/-! ## 5. The cut

So many levels down another rule stands in.  By induction on the levels, a tree that does not nest
deeper is read as without the cut. -/

/-- **The rule for conditionals, cut off**: so many levels down `beyond` stands in for it. -/
def conditionalWithin (beyond : (s : Input) → Outcome 1 s ParseTree) :
    Nat → (s : Input) → Outcome 1 s ParseTree
  | 0, s => beyond s
  | levels + 1, s =>
    conditionalLayer (fun shorter _ => conditionalWithin beyond levels shorter) s
      (Nat.le_refl s.size)

/-- **A tree that nests within the cut is read all the same**, whatever stands in for the rule. -/
theorem conditionalWithin_eq_ok (beyond : (s : Input) → Outcome 1 s ParseTree) {s : Input}
    {reading : Reading 1 s ParseTree} (read : conditional s = .ok reading)
    (within : reading.value.nesting ≤ k) : conditionalWithin beyond (k + 1) s = .ok reading := by
  induction k generalizing s with
  | zero =>
    rw [conditional] at read
    have none : KeepsInner 0 (fun shorter _ => conditional shorter)
        (fun shorter (_ : shorter.size < s.size) => beyond shorter) :=
      ⟨fun _ _ _ _ less => absurd less (Nat.not_lt_zero _),
        fun above => absurd above (Nat.lt_irrefl 0)⟩
    exact conditionalLayer_keeps none s _ reading read within
  | succ k ih =>
    rw [conditional] at read
    refine conditionalLayer_keeps ⟨fun shorter _ reading read less => ?_,
      fun _ shorter _ closing => ?_⟩ s _ reading read within
    · exact ih read (Nat.le_of_lt_succ less)
    · exact conditionalLayer_yields shorter (Nat.le_refl _) closing

end Grammar

/-! ## 6. Sources -/

namespace ParseTree

open Grammar

/-- **Nesting is bounded.**  No path down the tree of a source has more than `Nesting.limit` open
levels.  So the rule for conditionals does not recurse more than `Nesting.limit + 1` levels down:
what is read there is read with any rule in its place below, one that stops for good among them.
What stands in quotes does not count. -/
theorem ofSource_nests {source : String} {tree : ParseTree} (read : ofSource source = .ok tree) :
    (∀ path, tree.Path path →
      path.countP (fun node => node.production.opensLevel) ≤ Nesting.limit) ∧
    (∀ beyond : (s : Input) → Outcome 1 s ParseTree,
      conditionalWithin beyond (Nesting.limit + 1) (.ofChars source.toList)
        = conditional (.ofChars source.toList)) ∧
    ∀ before word behind : List Char, before.count '"' % 2 = 0 → Word.isQuoted word →
      (Nesting.excess? (before ++ (word ++ behind)) = none ↔
        Nesting.excess? (before ++ behind) = none) := by
  have within := nesting_ofSource_le read
  refine ⟨(nesting_le_iff_path tree _).mp within, fun beyond => ?_, fun _ _ _ outside quoted =>
    Nesting.excess?_eq_none_iff_of_isQuoted outside quoted⟩
  obtain ⟨reading, atReading, rfl, -⟩ := exists_reading read
  rw [atReading]
  exact conditionalWithin_eq_ok beyond atReading
    ((nesting_le_of_mem (List.mem_singleton_self _)).trans within)

/-- For instance, a group in an argument in a branch opens three levels, and one in quotes none. -/
theorem ofSource_nests_branch : ∃ tree, ofSource "a ? f(\"((\", (1)) : 2" = .ok tree ∧
    tree.nesting ≤ Nesting.limit ∧
    ∀ beyond : (s : Input) → Outcome 1 s ParseTree,
      conditionalWithin beyond (Nesting.limit + 1) (.ofChars "a ? f(\"((\", (1)) : 2".toList)
        = conditional (.ofChars "a ? f(\"((\", (1)) : 2".toList) := by
  have parses : (ofSource "a ? f(\"((\", (1)) : 2").isOk = true := by cbv
  obtain ⟨tree, read⟩ := exists_of_isOk parses
  obtain ⟨paths, reading, -⟩ := ofSource_nests read
  exact ⟨tree, read, (nesting_le_iff_path tree _).mpr paths, reading⟩

end ParseTree
end DecimalExpression
