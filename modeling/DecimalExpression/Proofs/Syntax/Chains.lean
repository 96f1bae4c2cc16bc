import DecimalExpression.Proofs.Syntax.Tokens

/-!
# Chains are read

Each rule is complete where the rules that it is made of are (`RuleComplete`): in front of what may
follow its level it reads a tree of its production to the end, and no further.  Here this is shown
of the three kinds of chains.  A chain is taken apart along its spine, so the loops of the rules
meet the nesting of the trees: a flat chain is a list of links, a chain that nests to the left is
met at its innermost operator first, and one that nests to the right at its outermost.
-/

namespace DecimalExpression
namespace Grammar

open ParseTree

variable {n least : Nat} {start : Input} {outer operand : Production} {follow : List Char}
  {operators : List String}

/-! ## 1. Complete rules

Completeness is stated for one tree at a time: its tokens laid out in front of something that may
follow give a reading, and the tree of that reading has the skeleton of the tree one started from.
The texts of inner nodes are left to a later argument, since they depend on the layout. -/

/-- **An outcome that gives a tree**, up to `rest`. -/
def Gives {s : Input} (outcome : Outcome least s ParseTree) (tree : ParseTree) (rest : List Char) :
    Prop :=
  ∃ reading, outcome = .ok reading ∧ reading.value.skeleton = tree.skeleton ∧
    reading.rest.chars = rest

/-- **A rule that reads all trees of a production**, in front of what may follow them. -/
def RuleComplete (p : Production) (follow : List Char) (rule : Rule n) : Prop :=
  ∀ (tree : ParseTree) (body rest : List Char), Derives p tree → tree.Throughout NodeFits →
    Spelled tree.tokens body → Ends follow rest →
      ∀ (s : Input) (fits : s.size ≤ n), s.chars = body ++ rest → Gives (rule s fits) tree rest

/-- What is read where every stop is final is the same tree. -/
theorem Gives.committed {s : Input} {outcome : Outcome least s ParseTree} {tree : ParseTree}
    {rest : List Char} (gives : Gives outcome tree rest) : Gives (committed outcome) tree rest := by
  obtain ⟨reading, rfl, skeleton, behind⟩ := gives
  exact ⟨reading, rfl, skeleton, behind⟩

/-! ## 2. Flat chains

The links of a flat chain are read one by one, so the induction is on the links.  Behind each
operand either the next operator stands or what may follow the whole chain, and both end the
operand. -/

/-- Links are operators and operands within the limits. -/
structure LinksFit (operand : Production) (operators : List String)
    (links : List (String × ParseTree)) : Prop where
  operators : ∀ link ∈ links, link.1 ∈ operators
  derives : ∀ link ∈ links, Derives operand link.2
  fits : ∀ link ∈ links, link.2.Throughout NodeFits

theorem LinksFit.tail {link : String × ParseTree} {links : List (String × ParseTree)}
    (h : LinksFit operand operators (link :: links)) : LinksFit operand operators links where
  operators := fun l member => h.operators l (List.mem_cons_of_mem _ member)
  derives := fun l member => h.derives l (List.mem_cons_of_mem _ member)
  fits := fun l member => h.fits l (List.mem_cons_of_mem _ member)

/-- Behind an operand stands an operator, or what may follow the chain. -/
theorem ends_of_linkTokens {wider : List Char} (legible : Legible wider operators)
    (within : follow ⊆ wider) {links : List (String × ParseTree)}
    (fit : LinksFit operand operators links) {body rest : List Char}
    (spelled : Spelled (linkTokens links) body) (ends : Ends follow rest) :
    Ends wider (body ++ rest) := by
  cases links with
  | nil =>
    rw [spelled.eq_nil]
    exact ends.mono within
  | cons link links =>
    obtain ⟨operator, operand⟩ := link
    obtain ⟨gap, more, rfl, layout, -⟩ := Spelled.exists_of_cons spelled
    have ends : Ends wider (gap ++ (operator.toList ++ (more ++ rest))) :=
      legible.ends (fit.operators _ List.mem_cons_self) layout
    simpa using ends

/-- **The rest of a flat chain** is read, link by link.  By induction on the links, with the
children that have been read already. -/
theorem flatTail_complete {rule : Rule n} {wider : List Char}
    (complete : RuleComplete operand wider rule)
    (legible : Legible wider operators) (within : follow ⊆ wider)
    (apart : apart follow (operators.map String.toList)) {rest : List Char}
    (ends : Ends follow rest) {fits : start.size ≤ n} (links : List (String × ParseTree)) :
    ∀ (s : Input) (suffix : s.chars <:+ start.chars) (progress : s.size + 1 ≤ start.size)
      (done : Array ParseTree) (body : List Char), LinksFit operand operators links →
      Spelled (linkTokens links) body → s.chars = body ++ rest →
      ∃ reading, flatTail (operators.map String.toList) rule start s suffix progress fits done
          = .ok reading ∧ reading.rest.chars = rest ∧
        reading.value.toList.map skeleton
          = done.toList.map skeleton ++ (linkTrees links).map skeleton := by
  induction links with
  | nil =>
    intro s suffix progress done body fit spelled chars
    rw [spelled.eq_nil, List.nil_append] at chars
    have none := Ends.token?_eq_none (chars ▸ ends) apart
    rw [flatTail, none]
    exact ⟨_, rfl, chars, by simp [linkTrees]⟩
  | cons link links ih =>
    intro s suffix progress done body fit spelled chars
    obtain ⟨operator, right⟩ := link
    obtain ⟨gap, more, rfl, layout, spelled⟩ := Spelled.exists_of_cons spelled
    obtain ⟨atRight, behind, rfl, spelledRight, spelledLinks⟩ := Spelled.exists_of_append spelled
    have derives : Derives operand right := fit.derives _ List.mem_cons_self
    have chars : s.chars = gap ++ (operator.toList ++ (atRight ++ (behind ++ rest))) := by
      rw [chars]
      simp
    obtain ⟨token, read, value, tokenRest⟩ := legible.exists_token?
      (fit.operators _ List.mem_cons_self) chars layout (head?_ne_equal derives spelledRight _)
    have tail := fit.tail
    obtain ⟨reading, gives, skeleton, readingRest⟩ := (complete right atRight (behind ++ rest)
      derives (fit.fits _ List.mem_cons_self) spelledRight
      (ends_of_linkTokens legible within tail spelledLinks ends) token.rest
      (by have := token.progress; omega) tokenRest).committed
    rw [flatTail, read]
    dsimp only
    rw [gives]
    dsimp only
    obtain ⟨final, whole, finalRest, children⟩ := ih reading.rest
      ((reading.suffix.trans token.suffix).trans suffix)
      (by have := token.progress; have := reading.progress; omega)
      ((done.push (tokenTree token.value)).push reading.value) behind tail spelledLinks readingRest
    refine ⟨final, whole, finalRest, ?_⟩
    rw [children, value, linkTrees]
    simp [tokenTree, skeleton]

/-- A production of a flat chain has no other trees. -/
theorem exists_of_flatLevel (level : FlatLevel outer operand operators) {tree : ParseTree}
    (derives : Derives outer tree) :
    ∃ slice first links, tree = ⟨outer, slice, first :: linkTrees links⟩ ∧ Derives operand first ∧
      (∀ link ∈ links, link.1 ∈ operators) ∧ ∀ link ∈ links, Derives operand link.2 := by
  cases derives with
  | layer other => cases level <;> cases other
  | left other => cases level <;> cases other
  | right other => cases level <;> cases other
  | flat other slice links signs atFirst atLinks =>
    cases level <;> cases other <;> exact ⟨slice, _, links, rfl, atFirst, signs, atLinks⟩
  | _ => cases level

/-- **A flat chain is complete.**  The first operand ends at the first operator, or where the chain
ends, and the rest is read behind it. -/
theorem flatChain_complete {rule : Rule n} {wider : List Char}
    (level : FlatLevel outer operand operators) (complete : RuleComplete operand wider rule)
    (legible : Legible wider operators) (within : follow ⊆ wider)
    (apart : apart follow (operators.map String.toList)) :
    RuleComplete outer follow (flatChain outer (operators.map String.toList) rule) := by
  intro tree body rest derives fit spelled ends s fits chars
  obtain ⟨slice, first, links, rfl, atFirst, signs, atLinks⟩ := exists_of_flatLevel level derives
  have linksFit : LinksFit operand operators links :=
    ⟨signs, atLinks, fun link member => fit.child (by simp [mem_linkTrees_of_mem member])⟩
  rw [tokens_flat level] at spelled
  obtain ⟨here, behind, rfl, spelledFirst, spelledLinks⟩ := Spelled.exists_of_append spelled
  rw [List.append_assoc] at chars
  obtain ⟨reading, read, skeleton, readingRest⟩ := complete first here (behind ++ rest) atFirst
    (fit.child List.mem_cons_self) spelledFirst
    (ends_of_linkTokens legible within linksFit spelledLinks ends) s fits chars
  obtain ⟨final, whole, finalRest, children⟩ := flatTail_complete complete legible within apart ends
    links reading.rest reading.suffix reading.progress #[reading.value] behind linksFit spelledLinks
    readingRest
  rw [flatChain, read]
  dsimp only
  rw [whole]
  refine ⟨_, rfl, ?_, finalRest⟩
  have nonempty : final.value.toList ≠ [] := fun empty => by
    rw [empty] at children
    cases children
  refine skeleton_node nonempty ?_
  have first : [reading.value].map ParseTree.skeleton = [first].map ParseTree.skeleton :=
    congrArg (fun t => [t]) skeleton
  rw [children, first]
  rfl

/-! ## 3. Chains that nest to the left

Here the tree is built around what has been read already, while the derivation has its left child
inside.  So the induction is on the derivation, and the statement is on a beginning of the chain:
whatever the loop makes of the rest with this node, the rule makes of the whole.  The limit on
operators is shared between the two. -/

/-- **The start of a chain that nests to the left**: what is read behind a tree of the chain is what
the rest of the chain reads, with this tree as the node so far. -/
theorem leftChain_prefix {rule : Rule n} {wider : List Char}
    (level : LeftLevel outer operand operators) (complete : RuleComplete operand wider rule)
    (legible : Legible wider operators) {tree : ParseTree} (derives : Derives outer tree)
    {s : Input} {fits : s.size ≤ n} : ∀ (body more : List Char), tree.Throughout NodeFits →
      Spelled tree.tokens body → Ends wider more → s.chars = body ++ more →
      ∃ (t : Input) (suffix : t.chars <:+ s.chars) (progress : t.size + 1 ≤ s.size)
        (node : ParseTree), leftChain outer (operators.map String.toList) rule s fits
          = leftTail outer (operators.map String.toList) rule s t suffix progress fits
              tree.nestedOperators node ∧ t.chars = more ∧ node.skeleton = tree.skeleton := by
  induction derives with
  | @layer outer inner layer slice body below =>
    intro chars more fit spelled ends split
    obtain rfl : inner = operand := by cases level <;> cases layer <;> rfl
    rw [tokens_layer layer] at spelled
    obtain ⟨reading, read, same, behind⟩ :=
      complete body chars more below (fit.child List.mem_cons_self) spelled ends s fits split
    have none : nestedOperators ⟨outer, slice, [body]⟩ = 0 := by cases level <;> rfl
    refine ⟨reading.rest, reading.suffix, reading.progress, .wrap outer reading.value, ?_, behind,
      ?_⟩
    · rw [leftChain, read, none]
    · exact skeleton_layer same
  | @left outer operand' operators' other slice left right operator sign atLeft atRight ih =>
    intro chars more fit spelled ends split
    obtain ⟨rfl, rfl⟩ : operand' = operand ∧ operators' = operators := by
      cases level <;> cases other <;> exact ⟨rfl, rfl⟩
    rw [tokens_left level] at spelled
    obtain ⟨here, chars, rfl, spelledLeft, spelled⟩ := Spelled.exists_of_append spelled
    obtain ⟨gap, behind, rfl, layout, spelledRight⟩ := Spelled.exists_of_cons spelled
    have split : s.chars = here ++ (gap ++ (operator.toList ++ (behind ++ more))) := by
      rw [split]
      simp
    obtain ⟨t, suffix, progress, node, read, atRest, same⟩ := ih level here _
      (fit.child List.mem_cons_self) spelledLeft (legible.ends sign layout) split
    obtain ⟨token, tokenRead, value, tokenRest⟩ := legible.exists_token? sign atRest layout
      (head?_ne_equal atRight spelledRight _)
    obtain ⟨reading, gives, sameRight, readingRest⟩ := (complete right behind more atRight
      (fit.child (by simp)) spelledRight ends token.rest
      (by have := token.progress; omega) tokenRest).committed
    have count : nestedOperators ⟨outer, slice, [left, leaf .token operator, right]⟩
        = left.nestedOperators + 1 := by cases level <;> rfl
    -- The operators of the left child are those that were counted before this one.
    have limit : left.nestedOperators + 1 ≤ chainLimit := by
      rw [← count]
      exact fit.here.operators
    refine ⟨reading.rest, (reading.suffix.trans token.suffix).trans suffix,
      by have := token.progress; have := reading.progress; omega,
      ⟨outer, s.slice reading.rest, [node, tokenTree token.value, reading.value]⟩, ?_, readingRest,
      ?_⟩
    · rw [read, leftTail, tokenRead]
      dsimp only
      rw [gives]
      dsimp only
      rw [if_neg (Nat.not_lt.mpr limit), count]
    · refine skeleton_node (List.cons_ne_nil _ _) ?_
      rw [value]
      simp [same, sameRight, tokenTree]
  | flat other | right other => cases level <;> cases other
  | choice | signed | group | call | number | text | reference => cases level

/-- **A chain that nests to the left is complete.** -/
theorem leftChain_complete {rule : Rule n} {wider : List Char}
    (level : LeftLevel outer operand operators) (complete : RuleComplete operand wider rule)
    (legible : Legible wider operators) (within : follow ⊆ wider)
    (apart : apart follow (operators.map String.toList)) :
    RuleComplete outer follow (leftChain outer (operators.map String.toList) rule) := by
  intro tree body rest derives fit spelled ends s fits chars
  obtain ⟨t, suffix, progress, node, read, atRest, same⟩ := leftChain_prefix level complete legible
    derives body rest fit spelled (ends.mono within) chars
  have none := Ends.token?_eq_none (atRest ▸ ends) apart
  rw [read, leftTail, none]
  exact ⟨_, rfl, same, atRest⟩

/-! ## 4. Chains that nest to the right

The operands wait until the last one has been read, and are put around it afterwards.  The induction
is on the derivation again, with the waiting links in the statement. -/

/-- **The rest of a chain that nests to the right** is read inside the nodes of the links that were
there.  By induction on the derivation, with the links that wait; the innermost operand closes them
all. -/
theorem rightTail_complete {rule : Rule n} {wider : List Char} {operator : String}
    (level : RightLevel outer operand operator) (complete : RuleComplete operand wider rule)
    (legible : Legible wider [operator]) (within : follow ⊆ wider)
    (apart : apart follow [operator.toList]) {rest : List Char} (ends : Ends follow rest)
    {tree : ParseTree} (derives : Derives outer tree) {fits : start.size ≤ n} :
    ∀ (here : Input) (suffix : here.chars <:+ start.chars) (progress : here.size ≤ start.size)
      (links : List Link) (body : List Char), tree.Throughout NodeFits →
      Spelled tree.tokens body → here.chars = body ++ rest →
      links.length + tree.nestedOperators ≤ chainLimit →
      ∃ reading node, rightTail outer operator.toList rule start here suffix progress fits links
          = .ok reading ∧ reading.rest.chars = rest ∧ node.skeleton = tree.skeleton ∧
        reading.value = nestRight outer reading.rest links node := by
  induction derives with
  | @layer outer inner layer slice body below =>
    intro here suffix progress links chars fit spelled split _
    obtain rfl : inner = operand := by cases level <;> cases layer <;> rfl
    rw [tokens_layer layer] at spelled
    obtain ⟨reading, read, same, behind⟩ := complete body chars rest below
      (fit.child List.mem_cons_self) spelled (ends.mono within) here (by omega) split
    have none := Ends.token?_eq_none (behind ▸ ends) apart
    rw [rightTail, read]
    dsimp only
    rw [none]
    refine ⟨_, ⟨outer, here.slice reading.rest, [reading.value]⟩, rfl, behind, ?_, rfl⟩
    exact skeleton_layer same
  | @right outer operand' operator' other slice left right atLeft atRight _ ih =>
    intro here suffix progress links chars fit spelled split limit
    obtain ⟨rfl, rfl⟩ : operand' = operand ∧ operator' = operator := by
      cases level <;> cases other <;> exact ⟨rfl, rfl⟩
    rw [tokens_right level] at spelled
    obtain ⟨first, chars, rfl, spelledLeft, spelled⟩ := Spelled.exists_of_append spelled
    obtain ⟨gap, behind, rfl, layout, spelledRight⟩ := Spelled.exists_of_cons spelled
    have member : operator' ∈ [operator'] := List.mem_singleton_self _
    have split : here.chars = first ++ (gap ++ (operator'.toList ++ (behind ++ rest))) := by
      rw [split]
      simp
    obtain ⟨reading, read, same, readingRest⟩ := complete left first _ atLeft
      (fit.child List.mem_cons_self) spelledLeft (legible.ends member layout) here (by omega) split
    obtain ⟨token, tokenRead, value, tokenRest⟩ := legible.exists_token? member readingRest layout
      (head?_ne_equal atRight spelledRight _)
    have count : nestedOperators ⟨outer, slice, [left, leaf .token operator', right]⟩
        = right.nestedOperators + 1 := by cases level <;> rfl
    -- The links so far and the operators to come share one limit, and a link moves between them.
    rw [count] at limit
    obtain ⟨final, node, whole, finalRest, sameNode, nested⟩ := ih level token.rest
      ((token.suffix.trans reading.suffix).trans suffix)
      (by have := token.progress; have := reading.progress; omega)
      (⟨here, reading.value, token.value⟩ :: links) behind (fit.child (by simp)) spelledRight
      tokenRest (by rw [List.length_cons]; omega)
    have tokenRead : reading.rest.token? [operator'.toList] = some token := tokenRead
    rw [rightTail, read]
    dsimp only
    rw [tokenRead]
    dsimp only
    rw [if_neg (by omega)]
    refine ⟨final, ⟨outer, here.slice final.rest, [reading.value, tokenTree token.value, node]⟩,
      whole, finalRest, ?_, nested⟩
    refine skeleton_node (List.cons_ne_nil _ _) ?_
    rw [value]
    simp [same, sameNode, tokenTree]
  | flat other | left other => cases level <;> cases other
  | choice | signed | group | call | number | text | reference => cases level

/-- **A chain that nests to the right is complete.** -/
theorem rightChain_complete {rule : Rule n} {wider : List Char} {operator : String}
    (level : RightLevel outer operand operator) (complete : RuleComplete operand wider rule)
    (legible : Legible wider [operator]) (within : follow ⊆ wider)
    (apart : apart follow [operator.toList]) :
    RuleComplete outer follow (rightChain outer operator.toList rule) := by
  intro tree body rest derives fit spelled ends s fits chars
  obtain ⟨reading, node, read, behind, same, value⟩ := rightTail_complete level complete legible
    within apart ends derives s s.suffix_self (Nat.le_refl _) [] body fit spelled chars
    (by have := fit.here.operators; simpa using this)
  exact ⟨reading, read, by rw [value]; exact same, behind⟩

end Grammar
end DecimalExpression
