import DecimalExpression.Proofs.Syntax.Layout
import DecimalExpression.Proofs.Syntax.Places
import DecimalExpression.Syntax.Source

/-!
# What is read is a sentence

Whatever a rule of the grammar reads is a tree that the grammar derives, the text of the tree is the
slice that was read, trimmed, and the tree stands in the input, behind layout (`Sound`).  Each rule
is sound where the rules that it is made of are, and `conditional_sound` ties the knot by induction
on the length of the input.

A layer has the text of its only child (`Labelled`), all the way down.  So the text of a tree is the
text of the first node with a choice (`Labelled.text_entry`).  Every node is within the limits and
has its tokens laid out in its text (`Part`).  So every number literal in a tree that is read has a
decimal (`ParseTree.ofSource_readable`), and the tokens of the tree are laid out in the source
(`ParseTree.ofSource_laidOut`).
-/

namespace DecimalExpression

/-! ## 1. Tokens

Tokens are tried in order, so what is read is one of them; that it is the longest is not needed
here. -/

namespace Lexeme

/-- What is read as a token is one of the tokens. -/
theorem text_mem_of_token? {source : List Char} {tokens : List (List Char)}
    {lexeme : Lexeme source} (read : token? source tokens = some lexeme) :
    lexeme.text ∈ tokens := by
  induction tokens with
  | nil => cases read
  | cons token tokens ih =>
    cases token with
    | nil => exact List.mem_cons_of_mem _ (ih read)
    | cons t token =>
      rw [token?] at read
      split at read
      · cases read
        exact List.mem_cons_self
      · exact List.mem_cons_of_mem _ (ih read)

end Lexeme

theorem Input.value_mem_of_token? {s : Input} {operators : List String}
    {reading : Reading 1 s String}
    (read : s.token? (operators.map String.toList) = some reading) : reading.value ∈ operators := by
  rw [Input.token?, Option.map_eq_some_iff] at read
  obtain ⟨lexeme, read, rfl⟩ := read
  obtain ⟨operator, member, same⟩ := List.mem_map.mp (Lexeme.text_mem_of_token? read)
  show String.ofList lexeme.text ∈ operators
  rw [← same, String.ofList_toList]
  exact member

/-! ## 2. Labels and limits

Two properties of nodes that are carried along with derivations.  A layer has the text of its only
child, and a node is within the limits for signs, operators and literals. -/

namespace ParseTree

/-- **A layer has the text of its only child**, all the way down. -/
inductive Labelled : ParseTree → Prop
  | node (tree : ParseTree) (single : ∀ only, tree.children = [only] → only.text = tree.text)
    (below : ∀ child ∈ tree.children, Labelled child) : Labelled tree

theorem labelled_leaf (production : Production) (slice : String) :
    Labelled (leaf production slice) :=
  .node _ nofun nofun

theorem labelled_wrap {production : Production} {body : ParseTree} (h : body.Labelled) :
    Labelled (wrap production body) := by
  refine .node _ (fun only same => ?_) fun child member => ?_
  · cases same
    rfl
  · cases List.mem_singleton.mp member
    exact h

theorem labelled_of_several {production : Production} {slice : String}
    {first second : ParseTree} {more : List ParseTree}
    (below : ∀ child ∈ first :: second :: more, child.Labelled) :
    Labelled ⟨production, slice, first :: second :: more⟩ :=
  .node _ nofun below

/-- **The first node with a choice** has the text of the tree. -/
theorem Labelled.text_entry {tree : ParseTree} (h : tree.Labelled) :
    tree.entry.text = tree.text := by
  induction h with
  | node tree single below ih =>
    obtain ⟨production, slice, children⟩ := tree
    match children with
    | [only] =>
      rw [entry, ih only List.mem_cons_self]
      exact single only rfl
    | [] => rfl
    | _ :: _ :: _ => rfl

/-- **A readable node**: a number literal has a decimal within the limit. -/
def Readable (tree : ParseTree) : Prop :=
  tree.production = .number → ∃ number, Decimal.ofNumeral tree.text = .ok number

/-- A derived node with children is no number literal. -/
theorem Derives.ne_number {p : Production} {slice : String} {first : ParseTree}
    {more : List ParseTree} (h : Derives p ⟨p, slice, first :: more⟩) : p ≠ .number := by
  rintro rfl
  cases h with
  | layer level => cases level
  | flat level => cases level
  | left level => cases level
  | right level => cases level

/-- A derived node with children fits where its signs and operators are not too many. -/
theorem Derives.fits {p : Production} {slice : String} {first : ParseTree}
    {more : List ParseTree} (h : Derives p ⟨p, slice, first :: more⟩)
    (signs : signs ⟨p, slice, first :: more⟩ ≤ Nesting.limit)
    (operators : nestedOperators ⟨p, slice, first :: more⟩ ≤ Grammar.chainLimit) :
    NodeFits ⟨p, slice, first :: more⟩ :=
  ⟨fun number => absurd number h.ne_number, signs, operators⟩

/-- A derived layer fits. -/
theorem Derives.fits_layer {p : Production} {slice : String} {body : ParseTree}
    (h : Derives p ⟨p, slice, [body]⟩) : NodeFits ⟨p, slice, [body]⟩ :=
  h.fits (by cases p <;> exact Nat.zero_le _) (by cases p <;> exact Nat.zero_le _)

/-- A leaf fits where its literal is in range. -/
theorem fits_leaf {p : Production} {slice : String} (readable : Readable (leaf p slice)) :
    NodeFits (leaf p slice) :=
  ⟨readable, by cases p <;> exact Nat.zero_le _, by cases p <;> exact Nat.zero_le _⟩

/-- Only signed operands have signs. -/
theorem signs_of_ne_unary {p : Production} (other : p ≠ .unary) (slice : String)
    (children : List ParseTree) : signs ⟨p, slice, children⟩ = 0 := by
  rw [signs.eq_def]
  split
  · rename_i whole
    cases whole
    exact absurd rfl other
  · rfl

/-- **Trees in line are laid out** by their texts. -/
theorem StandInLine.laidOut {trees : List ParseTree} {here rest : List Char}
    (h : StandInLine trees here rest) :
    ∃ part, here = part ++ rest ∧ LaidOut (trees.map ParseTree.text) part := by
  induction trees generalizing here with
  | nil =>
    cases h
    exact ⟨[], rfl, laidOut_nil (List.forall_mem_nil _)⟩
  | cons tree trees ih =>
    obtain ⟨_, ⟨gap, start, rfl, layout, stands⟩, others⟩ := h
    obtain ⟨part, rfl, laid⟩ := ih others
    refine ⟨gap ++ (tree.text.toList ++ part), by rw [stands.start_eq]; simp, ?_⟩
    exact (laidOut_nil layout).append ((laidOut_token _).append laid)

end ParseTree

/-! ## 3. Chains

`Sound` says all that is known of a reading: the tree is derived, it is in order down to its leaves,
and it stands where it was read.  A chain builds its node while it reads on.  So the inductions are
on the size of what is left, with the node so far as part of the statement: for flat chains the
children that were read, for chains to the left the node itself, for chains to the right the links
that still wait for their operand. -/

namespace Grammar

open ParseTree

variable {n least : Nat} {start : Input} {outer operand : Production}

/-- **A part of a tree** is in order: labelled layer by layer alike, with a solid text, within the
limits, and written down node by node. -/
structure Part (tree : ParseTree) : Prop where
  labelled : tree.Labelled
  solid : Text.isSolid tree.text.toList
  fits : tree.Throughout NodeFits
  written : tree.Throughout Written

/-- A derived layer around a part is one. -/
theorem Part.wrap {body : ParseTree} (part : Part body)
    (derives : Derives outer (.wrap outer body)) :
    Part (.wrap outer body) where
  labelled := labelled_wrap part.labelled
  solid := part.solid
  fits := .node _ derives.fits_layer (List.forall_mem_singleton.mpr part.fits)
  written := by
    have items : items (.wrap outer body) = [body] := by cases outer <;> rfl
    refine .node _ (fun _ => ?_) (List.forall_mem_singleton.mpr part.written)
    rw [items]
    exact laidOut_token body.text

/-- **A sound reading**: its tree is derived, its text is the slice that was read, and it stands
where it was read, behind layout. -/
structure Sound {s : Input} (p : Production) (reading : Reading least s ParseTree) : Prop
    extends Part reading.value where
  derives : Derives p reading.value
  text_eq : reading.value.text = s.slice reading.rest
  stands : reading.value.StandsBehindLayout s.chars reading.rest.chars

/-- A reading with the same tree and the same rest is as sound. -/
theorem Sound.of_eq {s : Input} {p : Production} {a b : Reading least s ParseTree}
    (sound : Sound p a) (rest : a.rest = b.rest) (value : b.value = a.value) : Sound p b where
  toPart := value ▸ sound.toPart
  derives := value ▸ sound.derives
  text_eq := by rw [value, sound.text_eq, rest]
  stands := by
    rw [value, ← rest]
    exact sound.stands

/-- A layer around what a sound reading gives is sound, if it is derived. -/
theorem Sound.around {s : Input} {inner : Production} {a b : Reading least s ParseTree}
    (sound : Sound inner a) (derives : Derives outer (.wrap outer a.value))
    (rest : b.rest = a.rest) (value : b.value = .wrap outer a.value) : Sound outer b where
  toPart := value ▸ sound.toPart.wrap derives
  derives := value ▸ derives
  text_eq := by
    rw [value, rest]
    exact sound.text_eq
  stands := by
    rw [value, rest]
    exact sound.stands.wrap outer

theorem Sound.wrap {s : Input} {inner : Production} {reading : Reading least s ParseTree}
    (sound : Sound inner reading) (level : Layer outer inner) :
    Sound outer (reading.give (.wrap outer reading.value)) :=
  sound.around (.layer level _ sound.derives) rfl rfl

/-- **A node with several children** is a sound reading where its items stand in line, and its
children behind each other. -/
theorem Sound.ofItems {s : Input} {p : Production} {reading : Reading least s ParseTree}
    {first second : ParseTree} {more others : List ParseTree} {behind : List Char}
    (value : reading.value = ⟨p, s.slice reading.rest, first :: second :: more⟩)
    (derives : Derives p ⟨p, s.slice reading.rest, first :: second :: more⟩)
    (fits : NodeFits ⟨p, s.slice reading.rest, first :: second :: more⟩)
    (parts : ∀ child ∈ first :: second :: more, Part child)
    (atFirst : first.StandsBehindLayout s.chars behind)
    (stand : StandBehind (second :: more) behind reading.rest.chars)
    (items : items ⟨p, s.slice reading.rest, first :: second :: more⟩ = first :: others)
    (line : StandInLine others behind reading.rest.chars) : Sound p reading := by
  obtain ⟨solid, stands, starts⟩ :=
    stands_node p atFirst stand fun child member => (parts child member).solid
  have written : Written ⟨p, s.slice reading.rest, first :: second :: more⟩ := by
    intro _
    obtain ⟨between, rfl, laid⟩ := line.laidOut
    rw [← List.append_assoc, List.append_cancel_right_eq] at starts
    rw [items, starts]
    exact (laidOut_token first.text).append laid
  have part : Part ⟨p, s.slice reading.rest, first :: second :: more⟩ :=
    ⟨labelled_of_several fun child member => (parts child member).labelled, solid,
      .node _ fits fun child member => (parts child member).fits,
      .node _ written fun child member => (parts child member).written⟩
  rw [← value] at derives stands part
  exact ⟨part, derives, by rw [value], stands⟩

/-- **A node with several children**, no call, is a sound reading where its children stand in
line. -/
theorem Sound.node {s : Input} {p : Production} {reading : Reading least s ParseTree}
    {first second : ParseTree} {more : List ParseTree} {behind : List Char}
    (value : reading.value = ⟨p, s.slice reading.rest, first :: second :: more⟩)
    (derives : Derives p ⟨p, s.slice reading.rest, first :: second :: more⟩)
    (fits : NodeFits ⟨p, s.slice reading.rest, first :: second :: more⟩)
    (parts : ∀ child ∈ first :: second :: more, Part child)
    (atFirst : first.StandsBehindLayout s.chars behind) (noCall : p ≠ .call)
    (line : StandInLine (second :: more) behind reading.rest.chars) : Sound p reading :=
  .ofItems value derives fits parts atFirst line.standBehind (items_of_ne_call noCall _ _) line

/-- A token without blanks around it. -/
theorem part_token {slice : String} (solid : Text.isSolid slice.toList) : Part (tokenTree slice) :=
  ⟨labelled_leaf _ _, solid, .node _ ⟨nofun, Nat.zero_le _, Nat.zero_le _⟩ nofun,
    .node _ (fun several => absurd rfl several) nofun⟩

theorem part_operator {operator : String} (member : operator ∈ levelOperators) :
    Part (tokenTree operator) := by
  have solid : ∀ operator ∈ levelOperators, Text.isSolid operator.toList := by decide
  exact part_token (solid operator member)

/-- A rule all whose readings are sound. -/
def RuleSound (p : Production) (rule : Rule n) : Prop :=
  ∀ (s : Input) (fits : s.size ≤ n) (reading : Reading 1 s ParseTree),
    rule s fits = .ok reading → Sound p reading

/-- A rule for shorter inputs all whose readings are sound conditionals. -/
def InnerSound (inner : InnerRule n) : Prop :=
  ∀ (s : Input) (fits : s.size < n) (reading : Reading 1 s ParseTree),
    inner s fits = .ok reading → Sound .conditional reading

theorem committed_eq_ok {s : Input} {α : Type} {outcome : Outcome least s α}
    {reading : Reading least s α}
    (read : committed outcome = .ok reading) : outcome = .ok reading := by
  cases outcome with
  | error stop => cases read
  | ok found => exact read

/-- Links are operators and sound operands. -/
structure LinksSound (operand : Production) (operators : List String)
    (links : List (String × ParseTree)) : Prop where
  operators : ∀ link ∈ links, link.1 ∈ operators
  derives : ∀ link ∈ links, Derives operand link.2
  parts : ∀ link ∈ links, Part link.2

/-- **The rest of a flat chain** is links, behind the children that were there.  By recursion on
what is left; a link more is an operator, which is one of the level, and a sound operand. -/
theorem flatTail_sound {rule : Rule n} (sound : RuleSound operand rule) {operators : List String}
    {s : Input} {suffix : s.chars <:+ start.chars} {progress : s.size + 1 ≤ start.size}
    {fits : start.size ≤ n} {done : Array ParseTree} {reading : Reading 1 start (Array ParseTree)}
    (read : flatTail (operators.map String.toList) rule start s suffix progress fits done
      = .ok reading) :
    ∃ links, LinksSound operand operators links ∧
      reading.value.toList = done.toList ++ linkTrees links ∧
      StandInLine (linkTrees links) s.chars reading.rest.chars ∧
      (links = [] → reading.rest = s) := by
  rw [flatTail] at read
  split at read
  · cases read
    exact ⟨[], ⟨List.forall_mem_nil _, List.forall_mem_nil _, List.forall_mem_nil _⟩,
      by simp [linkTrees], rfl, fun _ => rfl⟩
  · rename_i operator found
    split at read
    · cases read
    · rename_i right atRight
      have first := sound _ _ _ (committed_eq_ok atRight)
      have shorter : right.rest.size < s.size := Nat.lt_trans right.progress operator.progress
      obtain ⟨links, more, children, stand, -⟩ := flatTail_sound sound read
      refine ⟨(operator.value, right.value) :: links, ⟨?_, ?_, ?_⟩, ?_,
        .cons (stands_of_token? found) (.cons first.stands stand),
        fun none => absurd none (List.cons_ne_nil _ _)⟩
      · exact List.forall_mem_cons.mpr ⟨Input.value_mem_of_token? found, more.operators⟩
      · exact List.forall_mem_cons.mpr ⟨first.derives, more.derives⟩
      · exact List.forall_mem_cons.mpr ⟨first.toPart, more.parts⟩
      · rw [children]
        simp [linkTrees, tokenTree]
termination_by s.size

theorem part_linkTrees {operators : List String} {links : List (String × ParseTree)}
    (sound : LinksSound operand operators links) (level : FlatLevel outer operand operators) :
    ∀ child ∈ linkTrees links, Part child := by
  intro child member
  obtain ⟨link, among, rfl | rfl⟩ := mem_linkTrees member
  · exact part_operator (level.mem_levelOperators _ (sound.operators link among))
  · exact sound.parts link among

/-- **A flat chain is sound.**  The node has the first operand and the links behind it as children,
and the slice that they cover. -/
theorem flatChain_sound {rule : Rule n} {operators : List String}
    (level : FlatLevel outer operand operators) (sound : RuleSound operand rule) :
    RuleSound outer (flatChain outer (operators.map String.toList) rule) := by
  intro s fits reading read
  rw [flatChain] at read
  split at read
  · cases read
  · rename_i first atFirst
    have firstSound := sound _ _ _ atFirst
    split at read
    · cases read
    · rename_i children atTail
      cases read
      obtain ⟨links, linksSound, same, line, unmoved⟩ := flatTail_sound sound atTail
      have same : children.value.toList = first.value :: linkTrees links := same
      have derives : Derives outer ⟨outer, s.slice children.rest, first.value :: linkTrees links⟩ :=
        .flat level _ links linksSound.operators firstSound.derives linksSound.derives
      have parts : ∀ child ∈ first.value :: linkTrees links, Part child :=
        List.forall_mem_cons.mpr
          ⟨firstSound.toPart, part_linkTrees linksSound level⟩
      rw [same]
      cases links with
      | nil =>
        -- A chain of one operand is a layer around it.
        have slice : s.slice children.rest = first.value.text := by
          rw [unmoved rfl, firstSound.text_eq]
        rw [slice] at derives ⊢
        exact firstSound.around derives (unmoved rfl) rfl
      | cons link links =>
        have fits := derives.fits (by cases level <;> exact Nat.zero_le _)
          (by cases level <;> exact Nat.zero_le _)
        exact .node rfl derives fits parts firstSound.stands (by cases level <;> decide) line

/-- **The rest of a chain that nests to the left** builds sound nodes around sound ones.  By
recursion on what is left: behind an operator the node so far becomes the left child of the next
one. -/
theorem leftTail_sound {rule : Rule n} (sound : RuleSound operand rule) {operators : List String}
    (level : LeftLevel outer operand operators) {s : Input} {suffix : s.chars <:+ start.chars}
    {progress : s.size + 1 ≤ start.size} {fits : start.size ≤ n} {count : Nat} {node : ParseTree}
    (nodeSound : Sound outer (⟨node, s, suffix, progress⟩ : Reading 1 start ParseTree))
    (counted : node.nestedOperators = count) {reading : Reading 1 start ParseTree}
    (read : leftTail outer (operators.map String.toList) rule start s suffix progress fits count
      node = .ok reading) : Sound outer reading := by
  rw [leftTail] at read
  split at read
  · cases read
    exact nodeSound
  · rename_i operator found
    split at read
    · cases read
    · rename_i right atRight
      have first := sound _ _ _ (committed_eq_ok atRight)
      split at read
      · cases read
      · rename_i withinLimit
        have shorter : right.rest.size < s.size := Nat.lt_trans right.progress operator.progress
        have sign := Input.value_mem_of_token? found
        have parts : ∀ child ∈ [node, tokenTree operator.value, right.value], Part child :=
          List.forall_mem_cons.mpr ⟨nodeSound.toPart, List.forall_mem_cons.mpr
            ⟨part_operator (level.mem_levelOperators _ sign),
              List.forall_mem_singleton.mpr first.toPart⟩⟩
        have derives := Derives.left level (start.slice right.rest) sign nodeSound.derives
          first.derives
        have operators : nestedOperators ⟨outer, start.slice right.rest,
            [node, leaf .token operator.value, right.value]⟩ = count + 1 := by
          cases level <;> rw [nestedOperators, counted]
        have fits := derives.fits (by cases level <;> exact Nat.zero_le _)
          (operators ▸ Nat.not_lt.mp withinLimit)
        exact leftTail_sound sound level
          (.node rfl derives fits parts nodeSound.stands (by cases level <;> decide)
            (.cons (stands_of_token? found) (.cons first.stands rfl))) operators read
termination_by s.size

/-- **A chain that nests to the left is sound.** -/
theorem leftChain_sound {rule : Rule n} {operators : List String}
    (level : LeftLevel outer operand operators) (layer : Layer outer operand)
    (sound : RuleSound operand rule) :
    RuleSound outer (leftChain outer (operators.map String.toList) rule) := by
  intro s fits reading read
  rw [leftChain] at read
  split at read
  · cases read
  · rename_i first atFirst
    have none : (ParseTree.wrap outer first.value).nestedOperators = 0 := by cases level <;> rfl
    exact leftTail_sound sound level ((sound _ _ _ atFirst).wrap layer) none read

/-- **The rest of a chain that nests to the right** is a sound node from here, inside the nodes of
the links that were there. -/
theorem rightTail_sound {rule : Rule n} (sound : RuleSound operand rule) {operator : String}
    (level : RightLevel outer operand operator) (layer : Layer outer operand) {here : Input}
    {suffix : here.chars <:+ start.chars} {progress : here.size ≤ start.size}
    {fits : start.size ≤ n} {links : List Link} {reading : Reading 1 start ParseTree}
    (read : rightTail outer operator.toList rule start here suffix progress fits links
      = .ok reading) (fewer : links.length ≤ chainLimit) :
    ∃ inner : Reading 1 here ParseTree, Sound outer inner ∧ inner.rest = reading.rest ∧
      reading.value = nestRight outer reading.rest links inner.value ∧
      inner.value.nestedOperators + links.length ≤ chainLimit := by
  rw [rightTail] at read
  split at read
  · cases read
  · rename_i last atLast
    have lastSound := sound _ _ _ atLast
    split at read
    · cases read
      refine ⟨last.give (.wrap outer last.value), lastSound.wrap layer, rfl, ?_, ?_⟩
      · rw [ParseTree.wrap, lastSound.text_eq]
        rfl
      · have none : (ParseTree.wrap outer last.value).nestedOperators = 0 := by cases level <;> rfl
        rw [Reading.give, none, Nat.zero_add]
        exact fewer
    · rename_i token found
      split at read
      · cases read
      · rename_i withinLimit
        have shorter : token.rest.size < here.size := Nat.lt_trans token.progress last.progress
        obtain ⟨inner, innerSound, same, value, operators⟩ :=
          rightTail_sound sound level layer read (Nat.not_le.mp withinLimit)
        rw [List.length_cons] at operators
        have counted : ∀ slice sign right, nestedOperators ⟨outer, slice, [last.value, sign, right]⟩
            = right.nestedOperators + 1 := by
          intro slice sign right
          cases level <;> rw [nestedOperators]
        have noSigns : outer ≠ .unary := by cases level <;> decide
        have noCall : outer ≠ .call := by cases level <;> decide
        have member : token.value ∈ [operator] := Input.value_mem_of_token? found
        cases List.mem_singleton.mp member
        have parts : ∀ child ∈ [last.value, tokenTree token.value, inner.value], Part child :=
          List.forall_mem_cons.mpr ⟨lastSound.toPart, List.forall_mem_cons.mpr
            ⟨part_operator level.mem_levelOperators,
              List.forall_mem_singleton.mpr innerSound.toPart⟩⟩
        have line : StandInLine [tokenTree token.value, inner.value] last.rest.chars
            reading.rest.chars :=
          .cons (stands_of_token? found) (.cons (same ▸ innerSound.stands) rfl)
        have derives := Derives.right level (here.slice reading.rest) lastSound.derives
          innerSound.derives
        have fits := derives.fits (by rw [signs_of_ne_unary noSigns]; exact Nat.zero_le _)
          (by rw [counted]; omega)
        refine ⟨⟨⟨outer, here.slice reading.rest, [last.value, tokenTree token.value, inner.value]⟩,
          reading.rest, ?_, ?_⟩, ?_, rfl, value, ?_⟩
        · rw [← same]
          exact inner.suffix.trans (token.suffix.trans last.suffix)
        · have := inner.progress
          rw [same] at this
          omega
        · exact .node rfl derives fits parts lastSound.stands noCall line
        · show nestedOperators ⟨outer, _,
            [last.value, leaf .token token.value, inner.value]⟩ + _ ≤ _
          rw [counted]
          omega
termination_by here.size

/-- **A chain that nests to the right is sound.** -/
theorem rightChain_sound {rule : Rule n} {operator : String}
    (level : RightLevel outer operand operator) (layer : Layer outer operand)
    (sound : RuleSound operand rule) :
    RuleSound outer (rightChain outer operator.toList rule) := by
  intro s fits reading read
  rw [rightChain] at read
  obtain ⟨inner, innerSound, rest, value, -⟩ :=
    rightTail_sound sound level layer read (Nat.zero_le _)
  exact innerSound.of_eq rest value

/-! ## 4. Operands

Rules for operands, from the innermost outwards.  Conditionals inside groups and calls are read by
the rule for shorter inputs, which is assumed to be sound. -/

/-- A token that has to stand here is that token, behind layout. -/
theorem expectToken_sound {s : Input} {token : String} {reading : Reading 1 s String}
    (read : expectToken s token.toList = .ok reading) :
    reading.value = token ∧
      (tokenTree reading.value).StandsBehindLayout s.chars reading.rest.chars := by
  rw [expectToken] at read
  split at read
  · rename_i found atToken
    cases read
    have member : reading.value ∈ [token] := Input.value_mem_of_token? atToken
    exact ⟨List.mem_singleton.mp member, stands_of_token? atToken⟩
  · cases read

/-- **A group is sound.**  Three children, of which the one inside is sound by the assumption on
shorter inputs. -/
theorem group_sound {inner : InnerRule n} (sound : InnerSound inner) {s : Input}
    {fits : s.size ≤ n} {opening : Reading 1 s String} (parenthesis : opening.value = "(")
    (atOpening : (tokenTree opening.value).StandsBehindLayout s.chars opening.rest.chars)
    {reading : Reading 1 s ParseTree} (read : group inner s fits opening = .ok reading) :
    Sound .group reading := by
  rw [group] at read
  split at read
  · cases read
  · rename_i body atBody
    have bodySound := sound _ _ _ (committed_eq_ok atBody)
    split at read
    · cases read
    · rename_i closing found
      obtain ⟨closed, atClosing⟩ : closing.value = ")" ∧ _ := expectToken_sound found
      cases read
      rw [parenthesis] at atOpening ⊢
      rw [closed] at atClosing ⊢
      have parts : ∀ child ∈ [tokenTree "(", body.value, tokenTree ")"], Part child :=
        List.forall_mem_cons.mpr ⟨part_token (by decide), List.forall_mem_cons.mpr
          ⟨bodySound.toPart, List.forall_mem_singleton.mpr (part_token (by decide))⟩⟩
      have derives := Derives.group (s.slice closing.rest) bodySound.derives
      exact .node rfl derives (derives.fits (Nat.zero_le _) (Nat.zero_le _)) parts atOpening
        (by decide) (.cons bodySound.stands (.cons atClosing rfl))

/-- **More arguments** are conditionals, behind the ones that were there.  By recursion on what is
left, up to where no comma follows. -/
theorem moreArguments_sound {inner : InnerRule n} (sound : InnerSound inner) {s : Input}
    {suffix : s.chars <:+ start.chars} {progress : s.size ≤ start.size} {fits : start.size < n}
    {done : Array ParseTree} {reading : Reading 0 start (Array ParseTree)}
    (read : moreArguments inner start s suffix progress fits done = .ok reading) :
    ∃ more, reading.value.toList = done.toList ++ more ∧
      (∀ a ∈ more, Derives .conditional a ∧ Part a) ∧
      StandBehind more s.chars reading.rest.chars ∧
      StandInLine (moreItems more) s.chars reading.rest.chars := by
  rw [moreArguments] at read
  split at read
  · cases read
    exact ⟨[], (List.append_nil _).symm, List.forall_mem_nil _, rfl, rfl⟩
  · rename_i comma found
    split at read
    · split at read
      · cases read
      · cases read
        exact ⟨[], (List.append_nil _).symm, List.forall_mem_nil _, rfl, rfl⟩
    · rename_i argument atArgument
      have argumentSound := sound _ _ _ atArgument
      have member : comma.value ∈ [","] := Input.value_mem_of_token? found
      have atComma := stands_of_token? found
      rw [List.mem_singleton.mp member] at atComma
      have shorter : argument.rest.size < s.size := Nat.lt_trans argument.progress comma.progress
      obtain ⟨more, children, each, stand, line⟩ := moreArguments_sound sound read
      refine ⟨argument.value :: more, ?_, List.forall_mem_cons.mpr
        ⟨⟨argumentSound.derives, argumentSound.toPart⟩, each⟩,
        .consBehindComma atComma argumentSound.stands stand,
        .cons atComma (.cons argumentSound.stands line)⟩
      rw [children, Array.toList_push, List.append_assoc]
      rfl
termination_by s.size

theorem arguments_sound {inner : InnerRule n} (sound : InnerSound inner) {s : Input}
    {fits : s.size < n} {reading : Reading 0 s (Array ParseTree)}
    (read : arguments inner s fits = .ok reading) :
    (∀ a ∈ reading.value.toList, Derives .conditional a ∧ Part a) ∧
      StandBehind reading.value.toList s.chars reading.rest.chars ∧
      StandInLine (callItems reading.value.toList) s.chars reading.rest.chars := by
  rw [arguments] at read
  split at read
  · split at read
    · cases read
    · cases read
      exact ⟨List.forall_mem_nil _, rfl, rfl⟩
  · rename_i first atFirst
    have firstSound := sound _ _ _ atFirst
    obtain ⟨more, children, each, stand, line⟩ := moreArguments_sound sound read
    have children : reading.value.toList = first.value :: more := children
    rw [children]
    exact ⟨List.forall_mem_cons.mpr ⟨⟨firstSound.derives, firstSound.toPart⟩, each⟩,
      .cons firstSound.stands stand, .cons firstSound.stands line⟩

/-- **A call is sound.**  The name, the parentheses and the arguments are the children, and the
commas between them are kept by none. -/
theorem call_sound {inner : InnerRule n} (sound : InnerSound inner) {s : Input}
    {fits : s.size ≤ n} {name : Reading 1 s String} {opening : Reading 1 name.rest String}
    (word : Word.isName name.value.toList) (solid : Text.isSolid name.value.toList)
    (atName : (tokenTree name.value).StandsBehindLayout s.chars name.rest.chars)
    (parenthesis : opening.value = "(")
    (atOpening : (tokenTree opening.value).StandsBehindLayout name.rest.chars opening.rest.chars)
    {reading : Reading 1 s ParseTree} (read : call inner s fits name opening = .ok reading) :
    Sound .call reading := by
  rw [call] at read
  split at read
  · cases read
  · rename_i args atArguments
    obtain ⟨each, stand, line⟩ := arguments_sound sound atArguments
    split at read
    · cases read
    · rename_i closing found
      obtain ⟨closed, atClosing⟩ : closing.value = ")" ∧ _ := expectToken_sound found
      cases read
      rw [parenthesis] at atOpening ⊢
      rw [closed] at atClosing ⊢
      have parts : ∀ child ∈ tokenTree name.value :: tokenTree "(" ::
          (args.value.toList ++ [tokenTree ")"]), Part child := by
        simp only [List.forall_mem_cons, List.forall_mem_append]
        exact ⟨part_token solid, part_token (by decide), fun a member => (each a member).2,
          part_token (by decide), List.forall_mem_nil _⟩
      have derives := Derives.call (s.slice closing.rest) word _ fun a member => (each a member).1
      have line : StandInLine (tokenTree "(" :: (callItems args.value.toList ++ [tokenTree ")"]))
          name.rest.chars closing.rest.chars :=
        .cons atOpening (line.append (.cons atClosing rfl))
      exact .ofItems rfl derives (derives.fits (Nat.zero_le _) (Nat.zero_le _)) parts atName
        (.cons atOpening (stand.append (.cons atClosing rfl)))
        (by rw [items, argumentItems_append]) line

/-- A leaf without blanks around it is sound. -/
theorem leaf_sound {s : Input} {production : Production} {lexeme : Lexeme s.chars}
    (derives : Derives production (.leaf production (String.ofList lexeme.text)))
    (readable : Readable (.leaf production (String.ofList lexeme.text)))
    (trimmed : Text.trim lexeme.text = lexeme.text) :
    Sound production ((s.take lexeme).give (.leaf production (String.ofList lexeme.text))) where
  labelled := labelled_leaf _ _
  solid := by
    show Text.isSolid (String.ofList lexeme.text).toList
    rw [String.toList_ofList, ← trimmed]
    exact Text.isSolid_trim (trimmed.symm ▸ lexeme.nonempty)
  fits := .node _ (fits_leaf readable) nofun
  written := .node _ (fun several => absurd rfl several) nofun
  derives := derives
  text_eq := (Input.slice_take trimmed).symm
  stands := stands_take lexeme production

/-- **A bare operand** is one of what a primary consists of.  The alternatives are gone through in
order, and each gives a node of its own production. -/
theorem bareOperand_sound {inner : InnerRule n} (sound : InnerSound inner) {s : Input}
    {fits : s.size ≤ n} {reading : Reading 1 s ParseTree}
    (read : bareOperand inner s fits = .ok reading) :
    ∃ production, Layer .primary production ∧ Sound production reading := by
  rw [bareOperand] at read
  split at read
  · rename_i opening atOpening
    have same := List.mem_singleton.mp (Lexeme.text_mem_of_token? atOpening)
    have parenthesis : (s.take opening).value = "(" := by
      show String.ofList opening.text = "("
      rw [same]
    exact ⟨.group, .group, group_sound sound parenthesis (stands_take opening .token) read⟩
  split at read
  · rename_i name atName
    have isName := Lexeme.isName_of_identifier? atName
    have word : Word.isName (s.take name).value.toList := by
      show Word.isName (String.ofList name.text).toList
      rw [String.toList_ofList]
      exact isName
    have reference : Sound .reference ((s.take name).give (.leaf .reference (s.take name).value)) :=
      leaf_sound (.reference word) nofun (Lexeme.trim_of_isName isName)
    rw [callOrReference] at read
    split at read
    · rename_i opening atOpening
      have member : opening.value ∈ ["("] := Input.value_mem_of_token? atOpening
      exact ⟨.call, .call, call_sound sound word reference.solid (stands_take name .token)
        (List.mem_singleton.mp member) (stands_of_token? atOpening) read⟩
    · cases read
      exact ⟨.reference, .reference, reference⟩
  split at read
  · rename_i literal atLiteral
    have numeral := Lexeme.isNumeral_of_number? atLiteral
    rw [number] at read
    split at read
    · cases read
    · rename_i number inRange
      cases read
      have word : Word.isNumeral (String.ofList literal.text).toList := by
        rw [String.toList_ofList]
        exact numeral
      exact ⟨.number, .number, leaf_sound (.number word) (fun _ => ⟨number, inRange⟩)
        (Lexeme.trim_of_isNumeral numeral)⟩
  split at read
  · rename_i lexeme atText
    have isQuoted := Lexeme.isQuoted_of_quoted atText
    cases read
    have word : Word.isQuoted (String.ofList lexeme.text).toList := by
      rw [String.toList_ofList]
      exact isQuoted
    exact ⟨.text, .text, leaf_sound (.text word) nofun (Lexeme.trim_of_isQuoted isQuoted)⟩
  · cases read
  · cases read

/-- **A primary is sound.** -/
theorem primary_sound {inner : InnerRule n} (sound : InnerSound inner) :
    RuleSound .primary (primary inner) := by
  intro s fits reading read
  rw [primary] at read
  split at read
  · cases read
  · rename_i operand atOperand
    obtain ⟨production, layer, operandSound⟩ := bareOperand_sound sound atOperand
    cases read
    have derives : Derives .primary (.wrap .primary operand.value) :=
      .layer layer _ operandSound.derives
    refine ⟨operandSound.toPart.wrap derives, derives, ?_,
      (operandSound.stands.of_skipLayout).wrap .primary⟩
    show operand.value.text = s.slice operand.rest
    rw [operandSound.text_eq, Input.slice_skipLayout operand.suffix]

/-- **The rest of a signed operand** is a sound node from here, inside the nodes of the signs.  By
recursion on what is left: the signs wait, and are put around the operand at the end, each with a
slice from where it stands. -/
theorem unaryTail_sound {rule : Rule n} (sound : RuleSound .primary rule) {s : Input}
    {suffix : s.chars <:+ start.chars} {progress : s.size ≤ start.size} {fits : start.size ≤ n}
    {signs : List Signed} {reading : Reading 1 start ParseTree}
    (read : unaryTail rule start s suffix progress fits signs = .ok reading)
    (fewer : signs.length ≤ Nesting.limit) :
    ∃ inner : Reading 1 s ParseTree, Sound .unary inner ∧ inner.rest = reading.rest ∧
      reading.value = nestSigns reading.rest signs inner.value ∧
      inner.value.signs + signs.length ≤ Nesting.limit := by
  rw [unaryTail] at read
  split at read
  · rename_i sign found
    split at read
    · cases read
    · rename_i withinLimit
      have shorter : sign.rest.size < s.size := sign.progress
      obtain ⟨inner, innerSound, same, value, more⟩ :=
        unaryTail_sound sound read (Nat.not_le.mp withinLimit)
      rw [List.length_cons] at more
      have member : sign.value ∈ ["+", "-"] := Input.value_mem_of_token? found
      have signs : ∀ sign ∈ ["+", "-"], sign ∈ levelOperators := by decide
      have parts : ∀ child ∈ [tokenTree sign.value, inner.value], Part child :=
        List.forall_mem_cons.mpr ⟨part_operator (signs _ member),
          List.forall_mem_singleton.mpr innerSound.toPart⟩
      have derives := Derives.signed (s.slice reading.rest) member innerSound.derives
      have counted : ParseTree.signs ⟨.unary, s.slice reading.rest,
          [leaf .token sign.value, inner.value]⟩ = inner.value.signs + 1 := by rw [ParseTree.signs]
      have fits := derives.fits (by rw [counted]; omega) (Nat.zero_le _)
      refine ⟨⟨⟨.unary, s.slice reading.rest, [tokenTree sign.value, inner.value]⟩,
        reading.rest, ?_, ?_⟩, ?_, rfl, value, ?_⟩
      · rw [← same]
        exact inner.suffix.trans sign.suffix
      · have := inner.progress
        rw [same] at this
        omega
      · exact .node rfl derives fits parts (stands_of_token? found) (by decide)
          (.cons (same ▸ innerSound.stands) rfl)
      · show ParseTree.signs ⟨.unary, _, [leaf .token sign.value, inner.value]⟩ + _ ≤ _
        rw [counted]
        omega
  · split at read
    · cases read
    · rename_i operand atOperand
      cases read
      refine ⟨operand.give (.wrap .unary operand.value), (sound _ _ _ atOperand).wrap .unary, rfl,
        rfl, ?_⟩
      show 0 + signs.length ≤ Nesting.limit
      rw [Nat.zero_add]
      exact fewer
termination_by s.size

/-- **An operand with its signs is sound.** -/
theorem unary_sound {inner : InnerRule n} (sound : InnerSound inner) :
    RuleSound .unary (unary inner) := by
  intro s fits reading read
  rw [unary] at read
  obtain ⟨node, nodeSound, rest, value, -⟩ :=
    unaryTail_sound (primary_sound sound) read (Nat.zero_le _)
  exact nodeSound.of_eq rest value

/-! ## 5. The layers

Each layer is a chain around the one below, so that nothing is left to prove but their composition,
up to the conditional.  There the assumption on shorter inputs is discharged, by induction on the
size. -/

/-- **A disjunction is sound**: so is each layer below it, from the signed operand upwards. -/
theorem disjunction_sound {inner : InnerRule n} (sound : InnerSound inner) :
    RuleSound .disjunction (disjunction inner) := by
  have multiplicative : RuleSound .multiplicative (multiplicative inner) :=
    flatChain_sound .multiplicative (unary_sound sound)
  have additive : RuleSound .additive (additive inner) :=
    flatChain_sound .additive multiplicative
  have relational : RuleSound .relational (relational inner) :=
    leftChain_sound .relational .relational additive
  have equality : RuleSound .equality (equality inner) :=
    leftChain_sound .equality .equality relational
  have conjunction : RuleSound .conjunction (conjunction inner) :=
    rightChain_sound .conjunction .conjunction equality
  exact rightChain_sound .disjunction .disjunction conjunction

/-- **The branches of a conditional are sound** behind a sound condition.  The three operands stand
behind each other, with the two tokens between them. -/
theorem branches_sound {inner : InnerRule n} (sound : InnerSound inner) {s : Input}
    {fits : s.size ≤ n} {condition : ParseTree} (derives : Derives .disjunction condition)
    (part : Part condition) {behind : List Char}
    (atCondition : condition.StandsBehindLayout s.chars behind) {decided : Reading 1 s String}
    (question : decided.value = "?")
    (atQuestion : (tokenTree decided.value).StandsBehindLayout behind decided.rest.chars)
    {reading : Reading 1 s ParseTree}
    (read : branches inner s fits condition decided = .ok reading) :
    Sound .conditional reading := by
  rw [branches] at read
  split at read
  · cases read
  · rename_i consequent atConsequent
    have consequentSound := sound _ _ _ (committed_eq_ok atConsequent)
    split at read
    · cases read
    · rename_i colon found
      obtain ⟨colonEq, atColon⟩ : colon.value = ":" ∧ _ := expectToken_sound found
      split at read
      · cases read
      · rename_i alternative atAlternative
        have alternativeSound := sound _ _ _ (committed_eq_ok atAlternative)
        cases read
        rw [question] at atQuestion ⊢
        rw [colonEq] at atColon ⊢
        have deriveCondition := Derives.layer .condition condition.text derives
        have deriveConsequent :=
          Derives.layer .consequent consequent.value.text consequentSound.derives
        have deriveAlternative :=
          Derives.layer .alternative alternative.value.text alternativeSound.derives
        have parts : ∀ child ∈ [.wrap .condition condition, tokenTree "?",
            .wrap .consequent consequent.value, tokenTree ":",
            .wrap .alternative alternative.value], Part child := by
          simp only [List.forall_mem_cons]
          exact ⟨part.wrap deriveCondition, part_token (by decide),
            consequentSound.toPart.wrap deriveConsequent, part_token (by decide),
            alternativeSound.toPart.wrap deriveAlternative, List.forall_mem_nil _⟩
        have derives := Derives.choice (s.slice alternative.rest) deriveCondition deriveConsequent
          deriveAlternative
        exact .node rfl derives (derives.fits (Nat.zero_le _) (Nat.zero_le _)) parts
          (atCondition.wrap .condition) (by decide)
          (.cons atQuestion (.cons (consequentSound.stands.wrap .consequent)
            (.cons atColon (.cons (alternativeSound.stands.wrap .alternative) rfl))))

/-- **A conditional is sound** where the shorter ones inside it are. -/
theorem conditionalLayer_sound {inner : InnerRule n} (sound : InnerSound inner) :
    RuleSound .conditional (conditionalLayer inner) := by
  intro s fits reading read
  rw [conditionalLayer] at read
  split at read
  · cases read
  · rename_i condition atCondition
    have conditionSound := disjunction_sound sound _ _ _ atCondition
    split at read
    · cases read
      exact conditionSound.wrap .conditional
    · rename_i question found
      have member : question.value ∈ ["?"] := Input.value_mem_of_token? found
      have same : ((condition.andThen question).weaken (by omega) : Reading 1 s
          String).value = "?" :=
        List.mem_singleton.mp member
      exact branches_sound sound conditionSound.derives conditionSound.toPart
        conditionSound.stands same (stands_of_token? found) read

/-- **The rule for conditionals is sound.** -/
theorem conditional_sound (s : Input) (reading : Reading 1 s ParseTree)
    (read : conditional s = .ok reading) : Sound .conditional reading := by
  rw [conditional] at read
  exact conditionalLayer_sound (fun shorter _ reading read =>
    conditional_sound shorter reading read)
    s (Nat.le_refl s.size) reading read
termination_by s.size

end Grammar

/-! ## 6. Sources

A whole source adds the checks around the rule: nesting in front, the end of the source behind, and
the depth of the tree.  What a later module wants to know of the tree of a source is one of the last
theorems. -/

namespace ParseTree

variable {source : String} {tree : ParseTree}

/-- **A source that is accepted** does not nest too deep, and it is one conditional as a whole, in a
layer that is not too deep. -/
theorem exists_readAll_of_ofSource (read : ofSource source = .ok tree) :
    Nesting.excess? source.toList = none ∧ ∃ body, Source.readAll source.toList = .ok body ∧
      tree = .wrap .expression body ∧ tree.depth ≤ depthLimit := by
  rw [ofSource] at read
  dsimp only at read
  split at read
  · cases read
  · rename_i nesting
    split at read
    · cases read
    · rename_i body atBody
      split at read
      · cases read
      · rename_i within
        cases read
        exact ⟨nesting, body, atBody, rfl, Nat.not_lt.mp within⟩

/-- **What is read as a whole** is one conditional with layout behind it. -/
theorem exists_reading_of_readAll {chars : List Char} {body : ParseTree}
    (read : Source.readAll chars = .ok body) :
    ∃ reading, Grammar.conditional (.ofChars chars) = .ok reading ∧ body = reading.value ∧
      ∀ c ∈ reading.rest.chars, Text.isLayout c := by
  rw [Source.readAll] at read
  split at read
  · cases read
  · rename_i reading atReading
    split at read
    · rename_i nothing
      cases read
      exact ⟨reading, atReading, rfl, List.dropWhile_eq_nil_iff.mp nothing⟩
    · cases read

/-- **A source that is accepted** is one conditional with layout behind it, in a layer. -/
theorem exists_reading (read : ofSource source = .ok tree) :
    ∃ reading, Grammar.conditional (.ofChars source.toList) = .ok reading ∧
      tree = .wrap .expression reading.value ∧ ∀ c ∈ reading.rest.chars, Text.isLayout c := by
  obtain ⟨-, body, all, rfl, -⟩ := exists_readAll_of_ofSource read
  obtain ⟨reading, atReading, rfl, layout⟩ := exists_reading_of_readAll all
  exact ⟨reading, atReading, rfl, layout⟩

/-- **A source that is accepted** does not nest too deep, and its tree is not too deep. -/
theorem ofSource_limits (read : ofSource source = .ok tree) :
    Nesting.excess? source.toList = none ∧ tree.depth ≤ depthLimit := by
  obtain ⟨nesting, _, _, _, within⟩ := exists_readAll_of_ofSource read
  exact ⟨nesting, within⟩

/-- The conditional that a source is read as is sound. -/
theorem exists_sound (read : ofSource source = .ok tree) :
    ∃ reading : Reading 1 (.ofChars source.toList) ParseTree, Grammar.Sound .conditional reading ∧
      tree = .wrap .expression reading.value ∧ ∀ c ∈ reading.rest.chars, Text.isLayout c := by
  obtain ⟨reading, atReading, same, layout⟩ := exists_reading read
  exact ⟨reading, Grammar.conditional_sound _ _ atReading, same, layout⟩

/-- **The tree of a source is derived**, and it is in order node by node. -/
theorem ofSource_part (read : ofSource source = .ok tree) :
    Derives .expression tree ∧ Grammar.Part tree := by
  obtain ⟨reading, sound, rfl, -⟩ := exists_sound read
  have derives : Derives .expression (.wrap .expression reading.value) :=
    .layer .expression _ sound.derives
  exact ⟨derives, sound.toPart.wrap derives⟩

/-- **The tree of a source is derived by the grammar**, and labelled layer by layer with a text that
is not empty. -/
theorem ofSource_sound (read : ofSource source = .ok tree) :
    Derives .expression tree ∧ tree.Labelled ∧ tree.text ≠ "" := by
  obtain ⟨derives, part⟩ := ofSource_part read
  refine ⟨derives, part.labelled, fun empty => ?_⟩
  have solid := part.solid
  rw [empty] at solid
  cases solid

/-- **The tree of a source is within the limits**, node by node. -/
theorem ofSource_fits (read : ofSource source = .ok tree) : tree.Throughout NodeFits :=
  (ofSource_part read).2.fits

/-- **Every number literal of a source has a decimal** within the limit. -/
theorem ofSource_readable (read : ofSource source = .ok tree) : tree.Throughout Readable :=
  (ofSource_fits read).mono fun _ fits => fits.literal

/-- **The tree of a source is written down in it**, node by node. -/
theorem ofSource_written (read : ofSource source = .ok tree) : tree.Throughout Written :=
  (ofSource_part read).2.written

/-- **The tree of a source stands in it**, with nothing but layout in front and behind. -/
theorem ofSource_stands (read : ofSource source = .ok tree) :
    ∃ behind, tree.StandsBehindLayout source.toList behind ∧ ∀ c ∈ behind, Text.isLayout c := by
  obtain ⟨reading, sound, rfl, layout⟩ := exists_sound read
  exact ⟨_, sound.stands.wrap .expression, layout⟩

/-- **The tokens of the tree of a source are laid out in it.** -/
theorem ofSource_laidOut (read : ofSource source = .ok tree) :
    LaidOut tree.tokens source.toList := by
  obtain ⟨behind, ⟨gap, start, split, layout, stands⟩, layout'⟩ := ofSource_stands read
  have laid := (ofSource_written read).laidOut.append (laidOut_nil layout')
  rw [List.append_nil, ← stands.start_eq] at laid
  rw [split]
  exact (laidOut_nil layout).append laid

end ParseTree
end DecimalExpression
