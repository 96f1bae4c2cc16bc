import DecimalExpression.Proofs.Syntax.Completeness
import DecimalExpression.Proofs.Syntax.Soundness
import DecimalExpression.Proofs.Syntax.Unambiguous

/-!
# What a source is read as

A source is read as a tree exactly if the tree is derived, its nodes are trimmed and within the
limits, and its text is the source but for layout in front and behind
(`ParseTree.ofSource_eq_ok_iff`).  So whether a source is accepted, and as which tree, can be shown
by giving the tree, and without a word about the rules that read it.

A **trimmed** node starts with its first item and ends with its last one.  The text of a node that
is read is trimmed because its leaves are solid.  The other way round, a tree with trimmed nodes
stands in its own text, and where a tree stands determines it.
-/

namespace DecimalExpression
namespace ParseTree

variable {tree tree' : ParseTree} {trees : List ParseTree} {p : Production} {slice : String}
  {start rest here gap : List Char}

/-! ## 1. Solid trees

A node stands from where its first child starts to where its last child stops, so solid leaves make
solid nodes. -/

/-- A node with a solid text. -/
def Solid (tree : ParseTree) : Prop := Text.isSolid tree.text.toList

theorem isSolid_of_trim_eq {word : List Char} (nonempty : word ≠ [])
    (trimmed : Text.trim word = word) :
    Text.isSolid word := by
  rw [← trimmed]
  exact Text.isSolid_trim (by rwa [trimmed])

/-- **The leaves of a derived tree are solid.** -/
theorem Derives.hasSolidLeaves (h : Derives p tree) :
    tree.Throughout (LeafHas fun slice => Text.isSolid slice.toList) := by
  have operators : ∀ operator ∈ levelOperators, Text.isSolid operator.toList := by decide
  have marks : ∀ mark ∈ ["(", ")", "?", ":"], Text.isSolid mark.toList := by decide
  exact h.leavesHave
    { operator := operators
      mark := marks
      name := fun name =>
        isSolid_of_trim_eq (Lexeme.ne_nil_of_isName name) (Lexeme.trim_of_isName name)
      numeral := fun numeral =>
        isSolid_of_trim_eq (Lexeme.ne_nil_of_isNumeral numeral) (Lexeme.trim_of_isNumeral numeral)
      quoted := fun quoted =>
        isSolid_of_trim_eq (Lexeme.ne_nil_of_isQuoted quoted) (Lexeme.trim_of_isQuoted quoted) }

mutual

/-- **A tree with solid leaves that stands somewhere** is solid all the way down. -/
theorem Stands.solid {tree : ParseTree} {start rest : List Char} (h : tree.Stands start rest)
    (leaves : tree.Throughout (LeafHas fun slice => Text.isSolid slice.toList)) :
    tree.Throughout Solid := by
  obtain ⟨production, slice, children⟩ := tree
  cases children with
  | nil => exact .node _ (leaves.here rfl) (List.forall_mem_nil _)
  | cons first more =>
    obtain ⟨same, behind, atFirst, others⟩ := h
    have solidFirst := atFirst.solid (leaves.child List.mem_cons_self)
    have solidMore := others.solid fun child member =>
      leaves.child (List.mem_cons_of_mem _ member)
    obtain ⟨body, whole, solid⟩ :=
      others.exists_solid solidFirst.here fun child member => (solidMore child member).here
    have text : slice.toList = body := by
      have both : slice.toList ++ rest = body ++ rest := by rw [← same, atFirst.start_eq, whole]
      exact List.append_cancel_right both
    refine .node _ ?_ (List.forall_mem_cons.mpr ⟨solidFirst, solidMore⟩)
    rw [Solid, text]
    exact solid

/-- The same for trees behind each other. -/
theorem StandBehind.solid {trees : List ParseTree} {here rest : List Char}
    (h : StandBehind trees here rest)
    (leaves : ∀ tree ∈ trees, tree.Throughout (LeafHas fun slice => Text.isSolid slice.toList)) :
    ∀ tree ∈ trees, tree.Throughout Solid := by
  cases trees with
  | nil => exact List.forall_mem_nil _
  | cons tree more =>
    obtain ⟨gap, start, behind, -, -, stands, others⟩ := h
    obtain ⟨here, later⟩ := List.forall_mem_cons.mp leaves
    exact List.forall_mem_cons.mpr ⟨stands.solid here, others.solid later⟩

end

/-! ## 2. Trimmed trees

A written node has layout at most around its items, and with a solid text it has none at the ends.
So the texts of a trimmed tree are determined by the children, up to the layout in between. -/

/-- **A trimmed node**: its text runs from its first item to its last one, with layout in front of
each further item, perhaps none. -/
def Trimmed (tree : ParseTree) : Prop :=
  tree.children ≠ [] → ∃ first more body, tree.items = first :: more ∧
    tree.text.toList = first.text.toList ++ body ∧ Spelled (more.map ParseTree.text) body

/-- A trimmed node is written. -/
theorem Trimmed.written (h : tree.Trimmed) : tree.Written := by
  intro inner
  obtain ⟨first, more, body, items, text, spelled⟩ := h inner
  rw [items, text, List.map_cons]
  have laid : LaidOut (more.map ParseTree.text) body :=
    ⟨body, [], (List.append_nil body).symm, spelled, List.forall_mem_nil _⟩
  exact (laidOut_token first.text).append laid

/-- Layout ends where something solid starts. -/
theorem eq_nil_of_isSolid (layout : ∀ c ∈ gap, Text.isLayout c)
    (solid : Text.isSolid (gap ++ rest)) :
    gap = [] := by
  obtain ⟨⟨c, more, same, visible⟩, -⟩ := Text.isSolid_iff.mp solid
  cases gap with
  | nil => rfl
  | cons d gap =>
    cases same
    have blank := Text.isBlank_of_isLayout (layout c List.mem_cons_self)
    rw [visible] at blank
    cases blank

/-- Nothing solid ends with layout. -/
theorem eq_nil_of_isSolid_append (layout : ∀ c ∈ gap, Text.isLayout c)
    (solid : Text.isSolid (rest ++ gap)) : gap = [] := by
  obtain ⟨-, front, c, same, visible⟩ := Text.isSolid_iff.mp solid
  rcases List.eq_nil_or_concat gap with rfl | ⟨gap, d, rfl⟩
  · rfl
  · rw [List.concat_eq_append, ← List.append_assoc] at same
    obtain ⟨-, rfl⟩ := List.append_inj' same rfl |>.imp_right List.singleton_inj.mp
    have blank := Text.isBlank_of_isLayout (layout d (by simp))
    rw [visible] at blank
    cases blank

/-- **A written node with a solid text is trimmed.** -/
theorem Written.trimmed (h : tree.Written) (solid : tree.Solid) : tree.Trimmed := by
  intro inner
  obtain ⟨first, more, items⟩ : ∃ first more, tree.items = first :: more := by
    obtain ⟨child, member⟩ := List.exists_mem_of_ne_nil _ inner
    exact List.exists_cons_of_ne_nil (List.ne_nil_of_mem (mem_items_of_mem member))
  obtain ⟨body, gap, text, spelled, layout⟩ := h inner
  rw [items, List.map_cons] at spelled
  obtain ⟨gap', rest, rfl, layout', more_rest⟩ := Spelled.exists_of_cons spelled
  rw [Solid, text] at solid
  obtain rfl := eq_nil_of_isSolid_append layout solid
  rw [List.append_assoc] at solid
  obtain rfl := eq_nil_of_isSolid layout' solid
  exact ⟨first, more, rest, items, by rw [text]; simp, more_rest⟩

/-- **The tree of a source is trimmed**, node by node. -/
theorem ofSource_trimmed {source : String} (read : ofSource source = .ok tree) :
    tree.Throughout Trimmed := by
  obtain ⟨behind, ⟨gap, start, -, -, stands⟩, -⟩ := ofSource_stands read
  have solid := stands.solid (ofSource_sound read).1.hasSolidLeaves
  have both : ∀ {tree : ParseTree}, tree.Throughout Written → tree.Throughout Solid →
      tree.Throughout Trimmed := by
    intro tree written solid
    induction written with
    | node tree here below ih =>
      exact .node tree (here.trimmed solid.here) fun child member =>
        ih child member (solid.child member)
  exact both (ofSource_written read) solid

theorem trimmed_leaf (p : Production) (slice : String) : (leaf p slice).Throughout Trimmed :=
  .node _ (fun inner => absurd rfl inner) (List.forall_mem_nil _)

theorem trimmed_wrap (h : tree.Throughout Trimmed) (p : Production) :
    (wrap p tree).Throughout Trimmed := by
  refine .node _ (fun _ => ?_) (List.forall_mem_singleton.mpr h)
  have single : (wrap p tree).items = [tree] := by cases p <;> rfl
  exact ⟨tree, [], [], single, (List.append_nil _).symm, .nil⟩

/-! ## 3. A trimmed tree stands in its text

The other way round, a trimmed tree stands in its own text: its items stand in line there, and its
children behind each other. -/

/-- A comma in front is a separator. -/
theorem StandBehind.behindComma (comma : (leaf .token ",").StandsBehindLayout start here)
    (h : StandBehind (tree :: trees) here rest) : StandBehind (tree :: trees) start rest := by
  obtain ⟨gap, _, rfl, layout, rfl⟩ := comma
  obtain ⟨gap', start, behind, rfl, separators, stands, others⟩ := h
  refine ⟨gap ++ ',' :: gap', start, behind, by simp, ?_, stands, others⟩
  exact List.forall_mem_append.mpr
    ⟨fun c member => Text.isSeparator_of_isLayout (layout c member),
      List.forall_mem_cons.mpr ⟨rfl, separators⟩⟩

/-- **Where arguments stand in line with their commas** they stand behind each other. -/
theorem standBehind_of_argumentItems (h : StandInLine (argumentItems trees) here rest) :
    StandBehind trees here rest := by
  induction trees using argumentItems.induct generalizing here with
  | case1 => exact h
  | case2 closing => exact h.standBehind
  | case3 argument closing => exact h.standBehind
  | case4 argument next last others ih =>
    obtain ⟨behind, atArgument, between, atComma, line⟩ := h
    exact .cons atArgument (.behindComma atComma (ih line))

/-- **Where the items of a node stand in line** its children stand behind each other. -/
theorem standBehind_of_items {production : Production} {first item : ParseTree}
    {more others : List ParseTree}
    (items : items ⟨production, slice, first :: more⟩ = item :: others)
    (h : StandInLine others here rest) : item = first ∧ StandBehind more here rest := by
  by_cases call : production = .call
  · subst call
    cases more with
    | nil =>
      cases items
      exact ⟨rfl, h⟩
    | cons opening more =>
      cases items
      obtain ⟨behind, atOpening, line⟩ := h
      exact ⟨rfl, .cons atOpening (standBehind_of_argumentItems line)⟩
  · rw [items_of_ne_call call] at items
    cases items
    exact ⟨rfl, h.standBehind⟩

/-- Trees that stand in their texts stand in line where the texts are spelled out. -/
theorem Spelled.standInLine {body : List Char} (each : ∀ tree ∈ trees, ∀ rest,
      tree.Stands (tree.text.toList ++ rest) rest)
    (spelled : Spelled (trees.map ParseTree.text) body) (rest : List Char) :
    StandInLine trees (body ++ rest) rest := by
  induction trees generalizing body with
  | nil => exact congrArg (· ++ rest) (Spelled.eq_nil spelled)
  | cons tree trees ih =>
    obtain ⟨here, later⟩ := List.forall_mem_cons.mp each
    obtain ⟨gap, more, rfl, layout, spelled⟩ := Spelled.exists_of_cons spelled
    refine .cons ⟨gap, _, ?_, layout, here (more ++ rest)⟩ (ih later spelled)
    simp only [List.append_assoc]

/-- **A trimmed tree stands in its text**, whatever stands behind it. -/
theorem Throughout.stands (h : tree.Throughout Trimmed) (rest : List Char) :
    tree.Stands (tree.text.toList ++ rest) rest := by
  induction h generalizing rest with
  | node tree here below ih =>
    obtain ⟨production, slice, children⟩ := tree
    cases children with
    | nil => rfl
    | cons first more =>
      obtain ⟨item, others, body, items, text, spelled⟩ := here (List.cons_ne_nil _ _)
      have each : ∀ item ∈ others, ∀ rest, item.Stands (item.text.toList ++ rest) rest := by
        intro item member rest
        rcases mem_items (items ▸ List.mem_cons_of_mem _ member) with child | rfl
        · exact ih item child rest
        · rfl
      have line := Spelled.standInLine each spelled rest
      obtain ⟨rfl, others⟩ := standBehind_of_items items line
      refine ⟨rfl, body ++ rest, ?_, others⟩
      rw [text, List.append_assoc]
      exact ih item List.mem_cons_self (body ++ rest)

/-! ## 4. Acceptance

Completeness reads a tree with the same skeleton, and both trees stand in the same text.  So they
are the same tree, and what is left is to collect what soundness gives. -/

/-- **Trees that start in one source behind layout are the same** if they have one skeleton. -/
theorem StandsBehindLayout.unique {rest' : List Char} (stands : tree.StandsBehindLayout here rest)
    (stands' : tree'.StandsBehindLayout here rest') (visible : tree.HasVisibleLeaves)
    (visible' : tree'.HasVisibleLeaves) (same : tree'.skeleton = tree.skeleton) : tree' = tree := by
  obtain ⟨gap, start, split, layout, atStart⟩ := stands
  obtain ⟨gap', start', split', layout', atStart'⟩ := stands'
  have separators : ∀ {gap : List Char}, (∀ c ∈ gap, Text.isLayout c) →
      ∀ c ∈ gap, Text.isSeparator c := fun layout c member =>
    Text.isSeparator_of_isLayout (layout c member)
  obtain rfl := gap_unique (separators layout) (separators layout')
    (atStart.exists_visible visible) (atStart'.exists_visible visible') (split.symm.trans split')
  have further : tree'.Stands (start ++ []) rest' := by rwa [List.append_nil]
  exact (atStart.unique further visible visible' same).1

/-- **A tree that some characters show**: it is derived, trimmed and within the limits, and its text
is all there is but for layout in front and behind. -/
structure ShownBy (tree : ParseTree) (chars : List Char) : Prop where
  derives : Derives .expression tree
  trimmed : tree.Throughout Trimmed
  fits : tree.Throughout NodeFits
  surrounded : ∃ gap gap', chars = gap ++ (tree.text.toList ++ gap') ∧
    (∀ c ∈ gap, Text.isLayout c) ∧ ∀ c ∈ gap', Text.isLayout c
  nesting : Nesting.excess? chars = none
  height : tree.height ≤ depthLimit

/-- **What a source is read as is what it shows.**  From left to right this collects what soundness
gives.  From right to left completeness gives a tree with the same skeleton, which stands in the
same characters. -/
theorem ofSource_eq_ok_iff {source : String} :
    ofSource source = .ok tree ↔ tree.ShownBy source.toList := by
  constructor
  · intro read
    obtain ⟨nesting, depth⟩ := ofSource_limits read
    obtain ⟨gap', ⟨gap, start, split, layout, stands⟩, layout'⟩ := ofSource_stands read
    exact
      { derives := (ofSource_sound read).1
        trimmed := ofSource_trimmed read
        fits := ofSource_fits read
        surrounded := ⟨gap, gap', by rw [split, stands.start_eq], layout, layout'⟩
        nesting := nesting
        height := by rwa [← depth_eq_height] }
  · rintro ⟨derives, trimmed, fits, ⟨gap, gap', split, layout, layout'⟩, nesting, height⟩
    -- what is read has the skeleton of the tree, and starts where the tree does
    have laid : LaidOut tree.tokens source.toList := by
      have inner := (trimmed.mono fun _ => Trimmed.written).laidOut.append (laidOut_nil layout')
      rw [List.append_nil] at inner
      rw [split]
      exact (laidOut_nil layout).append inner
    have stands : tree.StandsBehindLayout source.toList gap' :=
      ⟨gap, _, split, layout, trimmed.stands gap'⟩
    obtain ⟨slice, body, rfl, below⟩ := exists_of_expression derives
    rw [tokens_layer .expression] at laid
    obtain ⟨found, all, same⟩ := exists_readAll below (fits.child List.mem_cons_self) laid
    have skeleton : (wrap .expression found).skeleton = skeleton ⟨.expression, slice, [body]⟩ :=
      skeleton_layer same
    have within : ¬ depthLimit < (wrap .expression found).depth := by
      rw [← depth_skeleton, skeleton, depth_skeleton, depth_eq_height]
      exact Nat.not_lt.mpr height
    have read : ofSource source = .ok (wrap .expression found) := by
      simp only [ofSource, nesting, all]
      rw [if_neg within]
    obtain ⟨behind, stands', -⟩ := ofSource_stands read
    rw [read, stands.unique stands' derives.hasVisibleLeaves
      (ofSource_sound read).1.hasVisibleLeaves skeleton]

end ParseTree
end DecimalExpression
