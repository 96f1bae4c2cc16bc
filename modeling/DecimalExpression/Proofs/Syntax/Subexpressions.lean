import DecimalExpression.Proofs.Syntax.NestingBound
import DecimalExpression.Proofs.Syntax.Parentheses
import DecimalExpression.Proofs.Syntax.Quotes

/-!
# Subexpressions as sources

The text of a node is a source of its own: it is accepted, and single children lead from its tree to
the node (`ParseTree.ShownBy.subexpression`).  This holds of the nodes that may stand alone, which
are all but the tokens and the three parts of a conditional.

The tree is the node with a layer around it for each production above its own
(`ParseTree.Derives.exists_expression`).  It is no higher than the tree of the whole source, since a
production is at most one layer further down than its parent's (`Derives.rank_child_le`), and it is
within the limit for nesting, since what rises somewhere within the limit does so from the start.
-/

namespace DecimalExpression

/-! ## 1. Ranks

A node that is a source of its own needs layers around it, up to an expression.  How many is its
rank. -/

namespace Production

/-- **The rank of a production**: how many layers are around it, where each has one child. -/
def rank : Production → Nat
  | .expression | .token => 0
  | .conditional | .condition | .consequent | .alternative => 1
  | .disjunction => 2
  | .conjunction => 3
  | .equality => 4
  | .relational => 5
  | .additive => 6
  | .multiplicative => 7
  | .unary => 8
  | .primary => 9
  | .group | .call | .number | .text | .reference => 10

/-- **Productions that may stand alone** as a source. -/
def standsAlone : Production → Bool
  | .token | .condition | .consequent | .alternative => false
  | _ => true

/-- The layer around a node that stands alone. -/
def around? : Production → Option Production
  | .conditional => some .expression
  | .disjunction => some .conditional
  | .conjunction => some .disjunction
  | .equality => some .conjunction
  | .relational => some .equality
  | .additive => some .relational
  | .multiplicative => some .additive
  | .unary => some .multiplicative
  | .primary => some .unary
  | .group | .call | .number | .text | .reference => some .primary
  | _ => none

variable {p : Production}

theorem eq_expression_of_rank (alone : p.standsAlone) (rank : p.rank = 0) : p = .expression := by
  cases p <;> first | rfl | exact absurd rank (by decide) | exact absurd alone (by decide)

/-- Around a production that may stand alone is one that is a rank higher, and may stand alone. -/
theorem exists_around (alone : p.standsAlone) {n : Nat} (rank : p.rank = n + 1) :
    ∃ outer, p.around? = some outer ∧ outer.standsAlone ∧ outer ≠ .number ∧ outer.rank = n := by
  cases p <;> cases rank <;> cases alone <;> exact ⟨_, rfl, rfl, nofun, rfl⟩

end Production

/-! ## 2. A node alone

The layers have one child each and the same text.  So they lead from the tree of the new source down
to the node. -/

namespace ParseTree

variable {tree child u : ParseTree} {p outer : Production} {path : List ParseTree}
  {chars : List Char}

/-- **Single children lead down** from a tree to a node. -/
inductive LeadsTo : ParseTree → ParseTree → Prop
  | here (tree : ParseTree) : LeadsTo tree tree
  | layer (production : Production) (slice : String) {body u : ParseTree} (below : LeadsTo body u) :
    LeadsTo ⟨production, slice, [body]⟩ u

theorem LeadsTo.trans {u' : ParseTree} (h : tree.LeadsTo u) (h' : u.LeadsTo u') :
    tree.LeadsTo u' := by
  induction h with
  | here => exact h'
  | layer production slice _ ih => exact .layer production slice (ih h')

/-- Both have the same first node with a choice. -/
theorem LeadsTo.entry_eq (h : tree.LeadsTo u) : tree.entry = u.entry := by
  induction h with
  | here => rfl
  | layer production slice below ih => rw [← ih, entry]

/-- **A layer around a node** that stands alone.  By cases on the production: the layer around it
has it as its only child. -/
theorem Derives.around (h : Derives p u) (around : p.around? = some outer) :
    Derives outer (wrap outer u) := by
  have flat : ∀ {outer operand : Production} {operators : List String},
      FlatLevel outer operand operators → Derives operand u → Derives outer (wrap outer u) :=
    fun level h => .flat level u.text [] (List.forall_mem_nil _) h (List.forall_mem_nil _)
  cases p with
  | conditional => cases around; exact .layer .expression _ h
  | disjunction => cases around; exact .layer .conditional _ h
  | conjunction => cases around; exact .layer .disjunction _ h
  | equality => cases around; exact .layer .conjunction _ h
  | relational => cases around; exact .layer .equality _ h
  | additive => cases around; exact .layer .relational _ h
  | multiplicative => cases around; exact flat .additive h
  | unary => cases around; exact flat .multiplicative h
  | primary => cases around; exact .layer .unary _ h
  | group => cases around; exact .layer .group _ h
  | call => cases around; exact .layer .call _ h
  | number => cases around; exact .layer .number _ h
  | text => cases around; exact .layer .text _ h
  | reference => cases around; exact .layer .reference _ h
  | expression | condition | consequent | alternative | token => cases around

theorem height_wrap (p : Production) (u : ParseTree) : (wrap p u).height = u.height + 1 := by
  rw [wrap, height, List.foldl_cons, List.foldl_nil, Nat.zero_max]

/-- **A node alone**, with a layer around it for each rank. -/
theorem Derives.exists_expression (derives : Derives p u) (alone : p.standsAlone)
    (trimmed : u.Throughout Trimmed) (fits : u.Throughout NodeFits) :
    ∃ found, Derives .expression found ∧ found.Throughout Trimmed ∧ found.Throughout NodeFits ∧
      found.LeadsTo u ∧ found.text = u.text ∧ found.height = u.height + p.rank := by
  induction rank : p.rank generalizing p u with
  | zero =>
    obtain rfl := Production.eq_expression_of_rank alone rank
    exact ⟨u, derives, trimmed, fits, .here u, rfl, rfl⟩
  | succ n ih =>
    obtain ⟨outer, around, outerAlone, notNumber, outerRank⟩ := Production.exists_around alone rank
    obtain ⟨found, atFound, trimmedFound, fitsFound, leads, text, height⟩ :=
      ih (derives.around around) outerAlone (trimmed_wrap trimmed outer) (fits_wrap notNumber fits)
        outerRank
    refine ⟨found, atFound, trimmedFound, fitsFound,
      leads.trans (.layer outer _ (.here u)), text, ?_⟩
    rw [height, height_wrap]
    omega

/-! ## 3. Heights and ranks

The tree of the new source must not be too high.  It is no higher than the one that the node was
found in: a child is at most one rank further down than its parent, so a path to the node is at
least as long as the layers around it. -/

/-- **A child is at most one rank further down.**  By cases on the derivation, where operands are
one rank further down or start over. -/
theorem Derives.rank_child_le (h : Derives p tree) (member : child ∈ tree.children) :
    child.production.rank ≤ p.rank + 1 := by
  have token : ∀ slice : String, (leaf .token slice).production.rank ≤ p.rank + 1 :=
    fun _ => Nat.zero_le _
  cases h with
  | layer level slice below =>
    obtain rfl := List.mem_singleton.mp member
    rw [below.production_eq]
    cases level <;> decide
  | flat level slice links signs atFirst atLinks =>
    rcases List.mem_cons.mp member with rfl | member
    · rw [atFirst.production_eq]
      cases level <;> decide
    · obtain ⟨link, among, rfl | rfl⟩ := mem_linkTrees member
      · exact token _
      · rw [(atLinks link among).production_eq]
        cases level <;> decide
  | left level slice sign atLeft atRight =>
    simp only [List.mem_cons, List.not_mem_nil, or_false] at member
    rcases member with rfl | rfl | rfl
    · rw [atLeft.production_eq]
      exact Nat.le_succ _
    · exact token _
    · rw [atRight.production_eq]
      cases level <;> decide
  | right level slice atLeft atRight =>
    simp only [List.mem_cons, List.not_mem_nil, or_false] at member
    rcases member with rfl | rfl | rfl
    · rw [atLeft.production_eq]
      cases level <;> decide
    · exact token _
    · rw [atRight.production_eq]
      exact Nat.le_succ _
  | choice slice atCondition atConsequent atAlternative =>
    simp only [List.mem_cons, List.not_mem_nil, or_false] at member
    rcases member with rfl | rfl | rfl | rfl | rfl
    · rw [atCondition.production_eq]
      decide
    · exact token _
    · rw [atConsequent.production_eq]
      decide
    · exact token _
    · rw [atAlternative.production_eq]
      decide
  | signed slice plain below =>
    simp only [List.mem_cons, List.not_mem_nil, or_false] at member
    rcases member with rfl | rfl
    · exact token _
    · rw [below.production_eq]
      decide
  | group slice below =>
    simp only [List.mem_cons, List.not_mem_nil, or_false] at member
    rcases member with rfl | rfl | rfl
    · exact token _
    · rw [below.production_eq]
      decide
    · exact token _
  | call slice word arguments below =>
    simp only [List.mem_cons, List.mem_append, List.not_mem_nil, or_false] at member
    rcases member with rfl | rfl | among | rfl
    · exact token _
    · exact token _
    · rw [(below _ among).production_eq]
      decide
    · exact token _
  | number | text | reference => cases member

/-- **Down a path** the tree alone never gets higher. -/
theorem Derives.height_rank_le (h : Derives p tree) (down : tree.Path path)
    (last : path.getLast? = some u) : u.height + u.production.rank ≤ tree.height + p.rank := by
  induction down generalizing p with
  | here tree =>
    obtain rfl : tree = u := by simpa using last
    rw [h.production_eq]
  | @child tree child path member onward ih =>
    have lower := height_child_lt member
    have rank := h.rank_child_le member
    have below : u.height + u.production.rank ≤ child.height + child.production.rank := by
      rcases h.child member with ⟨slice, rfl⟩ | derives
      · cases onward with
        | here =>
          obtain rfl : leaf .token slice = u := by simpa using last
          exact Nat.le_refl _
        | child absent => cases absent
      · exact ih derives (by cases onward <;> exact last)
    omega

/-! ## 4. Sources

The literals, signs and chains are those of the node, and were within the limits before.  For the
nesting, the scan over the text of the node stays below the scan over the whole source. -/

/-- **A node alone is shown by its text**, within the limits. -/
theorem Derives.exists_shownBy (derives : Derives p u) (alone : p.standsAlone)
    (trimmed : u.Throughout Trimmed) (fits : u.Throughout NodeFits)
    (nesting : Nesting.excess? u.text.toList = none) (low : u.height + p.rank ≤ depthLimit) :
    ∃ found : ParseTree, found.ShownBy u.text.toList ∧ found.LeadsTo u := by
  obtain ⟨found, atFound, trimmed, fits, leads, text, height⟩ :=
    derives.exists_expression alone trimmed fits
  exact ⟨found,
    { derives := atFound
      trimmed := trimmed
      fits := fits
      surrounded := ⟨[], [], by rw [text]; simp, List.forall_mem_nil _, List.forall_mem_nil _⟩
      nesting := nesting
      height := height.trans_le low }, leads⟩

/-- **The text of a node is within the limit for nesting.** -/
theorem ShownBy.excess?_eq_none (shown : tree.ShownBy chars) (down : tree.Path path)
    (last : path.getLast? = some u) (derives : Derives p u) :
    Nesting.excess? u.text.toList = none := by
  obtain ⟨gap, gap', around, layout, -⟩ := shown.surrounded
  obtain ⟨front, back, text, paired⟩ :=
    exists_place shown.trimmed shown.derives.quotesLiterals down last
  have laid : LaidOut u.tokens u.text.toList :=
    ((shown.trimmed.onPath down last).mono fun _ => Trimmed.written).laidOut
  obtain ⟨more, peak, rises⟩ := derives.exists_rises laid
  have split : chars = (gap ++ front) ++ (u.text.toList ++ (back ++ gap')) := by
    rw [around, text]
    simp only [List.append_assoc]
  have within := (Nesting.excessFrom_eq_none_iff 0 chars).mp shown.nesting
  rw [split, Nesting.within_append] at within
  have inside := (Nesting.within_append.mp within.2).1
  have outside := (Text.paired_of_not_mem (Text.quote_not_mem_layout layout)).append paired
  refine rises.excess?_eq_none ?_ (within.1.depth_scan (Nat.zero_le _)) inside
  rw [Nesting.quoted_scan, outside]
  rfl

/-- **A node of a tree that is shown** is shown by its own text. -/
theorem ShownBy.subexpression (shown : tree.ShownBy chars) (down : tree.Path path)
    (last : path.getLast? = some u) (alone : u.production.standsAlone) :
    ∃ found : ParseTree, found.ShownBy u.text.toList ∧ found.LeadsTo u := by
  rcases shown.derives.onPath down last with ⟨slice, rfl⟩ | derives
  · cases alone
  have low : u.height + u.production.rank ≤ tree.height := shown.derives.height_rank_le down last
  exact derives.exists_shownBy alone (shown.trimmed.onPath down last) (shown.fits.onPath down last)
    (shown.excess?_eq_none down last derives) (low.trans shown.height)

end ParseTree
end DecimalExpression
