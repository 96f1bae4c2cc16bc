import DecimalExpression.Proofs.Evaluation.Faults
import DecimalExpression.Proofs.Evaluation.Pipeline

/-!
# The stages agree on shapes

What the parser reads, the forest of the tree and its collapsed form follow conventions of their
own, and the rules rely on them.  They agree: the collapsed forest of a source is shaped, so
evaluating it never fails internally unless a method does (`Forest.ofTree_isShaped`).

A regular term has single children only in layers.  Collapsing leaves none of these but groups, so a
collapsed regular term is shaped (`Regular.shaped`).
-/

namespace DecimalExpression

/-! ## 1. Terms

Regular terms are those of sources, shaped terms those that the rules take.  Collapsing goes from
the first to the second: of a regular term that is collapsed nothing is left that has one child, but
calls and the groups that matter, so every node has the children its rule counts on. -/

namespace Term

theorem Regular.isOperand {t : Term} (regular : t.Regular) : t.label.isOperand := by
  rw [Label.isOperand_iff]
  cases regular with
  | number | text | reference | choice | signed | call => exact nofun
  | layer passes slice below =>
    rintro rfl
    cases passes
  | chain flat slice rest signs atFirst atRest =>
    rintro rfl
    cases flat
  | connective matching slice atLeft atRight =>
    rcases matching with ⟨rfl, -⟩ | ⟨rfl, -⟩ <;> exact nofun
  | comparison comparing slice sign atLeft atRight =>
    rcases comparing with rfl | rfl <;> exact nofun

/-- The parts of a chain interleave. -/
theorem interleaves_links {operators : List String} {rest : List (String × Term)}
    (signs : ∀ link ∈ rest, link.1 ∈ operators) (each : ∀ link ∈ rest, link.2.Regular) :
    ∀ {first : Term}, first.Regular →
      interleaves operators ((first :: links rest).map label) := by
  induction rest with
  | nil =>
    intro first regular
    exact regular.isOperand
  | cons link rest ih =>
    intro first regular
    obtain ⟨sign, moreSigns⟩ := List.forall_mem_cons.mp signs
    obtain ⟨operand, more⟩ := List.forall_mem_cons.mp each
    have atSign : (leaf .symbol link.1).label.isOperator operators :=
      Label.isOperator_iff.mpr ⟨rfl, sign⟩
    rw [links, List.map_cons, List.map_cons, interleaves, Bool.and_eq_true, Bool.and_eq_true]
    exact ⟨⟨regular.isOperand, atSign⟩, ih moreSigns more operand⟩

theorem mem_links {rest : List (String × Term)} {t : Term} (member : t ∈ links rest) :
    ∃ link ∈ rest, t = leaf .symbol link.1 ∨ t = link.2 := by
  induction rest with
  | nil => cases member
  | cons link rest ih =>
    simp only [links, List.mem_cons] at member
    rcases member with rfl | rfl | later
    · exact ⟨link, List.mem_cons_self, .inl rfl⟩
    · exact ⟨link, List.mem_cons_self, .inr rfl⟩
    · obtain ⟨other, among, same⟩ := ih later
      exact ⟨other, List.mem_cons_of_mem _ among, same⟩

theorem shaped_symbol (slice : String) : (leaf .symbol slice).Shaped :=
  .node _ rfl nofun

/-- A layer that collapsing leaves is a group. -/
theorem group_of_passesOn {kind : Kind} {slice : String} {body : Term} (passes : passesOn kind)
    (collapsed : IsCollapsed true ⟨kind, slice, [body]⟩) : kind = .group := by
  rcases collapsed.single rfl with call | ⟨group, -⟩
  · obtain rfl : kind = .call := call
    cases passes
  · exact group

/-- **A collapsed regular term is shaped.**  By induction on the regular term, one case for each
form.  Of the layers only a group is left once a term is collapsed, and of a chain with a single
operand nothing is. -/
theorem Regular.shaped {t : Term} (regular : t.Regular) (collapsed : t.IsCollapsed true) :
    t.Shaped := by
  induction regular with
  | number slice => exact .node _ rfl nofun
  | text slice quoted => exact .node _ quoted nofun
  | reference slice => exact .node _ rfl nofun
  | layer passes slice below ih =>
    obtain rfl := group_of_passesOn passes collapsed
    refine .node _ below.isOperand (List.forall_mem_singleton.mpr (ih ?_))
    exact collapsed.child List.mem_cons_self
  | @chain kind flat slice first rest signs atFirst atRest ihFirst ihRest =>
    have below : ∀ child ∈ first :: links rest, child.Shaped := by
      refine List.forall_mem_cons.mpr ⟨ihFirst (collapsed.child List.mem_cons_self), ?_⟩
      intro child member
      have inside := collapsed.child (List.mem_cons_of_mem _ member)
      obtain ⟨link, among, rfl | rfl⟩ := mem_links member
      · exact shaped_symbol _
      · exact ihRest link among inside
    cases rest with
    | nil =>
      obtain rfl := group_of_passesOn (passesOn_of_isChain flat) collapsed
      cases flat
    | cons link rest =>
      have alternate := interleaves_links signs atRest atFirst
      have several : 3 ≤ ((first :: links (link :: rest)).map label).length := by
        simp only [links, List.map_cons, List.length_cons]
        omega
      refine .node _ ?_ below
      cases kind with
      | additive | multiplicative =>
        rw [hasShape, Bool.and_eq_true]
        exact ⟨decide_eq_true several, alternate⟩
      | _ => cases flat
  | @connective kind operator matching slice left right atLeft atRight ihLeft ihRight =>
    have shape : hasShape kind slice [left.label, ⟨.symbol, operator⟩, right.label] := by
      rcases matching with ⟨rfl, rfl⟩ | ⟨rfl, rfl⟩ <;>
        simp [hasShape, atLeft.isOperand, atRight.isOperand, Label.isOperator, Kind.operators]
    refine .node _ shape ?_
    simp only [List.forall_mem_cons]
    exact ⟨ihLeft (collapsed.child (by simp)), shaped_symbol _, ihRight (collapsed.child (by simp)),
      List.forall_mem_nil _⟩
  | @comparison kind comparing slice operator sign left right atLeft atRight ihLeft ihRight =>
    have atSign : Label.isOperator kind.operators ⟨.symbol, operator⟩ :=
      Label.isOperator_iff.mpr ⟨rfl, sign⟩
    have shape : hasShape kind slice [left.label, ⟨.symbol, operator⟩, right.label] := by
      rcases comparing with rfl | rfl
        <;> simp [hasShape, atLeft.isOperand, atRight.isOperand, atSign]
    refine .node _ shape ?_
    simp only [List.forall_mem_cons]
    exact ⟨ihLeft (collapsed.child (by simp)), shaped_symbol _, ihRight (collapsed.child (by simp)),
      List.forall_mem_nil _⟩
  | choice slice atCondition atConsequent atAlternative condition consequent alternative =>
    refine .node _ ?_ ?_
    · simp [hasShape, atCondition.isOperand, atConsequent.isOperand, atAlternative.isOperand]
    · simp only [List.forall_mem_cons]
      exact ⟨condition (collapsed.child (by simp)), consequent (collapsed.child (by simp)),
        alternative (collapsed.child (by simp)), List.forall_mem_nil _⟩
  | @signed sign plain slice operand below ih =>
    have shape : hasShape .signed slice [⟨.symbol, sign⟩, operand.label] := by
      rcases plain with rfl | rfl <;>
        simp [hasShape, below.isOperand, Label.isOperator, Kind.operators]
    refine .node _ shape ?_
    simp only [List.forall_mem_cons]
    exact ⟨shaped_symbol _, ih (collapsed.child (by simp)), List.forall_mem_nil _⟩
  | call slice name arguments below ih =>
    refine .node _ ?_ ?_
    · have operands : (arguments.map label).all Label.isOperand := by
        rw [List.all_map, List.all_eq_true]
        exact fun a member => (below a member).isOperand
      simpa [hasShape, label, leaf] using operands
    · refine List.forall_mem_cons.mpr ⟨shaped_symbol _, fun a member => ih a member ?_⟩
      exact collapsed.child (List.mem_cons_of_mem _ member)

end Term

/-! ## 2. Forests

A forest adds its roots, which are one operand or a chain, before collapsing and after it.  The
statement for sources says all the stages in one breath, since each of them is what the next one
relies on. -/

namespace Forest

variable {f : Forest}

/-- Roots as sources have them are one operand or a sum. -/
theorem RootsRegular.interleaves (roots : f.RootsRegular) :
    interleaves Kind.additive.operators (f.terms.map Term.label) := by
  cases roots with
  | single terms regular =>
    rw [terms]
    exact regular.isOperand
  | chain terms signs atFirst atRest =>
    rw [terms]
    exact Term.interleaves_links signs atRest atFirst

/-- Each root is a regular term or a symbol. -/
theorem RootsRegular.regular_or_symbol (roots : f.RootsRegular) {t : Term} (member : t ∈ f.terms) :
    t.Regular ∨ ∃ slice, t = .leaf .symbol slice := by
  cases roots with
  | single terms regular =>
    rw [terms, List.mem_singleton] at member
    exact .inl (member ▸ regular)
  | chain terms signs atFirst atRest =>
    rw [terms] at member
    rcases List.mem_cons.mp member with rfl | later
    · exact .inl atFirst
    · obtain ⟨link, among, rfl | rfl⟩ := Term.mem_links later
      · exact .inr ⟨_, rfl⟩
      · exact .inl (atRest link among)

/-- **Collapsing keeps the roots as sources have them.** -/
theorem RootsRegular.collapse (roots : f.RootsRegular) (unmarked : f.collapsed = false) :
    f.collapse.RootsRegular := by
  have bare : ∀ {t : Term}, t.Regular → (t.collapse false).bare.Regular := fun regular =>
    (regular.collapse false).regular.bare.regular
  cases roots with
  | single terms regular =>
    have collapsed := terms_collapse unmarked
    rw [terms] at collapsed
    exact .single collapsed (bare regular)
  | chain terms signs atFirst atRest =>
    refine .chain (terms_collapse_links unmarked terms) ?_ (bare atFirst) ?_
    · intro link member
      obtain ⟨old, among, rfl⟩ := List.mem_map.mp member
      exact signs old among
    · intro link member
      obtain ⟨old, among, rfl⟩ := List.mem_map.mp member
      exact bare (atRest old among)

/-- **The collapsed form of such a forest is shaped.** -/
theorem RootsRegular.isShaped_collapse (roots : f.RootsRegular) (unmarked : f.collapsed = false) :
    f.collapse.IsShaped := by
  have left := roots.collapse unmarked
  refine isShaped_iff.mpr ⟨fun t member => ?_, left.interleaves⟩
  rcases left.regular_or_symbol member with regular | ⟨slice, rfl⟩
  · have canonical := isCanonical_collapse unmarked
    exact regular.shaped (isCanonical_iff.mp canonical t member).toInside
  · exact Term.shaped_symbol slice

/-- **The stages agree on shapes.**  The tree of a source becomes a forest, the collapsed form of
the forest is shaped and has no layer of the grammar left, and evaluating it has an internal fault
only where a call raises it. -/
theorem ofTree_isShaped {source : String} {tree : ParseTree}
    (read : ParseTree.ofSource source = .ok tree) :
    ∃ f, ofTree tree = .ok f ∧ f.collapse.IsShaped ∧
      (∀ (i : Nat) (h : i < f.collapse.size), f.collapse.Reachable i →
        (f.collapse.node i h).kind.isLayer = false) ∧
      ∀ (env : Environment) (fault : Fault), f.evaluate env = .error fault → fault.IsInternal →
        ∃ t ∈ f.collapse.terms, t.Raises env fault := by
  obtain ⟨derives, labelled, nonempty⟩ := ParseTree.ofSource_sound read
  obtain ⟨f, forest, represents⟩ := exists_represents derives labelled nonempty
  have shaped := represents.roots.isShaped_collapse represents.unmarked
  refine ⟨f, forest, shaped, fun i h reachable => ?_, fun env fault failed internal => ?_⟩
  · exact isLayer_of_hasShape (shaped.nodes i h reachable)
  · exact shaped.raises_of_isInternal failed internal

/-- For instance, a choice between a call of a sum in a group and a text. -/
theorem ofTree_isShaped_choice : ∃ tree,
    ParseTree.ofSource "-x < 1 ? f((2 + y), z) * 3 : \"a\"" = .ok tree ∧
      ∃ f, ofTree tree = .ok f ∧ f.collapse.IsShaped := by
  have parses : (ParseTree.ofSource "-x < 1 ? f((2 + y), z) * 3 : \"a\"").isOk = true := by cbv
  obtain ⟨tree, read⟩ := exists_of_isOk parses
  obtain ⟨f, forest, shaped, -⟩ := ofTree_isShaped read
  exact ⟨tree, read, f, forest, shaped⟩

end Forest
end DecimalExpression
