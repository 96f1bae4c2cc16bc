import DecimalExpression.Proofs.Outcomes
import DecimalExpression.Proofs.Syntax.Soundness

/-!
# One tree in the place of another

A tree may stand in the place of another one where the grammar derives it for the same production
and it counts as many signs and operators (`ParseTree.Replaces`).  A node is derived, and is within
the limits, with its children as with the trees in their places (`Replaces.node`,
`NodeFits.replace`), whatever its text is.
-/

namespace DecimalExpression
namespace ParseTree

variable {tree tree' : ParseTree} {p : Production} {slice slice' : String}
  {children children' : List ParseTree}

/-- **A tree that may stand in the place of another one.**  A token has no other in its place. -/
structure Replaces (tree tree' : ParseTree) : Prop where
  token : ∀ slice, tree = leaf .token slice → tree' = tree
  derives : ∀ {p : Production}, Derives p tree → Derives p tree'
  signs_eq : tree'.signs = tree.signs
  operators_eq : tree'.nestedOperators = tree.nestedOperators

theorem Replaces.refl (tree : ParseTree) : Replaces tree tree := ⟨fun _ _ => rfl, id, rfl, rfl⟩

theorem Replaces.eq_token (h : Replaces (leaf .token slice) tree') : tree' = leaf .token slice :=
  h.token slice rfl

/-- Signs are counted through operands. -/
theorem signs_of_replaces (same : List.Forall₂ Replaces children children') :
    signs ⟨p, slice', children'⟩ = signs ⟨p, slice, children⟩ := by
  by_cases unary : p = .unary
  · subst unary
    rcases same with _ | ⟨first, _ | ⟨second, _ | _⟩⟩
    · rfl
    · rfl
    · rw [signs, signs, second.signs_eq]
    · rfl
  · rw [signs_of_ne_unary unary, signs_of_ne_unary unary]

/-- Operators of a chain are counted through its nodes. -/
theorem nestedOperators_of_replaces (same : List.Forall₂ Replaces children children') :
    nestedOperators ⟨p, slice', children'⟩ = nestedOperators ⟨p, slice, children⟩ := by
  rcases same with _ | ⟨first, _ | ⟨second, _ | ⟨third, _ | _⟩⟩⟩
  · cases p <;> rfl
  · cases p <;> rfl
  · cases p <;> rfl
  · cases p <;> simp only [nestedOperators, first.operators_eq, third.operators_eq]
  · cases p <;> rfl

/-- What stands in the place of links are links with the same operators. -/
theorem exists_links_of_replaces {links : List (String × ParseTree)}
    (same : List.Forall₂ Replaces (linkTrees links) children') :
    ∃ links', children' = linkTrees links' ∧
      List.Forall₂ (fun link link' => link'.1 = link.1 ∧ Replaces link.2 link'.2) links links' := by
  induction links generalizing children' with
  | nil =>
    cases same
    exact ⟨[], rfl, .nil⟩
  | cons link links ih =>
    rcases same with _ | ⟨operator, _ | ⟨operand, others⟩⟩
    obtain rfl := operator.eq_token
    obtain ⟨links', rfl, each⟩ := ih others
    exact ⟨(link.1, _) :: links', rfl, .cons ⟨rfl, operand⟩ each⟩

/-- What stands in the place of arguments closes with the same parenthesis. -/
theorem exists_arguments_of_replaces {arguments : List ParseTree}
    (same : List.Forall₂ Replaces (arguments ++ [leaf .token ")"]) children') :
    ∃ arguments', children' = arguments' ++ [leaf .token ")"] ∧
      List.Forall₂ Replaces arguments arguments' := by
  induction arguments generalizing children' with
  | nil =>
    rcases same with _ | ⟨closing, _ | _⟩
    obtain rfl := closing.eq_token
    exact ⟨[], rfl, .nil⟩
  | cons argument arguments ih =>
    rcases same with _ | ⟨first, others⟩
    obtain ⟨arguments', rfl, each⟩ := ih others
    exact ⟨_ :: arguments', rfl, .cons first each⟩

/-- **A node is derived** with other trees in the places of its children.  By cases on the
derivation: each constructor asks of its children only what they are derived as, and of its tokens
what they are. -/
theorem Derives.replace (derives : Derives p ⟨p, slice, children⟩) (inner : children ≠ [])
    (same : List.Forall₂ Replaces children children') : Derives p ⟨p, slice', children'⟩ := by
  cases derives with
  | layer level slice below =>
    rcases same with _ | ⟨body, _ | _⟩
    exact .layer level _ (body.derives below)
  | flat level slice links signs atFirst atLinks =>
    rcases same with _ | ⟨first, others⟩
    obtain ⟨links', rfl, each⟩ := exists_links_of_replaces others
    refine .flat level _ links' ?_ (first.derives atFirst) ?_
    · refine forall_mem_of_forall₂ each (fun link link' kept member => ?_) signs
      rw [kept.1]
      exact member
    · exact forall_mem_of_forall₂ each (fun _ _ kept below => kept.2.derives below) atLinks
  | left level slice sign atLeft atRight =>
    rcases same with _ | ⟨left, _ | ⟨operator, _ | ⟨right, _ | _⟩⟩⟩
    obtain rfl := operator.eq_token
    exact .left level _ sign (left.derives atLeft) (right.derives atRight)
  | right level slice atLeft atRight =>
    rcases same with _ | ⟨left, _ | ⟨operator, _ | ⟨right, _ | _⟩⟩⟩
    obtain rfl := operator.eq_token
    exact .right level _ (left.derives atLeft) (right.derives atRight)
  | choice slice atCondition atConsequent atAlternative =>
    rcases same with _ | ⟨condition, _ | ⟨question, _ | ⟨consequent, _ | ⟨colon, _ |
      ⟨alternative, _ | _⟩⟩⟩⟩⟩
    obtain rfl := question.eq_token
    obtain rfl := colon.eq_token
    exact .choice _ (condition.derives atCondition) (consequent.derives atConsequent)
      (alternative.derives atAlternative)
  | signed slice plain below =>
    rcases same with _ | ⟨sign, _ | ⟨operand, _ | _⟩⟩
    obtain rfl := sign.eq_token
    exact .signed _ plain (operand.derives below)
  | group slice below =>
    rcases same with _ | ⟨opening, _ | ⟨body, _ | ⟨closing, _ | _⟩⟩⟩
    obtain rfl := opening.eq_token
    obtain rfl := closing.eq_token
    exact .group _ (body.derives below)
  | call slice word arguments below =>
    rcases same with _ | ⟨name, _ | ⟨opening, others⟩⟩
    obtain rfl := name.eq_token
    obtain rfl := opening.eq_token
    obtain ⟨arguments', rfl, each⟩ := exists_arguments_of_replaces others
    exact .call _ word _ (forall_mem_of_forall₂ each
      (fun _ _ kept below => kept.derives below) below)
  | number | text | reference => exact absurd rfl inner

/-- **A node stands in the place of a node** where its children stand in the places of the
other's. -/
theorem Replaces.node (derives : Derives p ⟨p, slice, children⟩) (inner : children ≠ [])
    (same : List.Forall₂ Replaces children children') :
    Replaces ⟨p, slice, children⟩ ⟨p, slice', children'⟩ where
  token := by
    rintro slice ⟨⟩
    exact absurd rfl inner
  derives := fun h => h.production_eq ▸ derives.replace inner same
  signs_eq := signs_of_replaces same
  operators_eq := nestedOperators_of_replaces same

/-- A node is within the limits with other trees in the places of its children. -/
theorem NodeFits.replace (fits : NodeFits ⟨p, slice, children⟩)
    (derives : Derives p ⟨p, slice, children⟩) (inner : children ≠ [])
    (same : List.Forall₂ Replaces children children') : NodeFits ⟨p, slice', children'⟩ := by
  obtain ⟨first, more, rfl⟩ := List.exists_cons_of_ne_nil inner
  exact ⟨fun number => absurd number derives.ne_number, signs_of_replaces same ▸ fits.signs,
    nestedOperators_of_replaces same ▸ fits.operators⟩

/-- One tree in the place of another, among the same siblings. -/
theorem forall₂_replaces {child child' : ParseTree} (h : Replaces child child')
    (first last : List ParseTree) :
    List.Forall₂ Replaces (first ++ child :: last) (first ++ child' :: last) :=
  List.rel_append (List.forall₂_same.mpr fun _ _ => .refl _)
    (.cons h (List.forall₂_same.mpr fun _ _ => .refl _))

end ParseTree
end DecimalExpression
