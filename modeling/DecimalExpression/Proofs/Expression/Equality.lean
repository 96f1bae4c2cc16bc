import DecimalExpression.Proofs.Evaluation.EqualForests
import Mathlib

/-!
# Equality of forests

Two forests are compared node by node: the indexes of the one go down together with the indexes of
the other, and neither side is unfolded.  What comes out is equality of what the roots unfold to, so
layout, sharing and nodes out of reach do not count (`Forest.same_unfolds`).  Beside the terms,
`Forest.Matching` says so on the nodes alone: forests are equal exactly if their nodes can be
related so that related nodes agree and have related children.

That a comparison ends, and that a forest is equal to itself, is not the doing of the comparison.
On a bare row of nodes (`compareNodes`) an index may point out of the row, and what is out of it is
like nothing, not even itself (`compareNodes_dangling`); and a node may be below itself, where a
comparison goes down for ever (`compareNodes_loop`).  In a forest every child has a smaller index
than its parent, so a comparison is over after as many levels as there are nodes
(`Forest.compareAt_eq`).
-/

namespace DecimalExpression

/-! ## 1. Rows of nodes

Without the invariant of forests a comparison may come to an index that is not there, or go round
for ever.  So it is written once more for rows of nodes of which nothing is known, with a bound on
its depth and "no answer" as an outcome; on forests it has an answer, and the same as
`Forest.same`. -/

/-- Where every answer is known, all of them are gone through. -/
theorem allM_map_eq_some {α β : Type} {items : List α} {code : α → β} {ask : β → Option Bool}
    {holds : α → Bool}
    (known : ∀ a ∈ items, ask (code a) = some (holds a)) :
    (items.map code).allM ask = some (items.all holds) := by
  induction items with
  | nil => rfl
  | cons a items ih =>
    have later := ih fun b member => known b (List.mem_cons_of_mem a member)
    rw [List.map_cons, List.allM, known a List.mem_cons_self, List.all_cons]
    cases holds a with
    | true => exact later
    | false => rfl

/-- **Comparison on bare rows**: whether two nodes are alike all the way down, if that is found
within `depth` levels.  Nothing is known of the indexes; one that is out of its row is like
nothing. -/
def compareNodes (nodes others : Array Node) : Nat → Nat → Nat → Option Bool
  | 0, _, _ => none
  | depth + 1, i, j =>
    match nodes[i]?, others[j]? with
    | some node, some other =>
      if node.kind = other.kind ∧ node.text = other.text ∧
      node.children.length = other.children.length then
        (node.children.zip other.children).allM fun pair =>
          compareNodes nodes others depth pair.1 pair.2
      else some false
    | _, _ => some false

/-- **What is out of a row is like nothing**, not even itself. -/
theorem compareNodes_dangling {nodes others : Array Node} {i : Nat} (depth j : Nat)
    (outside : nodes.size ≤ i) :
    compareNodes nodes others (depth + 1) i j = some false := by
  rw [compareNodes, Array.getElem?_eq_none outside]

/-- **A node that is its own first child is compared with itself for ever.** -/
theorem compareNodes_loop {nodes : Array Node} {i : Nat} {kind : Kind} {text : String}
    {more : List Nat}
    (loop : nodes[i]? = some ⟨kind, text, i :: more⟩) (depth : Nat) :
    compareNodes nodes nodes depth i i = none := by
  induction depth with
  | zero => rfl
  | succ depth ih =>
    rw [compareNodes, loop]
    dsimp only
    rw [if_pos ⟨rfl, rfl, rfl⟩, List.zip_cons_cons, List.allM, ih]
    rfl

namespace Forest

variable {f g : Forest}

/-- The children of two nodes, one by one, with and without what is known of their indexes. -/
theorem zip_childrenOf (f g : Forest) {i j : Nat} (hi : i < f.size) (hj : j < g.size) :
    (f.node i hi).children.zip (g.node j hj).children
      = ((f.childrenOf i hi).zip (g.childrenOf j hj)).map (Prod.map Fin.val Fin.val) := by
  rw [← childrenOf_val, ← childrenOf_val, List.zip_map]

/-- The roots, one by one, with and without what is known of their indexes. -/
theorem zip_rootNodes (f g : Forest) :
    f.roots.toList.zip g.roots.toList
      = (f.rootNodes.zip g.rootNodes).map (Prod.map Fin.val Fin.val) := by
  rw [← rootNodes_val, ← rootNodes_val, List.zip_map]

/-- **A comparison of two nodes ends** within as many levels as there are nodes up to the first.  By
induction on the levels.  So the bound on them is never what makes two nodes differ. -/
theorem compareNodes_eq {depth i j : Nat} (deep : i < depth) (hi : i < f.size) (hj : j < g.size) :
    compareNodes f.nodes g.nodes depth i j = some (f.sameNode g i hi j hj) := by
  induction depth generalizing i j with
  | zero => exact absurd deep (Nat.not_lt_zero i)
  | succ depth ih =>
    have here : f.nodes[i]? = some (f.node i hi) := Array.getElem?_eq_getElem hi
    have there : g.nodes[j]? = some (g.node j hj) := Array.getElem?_eq_getElem hj
    -- a child has a smaller index, so one level less is enough for it
    have below : ∀ pair ∈ (f.childrenOf i hi).zip (g.childrenOf j hj),
        compareNodes f.nodes g.nodes depth pair.1.val pair.2.val =
          some (f.sameNode g pair.1.val (f.child_lt pair.1 hi) pair.2.val (g.child_lt pair.2 hj)) :=
      fun pair _ => ih (by omega) _ _
    rw [compareNodes, here, there, sameNode]
    dsimp only
    rw [zip_childrenOf, allM_map_eq_some below]
    by_cases alike : (f.node i hi).kind = (g.node j hj).kind ∧
      (f.node i hi).text = (g.node j hj).text ∧
        (f.node i hi).children.length = (g.node j hj).children.length
    · simp [alike]
    · rw [if_neg alike]
      simp only [Option.some.injEq, Bool.false_eq, Bool.and_eq_false_iff, decide_eq_false_iff_not]
      tauto

/-- **Comparison of two forests** by the rows of their nodes, as far down as `depth` levels. -/
def compareAt (f g : Forest) (depth : Nat) : Option Bool :=
  if f.roots.size = g.roots.size then
    (f.roots.toList.zip g.roots.toList).allM fun pair =>
      compareNodes f.nodes g.nodes depth pair.1 pair.2
  else some false

/-- **A comparison of two forests ends** within as many levels as the first has nodes. -/
theorem compareAt_eq {depth : Nat} (deep : f.size ≤ depth) :
    f.compareAt g depth = some (f.same g) := by
  have each : ∀ pair ∈ f.rootNodes.zip g.rootNodes,
      compareNodes f.nodes g.nodes depth pair.1.val pair.2.val =
        some (f.sameNode g pair.1.val (f.root_lt pair.1) pair.2.val (g.root_lt pair.2)) :=
    fun pair _ => compareNodes_eq (by omega) _ _
  rw [compareAt, same, zip_rootNodes, allM_map_eq_some each]
  by_cases size : f.roots.size = g.roots.size
  · simp [size]
  · simp [size]

/-! ## 2. Terms of the roots

Roots are compared pairwise, after their number.  In terms this is equality of two lists, position
by position. -/

theorem length_terms (f : Forest) : f.terms.length = f.roots.size := by
  rw [terms, List.length_map, length_rootNodes]

theorem getElem_roots_lt (f : Forest) {k : Nat} (inside : k < f.roots.size) : f.roots[k] < f.size :=
  f.roots_lt _ (Array.getElem_mem inside)

/-- **The term of a root** is what its node unfolds to. -/
theorem getElem_terms (f : Forest) {k : Nat} (inside : k < f.roots.size)
    (counted : k < f.terms.length) :
    f.terms[k] = f.unfold f.roots[k] (f.getElem_roots_lt inside) := by
  have root : f.Unfolds f.roots[k] f.terms[k] := by
    have roots := List.forall₂_iff_get.mp (terms_eq_iff (f := f).mp rfl)
    simpa using roots.2 k (by simpa using inside) counted
  exact root.unique (f.unfolds_unfold _ _)

/-- Two forests have the same terms if they have as many roots and these unfold alike. -/
theorem terms_eq_terms_iff : f.terms = g.terms ↔ f.roots.size = g.roots.size ∧
    ∀ (k : Nat) (inside : k < f.roots.size) (inside' : k < g.roots.size),
      f.unfold f.roots[k] (f.getElem_roots_lt inside)
        = g.unfold g.roots[k] (g.getElem_roots_lt inside') := by
  constructor
  · intro terms
    refine ⟨by rw [← length_terms, terms, length_terms], fun k inside inside' => ?_⟩
    have counted : k < f.terms.length := by rwa [length_terms]
    have counted' : k < g.terms.length := by rwa [length_terms]
    rw [← f.getElem_terms inside counted, ← g.getElem_terms inside' counted']
    exact List.getElem_of_eq terms counted
  · rintro ⟨size, alike⟩
    refine List.ext_getElem (by rw [length_terms, length_terms, size]) fun k counted counted' => ?_
    rw [f.getElem_terms (by rwa [← length_terms]) counted,
      g.getElem_terms (by rwa [← length_terms]) counted']
    exact alike k _ _

/-! ## 3. Matchings

A matching says that two forests are equal without unfolding and without saying where a node goes:
related nodes look alike and have related children.  Unfolding gives one, and any one determines
what is unfolded. -/

/-- **A matching** of two forests relates their roots one by one; nodes that it relates agree in
kind and text, and it relates their children one by one. -/
structure Matching (f g : Forest) (related : Nat → Nat → Prop) : Prop where
  roots : List.Forall₂ related f.roots.toList g.roots.toList
  nodes : ∀ i j, related i j → ∃ (hi : i < f.size) (hj : j < g.size),
    (f.node i hi).kind = (g.node j hj).kind ∧ (f.node i hi).text = (g.node j hj).text ∧
      List.Forall₂ related (f.node i hi).children (g.node j hj).children

/-- Nodes that a matching relates unfold to one term. -/
theorem Matching.unfolds {related : Nat → Nat → Prop} (matched : Matching f g related) {i j : Nat}
    (hi : i < f.size) (pair : related i j) : g.Unfolds j (f.unfold i hi) := by
  induction i using Nat.strongRecOn generalizing j with
  | ind i ih =>
    obtain ⟨_, hj, kind, text, children⟩ := matched.nodes i j pair
    rw [unfolds_iff hj, kind_unfold, text_unfold, children_unfold]
    refine ⟨kind.symm, text.symm, ?_⟩
    rw [← childrenOf_val, List.forall₂_map_left_iff] at children
    rw [List.forall₂_map_right_iff]
    exact (children.imp fun c d child => ih c.val c.isLt _ child).flip

/-- Nodes that unfold to one term. -/
def Alike (f g : Forest) (i j : Nat) : Prop :=
  ∃ (hi : i < f.size) (hj : j < g.size), f.unfold i hi = g.unfold j hj

/-- Indexes that have the same terms, one by one, are alike one by one. -/
theorem forall₂_alike {m n : Nat} {indexes : List (Fin m)} {others : List (Fin n)}
    (hf : ∀ c : Fin m, c.val < f.size) (hg : ∀ d : Fin n, d.val < g.size)
    (terms : (indexes.map fun c => f.unfold c.val (hf c)) = others.map fun d =>
      g.unfold d.val (hg d)) :
    List.Forall₂ (Alike f g) (indexes.map Fin.val) (others.map Fin.val) := by
  rw [← List.forall₂_eq_eq_eq, List.forall₂_map_left_iff, List.forall₂_map_right_iff] at terms
  rw [List.forall₂_map_left_iff, List.forall₂_map_right_iff]
  exact terms.imp fun c d same => ⟨hf c, hg d, same⟩

/-- Where the roots have the same terms, what is alike is a matching. -/
theorem matching_alike (terms : f.terms = g.terms) : Matching f g (Alike f g) where
  roots := by
    rw [← rootNodes_val, ← rootNodes_val]
    exact forall₂_alike f.root_lt g.root_lt terms
  nodes := by
    rintro i j ⟨hi, hj, same⟩
    have kind := congrArg Term.kind same
    have text := congrArg Term.text same
    have children := congrArg Term.children same
    rw [kind_unfold, kind_unfold] at kind
    rw [text_unfold, text_unfold] at text
    rw [children_unfold, children_unfold] at children
    refine ⟨hi, hj, kind, text, ?_⟩
    rw [← childrenOf_val, ← childrenOf_val]
    exact forall₂_alike _ _ children

/-- **Forests have the same terms exactly if they can be matched.** -/
theorem exists_matching_iff : (∃ related, Matching f g related) ↔ f.terms = g.terms := by
  constructor
  · rintro ⟨related, matched⟩
    refine (terms_eq_iff.mpr ?_).symm
    rw [terms, List.forall₂_map_right_iff]
    have roots := matched.roots
    rw [← rootNodes_val, List.forall₂_map_left_iff] at roots
    exact (roots.imp fun r s pair => matched.unfolds (f.root_lt r) pair).flip
  · exact fun terms => ⟨Alike f g, matching_alike terms⟩

/-! ## 4. Equality -/

/-- **Equality of forests.**  Two forests are equal exactly if they have as many roots and
corresponding roots unfold to the same tree, in kind, text and children; that is, exactly if their
nodes can be matched, however they are laid out and shared.  A comparison by index ends on every
pair of forests, within as many levels as the first has nodes, and neither side has an index out of
its row.  Equality is reflexive, symmetric and transitive, and equal forests are displayed alike. -/
theorem same_unfolds (f g : Forest) :
    (f.same g = true ↔ f.roots.size = g.roots.size ∧
      ∀ (k : Nat) (inside : k < f.roots.size) (inside' : k < g.roots.size),
        f.unfold f.roots[k] (f.getElem_roots_lt inside)
          = g.unfold g.roots[k] (g.getElem_roots_lt inside')) ∧
    (f.same g = true ↔ ∃ related, Matching f g related) ∧
    (∀ depth, f.size ≤ depth → f.compareAt g depth = some (f.same g)) ∧
    f.same f = true ∧ f.same g = g.same f ∧
    (∀ h : Forest, f.same g = true → g.same h = true → f.same h = true) ∧
    (f.same g = true → f.display = g.display) := by
  refine ⟨same_iff.trans terms_eq_terms_iff, same_iff.trans exists_matching_iff.symm,
    fun depth => compareAt_eq,
    same_iff.mpr rfl, ?_, ?_, ?_⟩
  · rw [Bool.eq_iff_iff, same_iff, same_iff]
    exact eq_comm
  · intro h first second
    exact same_iff.mpr ((same_iff.mp first).trans (same_iff.mp second))
  · intro same
    rw [display_eq, display_eq, same_iff.mp same]

/-- A node that is shared, and one that is out of reach, do not count. -/
theorem same_unfolds_difference :
    sharedDifference.size = 4 ∧ sharedDifference.compareAt spreadDifference 4 = some true ∧
      sharedDifference.same spreadDifference = true ∧
      sharedDifference.display = spreadDifference.display := by
  obtain ⟨-, -, ends, -, -, -, displays⟩ := same_unfolds sharedDifference spreadDifference
  have found : sharedDifference.compareAt spreadDifference 4 = some true := by decide
  have same : sharedDifference.same spreadDifference = true :=
    Option.some.inj ((ends 4 (by decide)).symm.trans found)
  exact ⟨rfl, found, same, displays same⟩

end Forest
end DecimalExpression
