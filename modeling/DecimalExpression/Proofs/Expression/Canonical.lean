import DecimalExpression.Proofs.Expression.Unfolding

/-!
# Collapsing reaches a canonical form

What collapsing leaves can be said of the nodes: a node that is reachable from a root is a leaf, or
has several children, or is a call of a name alone, or is a group that stands below another node
around something that is no group, variable or number; and no root but a call has exactly one child
(`Forest.IsCanonical`).  It can also be said of the terms (`Term.IsCollapsed`), and the two are one
condition (`isCanonical_iff`).

Collapsing reaches the form from every forest and changes nothing where it is reached already, so a
second pass finds nothing to do.  A mark on a forest is believed, and rightly: only collapsing sets
it, and everything that could break the form takes it away (`Built.isCanonical`).
-/

namespace DecimalExpression
namespace Term

/-! ## 1. Terms

Collapsing a term is described by where the term stands, inside another one or at a root, and what
remains there.  Two properties are needed of the result: that it is collapsed, and that collapsing
leaves a collapsed term alone.  Together they make the pass idempotent. -/

/-- What may stand at a root may stand inside another term. -/
theorem IsCollapsed.toInside {inside : Bool} {t : Term} (h : IsCollapsed inside t) :
    IsCollapsed true t := by
  cases h with
  | leaf _ kind slice => exact .leaf true kind slice
  | call _ slice name below => exact .call true slice name below
  | group slice body below needed => exact .group slice body below needed
  | branch _ kind slice first second more below =>
    exact .branch true kind slice first second more below

/-- A term inside another one may stand at a root, unless it is a group. -/
theorem IsCollapsed.atRoot {t : Term} (h : IsCollapsed true t)
    (root : t.children.length = 1 → t.kind = .call) : IsCollapsed false t := by
  cases h with
  | leaf _ kind slice => exact .leaf false kind slice
  | call _ slice name below => exact .call false slice name below
  | group slice body below needed => cases root rfl
  | branch _ kind slice first second more below =>
    exact .branch false kind slice first second more below

/-- At a root only a call has a single child. -/
theorem IsCollapsed.kind_of_single {t : Term} (h : IsCollapsed false t)
    (single : t.children.length = 1) : t.kind = .call := by
  cases h with
  | leaf _ kind slice => simp at single
  | call _ slice name below => rfl
  | branch _ kind slice first second more below => simp at single

/-- Inside another term only a call has a single child, or a group that is needed. -/
theorem IsCollapsed.single {t body : Term} (h : IsCollapsed true t)
    (children : t.children = [body]) : t.kind = .call ∨ (t.kind = .group ∧
      body.kind ≠ .group ∧ body.kind ≠ .reference ∧ body.kind ≠ .number) := by
  cases h with
  | leaf _ kind slice => cases children
  | call _ slice name below => exact .inl rfl
  | group slice body below needed =>
    cases children
    exact .inr ⟨rfl, needed⟩
  | branch _ kind slice first second more below => cases children

/-- The terms below a collapsed term are collapsed. -/
theorem IsCollapsed.child {inside : Bool} {t : Term} (h : IsCollapsed inside t) {child : Term}
    (member : child ∈ t.children) : IsCollapsed true child := by
  cases h with
  | leaf _ kind slice => cases member
  | call _ slice name below => exact List.mem_singleton.mp member ▸ below
  | group slice body below needed => exact List.mem_singleton.mp member ▸ below
  | branch _ kind slice first second more below => exact below child member

/-- A term above collapsed ones is collapsed if it is a call or has not exactly one child. -/
theorem isCollapsed_of_children {t : Term} (below : ∀ child ∈ t.children, IsCollapsed true child)
    (shape : t.children.length = 1 → t.kind = .call) : IsCollapsed true t := by
  obtain ⟨kind, slice, children⟩ := t
  match children with
  | [] => exact .leaf true kind slice
  | [only] =>
    cases shape rfl
    exact .call true slice only (below only (by simp))
  | first :: second :: more => exact .branch true kind slice first second more below

/-- A group above a collapsed term is collapsed inside another term, if it is needed. -/
theorem isCollapsed_of_group {t body : Term} (kind : t.kind = .group)
    (children : t.children = [body]) (below : IsCollapsed true body)
    (needed : body.kind ≠ .group ∧ body.kind ≠ .reference ∧ body.kind ≠ .number) :
    IsCollapsed true t := by
  obtain ⟨_, slice, _⟩ := t
  cases kind
  cases children
  exact .group slice body below needed

/-- A collapsed term stays collapsed with a group around it, or where the group goes. -/
theorem isCollapsed_regroup {slice : String} {body : Term} (h : IsCollapsed true body) :
    IsCollapsed true (regroup slice body) := by
  rw [regroup]
  split
  · exact h
  · rename_i needed
    refine .group slice body h ⟨?_, ?_, ?_⟩ <;> intro kind
      <;> simp [kind, groupIsRedundant] at needed

/-! ### The cases of collapsing

One equation for each thing that can happen to a node. -/

theorem collapse_call (inside : Bool) (slice : String) (children : List Term) :
    collapse inside ⟨.call, slice, children⟩ = ⟨.call, slice, children.map (collapse true)⟩ := by
  rw [collapse]

theorem collapse_group_inside (slice : String) (only : Term) :
    collapse true ⟨.group, slice, [only]⟩ = regroup slice (collapse true only) := by
  rw [collapse, if_pos rfl]

/-- A single child takes the place of a layer, and of a group at a root. -/
theorem collapse_layer {inside : Bool} {kind : Kind} (slice : String) (only : Term)
    (call : kind ≠ .call) (group : kind = .group → inside = false) :
    collapse inside ⟨kind, slice, [only]⟩ = collapse true only := by
  by_cases isGroup : kind = .group
  · subst isGroup
    rw [collapse, group rfl]
    rfl
  · rw [collapse]
    · exact call
    · exact isGroup

/-- A node with no child or several keeps its place, and its children are collapsed. -/
theorem collapse_branch (inside : Bool) (kind : Kind) (slice : String) {children : List Term}
    (several : children.length ≠ 1) :
    collapse inside ⟨kind, slice, children⟩ = ⟨kind, slice, children.map (collapse true)⟩ := by
  match children with
  | [] => cases kind <;> rw [collapse] <;> simp
  | [only] => exact absurd rfl several
  | first :: second :: more => cases kind <;> rw [collapse] <;> simp

/-- **Collapsing gives collapsed terms.**  By induction on the term, by the number of its children:
a single one takes its place or makes a group of it, and otherwise the children are collapsed. -/
theorem isCollapsed_collapse (t : Term) :
    ∀ inside : Bool, IsCollapsed true (t.collapse inside) := by
  induction t with
  | node kind slice children ih =>
    intro inside
    have below : ∀ child ∈ children.map (collapse true), IsCollapsed true child := by
      intro child member
      obtain ⟨child, old, rfl⟩ := List.mem_map.mp member
      exact ih child old true
    by_cases call : kind = .call
    · subst call
      rw [collapse_call]
      exact isCollapsed_of_children below fun _ => rfl
    · match children with
      | [only] =>
        have single := ih only (by simp) true
        by_cases group : kind = .group ∧ inside = true
        · obtain ⟨rfl, rfl⟩ := group
          rw [collapse_group_inside]
          exact isCollapsed_regroup single
        · rw [collapse_layer slice only call (by simp_all)]
          exact single
      | [] =>
        rw [collapse_branch inside kind slice (by simp)]
        exact isCollapsed_of_children below (by simp)
      | first :: second :: more =>
        rw [collapse_branch inside kind slice (by simp)]
        exact isCollapsed_of_children below (by simp)

/-- A bare term is its own bare term. -/
theorem bare_of_shape {t : Term} (shape : t.children.length = 1 → t.kind = .call) :
    t.bare = t := by
  obtain ⟨kind, slice, children⟩ := t
  match children with
  | [] => cases kind <;> rfl
  | [only] =>
    cases shape rfl
    rfl
  | first :: second :: more => cases kind <;> rfl

/-- **At a root no single child stays**, a call's name apart.  What is left of the four forms is a
leaf, a call, a branch, or what a group holds. -/
theorem isCollapsed_bare {t : Term} (h : IsCollapsed true t) : IsCollapsed false t.bare := by
  cases h with
  | leaf _ kind slice =>
    rw [bare_of_shape (by simp)]
    exact .leaf false kind slice
  | call _ slice name below =>
    rw [bare_of_shape fun _ => rfl]
    exact .call false slice name below
  | group slice body below needed =>
    -- what a needed group holds is bare: it is no group itself
    have inner : body.children.length = 1 → body.kind = .call := by
      intro single
      cases below with
      | leaf _ kind slice => simp at single
      | call _ slice name below => rfl
      | group slice body below _ => exact absurd rfl needed.1
      | branch _ kind slice first second more below => simp at single
    have bare : (⟨.group, slice, [body]⟩ : Term).bare = body.bare := by rw [Term.bare]; simp
    rw [bare, bare_of_shape inner]
    exact below.atRoot inner
  | branch _ kind slice first second more below =>
    rw [bare_of_shape (by simp)]
    exact .branch false kind slice first second more below

/-- **A collapsed term stays as it is.** -/
theorem collapse_eq_self {inside : Bool} {t : Term} (h : IsCollapsed inside t) :
    t.collapse inside = t := by
  induction h with
  | leaf inside kind slice => rw [collapse_branch inside kind slice (by simp), List.map_nil]
  | call inside slice name below ih => rw [collapse_call, List.map_singleton, ih]
  | group slice body below needed ih =>
    have kept : groupIsRedundant body.kind = false := by
      obtain ⟨notGroup, notReference, notNumber⟩ := needed
      cases kind : body.kind <;> simp_all [groupIsRedundant]
    rw [collapse_group_inside, ih, regroup, kept]
    rfl
  | branch inside kind slice first second more below ih =>
    rw [collapse_branch inside kind slice (by simp)]
    congr 1
    exact List.map_congr_left ih |>.trans (List.map_id _)

theorem bare_eq_self {t : Term} (h : IsCollapsed false t) : t.bare = t := by
  exact bare_of_shape h.kind_of_single

end Term

namespace Forest

variable {f g : Forest}

/-! ## 2. Nodes

On a forest the same condition is put on nodes, by their numbers of children and what they stand
around.  Only reachable nodes count, since collapsing leaves groups of roots behind, out of
reach. -/

/-- A node is reachable as a root or as a child of a reachable node. -/
inductive Reachable (f : Forest) : Nat → Prop
  | root {i : Nat} (member : i ∈ f.roots) : Reachable f i
  | child {i c : Nat} (above : Reachable f i) (h : i < f.size)
    (member : c ∈ (f.node i h).children) : Reachable f c

/-- What collapsing leaves of a node: a leaf, several children, a call of a name alone, or a group
below another node around something that needs it. -/
def NodeIsNeeded (f : Forest) (i : Nat) (h : i < f.size) : Prop :=
  (f.node i h).children = [] ∨ 2 ≤ (f.node i h).children.length
    ∨ ((f.node i h).kind = .call ∧ (f.node i h).children.length = 1)
    ∨ (i ∉ f.roots ∧ (f.node i h).kind = .group ∧
        ∃ (body : Nat) (inside : body < f.size), (f.node i h).children = [body] ∧
          (f.node body inside).kind ≠ .group ∧ (f.node body inside).kind ≠ .reference ∧
          (f.node body inside).kind ≠ .number)

/-- **The canonical form of a forest**, node by node. -/
structure IsCanonical (f : Forest) : Prop where
  needed : ∀ (i : Nat) (h : i < f.size), f.Reachable i → f.NodeIsNeeded i h
  root : ∀ (r : Nat) (h : r < f.size), r ∈ f.roots → (f.node r h).children.length = 1 →
    (f.node r h).kind = .call

theorem Reachable.lt {i : Nat} (h : f.Reachable i) : i < f.size := by
  induction h with
  | root member => exact f.roots_lt _ member
  | child _ inside member _ => exact Nat.lt_trans (f.children_lt _ inside _ member) inside

/-- The terms below a node are what its children unfold to. -/
theorem mem_children_unfold {i : Nat} (h : i < f.size) {u : Term} :
    u ∈ (f.unfold i h).children ↔ ∃ c ∈ (f.node i h).children, f.Unfolds c u := by
  rw [unfold, ← childrenOf_val]
  constructor
  · intro member
    obtain ⟨c, old, rfl⟩ := List.mem_map.mp member
    exact ⟨c.val, List.mem_map_of_mem old, f.unfolds_unfold c.val (f.child_lt c h)⟩
  · rintro ⟨c, member, inside, rfl⟩
    obtain ⟨c, old, rfl⟩ := List.mem_map.mp member
    exact List.mem_map.mpr ⟨c, old, rfl⟩

/-- The terms of a forest are what its roots unfold to. -/
theorem mem_terms_iff {t : Term} : t ∈ f.terms ↔ ∃ r ∈ f.roots, f.Unfolds r t := by
  simp only [← Array.mem_toList_iff]
  rw [terms, ← rootNodes_val]
  constructor
  · intro member
    obtain ⟨r, old, rfl⟩ := List.mem_map.mp member
    exact ⟨r.val, List.mem_map_of_mem old, f.unfolds_unfold r.val (f.root_lt r)⟩
  · rintro ⟨r, member, inside, rfl⟩
    obtain ⟨r, old, rfl⟩ := List.mem_map.mp member
    exact List.mem_map.mpr ⟨r, old, rfl⟩

/-- A single child unfolds to the single term below. -/
theorem children_unfold_single {i c : Nat} (h : i < f.size) (children : (f.node i h).children = [c])
    (inside : c < f.size) : (f.unfold i h).children = [f.unfold c inside] := by
  have single := (unfolds_iff h).mp (f.unfolds_unfold i h)
  rw [children] at single
  exact forall₂_unfolds_unique single.2.2 (.cons (f.unfolds_unfold c inside) .nil)

/-! ## 3. The two forms are one condition

From nodes to terms by induction on the index, from terms to nodes by induction on reachability.  A
shared node may stand at a root and inside another term at once, which is why the condition on nodes
says more of what is below another node. -/

/-- Below needed nodes all terms are collapsed.  By induction on the index, and each of the four
reasons for a node to be needed is a form of collapsed terms. -/
theorem IsCanonical.isCollapsed (canonical : f.IsCanonical) (i : Nat) (h : i < f.size)
    (reachable : f.Reachable i) : (f.unfold i h).IsCollapsed true := by
  induction i using Nat.strongRecOn with
  | ind i ih =>
    have below : ∀ u ∈ (f.unfold i h).children, u.IsCollapsed true := by
      intro u member
      obtain ⟨c, old, inside, rfl⟩ := (mem_children_unfold h).mp member
      exact ih c (f.children_lt i h c old) inside (reachable.child h old)
    have length := f.length_children_unfold h
    have kind := f.kind_unfold h
    rcases canonical.needed i h reachable with leaf | several | call | group
    · rw [leaf] at length
      exact Term.isCollapsed_of_children below (by simp [length])
    · exact Term.isCollapsed_of_children below (by omega)
    · exact Term.isCollapsed_of_children below fun _ => kind.trans call.1
    · obtain ⟨-, isGroup, body, inside, only, notGroup, notReference, notNumber⟩ := group
      have children := children_unfold_single h only inside
      rw [← kind_unfold inside] at notGroup notReference notNumber
      exact Term.isCollapsed_of_group (kind.trans isGroup) children
        (below _ (by rw [children]; exact List.mem_singleton_self _))
        ⟨notGroup, notReference, notNumber⟩

/-- What is reachable from the roots of collapsed terms unfolds to collapsed terms. -/
theorem isCollapsed_of_reachable (collapsed : ∀ t ∈ f.terms, t.IsCollapsed false) {i : Nat}
    (reachable : f.Reachable i) : ∀ h : i < f.size, (f.unfold i h).IsCollapsed true := by
  induction reachable with
  | root member =>
    intro h
    exact (collapsed _ (mem_terms_iff.mpr ⟨_, member, f.unfolds_unfold _ h⟩)).toInside
  | child _ above member ih =>
    intro h
    have child := (mem_children_unfold above).mpr ⟨_, member, f.unfolds_unfold _ h⟩
    exact (ih above).child child

/-- **A forest is canonical exactly when its terms are collapsed.**  From the nodes to the terms by
induction on the index, and back by the path that leads to a node from a root. -/
theorem isCanonical_iff : f.IsCanonical ↔ ∀ t ∈ f.terms, t.IsCollapsed false := by
  constructor
  · intro canonical t member
    obtain ⟨r, root, h, rfl⟩ := mem_terms_iff.mp member
    apply (canonical.isCollapsed r h (.root root)).atRoot
    rw [length_children_unfold, kind_unfold]
    exact canonical.root r h root
  · intro collapsed
    have atRoot : ∀ (r : Nat) (h : r < f.size), r ∈ f.roots → (f.unfold r h).IsCollapsed false :=
      fun r h root => collapsed _ (mem_terms_iff.mpr ⟨r, root, f.unfolds_unfold r h⟩)
    have bareRoot : ∀ (r : Nat) (h : r < f.size), r ∈ f.roots →
        (f.node r h).children.length = 1 → (f.node r h).kind = .call := by
      intro r h root single
      rw [← length_children_unfold h] at single
      rw [← kind_unfold h]
      exact (atRoot r h root).kind_of_single single
    refine ⟨fun i h reachable => ?_, bareRoot⟩
    have form := isCollapsed_of_reachable collapsed reachable h
    match children : (f.node i h).children with
    | [] => exact .inl children
    | first :: second :: more => exact .inr (.inl (by rw [children]; simp))
    | [body] =>
      have member : body ∈ (f.node i h).children := by
        rw [children]
        exact List.mem_singleton_self body
      have inside : body < f.size := Nat.lt_trans (f.children_lt i h body member) h
      rcases form.single (children_unfold_single h children inside) with call | ⟨group, needed⟩
      · exact .inr (.inr (.inl ⟨(kind_unfold h).symm.trans call, by rw [children]; rfl⟩))
      · rw [kind_unfold] at group needed
        refine .inr (.inr (.inr ⟨fun root => ?_, group, body, inside, children, needed⟩))
        have call := bareRoot i h root (by rw [children]; rfl)
        cases group.symm.trans call

/-! ## 4. Collapsing

With the two forms of the condition the results on terms carry over: collapsing an unmarked forest
gives a canonical one, and an unmarked copy of a canonical one collapses to an equal one. -/

/-- **Collapsing an unmarked forest gives a canonical one.** -/
theorem isCanonical_collapse (unmarked : f.collapsed = false) : f.collapse.IsCanonical := by
  rw [isCanonical_iff, terms_collapse unmarked]
  intro t member
  obtain ⟨t, _, rfl⟩ := List.mem_map.mp member
  exact Term.isCollapsed_bare (Term.isCollapsed_collapse t false)

/-- Equal forests are canonical together. -/
theorem IsCanonical.of_same (canonical : f.IsCanonical) (copy : g.same f = true) :
    g.IsCanonical := by
  rw [isCanonical_iff] at canonical ⊢
  rwa [same_iff.mp copy]

/-- Collapsing changes no term of a canonical forest. -/
theorem IsCanonical.map_collapse (canonical : f.IsCanonical) :
    (f.terms.map fun t => (t.collapse false).bare) = f.terms := by
  conv_rhs => rw [← List.map_id f.terms]
  apply List.map_congr_left
  intro t member
  have collapsed := isCanonical_iff.mp canonical t member
  rw [Term.collapse_eq_self collapsed, Term.bare_eq_self collapsed, id]

/-- **A canonical forest collapses to its own terms.** -/
theorem terms_collapse_of_isCanonical (canonical : f.IsCanonical)
    (unmarked : f.collapsed = false) : f.collapse.terms = f.terms := by
  rw [terms_collapse unmarked, canonical.map_collapse]

/-- An unmarked copy of a canonical forest collapses to an equal forest. -/
theorem IsCanonical.same_collapse (canonical : f.IsCanonical) (unmarked : g.collapsed = false)
    (copy : g.same f = true) : g.collapse.same f = true := by
  rw [same_iff, terms_collapse_of_isCanonical (canonical.of_same copy) unmarked]
  exact same_iff.mp copy

/-! ## 5. The forests that can be built

A mark says that a forest is collapsed, and the pass believes it.  So whether collapsing is
idempotent is a question of how marks come about: only by collapsing, and they are taken off by
every change.  The invariant goes over all the ways to make a forest. -/

/-- **The forests that can be built**: by adding nodes and roots, naming the source, taking over a
parse tree, and collapsing. -/
inductive Built : Forest → Prop
  | empty : Built empty
  | addNode {f g : Forest} {kind : Kind} {slice : String} {children : List Nat} {i : Nat}
    (built : Built f) (added : (addNode kind slice children).run f = .ok i g) : Built g
  | pushRoot {f g : Forest} {i : Nat} (built : Built f)
    (added : (pushRoot i).run f = .ok () g) : Built g
  | setSource {f : Forest} (source : String) (built : Built f) : Built (f.setSource source)
  | ofTree {f : Forest} {tree : ParseTree} (read : ofTree tree = .ok f) : Built f
  | collapse {f : Forest} (built : Built f) : Built f.collapse

/-- A node whose children are there can be added. -/
theorem Built.grow (built : Built f) (kind : Kind) (slice : String) (children : List Nat)
    (h : ∀ c ∈ children, c < f.size) : Built (f.grow kind slice children h) :=
  .addNode built (run_addNode h)

/-- A node that is there can be made a root. -/
theorem Built.grantRoot (built : Built f) (i : Nat) (h : i < f.size) :
    Built (f.grantRoot i h) :=
  .pushRoot built (run_pushRoot h)

theorem collapsed_addNode {kind : Kind} {slice : String} {children : List Nat} {i : Nat}
    (added : (addNode kind slice children).run f = .ok i g) : g.collapsed = false := by
  rcases f.run_addNode_cases kind slice children with ⟨inside, grown⟩ | ⟨_, -, -, refused⟩
  · cases grown.symm.trans added
    rfl
  · cases refused.symm.trans added

theorem collapsed_pushRoot {i : Nat} (added : (pushRoot i).run f = .ok () g) :
    g.collapsed = false := by
  rcases f.run_pushRoot_cases i with ⟨inside, granted⟩ | ⟨-, refused⟩
  · cases granted.symm.trans added
    rfl
  · cases refused.symm.trans added

theorem collapsed_ofTerms (ts : List Term) : (ofTerms ts).collapsed = false := by
  have onto : ∀ (ts : List Term) (f : Forest), f.collapsed = false →
      (ts.foldl plantRoot f).collapsed = false := by
    intro ts
    induction ts with
    | nil => exact fun f unmarked => unmarked
    | cons t rest ih => exact fun f _ => ih (plantRoot f t) rfl
  exact onto ts empty rfl

theorem collapsed_ofTree {tree : ParseTree} (read : ofTree tree = .ok f) :
    f.collapsed = false := by
  rw [ofTree] at read
  cases terms : termsOfTree tree with
  | error fault => rw [terms] at read; cases read
  | ok ts =>
    rw [terms] at read
    cases read
    exact collapsed_ofTerms ts

/-- **A mark is right** on every forest that can be built.  By induction on how it was built.  What
adds to a forest takes its mark off, and what puts the mark on has collapsed it. -/
theorem Built.isCanonical (built : Built f) : f.collapsed = true → f.IsCanonical := by
  induction built with
  | empty => intro marked; cases marked
  | addNode _ added _ =>
    intro marked
    rw [collapsed_addNode added] at marked
    cases marked
  | pushRoot _ added _ =>
    intro marked
    rw [collapsed_pushRoot added] at marked
    cases marked
  | setSource source _ ih =>
    intro marked
    have canonical := ih marked
    rw [isCanonical_iff] at canonical ⊢
    rwa [terms_setSource]
  | ofTree read =>
    intro marked
    rw [collapsed_ofTree read] at marked
    cases marked
  | @collapse f _ ih =>
    intro _
    cases marked : f.collapsed with
    | true =>
      rw [collapse_of_collapsed marked]
      exact ih marked
    | false => exact isCanonical_collapse marked

/-- The collapsed form of a forest that can be built is canonical, marked or not. -/
theorem Built.isCanonical_collapse (built : Built f) : f.collapse.IsCanonical :=
  built.collapse.isCanonical f.collapsed_collapse

/-- **Collapsing reaches a canonical form, and a second pass changes nothing.**  Every forest that
can be built collapses to a canonical one; any unmarked copy of a canonical forest collapses to an
equal one; so any unmarked copy of a collapsed forest does. -/
theorem collapse_canonical :
    (∀ f : Forest, Built f → f.collapse.IsCanonical) ∧
    (∀ f copy : Forest, f.IsCanonical → copy.collapsed = false → copy.same f = true →
      copy.collapse.same f = true) ∧
    (∀ f copy : Forest, Built f → copy.collapsed = false → copy.same f.collapse = true →
      copy.collapse.same f.collapse = true) :=
  ⟨fun _ built => built.isCanonical_collapse,
    fun _ _ canonical unmarked same => canonical.same_collapse unmarked same,
    fun _ _ built unmarked same => built.isCanonical_collapse.same_collapse unmarked same⟩

/-- Two groups around a symbol, both shared: the outer one is a root of its own and stands, with
the inner one and the symbol, below a call. -/
def sharedGroups : Forest :=
  let symbol := empty.grow .symbol "x" [] (by simp)
  let inner := symbol.grow .group "(x)" [0] (by simp [symbol, size_grow])
  let outer := inner.grow .group "((x))" [1] (by simp [inner, symbol, size_grow])
  let call := outer.grow .call "x((x))" [0, 2, 1] (by simp [outer, inner, symbol, size_grow])
  (call.grantRoot 3 (by simp [call, outer, inner, symbol, size_grow])).grantRoot 2
    (by simp [grantRoot, size, call, outer, inner, symbol, grow, empty])

theorem built_sharedGroups : Built sharedGroups := by
  have nodes := (((Built.empty.grow .symbol "x" [] (by simp)).grow .group "(x)" [0]
    (by simp [size_grow])).grow .group "((x))" [1] (by simp [size_grow])).grow .call "x((x))"
    [0, 2, 1] (by simp [size_grow])
  exact (nodes.grantRoot 3 (by simp [size_grow])).grantRoot 2
    (by simp [grantRoot, size, grow, empty])

/-- Taking the mark away makes a copy. -/
theorem same_unmark (f : Forest) : f.unmark.same f = true :=
  same_iff.mpr (terms_unmark f)

/-- Shared groups collapse to a canonical forest, and its unmarked copy collapses to it again. -/
theorem collapse_canonical_sharedGroups :
    Built sharedGroups ∧ sharedGroups.collapse.IsCanonical ∧
      sharedGroups.collapse.unmark.collapsed = false ∧
      sharedGroups.collapse.unmark.same sharedGroups.collapse = true ∧
      sharedGroups.collapse.unmark.collapse.same sharedGroups.collapse.unmark = true ∧
      sharedGroups.collapse.unmark.collapse.same sharedGroups.collapse = true := by
  have canonical := (collapse_canonical.1 _ built_sharedGroups).of_same (same_unmark _)
  have again := collapse_canonical.2.1 _ _ canonical rfl (same_iff.mpr rfl)
  have twice := collapse_canonical.2.2 _ _ built_sharedGroups rfl (same_unmark _)
  exact ⟨built_sharedGroups, built_sharedGroups.isCanonical_collapse, rfl, same_unmark _, again,
    twice⟩

end Forest
end DecimalExpression
