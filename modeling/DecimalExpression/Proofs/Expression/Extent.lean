import DecimalExpression.Proofs.Evaluation.Pipeline
import DecimalExpression.Proofs.Syntax.Depth
import Mathlib

/-!
# No pass adds depth or nodes

The height of a parse tree is checked once, when a source is read.  What comes later only loses: the
term of a tree is no higher and no larger than the tree (`extent_ofTree`), a collapsed term no
higher and no larger than the term (`Term.extent_collapse`), and a bare term is no higher than what
it was bared from.  Planting makes one node for each node of a term (`size_plant`), so the forest of
a tree has at most as many nodes as the tree, and the collapsed forest at most as many as that.

Height and size together are the **extent** of a tree or a term.
-/

namespace DecimalExpression

/-! ## 1. Extents

Height and size are treated together as one pair, ordered in both places.  What is needed about a
node is that the extent grows with the extents below it and with their number, for trees and for
terms. -/

/-- Measures added up from the left are the sum of the measures. -/
theorem foldl_add_eq_sum {α : Type} (measure : α → Nat) (l : List α) (total : Nat) :
    l.foldl (fun total x => total + measure x) total = (l.map measure).sum + total := by
  rw [foldl_add_eq, List.sum_eq_foldl, List.foldl_map]

namespace Extent

/-- The extent of a node above others: height and size, from theirs. -/
def node (below : List (Nat × Nat)) : Nat × Nat :=
  ((below.map Prod.fst).foldr max 0 + 1, (below.map Prod.snd).sum + 1)

variable {es es' : List (Nat × Nat)}

/-- A node above more is no lower and no smaller. -/
theorem node_le_of_sublist (h : es.Sublist es') : node es ≤ node es' := by
  induction h with
  | slnil => exact le_refl _
  | cons e _ ih =>
    obtain ⟨height, size⟩ := ih
    simp only [node, List.map_cons, List.foldr_cons, List.sum_cons] at height size ⊢
    exact ⟨by simp only; omega, by simp only; omega⟩
  | cons_cons e _ ih =>
    obtain ⟨height, size⟩ := ih
    simp only [node, List.map_cons, List.foldr_cons, List.sum_cons] at height size ⊢
    exact ⟨by simp only; omega, by simp only; omega⟩

/-- A node above larger ones is no lower and no smaller. -/
theorem node_le_node (h : List.Forall₂ (· ≤ ·) es es') : node es ≤ node es' := by
  induction h with
  | nil => exact le_refl _
  | cons first _ ih =>
    obtain ⟨height, size⟩ := ih
    obtain ⟨firstHeight, firstSize⟩ := first
    simp only [node, List.map_cons, List.foldr_cons, List.sum_cons] at height size ⊢
    exact ⟨by simp only; omega, by simp only; omega⟩

/-- A node is no lower and no smaller than those below it. -/
theorem le_node {e : Nat × Nat} (member : e ∈ es) : e ≤ node es := by
  calc e ≤ node [e] := ⟨by simp [node], by simp [node]⟩
    _ ≤ node es := node_le_of_sublist (List.singleton_sublist.mpr member)

end Extent

/-- Height and size of a tree. -/
def ParseTree.extent (tree : ParseTree) : Nat × Nat := (tree.height, tree.size)

/-- Height and size of a term. -/
def Term.extent (t : Term) : Nat × Nat := (t.height, t.size)

/-- Measures folded in from the left make up the extent of a node. -/
theorem Extent.node_eq {α : Type} (height size : α → Nat) (below : List α) :
    (below.foldl (fun highest x => max highest (height x)) 0 + 1,
      below.foldl (fun total x => total + size x) 1)
      = node (below.map fun x => (height x, size x)) := by
  rw [foldl_add_eq_sum, node, List.map_map, List.map_map, ← List.foldl_map, List.foldl_eq_foldr]
  rfl

theorem ParseTree.extent_eq (tree : ParseTree) :
    tree.extent = Extent.node (tree.children.map extent) := by
  obtain ⟨_, _, children⟩ := tree
  rw [extent, height, size, Extent.node_eq]
  rfl

theorem Term.extent_eq (t : Term) : t.extent = Extent.node (t.children.map extent) := by
  obtain ⟨_, _, children⟩ := t
  rw [extent, height, size, Extent.node_eq]
  rfl

theorem ParseTree.extent_child_le {tree child : ParseTree} (member : child ∈ tree.children) :
    child.extent ≤ tree.extent := by
  rw [tree.extent_eq]
  exact Extent.le_node (List.mem_map_of_mem member)

theorem Term.extent_child_le {t child : Term} (member : child ∈ t.children) :
    child.extent ≤ t.extent := by
  rw [t.extent_eq]
  exact Extent.le_node (List.mem_map_of_mem member)

/-- **The first node with a choice** is no higher and no larger than the tree. -/
theorem ParseTree.extent_entry_le (tree : ParseTree) : tree.entry.extent ≤ tree.extent := by
  rw [entry.eq_def]
  split
  · rename_i only
    exact (extent_entry_le only).trans (extent_child_le (by simp))
  · exact le_refl _

theorem Term.height_child_lt {t child : Term} (member : child ∈ t.children) :
    child.height < t.height := by
  obtain ⟨_, _, children⟩ := t
  have highest := (foldl_max_le_iff Term.height children 0 _).mp (Nat.le_refl _)
  rw [height]
  exact Nat.lt_succ_of_le (highest.2 child member)

theorem Term.height_pos (t : Term) : 0 < t.height := by
  obtain ⟨_, _, _⟩ := t
  rw [height]
  exact Nat.succ_pos _

/-! ## 2. Terms of trees

Each production keeps some of its children and drops others.  A term above the terms of some
children is no larger than the tree above all of them, and with the induction on the height that is
all: no production adds a node. -/

namespace Term

/-- The terms of some trees, of which the tokens are left out.  By induction on the trees; those
that are kept are in their order. -/
theorem exists_of_filterMapM {trees : List ParseTree} {ts : List Term}
    (read : (trees.filterMapM fun child =>
      if child.production = .token then pure none
      else return some (← ofTree child)) = .ok ts) :
    ∃ kept, kept.Sublist trees ∧ List.Forall₂ (fun tree t => ofTree tree = .ok t) kept ts := by
  induction trees generalizing ts with
  | nil =>
    cases read
    exact ⟨[], .slnil, .nil⟩
  | cons tree trees ih =>
    rw [List.filterMapM_cons] at read
    split at read
    · obtain ⟨kept, sublist, each⟩ := ih read
      exact ⟨kept, sublist.cons tree, each⟩
    · obtain ⟨found, atFirst, read⟩ := bind_eq_ok read
      obtain ⟨t, term, whole⟩ := bind_eq_ok atFirst
      cases whole
      obtain ⟨more, atRest, read⟩ := bind_eq_ok read
      cases read
      obtain ⟨kept, sublist, each⟩ := ih atRest
      exact ⟨tree :: kept, sublist.cons_cons tree, .cons term each⟩

/-- **A term above the terms of some children of a tree** is no higher and no larger than it. -/
theorem extent_le_of_children {tree : ParseTree} {kept : List ParseTree}
    (sublist : kept.Sublist tree.children) {ts : List Term}
    (each : List.Forall₂ (fun child t => Term.extent t ≤ child.extent) kept ts)
    (kind : Kind) (text : String) : (⟨kind, text, ts⟩ : Term).extent ≤ tree.extent := by
  have below : List.Forall₂ (· ≤ ·) (ts.map extent) (kept.map ParseTree.extent) := by
    rw [List.forall₂_map_left_iff, List.forall₂_map_right_iff]
    exact each.flip
  rw [extent_eq, ParseTree.extent_eq]
  exact (Extent.node_le_node below).trans (Extent.node_le_of_sublist (sublist.map _))

theorem extent_leaf_le (kind : Kind) (text : String) (tree : ParseTree) :
    (leaf kind text).extent ≤ tree.extent :=
  extent_le_of_children (List.nil_sublist _) .nil kind text

theorem extent_signOf {sign : ParseTree} {text : String} {t : Term}
    (read : signOf sign text = .ok t) : t.extent ≤ sign.extent := by
  obtain ⟨-, -, read⟩ := bind_eq_ok read
  split at read
  · cases read
    exact extent_leaf_le _ _ _
  · cases read

theorem extent_nameOf {name : ParseTree} {t : Term} (read : nameOf name = .ok t) :
    t.extent ≤ name.extent := by
  obtain ⟨-, -, read⟩ := bind_eq_ok read
  cases read
  exact extent_leaf_le _ _ _

/-- **The term of a tree** is no higher and no larger than the tree.  By recursion on the tree, one
case for each way to translate a node.  Every child of the term is the term of another child of the
tree, and nothing is counted twice. -/
theorem extent_ofTree (tree : ParseTree) :
    ∀ t, ofTree tree = .ok t → t.extent ≤ tree.extent := by
  obtain ⟨production, text, children⟩ := tree
  have below : ∀ child ∈ children, ∀ t, ofTree child = .ok t → t.extent ≤ child.extent :=
    fun child member => extent_ofTree child
  have each : ∀ {kept : List ParseTree} {ts : List Term}, kept.Sublist children →
      List.Forall₂ (fun child t => ofTree child = .ok t) kept ts →
      List.Forall₂ (fun child t => Term.extent t ≤ child.extent) kept ts := by
    intro kept ts sublist read
    rw [List.forall₂_iff_zip] at read ⊢
    refine ⟨read.1, fun {child t} member => ?_⟩
    exact below child (sublist.subset (List.of_mem_zip member).1) t (read.2 member)
  intro t read
  rw [ofTree.eq_def] at read
  obtain ⟨-, -, parts⟩ := bind_eq_ok read
  clear read
  split at parts
  · rename_i only whole
    cases whole
    exact (below only (by simp) t parts).trans (ParseTree.extent_child_le (by simp))
  · rename_i condition question consequent colon alternative whole
    cases whole
    obtain ⟨-, -, parts⟩ := bind_eq_ok parts
    obtain ⟨-, -, parts⟩ := bind_eq_ok parts
    obtain ⟨-, -, parts⟩ := bind_eq_ok parts
    obtain ⟨c, atCondition, parts⟩ := bind_eq_ok parts
    obtain ⟨a, atConsequent, parts⟩ := bind_eq_ok parts
    obtain ⟨b, atAlternative, parts⟩ := bind_eq_ok parts
    cases parts
    have sublist : [condition, consequent, alternative].Sublist
        [condition, question, consequent, colon, alternative] :=
      .cons_cons _ (.cons _ (.cons_cons _ (.cons _ (.cons_cons _ .slnil))))
    exact extent_le_of_children sublist
      (.cons (below _ (by simp) c atCondition) (.cons (below _ (by simp) a atConsequent)
        (.cons (below _ (by simp) b atAlternative) .nil))) _ _
  · rename_i sign operand whole
    cases whole
    obtain ⟨s, atSign, parts⟩ := bind_eq_ok parts
    obtain ⟨o, atOperand, parts⟩ := bind_eq_ok parts
    cases parts
    have sublist : [sign, operand].Sublist [sign, operand] := .refl _
    exact extent_le_of_children sublist
      (.cons (extent_signOf atSign) (.cons (below _ (by simp) o atOperand) .nil)) _ _
  · rename_i opening body closing whole
    cases whole
    obtain ⟨b, atBody, parts⟩ := bind_eq_ok parts
    cases parts
    have sublist : [body].Sublist [opening, body, closing] :=
      .cons _ (.cons_cons _ (.cons _ .slnil))
    exact extent_le_of_children sublist
      (.cons (below _ (by simp) b atBody) .nil) _ _
  · rename_i name rest whole
    cases whole
    obtain ⟨n, atName, parts⟩ := bind_eq_ok parts
    obtain ⟨ts, atRest, parts⟩ := bind_eq_ok parts
    cases parts
    obtain ⟨kept, sublist, atKept⟩ := exists_of_filterMapM atRest
    exact extent_le_of_children (sublist.cons_cons name)
      (.cons (extent_nameOf atName) (each (sublist.cons name) atKept)) _ _
  · rename_i whole
    cases whole
    obtain ⟨ts, atChildren, parts⟩ := bind_eq_ok parts
    cases parts
    exact extent_le_of_children (.refl _) (each (.refl _) (forall₂_of_mapM atChildren)) _ _

/-! ## 3. Collapsed terms

Collapsing takes nodes away, or leaves them with children that are no larger. -/

/-- Children that change to no higher and no larger ones keep their node so. -/
theorem extent_map_le {children : List Term} {change : Term → Term}
    (each : ∀ child ∈ children, (change child).extent ≤ child.extent) (kind kind' : Kind)
    (text text' : String) :
    (⟨kind, text, children.map change⟩ : Term).extent
      ≤ (⟨kind', text', children⟩ : Term).extent := by
  rw [extent_eq, extent_eq]
  refine Extent.node_le_node ?_
  rw [List.map_map, List.forall₂_map_left_iff, List.forall₂_map_right_iff, List.forall₂_same]
  exact each

/-- **A collapsed term** is no higher and no larger than the term.  By induction on the term: a
layer that goes away lowers it, and what stays has the children it had. -/
theorem extent_collapse (t : Term) : ∀ inside, (t.collapse inside).extent ≤ t.extent := by
  induction t with
  | node kind text children ih =>
    intro inside
    have below : ∀ child ∈ children, (collapse true child).extent ≤ child.extent :=
      fun child member => ih child member true
    by_cases call : kind = .call
    · subst call
      rw [collapse_call]
      exact extent_map_le below _ _ _ _
    · match children with
      | [only] =>
        have within : (collapse true only).extent ≤ (⟨kind, text, [only]⟩ : Term).extent :=
          (below only (by simp)).trans (extent_child_le (by simp))
        by_cases group : kind = .group ∧ inside = true
        · obtain ⟨rfl, rfl⟩ := group
          rw [collapse_group_inside, regroup]
          split
          · exact within
          · exact extent_map_le below .group .group text text
        · rw [collapse_layer text only call (by simp_all)]
          exact within
      | [] =>
        rw [collapse_branch inside kind text (by simp)]
        exact extent_map_le below _ _ _ _
      | first :: second :: more =>
        rw [collapse_branch inside kind text (by simp)]
        exact extent_map_le below _ _ _ _

/-- **A bare term** is no higher and no larger than what it was bared from. -/
theorem extent_bare (t : Term) : t.bare.extent ≤ t.extent := by
  induction t with
  | node kind text children ih =>
    rw [bare.eq_def]
    split
    · rename_i whole
      rw [whole]
    · rename_i only _ whole
      cases whole
      exact (ih only (by simp)).trans (extent_child_le (by simp))
    · rfl

end Term

/-! ## 4. Forests

A planted term makes a node for each of its nodes, shared or not, so the size of a forest of a tree
is a sum of sizes of terms.  Paths down a forest are bounded by the height of the term that they
start at; that is how deep anything recursive on a node can go. -/

namespace Forest

variable {f : Forest}

theorem size_plantAll {ts : List Term}
    (each : ∀ t ∈ ts, ∀ f : Forest, (plant f t).val.size = f.size + t.size) (before : Planting f) :
    (plantAll f before ts).forest.size = before.forest.size + (ts.map Term.size).sum := by
  induction ts generalizing before with
  | nil => rw [plantAll]; rfl
  | cons t rest ih =>
    obtain ⟨forest, planted, grown, planted_lt⟩ := before
    rw [plantAll, ih fun u member => each u (List.mem_cons_of_mem t member)]
    rw [Planting.push, each t List.mem_cons_self, List.map_cons, List.sum_cons, Nat.add_assoc]

/-- **Planting a term makes a node for each of its nodes.** -/
theorem size_plant (t : Term) : ∀ f : Forest, (plant f t).val.size = f.size + t.size := by
  induction t with
  | node kind text children ih =>
    intro f
    have below := size_plantAll ih (⟨f, #[], Nat.le_refl _, by simp⟩ : Planting f)
    have size : (⟨kind, text, children⟩ : Term).size = (children.map Term.size).sum + 1 := by
      rw [Term.size, foldl_add_eq_sum]
    let planting := plantAll f ⟨f, #[], Nat.le_refl _, by simp⟩ children
    have planted : (plant f ⟨kind, text, children⟩).val.size = planting.forest.size + 1 :=
      size_grow planting.forest kind text planting.planted.toList planting.planted_lt
    rw [planted, below, size]
    rfl

/-- What plants each of some terms adds as many nodes as they have. -/
theorem size_foldl {plantOne : Forest → Term → Forest} {change : Term → Term}
    (one : ∀ f t, (plantOne f t).size = f.size + (change t).size) (ts : List Term) (f : Forest) :
    (ts.foldl plantOne f).size = f.size + (ts.map fun t => (change t).size).sum := by
  induction ts generalizing f with
  | nil => rfl
  | cons t rest ih =>
    rw [List.foldl_cons, ih, one, List.map_cons, List.sum_cons]
    omega

theorem size_ofTerms (ts : List Term) : (ofTerms ts).size = (ts.map Term.size).sum := by
  have one : ∀ (f : Forest) (t : Term), (plantRoot f t).size = f.size + (id t).size :=
    fun f t => size_plant t f
  exact (size_foldl one ts empty).trans (Nat.zero_add _)

theorem size_collapse (unmarked : f.collapsed = false) :
    f.collapse.size = (f.terms.map fun t => (t.collapse false).size).sum := by
  have one : ∀ (f : Forest) (t : Term),
      (plantCollapsed f t).size = f.size + (t.collapse false).size := fun f t => size_plant _ f
  rw [collapse, unmarked]
  exact (size_foldl one f.terms empty).trans (Nat.zero_add _)

/-- **The terms of a parse tree**, taken together below one node, are no higher and no larger than
the tree. -/
theorem extent_termsOfTree {tree : ParseTree} {ts : List Term}
    (read : termsOfTree tree = .ok ts) :
    (∀ t ∈ ts, t.height ≤ tree.height) ∧ (ts.map Term.size).sum ≤ tree.size := by
  unfold termsOfTree at read
  dsimp only at read
  split at read
  · obtain ⟨-, -, read⟩ := bind_eq_ok read
    have each := (forall₂_of_mapM read).imp fun child t => Term.extent_ofTree child t
    have whole : (⟨.additive, "", ts⟩ : Term).extent ≤ tree.extent :=
      (Term.extent_le_of_children (.refl _) each _ _).trans tree.extent_entry_le
    refine ⟨fun t member => ?_, ?_⟩
    · have atTerm : t.extent ≤ tree.extent := (Term.extent_child_le member).trans whole
      exact atTerm.1
    · have size : (⟨.additive, "", ts⟩ : Term).size = (ts.map Term.size).sum + 1 := by
        rw [Term.size, foldl_add_eq_sum]
      have bound : (⟨.additive, "", ts⟩ : Term).size ≤ tree.size := whole.2
      omega
  · obtain ⟨t, term, single⟩ := bind_eq_ok read
    cases single
    have atTerm : t.height ≤ tree.height ∧ t.size ≤ tree.size := Term.extent_ofTree tree t term
    exact ⟨by simpa using atTerm.1, by simpa using atTerm.2⟩

/-- **A path down a forest**, from a node to any node below it. -/
inductive Path (f : Forest) : Nat → List Nat → Prop
  | here (i : Nat) : Path f i [i]
  | child {i c : Nat} {path : List Nat} (h : i < f.size) (member : c ∈ (f.node i h).children)
    (onward : Path f c path) : Path f i (i :: path)

/-- **A path down a forest is no longer than the term is high** that it starts at. -/
theorem Path.length_le {i : Nat} {path : List Nat} (down : f.Path i path) :
    ∀ {t : Term}, f.Unfolds i t → path.length ≤ t.height := by
  induction down with
  | here i => exact fun {t} _ => t.height_pos
  | @child i c path h member onward ih =>
    intro t unfolds
    obtain ⟨u, below, atChild⟩ : ∃ u ∈ t.children, f.Unfolds c u := by
      obtain ⟨_, rfl⟩ := unfolds
      have inside : c < f.size := Nat.lt_trans (f.children_lt i h c member) h
      exact ⟨_, (mem_children_unfold h).mpr ⟨c, member, f.unfolds_unfold c inside⟩,
        f.unfolds_unfold c inside⟩
    have onward := ih atChild
    have higher := Term.height_child_lt below
    rw [List.length_cons]
    omega

/-- A path from a root is no longer than the highest term of the forest. -/
theorem Path.length_le_of_root {n : Nat} (within : ∀ t ∈ f.terms, t.height ≤ n) {r : Nat}
    (root : r ∈ f.roots) {path : List Nat} (down : f.Path r path) : path.length ≤ n := by
  have inside : r < f.size := f.roots_lt r root
  exact (down.length_le (f.unfolds_unfold r inside)).trans
    (within _ (mem_terms_iff.mpr ⟨r, root, f.unfolds_unfold r inside⟩))

/-- **The forest of a parse tree**: no root is higher than the tree, and there are no more nodes;
collapsing makes no root higher and adds no nodes. -/
theorem extent_ofTree {tree : ParseTree} (read : ofTree tree = .ok f) :
    (∀ t ∈ f.terms, t.height ≤ tree.height) ∧ f.size ≤ tree.size ∧
      List.Forall₂ (fun collapsed t => Term.height collapsed ≤ t.height) f.collapse.terms f.terms ∧
      f.collapse.size ≤ f.size := by
  have unmarked := collapsed_ofTree read
  rw [ofTree] at read
  cases terms : termsOfTree tree with
  | error fault => rw [terms] at read; cases read
  | ok ts =>
    rw [terms] at read
    cases read
    obtain ⟨heights, sizes⟩ := extent_termsOfTree terms
    have size : ((ofTerms ts).setSource tree.text).size = (ts.map Term.size).sum := size_ofTerms ts
    refine ⟨by rwa [terms_setSource, terms_ofTerms], by rwa [size], ?_, ?_⟩
    · rw [terms_collapse unmarked, terms_setSource, terms_ofTerms, List.forall₂_map_left_iff,
        List.forall₂_same]
      intro t _
      have bare : (t.collapse false).bare.extent ≤ t.extent :=
        (Term.extent_bare _).trans (t.extent_collapse false)
      exact bare.1
    · rw [size_collapse unmarked, terms_setSource, terms_ofTerms, size]
      exact List.sum_le_sum fun t _ => (t.extent_collapse false).2

/-- **The bound on the depth of a tree bounds every later pass.**  The depth of a tree is its
height.  A tree that is read from a source is at most as high as the limit; its forest has no root
higher than the tree and no more nodes, and the collapsed forest no root higher than the one it
comes from and no more nodes.  So what goes from a node to its children, in the tree or from the
roots of either forest, has at most as many levels as the limit. -/
theorem extent_of_ofSource :
    (∀ tree : ParseTree, tree.depth = tree.height) ∧
    ∀ (source : String) (tree : ParseTree), ParseTree.ofSource source = .ok tree →
      tree.height ≤ ParseTree.depthLimit ∧
      (∀ path, tree.Path path → path.length ≤ ParseTree.depthLimit) ∧
      ∃ f, ofTree tree = .ok f ∧
        (∀ t ∈ f.terms, t.height ≤ tree.height) ∧ f.size ≤ tree.size ∧
        List.Forall₂ (fun collapsed t => Term.height collapsed ≤ t.height)
          f.collapse.terms f.terms ∧
        f.collapse.size ≤ f.size ∧
        (∀ r ∈ f.roots, ∀ path, f.Path r path → path.length ≤ ParseTree.depthLimit) ∧
        (∀ r ∈ f.collapse.roots, ∀ path, f.collapse.Path r path →
          path.length ≤ ParseTree.depthLimit) := by
  refine ⟨ParseTree.depth_eq_height, fun source tree read => ?_⟩
  have height : tree.height ≤ ParseTree.depthLimit := by
    rw [← ParseTree.depth_eq_height]
    exact (ParseTree.ofSource_limits read).2
  refine ⟨height, (tree.height_le_iff_path _).mp height, ?_⟩
  obtain ⟨derives, labelled, nonempty⟩ := ParseTree.ofSource_sound read
  obtain ⟨f, forest, -⟩ := exists_represents derives labelled nonempty
  obtain ⟨heights, size, collapsedHeights, collapsedSize⟩ := extent_ofTree forest
  have within : ∀ t ∈ f.terms, t.height ≤ ParseTree.depthLimit := fun t member =>
    (heights t member).trans height
  have collapsedWithin : ∀ u ∈ f.collapse.terms, u.height ≤ ParseTree.depthLimit := by
    intro u member
    obtain ⟨i, inside, rfl⟩ := List.getElem_of_mem member
    have there : i < f.terms.length := collapsedHeights.length_eq ▸ inside
    exact (collapsedHeights.get inside there).trans (within _ (List.getElem_mem there))
  exact ⟨f, forest, heights, size, collapsedHeights, collapsedSize,
    fun r root path down => down.length_le_of_root within root,
    fun r root path down => down.length_le_of_root collapsedWithin root⟩

/-- For instance, a group around a sum stays behind in the collapsed forest, out of reach. -/
theorem extent_of_ofSource_group : ∃ tree, ParseTree.ofSource "(1 - min(x, 2))" = .ok tree ∧
    tree.height ≤ ParseTree.depthLimit ∧
    ∃ f, ofTree tree = .ok f ∧ f.size ≤ tree.size ∧ f.collapse.size ≤ f.size := by
  have parses : (ParseTree.ofSource "(1 - min(x, 2))").isOk = true := by cbv
  obtain ⟨tree, read⟩ := exists_of_isOk parses
  obtain ⟨height, -, f, forest, -, size, -, collapsedSize, -, -⟩ :=
    extent_of_ofSource.2 _ tree read
  exact ⟨tree, read, height, f, forest, size, collapsedSize⟩

end Forest

end DecimalExpression
