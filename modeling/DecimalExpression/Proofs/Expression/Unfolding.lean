import DecimalExpression.Expression.Collapse
import Mathlib.Data.List.Forall2

/-!
# What forests unfold to

A forest is a layout of its terms, and most of what is said of forests is said of the terms.  This
module lets the two be exchanged.

* `Forest.Unfolds f i t`: node `i` unfolds to `t`.  The children of a node unfold to the children
  of its term, one by one (`unfolds_iff`).
* A forest that another one extends unfolds alike in both (`Extends.unfold_eq`), so planting says
  nothing new about the nodes that were there (`plant_spec`).
* `terms_ofTerms`, `terms_collapse`: what the roots of planted and of collapsed forests unfold to.
* `same_iff`: equality of forests is equality of their terms.
-/

namespace DecimalExpression

/-! ## 1. Induction on terms

Terms contain lists of terms, so the induction that Lean derives for them has a second statement for
lists.  `Term.induct` gets rid of it: what is to be shown of a term may use it for all terms
below. -/

namespace Term

/-- A statement about terms holds of a term if it holds of the terms below. -/
@[elab_as_elim, induction_eliminator]
theorem induct {motive : Term → Prop}
    (node : ∀ kind text children, (∀ child ∈ children, motive child) →
      motive ⟨kind, text, children⟩) (t : Term) : motive t := by
  refine @Term.rec motive (fun children => ∀ child ∈ children, motive child) node ?_ ?_ t
  · intro child absent
    cases absent
  · intro first more atFirst atMore child member
    rcases List.mem_cons.mp member with rfl | later
    · exact atFirst
    · exact atMore child later

/-- **The bare term**: single children are followed down, but not into a call. -/
def bare : Term → Term
  | ⟨.call, text, [only]⟩ => ⟨.call, text, [only]⟩
  | ⟨_, _, [only]⟩ => only.bare
  | t => t

end Term

namespace Forest

variable {f g : Forest}

/-! ## 2. Nodes and their terms

A node says as much about its term as the indexes of its children do.  `unfolds_iff` is the one fact
that the rest goes by: kind and text agree, and the children unfold one by one. -/

theorem childrenOf_val (f : Forest) (i : Nat) (h : i < f.size) :
    (f.childrenOf i h).map Fin.val = (f.node i h).children := by
  rw [childrenOf, List.map_map]
  exact List.attach_map_subtype_val _

/-- Nodes that are the same have the same children. -/
theorem childrenOf_eq {i : Nat} (h : i < f.size) (h' : i < g.size)
    (same : g.node i h' = f.node i h) : g.childrenOf i h' = f.childrenOf i h := by
  apply List.map_injective_iff.mpr fun _ _ => Fin.ext
  rw [childrenOf_val, childrenOf_val, same]

theorem length_childrenOf (f : Forest) (i : Nat) (h : i < f.size) :
    (f.childrenOf i h).length = (f.node i h).children.length := by
  rw [← childrenOf_val, List.length_map]

theorem rootNodes_val (f : Forest) : f.rootNodes.map Fin.val = f.roots.toList := by
  rw [rootNodes, List.map_map]
  exact List.attach_map_subtype_val _

theorem length_rootNodes (f : Forest) : f.rootNodes.length = f.roots.size := by
  rw [← Array.length_toList, ← rootNodes_val, List.length_map]

theorem kind_unfold {i : Nat} (h : i < f.size) : (f.unfold i h).kind = (f.node i h).kind := by
  rw [unfold]

theorem text_unfold {i : Nat} (h : i < f.size) : (f.unfold i h).text = (f.node i h).text := by
  rw [unfold]

theorem children_unfold {i : Nat} (h : i < f.size) : (f.unfold i h).children
    = (f.childrenOf i h).map fun c => f.unfold c.val (f.child_lt c h) := by
  rw [unfold]

theorem length_children_unfold {i : Nat} (h : i < f.size) :
    (f.unfold i h).children.length = (f.node i h).children.length := by
  rw [children_unfold, List.length_map, length_childrenOf]

/-- Node `i` is there and unfolds to `t`. -/
def Unfolds (f : Forest) (i : Nat) (t : Term) : Prop :=
  ∃ h : i < f.size, f.unfold i h = t

theorem unfolds_unfold (f : Forest) (i : Nat) (h : i < f.size) : f.Unfolds i (f.unfold i h) :=
  ⟨h, rfl⟩

theorem Unfolds.unique {i : Nat} {t u : Term} (ht : f.Unfolds i t) (hu : f.Unfolds i u) :
    t = u := by
  obtain ⟨h, rfl⟩ := ht
  obtain ⟨_, rfl⟩ := hu
  rfl

/-- Indexes that unfold to the terms of two lists have the same terms in both. -/
theorem forall₂_unfolds_unique {indexes : List Nat} {ts us : List Term}
    (ht : List.Forall₂ f.Unfolds indexes ts) (hu : List.Forall₂ f.Unfolds indexes us) :
    ts = us :=
  List.right_unique_forall₂' (R := f.Unfolds) (fun _ _ _ first second => first.unique second) ht hu

/-- Bounded indexes and what they unfold to, one by one. -/
theorem forall₂_unfolds_map {n : Nat} (indexes : List (Fin n)) (h : ∀ c : Fin n, c.val < f.size) :
    List.Forall₂ f.Unfolds (indexes.map Fin.val) (indexes.map fun c => f.unfold c.val (h c)) := by
  rw [List.forall₂_map_left_iff, List.forall₂_map_right_iff, List.forall₂_same]
  intro c _
  exact f.unfolds_unfold c.val (h c)

/-- **A node and its term** agree in kind and text, and the children unfold one by one. -/
theorem unfolds_iff {i : Nat} (h : i < f.size) {t : Term} :
    f.Unfolds i t ↔ (f.node i h).kind = t.kind ∧ (f.node i h).text = t.text ∧
      List.Forall₂ f.Unfolds (f.node i h).children t.children := by
  have below := f.forall₂_unfolds_map (f.childrenOf i h) (fun c => f.child_lt c h)
  rw [childrenOf_val] at below
  constructor
  · rintro ⟨_, rfl⟩
    rw [unfold]
    exact ⟨rfl, rfl, below⟩
  · rintro ⟨kind, text, children⟩
    obtain ⟨_, _, _⟩ := t
    refine ⟨h, ?_⟩
    rw [unfold, kind, text, forall₂_unfolds_unique below children]

/-- What the roots unfold to are the terms, and nothing else is. -/
theorem terms_eq_iff {ts : List Term} :
    f.terms = ts ↔ List.Forall₂ f.Unfolds f.roots.toList ts := by
  have roots := f.forall₂_unfolds_map f.rootNodes f.root_lt
  rw [rootNodes_val] at roots
  constructor
  · rintro rfl
    exact roots
  · exact forall₂_unfolds_unique roots

/-! ## 3. Extension

Nodes are only added behind others and never changed, so a node unfolds in a larger forest to what
it unfolded to before.  This is why a term that was planted early is still there at the end. -/

/-- `g` has the nodes of `f`, and perhaps more behind them. -/
structure Extends (f g : Forest) : Prop where
  size_le : f.size ≤ g.size
  node_eq : ∀ (i : Nat) (h : i < f.size), g.node i (Nat.lt_of_lt_of_le h size_le) = f.node i h

theorem extends_of_nodes_eq (h : g.nodes = f.nodes) : Extends f g := by
  obtain ⟨_, _, _, _, _, _⟩ := f
  obtain ⟨_, _, _, _, _, _⟩ := g
  cases h
  exact ⟨Nat.le_refl _, fun _ _ => rfl⟩

theorem Extends.refl (f : Forest) : Extends f f := extends_of_nodes_eq rfl

theorem Extends.trans {h : Forest} (first : Extends f g) (second : Extends g h) :
    Extends f h where
  size_le := Nat.le_trans first.size_le second.size_le
  node_eq := fun i inside => by
    rw [second.node_eq i (Nat.lt_of_lt_of_le inside first.size_le), first.node_eq i inside]

theorem extends_grow (f : Forest) (kind : Kind) (text : String) (children : List Nat)
    (h : ∀ c ∈ children, c < f.size) : Extends f (f.grow kind text children h) where
  size_le := by rw [size_grow]; omega
  node_eq := fun i inside => by
    simp only [node, grow, Array.getElem_push_lt inside]

/-- **What is there unfolds alike in every extension.** -/
theorem Extends.unfold_eq (h : Extends f g) (i : Nat) (inside : i < f.size) :
    g.unfold i (Nat.lt_of_lt_of_le inside h.size_le) = f.unfold i inside := by
  induction i using Nat.strongRecOn with
  | ind i ih =>
    rw [unfold, unfold, h.node_eq i inside, childrenOf_eq inside _ (h.node_eq i inside)]
    congr 1
    apply List.map_congr_left
    intro c _
    exact ih c.val c.isLt (f.child_lt c inside)

theorem Extends.unfolds {i : Nat} {t : Term} (h : Extends f g) (ht : f.Unfolds i t) :
    g.Unfolds i t := by
  obtain ⟨inside, rfl⟩ := ht
  exact ⟨Nat.lt_of_lt_of_le inside h.size_le, h.unfold_eq i inside⟩

theorem Extends.forall₂_unfolds {indexes : List Nat} {ts : List Term} (h : Extends f g)
    (unfolds : List.Forall₂ f.Unfolds indexes ts) : List.Forall₂ g.Unfolds indexes ts :=
  unfolds.imp fun _ _ => h.unfolds

/-- The node that was added last. -/
theorem node_grow_last (f : Forest) (kind : Kind) (text : String) (children : List Nat)
    (h : ∀ c ∈ children, c < f.size) (inside : f.size < (f.grow kind text children h).size) :
    (f.grow kind text children h).node f.size inside = ⟨kind, text, children⟩ := by
  simp [node, grow, size]

theorem terms_of_nodes_eq (nodes : g.nodes = f.nodes) (roots : g.roots = f.roots) :
    g.terms = f.terms := by
  rw [terms_eq_iff, roots]
  exact (extends_of_nodes_eq nodes).forall₂_unfolds (terms_eq_iff.mp rfl)

@[simp] theorem terms_setSource (f : Forest) (source : String) :
    (f.setSource source).terms = f.terms := terms_of_nodes_eq rfl rfl

@[simp] theorem terms_markCollapsed (f : Forest) : f.markCollapsed.terms = f.terms :=
  terms_of_nodes_eq rfl rfl

@[simp] theorem terms_unmark (f : Forest) : f.unmark.terms = f.terms :=
  terms_of_nodes_eq rfl rfl

@[simp] theorem terms_empty : empty.terms = [] := terms_eq_iff.mpr .nil

/-- **A new root** adds its term behind the others. -/
theorem terms_grantRoot {i : Nat} {h : i < f.size} {t : Term} (ht : f.Unfolds i t) :
    (f.grantRoot i h).terms = f.terms ++ [t] := by
  have same : Extends f (f.grantRoot i h) := extends_of_nodes_eq rfl
  rw [terms_eq_iff]
  have roots : (f.grantRoot i h).roots.toList = f.roots.toList ++ [i] := Array.toList_push
  rw [roots]
  exact List.rel_append (same.forall₂_unfolds (terms_eq_iff.mp rfl))
    (.cons (same.unfolds ht) .nil)

/-! ## 4. Planting

Planting adds the nodes of a term behind all others, and says which index the term has: the last.
The specification is a structure, because a row of terms is planted by a loop that keeps it. -/

/-- What planting a term does: the forest is extended by a last node that unfolds to the term, and
its roots and its source stay. -/
structure Plants (f g : Forest) (t : Term) : Prop where
  extends_forest : Extends f g
  roots_eq : g.roots = f.roots
  source_eq : g.source = f.source
  unfolds : g.Unfolds (g.size - 1) t

/-- What planting terms in turn does: those planted so far stay, and those planted now unfold to
the terms, one by one. -/
structure PlantsAll (before after : Planting f) (ts : List Term) : Prop where
  extends_forest : Extends before.forest after.forest
  roots_eq : after.forest.roots = before.forest.roots
  source_eq : after.forest.source = before.forest.source
  unfolds : ∃ new, after.planted.toList = before.planted.toList ++ new ∧
    List.Forall₂ after.forest.Unfolds new ts

theorem plantsAll_of_forall {ts : List Term}
    (each : ∀ t ∈ ts, ∀ f : Forest, Plants f (plant f t).val t) (before : Planting f) :
    PlantsAll before (plantAll f before ts) ts := by
  induction ts generalizing before with
  | nil =>
    rw [plantAll]
    exact ⟨.refl _, rfl, rfl, [], (List.append_nil _).symm, .nil⟩
  | cons t rest ih =>
    obtain ⟨forest, planted, grown, planted_lt⟩ := before
    have first := each t List.mem_cons_self forest
    have more := ih (fun u hu => each u (List.mem_cons_of_mem t hu))
      (.push planted (plant forest t).val grown planted_lt (plant forest t).property)
    obtain ⟨new, planted_eq, unfolds⟩ := more.unfolds
    rw [plantAll]
    refine ⟨first.extends_forest.trans more.extends_forest,
      more.roots_eq.trans first.roots_eq, more.source_eq.trans first.source_eq,
      ((plant forest t).val.size - 1) :: new, ?_, ?_⟩
    · rw [planted_eq, Planting.push, Array.toList_push, List.append_assoc, List.singleton_append]
    · exact .cons (more.extends_forest.unfolds first.unfolds) unfolds

/-- **A planted term** is what the last node unfolds to.  By induction on the term: the children are
planted in front, later nodes leave them as they are, and the last node has their indexes. -/
theorem plant_spec (t : Term) : ∀ f : Forest, Plants f (plant f t).val t := by
  induction t with
  | node kind text children ih =>
    intro f
    have below := plantsAll_of_forall ih (⟨f, #[], Nat.le_refl _, by simp⟩ : Planting f)
    obtain ⟨new, planted_eq, unfolds⟩ := below.unfolds
    set planting := plantAll f ⟨f, #[], Nat.le_refl _, by simp⟩ children
    have planted : (plant f ⟨kind, text, children⟩).val
        = planting.forest.grow kind text planting.planted.toList planting.planted_lt := rfl
    rw [planted]
    have last := extends_grow planting.forest kind text planting.planted.toList
      planting.planted_lt
    refine ⟨below.extends_forest.trans last, below.roots_eq, below.source_eq, ?_⟩
    have inside : planting.forest.size
        < (planting.forest.grow kind text planting.planted.toList planting.planted_lt).size := by
      rw [size_grow]
      omega
    have children_unfold :
        List.Forall₂ planting.forest.Unfolds planting.planted.toList children := by
      rw [planted_eq]
      exact unfolds
    rw [size_grow, Nat.add_sub_cancel, unfolds_iff inside, node_grow_last]
    exact ⟨rfl, rfl, last.forall₂_unfolds children_unfold⟩

theorem terms_plantRoot (f : Forest) (t : Term) : (plantRoot f t).terms = f.terms ++ [t] := by
  have planted := plant_spec t f
  rw [plantRoot, terms_grantRoot planted.unfolds]
  congr 1
  rw [terms_eq_iff, planted.roots_eq]
  exact planted.extends_forest.forall₂_unfolds (terms_eq_iff.mp rfl)

/-- The terms of planted terms are those terms. -/
@[simp] theorem terms_ofTerms (ts : List Term) : (ofTerms ts).terms = ts := by
  have onto : ∀ (ts : List Term) (f : Forest), (ts.foldl plantRoot f).terms = f.terms ++ ts := by
    intro ts
    induction ts with
    | nil => intro f; rw [List.foldl_nil, List.append_nil]
    | cons t rest ih =>
      intro f
      rw [List.foldl_cons, ih, terms_plantRoot, List.append_assoc, List.singleton_append]
  rw [ofTerms, onto, terms_empty, List.nil_append]

/-! ## 5. Collapsed forests

A collapsed forest is described by its terms, and this is where the description comes from: the
roots are the bare ones of the collapsed terms. -/

/-- The bare root of a node unfolds to the bare term of the node.  By induction on the index, by the
number of children. -/
theorem unfolds_bareRoot (f : Forest) (i : Nat) (h : i < f.size) :
    f.Unfolds (f.bareRoot i h).val (f.unfold i h).bare := by
  induction i using Nat.strongRecOn with
  | ind i ih =>
    have itself : f.Unfolds i (f.unfold i h) := f.unfolds_unfold i h
    rw [unfold] at itself ⊢
    rw [bareRoot]
    cases children : f.childrenOf i h with
    | nil =>
      rw [children] at itself
      simpa [Term.bare] using itself
    | cons only more =>
      cases more with
      | nil =>
        rw [children] at itself
        by_cases call : (f.node i h).kind = .call
        · simpa [Term.bare, call] using itself
        · have below := ih only.val only.isLt (f.child_lt only h)
          simpa [Term.bare, call] using below
      | cons second rest =>
        rw [children] at itself
        simpa [Term.bare] using itself

theorem terms_plantCollapsed (f : Forest) (t : Term) :
    (plantCollapsed f t).terms = f.terms ++ [(t.collapse false).bare] := by
  have planted := plant_spec (t.collapse false) f
  have inside : (plant f (t.collapse false)).val.size - 1
      < (plant f (t.collapse false)).val.size := by
    have := (plant f (t.collapse false)).property
    omega
  have root := unfolds_bareRoot _ _ inside
  rw [planted.unfolds.unique (unfolds_unfold _ _ inside)]
  rw [plantCollapsed, terms_grantRoot root]
  congr 1
  rw [terms_eq_iff, planted.roots_eq]
  exact planted.extends_forest.forall₂_unfolds (terms_eq_iff.mp rfl)

/-- **The terms of a collapsed forest** are the bare collapsed terms. -/
theorem terms_collapse (h : f.collapsed = false) :
    f.collapse.terms = f.terms.map fun t => (t.collapse false).bare := by
  have onto : ∀ (ts : List Term) (g : Forest), (ts.foldl plantCollapsed g).terms
      = g.terms ++ ts.map fun t => (t.collapse false).bare := by
    intro ts
    induction ts with
    | nil => intro g; rw [List.foldl_nil, List.map_nil, List.append_nil]
    | cons t rest ih =>
      intro g
      rw [List.foldl_cons, ih, terms_plantCollapsed, List.append_assoc, List.map_cons,
        List.singleton_append]
  rw [collapse, h]
  simp [onto]

theorem collapse_of_collapsed (h : f.collapsed = true) : f.collapse = f := by
  rw [collapse, h]
  rfl

@[simp] theorem source_collapse (f : Forest) : f.collapse.source = f.source := by
  rw [collapse]
  split <;> rfl

@[simp] theorem collapsed_collapse (f : Forest) : f.collapse.collapsed = true := by
  rw [collapse]
  split
  · assumption
  · rfl

/-! ## 6. Equality

Comparing goes down two forests at once, by induction on the first index.  It ends at leaves, and at
two nodes that differ. -/

/-- Two nodes are alike all the way down exactly when they unfold to one term. -/
theorem sameNode_iff (i : Nat) (hi : i < f.size) (j : Nat) (hj : j < g.size) :
    f.sameNode g i hi j hj = true ↔ f.unfold i hi = g.unfold j hj := by
  induction i using Nat.strongRecOn generalizing j with
  | ind i ih =>
    have below : (∀ pair ∈ (f.childrenOf i hi).zip (g.childrenOf j hj),
          f.sameNode g pair.1.val (f.child_lt pair.1 hi) pair.2.val (g.child_lt pair.2 hj) = true)
        ↔ ∀ pair ∈ (f.childrenOf i hi).zip (g.childrenOf j hj),
          f.unfold pair.1.val (f.child_lt pair.1 hi)
            = g.unfold pair.2.val (g.child_lt pair.2 hj) :=
      forall₂_congr fun pair _ => ih pair.1.val pair.1.isLt _ pair.2.val _
    rw [sameNode, unfold, unfold]
    simp only [Bool.and_eq_true, decide_eq_true_eq, List.all_eq_true, below, Term.mk.injEq,
      and_assoc]
    refine and_congr_right fun _ => and_congr_right fun _ => ?_
    rw [← List.forall₂_eq_eq_eq, List.forall₂_map_left_iff, List.forall₂_map_right_iff,
      List.forall₂_iff_zip, length_childrenOf, length_childrenOf]
    exact and_congr_right fun _ => ⟨fun h a b m => h (a, b) m, fun h pair m => h m⟩

/-- **Equality of forests is equality of their terms.** -/
theorem same_iff : f.same g = true ↔ f.terms = g.terms := by
  have below : (∀ pair ∈ f.rootNodes.zip g.rootNodes,
        f.sameNode g pair.1.val (f.root_lt pair.1) pair.2.val (g.root_lt pair.2) = true)
      ↔ ∀ pair ∈ f.rootNodes.zip g.rootNodes,
        f.unfold pair.1.val (f.root_lt pair.1) = g.unfold pair.2.val (g.root_lt pair.2) :=
    forall₂_congr fun pair _ => sameNode_iff _ _ _ _
  rw [same, terms, terms]
  simp only [Bool.and_eq_true, decide_eq_true_eq, List.all_eq_true, below, ← length_rootNodes]
  rw [← List.forall₂_eq_eq_eq, List.forall₂_map_left_iff, List.forall₂_map_right_iff,
    List.forall₂_iff_zip]
  exact and_congr_right fun _ => ⟨fun h a b m => h (a, b) m, fun h pair m => h m⟩

end Forest
end DecimalExpression
