import DecimalExpression.Proofs.Evaluation.Pipeline
import DecimalExpression.Proofs.Expression.Canonical
import DecimalExpression.Proofs.Syntax.Fidelity
import Mathlib

/-!
# Leaves survive every pass in order

Neither taking a parse tree to a forest nor collapsing a forest loses, repeats or moves an operand,
an operator, a name or an argument (`Forest.leaves_passes`).  Collapsing keeps the leaves of every
root, of any forest, however it was built and shared (`Forest.leaves_collapse`): a node goes only
where its single child takes its place.  The term of a derived tree has the leaves of the tree, of
which only the parentheses of groups and calls and the marks of choices are left out
(`ParseTree.Derives.leaves_ofTree`).

The commas of calls are in no parse tree, so nothing is said of them.
-/

namespace DecimalExpression

/-! ## 1. Leaves of terms

The leaves are collected into an accumulator, and this is put aside first.  Then collapsing has
three cases, and in none of them a leaf is touched: a node that goes has one child, and its leaves
are those of the child. -/

namespace Term

theorem foldr_leavesOnto {ts : List Term}
    (each : ∀ t ∈ ts, ∀ rest, t.leavesOnto rest = t.leaves ++ rest) (rest : List (Kind × String)) :
    ts.foldr (fun t rest => t.leavesOnto rest) rest = ts.flatMap leaves ++ rest := by
  induction ts with
  | nil => rfl
  | cons t ts ih =>
    obtain ⟨here, later⟩ := List.forall_mem_cons.mp each
    rw [List.foldr_cons, ih later, here, List.flatMap_cons, List.append_assoc]

/-- The leaves of a term stand in front of what is there. -/
theorem leavesOnto_eq (t : Term) : ∀ rest, t.leavesOnto rest = t.leaves ++ rest := by
  induction t with
  | node kind text children ih =>
    intro rest
    cases children with
    | nil => simp [leaves, leavesOnto]
    | cons first more =>
      obtain ⟨atFirst, atMore⟩ := List.forall_mem_cons.mp ih
      rw [leaves, leavesOnto, leavesOnto, foldr_leavesOnto atMore, foldr_leavesOnto atMore, atFirst,
        atFirst]
      simp only [List.append_assoc, List.nil_append]

theorem leaves_leaf (kind : Kind) (text : String) : leaves ⟨kind, text, []⟩ = [(kind, text)] := by
  rw [leaves, leavesOnto]

/-- **The leaves of a node** are those of its children. -/
theorem leaves_node (kind : Kind) (text : String) {children : List Term} (inner : children ≠ []) :
    leaves ⟨kind, text, children⟩ = children.flatMap leaves := by
  obtain ⟨first, more, rfl⟩ := List.exists_cons_of_ne_nil inner
  rw [leaves, leavesOnto, leavesOnto_eq, foldr_leavesOnto fun t _ => leavesOnto_eq t,
    List.append_nil, List.flatMap_cons]

/-- A single child has the leaves of its parent. -/
theorem leaves_single (kind : Kind) (text : String) (only : Term) :
    leaves ⟨kind, text, [only]⟩ = only.leaves := by
  rw [leaves_node kind text (List.cons_ne_nil _ _), List.flatMap_singleton]

/-- Children that change without their leaves do not change the leaves of their node. -/
theorem leaves_map {children : List Term} {change : Term → Term}
    (each : ∀ child ∈ children, (change child).leaves = child.leaves) (kind : Kind)
    (text : String) : leaves ⟨kind, text, children.map change⟩ = leaves ⟨kind, text, children⟩ := by
  cases children with
  | nil => rfl
  | cons first more =>
    rw [leaves_node kind text (by simp), leaves_node kind text (by simp), List.flatMap_map,
      List.flatMap_def, List.flatMap_def, List.map_congr_left each]

theorem leaves_regroup (text : String) (body : Term) :
    (regroup text body).leaves = body.leaves := by
  rw [regroup]
  split
  · rfl
  · exact leaves_single .group text body

/-- **Collapsing a term keeps its leaves.**  By induction on the term: a layer has the leaves of its
only child. -/
theorem leaves_collapse (t : Term) : ∀ inside, (t.collapse inside).leaves = t.leaves := by
  induction t with
  | node kind text children ih =>
    intro inside
    have below : ∀ child ∈ children, (collapse true child).leaves = child.leaves :=
      fun child member => ih child member true
    by_cases call : kind = .call
    · subst call
      rw [collapse_call, leaves_map below]
    · match children with
      | [only] =>
        have single := below only List.mem_cons_self
        rw [leaves_single]
        by_cases group : kind = .group ∧ inside = true
        · obtain ⟨rfl, rfl⟩ := group
          rw [collapse_group_inside, leaves_regroup, single]
        · rw [collapse_layer text only call (by simp_all), single]
      | [] => rw [collapse_branch inside kind text (by simp), leaves_map below]
      | first :: second :: more =>
        rw [collapse_branch inside kind text (by simp), leaves_map below]

/-- **A bare term** has the leaves of what it was bared from. -/
theorem leaves_bare (t : Term) : t.bare.leaves = t.leaves := by
  induction t with
  | node kind text children ih =>
    rw [bare.eq_def]
    split
    · rename_i whole
      rw [whole]
    · rename_i only _ whole
      cases whole
      rw [leaves_single, ih only List.mem_cons_self]
    · rfl

end Term

/-- **Collapsing a forest keeps the leaves of every root.** -/
theorem Forest.leaves_collapse (f : Forest) :
    f.collapse.terms.map Term.leaves = f.terms.map Term.leaves := by
  cases marked : f.collapsed with
  | true => rw [collapse_of_collapsed marked]
  | false =>
    rw [terms_collapse marked, List.map_map]
    refine List.map_congr_left fun t _ => ?_
    rw [Function.comp_apply, Term.leaves_bare, Term.leaves_collapse]

/-! ## 2. Leaves of trees

In a tree there are more leaves than in its term, for punctuation is leaves as well.  The marks are
exactly those that a term drops, wherever they stand in a tree that is derived. -/

namespace ParseTree

/-- **The leaves of a tree** from left to right, each with its production and text. -/
def leaves : ParseTree → List (Production × String)
  | ⟨production, text, []⟩ => [(production, text)]
  | ⟨_, _, first :: more⟩ => first.leaves ++ more.flatMap fun child => child.leaves

/-- **Marks**: the parentheses of groups and calls, and the marks of choices. -/
def isMark (leaf : Production × String) : Bool :=
  leaf.1 = .token && ["(", ")", "?", ":"].contains leaf.2

/-- **The leaves that a term keeps**, each with the kind of node that it becomes. -/
def keptLeaves (tree : ParseTree) : List (Kind × String) :=
  (tree.leaves.filter fun leaf => !isMark leaf).map fun leaf => (Term.layerKind leaf.1, leaf.2)

variable {p : Production} {text : String} {tree : ParseTree} {children : List ParseTree}

theorem leaves_leaf (production : Production) (text : String) :
    leaves (leaf production text) = [(production, text)] := by
  rw [leaf, leaves]

/-- The leaves of a node are those of its children. -/
theorem leaves_node (production : Production) (text : String) (inner : children ≠ []) :
    leaves ⟨production, text, children⟩ = children.flatMap leaves := by
  obtain ⟨first, more, rfl⟩ := List.exists_cons_of_ne_nil inner
  rw [leaves, List.flatMap_cons]

/-- The texts of the leaves are the yield. -/
theorem map_leaves (tree : ParseTree) : tree.leaves.map Prod.snd = tree.yield := by
  obtain ⟨production, text, children⟩ := tree
  cases children with
  | nil => rw [yield_leaf, ← leaf, leaves_leaf, List.map_singleton]
  | cons first more =>
    have atMore : more.map (fun child => child.leaves.map Prod.snd) = more.map yield :=
      List.map_congr_left fun child _ => map_leaves child
    rw [leaves_node production text (List.cons_ne_nil _ _), yield_node, List.flatMap_cons,
      List.map_append, map_leaves first, List.map_flatMap, List.flatMap_def, atMore,
      List.flatMap_def]

/-- **The kept leaves of a node** are those of its children. -/
theorem keptLeaves_node (production : Production) (text : String) (inner : children ≠ []) :
    keptLeaves ⟨production, text, children⟩ = children.flatMap keptLeaves := by
  rw [keptLeaves, leaves_node production text inner, List.filter_flatMap, List.map_flatMap]
  rfl

theorem keptLeaves_single (production : Production) (text : String) (only : ParseTree) :
    keptLeaves ⟨production, text, [only]⟩ = only.keptLeaves := by
  rw [keptLeaves_node production text (List.cons_ne_nil _ _), List.flatMap_singleton]

/-- A mark is left out. -/
theorem keptLeaves_mark (mark : text ∈ ["(", ")", "?", ":"]) :
    keptLeaves (leaf .token text) = [] := by
  have isMark : isMark (.token, text) = true := by simpa [ParseTree.isMark] using mark
  rw [keptLeaves, leaves_leaf, List.filter_singleton, isMark]
  rfl

/-- A leaf that is no mark is kept. -/
theorem keptLeaves_leaf (noMark : isMark (p, text) = false) :
    keptLeaves (leaf p text) = [(Term.layerKind p, text)] := by
  rw [keptLeaves, leaves_leaf, List.filter_singleton, noMark]
  rfl

/-- Other tokens are kept as symbols. -/
theorem keptLeaves_token (other : text ∉ ["(", ")", "?", ":"]) :
    keptLeaves (leaf .token text) = [(.symbol, text)] :=
  keptLeaves_leaf (by simpa [isMark] using other)

/-- **The first node with a choice** has the leaves of the tree. -/
theorem keptLeaves_entry (tree : ParseTree) : tree.entry.keptLeaves = tree.keptLeaves := by
  obtain ⟨production, text, children⟩ := tree
  match children with
  | [] => rfl
  | [only] =>
    rw [keptLeaves_single]
    exact keptLeaves_entry only
  | first :: second :: more => rfl

/-! ## 3. The term of a tree

By induction on the derivation, one production after another: the children of the term have the
leaves that the children of the tree keep, in the same order. -/

/-- **A tree whose term keeps its leaves**, the marks apart. -/
def KeepsLeaves (tree : ParseTree) : Prop :=
  ∀ t, Term.ofTree tree = .ok t → t.leaves = tree.keptLeaves

theorem keepsLeaves_token (other : text ∉ ["(", ")", "?", ":"]) :
    KeepsLeaves (leaf .token text) := by
  intro t read
  rw [ofTree_token] at read
  cases read
  exact (Term.leaves_leaf .symbol text).trans (keptLeaves_token other).symm

/-- The terms of some trees have the leaves of the trees. -/
theorem flatMap_leaves {trees : List ParseTree} {ts : List Term}
    (keep : ∀ tree ∈ trees, tree.KeepsLeaves)
    (read : List.Forall₂ (fun tree t => Term.ofTree tree = .ok t) trees ts) :
    ts.flatMap Term.leaves = trees.flatMap keptLeaves := by
  induction read with
  | nil => rfl
  | cons atFirst _ ih =>
    obtain ⟨here, later⟩ := List.forall_mem_cons.mp keep
    rw [List.flatMap_cons, List.flatMap_cons, here _ atFirst, ih later]

/-- A link of a nesting chain has the leaves of its sides and its operator. -/
theorem keptLeaves_link {left right : ParseTree} {l r : Term} {operator : String}
    (sign : operator ∉ ["(", ")", "?", ":"]) (atLeft : l.leaves = left.keptLeaves)
    (atRight : r.leaves = right.keptLeaves) (kind : Kind) (production : Production)
    (text : String) :
    Term.leaves ⟨kind, text, [l, Term.leaf .symbol operator, r]⟩
      = keptLeaves ⟨production, text, [left, leaf .token operator, right]⟩ := by
  rw [Term.leaves_node kind text (by simp), keptLeaves_node production text (by simp)]
  simp only [List.flatMap_cons, List.flatMap_nil, atLeft, atRight, keptLeaves_token sign, Term.leaf,
    Term.leaves_leaf]

/-- No operator is a mark. -/
theorem not_mark_of_operator : ∀ o ∈ levelOperators, o ∉ ["(", ")", "?", ":"] := by decide

/-- No name is a mark. -/
theorem not_mark_of_isName (name : Word.isName text.toList) : text ∉ ["(", ")", "?", ":"] := by
  have marks : ∀ mark ∈ ["(", ")", "?", ":"], Word.isName mark.toList = false := by decide
  intro mark
  rw [marks text mark] at name
  cases name

/-- **The term of a derived tree has its leaves**, in order, and only the marks are left out.  By
induction on the derivation, as the tree is translated: each node has the leaves of its children,
and of the tokens only the marks are dropped. -/
theorem Derives.leaves_ofTree (h : Derives p tree) : tree.KeepsLeaves := by
  induction h with
  | @layer outer inner level text body below ih =>
    intro t read
    rw [keptLeaves_single]
    by_cases conditional : outer = .conditional
    · subst conditional
      rw [Term.ofTree.eq_def] at read
      exact ih t read
    · obtain ⟨u, atBody⟩ := below.becomes
      rw [ofTree_layer level conditional text atBody.ofTree_eq] at read
      cases read
      rw [Term.leaves_single, ih u atBody.ofTree_eq]
  | @flat outer operand operators level text first links signs atFirst atLinks ihFirst ihLinks =>
    intro t read
    rw [ofTree_flat level] at read
    obtain ⟨ts, each, read⟩ := bind_eq_ok read
    cases read
    have keep : ∀ child ∈ first :: linkTrees links, child.KeepsLeaves := by
      refine List.forall_mem_cons.mpr ⟨ihFirst, fun child member => ?_⟩
      obtain ⟨link, among, rfl | rfl⟩ := mem_linkTrees member
      · have operator := level.mem_levelOperators _ (signs link among)
        exact keepsLeaves_token (not_mark_of_operator _ operator)
      · exact ihLinks link among
    have pairs := forall₂_of_mapM each
    have inner : ts ≠ [] := by
      rintro rfl
      cases pairs
    rw [Term.leaves_node _ text inner, keptLeaves_node outer text (List.cons_ne_nil _ _),
      flatMap_leaves keep pairs]
  | left level text sign atLeft atRight ihLeft ihRight =>
    intro t read
    obtain ⟨l, hl⟩ := atLeft.becomes
    obtain ⟨r, hr⟩ := atRight.becomes
    rw [ofTree_left level text _ hl.ofTree_eq hr.ofTree_eq] at read
    cases read
    have noMark := not_mark_of_operator _ (level.mem_levelOperators _ sign)
    exact keptLeaves_link noMark (ihLeft l hl.ofTree_eq) (ihRight r hr.ofTree_eq) _ _ text
  | right level text atLeft atRight ihLeft ihRight =>
    intro t read
    obtain ⟨l, hl⟩ := atLeft.becomes
    obtain ⟨r, hr⟩ := atRight.becomes
    rw [ofTree_right level text hl.ofTree_eq hr.ofTree_eq] at read
    cases read
    have noMark := not_mark_of_operator _ level.mem_levelOperators
    exact keptLeaves_link noMark (ihLeft l hl.ofTree_eq) (ihRight r hr.ofTree_eq) _ _ text
  | choice text atCondition atConsequent atAlternative ihCondition ihConsequent ihAlternative =>
    intro t read
    obtain ⟨c, hc⟩ := atCondition.becomes
    obtain ⟨a, ha⟩ := atConsequent.becomes
    obtain ⟨b, hb⟩ := atAlternative.becomes
    rw [ofTree_choice text atCondition atConsequent atAlternative hc.ofTree_eq ha.ofTree_eq
      hb.ofTree_eq] at read
    cases read
    have question : keptLeaves (leaf .token "?") = [] := keptLeaves_mark (by decide)
    have colon : keptLeaves (leaf .token ":") = [] := keptLeaves_mark (by decide)
    rw [Term.leaves_node _ text (by simp), keptLeaves_node _ text (by simp)]
    simp only [List.flatMap_cons, List.flatMap_nil, ihCondition c hc.ofTree_eq,
      ihConsequent a ha.ofTree_eq, ihAlternative b hb.ofTree_eq, question, colon, List.nil_append]
  | @signed text sign operand plain below ih =>
    intro t read
    obtain ⟨u, atOperand⟩ := below.becomes
    have signs : sign = "+" ∨ sign = "-" := by simpa using plain
    have noMark : sign ∉ ["(", ")", "?", ":"] := by rcases signs with rfl | rfl <;> decide
    rw [ofTree_signed text signs atOperand.ofTree_eq] at read
    cases read
    rw [Term.leaves_node _ text (by simp), keptLeaves_node _ text (by simp)]
    simp only [List.flatMap_cons, List.flatMap_nil, ih u atOperand.ofTree_eq,
      keptLeaves_token noMark, Term.leaf, Term.leaves_leaf]
  | group text below ih =>
    intro t read
    obtain ⟨u, atBody⟩ := below.becomes
    rw [ofTree_group text atBody.ofTree_eq] at read
    cases read
    have opening : keptLeaves (leaf .token "(") = [] := keptLeaves_mark (by decide)
    have closing : keptLeaves (leaf .token ")") = [] := keptLeaves_mark (by decide)
    rw [Term.leaves_single, keptLeaves_node _ text (by simp)]
    simp only [List.flatMap_cons, List.flatMap_nil, ih u atBody.ofTree_eq, opening, closing,
      List.nil_append, List.append_nil]
  | @call text name word arguments below ih =>
    intro t read
    obtain ⟨ts, each, -, -⟩ := exists_arguments fun a member => (below a member).becomes
    rw [ofTree_call text name below each] at read
    cases read
    have opening : keptLeaves (leaf .token "(") = [] := keptLeaves_mark (by decide)
    have closing : keptLeaves (leaf .token ")") = [] := keptLeaves_mark (by decide)
    rw [Term.leaves_node _ text (by simp), keptLeaves_node _ text (by simp)]
    simp only [List.flatMap_cons, List.flatMap_append, List.flatMap_nil, flatMap_leaves ih each,
      keptLeaves_token (not_mark_of_isName word), opening, closing, Term.leaf, Term.leaves_leaf,
      List.nil_append, List.append_nil]
  | @number text word =>
    intro t read
    rw [Term.ofTree.eq_def] at read
    cases read
    exact (Term.leaves_leaf .number text).trans (keptLeaves_leaf (p := .number) rfl).symm
  | @text text word =>
    intro t read
    rw [Term.ofTree.eq_def] at read
    cases read
    exact (Term.leaves_leaf .text text).trans (keptLeaves_leaf (p := .text) rfl).symm
  | @reference text word =>
    intro t read
    rw [Term.ofTree.eq_def] at read
    cases read
    exact (Term.leaves_leaf .reference text).trans (keptLeaves_leaf (p := .reference) rfl).symm

end ParseTree

/-! ## 4. Forests of sources

The forest of a tree has the terms of its entry, so its leaves are those of the tree but for the
marks, and with the first section collapsing keeps them. -/

namespace Forest

/-- **The terms of a derived tree**, together, have its leaves: also where a sum makes its operands
and operators roots of their own. -/
theorem leaves_termsOfTree {p : Production} {tree : ParseTree} {ts : List Term}
    (derives : ParseTree.Derives p tree) (read : termsOfTree tree = .ok ts) :
    ts.flatMap Term.leaves = tree.keptLeaves := by
  obtain ⟨⟨q, atEntry⟩, -⟩ := derives.entry
  unfold termsOfTree at read
  dsimp only at read
  split at read
  · rename_i additive
    obtain rfl := atEntry.production_eq.symm.trans additive
    obtain ⟨-, -, read⟩ := bind_eq_ok read
    obtain ⟨text, first, links, entry, signs, atFirst, atLinks⟩ := atEntry.exists_of_additive
    have keep : ∀ child ∈ first :: ParseTree.linkTrees links, child.KeepsLeaves := by
      refine List.forall_mem_cons.mpr ⟨atFirst.leaves_ofTree, fun child member => ?_⟩
      obtain ⟨link, among, rfl | rfl⟩ := ParseTree.mem_linkTrees member
      · have operator := ParseTree.FlatLevel.additive.mem_levelOperators _ (signs link among)
        exact ParseTree.keepsLeaves_token (ParseTree.not_mark_of_operator _ operator)
      · exact (atLinks link among).leaves_ofTree
    rw [← ParseTree.keptLeaves_entry, entry,
      ParseTree.keptLeaves_node _ text (List.cons_ne_nil _ _)]
    rw [entry] at read
    exact ParseTree.flatMap_leaves keep (forall₂_of_mapM read)
  · obtain ⟨t, term, single⟩ := bind_eq_ok read
    cases single
    rw [List.flatMap_singleton, derives.leaves_ofTree t term]

/-- **The forest of a derived tree** has its leaves. -/
theorem leaves_ofTree {p : Production} {tree : ParseTree} {f : Forest}
    (derives : ParseTree.Derives p tree) (read : ofTree tree = .ok f) :
    f.terms.flatMap Term.leaves = tree.keptLeaves := by
  rw [ofTree] at read
  cases terms : termsOfTree tree with
  | error fault => rw [terms] at read; cases read
  | ok ts =>
    rw [terms] at read
    cases read
    rw [terms_setSource, terms_ofTerms, leaves_termsOfTree derives terms]

/-- **Leaves survive both passes in order.**  Collapsing keeps the leaves of every root of every
forest, kinds and texts.  The forest of a source has, root after root, the leaves of the parse tree,
from which only parentheses of groups and calls and the marks of choices are left out. -/
theorem leaves_passes :
    (∀ f : Forest, f.collapse.terms.map Term.leaves = f.terms.map Term.leaves) ∧
    ∀ (source : String) (tree : ParseTree), ParseTree.ofSource source = .ok tree →
      ∃ f, ofSource source = .ok f ∧
        f.terms.flatMap Term.leaves
          = (tree.leaves.filter fun leaf => !ParseTree.isMark leaf).map
              (fun leaf => (Term.layerKind leaf.1, leaf.2)) ∧
        tree.leaves.map Prod.snd = tree.yield := by
  refine ⟨leaves_collapse, fun source tree read => ?_⟩
  obtain ⟨derives, labelled, nonempty⟩ := ParseTree.ofSource_sound read
  obtain ⟨f, forest, -⟩ := exists_represents derives labelled nonempty
  refine ⟨f, ?_, leaves_ofTree derives forest, tree.map_leaves⟩
  rw [ofSource, read, ok_bind, forest, ok_mapError]

/-- For instance, of a choice between a sum and a call. -/
theorem leaves_passes_choice : ∃ f, ofSource "x < 1 ? (2 - y) : min(x, 3)" = .ok f ∧
    (f.terms.flatMap Term.leaves).map Prod.snd
      = ["x", "<", "1", "2", "-", "y", "min", "x", "3"] := by
  have kept : (ParseTree.ofSource "x < 1 ? (2 - y) : min(x, 3)").map
      (fun tree => tree.keptLeaves.map Prod.snd)
      = .ok ["x", "<", "1", "2", "-", "y", "min", "x", "3"] := by cbv
  cases parsed : ParseTree.ofSource "x < 1 ? (2 - y) : min(x, 3)" with
  | error fault => rw [parsed] at kept; cases kept
  | ok tree =>
    rw [parsed] at kept
    obtain ⟨f, forest, leaves, -⟩ := leaves_passes.2 _ tree parsed
    refine ⟨f, forest, ?_⟩
    rw [leaves]
    exact Except.ok.inj kept

end Forest
end DecimalExpression
