import DecimalExpression.Proofs.Syntax.Completeness
import DecimalExpression.Proofs.Syntax.Soundness
import DecimalExpression.Proofs.Syntax.Unambiguous

/-!
# Parentheses around a part of a source

An operand in parentheses is the tree of the operand, in all layers from the conditional to the
signs (`layers`), in a group (`parenthesized`).  Where a node occurs in a tree, tokens stand in
front of it and behind it (`Occurs`), and so does the rest of the source (`Occurs.exists_place`).

What a source is read as is determined by the tokens that are laid out in it
(`skeleton_eq_of_ofSource`), so it can be said what is read where parentheses are added.
-/

namespace DecimalExpression
namespace ParseTree

open Grammar

variable {tree child u body : ParseTree} {p : Production} {slice : String}
  {before behind : List String}

/-! ## 1. Layers and parentheses

With parentheses an operand becomes the body of a group, and needs all layers in between.  The
layers add no tokens and no limits. -/

/-- **An operand in all layers** from the conditional to the signs. -/
def layers (operand : ParseTree) : ParseTree :=
  [Production.conditional, .disjunction, .conjunction, .equality, .relational, .additive,
    .multiplicative, .unary].foldr wrap operand

/-- **A conditional in parentheses**, as an operand. -/
def parenthesized (body : ParseTree) : ParseTree :=
  wrap .primary ⟨.group, "", [leaf .token "(", body, leaf .token ")"]⟩

theorem derives_layers (h : Derives .primary u) : Derives .conditional (layers u) := by
  have product : Derives .multiplicative (wrap .multiplicative (wrap .unary u)) :=
    .flat .multiplicative _ [] nofun (.layer .unary _ h) nofun
  have sum : Derives .additive (wrap .additive (wrap .multiplicative (wrap .unary u))) :=
    .flat .additive _ [] nofun product nofun
  exact .layer .conditional _ (.layer .disjunction _ (.layer .conjunction _ (.layer .equality _
    (.layer .relational _ sum))))

theorem derives_parenthesized (h : Derives .conditional body) :
    Derives .primary (parenthesized body) :=
  .layer .group _ (.group _ h)

theorem Derives.exists_of_primary (h : Derives .primary u) :
    ∃ slice body, u = ⟨.primary, slice, [body]⟩ := by
  cases h with
  | layer level slice below => exact ⟨slice, _, rfl⟩
  | flat level | left level | right level => cases level

theorem tokens_wrap (p : Production) (tree : ParseTree) : (wrap p tree).tokens = tree.tokens := by
  rw [wrap, tokens_node (List.cons_ne_nil _ _)]
  cases p <;> exact List.append_nil _

theorem tokens_layers (u : ParseTree) : (layers u).tokens = u.tokens := by
  simp only [layers, List.foldr_cons, List.foldr_nil, tokens_wrap]

theorem tokens_parenthesized (body : ParseTree) :
    (parenthesized body).tokens = "(" :: (body.tokens ++ [")"]) := by
  rw [parenthesized, tokens_wrap, tokens_group]

theorem fits_wrap (other : p ≠ .number) (fits : tree.Throughout NodeFits) :
    (wrap p tree).Throughout NodeFits := by
  refine .node _ ⟨fun number => absurd number other, ?_, ?_⟩ (List.forall_mem_singleton.mpr fits)
  · cases p <;> exact Nat.zero_le _
  · cases p <;> exact Nat.zero_le _

theorem fits_token (slice : String) : (leaf .token slice).Throughout NodeFits :=
  .node _ (fits_leaf nofun) nofun

theorem fits_layers (fits : u.Throughout NodeFits) : (layers u).Throughout NodeFits :=
  fits_wrap nofun (fits_wrap nofun
    (fits_wrap nofun (fits_wrap nofun (fits_wrap nofun (fits_wrap nofun
    (fits_wrap nofun (fits_wrap nofun fits)))))))

theorem fits_parenthesized (fits : body.Throughout NodeFits) :
    (parenthesized body).Throughout NodeFits := by
  refine fits_wrap nofun (.node _ ⟨nofun, Nat.zero_le _, Nat.zero_le _⟩ ?_)
  simp only [List.forall_mem_cons]
  exact ⟨fits_token "(", fits, fits_token ")", List.forall_mem_nil _⟩

/-! ## 2. The first node with a choice

The first node with a choice is what a chain of single children leads to.  It is the same in a tree
and in its skeleton, and it stands where the tree stands. -/

/-- The first node with a choice of a skeleton is that of the tree. -/
theorem entry_skeleton (tree : ParseTree) : tree.skeleton.entry = tree.entry.skeleton := by
  obtain ⟨production, slice, children⟩ := tree
  match children with
  | [] =>
    rw [skeleton]
    show (⟨production, slice, []⟩ : ParseTree) = skeleton ⟨production, slice, []⟩
    rw [skeleton]
    rfl
  | [only] =>
    rw [skeleton]
    exact entry_skeleton only
  | first :: second :: more =>
    have same : entry ⟨production, slice, first :: second :: more⟩
        = ⟨production, slice, first :: second :: more⟩ := rfl
    rw [same, skeleton]
    rfl

/-- **Where a tree stands** its first node with a choice stands. -/
theorem Stands.atEntry {tree : ParseTree} {start rest : List Char} (h : tree.Stands start rest) :
    tree.entry.Stands start rest := by
  obtain ⟨production, slice, children⟩ := tree
  match children with
  | [] => exact h
  | [only] =>
    obtain ⟨-, behind, stands, rfl⟩ := h
    exact stands.atEntry
  | first :: second :: more => exact h

/-- The operand comes first below its layers. -/
theorem entry_layers (u : ParseTree) : (layers u).entry = u.entry := rfl

/-! ## 3. What is laid out is what is read

Soundness and completeness together: a source is read as the tree whose tokens it lays out, up to
the texts of inner nodes. -/

/-- **The tokens that are laid out in a source** determine what it is read as. -/
theorem skeleton_eq_of_ofSource {source : String} {found : ParseTree}
    (read : ofSource source = .ok found) (derives : Derives .expression tree)
    (fits : tree.Throughout NodeFits) (laid : LaidOut tree.tokens source.toList) :
    found.skeleton = tree.skeleton := by
  obtain ⟨slice, body, rfl, below⟩ := exists_of_expression derives
  rw [tokens_layer .expression] at laid
  obtain ⟨reading, all, same⟩ := exists_readAll below (fits.child List.mem_cons_self) laid
  obtain ⟨-, body', all', rfl, -⟩ := exists_readAll_of_ofSource read
  rw [all] at all'
  cases all'
  exact skeleton_layer same

/-! ## 4. Occurrences

A node occurs between the tokens in front of it and behind it.  So an occurrence in a tree is also a
place in the source, and what is put in its place leaves all other tokens where they were. -/

/-- **A node occurs in a tree** between these tokens. -/
inductive Occurs (u : ParseTree) : ParseTree → (before behind : List String) → Prop
  | here : Occurs u u [] []
  | item {tree item : ParseTree} {front back : List ParseTree} {before behind : List String}
    (split : tree.items = front ++ item :: back) (below : Occurs u item before behind) :
    Occurs u tree (front.flatMap tokens ++ before) (behind ++ back.flatMap tokens)

/-- What occurs in a tree occurs in the layers around it. -/
theorem Occurs.wrap (h : Occurs u tree before behind) (p : Production) :
    Occurs u (wrap p tree) before behind := by
  have single : (ParseTree.wrap p tree).items = [tree] := by cases p <;> rfl
  have occurs : Occurs u (ParseTree.wrap p tree) ([].flatMap tokens ++ before)
    (behind ++ [].flatMap tokens) := .item single h
  rwa [List.flatMap_nil, List.nil_append, List.append_nil] at occurs

/-- In a leaf nothing but the leaf occurs. -/
theorem Occurs.eq_leaf (h : Occurs u (leaf p slice) before behind) : u = leaf p slice := by
  generalize same : leaf p slice = tree at h
  cases h with
  | here => rfl
  | item split below =>
    subst same
    have none : (leaf p slice).items = [] := by cases p <;> rfl
    rw [none] at split
    simp at split

/-- What is put in the place of an argument stands between the same items.  By the recursion of the
items: an item that is no comma is an argument, and the commas around it stay. -/
theorem argumentItems_hole {trees front back : List ParseTree} {item : ParseTree}
    (split : argumentItems trees = front ++ item :: back) (noComma : item ≠ leaf .token ",") :
    ∃ first last, trees = first ++ item :: last ∧
      ∀ other, argumentItems (first ++ other :: last) = front ++ other :: back := by
  induction trees using argumentItems.induct generalizing front with
  | case1 => simp [argumentItems] at split
  | case2 closing =>
    obtain ⟨rfl, rfl, rfl⟩ : front = [] ∧ item = closing ∧ back = [] := by
      cases front <;> simp_all [argumentItems]
    exact ⟨[], [], rfl, fun _ => rfl⟩
  | case3 argument closing =>
    rcases front with _ | ⟨a, _ | ⟨b, front⟩⟩ <;> simp [argumentItems] at split
    · obtain ⟨rfl, rfl⟩ := split
      exact ⟨[], [closing], rfl, fun _ => rfl⟩
    · obtain ⟨rfl, rfl, rfl⟩ := split
      exact ⟨[argument], [], rfl, fun _ => rfl⟩
  | case4 argument next last rest ih =>
    rw [argumentItems] at split
    rcases front with _ | ⟨a, _ | ⟨b, front⟩⟩ <;>
      simp only [List.nil_append, List.cons_append, List.cons.injEq] at split
    · obtain ⟨rfl, rfl⟩ := split
      exact ⟨[], next :: last :: rest, rfl, fun _ => rfl⟩
    · exact absurd split.2.1.symm noComma
    · obtain ⟨rfl, rfl, split⟩ := split
      obtain ⟨first, others, whole, same⟩ := ih split
      refine ⟨argument :: first, others, by rw [whole]; rfl, fun other => ?_⟩
      obtain ⟨x, y, more, several⟩ : ∃ x y more, first ++ other :: others = x :: y :: more := by
        have length : (first ++ other :: others).length = rest.length + 2 := by
          have length := congrArg List.length whole
          simp only [List.length_cons, List.length_append] at length ⊢
          omega
        rcases shape : first ++ other :: others with _ | ⟨x, _ | ⟨y, more⟩⟩
        · rw [shape] at length
          cases length
        · rw [shape] at length
          cases length
        · exact ⟨x, y, more, rfl⟩
      rw [List.cons_append, several, argumentItems, ← several, same other]
      rfl

/-- **What is put in the place of a child** stands between the same items.  For a call this is about
its arguments, or it is the name or the parenthesis; for other nodes items are children. -/
theorem items_hole {front back : List ParseTree} {item : ParseTree}
    (split : tree.items = front ++ item :: back) (noComma : item ≠ leaf .token ",") :
    ∃ first last, tree.children = first ++ item :: last ∧
      ∀ slice other,
        items ⟨tree.production, slice, first ++ other :: last⟩ = front ++ other :: back := by
  obtain ⟨production, slice, children⟩ := tree
  by_cases call : production = .call
  · subst call
    match children with
    | [] => simp [items] at split
    | [only] =>
      obtain ⟨rfl, rfl, rfl⟩ : front = [] ∧ item = only ∧ back = [] := by
        cases front <;> simp_all [items]
      exact ⟨[], [], rfl, fun _ _ => rfl⟩
    | name :: opening :: rest =>
      rw [items] at split
      rcases front with _ | ⟨a, _ | ⟨b, front⟩⟩ <;>
        simp only [List.nil_append, List.cons_append, List.cons.injEq] at split
      · obtain ⟨rfl, rfl⟩ := split
        exact ⟨[], opening :: rest, rfl, fun _ _ => rfl⟩
      · obtain ⟨rfl, rfl, rfl⟩ := split
        exact ⟨[name], rest, rfl, fun _ _ => rfl⟩
      · obtain ⟨rfl, rfl, split⟩ := split
        obtain ⟨first, last, rfl, same⟩ := argumentItems_hole split noComma
        refine ⟨name :: opening :: first, last, rfl, fun slice other => ?_⟩
        rw [List.cons_append, List.cons_append, items, same other]
        rfl
  · rw [items_of_ne_call call] at split
    exact ⟨front, back, split, fun slice other => items_of_ne_call call _ _⟩

/-- Of an operand that occurs in an item, the item is a child. -/
theorem Occurs.ne_comma (h : Occurs u child before behind) (operand : u.production = .primary) :
    child ≠ leaf .token "," := by
  rintro rfl
  rw [h.eq_leaf] at operand
  cases operand

theorem mem_children_of_mem_items (member : child ∈ tree.items)
    (noComma : child ≠ leaf .token ",") :
    child ∈ tree.children :=
  (mem_items member).resolve_right noComma

/-- **A property of all nodes** holds of what occurs. -/
theorem Occurs.throughout {P : ParseTree → Prop} (h : Occurs u tree before behind)
    (operand : u.production = .primary) (all : tree.Throughout P) : u.Throughout P := by
  induction h with
  | here => exact all
  | @item tree item front back before behind split below ih =>
    have member : item ∈ tree.items := by simp [split]
    exact ih (all.child (mem_children_of_mem_items member (below.ne_comma operand)))

/-- **The place where a node occurs**: the text in front of it is the tokens in front of it laid
out, and so it is behind. -/
theorem Occurs.exists_place (h : Occurs u tree before behind) (operand : u.production = .primary)
    (written : tree.Throughout Written) :
    ∃ front back, tree.text.toList = front ++ (u.text.toList ++ back) ∧ LaidOut before front ∧
      LaidOut behind back := by
  have nothing : LaidOut [] [] := laidOut_nil (List.forall_mem_nil _)
  induction h with
  | here => exact ⟨[], [], (List.append_nil _).symm, nothing, nothing⟩
  | @item tree item front back before behind split below ih =>
    have member : item ∈ tree.items := by simp [split]
    have child := mem_children_of_mem_items member (below.ne_comma operand)
    obtain ⟨x, y, inside, atBefore, atBehind⟩ := ih (written.child child)
    have laid := written.here (List.ne_nil_of_mem child)
    rw [split, List.map_append, List.map_cons] at laid
    obtain ⟨start, rest, whole, atFront, laid⟩ := laid.exists_of_append
    obtain ⟨gap, others, rfl, layout, atBack⟩ := laid.exists_of_cons
    have each : ∀ sibling ∈ tree.items, LaidOut sibling.tokens sibling.text.toList :=
      laidOut_items fun child member => (written.child member).laidOut
    rw [split] at each
    obtain ⟨eachFront, eachBack⟩ := List.forall_mem_append.mp each
    refine ⟨start ++ (gap ++ x), y ++ others, by rw [whole, inside]; simp only [List.append_assoc],
      ?_, ?_⟩
    · exact (laidOut_flatMap eachFront atFront).append ((laidOut_nil layout).append atBefore)
    · exact atBehind.append (laidOut_flatMap (List.forall_mem_cons.mp eachBack).2 atBack)

/-- **The node at the end of a path** occurs in the tree. -/
theorem exists_occurs {path : List ParseTree} (down : tree.Path path)
    (last : path.getLast? = some u) :
    ∃ before behind, Occurs u tree before behind := by
  induction down with
  | here tree =>
    cases last
    exact ⟨_, _, .here⟩
  | @child tree child path member onward ih =>
    obtain ⟨before, behind, occurs⟩ := ih (by cases onward <;> exact last)
    obtain ⟨front, back, split⟩ := List.append_of_mem (mem_items_of_mem member)
    exact ⟨_, _, .item split occurs⟩

end ParseTree
end DecimalExpression
