import DecimalExpression.Proofs.Syntax.Layout
import DecimalExpression.Proofs.Syntax.Places

/-!
# Places determine texts

The texts of the inner nodes of a tree are slices of the source, and its skeleton does not have
them.  They come back from the place of the tree: two trees with one skeleton that stand where the
same text starts are the same tree (`ParseTree.Stands.unique`), whatever follows behind them.

No leaf starts with a separator (`StartsVisibly`), so the separators between two children end where
the next child starts, and there is one way only to go on.
-/

namespace DecimalExpression
namespace ParseTree

/-! ## 1. How a leaf starts

Whether a leaf is there can be seen from its first character, since none starts with a separator.
In a derived tree this holds for each of the forms that a leaf can have. -/

/-- A text that starts with something else than a separator. -/
def StartsVisibly (slice : String) : Prop :=
  ∃ c more, slice.toList = c :: more ∧ Text.isSeparator c = false

/-- A tree all whose leaves start visibly. -/
def HasVisibleLeaves (tree : ParseTree) : Prop := tree.Throughout (LeafHas StartsVisibly)

theorem startsVisibly_of_forall {slice : String} (test : Char → Bool) {c : Char} {more : List Char}
    (split : slice.toList = c :: more) (holds : test c)
    (others : ∀ c ∈ [' ', '\t', '\r', '\n', ','], test c = false) : StartsVisibly slice := by
  refine ⟨c, more, split, Bool.eq_false_iff.mpr fun separator => ?_⟩
  simp only [Text.isSeparator, Text.isLayout, Bool.or_eq_true, decide_eq_true_eq] at separator
  have among : c ∈ [' ', '\t', '\r', '\n', ','] := by
    rcases separator with (((rfl | rfl) | rfl) | rfl) | rfl <;> decide
  rw [others c among] at holds
  cases holds

theorem startsVisibly_of_isName {slice : String} (name : Word.isName slice.toList) :
    StartsVisibly slice := by
  cases split : slice.toList with
  | nil =>
    rw [split] at name
    cases name
  | cons c more =>
    rw [split, Word.isName, Bool.and_eq_true] at name
    exact startsVisibly_of_forall Lexeme.isNameStart split name.1 (by simp [Lexeme.isNameStart])

theorem startsVisibly_of_isNumeral {slice : String} (numeral : Word.isNumeral slice.toList) :
    StartsVisibly slice := by
  obtain ⟨c, more, split, first⟩ := Lexeme.exists_of_isNumeral numeral
  have holds : (c.isDigit || c = '.') = true := by simpa using first
  exact startsVisibly_of_forall (fun c => c.isDigit || c = '.') split holds (by simp)

theorem startsVisibly_of_isQuoted {slice : String} (quoted : Word.isQuoted slice.toList) :
    StartsVisibly slice := by
  obtain ⟨content, split, -⟩ := Lexeme.isQuoted_iff.mp quoted
  exact ⟨'"', content ++ ['"'], split, rfl⟩

/-- **The leaves of a derived tree start visibly.** -/
theorem Derives.hasVisibleLeaves {p : Production} {tree : ParseTree} (h : Derives p tree) :
    tree.HasVisibleLeaves := by
  have fixed : ∀ token ∈ ["(", ")", "?", ":"] ++ levelOperators, StartsVisibly token := by
    have first : ∀ token ∈ ["(", ")", "?", ":"] ++ levelOperators,
        token.toList.head?.any (fun c => !Text.isSeparator c) = true := by decide
    intro token member
    obtain ⟨c, head, visible⟩ := (Option.any_eq_true _ _).mp (first token member)
    obtain ⟨more, split⟩ := List.head?_eq_some_iff.mp head
    exact ⟨c, more, split, by simpa using visible⟩
  exact h.leavesHave
    { operator := fun operator member => fixed operator (List.mem_append_right _ member)
      mark := fun mark member => fixed mark (List.mem_append_left _ member)
      name := startsVisibly_of_isName
      numeral := startsVisibly_of_isNumeral
      quoted := startsVisibly_of_isQuoted }

/-! ## 2. One tree only

Two trees at one place start with the same separators and the same leaf.  By induction on both trees
they end at the same place, and then the texts of the inner nodes, which are the slices between, are
the same; rows of trees are the other half of the mutual induction. -/

variable {tree tree' : ParseTree} {start here rest rest' extra : List Char}

/-- Where a tree stands, no separator stands. -/
theorem Stands.exists_visible (stands : tree.Stands start rest) (visible : tree.HasVisibleLeaves) :
    ∃ c more, start = c :: more ∧ Text.isSeparator c = false := by
  induction visible generalizing rest with
  | node tree here _ ih =>
    obtain ⟨production, slice, children⟩ := tree
    cases children with
    | nil =>
      obtain ⟨c, more, split, notSeparator⟩ := here rfl
      have start_eq : start = slice.toList ++ rest := stands
      exact ⟨c, more ++ rest, by rw [start_eq, split]; rfl, notSeparator⟩
    | cons first more =>
      obtain ⟨-, behind, atFirst, -⟩ := stands
      exact ih first List.mem_cons_self atFirst

/-- **Separators end** where something else stands. -/
theorem gap_unique {gap gap' start start' : List Char} (separators : ∀ c ∈ gap, Text.isSeparator c)
    (separators' : ∀ c ∈ gap', Text.isSeparator c)
    (visible : ∃ c more, start = c :: more ∧ Text.isSeparator c = false)
    (visible' : ∃ c more, start' = c :: more ∧ Text.isSeparator c = false)
    (same : gap ++ start = gap' ++ start') : start = start' := by
  obtain ⟨c, more, rfl, notSeparator⟩ := visible
  obtain ⟨c', more', rfl, notSeparator'⟩ := visible'
  have dropped : ∀ {gap : List Char} {c : Char} {more : List Char},
      (∀ c ∈ gap, Text.isSeparator c) → Text.isSeparator c = false →
        (gap ++ c :: more).dropWhile Text.isSeparator = c :: more := by
    intro gap c more separators notSeparator
    rw [List.dropWhile_append_of_pos separators,
      List.dropWhile_cons_of_neg (by simp [notSeparator])]
  rw [← dropped separators notSeparator, same, dropped separators' notSeparator']

/-- Trees with one skeleton have one production, and children with one skeleton each. -/
theorem exists_of_skeleton_eq {production : Production} {slice : String} {children : List ParseTree}
    (same : tree.skeleton = skeleton ⟨production, slice, children⟩) :
    ∃ slice' children', tree = ⟨production, slice', children'⟩ ∧
      children'.map skeleton = children.map skeleton ∧ (children = [] → slice' = slice) := by
  obtain ⟨production', slice', children'⟩ := tree
  rw [skeleton, skeleton, ParseTree.mk.injEq] at same
  obtain ⟨rfl, texts, below⟩ := same
  refine ⟨slice', children', rfl, below, ?_⟩
  rintro rfl
  rw [List.map_nil, List.map_eq_nil_iff] at below
  subst below
  exact texts

/-- A leaf has its text in its skeleton. -/
theorem eq_leaf_of_skeleton_eq {production : Production} {slice : String}
    (same : tree.skeleton = (leaf production slice).skeleton) : tree = leaf production slice := by
  obtain ⟨slice', children', rfl, none, texts⟩ := exists_of_skeleton_eq same
  rw [List.map_nil, List.map_eq_nil_iff] at none
  subst none
  rw [texts rfl]
  rfl

mutual

/-- **One tree only**: a tree with the skeleton of another one, standing where the same text starts,
is that tree, and stops where the other one does. -/
theorem Stands.unique {tree tree' : ParseTree} {start rest rest' extra : List Char}
    (stands : tree.Stands start rest) (stands' : tree'.Stands (start ++ extra) rest')
    (visible : tree.HasVisibleLeaves) (visible' : tree'.HasVisibleLeaves)
    (same : tree'.skeleton = tree.skeleton) : tree' = tree ∧ rest' = rest ++ extra := by
  obtain ⟨production, slice, children⟩ := tree
  obtain ⟨slice', children', rfl, below, -⟩ := exists_of_skeleton_eq same
  have start_eq : start = slice.toList ++ rest := stands.start_eq
  have start_eq' : start ++ extra = slice'.toList ++ rest' := stands'.start_eq
  rw [start_eq, List.append_assoc] at start_eq'
  cases children with
  | nil =>
    cases eq_leaf_of_skeleton_eq same
    exact ⟨rfl, (List.append_cancel_left start_eq').symm⟩
  | cons first more =>
    obtain ⟨first', more', rfl, sameFirst, sameMore⟩ := List.map_eq_cons_iff.mp below
    obtain ⟨-, behind, atFirst, others⟩ := stands
    obtain ⟨-, behind', atFirst', others'⟩ := stands'
    obtain ⟨rfl, rfl⟩ := atFirst.unique atFirst' (visible.child List.mem_cons_self)
      (visible'.child List.mem_cons_self) sameFirst
    obtain ⟨rfl, rfl⟩ := others.unique others'
      (fun child member => visible.child (List.mem_cons_of_mem _ member))
      (fun child member => visible'.child (List.mem_cons_of_mem _ member)) sameMore
    -- what is left behind both is the same, and so is what stands in front of it
    have texts : slice'.toList = slice.toList := (List.append_cancel_right start_eq').symm
    rw [String.toList_inj.mp texts]
    exact ⟨rfl, rfl⟩

/-- The same for trees behind each other.  The separators in front are the same, since what stands
behind them is none; then the first trees are the same and end at the same place. -/
theorem StandBehind.unique {trees trees' : List ParseTree} {here rest rest' extra : List Char}
    (stand : StandBehind trees here rest) (stand' : StandBehind trees' (here ++ extra) rest')
    (visible : ∀ tree ∈ trees, tree.HasVisibleLeaves)
    (visible' : ∀ tree ∈ trees', tree.HasVisibleLeaves)
    (same : trees'.map skeleton = trees.map skeleton) : trees' = trees ∧ rest' = rest ++ extra := by
  cases trees with
  | nil =>
    rw [List.map_nil, List.map_eq_nil_iff] at same
    subst same
    cases stand
    exact ⟨rfl, stand'.symm⟩
  | cons tree more =>
    obtain ⟨tree', more', rfl, sameTree, sameMore⟩ := List.map_eq_cons_iff.mp same
    obtain ⟨gap, start, behind, rfl, separators, stands, others⟩ := stand
    obtain ⟨gap', start', behind', split, separators', stands', others'⟩ := stand'
    obtain ⟨visibleTree, visibleMore⟩ := List.forall_mem_cons.mp visible
    obtain ⟨visibleTree', visibleMore'⟩ := List.forall_mem_cons.mp visible'
    have further : ∃ c more, start ++ extra = c :: more ∧ Text.isSeparator c = false := by
      obtain ⟨c, more, rfl, notSeparator⟩ := stands.exists_visible visibleTree
      exact ⟨c, more ++ extra, rfl, notSeparator⟩
    rw [List.append_assoc] at split
    obtain rfl := gap_unique separators separators' further
      (stands'.exists_visible visibleTree') split
    obtain ⟨rfl, rfl⟩ := stands.unique stands' visibleTree visibleTree' sameTree
    obtain ⟨rfl, rfl⟩ := others.unique others' visibleMore visibleMore' sameMore
    exact ⟨rfl, rfl⟩

end

end ParseTree
end DecimalExpression
