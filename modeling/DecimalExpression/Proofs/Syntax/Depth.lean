import DecimalExpression.Syntax.ParseTree

/-!
# The depth of parse trees

The depth of a tree is found in a loop over nodes that wait with their levels.  It is the height of
the tree (`ParseTree.depth_eq_height`), which is defined by recursion, and so the length of the
longest path down from the root (`ParseTree.height_le_iff_path`).
-/

namespace DecimalExpression

/-- The greatest of some measures is bounded by a number exactly if all of them are. -/
theorem foldl_max_le_iff {α : Type} (measure : α → Nat) (l : List α) (highest n : Nat) :
    l.foldl (fun highest x => max highest (measure x)) highest ≤ n ↔
      highest ≤ n ∧ ∀ x ∈ l, measure x ≤ n := by
  induction l generalizing highest with
  | nil => simp
  | cons first more ih => rw [List.foldl_cons, ih, List.forall_mem_cons, Nat.max_le, and_assoc]

namespace ParseTree

/-! ## 1. Height

The height follows the structure of a tree, and is what the loop is compared with. -/

/-- **A tree is one higher than its highest child.** -/
theorem height_le_iff (tree : ParseTree) (n : Nat) :
    tree.height ≤ n + 1 ↔ ∀ child ∈ tree.children, child.height ≤ n := by
  obtain ⟨_, _, children⟩ := tree
  rw [height, Nat.add_le_add_iff_right, foldl_max_le_iff]
  exact and_iff_right (Nat.zero_le n)

theorem height_pos (tree : ParseTree) : 0 < tree.height := by
  obtain ⟨_, _, _⟩ := tree
  rw [height]
  exact Nat.succ_pos _

theorem height_child_lt {tree child : ParseTree} (member : child ∈ tree.children) :
    child.height < tree.height := by
  obtain ⟨n, height⟩ : ∃ n, tree.height = n + 1 := Nat.exists_eq_add_one.mpr tree.height_pos
  have below := (tree.height_le_iff n).mp (Nat.le_of_eq height) child member
  omega

/-! ## 2. The loop

Nodes wait in the loop with their levels.  The induction is on the loop, and the statement is on
upper bounds, which need not say in which order the nodes are visited. -/

/-- **What the loop finds** is bounded by a number exactly if that bounds what it has found so far,
and the lowest level that each waiting node reaches down to. -/
theorem deepestFrom_le_iff (n deepest : Nat) (waiting : List (ParseTree × Nat)) :
    deepestFrom deepest waiting ≤ n ↔
      deepest ≤ n ∧ ∀ entry ∈ waiting, entry.2 + entry.1.height ≤ n + 1 := by
  induction deepest, waiting using deepestFrom.induct with
  | case1 deepest => simp [deepestFrom]
  | case2 deepest tree level waiting ih =>
    -- a node reaches as deep as it says itself, and as deep as its children do one level below
    have reach : level + tree.height ≤ n + 1 ↔
        level ≤ n ∧ ∀ child ∈ tree.children, level + 1 + child.height ≤ n + 1 := by
      have positive := tree.height_pos
      constructor
      · intro within
        refine ⟨by omega, fun child member => ?_⟩
        have := height_child_lt member
        omega
      · rintro ⟨here, below⟩
        have height := (tree.height_le_iff (n - level)).mpr fun child member => by
          have := below child member
          omega
        omega
    rw [deepestFrom, ih, Nat.max_le, List.forall_mem_append, List.forall_mem_cons, reach]
    simp only [onLevel, List.mem_reverse, List.forall_mem_map, and_assoc]

/-- **The depth that the loop finds is the height.** -/
theorem depth_eq_height (tree : ParseTree) : tree.depth = tree.height := by
  have same : ∀ n, tree.depth ≤ n ↔ tree.height ≤ n := by
    intro n
    rw [depth, deepestFrom_le_iff]
    simp only [List.forall_mem_singleton]
    omega
  exact Nat.le_antisymm ((same _).mpr (Nat.le_refl _)) ((same _).mp (Nat.le_refl _))

/-! ## 3. Paths

A bound on the height is a bound on the length of every path, and the other way round. -/

/-- **A path down a tree**, from the root to any node. -/
inductive Path : ParseTree → List ParseTree → Prop
  | here (tree : ParseTree) : Path tree [tree]
  | child {tree child : ParseTree} {path : List ParseTree} (member : child ∈ tree.children)
    (onward : Path child path) : Path tree (tree :: path)

/-- **The height is the length of the longest path.**  One direction is by induction on the path,
and the other by induction on the bound. -/
theorem height_le_iff_path (tree : ParseTree) (n : Nat) :
    tree.height ≤ n ↔ ∀ path, tree.Path path → path.length ≤ n := by
  constructor
  · intro within path down
    induction down generalizing n with
    | here tree =>
      have := tree.height_pos
      exact Nat.le_trans this within
    | child member _ ih =>
      have := height_child_lt member
      have := ih (n - 1) (by omega)
      rw [List.length_cons]
      omega
  · intro within
    induction n generalizing tree with
    | zero => exact absurd (within _ (.here tree)) (by simp)
    | succ n ih =>
      rw [height_le_iff]
      intro child member
      refine ih child fun path down => ?_
      exact Nat.le_of_succ_le_succ (within _ (.child member down))

end ParseTree
end DecimalExpression
