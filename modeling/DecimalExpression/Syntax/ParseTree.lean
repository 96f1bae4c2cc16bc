import DecimalExpression.Syntax.Production

/-!
# Parse trees

A node has a production, the text it was read from and its children in source order.  A token or
a lexeme is a node without children.  Trees may also be built by hand, so nothing here assumes
that a tree follows the grammar.

The node is the one of section 10 of the specification, a production, a text and ordered children,
and hosts may build it with `new` and `leaf`.
-/

namespace DecimalExpression

/-- Measures are added up to any total alike. -/
theorem foldl_add_eq {α : Type} (measure : α → Nat) (l : List α) (total : Nat) :
    l.foldl (fun total x => total + measure x) total
      = l.foldl (fun total x => total + measure x) 0 + total := by
  induction l generalizing total with
  | nil => exact (Nat.zero_add total).symm
  | cons first more ih =>
    rw [List.foldl_cons, List.foldl_cons, ih, ih (0 + measure first)]
    omega

/-- **A parse tree.** -/
structure ParseTree where
  production : Production
  text : String
  children : List ParseTree

namespace ParseTree

/-! ## 1. Construction -/

/-- A node without children. -/
def leaf (production : Production) (text : String) : ParseTree := ⟨production, text, []⟩

/-- A layer around one child, with the child's text. -/
def wrap (production : Production) (child : ParseTree) : ParseTree :=
  ⟨production, child.text, [child]⟩

/-! ## 2. Measures -/

/-- **Height**: the number of nodes on the longest path from the root to a leaf. -/
def height : ParseTree → Nat
  | ⟨_, _, children⟩ => children.foldl (fun highest child => max highest child.height) 0 + 1

/-- The number of nodes. -/
def size : ParseTree → Nat
  | ⟨_, _, children⟩ => children.foldl (fun total child => total + child.size) 1

/-- Trees that wait to be visited, all with the same level. -/
def onLevel (level : Nat) (trees : List ParseTree) : List (ParseTree × Nat) :=
  trees.map fun tree => (tree, level)

/-- The deepest of the levels met so far and of those below the nodes that wait, each of which
waits with its level.  The node that came last is visited first. -/
def deepestFrom (deepest : Nat) : List (ParseTree × Nat) → Nat
  | [] => deepest
  | (tree, level) :: waiting =>
    deepestFrom (max deepest level) ((onLevel (level + 1) tree.children).reverse ++ waiting)
termination_by waiting => waiting.foldr (fun entry total => total + entry.1.size) 0
decreasing_by
  obtain ⟨_, _, children⟩ := tree
  rw [List.foldr_append, onLevel, ← List.map_reverse, List.foldr_map, List.foldr_reverse,
    foldl_add_eq, List.foldr_cons, size, foldl_add_eq size children 1]
  exact Nat.lt_of_lt_of_eq (Nat.add_lt_add_right (Nat.lt_succ_self _) _) (Nat.add_comm _ _)

/-- **Depth**: the deepest level of a node, where the root is on the first.  It is found in one
loop, without going down into the tree. -/
def depth (tree : ParseTree) : Nat := deepestFrom 0 [(tree, 1)]

/-- **The nodes in preorder**, each with its level below the root, in front of `rest`. -/
def preorder (level : Nat) (rest : List (Nat × ParseTree)) : ParseTree → List (Nat × ParseTree)
  | ⟨production, text, children⟩ =>
    (level, ⟨production, text, children⟩) ::
      children.foldr (fun child rest => child.preorder (level + 1) rest) rest

/-- **The first node with a choice**: single children are followed down from the root. -/
def entry : ParseTree → ParseTree
  | ⟨_, _, [only]⟩ => only.entry
  | tree => tree

end ParseTree
end DecimalExpression
