import DecimalExpression.Expression.Term

/-!
# Forests of expression nodes

A forest holds nodes in one row and refers to them by index.  A node is added behind the nodes it
refers to, so **every child has a smaller index than its parent** (`Forest.children_lt`); this is
part of the type, and every recursion over a forest ends because of it.  Nodes may be shared, and
some may not be reachable from a root at all.

What a forest means are the terms that its roots unfold to (`Forest.terms`).  Equality
(`Forest.same`) and display are computed on the nodes themselves, without unfolding.

A forest is the expression set of section 3 of the specification, laid out as in section 20.  It
grows by `add_node` and `push_root`, which refuse an index that is not there; its source is set by
`set_source`, and equality and display are `same_tree` and `fmt_node`.
-/

namespace DecimalExpression

/-- **A node**; its children are indexes into the forest that holds it, in source order. -/
structure Node where
  kind : Kind
  text : String
  children : List Nat
deriving DecidableEq, Repr, Inhabited

/-- **A forest**: nodes, the indexes of the roots, whether it is known to be in collapsed form,
and the source that it was read from, if any. -/
structure Forest where
  nodes : Array Node
  roots : Array Nat
  collapsed : Bool
  source : String
  children_lt : ∀ (i : Nat) (h : i < nodes.size), ∀ c ∈ nodes[i].children, c < i
  roots_lt : ∀ r ∈ roots, r < nodes.size

namespace Forest

/-! ## 1. Growth -/

/-- No nodes and no roots. -/
def empty : Forest where
  nodes := #[]
  roots := #[]
  collapsed := false
  source := ""
  children_lt := by simp
  roots_lt := by simp

/-- The number of nodes, reachable or not. -/
def size (f : Forest) : Nat := f.nodes.size

/-- A node behind all others, whose children are known to be there.  The forest is no longer
known to be collapsed. -/
def grow (f : Forest) (kind : Kind) (text : String) (children : List Nat)
    (h : ∀ c ∈ children, c < f.size) : Forest where
  nodes := f.nodes.push ⟨kind, text, children⟩
  roots := f.roots
  collapsed := false
  source := f.source
  children_lt := by
    intro i hi c hc
    rw [Array.getElem_push] at hc
    split at hc
    · rename_i inside
      exact f.children_lt i inside c hc
    · rename_i outside
      rw [Array.size_push] at hi
      have last : i = f.nodes.size := by omega
      rw [last]
      exact h c hc
  roots_lt := by
    intro r hr
    rw [Array.size_push]
    exact Nat.lt_succ_of_lt (f.roots_lt r hr)

@[simp] theorem size_grow (f : Forest) (kind : Kind) (text : String) (children : List Nat)
    (h : ∀ c ∈ children, c < f.size) : (f.grow kind text children h).size = f.size + 1 := by
  simp [size, grow]

/-- The node is made a root, behind the other roots. -/
def grantRoot (f : Forest) (i : Nat) (h : i < f.size) : Forest :=
  { f with
    roots := f.roots.push i
    collapsed := false
    roots_lt := by
      intro r hr
      rcases Array.mem_push.mp hr with old | rfl
      · exact f.roots_lt r old
      · exact h }

/-- Names the source.  This does not touch what the forest is known to be. -/
def setSource (f : Forest) (source : String) : Forest := { f with source := source }

/-- The forest, known to be collapsed. -/
def markCollapsed (f : Forest) : Forest := { f with collapsed := true }

/-- The forest, no longer known to be collapsed. -/
def unmark (f : Forest) : Forest := { f with collapsed := false }

/-! ## 2. Changes in place -/

/-- **A change of a forest in place**, which has a result or ends in a fault.  What was changed
before a fault stays changed. -/
abbrev Edit := EStateM ShapeFault Forest

/-- **A node is added**, and its index given back.  A child that is not in the forest is refused,
and the first such child is reported. -/
def addNode (kind : Kind) (text : String) (children : List Nat) : Edit Nat := do
  let f ← get
  match h : children.find? (fun c => f.size ≤ c) with
  | some child => throw (.foreignChild child kind text)
  | none =>
    set (f.grow kind text children fun c member => by
      simpa using List.find?_eq_none.mp h c member)
    return f.size

/-- **A root is added**; a node that is not in the forest is refused. -/
def pushRoot (i : Nat) : Edit Unit := do
  let f ← get
  if h : i < f.size then set (f.grantRoot i h) else throw (.foreignNode i)

/-- **What adding a node can do**: the node is there afterwards, or a child is not in the forest,
which then stays as it is. -/
theorem run_addNode_cases (f : Forest) (kind : Kind) (text : String) (children : List Nat) :
    (∃ inside, (addNode kind text children).run f = .ok f.size (f.grow kind text children inside)) ∨
      ∃ child ∈ children, f.size ≤ child ∧
        (addNode kind text children).run f = .error (.foreignChild child kind text) f := by
  have run : (addNode kind text children).run f =
      (match h : children.find? (fun c => f.size ≤ c) with
        | some child => throw (.foreignChild child kind text)
        | none => do
          set (f.grow kind text children fun c member => by
            simpa using List.find?_eq_none.mp h c member)
          return f.size : Edit Nat).run f := rfl
  rw [run]
  split
  · rename_i child found
    exact .inr ⟨child, List.mem_of_find?_eq_some found, by simpa using List.find?_some found, rfl⟩
  · rename_i found
    exact .inl ⟨fun c member => by simpa using List.find?_eq_none.mp found c member, rfl⟩

/-- A node whose children are there is added. -/
theorem run_addNode {f : Forest} {kind : Kind} {text : String} {children : List Nat}
    (inside : ∀ c ∈ children, c < f.size) :
    (addNode kind text children).run f = .ok f.size (f.grow kind text children inside) := by
  rcases f.run_addNode_cases kind text children with ⟨_, added⟩ | ⟨child, member, foreign, -⟩
  · exact added
  · exact absurd (inside child member) (Nat.not_lt.mpr foreign)

/-- **What adding a root can do**: it is there afterwards, or it is no node of the forest, which
then stays as it is. -/
theorem run_pushRoot_cases (f : Forest) (i : Nat) :
    (∃ inside, (pushRoot i).run f = .ok () (f.grantRoot i inside)) ∨
      f.size ≤ i ∧ (pushRoot i).run f = .error (.foreignNode i) f := by
  have run : (pushRoot i).run f =
      (if h : i < f.size then set (f.grantRoot i h)
        else throw (.foreignNode i) : Edit Unit).run f :=
    rfl
  rw [run]
  split
  · rename_i inside
    exact .inl ⟨inside, rfl⟩
  · exact .inr ⟨by omega, rfl⟩

/-- A node that is there is made a root. -/
theorem run_pushRoot {f : Forest} {i : Nat} (inside : i < f.size) :
    (pushRoot i).run f = .ok () (f.grantRoot i inside) := by
  rcases f.run_pushRoot_cases i with ⟨_, added⟩ | ⟨foreign, -⟩
  · exact added
  · exact absurd inside (Nat.not_lt.mpr foreign)

/-! ## 3. Nodes -/

/-- The node at an index. -/
def node (f : Forest) (i : Nat) (h : i < f.size) : Node := f.nodes[i]

/-- **The node at an index**, if there is one. -/
def node? (f : Forest) (i : Nat) : Except ShapeFault Node :=
  if h : i < f.size then .ok (f.node i h) else .error (.foreignNode i)

/-- The children of a node, each with the proof that its index is smaller. -/
def childrenOf (f : Forest) (i : Nat) (h : i < f.size) : List (Fin i) :=
  (f.node i h).children.attach.map fun c => ⟨c.val, f.children_lt i h c.val c.property⟩

theorem child_lt (f : Forest) {i : Nat} (c : Fin i) (h : i < f.size) : c.val < f.size :=
  Nat.lt_trans c.isLt h

/-- The roots, each with the proof that it is a node. -/
def rootNodes (f : Forest) : List (Fin f.size) :=
  f.roots.toList.attach.map fun r => ⟨r.val, f.roots_lt r.val (Array.mem_toList_iff.mp r.property)⟩

theorem root_lt (f : Forest) (r : Fin f.size) : r.val < f.size := r.isLt

/-- The indexes reachable from the roots, in increasing order.  A node is behind its children, so
one pass from the last node to the first marks them all. -/
def reachable (f : Forest) : List Nat :=
  let marked := f.roots.foldl (fun marks r => marks.setIfInBounds r true)
    (Array.replicate f.size false)
  let visit := fun (found : Array Bool × List Nat) (i : Nat) =>
    if found.1.getD i false then
      ((f.nodes.getD i default).children.foldl (fun marks c => marks.setIfInBounds c true) found.1,
        i :: found.2)
    else found
  ((List.range f.size).reverse.foldl visit (marked, [])).2

/-! ## 4. Terms -/

/-- **The term a node unfolds to.**  A shared node is unfolded at each of its uses. -/
def unfold (f : Forest) (i : Nat) (h : i < f.size) : Term :=
  ⟨(f.node i h).kind, (f.node i h).text,
    (f.childrenOf i h).map fun (c : Fin i) => f.unfold c.val (f.child_lt c h)⟩
termination_by i
decreasing_by exact c.isLt

/-- **The terms of a forest**, one for each root. -/
def terms (f : Forest) : List Term :=
  f.rootNodes.map fun (r : Fin f.size) => f.unfold r.val (f.root_lt r)

/-! ## 5. Equality -/

/-- Whether two nodes, of two forests, are alike all the way down. -/
def sameNode (f g : Forest) (i : Nat) (hi : i < f.size) (j : Nat) (hj : j < g.size) : Bool :=
  (f.node i hi).kind = (g.node j hj).kind
    && (f.node i hi).text = (g.node j hj).text
    && (f.node i hi).children.length = (g.node j hj).children.length
    && ((f.childrenOf i hi).zip (g.childrenOf j hj)).all fun pair =>
      f.sameNode g pair.1.val (f.child_lt pair.1 hi) pair.2.val (g.child_lt pair.2 hj)
termination_by i
decreasing_by exact pair.1.isLt

/-- **Equality of forests**: as many roots, alike one by one.  Indexes, sharing, unreachable
nodes, sources and marks do not count. -/
def same (f g : Forest) : Bool :=
  f.roots.size = g.roots.size
    && (f.rootNodes.zip g.rootNodes).all fun pair =>
      f.sameNode g pair.1.val (f.root_lt pair.1) pair.2.val (g.root_lt pair.2)

/-! ## 6. Display -/

/-- The display of a node: kind and text of a leaf, or the kind and the children in
parentheses. -/
def displayNode (f : Forest) (i : Nat) (h : i < f.size) : String :=
  let node := f.node i h
  match f.childrenOf i h with
  | [] => s!"{node.kind.name}:{node.text}"
  | children =>
    (children.foldl
      (fun shown (c : Fin i) =>
        shown ++ " " ++ f.displayNode c.val (f.child_lt c h))
      ("(" ++ node.kind.name)) ++ ")"
termination_by i
decreasing_by exact c.isLt

/-- **The display of a forest**: its roots, with spaces between them. -/
def display (f : Forest) : String :=
  " ".intercalate (f.rootNodes.map fun (r : Fin f.size) => f.displayNode r.val (f.root_lt r))

end Forest
end DecimalExpression
