import DecimalExpression.Expression.Collapse

/-!
# Collapsing from index to index

`collapse` goes over the nodes of one forest and writes those of another one.  A node whose single
child takes its place writes nothing (`collapseNode`); any other node is written behind its
children.  A group that turns out to stand around a group, a name or a number is not written at all
(`addCollapsed`), and of each root only the bare one is kept.

`Forest.collapse` says the same in terms: unfold, collapse, plant.  That the two agree, and that
writing never fails, is `Forest.collapsePass_eq`.

The pass is `collapse`, and its step `collapse_node`; the arena that it writes to is the one of
`DecimalExpression.Expression.Forest` (specification, sections 4.2 and 12).
-/

namespace DecimalExpression
namespace Forest

/-! ## 1. Nodes -/

/-- The node at an index of the forest that is written. -/
def lookUp (i : Nat) : Edit Node := do
  match (← get).node? i with
  | .ok node => return node
  | .error fault => throw fault

/-- **The single child that takes the place of a node.**  A call keeps its place, and so does a
group inside another node. -/
def replacement? {i : Nat} (kind : Kind) (inside : Bool) : List (Fin i) → Option (Fin i)
  | [only] => if kind = .call ∨ kind = .group ∧ inside then none else some only
  | _ => none

/-- A node is written behind its children, unless it is a group that can go. -/
def addCollapsed (kind : Kind) (text : String) (children : List Nat) : Edit Nat :=
  match kind, children with
  | .group, [body] => do
    if Term.groupIsRedundant (← lookUp body).kind then return body
    else addNode .group text [body]
  | kind, children => addNode kind text children

/-- **A node of `source` is collapsed** into the forest that is written, and its index there given
back. -/
def collapseNode (source : Forest) (inside : Bool) (i : Nat) (h : i < source.size) : Edit Nat :=
  match replacement? (source.node i h).kind inside (source.childrenOf i h) with
  | some only => source.collapseNode true only.val (source.child_lt only h)
  | none => do
    let children ← (source.childrenOf i h).mapM fun (c : Fin i) =>
      source.collapseNode true c.val (source.child_lt c h)
    addCollapsed (source.node i h).kind (source.node i h).text children
termination_by i
decreasing_by
  · exact only.isLt
  · exact c.isLt

/-! ## 2. Roots -/

/-- The bare root of a node that was written. -/
def bareIndex (i : Nat) : Edit Nat := do
  let written ← get
  if h : i < written.size then return (written.bareRoot i h).val else throw (.foreignNode i)

/-- A root of `source` is collapsed and made a root. -/
def collapseRoot (source : Forest) (r : Fin source.size) : Edit Unit := do
  let i ← source.collapseNode false r.val (source.root_lt r)
  pushRoot (← bareIndex i)

/-- **The pass**: the roots are collapsed one after another, the source is taken over, and the
forest is marked.  A forest that is known to be collapsed stays as it is. -/
def collapsePass (source : Forest) : Except ShapeFault Forest :=
  if source.collapsed then .ok source
  else
    match (source.rootNodes.forM source.collapseRoot).run empty with
    | .ok _ written => .ok (written.setSource source.source).markCollapsed
    | .error fault _ => .error fault

end Forest
end DecimalExpression
