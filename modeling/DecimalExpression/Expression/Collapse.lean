import DecimalExpression.Expression.Planting

/-!
# The collapsed form

The layers of the grammar leave a chain of single children around every operand.  Collapsing
removes them: what stays has several children, or is a call, or is a group that stands inside
another expression.  A group around a group, a number or a variable goes too, and at a root no
single child stays at all, a call's name apart.

Collapsing plants terms afresh, so shared nodes are planted once for each use.  Where a root's
group goes, its node stays behind in the forest, out of reach.

It is the collapse pass (specification, section 4.2), with the exception that section 12 makes for
calls without arguments.  `regroup` and `bareRoot` are what is special about groups and about roots.
-/

namespace DecimalExpression
namespace Term

/-! ## 1. Terms -/

/-- Whether a group around a term of this kind can go. -/
def groupIsRedundant : Kind → Bool
  | .group | .reference | .number => true
  | _ => false

/-- A group around a collapsed term, unless it is redundant. -/
def regroup (text : String) (body : Term) : Term :=
  if groupIsRedundant body.kind then body else ⟨.group, text, [body]⟩

/-- **The collapsed form of a term**, which may stand `inside` another one. -/
def collapse (inside : Bool) (t : Term) : Term :=
  match t with
  | ⟨.call, text, children⟩ => ⟨.call, text, children.map fun child => collapse true child⟩
  | ⟨.group, text, [only]⟩ =>
    if inside then regroup text (collapse true only) else collapse true only
  | ⟨_, _, [only]⟩ => collapse true only
  | ⟨kind, text, children⟩ => ⟨kind, text, children.map fun child => collapse true child⟩

/-- **The form that collapsing leaves**, of a term that may stand `inside` another one: a single
child only below a call, or below a group inside another term, and not below a group around a
group, a variable or a number. -/
inductive IsCollapsed : (inside : Bool) → Term → Prop
  | leaf (inside : Bool) (kind : Kind) (text : String) : IsCollapsed inside ⟨kind, text, []⟩
  | call (inside : Bool) (text : String) (name : Term) (below : IsCollapsed true name) :
    IsCollapsed inside ⟨.call, text, [name]⟩
  | group (text : String) (body : Term) (below : IsCollapsed true body)
    (needed : body.kind ≠ .group ∧ body.kind ≠ .reference ∧ body.kind ≠ .number) :
    IsCollapsed true ⟨.group, text, [body]⟩
  | branch (inside : Bool) (kind : Kind) (text : String) (first second : Term) (more : List Term)
    (below : ∀ child ∈ first :: second :: more, IsCollapsed true child) :
    IsCollapsed inside ⟨kind, text, first :: second :: more⟩

end Term

namespace Forest

/-! ## 2. Forests -/

/-- **The bare root**: single children are followed down, but not into a call. -/
def bareRoot (f : Forest) (i : Nat) (h : i < f.size) : Fin f.size :=
  match f.childrenOf i h with
  | [only] =>
    if (f.node i h).kind = .call then ⟨i, h⟩
    else f.bareRoot only.val (f.child_lt only h)
  | _ => ⟨i, h⟩
termination_by i
decreasing_by exact only.isLt

/-- The collapsed form of a term is planted, and its bare root made a root. -/
def plantCollapsed (f : Forest) (t : Term) : Forest :=
  let grown := plant f (t.collapse false)
  let root := grown.val.bareRoot (grown.val.size - 1) (by have := grown.property; omega)
  grown.val.grantRoot root.val root.isLt

/-- **The collapsed form of a forest.**  A forest that is known to be collapsed stays as it is. -/
def collapse (f : Forest) : Forest :=
  if f.collapsed then f
  else ((f.terms.foldl plantCollapsed empty).setSource f.source).markCollapsed

end Forest
end DecimalExpression
