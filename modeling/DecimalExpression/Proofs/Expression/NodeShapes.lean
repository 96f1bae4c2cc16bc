import DecimalExpression.Proofs.Expression.Canonical
import DecimalExpression.Syntax.Sentence

/-!
# The shapes of nodes

What a rule sees of a node are its kind, its text and the labels of its children.  `hasShape` says
which of these combinations the rules are written for: operators and the names of calls are symbols,
they stand where a rule looks for them, and nowhere else.  The layers of the grammar have no shape
at all, since none of them is left in a collapsed forest.

A forest is shaped when all its reachable nodes are, and its roots are one operand or a sum
(`Forest.IsShaped`).  The same can be said of its terms (`isShaped_iff`).
-/

namespace DecimalExpression

/-! ## 1. Labels

A rule reads texts of symbols and values of operands, so of a child only its kind and its text can
matter for whether a rule applies. -/

/-- **The label of a node**: its kind and its text. -/
structure Label where
  kind : Kind
  text : String
deriving DecidableEq, Repr

def Node.label (node : Node) : Label := ⟨node.kind, node.text⟩

def Term.label (t : Term) : Label := ⟨t.kind, t.text⟩

namespace Label

/-- A symbol that reads as one of some operators. -/
def isOperator (operators : List String) (label : Label) : Bool :=
  label.kind = .symbol && operators.contains label.text

/-- Anything but a symbol. -/
def isOperand (label : Label) : Bool := label.kind ≠ .symbol

variable {label : Label} {operators : List String}

theorem isOperator_iff :
    label.isOperator operators ↔ label.kind = .symbol ∧ label.text ∈ operators := by
  simp [isOperator]

theorem isOperand_iff : label.isOperand ↔ label.kind ≠ .symbol := by
  simp [isOperand]

end Label

/-- **Operands with an operator between each two of them**, one operand at least. -/
def interleaves (operators : List String) : List Label → Bool
  | [] => false
  | [only] => only.isOperand
  | operand :: operator :: rest =>
    operand.isOperand && operator.isOperator operators && interleaves operators rest

/-! ## 2. Shapes

The shape is a test on labels, one line for each kind, and a layer of the grammar fails it: no rule
of a collapsed forest is for a node that only hands on a value. -/

/-- **The operators of a kind.** -/
def Kind.operators : Kind → List String
  | .additive | .signed => ["+", "-"]
  | .multiplicative => ["*", "/"]
  | .disjunction => ["||"]
  | .conjunction => ["&&"]
  | .equality => ["==", "!="]
  | .relational => ["<=", ">=", "<", ">"]
  | _ => []

/-- **Layers of the grammar**: kinds that never stay behind in a collapsed forest of a source. -/
def Kind.isLayer : Kind → Bool
  | .expression | .primary | .unary | .condition | .consequent | .alternative => true
  | _ => false

/-- **The shape of a node**, by its kind, its text and the labels of its children. -/
def hasShape (kind : Kind) (text : String) (children : List Label) : Bool :=
  match kind, children with
  | .number, [] | .reference, [] | .symbol, [] => true
  | .text, [] => Word.isQuoted text.toList
  | .additive, children | .multiplicative, children =>
    3 ≤ children.length && interleaves kind.operators children
  | .signed, [sign, operand] => sign.isOperator kind.operators && operand.isOperand
  | .conditional, [condition, consequent, alternative] =>
    condition.isOperand && consequent.isOperand && alternative.isOperand
  | .disjunction, [left, operator, right] | .conjunction, [left, operator, right]
  | .equality, [left, operator, right] | .relational, [left, operator, right] =>
    left.isOperand && operator.isOperator kind.operators && right.isOperand
  | .call, name :: arguments => name.kind = .symbol && arguments.all Label.isOperand
  | .group, [body] => body.isOperand
  | _, _ => false

/-- A layer of the grammar has no shape. -/
theorem isLayer_of_hasShape {kind : Kind} {text : String} {children : List Label}
    (shape : hasShape kind text children) : kind.isLayer = false := by
  cases kind <;> first | rfl | cases shape

/-- **A term all whose nodes have their shapes.** -/
inductive Term.Shaped : Term → Prop
  | node (t : Term) (shape : hasShape t.kind t.text (t.children.map Term.label))
    (below : ∀ child ∈ t.children, Shaped child) : Shaped t

theorem Term.Shaped.shape {t : Term} (h : t.Shaped) :
    hasShape t.kind t.text (t.children.map Term.label) := by
  obtain ⟨_, shape, _⟩ := h
  exact shape

theorem Term.Shaped.child {t child : Term} (h : t.Shaped) (member : child ∈ t.children) :
    child.Shaped := by
  obtain ⟨_, _, below⟩ := h
  exact below child member

namespace Forest

/-! ## 3. Forests

The condition on reachable nodes and the condition on terms are the same.  Which of them is
convenient depends on the side: a forest that was built is known by its nodes, and evaluation goes
over terms. -/

/-- The labels of the children of a node. -/
def childLabels (f : Forest) (i : Nat) (h : i < f.size) : List Label :=
  (f.childrenOf i h).map fun c => (f.node c.val (f.child_lt c h)).label

/-- The labels of the roots. -/
def rootLabels (f : Forest) : List Label :=
  f.rootNodes.map fun r => (f.node r.val (f.root_lt r)).label

/-- **A shaped forest**: each reachable node has its shape, and the roots are one operand, or the
operands and operators of a sum. -/
structure IsShaped (f : Forest) : Prop where
  nodes : ∀ (i : Nat) (h : i < f.size), f.Reachable i →
    hasShape (f.node i h).kind (f.node i h).text (f.childLabels i h)
  roots : interleaves Kind.additive.operators f.rootLabels

variable {f : Forest}

theorem label_unfold {i : Nat} (h : i < f.size) : (f.unfold i h).label = (f.node i h).label := by
  rw [Term.label, kind_unfold, text_unfold, Node.label]

theorem labels_children_unfold {i : Nat} (h : i < f.size) :
    (f.unfold i h).children.map Term.label = f.childLabels i h := by
  rw [children_unfold, List.map_map, childLabels]
  exact List.map_congr_left fun c _ => label_unfold (f.child_lt c h)

theorem labels_terms (f : Forest) : f.terms.map Term.label = f.rootLabels := by
  rw [terms, List.map_map, rootLabels]
  exact List.map_congr_left fun r _ => label_unfold (f.root_lt r)

/-- **What holds of the terms of a forest and passes to children** holds of what any reachable node
unfolds to. -/
theorem holds_of_reachable {P : Term → Prop} (each : ∀ t ∈ f.terms, P t)
    (passes : ∀ {t child : Term}, P t → child ∈ t.children → P child) {i : Nat}
    (reachable : f.Reachable i) : ∀ h : i < f.size, P (f.unfold i h) := by
  induction reachable with
  | root member =>
    intro h
    exact each _ (mem_terms_iff.mpr ⟨_, member, f.unfolds_unfold _ h⟩)
  | child _ above member ih =>
    intro h
    have among := (mem_children_unfold above).mpr ⟨_, member, f.unfolds_unfold _ h⟩
    exact passes (ih above) among

/-- What a reachable node of a shaped forest unfolds to is shaped. -/
theorem IsShaped.shaped (shaped : f.IsShaped) (i : Nat) (h : i < f.size)
    (reachable : f.Reachable i) : (f.unfold i h).Shaped := by
  induction i using Nat.strongRecOn with
  | ind i ih =>
    have shape := shaped.nodes i h reachable
    rw [← labels_children_unfold, ← kind_unfold, ← text_unfold] at shape
    refine .node _ shape fun child member => ?_
    obtain ⟨c, old, inside, rfl⟩ := (mem_children_unfold h).mp member
    exact ih c (f.children_lt i h c old) inside (reachable.child h old)

/-- **A forest is shaped exactly when its terms are**, and these are one operand or a sum. -/
theorem isShaped_iff : f.IsShaped ↔ (∀ t ∈ f.terms, t.Shaped) ∧
    interleaves Kind.additive.operators (f.terms.map Term.label) := by
  rw [labels_terms]
  constructor
  · intro shaped
    refine ⟨fun t member => ?_, shaped.roots⟩
    obtain ⟨r, root, h, rfl⟩ := mem_terms_iff.mp member
    exact shaped.shaped r h (.root root)
  · rintro ⟨shaped, roots⟩
    refine ⟨fun i h reachable => ?_, roots⟩
    have shape := (holds_of_reachable shaped Term.Shaped.child reachable h).shape
    rwa [labels_children_unfold, kind_unfold, text_unfold] at shape

end Forest
end DecimalExpression
