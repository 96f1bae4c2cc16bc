import DecimalExpression.Expression.Planting
import DecimalExpression.Proofs.Outcomes
import DecimalExpression.Proofs.Syntax.Depth
import Mathlib

/-!
# Malformed trees

A production has a shape: a number of children, and for some a sign, a name or branches among them
(`ParseTree.HasShape`).  Translation goes on to some of the children (`ParseTree.translated`):
punctuation it drops, and of signs and names it copies the text.  A node is translated where it has
its shape and the children it goes on to are translated (`Term.reads_iff`), so a tree is where all
the nodes that translation comes to have their shape (`Term.reads_iff_reaches`).

A forest is translated from one node on: from a sum, where single children lead from the root to
one, and from the root otherwise.  The layers above such a sum are passed on the way and left
behind, so their shapes do not count (`Forest.ofTree_error_iff_reaches`).
-/

namespace DecimalExpression
namespace ParseTree

/-! ## 1. Shapes

The shape of a production is stated as a condition on the node alone, without translating anything:
how many children, and for some productions which texts and which productions among them.  Beside it
stands which children translation looks at, since it does not look at all. -/

/-- **A node has the shape of its production.** -/
def HasShape : ParseTree → Prop
  | ⟨.expression, _, _⟩ => True
  | ⟨.conditional, _, children⟩ => children.length = 1 ∨
    ∃ condition question consequent colon alternative,
      children = [condition, question, consequent, colon, alternative] ∧
      condition.production = .condition ∧ consequent.production = .consequent ∧
      alternative.production = .alternative
  | ⟨.condition, _, children⟩ | ⟨.consequent, _, children⟩ | ⟨.alternative, _, children⟩
  | ⟨.primary, _, children⟩ => children.length = 1
  | ⟨.disjunction, _, children⟩ | ⟨.conjunction, _, children⟩ | ⟨.equality, _, children⟩
  | ⟨.relational, _, children⟩ => children.length = 1 ∨ children.length = 3
  | ⟨.additive, _, children⟩ | ⟨.multiplicative, _, children⟩ => Odd children.length
  | ⟨.unary, _, children⟩ => children.length = 1 ∨
    ∃ sign operand, children = [sign, operand] ∧ sign.production = .token ∧
      (sign.text = "+" ∨ sign.text = "-")
  | ⟨.group, _, children⟩ => children.length = 3
  | ⟨.call, _, children⟩ => ∃ name rest, children = name :: rest ∧ name.production = .token
  | ⟨.number, _, children⟩ | ⟨.text, _, children⟩ | ⟨.reference, _, children⟩
  | ⟨.token, _, children⟩ => children = []

/-- **The children that translation goes on to.**  What stands in the places of punctuation is
dropped, and of a sign and of the name of a call only the text is taken. -/
def translated : ParseTree → List ParseTree
  | ⟨.conditional, _, [condition, _, consequent, _, alternative]⟩ =>
    [condition, consequent, alternative]
  | ⟨.unary, _, [_, operand]⟩ => [operand]
  | ⟨.group, _, [_, body, _]⟩ => [body]
  | ⟨.call, _, _ :: rest⟩ => rest.filter (·.production ≠ .token)
  | ⟨_, _, children⟩ => children

/-- **Translation comes to a node** from a tree: it is the tree, or it comes to it from a child that
it goes on to. -/
inductive Reaches : ParseTree → ParseTree → Prop
  | here (tree : ParseTree) : Reaches tree tree
  | deeper {tree child node : ParseTree} (goesOn : child ∈ tree.translated)
    (reaches : Reaches child node) : Reaches tree node

theorem reaches_iff {tree node : ParseTree} :
    tree.Reaches node ↔ node = tree ∨ ∃ child ∈ tree.translated, child.Reaches node := by
  constructor
  · intro reaches
    cases reaches with
    | here => exact .inl rfl
    | deeper goesOn reaches => exact .inr ⟨_, goesOn, reaches⟩
  · rintro (rfl | ⟨child, goesOn, reaches⟩)
    · exact .here node
    · exact .deeper goesOn reaches

theorem mem_children_of_mem_translated {tree child : ParseTree} (member : child ∈ tree.translated) :
    child ∈ tree.children := by
  rw [translated.eq_def] at member
  split at member
  · simp only [List.mem_cons, List.not_mem_nil, or_false] at member ⊢
    tauto
  · simp only [List.mem_cons, List.not_mem_nil, or_false] at member ⊢
    exact .inr member
  · simp only [List.mem_cons, List.not_mem_nil, or_false] at member ⊢
    exact .inr (.inl member)
  · exact List.mem_cons_of_mem _ (List.mem_of_mem_filter member)
  · exact member

end ParseTree

/-! ## 2. One node

One equivalence for each production: a term is there exactly if the shape is right and the children
that are looked at have terms.  Layers have one in common. -/

namespace Term

open ParseTree

variable {tree child sign name : ParseTree} {production : Production} {text : String}
  {children : List ParseTree}

/-- A tree has a term. -/
def Reads (tree : ParseTree) : Prop := ∃ t, ofTree tree = .ok t

theorem exists_signOf_iff : (∃ t, signOf sign text = .ok t) ↔
    sign.production = .token ∧ (sign.text = "+" ∨ sign.text = "-") := by
  rw [signOf, exists_bind_iff]
  simp only [exists_ite_iff]
  rw [exists_and_right, expectProduction, exists_ite_iff]

theorem exists_nameOf_iff : (∃ t, nameOf name = .ok t) ↔ name.production = .token := by
  rw [nameOf, exists_bind_iff]
  simp only [exists_pure, and_true]
  rw [expectProduction, exists_ite_iff]

/-- The arguments of a call are read, and its tokens are not.  By induction on the children, since a
token is passed over wherever it stands. -/
theorem exists_arguments_iff {rest : List ParseTree} :
    (∃ ts, (rest.filterMapM fun child =>
      if child.production = .token then pure none
      else return some (← ofTree child)) = .ok ts) ↔
      ∀ child ∈ rest.filter (·.production ≠ .token), Reads child := by
  induction rest with
  | nil => exact iff_of_true ⟨[], rfl⟩ (List.forall_mem_nil _)
  | cons child rest ih =>
    rw [List.filterMapM_cons]
    by_cases token : child.production = .token
    · rw [if_pos token, List.filter_cons_of_neg (by simpa using token)]
      exact ih
    · rw [if_neg token, List.filter_cons_of_pos (by simpa using token), List.forall_mem_cons, ← ih,
        Reads]
      constructor
      · rintro ⟨ts, done⟩
        obtain ⟨found, first, done⟩ := bind_eq_ok done
        obtain ⟨t, term, whole⟩ := bind_eq_ok first
        cases whole
        obtain ⟨more, rest, -⟩ := bind_eq_ok done
        exact ⟨⟨t, term⟩, more, rest⟩
      · rintro ⟨⟨t, term⟩, more, rest⟩
        refine ⟨t :: more, ?_⟩
        rw [term, ok_bind, rest]
        rfl

/-- **A layer has a term** where its children are as many as they may be and have terms. -/
theorem reads_layer_iff (layer : production ≠ .conditional ∧ production ≠ .unary ∧
      production ≠ .group ∧ production ≠ .call) :
    Reads ⟨production, text, children⟩ ↔
      (childCount production).admits children.length = true ∧ ∀ child ∈ children, Reads child := by
  have whole : ofTree ⟨production, text, children⟩ = (do
      expectCount ⟨production, text, children⟩
      return ⟨layerKind production, text, ← children.mapM fun child => ofTree child⟩) := by
    rw [ofTree.eq_def]
    cases production <;> simp_all
  rw [Reads, whole, exists_bind_iff]
  simp only [exists_bind_iff, exists_pure, and_true]
  rw [exists_and_right, expectCount, exists_ite_iff, exists_mapM_iff]
  rfl

/-- A tree with too many or too few children has no term. -/
theorem not_reads_of_count (refused : (childCount tree.production).admits
    tree.children.length = false) :
    ¬ Reads tree := by
  rintro ⟨t, done⟩
  rw [ofTree.eq_def] at done
  obtain ⟨_, counted, -⟩ := bind_eq_ok done
  rw [expectCount, refused] at counted
  cases counted

/-- **A conditional** without branches is its only child; one with branches reads those.  By the
number of children; with one, with five, or with any other. -/
theorem reads_conditional_iff : Reads ⟨.conditional, text, children⟩ ↔
    HasShape ⟨.conditional, text, children⟩ ∧
      ∀ child ∈ translated ⟨.conditional, text, children⟩, Reads child := by
  rcases children with _ | ⟨condition, _ | ⟨question, _ | ⟨consequent, _ | ⟨colon, _ |
    ⟨alternative, _ | ⟨_, _⟩⟩⟩⟩⟩⟩
  any_goals exact iff_of_false (not_reads_of_count rfl) (by simp [HasShape])
  · have only : Reads ⟨.conditional, text, [condition]⟩ ↔ Reads condition := by
      rw [Reads, ofTree.eq_def]
      rfl
    have goesOn : translated ⟨.conditional, text, [condition]⟩ = [condition] := rfl
    rw [only, goesOn, List.forall_mem_singleton]
    exact (and_iff_right (.inl rfl)).symm
  · have branches : Reads ⟨.conditional, text,
      [condition, question, consequent, colon, alternative]⟩ ↔
        (condition.production = .condition ∧ consequent.production = .consequent ∧
          alternative.production = .alternative) ∧
        Reads condition ∧ Reads consequent ∧ Reads alternative := by
      rw [Reads, ofTree.eq_def]
      change (∃ t, (do
        expectProduction .condition condition
        expectProduction .consequent consequent
        expectProduction .alternative alternative
        return (⟨.conditional, text,
          [← ofTree condition, ← ofTree consequent, ← ofTree alternative]⟩ : Term)) = .ok t) ↔ _
      simp only [exists_bind_iff, exists_pure, and_true]
      simp only [exists_and_right, expectProduction, exists_ite_iff, and_assoc]
      rfl
    rw [branches, translated]
    simp [HasShape]

/-- **A signed operand** has a sign, and reads the operand; without a sign there is a layer.  By the
number of children, as for conditionals. -/
theorem reads_unary_iff : Reads ⟨.unary, text, children⟩ ↔
    HasShape ⟨.unary, text, children⟩ ∧
      ∀ child ∈ translated ⟨.unary, text, children⟩, Reads child := by
  rcases children with _ | ⟨sign, _ | ⟨operand, _ | ⟨_, _⟩⟩⟩
  any_goals exact iff_of_false (not_reads_of_count rfl) (by simp [HasShape])
  · have only : Reads ⟨.unary, text, [sign]⟩ ↔ Reads sign := by
      rw [Reads, ofTree.eq_def]
      change (∃ t, (do return (⟨.unary, text, ← [sign].mapM fun child => ofTree child⟩ : Term))
        = .ok t) ↔ _
      simp only [exists_bind_iff, exists_pure, and_true]
      rw [exists_mapM_iff, List.forall_mem_singleton]
      rfl
    have goesOn : translated ⟨.unary, text, [sign]⟩ = [sign] := rfl
    rw [only, goesOn, List.forall_mem_singleton]
    exact (and_iff_right (.inl rfl)).symm
  · have signed : Reads ⟨.unary, text, [sign, operand]⟩ ↔
        (sign.production = .token ∧ (sign.text = "+" ∨ sign.text = "-")) ∧ Reads operand := by
      rw [Reads, ofTree.eq_def]
      change (∃ t, (do
        return (⟨.signed, text, [← signOf sign text, ← ofTree operand]⟩ : Term)) = .ok t) ↔ _
      simp only [exists_bind_iff, exists_pure, and_true]
      rw [exists_and_right, exists_signOf_iff]
      rfl
    rw [signed, translated]
    simp [HasShape]

/-- **A group** reads what stands between its parentheses. -/
theorem reads_group_iff : Reads ⟨.group, text, children⟩ ↔
    HasShape ⟨.group, text, children⟩ ∧
      ∀ child ∈ translated ⟨.group, text, children⟩, Reads child := by
  rcases children with _ | ⟨opening, _ | ⟨body, _ | ⟨closing, _ | ⟨_, _⟩⟩⟩⟩
  any_goals exact iff_of_false (not_reads_of_count rfl) (by simp [HasShape])
  have inside : Reads ⟨.group, text, [opening, body, closing]⟩ ↔ Reads body := by
    rw [Reads, ofTree.eq_def]
    change (∃ t, (do return (⟨.group, text, [← ofTree body]⟩ : Term)) = .ok t) ↔ _
    simp only [exists_bind_iff, exists_pure, and_true]
    rfl
  rw [inside, translated, List.forall_mem_singleton]
  exact (and_iff_right rfl).symm

/-- **A call** has a name, and reads its arguments. -/
theorem reads_call_iff : Reads ⟨.call, text, children⟩ ↔
    HasShape ⟨.call, text, children⟩ ∧
      ∀ child ∈ translated ⟨.call, text, children⟩, Reads child := by
  rcases children with _ | ⟨name, rest⟩
  · exact iff_of_false (not_reads_of_count rfl) (by simp [HasShape])
  have called : Reads ⟨.call, text, name :: rest⟩ ↔
      name.production = .token ∧ ∀ child ∈ rest.filter (·.production ≠ .token), Reads child := by
    rw [Reads, ofTree.eq_def]
    have counted : expectCount ⟨.call, text, name :: rest⟩ = .ok () := by
      simp [expectCount, childCount, ChildCount.admits]
    rw [counted, ok_bind]
    simp only [exists_bind_iff, exists_pure, and_true]
    rw [exists_and_right, exists_nameOf_iff]
    exact and_congr_right fun _ => exists_arguments_iff
  rw [called, translated]
  simp [HasShape]

/-- **A tree has a term** where it has the shape of its production and the children that translation
goes on to have terms. -/
theorem reads_iff (tree : ParseTree) :
    Reads tree ↔ tree.HasShape ∧ ∀ child ∈ tree.translated, Reads child := by
  obtain ⟨production, text, children⟩ := tree
  cases production with
  | conditional => exact reads_conditional_iff
  | unary => exact reads_unary_iff
  | group => exact reads_group_iff
  | call => exact reads_call_iff
  | expression | condition | consequent | alternative | primary | disjunction | conjunction
  | equality | relational | additive | multiplicative | number | text | reference | token =>
    refine (reads_layer_iff (by decide)).trans (and_congr ?_ Iff.rfl)
    simp [childCount, ChildCount.admits, HasShape, Nat.odd_iff]

/-! ## 3. Whole trees

With the equivalence for a node, an induction on the height gives one for trees, over all nodes that
translation comes to. -/

/-- **A tree has a term** where all the nodes that translation comes to have their shape. -/
theorem reads_iff_reaches (tree : ParseTree) :
    Reads tree ↔ ∀ node, tree.Reaches node → node.HasShape := by
  rw [reads_iff]
  -- The induction is on the height: children that translation goes on to are children of the tree.
  have below : ∀ child ∈ tree.translated,
      (Reads child ↔ ∀ node, child.Reaches node → node.HasShape) :=
    fun child member => reads_iff_reaches child
  constructor
  · rintro ⟨shape, children⟩ node reaches
    cases reaches with
    | here => exact shape
    | deeper goesOn reaches => exact (below _ goesOn).mp (children _ goesOn) node reaches
  · intro all
    refine ⟨all tree (.here tree), fun child goesOn => (below child goesOn).mpr ?_⟩
    exact fun node reaches => all node (.deeper goesOn reaches)
termination_by tree.height
decreasing_by exact height_child_lt (mem_children_of_mem_translated member)

end Term

/-! ## 4. Forests

A forest is translated from where translation starts, which may be below the root.  If the layers on
the way have their shapes, starting at the root would make no difference, and the plain statement
holds; if one of them has not, nobody notices. -/

namespace ParseTree

variable {tree only : ParseTree} {production : Production} {text : String}

/-- **Where translation starts**: at a sum that single children lead to, and at the root
otherwise. -/
def start (tree : ParseTree) : ParseTree :=
  if tree.entry.production = .additive then tree.entry else tree

/-- **The layers that are passed** on the way to the first node with a choice: nodes with a single
child. -/
def passed : ParseTree → List ParseTree
  | ⟨production, text, [only]⟩ => ⟨production, text, [only]⟩ :: only.passed
  | _ => []

/-- A node with a single child that has its shape goes on to that child, unless the child is a
token. -/
theorem translated_layer (shape : HasShape ⟨production, text, [only]⟩)
    (other : only.production ≠ .token) : translated ⟨production, text, [only]⟩ = [only] := by
  cases production with
  | call =>
    obtain ⟨name, rest, whole, token⟩ := shape
    cases whole
    exact absurd token other
  | expression | conditional | condition | consequent | alternative | disjunction | conjunction
  | equality | relational | additive | multiplicative | unary | primary | group | number | text
  | reference | token => rfl

/-- No token stands above a sum, if the layers have their shapes. -/
theorem production_ne_token (sum : tree.entry.production = .additive)
    (shaped : ∀ layer ∈ tree.passed, layer.HasShape) : tree.production ≠ .token := by
  obtain ⟨production, text, children⟩ := tree
  rintro rfl
  rcases children with _ | ⟨only, _ | ⟨second, more⟩⟩
  · cases sum
  · cases shaped _ List.mem_cons_self
  · cases sum

/-- **Above a sum, layers with their shapes hide nothing**: what translation would come to from the
root is a layer, or what it comes to from the sum. -/
theorem reaches_iff_of_passed (sum : tree.entry.production = .additive)
    (shaped : ∀ layer ∈ tree.passed, layer.HasShape) {node : ParseTree} :
    tree.Reaches node ↔ node ∈ tree.passed ∨ tree.entry.Reaches node := by
  induction tree using entry.induct with
  | case1 production text only ih =>
    have below : ∀ layer ∈ only.passed, layer.HasShape :=
      fun layer member => shaped layer (List.mem_cons_of_mem _ member)
    have goesOn := translated_layer (shaped _ List.mem_cons_self) (production_ne_token sum below)
    rw [reaches_iff, goesOn, passed, entry, List.mem_cons, or_assoc, ← ih sum below]
    simp only [List.mem_singleton, exists_eq_left]
  | case2 tree branches =>
    rw [passed.eq_def, entry.eq_def]
    split
    · exact absurd rfl (branches _ _ _)
    · simp

end ParseTree

namespace Forest

/-- **A parse tree has a forest** where all the nodes that translation comes to have their shape.
Where the first node with a choice is a sum its children are translated one by one, and otherwise
the whole tree is; both come to the nodes that are reached. -/
theorem exists_ofTree_iff (tree : ParseTree) :
    (∃ f, ofTree tree = .ok f) ↔ ∀ node, tree.start.Reaches node → node.HasShape := by
  have terms : (∃ f, ofTree tree = .ok f) ↔ ∃ ts, termsOfTree tree = .ok ts := by
    rw [ofTree]
    cases termsOfTree tree with
    | error cause =>
      exact iff_of_false (by rintro ⟨f, done⟩; cases done) (by rintro ⟨ts, done⟩; cases done)
    | ok ts => exact iff_of_true ⟨_, rfl⟩ ⟨ts, rfl⟩
  rw [terms, termsOfTree, ParseTree.start, ← Term.reads_iff_reaches]
  split
  · rename_i sum
    generalize tree.entry = entry at sum ⊢
    obtain ⟨production, text, children⟩ := entry
    cases sum
    rw [Term.reads_layer_iff (by decide), exists_bind_iff, exists_and_right, Term.expectCount,
      exists_ite_iff, exists_mapM_iff]
    rfl
  · rw [exists_bind_iff]
    simp only [exists_pure, and_true]
    rfl

/-- **Translation rejects a tree** exactly where a node that it comes to breaks its shape.  It
starts at the root, or at a sum that single children lead to from the root.  So where these layers
above a sum have their shapes, a tree is rejected exactly if some node of it breaks its shape, of
those that are neither dropped nor copied. -/
theorem ofTree_error_iff_reaches (tree : ParseTree) :
    ((∃ cause, ofTree tree = .error cause) ↔ ∃ node, tree.start.Reaches node ∧ ¬ node.HasShape) ∧
    ((tree.entry.production = .additive → ∀ layer ∈ tree.passed, layer.HasShape) →
      ((∃ cause, ofTree tree = .error cause) ↔ ∃ node, tree.Reaches node ∧ ¬ node.HasShape)) := by
  have fromStart : (∃ cause, ofTree tree = .error cause) ↔
      ∃ node, tree.start.Reaches node ∧ ¬ node.HasShape := by
    rw [exists_error_iff, exists_ofTree_iff]
    push Not
    rfl
  refine ⟨fromStart, fun shaped => fromStart.trans (exists_congr fun node => ?_)⟩
  rw [ParseTree.start]
  split
  · rename_i sum
    rw [ParseTree.reaches_iff_of_passed sum (shaped sum)]
    refine and_congr_left fun broken => ⟨.inr, ?_⟩
    rintro (layer | reaches)
    · exact absurd (shaped sum node layer) broken
    · exact reaches
  · rfl

/-- A sum with an operator at its end is rejected, below layers that have their shapes. -/
theorem ofTree_error_iff_reaches_dangling :
    ∃ cause, ofTree ⟨.expression, "1+", [⟨.primary, "1+", [⟨.additive, "1+",
      [.leaf .number "1", .leaf .token "+"]⟩]⟩]⟩ = .error cause := by
  refine ((ofTree_error_iff_reaches _).2 ?_).mpr
    ⟨_, .deeper (.head _) (.deeper (.head _) (.here _)), ?_⟩
  · rintro - layer (_ | ⟨_, _ | ⟨_, none⟩⟩)
    · trivial
    · rfl
    · cases none
  · change ¬ Odd 2
    decide

/-- **A malformed layer above a sum is not seen**: a group needs two parentheses, but one with a sum
as its only child is translated. -/
theorem ofTree_error_iff_reaches_hidden :
    ¬ ∀ tree : ParseTree, (∃ cause, ofTree tree = .error cause) ↔
      ∃ node, tree.Reaches node ∧ ¬ node.HasShape := by
  intro all
  have broken : ¬ ParseTree.HasShape ⟨.group, "1+2", [⟨.additive, "1+2",
      [.leaf .number "1", .leaf .token "+", .leaf .number "2"]⟩]⟩ := by
    change ¬ 1 = 3
    decide
  refine exists_error_iff.mp ((all _).mpr ⟨_, .here _, broken⟩) ((exists_ofTree_iff _).mpr ?_)
  rw [← Term.reads_iff_reaches]
  have number : ∀ digits, Term.Reads (.leaf .number digits) := fun digits =>
    (Term.reads_layer_iff (by decide)).mpr ⟨rfl, List.forall_mem_nil _⟩
  have plus : Term.Reads (.leaf .token "+") :=
    (Term.reads_layer_iff (by decide)).mpr ⟨rfl, List.forall_mem_nil _⟩
  have sum : Term.Reads ⟨.additive, "1+2",
      [.leaf .number "1", .leaf .token "+", .leaf .number "2"]⟩ :=
    (Term.reads_layer_iff (by decide)).mpr ⟨rfl, by simp [number, plus]⟩
  exact sum

end Forest
end DecimalExpression
