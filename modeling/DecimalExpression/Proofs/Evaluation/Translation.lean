import DecimalExpression.Proofs.Evaluation.Shapes
import DecimalExpression.Proofs.Syntax.Derivation

/-!
# From trees to terms

A derived tree becomes a regular term with the outcome of the tree (`ParseTree.Derives.becomes`), by
induction on the derivation: what each production becomes is a lemma of its own, and so is what the
term evaluates to.  Where a forest starts is the first node with a choice, which is derived too and
has the outcome of the whole tree (`ParseTree.Derives.entry`).
-/

namespace DecimalExpression

open Interpreter

/-! ## 1. Trees as terms

The proof goes by induction on the derivation, and there is a lemma for each production on either
side: what a tree of this form becomes, and what it is interpreted as.  What the term comes to is
known from its shape (`DecimalExpression.Proofs.Evaluation.Shapes`).  Rows of links and of arguments
are treated by inductions of their own, which only need that each of their trees becomes a term. -/

namespace ParseTree

/-- **A tree becomes a term**: a regular one, with the outcome of the tree. -/
structure Becomes (tree : ParseTree) (t : Term) : Prop where
  ofTree_eq : Term.ofTree tree = .ok t
  regular : t.Regular
  evaluate_eq : ∀ env : Environment, t.evaluate env = tree.interpret env

theorem ofTree_token (slice : String) :
    Term.ofTree (leaf .token slice) = .ok (Term.leaf .symbol slice) := by
  rw [Term.ofTree.eq_def]
  rfl

/-- A layer stays a node around its body. -/
theorem ofTree_layer {outer inner : Production} (level : Layer outer inner)
    (notConditional : outer ≠ .conditional) (slice : String) {body : ParseTree} {t : Term}
    (read : Term.ofTree body = .ok t) :
    Term.ofTree ⟨outer, slice, [body]⟩ = .ok ⟨Term.layerKind outer, slice, [t]⟩ := by
  rw [Term.ofTree.eq_def]
  cases level
  case conditional => exact absurd rfl notConditional
  all_goals
    simp only [Term.expectCount, Term.childCount, ChildCount.admits, List.length_singleton,
      List.mapM_cons, List.mapM_nil, read]
    rfl

theorem passesOn_layerKind {outer inner : Production} (level : Layer outer inner)
    (notConditional : outer ≠ .conditional) : Term.passesOn (Term.layerKind outer) := by
  cases level <;> first | rfl | exact absurd rfl notConditional

theorem interpret_layer {outer inner : Production} (level : Layer outer inner) (slice : String)
    (body : ParseTree) (env : Environment) :
    interpret env ⟨outer, slice, [body]⟩ = interpret env body := by
  cases level <;> rw [interpret] <;> nofun

/-- The links of a chain become links, and have the same outcomes. -/
theorem exists_links {operators : List String} {links : List (String × ParseTree)}
    (signs : ∀ link ∈ links, link.1 ∈ operators) (each : ∀ link ∈ links, ∃ t, Becomes link.2 t) :
    ∃ rest : List (String × Term), (linkTrees links).mapM Term.ofTree = .ok (Term.links rest) ∧
      (∀ link ∈ rest, link.1 ∈ operators) ∧ (∀ link ∈ rest, link.2.Regular) ∧
      ∀ env : Environment, Term.evaluateLinks env rest = interpretLinks env (linkTrees links) := by
  induction links with
  | nil => exact ⟨[], rfl, nofun, nofun, fun _ => rfl⟩
  | cons link links ih =>
    obtain ⟨operator, operand⟩ := link
    obtain ⟨sign, moreSigns⟩ := List.forall_mem_cons.mp signs
    obtain ⟨⟨t, atLink⟩, more⟩ := List.forall_mem_cons.mp each
    obtain ⟨rest, read, restSigns, regular, same⟩ := ih moreSigns more
    refine ⟨(operator, t) :: rest, ?_, List.forall_mem_cons.mpr ⟨sign, restSigns⟩,
      List.forall_mem_cons.mpr ⟨atLink.regular, regular⟩, fun env => ?_⟩
    · rw [linkTrees, List.mapM_cons, List.mapM_cons, read, ofTree_token, atLink.ofTree_eq]
      rfl
    · rw [Term.evaluateLinks_cons, linkTrees, interpretLinks, same, atLink.evaluate_eq]
      rfl

theorem length_linkTrees (links : List (String × ParseTree)) :
    (linkTrees links).length = 2 * links.length := by
  induction links with
  | nil => rfl
  | cons link links ih =>
    rw [linkTrees, List.length_cons, List.length_cons, List.length_cons, ih]
    omega

/-- The number of children of a flat chain is odd. -/
theorem expectCount_flat {outer operand : Production} {operators : List String}
    (level : FlatLevel outer operand operators) (slice : String) (first : ParseTree)
    (links : List (String × ParseTree)) :
    Term.expectCount ⟨outer, slice, first :: linkTrees links⟩ = .ok () := by
  have odd : (first :: linkTrees links).length % 2 = 1 := by
    rw [List.length_cons, length_linkTrees]
    omega
  have counted : Term.childCount outer = .odd := by cases level <;> rfl
  have admits : ChildCount.odd.admits (first :: linkTrees links).length = true := decide_eq_true odd
  rw [Term.expectCount]
  dsimp only
  rw [counted, admits]
  rfl

/-- The operators of a level are those of its kind. -/
theorem operators_layerKind {outer operand : Production} {operators : List String}
    (level : FlatLevel outer operand operators) :
    (Term.layerKind outer).operators = operators := by
  cases level <;> rfl

theorem isChain_layerKind {outer operand : Production} {operators : List String}
    (level : FlatLevel outer operand operators) : Term.isChain (Term.layerKind outer) := by
  cases level <;> rfl

/-- A flat chain stays a node. -/
theorem ofTree_flat {outer operand : Production} {operators : List String}
    (level : FlatLevel outer operand operators) (slice : String) {first : ParseTree}
    {links : List (String × ParseTree)} :
    Term.ofTree ⟨outer, slice, first :: linkTrees links⟩ = (do
      let children ← (first :: linkTrees links).mapM Term.ofTree
      return ⟨Term.layerKind outer, slice, children⟩) := by
  rw [Term.ofTree.eq_def, expectCount_flat level]
  cases level <;> rfl

theorem interpret_flat {outer operand : Production} {operators : List String}
    (level : FlatLevel outer operand operators) (slice : String) (first : ParseTree)
    (links : List (String × ParseTree)) (env : Environment) :
    interpret env ⟨outer, slice, first :: linkTrees links⟩ = (do
      let v ← interpret env first
      let values ← interpretLinks env (linkTrees links)
      named slice (fold env.policy v values)) := by
  cases level <;> rw [interpret]

/-- The arguments of a call become terms, and have the same outcomes. -/
theorem exists_arguments {arguments : List ParseTree}
    (each : ∀ a ∈ arguments, ∃ t, Becomes a t) :
    ∃ ts : List Term, List.Forall₂ (fun a t => Term.ofTree a = .ok t) arguments ts ∧
      (∀ t ∈ ts, t.Regular) ∧ ∀ env : Environment, ts.mapM (Term.evaluate env)
        = interpretArguments env (arguments ++ [leaf .token ")"]) := by
  induction arguments with
  | nil => exact ⟨[], .nil, nofun, fun _ => rfl⟩
  | cons a arguments ih =>
    obtain ⟨t, atFirst⟩ := each _ List.mem_cons_self
    obtain ⟨ts, read, regular, same⟩ := ih fun b member => each b (List.mem_cons_of_mem _ member)
    refine ⟨t :: ts, .cons atFirst.ofTree_eq read,
      List.forall_mem_cons.mpr ⟨atFirst.regular, regular⟩, fun env => ?_⟩
    obtain ⟨closing, more, whole⟩ :
      ∃ closing more, arguments ++ [leaf .token ")"] = closing :: more :=
      List.exists_cons_of_ne_nil (by simp)
    rw [List.mapM_cons, same, atFirst.evaluate_eq, List.cons_append, whole, interpretArguments]

/-- The closing parenthesis of a call is dropped, and nothing else. -/
theorem filterMapM_arguments {arguments : List ParseTree} {ts : List Term}
    (each : ∀ a ∈ arguments, Derives .conditional a)
    (read : List.Forall₂ (fun a t => Term.ofTree a = .ok t) arguments ts) :
    ((arguments ++ [leaf .token ")"]).filterMapM fun child =>
      if child.production = .token then pure none else return some (← Term.ofTree child))
        = .ok ts := by
  induction read with
  | nil => rfl
  | cons atFirst _ ih =>
    have more := ih fun b member => each b (List.mem_cons_of_mem _ member)
    have production := (each _ List.mem_cons_self).production_eq
    rw [List.cons_append, List.filterMapM_cons, more, production, if_neg nofun, atFirst]
    rfl

/-- A link of a chain that nests to the left stays a node. -/
theorem ofTree_left {outer operand : Production} {operators : List String}
    (level : LeftLevel outer operand operators) (slice operator : String) {left right : ParseTree}
    {l r : Term} (atLeft : Term.ofTree left = .ok l) (atRight : Term.ofTree right = .ok r) :
    Term.ofTree ⟨outer, slice, [left, leaf .token operator, right]⟩
      = .ok ⟨Term.layerKind outer, slice, [l, Term.leaf .symbol operator, r]⟩ := by
  rw [Term.ofTree.eq_def]
  cases level <;>
    simp only [List.mapM_cons, List.mapM_nil, atLeft, atRight, ofTree_token] <;> rfl

/-- A link of a chain that nests to the right stays a node. -/
theorem ofTree_right {outer operand : Production} {operator : String}
    (level : RightLevel outer operand operator) (slice : String) {left right : ParseTree}
    {l r : Term} (atLeft : Term.ofTree left = .ok l) (atRight : Term.ofTree right = .ok r) :
    Term.ofTree ⟨outer, slice, [left, leaf .token operator, right]⟩
      = .ok ⟨Term.layerKind outer, slice, [l, Term.leaf .symbol operator, r]⟩ := by
  rw [Term.ofTree.eq_def]
  cases level <;>
    simp only [List.mapM_cons, List.mapM_nil, atLeft, atRight, ofTree_token] <;> rfl

/-- Of a choice its three parts stay, and its two tokens go. -/
theorem ofTree_choice (slice : String) {condition consequent alternative : ParseTree}
    (atCondition : Derives .condition condition) (atConsequent : Derives .consequent consequent)
    (atAlternative : Derives .alternative alternative) {c a b : Term}
    (readCondition : Term.ofTree condition = .ok c)
    (readConsequent : Term.ofTree consequent = .ok a)
    (readAlternative : Term.ofTree alternative = .ok b) :
    Term.ofTree ⟨.conditional, slice,
        [condition, leaf .token "?", consequent, leaf .token ":", alternative]⟩
      = .ok ⟨.conditional, slice, [c, a, b]⟩ := by
  rw [Term.ofTree.eq_def]
  simp only [Term.expectProduction, atCondition.production_eq, atConsequent.production_eq,
    atAlternative.production_eq, readCondition, readConsequent, readAlternative]
  rfl

/-- A sign stays, and its operand. -/
theorem ofTree_signed (slice : String) {sign : String} (plain : sign = "+" ∨ sign = "-")
    {operand : ParseTree} {t : Term} (read : Term.ofTree operand = .ok t) :
    Term.ofTree ⟨.unary, slice, [leaf .token sign, operand]⟩
      = .ok ⟨.signed, slice, [Term.leaf .symbol sign, t]⟩ := by
  rw [Term.ofTree.eq_def]
  rcases plain with rfl | rfl
  · simp only [read]
    rfl
  · simp only [read]
    rfl

/-- Of a group its parentheses go. -/
theorem ofTree_group (slice : String) {body : ParseTree} {t : Term}
    (read : Term.ofTree body = .ok t) :
    Term.ofTree ⟨.group, slice, [leaf .token "(", body, leaf .token ")"]⟩
      = .ok ⟨.group, slice, [t]⟩ := by
  rw [Term.ofTree.eq_def]
  simp only [read]
  rfl

/-- Of a call its name stays, and its arguments. -/
theorem ofTree_call (slice name : String) {arguments : List ParseTree} {ts : List Term}
    (each : ∀ a ∈ arguments, Derives .conditional a)
    (read : List.Forall₂ (fun a t => Term.ofTree a = .ok t) arguments ts) :
    Term.ofTree ⟨.call, slice,
        leaf .token name :: leaf .token "(" :: (arguments ++ [leaf .token ")"])⟩
      = .ok ⟨.call, slice, Term.leaf .symbol name :: ts⟩ := by
  have counted : Term.expectCount ⟨.call, slice, leaf .token name :: leaf .token "(" ::
      (arguments ++ [leaf .token ")"])⟩ = .ok () := rfl
  have opening : ∀ rest : List ParseTree, ((leaf .token "(" :: rest).filterMapM fun child =>
      if child.production = .token then pure none
      else return some (← Term.ofTree child)) = rest.filterMapM fun child =>
        if child.production = .token then pure none
        else return some (← Term.ofTree child) := fun rest => by
    rw [List.filterMapM_cons]
    rfl
  rw [Term.ofTree.eq_def, counted]
  simp only [opening, filterMapM_arguments each read]
  rfl

/-- **A derived tree becomes a regular term** with the outcome of the tree.  By induction on the
derivation.  For each form there is the term it is translated to, the form of regular terms that
this is, and the two equations for its outcome. -/
theorem Derives.becomes {p : Production} {tree : ParseTree} (h : Derives p tree) :
    ∃ t, Becomes tree t := by
  induction h with
  | @layer outer inner level slice body below ih =>
    obtain ⟨t, atBody⟩ := ih
    by_cases conditional : outer = .conditional
    · subst conditional
      refine ⟨t, ?_, atBody.regular, fun env => ?_⟩
      · rw [Term.ofTree.eq_def]
        exact atBody.ofTree_eq
      · rw [atBody.evaluate_eq, interpret_layer level]
    · have passes := passesOn_layerKind level conditional
      refine ⟨_, ofTree_layer level conditional slice atBody.ofTree_eq,
        .layer passes slice atBody.regular, fun env => ?_⟩
      rw [Term.evaluate_layer passes, atBody.evaluate_eq, interpret_layer level]
  | flat level slice links signs atFirst atLinks ihFirst ihLinks =>
    obtain ⟨first, atFirst⟩ := ihFirst
    obtain ⟨rest, read, restSigns, regular, same⟩ := exists_links signs ihLinks
    have flat := isChain_layerKind level
    rw [← operators_layerKind level] at restSigns
    refine ⟨⟨_, slice, first :: Term.links rest⟩, ?_,
      .chain flat slice rest restSigns atFirst.regular regular, fun env => ?_⟩
    · rw [ofTree_flat level, List.mapM_cons, read, atFirst.ofTree_eq]
      rfl
    · rw [Term.evaluate_chain flat, atFirst.evaluate_eq, same, interpret_flat level]
  | @left outer operand operators level slice left right operator sign _ _ ihLeft ihRight =>
    obtain ⟨l, atLeft⟩ := ihLeft
    obtain ⟨r, atRight⟩ := ihRight
    refine ⟨_, ofTree_left level slice operator atLeft.ofTree_eq atRight.ofTree_eq, ?_,
      fun env => ?_⟩
    · cases level
      · exact .comparison (.inl rfl) slice sign atLeft.regular atRight.regular
      · exact .comparison (.inr rfl) slice sign atLeft.regular atRight.regular
    · cases level
      · rw [Term.layerKind, Term.evaluate_equality, atLeft.evaluate_eq, atRight.evaluate_eq,
          interpret]
        rfl
      · rw [Term.layerKind, Term.evaluate_relation, atLeft.evaluate_eq, atRight.evaluate_eq,
          interpret]
        rfl
  | @right outer operand operator level slice left right _ _ ihLeft ihRight =>
    obtain ⟨l, atLeft⟩ := ihLeft
    obtain ⟨r, atRight⟩ := ihRight
    refine ⟨_, ofTree_right level slice atLeft.ofTree_eq atRight.ofTree_eq, ?_, fun env => ?_⟩
    · cases level
      · exact .connective (.inl ⟨rfl, rfl⟩) slice atLeft.regular atRight.regular
      · exact .connective (.inr ⟨rfl, rfl⟩) slice atLeft.regular atRight.regular
    · cases level
      · rw [Term.layerKind, Term.evaluate_disjunction, atLeft.evaluate_eq, atRight.evaluate_eq,
          interpret]
      · rw [Term.layerKind, Term.evaluate_conjunction, atLeft.evaluate_eq, atRight.evaluate_eq,
          interpret]
  | choice slice atCondition atConsequent atAlternative ihCondition ihConsequent ihAlternative =>
    obtain ⟨c, hc⟩ := ihCondition
    obtain ⟨a, ha⟩ := ihConsequent
    obtain ⟨b, hb⟩ := ihAlternative
    have read := ofTree_choice slice atCondition atConsequent atAlternative hc.ofTree_eq
      ha.ofTree_eq hb.ofTree_eq
    refine ⟨_, read, .choice slice hc.regular ha.regular hb.regular, fun env => ?_⟩
    rw [Term.evaluate_choice, hc.evaluate_eq, ha.evaluate_eq, hb.evaluate_eq, interpret]
  | @signed slice sign operand plain below ih =>
    obtain ⟨t, atOperand⟩ := ih
    have sign : sign = "+" ∨ sign = "-" := by simpa using plain
    refine ⟨_, ofTree_signed slice sign atOperand.ofTree_eq, .signed sign slice atOperand.regular,
      fun env => ?_⟩
    rw [Term.evaluate_signed sign, atOperand.evaluate_eq, interpret]
    rfl
  | group slice below ih =>
    obtain ⟨t, atBody⟩ := ih
    refine ⟨_, ofTree_group slice atBody.ofTree_eq, .layer rfl slice atBody.regular, fun env => ?_⟩
    rw [Term.evaluate_layer rfl, atBody.evaluate_eq, interpret]
  | @call slice name word arguments below ih =>
    obtain ⟨ts, read, regular, same⟩ := exists_arguments ih
    refine ⟨_, ofTree_call slice name below read, .call slice name ts regular, fun env => ?_⟩
    rw [Term.evaluate_call, same, interpret]
    rfl
  | @number slice word =>
    refine ⟨Term.leaf .number slice, ?_, .number slice, fun env => ?_⟩
    · rw [Term.ofTree.eq_def]
      rfl
    · rw [Term.evaluate_number]
      rfl
  | @text slice word =>
    refine ⟨Term.leaf .text slice, ?_, .text slice word, fun env => ?_⟩
    · rw [Term.ofTree.eq_def]
      rfl
    · rw [Term.evaluate_text]
      rfl
  | @reference slice word =>
    refine ⟨Term.leaf .reference slice, ?_, .reference slice, fun env => ?_⟩
    · rw [Term.ofTree.eq_def]
      rfl
    · rw [Term.evaluate_reference]
      rfl

/-! ## 2. The first node with a choice

A forest is made from the first node with more than one child.  The layers that are passed on the
way give on the outcome of their child, so nothing is lost; that the node is derived again is what
lets the section above be applied to it. -/

/-- A flat chain without links has the outcome of its only operand. -/
theorem interpret_flat_nil {outer operand : Production} {operators : List String}
    (level : FlatLevel outer operand operators) (slice : String) (first : ParseTree)
    (env : Environment) : interpret env ⟨outer, slice, [first]⟩ = interpret env first := by
  have single := interpret_flat level slice first [] env
  rw [linkTrees] at single
  rw [single, interpretLinks.eq_def]
  cases interpret env first <;> rfl

/-- **The first node with a choice** is derived, and has the outcome of the tree.  Below a layer, or
a chain without operators, the first node with a choice is that of the only child; any other node is
its own. -/
theorem Derives.entry {p : Production} {tree : ParseTree} (h : Derives p tree) :
    (∃ q, Derives q tree.entry) ∧
      ∀ env : Environment, interpret env tree.entry = interpret env tree := by
  have itself : ∀ {q : Production} {u : ParseTree}, u.entry = u → Derives q u →
      (∃ q, Derives q u.entry) ∧ ∀ env : Environment, interpret env u.entry = interpret env u := by
    intro q u same h
    rw [same]
    exact ⟨⟨q, h⟩, fun _ => rfl⟩
  induction h with
  | @layer outer inner level slice body below ih =>
    have same : ParseTree.entry ⟨outer, slice, [body]⟩ = body.entry := rfl
    rw [same]
    exact ⟨ih.1, fun env => by rw [ih.2, interpret_layer level]⟩
  | @flat outer operand operators level slice first links signs atFirst atLinks ih =>
    cases links with
    | nil =>
      have same : ParseTree.entry ⟨outer, slice, [first]⟩ = first.entry := rfl
      rw [linkTrees, same]
      exact ⟨ih.1, fun env => by rw [ih.2, interpret_flat_nil level]⟩
    | cons link links => exact itself rfl (.flat level slice _ signs atFirst atLinks)
  | left level slice sign atLeft atRight => exact itself rfl (.left level slice sign atLeft atRight)
  | right level slice atLeft atRight => exact itself rfl (.right level slice atLeft atRight)
  | choice slice atCondition atConsequent atAlternative =>
    exact itself rfl (.choice slice atCondition atConsequent atAlternative)
  | signed slice plain below => exact itself rfl (.signed slice plain below)
  | group slice below => exact itself rfl (.group slice below)
  | call slice word arguments below =>
    refine itself ?_ (.call slice word arguments below)
    cases arguments <;> rfl
  | number word => exact itself rfl (.number word)
  | text word => exact itself rfl (.text word)
  | reference word => exact itself rfl (.reference word)

/-- Trees with one first node with a choice have one outcome. -/
theorem Derives.interpret_eq_of_entry {p q : Production} {tree u : ParseTree} (h : Derives p tree)
    (h' : Derives q u) (same : tree.entry = u.entry) (env : Environment) :
    interpret env tree = interpret env u := by
  rw [← h.entry.2, same, h'.entry.2]

/-- A sum is a flat chain. -/
theorem Derives.exists_of_additive {tree : ParseTree} (h : Derives .additive tree) :
    ∃ slice first links, tree = ⟨.additive, slice, first :: linkTrees links⟩ ∧
      (∀ link ∈ links, link.1 ∈ ["+", "-"]) ∧ Derives .multiplicative first ∧
      ∀ link ∈ links, Derives .multiplicative link.2 := by
  cases h with
  | layer level => cases level
  | left level => cases level
  | right level => cases level
  | flat level slice links signs atFirst atLinks =>
    cases level
    exact ⟨slice, _, links, rfl, signs, atFirst, atLinks⟩

end ParseTree

end DecimalExpression
