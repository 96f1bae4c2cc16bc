import DecimalExpression.Proofs.Evaluation.Faults
import DecimalExpression.Proofs.Evaluation.Regrouping
import DecimalExpression.Proofs.Syntax.Subexpressions
import Mathlib

/-!
# What the name of a fault denotes

A fault that comes out of the evaluation of a source is the fault of one node of its tree: the node
has that fault also where its text is a source of its own (`ParseTree.ofSource_subexpressions`).
The name of the fault is the text of the node, unless the fault has no name at all or a method named
it.

The steps of the interpreter fail without a name, a call apart.  So a fault of a tree is named by
the text of the tree, or comes from below (`ParseTree.Derives.interpret_only`).
-/

namespace DecimalExpression

/-! ## 1. Steps without names

A node names the fault of its own step, and leaves a name that is there already.  So it matters
which steps fail without a name: all of them do, since operations on values do not know where they
stand. -/

/-- **A fault without a name**: taking its name away leaves it as it is. -/
def Fault.IsAnonymous (fault : Fault) : Prop := fault.anonymous = fault

theorem Fault.OfOperation.isAnonymous {fault : Fault} (h : fault.OfOperation) :
    fault.IsAnonymous := by
  cases h <;> rfl

/-- **A fault behind a naming step** got its name there, or is the one it was before. -/
theorem Fault.within_cases (slice : String) (fault : Fault) :
    (fault.within slice).anonymous.within slice = fault.within slice ∨
    fault.within slice = fault := by
  have known : ∀ expression : String, innermost expression slice = innermost "" slice ∨
      innermost expression slice = expression := by
    intro expression
    rw [innermost]
    split
    · exact .inl rfl
    · exact .inr rfl
  cases fault with
  | source | unknownMethod | arity | input => exact .inr rfl
  | typeMismatch cause expression | nullOperand cause expression | arithmetic cause expression
  | shape cause expression =>
    exact (known expression).imp (fun new => by rw [within, new]; rfl)
      (fun old => by rw [within, old])

namespace Interpreter

variable {α : Type} {slice : String} {allowed : Fault → Prop}

/-- **A step that fails without a name** is named by the text of its node. -/
theorem only_named {outcome : Except Fault α} (step : Only Fault.IsAnonymous outcome)
    (here : ∀ fault : Fault, fault.anonymous.within slice = fault → allowed fault) :
    Only allowed (named slice outcome) := by
  refine step.mapError fun fault anonymous => here _ ?_
  rw [Fault.anonymous_within, anonymous]

theorem calculate_anonymous (policy : Policy) (left : Value) (symbol : String) (right : Value) :
    Only Fault.IsAnonymous (calculate policy left symbol right) := by
  rw [calculate]
  split
  · exact ((apply_only _ policy left right).mono fun _ h => h.isAnonymous).map _
  · exact only_error rfl

theorem fold_anonymous (policy : Policy) (first : Value) (links : List (String × Value)) :
    Only Fault.IsAnonymous (fold policy first links) := by
  induction links generalizing first with
  | nil => exact only_ok first
  | cons link links ih =>
    rw [fold, List.foldlM_cons]
    exact (calculate_anonymous policy first link.1 link.2).bind fun result _ => ih result

theorem truth_anonymous (role : Role) (value : Value) :
    Only Fault.IsAnonymous (truth role value) := by
  cases value with
  | bool truth => exact only_ok truth
  | null | decimal | text => exact only_error rfl

theorem equality_anonymous (left : Value) (symbol : String) (right : Value) :
    Only Fault.IsAnonymous (equality left symbol right) := by
  unfold equality
  split
  · exact only_ok _
  · exact only_ok _
  · exact only_error rfl

theorem relation_anonymous (left : Value) (symbol : String) (right : Value) :
    Only Fault.IsAnonymous (relation left symbol right) := by
  rw [relation]
  split
  · exact only_error rfl
  split
  · exact only_ok _
  · exact only_ok _
  · exact only_ok _
  · exact only_ok _
  · exact only_error rfl

theorem literal_anonymous (slice : String) : Only Fault.IsAnonymous (literal slice) :=
  (only_ofArithmetic _).mono fun _ h => h.isAnonymous

theorem unquoted_anonymous (slice : String) : Only Fault.IsAnonymous (unquoted slice) := by
  rw [unquoted]
  split
  · exact only_ok _
  · exact only_error rfl

end Interpreter

/-! ## 2. Nodes

By induction on the height, a fault of a tree comes from a node somewhere in it, and that node has
the fault itself.  The one fault whose name is no text of a node is one that a method raised with a
name of its own. -/

namespace ParseTree

open Interpreter

variable {tree : ParseTree} {p : Production} {env : Environment} {fault : Fault}
  {allowed : Fault → Prop}

/-- **A fault named by a node**: its name is the text of the node, if it has one, or the method that
the node calls has raised it. -/
inductive NamedBy (env : Environment) (u : ParseTree) (fault : Fault) : Prop
  | text (named : fault.anonymous.within u.text = fault)
  | method (name : String) (arguments : List Value)
    (call : u.production = .call ∧ u.children.head? = some (leaf .token name))
    (raised : env.methods.invoke name arguments = .error fault)

/-- The links of a chain have the faults of their operands. -/
theorem interpretLinks_only {links : List (String × ParseTree)}
    (each : ∀ link ∈ links, Only allowed (interpret env link.2)) :
    Only allowed (interpretLinks env (linkTrees links)) := by
  induction links with
  | nil => exact only_ok []
  | cons link links ih =>
    obtain ⟨here, later⟩ := List.forall_mem_cons.mp each
    rw [linkTrees, interpretLinks]
    exact here.bind fun value _ => (ih later).bind fun more _ => only_ok _

/-- The arguments of a call have their own faults. -/
theorem interpretArguments_only {arguments : List ParseTree} {closing : ParseTree}
    (each : ∀ a ∈ arguments, Only allowed (interpret env a)) :
    Only allowed (interpretArguments env (arguments ++ [closing])) := by
  induction arguments with
  | nil => exact only_ok []
  | cons argument arguments ih =>
    obtain ⟨here, later⟩ := List.forall_mem_cons.mp each
    obtain ⟨next, rest, same⟩ : ∃ next rest, arguments ++ [closing] = next :: rest :=
      List.exists_cons_of_ne_nil (by simp)
    rw [List.cons_append, same, interpretArguments, ← same]
    exact here.bind fun value _ => (ih later).bind fun more _ => only_ok _

/-- A truth value is asked of what is below. -/
theorem truth_only {α : Type} {slice : String} {x : Except Fault Value} {role : Role}
    {next : Bool → Except Fault α} (below : Only allowed x)
    (here : ∀ fault : Fault, fault.anonymous.within slice = fault → allowed fault)
    (onward : ∀ truth, Only allowed (next truth)) :
    Only allowed (x >>= fun value => named slice (truth role value) >>= next) :=
  below.bind fun value _ => (only_named (truth_anonymous role value) here).bind fun truth _ =>
    onward truth

/-- **A fault of a node** is one of a child, or it is named by the node.  By cases on the
derivation.  What fails behind the children gets the text of the node as its name, unless it has
one, and only a method can raise a fault that has. -/
theorem Derives.interpret_only (h : Derives p tree)
    (below : ∀ child ∈ tree.children, ∀ {q : Production}, Derives q child →
      Only allowed (interpret env child))
    (here : p.standsAlone → ∀ fault, NamedBy env tree fault → allowed fault) :
    Only allowed (interpret env tree) := by
  have step (alone : p.standsAlone) (fault : Fault)
    (named : fault.anonymous.within tree.text = fault) :
      allowed fault := here alone fault (.text named)
  cases h with
  | layer level slice derives =>
    rw [interpret_layer level]
    exact below _ (by simp) derives
  | flat level slice links signs atFirst atLinks =>
    rw [interpret_flat level]
    refine (below _ (by simp) atFirst).bind fun first _ => ?_
    refine (interpretLinks_only fun link member => ?_).bind fun values _ => ?_
    · exact below _ (by simp [mem_linkTrees_of_mem member]) (atLinks link member)
    · exact only_named (fold_anonymous _ _ _) (step (by cases level <;> rfl))
  | left level slice sign atLeft atRight =>
    have left := below _ (by simp) atLeft
    have right := below _ (by simp) atRight
    cases level with
    | equality =>
      rw [interpret]
      exact left.bind fun v _ => right.bind fun w _ =>
        only_named (equality_anonymous _ _ _) (step rfl)
    | relational =>
      rw [interpret]
      exact left.bind fun v _ => right.bind fun w _ =>
        only_named (relation_anonymous _ _ _) (step rfl)
  | right level slice atLeft atRight =>
    have left := below _ (by simp) atLeft
    have right := below _ (by simp) atRight
    cases level with
    | disjunction =>
      rw [interpret]
      refine truth_only left (step rfl) fun truth => ?_
      cases truth
      · exact truth_only right (step rfl) fun _ => only_ok _
      · exact only_ok _
    | conjunction =>
      rw [interpret]
      refine truth_only left (step rfl) fun truth => ?_
      cases truth
      · exact only_ok _
      · exact truth_only right (step rfl) fun _ => only_ok _
  | choice slice atCondition atConsequent atAlternative =>
    rw [interpret]
    refine truth_only (below _ (by simp) atCondition) (step rfl) fun truth => ?_
    cases truth
    · exact below _ (by simp) atAlternative
    · exact below _ (by simp) atConsequent
  | signed slice plain derives =>
    rw [interpret]
    refine (below _ (by simp) derives).bind fun value _ => ?_
    exact only_named (calculate_anonymous _ _ _ _) (step rfl)
  | group slice derives =>
    rw [interpret]
    exact below _ (by simp) derives
  | @call slice name word arguments derives =>
    rw [interpret]
    refine (interpretArguments_only fun a member => below _ (by simp [member])
      (derives a member)).bind
      fun values _ => ?_
    intro fault failed
    cases invoked : env.methods.invoke name values with
    | ok value => simp [named, leaf, invoked] at failed
    | error raised =>
      obtain rfl : raised.within slice = fault := by simpa [named, leaf, invoked] using failed
      rcases raised.within_cases slice with new | old
      · exact here rfl _ (.text new)
      · exact here rfl _ (.method name values ⟨rfl, rfl⟩ (by rw [invoked, old]))
  | number word =>
    rw [leaf, interpret]
    exact only_named (literal_anonymous _) (step rfl)
  | text word =>
    rw [leaf, interpret]
    exact only_named (unquoted_anonymous _) (step rfl)
  | reference word =>
    rw [leaf, interpret]
    exact only_ok _

/-- **A fault of a tree** is that of a node that may stand alone and that names it. -/
theorem Derives.exists_named {p : Production} {tree : ParseTree} (h : Derives p tree)
    (failed : interpret env tree = .error fault) :
    ∃ path u, tree.Path path ∧ path.getLast? = some u ∧ u.production.standsAlone ∧
      interpret env u = .error fault ∧ NamedBy env u fault := by
  have steps : Only (fun fault => (∃ child ∈ tree.children, ∃ q, Derives q child ∧
      interpret env child = .error fault) ∨ p.standsAlone ∧ NamedBy env tree fault)
      (interpret env tree) :=
    h.interpret_only (fun child member q derives fault failed =>
      .inl ⟨child, member, q, derives, failed⟩)
      fun alone fault named => .inr ⟨alone, named⟩
  rcases steps fault failed with ⟨child, member, q, derives, failed'⟩ | ⟨alone, named⟩
  · obtain ⟨path, u, down, last, alone, failed', named⟩ := derives.exists_named failed'
    exact ⟨tree :: path, u, .child member down, by cases down <;> exact last, alone, failed', named⟩
  · exact ⟨[tree], tree, .here tree, rfl, by rwa [h.production_eq], failed, named⟩
termination_by tree.height
decreasing_by exact height_child_lt member

/-! ## 3. Sources

That the text of a node is a source of its own, and is read as this node, is a matter of syntax
(`DecimalExpression.Proofs.Syntax.Subexpressions`).  Here it is put together with faults: the node
that names a fault has the fault as a source. -/

/-- **Every slice is a source that is read as its own node.**  In a source that is accepted, the
text of every node that is not a token nor one of the three parts of a conditional is accepted, and
single children lead from its tree to the node.  So a fault of the evaluation is that of a node
which is named by it, and which has the same fault as a source of its own. -/
theorem ofSource_subexpressions {source : String} (read : ofSource source = .ok tree) :
    (∀ path u, tree.Path path → path.getLast? = some u → u.production.standsAlone →
      ∃ found, ofSource u.text = .ok found ∧ found.LeadsTo u) ∧
    ∀ env f fault, Forest.ofTree tree = .ok f → f.evaluate env = .error fault →
      ∃ path u found g, tree.Path path ∧ path.getLast? = some u ∧ u.production.standsAlone ∧
        NamedBy env u fault ∧ ofSource u.text = .ok found ∧ found.LeadsTo u ∧
        Forest.ofTree found = .ok g ∧ g.evaluate env = .error fault := by
  have shown := ofSource_eq_ok_iff.mp read
  have alone : ∀ path u, tree.Path path → path.getLast? = some u → u.production.standsAlone →
      ∃ found, ofSource u.text = .ok found ∧ found.LeadsTo u := by
    intro path u down last standsAlone
    obtain ⟨found, own, leads⟩ := shown.subexpression down last standsAlone
    exact ⟨found, ofSource_eq_ok_iff.mpr own, leads⟩
  refine ⟨alone, fun env f fault planted failed => ?_⟩
  obtain ⟨f, forest, evaluates⟩ := Forest.exists_evaluate_of_ofSource read
  rw [forest] at planted
  cases planted
  rw [evaluates] at failed
  obtain ⟨path, u, down, last, standsAlone, failed', named⟩ := shown.derives.exists_named failed
  have derives : Derives u.production u := by
    rcases shown.derives.onPath down last with ⟨slice, rfl⟩ | derives
    · cases standsAlone
    · exact derives
  obtain ⟨found, read', leads⟩ := alone path u down last standsAlone
  obtain ⟨g, forest', evaluates'⟩ := Forest.exists_evaluate_of_ofSource read'
  refine ⟨path, u, found, g, down, last, standsAlone, named, read', leads, forest', ?_⟩
  rw [evaluates', (ofSource_sound read').1.interpret_eq_of_entry derives leads.entry_eq, failed']

/-- For instance, the first branch of a conditional is a source of its own. -/
theorem ofSource_subexpressions_branch : ∃ tree path u, ofSource "a ? (b / 0) : c" = .ok tree ∧
    tree.Path path ∧ path.getLast? = some u ∧ u.text = "(b / 0)" ∧
    ∃ found, ofSource u.text = .ok found ∧ found.LeadsTo u := by
  have parses : (ofSource "a ? (b / 0) : c").isOk = true := by cbv
  obtain ⟨tree, read⟩ := exists_of_isOk parses
  have inside : (ofSource "a ? (b / 0) : c").toOption.map (fun tree =>
      ((tree.children.flatMap children).flatMap children).map fun u => (u.production, u.text))
      = some [(.disjunction, "a"), (.conditional, "(b / 0)"), (.conditional, "c")] := by cbv
  rw [read] at inside
  have parts : ((tree.children.flatMap children).flatMap children).map
    (fun u => (u.production, u.text))
      = _ := Option.some.inj inside
  obtain ⟨u, member, same⟩ : ∃ u ∈ (tree.children.flatMap children).flatMap children,
      (u.production, u.text) = (Production.conditional, "(b / 0)") := by
    rw [← List.mem_map, parts]
    decide
  obtain ⟨production, text⟩ := Prod.mk.inj same
  obtain ⟨branch, atBranch, atU⟩ := List.mem_flatMap.mp member
  obtain ⟨choice, atChoice, atBranch⟩ := List.mem_flatMap.mp atBranch
  have down : tree.Path [tree, choice, branch, u] :=
    .child atChoice (.child atBranch (.child atU (.here u)))
  have alone : u.production.standsAlone := by
    rw [production]
    rfl
  obtain ⟨found, read', leads⟩ := (ofSource_subexpressions read).1 _ u down rfl alone
  exact ⟨tree, _, u, read, down, rfl, text, found, read', leads⟩

end ParseTree
end DecimalExpression
