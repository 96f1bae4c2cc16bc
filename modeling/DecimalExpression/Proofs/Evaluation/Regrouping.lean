import DecimalExpression.Proofs.Evaluation.Pipeline
import DecimalExpression.Proofs.Syntax.Parentheses
import DecimalExpression.Proofs.Syntax.Replacement

/-!
# Parentheses that change nothing

A whole source in parentheses has the outcome of the source, value and fault alike, and so does a
source in which one operand is put in parentheses, but for the name of the expression in a fault
(`Forest.evaluate_parenthesized`).

The first holds since the tree inside the parentheses is the tree of the source, texts and all: it
stands where the source starts, and places determine texts.  For the second, a tree is compared with
one that agrees with it (`Agrees`): leaves are the same, other nodes have the same outcome up to the
name in a fault.  A node whose children agree agrees with it (`Agrees.node`), by one case for each
way to derive a node, and what is in parentheses agrees with what is not.
-/

namespace DecimalExpression

/-! ## 1. Faults without names

Parentheses around an operand change the text of every node around it, and a fault is named by the
text of a node.  So outcomes are compared up to names.  Naming twice is naming once, which makes the
comparison go through sequences. -/

/-- **A fault without the name of its expression.** -/
def Fault.anonymous : Fault → Fault
  | typeMismatch cause _ => ofType cause
  | nullOperand cause _ => ofNull cause
  | arithmetic cause _ => ofArithmetic cause
  | shape cause _ => ofShape cause
  | fault => fault

@[simp] theorem Fault.anonymous_within (slice : String) (fault : Fault) :
    (fault.within slice).anonymous = fault.anonymous := by
  cases fault <;> rfl

/-- **An outcome up to the name in a fault.** -/
def unnamed {α : Type} (outcome : Except Fault α) : Except Fault α :=
  outcome.mapError Fault.anonymous

section Unnamed

open Interpreter

variable {α β : Type} {x y : Except Fault α} {f g : α → Except Fault β}

@[simp] theorem unnamed_named (slice : String) (outcome : Except Fault α) :
    unnamed (named slice outcome) = unnamed outcome := by
  cases outcome with
  | ok a => rfl
  | error fault => exact congrArg Except.error (Fault.anonymous_within slice fault)

/-- **Outcomes in sequence** are the same up to names where their parts are. -/
theorem unnamed_bind (same : unnamed x = unnamed y) (next : ∀ a, unnamed (f a) = unnamed (g a)) :
    unnamed (x >>= f) = unnamed (y >>= g) := by
  cases x with
  | ok a =>
    cases y with
    | ok b =>
      cases same
      exact next a
    | error fault => cases same
  | error fault =>
    cases y with
    | ok b => cases same
    | error fault' => exact congrArg Except.error (Except.error.inj same)

end Unnamed

namespace ParseTree

open Interpreter

variable {tree tree' : ParseTree} {p : Production} {slice slice' : String}
  {children children' : List ParseTree} {env : Environment}

/-! ## 2. Trees that agree

The relation says of two trees that one may stand where the other does: same production, outcomes
that are the same up to names, and shapes that fit.  It is kept by every production, by induction on
the height of the tree, since a tree and one with the same skeleton need not be parts of each
other. -/

/-- **A tree that agrees with another one** may stand in its place. -/
structure Agrees (tree tree' : ParseTree) : Prop where
  childless : tree.children = [] → tree' = tree
  derives : ∀ {p : Production}, Derives p tree → Derives p tree'
  signs_eq : tree'.signs = tree.signs
  operators_eq : tree'.nestedOperators = tree.nestedOperators
  outcome : ∀ env : Environment, unnamed (interpret env tree') = unnamed (interpret env tree)

theorem Agrees.refl (tree : ParseTree) : Agrees tree tree :=
  ⟨fun _ => rfl, id, rfl, rfl, fun _ => rfl⟩

/-- A token agrees with itself alone. -/
theorem Agrees.eq_leaf (h : Agrees (leaf p slice) tree') : tree' = leaf p slice := h.childless rfl

/-- What agrees with a tree may stand in its place. -/
theorem Agrees.replaces (h : Agrees tree tree') : Replaces tree tree' where
  token := fun _ same => h.childless (by rw [same]; rfl)
  derives := h.derives
  signs_eq := h.signs_eq
  operators_eq := h.operators_eq

theorem replaces_of_agrees (same : List.Forall₂ Agrees children children') :
    List.Forall₂ Replaces children children' :=
  same.imp fun _ _ => Agrees.replaces

/-- **Links that agree** have one outcome up to names. -/
theorem exists_links_of_forall₂ {links : List (String × ParseTree)}
    (same : List.Forall₂ Agrees (linkTrees links) children') :
    ∃ links', children' = linkTrees links' ∧ ∀ env : Environment,
      unnamed (interpretLinks env children') = unnamed (interpretLinks env (linkTrees links)) := by
  induction links generalizing children' with
  | nil =>
    cases same
    exact ⟨[], rfl, fun _ => rfl⟩
  | cons link links ih =>
    rcases same with _ | ⟨operator, _ | ⟨operand, others⟩⟩
    obtain rfl := operator.eq_leaf
    obtain ⟨links', rfl, outcome⟩ := ih others
    refine ⟨(link.1, _) :: links', rfl, fun env => ?_⟩
    rw [linkTrees, interpretLinks, interpretLinks]
    refine unnamed_bind (operand.outcome env) fun value => ?_
    exact unnamed_bind (outcome env) fun more => rfl

/-- **Arguments that agree** have one outcome up to names. -/
theorem interpretArguments_of_forall₂ (same : List.Forall₂ Agrees children children') :
    unnamed (interpretArguments env children') = unnamed (interpretArguments env children) := by
  induction same with
  | nil => rfl
  | cons first rest ih =>
    cases rest with
    | nil => rfl
    | cons second rest =>
      rw [interpretArguments, interpretArguments]
      refine unnamed_bind (first.outcome env) fun value => ?_
      exact unnamed_bind ih fun more => rfl

/-- A connective takes one truth value, and perhaps another one. -/
theorem unnamed_truth {α : Type} (role : Role) {x y : Except Fault Value}
    (same : unnamed x = unnamed y) {next next' : Bool → Except Fault α}
    (each : ∀ truth, unnamed (next truth) = unnamed (next' truth)) :
    unnamed (x >>= fun value => named slice (truth role value) >>= next)
      = unnamed (y >>= fun value => named slice' (truth role value) >>= next') :=
  unnamed_bind same fun value => unnamed_bind (by simp) each

/-- **A node whose children agree** has the same outcome up to names.  By cases on the derivation:
each form has the outcome of its children, combined in a way that does not look at names. -/
theorem Derives.outcome_of_forall₂ (derives : Derives p ⟨p, slice, children⟩)
    (nonempty : children ≠ []) (same : List.Forall₂ Agrees children children') (env : Environment) :
    unnamed (interpret env ⟨p, slice', children'⟩)
      = unnamed (interpret env ⟨p, slice, children⟩) := by
  cases derives with
  | layer level slice below =>
    rcases same with _ | ⟨body, _ | _⟩
    rw [interpret_layer level, interpret_layer level, body.outcome]
  | flat level slice links signs atFirst atLinks =>
    rcases same with _ | ⟨first, others⟩
    obtain ⟨links', rfl, outcome⟩ := exists_links_of_forall₂ others
    rw [interpret_flat level, interpret_flat level]
    refine unnamed_bind (first.outcome env) fun value => ?_
    exact unnamed_bind (outcome env) fun values => by simp
  | left level slice sign atLeft atRight =>
    rcases same with _ | ⟨left, _ | ⟨operator, _ | ⟨right, _ | _⟩⟩⟩
    obtain rfl := operator.eq_leaf
    cases level <;> rw [interpret, interpret] <;>
      exact unnamed_bind (left.outcome env) fun v =>
        unnamed_bind (right.outcome env) fun w => by simp
  | right level slice atLeft atRight =>
    rcases same with _ | ⟨left, _ | ⟨operator, _ | ⟨right, _ | _⟩⟩⟩
    obtain rfl := operator.eq_leaf
    cases level <;> rw [interpret, interpret] <;>
      refine unnamed_truth .leftOperand (left.outcome env) fun truth => ?_ <;>
      cases truth <;>
      first | rfl | exact unnamed_truth .rightOperand (right.outcome env) fun _ => rfl
  | choice slice atCondition atConsequent atAlternative =>
    rcases same with _ | ⟨condition, _ | ⟨question, _ | ⟨consequent, _ | ⟨colon, _ |
      ⟨alternative, _ | _⟩⟩⟩⟩⟩
    obtain rfl := question.eq_leaf
    obtain rfl := colon.eq_leaf
    rw [interpret, interpret]
    refine unnamed_truth .condition (condition.outcome env) fun truth => ?_
    cases truth
    · exact alternative.outcome env
    · exact consequent.outcome env
  | signed slice plain below =>
    rcases same with _ | ⟨sign, _ | ⟨operand, _ | _⟩⟩
    obtain rfl := sign.eq_leaf
    rw [interpret, interpret]
    exact unnamed_bind (operand.outcome env) fun value => by simp
  | group slice below =>
    rcases same with _ | ⟨opening, _ | ⟨body, _ | ⟨closing, _ | _⟩⟩⟩
    obtain rfl := opening.eq_leaf
    obtain rfl := closing.eq_leaf
    rw [interpret, interpret]
    exact body.outcome env
  | call slice word arguments below =>
    rcases same with _ | ⟨name, _ | ⟨opening, others⟩⟩
    obtain rfl := name.eq_leaf
    obtain rfl := opening.eq_leaf
    rw [interpret, interpret]
    exact unnamed_bind (interpretArguments_of_forall₂ others) fun values => by simp
  | number | text | reference => exact absurd rfl nonempty

/-- **A node whose children agree** agrees with it, whatever its text is. -/
theorem Agrees.node (derives : Derives p ⟨p, slice, children⟩) (nonempty : children ≠ [])
    (same : List.Forall₂ Agrees children children') :
    Agrees ⟨p, slice, children⟩ ⟨p, slice', children'⟩ where
  childless := fun none => absurd none nonempty
  derives := (Replaces.node derives nonempty (replaces_of_agrees same)).derives
  signs_eq := signs_of_replaces (replaces_of_agrees same)
  operators_eq := nestedOperators_of_replaces (replaces_of_agrees same)
  outcome := derives.outcome_of_forall₂ nonempty same

/-- **Trees with one skeleton agree**, if one of them is derived.  By induction on the height.  A
token is the same in both, and any other child is derived. -/
theorem Derives.agrees_of_skeleton_eq {p : Production} {tree tree' : ParseTree} (h : Derives p tree)
    (same : tree'.skeleton = tree.skeleton) : Agrees tree tree' := by
  induction height : tree.height using Nat.strong_induction_on generalizing p tree tree' with
  | _ n ih =>
    subst height
    obtain ⟨production, slice, children⟩ := tree
    by_cases none : children = []
    · subst none
      rw [eq_leaf_of_skeleton_eq same]
      exact .refl _
    · obtain ⟨slice', children', rfl, below, -⟩ := exists_of_skeleton_eq same
      obtain rfl : production = p := h.production_eq
      have pairs : List.Forall₂ (fun child child' => child'.skeleton = child.skeleton)
          children children' := by
        rw [← List.forall₂_eq_eq_eq, List.forall₂_map_left_iff, List.forall₂_map_right_iff] at below
        exact below.flip
      refine .node h none (List.forall₂_iff_zip.mpr ⟨pairs.length_eq, ?_⟩)
      intro child child' member
      have sameChild := (List.forall₂_iff_zip.mp pairs).2 member
      have among : child ∈ children := (List.of_mem_zip member).1
      rcases h.child among with ⟨slice, rfl⟩ | derives
      · rw [eq_leaf_of_skeleton_eq sameChild]
        exact .refl _
      · exact ih child.height (height_child_lt among) derives sameChild rfl

/-! ## 3. Operands in parentheses

A group passes on the outcome of what is inside, and so do the layers between.  The operand is
replaced where it stands (`Occurs`), and the nodes above it agree by the section above. -/

/-- Layers pass on what is inside them. -/
theorem interpret_layers {u : ParseTree} (h : Derives .primary u) (env : Environment) :
    interpret env (layers u) = interpret env u := by
  rw [← (derives_layers h).entry.2, entry_layers, h.entry.2]

/-- **An operand in parentheses agrees** with the operand. -/
theorem agrees_parenthesized {u : ParseTree} (h : Derives .primary u) :
    Agrees u (parenthesized (layers u)) := by
  have derives := derives_parenthesized (derives_layers h)
  obtain ⟨slice, body, rfl⟩ := h.exists_of_primary
  refine ⟨nofun, fun other => other.production_eq ▸ derives, rfl, rfl, fun env => ?_⟩
  rw [parenthesized, wrap, interpret_layer .group, interpret, interpret_layers h]

/-- **A tree with one operand in parentheses** agrees with the tree, and has two tokens more.  By
induction on the way down to the operand: the node above it takes the new tree in the old one's
place, and its tokens are the same around it. -/
theorem Occurs.exists_agrees {u : ParseTree} {before behind : List String}
    (occurs : Occurs u tree before behind) (operand : u.production = .primary)
    (derives : Derives p tree) (fits : tree.Throughout NodeFits) :
    ∃ tree', Agrees tree tree' ∧ tree'.Throughout NodeFits ∧
      tree'.tokens = before ++ ((parenthesized (layers u)).tokens ++ behind) := by
  induction occurs generalizing p with
  | here =>
    obtain rfl := derives.production_eq.symm.trans operand
    exact ⟨_, agrees_parenthesized derives, fits_parenthesized (fits_layers fits),
      (List.append_nil _).symm⟩
  | @item tree item front back before behind split below ih =>
    obtain ⟨first, last, whole, hole⟩ := items_hole split (below.ne_comma operand)
    have member : item ∈ tree.children := by simp [whole]
    rcases derives.child member with ⟨slice, rfl⟩ | atItem
    · rw [below.eq_leaf] at operand
      cases operand
    obtain ⟨item', agrees, fits', tokens⟩ := ih atItem (fits.child member)
    obtain ⟨production, slice, children⟩ := tree
    obtain rfl : children = first ++ item :: last := whole
    obtain rfl : production = p := derives.production_eq
    have same : List.Forall₂ Agrees (first ++ item :: last) (first ++ item' :: last) :=
      List.rel_append (List.forall₂_same.mpr fun _ _ => .refl _)
        (.cons agrees (List.forall₂_same.mpr fun _ _ => .refl _))
    refine ⟨⟨production, slice, first ++ item' :: last⟩, .node derives (by simp) same,
      .node _ (fits.here.replace derives (by simp) (replaces_of_agrees same)) ?_, ?_⟩
    · intro child among
      rcases List.mem_append.mp among with among | among
      · exact fits.child (by simp [among])
      rcases List.mem_cons.mp among with rfl | among
      · exact fits'
      · exact fits.child (by simp [among])
    · rw [tokens_node (by simp), hole, List.flatMap_append, List.flatMap_cons, tokens]
      simp only [List.append_assoc]

/-! ## 4. Sources in parentheses

Whether the source with parentheses is accepted is a question about text, so it is taken apart:
where the operand stands, what is in front of it and behind it, and that limits may be passed by the
two characters more.  For a whole source nothing is around the parentheses that could be named
differently, so there even the names are the same. -/

variable {source : String}

theorem toList_parentheses (source : String) :
    ("(" ++ source ++ ")").toList = '(' :: (source.toList ++ [')']) := by
  rw [String.toList_append, String.toList_append]
  rfl

/-- **A source in parentheses is read as a group** around what the source is read as, but for texts
of inner nodes. -/
theorem exists_group_of_parentheses {body : ParseTree}
    (read : ofSource source = .ok ⟨.expression, slice, [body]⟩) (below : Derives .conditional body)
    (read' : ofSource ("(" ++ source ++ ")") = .ok tree') :
    ∃ slice' body', tree'.entry = ⟨.group, slice', [leaf .token "(", body', leaf .token ")"]⟩ ∧
      body'.skeleton = body.skeleton := by
  have laid := ofSource_laidOut read
  rw [tokens_layer .expression] at laid
  have skeleton : tree'.skeleton = (wrap .expression (layers (parenthesized body))).skeleton := by
    refine skeleton_eq_of_ofSource read'
      (.layer .expression _ (derives_layers (derives_parenthesized below)))
      (fits_wrap nofun (fits_layers (fits_parenthesized
        ((ofSource_fits read).child List.mem_cons_self)))) ?_
    rw [tokens_wrap, tokens_layers, tokens_parenthesized, toList_parentheses]
    exact (laidOut_token "(").append (laid.append (laidOut_token ")"))
  have entry : tree'.entry.skeleton
      = ParseTree.skeleton ⟨.group, "", [leaf .token "(", body, leaf .token ")"]⟩ := by
    rw [← entry_skeleton, skeleton, entry_skeleton]
    rfl
  obtain ⟨slice', _, whole, same, -⟩ := exists_of_skeleton_eq entry
  obtain ⟨opening, _, rfl, sameOpening, same⟩ := List.map_eq_cons_iff.mp same
  obtain ⟨body', _, rfl, sameBody, same⟩ := List.map_eq_cons_iff.mp same
  obtain ⟨closing, _, rfl, sameClosing, same⟩ := List.map_eq_cons_iff.mp same
  obtain rfl := List.map_eq_nil_iff.mp same
  rw [eq_leaf_of_skeleton_eq sameOpening, eq_leaf_of_skeleton_eq sameClosing] at whole
  exact ⟨slice', body', whole, sameBody⟩

/-- **What stands in the parentheses** stands where the source starts. -/
theorem exists_standBehind_of_parentheses {body : ParseTree}
    (read' : ofSource ("(" ++ source ++ ")") = .ok tree')
    (entry : tree'.entry = ⟨.group, slice, [leaf .token "(", body, leaf .token ")"]⟩) :
    ∃ rest, StandBehind [body] (source.toList ++ [')']) rest := by
  obtain ⟨_, ⟨gap, start, split, layout, stands⟩, -⟩ := ofSource_stands read'
  have atEntry := stands.atEntry
  rw [entry] at atEntry
  obtain ⟨-, next, atOpening, gap', start', rest, split', separators, atBody, -⟩ := atEntry
  rw [toList_parentheses, atOpening.start_eq] at split
  have next_eq : source.toList ++ [')'] = next := by
    cases gap with
    | nil => exact (List.cons.inj split).2
    | cons c gap =>
      obtain rfl := (List.cons.inj split).1
      cases layout _ List.mem_cons_self
  exact ⟨rest, gap', start', rest, next_eq.trans split', separators, atBody, rfl⟩

/-- **What stands in the parentheses** is what the source is without them. -/
theorem exists_entry_of_parentheses {body : ParseTree}
    (read : ofSource source = .ok ⟨.expression, slice, [body]⟩)
    (read' : ofSource ("(" ++ source ++ ")") = .ok tree') :
    ∃ slice', tree'.entry = ⟨.group, slice', [leaf .token "(", body, leaf .token ")"]⟩ := by
  obtain ⟨derives, -, -⟩ := ofSource_sound read
  obtain ⟨_, _, expression, below⟩ := exists_of_expression derives
  cases expression
  obtain ⟨slice', body', entry, same⟩ := exists_group_of_parentheses read below read'
  obtain ⟨_, ⟨gap, start, split, layout, -, _, stands, -⟩, -⟩ := ofSource_stands read
  have atBody : StandBehind [body] source.toList _ := .cons ⟨gap, start, split, layout, stands⟩ rfl
  obtain ⟨_, atBody'⟩ := exists_standBehind_of_parentheses read' entry
  have visible := below.hasVisibleLeaves
  have visible' := ((below.agrees_of_skeleton_eq same).derives below).hasVisibleLeaves
  -- both stand at one place with one skeleton, so they are one tree
  obtain ⟨only, -⟩ := atBody.unique atBody' (List.forall_mem_singleton.mpr visible)
    (List.forall_mem_singleton.mpr visible') (by rw [List.map_singleton, List.map_singleton, same])
  cases only
  exact ⟨slice', entry⟩

/-- **A source in parentheses** is interpreted as the source, names in faults and all. -/
theorem interpret_of_parentheses (read : ofSource source = .ok tree)
    (read' : ofSource ("(" ++ source ++ ")") = .ok tree') (env : Environment) :
    interpret env tree' = interpret env tree := by
  obtain ⟨derives, -, -⟩ := ofSource_sound read
  obtain ⟨derives', -, -⟩ := ofSource_sound read'
  obtain ⟨slice, body, rfl, -⟩ := exists_of_expression derives
  obtain ⟨slice', entry⟩ := exists_entry_of_parentheses read read'
  rw [← derives'.entry.2, entry, interpret_layer .expression, interpret]

/-- **A source with one operand in parentheses** is interpreted as the source, up to the name in a
fault. -/
theorem unnamed_interpret_of_regrouped {u : ParseTree} {before behind : List String}
    {front back : List Char} (read : ofSource source = .ok tree) (operand : u.production = .primary)
    (occurs : Occurs u tree before behind) (atFront : LaidOut before front)
    (atBack : LaidOut behind back)
    (read' : ofSource (String.ofList (front ++ '(' :: (u.text.toList ++ ')' :: back))) = .ok tree')
    (env : Environment) : unnamed (interpret env tree') = unnamed (interpret env tree) := by
  obtain ⟨derives, -, -⟩ := ofSource_sound read
  obtain ⟨regrouped, agrees, fits, tokens⟩ :=
    occurs.exists_agrees operand derives (ofSource_fits read)
  have atOperand := (occurs.throughout operand (ofSource_written read)).laidOut
  have laid : LaidOut regrouped.tokens
      (String.ofList (front ++ '(' :: (u.text.toList ++ ')' :: back))).toList := by
    rw [tokens, tokens_parenthesized, tokens_layers, String.toList_ofList]
    have group := (laidOut_token "(").append (atOperand.append ((laidOut_token ")").append atBack))
    simpa using atFront.append group
  have skeleton := skeleton_eq_of_ofSource read' (agrees.derives derives) fits laid
  rw [((agrees.derives derives).agrees_of_skeleton_eq skeleton).outcome, agrees.outcome]

/-- **Where an operand occurs in a source**: tokens laid out, the operand, and tokens laid out. -/
theorem exists_place_of_ofSource {u : ParseTree} {before behind : List String}
    (read : ofSource source = .ok tree) (operand : u.production = .primary)
    (occurs : Occurs u tree before behind) :
    ∃ front back, source.toList = front ++ (u.text.toList ++ back) ∧ LaidOut before front ∧
      LaidOut behind back := by
  obtain ⟨rest, ⟨gap, start, split, layout, stands⟩, layout'⟩ := ofSource_stands read
  obtain ⟨front, back, text, atFront, atBack⟩ := occurs.exists_place operand (ofSource_written read)
  refine ⟨gap ++ front, back ++ rest, ?_, (laidOut_nil layout).append atFront, ?_⟩
  · rw [split, stands.start_eq, text]
    simp only [List.append_assoc]
  · have laid := atBack.append (laidOut_nil layout')
    rwa [List.append_nil] at laid

end ParseTree

namespace Forest

variable {source : String} {f : Forest}

/-- The forest of a source is evaluated as its tree is interpreted. -/
theorem exists_interpret_of_ofSource (read : ofSource source = .ok f) :
    ∃ tree, ParseTree.ofSource source = .ok tree ∧
      ∀ env : Environment, f.evaluate env = tree.interpret env := by
  obtain ⟨tree, parsed, -, represents⟩ := represents_of_ofSource read
  obtain ⟨-, -, nonempty⟩ := ParseTree.ofSource_sound parsed
  exact ⟨tree, parsed, represents.evaluate_eq nonempty⟩

/-- A source that is parsed has a forest. -/
theorem exists_ofSource {tree : ParseTree} (parsed : ParseTree.ofSource source = .ok tree) :
    ∃ f, ofSource source = .ok f := by
  obtain ⟨derives, labelled, nonempty⟩ := ParseTree.ofSource_sound parsed
  obtain ⟨f, forest, -⟩ := exists_represents derives labelled nonempty
  exact ⟨f, by rw [ofSource, parsed, ok_bind, forest, ok_mapError]⟩

open ParseTree in
/-- **Redundant parentheses are transparent.**  Where a source and the source in parentheses are
both accepted, they have one outcome in every environment, value or fault.  Every node of the tree
of the source occurs between tokens, and an operand has a place in the source, with those tokens in
front of it and behind it.  Where the operand is put in parentheses there, and the source is still
accepted, the outcome is the same up to the expression that a fault names. -/
theorem evaluate_parenthesized (read : ofSource source = .ok f) :
    (∀ g, ofSource ("(" ++ source ++ ")") = .ok g →
      ∀ env : Environment, g.evaluate env = f.evaluate env) ∧
    ∀ tree, ParseTree.ofSource source = .ok tree →
      (∀ path, tree.Path path → ∀ u, path.getLast? = some u →
        ∃ before behind, Occurs u tree before behind) ∧
      ∀ (u : ParseTree) (before behind : List String),
        u.production = .primary → Occurs u tree before behind →
          (∃ front back, source.toList = front ++ (u.text.toList ++ back) ∧ LaidOut before front ∧
            LaidOut behind back) ∧
          ∀ front back, source.toList = front ++ (u.text.toList ++ back) → LaidOut before front →
            LaidOut behind back → ∀ g,
              ofSource (String.ofList (front ++ '(' :: (u.text.toList ++ ')' :: back))) = .ok g →
                ∀ env : Environment, (g.evaluate env).mapError Fault.anonymous
                  = (f.evaluate env).mapError Fault.anonymous := by
  obtain ⟨tree, parsed, outcome⟩ := exists_interpret_of_ofSource read
  refine ⟨fun g read' env => ?_, fun other same => ⟨fun path down u last => exists_occurs down last,
    fun u before behind operand occurs => ?_⟩⟩
  · obtain ⟨tree', parsed', outcome'⟩ := exists_interpret_of_ofSource read'
    rw [outcome, outcome', interpret_of_parentheses parsed parsed']
  · obtain rfl : tree = other := Except.ok.inj (parsed.symm.trans same)
    refine ⟨exists_place_of_ofSource parsed operand occurs, ?_⟩
    intro front back _ atFront atBack g read' env
    obtain ⟨tree', parsed', outcome'⟩ := exists_interpret_of_ofSource read'
    rw [outcome, outcome']
    exact unnamed_interpret_of_regrouped parsed operand occurs atFront atBack parsed' env

/-- A leaf as an operand of a sum. -/
def sumOperand (leaf : ParseTree) : ParseTree :=
  [Production.multiplicative, .unary, .primary].foldr ParseTree.wrap leaf

/-- The tree of a sum of a number and a variable. -/
def sumTree : ParseTree :=
  [Production.expression, .conditional, .disjunction, .conjunction, .equality, .relational].foldr
    ParseTree.wrap ⟨.additive, "1+x",
      [sumOperand (.leaf .number "1"), .leaf .token "+", sumOperand (.leaf .reference "x")]⟩

open ParseTree in
theorem occurs_sumTree : Occurs (wrap .primary (leaf .reference "x")) sumTree ["1", "+"] [] := by
  have split : items ⟨.additive, "1+x",
      [sumOperand (leaf .number "1"), leaf .token "+", sumOperand (leaf .reference "x")]⟩
      = [sumOperand (leaf .number "1"), leaf .token "+"]
        ++ sumOperand (leaf .reference "x") :: [] :=
    rfl
  have sum := Occurs.item split ((Occurs.here.wrap .unary).wrap .multiplicative)
  exact (((((sum.wrap .relational).wrap .equality).wrap .conjunction).wrap .disjunction).wrap
    .conditional).wrap .expression

/-- For instance, a sum has one node as a source, and several roots in its forest. -/
theorem evaluate_parenthesized_sum : ∃ f g h, ofSource "1+x" = .ok f ∧ ofSource "(1+x)" = .ok g ∧
    ofSource "1+(x)" = .ok h ∧ ∀ env : Environment, g.evaluate env = f.evaluate env ∧
      (h.evaluate env).mapError Fault.anonymous = (f.evaluate env).mapError Fault.anonymous := by
  have parsed : ParseTree.ofSource "1+x" = .ok sumTree := by cbv
  have parses : (ParseTree.ofSource "(1+x)").isOk = true := by cbv
  have parses' : (ParseTree.ofSource "1+(x)").isOk = true := by cbv
  obtain ⟨f, read⟩ := exists_ofSource parsed
  obtain ⟨tree, parsed'⟩ := exists_of_isOk parses
  obtain ⟨g, read'⟩ := exists_ofSource parsed'
  obtain ⟨tree', parsed''⟩ := exists_of_isOk parses'
  obtain ⟨h, read''⟩ := exists_ofSource parsed''
  obtain ⟨whole, part⟩ := evaluate_parenthesized read
  obtain ⟨-, operands⟩ := part sumTree parsed
  obtain ⟨-, operand⟩ := operands _ _ _ rfl occurs_sumTree
  have front : ParseTree.LaidOut ["1", "+"] ['1', '+'] :=
    (ParseTree.laidOut_token "1").append (ParseTree.laidOut_token "+")
  have back : ParseTree.LaidOut [] [] := ParseTree.laidOut_nil (List.forall_mem_nil _)
  exact ⟨f, g, h, read, read', read'', fun env => ⟨whole g read' env,
    operand ['1', '+'] [] rfl front back h read'' env⟩⟩

end Forest
end DecimalExpression
