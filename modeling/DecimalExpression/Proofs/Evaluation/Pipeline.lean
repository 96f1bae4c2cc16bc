import DecimalExpression.Proofs.Evaluation.Translation
import DecimalExpression.Proofs.Syntax.Soundness
import Mathlib

/-!
# From sources to outcomes

A source is parsed, its tree becomes a forest, the forest is collapsed and its nodes are forced into
a table.  All of this comes to what plain recursion over the parse tree comes to
(`evaluate_eq_interpret`), and collapsing alone changes nothing (`run_collapse_of_ofSource`).

The forest of a tree has the term of the tree as its only root, or, where the first node with a
choice is a sum, the operands and operators of that sum (`RootsRegular`).  In the second case a
fault of the sum itself is named by the source of the forest, which is the text of the sum: the
layers above it have its text.
-/

namespace DecimalExpression

open Interpreter

/-! ## 1. Roots

A source has one root, or the parts of a sum as roots, and the two evaluate in different ways.
`RootsRegular` keeps them apart.  Collapsing does to a row of roots what it does to each, so that it
keeps the meaning of a forest follows from its keeping the meaning of a term. -/

namespace Forest

variable {f : Forest} {env : Environment}

/-- **Roots as sources have them**: a regular term alone, or the parts of a chain. -/
inductive RootsRegular (f : Forest) : Prop
  | single {t : Term} (terms : f.terms = [t]) (regular : t.Regular)
  | chain {first : Term} {rest : List (String × Term)} (terms : f.terms = first :: Term.links rest)
    (signs : ∀ link ∈ rest, link.1 ∈ Kind.additive.operators) (atFirst : first.Regular)
    (atRest : ∀ link ∈ rest, link.2.Regular)

theorem meaning_single {t : Term} (terms : f.terms = [t]) : f.meaning env = t.evaluate env := by
  rw [meaning, terms, List.mapM_cons, List.mapM_nil]
  cases t.evaluate env <;> rfl

/-- **Several roots are a chain**, named by the title of the forest.  The roots are the operands of
a chain that has no node of its own, so the title of the forest stands for its text. -/
theorem meaning_chain {first : Term} {rest : List (String × Term)}
    (terms : f.terms = first :: Term.links rest) :
    f.meaning env = (do
      let v ← first.evaluate env
      let values ← Term.evaluateLinks env rest
      named f.title (fold env.policy v values)) := by
  rw [meaning]
  change f.terms.mapM (Term.evaluating env) >>= _ = _
  rw [terms, List.mapM_cons, Term.mapM_links, Term.evaluating]
  cases first.evaluate env with
  | error fault => rfl
  | ok v =>
    cases atRest : Term.evaluateLinks env rest with
    | error fault => rfl
    | ok values =>
      have symbols := Term.symbols_evaluateLinks atRest
      have folded := Term.chainFrom_linkOperands env.policy symbols v
      cases symbols with
      | nil => rfl
      | cons _ _ =>
        show (Rule.chain env.policy (first.evaluated v :: Term.linkOperands _ _)).mapError _ = _
        rw [Rule.chain, Term.value_evaluated, ok_bind, folded]
        rfl

/-- **The collapsed form of a chain** is the chain of the collapsed parts. -/
theorem terms_collapse_links (unmarked : f.collapsed = false) {first : Term}
    {rest : List (String × Term)} (terms : f.terms = first :: Term.links rest) :
    f.collapse.terms = (first.collapse false).bare ::
      Term.links (rest.map fun link => (link.1, (link.2.collapse false).bare)) := by
  have symbols : ∀ slice, ((Term.leaf .symbol slice).collapse false).bare = .leaf .symbol slice :=
    fun slice => by rw [Term.collapse_leaf]; rfl
  rw [terms_collapse unmarked, terms, List.map_cons, Term.map_links symbols]

/-- **Collapsing keeps the meaning** of a forest with a source. -/
theorem RootsRegular.meaning_collapse (roots : f.RootsRegular) (unmarked : f.collapsed = false)
    (source : f.source ≠ "") : f.collapse.meaning env = f.meaning env := by
  have bare : ∀ {t : Term}, t.Regular → (t.collapse false).bare.StandsFor t := fun regular =>
    (regular.collapse false).regular.bare.trans (regular.collapse false)
  cases roots with
  | single terms regular =>
    have collapsed := terms_collapse unmarked
    rw [terms, List.map_cons, List.map_nil] at collapsed
    rw [meaning_single terms, meaning_single collapsed, (bare regular).evaluate_eq]
  | @chain first rest terms signs atFirst atRest =>
    have title : f.collapse.title = f.title := by
      rw [title_of_source source, title_of_source (by rwa [source_collapse]), source_collapse]
    rw [meaning_chain terms, meaning_chain (terms_collapse_links unmarked terms), title,
      (bare atFirst).evaluate_eq]
    rw [Term.evaluateLinks_map (fun t => (t.collapse false).bare)
      fun link member => bare (atRest link member)]

/-! ## 2. Sources

What the stages have to say about each other is collected in `Represents`: the forest of a source
has the terms of its tree, is named by it and means what it is interpreted as.  Both of the main
results take one step from there. -/

/-- **What the forest of a source is**: unmarked, named by the tree, and with its meaning. -/
structure Represents (f : Forest) (tree : ParseTree) : Prop where
  unmarked : f.collapsed = false
  source_eq : f.source = tree.text
  roots : f.RootsRegular
  meaning_eq : ∀ env : Environment, f.meaning env = tree.interpret env

/-- **The tree of a source becomes a forest with its meaning.**  There are two cases at the first
node with a choice.  A sum becomes a chain of roots, and anything else becomes one root, which has
the meaning of the tree. -/
theorem exists_represents {tree : ParseTree} {p : Production} (derives : ParseTree.Derives p tree)
    (labelled : tree.Labelled) (nonempty : tree.text ≠ "") :
    ∃ f, ofTree tree = .ok f ∧ f.Represents tree := by
  obtain ⟨⟨q, atEntry⟩, sameOutcome⟩ := derives.entry
  by_cases additive : tree.entry.production = .additive
  · obtain rfl := atEntry.production_eq.symm.trans additive
    obtain ⟨slice, first, links, entry, signs, atFirst, atLinks⟩ := atEntry.exists_of_additive
    obtain ⟨t, first_t⟩ := atFirst.becomes
    obtain ⟨rest, read, restSigns, regular, same⟩ :=
      ParseTree.exists_links signs fun link member => (atLinks link member).becomes
    have terms : termsOfTree tree = .ok (t :: Term.links rest) := by
      rw [termsOfTree, entry]
      dsimp only
      rw [if_pos rfl, ParseTree.expectCount_flat .additive, List.mapM_cons, read,
        first_t.ofTree_eq]
      rfl
    have forest : ofTree tree = .ok ((ofTerms (t :: Term.links rest)).setSource tree.text) := by
      rw [ofTree, terms]
      rfl
    refine ⟨_, forest, collapsed_ofTree forest, rfl, .chain ?_ restSigns first_t.regular regular,
      fun env => ?_⟩
    · rw [terms_setSource, terms_ofTerms]
    · rw [meaning_chain (by rw [terms_setSource, terms_ofTerms]), title_of_source nonempty,
        first_t.evaluate_eq, same, ← sameOutcome, entry, ParseTree.interpret_flat .additive]
      have sameText : slice = tree.text := by rw [← labelled.text_entry, entry]
      rw [sameText]
      rfl
  · obtain ⟨t, tree_t⟩ := derives.becomes
    have terms : termsOfTree tree = .ok [t] := by
      rw [termsOfTree, if_neg additive, tree_t.ofTree_eq]
      rfl
    have forest : ofTree tree = .ok ((ofTerms [t]).setSource tree.text) := by
      rw [ofTree, terms]
      rfl
    refine ⟨_, forest, collapsed_ofTree forest, rfl, .single ?_ tree_t.regular, fun env => ?_⟩
    · rw [terms_setSource, terms_ofTerms]
    · rw [meaning_single (by rw [terms_setSource, terms_ofTerms]), tree_t.evaluate_eq]

/-- **The forest of a source** represents the tree that was read. -/
theorem represents_of_ofSource {source : String} {f : Forest} (read : ofSource source = .ok f) :
    ∃ tree, ParseTree.ofSource source = .ok tree ∧ ofTree tree = .ok f ∧ f.Represents tree := by
  obtain ⟨tree, parsed, planted⟩ := bind_eq_ok read
  obtain ⟨derives, labelled, nonempty⟩ := ParseTree.ofSource_sound parsed
  obtain ⟨g, forest, represents⟩ := exists_represents derives labelled nonempty
  rw [forest] at planted
  cases planted
  exact ⟨tree, parsed, forest, represents⟩

/-- **Evaluating the forest of a source** gives what its tree is interpreted as. -/
theorem Represents.evaluate_eq {f : Forest} {tree : ParseTree} (represents : f.Represents tree)
    (nonempty : tree.text ≠ "") (env : Environment) : f.evaluate env = tree.interpret env := by
  have source : f.source ≠ "" := by rwa [represents.source_eq]
  rw [evaluate, run_eq_meaning, represents.roots.meaning_collapse represents.unmarked source,
    represents.meaning_eq]

/-- **A source that is read** has a forest, with the outcome of its tree. -/
theorem exists_evaluate_of_ofSource {source : String} {tree : ParseTree}
    (read : ParseTree.ofSource source = .ok tree) :
    ∃ f, ofTree tree = .ok f ∧ ∀ env : Environment, f.evaluate env = tree.interpret env := by
  obtain ⟨derives, labelled, nonempty⟩ := ParseTree.ofSource_sound read
  obtain ⟨f, forest, represents⟩ := exists_represents derives labelled nonempty
  exact ⟨f, forest, represents.evaluate_eq nonempty⟩

/-- The collapsed terms of a source, found without a forest. -/
theorem exists_of_collapsedTerms {source : String} {ts : List Term}
    (found : (do
      let tree ← (ParseTree.ofSource source).toOption
      let terms ← (termsOfTree tree).toOption
      return terms.map fun t => (t.collapse false).bare) = some ts) :
    ∃ f, ofSource source = .ok f ∧ f.collapse.terms = ts := by
  cases parsed : ParseTree.ofSource source with
  | error fault => rw [parsed] at found; cases found
  | ok tree =>
    cases read : termsOfTree tree with
    | error fault => rw [parsed] at found; simp [read, Except.toOption] at found
    | ok terms =>
      have forest : ofTree tree = .ok ((ofTerms terms).setSource tree.text) := by
        rw [ofTree, read]
        rfl
      refine ⟨_, by rw [ofSource, parsed, ok_bind, forest, ok_mapError], ?_⟩
      rw [terms_collapse (collapsed_ofTree forest), terms_setSource, terms_ofTerms]
      simpa [parsed, read, Except.toOption] using found

/-- **Collapsing changes nothing**: the forest of a source has the same outcome as it stands and in
its collapsed form, value and fault alike. -/
theorem run_collapse_of_ofSource {source : String} {f : Forest} (read : ofSource source = .ok f)
    (env : Environment) : f.run env = f.collapse.run env := by
  obtain ⟨tree, parsed, planted⟩ := bind_eq_ok read
  obtain ⟨derives, labelled, nonempty⟩ := ParseTree.ofSource_sound parsed
  obtain ⟨f, forest, represents⟩ := exists_represents derives labelled nonempty
  rw [forest] at planted
  cases planted
  have source : f.source ≠ "" := by rwa [represents.source_eq]
  rw [run_eq_meaning, run_eq_meaning, represents.roots.meaning_collapse represents.unmarked source]

theorem run_collapse_of_ofSource_choice : ∃ f, ofSource "x < 1 ? (2) : min(x, 3)" = .ok f ∧
    ∀ env : Environment, f.run env = f.collapse.run env := by
  have parses : (ParseTree.ofSource "x < 1 ? (2) : min(x, 3)").isOk = true := by cbv
  obtain ⟨tree, parsed⟩ := exists_of_isOk parses
  obtain ⟨derives, labelled, nonempty⟩ := ParseTree.ofSource_sound parsed
  obtain ⟨f, forest, -⟩ := exists_represents derives labelled nonempty
  have read : ofSource "x < 1 ? (2) : min(x, 3)" = .ok f := by
    rw [ofSource, parsed, ok_bind, forest, ok_mapError]
  exact ⟨f, read, run_collapse_of_ofSource read⟩

end Forest
end DecimalExpression
