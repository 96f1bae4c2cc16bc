import DecimalExpression.Proofs.Evaluation.BoundedRuns
import DecimalExpression.Proofs.Evaluation.NumberLiterals
import DecimalExpression.Proofs.Evaluation.TypedArithmetic
import DecimalExpression.Proofs.Expression.Leaves
import Mathlib

/-!
# Well typed sources compute, or overflow

Without bounds a well typed source computes: it gives a value of its type, or it fails in arithmetic
(`Forest.evaluate_computes`).  With scales and digit counts of 64 bits there is a third outcome, and
types do not exclude it.  The quotient `1 / 10` is well typed, and to `2 ^ 63 - 1` digits it needs a
scale that is no such integer.

Types do say what overflows.  A well typed run overflows exactly where a step of its arithmetic does
(`Bounded.evaluate_wellTyped`), and otherwise it has its outcome without bounds.  What
`Bounded.run_overflowsBy` needs for that is that the operands of each step fit, and this is what the
types are for: decimals that come up are within the limit or bound to a name, and their digits are
within the weight of the term.

The argument goes from the forest down to its parts.  That a node is typed, that it is shaped, that
its literals have decimals and that it weighs no more than the forest, all this passes from a term
to its children (`Term.Part.child`), and so it holds wherever evaluation comes to.
-/

namespace DecimalExpression

/-! ## 1. Literals of sources

A literal that was refused leaves no term, so in the forest of a source every literal has a decimal
within the limit.  Collapsing keeps leaves, and so it keeps this. -/

namespace ParseTree

/-- What holds of all nodes holds of the leaves. -/
theorem Throughout.leaves {P : ParseTree → Prop} {tree : ParseTree}
    (throughout : tree.Throughout P) :
    ∀ entry ∈ tree.leaves, P (leaf entry.1 entry.2) := by
  induction throughout with
  | node tree here _ ih =>
    obtain ⟨production, text, children⟩ := tree
    intro entry member
    cases children with
    | nil =>
      rw [← leaf, leaves_leaf] at member
      exact List.mem_singleton.mp member ▸ here
    | cons first more =>
      rw [leaves_node production text (List.cons_ne_nil _ _)] at member
      obtain ⟨child, among, member⟩ := List.mem_flatMap.mp member
      exact ih child among entry member

end ParseTree

/-- **The number literals of a term have decimals** within the limit. -/
def Term.LiteralsRead (t : Term) : Prop :=
  ∀ entry ∈ t.leaves, entry.1 = .number → ∃ d, Decimal.ofNumeral entry.2 = .ok d

theorem Term.LiteralsRead.child {t child : Term} (read : t.LiteralsRead)
    (member : child ∈ t.children) : child.LiteralsRead := by
  obtain ⟨kind, text, children⟩ := t
  intro entry among
  refine read entry ?_
  rw [leaves_node kind text (List.ne_nil_of_mem member)]
  exact List.mem_flatMap.mpr ⟨child, member, among⟩

/-- **The literals of a source** have decimals, in its collapsed form as well. -/
theorem Forest.literalsRead_of_ofSource {source : String} {f : Forest}
    (read : ofSource source = .ok f) : ∀ t ∈ f.collapse.terms, t.LiteralsRead := by
  intro t member entry among number
  obtain ⟨tree, parsed, planted, -⟩ := represents_of_ofSource read
  obtain ⟨derives, -⟩ := ParseTree.ofSource_sound parsed
  -- Neither collapsing nor translating makes up a leaf.
  have kept : entry ∈ tree.keptLeaves := by
    rw [← leaves_ofTree derives planted, List.flatMap_def, ← leaves_collapse, ← List.flatMap_def]
    exact List.mem_flatMap.mpr ⟨t, member, among⟩
  obtain ⟨⟨production, text⟩, old, rfl⟩ := List.mem_map.mp kept
  have numeral : production = .number := by
    cases production <;> first | rfl | cases number
  exact (ParseTree.ofSource_readable parsed).leaves _ (List.mem_of_mem_filter old) numeral

/-! ## 2. Parts of well typed terms

Types go down from a term to its children, and with them its weight bounds theirs.  `Part` keeps
together what is needed of a term somewhere in the forest: typed, shaped, not too heavy, and with
literals that were read. -/

namespace Term

variable {bindings : Named Value} {policy : Policy} {n : Nat} {t : Term}

/-- A term of some type, or an operator or a name, which has none. -/
def IsTyped (bindings : Named Value) (t : Term) : Prop :=
  (∃ text, t = leaf .symbol text) ∨ ∃ τ, t.HasType bindings τ

theorem isTyped_symbol (bindings : Named Value) (text : String) :
    (leaf .symbol text).IsTyped bindings :=
  .inl ⟨text, rfl⟩

theorem HasType.isTyped {τ : ValueType} (typed : t.HasType bindings τ) : t.IsTyped bindings :=
  .inr ⟨τ, typed⟩

theorem isTyped_of_mem_links {first : Term} {rest : List (String × Term)} {τ : ValueType}
    (atFirst : first.HasType bindings τ) (atRest : ∀ link ∈ rest, link.2.HasType bindings τ) :
    ∀ t ∈ first :: links rest, t.IsTyped bindings := by
  refine List.forall_mem_cons.mpr ⟨atFirst.isTyped, ?_⟩
  induction rest with
  | nil => exact List.forall_mem_nil _
  | cons link rest ih =>
    obtain ⟨here, later⟩ := List.forall_mem_cons.mp atRest
    have operand := List.forall_mem_cons.mpr ⟨here.isTyped, ih later⟩
    exact List.forall_mem_cons.mpr ⟨isTyped_symbol bindings link.1, operand⟩

theorem isTyped_of_mem_binary {left right : Term} {σ τ : ValueType} (operator : String)
    (atLeft : left.HasType bindings σ) (atRight : right.HasType bindings τ) :
    ∀ t ∈ [left, leaf .symbol operator, right], t.IsTyped bindings := by
  simp [atLeft.isTyped, atRight.isTyped, isTyped_symbol]

/-- **Types go down**: the children of a typed term are typed. -/
theorem HasType.children {τ : ValueType} (typed : t.HasType bindings τ) :
    ∀ child ∈ t.children, child.IsTyped bindings := by
  cases typed with
  | number | text | reference => exact List.forall_mem_nil _
  | group _ below => exact List.forall_mem_singleton.mpr below.isTyped
  | chain _ _ _ atFirst atRest => exact isTyped_of_mem_links atFirst atRest
  | signed _ sign below => simp [below.isTyped, isTyped_symbol]
  | relation _ operator atLeft atRight => exact isTyped_of_mem_binary operator atLeft atRight
  | equality _ operator atLeft atRight => exact isTyped_of_mem_binary operator atLeft atRight
  | connective _ _ operator atLeft atRight => exact isTyped_of_mem_binary operator atLeft atRight
  | choice _ atCondition atConsequent atAlternative =>
    simp [atCondition.isTyped, atConsequent.isTyped, atAlternative.isTyped]
  | extremum _ _ _ each | containsAny _ _ _ each =>
    have arguments := fun a member => (each a member).isTyped
    exact List.forall_mem_cons.mpr ⟨isTyped_symbol bindings _, arguments⟩

/-- **A part of a well typed term** that weighs `n` at most. -/
structure Part (bindings : Named Value) (n : Nat) (t : Term) : Prop where
  typed : t.IsTyped bindings
  shaped : t.Shaped
  literals : t.LiteralsRead
  light : t.weight bindings ≤ n

/-- **The children of a part are parts.** -/
theorem Part.child {child : Term} (part : Part bindings n t) (member : child ∈ t.children) :
    Part bindings n child := by
  refine ⟨?_, part.shaped.child member, part.literals.child member,
    (weight_child_le member).trans part.light⟩
  rcases part.typed with ⟨text, rfl⟩ | ⟨τ, typed⟩
  · cases member
  · exact typed.children child member

/-- **The arithmetic of a part** is on decimals that come up. -/
theorem Part.within (part : Part bindings n t) :
    ∀ step ∈ t.arithmetic ⟨bindings, policy, .builtin⟩, step.Within bindings n := by
  intro step member
  rcases part.typed with ⟨text, rfl⟩ | ⟨τ, typed⟩
  · obtain ⟨operands, -, member⟩ := mem_stepsBehind.mp member
    cases member
  · have literal : t.kind = .number → ∃ d, Decimal.ofNumeral t.text = .ok d := by
      intro number
      cases typed with
      | number slice => exact part.literals (.number, slice) (by simp [leaf, leaves_leaf]) rfl
      | chain flat => cases number; cases flat
      | connective connects => rcases connects with rfl | rfl <;> cases number
      | _ => cases number
    exact (typed.within part.shaped literal step member).mono part.light

end Term

/-! ## 3. Well typed forests

A step of a run is done at a node that evaluation comes to, and such a node is reachable, so its
term is a part of the forest.  The roots have steps of their own only where they are a chain. -/

namespace Forest

variable {f : Forest} {bindings : Named Value} {policy : Policy} {τ : ValueType}

/-- The roots of a well typed forest are typed. -/
theorem HasType.isTyped (typed : f.HasType bindings τ) : ∀ t ∈ f.terms, t.IsTyped bindings := by
  cases typed with
  | single terms typed =>
    rw [terms]
    exact List.forall_mem_singleton.mpr typed.isTyped
  | sum terms atFirst atRest =>
    rw [terms]
    exact Term.isTyped_of_mem_links atFirst atRest

/-- The roots are parts of the forest. -/
theorem HasType.part (typed : f.HasType bindings τ) (shaped : f.IsShaped)
    (literals : ∀ t ∈ f.terms, t.LiteralsRead) :
    ∀ t ∈ f.terms, Term.Part bindings (f.weight bindings) t :=
  fun t member => ⟨typed.isTyped t member, (isShaped_iff.mp shaped).1 t member, literals t member,
    le_sum_of_mem member⟩

/-- **The arithmetic of the roots** is on decimals that come up: a root alone does none, and several
are a chain. -/
theorem HasType.within_roots (typed : f.HasType bindings τ) (shaped : f.IsShaped) :
    ∀ step ∈ f.rootArithmetic ⟨bindings, policy, .builtin⟩,
      step.Within bindings (f.weight bindings) := by
  intro step member
  obtain ⟨operands, read, member⟩ := mem_stepsBehind.mp member
  have evaluated := forall₂_of_mapM read
  cases typed with
  | single terms typed =>
    rw [terms] at evaluated
    obtain _ | ⟨-, behind⟩ := evaluated
    cases behind
    rw [Bounded.chainArithmetic_single] at member
    cases member
  | @sum first rest terms atFirst atRest =>
    have each := (isShaped_iff.mp shaped).1
    rw [terms] at evaluated each
    rw [weight, terms]
    refine (Term.chain_within policy ?_ (fun link among => ?_) evaluated).1 step member
    · exact atFirst.arises (each first List.mem_cons_self)
    · exact (atRest link among).arises
        (each link.2 (List.mem_cons_of_mem first (Term.operand_mem_links among)))

/-- **The arithmetic of a well typed run** is on decimals that come up, with digits within the
weight of the forest. -/
theorem HasType.within (typed : f.HasType bindings τ) (shaped : f.IsShaped)
    (literals : ∀ t ∈ f.terms, t.LiteralsRead) :
    ∀ step ∈ f.arithmetic ⟨bindings, policy, .builtin⟩,
      step.Within bindings (f.weight bindings) := by
  intro step member
  rcases exists_of_mem_arithmetic member with ⟨i, h, taken, own⟩ | atRoots
  · have part := holds_of_reachable (typed.part shaped literals) Term.Part.child taken.reachable h
    exact part.within step own
  · exact typed.within_roots shaped step atRoots

end Forest

/-! ## 4. Sources

The statement has three clauses: when a source overflows, what it comes to when it does not, and
when it certainly does not.  The first is the account of the whole run, the second is the typing
without bounds, and the third adds up the weights. -/

namespace Bounded

variable {source : String} {f : Forest} {bindings : Named Value} {policy : Policy} {τ : ValueType}

/-- The steps of a well typed source are on decimals that come up in it. -/
theorem within_of_typed (read : forestOfSource source = .ok f)
    (typed : f.collapse.HasType bindings τ) :
    ∀ step ∈ f.collapse.arithmetic ⟨bindings, policy, .builtin⟩,
      step.Within bindings (f.collapse.weight bindings) := by
  have accepted := forestOfSource_eq_ok_iff.mp read
  obtain ⟨tree, -, -, represents⟩ := Forest.represents_of_ofSource accepted
  exact typed.within (represents.roots.isShaped_collapse represents.unmarked)
    (Forest.literalsRead_of_ofSource accepted)

/-- **A well typed source overflows by a step of its arithmetic**, and otherwise it has its outcome
without bounds: what it weighs leaves room for every step. -/
theorem evaluate_overflowsWhere (read : forestOfSource source = .ok f)
    (typed : f.collapse.HasType bindings τ)
    (scales : ∀ name d, bindings.get? name = some (.decimal d) → Decimal.scaleFits d.scale = true)
    (light : f.collapse.weight bindings < 2 ^ 60) (policy : Policy) :
    OverflowsWhere
      (∃ step ∈ f.collapse.arithmetic ⟨bindings, policy, .builtin⟩, step.Overflows policy)
      (f.evaluate ⟨bindings, policy, .builtin⟩) (evaluate f ⟨bindings, policy, builtin⟩) :=
  run_overflowsBy f.collapse bindings policy fun step member =>
    (within_of_typed read typed step member).fits (by omega) scales

/-- **A well typed source computes, or overflows.**  Where the collapsed form of a source has a type
under some bindings, evaluating the source with the built-in methods overflows, under every policy,
exactly if a step of its arithmetic does.  Otherwise it has its outcome without bounds, which is a
value of that type or a failure in arithmetic.  It does not overflow where no bound decimal is at
the least scale and the digits that are asked for are fewer than `2 ^ 61`.  Scales are integers of
64 bits, and what is in memory weighs less than `2 ^ 60`. -/
theorem evaluate_wellTyped (read : forestOfSource source = .ok f)
    (typed : f.collapse.HasType bindings τ)
    (scales : ∀ name d, bindings.get? name = some (.decimal d) → Decimal.scaleFits d.scale = true)
    (light : f.collapse.weight bindings < 2 ^ 60) (policy : Policy) :
    (evaluate f ⟨bindings, policy, builtin⟩ = .error .overflow ↔
      ∃ step ∈ f.collapse.arithmetic ⟨bindings, policy, .builtin⟩, step.Overflows policy) ∧
    (evaluate f ⟨bindings, policy, builtin⟩ ≠ .error .overflow →
      evaluate f ⟨bindings, policy, builtin⟩ = lift (f.evaluate ⟨bindings, policy, .builtin⟩) ∧
        ((∃ v, evaluate f ⟨bindings, policy, builtin⟩ = .ok v ∧ v.type? = some τ) ∨
          ∃ cause slice, evaluate f ⟨bindings, policy, builtin⟩ = fail (.arithmetic cause slice))) ∧
    ((∀ name d, bindings.get? name = some (.decimal d) → d.scale ≠ leastWord) →
      (∀ p, policy.precision = some p → p.digits.toNat < 2 ^ 61) →
      evaluate f ⟨bindings, policy, builtin⟩ ≠ .error .overflow) := by
  have run := evaluate_overflowsWhere read typed scales light policy
  refine ⟨run.overflow_iff, fun finite => ?_, fun more moderate overflows => ?_⟩
  · have same := run.eq_lift (mt run.overflow_iff.mpr finite)
    refine ⟨same, ?_⟩
    rw [same]
    rcases Forest.evaluate_computes (forestOfSource_eq_ok_iff.mp read) typed policy with
      ⟨v, value, good⟩ | ⟨cause, slice, failed⟩
    · exact .inl ⟨v, by rw [value, lift_ok], good⟩
    · exact .inr ⟨cause, slice, by rw [failed]; rfl⟩
  · obtain ⟨step, member, overflow⟩ := run.overflow_iff.mp overflows
    exact (within_of_typed read typed step member).not_overflows light scales more moderate
      overflow

/-- For instance, a choice between the least of two numbers and a quotient. -/
theorem evaluate_wellTyped_choice : ∃ f,
    forestOfSource "x < 2 && stringContainsAny(s, 1) ? min(-x, 1) : x / 3" = .ok f ∧
      f.collapse.HasType ⟨[("x", .ofInt 1), ("s", .text "a1")]⟩ .decimal ∧
      evaluate f ⟨⟨[("x", .ofInt 1), ("s", .text "a1")]⟩, .standard, builtin⟩ ≠ .error .overflow ∧
      evaluate f ⟨⟨[("x", .ofInt 1), ("s", .text "a1")]⟩, .standard, builtin⟩
        = lift (f.evaluate ⟨⟨[("x", .ofInt 1), ("s", .text "a1")]⟩, .standard, .builtin⟩) := by
  obtain ⟨f, read, terms⟩ : ∃ f, Forest.ofSource
      "x < 2 && stringContainsAny(s, 1) ? min(-x, 1) : x / 3" = .ok f ∧ f.collapse.terms = [
        ⟨.conditional, "x < 2 && stringContainsAny(s, 1) ? min(-x, 1) : x / 3", [
          ⟨.conjunction, "x < 2 && stringContainsAny(s, 1)", [
            ⟨.relational, "x < 2", [.leaf .reference "x", .leaf .symbol "<", .leaf .number "2"]⟩,
            .leaf .symbol "&&",
            ⟨.call, "stringContainsAny(s, 1)",
              [.leaf .symbol "stringContainsAny", .leaf .reference "s", .leaf .number "1"]⟩]⟩,
          ⟨.call, "min(-x, 1)", [.leaf .symbol "min",
            ⟨.signed, "-x", [.leaf .symbol "-", .leaf .reference "x"]⟩, .leaf .number "1"]⟩,
          ⟨.multiplicative, "x / 3",
            [.leaf .reference "x", .leaf .symbol "/", .leaf .number "3"]⟩]⟩] :=
    Forest.exists_of_collapsedTerms (by cbv)
  have x : (Term.leaf .reference "x").HasType ⟨[("x", .ofInt 1), ("s", .text "a1")]⟩ .decimal :=
    .reference (.ofInt 1) rfl rfl
  have s : (Term.leaf .reference "s").HasType ⟨[("x", .ofInt 1), ("s", .text "a1")]⟩ .text :=
    .reference (.text "a1") rfl rfl
  have typed : f.collapse.HasType ⟨[("x", .ofInt 1), ("s", .text "a1")]⟩ .decimal := by
    refine .single terms (.choice _ (.connective (.inr rfl) _ _ ?_ ?_) ?_ ?_)
    · exact .relation _ _ x (.number "2")
    · refine .containsAny _ (by simp) (fun t => if t.kind = .number then .decimal else .text) ?_
      simpa [Term.leaf] using And.intro s (.number "1")
    · refine .extremum _ (.inl rfl) (by simp) ?_
      simpa [Term.leaf] using And.intro (.signed _ _ x) (.number "1")
    · exact .chain rfl _ [("/", .leaf .number "3")] x (by simpa using .number "3")
  have one : ∀ name d, (⟨[("x", .ofInt 1), ("s", .text "a1")]⟩ : Named Value).get? name
      = some (.decimal d) →
      d = ⟨1, 0⟩ := by
    intro name d bound
    have member := Named.mem_of_get? bound
    simp [Value.ofInt, Decimal.ofInt] at member
    exact member.2
  have light : f.collapse.weight ⟨[("x", .ofInt 1), ("s", .text "a1")]⟩ < 2 ^ 60 := by
    rw [Forest.weight, terms]
    simp only [Term.weight_eq, Term.leaf, List.map_cons, List.map_nil]
    decide
  obtain ⟨-, computes, never⟩ := evaluate_wellTyped (forestOfSource_eq_ok_iff.mpr read) typed
    (fun name d bound => one name d bound ▸ rfl) light .standard
  have finite := never (fun name d bound => one name d bound ▸ by decide) (by rintro p ⟨⟩)
  exact ⟨f, forestOfSource_eq_ok_iff.mpr read, typed, finite, (computes finite).1⟩

/-- **A well typed source need not compute.**  One by ten to the most digits that there can be needs
a scale of `2 ^ 63`. -/
theorem evaluate_wellTyped_overflows :
    ¬ ∀ (source : String) (f : Forest) (bindings : Named Value) (τ : ValueType) (policy : Policy),
      forestOfSource source = .ok f → f.collapse.HasType bindings τ →
        (∃ v, evaluate f ⟨bindings, policy, builtin⟩ = .ok v ∧ v.type? = some τ) ∨
          ∃ cause slice, evaluate f ⟨bindings, policy, builtin⟩
            = fail (.arithmetic cause slice) := by
  intro computes
  obtain ⟨f, read, terms⟩ : ∃ f, Forest.ofSource "1 / 1e1" = .ok f ∧ f.collapse.terms =
      [⟨.multiplicative, "1 / 1e1", [.leaf .number "1", .leaf .symbol "/", .leaf .number "1e1"]⟩] :=
    Forest.exists_of_collapsedTerms (by cbv)
  have accepted := forestOfSource_eq_ok_iff.mpr read
  have quotient : f.collapse.HasType ⟨[]⟩ .decimal :=
    .single terms (.chain rfl _ [("/", .leaf .number "1e1")] (.number "1")
      (by simpa using .number "1e1"))
  have light : f.collapse.weight ⟨[]⟩ < 2 ^ 60 := by
    rw [Forest.weight, terms]
    simp only [Term.weight_eq, Term.leaf, List.map_cons, List.map_nil]
    decide
  let policy : Policy := ⟨10, .halfUp, some ⟨9223372036854775807, .halfUp⟩⟩
  have division : ArithmeticStep.operation .divide (.decimal ⟨1, 0⟩) (.decimal ⟨1, -1⟩)
      ∈ f.collapse.arithmetic ⟨⟨[]⟩, policy, .builtin⟩ :=
    arithmetic_subset_of_first terms (List.mem_of_mem_head? (by cbv))
  have guess : DivisionOverflows ⟨1, 0⟩ ⟨1, -1⟩ ⟨9223372036854775807, .halfUp⟩ :=
    .guess (by decide) (by norm_num [Decimal.toRat_eq]) (by decide)
  have run := evaluate_overflowsWhere accepted quotient (by rintro name d ⟨⟩) light policy
  have overflow := run.overflow ⟨_, division, .operation rfl rfl ⟨_, rfl, rfl, guess⟩⟩
  rcases computes _ f ⟨[]⟩ .decimal policy accepted quotient with
    ⟨v, value, -⟩ | ⟨cause, slice, failed⟩
  · cases overflow.symm.trans value
  · cases overflow.symm.trans failed

end Bounded
end DecimalExpression
