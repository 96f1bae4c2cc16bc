import DecimalExpression.Proofs.Evaluation.Operands
import DecimalExpression.Proofs.Expression.Unfolding

/-!
# The table changes nothing

A forest is evaluated with a table of values, which is filled on demand and read by the rules.  What
comes out is what plain recursion over the terms comes to (`run_eq_meaning`).

The invariant is that a slot is empty or holds the value of the term that its node unfolds to
(`Agrees`).  Forcing a node keeps it, keeps what is in the table, and fills the slot of the node; or
it fails with the fault of the term (`force_spec`).  The rule of a node may find more values in the
table than it demanded, left there by other parents of a shared child, and does not mind
(`rule_eq_of_met`).

Of any two tables, one of which keeps what is in the other, the rules give the same outcomes,
demanded or not, unless they ask for a value that is missing (`calculate?_of_keptBy`).
-/

namespace DecimalExpression

/-! ## 1. The table

Slots are filled and never changed, so tables are ordered by what they keep.  The invariant says
that whatever is in a slot is the value of the term that the node unfolds to; since terms do not
know about sharing, a slot that is met a second time has the right value already. -/

namespace Values

variable {before after : Values}

/-- What is in the table stays there. -/
def KeptBy (before after : Values) : Prop :=
  ∀ (i : Nat) (v : Value), before.get? i = some v → after.get? i = some v

theorem KeptBy.refl (values : Values) : values.KeptBy values := fun _ _ known => known

theorem KeptBy.trans {later : Values} (first : before.KeptBy after) (second : after.KeptBy later) :
    before.KeptBy later := fun i v known => second i v (first i v known)

/-- An empty slot may be filled. -/
theorem keptBy_fill {i : Nat} (unknown : before.get? i = none) (v : Value) :
    before.KeptBy (before.fill i v) := by
  intro j w known
  have other : i ≠ j := by
    rintro rfl
    cases unknown.symm.trans known
  rw [get?, fill, Array.getD_eq_getD_getElem?, Array.getElem?_setIfInBounds_ne other,
    ← Array.getD_eq_getD_getElem?]
  exact known

theorem get?_start (n i : Nat) : (start n).get? i = none := by
  simp only [start, get?, Array.getD_eq_getD_getElem?, Array.getElem?_replicate]
  split <;> rfl

theorem get?_fill (values : Values) {i : Nat} (h : i < values.size) (v : Value) (j : Nat) :
    (values.fill i v).get? j = if i = j then some v else values.get? j := by
  simp only [fill, get?, Array.getD_eq_getD_getElem?, Array.getElem?_setIfInBounds]
  split <;> simp_all

/-- Only slots of the table are filled. -/
theorem lt_size_of_get? {values : Values} {i : Nat} {v : Value} (known : values.get? i = some v) :
    i < values.size := by
  by_contra outside
  rw [get?, Array.getD, dif_neg outside] at known
  cases known

@[simp] theorem size_fill (values : Values) (i : Nat) (v : Value) :
    (values.fill i v).size = values.size := by
  simp [fill]

end Values

namespace Forest

variable {f : Forest} {env : Environment} {before after : Values}

/-- **The invariant of the table**: a slot is empty, or holds the value of the term that its node
unfolds to. -/
structure Agrees (f : Forest) (env : Environment) (values : Values) : Prop where
  size_eq : values.size = f.size
  holds : ∀ (i : Nat) (h : i < f.size) (v : Value), values.get? i = some v →
    (f.unfold i h).evaluate env = .ok v

theorem agrees_start (f : Forest) (env : Environment) : Agrees f env (.start f.size) where
  size_eq := by simp [Values.start]
  holds := fun i h v known => by
    rw [Values.get?_start] at known
    cases known

/-- Entering the value of a node keeps the invariant and what is in the table.  An entry of another
node is the one that was there, and the new one is the value of its term. -/
theorem Agrees.fill (agrees : Agrees f env before) {i : Nat} (h : i < f.size) {v : Value}
    (value : (f.unfold i h).evaluate env = .ok v) :
    Agrees f env (before.fill i v) ∧ before.KeptBy (before.fill i v) ∧
      (before.fill i v).get? i = some v := by
  have inside : i < before.size := by rw [agrees.size_eq]; exact h
  refine ⟨⟨by rw [Values.size_fill, agrees.size_eq], fun j hj w known => ?_⟩,
    fun j w known => ?_, ?_⟩
  · rw [Values.get?_fill _ inside] at known
    split at known
    · rename_i here
      cases known
      subst here
      exact value
    · exact agrees.holds j hj w known
  · rw [Values.get?_fill _ inside]
    split
    · rename_i here
      subst here
      rw [agrees.holds _ h w known] at value
      cases value
      rfl
    · exact known
  · rw [Values.get?_fill _ inside, if_pos rfl]

/-! ## 2. Operands in the table

A rule is applied to what the table knows, and evaluation applies it to what was evaluated.  These
lists need not be equal: a node that is skipped here may have been forced elsewhere, and then the
table knows more.  They are related by `Covers`, and rules do not mind (`rule_of_covers`). -/

/-- A node in the table knows what its evaluated term knows. -/
theorem covers_evaluated {i : Nat} (h : i < f.size) {v : Value} (known : after.get? i = some v) :
    (f.operand after i h).Covers ((f.unfold i h).evaluated v) where
  kind_eq := (kind_unfold h).symm
  text_eq := (text_unfold h).symm
  value := fun w value => by
    cases value
    exact known

/-- A node in the table knows what its skipped term knows. -/
theorem covers_skipped {i : Nat} (h : i < f.size) :
    (f.operand after i h).Covers (f.unfold i h).skipped where
  kind_eq := (kind_unfold h).symm
  text_eq := (text_unfold h).symm
  value := fun w value => by cases value

/-- A node knows at least as much in a table that keeps another one. -/
theorem covers_operand (kept : before.KeptBy after) {i : Nat} (h : i < f.size) :
    (f.operand after i h).Covers (f.operand before i h) where
  kind_eq := rfl
  text_eq := rfl
  value := kept i

theorem covers_operands (kept : before.KeptBy after) {i : Nat} (h : i < f.size) :
    List.Forall₂ Operand.Covers (f.operands after i h) (f.operands before i h) := by
  rw [operands, operands, List.forall₂_map_left_iff, List.forall₂_map_right_iff]
  exact List.forall₂_same.mpr fun c _ => covers_operand kept (f.child_lt c h)

/-! ## 3. Forcing

Forcing is recursive on the index, and every child has a smaller one, so the induction is on
indexes.  What is shown of one node is what forcing its children comes to, for the four kinds of
demand; a row of nodes is forced in turn, and the invariant goes along. -/

/-- **What forcing a node does**: the invariant stays, what is in the table stays, and the slot of
the node is filled; or the node's term fails with this very fault. -/
def ForcedTo (f : Forest) (env : Environment) (before : Values) (i : Nat) (h : i < f.size) :
    Except Fault Values → Prop
  | .ok after => Agrees f env after ∧ before.KeptBy after ∧ ∃ v, after.get? i = some v
  | .error fault => (f.unfold i h).evaluate env = .error fault

/-- What demanding operands does: the invariant stays, what is in the table stays, and the nodes in
the table cover the operands that their terms come to; or these fail with this very fault. -/
def DemandedTo (f : Forest) (env : Environment) (before : Values) (nodes : Values → List Operand)
    (operands : Except Fault (List Operand)) : Except Fault Values → Prop
  | .ok after => Agrees f env after ∧ before.KeptBy after ∧
      ∃ found, operands = .ok found ∧ List.Forall₂ Operand.Covers (nodes after) found
  | .error fault => operands = .error fault

/-- **Forcing nodes in turn** comes to evaluating their terms in turn.  By induction on the nodes,
with the table as it is behind each of them; a node that was forced earlier keeps its value through
the others. -/
theorem forceAll_spec {n : Nat} (inside : ∀ c : Fin n, c.val < f.size)
    (each : ∀ (values : Values) (c : Fin n), Agrees f env values →
      ForcedTo f env values c.val (inside c) (f.force env values c.val (inside c)))
    (nodes : List (Fin n)) : ∀ before : Values, Agrees f env before →
      DemandedTo f env before (fun after => nodes.map fun c => f.operand after c.val (inside c))
        ((nodes.map fun c => f.unfold c.val (inside c)).mapM (Term.evaluating env))
        (nodes.foldlM (fun values c => f.force env values c.val (inside c)) before) := by
  induction nodes with
  | nil =>
    intro before agrees
    exact ⟨agrees, .refl before, [], rfl, .nil⟩
  | cons c rest ih =>
    intro before agrees
    have first := each before c agrees
    rw [List.foldlM_cons, List.map_cons, List.mapM_cons]
    cases forced : f.force env before c.val (inside c) with
    | error fault =>
      rw [forced] at first
      have failed : (f.unfold c.val (inside c)).evaluate env = .error fault := first
      rw [Term.evaluating, failed]
      rfl
    | ok middle =>
      rw [forced] at first
      obtain ⟨agreesMiddle, keptMiddle, v, known⟩ := first
      have value := agreesMiddle.holds c.val (inside c) v known
      have more := ih middle agreesMiddle
      rw [Term.evaluating, value, ok_bind, ok_bind, pure_bind]
      cases forcedRest :
        rest.foldlM (fun values c => f.force env values c.val (inside c)) middle with
      | error fault =>
        rw [forcedRest] at more
        have failed : (rest.map fun c => f.unfold c.val (inside c)).mapM (Term.evaluating env)
            = .error fault := more
        rw [failed]
        rfl
      | ok after =>
        rw [forcedRest] at more
        obtain ⟨agreesAfter, keptAfter, operands, evaluated, covers⟩ := more
        rw [evaluated]
        refine ⟨agreesAfter, keptMiddle.trans keptAfter, _, rfl, .cons ?_ covers⟩
        exact covers_evaluated (inside c) (keptAfter c.val v known)

/-! ### Selective kinds -/

variable {i : Nat}

/-- A left side is forced, and a right one where the left one is `passing`. -/
def forceGate (f : Forest) (env : Environment) (values : Values) (h : i < f.size)
    (left right : Fin i) (passing : Bool) : Except Fault Values := do
  let values ← f.force env values left.val (f.child_lt left h)
  if values.isTruth left passing then f.force env values right.val (f.child_lt right h)
  else .ok values

/-- A condition is forced, and the branch that it chooses. -/
def forceChoice (f : Forest) (env : Environment) (values : Values) (h : i < f.size)
    (condition consequent alternative : Fin i) : Except Fault Values := do
  let values ← f.force env values condition.val (f.child_lt condition h)
  if values.isTruth condition true then f.force env values consequent.val (f.child_lt consequent h)
  else if values.isTruth condition false then
    f.force env values alternative.val (f.child_lt alternative h)
  else .ok values

/-- What a node demands is forced. -/
def forceDemanded (f : Forest) (env : Environment) (values : Values) (i : Nat) (h : i < f.size) :
    Except Fault Values :=
  match Demand.of (f.node i h).kind (f.childrenOf i h) with
  | .all children =>
    children.foldlM (fun values c => f.force env values c.val (f.child_lt c h)) values
  | .choice condition consequent alternative =>
    f.forceChoice env values h condition consequent alternative
  | .gate left right passing => f.forceGate env values h left right passing

/-- The value of a node is entered, or its fault is named. -/
def enter (f : Forest) (env : Environment) (i : Nat) (h : i < f.size) (values : Values) :
    Except Fault Values :=
  match f.calculate env values i h with
  | .ok value => .ok (values.fill i value)
  | .error fault => .error (fault.within (f.node i h).text)

/-- A node that has a value is left alone. -/
theorem force_of_known (h : i < f.size) {v : Value} (known : before.get? i = some v) :
    f.force env before i h = .ok before := by
  rw [force, known]

/-- **A node that has no value** forces its demand and then applies its rule.  The three kinds of
demand are gone through, and each is carried out in the same order by both. -/
theorem force_of_unknown (h : i < f.size) (unknown : before.get? i = none) :
    f.force env before i h = f.forceDemanded env before i h >>= f.enter env i h := by
  rw [force, unknown, forceDemanded]
  dsimp only
  cases Demand.of (f.node i h).kind (f.childrenOf i h) with
  | all children => rfl
  | choice condition consequent alternative =>
    dsimp only
    rw [forceChoice]
    cases f.force env before condition.val (f.child_lt condition h) with
    | error fault => rfl
    | ok values =>
      simp only [ok_bind]
      split
      · rfl
      · split <;> rfl
  | gate left right passing =>
    dsimp only
    rw [forceGate]
    cases f.force env before left.val (f.child_lt left h) with
    | error fault => rfl
    | ok values =>
      simp only [ok_bind]
      split <;> rfl

/-- The four kinds of demand.  The first three demand a part of their children, and every other
kind, or another number of children, demands all of them. -/
theorem demand_cases (kind : Kind) (children : List (Fin i)) :
    (∃ condition consequent alternative, kind = .conditional ∧
        children = [condition, consequent, alternative] ∧
        Demand.of kind children = .choice condition consequent alternative) ∨
      (∃ left operator right, kind = .conjunction ∧ children = [left, operator, right] ∧
        Demand.of kind children = .gate left right true) ∨
      (∃ left operator right, kind = .disjunction ∧ children = [left, operator, right] ∧
        Demand.of kind children = .gate left right false) ∨
      (¬ Term.IsSelective kind children.length ∧ Demand.of kind children = .all children) := by
  unfold Demand.of
  split
  · exact .inl ⟨_, _, _, rfl, rfl, rfl⟩
  · exact .inr (.inl ⟨_, _, _, rfl, rfl, rfl⟩)
  · exact .inr (.inr (.inl ⟨_, _, _, rfl, rfl, rfl⟩))
  · rename_i conditional conjunction disjunction
    refine .inr (.inr (.inr ⟨?_, rfl⟩))
    rintro ⟨three, kind⟩
    obtain ⟨a, b, c, children⟩ := List.length_eq_three.mp three
    rcases kind with kind | kind | kind
    · exact conditional a b c kind children
    · exact conjunction a b c kind children
    · exact disjunction a b c kind children

theorem isTruth_iff {values : Values} {truth : Bool} :
    values.isTruth i truth = true ↔ values.get? i = some (.bool truth) := by
  simp [Values.isTruth]

/-- Nodes below `i` are forced as they should be. -/
def ForcedBelow (f : Forest) (env : Environment) (i : Nat) (h : i < f.size) : Prop :=
  ∀ (values : Values) (c : Fin i), Agrees f env values →
    ForcedTo f env values c.val (f.child_lt c h) (f.force env values c.val (f.child_lt c h))

/-- A node that is forced behind others adds its value to their operands, or its fault. -/
theorem demandedTo_of_forced {middle : Values} {c : Nat} {hc : c < f.size}
    (kept : before.KeptBy middle) {outcome : Except Fault Values}
    (forced : ForcedTo f env middle c hc outcome) {nodes : Values → List Operand}
    {found : Value → List Operand}
    (covers : ∀ (after : Values) (v : Value), middle.KeptBy after → after.get? c = some v →
      List.Forall₂ Operand.Covers (nodes after) (found v)) :
    DemandedTo f env before nodes ((f.unfold c hc).evaluate env >>= fun v => .ok (found v))
      outcome := by
  cases outcome with
  | error fault =>
    have failed : (f.unfold c hc).evaluate env = .error fault := forced
    rw [failed]
    rfl
  | ok after =>
    obtain ⟨agrees, keptAfter, v, known⟩ := forced
    rw [agrees.holds c hc v known]
    exact ⟨agrees, kept.trans keptAfter, _, rfl, covers after v keptAfter known⟩

/-- **Forcing a connective's operands** comes to evaluating them.  The right operand is forced
exactly where the left one is the boolean that lets it pass; otherwise it is skipped, and covers
what was not demanded. -/
theorem forceGate_spec (h : i < f.size) (each : ForcedBelow f env i h)
    (agrees : Agrees f env before)
    (left operator right : Fin i) (passing : Bool) :
    DemandedTo f env before
      (fun after => [left, operator, right].map fun c => f.operand after c.val (f.child_lt c h))
      (Term.gateOperands env passing (f.unfold left.val (f.child_lt left h))
        (f.unfold operator.val (f.child_lt operator h)) (f.unfold right.val (f.child_lt right h)))
      (f.forceGate env before h left right passing) := by
  have first := each before left agrees
  rw [forceGate, Term.gateOperands]
  cases forced : f.force env before left.val (f.child_lt left h) with
  | error fault =>
    rw [forced] at first
    have failed : (f.unfold left.val (f.child_lt left h)).evaluate env = .error fault := first
    rw [failed]
    rfl
  | ok middle =>
    rw [forced] at first
    obtain ⟨agreesMiddle, keptMiddle, v, known⟩ := first
    rw [agreesMiddle.holds _ _ v known, ok_bind, ok_bind]
    by_cases passes : v = .bool passing
    · subst passes
      rw [if_pos (isTruth_iff.mpr known), if_pos rfl]
      refine demandedTo_of_forced keptMiddle (each middle right agreesMiddle) ?_
      intro after w keptAfter knownRight
      exact .cons (covers_evaluated _ (keptAfter _ _ known))
        (.cons (covers_skipped _) (.cons (covers_evaluated _ knownRight) .nil))
    · have blocked : ¬ middle.isTruth left passing = true := by
        rw [isTruth_iff, known]
        simpa using passes
      rw [if_neg blocked, if_neg passes]
      exact ⟨agreesMiddle, keptMiddle, _, rfl,
        .cons (covers_evaluated _ known) (.cons (covers_skipped _) (.cons (covers_skipped _) .nil))⟩

/-- **Forcing a conditional's operands** comes to evaluating them.  The condition is forced first,
and then the branch that it chooses; with any other value neither branch is. -/
theorem forceChoice_spec (h : i < f.size) (each : ForcedBelow f env i h)
    (agrees : Agrees f env before) (condition consequent alternative : Fin i) :
    DemandedTo f env before
      (fun after => [condition, consequent, alternative].map fun c =>
        f.operand after c.val (f.child_lt c h))
      (Term.choiceOperands env (f.unfold condition.val (f.child_lt condition h))
        (f.unfold consequent.val (f.child_lt consequent h))
        (f.unfold alternative.val (f.child_lt alternative h)))
      (f.forceChoice env before h condition consequent alternative) := by
  have first := each before condition agrees
  rw [forceChoice, Term.choiceOperands]
  cases forced : f.force env before condition.val (f.child_lt condition h) with
  | error fault =>
    rw [forced] at first
    have failed : (f.unfold condition.val (f.child_lt condition h)).evaluate env = .error fault :=
      first
    rw [failed]
    rfl
  | ok middle =>
    rw [forced] at first
    obtain ⟨agreesMiddle, keptMiddle, v, known⟩ := first
    rw [agreesMiddle.holds _ _ v known, ok_bind, ok_bind]
    have truth : ∀ truth, middle.isTruth condition truth = true ↔ v = .bool truth := fun truth => by
      rw [isTruth_iff, known, Option.some_inj]
    simp only [truth]
    by_cases yes : v = .bool true
    · rw [if_pos yes, if_pos yes]
      refine demandedTo_of_forced keptMiddle (each middle consequent agreesMiddle) ?_
      intro after w keptAfter knownBranch
      exact .cons (covers_evaluated _ (keptAfter _ _ known))
        (.cons (covers_evaluated _ knownBranch) (.cons (covers_skipped _) .nil))
    rw [if_neg yes, if_neg yes]
    by_cases no : v = .bool false
    · rw [if_pos no, if_pos no]
      refine demandedTo_of_forced keptMiddle (each middle alternative agreesMiddle) ?_
      intro after w keptAfter knownBranch
      exact .cons (covers_evaluated _ (keptAfter _ _ known))
        (.cons (covers_skipped _) (.cons (covers_evaluated _ knownBranch) .nil))
    rw [if_neg no, if_neg no]
    exact ⟨agreesMiddle, keptMiddle, _, rfl,
      .cons (covers_evaluated _ known) (.cons (covers_skipped _) (.cons (covers_skipped _) .nil))⟩

/-! ### Every kind -/

/-- **Forcing what a node demands** comes to evaluating the operands of its term.  The demand
decides which of the three lemmas above applies. -/
theorem forceDemanded_spec (h : i < f.size) (each : ForcedBelow f env i h)
    (agrees : Agrees f env before) :
    DemandedTo f env before (fun after => f.operands after i h) ((f.unfold i h).operands env)
      (f.forceDemanded env before i h) := by
  rw [forceDemanded]
  simp only [operands]
  rcases demand_cases (f.node i h).kind (f.childrenOf i h) with
    ⟨condition, consequent, alternative, kind, children, demand⟩ |
    ⟨left, operator, right, kind, children, demand⟩ |
    ⟨left, operator, right, kind, children, demand⟩ | ⟨notSelective, demand⟩
  · rw [demand, unfold, kind, children]
    exact forceChoice_spec h each agrees condition consequent alternative
  · rw [demand, unfold, kind, children]
    exact forceGate_spec h each agrees left operator right true
  · rw [demand, unfold, kind, children]
    exact forceGate_spec h each agrees left operator right false
  · have all : ¬ Term.IsSelective (f.unfold i h).kind (f.unfold i h).children.length := by
      rw [kind_unfold, children_unfold, List.length_map]
      exact notSelective
    rw [demand, Term.operands_of_not_selective all, children_unfold]
    exact forceAll_spec (fun c => f.child_lt c h) each (f.childrenOf i h) before agrees

/-- **Forcing a node** comes to evaluating its term.  By induction on the index, since children have
smaller ones.  A node that has a value is left alone, by the invariant that it is the right one; any
other is filled behind its children. -/
theorem force_spec (i : Nat) (h : i < f.size) : ∀ before : Values, Agrees f env before →
    ForcedTo f env before i h (f.force env before i h) := by
  induction i using Nat.strongRecOn with
  | ind i ih =>
    intro before agrees
    cases known : before.get? i with
    | some v =>
      rw [force_of_known h known]
      exact ⟨agrees, .refl before, v, known⟩
    | none =>
      rw [force_of_unknown h known]
      have each : ForcedBelow f env i h :=
        fun values c agrees => ih c.val c.isLt (f.child_lt c h) values agrees
      have demanded := forceDemanded_spec h each agrees
      cases forced : f.forceDemanded env before i h with
      | error fault =>
        rw [forced] at demanded
        have failed : (f.unfold i h).operands env = .error fault := demanded
        show (f.unfold i h).evaluate env = .error fault
        rw [Term.evaluate_eq, failed, error_bind]
      | ok middle =>
        rw [forced] at demanded
        obtain ⟨agreesMiddle, keptMiddle, found, evaluated, covers⟩ := demanded
        -- The table may know more than was demanded; the rule does not mind.
        have same : (f.unfold i h).evaluate env
            = (f.calculate env middle i h).mapError (Fault.within (f.node i h).text) := by
          rw [Term.evaluate_eq, evaluated, ok_bind, calculate, text_unfold,
            ← rule_eq_of_met covers (Term.demandMet_operands evaluated), kind_unfold]
        rw [ok_bind, enter]
        cases outcome : f.calculate env middle i h with
        | error fault =>
          show (f.unfold i h).evaluate env = .error (fault.within (f.node i h).text)
          rw [same, outcome, error_mapError]
        | ok v =>
          have value : (f.unfold i h).evaluate env = .ok v := by rw [same, outcome, ok_mapError]
          obtain ⟨agreesAfter, keptAfter, entered⟩ := agreesMiddle.fill h value
          exact ⟨agreesAfter, keptMiddle.trans keptAfter, v, entered⟩

/-! ## 4. Whole forests

The roots are forced like children, and a forest with several of them is a chain with one more rule
at its end. -/

/-- Forcing the roots comes to evaluating the terms. -/
theorem forceRoots_spec (f : Forest) (env : Environment) :
    DemandedTo f env (.start f.size) (fun after => f.rootOperands after)
      (f.terms.mapM (Term.evaluating env)) (f.forceRoots env) :=
  forceAll_spec f.root_lt (fun values r agrees => force_spec r.val (f.root_lt r) values agrees)
    f.rootNodes (.start f.size) (agrees_start f env)

/-- A chain whose operands are all known has its outcome, however much more they know. -/
theorem chain_eq_of_known (policy : Policy) {more less : List Operand}
    (covers : List.Forall₂ Operand.Covers more less) (known : ∀ o ∈ less, o.value? ≠ none) :
    Rule.chain policy more = Rule.chain policy less := by
  rcases Rule.stays_chain covers (List.Subset.refl less) with same | ⟨fault, asks, failed⟩
  · exact same
  · obtain ⟨o, member, missing, -⟩ := asks
    exact absurd missing (known o member)

theorem title_of_source (h : f.source ≠ "") : f.title = f.source := by
  rw [title, if_neg]
  rwa [String.isEmpty_iff]

/-- **Running a forest gives its meaning**, however its nodes are laid out and shared.  The roots
are forced as the operands of a rule are, so what is left is the chain of their values. -/
theorem run_eq_meaning (f : Forest) (env : Environment) : f.run env = f.meaning env := by
  have demanded := forceRoots_spec f env
  rw [run, meaning]
  change _ = f.terms.mapM (Term.evaluating env) >>= _
  cases forced : f.forceRoots env with
  | error fault =>
    rw [forced] at demanded
    have failed : f.terms.mapM (Term.evaluating env) = .error fault := demanded
    rw [failed, error_bind, error_bind]
  | ok after =>
    rw [forced] at demanded
    obtain ⟨-, -, found, evaluated, covers⟩ := demanded
    have known := Term.known_of_mapM_evaluating evaluated
    have chain := chain_eq_of_known env.policy covers known
    rw [evaluated, ok_bind, ok_bind]
    dsimp only at covers chain
    generalize f.rootOperands after = nodes at covers chain
    cases covers with
    | nil => rfl
    | @cons _ only _ _ first rest =>
      cases rest with
      | nil =>
        obtain ⟨v, value⟩ := Option.ne_none_iff_exists'.mp (known only List.mem_cons_self)
        simp only [Operand.value, value, first.value v value]
      | cons _ _ =>
        dsimp only
        rw [← chain]
        cases Rule.chain env.policy _ <;> rfl

/-! ## 5. Tables that know more

The same order on tables gives a property of rules in itself.  More knowledge can change the outcome
of a node in one case only: its rule had asked for a child that was missing, and said so. -/

/-- **A rule asks for a missing value** of one of the node's children. -/
def AsksChild (f : Forest) (values : Values) (i : Nat) (fault : Fault) : Prop :=
  ∃ (h : i < f.size) (c : Fin i), c ∈ f.childrenOf i h ∧ values.get? c = none ∧
    fault = .ofShape (.notComputed c)

/-- **The outcome of a node stays** where the table comes to know more, unless its rule had asked
for a value that was missing. -/
theorem calculate?_stays (env : Environment) (i : Nat) (kept : before.KeptBy after) :
    f.calculate? env after i = f.calculate? env before i ∨
      ∃ fault, f.AsksChild before i fault ∧ f.calculate? env before i = .error fault := by
  by_cases h : i < f.size
  · rw [calculate?, calculate?, dif_pos h, dif_pos h]
    rcases rule_of_covers (covers_operands kept h) with same | ⟨fault, asks, failed⟩
    · exact .inl same
    · obtain ⟨o, member, missing, rfl⟩ := asks
      obtain ⟨c, child, rfl⟩ := List.mem_map.mp member
      exact .inr ⟨_, ⟨h, c, child, missing, rfl⟩, failed⟩
  · left
    rw [calculate?, calculate?, dif_neg h, dif_neg h]

/-- **The rules are monotone in the table.**  Where one table keeps what is in another, a node has
the value that it had with the other one, and it fails with the fault that it had, unless this asked
for a value that was not computed.  What was asked for then is the value of a child whose slot was
empty. -/
theorem calculate?_of_keptBy (f : Forest) (env : Environment) (i : Nat) {before after : Values}
    (kept : before.KeptBy after) :
    (∀ v, f.calculate? env before i = .ok v → f.calculate? env after i = .ok v) ∧
      (∀ fault, f.calculate? env before i = .error fault →
        (∀ j, fault ≠ .ofShape (.notComputed j)) →
        f.calculate? env after i = .error fault) ∧
      ∀ fault, f.calculate? env before i = .error fault → f.calculate? env after i ≠ .error fault →
        f.AsksChild before i fault := by
  rcases calculate?_stays env i kept with same | ⟨asked, asks, failed⟩
  · rw [same]
    exact ⟨fun v done => done, fun fault failed _ => failed,
      fun fault failed changed => absurd failed changed⟩
  · refine ⟨fun v done => ?_, fun fault failed' other => ?_, fun fault failed' _ => ?_⟩
    · cases failed.symm.trans done
    · cases failed.symm.trans failed'
      obtain ⟨h, c, -, -, same⟩ := asks
      exact absurd same (other c)
    · cases failed.symm.trans failed'
      exact asks

/-- For instance, a left operand that decides decides also where the right one is known. -/
theorem calculate?_of_keptBy_decided : ∃ (f : Forest) (env : Environment) (before : Values),
    before.KeptBy (before.fill 2 (.bool true)) ∧ f.calculate? env before 3 = .ok (.bool false) ∧
      f.calculate? env (before.fill 2 (.bool true)) 3 = .ok (.bool false) := by
  let f : Forest :=
    (((Forest.empty.grow .reference "flag" [] (List.forall_mem_nil _)).grow .symbol "&&" []
    (List.forall_mem_nil _)).grow .reference "never" [] (List.forall_mem_nil _)).grow .conjunction
      "flag && never" [0, 1, 2] (by decide)
  let env : Environment := ⟨.empty, .standard, .empty⟩
  let before : Values := #[some (.bool false), none, none, none]
  have kept : before.KeptBy (before.fill 2 (.bool true)) := Values.keptBy_fill rfl _
  have decided : f.calculate? env before 3 = .ok (.bool false) := by decide
  exact ⟨f, env, before, kept, decided, (calculate?_of_keptBy f env 3 kept).1 _ decided⟩

end Forest
end DecimalExpression
