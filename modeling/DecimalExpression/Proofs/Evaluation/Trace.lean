import DecimalExpression.Proofs.Evaluation.Faults
import Mathlib

/-!
# What happens in a run

The table of values is not all there is to say of a run: which nodes were forced, and when a slot
was filled, cannot be seen in it.  `Forest.traceRoots` is the run with its events.  Without the
events it is the run itself (`outcome_traceRoots`).

Which child is forced next depends on nothing but the values of the children that were forced before
(`Plan`).  So what is said of forcing takes two cases, whatever the kind of the node.

Every event is as it should be (`Forest.Steps`).  A rule is applied where its demand is met, and
asks for no value that is missing.  A slot is filled when it is there and empty, with the value of
the term that its node unfolds to.  When a node has been forced, its slot holds this value.
-/

namespace DecimalExpression

/-! ## 1. Outcomes with events

A fault ends a computation but does not undo what happened before it, so events are kept beside the
outcome and not in it.  Sequencing appends them, and stops at a fault. -/

/-- **An event of a run.** -/
inductive Event where
  /-- a node is asked for -/
  | call (i : Nat)
  /-- the rule of a node is applied -/
  | apply (i : Nat)
  /-- the slot of a node is filled -/
  | fill (i : Nat) (value : Value)
  /-- a node was asked for and has a value -/
  | done (i : Nat)

/-- **An outcome with the events that led to it**, those before a fault included. -/
structure Traced (α : Type) where
  events : List Event
  outcome : Except Fault α

namespace Traced

variable {α β : Type}

/-- An event happens. -/
def say (event : Event) : Traced Unit := ⟨[event], .ok ()⟩

/-- An outcome without events. -/
def quiet (outcome : Except Fault α) : Traced α := ⟨[], outcome⟩

/-- One after another; after a fault nothing happens any more. -/
def andThen (x : Traced α) (next : α → Traced β) : Traced β :=
  match x.outcome with
  | .ok a => ⟨x.events ++ (next a).events, (next a).outcome⟩
  | .error fault => ⟨x.events, .error fault⟩

instance : Monad Traced where
  pure a := quiet (.ok a)
  bind := andThen

theorem outcome_bind (x : Traced α) (next : α → Traced β) :
    (x >>= next).outcome = x.outcome >>= fun a => (next a).outcome := by
  show (x.andThen next).outcome = _
  rw [andThen]
  cases x.outcome <;> rfl

theorem bind_of_ok {x : Traced α} {a : α} (h : x.outcome = .ok a) (next : α → Traced β) :
    x >>= next = ⟨x.events ++ (next a).events, (next a).outcome⟩ := by
  show x.andThen next = _
  rw [andThen, h]

theorem bind_of_error {x : Traced α} {fault : Fault} (h : x.outcome = .error fault)
    (next : α → Traced β) : x >>= next = ⟨x.events, .error fault⟩ := by
  show x.andThen next = _
  rw [andThen, h]

end Traced

namespace Forest

variable {f : Forest} {env : Environment} {i : Nat}

/-! ## 2. Runs with events

The run with events is written like the run, with an event where a node is called on, where its rule
is applied, and where its slot is filled. -/

/-- **Forcing a node, with its events.** -/
def trace (f : Forest) (env : Environment) (values : Values) (i : Nat) (h : i < f.size) :
    Traced Values := do
  Traced.say (.call i)
  match values.get? i with
  | some _ => do
    Traced.say (.done i)
    return values
  | none => do
    let values ← (f.plan i h).run
      (fun values c => f.trace env values c.val (f.child_lt c h)) values
    Traced.say (.apply i)
    let value ← Traced.quiet
      ((f.calculate env values i h).mapError (Fault.within (f.node i h).text))
    Traced.say (.fill i value)
    Traced.say (.done i)
    return values.fill i value
termination_by i
decreasing_by exact c.isLt

/-- **Forcing the roots, with the events.** -/
def traceRoots (f : Forest) (env : Environment) : Traced Values :=
  (Plan.all f.rootNodes).run (fun values r => f.trace env values r.val (f.root_lt r))
    (Values.start f.size)

/-! ## 3. The run itself

A node is in one of four situations: it has a value, a child fails, its rule fails, or its rule
succeeds.  Each has an equation, and later inductions on the run go by these and not by the
definition.  Forgetting the events gives the run back. -/

/-- Carrying out a plan to force some nodes is forcing them in turn. -/
theorem run_all {n : Nat} (child : Values → Fin n → Except Fault Values) (nodes : List (Fin n)) :
    ∀ values : Values, (Plan.all nodes).run child values = nodes.foldlM child values := by
  induction nodes with
  | nil => exact fun _ => rfl
  | cons c rest ih =>
    intro values
    rw [Plan.all, Plan.run, List.foldlM_cons]
    cases child values c with
    | error fault => rfl
    | ok after => exact ih after

theorem run_only {n : Nat} (child : Values → Fin n → Except Fault Values) (c : Fin n)
    (values : Values) : (Plan.only c).run child values = child values c := by
  rw [Plan.only, Plan.run]
  cases child values c <;> rfl

/-- **Forcing what a node demands** is carrying out its plan.  A plan reads the table where the
driver asks for a truth value, and both ask for the same. -/
theorem forceDemanded_eq_run (h : i < f.size) (values : Values) :
    f.forceDemanded env values i h
      = (f.plan i h).run (fun values c => f.force env values c.val (f.child_lt c h)) values := by
  have truth : ∀ (values : Values) (c : Fin i) (truth : Bool),
      values.isTruth c.val truth = decide (values.get? c.val = some (.bool truth)) :=
    fun values c truth => rfl
  rw [forceDemanded, plan]
  cases Demand.of (f.node i h).kind (f.childrenOf i h) with
  | all children => exact (run_all _ children values).symm
  | choice condition consequent alternative =>
    dsimp only [Plan.of]
    rw [forceChoice, Plan.run]
    cases f.force env values condition.val (f.child_lt condition h) with
    | error fault => rfl
    | ok middle =>
      simp only [ok_bind, truth, decide_eq_true_eq]
      split
      · rw [run_only]
      split
      · rw [run_only]
      · rfl
  | gate left right passing =>
    dsimp only [Plan.of]
    rw [forceGate, Plan.run]
    cases f.force env values left.val (f.child_lt left h) with
    | error fault => rfl
    | ok middle =>
      simp only [ok_bind, truth, decide_eq_true_eq]
      split
      · rw [run_only]
      · rfl

/-- Carrying out a plan with events has the outcome of carrying it out. -/
theorem outcome_run {n : Nat} {child : Values → Fin n → Traced Values} (plan : Plan n) :
    ∀ values : Values, (plan.run child values).outcome
      = plan.run (fun values c => (child values c).outcome) values := by
  induction plan with
  | done => exact fun _ => rfl
  | force c next ih =>
    intro values
    rw [Plan.run, Plan.run, Traced.outcome_bind]
    exact bind_congr fun after => ih _ after

variable {before middle : Values}

/-- A node that has a value is asked for, and that is all. -/
theorem trace_of_known (h : i < f.size) {v : Value} (known : before.get? i = some v) :
    f.trace env before i h = ⟨[.call i, .done i], .ok before⟩ := by
  rw [trace, known]
  rfl

/-- The children of a node that has no value, as its plan has them. -/
def traceChildren (f : Forest) (env : Environment) (values : Values) (i : Nat) (h : i < f.size) :
    Traced Values :=
  (f.plan i h).run (fun values c => f.trace env values c.val (f.child_lt c h)) values

theorem trace_of_unknown (h : i < f.size) (unknown : before.get? i = none) :
    f.trace env before i h = (do
      Traced.say (.call i)
      let values ← f.traceChildren env before i h
      Traced.say (.apply i)
      let value ← Traced.quiet
        ((f.calculate env values i h).mapError (Fault.within (f.node i h).text))
      Traced.say (.fill i value)
      Traced.say (.done i)
      return values.fill i value) := by
  rw [trace, unknown]
  rfl

/-- **Where a child fails**, nothing more happens. -/
theorem trace_of_failed (h : i < f.size) (unknown : before.get? i = none) {fault : Fault}
    (failed : (f.traceChildren env before i h).outcome = .error fault) :
    f.trace env before i h
      = ⟨.call i :: (f.traceChildren env before i h).events, .error fault⟩ := by
  rw [trace_of_unknown h unknown]
  show Traced.andThen _ _ = _
  rw [Traced.bind_of_error failed]
  rfl

/-- **Where the rule fails**, no slot is filled. -/
theorem trace_of_fault (h : i < f.size) (unknown : before.get? i = none)
    (forced : (f.traceChildren env before i h).outcome = .ok middle) {fault : Fault}
    (failed : f.calculate env middle i h = .error fault) :
    f.trace env before i h = ⟨.call i :: ((f.traceChildren env before i h).events ++ [.apply i]),
      .error (fault.within (f.node i h).text)⟩ := by
  rw [trace_of_unknown h unknown]
  show Traced.andThen _ _ = _
  rw [Traced.bind_of_ok forced, failed]
  rfl

/-- **Where the rule succeeds**, the slot of the node is filled. -/
theorem trace_of_value (h : i < f.size) (unknown : before.get? i = none)
    (forced : (f.traceChildren env before i h).outcome = .ok middle) {v : Value}
    (value : f.calculate env middle i h = .ok v) :
    f.trace env before i h = ⟨.call i ::
      ((f.traceChildren env before i h).events ++ [.apply i, .fill i v, .done i]),
      .ok (middle.fill i v)⟩ := by
  rw [trace_of_unknown h unknown]
  show Traced.andThen _ _ = _
  rw [Traced.bind_of_ok forced, value]
  rfl

/-- **Without its events, forcing a node is what it was.**  By induction on the index, by the four
situations that a node can be in. -/
theorem outcome_trace (i : Nat) (h : i < f.size) : ∀ before : Values,
    (f.trace env before i h).outcome = f.force env before i h := by
  induction i using Nat.strongRecOn with
  | ind i ih =>
    intro before
    cases known : before.get? i with
    | some v => rw [trace_of_known h known, force_of_known h known]
    | none =>
      have children : (f.traceChildren env before i h).outcome
          = f.forceDemanded env before i h := by
        rw [traceChildren, outcome_run, forceDemanded_eq_run]
        congr 1
        funext values c
        exact ih c.val c.isLt (f.child_lt c h) values
      rw [force_of_unknown h known, ← children]
      cases forced : (f.traceChildren env before i h).outcome with
      | error fault => rw [trace_of_failed h known forced, error_bind]
      | ok middle =>
        rw [ok_bind, enter]
        cases value : f.calculate env middle i h with
        | error fault => rw [trace_of_fault h known forced value]
        | ok v => rw [trace_of_value h known forced value]

/-- Without their events, the children of a node are what it demands. -/
theorem outcome_traceChildren (h : i < f.size) (before : Values) :
    (f.traceChildren env before i h).outcome = f.forceDemanded env before i h := by
  rw [traceChildren, outcome_run, forceDemanded_eq_run]
  congr 1
  funext values c
  exact outcome_trace c.val (f.child_lt c h) values

/-- **Without its events, the run is what it was.** -/
theorem outcome_traceRoots (f : Forest) (env : Environment) :
    (f.traceRoots env).outcome = f.forceRoots env := by
  rw [traceRoots, outcome_run, run_all, forceRoots]
  congr 1
  funext values r
  exact outcome_trace r.val (f.root_lt r) values

/-! ## 4. Event by event

`Steps` says of a list of events that it is one that a run could have, from one table to the next:
slots are filled once, with the values of their terms, and behind the slots below them.  That a run
has such events is an induction on the index of a node, with an induction on its plan inside; the
bound on the slots that are filled is what keeps the slot of the node itself empty until its
turn. -/

/-- **Events as they should be**, from the table in front of them to the table behind them.  Only
`fill` changes the table, and there only an empty slot, which has to be in the table. -/
inductive Steps (f : Forest) (env : Environment) : Values → List Event → Values → Prop
  | nil (values : Values) : Steps f env values [] values
  | call {before after : Values} {events : List Event} (i : Nat)
    (rest : Steps f env before events after) : Steps f env before (.call i :: events) after
  | apply {before after : Values} {events : List Event} {i : Nat} (h : i < f.size)
    (met : DemandMet (f.node i h).kind (f.operands before i h))
    (answered : ∀ fault, Operand.Asks (f.operands before i h) fault →
      f.calculate env before i h ≠ .error fault)
    (rest : Steps f env before events after) : Steps f env before (.apply i :: events) after
  | fill {before after : Values} {events : List Event} {i : Nat} {v : Value} (h : i < f.size)
    (inside : i < before.size) (empty : before.get? i = none)
    (value : (f.unfold i h).evaluate env = .ok v)
    (rest : Steps f env (before.fill i v) events after) :
    Steps f env before (.fill i v :: events) after
  | done {before after : Values} {events : List Event} {i : Nat} {v : Value} (h : i < f.size)
    (known : before.get? i = some v) (value : (f.unfold i h).evaluate env = .ok v)
    (rest : Steps f env before events after) : Steps f env before (.done i :: events) after

/-- The slots that are filled, in the order of the events. -/
def filled (events : List Event) : List Nat :=
  events.filterMap fun
    | .fill i _ => some i
    | _ => none

variable {after : Values} {events events' : List Event}

theorem Steps.append {last : Values} (first : f.Steps env before events middle)
    (second : f.Steps env middle events' last) : f.Steps env before (events ++ events') last := by
  induction first with
  | nil => exact second
  | call i _ ih => exact .call i (ih second)
  | apply h met answered _ ih => exact .apply h met answered (ih second)
  | fill h inside empty value _ ih => exact .fill h inside empty value (ih second)
  | done h known value _ ih => exact .done h known value (ih second)

/-- A slot that is not filled stays as it is. -/
theorem Steps.get?_eq (steps : f.Steps env before events after) {j : Nat}
    (other : j ∉ filled events) : after.get? j = before.get? j := by
  induction steps with
  | nil => rfl
  | call i _ ih => exact ih other
  | apply h met answered _ ih => exact ih other
  | done h known value _ ih => exact ih other
  | @fill before after events i v h inside empty value _ ih =>
    have apart : j ∉ i :: filled events := other
    rw [List.mem_cons, not_or] at apart
    rw [ih apart.2, Values.get?_fill _ inside, if_neg (Ne.symm apart.1)]

/-- **No slot is filled twice**, and none that was not empty. -/
theorem Steps.nodup_filled (steps : f.Steps env before events after) :
    (filled events).Nodup ∧ ∀ j ∈ filled events, before.get? j = none := by
  induction steps with
  | nil => exact ⟨List.nodup_nil, List.forall_mem_nil _⟩
  | call i _ ih => exact ih
  | apply h met answered _ ih => exact ih
  | done h known value _ ih => exact ih
  | @fill before after events i v h inside empty value _ ih =>
    have entered := Values.get?_fill before inside v
    obtain ⟨once, each⟩ := ih
    have later : ∀ j ∈ filled events, i ≠ j ∧ before.get? j = none := by
      intro j member
      have empty := each j member
      rw [entered] at empty
      split at empty
      · cases empty
      · exact ⟨‹_›, empty⟩
    refine ⟨List.nodup_cons.mpr ⟨fun again => (later i again).1 rfl, once⟩, ?_⟩
    exact List.forall_mem_cons.mpr ⟨empty, fun j member => (later j member).2⟩

/-- **What a part of a run does**: its events are as they should be, from the table in front of it
to the table that comes out, and they fill slots below `bound` only. -/
def StepsTo (f : Forest) (env : Environment) (before : Values) (bound : Nat)
    (part : Traced Values) : Prop :=
  ∃ after, f.Steps env before part.events after ∧
    (∀ values, part.outcome = .ok values → values = after) ∧ ∀ j ∈ filled part.events, j < bound

/-- **Carrying out a plan** does so if forcing each child does.  By induction on the plan: behind a
child the table is the one that its events lead to. -/
theorem run_stepsTo {n bound : Nat} {child : Values → Fin n → Traced Values}
    (each : ∀ (values : Values) (c : Fin n), Agrees f env values →
      f.StepsTo env values bound (child values c))
    (keeps : ∀ (values after : Values) (c : Fin n), Agrees f env values →
      (child values c).outcome = .ok after → Agrees f env after)
    (plan : Plan n) : ∀ before : Values, Agrees f env before →
      f.StepsTo env before bound (plan.run child before) := by
  induction plan with
  | done =>
    intro before _
    refine ⟨before, .nil before, ?_, List.forall_mem_nil _⟩
    rintro values ⟨⟩
    rfl
  | force c next ih =>
    intro before agrees
    obtain ⟨after, steps, out, below⟩ := each before c agrees
    rw [Plan.run]
    cases forced : (child before c).outcome with
    | error fault =>
      rw [Traced.bind_of_error forced]
      exact ⟨after, steps, nofun, below⟩
    | ok middle =>
      obtain rfl := out middle forced
      obtain ⟨last, more, out', below'⟩ :=
        ih (middle.get? c.val) middle (keeps before middle c agrees forced)
      rw [Traced.bind_of_ok forced]
      refine ⟨last, steps.append more, out', fun j member => ?_⟩
      rw [filled, List.filterMap_append, List.mem_append] at member
      rcases member with first | later
      · exact below j first
      · exact below' j later

/-- **A node that has been forced** has the value of its term, in a table that has the right
values. -/
theorem agrees_of_outcome_trace (h : i < f.size) (agrees : Agrees f env before)
    (forced : (f.trace env before i h).outcome = .ok after) :
    Agrees f env after ∧ ∃ v, after.get? i = some v ∧ (f.unfold i h).evaluate env = .ok v := by
  have spec := force_spec i h before agrees
  rw [← outcome_trace i h, forced] at spec
  obtain ⟨agreesAfter, -, v, known⟩ := spec
  exact ⟨agreesAfter, v, known, agreesAfter.holds i h v known⟩

/-- **Where the children of a node are forced, the demand of its rule is met**, in a table that has
the right values. -/
theorem demandMet_of_traceChildren (h : i < f.size) (agrees : Agrees f env before)
    (forced : (f.traceChildren env before i h).outcome = .ok middle) :
    Agrees f env middle ∧ DemandMet (f.node i h).kind (f.operands middle i h) := by
  have each : ForcedBelow f env i h := fun values c agrees =>
    force_spec c.val (f.child_lt c h) values agrees
  have demanded := forceDemanded_spec h each agrees
  rw [← outcome_traceChildren, forced] at demanded
  obtain ⟨right, -, found, evaluated, covers⟩ := demanded
  have met := Term.demandMet_operands evaluated
  rw [kind_unfold] at met
  exact ⟨right, met.of_covers covers⟩

/-- **Forcing a node**: every event is as it should be, and slots behind the node stay empty.  By
induction on the index.  The node's own slot is still empty when its rule is applied, since its
children fill slots in front of it only. -/
theorem trace_stepsTo (i : Nat) (h : i < f.size) : ∀ before : Values, Agrees f env before →
    f.StepsTo env before (i + 1) (f.trace env before i h) := by
  induction i using Nat.strongRecOn with
  | ind i ih =>
    intro before agrees
    cases known : before.get? i with
    | some v =>
      rw [trace_of_known h known]
      refine ⟨before, .call i (.done h known (agrees.holds i h v known) (.nil before)), ?_,
        List.forall_mem_nil _⟩
      rintro values ⟨⟩
      rfl
    | none =>
      have children : f.StepsTo env before i (f.traceChildren env before i h) := by
        refine run_stepsTo (fun values c agrees => ?_) (fun values after c agrees forced => ?_)
          (f.plan i h) before agrees
        · obtain ⟨after, steps, out, below⟩ := ih c.val c.isLt (f.child_lt c h) values agrees
          exact ⟨after, steps, out, fun j member => Nat.lt_of_lt_of_le (below j member) c.isLt⟩
        · exact (agrees_of_outcome_trace (f.child_lt c h) agrees forced).1
      obtain ⟨after, steps, out, below⟩ := children
      cases forced : (f.traceChildren env before i h).outcome with
      | error fault =>
        rw [trace_of_failed h known forced]
        exact ⟨after, .call i steps, nofun, fun j member => Nat.lt_succ_of_lt (below j member)⟩
      | ok middle =>
        obtain rfl := out middle forced
        obtain ⟨right, met⟩ := demandMet_of_traceChildren h agrees forced
        have answered : ∀ fault, Operand.Asks (f.operands middle i h) fault →
            f.calculate env middle i h ≠ .error fault := fun fault asks => met.not_asks asks
        cases value : f.calculate env middle i h with
        | error fault =>
          rw [trace_of_fault h known forced value]
          refine ⟨middle, .call i (steps.append (.apply h met answered (.nil middle))), nofun,
            fun j member => ?_⟩
          simp only [filled, List.filterMap_cons, List.filterMap_append, List.filterMap_nil,
            List.append_nil] at member
          exact Nat.lt_succ_of_lt (below j member)
        | ok v =>
          have whole := trace_of_value h known forced value
          have outcome : (f.trace env before i h).outcome = .ok (middle.fill i v) := by rw [whole]
          have own : i ∉ filled (f.traceChildren env before i h).events := fun member =>
            Nat.lt_irrefl i (below i member)
          have empty : middle.get? i = none := by rw [steps.get?_eq own, known]
          have inside : i < middle.size := right.size_eq ▸ h
          have entered : (middle.fill i v).get? i = some v := by
            rw [Values.get?_fill _ inside, if_pos rfl]
          have term := (agrees_of_outcome_trace h agrees outcome).1.holds i h v entered
          rw [whole]
          have filling := Steps.apply h met answered
            (.fill h inside empty term (.done h entered term (.nil _)))
          refine ⟨middle.fill i v, .call i (steps.append filling), ?_, fun j member => ?_⟩
          · rintro values ⟨⟩
            rfl
          · simp only [filled, List.filterMap_cons, List.filterMap_append, List.filterMap_nil,
              List.mem_append, List.mem_singleton] at member
            rcases member with member | rfl
            · exact Nat.lt_succ_of_lt (below j member)
            · exact Nat.lt_succ_self j

/-- **Forcing the roots**: every event is as it should be, from the empty table on. -/
theorem traceRoots_stepsTo (f : Forest) (env : Environment) :
    f.StepsTo env (.start f.size) f.size (f.traceRoots env) := by
  refine run_stepsTo (fun values r agrees => ?_) (fun values after r agrees forced => ?_)
    (.all f.rootNodes) (.start f.size) (agrees_start f env)
  · obtain ⟨after, steps, out, below⟩ := trace_stepsTo r.val (f.root_lt r) values agrees
    exact ⟨after, steps, out, fun j member => Nat.lt_of_lt_of_le (below j member) r.isLt⟩
  · exact (agrees_of_outcome_trace (f.root_lt r) agrees forced).1

/-! ## 5. The driver

The driver collapses, forces the roots and finishes.  Its outcome is known from
`DecimalExpression.Proofs.Evaluation.Driver`; what is added is what happens on the way. -/

/-- **The driver is plain recursion with a table.**  Its outcome is the meaning of the collapsed
forest, whose terms are evaluated without a table, one by one.  Every event of its run is as it
should be, also where the run ends in a fault: no rule reads a slot that is empty, a slot is filled
with the value of its term, and at most once.  So the table itself is never at fault; what a method
raises may look like it. -/
theorem evaluate_traced (f : Forest) (env : Environment) :
    f.evaluate env = f.collapse.meaning env ∧
      (f.collapse.traceRoots env).outcome = f.collapse.forceRoots env ∧
      (∃ after, f.collapse.Steps env (.start f.collapse.size)
        (f.collapse.traceRoots env).events after ∧
        ∀ values, f.collapse.forceRoots env = .ok values → values = after) ∧
      (filled (f.collapse.traceRoots env).events).Nodup ∧
      ∀ fault, f.evaluate env = .error fault → fault.IsTable →
        ∃ t ∈ f.collapse.terms, t.Raises env fault := by
  obtain ⟨after, steps, out, -⟩ := traceRoots_stepsTo f.collapse env
  have once := steps.nodup_filled
  rw [outcome_traceRoots] at out
  exact ⟨run_eq_meaning f.collapse env, outcome_traceRoots f.collapse env, ⟨after, steps, out⟩,
    once.1, fun fault failed table => raises_of_isTable failed table⟩

/-- For instance, a method that raises what looks like a fault of the table. -/
theorem evaluate_traced_raised : ∃ (f : Forest) (env : Environment),
    f.evaluate env = .error (.shape (.notComputed 7) "f()") ∧
      ∃ t ∈ f.collapse.terms, t.Raises env (.shape (.notComputed 7) "f()") := by
  let f : Forest :=
    (((empty.grow .symbol "f" [] nofun).grow .call "f()" [0] (by decide)).grantRoot 1
    (by decide)).markCollapsed
  let env : Environment := ⟨.empty, .standard,
    .set .empty "f" ⟨.any, fun _ => .error (.ofShape (.notComputed 7))⟩⟩
  have failed : f.evaluate env = .error (.shape (.notComputed 7) "f()") := by cbv
  obtain ⟨-, -, -, -, raised⟩ := evaluate_traced f env
  exact ⟨f, env, failed, raised _ failed trivial⟩

end Forest
end DecimalExpression
