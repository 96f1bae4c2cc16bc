import DecimalExpression.Proofs.Evaluation.Trace

/-!
# What has no influence

A run calls on some nodes and leaves others alone.  What stands in the nodes that it leaves alone is
of no account: not to the value, not to whether there is one, and not to the fault.

Two runs are compared, in two forests and two environments.  They may differ wherever the first run
does not call on a node (`AlikeAt` says what has to be the same where it does).  The tables of the
two runs are the same slot by slot (`SameSlots`), or both runs end in the same fault (`EndAlike`).
Since the plan of a node depends on nothing but the node and the values so far, the second run makes
the same calls as the first one (`run_alike`), and applies its rules to the same operands
(`calculate_alike`).

Which nodes a run may call on is said without a run: the roots, and of a node that is called on the
children that its kind takes for the value of the one in front (`Taken`).  An untaken branch, and
what stands right of an operand that decides, are not among them.
-/

namespace DecimalExpression

/-! ## 1. Rules

How much a rule depends on is made explicit: for the kinds that select, the values of their children
and the operator, and of the environment the policy, one variable or one method.  Their children's
kinds and texts do not come in, which is why a branch that is skipped can be exchanged. -/

namespace Operand

/-- Two operands of one index that have the same value, or no value both. -/
structure SameValue (o o' : Operand) : Prop where
  index_eq : o'.index = o.index
  value_eq : o'.value? = o.value?

variable {o o' : Operand}

theorem SameValue.read (same : SameValue o o') : o'.value = o.value := by
  rw [Operand.value, Operand.value, same.index_eq, same.value_eq]

theorem SameValue.readTruth (same : SameValue o o') (role : Role) :
    o'.truth role = o.truth role := by
  rw [Operand.truth, Operand.truth, same.read]

end Operand

open Operand

/-- **A conditional reads values only.** -/
theorem choice_eq_of_values {a b c a' b' c' : Operand} (condition : SameValue a a')
    (consequent : SameValue b b') (alternative : SameValue c c') :
    Rule.choice a' b' c' = Rule.choice a b c := by
  rw [Rule.choice, Rule.choice, condition.readTruth, consequent.read, alternative.read]

/-- **A connective reads two values and its operator.** -/
theorem connective_eq_of_values {kind : Kind} {token : String} {decisive : Bool}
    {a b c a' c' : Operand} (left : SameValue a a') (right : SameValue c c') :
    Rule.connective kind token decisive a' b c' = Rule.connective kind token decisive a b c := by
  rw [Rule.connective, Rule.connective, left.readTruth, right.readTruth]

/-- **A rule reads of its environment** the policy, the variable that a reference names, and the
method that a call names. -/
theorem rule_eq_of_environment {env env' : Environment} {kind : Kind} {slice : String}
    {operands : List Operand} (policy : env'.policy = env.policy)
    (binding : kind = .reference →
      (env'.bindings.get? slice).getD .null = (env.bindings.get? slice).getD .null)
    (method : kind = .call → ∀ name arguments, operands = name :: arguments →
      name.kind = .symbol → env'.methods.get? name.text = env.methods.get? name.text) :
    rule env' kind slice operands = rule env kind slice operands := by
  cases kind with
  | reference => rw [rule, rule, binding rfl]
  | call =>
    cases operands with
    | nil => rfl
    | cons name arguments =>
      rw [rule, rule]
      by_cases symbol : name.kind = .symbol
      · simp only [Operand.symbol, symbol, if_true, ok_bind, Registry.invoke,
          method rfl name arguments rfl symbol]
      · simp only [Operand.symbol, symbol, if_false, error_bind]
  | _ => simp only [rule, policy]

namespace Forest

variable {f g : Forest} {env env' : Environment} {i : Nat}

/-! ## 2. Calls

The events of a run contain the calls, so the nodes that are called on can be listed.  The list has
a node again for each time it is called on, with a value or without. -/

/-- The nodes that are called on, in the order of the events. -/
def called (events : List Event) : List Nat :=
  events.filterMap fun
    | .call i => some i
    | _ => none

/-- **The nodes that a run calls on.** -/
def forced (f : Forest) (env : Environment) : List Nat :=
  called (f.traceRoots env).events

theorem called_append (first second : List Event) :
    called (first ++ second) = called first ++ called second :=
  List.filterMap_append

/-- A node that is forced is called on. -/
theorem mem_called_trace (h : i < f.size) (before : Values) :
    i ∈ called (f.trace env before i h).events := by
  rw [trace]
  exact List.mem_cons_self

/-- **A node that has no value** is called on, and then what its children call on. -/
theorem called_trace (env : Environment) (h : i < f.size) {before : Values}
    (unknown : before.get? i = none) :
    called (f.trace env before i h).events
      = i :: called (f.traceChildren env before i h).events := by
  cases forced : (f.traceChildren env before i h).outcome with
  | error fault =>
    rw [trace_of_failed h unknown forced]
    rfl
  | ok middle =>
    cases value : f.calculate env middle i h with
    | error fault =>
      rw [trace_of_fault h unknown forced value]
      simp [called]
    | ok v =>
      rw [trace_of_value h unknown forced value]
      simp [called]

/-- **Where all children are forced, all are called on.** -/
theorem called_of_all {n : Nat} {child : Values → Fin n → Traced Values}
    (own : ∀ (values : Values) (c : Fin n), c.val ∈ called (child values c).events)
    (nodes : List (Fin n)) : ∀ {before after : Values},
      ((Plan.all nodes).run child before).outcome = .ok after →
        ∀ c ∈ nodes, c.val ∈ called ((Plan.all nodes).run child before).events := by
  induction nodes with
  | nil => exact fun _ => List.forall_mem_nil _
  | cons first rest ih =>
    intro before after forced
    rw [Plan.all, Plan.run] at forced ⊢
    rw [Traced.outcome_bind] at forced
    obtain ⟨middle, atFirst, atRest⟩ := bind_eq_ok forced
    rw [Traced.bind_of_ok atFirst, called_append]
    refine List.forall_mem_cons.mpr ⟨List.mem_append_left _ (own before first), ?_⟩
    exact fun c member => List.mem_append_right _ (ih atRest c member)

/-! ## 3. Two runs

Two runs are compared event by event, from tables with the same slots.  Whether a child is forced is
decided by its plan, and a plan depends on values that are the same on both sides; so the runs make
the same calls, and whatever is alike at these calls is all that is needed. -/

/-- A node is the same in two forests. -/
def SameNode (f g : Forest) (i : Nat) : Prop :=
  ∃ (h : i < f.size) (h' : i < g.size), g.node i h' = f.node i h

/-- **What has to be the same where a node is called on**: the node itself, the operator of a
connective, the value of a variable, and the method under the name of a call. -/
structure AlikeAt (f g : Forest) (env env' : Environment) (i : Nat) (h : i < f.size) : Prop where
  node : f.SameNode g i
  operator : (f.node i h).kind = .conjunction ∨ (f.node i h).kind = .disjunction →
    ∀ left operator right : Fin i, f.childrenOf i h = [left, operator, right] →
      f.SameNode g operator.val
  binding : (f.node i h).kind = .reference →
    (env'.bindings.get? (f.node i h).text).getD .null
      = (env.bindings.get? (f.node i h).text).getD .null
  method : (f.node i h).kind = .call →
    ∀ (name : Fin i) (arguments : List (Fin i)), f.childrenOf i h = name :: arguments →
      (f.node name.val (f.child_lt name h)).kind = .symbol →
        env'.methods.get? (f.node name.val (f.child_lt name h)).text
          = env.methods.get? (f.node name.val (f.child_lt name h)).text

/-- Two tables with the same slots. -/
structure SameSlots (f g : Forest) (values values' : Values) : Prop where
  size_eq : values.size = f.size
  size_eq' : values'.size = g.size
  get?_eq : ∀ i, values'.get? i = values.get? i

/-- **Two outcomes that do not differ**: tables with the same slots, or one fault. -/
inductive EndAlike (f g : Forest) : Except Fault Values → Except Fault Values → Prop
  | ok {values values' : Values} (same : SameSlots f g values values') :
    EndAlike f g (.ok values) (.ok values')
  | error (fault : Fault) : EndAlike f g (.error fault) (.error fault)

theorem sameSlots_start (f g : Forest) : SameSlots f g (.start f.size) (.start g.size) where
  size_eq := by simp [Values.start]
  size_eq' := by simp [Values.start]
  get?_eq := fun i => by rw [Values.get?_start, Values.get?_start]

theorem SameSlots.fill {values values' : Values} (same : SameSlots f g values values')
    (h : i < f.size) (h' : i < g.size) (v : Value) :
    SameSlots f g (values.fill i v) (values'.fill i v) where
  size_eq := by rw [Values.size_fill, same.size_eq]
  size_eq' := by rw [Values.size_fill, same.size_eq']
  get?_eq := fun j => by
    have inside : i < values.size := by rw [same.size_eq]; exact h
    have inside' : i < values'.size := by rw [same.size_eq']; exact h'
    rw [Values.get?_fill _ inside, Values.get?_fill _ inside', same.get?_eq]

/-! ### Operands -/

variable {values values' : Values}

theorem sameValue_operand (same : SameSlots f g values values') (h : i < f.size) (h' : i < g.size) :
    SameValue (f.operand values i h) (g.operand values' i h') where
  index_eq := rfl
  value_eq := same.get?_eq i

theorem operand_eq (same : SameSlots f g values values') (node : f.SameNode g i) (h : i < f.size)
    (h' : i < g.size) : g.operand values' i h' = f.operand values i h := by
  obtain ⟨_, _, node⟩ := node
  rw [operand, operand, node, same.get?_eq]

theorem plan_eq (h : i < f.size) (h' : i < g.size) (node : g.node i h' = f.node i h) :
    g.plan i h' = f.plan i h := by
  rw [plan, plan, node, childrenOf_eq h h' node]

/-- **The rule of a node has the same outcome in both tables**, if it selects among its children, or
if all of them are the same. -/
theorem calculate_alike (policy : env'.policy = env.policy) (same : SameSlots f g values values')
    (h : i < f.size) (h' : i < g.size) (node : g.node i h' = f.node i h)
    (alike : AlikeAt f g env env' i h)
    (children : ∀ nodes, f.plan i h = .all nodes → ∀ c ∈ nodes, f.SameNode g c.val) :
    g.calculate env' values' i h' = f.calculate env values i h := by
  have value : ∀ c : Fin i, SameValue (f.operand values c.val (f.child_lt c h))
      (g.operand values' c.val (g.child_lt c h')) := fun c => sameValue_operand same _ _
  have connective : (f.node i h).kind = .conjunction ∨ (f.node i h).kind = .disjunction →
      ∀ left operator right : Fin i, f.childrenOf i h = [left, operator, right] →
        g.operand values' operator.val (g.child_lt operator h')
          = f.operand values operator.val (f.child_lt operator h) :=
    fun kind left operator right three =>
      operand_eq same (alike.operator kind left operator right three) _ _
  rw [calculate, calculate, operands, operands, node, childrenOf_eq h h' node]
  rcases demand_cases (f.node i h).kind (f.childrenOf i h) with
    ⟨condition, consequent, alternative, kind, three, -⟩ | ⟨left, operator, right, kind, three, -⟩ |
    ⟨left, operator, right, kind, three, -⟩ | ⟨-, demand⟩
  · rw [kind, three]
    exact choice_eq_of_values (value condition) (value consequent) (value alternative)
  · have sign := connective (.inl kind) left operator right three
    rw [kind, three, List.map_cons, List.map_cons, sign]
    exact connective_eq_of_values (value left) (value right)
  · have sign := connective (.inr kind) left operator right three
    rw [kind, three, List.map_cons, List.map_cons, sign]
    exact connective_eq_of_values (value left) (value right)
  · have each := children (f.childrenOf i h) (by rw [plan, demand]; rfl)
    have operands : (f.childrenOf i h).map (fun c => g.operand values' c.val (g.child_lt c h'))
        = (f.childrenOf i h).map fun c => f.operand values c.val (f.child_lt c h) :=
      List.map_congr_left fun c member => operand_eq same (each c member) _ _
    rw [operands]
    refine rule_eq_of_environment policy alike.binding fun kind name arguments given symbol => ?_
    cases list : f.childrenOf i h with
    | nil => rw [list] at given; cases given
    | cons first rest =>
      rw [list] at given
      cases given
      exact alike.method kind first rest list symbol

/-! ### Plans and nodes -/

/-- **A plan that is carried out in two forests** makes the same calls, if forcing a child ends
alike in both.  The tables hold the same in both, slot by slot, so the plan goes on in the same way.
-/
theorem run_alike {n : Nat} {child : Values → Fin n → Traced Values}
    {child' : Values → Fin n → Except Fault Values} (alike : Nat → Prop)
    (each : ∀ (values values' : Values) (c : Fin n), SameSlots f g values values' →
      (∀ j ∈ called (child values c).events, alike j) →
        EndAlike f g (child values c).outcome (child' values' c))
    (plan : Plan n) : ∀ values values' : Values, SameSlots f g values values' →
      (∀ j ∈ called (plan.run child values).events, alike j) →
        EndAlike f g (plan.run child values).outcome (plan.run child' values') := by
  induction plan with
  | done => exact fun values values' same _ => .ok same
  | force c next ih =>
    intro values values' same within
    rw [Plan.run] at within ⊢
    rw [Plan.run]
    have first : ∀ j ∈ called (child values c).events, alike j := by
      intro j member
      refine within j ?_
      cases forced : (child values c).outcome with
      | error fault =>
        rw [Traced.bind_of_error forced]
        exact member
      | ok middle =>
        rw [Traced.bind_of_ok forced, called_append]
        exact List.mem_append_left _ member
    have ends := each values values' c same first
    generalize other : child' values' c = outcome' at ends
    generalize forced : (child values c).outcome = outcome at ends
    cases ends with
    | error fault =>
      rw [Traced.bind_of_error forced]
      exact .error fault
    | @ok middle middle' same =>
      rw [Traced.bind_of_ok forced] at within ⊢
      rw [called_append] at within
      rw [ok_bind, same.get?_eq]
      exact ih _ middle middle' same fun j member => within j (List.mem_append_right _ member)

/-- **Forcing a node ends alike** in two forests that are alike at the nodes that are called on.  By
induction on the index.  The node itself was called on, so it is alike in both; its children end
alike, and then its rule reads the same table. -/
theorem trace_alike (policy : env'.policy = env.policy) (i : Nat) (h : i < f.size) :
    ∀ values values' : Values, SameSlots f g values values' →
      (∀ j ∈ called (f.trace env values i h).events, ∀ h : j < f.size, AlikeAt f g env env' j h) →
        ∃ h' : i < g.size,
          EndAlike f g (f.trace env values i h).outcome (g.force env' values' i h') := by
  induction i using Nat.strongRecOn with
  | ind i ih =>
    intro values values' same within
    have alike := within i (mem_called_trace h values) h
    obtain ⟨_, h', node⟩ := alike.node
    refine ⟨h', ?_⟩
    cases known : values.get? i with
    | some v =>
      rw [trace_of_known h known, force_of_known h' (same.get?_eq i ▸ known)]
      exact .ok same
    | none =>
      rw [called_trace env h known] at within
      have children : EndAlike f g (f.traceChildren env values i h).outcome
          (g.forceDemanded env' values' i h') := by
        rw [traceChildren, forceDemanded_eq_run, plan_eq h h' node]
        refine run_alike _ (fun values values' c same within => ?_) (f.plan i h) values values' same
          fun j member => within j (List.mem_cons_of_mem i member)
        exact (ih c.val c.isLt (f.child_lt c h) values values' same within).2
      rw [force_of_unknown h' (same.get?_eq i ▸ known)]
      generalize other : g.forceDemanded env' values' i h' = outcome' at children
      generalize forced : (f.traceChildren env values i h).outcome = outcome at children
      cases children with
      | error fault =>
        rw [trace_of_failed h known forced]
        exact .error fault
      | @ok middle middle' same =>
        have all : ∀ nodes, f.plan i h = .all nodes → ∀ c ∈ nodes, f.SameNode g c.val := by
          intro nodes plan c member
          have calls : c.val ∈ called (f.traceChildren env values i h).events := by
            rw [traceChildren, plan] at forced ⊢
            exact called_of_all (fun values c => mem_called_trace _ values) nodes forced c member
          exact (within c.val (List.mem_cons_of_mem i calls) (f.child_lt c h)).node
        have value := calculate_alike policy same h h' node alike all
        rw [ok_bind, enter, value, node]
        cases outcome : f.calculate env middle i h with
        | error fault =>
          rw [trace_of_fault h known forced outcome]
          exact .error _
        | ok v =>
          rw [trace_of_value h known forced outcome]
          exact .ok (same.fill h h' v)

/-! ### Whole forests -/

/-- A node is forced if it is there. -/
def force? (f : Forest) (env : Environment) (values : Values) (i : Nat) : Except Fault Values :=
  if h : i < f.size then f.force env values i h else .error (.ofShape (.foreignNode i))

/-- The roots of a forest, forced by the roots of another one. -/
theorem forceRoots_eq_run (roots : g.roots = f.roots) :
    g.forceRoots env = (Plan.all f.rootNodes).run (fun values r => g.force? env values r.val)
      (.start g.size) := by
  have indexes : g.rootNodes.map Fin.val = f.rootNodes.map Fin.val := by
    rw [rootNodes_val, rootNodes_val, roots]
  have own : g.forceRoots env = (g.rootNodes.map Fin.val).foldlM (g.force? env)
      (.start g.size) := by
    rw [forceRoots, List.foldlM_map]
    congr 1
    funext values r
    rw [force?, dif_pos r.isLt]
  rw [own, indexes, List.foldlM_map, run_all]

/-- **The roots end alike.** -/
theorem forceRoots_alike (policy : env'.policy = env.policy) (roots : g.roots = f.roots)
    (alike : ∀ (i : Nat) (h : i < f.size), i ∈ f.forced env → AlikeAt f g env env' i h) :
    EndAlike f g (f.traceRoots env).outcome (g.forceRoots env') := by
  rw [forceRoots_eq_run roots, traceRoots]
  refine run_alike (fun j => ∀ h : j < f.size, AlikeAt f g env env' j h) ?_ _ _ _
    (sameSlots_start f g) fun j member h => alike j h member
  intro values values' r same within
  obtain ⟨inside, ends⟩ := trace_alike policy r.val r.isLt values values' same within
  rw [force?, dif_pos inside]
  exact ends

theorem operands_eq_of_indexes (same : SameSlots f g values values') {nodes : List (Fin f.size)} :
    ∀ {nodes' : List (Fin g.size)}, nodes'.map Fin.val = nodes.map Fin.val →
      (∀ r ∈ nodes, f.SameNode g r.val) →
        (nodes'.map fun r => g.operand values' r.val r.isLt)
          = nodes.map fun r => f.operand values r.val r.isLt := by
  induction nodes with
  | nil =>
    intro nodes' indexes _
    obtain rfl := List.map_eq_nil_iff.mp indexes
    rfl
  | cons r rest ih =>
    intro nodes' indexes each
    obtain ⟨⟨r', inside⟩, rest', rfl, rfl, more⟩ := List.map_eq_cons_iff.mp indexes
    obtain ⟨here, later⟩ := List.forall_mem_cons.mp each
    rw [List.map_cons, List.map_cons, ih more later, operand_eq same here r.isLt inside]

/-- **Where the roots are forced, their operands are the same.** -/
theorem rootOperands_alike (roots : g.roots = f.roots)
    (alike : ∀ (i : Nat) (h : i < f.size), i ∈ f.forced env → AlikeAt f g env env' i h)
    (same : SameSlots f g values values') (forced : (f.traceRoots env).outcome = .ok values) :
    g.rootOperands values' = f.rootOperands values := by
  have indexes : g.rootNodes.map Fin.val = f.rootNodes.map Fin.val := by
    rw [rootNodes_val, rootNodes_val, roots]
  refine operands_eq_of_indexes same indexes fun r member => ?_
  have calls := called_of_all (fun values r => mem_called_trace _ values) f.rootNodes
    forced r member
  exact (alike r.val r.isLt calls).node

/-! ## 4. Which nodes are called on

The list of calls comes from a run, so a condition on it is hard to check beforehand.  `Taken` is an
upper bound that needs no run: it goes from a node to those of its children that its kind takes,
given which values there are. -/

end Forest

/-- **The children that a demand takes**, where `holds` tells which values children have. -/
def Demand.Takes {i : Nat} (holds : Fin i → Value → Prop) : Demand i → Fin i → Prop
  | .all children, c => c ∈ children
  | .choice condition consequent alternative, c =>
    c = condition ∨ c = consequent ∧ holds condition (.bool true) ∨
      c = alternative ∧ holds condition (.bool false)
  | .gate left right passing, c => c = left ∨ c = right ∧ holds left (.bool passing)

/-- A demand takes none but the children that it is made of. -/
theorem Demand.mem_of_takes {i : Nat} {kind : Kind} {children : List (Fin i)}
    {holds : Fin i → Value → Prop} {c : Fin i} (takes : (Demand.of kind children).Takes holds c) :
    c ∈ children := by
  rw [Demand.of.eq_def] at takes
  split at takes
  · rcases takes with rfl | ⟨rfl, -⟩ | ⟨rfl, -⟩ <;> simp
  · rcases takes with rfl | ⟨rfl, -⟩ <;> simp
  · rcases takes with rfl | ⟨rfl, -⟩ <;> simp
  · exact takes

namespace Plan

variable {i : Nat} {holds : Fin i → Value → Prop} {inside : Fin i → Prop}

/-- What a plan forces is `inside`, as long as what was forced has a value that it `holds`. -/
def Within (holds : Fin i → Value → Prop) (inside : Fin i → Prop) : Plan i → Prop
  | .done => True
  | .force c next => inside c ∧ ∀ v, holds c v → (next (some v)).Within holds inside

theorem within_only {c : Fin i} (h : inside c) : (only c).Within holds inside :=
  ⟨h, fun _ _ => trivial⟩

theorem within_all {children : List (Fin i)} (each : ∀ c ∈ children, inside c) :
    (all children).Within holds inside := by
  induction children with
  | nil => trivial
  | cons c rest ih =>
    obtain ⟨here, later⟩ := List.forall_mem_cons.mp each
    exact ⟨here, fun _ _ => ih later⟩

/-- **The plan of a demand forces what the demand takes.**  Behind a condition the plan goes on only
as the value that was found says. -/
theorem within_of {demand : Demand i} (each : ∀ c, demand.Takes holds c → inside c) :
    (Plan.of demand).Within holds inside := by
  cases demand with
  | all children => exact within_all each
  | choice condition consequent alternative =>
    refine ⟨each condition (.inl rfl), ?_⟩
    intro v value
    simp only [Option.some.injEq]
    split
    · rename_i yes
      exact within_only (each consequent (.inr (.inl ⟨rfl, yes ▸ value⟩)))
    split
    · rename_i no
      exact within_only (each alternative (.inr (.inr ⟨rfl, no ▸ value⟩)))
    · trivial
  | gate left right passing =>
    refine ⟨each left (.inl rfl), ?_⟩
    intro v value
    simp only [Option.some.injEq]
    split
    · rename_i passes
      exact within_only (each right (.inr ⟨rfl, passes ▸ value⟩))
    · trivial

end Plan

namespace Forest

variable {f : Forest} {env : Environment}

/-- **The nodes that evaluation comes to**: the roots, and below a node that it comes to the
children that the kind of the node takes.  Of the branches of a conditional this is at most the one
that the condition chooses, and what stands right of an operand that decides is not among them. -/
inductive Taken (f : Forest) (env : Environment) : Nat → Prop
  | root {r : Nat} (member : r ∈ f.roots) : Taken f env r
  | child {i : Nat} (h : i < f.size) {c : Fin i} (parent : Taken f env i)
    (takes : (Demand.of (f.node i h).kind (f.childrenOf i h)).Takes
      (fun c v => (f.unfold c.val (f.child_lt c h)).evaluate env = .ok v) c) : Taken f env c.val

/-- **What evaluation comes to is reachable**: a demand takes children of its node. -/
theorem Taken.reachable {i : Nat} (taken : f.Taken env i) : f.Reachable i := by
  induction taken with
  | root member => exact .root member
  | @child i h c _ takes ih =>
    refine .child ih h ?_
    have among := Demand.mem_of_takes takes
    obtain ⟨child, -, rfl⟩ := List.mem_map.mp among
    exact child.property

/-- **Carrying out a plan** calls on what is allowed, if each child that the plan forces does.  By
induction on the plan, with the table as it is behind each child. -/
theorem called_run {n : Nat} {child : Values → Fin n → Traced Values}
    {holds : Fin n → Value → Prop} {inside : Fin n → Prop} {allowed : Nat → Prop}
    (each : ∀ (values : Values) (c : Fin n), Agrees f env values → inside c →
      ∀ j ∈ called (child values c).events, allowed j)
    (keeps : ∀ (values after : Values) (c : Fin n), Agrees f env values →
      (child values c).outcome = .ok after →
        Agrees f env after ∧ ∃ v, after.get? c.val = some v ∧ holds c v)
    (plan : Plan n) : ∀ before : Values, plan.Within holds inside → Agrees f env before →
      ∀ j ∈ called (plan.run child before).events, allowed j := by
  induction plan with
  | done =>
    intro before _ _ j member
    cases member
  | force c next ih =>
    intro before within agrees j member
    obtain ⟨here, later⟩ := within
    rw [Plan.run] at member
    cases forced : (child before c).outcome with
    | error fault =>
      rw [Traced.bind_of_error forced] at member
      exact each before c agrees here j member
    | ok after =>
      obtain ⟨agreesAfter, v, known, value⟩ := keeps before after c agrees forced
      rw [Traced.bind_of_ok forced, called_append, known] at member
      rcases List.mem_append.mp member with first | rest
      · exact each before c agrees here j first
      · exact ih (some v) after (later v value) agreesAfter j rest

/-- **Forcing a node that evaluation comes to** calls on no others.  By induction on the index: a
node that is known calls on itself alone, and any other on the children that its plan forces. -/
theorem taken_of_called (i : Nat) (h : i < f.size) : ∀ before : Values, Agrees f env before →
    f.Taken env i → ∀ j ∈ called (f.trace env before i h).events, f.Taken env j := by
  induction i using Nat.strongRecOn with
  | ind i ih =>
    intro before agrees taken j member
    cases known : before.get? i with
    | some v =>
      rw [trace_of_known h known] at member
      obtain rfl : j = i := List.mem_singleton.mp member
      exact taken
    | none =>
      rw [called_trace env h known] at member
      rcases List.mem_cons.mp member with rfl | below
      · exact taken
      · refine called_run (fun values c agrees inside => ?_)
          (fun values after c agrees forced => ?_)
          (f.plan i h) before (Plan.within_of fun c takes => Taken.child h taken takes)
          agrees j below
        · exact ih c.val c.isLt (f.child_lt c h) values agrees inside
        · exact agrees_of_outcome_trace (f.child_lt c h) agrees forced

/-- **A run calls on nodes only that evaluation comes to.** -/
theorem taken_of_forced {i : Nat} (member : i ∈ f.forced env) : f.Taken env i := by
  have within : (Plan.all f.rootNodes).Within
      (fun r v => (f.unfold r.val r.isLt).evaluate env = .ok v) fun r => f.Taken env r.val := by
    refine Plan.within_all fun r among => Taken.root ?_
    have index : r.val ∈ f.rootNodes.map Fin.val := List.mem_map_of_mem among
    rw [rootNodes_val, Array.mem_toList_iff] at index
    exact index
  refine called_run (fun values r agrees inside => ?_) (fun values after r agrees forced => ?_)
    (.all f.rootNodes) (.start f.size) within (agrees_start f env) i member
  · exact taken_of_called r.val r.isLt values agrees inside
  · exact agrees_of_outcome_trace r.isLt agrees forced

/-! ## 5. What is left alone has no influence

The two parts together: alike where the one run calls, hence the same outcome, and what is called on
is among what evaluation comes to.  In the example the untaken branch fails, and methods differ. -/

variable {g : Forest} {env' : Environment}

/-- **Where two forests are alike at what the one run calls on, the other run has its outcome.** -/
theorem run_eq_of_alike (policy : env'.policy = env.policy) (roots : g.roots = f.roots)
    (title : g.title = f.title)
    (alike : ∀ (i : Nat) (h : i < f.size), i ∈ f.forced env → AlikeAt f g env env' i h) :
    g.run env' = f.run env := by
  have ends := forceRoots_alike policy roots alike
  rw [run, run, title, policy, ← outcome_traceRoots f env]
  generalize other : g.forceRoots env' = outcome' at ends
  generalize forced : (f.traceRoots env).outcome = outcome at ends
  cases ends with
  | error fault => rfl
  | ok same => rw [ok_bind, ok_bind, rootOperands_alike roots alike same forced]

/-- **What a run leaves alone has no influence.**  A run calls on certain nodes of a collapsed
forest, and evaluation comes to all of these.  In any other collapsed forest with the same roots and
the same source, and in any other environment with the same policy, the outcome is the same, if
nothing differs where the run calls on a node.  What stands in an untaken branch, or right of an
operand that decides, may be anything. -/
theorem evaluate_eq_of_alike (env : Environment) (collapsed : f.collapsed = true)
    (named : f.source ≠ "") :
    (f.traceRoots env).outcome = f.forceRoots env ∧
      (∀ i ∈ f.forced env, f.Taken env i) ∧
      ∀ (g : Forest) (env' : Environment), g.collapsed = true → g.roots = f.roots →
        g.source = f.source → env'.policy = env.policy →
        (∀ (i : Nat) (h : i < f.size), i ∈ f.forced env → AlikeAt f g env env' i h) →
          g.evaluate env' = f.evaluate env := by
  refine ⟨outcome_traceRoots f env, fun i member => taken_of_forced member, ?_⟩
  intro g env' collapsed' roots source policy alike
  have title : g.title = f.title := by
    rw [title_of_source named, title_of_source (by rwa [source]), source]
  rw [evaluate, evaluate, collapse_of_collapsed collapsed, collapse_of_collapsed collapsed']
  exact run_eq_of_alike policy roots title alike

/-- A choice that `x` makes between a number and some leaf, in collapsed form. -/
def choiceOf (kind : Kind) (slice : String) : Forest where
  nodes := #[⟨.reference, "x", []⟩, ⟨.number, "1", []⟩, ⟨kind, slice, []⟩,
    ⟨.conditional, "x ? 1 : 2", [0, 1, 2]⟩]
  roots := #[3]
  collapsed := true
  source := "x ? 1 : 2"
  children_lt := by
    intro i h c member
    have four : i = 0 ∨ i = 1 ∨ i = 2 ∨ i = 3 := by simp at h; omega
    rcases four with rfl | rfl | rfl | rfl <;> simp at member
    omega
  roots_lt := by simp

/-- Where `x` is true, a leaf that fails is of no account, and neither are methods. -/
theorem evaluate_eq_of_alike_choice : ∃ env env' : Environment,
    env'.methods.get? "min" = none ∧ (choiceOf .number "2").forced env = [3, 0, 1] ∧
      (choiceOf .number "two").evaluate env' = (choiceOf .number "2").evaluate env := by
  let env : Environment := ⟨.set .empty "x" (.bool true), .standard, .builtin⟩
  let env' : Environment := ⟨.set (.set .empty "y" .null) "x" (.bool true), .standard, .empty⟩
  have calls : (choiceOf .number "2").forced env = [3, 0, 1] := by cbv
  obtain ⟨-, -, same⟩ := evaluate_eq_of_alike (f := choiceOf .number "2") env rfl (by decide)
  refine ⟨env, env', rfl, calls, same _ env' rfl rfl rfl rfl ?_⟩
  intro i h member
  rw [calls] at member
  simp only [List.mem_cons, List.not_mem_nil, or_false] at member
  rcases member with rfl | rfl | rfl
  all_goals
    constructor
    · exact ⟨h, h, rfl⟩
    · intro kind
      rcases kind with kind | kind <;> cases kind
    · intro _
      rfl
    · intro kind
      cases kind

end Forest
end DecimalExpression
