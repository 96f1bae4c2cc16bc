import DecimalExpression.Evaluation.Rule
import DecimalExpression.Expression.Collapse

/-!
# Evaluation of forests

A forest is evaluated in its collapsed form.  The values computed so far stand in a table with a
slot for each node.  `force` fills the slot of a node: it first forces the children that the node's
kind demands, and then applies the kind's rule to the table.  What is demanded depends on values
already there: of a conditional only the branch that is chosen, and of `&&` and `||` the right
side only where the left one does not decide.  What is not demanded has no influence and cannot
fail.

A fault names the node whose own rule failed.  Several roots are a chain of their own, and a fault
of that chain names the source.

This is the evaluation driver (specification, section 4.6), with a side table of computed values as
in section 9: `evaluate_with`, which folds several roots, and `force`.  What section 4.4 says of
conditionals and of `&&` and `||` is in `Demand.of`.
-/

namespace DecimalExpression

/-! ## 1. The table of values -/

/-- **The values computed so far**, by index. -/
abbrev Values := Array (Option Value)

namespace Values

/-- The value of a node, if it is computed. -/
def get? (values : Values) (i : Nat) : Option Value := values.getD i none

/-- No values yet, for `n` nodes. -/
def start (n : Nat) : Values := Array.replicate n none

/-- The slot of a node is filled. -/
def fill (values : Values) (i : Nat) (value : Value) : Values :=
  values.setIfInBounds i (some value)

/-- Whether a node is computed and has this truth value. -/
def isTruth (values : Values) (i : Nat) (truth : Bool) : Bool :=
  values.get? i = some (.bool truth)

end Values

namespace Forest

/-- A node as an operand, with its value in the table. -/
def operand (f : Forest) (values : Values) (i : Nat) (h : i < f.size) : Operand :=
  ⟨i, (f.node i h).kind, (f.node i h).text, values.get? i⟩

/-- The children of a node as operands. -/
def operands (f : Forest) (values : Values) (i : Nat) (h : i < f.size) : List Operand :=
  (f.childrenOf i h).map fun (c : Fin i) => f.operand values c.val (f.child_lt c h)

/-- The roots as operands. -/
def rootOperands (f : Forest) (values : Values) : List Operand :=
  f.rootNodes.map fun (r : Fin f.size) => f.operand values r.val (f.root_lt r)

/-- **The value of a node** by the rule of its kind, from what is in the table. -/
def calculate (f : Forest) (env : Environment) (values : Values) (i : Nat) (h : i < f.size) :
    Except Fault Value :=
  rule env (f.node i h).kind (f.node i h).text (f.operands values i h)

/-- The value of a node that has to be in the forest. -/
def calculate? (f : Forest) (env : Environment) (values : Values) (i : Nat) :
    Except Fault Value :=
  if h : i < f.size then f.calculate env values i h else .error (.ofShape (.foreignNode i))

end Forest

/-! ## 2. Demand -/

/-- **What a node demands of its children** before its rule applies. -/
inductive Demand (i : Nat) where
  /-- all of them, from left to right -/
  | all (children : List (Fin i))
  /-- a condition, and then the branch that it chooses -/
  | choice (condition consequent alternative : Fin i)
  /-- a left side, and the right one only if the left one has the truth value that lets it
  through -/
  | gate (left right : Fin i) (passing : Bool)

/-- The demand of a kind; a kind with a number of children that has no rule demands them all. -/
def Demand.of {i : Nat} : Kind → List (Fin i) → Demand i
  | .conditional, [condition, consequent, alternative] =>
    .choice condition consequent alternative
  | .conjunction, [left, _, right] => .gate left right true
  | .disjunction, [left, _, right] => .gate left right false
  | _, children => .all children

/-- **A plan for the children of a node**: one is forced, and what is next depends on its value. -/
inductive Plan (i : Nat) where
  | done
  | force (c : Fin i) (next : Option Value → Plan i)

namespace Plan

variable {i : Nat}

/-- Some children, from left to right. -/
def all : List (Fin i) → Plan i
  | [] => .done
  | c :: rest => .force c fun _ => all rest

/-- One child, and no more. -/
def only (c : Fin i) : Plan i := .force c fun _ => .done

/-- **The plan of a demand.** -/
def of : Demand i → Plan i
  | .all children => all children
  | .choice condition consequent alternative => .force condition fun value =>
    if value = some (.bool true) then only consequent
    else if value = some (.bool false) then only alternative
    else .done
  | .gate left right passing => .force left fun value =>
    if value = some (.bool passing) then only right else .done

/-- A plan is carried out: each child is forced in turn, in the table so far. -/
def run {m : Type → Type} [Monad m] (child : Values → Fin i → m Values) : Plan i → Values → m Values
  | .done, values => pure values
  | .force c next, values => do
    let values ← child values c
    (next (values.get? c.val)).run child values

end Plan

namespace Forest

/-- The plan of a node. -/
def plan (f : Forest) (i : Nat) (h : i < f.size) : Plan i :=
  .of (Demand.of (f.node i h).kind (f.childrenOf i h))

/-! ## 3. Forcing -/

/-- **A node is forced**: what it demands is forced, and then its own value is entered.  A node
that has a value already is left alone. -/
def force (f : Forest) (env : Environment) (values : Values) (i : Nat) (h : i < f.size) :
    Except Fault Values :=
  match values.get? i with
  | some _ => .ok values
  | none => do
    let child := fun (values : Values) (c : Fin i) =>
      f.force env values c.val (f.child_lt c h)
    let values ← match Demand.of (f.node i h).kind (f.childrenOf i h) with
      | .all children => children.foldlM child values
      | .choice condition consequent alternative => do
        let values ← child values condition
        if values.isTruth condition true then child values consequent
        else if values.isTruth condition false then child values alternative
        else .ok values
      | .gate left right passing => do
        let values ← child values left
        if values.isTruth left passing then child values right else .ok values
    match f.calculate env values i h with
    | .ok value => .ok (values.fill i value)
    | .error fault => .error (fault.within (f.node i h).text)
termination_by i
decreasing_by all_goals exact c.isLt

/-- The roots are forced, from left to right. -/
def forceRoots (f : Forest) (env : Environment) : Except Fault Values :=
  f.rootNodes.foldlM (fun values (r : Fin f.size) => f.force env values r.val (f.root_lt r))
    (Values.start f.size)

/-- The name of the whole expression: its source, or its display where it has none. -/
def title (f : Forest) : String :=
  if f.source.isEmpty then f.display else f.source

/-- **The outcome of a forest as it stands**: the value of its only root, or the chain of its
several roots. -/
def run (f : Forest) (env : Environment) : Except Fault Value := do
  let values ← f.forceRoots env
  match f.rootOperands values with
  | [] => .error (.ofShape .nothingToEvaluate)
  | [only] => only.value
  | roots =>
    match Rule.chain env.policy roots with
    | .ok value => .ok value
    | .error fault => .error (fault.within f.title)

/-- **The outcome of a forest**, which is collapsed first unless it already is. -/
def evaluate (f : Forest) (env : Environment) : Except Fault Value :=
  f.collapse.run env

end Forest
end DecimalExpression
