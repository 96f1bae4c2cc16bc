import DecimalExpression.Proofs.Expression.Canonical
import DecimalExpression.Proofs.Outcomes
import Mathlib.Data.List.Induction

/-!
# Histories of forests

A program holds any number of forests at once: it makes empty ones, adds nodes and roots, names
sources, copies forests, takes over parse trees and collapses.  The indexes it uses are its own
affair; nothing ties an index to the forest that gave it back.

Whatever is done, in whatever order, every forest it holds is well formed
(`History.run_wellFormed`): children stand before their parents, roots are nodes, and a forest that
is marked as collapsed is in the canonical form, so that collapsing a copy without the mark changes
nothing.  The invariant is `Forest.Built`: one operation keeps it (`built_step`), so a history does
(`built_run`).  A node or a root is refused exactly for an index that is not there
(`addNode_refused_iff`, `pushRoot_refused_iff`).

Nodes and roots are added in place, and a change that ends in a fault leaves what it has written
until then.  That a refused operation changes no forest (`step_refused`) is because both changes
look at the indexes before they write anything (`addNode_checksFirst`, `pushRoot_checksFirst`).
-/

namespace DecimalExpression

/-! ## 1. Forests -/

namespace Forest

variable {f g : Forest}

/-- **A change that ended in a fault.** -/
def Edit.Refused {α : Type} (edit : Edit α) (f : Forest) : Prop :=
  ∃ fault g, edit.run f = .error fault g

/-- **A node is refused exactly if one of its children is not in the forest.** -/
theorem addNode_refused_iff (kind : Kind) (text : String) (children : List Nat) :
    (addNode kind text children).Refused f ↔ ∃ c ∈ children, f.size ≤ c := by
  rcases f.run_addNode_cases kind text children with ⟨inside, added⟩
    | ⟨child, member, outside, refused⟩
  · refine iff_of_false ?_ ?_
    · rintro ⟨fault, g, failed⟩
      cases added.symm.trans failed
    · rintro ⟨c, member, outside⟩
      exact absurd (inside c member) (Nat.not_lt.mpr outside)
  · exact iff_of_true ⟨_, _, refused⟩ ⟨child, member, outside⟩

/-- **A root is refused exactly if it is no node of the forest.** -/
theorem pushRoot_refused_iff (node : Nat) : (pushRoot node).Refused f ↔ f.size ≤ node := by
  rcases f.run_pushRoot_cases node with ⟨inside, added⟩ | ⟨outside, refused⟩
  · refine iff_of_false ?_ (Nat.not_le.mpr inside)
    rintro ⟨fault, g, failed⟩
    cases added.symm.trans failed
  · exact iff_of_true ⟨_, _, refused⟩ outside

/-- **A change that writes nothing before it is refused.** -/
def Edit.ChecksFirst {α : Type} (edit : Edit α) : Prop :=
  ∀ f fault g, edit.run f = .error fault g → g = f

theorem addNode_checksFirst (kind : Kind) (text : String) (children : List Nat) :
    (addNode kind text children).ChecksFirst := by
  intro f fault g failed
  rcases f.run_addNode_cases kind text children with ⟨_, added⟩ | ⟨_, -, -, refused⟩
  · cases added.symm.trans failed
  · cases refused.symm.trans failed
    rfl

theorem pushRoot_checksFirst (node : Nat) : (pushRoot node).ChecksFirst := by
  intro f fault g failed
  rcases f.run_pushRoot_cases node with ⟨_, added⟩ | ⟨-, refused⟩
  · cases added.symm.trans failed
  · cases refused.symm.trans failed
    rfl

/-- **A well-formed forest**: children stand before their parents, roots are nodes, and if it is
marked as collapsed, it is canonical and every copy without the mark collapses to an equal
forest. -/
structure IsWellFormed (f : Forest) : Prop where
  children_lt : ∀ (i : Nat) (h : i < f.size), ∀ c ∈ (f.node i h).children, c < i
  roots_lt : ∀ r ∈ f.roots, r < f.size
  canonical : f.collapsed = true → f.IsCanonical
  same_collapse : f.collapsed = true → ∀ copy : Forest, copy.collapsed = false →
    copy.same f = true → copy.collapse.same f = true

theorem Built.isWellFormed (built : Built f) : f.IsWellFormed where
  children_lt := f.children_lt
  roots_lt := f.roots_lt
  canonical := built.isCanonical
  same_collapse := fun marked _ unmarked copy =>
    (built.isCanonical marked).same_collapse unmarked copy

end Forest

namespace History

open Forest

/-! ## 2. Operations

Forests are held in a row and named by their places, so that a history can go back and forth between
them, and copies can grow apart. -/

/-- **What a program does with its forests**, which it names by their places in a row. -/
inductive Operation
  | new
  | addNode (target : Nat) (kind : Kind) (text : String) (children : List Nat)
  | addLeaf (target : Nat) (kind : Kind) (text : String)
  | pushRoot (target node : Nat)
  | setSource (target : Nat) (source : String)
  | clone (origin : Nat)
  | translate (tree : ParseTree)
  | collapse (origin : Nat)

/-- The forest at a place is changed in place; what a change leaves stands there, whether the change
ended in a fault or not.  Where no forest stands there is nothing to change. -/
def changeAt {α : Type} (forests : List Forest) (target : Nat) (edit : Edit α) :
    Option ShapeFault × List Forest :=
  match forests[target]? with
  | none => (none, forests)
  | some f =>
    match edit.run f with
    | .ok _ g => (none, forests.set target g)
    | .error fault g => (some fault, forests.set target g)

/-- **One operation**: why it was refused, if it was, and the forests there are afterwards.  A
forest that is made stands behind the others. -/
def step (forests : List Forest) : Operation → Option ShapeFault × List Forest
  | .new => (none, forests ++ [empty])
  | .addNode target kind text children => changeAt forests target (addNode kind text children)
  | .addLeaf target kind text => changeAt forests target (addNode kind text [])
  | .pushRoot target node => changeAt forests target (pushRoot node)
  | .setSource target source => changeAt forests target (modify fun f => f.setSource source)
  | .clone origin => (none, forests ++ forests[origin]?.toList)
  | .translate tree =>
    match ofTree tree with
    | .ok f => (none, forests ++ [f])
    | .error fault => (some fault, forests)
  | .collapse origin => (none, forests ++ (forests[origin]?.map Forest.collapse).toList)

/-- **The forests after a history**, from none at all.  What is refused is passed over. -/
def run (operations : List Operation) : List Forest :=
  operations.foldl (fun forests operation => (step forests operation).2) []

variable {forests : List Forest} {f : Forest}

/-! ## 3. What is refused

A change may have written something before it is refused.  That these do not is a property of each
of the two that can be refused, and the row of forests is unchanged because the one forest is. -/

/-- A change that checks first leaves all forests as they are where it is refused. -/
theorem changeAt_refused {α : Type} {target : Nat} {edit : Edit α} (checksFirst : edit.ChecksFirst)
    (refused : (changeAt forests target edit).1.isSome = true) :
    (changeAt forests target edit).2 = forests := by
  rw [changeAt] at refused ⊢
  cases there : forests[target]? with
  | none => rfl
  | some f =>
    rw [there] at refused
    dsimp only at refused ⊢
    cases outcome : edit.run f with
    | ok _ g => rw [outcome] at refused; cases refused
    | error fault g =>
      obtain rfl := checksFirst f fault g outcome
      obtain ⟨inside, rfl⟩ := List.getElem?_eq_some_iff.mp there
      exact List.set_getElem_self inside

/-- A change of a forest that is there is refused exactly if it is refused of the forest. -/
theorem isSome_changeAt_iff {α : Type} {target : Nat} (there : forests[target]? = some f)
    (edit : Edit α) : (changeAt forests target edit).1.isSome = true ↔ edit.Refused f := by
  rw [changeAt, there]
  dsimp only
  cases outcome : edit.run f with
  | ok _ g =>
    exact iff_of_false (by simp) (by rintro ⟨_, _, failed⟩; cases outcome.symm.trans failed)
  | error fault g => exact iff_of_true rfl ⟨fault, g, outcome⟩

/-- **An operation that is refused changes no forest**: what it checks, it checks first. -/
theorem step_refused {operation : Operation}
    (refused : (step forests operation).1.isSome = true) :
    (step forests operation).2 = forests := by
  cases operation with
  | new | clone | collapse => cases refused
  | addNode target kind text children =>
    exact changeAt_refused (addNode_checksFirst kind text children) refused
  | addLeaf target kind text => exact changeAt_refused (addNode_checksFirst kind text []) refused
  | pushRoot target node => exact changeAt_refused (pushRoot_checksFirst node) refused
  | setSource target source =>
    refine changeAt_refused ?_ refused
    rintro f fault g ⟨⟩
  | translate tree =>
    rw [step] at refused ⊢
    cases read : ofTree tree with
    | ok f => rw [read] at refused; cases refused
    | error fault => rfl

/-! ## 4. One operation

The step lemma of the invariant, operation by operation. -/

/-- A change that keeps one forest buildable keeps a row of such forests so.  A change that fails
leaves the forest as it was, since it checks before it writes. -/
theorem built_changeAt {α : Type} {target : Nat} {edit : Edit α} (checksFirst : edit.ChecksFirst)
    (built : ∀ f ∈ forests, Built f)
    (keeps : ∀ f a g, Built f → edit.run f = .ok a g → Built g) :
    ∀ f ∈ (changeAt forests target edit).2, Built f := by
  rw [changeAt]
  cases there : forests[target]? with
  | none => exact built
  | some f =>
    have old := built f (List.mem_of_getElem? there)
    intro other
    dsimp only
    cases outcome : edit.run f with
    | ok a g =>
      intro member
      rcases List.mem_or_eq_of_mem_set member with among | rfl
      · exact built other among
      · exact keeps f a _ old outcome
    | error fault g =>
      intro member
      obtain rfl := checksFirst f fault g outcome
      rcases List.mem_or_eq_of_mem_set member with among | rfl
      · exact built other among
      · exact old

/-- A forest that is made stands behind the others. -/
theorem built_append {made : List Forest} (built : ∀ f ∈ forests, Built f)
    (new : ∀ f ∈ made, Built f) : ∀ f ∈ forests ++ made, Built f :=
  List.forall_mem_append.mpr ⟨built, new⟩

/-- **One operation leaves only forests that can be built**, if there were no others before.  One
case for each operation: a change to a forest of the row, or one more forest, empty, cloned,
translated or collapsed. -/
theorem built_step (built : ∀ f ∈ forests, Built f) (operation : Operation) :
    ∀ f ∈ (step forests operation).2, Built f := by
  cases operation with
  | new => exact built_append built (by simpa using Built.empty)
  | addNode target kind text children =>
    exact built_changeAt (addNode_checksFirst kind text children) built fun f i g old => old.addNode
  | addLeaf target kind text =>
    exact built_changeAt (addNode_checksFirst kind text []) built fun f i g old => old.addNode
  | pushRoot target node =>
    exact built_changeAt (pushRoot_checksFirst node) built fun f _ g old => old.pushRoot
  | setSource target source =>
    refine built_changeAt ?_ built ?_
    · rintro f fault g ⟨⟩
    · rintro f _ _ old ⟨⟩
      exact old.setSource source
  | clone origin =>
    refine built_append built ?_
    intro f member
    exact built f (List.mem_of_getElem? (Option.mem_toList.mp member))
  | translate tree =>
    rw [step]
    cases read : ofTree tree with
    | ok f => exact built_append built (by simpa using Built.ofTree read)
    | error fault => exact built
  | collapse origin =>
    refine built_append built ?_
    intro f member
    obtain ⟨f, there, rfl⟩ := Option.map_eq_some_iff.mp (Option.mem_toList.mp member)
    exact (built f (List.mem_of_getElem? there)).collapse

/-! ## 5. Histories

And by induction on the history, from its end, what is reached is built.  What is claimed of every
history follows from the invariant and from the two exact conditions for a refusal. -/

theorem run_append (operations : List Operation) (last : Operation) :
    run (operations ++ [last]) = (step (run operations) last).2 := by
  rw [run, List.foldl_append, List.foldl_cons, List.foldl_nil, run]

/-- **A history reaches only forests that can be built.** -/
theorem built_run (operations : List Operation) : ∀ f ∈ run operations, Built f := by
  induction operations using List.reverseRecOn with
  | nil => exact List.forall_mem_nil _
  | append_singleton operations last ih =>
    rw [run_append]
    exact built_step ih last

/-- **After every history all forests are well formed**, and an operation that is refused then
changes none of them.  A node is refused exactly if one of its children is not in its forest, and a
root exactly if it is no node there. -/
theorem run_wellFormed (operations : List Operation) :
    (∀ f ∈ run operations, f.IsWellFormed) ∧
    (∀ operation, (step (run operations) operation).1.isSome = true →
      (step (run operations) operation).2 = run operations) ∧
    (∀ (target : Nat) (f : Forest), (run operations)[target]? = some f →
      (∀ kind text children,
        (step (run operations) (.addNode target kind text children)).1.isSome = true ↔
          ∃ c ∈ children, f.size ≤ c) ∧
      (∀ node, (step (run operations) (.pushRoot target node)).1.isSome = true ↔
        f.size ≤ node)) := by
  refine ⟨fun f member => (built_run operations f member).isWellFormed,
    fun operation refused => step_refused refused, fun target f there => ⟨?_, ?_⟩⟩
  · intro kind text children
    rw [step, isSome_changeAt_iff there, addNode_refused_iff]
  · intro node
    rw [step, isSome_changeAt_iff there, pushRoot_refused_iff]

/-- A group around a number is made, with an index of no node tried on the way, collapsed, and
copied; the copy grows by a leaf. -/
def groupedHistory : List Operation :=
  [.new, .addLeaf 0 .number "1", .addNode 0 .group "(?)" [7], .addNode 0 .group "(1)" [0],
    .pushRoot 0 1, .pushRoot 0 2, .collapse 0, .clone 1, .addLeaf 2 .reference "x"]

/-- The second of the three forests that the history leaves is marked as collapsed.  It is
canonical, its unmarked copy collapses to an equal forest, and an index behind its last node is
refused as a root of it, which changes nothing. -/
theorem run_wellFormed_grouped :
    ∃ f, (run groupedHistory)[1]? = some f ∧ f.collapsed = true ∧ f.IsCanonical ∧
      f.unmark.collapse.same f = true ∧
      (step (run groupedHistory) (.pushRoot 1 f.size)).1.isSome = true ∧
      (step (run groupedHistory) (.pushRoot 1 f.size)).2 = run groupedHistory := by
  obtain ⟨f, there, marked⟩ : ∃ f, (run groupedHistory)[1]? = some f ∧ f.collapsed = true :=
    ⟨_, rfl, rfl⟩
  obtain ⟨wellFormed, unchanged, refused⟩ := run_wellFormed groupedHistory
  have kept := wellFormed f (List.mem_of_getElem? there)
  have foreign := ((refused 1 f there).2 f.size).mpr (Nat.le_refl _)
  exact ⟨f, there, marked, kept.canonical marked,
    kept.same_collapse marked f.unmark rfl (same_unmark f), foreign, unchanged _ foreign⟩

end History
end DecimalExpression
