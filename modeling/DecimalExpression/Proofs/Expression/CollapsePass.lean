import DecimalExpression.Expression.CollapsePass
import DecimalExpression.Proofs.Expression.Canonical

/-!
# The pass writes the collapsed forest

The pass that collapses a forest from index to index succeeds on every forest, and what it writes is
`Forest.collapse` (`Forest.collapsePass_eq`).  So sharing and layout have no influence on what it
writes (`Forest.collapsePass_congr`), although the pass never unfolds a node.

Two things carry the argument.  A node is written as its collapsed term is planted, in the same
order and behind the same nodes (`Edit.Writes`), by induction on its index.  And what was written
last unfolds to the term that was planted, so the kind that `addCollapsed` looks up is the one that
`Term.regroup` asks for.
-/

namespace DecimalExpression
namespace Forest

variable {f : Forest} {kind : Kind} {text : String}

/-! ## 1. Writing

The pass works on the forest it writes, so what is known of it are equations for its runs.  A node
is written behind its children, and the children are written one after another; if each of them
writes a term, the row plants all the terms, and the node behind them is the planted node.  The only
thing that is read back is the node that was written last, to see whether a group is needed around
it. -/

theorem Edit.run_bind {α β : Type} {edit : Edit α} {next : α → Edit β} {f g : Forest} {a : α}
    (run : edit.run f = .ok a g) : (edit >>= next).run f = (next a).run g := by
  have done : edit f = .ok a g := run
  show EStateM.bind edit next f = _
  rw [EStateM.bind, done]
  rfl

/-- **A change that writes a term**: it plants the term behind the nodes that are there, and gives
back the last index. -/
def Edit.Writes (edit : Edit Nat) (t : Term) : Prop :=
  ∀ f, edit.run f = .ok ((plant f t).val.size - 1) (plant f t).val

/-- **Changes that write terms**, one after another, plant all the terms. -/
theorem run_mapM {α : Type} {edit : α → Edit Nat} {term : α → Term} {as : List α}
    (each : ∀ a ∈ as, (edit a).Writes (term a)) (before : Planting f) :
    ∃ new, (as.mapM edit).run before.forest
        = .ok new (plantAll f before (as.map term)).forest ∧
      (plantAll f before (as.map term)).planted.toList = before.planted.toList ++ new := by
  induction as generalizing before with
  | nil => exact ⟨[], rfl, (List.append_nil _).symm⟩
  | cons a rest ih =>
    obtain ⟨forest, planted, grown, planted_lt⟩ := before
    obtain ⟨here, later⟩ := List.forall_mem_cons.mp each
    obtain ⟨new, run, all⟩ := ih later (.push planted (plant forest (term a)).val grown planted_lt
      (plant forest (term a)).property)
    refine ⟨((plant forest (term a)).val.size - 1) :: new, ?_, ?_⟩
    · rw [List.mapM_cons, Edit.run_bind (here forest), List.map_cons, plantAll]
      exact Edit.run_bind run
    · rw [List.map_cons, plantAll, all, Planting.push, Array.toList_push, List.append_assoc,
        List.singleton_append]

/-- **A node behind children that are written** is the planted node, with all of them below it. -/
theorem exists_children {α : Type} {edit : α → Edit Nat} {term : α → Term} {as : List α}
    (each : ∀ a ∈ as, (edit a).Writes (term a)) (f : Forest) :
    ∃ (indexes : List Nat) (below : Forest), (as.mapM edit).run f = .ok indexes below ∧
      indexes.length = as.length ∧ ∀ kind text, (addNode kind text indexes).run below
        = .ok ((plant f ⟨kind, text, as.map term⟩).val.size - 1)
            (plant f ⟨kind, text, as.map term⟩).val := by
  let before : Planting f := ⟨f, #[], Nat.le_refl _, by simp⟩
  let below := plantAll f before (as.map term)
  obtain ⟨new, run, all⟩ := run_mapM each before
  rw [List.nil_append] at all
  have planted : PlantsAll before below (as.map term) :=
    plantsAll_of_forall (fun t _ => plant_spec t) _
  obtain ⟨added, same, unfolds⟩ := planted.unfolds
  have node (kind : Kind) (text : String) : (plant f ⟨kind, text, as.map term⟩).val
      = below.forest.grow kind text below.planted.toList below.planted_lt := rfl
  refine ⟨below.planted.toList, below.forest, all ▸ run, ?_, fun kind text => ?_⟩
  · rw [same, List.nil_append, unfolds.length_eq, List.length_map]
  · rw [run_addNode below.planted_lt, node, size_grow, Nat.add_sub_cancel]

/-- What was planted last is found, and has the kind of its term. -/
theorem run_lookUp (f : Forest) (t : Term) : ∃ node, node.kind = t.kind ∧
    (lookUp ((plant f t).val.size - 1)).run (plant f t).val = .ok node (plant f t).val := by
  obtain ⟨inside, same⟩ := (plant_spec t f).unfolds
  refine ⟨(plant f t).val.node _ inside, ?_, ?_⟩
  · rw [← kind_unfold, same]
  · have there : (plant f t).val.node? ((plant f t).val.size - 1)
        = .ok ((plant f t).val.node _ inside) := dif_pos inside
    have read : (get : Edit Forest).run (plant f t).val = .ok (plant f t).val (plant f t).val := rfl
    rw [lookUp, Edit.run_bind read, there]
    rfl

/-- **A group behind its planted body** is written unless it is redundant. -/
theorem run_addCollapsed_group (f : Forest) (text : String) (body : Term) :
    (addCollapsed .group text [(plant f body).val.size - 1]).run (plant f body).val
      = .ok ((plant f (Term.regroup text body)).val.size - 1)
          (plant f (Term.regroup text body)).val := by
  obtain ⟨node, kind, found⟩ := f.run_lookUp body
  rw [addCollapsed, Edit.run_bind found, kind, Term.regroup]
  by_cases redundant : Term.groupIsRedundant body.kind = true
  · rw [if_pos redundant, if_pos redundant]
    rfl
  · have inside : ∀ c ∈ [(plant f body).val.size - 1], c < (plant f body).val.size := by
      have := (plant f body).property
      simp only [List.mem_singleton, forall_eq]
      omega
    have node : (plant f ⟨.group, text, [body]⟩).val
        = (plant f body).val.grow .group text [(plant f body).val.size - 1] inside := rfl
    rw [if_neg redundant, if_neg redundant, run_addNode inside, node, size_grow,
      Nat.add_sub_cancel]

/-- Other nodes are always written. -/
theorem addCollapsed_of_ne {indexes : List Nat} (other : kind = .group → indexes.length ≠ 1) :
    addCollapsed kind text indexes = addNode kind text indexes := by
  rw [addCollapsed.eq_def]
  split
  · exact absurd rfl (other rfl)
  · rfl

/-! ## 2. Nodes

At a node there are three cases, and the recursion has the same three on terms: a single child takes
its place, it is a group that may be redundant, or it is written.  A shared node is written once for
each use, as planting does. -/

/-- A single child takes the place of its parent, of neither a call nor a group inside another. -/
theorem replacement?_eq_some {i : Nat} {inside : Bool} {children : List (Fin i)} {only : Fin i}
    (found : replacement? kind inside children = some only) :
    children = [only] ∧ kind ≠ .call ∧ (kind = .group → inside = false) := by
  rw [replacement?.eq_def] at found
  split at found
  · split at found
    · cases found
    · rename_i apart
      cases found
      exact ⟨rfl, fun call => apart (.inl call),
        fun group => Bool.eq_false_iff.mpr fun inside => apart (.inr ⟨group, inside⟩)⟩
  · cases found

/-- **What is not replaced** has not one child, or is a call, or is a group inside another node. -/
theorem replacement?_eq_none {i : Nat} {inside : Bool} {children : List (Fin i)}
    (none : replacement? kind inside children = none) :
    children.length ≠ 1 ∨ ∃ only, children = [only] ∧ (kind = .call ∨ kind = .group ∧ inside) := by
  by_cases single : children.length = 1
  · obtain ⟨only, rfl⟩ := List.length_eq_one_iff.mp single
    rw [replacement?] at none
    split at none
    · rename_i apart
      exact .inr ⟨only, rfl, apart⟩
    · cases none
  · exact .inl single

/-- **A node is written as its collapsed term.**  By induction on the index: children have smaller
ones. -/
theorem collapseNode_writes (source : Forest) (i : Nat) (h : i < source.size) : ∀ inside,
    (source.collapseNode inside i h).Writes ((source.unfold i h).collapse inside) := by
  induction i using Nat.strongRecOn with
  | ind i ih =>
    intro inside f
    have unfolded : source.unfold i h = ⟨(source.node i h).kind, (source.node i h).text,
        (source.childrenOf i h).map fun c => source.unfold c.val (source.child_lt c h)⟩ := by
      rw [unfold]
    rw [collapseNode, unfolded]
    cases replaced : replacement? (source.node i h).kind inside (source.childrenOf i h) with
    | some only =>
      obtain ⟨single, call, group⟩ := replacement?_eq_some replaced
      rw [single, List.map_singleton, Term.collapse_layer _ _ call group]
      exact ih only.val only.isLt (source.child_lt only h) true f
    | none =>
      have below : ∀ c ∈ source.childrenOf i h,
          (source.collapseNode true c.val (source.child_lt c h)).Writes
            ((source.unfold c.val (source.child_lt c h)).collapse true) :=
        fun c _ => ih c.val c.isLt (source.child_lt c h) true
      obtain ⟨indexes, forest, run, length, node⟩ := exists_children below f
      rcases replacement?_eq_none replaced with several | ⟨only, single, call | ⟨group, rfl⟩⟩
      · rw [Term.collapse_branch _ _ _ (by rwa [List.length_map]), List.map_map,
          Edit.run_bind run, addCollapsed_of_ne fun _ => by rwa [length]]
        exact node _ _
      · rw [call, Term.collapse_call, List.map_map, Edit.run_bind run,
          addCollapsed_of_ne (by rintro ⟨⟩)]
        exact node _ _
      · have written := ih only.val only.isLt (source.child_lt only h) true f
        rw [group, single, List.map_singleton, Term.collapse_group_inside, List.mapM_cons,
          List.mapM_nil, bind_assoc, Edit.run_bind written]
        exact f.run_addCollapsed_group _ _

/-! ## 3. Forests

Roots are written in turn, and of each only the bare one is kept as a root; groups that were written
around it stay behind.  As nothing fails at a node, nothing fails at all, and the equation with
`Forest.collapse` needs no hypothesis. -/

theorem run_bareIndex {i : Nat} (inside : i < f.size) :
    (bareIndex i).run f = .ok (f.bareRoot i inside).val f := by
  have unfolded : (bareIndex i).run f = (if h : i < f.size then return (f.bareRoot i h).val
      else throw (.foreignNode i) : Edit Nat).run f := rfl
  rw [unfolded, dif_pos inside]
  rfl

/-- **A root is written as it is planted.** -/
theorem run_collapseRoot (source : Forest) (r : Fin source.size) (written : Forest) :
    (source.collapseRoot r).run written
      = .ok () (written.plantCollapsed (source.unfold r.val (source.root_lt r))) := by
  have node := source.collapseNode_writes r.val (source.root_lt r) false written
  let planted := plant written ((source.unfold r.val (source.root_lt r)).collapse false)
  have inside : planted.val.size - 1 < planted.val.size := by
    have := planted.property
    omega
  rw [collapseRoot, Edit.run_bind node, Edit.run_bind (run_bareIndex inside)]
  exact run_pushRoot (planted.val.bareRoot _ inside).isLt

/-- **The pass writes the collapsed forest.**  It never fails, whatever the forest. -/
theorem collapsePass_eq (source : Forest) : source.collapsePass = .ok source.collapse := by
  have roots : ∀ (rs : List (Fin source.size)) (written : Forest),
      (rs.forM source.collapseRoot).run written = .ok () (rs.foldl
        (fun f r => f.plantCollapsed (source.unfold r.val (source.root_lt r))) written) := by
    intro rs
    induction rs with
    | nil => exact fun _ => rfl
    | cons r rest ih =>
      intro written
      exact (Edit.run_bind (source.run_collapseRoot r written)).trans (ih _)
  rw [collapsePass, collapse, terms, List.foldl_map, roots]
  cases source.collapsed <;> rfl

/-- **The pass does not see the layout.**  Forests that are not marked, and that have the same terms
and the same source, are written as the same forest, node by node. -/
theorem collapsePass_congr {f g : Forest} (terms : f.terms = g.terms) (source : f.source = g.source)
    (first : f.collapsed = false) (second : g.collapsed = false) :
    f.collapsePass = g.collapsePass := by
  rw [collapsePass_eq, collapsePass_eq, collapse, collapse, first, second, terms, source]
  rfl

end Forest
end DecimalExpression
