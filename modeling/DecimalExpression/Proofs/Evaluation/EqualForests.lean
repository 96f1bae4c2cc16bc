import DecimalExpression.Proofs.Evaluation.Driver
import DecimalExpression.Proofs.Expression.Canonical
import Mathlib

/-!
# Equal forests evaluate alike

Two forests are equal when their roots unfold to the same terms.  How their nodes are laid out and
shared, what is out of reach, and whether they are marked as collapsed does not count, and it must
not show in an outcome either: equal forests with one source have the same outcomes and collapse to
equal forests (`evaluate_eq_of_same`).

Three things come together.  A forest displays and means what its terms do (`display_eq`,
`meaning_congr`).  A mark is right on every forest that can be built, so a marked forest that skips
collapsing has the terms that collapsing would give (`Built.terms_collapse`).  And the table of
values comes to the meaning (`run_eq_meaning`).
-/

namespace DecimalExpression

/-! ## 1. Display

What is displayed is computed on the nodes and agrees with what the terms display.  So it is no help
in telling layouts apart. -/

/-- **The display of a term**: kind and text of a leaf, or the kind and the children in
parentheses. -/
def Term.display : Term → String
  | ⟨kind, slice, children⟩ =>
    if children.isEmpty then s!"{kind.name}:{slice}"
    else
      children.foldl (fun shown child => shown ++ " " ++ child.display) ("(" ++ kind.name) ++ ")"

namespace Forest

variable {f g : Forest} {env : Environment}

/-- **A node displays what its term displays.** -/
theorem displayNode_eq (f : Forest) (i : Nat) (h : i < f.size) :
    f.displayNode i h = (f.unfold i h).display := by
  induction i using Nat.strongRecOn with
  | ind i ih =>
    rw [displayNode, unfold]
    have each : ∀ c : Fin i, f.displayNode c.val (f.child_lt c h)
        = (f.unfold c.val (f.child_lt c h)).display :=
      fun c => ih c.val c.isLt (f.child_lt c h)
    rw [Term.display, List.foldl_map, List.isEmpty_map]
    cases f.childrenOf i h with
    | nil => rfl
    | cons first more => simp only [each, List.isEmpty_cons, Bool.false_eq_true, if_false]

/-- **A forest displays what its terms display.** -/
theorem display_eq (f : Forest) : f.display = " ".intercalate (f.terms.map Term.display) := by
  rw [display, terms, List.map_map]
  congr 1
  exact List.map_congr_left fun r _ => f.displayNode_eq r.val (f.root_lt r)

/-! ## 2. Meaning

The meaning of a forest mentions its terms and its title and nothing else. -/

theorem title_congr (terms : f.terms = g.terms) (source : f.source = g.source) :
    f.title = g.title := by
  rw [title, title, display_eq, display_eq, terms, source]

/-- **Forests with the same terms and one source have one meaning.** -/
theorem meaning_congr (terms : f.terms = g.terms) (source : f.source = g.source) :
    f.meaning env = g.meaning env := by
  rw [meaning, meaning, terms, title_congr terms source]

/-! ## 3. Collapsed forms

A forest that is marked is taken as collapsed without a look.  For forests that can be built the
mark is right, so collapsing has one description for both kinds, in terms; equal forests then
collapse to equal ones. -/

/-- **The terms of the collapsed form**, of a marked forest too: the mark is right. -/
theorem Built.terms_collapse (built : Built f) :
    f.collapse.terms = f.terms.map fun t => (t.collapse false).bare := by
  cases marked : f.collapsed with
  | true => rw [collapse_of_collapsed marked, (built.isCanonical marked).map_collapse]
  | false => exact Forest.terms_collapse marked

/-- Equal forests collapse to forests with the same terms. -/
theorem Built.terms_collapse_congr (first : Built f) (second : Built g)
    (terms : f.terms = g.terms) : f.collapse.terms = g.collapse.terms := by
  rw [first.terms_collapse, second.terms_collapse, terms]

/-- **Equal forests evaluate alike.**  Of all forests that can be built, two that are equal and have
one source collapse to equal forests, and have the same value or the same fault in every
environment. -/
theorem evaluate_eq_of_same (first : Built f) (second : Built g) (same : f.same g = true)
    (source : f.source = g.source) :
    f.collapse.same g.collapse = true ∧ ∀ env : Environment, f.evaluate env = g.evaluate env := by
  have terms := first.terms_collapse_congr second (same_iff.mp same)
  refine ⟨same_iff.mpr terms, fun env => ?_⟩
  have named : f.collapse.source = g.collapse.source := by
    rw [source_collapse, source_collapse, source]
  calc f.collapse.run env
      = f.collapse.meaning env := run_eq_meaning _ env
    _ = g.collapse.meaning env := meaning_congr terms named
    _ = g.collapse.run env := (run_eq_meaning _ env).symm

/-- The children of a leaf are in every forest. -/
theorem forall_mem_nil_lt_size (f : Forest) : ∀ c ∈ ([] : List Nat), c < f.size :=
  List.forall_mem_nil _

/-- A number less itself: one node for both operands, and a node out of reach. -/
def sharedDifference : Forest :=
  let unused := empty.grow .reference "x" [] (forall_mem_nil_lt_size empty)
  let number := unused.grow .number "2" [] (by simp)
  let minus := number.grow .symbol "-" [] (by simp)
  let whole := minus.grow .additive "2-2" [1, 2, 1] (by simp [minus, number, unused])
  whole.grantRoot 3 (by simp [whole, minus, number, unused])

/-- The same difference, laid out from right to left with a node for each operand. -/
def spreadDifference : Forest :=
  let right := empty.grow .number "2" [] (forall_mem_nil_lt_size empty)
  let minus := right.grow .symbol "-" [] (by simp)
  let left := minus.grow .number "2" [] (by simp)
  let whole := left.grow .additive "2-2" [2, 1, 0] (by simp [left, minus, right])
  whole.grantRoot 3 (by simp [whole, left, minus, right])

theorem built_sharedDifference : Built sharedDifference :=
  ((((Built.empty.grow .reference "x" [] (by simp)).grow .number "2" [] (by simp)).grow
    .symbol "-" [] (by simp)).grow .additive "2-2" [1, 2, 1] (by simp)).grantRoot 3 (by simp)

theorem built_spreadDifference : Built spreadDifference :=
  ((((Built.empty.grow .number "2" [] (by simp)).grow .symbol "-" [] (by simp)).grow
    .number "2" [] (by simp)).grow .additive "2-2" [2, 1, 0] (by simp)).grantRoot 3 (by simp)

/-- The collapsed form of the one layout, marked, is as good as the other one, unmarked. -/
theorem evaluate_eq_of_same_difference :
    Built sharedDifference ∧ Built spreadDifference.collapse ∧
      sharedDifference.same spreadDifference.collapse = true ∧
      sharedDifference.source = spreadDifference.collapse.source ∧
      sharedDifference.collapse.same spreadDifference.collapse.collapse = true ∧
      ∀ env : Environment, sharedDifference.evaluate env
        = spreadDifference.collapse.evaluate env := by
  have same : sharedDifference.same spreadDifference.collapse = true := by
    rw [same_iff, terms_collapse rfl]
    cbv
  exact ⟨built_sharedDifference, built_spreadDifference.collapse, same, rfl,
    evaluate_eq_of_same built_sharedDifference built_spreadDifference.collapse same rfl⟩

end Forest
end DecimalExpression
