import DecimalExpression.Expression.Forest
import DecimalExpression.Syntax.Source

/-!
# Terms planted in forests

`plant` writes a term into a forest, children before parents and from left to right, so the node of
the term comes last.  A parse tree becomes a forest by planting its terms: one root as a rule, but
where the first node with a choice is a sum, its operands and operators become roots of their own.

Together with `Term.ofTree` this is `translate`: its entry rule, its order of nodes, and the several
roots of a sum are those of section 11 of the specification.
-/

namespace DecimalExpression
namespace Forest

/-! ## 1. Planting -/

/-- A forest that grew from `f`, and the indexes of the terms planted in it so far. -/
structure Planting (f : Forest) where
  forest : Forest
  planted : Array Nat
  grown : f.size ≤ forest.size
  planted_lt : ∀ c ∈ planted.toList, c < forest.size

/-- One more term, planted in a forest of `size` nodes: its node is the last of the new forest. -/
def Planting.push {f : Forest} {size : Nat} (planted : Array Nat) (forest : Forest)
    (grown : f.size ≤ size) (planted_lt : ∀ c ∈ planted.toList, c < size)
    (h : size < forest.size) : Planting f where
  forest := forest
  planted := planted.push (forest.size - 1)
  grown := by omega
  planted_lt := by
    intro c hc
    rw [Array.toList_push, List.mem_append, List.mem_singleton] at hc
    rcases hc with old | rfl
    · have := planted_lt c old
      omega
    · omega

mutual

/-- **A term is planted.**  Its node is the last of the forest that results. -/
def plant (f : Forest) : Term → { g : Forest // f.size < g.size }
  | ⟨kind, text, children⟩ =>
    let below := plantAll f ⟨f, #[], Nat.le_refl _, by simp⟩ children
    ⟨below.forest.grow kind text below.planted.toList below.planted_lt, by
      rw [size_grow]
      have := below.grown
      omega⟩

/-- Terms are planted from left to right. -/
def plantAll (f : Forest) : Planting f → List Term → Planting f
  | done, [] => done
  | ⟨forest, planted, grown, planted_lt⟩, t :: rest =>
    let next := plant forest t
    plantAll f (.push planted next.val grown planted_lt next.property) rest

end

/-- A term is planted and made a root. -/
def plantRoot (f : Forest) (t : Term) : Forest :=
  let grown := plant f t
  grown.val.grantRoot (grown.val.size - 1) (by have := grown.property; omega)

/-- **The forest of some terms**: one root for each, and nothing else. -/
def ofTerms (terms : List Term) : Forest :=
  terms.foldl plantRoot empty

/-! ## 2. Forests of parse trees -/

/-- **The terms of a parse tree.**  Single children are followed down from the root; where they
lead to a sum, its operands and operators are terms of their own. -/
def termsOfTree (tree : ParseTree) : Except ShapeFault (List Term) := do
  let entry := tree.entry
  if entry.production = .additive then
    Term.expectCount entry
    entry.children.mapM Term.ofTree
  else
    return [← Term.ofTree tree]

/-- **The forest of a parse tree**, named by the text of the tree. -/
def ofTree (tree : ParseTree) : Except ShapeFault Forest :=
  (termsOfTree tree).map fun terms => (ofTerms terms).setSource tree.text

/-- **The forest of a source.** -/
def ofSource (source : String) : Except Fault Forest := do
  let tree ← ParseTree.ofSource source
  (ofTree tree).mapError Fault.ofShape

end Forest
end DecimalExpression
