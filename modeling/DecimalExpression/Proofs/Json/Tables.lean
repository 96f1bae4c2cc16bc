import DecimalExpression.Json.Binding
import DecimalExpression.Json.Meaning
import Mathlib.Data.List.Induction
import Mathlib.Data.List.Nodup
import Mathlib.Data.String.Basic
import Mathlib.Order.Compare

/-!
# Tables that are filled from a list

A table that is filled from a list holds each name once, with the content of its last entry
(`Named.mem_entries_setAll`).  So its entries can be sorted such that every name is less than the
next (`Named.pairwise_sortEntries`).
-/

namespace DecimalExpression
namespace Named

variable {α : Type} {table : Named α} {entries : List (String × α)} {name : String} {content : α}

/-! ## 1. The last entry of a name

A table is filled from the front, and a later entry replaces an earlier one.  So the induction goes
from the back: what one more entry at the end does to the table is what it does to the last entries
of the names. -/

theorem isLast_append_singleton {entry : String × α} : IsLast (entries ++ [entry]) name content ↔
    entry = (name, content) ∨ entry.1 ≠ name ∧ IsLast entries name content := by
  constructor
  · rintro ⟨front, back, split, none⟩
    rcases List.eq_nil_or_concat back with rfl | ⟨back, last, rfl⟩
    · obtain ⟨rfl, same⟩ := List.append_inj' split rfl
      exact .inl (List.singleton_injective same)
    · rw [List.concat_eq_append] at split none
      rw [← List.cons_append, ← List.append_assoc] at split
      obtain ⟨rfl, same⟩ := List.append_inj' split rfl
      obtain rfl := List.singleton_injective same
      obtain ⟨behind, here⟩ := List.forall_mem_append.mp none
      exact .inr ⟨here _ List.mem_cons_self, front, back, rfl, behind⟩
  · rintro (rfl | ⟨other, front, back, rfl, none⟩)
    · exact ⟨entries, [], rfl, List.forall_mem_nil _⟩
    · exact ⟨front, back ++ [entry], by simp,
        List.forall_mem_append.mpr ⟨none, by simpa using other⟩⟩

theorem setAll_append_singleton (entry : String × α) :
    (table.setAll (entries ++ [entry])) = (table.setAll entries).set entry.1 entry.2 := by
  rw [setAll, setAll, List.foldl_append, List.foldl_cons, List.foldl_nil]

/-- **The last entry of a name stays.** -/
theorem get?_setAll :
    (empty.setAll entries).get? name = some content ↔ IsLast entries name content := by
  induction entries using List.reverseRecOn with
  | nil =>
    refine iff_of_false (by rintro ⟨⟩) ?_
    rintro ⟨front, back, split, -⟩
    simp at split
  | append_singleton entries entry ih =>
    obtain ⟨key, value⟩ := entry
    rw [setAll_append_singleton, get?_set, isLast_append_singleton, ← ih]
    by_cases same : name = key
    · subst same
      simp
    · simp [same, Ne.symm same]

/-- The last entry of a name is an entry. -/
theorem IsLast.mem (last : IsLast entries name content) : (name, content) ∈ entries := by
  obtain ⟨front, back, rfl, -⟩ := last
  exact List.mem_append_right _ List.mem_cons_self

/-- Where names are distinct, every entry is the last one of its name. -/
theorem isLast_iff_mem (distinct : (entries.map (·.1)).Nodup) :
    IsLast entries name content ↔ (name, content) ∈ entries := by
  refine ⟨IsLast.mem, fun member => ?_⟩
  obtain ⟨front, back, rfl⟩ := List.append_of_mem member
  refine ⟨front, back, rfl, fun entry behind same => ?_⟩
  rw [List.map_append, List.map_cons, List.nodup_append, List.nodup_cons] at distinct
  exact distinct.2.1.1 (List.mem_map.mpr ⟨entry, behind, same⟩)

/-! ## 2. Distinct names

Replacing keeps the names as they are and adding puts a new one behind them.  That is all that
`setEntry` does to the row of names, and with distinct names looking up is membership. -/

theorem map_fst_setEntry (name : String) (content : α) (entries : List (String × α)) :
    (setEntry name content entries).map (·.1) =
      if name ∈ entries.map (·.1) then entries.map (·.1) else entries.map (·.1) ++ [name] := by
  induction entries with
  | nil => rfl
  | cons entry entries ih =>
    rw [setEntry]
    by_cases same : name = entry.1
    · simp [same]
    · simp only [same, beq_iff_eq, if_false, List.map_cons, ih, List.mem_cons, false_or]
      split <;> simp

/-- **Names are distinct** in a table that is filled from a list. -/
theorem nodup_setAll : ((empty.setAll entries).entries.map (·.1)).Nodup := by
  induction entries using List.reverseRecOn with
  | nil => exact List.nodup_nil
  | append_singleton entries entry ih =>
    rw [setAll_append_singleton, set, map_fst_setEntry]
    split
    · exact ih
    · rename_i fresh
      rw [List.nodup_append]
      refine ⟨ih, List.nodup_singleton _, ?_⟩
      rintro _ member _ single rfl
      exact fresh (List.mem_singleton.mp single ▸ member)

/-- An entry is found by its name where names are distinct. -/
theorem get?_eq_some_iff (distinct : (table.entries.map (·.1)).Nodup) :
    table.get? name = some content ↔ (name, content) ∈ table.entries := by
  constructor
  · exact mem_of_get?
  · intro member
    rw [get?, List.lookup_eq_some_iff]
    obtain ⟨front, back, same⟩ := List.append_of_mem member
    refine ⟨front, back, same, fun entry before => bne_iff_ne.mpr ?_⟩
    rw [same, List.map_append, List.map_cons, List.nodup_append] at distinct
    exact (distinct.2.2 _ (List.mem_map_of_mem before) _ List.mem_cons_self).symm

/-- **The entries of a filled table** are the last ones of their names. -/
theorem mem_entries_setAll :
    (name, content) ∈ (empty.setAll entries).entries ↔ IsLast entries name content := by
  rw [← get?_eq_some_iff nodup_setAll, get?_setAll]

/-! ## 3. Sorted names

Sorting by an order gives neighbours that are not greater; that they are less takes distinct names.
This is where the last section is needed. -/

theorem perm_sortEntries : (sortEntries entries).Perm entries := List.mergeSort_perm _ _

/-- **Sorted by distinct names**, every entry has a lesser name than those behind it. -/
theorem pairwise_sortEntries (distinct : (entries.map (·.1)).Nodup) :
    (sortEntries entries).Pairwise fun a b => a.1 < b.1 := by
  have le_iff (a b : String × α) : (compare a.1 b.1 != .gt) = true ↔ a.1 ≤ b.1 := by
    rw [bne_iff_ne, ne_eq, compare_gt_iff_gt, not_lt]
  have ordered : (sortEntries entries).Pairwise fun a b => (compare a.1 b.1 != .gt) = true := by
    refine List.pairwise_mergeSort ?_ ?_ _
    · intro a b c first second
      rw [le_iff] at first second ⊢
      exact first.trans second
    · intro a b
      rw [Bool.or_eq_true, le_iff, le_iff]
      exact le_total _ _
  have apart : (sortEntries entries).Pairwise fun a b => a.1 ≠ b.1 :=
    List.pairwise_map.mp ((perm_sortEntries.map _).nodup_iff.mpr distinct)
  refine (ordered.and apart).imp fun both => ?_
  exact lt_of_le_of_ne ((le_iff _ _).mp both.1) both.2

end Named
end DecimalExpression
