/-!
# Tables of named things

Variables and methods are found by name.  A table holds one entry for each name, in the order in
which the names first came up; setting a name again replaces its entry.

It is the map behind both the evaluation context (`define`, `get`) and the registry of methods
(`register`, `get`, `names`).
-/

namespace DecimalExpression

/-- **A table of named things.** -/
structure Named (α : Type) where
  entries : List (String × α)

namespace Named

variable {α : Type}

/-! ## 1. Operations -/

def empty : Named α := ⟨[]⟩

/-- The entry of a name, if it has one. -/
def get? (table : Named α) (name : String) : Option α :=
  table.entries.lookup name

def contains (table : Named α) (name : String) : Bool :=
  (table.get? name).isSome

/-- The entries, with the one of `name` replaced or added at the end. -/
def setEntry (name : String) (content : α) : List (String × α) → List (String × α)
  | [] => [(name, content)]
  | entry :: rest =>
    if name == entry.1 then (name, content) :: rest else entry :: setEntry name content rest

/-- **Sets the entry of a name.** -/
def set (table : Named α) (name : String) (content : α) : Named α :=
  ⟨setEntry name content table.entries⟩

/-- Sets several entries in turn, so the last of one name stays. -/
def setAll (table : Named α) (entries : List (String × α)) : Named α :=
  entries.foldl (fun table entry => table.set entry.1 entry.2) table

/-- The number of names. -/
def size (table : Named α) : Nat := table.entries.length

/-- **The names in order** of their code points. -/
def sortedNames (table : Named α) : List String :=
  (table.entries.map (·.1)).mergeSort fun a b => compare a b != .gt

/-! ## 2. What a name stands for -/

/-- What is found is there. -/
theorem mem_of_get? {table : Named α} {name : String} {content : α}
    (found : table.get? name = some content) : (name, content) ∈ table.entries := by
  obtain ⟨front, behind, split, -⟩ := List.lookup_eq_some_iff.mp found
  rw [split]
  exact List.mem_append_right front List.mem_cons_self

theorem lookup_setEntry (name other : String) (content : α) (entries : List (String × α)) :
    (setEntry name content entries).lookup other =
      if other == name then some content else entries.lookup other := by
  induction entries with
  | nil => by_cases h : other == name <;> simp [setEntry, List.lookup_cons, h]
  | cons entry rest ih =>
    obtain ⟨key, old⟩ := entry
    simp only [setEntry]
    by_cases here : name = key
    · subst here
      by_cases h : other == name <;> simp [List.lookup_cons, h]
    · by_cases h : other = key
      · subst h
        have apart : (other == name) = false := beq_eq_false_iff_ne.mpr (Ne.symm here)
        simp [here, apart]
      · have apart : (other == key) = false := beq_eq_false_iff_ne.mpr h
        simp [here, List.lookup_cons, apart, ih]

/-- **Setting a name changes that name alone.** -/
theorem get?_set (table : Named α) (name other : String) (content : α) :
    (table.set name content).get? other =
      if other == name then some content else table.get? other :=
  lookup_setEntry name other content table.entries

@[simp] theorem get?_empty (name : String) : (empty : Named α).get? name = none := rfl

end Named
end DecimalExpression
