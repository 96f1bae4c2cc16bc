import Mathlib.Data.List.Forall2

/-!
# Outcomes in sequence

What reads a source, a tree or a value either gives a result or stops with a fault.  These lemmas
open sequences of such steps.
-/

namespace DecimalExpression

variable {ε ε' α β : Type}

@[simp] theorem ok_bind (a : α) (f : α → Except ε β) : (Except.ok a >>= f) = f a := rfl

@[simp] theorem error_bind (fault : ε) (f : α → Except ε β) :
    (Except.error fault >>= f) = .error fault := rfl

@[simp] theorem ok_mapError (a : α) (f : ε → ε') :
    (Except.ok a : Except ε α).mapError f = .ok a := rfl

@[simp] theorem error_mapError (fault : ε) (f : ε → ε') :
    (Except.error fault : Except ε α).mapError f = .error (f fault) := rfl

/-- An outcome that is known to be there. -/
theorem exists_of_isOk {x : Except ε α} (h : x.isOk = true) : ∃ a, x = .ok a := by
  cases x with
  | error fault => cases h
  | ok a => exact ⟨a, rfl⟩

theorem not_exists_error (a : α) : ¬ ∃ fault, (.ok a : Except ε α) = .error fault := nofun

/-- A sequence that succeeds succeeds in both parts. -/
theorem bind_eq_ok {x : Except ε α} {f : α → Except ε β} {b : β} (h : x >>= f = .ok b) :
    ∃ a, x = .ok a ∧ f a = .ok b := by
  cases x with
  | error fault => cases h
  | ok a => exact ⟨a, rfl, h⟩

/-- Two continuations that succeed alike do so behind the same outcome. -/
theorem bind_eq_ok_congr {γ : Type} {x : Except ε α} {f : α → Except ε β} {g : α → Except ε γ}
    {b : β} {c : γ}
    (same : ∀ a, f a = .ok b ↔ g a = .ok c) : (x >>= f) = .ok b ↔ (x >>= g) = .ok c := by
  cases x with
  | error => exact iff_of_false (by rintro ⟨⟩) (by rintro ⟨⟩)
  | ok a => exact same a

/-- An outcome that succeeds under other names for its faults succeeds. -/
theorem mapError_eq_ok {x : Except ε α} {f : ε → ε'} {a : α} (h : x.mapError f = .ok a) :
    x = .ok a := by
  cases x with
  | error fault => cases h
  | ok b =>
    cases h
    rfl

/-- A sequence fails only if one of its parts does. -/
theorem bind_ne_error {x : Except ε α} {f : α → Except ε β} {fault : ε}
    (first : x ≠ .error fault) (second : ∀ a, x = .ok a → f a ≠ .error fault) :
    x >>= f ≠ .error fault := by
  cases x with
  | error other => exact fun failed => first (by cases failed; rfl)
  | ok a => exact second a rfl

/-- An outcome is a fault where it is nothing else. -/
theorem exists_error_iff {x : Except ε α} : (∃ fault, x = .error fault) ↔ ¬ ∃ a, x = .ok a := by
  cases x with
  | error fault => exact iff_of_true ⟨fault, rfl⟩ (by rintro ⟨a, done⟩; cases done)
  | ok a => exact iff_of_false (not_exists_error a) (by exact not_not_intro ⟨a, rfl⟩)

/-- A sequence gives something where both parts do. -/
theorem exists_bind_iff {x : Except ε α} {f : α → Except ε β} :
    (∃ b, x >>= f = .ok b) ↔ ∃ a, x = .ok a ∧ ∃ b, f a = .ok b := by
  constructor
  · rintro ⟨b, done⟩
    obtain ⟨a, first, second⟩ := bind_eq_ok done
    exact ⟨a, first, b, second⟩
  · rintro ⟨a, rfl, b, second⟩
    exact ⟨b, second⟩

theorem exists_pure (a : α) : ∃ b, (pure a : Except ε α) = .ok b := ⟨a, rfl⟩

/-- An outcome that says nothing but whether a condition holds. -/
theorem exists_ite_iff {c : Prop} [Decidable c] {a : α} {fault : ε} :
    (∃ b, (if c then .ok a else .error fault) = Except.ok b) ↔ c := by
  split
  · rename_i holds
    exact iff_of_true ⟨a, rfl⟩ holds
  · rename_i fails
    refine iff_of_false ?_ fails
    rintro ⟨b, done⟩
    cases done

/-- A list is gone through where there is something for each of its items. -/
theorem exists_mapM_iff {f : α → Except ε β} {l : List α} :
    (∃ results, l.mapM f = .ok results) ↔ ∀ a ∈ l, ∃ b, f a = .ok b := by
  induction l with
  | nil => exact iff_of_true ⟨[], rfl⟩ (List.forall_mem_nil _)
  | cons a l ih =>
    rw [List.mapM_cons, List.forall_mem_cons, ← ih, exists_bind_iff]
    constructor
    · rintro ⟨b, first, results, done⟩
      obtain ⟨more, rest, -⟩ := bind_eq_ok done
      exact ⟨⟨b, first⟩, more, rest⟩
    · rintro ⟨⟨b, first⟩, more, rest⟩
      exact ⟨b, first, b :: more, by rw [rest]; rfl⟩

/-- A list fails at the first of its items that does.  By induction on the list: those in front of
it have all succeeded. -/
theorem exists_of_mapM_error {f : α → Except ε β} {l : List α} {fault : ε}
    (failed : l.mapM f = .error fault) :
    ∃ front a back, l = front ++ a :: back ∧ f a = .error fault ∧ ∀ b ∈ front, ∃ c,
      f b = .ok c := by
  induction l with
  | nil => cases failed
  | cons a l ih =>
    rw [List.mapM_cons] at failed
    cases first : f a with
    | error fault' =>
      rw [first] at failed
      cases failed
      exact ⟨[], a, l, rfl, first, List.forall_mem_nil _⟩
    | ok b =>
      rw [first, ok_bind] at failed
      cases later : l.mapM f with
      | ok found =>
        rw [later] at failed
        cases failed
      | error fault' =>
        rw [later] at failed
        cases failed
        obtain ⟨front, c, back, rfl, here, before⟩ := ih later
        exact ⟨a :: front, c, back, rfl, here, List.forall_mem_cons.mpr ⟨⟨b, first⟩, before⟩⟩

/-- A list that is gone through gives a result for each item, in order. -/
theorem forall₂_of_mapM {f : α → Except ε β} {l : List α} {results : List β}
    (done : l.mapM f = .ok results) : List.Forall₂ (fun a b => f a = .ok b) l results := by
  induction l generalizing results with
  | nil =>
    cases done
    exact .nil
  | cons a l ih =>
    rw [List.mapM_cons] at done
    obtain ⟨b, first, done⟩ := bind_eq_ok done
    obtain ⟨more, rest, done⟩ := bind_eq_ok done
    cases done
    exact .cons first (ih rest)

/-- What holds of each item on one side, and is kept item by item, holds on the other side. -/
theorem forall_mem_of_forall₂ {R : α → β → Prop} {P : α → Prop} {Q : β → Prop} {l : List α}
    {l' : List β} (same : List.Forall₂ R l l') (kept : ∀ a b, R a b → P a → Q b)
    (each : ∀ a ∈ l, P a) : ∀ b ∈ l', Q b := by
  induction same with
  | nil => exact List.forall_mem_nil _
  | cons first _ ih =>
    obtain ⟨here, later⟩ := List.forall_mem_cons.mp each
    exact List.forall_mem_cons.mpr ⟨kept _ _ first here, ih later⟩

/-- Each item on one side belongs to one on the other side. -/
theorem exists_of_forall₂ {R : α → β → Prop} {l : List α} {l' : List β}
    (same : List.Forall₂ R l l') :
    ∀ a ∈ l, ∃ b ∈ l', R a b := by
  induction same with
  | nil => exact List.forall_mem_nil _
  | cons first _ ih =>
    refine List.forall_mem_cons.mpr ⟨⟨_, List.mem_cons_self, first⟩, fun a member => ?_⟩
    obtain ⟨b, inside, related⟩ := ih a member
    exact ⟨b, List.mem_cons_of_mem _ inside, related⟩

/-! ## Which faults are possible -/

/-- **All faults of an outcome are allowed.** -/
def Only (allowed : ε → Prop) (outcome : Except ε α) : Prop :=
  ∀ fault, outcome = .error fault → allowed fault

variable {allowed : ε → Prop}

theorem only_ok (a : α) : Only allowed (.ok a : Except ε α) := nofun

theorem only_error {fault : ε} (h : allowed fault) : Only allowed (.error fault : Except ε α) := by
  rintro _ ⟨⟩
  exact h

theorem Only.mono {outcome : Except ε α} {allowed' : ε → Prop} (only : Only allowed outcome)
    (h : ∀ fault, allowed fault → allowed' fault) : Only allowed' outcome :=
  fun fault failed => h fault (only fault failed)

/-- **A sequence has the faults of its parts.** -/
theorem Only.bind {x : Except ε α} {f : α → Except ε β} (first : Only allowed x)
    (second : ∀ a, x = .ok a → Only allowed (f a)) : Only allowed (x >>= f) := by
  cases x with
  | error fault => exact only_error (first fault rfl)
  | ok a => exact second a rfl

theorem Only.map {x : Except ε α} (only : Only allowed x) (f : α → β) : Only allowed (x.map f) := by
  cases x with
  | error fault => exact only_error (only fault rfl)
  | ok a => exact only_ok (f a)

theorem Only.mapError {x : Except ε α} {f : ε → ε'} {allowed' : ε' → Prop}
    (only : Only allowed x) (h : ∀ fault, allowed fault → allowed' (f fault)) :
    Only allowed' (x.mapError f) := by
  cases x with
  | error fault => exact only_error (h fault (only fault rfl))
  | ok a => exact only_ok a

end DecimalExpression
