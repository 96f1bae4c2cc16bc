import DecimalExpression.Evaluation.Meaning
import DecimalExpression.Proofs.Outcomes
import Mathlib.Data.List.Forall2

/-!
# What the rules read

A rule reads the values of some of its operands and the symbols of others.  Operands that know more
than others, and agree with them otherwise, give the same outcome, unless the rule came to ask for
a value that was missing (`rule_of_covers`).

What a node demands of its children is what its rule reads: where the demand is met, no rule asks
for a value that is missing (`Demand.Met.not_asks`).  So the outcome of a rule whose demand is met
stays the same however much more its operands know (`rule_eq_of_met`).
-/

namespace DecimalExpression

/-! ## 1. Operands that know more

Operands are compared by what is known of them (`Covers`), and outcomes by whether they survive more
knowledge (`Stays`).  An outcome does not survive if it was a request for a value that was missing,
so the relation has to admit that, and it names the operands that may be asked for. -/

namespace Operand

/-- An operand knows what another one knows, and perhaps its value too. -/
structure Covers (more less : Operand) : Prop where
  kind_eq : more.kind = less.kind
  text_eq : more.text = less.text
  value : ∀ v, less.value? = some v → more.value? = some v

/-- A fault that asks for the value of an operand that has none. -/
def Asks (operands : List Operand) (fault : Fault) : Prop :=
  ∃ o ∈ operands, o.value? = none ∧ fault = .ofShape (.notComputed o.index)

/-- An outcome stays, unless the first attempt at it asked for a missing value. -/
def Stays {α : Type} (operands : List Operand) (more less : Except Fault α) : Prop :=
  more = less ∨ ∃ fault, Asks operands fault ∧ less = .error fault

variable {α β : Type} {operands : List Operand} {more less : Operand}

theorem stays_rfl (outcome : Except Fault α) : Stays operands outcome outcome := .inl rfl

/-- **Outcomes that stay can be put in sequence.** -/
theorem Stays.bind {x y : Except Fault α} {f g : α → Except Fault β} (first : Stays operands x y)
    (second : ∀ a, Stays operands (f a) (g a)) : Stays operands (x >>= f) (y >>= g) := by
  rcases first with rfl | ⟨fault, asks, rfl⟩
  · cases x with
    | error fault => exact .inl rfl
    | ok a => exact second a
  · exact .inr ⟨fault, asks, rfl⟩

theorem Covers.symbol_eq (covers : Covers more less) : more.symbol = less.symbol := by
  rw [symbol, symbol, covers.kind_eq, covers.text_eq]

theorem Covers.stays_symbol (covers : Covers more less) :
    Stays operands more.symbol less.symbol := .inl covers.symbol_eq

theorem Covers.stays_value (covers : Covers more less) (member : less ∈ operands) :
    Stays operands more.value less.value := by
  cases known : less.value? with
  | none => exact .inr ⟨_, ⟨less, member, known, rfl⟩, by rw [Operand.value, known]⟩
  | some v =>
    left
    rw [Operand.value, Operand.value, known, covers.value v known]

theorem Covers.stays_truth (covers : Covers more less) (member : less ∈ operands) (role : Role) :
    Stays operands (more.truth role) (less.truth role) :=
  (covers.stays_value member).bind fun _ => stays_rfl _

end Operand

/-! ## 2. The rules

Each rule is a sequence of reads, and each read stays.  So a rule stays by `Stays.bind`, step by
step; the lemmas below have the shape of the definitions they are about.  A kind chooses its rule by
the number of its operands, which both lists have in common. -/

namespace Rule

open Operand

variable {policy : Policy} {all : List Operand}

/-- The rest of a chain takes a symbol and a value at a time. -/
theorem stays_chainFrom {more less : List Operand} (covers : List.Forall₂ Covers more less)
    (within : less ⊆ all) (result : Value) :
    Stays all (chainFrom policy result more) (chainFrom policy result less) := by
  cases covers with
  | nil => exact stays_rfl _
  | cons first rest =>
    cases rest with
    | nil => exact stays_rfl _
    | cons second rest =>
      rw [chainFrom, chainFrom]
      refine first.stays_symbol.bind fun symbol => ?_
      split
      · exact stays_rfl _
      · refine (second.stays_value (within (by simp))).bind fun right => ?_
        refine (stays_rfl _).bind fun number => ?_
        exact stays_chainFrom rest (fun o member => within (by simp [member])) _
termination_by less.length

theorem stays_chain {more less : List Operand} (covers : List.Forall₂ Covers more less)
    (within : less ⊆ all) : Stays all (chain policy more) (chain policy less) := by
  cases covers with
  | nil => exact stays_rfl _
  | cons first rest =>
    rw [chain, chain]
    refine (first.stays_value (within (by simp))).bind fun value => ?_
    exact stays_chainFrom rest (fun o member => within (by simp [member])) value

theorem stays_values {more less : List Operand} (covers : List.Forall₂ Covers more less)
    (within : less ⊆ all) : Stays all (more.mapM Operand.value) (less.mapM Operand.value) := by
  induction covers with
  | nil => exact stays_rfl _
  | cons first rest ih =>
    rw [List.mapM_cons, List.mapM_cons]
    refine (first.stays_value (within (by simp))).bind fun value => ?_
    refine (ih fun o member => within (by simp [member])).bind fun values => ?_
    exact stays_rfl _

variable {a b c a' b' c' : Operand}

theorem stays_signed (sign : Covers a' a) (operand : Covers b' b) (h : b ∈ all) :
    Stays all (signed policy a' b') (signed policy a b) := by
  refine sign.stays_symbol.bind fun symbol => ?_
  dsimp only
  split
  · exact (operand.stays_value h).bind fun value => stays_rfl _
  · exact (operand.stays_value h).bind fun value => stays_rfl _
  · exact stays_rfl _

theorem stays_connective {kind : Kind} {token : String} {decisive : Bool} (left : Covers a' a)
    (operator : Covers b' b) (right : Covers c' c) (ha : a ∈ all) (hc : c ∈ all) :
    Stays all (connective kind token decisive a' b' c') (connective kind token decisive a b c) := by
  refine operator.stays_symbol.bind fun symbol => ?_
  dsimp only
  split
  · exact stays_rfl _
  · refine (left.stays_truth ha _).bind fun truth => ?_
    split
    · exact stays_rfl _
    · exact (right.stays_truth hc _).bind fun truth => stays_rfl _

theorem stays_equality (left : Covers a' a) (operator : Covers b' b) (right : Covers c' c)
    (ha : a ∈ all) (hc : c ∈ all) : Stays all (equality a' b' c') (equality a b c) := by
  refine (left.stays_value ha).bind fun v => ?_
  refine (right.stays_value hc).bind fun w => ?_
  exact operator.stays_symbol.bind fun symbol => stays_rfl _

theorem stays_relation (left : Covers a' a) (operator : Covers b' b) (right : Covers c' c)
    (ha : a ∈ all) (hc : c ∈ all) : Stays all (relation a' b' c') (relation a b c) := by
  refine (left.stays_value ha).bind fun v => ?_
  refine (right.stays_value hc).bind fun w => ?_
  split
  · exact stays_rfl _
  · exact operator.stays_symbol.bind fun symbol => stays_rfl _

theorem stays_choice (condition : Covers a' a) (consequent : Covers b' b)
    (alternative : Covers c' c) (ha : a ∈ all) (hb : b ∈ all) (hc : c ∈ all) :
    Stays all (choice a' b' c') (choice a b c) := by
  refine (condition.stays_truth ha _).bind fun truth => ?_
  split
  · exact consequent.stays_value hb
  · exact alternative.stays_value hc

/-! ### By number of operands -/

/-- The value of a single operand is passed on. -/
def passOne (kind : Kind) (operands : List Operand) : Except Fault Value :=
  match operands with
  | [only] => only.value
  | _ => .error (.ofShape (.arity kind operands.length))

/-- The value of a single operand is passed on, and there is a rule for three. -/
def passOneOr (kind : Kind) (three : Operand → Operand → Operand → Except Fault Value)
    (operands : List Operand) : Except Fault Value :=
  match operands with
  | [only] => only.value
  | [a, b, c] => three a b c
  | _ => .error (.ofShape (.arity kind operands.length))

variable {more less : List Operand} {kind : Kind}

theorem stays_passOne (covers : List.Forall₂ Covers more less) :
    Stays less (passOne kind more) (passOne kind less) := by
  cases covers with
  | nil => exact stays_rfl _
  | cons first rest =>
    cases rest with
    | nil => exact first.stays_value (by simp)
    | cons _ rest => exact .inl (by simp [passOne, rest.length_eq])

theorem stays_passOneOr {three : Operand → Operand → Operand → Except Fault Value}
    (stays : ∀ {a b c a' b' c'}, Covers a' a → Covers b' b → Covers c' c → a ∈ less → b ∈ less →
      c ∈ less → Stays less (three a' b' c') (three a b c))
    (covers : List.Forall₂ Covers more less) :
    Stays less (passOneOr kind three more) (passOneOr kind three less) := by
  cases covers with
  | nil => exact stays_rfl _
  | cons first rest =>
    cases rest with
    | nil => exact first.stays_value (by simp)
    | cons second rest =>
      cases rest with
      | nil => exact stays_rfl _
      | cons third rest =>
        cases rest with
        | nil => exact stays first second third (by simp) (by simp) (by simp)
        | cons _ rest => exact .inl (by simp [passOneOr, rest.length_eq])

end Rule

open Operand in
/-- **Knowing more changes nothing**, but where a rule had asked for a missing value.  One case for
each kind, by the operands that its rule reads. -/
theorem rule_of_covers {env : Environment} {kind : Kind} {slice : String}
    {more less : List Operand} (covers : List.Forall₂ Covers more less) :
    Stays less (rule env kind slice more) (rule env kind slice less) := by
  cases kind with
  | additive | multiplicative => exact Rule.stays_chain covers (List.Subset.refl _)
  | number | text | symbol | reference => exact stays_rfl _
  | group | primary | unary | expression | condition | consequent | alternative =>
    exact Rule.stays_passOne covers
  | disjunction | conjunction =>
    exact Rule.stays_passOneOr
      (fun left operator right ha _ hc => Rule.stays_connective left operator right ha hc) covers
  | equality =>
    exact Rule.stays_passOneOr
      (fun left operator right ha _ hc => Rule.stays_equality left operator right ha hc) covers
  | relational =>
    exact Rule.stays_passOneOr
      (fun left operator right ha _ hc => Rule.stays_relation left operator right ha hc) covers
  | call =>
    cases covers with
    | nil => exact stays_rfl _
    | cons first rest =>
      refine first.stays_symbol.bind fun name => ?_
      refine (Rule.stays_values rest (List.subset_cons_self _ _)).bind fun arguments => ?_
      exact stays_rfl _
  | signed =>
    cases covers with
    | nil => exact stays_rfl _
    | cons sign rest =>
      cases rest with
      | nil => exact stays_rfl _
      | cons operand rest =>
        cases rest with
        | nil => exact Rule.stays_signed sign operand (by simp)
        | cons _ rest => exact .inl (by simp [rule, rest.length_eq])
  | conditional =>
    cases covers with
    | nil => exact stays_rfl _
    | cons condition rest =>
      cases rest with
      | nil => exact stays_rfl _
      | cons consequent rest =>
        cases rest with
        | nil => exact stays_rfl _
        | cons alternative rest =>
          cases rest with
          | nil =>
            exact Rule.stays_choice condition consequent alternative (by simp) (by simp) (by simp)
          | cons _ rest => exact .inl (by simp [rule, rest.length_eq])

/-! ## 3. Demand

Which operands have to be known so that a rule asks for nothing that is missing depends on the
values of others: of a conditional only the chosen branch, of a connective the right side unless the
left one decides.  `DemandMet` says so for lists of operands, and then no request is left: the rule
has its outcome, and with more knowledge the same one. -/

/-- **What a kind demands of its operands is known**: of a conditional the condition and the branch
that it chooses, of a connective the left side and, where that lets it through, the right one, and
of all other nodes everything. -/
def DemandMet : Kind → List Operand → Prop
  | .conditional, [condition, consequent, alternative] =>
    ∃ v, condition.value? = some v ∧ (v = .bool true → consequent.value? ≠ none) ∧
      (v = .bool false → alternative.value? ≠ none)
  | .conjunction, [left, _, right] =>
    ∃ v, left.value? = some v ∧ (v = .bool true → right.value? ≠ none)
  | .disjunction, [left, _, right] =>
    ∃ v, left.value? = some v ∧ (v = .bool false → right.value? ≠ none)
  | _, operands => ∀ o ∈ operands, o.value? ≠ none

open Operand

/-- Where everything is known, every demand is met. -/
theorem demandMet_of_known {kind : Kind} {operands : List Operand}
    (known : ∀ o ∈ operands, o.value? ≠ none) : DemandMet kind operands := by
  unfold DemandMet
  split
  · rename_i condition consequent alternative
    obtain ⟨v, value⟩ := Option.ne_none_iff_exists'.mp (known condition (by simp))
    exact ⟨v, value, fun _ => known consequent (by simp), fun _ => known alternative (by simp)⟩
  · rename_i left operator right
    obtain ⟨v, value⟩ := Option.ne_none_iff_exists'.mp (known left (by simp))
    exact ⟨v, value, fun _ => known right (by simp)⟩
  · rename_i left operator right
    obtain ⟨v, value⟩ := Option.ne_none_iff_exists'.mp (known left (by simp))
    exact ⟨v, value, fun _ => known right (by simp)⟩
  · exact known

/-- **Operands that know more meet what others meet.**  The condition of the more knowing row is the
same, and so is the operand that it chooses. -/
theorem DemandMet.of_covers {kind : Kind} {more less : List Operand}
    (covers : List.Forall₂ Covers more less) (met : DemandMet kind less) : DemandMet kind more := by
  have known : ∀ {o o' : Operand}, Covers o' o → o.value? ≠ none → o'.value? ≠ none := by
    intro o o' covers known
    obtain ⟨v, value⟩ := Option.ne_none_iff_exists'.mp known
    rw [covers.value v value]
    exact Option.some_ne_none v
  unfold DemandMet at met
  split at met
  · obtain ⟨v, decided, yes, no⟩ := met
    rcases covers with _ | ⟨first, _ | ⟨second, _ | ⟨third, _ | _⟩⟩⟩
    exact ⟨v, first.value v decided, fun same => known second (yes same),
      fun same => known third (no same)⟩
  · obtain ⟨v, decided, passes⟩ := met
    rcases covers with _ | ⟨first, _ | ⟨second, _ | ⟨third, _ | _⟩⟩⟩
    exact ⟨v, first.value v decided, fun same => known third (passes same)⟩
  · obtain ⟨v, decided, passes⟩ := met
    rcases covers with _ | ⟨first, _ | ⟨second, _ | ⟨third, _ | _⟩⟩⟩
    exact ⟨v, first.value v decided, fun same => known third (passes same)⟩
  · refine demandMet_of_known fun o member => ?_
    obtain ⟨i, inside, rfl⟩ := List.getElem_of_mem member
    have other : i < less.length := covers.length_eq ▸ inside
    exact known (List.Forall₂.get covers inside other) (met _ (List.get_mem less ⟨i, other⟩))

/-- A value that is known can be asked for. -/
theorem exists_value_of_known {o : Operand} (known : o.value? ≠ none) : ∃ v, o.value = .ok v := by
  obtain ⟨v, known⟩ := Option.ne_none_iff_exists'.mp known
  exact ⟨v, by rw [Operand.value, known]⟩

/-- A truth value fails for its type alone where the value is known. -/
theorem truth_not_asks {o : Operand} (known : o.value? ≠ none) (role : Role) (i : Nat) :
    o.truth role ≠ .error (.ofShape (.notComputed i)) := by
  obtain ⟨v, value⟩ := exists_value_of_known known
  rw [truth, value]
  cases v <;> exact fun failed => by cases failed

theorem truth_eq_ok_iff {o : Operand} {v : Value} (known : o.value? = some v) {role : Role}
    {truth : Bool} : o.truth role = .ok truth ↔ v = .bool truth := by
  have value : o.value = .ok v := by rw [Operand.value, known]
  rw [Operand.truth, value]
  constructor
  · intro read
    cases v with
    | bool found => cases read; rfl
    | _ => cases read
  · rintro rfl
    rfl

theorem symbol_not_asks (o : Operand) (i : Nat) :
    o.symbol ≠ .error (.ofShape (.notComputed i)) := by
  rw [symbol]
  split <;> exact fun failed => by cases failed

/-- A conditional whose demand is met asks for nothing that is missing. -/
theorem choice_not_asks {condition consequent alternative : Operand} {v : Value}
    (known : condition.value? = some v) (yes : v = .bool true → consequent.value? ≠ none)
    (no : v = .bool false → alternative.value? ≠ none) (i : Nat) :
    Rule.choice condition consequent alternative ≠ .error (.ofShape (.notComputed i)) := by
  refine bind_ne_error (truth_not_asks (by simp [known]) _ i) fun truth decided => ?_
  have decided := (truth_eq_ok_iff known).mp decided
  cases truth with
  | true =>
    obtain ⟨w, value⟩ := exists_value_of_known (yes decided)
    simp [value]
  | false =>
    obtain ⟨w, value⟩ := exists_value_of_known (no decided)
    simp [value]

/-- A connective whose demand is met asks for nothing that is missing. -/
theorem connective_not_asks {kind : Kind} {token : String} (decisive : Bool)
    {left operator right : Operand} {v : Value} (known : left.value? = some v)
    (passes : v = .bool (!decisive) → right.value? ≠ none) (i : Nat) :
    Rule.connective kind token decisive left operator right
      ≠ .error (.ofShape (.notComputed i)) := by
  refine bind_ne_error (symbol_not_asks operator i) fun symbol _ => ?_
  dsimp only
  split
  · exact fun failed => by cases failed
  · refine bind_ne_error (truth_not_asks (by simp [known]) _ i) fun truth decided => ?_
    have decided := (truth_eq_ok_iff known).mp decided
    split
    · exact fun failed => by cases failed
    · rename_i undecided
      have through : truth = !decisive := by cases truth <;> cases decisive <;> simp_all
      refine bind_ne_error (truth_not_asks (passes (through ▸ decided)) _ i) fun result _ => ?_
      exact fun failed => by cases failed

/-- **Where the demand is met, no rule asks for a value that is missing.** -/
theorem DemandMet.not_asks {env : Environment} {kind : Kind} {slice : String}
    {operands : List Operand} (met : DemandMet kind operands) {fault : Fault}
    (asks : Asks operands fault) : rule env kind slice operands ≠ .error fault := by
  obtain ⟨o, member, missing, rfl⟩ := asks
  unfold DemandMet at met
  split at met
  · obtain ⟨v, known, yes, no⟩ := met
    exact choice_not_asks known yes no o.index
  · obtain ⟨v, known, passes⟩ := met
    exact connective_not_asks false known passes o.index
  · obtain ⟨v, known, passes⟩ := met
    exact connective_not_asks true known passes o.index
  · exact absurd missing (met o member)

/-- **A rule whose demand is met has its outcome**, however much more its operands know. -/
theorem rule_eq_of_met {env : Environment} {kind : Kind} {slice : String}
    {more less : List Operand} (covers : List.Forall₂ Covers more less)
    (met : DemandMet kind less) : rule env kind slice more = rule env kind slice less := by
  rcases rule_of_covers covers with same | ⟨fault, asks, failed⟩
  · exact same
  · exact absurd failed (met.not_asks asks)

end DecimalExpression
