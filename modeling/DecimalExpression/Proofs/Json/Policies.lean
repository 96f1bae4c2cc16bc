import DecimalExpression.Json.Policy
import DecimalExpression.Proofs.Decimal.Digits
import DecimalExpression.Proofs.Json.Strict

/-!
# Policies that are written and read back

A policy is written as an object of its fields (`Policy.spellsText_write`), and what stands for it
need not be that object: the fields may be in any order, here and in the object of the precision,
members with other names may stand between them, and a field that the default policy has too may be
left out (`Policy.Layout`).  All of these are read as the policy (`Policy.ofJson?_of_layout`), with
blanks and escapes as the text has them.

A field whose name comes up twice is refused, and so is a precision that is not an object of both
its fields (`Policy.ofJson?_of_repeated`, `Policy.ofJson?_of_precision`).
-/

namespace DecimalExpression

/-! ## 1. Fields of an object

A reader of objects looks fields up by name and refuses a name that comes up twice.  What it finds
depends on the members of that name alone, in their order, and that row of members is what
`Arranges` fixes: it lets known fields stand in any order and strangers between them. -/

namespace Json

variable {name : String} {value : Json} {known : List String}
  {fields members kept : List (String × Json)}

/-- How often a name comes up. -/
theorem count_names (name : String) (members : List (String × Json)) :
    (members.map (·.1)).count name = (members.filter (·.1 == name)).length := by
  rw [List.count, List.countP_map, List.countP_eq_length_filter]
  rfl

/-- **A field is ambiguous** where its name comes up twice. -/
theorem field?_eq_none_iff : field? name members = none ↔ 2 ≤ (members.map (·.1)).count name := by
  rw [count_names, field?]
  generalize members.filter (·.1 == name) = here
  rcases here with _ | ⟨member, _ | ⟨other, more⟩⟩ <;> simp

/-- **A field is missing** where its name does not come up. -/
theorem field?_eq_some_none_iff :
    field? name members = some none ↔ (members.map (·.1)).count name = 0 := by
  rw [count_names, field?]
  generalize members.filter (·.1 == name) = here
  rcases here with _ | ⟨member, _ | ⟨other, more⟩⟩ <;> simp

/-- A field that is there, and not ambiguous, is the only one of its name. -/
theorem field?_of_mem {found : Option Json} (inside : (name, value) ∈ members)
    (read : field? name members = some found) :
    found = some value := by
  have here : (name, value) ∈ members.filter (·.1 == name) :=
    List.mem_filter.mpr ⟨inside, beq_self_eq_true name⟩
  rw [field?] at read
  split at read
  · rename_i none
    rw [none] at here
    cases here
  · rename_i member one
    rw [one, List.mem_singleton] at here
    rw [← Option.some.inj read, ← here]
  · cases read

/-- **Fields arranged among members**: in any order, with others between them whose names are not
known. -/
def Arranges (known : List String) (fields members : List (String × Json)) : Prop :=
  ∃ others, (∀ other ∈ others, other.1 ∉ known) ∧ members.Perm (fields ++ others)

/-- Fields are arranged as they are. -/
theorem arranges_self (known : List String) (fields : List (String × Json)) :
    Arranges known fields fields :=
  ⟨[], List.forall_mem_nil _, by rw [List.append_nil]⟩

/-- **A known field is the same one**, however the fields are arranged.  Fields that are not known
do not have the name, and of the others one at most has it, so no order can tell them apart. -/
theorem Arranges.field?_eq (arranged : Arranges known fields members) (isKnown : name ∈ known) :
    field? name members = field? name fields := by
  obtain ⟨others, unknown, perm⟩ := arranged
  have none : others.filter (·.1 == name) = [] := by
    refine List.filter_eq_nil_iff.mpr fun other inside same => unknown other inside ?_
    rwa [beq_iff_eq.mp same]
  have same := perm.filter (·.1 == name)
  rw [List.filter_append, none, List.append_nil] at same
  rw [field?, field?]
  generalize members.filter (·.1 == name) = here at same ⊢
  generalize fields.filter (·.1 == name) = there at same ⊢
  -- Where one member at most has the name, there is only one order of them.
  rcases there with _ | ⟨member, _ | ⟨other, more⟩⟩
  · rw [List.perm_nil.mp same]
  · rw [List.perm_singleton.mp same]
  · have several := same.length_eq
    rcases here with _ | ⟨member', _ | ⟨other', more'⟩⟩
    · cases several
    · cases several
    · rfl

/-- **A field of some that are kept** is there, or it is not kept. -/
theorem field?_of_sublist (sublist : kept.Sublist fields)
    (one : fields.filter (·.1 == name) = [(name, value)]) :
    field? name kept = some (some value) ∨ field? name kept = some none ∧ (name, value) ∉ kept := by
  have less := sublist.filter (·.1 == name)
  rw [one, List.sublist_singleton] at less
  rcases less with none | same
  · refine .inr ⟨by rw [field?, none], fun inside => ?_⟩
    exact List.filter_eq_nil_iff.mp none _ inside (beq_self_eq_true name)
  · exact .inl (by rw [field?, same])

/-- The members whose names have texts are those that are named. -/
theorem eq_named_of_namedMembers? {members : List (Option String × Json)}
    {found : List (String × Json)}
    (read : namedMembers? members = some found) : members = named found := by
  have each := mapM_eq_some_iff.mp read
  induction each with
  | nil => rfl
  | cons here _ ih =>
    obtain ⟨name, isName, rfl⟩ := Option.map_eq_some_iff.mp here
    rw [named, List.map_cons, ← named, ← ih (mapM_eq_some_iff.mpr ‹_›), ← isName]

theorem count_named (name : String) (members : List (String × Json)) :
    ((named members).map (·.1)).count (some name) = (members.map (·.1)).count name := by
  rw [← List.count_map_of_injective (members.map (·.1)) some (Option.some_injective _),
    named, List.map_map,
    List.map_map]
  rfl

end Json

/-! ## 2. Numbers and names

The values in a policy are small: plain integers within their range, and names of modes.  Each is
written in one way and read back from it, and different values are written differently. -/

/-- The number that a natural number is written as. -/
def JsonNumber.plain (n : Nat) : JsonNumber := ⟨false, Digits.write n, none, none⟩

namespace JsonNumber

theorem spells_plain (n : Nat) : (plain n).Spells (Digits.write n) :=
  ⟨⟨⟨Digits.write_ne_nil n, Digits.isDigit_of_mem_write n⟩,
    Digits.write_of_head?, by rintro _ ⟨⟩, by rintro _ ⟨⟩⟩,
    [], .absent, by simp [plain, sign, pointed]⟩

theorem natural?_plain (n : Nat) : (plain n).natural? = some n :=
  congrArg some (Digits.read_write n)

theorem plain_inj {n m : Nat} (same : plain n = plain m) : n = m := by
  have read := congrArg natural? same
  rwa [natural?_plain, natural?_plain, Option.some.injEq] at read

end JsonNumber

theorem Json.natBelow?_plain {bound n : Nat} (small : n < bound) :
    natBelow? bound (.number (.plain n)) = some n := by
  rw [natBelow?, JsonNumber.natural?_plain]
  exact if_pos (decide_eq_true small)

theorem RoundingMode.name_inj {a b : RoundingMode} (same : a.name = b.name) : a = b := by
  have read := congrArg ofName? same
  rwa [ofName?_name, ofName?_name, Option.some.injEq] at read

/-! ## 3. Precisions

A precision has two fields, and neither has a default.  So it is read from every arrangement of
both, and from nothing that has one of them not at all or more than once (`ofJson?_of_count`). -/

namespace Precision

/-- The names of the fields. -/
def names : List String := ["digits", "rounding_mode"]

/-- The fields of a precision. -/
def fields (p : Precision) : List (String × Json) :=
  [("digits", .number (.plain p.digits.toNat)), ("rounding_mode", .string (some p.mode.name))]

/-- **What a precision is written as**, if there is one. -/
def toJson : Option Precision → Json
  | none => .null
  | some p => .object (Json.named p.fields)

/-- **What stands for a precision**, if there is one: an object of its fields, or null for none. -/
inductive Layout : Option Precision → Json → Prop
  | none : Layout none .null
  | some {p : Precision} {members : List (String × Json)}
    (arranged : Json.Arranges names p.fields members) :
    Layout (some p) (.object (Json.named members))

theorem layout_toJson : (p : Option Precision) → Layout p (toJson p)
  | .none => .none
  | .some p => .some (Json.arranges_self names p.fields)

/-- **A precision is read back** from any arrangement of its fields. -/
theorem ofJson?_of_arranges {p : Precision} {members : List (String × Json)}
    (arranged : Json.Arranges names p.fields members) :
    ofJson? (.object (Json.named members)) = some p := by
  have digits : Json.field? "digits" members = some (some _) := arranged.field?_eq (by decide)
  have mode : Json.field? "rounding_mode" members = some (some _) := arranged.field?_eq (by decide)
  rw [ofJson?, Json.namedMembers?_named, Option.bind_eq_bind, Option.bind_some, digits, mode]
  simp [Json.natBelow?_plain p.digits.toNat_lt, RoundingMode.ofJson?]

/-- **A precision has both its fields once**, or it is refused. -/
theorem ofJson?_of_count {name : String} {members : List (Option String × Json)}
    (isKnown : name ∈ names)
    (notOnce : (members.map (·.1)).count (some name) ≠ 1) : ofJson? (.object members) = none := by
  rw [ofJson?]
  cases read : Json.namedMembers? members with
  | none => rfl
  | some found =>
    rw [Json.eq_named_of_namedMembers? read, Json.count_named] at notOnce
    have refused : Json.field? name found = none ∨ Json.field? name found = some none := by
      rw [Json.field?_eq_none_iff, Json.field?_eq_some_none_iff]
      omega
    rw [Option.bind_eq_bind, Option.bind_some]
    rcases List.mem_pair.mp isKnown with rfl | rfl
    · rcases refused with same | same <;> rw [same] <;> rfl
    · cases Json.field? "digits" found with
      | none => rfl
      | some digits => cases digits <;> rcases refused with same | same <;> rw [same] <;> rfl

end Precision

/-! ## 4. Policies

Policies have defaults, which is why their layouts are wider than arrangements of their fields: a
field that says what the default says may be left out.  Each of the three fields is then read on its
own (`exists_field`), and what is missing is what the default is. -/

namespace Policy

/-- The names of the fields. -/
def names : List String := ["default_scale", "default_rounding_mode", "precision"]

/-- The fields of a policy, with what stands for its precision. -/
def fields (p : Policy) (precision : Json) : List (String × Json) :=
  [("default_scale", .number (.plain p.scale.toNat)),
    ("default_rounding_mode", .string (some p.mode.name)),
    ("precision", precision)]

/-- **What a policy is written as.** -/
def toJson (p : Policy) : Json := .object (Json.named (p.fields (Precision.toJson p.precision)))

/-- **What stands for a policy**: an object of its fields.  A field may be left out if it is one of
the default policy, too. -/
inductive Layout (p : Policy) : Json → Prop
  | object {precision : Json} (layout : Precision.Layout p.precision precision)
    {kept members : List (String × Json)}
    (sublist : kept.Sublist (p.fields precision))
    (dropped : ∀ field ∈ p.fields precision, field ∉ kept →
      field ∈ standard.fields (Precision.toJson standard.precision))
    (arranged : Json.Arranges names kept members) : Layout p (.object (Json.named members))

theorem layout_toJson (p : Policy) : p.Layout p.toJson :=
  .object (Precision.layout_toJson p.precision) (List.Sublist.refl _)
    (fun _ inside dropped => absurd inside dropped)
    (Json.arranges_self names _)

theorem scaleOfJson?_plain (scale : UInt32) :
    scaleOfJson? (.number (.plain scale.toNat)) = some scale := by
  rw [scaleOfJson?, Json.natBelow?_plain scale.toNat_lt]
  exact congrArg some scale.ofNat_toNat

theorem precisionOfJson?_of_layout {p : Option Precision} {json : Json}
    (layout : Precision.Layout p json) :
    precisionOfJson? json = some p := by
  cases layout with
  | none => rfl
  | some arranged =>
    rw [precisionOfJson?, Precision.ofJson?_of_arranges arranged]
    · rfl
    · rintro ⟨⟩

variable {p : Policy} {json value : Json} {name : String}
  {fields members kept : List (String × Json)}

/-- **A field is read**, or it is left out and has its default. -/
theorem exists_field {α : Type} {x standard : α} {read : Json → Option α}
    (arranged : Json.Arranges names kept members) (isKnown : name ∈ names)
    (sublist : kept.Sublist fields)
    (one : fields.filter (·.1 == name) = [(name, value)]) (reads : read value = some x)
    (dropped : (name, value) ∉ kept → x = standard) :
    ∃ found, Json.field? name members = some found ∧ fieldOr standard read found = some x := by
  rw [arranged.field?_eq isKnown]
  rcases Json.field?_of_sublist sublist one with here | ⟨none, out⟩
  · exact ⟨_, here, reads⟩
  · exact ⟨_, none, congrArg some (dropped out).symm⟩

/-- **A field that the default policy has too** says what the default is. -/
theorem scale_of_mem_standard (same : ("default_scale",
    .number (.plain p.scale.toNat)) ∈ standard.fields json) :
    p.scale = standard.scale := by
  have number : JsonNumber.plain p.scale.toNat = .plain standard.scale.toNat := by
    simpa [Policy.fields] using same
  exact UInt32.toNat_inj.mp (JsonNumber.plain_inj number)

theorem mode_of_mem_standard (same : ("default_rounding_mode",
    .string (some p.mode.name)) ∈ standard.fields json) :
    p.mode = standard.mode := by
  have name : p.mode.name = standard.mode.name := by simpa [Policy.fields] using same
  exact RoundingMode.name_inj name

theorem precision_of_mem_standard (layout : Precision.Layout p.precision value)
    (same : ("precision", value) ∈ standard.fields (Precision.toJson standard.precision)) :
    p.precision = standard.precision := by
  have null : value = Precision.toJson standard.precision := by simpa [Policy.fields] using same
  rw [null] at layout
  have read := precisionOfJson?_of_layout layout
  exact (Option.some.inj read).symm

/-- **Whatever stands for a policy is read as it.**  Field by field: it is given as it is written,
or it is left out and has its default. -/
theorem ofJson?_of_layout (layout : p.Layout json) : ofJson? json = some p := by
  obtain ⟨isPrecision, sublist, dropped, arranged⟩ := layout
  rename_i precision kept members
  have leftOut : ∀ name value, (name, value) ∈ p.fields precision → (name, value) ∉ kept →
      (name, value) ∈ standard.fields (Precision.toJson standard.precision) :=
    fun name value => dropped (name, value)
  have scale : ∃ found, Json.field? "default_scale" members = some found ∧
      fieldOr standard.scale scaleOfJson? found = some p.scale :=
    exists_field arranged (by decide) sublist rfl (scaleOfJson?_plain p.scale) fun out =>
      scale_of_mem_standard (leftOut _ _ (by simp [Policy.fields]) out)
  have mode : ∃ found, Json.field? "default_rounding_mode" members = some found ∧
      fieldOr standard.mode RoundingMode.ofJson? found = some p.mode :=
    exists_field arranged (by decide) sublist rfl (RoundingMode.ofName?_name p.mode) fun out =>
      mode_of_mem_standard (leftOut _ _ (by simp [Policy.fields]) out)
  have precision : ∃ found, Json.field? "precision" members = some found ∧
      fieldOr standard.precision precisionOfJson? found = some p.precision :=
    exists_field arranged (by decide) sublist rfl
      (precisionOfJson?_of_layout isPrecision) fun out =>
      precision_of_mem_standard isPrecision (leftOut _ _ (by simp [Policy.fields]) out)
  obtain ⟨_, isScale, readScale⟩ := scale
  obtain ⟨_, isMode, readMode⟩ := mode
  obtain ⟨_, isPrecision, readPrecision⟩ := precision
  rw [ofJson?, Json.namedMembers?_named]
  simp only [Option.bind_eq_bind, Option.bind_some, isScale, isMode, isPrecision, ofFields?,
    readScale, readMode,
    readPrecision]
  rfl

/-! ## 5. Policies that are refused

Refusals are shown with the same look-ups.  A precision may be given by name or by its place in an
array (`GivesPrecision`), and a policy is refused with it in both forms, whatever the other fields
are. -/

/-- **A known field that comes up twice is refused.** -/
theorem ofJson?_of_repeated {members : List (Option String × Json)} (isKnown : name ∈ names)
    (twice : 2 ≤ (members.map (·.1)).count (some name)) : ofJson? (.object members) = none := by
  rw [ofJson?]
  cases read : Json.namedMembers? members with
  | none => rfl
  | some found =>
    rw [Json.eq_named_of_namedMembers? read, Json.count_named, ← Json.field?_eq_none_iff] at twice
    rw [Option.bind_eq_bind, Option.bind_some]
    simp only [names, List.mem_cons, List.not_mem_nil, or_false] at isKnown
    rcases isKnown with rfl | rfl | rfl
    · rw [twice]
      rfl
    · rw [twice]
      cases Json.field? "default_scale" found <;> rfl
    · rw [twice]
      cases Json.field? "default_scale" found <;> cases Json.field? "default_rounding_mode" found
        <;> rfl

/-- **What is given for the precision**, by name or in the third place. -/
inductive GivesPrecision : Json → Json → Prop
  | member {members : List (Option String × Json)} {value : Json}
    (inside : (some "precision", value) ∈ members) :
    GivesPrecision (.object members) value
  | item (scale mode value : Json) (more : List Json) :
    GivesPrecision (.array (scale :: mode :: value :: more)) value

/-- The fields of a policy are refused with one of them. -/
theorem ofFields?_of_precision {scale mode : Option Json}
    (refused : precisionOfJson? value = none) :
    ofFields? scale mode (some value) = none := by
  have precision : fieldOr standard.precision precisionOfJson? (some value) = none := refused
  rw [ofFields?, precision]
  cases fieldOr standard.scale scaleOfJson? scale
    <;> cases fieldOr standard.mode RoundingMode.ofJson? mode <;> rfl

/-- **A policy is refused with its precision.**  The field is in its place in a list, or it is among
the members of an object, where another field may be refused before. -/
theorem ofJson?_of_precision (gives : GivesPrecision json value)
    (refused : precisionOfJson? value = none) :
    ofJson? json = none := by
  cases gives with
  | item scale mode value more =>
    cases more with
    | nil => exact ofFields?_of_precision refused
    | cons => rfl
  | @member members _ inside =>
    rw [ofJson?]
    cases read : Json.namedMembers? members with
    | none => rfl
    | some found =>
      have inside : ("precision", value) ∈ found := by
        rw [Json.eq_named_of_namedMembers? read, Json.named] at inside
        simpa using inside
      rw [Option.bind_eq_bind, Option.bind_some]
      cases Json.field? "default_scale" found with
      | none => rfl
      | some scale =>
        cases Json.field? "default_rounding_mode" found with
        | none => rfl
        | some mode =>
          cases here : Json.field? "precision" found with
          | none => rfl
          | some precision =>
            rw [Json.field?_of_mem inside here]
            exact ofFields?_of_precision refused

end Policy

/-! ## 6. Texts

What `write` gives is one text of the object of the fields, the one without blanks.  Every other
text of it, and every text of another layout, is read by the grammar as the value it spells
(`Json.read?_eq_some_iff`), so nothing here mentions blanks or escapes. -/

namespace Json

/-- A member without blanks. -/
def Member.compact (name : String) (text : List Char) (value : Json) : Member :=
  ⟨name.toList, [], [], text, some name, value⟩

/-- A text that is written as it is. -/
theorem spellsString_toList {content : String}
    (plain : ∀ c ∈ content.toList, c ≠ '"' ∧ c ≠ '\\' ∧ 0x20 ≤ c.toNat) :
    SpellsString content.toList (some content) := by
  have spells := spellsString_self plain
  rwa [String.ofList_toList] at spells

theorem spells_member {name : String} {text : List Char} {value : Json} (spells : Spells text value)
    (plain : ∀ c ∈ name.toList, c ≠ '"' ∧ c ≠ '\\' ∧ 0x20 ≤ c.toNat) :
    Spells (Member.compact name text value).text (Member.compact name text value).value ∧
      (Member.compact name text value).IsNamed :=
  ⟨spells, spellsString_toList plain, List.forall_mem_nil _, List.forall_mem_nil _⟩

theorem row_intercalate {words : List (List Char)} (some : words ≠ []) :
    Row words ([','].intercalate words) := by
  have blank : IsBlank [] := List.forall_mem_nil _
  induction words with
  | nil => exact absurd rfl some
  | cons word words ih =>
    cases words with
    | nil =>
      have last : Row [word] ([] ++ word ++ []) := .last blank blank
      simpa using last
    | cons second more =>
      have rest := ih (List.cons_ne_nil _ _)
      have row : Row (word :: second :: more)
          ([] ++ word ++ [] ++ ',' :: [','].intercalate (second :: more)) :=
        .more blank blank rest
      simpa using row

/-- **An object without blanks.** -/
theorem spells_compact {members : List Member} (some : members ≠ [])
    (each : ∀ m ∈ members, Spells m.text m.value ∧ m.IsNamed) :
    Spells ('\x7b' :: [','].intercalate (members.map Member.chars) ++ ['\x7d'])
    (.object (members.map Member.entry)) :=
  .object (fun m inside => (each m inside).1) (fun m inside => (each m inside).2)
    (row_intercalate (List.map_eq_nil_iff.not.mpr some))

theorem spells_plain (n : Nat) : Spells (Digits.write n) (.number (.plain n)) :=
  .number (JsonNumber.spells_plain n)

theorem spells_mode (mode : RoundingMode) :
    Spells ('"' :: mode.name.toList ++ ['"']) (.string (some mode.name)) := by
  refine .string (spellsString_toList ?_)
  cases mode <;> simp [RoundingMode.name]

end Json

section Written

open Json

/-- The members of a precision. -/
def Precision.members (p : Precision) : List Member :=
  [.compact "digits" (Digits.write p.digits.toNat) (.number (.plain p.digits.toNat)),
    .compact "rounding_mode" ('"' :: p.mode.name.toList ++ ['"']) (.string (some p.mode.name))]

/-- **A precision is written** as an object of its fields. -/
theorem Policy.spells_writePrecision (p : Option Precision) :
    Spells (writePrecision p).toList (Precision.toJson p) := by
  cases p with
  | none =>
    have text : (writePrecision none).toList = ['n', 'u', 'l', 'l'] := rfl
    rw [text]
    exact .null
  | some p =>
    have each : ∀ m ∈ p.members, Spells m.text m.value ∧ m.IsNamed :=
      List.forall_mem_cons.mpr ⟨spells_member (spells_plain _) (by simp),
        List.forall_mem_singleton.mpr (spells_member (spells_mode _) (by simp))⟩
    have text : (writePrecision (some p)).toList
        = '\x7b' :: [','].intercalate (p.members.map Member.chars) ++ ['\x7d'] := by
      simp [writePrecision, Precision.members, Member.compact, Member.chars]
    rw [text]
    exact spells_compact (List.cons_ne_nil _ _) each

/-- The members of a policy. -/
def Policy.members (p : Policy) : List Member :=
  [.compact "default_scale" (Digits.write p.scale.toNat) (.number (.plain p.scale.toNat)),
    .compact "default_rounding_mode" ('"' :: p.mode.name.toList ++ ['"'])
    (.string (some p.mode.name)),
    .compact "precision" (writePrecision p.precision).toList (Precision.toJson p.precision)]

theorem Policy.spells_members (p : Policy) : ∀ m ∈ p.members, Spells m.text m.value ∧ m.IsNamed :=
  List.forall_mem_cons.mpr ⟨spells_member (spells_plain _) (by simp), List.forall_mem_cons.mpr
    ⟨spells_member (spells_mode _) (by simp),
      List.forall_mem_singleton.mpr (spells_member (spells_writePrecision _) (by simp))⟩⟩

/-- **A policy is written** as an object of its fields. -/
theorem Policy.spellsText_write (p : Policy) : SpellsText p.write p.toJson := by
  have text : p.write.toList = [] ++ ('\x7b' :: [','].intercalate
      (p.members.map Member.chars) ++ ['\x7d']) ++ [] := by
    unfold Policy.write
    simp [Policy.members, Member.compact, Member.chars]
  have blank : IsBlank [] := List.forall_mem_nil _
  exact ⟨[], _, [], blank, blank, spells_compact (List.cons_ne_nil _ _) p.spells_members, text⟩

theorem Policy.ofJsonText_eq {text : String} {json : Json} (spells : SpellsText text json) :
    ofJsonText text = match ofJson? json with
      | some policy => .ok policy
      | none => .error .invalidJson := by
  rw [ofJsonText, read?_eq_some_iff.mpr spells]
  rfl

theorem Policy.ofJsonText_of_layout {p : Policy} {text : String} {json : Json}
    (layout : p.Layout json)
    (spells : SpellsText text json) : ofJsonText text = .ok p := by
  rw [ofJsonText_eq spells, ofJson?_of_layout layout]

theorem Policy.ofJsonText_of_none {text : String} {json : Json} (refused : ofJson? json = none)
    (spells : SpellsText text json) : ofJsonText text = .error .invalidJson := by
  rw [ofJsonText_eq spells, refused]

/-- **A policy survives its text**, and every text of what stands for it: with fields in another
order, with others between them, without those that have their defaults, and with blanks anywhere
between tokens.  A text is refused where a known field comes up twice, or where one of a precision
does not come up once. -/
theorem Policy.ofJsonText_layouts (p : Policy) :
    (SpellsText p.write p.toJson ∧ p.Layout p.toJson ∧ ofJsonText p.write = .ok p) ∧
    (∀ text json, p.Layout json → SpellsText text json → ofJsonText text = .ok p) ∧
    (∀ text members, ∀ name ∈ names, 2 ≤ (members.map Prod.fst).count (some name) →
      SpellsText text (.object members) → ofJsonText text = .error .invalidJson) ∧
    ∀ text json members, GivesPrecision json (.object members) → ∀ name ∈ Precision.names,
      (members.map Prod.fst).count (some name) ≠ 1 → SpellsText text json →
        ofJsonText text = .error .invalidJson := by
  have written := p.spellsText_write
  refine ⟨⟨written, p.layout_toJson, ofJsonText_of_layout p.layout_toJson written⟩,
    fun _ _ => ofJsonText_of_layout,
    fun _ _ _ isKnown twice => ofJsonText_of_none (ofJson?_of_repeated isKnown twice),
    fun _ _ _ gives _ isKnown notOnce => ofJsonText_of_none (ofJson?_of_precision gives ?_)⟩
  rw [precisionOfJson?, Precision.ofJson?_of_count isKnown notOnce]
  · rfl
  · rintro ⟨⟩

/-- The mode and the precision of a policy are the other way round, with a note in front, and the
number of places is left out. -/
theorem Policy.ofJsonText_layouts_rearranged : ofJsonText
    ("\x7b\"note\":[],\"precision\":\x7b\"digits\":34,\"rounding_mode\":\"UP\"\x7d,"
      ++ "\"default_rounding_mode\":\"DOWN\"\x7d")
      = .ok ⟨10, .down, some ⟨34, .up⟩⟩ := by
  let p : Policy := ⟨10, .down, some ⟨34, .up⟩⟩
  let precision := Precision.toJson p.precision
  obtain ⟨-, layouts, -, -⟩ := ofJsonText_layouts p
  have layout : p.Layout (.object
      (named (("note", .array []) :: (p.fields precision).tail.reverse))) := by
    refine .object (Precision.layout_toJson _) (List.tail_sublist _) ?_
      ⟨[("note", .array [])], by simp [names], ?_⟩
    · simp [Policy.fields, p, standard]
    · exact ((List.reverse_perm _).cons _).trans (List.perm_append_singleton _ _).symm
  have blank : IsBlank [] := List.forall_mem_nil _
  have each : ∀ m ∈ Member.compact "note" ['[', ']'] (.array []) :: p.members.tail.reverse,
      Spells m.text m.value ∧ m.IsNamed :=
    List.forall_mem_cons.mpr ⟨spells_member (.emptyArray blank) (by simp), fun m inside =>
      p.spells_members m (List.mem_of_mem_tail (List.mem_reverse.mp inside))⟩
  have spells := spells_compact (List.cons_ne_nil _ _) each
  exact layouts _ _ layout ⟨[], _, [], blank, blank, spells, by decide⟩

end Written
end DecimalExpression
