import DecimalExpression.Json.Meaning
import DecimalExpression.Proofs.Json.Numbers
import DecimalExpression.Proofs.Json.Values

/-!
# Strict texts

`Json.readStrict?` gives a value exactly for its strict texts (`Json.readStrict?_eq_some_iff`).
What it gives is well formed: the names of an object have texts, and its numbers are those that JSON
can spell, written with no more characters than the text has (`Json.IsStrictObject.wellFormed`).
-/

namespace DecimalExpression
namespace Json

variable {text : String} {json : Json} {chars word : List Char} {n : JsonNumber}

/-! ## 1. Values by their parts

The checks of a value recurse through the lists of its items and members, each of which carries the
proof that it is smaller.  These equations say the same without those proofs; behind them nothing
opens the recursions again. -/

theorem hasTexts_object (members : List (Option String × Json)) :
    hasTexts (.object members) = members.all fun member =>
      member.1.isSome && member.2.hasTexts := by
  rw [hasTexts, List.all_subtype (g := fun member => member.1.isSome && member.2.hasTexts)
    fun _ _ => rfl,
    List.unattach_attach]

theorem depth_object (members : List (Option String × Json)) :
    depth (.object members) = members.foldl
    (fun deepest member => max deepest member.2.depth) 0 + 1 := by
  rw [depth, List.foldl_attach (f := fun (deepest : Nat) (member : Option String × Json) =>
    max deepest member.2.depth)]

theorem readNumbers?_object (members : List (Option String × Json)) :
    readNumbers? (.object members) =
    if isNumberObject members then (objectNumber? members).map number
    else (members.mapM fun member => (readNumbers? member.2).map (member.1, ·)).map object := by
  rw [readNumbers?, List.mapM_subtype (g := fun member => (readNumbers? member.2).map (member.1, ·))
    fun _ _ => rfl, List.unattach_attach, bind_pure_comp, Option.map_eq_map]

theorem readNumbers?_array (items : List Json) :
    readNumbers? (.array items) = (items.mapM readNumbers?).map array := by
  rw [readNumbers?, List.mapM_subtype (g := readNumbers?) fun _ _ => rfl, List.unattach_attach,
    bind_pure_comp,
    Option.map_eq_map]

/-- Every other value is what it is. -/
theorem readNumbers?_other (noArray : ∀ items, json ≠ .array items)
    (noObject : ∀ members, json ≠ .object members) :
    readNumbers? json = some json :=
  readNumbers?.eq_3 json noArray noObject

/-! ## 2. What is read

What is read of a value looks like the value, with one exception: an object that is marked as a
number is one.  `readNumbers?_cases` lists what can come out, and that list is all that is needed of
the reading.  A plain value has no such object in it, so it is read as it is. -/

/-- **The strict texts of a value** are those that are read as it. -/
theorem readStrict?_eq_some_iff : readStrict? text = some json ↔ IsStrict text json := by
  simp only [readStrict?, Option.bind_eq_some_iff, Option.filter_eq_some_iff,
    read?_eq_some_iff, IsStrict,
    Bool.and_eq_true, decide_eq_true_eq, and_assoc]

/-- A list is gone through where there is something for each of its items. -/
theorem mapM_eq_some_iff {α β : Type} {f : α → Option β} {items : List α} {found : List β} :
    items.mapM f = some found ↔ List.Forall₂ (fun a b => f a = some b) items found := by
  induction items generalizing found with
  | nil =>
    rw [List.mapM_nil, List.forall₂_nil_left_iff]
    exact ⟨fun same => (Option.some.inj same).symm, fun same => congrArg some same.symm⟩
  | cons a items ih =>
    rw [List.mapM_cons, List.forall₂_cons_left_iff]
    simp only [Option.bind_eq_bind, Option.bind_eq_some_iff, Option.pure_def, Option.some.injEq, ih]
    constructor
    · rintro ⟨b, first, more, rest, rfl⟩
      exact ⟨b, more, first, rest, rfl⟩
    · rintro ⟨b, more, first, rest, rfl⟩
      exact ⟨b, first, more, rest, rfl⟩

/-- Members are read in turn, and their names stay. -/
def ReadMembers (spelled members : List (Option String × Json)) : Prop :=
  List.Forall₂ (fun before after => after.1 = before.1 ∧ readNumbers? before.2 = some after.2)
    spelled members

/-- **What is read of a value**: the value itself, or an array or object of what is read of its
parts, or the number that an object gives. -/
theorem readNumbers?_cases {found : Json} (read : readNumbers? json = some found) :
    (found = json ∧ ∀ members, json ≠ .object members) ∨
    (∃ items, found = .array items) ∨
    (∃ spelled members, json = .object spelled ∧ found = .object members ∧
      ReadMembers spelled members) ∨
    ∃ name content number, json = .object [(name, .string (some content))] ∧
      found = .number number ∧ number.Spells content.toList := by
  cases json with
  | object spelled =>
    rw [readNumbers?_object] at read
    split at read
    · obtain ⟨number, isNumber, rfl⟩ := Option.map_eq_some_iff.mp read
      rw [objectNumber?.eq_def] at isNumber
      split at isNumber
      · exact .inr (.inr (.inr ⟨_, _, _, rfl, rfl, number?_eq_some_iff.mp isNumber⟩))
      · cases isNumber
    · obtain ⟨members, each, rfl⟩ := Option.map_eq_some_iff.mp read
      refine .inr (.inr (.inl ⟨_, _, rfl, rfl, (mapM_eq_some_iff.mp each).imp ?_⟩))
      rintro _ _ same
      obtain ⟨value, read, rfl⟩ := Option.map_eq_some_iff.mp same
      exact ⟨rfl, read⟩
  | array items =>
    rw [readNumbers?_array] at read
    obtain ⟨found, -, rfl⟩ := Option.map_eq_some_iff.mp read
    exact .inr (.inl ⟨_, rfl⟩)
  | _ =>
    rw [readNumbers?_other (by rintro _ ⟨⟩) (by rintro _ ⟨⟩)] at read
    exact .inl ⟨(Option.some.inj read).symm, by rintro _ ⟨⟩⟩

/-- A plain value is read as it is. -/
theorem readNumbers?_of_isPlain (plain : IsPlain json) : readNumbers? json = some json := by
  induction plain with
  | array each ih =>
    rw [readNumbers?_array, mapM_eq_some_iff.mpr (List.forall₂_same.mpr ih)]
    rfl
  | object front each ih =>
    rw [readNumbers?_object, front,
      mapM_eq_some_iff.mpr (List.forall₂_same.mpr fun member inside => ?_)]
    · rfl
    · rw [ih member inside]
      rfl
  | _ => exact readNumbers?_other (by rintro _ ⟨⟩) (by rintro _ ⟨⟩)

/-- **A text of a plain value is strict** if its strings have texts and its depth is limited. -/
theorem isStrict_iff_of_isPlain {spelled : Json} (spells : SpellsText text spelled)
    (plain : IsPlain spelled) :
    IsStrict text json ↔ json = spelled ∧ spelled.hasTexts ∧ spelled.depth ≤ depthLimit := by
  constructor
  · rintro ⟨spelled', spells', texts, depth, read⟩
    obtain rfl := spells.unique spells'
    rw [readNumbers?_of_isPlain plain] at read
    exact ⟨(Option.some.inj read).symm, texts, depth⟩
  · rintro ⟨rfl, texts, depth⟩
    exact ⟨json, spells, texts, depth, readNumbers?_of_isPlain plain⟩

/-! ## 3. No more characters than the text

How long a number is when it is written is bounded by the text it came from.  The texts of values
stand in each other, so the bound goes down through rows to the text of a member, and from there to
the digits; a number that is given as an object is spelled in a string and bounded through its
units. -/

theorem length_le_of_row {words : List (List Char)} (row : Row words chars) :
    ∀ word ∈ words, word.length ≤ chars.length := by
  induction row with
  | last atFront atEnd =>
    refine List.forall_mem_singleton.mpr ?_
    simp only [List.length_append]
    omega
  | more atFront atEnd rest ih =>
    refine List.forall_mem_cons.mpr ⟨?_, fun word member => ?_⟩
    · simp only [List.length_append]
      omega
    · have := ih word member
      simp only [List.length_append, List.length_cons]
      omega

/-- The text of a member's value, which is shorter than that of the object by its braces at
least. -/
theorem Spells.exists_member {members : List (Option String × Json)}
    (spells : Spells word (.object members)) :
    ∀ member ∈ members, ∃ chars, Spells chars member.2 ∧ chars.length + 2 ≤ word.length := by
  cases spells with
  | emptyObject => exact List.forall_mem_nil _
  | object each named row =>
    refine List.forall_mem_map.mpr fun m member => ⟨m.text, each m member, ?_⟩
    have longer := length_le_of_row row _ (List.mem_map_of_mem member)
    simp only [Member.chars, List.cons_append, List.length_cons, List.length_append,
      List.length_nil] at longer ⊢
    omega

theorem length_le_of_spellsUnits {units : List Nat} (spells : SpellsUnits chars units) :
    units.length ≤ chars.length := by
  induction spells with
  | nil => exact Nat.le_refl _
  | plain _ _ _ _ ih => exact Nat.succ_le_succ ih
  | escape _ _ ih => exact (Nat.succ_le_succ ih).trans (Nat.le_succ _)
  | hex _ _ ih =>
    simp only [List.length_cons]
    omega

theorem length_le_of_encodes {units : List Nat} (encodes : Encodes units chars) :
    chars.length ≤ units.length := by
  induction encodes with
  | nil => exact Nat.le_refl _
  | single c _ ih => exact Nat.succ_le_succ ih
  | pair _ _ _ _ ih => exact (Nat.succ_le_succ ih).trans (Nat.le_succ _)

/-- A string is spelled with two quotes more than it has characters. -/
theorem length_le_of_string {content : String} (spells : Spells word (.string (some content))) :
    content.length + 2 ≤ word.length := by
  cases spells with
  | string spells =>
    obtain ⟨units, spells, encodes⟩ := spells
    have first := length_le_of_spellsUnits spells
    have second := length_le_of_encodes ((encodes content).mp rfl)
    rw [String.length_toList] at second
    simp only [List.cons_append, List.length_cons, List.length_append, List.length_nil]
    omega

/-- **A number is written with few characters**, whether it is spelled or given as an object. -/
theorem number_bounds (spells : Spells word json) (read : readNumbers? json = some (.number n)) :
    n.IsStrict ∧ n.write.length ≤ word.length + 1 := by
  rcases readNumbers?_cases read with ⟨rfl, -⟩ | ⟨_, ⟨⟩⟩ | ⟨_, _, _, ⟨⟩, _⟩
    | ⟨name, content, _, rfl, ⟨⟩, number⟩
  · cases spells with
    | number spells => exact ⟨spells.1, JsonNumber.length_write_le spells⟩
  · obtain ⟨chars, string, shorter⟩ := spells.exists_member _ List.mem_cons_self
    have content := length_le_of_string string
    have written := JsonNumber.length_write_le number
    rw [String.length_toList] at written
    exact ⟨number.1, by omega⟩

/-! ## 4. Strict objects

The values of an object are loaded one by one, and what a loader has to know of each is
`WellFormed`: a number is one that JSON can spell, and it is short.  An object that is strict has a
text for every name, so its members can be named by strings from here on. -/

/-- **What is known of a value that is read**: its number is one that JSON can spell, in fewer
characters than `size`, and its string has a text. -/
structure WellFormed (size : Nat) (value : Json) : Prop where
  number : ∀ n, value = .number n → n.IsStrict ∧ n.write.length < size
  string : ∀ content, value = .string content → content.isSome

theorem wellFormed_of_readNumbers? {size : Nat} {found : Json} (spells : Spells word json)
    (shorter : word.length + 2 ≤ size) (texts : json.hasTexts)
    (read : readNumbers? json = some found) :
    WellFormed size found := by
  constructor
  · rintro n rfl
    obtain ⟨strict, few⟩ := number_bounds spells read
    exact ⟨strict, by omega⟩
  · rintro content rfl
    rcases readNumbers?_cases read with ⟨rfl, -⟩ | ⟨_, ⟨⟩⟩ | ⟨_, _, _, ⟨⟩, _⟩ | ⟨_, _, _, _, ⟨⟩, _⟩
    rwa [hasTexts] at texts

/-- The spelled members of a strict object. -/
theorem IsStrict.exists_members {members : List (Option String × Json)}
    (strict : IsStrict text (.object members)) :
    ∃ spelled, ReadMembers spelled members ∧ ∀ member ∈ spelled, member.1.isSome ∧
    member.2.hasTexts ∧
      ∃ chars, Spells chars member.2 ∧ chars.length + 2 ≤ text.length := by
  obtain ⟨_, ⟨before, word, behind, -, -, spells, split⟩, texts, -, read⟩ := strict
  rcases readNumbers?_cases read with ⟨rfl, noObject⟩ | ⟨_, ⟨⟩⟩ | ⟨spelled, _, rfl, ⟨⟩, each⟩
    | ⟨_, _, _, _, ⟨⟩, _⟩
  · exact absurd rfl (noObject _)
  refine ⟨spelled, each, fun member inside => ?_⟩
  rw [hasTexts_object, List.all_eq_true] at texts
  obtain ⟨name, value⟩ := Bool.and_eq_true_iff.mp (texts member inside)
  obtain ⟨chars, isValue, shorter⟩ := spells.exists_member member inside
  have longer := congrArg List.length split
  simp only [String.length_toList, List.length_append] at longer
  exact ⟨name, value, chars, isValue, by omega⟩

theorem exists_named {members : List (Option String × Json)}
    (names : ∀ member ∈ members, member.1.isSome) :
    ∃ found, members = named found := by
  induction members with
  | nil => exact ⟨[], rfl⟩
  | cons member members ih =>
    obtain ⟨here, later⟩ := List.forall_mem_cons.mp names
    obtain ⟨name, isName⟩ := Option.isSome_iff_exists.mp here
    obtain ⟨found, rfl⟩ := ih later
    exact ⟨(name, member.2) :: found, by rw [named, named, List.map_cons, ← isName]⟩

/-- **A strict object** has a name for each of its members. -/
theorem IsStrict.isStrictObject {members : List (Option String × Json)}
    (strict : IsStrict text (.object members)) :
    ∃ found, members = named found ∧ IsStrictObject text found := by
  obtain ⟨spelled, read, each⟩ := strict.exists_members
  obtain ⟨found, rfl⟩ :=
    exists_named (forall_mem_of_forall₂ read (fun _ _ same name => same.1 ▸ name)
    fun member inside => (each member inside).1)
  exact ⟨found, rfl, strict⟩

/-- **The values of a strict object** are well formed. -/
theorem IsStrictObject.wellFormed {members : List (String × Json)}
    (strict : IsStrictObject text members) :
    ∀ member ∈ members, WellFormed text.length member.2 := by
  obtain ⟨spelled, read, each⟩ := IsStrict.exists_members strict
  have each' : ∀ member ∈ named members, WellFormed text.length member.2 := by
    refine forall_mem_of_forall₂ read ?_ each
    rintro _ _ ⟨-, read⟩ ⟨-, texts, chars, spells, shorter⟩
    exact wellFormed_of_readNumbers? spells shorter texts read
  exact fun member inside => each' _ (List.mem_map_of_mem inside)

theorem namedMembers?_named (members : List (String × Json)) :
    namedMembers? (named members) = some members := by
  rw [namedMembers?, mapM_eq_some_iff, named, List.forall₂_map_left_iff]
  exact List.forall₂_same.mpr fun _ _ => rfl

/-! ## 5. Objects with one member

Where the reader recurses on the length of what is left, no concrete text can be run in a proof.  A
text is shown to be a sentence instead, and these lemmas do it for the objects that examples
need. -/

/-- A string without quotes, backslashes and control characters stands for itself. -/
theorem spellsString_self {chars : List Char}
    (plain : ∀ c ∈ chars, c ≠ '"' ∧ c ≠ '\\' ∧ 0x20 ≤ c.toNat) :
    SpellsString chars (some (String.ofList chars)) := by
  have spells : SpellsUnits chars (chars.map Char.toNat) := by
    induction chars with
    | nil => exact .nil
    | cons c chars ih =>
      obtain ⟨⟨noQuote, noEscape, noControl⟩, others⟩ := List.forall_mem_cons.mp plain
      exact .plain noQuote noEscape noControl (ih others)
  have encodes : Encodes (chars.map Char.toNat) chars := by
    clear plain spells
    induction chars with
    | nil => exact .nil
    | cons c chars ih => exact .single c ih
  refine ⟨_, spells, fun content => ?_⟩
  rw [← text_eq_some_iff (lt_of_spellsUnits spells), decode?_complete encodes]
  rfl

/-- The text of an object that gives a name a number, without blanks. -/
def single (name number : List Char) : String :=
  String.ofList ('\x7b' :: '"' :: name ++ '"' :: ':' :: number ++ ['\x7d'])

theorem spellsText_single {name number : List Char}
    (plain : ∀ c ∈ name, c ≠ '"' ∧ c ≠ '\\' ∧ 0x20 ≤ c.toNat) (spells : n.Spells number) :
    SpellsText (single name number) (.object [(some (String.ofList name), .number n)]) := by
  let m : Member := ⟨name, [], [], number, some (String.ofList name), .number n⟩
  have named : m.IsNamed := ⟨spellsString_self plain, List.forall_mem_nil _, List.forall_mem_nil _⟩
  have row : Row [m.chars] ([] ++ m.chars ++ []) :=
    .last (List.forall_mem_nil _) (List.forall_mem_nil _)
  have object : Spells ('\x7b' :: ([] ++ m.chars ++ []) ++ ['\x7d'])
      (.object ([m].map Member.entry)) :=
    .object (List.forall_mem_singleton.mpr (.number spells))
      (List.forall_mem_singleton.mpr named) row
  refine ⟨[], _, [], List.forall_mem_nil _, List.forall_mem_nil _, object, ?_⟩
  simp [single, m, Member.chars]

/-- An object with one number is strict, unless its name is reserved. -/
theorem isStrictObject_single {name : String}
    (spells : SpellsText text (.object [(some name, .number n)]))
    (free : name ≠ numberName) : IsStrictObject text [(name, .number n)] := by
  refine ⟨_, spells, ?_, ?_, readNumbers?_of_isPlain
    (.object ?_ (List.forall_mem_singleton.mpr (.number n)))⟩
  · rw [hasTexts_object]
    simp [hasTexts]
  · rw [depth_object]
    simp [depth, depthLimit]
  · simpa [isNumberObject] using free

end Json
end DecimalExpression
