import DecimalExpression.Proofs.Json.ByteOrder
import DecimalExpression.Proofs.Json.Strict
import DecimalExpression.Proofs.Json.Tables
import DecimalExpression.Proofs.Outcomes

/-!
# Loading variables

A value of a strict object is loaded as what it means, and refused where it means nothing
(`Value.ofJson_cases`).  The last members of all names are visited in the order of the names, so
either all of them mean something and the table binds just these names to these values, or the least
name whose value is refused is reported (`Named.ofMembers_cases`).

`Named.ofJsonText_exact` puts this together with the grammar.
-/

namespace DecimalExpression

open Json

/-! ## 1. Values

A value is loaded as what it means, and what means nothing is refused for one reason each.  Both are
stated as relations that do not mention the loader, so that they can be compared: the two exclude
each other (`Refuses.not_means`), and one of them always holds (`ofJson_cases`). -/

namespace Json

/-- **Why a value is refused**: it is an array, an object or a number beyond the limit.  At the
least scale of 64 bits the check of the number overflows. -/
inductive Refuses : Json → Halt InputFault → Prop
  | array (items : List Json) : Refuses (.array items) (.failed .arrayValue)
  | object (members : List (Option String × Json)) :
    Refuses (.object members) (.failed .objectValue)
  | number {n : JsonNumber} (beyond : scaleLimit < n.scale.natAbs) (more : n.scale ≠ leastWord) :
    Refuses (.number n) (.failed (.unsupportedNumber n.write))
  | overflow {n : JsonNumber} (least : n.scale = leastWord) : Refuses (.number n) .overflow

variable {json : Json} {value : Value} {halt : Halt InputFault}

/-- What is refused means nothing. -/
theorem Refuses.not_means (refuses : Refuses json halt) : ¬ Means json value := by
  intro means
  cases refuses with
  | array | object => cases means
  | number beyond _ =>
    cases means with
    | number within => exact absurd within (Nat.not_le.mpr beyond)
  | overflow least =>
    cases means with
    | number within =>
      rw [least] at within
      exact absurd within (by decide)

end Json

namespace Value

variable {json : Json} {size : Nat}

/-- **A value is loaded or refused**, by what it means.  Only numbers and containers can be refused;
a number is, by its scale. -/
theorem ofJson_cases (formed : json.WellFormed size) (short : size ≤ 2 ^ 63) :
    (∃ value, Value.ofJson json = .ok value ∧ Means json value) ∨
    ∃ halt, Value.ofJson json = .error halt ∧ Refuses json halt := by
  cases json with
  | null => exact .inl ⟨_, rfl, .null⟩
  | bool truth => exact .inl ⟨_, rfl, .bool truth⟩
  | number n =>
    obtain ⟨strict, few⟩ := formed.number n rfl
    have written : n.write.length < 2 ^ 63 := few.trans_le short
    by_cases within : n.scale.natAbs ≤ scaleLimit
    · exact .inl ⟨_, ofJsonNumber_ok strict written within, .number within⟩
    by_cases least : n.scale = leastWord
    · exact .inr ⟨_, ofJsonNumber_overflow strict written least, .overflow least⟩
    · exact .inr ⟨_, ofJsonNumber_refused strict written (Nat.not_le.mp within) least,
        .number (Nat.not_le.mp within) least⟩
  | string content =>
    obtain ⟨text, rfl⟩ := Option.isSome_iff_exists.mp (formed.string content rfl)
    exact .inl ⟨_, rfl, .text text⟩
  | array items => exact .inr ⟨_, rfl, .array items⟩
  | object members => exact .inr ⟨_, rfl, .object members⟩

end Value

/-! ## 2. Members

Members are loaded in the order of their names and the first refusal ends it.  Since the names are
sorted and distinct, "the first that is refused" is "the least name that is refused", which does not
depend on the order of the text (`firstRefused_of_split`).  The same split shows that everything is
loaded if nothing is refused. -/

namespace Named

variable {members : List (String × Json)} {size : Nat}

/-- **The table binds just these names**, each to what its last value means. -/
def Binds (table : Named Value) (members : List (String × Json)) : Prop :=
  (∀ name json, IsLast members name json → ∃ value, Means json value ∧
    table.get? name = some value) ∧
  ∀ name, (∀ json, ¬ IsLast members name json) → table.get? name = none

/-- **The least name whose last value is refused**, in the order of the bytes. -/
def FirstRefused (members : List (String × Json)) (name : String) (halt : Halt InputFault) : Prop :=
  (∃ json, IsLast members name json ∧ Refuses json halt) ∧
  ∀ other json, IsLast members other json → Text.bytes other < Text.bytes name → ∃ value,
    Means json value

/-- A member is loaded under its name, and a fault names it. -/
theorem ofMember_cases {member : String × Json} (formed : member.2.WellFormed size)
    (short : size ≤ 2 ^ 63) :
    (∃ value, ofMember member = .ok (member.1, value) ∧ Means member.2 value) ∨
    ∃ halt, ofMember member = .error (halt.map (InputFault.binding member.1)) ∧
    Refuses member.2 halt := by
  rw [ofMember]
  rcases Value.ofJson_cases formed short with ⟨value, loaded, means⟩ | ⟨halt, refused, refuses⟩
  · exact .inl ⟨value, by rw [loaded], means⟩
  · exact .inr ⟨halt, by rw [refused], refuses⟩

theorem fst_ofMember {member : String × Json} {entry : String × Value}
    (loaded : ofMember member = .ok entry) :
    member.1 = entry.1 := by
  rw [ofMember] at loaded
  split at loaded
  · cases loaded
    rfl
  · cases loaded

/-- The table of loaded members binds their names.  The names of the table are those of the members,
so a name that is bound belongs to one of them. -/
theorem binds_setAll {sorted : List (String × Json)} {values : List (String × Value)}
    (loaded : List.Forall₂ (fun member entry => ofMember member = .ok entry) sorted values)
    (distinct : (sorted.map (·.1)).Nodup)
    (mem_iff : ∀ name json, (name, json) ∈ sorted ↔ IsLast members name json)
    (formed : ∀ member ∈ sorted, member.2.WellFormed size) (short : size ≤ 2 ^ 63) :
    (Named.empty.setAll values).Binds members := by
  have names : sorted.map (·.1) = values.map (·.1) := by
    rw [← List.forall₂_eq_eq_eq, List.forall₂_map_left_iff, List.forall₂_map_right_iff]
    exact loaded.imp fun _ _ => fst_ofMember
  rw [names] at distinct
  constructor
  · intro name json last
    have inside := (mem_iff name json).mpr last
    obtain ⟨entry, found, done⟩ := exists_of_forall₂ loaded _ inside
    rcases ofMember_cases (formed _ inside) short with ⟨value, done', means⟩ | ⟨halt, failed, -⟩
    · cases done'.symm.trans done
      exact ⟨value, means, get?_setAll.mpr ((isLast_iff_mem distinct).mpr found)⟩
    · cases failed.symm.trans done
  · intro name none
    by_contra bound
    obtain ⟨value, found⟩ := Option.ne_none_iff_exists'.mp bound
    have listed := List.mem_map_of_mem (f := (·.1)) (get?_setAll.mp found).mem
    rw [← names] at listed
    obtain ⟨⟨_, json⟩, inside, rfl⟩ := List.mem_map.mp listed
    exact none json ((mem_iff _ _).mp inside)

/-- The least name with a refused value is the one at which loading stops.  The names ascend, so
every lesser one stands in front of it, where all values were loaded. -/
theorem firstRefused_of_split {sorted front back : List (String × Json)}
    {name : String} {json : Json}
    {halt : Halt InputFault} (ascending : sorted.Pairwise fun a b => a.1 < b.1)
    (mem_iff : ∀ name json, (name, json) ∈ sorted ↔ IsLast members name json)
    (split : sorted = front ++ (name, json) :: back) (refuses : Refuses json halt)
    (before : ∀ member ∈ front, ∃ value, Means member.2 value) :
    FirstRefused members name halt := by
  have here : (name, json) ∈ sorted := split ▸ List.mem_append_right _ List.mem_cons_self
  refine ⟨⟨json, (mem_iff _ _).mp here, refuses⟩, fun other json' last lesser => ?_⟩
  rw [Text.bytes_lt_bytes_iff] at lesser
  have inside := (mem_iff _ _).mpr last
  rw [split] at inside ascending
  -- a lesser name stands in front of the one that fails
  rcases List.mem_append.mp inside with earlier | later
  · exact before _ earlier
  have behind := (List.pairwise_append.mp ascending).2.1
  rcases List.mem_cons.mp later with same | later
  · cases same
    exact absurd lesser (lt_irrefl _)
  · exact absurd lesser (List.rel_of_pairwise_cons behind later).asymm

/-- **The members of an object are loaded**, or the least name with a refused value is reported.
The members are sorted by name before they are loaded, so the one that stops the loading has the
least name. -/
theorem ofMembers_cases (formed : ∀ member ∈ members, member.2.WellFormed size)
    (short : size ≤ 2 ^ 63) :
    (∃ table, ofMembers members = .ok table ∧ table.Binds members) ∨
    ∃ name halt, ofMembers members = .error (halt.map (InputFault.binding name)) ∧
      FirstRefused members name halt := by
  let sorted := sortEntries (Named.empty.setAll members).entries
  have mem_iff (name : String) (json : Json) : (name, json) ∈ sorted ↔ IsLast members name json :=
    perm_sortEntries.mem_iff.trans mem_entries_setAll
  have each : ∀ member ∈ sorted, member.2.WellFormed size := fun member inside =>
    formed member ((mem_iff member.1 member.2).mp inside).mem
  have outcome : ofMembers members
      = (sorted.mapM ofMember >>= fun values => pure (Named.empty.setAll values)) :=
    rfl
  rw [outcome]
  cases loaded : sorted.mapM ofMember with
  | ok values =>
    have distinct : (sorted.map (·.1)).Nodup := (perm_sortEntries.map _).nodup_iff.mpr nodup_setAll
    exact .inl ⟨_, rfl, binds_setAll (forall₂_of_mapM loaded) distinct mem_iff each short⟩
  | error halt =>
    obtain ⟨front, ⟨name, json⟩, back, split, failed, before⟩ := exists_of_mapM_error loaded
    have inside : ∀ member ∈ front ++ (name, json) :: back, member.2.WellFormed size := split ▸ each
    obtain ⟨atFront, others⟩ := List.forall_mem_append.mp inside
    rcases ofMember_cases (others _ List.mem_cons_self) short with ⟨value, done, -⟩
      | ⟨halt', failed', refuses⟩
    · cases done.symm.trans failed
    cases failed'.symm.trans failed
    refine .inr ⟨name, halt', rfl,
      firstRefused_of_split (pairwise_sortEntries nodup_setAll) mem_iff split refuses
      fun member earlier => ?_⟩
    obtain ⟨entry, done⟩ := before member earlier
    rcases ofMember_cases (atFront member earlier) short with ⟨value, -, means⟩ | ⟨halt, failed, -⟩
    · exact ⟨value, means⟩
    · cases failed.symm.trans done

/-! ## 3. Texts

A text that is no strict JSON, or no object, has no members to look at.  For the others the section
above applies.  What `ofJsonText_exact` claims beyond it is that the outcomes exclude each other, so
each of them comes with an exact condition. -/

variable {text : String}

/-- A text that is not strict JSON is no object. -/
theorem ofJsonText_invalid (invalid : ∀ json, ¬ IsStrict text json) :
    ofJsonText text = Bounded.fail .invalidJson := by
  rw [ofJsonText]
  cases read : readStrict? text with
  | none => rfl
  | some json => exact absurd (readStrict?_eq_some_iff.mp read) (invalid json)

theorem ofJsonText_notAnObject {json : Json} (strict : IsStrict text json)
    (other : ∀ members, json ≠ .object members) : ofJsonText text = Bounded.fail .notAnObject := by
  rw [ofJsonText, readStrict?_eq_some_iff.mpr strict]
  cases json with
  | object members => exact absurd rfl (other members)
  | _ => rfl

theorem ofJsonText_object (strict : IsStrictObject text members) :
    ofJsonText text = ofMembers members := by
  rw [ofJsonText, readStrict?_eq_some_iff.mpr strict]
  dsimp only
  rw [namedMembers?_named]

/-- A strict text of an object is loaded, or the least name with a refused value is reported. -/
theorem ofJsonText_cases (strict : IsStrictObject text members) (short : text.length < 2 ^ 63) :
    (∃ table, ofJsonText text = .ok table ∧ table.Binds members) ∨
    ∃ name halt, ofJsonText text = .error (halt.map (InputFault.binding name)) ∧
      FirstRefused members name halt := by
  rw [ofJsonText_object strict]
  exact ofMembers_cases strict.wellFormed short.le

/-- **A text loads** exactly if it is an object whose members, the last one of each name, all mean a
value. -/
theorem exists_ofJsonText_iff (short : text.length < 2 ^ 63) :
    (∃ table, ofJsonText text = .ok table) ↔
    ∃ members, IsStrictObject text members ∧
      ∀ name json, IsLast members name json → ∃ value, Means json value := by
  constructor
  · rintro ⟨table, loaded⟩
    by_cases valid : ∃ json, IsStrict text json
    · obtain ⟨json, strict⟩ := valid
      by_cases object : ∃ members, json = .object members
      · obtain ⟨_, rfl⟩ := object
        obtain ⟨members, rfl, strict⟩ := strict.isStrictObject
        rcases ofJsonText_cases strict short with ⟨_, -, binds, -⟩ | ⟨name, halt, failed, -⟩
        · refine ⟨members, strict, fun name json last => ?_⟩
          obtain ⟨value, means, -⟩ := binds name json last
          exact ⟨value, means⟩
        · cases failed.symm.trans loaded
      · cases (ofJsonText_notAnObject strict (not_exists.mp object)).symm.trans loaded
    · cases (ofJsonText_invalid (not_exists.mp valid)).symm.trans loaded
  · rintro ⟨members, strict, each⟩
    rcases ofJsonText_cases strict short with ⟨table, loaded, -⟩
      | ⟨name, halt, -, ⟨json, last, refuses⟩, -⟩
    · exact ⟨table, loaded⟩
    · obtain ⟨value, means⟩ := each name json last
      exact absurd means refuses.not_means

/-- **Loading a text is exact or fails whole**, but for one scale.  It succeeds exactly on the
strict texts of an object in which the last value of every name means something, and then just these
names are bound to these values.  Otherwise the text is no JSON, or no object, or the least name
whose last value is refused is reported; but if that value is a number at the scale `-2 ^ 63`, the
check of the scale overflows.  A text in memory has fewer than `2 ^ 63` characters. -/
theorem ofJsonText_exact (text : String) (short : text.length < 2 ^ 63) :
    ((∃ table, ofJsonText text = .ok table) ↔ ∃ members, IsStrictObject text members ∧
      ∀ name json, IsLast members name json → ∃ value, Means json value) ∧
    ((∀ json, ¬ IsStrict text json) → ofJsonText text = Bounded.fail .invalidJson) ∧
    (∀ json, IsStrict text json → (∀ members, json ≠ .object members) →
      ofJsonText text = Bounded.fail .notAnObject) ∧
    ∀ members, IsStrictObject text members →
      (∃ table, ofJsonText text = .ok table ∧ table.Binds members) ∨
      ∃ name halt, ofJsonText text = .error (halt.map (InputFault.binding name)) ∧
        FirstRefused members name halt :=
  ⟨exists_ofJsonText_iff short, ofJsonText_invalid, fun _ => ofJsonText_notAnObject,
    fun _ strict => ofJsonText_cases strict short⟩

/-- One and a half, with two places. -/
def oneAndAHalf : JsonNumber := ⟨false, ['1'], some ['5', '0'], none⟩

/-- A member may be given twice, and the earlier one may have any value. -/
theorem isStrictObject_overriding : IsStrictObject "\x7b\"x\":[],\"x\":1.50\x7d"
    [("x", .array []), ("x", .number oneAndAHalf)] := by
  let first : Member := ⟨['x'], [], [], ['[', ']'], some "x", .array []⟩
  let second : Member := ⟨['x'], [], [], ['1', '.', '5', '0'], some "x", .number oneAndAHalf⟩
  have name : SpellsString ['x'] (some "x") := spellsString_self (by simp)
  have empty : IsBlank [] := List.forall_mem_nil _
  have named : ∀ m ∈ [first, second], m.IsNamed :=
    List.forall_mem_cons.mpr ⟨⟨name, empty, empty⟩,
      List.forall_mem_singleton.mpr ⟨name, empty, empty⟩⟩
  have number : oneAndAHalf.Spells ['1', '.', '5', '0'] := number?_eq_some_iff.mp rfl
  have values : ∀ m ∈ [first, second], Spells m.text m.value :=
    List.forall_mem_cons.mpr ⟨.emptyArray empty, List.forall_mem_singleton.mpr (.number number)⟩
  have row : Row ([first, second].map Member.chars) _ := .more empty empty (.last empty empty)
  have spells : SpellsText "\x7b\"x\":[],\"x\":1.50\x7d"
      (.object ([first, second].map Member.entry)) :=
    ⟨[], _, [], empty, empty, .object values named row, by decide⟩
  have plain : IsPlain (.object ([first, second].map Member.entry)) := .object rfl <|
    List.forall_mem_cons.mpr ⟨.array (List.forall_mem_nil _),
      List.forall_mem_singleton.mpr (.number _)⟩
  refine (isStrict_iff_of_isPlain spells plain).mpr ⟨rfl, ?_, ?_⟩
  · rw [hasTexts_object]
    simp [first, second, Member.entry, hasTexts]
  · rw [depth_object]
    simp [first, second, Member.entry, depth, depthLimit]

/-- An array is no value, but only the last value of a name counts. -/
theorem ofJsonText_exact_overriding :
    ∃ table, ofJsonText "\x7b\"x\":[],\"x\":1.50\x7d" = .ok table ∧
    table.get? "x" = some (.decimal ⟨150, 2⟩) := by
  obtain ⟨-, -, -, cases⟩ := ofJsonText_exact "\x7b\"x\":[],\"x\":1.50\x7d" (by decide)
  have last : IsLast [("x", Json.array []), ("x", .number oneAndAHalf)] "x" (.number oneAndAHalf) :=
    ⟨[_], [], rfl, List.forall_mem_nil _⟩
  rcases cases _ isStrictObject_overriding with ⟨table, loaded, binds, -⟩
    | ⟨name, halt, -, ⟨json, refused, refuses⟩, -⟩
  · obtain ⟨value, means, bound⟩ := binds _ _ last
    cases means
    exact ⟨table, loaded, bound⟩
  · have refused : IsLast ([("x", .array [])] ++ [("x", .number oneAndAHalf)]) name json := refused
    rcases isLast_append_singleton.mp refused with same | ⟨other, front⟩
    · cases same
      exact absurd (.number (by decide)) refuses.not_means
    · cases List.mem_singleton.mp front.mem
      exact absurd rfl other

/-- The exponent `2 ^ 63`. -/
def leastNumber : JsonNumber :=
  ⟨false, ['1'], none, some (false,
    ['9', '2', '2', '3', '3', '7', '2', '0', '3', '6', '8', '5', '4', '7', '7', '5',
    '8', '0', '8'])⟩

/-- **A text need neither load nor be refused.**  The shortest such text has one member, a number at
the least scale. -/
theorem ofJsonText_overflow : ¬ ∀ text : String, text.length < 2 ^ 63 →
    (∃ table, ofJsonText text = .ok table) ∨ ∃ fault, ofJsonText text = Bounded.fail fault := by
  intro loads
  have number : leastNumber.Spells leastNumber.write.toList := number?_eq_some_iff.mp rfl
  have plain : ∀ c ∈ ['x'], c ≠ '"' ∧ c ≠ '\\' ∧ 0x20 ≤ c.toNat := by simp
  have object := spellsText_single plain number
  have strict := isStrictObject_single object (by decide)
  have short : (single ['x'] leastNumber.write.toList).length < 2 ^ 63 := by decide
  have least : leastNumber.scale = leastWord := by decide
  rcases ofJsonText_cases strict short with ⟨table, -, binds, -⟩
    | ⟨name, halt, failed, ⟨json, last, refuses⟩, -⟩
  · obtain ⟨value, means, -⟩ := binds _ _ ⟨[], [], rfl, List.forall_mem_nil _⟩
    exact (Refuses.overflow least).not_means means
  · cases List.mem_singleton.mp last.mem
    cases refuses with
    | number _ more => exact more least
    | overflow _ =>
      rcases loads _ short with ⟨table, loaded⟩ | ⟨fault, refused⟩
      · cases loaded.symm.trans failed
      · cases refused.symm.trans failed

end Named
end DecimalExpression
