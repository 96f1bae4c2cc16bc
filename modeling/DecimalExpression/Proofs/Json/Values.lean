import DecimalExpression.Proofs.Json.Scalars

/-!
# Reading values

The reader of `DecimalExpression.Json.Reader` takes off a text exactly what the grammar says: blanks
and the text of a value (`value?_sound`), and it takes off every such text where the value ends
(`value?_complete`).  So a whole text is read as a value exactly if it spells it
(`read?_eq_some_iff`), and a text spells one value at most (`SpellsText.unique`).
-/

namespace DecimalExpression
namespace Json

open JsonNumber Lexeme

/-! ## 1. What is read

Values, items and members are read by functions that call each other, so their soundness is one
mutual induction on the text that is left, as their recursion is.  An array of items comes with its
first characters still unread, hence the accumulator `done` and the second place of the measure. -/

section Sound

variable {text rest : List Char}

/-- Blanks in front are what is skipped. -/
theorem exists_skipBlank {left : List Char} (skips : skipBlank text = left) :
    ∃ gap, IsBlank gap ∧ text = gap ++ left :=
  ⟨text.takeWhile Text.isLayout, fun _ => List.mem_takeWhile_imp,
    skips ▸ List.takeWhile_append_dropWhile.symm⟩

theorem word?_sound {word : List Char} {shorter} (read : word? word text = some ⟨rest, shorter⟩) :
    text = word ++ rest := by
  rw [word?] at read
  split at read
  · rename_i isPrefix
    cases read
    obtain ⟨rest, rfl⟩ := List.isPrefixOf_iff_prefix.mp isPrefix
    simp
  · cases read

/-- A word that stands for a value, behind its first letter. -/
theorem named_sound {word : List Char} {value found : Json} {shorter}
    (read : (word? word text).map (fun r =>
      (⟨(value, r.val), Nat.lt_succ_of_le r.property⟩ : Left _ Json))
      = some ⟨(found, rest), shorter⟩) : found = value ∧ text = word ++ rest := by
  obtain ⟨⟨left, _⟩, isWord, same⟩ := Option.map_eq_some_iff.mp read
  cases same
  exact ⟨rfl, word?_sound isWord⟩

/-- **A scalar that is read** is spelled by what is taken off, its first character included. -/
theorem scalar?_sound {c : Char} {value : Json} {shorter}
    (read : scalar? c text = some ⟨(value, rest), shorter⟩) :
    ∃ word, Spells word value ∧ c :: text = word ++ rest := by
  unfold scalar? at read
  dsimp only at read
  split at read
  · obtain ⟨rfl, rfl⟩ := named_sound read
    exact ⟨_, .null, by subst_vars; rfl⟩
  split at read
  · obtain ⟨rfl, rfl⟩ := named_sound read
    exact ⟨_, .isTrue, by subst_vars; rfl⟩
  split at read
  · obtain ⟨rfl, rfl⟩ := named_sound read
    exact ⟨_, .isFalse, by subst_vars; rfl⟩
  split at read
  · obtain ⟨⟨⟨content, left⟩, _⟩, isString, same⟩ := Option.map_eq_some_iff.mp read
    cases same
    obtain ⟨chars, spells, rfl⟩ := string?_sound isString
    exact ⟨_, .string spells, by subst_vars; simp⟩
  split at read
  · obtain ⟨⟨⟨number, left⟩, _⟩, isNumber, same⟩ := Option.map_eq_some_iff.mp read
    cases same
    obtain ⟨negative, word, spells, rfl⟩ := unsigned?_sound isNumber
    rw [JsonNumber.sign, negative] at spells
    exact ⟨_, .number spells, by subst_vars; rfl⟩
  · obtain ⟨⟨⟨number, left⟩, _⟩, isNumber, same⟩ := Option.map_eq_some_iff.mp read
    cases same
    obtain ⟨negative, word, spells, split⟩ := unsigned?_sound isNumber
    rw [JsonNumber.sign, negative] at spells
    exact ⟨_, .number spells, split⟩

/-- **A name that is read** is a text in quotes, behind blanks and in front of a colon. -/
theorem memberName?_sound {content : Option String} {shorter}
    (read : memberName? text = some ⟨(content, rest), shorter⟩) :
    ∃ gap name before, IsBlank gap ∧ SpellsString name content ∧ IsBlank before ∧
      text = gap ++ '"' :: name ++ '"' :: before ++ ':' :: rest := by
  unfold memberName? at read
  split at read
  · rename_i more quote
    obtain ⟨gap, isGap, rfl⟩ := exists_skipBlank quote
    split at read
    · cases read
    rename_i name isName
    obtain ⟨⟨content, left⟩, _⟩ := name
    obtain ⟨chars, spells, rfl⟩ := string?_sound isName
    split at read
    · rename_i colon
      obtain ⟨before, isBefore, rfl⟩ := exists_skipBlank colon
      cases read
      exact ⟨gap, chars, before, isGap, spells, isBefore, by simp⟩
    · cases read
  · cases read

mutual

/-- **A value that is read** is spelled by what is taken off, behind blanks.  The reader goes by the
first character, and for containers it tries the closing bracket before anything else. -/
theorem value?_sound {text rest : List Char} {value : Json} {shorter}
    (read : value? text = some ⟨(value, rest), shorter⟩) :
    ∃ gap word, IsBlank gap ∧ Spells word value ∧ text = gap ++ word ++ rest := by
  rw [value?.eq_def] at read
  split at read
  · cases read
  rename_i c more here
  obtain ⟨gap, isGap, rfl⟩ := exists_skipBlank here
  dsimp only at read
  split at read
  · rename_i bracket
    split at read
    · rename_i close
      obtain ⟨gap', isGap', rfl⟩ := exists_skipBlank close
      cases read
      exact ⟨gap, _, isGap, .emptyArray isGap', by simp [bracket]⟩
    · obtain ⟨⟨⟨items, left⟩, _⟩, isItems, same⟩ := Option.map_eq_some_iff.mp read
      cases same
      obtain ⟨found, chars, each, isRow, same, rfl⟩ := items?_sound isItems
      have spelled := Spells.array each isRow
      rw [← List.nil_append (found.map _), ← Array.toList_empty, ← same] at spelled
      exact ⟨gap, _, isGap, spelled, by simp [bracket]⟩
  split at read
  · rename_i brace
    split at read
    · rename_i close
      obtain ⟨gap', isGap', rfl⟩ := exists_skipBlank close
      cases read
      exact ⟨gap, _, isGap, .emptyObject isGap', by simp [brace]⟩
    · obtain ⟨⟨⟨members, left⟩, _⟩, isMembers, same⟩ := Option.map_eq_some_iff.mp read
      cases same
      obtain ⟨found, chars, each, named, isRow, same, rfl⟩ := members?_sound isMembers
      have spelled := Spells.object each named isRow
      rw [← List.nil_append (found.map _), ← Array.toList_empty, ← same] at spelled
      exact ⟨gap, _, isGap, spelled, by simp [brace]⟩
  · obtain ⟨⟨⟨value, left⟩, _⟩, isScalar, same⟩ := Option.map_eq_some_iff.mp read
    cases same
    obtain ⟨word, spells, split⟩ := scalar?_sound isScalar
    exact ⟨gap, word, isGap, spells, by rw [split, List.append_assoc]⟩
termination_by (text.length, 0)

/-- **Items that are read** are a row of texts, and what is behind the bracket is left.  Behind each
item stands the bracket or a comma, and behind a comma there are more. -/
theorem items?_sound {n : Nat} {done items : Array Json} {text rest : List Char}
    {fewer : text.length < n}
    {shorter} (read : items? n done text fewer = some ⟨(items, rest), shorter⟩) :
    ∃ (found : List (List Char × Json)) (chars : List Char),
      (∀ item ∈ found, Spells item.1 item.2) ∧
      Row (found.map (·.1)) chars ∧ items.toList = done.toList ++ found.map (·.2) ∧
      text = chars ++ ']' :: rest := by
  rw [items?.eq_def] at read
  split at read
  · cases read
  rename_i item isItem
  obtain ⟨⟨value, left⟩, _⟩ := item
  obtain ⟨gap, word, isGap, spells, rfl⟩ := value?_sound isItem
  split at read
  · rename_i close
    obtain ⟨gap', isGap', rfl⟩ := exists_skipBlank close
    cases read
    exact ⟨[(word, value)], gap ++ word ++ gap', List.forall_mem_singleton.mpr spells,
      .last isGap isGap',
      by simp, by simp⟩
  · rename_i comma
    obtain ⟨gap', isGap', rfl⟩ := exists_skipBlank comma
    obtain ⟨found, chars, each, isRow, same, rfl⟩ := items?_sound read
    exact ⟨(word, value) :: found, gap ++ word ++ gap' ++ ',' :: chars,
      List.forall_mem_cons.mpr ⟨spells, each⟩,
      .more isGap isGap' isRow, by simp [same], by simp⟩
  · cases read
termination_by (text.length, 1)

/-- **Members that are read** are a row of names with their values, and what is behind the brace is
left.  As for items, with a name in front of each value. -/
theorem members?_sound {n : Nat} {done members : Array (Option String × Json)}
    {text rest : List Char}
    {fewer : text.length < n} {shorter}
    (read : members? n done text fewer = some ⟨(members, rest), shorter⟩) :
    ∃ (found : List Member) (chars : List Char), (∀ m ∈ found, Spells m.text m.value) ∧
      (∀ m ∈ found, m.IsNamed) ∧ Row (found.map Member.chars) chars ∧
      members.toList = done.toList ++ found.map Member.entry ∧ text = chars ++ '\x7d' :: rest := by
  rw [members?.eq_def] at read
  split at read
  · cases read
  rename_i name isName
  obtain ⟨⟨content, left⟩, _⟩ := name
  obtain ⟨gap, name, before, isGap, spellsName, isBefore, rfl⟩ := memberName?_sound isName
  split at read
  · cases read
  rename_i item isItem
  obtain ⟨⟨value, left⟩, _⟩ := item
  obtain ⟨behind, word, isBehind, spells, rfl⟩ := value?_sound isItem
  let m : Member := ⟨name, before, behind, word, content, value⟩
  have isNamed : m.IsNamed := ⟨spellsName, isBefore, isBehind⟩
  split at read
  · rename_i close
    obtain ⟨gap', isGap', rfl⟩ := exists_skipBlank close
    cases read
    exact ⟨[m], gap ++ m.chars ++ gap', List.forall_mem_singleton.mpr spells,
      List.forall_mem_singleton.mpr isNamed, .last isGap isGap', by simp [m, Member.entry],
      by simp [m, Member.chars]⟩
  · rename_i comma
    obtain ⟨gap', isGap', rfl⟩ := exists_skipBlank comma
    obtain ⟨found, chars, each, named, isRow, same, rfl⟩ := members?_sound read
    exact ⟨m :: found, gap ++ m.chars ++ gap' ++ ',' :: chars,
      List.forall_mem_cons.mpr ⟨spells, each⟩,
      List.forall_mem_cons.mpr ⟨isNamed, named⟩, .more isGap isGap' isRow, by
        simp [m, Member.entry, same],
      by simp [m, Member.chars]⟩
  · cases read
termination_by (text.length, 1)

end

end Sound

/-! ## 2. What is spelled

The other way the obstacle is what stands behind.  A number ends where its text ends only if the
next character cannot go on in it (`EndsNumber`), and what closes or continues a row never can.  The
equations `items?_of_close` to `members?_of_comma` say what one round of a loop does, with the
bounds that the readers carry put aside. -/

section Complete

variable {text word gap rest : List Char}

/-- Blanks are skipped up to what is none. -/
theorem skipBlank_append (blank : IsBlank gap) (stops : Stops Text.isLayout rest) :
    skipBlank (gap ++ rest) = rest :=
  dropWhile_append_of_stops blank stops

theorem not_inNumber_of_isLayout {c : Char} (layout : Text.isLayout c) :
    (c.isDigit || c = '.' || c = 'e' || c = 'E') = false := by
  simp only [Text.isLayout, Bool.or_eq_true, decide_eq_true_eq] at layout
  rcases layout with ((rfl | rfl) | rfl) | rfl <;> rfl

/-- What closes or continues a row ends a number in front of it. -/
theorem endsNumber_append {c : Char} (blank : IsBlank gap)
    (closes : c = ',' ∨ c = ']' ∨ c = '\x7d') :
    EndsNumber (gap ++ c :: rest) := by
  cases gap with
  | nil =>
    rintro _ ⟨⟩
    rcases closes with rfl | rfl | rfl <;> rfl
  | cons d gap =>
    rintro _ ⟨⟩
    exact not_inNumber_of_isLayout (blank d List.mem_cons_self)

/-- Blanks at the end of a text end a number. -/
theorem endsNumber_of_isBlank (blank : IsBlank gap) : EndsNumber gap := fun c head =>
  not_inNumber_of_isLayout (blank c (List.mem_of_mem_head? head))

theorem word?_complete (word rest : List Char) :
    ∃ shorter, word? word (word ++ rest) = some ⟨rest, shorter⟩ := by
  refine ⟨by simp, ?_⟩
  rw [word?, if_pos (List.isPrefixOf_iff_prefix.mpr (List.prefix_append word rest))]
  simp

/-- A word that stands for a value is read behind its first letter. -/
theorem named_complete (word rest : List Char) (value : Json) :
    ((word? word (word ++ rest)).map
      (fun r => (⟨(value, r.val), Nat.lt_succ_of_le r.property⟩ : Left _ Json))).map Subtype.val
        = some (value, rest) := by
  obtain ⟨_, read⟩ := word?_complete word rest
  rw [read]
  rfl

/-- A digit is none of the other characters a value starts with. -/
theorem scalar?_of_isDigit {c : Char} (digit : c.isDigit) (text : List Char) :
    scalar? c text = (unsigned? false (c :: text)).map fun found =>
      found.give (.number found.val.1) := by
  have other : ∀ d : Char, d.isDigit = false → c ≠ d := by
    rintro d noDigit rfl
    exact Bool.false_ne_true (noDigit.symm.trans digit)
  rw [scalar?]
  dsimp only
  rw [if_neg (other _ rfl), if_neg (other _ rfl), if_neg (other _ rfl), if_neg (other _ rfl),
    if_neg (other _ rfl)]

/-- **A scalar that is spelled** is read, in front of what ends a number. -/
theorem scalar?_complete {c : Char} {value : Json} (spells : Spells (c :: word) value)
    (noBracket : c ≠ '[') (noBrace : c ≠ '\x7b') (ends : EndsNumber rest) :
    ∃ shorter, scalar? c (word ++ rest) = some ⟨(value, rest), shorter⟩ := by
  refine Left.exists_eq_some ?_
  cases spells with
  | null => exact named_complete ['u', 'l', 'l'] rest .null
  | isTrue => exact named_complete ['r', 'u', 'e'] rest (.bool true)
  | isFalse => exact named_complete ['a', 'l', 's', 'e'] rest (.bool false)
  | @number _ number spells =>
    obtain ⟨d, more, digit, same⟩ := exists_of_spells spells
    obtain ⟨_, read⟩ := unsigned?_complete (same ▸ spells) ends
    cases negative : number.negative with
    | true =>
      obtain ⟨rfl, rfl⟩ : c = '-' ∧ word = d :: more := by
        simpa [JsonNumber.sign, negative] using same
      rw [negative] at read
      rw [scalar?]
      dsimp only
      rw [read]
      rfl
    | false =>
      obtain ⟨rfl, rfl⟩ : c = d ∧ word = more := by simpa [JsonNumber.sign, negative] using same
      rw [negative] at read
      rw [scalar?_of_isDigit digit]
      exact congrArg (fun found => (found.map fun found : Left _ JsonNumber =>
        found.give (Json.number found.val.1)).map Subtype.val) read
  | @string chars content spells =>
    have read := string?_complete spells rest
    rw [List.append_cons] at read
    obtain ⟨_, read⟩ := read
    exact congrArg (fun found => (found.map fun found : Left _ (Option String) =>
      found.give (Json.string found.val.1)).map Subtype.val) read
  | _ => contradiction

/-- The text of a number starts with a minus or a digit. -/
theorem exists_cons_of_number {number : JsonNumber} (spells : number.Spells word) :
    ∃ c more, word = c :: more ∧ (c = '-' ∨ c.isDigit) := by
  obtain ⟨d, more, digit, rfl⟩ := exists_of_spells spells
  rw [JsonNumber.sign]
  cases number.negative with
  | true => exact ⟨_, _, rfl, .inl rfl⟩
  | false => exact ⟨d, more, rfl, .inr digit⟩

/-- The text of a value starts with no blank, and not with a bracket that closes. -/
theorem Spells.exists_cons {value : Json} (spells : Spells word value) :
    ∃ c more, word = c :: more ∧ Text.isLayout c = false ∧ c ≠ ']' := by
  cases spells with
  | number spells =>
    obtain ⟨c, more, rfl, rfl | digit⟩ := exists_cons_of_number spells
    · exact ⟨_, _, rfl, rfl, by decide⟩
    refine ⟨c, more, rfl, Bool.eq_false_iff.mpr fun layout => ?_, ?_⟩
    · have noDigit := not_inNumber_of_isLayout layout
      rw [digit] at noDigit
      cases noDigit
    · rintro rfl
      cases digit
  | _ => exact ⟨_, _, rfl, rfl, by decide⟩

theorem stops_cons {c : Char} (noLayout : Text.isLayout c = false) :
    Stops Text.isLayout (c :: rest) := by
  rintro _ ⟨⟩
  exact noLayout

/-- **The name of a member** is read up to its colon.  Blanks in front of the quote and of the colon
are skipped. -/
theorem memberName?_complete {m : Member} (named : m.IsNamed) (blank : IsBlank gap)
    (rest : List Char) :
    ∃ shorter, memberName? (gap ++ m.chars ++ rest)
      = some ⟨(m.content, m.behind ++ m.text ++ rest), shorter⟩ := by
  have quote : skipBlank (gap ++ m.chars ++ rest)
      = '"' :: (m.name ++ '"' :: (m.before ++ ':' :: (m.behind ++ m.text ++ rest))) := by
    have split : gap ++ m.chars ++ rest
        = gap ++ '"' :: (m.name ++ '"' :: (m.before ++ ':' :: (m.behind ++ m.text ++ rest))) := by
      simp [Member.chars]
    rw [split]
    exact skipBlank_append blank (stops_cons rfl)
  obtain ⟨_, isName⟩ :=
    string?_complete named.name (m.before ++ ':' :: (m.behind ++ m.text ++ rest))
  have colon : skipBlank (m.before ++ ':' :: (m.behind ++ m.text ++ rest))
      = ':' :: (m.behind ++ m.text ++ rest) :=
    skipBlank_append named.before (stops_cons rfl)
  refine Left.exists_eq_some ?_
  rw [memberName?.eq_def]
  split
  · rename_i here
    cases here.symm.trans quote
    rw [isName]
    dsimp only
    split
    · rename_i here
      cases here.symm.trans colon
      rfl
    · rename_i noColon
      exact absurd colon (noColon _)
  · rename_i noQuote
    exact absurd quote (noQuote _)

/-- The elements of a row and what is left behind them. -/
def Left.elements {n : Nat} {α : Type} (found : Left n (Array α)) : List α × List Char :=
  (found.val.1.toList, found.val.2)

/-- **A value by its first character**, behind blanks.  The bounds that the recursion carries along
are dropped here, so that a reading can be rewritten. -/
theorem map_value? {c : Char} {more : List Char} (skips : skipBlank text = c :: more) :
    (value? text).map Subtype.val =
      if c = '[' then
        match skipBlank more with
        | ']' :: behind => some (.array [], behind)
        | _ => (items? text.length #[] more (skipBlank_cons_length skips)).map fun found =>
          (.array found.elements.1, found.elements.2)
      else if c = '\x7b' then
        match skipBlank more with
        | '\x7d' :: behind => some (.object [], behind)
        | _ => (members? text.length #[] more (skipBlank_cons_length skips)).map fun found =>
          (.object found.elements.1, found.elements.2)
      else (scalar? c more).map Subtype.val := by
  rw [value?.eq_def]
  split
  · rename_i none
    cases none.symm.trans skips
  rename_i here
  cases here.symm.trans skips
  dsimp only
  split
  · split
    · rename_i close
      split
      · rename_i here
        cases here.symm.trans close
        rfl
      · rename_i noClose
        exact absurd close (noClose _)
    · rename_i noClose
      split
      · rename_i close
        exact absurd close (noClose _)
      · rw [Option.map_map]
        rfl
  split
  · split
    · rename_i close
      split
      · rename_i here
        cases here.symm.trans close
        rfl
      · rename_i noClose
        exact absurd close (noClose _)
    · rename_i noClose
      split
      · rename_i close
        exact absurd close (noClose _)
      · rw [Option.map_map]
        rfl
  · rw [Option.map_map]
    rfl

section Row

variable {n : Nat} {left : List Char}

theorem items?_of_close (done : Array Json) (fewer : text.length < n) {value : Json} {shorter}
    (read : value? text = some ⟨(value, left), shorter⟩) (close : skipBlank left = ']' :: rest) :
    ∃ shorter, items? n done text fewer = some ⟨(done.push value, rest), shorter⟩ := by
  refine Left.exists_eq_some ?_
  rw [items?.eq_def, read]
  dsimp only
  split
  · rename_i here
    cases here.symm.trans close
    rfl
  · rename_i here
    cases here.symm.trans close
  · rename_i noClose noComma
    exact absurd close (noClose _)

theorem items?_of_comma (done : Array Json) (fewer : text.length < n) {value : Json} {shorter}
    (read : value? text = some ⟨(value, left), shorter⟩) (comma : skipBlank left = ',' :: rest) :
    ∃ fewer', items? n done text fewer = items? n (done.push value) rest fewer' := by
  have fewer' : rest.length < n := by
    have := skipBlank_cons_length comma
    dsimp only at shorter
    omega
  refine ⟨fewer', ?_⟩
  rw [items?.eq_def n done text, read]
  dsimp only
  split
  · rename_i here
    cases here.symm.trans comma
  · rename_i here
    cases here.symm.trans comma
    rfl
  · rename_i noClose noComma
    exact absurd comma (noComma _)

theorem members?_of_close (done : Array (Option String × Json)) (fewer : text.length < n)
    {content : Option String}
    {behind : List Char} {shorter} (isName : memberName? text = some ⟨(content, behind), shorter⟩)
    {value : Json} {shorter} (read : value? behind = some ⟨(value, left), shorter⟩)
    (close : skipBlank left = '\x7d' :: rest) :
    ∃ shorter, members? n done text fewer = some ⟨(done.push (content, value), rest), shorter⟩ := by
  refine Left.exists_eq_some ?_
  rw [members?.eq_def, isName]
  dsimp only
  rw [read]
  dsimp only
  split
  · rename_i here
    cases here.symm.trans close
    rfl
  · rename_i here
    cases here.symm.trans close
  · rename_i noClose noComma
    exact absurd close (noClose _)

/-- Where a comma follows a member, reading goes on with that member kept. -/
theorem members?_of_comma (done : Array (Option String × Json)) (fewer : text.length < n)
    {content : Option String} {behind : List Char} {shorter}
    (isName : memberName? text = some ⟨(content, behind), shorter⟩)
    {value : Json} {shorter'} (read : value? behind = some ⟨(value, left), shorter'⟩)
    (comma : skipBlank left = ',' :: rest) :
    ∃ fewer', members? n done text fewer = members? n (done.push (content, value)) rest fewer' := by
  have fewer' : rest.length < n := by
    have := skipBlank_cons_length comma
    dsimp only at shorter shorter'
    omega
  refine ⟨fewer', ?_⟩
  rw [members?.eq_def n done text, isName]
  dsimp only
  rw [read]
  dsimp only
  split
  · rename_i here
    cases here.symm.trans comma
  · rename_i here
    cases here.symm.trans comma
    rfl
  · rename_i noClose noComma
    exact absurd comma (noComma _)

end Row

/-! ## 3. What is spelled is read

That a text is read wherever it stands is a property of the text (`Reads`), and it is shown by
induction on how the value is spelled.  The rows inside an array or an object are inductions of
their own, over the row, for they only need of each element that it is read. -/

/-- A text is read as a value wherever it stands. -/
def Reads (word : List Char) (value : Json) : Prop :=
  ∀ gap rest, IsBlank gap → EndsNumber rest →
    ∃ shorter, value? (gap ++ word ++ rest) = some ⟨(value, rest), shorter⟩

/-- **Items that are spelled in a row** are read in turn, up to the bracket.  By induction on the
row; each item is read by the assumption on it. -/
theorem items?_complete {n : Nat} (done : Array Json) {items : List (List Char × Json)}
    (each : ∀ item ∈ items, Reads item.1 item.2) (row : Row (items.map (·.1)) text)
    (fewer : (text ++ ']' :: rest).length < n) :
    (items? n done (text ++ ']' :: rest) fewer).map Left.elements
      = some (done.toList ++ items.map (·.2), rest) := by
  generalize same : items.map (·.1) = words at row
  induction row generalizing items done with
  | @last before word behind atFront atEnd =>
    obtain ⟨⟨word, value⟩, rfl, rfl⟩ := List.map_eq_singleton_iff.mp same
    have read := List.forall_mem_singleton.mp each before (behind ++ ']' :: rest) atFront
      (endsNumber_append atEnd (.inr (.inl rfl)))
    rw [← List.append_assoc] at read
    obtain ⟨_, read⟩ := read
    obtain ⟨_, closed⟩ := items?_of_close done fewer read
      (skipBlank_append atEnd (stops_cons rfl))
    rw [closed]
    simp [Left.elements]
  | @more before word behind atFront atEnd words text row ih =>
    obtain ⟨⟨word, value⟩, items, rfl, rfl, others'⟩ := List.map_eq_cons_iff.mp same
    obtain ⟨first, others⟩ := List.forall_mem_cons.mp each
    have read := first before (behind ++ ',' :: (text ++ ']' :: rest)) atFront
      (endsNumber_append atEnd (.inl rfl))
    have split : before ++ word ++ (behind ++ ',' :: (text ++ ']' :: rest))
        = before ++ word ++ behind ++ ',' :: text ++ ']' :: rest := by simp
    rw [split] at read
    obtain ⟨_, read⟩ := read
    obtain ⟨fewer', onward⟩ := items?_of_comma done fewer read
      (skipBlank_append atEnd (stops_cons rfl))
    rw [onward, ih _ others fewer' others']
    simp

/-- **Members that are spelled in a row** are read in turn, up to the brace.  By induction on the
row, as for items. -/
theorem members?_complete {n : Nat} (done : Array (Option String × Json)) {members : List Member}
    (each : ∀ m ∈ members, Reads m.text m.value) (named : ∀ m ∈ members, m.IsNamed)
    (row : Row (members.map Member.chars) text) (fewer : (text ++ '\x7d' :: rest).length < n) :
    (members? n done (text ++ '\x7d' :: rest) fewer).map Left.elements
      = some (done.toList ++ members.map Member.entry, rest) := by
  generalize same : members.map Member.chars = words at row
  induction row generalizing members done with
  | @last before word behind atFront atEnd =>
    obtain ⟨m, rfl, rfl⟩ := List.map_eq_singleton_iff.mp same
    have isName := memberName?_complete (List.forall_mem_singleton.mp named) atFront
      (behind ++ '\x7d' :: rest)
    have split : before ++ m.chars ++ (behind ++ '\x7d' :: rest)
        = before ++ m.chars ++ behind ++ '\x7d' :: rest := by simp
    rw [split] at isName
    obtain ⟨_, isName⟩ := isName
    obtain ⟨_, read⟩ := List.forall_mem_singleton.mp each m.behind (behind ++ '\x7d' :: rest)
      (List.forall_mem_singleton.mp named).behind (endsNumber_append atEnd (.inr (.inr rfl)))
    obtain ⟨_, closed⟩ := members?_of_close done fewer isName read
      (skipBlank_append atEnd (stops_cons rfl))
    rw [closed]
    simp [Left.elements, Member.entry]
  | @more before word behind atFront atEnd words text row ih =>
    obtain ⟨m, members, rfl, rfl, others'⟩ := List.map_eq_cons_iff.mp same
    obtain ⟨first, others⟩ := List.forall_mem_cons.mp each
    obtain ⟨firstNamed, othersNamed⟩ := List.forall_mem_cons.mp named
    have isName := memberName?_complete firstNamed atFront
      (behind ++ ',' :: (text ++ '\x7d' :: rest))
    have split : before ++ m.chars ++ (behind ++ ',' :: (text ++ '\x7d' :: rest))
        = before ++ m.chars ++ behind ++ ',' :: text ++ '\x7d' :: rest := by simp
    rw [split] at isName
    obtain ⟨_, isName⟩ := isName
    obtain ⟨_, read⟩ := first m.behind (behind ++ ',' :: (text ++ '\x7d' :: rest)) firstNamed.behind
      (endsNumber_append atEnd (.inl rfl))
    obtain ⟨fewer', onward⟩ := members?_of_comma done fewer isName read
      (skipBlank_append atEnd (stops_cons rfl))
    rw [onward, ih _ others othersNamed fewer' others']
    simp [Member.entry]

/-- A row starts with a word, behind blanks. -/
theorem Row.exists_append {words : List (List Char)} (row : Row words text) :
    ∃ gap word more, IsBlank gap ∧ word ∈ words ∧ text = gap ++ word ++ more := by
  cases row with
  | @last before word behind atFront atEnd =>
    exact ⟨before, word, behind, atFront, List.mem_cons_self, rfl⟩
  | @more before word behind atFront atEnd words text row =>
    exact ⟨before, word, behind ++ ',' :: text, atFront, List.mem_cons_self, by simp⟩

/-- The first character of a row that is no blank. -/
theorem Row.skipBlank_eq {words : List (List Char)} {p : Char → Prop} (row : Row words text)
    (rest : List Char)
    (front : ∀ word ∈ words, ∃ c more, word = c :: more ∧ Text.isLayout c = false ∧ p c) :
    ∃ c more, skipBlank (text ++ rest) = c :: more ∧ p c := by
  obtain ⟨gap, word, behind, blank, member, rfl⟩ := row.exists_append
  obtain ⟨c, more, rfl, noLayout, isFront⟩ := front word member
  refine ⟨c, more ++ (behind ++ rest), ?_, isFront⟩
  have split : gap ++ c :: more ++ behind ++ rest = gap ++ c :: (more ++ (behind ++ rest)) := by
    simp
  rw [split]
  exact skipBlank_append blank (stops_cons noLayout)

/-- What is read where it starts is read behind blanks. -/
theorem reads_of_front {c : Char} {more : List Char} {value : Json}
    (noLayout : Text.isLayout c = false)
    (read : ∀ {text rest}, EndsNumber rest → skipBlank text = c :: (more ++ rest) →
      (value? text).map Subtype.val = some (value, rest)) : Reads (c :: more) value := by
  intro gap rest blank ends
  refine Left.exists_eq_some (read ends ?_)
  rw [List.append_assoc]
  exact skipBlank_append blank (stops_cons noLayout)

theorem reads_of_scalar {c : Char} {value : Json} (spells : Spells (c :: word) value)
    (noBracket : c ≠ '[') (noBrace : c ≠ '\x7b') : Reads (c :: word) value := by
  obtain ⟨_, _, ⟨⟩, noLayout, -⟩ := spells.exists_cons
  refine reads_of_front noLayout fun ends skips => ?_
  obtain ⟨_, read⟩ := scalar?_complete spells noBracket noBrace ends
  rw [map_value? skips, if_neg noBracket, if_neg noBrace, read]
  rfl

theorem reads_emptyArray (blank : IsBlank gap) : Reads ('[' :: gap ++ [']']) (.array []) := by
  rw [List.cons_append]
  refine reads_of_front rfl fun {_ rest} _ skips => ?_
  rw [List.append_assoc, List.singleton_append] at skips
  rw [map_value? skips, if_pos rfl, skipBlank_append blank (stops_cons rfl)]
  rfl

theorem reads_array {items : List (List Char × Json)} (each : ∀ item ∈ items, Reads item.1 item.2)
    (spells : ∀ item ∈ items, Spells item.1 item.2) (row : Row (items.map (·.1)) text) :
    Reads ('[' :: text ++ [']']) (.array (items.map (·.2))) := by
  rw [List.cons_append]
  refine reads_of_front rfl fun {_ rest} _ skips => ?_
  rw [List.append_assoc, List.singleton_append] at skips
  obtain ⟨c, more, first, noClose⟩ := row.skipBlank_eq (']' :: rest)
    (List.forall_mem_map.mpr fun item member => (spells item member).exists_cons)
  rw [map_value? skips, if_pos rfl]
  split
  · rename_i close
    cases first.symm.trans close
    exact absurd rfl noClose
  · have read := items?_complete #[] each row (skipBlank_cons_length skips)
    exact (Option.map_map _ _ _).symm.trans
      (congrArg (Option.map fun found => (Json.array found.1, found.2)) read)

theorem reads_emptyObject (blank : IsBlank gap) :
    Reads ('\x7b' :: gap ++ ['\x7d']) (.object []) := by
  rw [List.cons_append]
  refine reads_of_front rfl fun {_ rest} _ skips => ?_
  rw [List.append_assoc, List.singleton_append] at skips
  rw [map_value? skips, if_neg (by decide), if_pos rfl, skipBlank_append blank (stops_cons rfl)]
  rfl

theorem reads_object {members : List Member} (each : ∀ m ∈ members, Reads m.text m.value)
    (named : ∀ m ∈ members, m.IsNamed) (row : Row (members.map Member.chars) text) :
    Reads ('\x7b' :: text ++ ['\x7d']) (.object (members.map Member.entry)) := by
  rw [List.cons_append]
  refine reads_of_front rfl fun {_ rest} _ skips => ?_
  rw [List.append_assoc, List.singleton_append] at skips
  obtain ⟨c, more, first, noClose⟩ := row.skipBlank_eq ('\x7d' :: rest) (p := (· ≠ '\x7d'))
    (List.forall_mem_map.mpr fun m _ => ⟨_, _, rfl, rfl, by decide⟩)
  rw [map_value? skips, if_neg (by decide), if_pos rfl]
  split
  · rename_i close
    cases first.symm.trans close
    exact absurd rfl noClose
  · have read := members?_complete #[] each named row (skipBlank_cons_length skips)
    exact (Option.map_map _ _ _).symm.trans
      (congrArg (Option.map fun found => (Json.object found.1, found.2)) read)

/-- **A value that is spelled is read**, behind blanks and where it ends. -/
theorem reads_of_spells {value : Json} (spells : Spells word value) : Reads word value := by
  induction spells with
  | null => exact reads_of_scalar .null (by decide) (by decide)
  | isTrue => exact reads_of_scalar .isTrue (by decide) (by decide)
  | isFalse => exact reads_of_scalar .isFalse (by decide) (by decide)
  | string spells => exact reads_of_scalar (.string spells) (by decide) (by decide)
  | number spells =>
    obtain ⟨c, more, rfl, front⟩ := exists_cons_of_number spells
    exact reads_of_scalar (.number spells) (by rintro rfl; simp at front)
      (by rintro rfl; simp at front)
  | emptyArray blank => exact reads_emptyArray blank
  | array each row ih => exact reads_array ih each row
  | emptyObject blank => exact reads_emptyObject blank
  | object _ named row ih => exact reads_object ih named row

end Complete

/-! ## 4. Whole texts

A whole text has blanks on both sides, and nothing may be left.  So both directions come together
here, and with them a text spells one value: the reader is a function. -/

/-- **A text is read as a value** exactly if it spells it.  Behind the value nothing but blanks may
be left. -/
theorem read?_eq_some_iff {text : String} {json : Json} :
    read? text = some json ↔ SpellsText text json := by
  constructor
  · intro read
    rw [read?] at read
    split at read
    · cases read
    rename_i found isFound
    obtain ⟨⟨value, left⟩, _⟩ := found
    obtain ⟨gap, word, isGap, spells, split⟩ := value?_sound isFound
    split at read
    · rename_i nothing
      cases read
      obtain ⟨gap', isGap', rfl⟩ := exists_skipBlank (List.isEmpty_iff.mp nothing)
      rw [List.append_nil] at split
      exact ⟨gap, word, gap', isGap, isGap', spells, split⟩
    · cases read
  · rintro ⟨before, word, behind, isBefore, isBehind, spells, split⟩
    have found := reads_of_spells spells before behind isBefore (endsNumber_of_isBlank isBehind)
    rw [← split] at found
    obtain ⟨_, found⟩ := found
    have nothing : skipBlank behind = [] := List.dropWhile_eq_nil_iff.mpr isBehind
    rw [read?, found]
    dsimp only
    rw [nothing]
    rfl

/-- **A text spells one value** at most. -/
theorem SpellsText.unique {text : String} {json json' : Json} (spells : SpellsText text json)
    (spells' : SpellsText text json') : json = json' :=
  Option.some.inj ((read?_eq_some_iff.mpr spells).symm.trans (read?_eq_some_iff.mpr spells'))
end Json
end DecimalExpression
