import DecimalExpression.Proofs.Syntax.Words
import DecimalExpression.Syntax.Input
import Mathlib.Data.List.DropRight

/-!
# Where a tree stands in a source

A place in a source is what is left of the source from there on.  A leaf stands where its characters
are.  A node stands from where its first child starts to where its last child stops, and its text is
the slice in between (`ParseTree.Stands`).  Between two children are separators, and nothing else.

The rules of the grammar cut a slice with the layout in front of it and trim it.  What is left is
the slice from the first leaf on, since no leaf starts or ends with a blank
(`ParseTree.stands_node`).
-/

namespace DecimalExpression

/-! ## 1. Separators and solid texts

A slice is trimmed when a node is made, and trimming takes off more than layout.  Where the text
starts and ends with something else than a blank it takes off nothing, and the slice is what was
read. -/

namespace Text

/-- **Separators**: layout, and the commas of calls. -/
def isSeparator (c : Char) : Bool := isLayout c || c = ','

/-- **A solid text** starts and ends with something else than a blank. -/
def isSolid (slice : List Char) : Bool :=
  slice.head?.any (fun c => !isBlank c) && slice.getLast?.any (fun c => !isBlank c)

variable {a b gap : List Char}

theorem isSeparator_of_isLayout {c : Char} (h : isLayout c) : isSeparator c := by
  rw [isSeparator, h, Bool.true_or]

theorem isSolid_iff : isSolid a ↔ (∃ c more, a = c :: more ∧ isBlank c = false) ∧
    ∃ front c, a = front ++ [c] ∧ isBlank c = false := by
  simp only [isSolid, Bool.and_eq_true, Option.any_eq_true, Bool.not_eq_true']
  refine and_congr ⟨?_, ?_⟩ ⟨?_, ?_⟩
  · rintro ⟨c, head, visible⟩
    obtain ⟨more, rfl⟩ := List.head?_eq_some_iff.mp head
    exact ⟨c, more, rfl, visible⟩
  · rintro ⟨c, more, rfl, visible⟩
    exact ⟨c, rfl, visible⟩
  · rintro ⟨c, last, visible⟩
    obtain ⟨front, rfl⟩ := List.getLast?_eq_some_iff.mp last
    exact ⟨front, c, rfl, visible⟩
  · rintro ⟨front, c, rfl, visible⟩
    exact ⟨c, List.getLast?_concat, visible⟩

/-- Solid texts with anything in between are solid. -/
theorem isSolid_append (ha : isSolid a) (gap : List Char) (hb : isSolid b) :
    isSolid (a ++ (gap ++ b)) := by
  obtain ⟨⟨c, more, rfl, first⟩, -⟩ := isSolid_iff.mp ha
  obtain ⟨-, front, d, rfl, last⟩ := isSolid_iff.mp hb
  exact isSolid_iff.mpr ⟨⟨c, more ++ (gap ++ (front ++ [d])), rfl, first⟩,
    c :: more ++ (gap ++ front), d, by simp, last⟩

/-- Trimming leaves a solid text alone. -/
theorem trim_of_isSolid (h : isSolid a) : trim a = a := by
  obtain ⟨⟨c, more, same, first⟩, front, d, same', last⟩ := isSolid_iff.mp h
  refine trim_eq_self (fun x head => ?_) fun x tail => ?_
  · rw [same] at head
    cases head
    exact first
  · rw [same', List.getLast?_concat] at tail
    cases tail
    exact last

/-- **What is left by trimming is solid**, if anything is left. -/
theorem isSolid_trim (nonempty : trim a ≠ []) : isSolid (trim a) := by
  have whole : trim a = (trimStart a).rdropWhile isBlank := rfl
  obtain ⟨behind, split⟩ := List.rdropWhile_prefix isBlank (l := trimStart a)
  have last := List.rdropWhile_last_not isBlank (trimStart a) (whole ▸ nonempty)
  rw [← whole] at split
  refine isSolid_iff.mpr ⟨?_, _, _, (List.dropLast_append_getLast nonempty).symm, ?_⟩
  · obtain ⟨c, more, same⟩ := List.exists_cons_of_ne_nil nonempty
    have first := List.head?_dropWhile_not isBlank a
    have start : a.dropWhile isBlank = c :: (more ++ behind) := by
      rw [← List.cons_append, ← same]
      exact split.symm
    rw [start] at first
    exact ⟨c, more, same, by simpa using first⟩
  · exact Bool.not_eq_true _ ▸ last

end Text

/-! ## 2. Places

Places are given by what is left of the source, not by numbers, so that concatenation is all the
arithmetic there is.  The first child of a node starts where the node does, and each of the others
stands behind separators, which are layout and the commas of calls. -/

namespace ParseTree

mutual

/-- **Where a tree stands.**  The tree starts where `start` is left of the source, and stops where
`rest` is left.  A leaf is what stands in between; a node starts with its first child and stops with
its last one, and its text is the slice in between. -/
def Stands : ParseTree → (start rest : List Char) → Prop
  | ⟨_, slice, []⟩, start, rest => start = slice.toList ++ rest
  | ⟨_, slice, first :: more⟩, start, rest =>
    start = slice.toList ++ rest ∧ ∃ behind, first.Stands start behind ∧
      StandBehind more behind rest

/-- **Trees stand behind each other** from `here` to `rest`, with separators in front of each. -/
def StandBehind : List ParseTree → (here rest : List Char) → Prop
  | [], here, rest => here = rest
  | tree :: more, here, rest =>
    ∃ gap start behind, here = gap ++ start ∧ (∀ c ∈ gap, Text.isSeparator c) ∧
      tree.Stands start behind ∧ StandBehind more behind rest

end

/-- **A tree stands behind layout**, perhaps none. -/
def StandsBehindLayout (tree : ParseTree) (here rest : List Char) : Prop :=
  ∃ gap start, here = gap ++ start ∧ (∀ c ∈ gap, Text.isLayout c) ∧ tree.Stands start rest

variable {tree first : ParseTree} {more trees : List ParseTree}
  {start here behind rest gap : List Char} {production : Production} {slice : String}

/-- **The text of a tree is the slice where it stands.** -/
theorem Stands.start_eq (h : tree.Stands start rest) : start = tree.text.toList ++ rest := by
  obtain ⟨production, slice, children⟩ := tree
  cases children with
  | nil => exact h
  | cons first more => exact h.1

/-- A layer stands where its only child stands. -/
theorem Stands.wrap (h : tree.Stands start rest) (outer : Production) :
    (ParseTree.wrap outer tree).Stands start rest :=
  ⟨h.start_eq, rest, h, rfl⟩

theorem StandsBehindLayout.wrap (h : tree.StandsBehindLayout here rest) (outer : Production) :
    (ParseTree.wrap outer tree).StandsBehindLayout here rest := by
  obtain ⟨gap, start, same, layout, stands⟩ := h
  exact ⟨gap, start, same, layout, stands.wrap outer⟩

/-- More layout may stand in front. -/
theorem StandsBehindLayout.moreLayout (h : tree.StandsBehindLayout here rest)
    (layout : ∀ c ∈ gap, Text.isLayout c) : tree.StandsBehindLayout (gap ++ here) rest := by
  obtain ⟨gap', start, rfl, layout', stands⟩ := h
  exact ⟨gap ++ gap', start, (List.append_assoc _ _ _).symm,
    List.forall_mem_append.mpr ⟨layout, layout'⟩, stands⟩

theorem StandBehind.cons (h : tree.StandsBehindLayout here behind)
    (below : StandBehind more behind rest) : StandBehind (tree :: more) here rest := by
  obtain ⟨gap, start, same, layout, stands⟩ := h
  exact ⟨gap, start, behind, same, fun c member => Text.isSeparator_of_isLayout (layout c member),
    stands, below⟩

/-- A comma is a separator too. -/
theorem StandBehind.consBehindComma {next : List Char}
    (comma : (leaf .token ",").StandsBehindLayout here next)
    (h : tree.StandsBehindLayout next behind) (below : StandBehind more behind rest) :
    StandBehind (tree :: more) here rest := by
  obtain ⟨gap, _, rfl, layout, rfl⟩ := comma
  obtain ⟨gap', start, rfl, layout', stands⟩ := h
  refine ⟨gap ++ ',' :: gap', start, behind, by simp, ?_, stands, below⟩
  refine List.forall_mem_append.mpr ⟨fun c member => Text.isSeparator_of_isLayout (layout c member),
    List.forall_mem_cons.mpr ⟨rfl, fun c member => Text.isSeparator_of_isLayout (layout' c member)⟩⟩

theorem StandBehind.append (h : StandBehind trees here behind)
    (below : StandBehind more behind rest) : StandBehind (trees ++ more) here rest := by
  induction trees generalizing here with
  | nil =>
    cases h
    exact below
  | cons tree trees ih =>
    obtain ⟨gap, start, next, same, separators, stands, others⟩ := h
    exact ⟨gap, start, next, same, separators, stands, ih others⟩

/-- **Trees stand in line** from `here` to `rest`, each behind layout. -/
def StandInLine : List ParseTree → (here rest : List Char) → Prop
  | [], here, rest => here = rest
  | tree :: more, here, rest =>
    ∃ behind, tree.StandsBehindLayout here behind ∧ StandInLine more behind rest

theorem StandInLine.cons (h : tree.StandsBehindLayout here behind)
    (below : StandInLine more behind rest) : StandInLine (tree :: more) here rest :=
  ⟨behind, h, below⟩

theorem StandInLine.append (h : StandInLine trees here behind)
    (below : StandInLine more behind rest) : StandInLine (trees ++ more) here rest := by
  induction trees generalizing here with
  | nil =>
    cases h
    exact below
  | cons tree trees ih =>
    obtain ⟨next, stands, others⟩ := h
    exact .cons stands (ih others)

theorem StandInLine.standBehind (h : StandInLine trees here rest) :
    StandBehind trees here rest := by
  induction trees generalizing here with
  | nil => exact h
  | cons tree trees ih =>
    obtain ⟨next, stands, others⟩ := h
    exact .cons stands (ih others)

/-- Solid trees behind a solid text end a solid text. -/
theorem StandBehind.exists_solid {front : List Char} (h : StandBehind more behind rest)
    (solid : Text.isSolid front) (each : ∀ tree ∈ more, Text.isSolid tree.text.toList) :
    ∃ body, front ++ behind = body ++ rest ∧ Text.isSolid body := by
  induction more generalizing front behind with
  | nil =>
    cases h
    exact ⟨front, rfl, solid⟩
  | cons tree more ih =>
    obtain ⟨gap, start, next, rfl, -, stands, others⟩ := h
    have further := Text.isSolid_append solid gap (each tree List.mem_cons_self)
    obtain ⟨body, same, solidBody⟩ :=
      ih others further fun other member => each other (List.mem_cons_of_mem _ member)
    refine ⟨body, ?_, solidBody⟩
    rw [← same, stands.start_eq]
    simp only [List.append_assoc]

end ParseTree

/-! ## 3. Slices

What a rule takes as the text of a node is the text from where it started to where it stopped,
trimmed.  These lemmas turn it into a place for the node, given places for the children. -/

namespace Input

variable {s rest : Input}

/-- **A slice** is what was read, trimmed. -/
theorem slice_eq {part : List Char} (h : part ++ rest.chars = s.chars) :
    s.slice rest = String.ofList (Text.trim part) := by
  have length := congrArg List.length h
  rw [List.length_append] at length
  have size := s.size_eq
  have sizeRest := rest.size_eq
  have taken : s.chars.take (s.size - rest.size) = part := by
    rw [← h]
    exact List.take_left' (by omega)
  rw [slice, taken]

/-- A slice does not depend on the layout in front of it. -/
theorem slice_skipLayout (suffix : rest.chars <:+ s.skipLayout.rest.chars) :
    s.skipLayout.rest.slice rest = s.slice rest := by
  obtain ⟨part, split⟩ := suffix
  have whole : s.chars.takeWhile Text.isLayout ++ part ++ rest.chars = s.chars := by
    rw [List.append_assoc, split]
    exact List.takeWhile_append_dropWhile
  have blanks : ∀ c ∈ s.chars.takeWhile Text.isLayout, Text.isBlank c := fun c member =>
    Text.isBlank_of_isLayout (List.mem_takeWhile_imp member)
  rw [slice_eq split, slice_eq whole, Text.trim_append_left blanks]

/-- The slice of a lexeme without blanks around it is the lexeme. -/
theorem slice_take {lexeme : Lexeme s.chars} (trimmed : Text.trim lexeme.text = lexeme.text) :
    s.slice (s.take lexeme).rest = String.ofList lexeme.text := by
  have split : lexeme.text ++ (s.take lexeme).rest.chars = s.chars := lexeme.split
  rw [slice_eq split, trimmed]

end Input

namespace ParseTree

variable {first : ParseTree} {more : List ParseTree} {s rest : Input} {behind : List Char}

/-- What stands behind layout where layout is skipped stands behind layout. -/
theorem StandsBehindLayout.of_skipLayout {tree : ParseTree} {rest : List Char}
    (h : tree.StandsBehindLayout s.skipLayout.rest.chars rest) :
    tree.StandsBehindLayout s.chars rest := by
  have split : s.chars.takeWhile Text.isLayout ++ s.skipLayout.rest.chars = s.chars :=
    List.takeWhile_append_dropWhile
  rw [← split]
  exact h.moreLayout fun c member => List.mem_takeWhile_imp member

/-- A lexeme stands where it is read. -/
theorem stands_take (lexeme : Lexeme s.chars) (production : Production) :
    (leaf production (s.take lexeme).value).StandsBehindLayout s.chars
      (s.take lexeme).rest.chars := by
  refine ⟨[], s.chars, rfl, List.forall_mem_nil _, ?_⟩
  show s.chars = (String.ofList lexeme.text).toList ++ lexeme.rest
  rw [String.toList_ofList, lexeme.split]

/-- **A token stands behind the layout** that is skipped in front of it. -/
theorem stands_of_token? {tokens : List (List Char)} {reading : Reading 1 s String}
    (read : s.token? tokens = some reading) :
    (leaf .token reading.value).StandsBehindLayout s.chars reading.rest.chars := by
  rw [Input.token?, Option.map_eq_some_iff] at read
  obtain ⟨lexeme, -, rfl⟩ := read
  exact (stands_take lexeme .token).of_skipLayout

/-- **The slice around solid children** is a solid text, and the node with this text stands where
they stand.  What was read starts with layout and ends with the last child, so trimming takes off
the layout in front and no more. -/
theorem stands_node (production : Production) (atFirst : first.StandsBehindLayout s.chars behind)
    (others : StandBehind more behind rest.chars)
    (solid : ∀ child ∈ first :: more, Text.isSolid child.text.toList) :
    Text.isSolid (s.slice rest).toList ∧
      StandsBehindLayout ⟨production, s.slice rest, first :: more⟩ s.chars rest.chars ∧
      (s.slice rest).toList ++ rest.chars = first.text.toList ++ behind := by
  obtain ⟨gap, start, split, layout, stands⟩ := atFirst
  obtain ⟨solidFirst, solidOthers⟩ := List.forall_mem_cons.mp solid
  obtain ⟨body, same, solidBody⟩ := others.exists_solid solidFirst solidOthers
  have whole : gap ++ body ++ rest.chars = s.chars := by
    rw [List.append_assoc, ← same, ← stands.start_eq, split]
  have slice : (s.slice rest).toList = body := by
    have blanks : ∀ c ∈ gap, Text.isBlank c := fun c member =>
      Text.isBlank_of_isLayout (layout c member)
    rw [Input.slice_eq whole, Text.trim_append_left blanks, Text.trim_of_isSolid solidBody,
      String.toList_ofList]
  have starts : (s.slice rest).toList ++ rest.chars = first.text.toList ++ behind := by
    rw [slice, ← same]
  exact ⟨slice ▸ solidBody, ⟨gap, start, split, layout, stands.start_eq.trans starts.symm, behind,
    stands, others⟩, starts⟩

end ParseTree
end DecimalExpression
