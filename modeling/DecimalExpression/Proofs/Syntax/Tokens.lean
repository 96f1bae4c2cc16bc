import DecimalExpression.Proofs.Syntax.Layout

/-!
# Reading tokens

A token is read behind layout where it stands (`Input.exists_token?`), and is not where something
else stands (`Input.token?_eq_none`).  Both are decided by the first character behind the layout,
but for `<` and `>`, which are read where no `=` follows.

What may stand behind a tree of a level are the characters that end all levels below, and those that
go on in one of the levels above (`Ends`).  No operand starts with one of them but a sign does, so a
rule always knows where to stop.
-/

namespace DecimalExpression

/-! ## 1. Fixed tokens

Tokens of a list are tried in order.  So a token is read where it stands and no earlier one of the
list does. -/

namespace Lexeme

variable {source token more : List Char}

theorem dropToken?_of_split (split : token ++ more = source) :
    dropToken? token source = some ⟨more, split⟩ := by
  subst split
  induction token with
  | nil => rfl
  | cons t token ih =>
    show dropToken? (t :: token) (t :: (token ++ more)) = _
    rw [dropToken?, dif_pos rfl, ih]
    rfl

theorem dropToken?_eq_none (h : ¬ token <+: source) : dropToken? token source = none := by
  cases found : dropToken? token source with
  | none => rfl
  | some rest => exact absurd ⟨rest.val, rest.property⟩ h

/-- **A token is read** where it stands, and no earlier one of the list does. -/
theorem token?_of_split (split : token ++ more = source) (nonempty : token ≠ [])
    {before after : List (List Char)} (earlier : ∀ other ∈ before, ¬ other <+: source) :
    token? source (before ++ token :: after) = some ⟨token, more, split, nonempty⟩ := by
  induction before with
  | nil =>
    obtain ⟨t, rest, rfl⟩ := List.exists_cons_of_ne_nil nonempty
    rw [List.nil_append, token?, dropToken?_of_split split]
  | cons other before ih =>
    have absent := earlier other List.mem_cons_self
    cases other with
    | nil => exact absurd List.nil_prefix absent
    | cons o other =>
      rw [List.cons_append, token?, dropToken?_eq_none absent]
      exact ih fun later member => earlier later (List.mem_cons_of_mem _ member)

/-- **No token is read** where none stands. -/
theorem token?_eq_none {tokens : List (List Char)} (absent : ∀ token ∈ tokens, ¬ token <+: source) :
    token? source tokens = none := by
  induction tokens with
  | nil => rfl
  | cons token tokens ih =>
    have here := absent token List.mem_cons_self
    cases token with
    | nil => exact absurd List.nil_prefix here
    | cons t token =>
      rw [token?, dropToken?_eq_none here]
      exact ih fun later member => absent later (List.mem_cons_of_mem _ member)

end Lexeme

/-! ## 2. Behind layout

Layout in front of a token is skipped, and a token starts with something else than layout. -/

namespace Input

variable {s : Input} {gap token more : List Char} {tokens : List (List Char)}

theorem ext {s t : Input} (h : s.chars = t.chars) : s = t := by
  obtain ⟨chars, size, size_eq⟩ := s
  obtain ⟨chars', size', size_eq'⟩ := t
  cases h
  cases size_eq
  cases size_eq'
  rfl

/-- Layout is skipped up to what is none. -/
theorem skipLayout_chars_of_split (chars : s.chars = gap ++ (token ++ more))
    (layout : ∀ c ∈ gap, Text.isLayout c) (nonempty : token ≠ [])
    (visible : ∀ c ∈ token.head?, Text.isLayout c = false) :
    s.skipLayout.rest.chars = token ++ more := by
  obtain ⟨t, rest, rfl⟩ := List.exists_cons_of_ne_nil nonempty
  have stops : Lexeme.Stops Text.isLayout (t :: rest ++ more) := fun c head => by
    cases head
    exact visible t rfl
  show s.chars.dropWhile Text.isLayout = _
  rw [chars, Lexeme.dropWhile_append_of_stops layout stops]

/-- **A token behind layout is read.** -/
theorem exists_token? (chars : s.chars = gap ++ (token ++ more))
    (layout : ∀ c ∈ gap, Text.isLayout c) (nonempty : token ≠ [])
    (visible : ∀ c ∈ token.head?, Text.isLayout c = false)
    {before after : List (List Char)} (earlier : ∀ other ∈ before, ¬ other <+: token ++ more) :
    ∃ reading, s.token? (before ++ token :: after) = some reading ∧
      reading.value = String.ofList token ∧ reading.rest.chars = more := by
  have skipped := skipLayout_chars_of_split chars layout nonempty visible
  have read : Lexeme.token? s.skipLayout.rest.chars (before ++ token :: after)
      = some ⟨token, more, skipped.symm, nonempty⟩ :=
    Lexeme.token?_of_split skipped.symm nonempty (skipped.symm ▸ earlier)
  exact ⟨_, by rw [token?, read]; rfl, rfl, rfl⟩

/-- **No token is read** where the character behind the layout starts none. -/
theorem token?_eq_none (absent : ∀ token ∈ tokens, ¬ token <+: s.chars.dropWhile Text.isLayout) :
    s.token? tokens = none := by
  have none : Lexeme.token? s.skipLayout.rest.chars tokens = none := Lexeme.token?_eq_none absent
  rw [token?, none]
  rfl

end Input

/-! ## 3. What stands behind a tree

What may follow a production is given by its first visible character, or by the end.  The lists grow
from the conditional inwards: what may follow an operand of a chain are the operators of the chain
and what may follow the chain itself. -/

namespace Grammar

open ParseTree

/-- **Behind layout stands one of these characters**, or nothing. -/
def Ends (follow rest : List Char) : Prop :=
  ∀ c ∈ (rest.dropWhile Text.isLayout).head?, c ∈ follow

/-- What ends a conditional. -/
def conditionalEnds : List Char := [')', ',', ':']

/-- What ends a disjunction, or goes on behind it. -/
def disjunctionEnds : List Char := '?' :: conditionalEnds

def conjunctionEnds : List Char := '|' :: disjunctionEnds

def equalityEnds : List Char := '&' :: conjunctionEnds

def relationalEnds : List Char := '=' :: '!' :: equalityEnds

def additiveEnds : List Char := '<' :: '>' :: relationalEnds

def multiplicativeEnds : List Char := '+' :: '-' :: additiveEnds

/-- What ends an operand, or goes on behind it. -/
def operandEnds : List Char := '*' :: '/' :: multiplicativeEnds

variable {follow rest gap more : List Char} {s : Input}

theorem Ends.mono {wider : List Char} (ends : Ends follow rest) (h : follow ⊆ wider) :
    Ends wider rest := fun c head => h (ends c head)

theorem ends_of_layout (layout : ∀ c ∈ gap, Text.isLayout c) : Ends follow gap := by
  intro c head
  rw [List.dropWhile_eq_nil_iff.mpr layout] at head
  cases head

theorem dropWhile_of_visible {c : Char} (layout : ∀ c ∈ gap, Text.isLayout c)
    (visible : Text.isLayout c = false) :
    (gap ++ c :: more).dropWhile Text.isLayout = c :: more :=
  Lexeme.dropWhile_append_of_stops layout fun d head => by
    cases head
    exact visible

theorem ends_of_visible {c : Char} (layout : ∀ c ∈ gap, Text.isLayout c)
    (visible : Text.isLayout c = false) (member : c ∈ follow) : Ends follow (gap ++ c :: more) := by
  intro d head
  rw [dropWhile_of_visible layout visible] at head
  cases head
  exact member

/-- Tokens none of which starts with a character that may follow. -/
def apart (follow : List Char) (tokens : List (List Char)) : Bool :=
  tokens.all fun token => token.head?.any fun c => !follow.contains c

/-- **A chain ends** where none of its operators can follow. -/
theorem Ends.token?_eq_none {tokens : List (List Char)} (ends : Ends follow s.chars)
    (h : apart follow tokens) : s.token? tokens = none := by
  refine Input.token?_eq_none fun token member ⟨behind, split⟩ => ?_
  have first := List.all_eq_true.mp h token member
  cases token with
  | nil => cases first
  | cons c token =>
    have here : c ∈ follow := ends c (by rw [← split]; rfl)
    simp [here] at first

/-- **A word ends** in front of what cannot go on in one. -/
theorem boundary_of_ends (ends : Ends follow rest)
    (plain : (follow.any fun c => Lexeme.isNamePart c || c = '.') = false) :
    Lexeme.Boundary rest := by
  have atLayout : ∀ c, Text.isLayout c → (Lexeme.isNamePart c || c = '.') = false := by
    intro c layout
    simp only [Text.isLayout, Bool.or_eq_true, decide_eq_true_eq] at layout
    rcases layout with ((rfl | rfl) | rfl) | rfl <;> decide
  intro c head
  cases rest with
  | nil => cases head
  | cons d more =>
    cases head
    by_cases layout : Text.isLayout c
    · exact atLayout c layout
    · rw [List.any_eq_false] at plain
      refine Bool.eq_false_iff.mpr (plain c (ends c ?_))
      rw [List.dropWhile_cons_of_neg layout]
      rfl

/-! ## 4. How a tree starts

A tree starts with a sign, a parenthesis, a quote, a digit, a point, or the start of a name.  None
of them is an equals sign, so that `<` in front of an operand is never read as `<=`. -/

/-- What an operand without signs starts with. -/
def opensOperand (c : Char) : Bool :=
  Lexeme.isNameStart c || c.isDigit || c = '.' || c = '"' || c = '('

/-- What a tree starts with. -/
def opensTree (c : Char) : Bool := opensOperand c || c = '+' || c = '-'

/-- The first token starts with such a character. -/
def StartsWith (opens : Char → Bool) (tokens : List String) : Prop :=
  ∃ c word more, tokens = String.ofList (c :: word) :: more ∧ opens c

theorem StartsWith.append {opens : Char → Bool} {first : List String}
    (h : StartsWith opens first) (second : List String) : StartsWith opens (first ++ second) := by
  obtain ⟨c, word, more, rfl, isOpening⟩ := h
  exact ⟨c, word, more ++ second, rfl, isOpening⟩

theorem StartsWith.toTree {tokens : List String} (h : StartsWith opensOperand tokens) :
    StartsWith opensTree tokens := by
  obtain ⟨c, word, more, same, isOpening⟩ := h
  exact ⟨c, word, more, same, by rw [opensTree, isOpening]; rfl⟩

theorem startsWith_of_toList {opens : Char → Bool} {token : String} {more : List String} {c : Char}
    {word : List Char} (same : token.toList = c :: word) (isOpening : opens c) :
    StartsWith opens (token :: more) :=
  ⟨c, word, more, by rw [← same, String.ofList_toList], isOpening⟩

/-- A name starts an operand. -/
theorem startsWith_name {name : String} (word : Word.isName name.toList) (more : List String) :
    StartsWith opensOperand (name :: more) := by
  cases same : name.toList with
  | nil =>
    rw [same] at word
    cases word
  | cons c rest =>
    rw [same] at word
    simp only [Word.isName, Bool.and_eq_true] at word
    exact startsWith_of_toList same (by simp [opensOperand, word.1])

/-- A numeral starts an operand. -/
theorem startsWith_numeral {slice : String} (word : Word.isNumeral slice.toList)
    (more : List String) : StartsWith opensOperand (slice :: more) := by
  obtain ⟨c, rest, same, first⟩ := Lexeme.exists_of_isNumeral word
  refine startsWith_of_toList same ?_
  rcases first with digit | rfl
  · simp [opensOperand, digit]
  · rfl

/-- A text in quotes starts an operand. -/
theorem startsWith_quoted {slice : String} (word : Word.isQuoted slice.toList)
    (more : List String) : StartsWith opensOperand (slice :: more) := by
  obtain ⟨content, same, -⟩ := Lexeme.isQuoted_iff.mp word
  exact startsWith_of_toList same rfl

/-- Productions below the signs. -/
def isUnsigned : Production → Bool
  | .primary | .group | .call | .number | .text | .reference => true
  | _ => false

/-- **How a derived tree starts**: with an operand, or with a sign where its production has some.
By induction on the derivation: a node starts as its first child does, or with a token of its own.
-/
theorem startsWith_of_derives {p : Production} {tree : ParseTree} (h : Derives p tree) :
    StartsWith opensTree tree.tokens ∧
      (isUnsigned p → StartsWith opensOperand tree.tokens) := by
  induction h with
  | layer level slice below ih =>
    rw [tokens_layer level]
    exact ⟨ih.1, fun unsigned => ih.2 (by cases level <;> first | rfl | cases unsigned)⟩
  | flat level slice links signs atFirst atLinks ih =>
    rw [tokens_flat level]
    exact ⟨ih.1.append _, fun unsigned => by cases level <;> cases unsigned⟩
  | left level slice sign atLeft atRight ih =>
    rw [tokens_left level]
    exact ⟨ih.1.append _, fun unsigned => by cases level <;> cases unsigned⟩
  | right level slice atLeft atRight ih =>
    rw [tokens_right level]
    exact ⟨ih.1.append _, fun unsigned => by cases level <;> cases unsigned⟩
  | choice slice atCondition atConsequent atAlternative ih =>
    rw [tokens_choice]
    exact ⟨ih.1.append _, nofun⟩
  | signed slice plain below ih =>
    rw [tokens_signed]
    refine ⟨?_, nofun⟩
    simp only [List.mem_cons, List.not_mem_nil, or_false] at plain
    rcases plain with rfl | rfl
    · exact ⟨'+', [], _, rfl, rfl⟩
    · exact ⟨'-', [], _, rfl, rfl⟩
  | group slice below ih =>
    rw [tokens_group]
    have start : ∀ more, StartsWith opensOperand ("(" :: more) :=
      fun more => ⟨'(', [], more, rfl, rfl⟩
    exact ⟨(start _).toTree, fun _ => start _⟩
  | call slice word arguments below ih =>
    rw [tokens_call]
    exact ⟨(startsWith_name word _).toTree, fun _ => startsWith_name word _⟩
  | number word =>
    rw [tokens_leaf]
    exact ⟨(startsWith_numeral word []).toTree, fun _ => startsWith_numeral word []⟩
  | text word =>
    rw [tokens_leaf]
    exact ⟨(startsWith_quoted word []).toTree, fun _ => startsWith_quoted word []⟩
  | reference word =>
    rw [tokens_leaf]
    exact ⟨(startsWith_name word []).toTree, fun _ => startsWith_name word []⟩

/-- **Spelled tokens** start with layout, and then as the first token does. -/
theorem exists_of_startsWith {opens : Char → Bool} {tokens : List String} {body : List Char}
    (starts : StartsWith opens tokens) (spelled : Spelled tokens body) :
    ∃ gap c more, body = gap ++ c :: more ∧ (∀ c ∈ gap, Text.isLayout c) ∧ opens c := by
  obtain ⟨c, word, more, rfl, isOpening⟩ := starts
  obtain ⟨gap, rest, rfl, layout, -⟩ := Spelled.exists_of_cons spelled
  exact ⟨gap, c, word ++ rest, by rw [String.toList_ofList]; rfl, layout, isOpening⟩

theorem isLayout_of_opensTree {c : Char} (h : opensTree c) : Text.isLayout c = false := by
  by_contra layout
  rw [Bool.not_eq_false] at layout
  simp only [Text.isLayout, Bool.or_eq_true, decide_eq_true_eq] at layout
  rcases layout with ((rfl | rfl) | rfl) | rfl <;> revert h <;> decide

/-! ## 5. Operators

`Legible` is what a chain needs of its operators: each one is told apart from the others by what
stands in front of an operand, and starts with a character that ends the operand before it. -/

/-- **Operators that can be told apart**: none of them is read for another one that stands in front
of `more`, and each starts with a character that may follow an operand of its level. -/
structure Legible (follow : List Char) (operators : List String) : Prop where
  first : ∀ operator ∈ operators, ∃ c word, operator.toList = c :: word ∧ c ∈ follow ∧
    Text.isLayout c = false
  separate : ∀ operator ∈ operators, ∀ more : List Char, more.head? ≠ some '=' →
    ∃ before after, operators.map String.toList = before ++ operator.toList :: after ∧
      ∀ other ∈ before, ¬ other <+: operator.toList ++ more

/-- A single operator can be told apart from none. -/
theorem legible_single {operator : String} {c : Char} {word : List Char}
    (same : operator.toList = c :: word) (member : c ∈ follow) (visible : Text.isLayout c = false) :
    Legible follow [operator] where
  first := fun other among => by
    cases List.mem_singleton.mp among
    exact ⟨c, word, same, member, visible⟩
  separate := fun other among _ _ => by
    cases List.mem_singleton.mp among
    exact ⟨[], [], rfl, fun _ absent => absurd absent List.not_mem_nil⟩

/-- Two operators neither of which goes on where the other one stops. -/
theorem legible_pair {one two : String} {c d : Char} {word word' : List Char}
    (atOne : one.toList = c :: word) (atTwo : two.toList = d :: word') (apart : c ≠ d)
    (memberOne : c ∈ follow) (memberTwo : d ∈ follow) (visibleOne : Text.isLayout c = false)
    (visibleTwo : Text.isLayout d = false) : Legible follow [one, two] where
  first := fun other among => by
    simp only [List.mem_cons, List.not_mem_nil, or_false] at among
    rcases among with rfl | rfl
    · exact ⟨c, word, atOne, memberOne, visibleOne⟩
    · exact ⟨d, word', atTwo, memberTwo, visibleTwo⟩
  separate := fun other among more _ => by
    simp only [List.mem_cons, List.not_mem_nil, or_false] at among
    rcases among with rfl | rfl
    · exact ⟨[], [two.toList], rfl, fun _ absent => absurd absent List.not_mem_nil⟩
    · refine ⟨[one.toList], [], rfl, fun earlier member => ?_⟩
      cases List.mem_singleton.mp member
      rw [atOne, atTwo]
      rintro ⟨behind, split⟩
      exact apart (List.cons.inj split).1

theorem legible_additive : Legible multiplicativeEnds ["+", "-"] :=
  legible_pair rfl rfl (by decide) (by decide) (by decide) rfl rfl

theorem legible_multiplicative : Legible operandEnds ["*", "/"] :=
  legible_pair rfl rfl (by decide) (by decide) (by decide) rfl rfl

theorem legible_equality : Legible relationalEnds ["==", "!="] :=
  legible_pair rfl rfl (by decide) (by decide) (by decide) rfl rfl

/-- **Relational operators**: the long ones come first, and a short one is read where no `=` follows
it.  Behind a short operator stands layout or an operand, and neither starts with an equals sign. -/
theorem legible_relational : Legible additiveEnds ["<=", ">=", "<", ">"] where
  first := fun operator among => by
    simp only [List.mem_cons, List.not_mem_nil, or_false] at among
    rcases among with rfl | rfl | rfl | rfl <;> exact ⟨_, _, rfl, by decide, rfl⟩
  separate := fun operator among more noEqual => by
    have short : ∀ {c : Char}, ¬ [c, '='] <+: c :: more := by
      rintro c ⟨behind, split⟩
      refine noEqual ?_
      rw [← (List.cons.inj split).2]
      rfl
    have other : ∀ {c d : Char} {word rest : List Char}, c ≠ d → ¬ c :: word <+: d :: rest := by
      rintro c d word rest different ⟨behind, split⟩
      exact different (List.cons.inj split).1
    simp only [List.mem_cons, List.not_mem_nil, or_false] at among
    rcases among with rfl | rfl | rfl | rfl
    · exact ⟨[], [['>', '='], ['<'], ['>']], rfl, fun _ absent => absurd absent List.not_mem_nil⟩
    · refine ⟨[['<', '=']], [['<'], ['>']], rfl, ?_⟩
      simp only [List.mem_singleton, forall_eq]
      exact other (by decide)
    · refine ⟨[['<', '='], ['>', '=']], [['>']], rfl, ?_⟩
      simp only [List.mem_cons, List.not_mem_nil, or_false, forall_eq_or_imp, forall_eq]
      exact ⟨short, other (by decide)⟩
    · refine ⟨[['<', '='], ['>', '='], ['<']], [], rfl, ?_⟩
      simp only [List.mem_cons, List.not_mem_nil, or_false, forall_eq_or_imp, forall_eq]
      exact ⟨other (by decide), short, other (by decide)⟩

variable {operators : List String} {operator : String} {tree : ParseTree}

/-- **An operator behind layout is read** where no `=` follows it. -/
theorem Legible.exists_token? (legible : Legible follow operators) (member : operator ∈ operators)
    (chars : s.chars = gap ++ (operator.toList ++ more)) (layout : ∀ c ∈ gap, Text.isLayout c)
    (noEqual : more.head? ≠ some '=') :
    ∃ reading, s.token? (operators.map String.toList) = some reading ∧ reading.value = operator ∧
      reading.rest.chars = more := by
  obtain ⟨c, word, same, -, visible⟩ := legible.first operator member
  obtain ⟨before, after, split, earlier⟩ := legible.separate operator member more noEqual
  have nonempty : operator.toList ≠ [] := by rw [same]; exact List.cons_ne_nil c word
  have shown : ∀ c ∈ operator.toList.head?, Text.isLayout c = false := fun d head => by
    rw [same] at head
    cases head
    exact visible
  obtain ⟨reading, read, value, rest⟩ := Input.exists_token? chars layout nonempty shown earlier
  rw [← split] at read
  exact ⟨reading, read, by rw [value, String.ofList_toList], rest⟩

/-- In front of an operator an operand ends. -/
theorem Legible.ends (legible : Legible follow operators) (member : operator ∈ operators)
    (layout : ∀ c ∈ gap, Text.isLayout c) : Ends follow (gap ++ (operator.toList ++ more)) := by
  obtain ⟨c, word, same, among, visible⟩ := legible.first operator member
  rw [same]
  exact ends_of_visible layout visible among

/-- **A single token behind layout is read.** -/
theorem exists_token?_single {token : String} {c : Char} {word : List Char}
    (same : token.toList = c :: word) (visible : Text.isLayout c = false)
    (chars : s.chars = gap ++ (token.toList ++ more)) (layout : ∀ c ∈ gap, Text.isLayout c) :
    ∃ reading, s.token? [token.toList] = some reading ∧ reading.value = token ∧
      reading.rest.chars = more := by
  have nonempty : token.toList ≠ [] := by rw [same]; exact List.cons_ne_nil c word
  have shown : ∀ c ∈ token.toList.head?, Text.isLayout c = false := fun d head => by
    rw [same] at head
    cases head
    exact visible
  have none : ∀ other ∈ ([] : List (List Char)), ¬ other <+: token.toList ++ more := nofun
  obtain ⟨reading, read, value, rest⟩ := Input.exists_token? chars layout nonempty shown none
  exact ⟨reading, read, by rw [value, String.ofList_toList], rest⟩

/-- No tree starts with an equals sign. -/
theorem head?_ne_equal {p : Production} (derives : Derives p tree) {body : List Char}
    (spelled : Spelled tree.tokens body) (rest : List Char) : (body ++ rest).head? ≠ some '=' := by
  obtain ⟨gap, c, more, rfl, layout, isOpening⟩ :=
    exists_of_startsWith (startsWith_of_derives derives).1 spelled
  cases gap with
  | nil =>
    intro same
    cases same
    cases isOpening
  | cons d gap =>
    intro same
    cases same
    cases layout '=' List.mem_cons_self

end Grammar
end DecimalExpression
