import DecimalExpression.Proofs.Syntax.Depth
import DecimalExpression.Proofs.Syntax.Soundness

/-!
# The scan bounds the nesting of the tree

The scan in front of the grammar counts parentheses and question marks on the bare characters.  The
grammar opens its levels elsewhere: at a group, at a call, and at each branch of a conditional
(`Production.opensLevel`).  The count dominates: where the scan of a source stays within the limit,
no path down the tree that is read has more open levels than that (`ParseTree.nesting_ofSource_le`).

A derived tree leaves the scan as it found it, but for open conditionals, and the scan rises by a
number of levels that depends on the tree alone (`Rises`), which is at least what the tree nests
(`Levelled`).  Tokens compose: so do scans over them, and the parentheses of a group or of a call
give back the conditionals opened between them.
-/

namespace DecimalExpression

/-! ## 1. Scans

The scan over a whole text, and the question whether it stays within the limit, for texts that are
put together of two. -/

namespace Nesting

variable {n : Nesting} {word first second : List Char}

/-- The state behind some characters. -/
def scan (n : Nesting) (chars : List Char) : Nesting := chars.foldl step n

/-- **No character leads beyond the limit.** -/
def Within (n : Nesting) : List Char → Prop
  | [] => True
  | c :: rest => (n.step c).depth ≤ limit ∧ (n.step c).Within rest

theorem scan_append : n.scan (first ++ second) = (n.scan first).scan second :=
  List.foldl_append

theorem within_append :
    n.Within (first ++ second) ↔ n.Within first ∧ (n.scan first).Within second := by
  induction first generalizing n with
  | nil => exact (and_iff_right trivial).symm
  | cons c first ih => exact (and_congr_right fun _ => ih).trans and_assoc.symm

/-- **The scan finds no excess** exactly if no character leads beyond the limit. -/
theorem excessFrom_eq_none_iff (position : Nat) (chars : List Char) :
    excessFrom position n chars = none ↔ n.Within chars := by
  induction chars generalizing position n with
  | nil => exact iff_of_true rfl trivial
  | cons c rest ih =>
    rw [excessFrom, Within]
    split
    · rename_i beyond
      exact iff_of_false nofun fun within => Nat.not_lt.mpr within.1 beyond
    · rename_i inside
      rw [ih, and_iff_right (Nat.not_lt.mp inside)]

/-- **The scan finds an excess** at the first character that leads beyond the limit.  By induction
on the characters; the position is the size of those in front. -/
theorem excessFrom_eq_some_iff {start position : Nat} {chars : List Char} :
    excessFrom start n chars = some position ↔ ∃ front c back, chars = front ++ c :: back ∧
      position = start + Text.utf8Size front ∧ n.Within front ∧
      limit < (n.scan (front ++ [c])).depth := by
  induction chars generalizing start n with
  | nil =>
    refine iff_of_false (by rintro ⟨⟩) ?_
    rintro ⟨front, c, back, split, -⟩
    cases front <;> cases split
  | cons c chars ih =>
    rw [excessFrom]
    split
    · rename_i beyond
      constructor
      · rintro ⟨⟩
        exact ⟨[], c, chars, rfl, rfl, trivial, beyond⟩
      · rintro ⟨front, d, back, split, rfl, within, -⟩
        cases front with
        | nil => rfl
        | cons first front =>
          cases split
          exact absurd within.1 (Nat.not_le.mpr beyond)
    · rename_i inside
      rw [ih]
      constructor
      · rintro ⟨front, d, back, rfl, rfl, within, beyond⟩
        exact ⟨c :: front, d, back, rfl, by rw [Text.utf8Size_cons, Nat.add_assoc],
          ⟨Nat.not_lt.mp inside, within⟩, beyond⟩
      · rintro ⟨front, d, back, split, rfl, within, beyond⟩
        cases front with
        | nil =>
          cases split
          exact absurd beyond inside
        | cons first front =>
          cases split
          exact ⟨front, d, back, rfl, by rw [Text.utf8Size_cons, Nat.add_assoc], within.2, beyond⟩

/-- Behind the last character the scan is within the limit too. -/
theorem Within.depth_scan (within : n.Within word) (depth : n.depth ≤ limit) :
    (n.scan word).depth ≤ limit := by
  induction word generalizing n with
  | nil => exact depth
  | cons c word ih => exact ih within.2 within.1

/-! ## 2. Words that the scan passes over

The scan knows nothing of words.  Names, numerals, operators and layout have no mark in them, and in
a text in quotes no mark counts. -/

/-- **A word passed over**: outside quotes it does not change the scan. -/
structure Passed (word : List Char) : Prop where
  scan_eq : ∀ n : Nesting, n.quoted = false → n.scan word = n
  within : ∀ n : Nesting, n.quoted = false → n.depth ≤ limit → n.Within word

/-- Characters that neither open nor close anything. -/
def isInert (c : Char) : Bool := !(['"', '(', ')', ',', '?'].contains c)

theorem step_of_isInert {c : Char} (inert : isInert c) : n.step c = n := by
  simp only [isInert, List.contains_cons, List.contains_nil, Bool.or_false, Bool.not_eq_true',
    Bool.or_eq_false_iff, beq_eq_false_iff_ne] at inert
  obtain ⟨quote, opening, closing, comma, question⟩ := inert
  rw [step, if_neg quote, if_neg opening, if_neg closing, if_neg comma, if_neg question]
  split <;> rfl

theorem passed_of_isInert (inert : ∀ c ∈ word, isInert c) : Passed word := by
  induction word with
  | nil => exact ⟨fun _ _ => rfl, fun _ _ _ => trivial⟩
  | cons c word ih =>
    obtain ⟨here, later⟩ := List.forall_mem_cons.mp inert
    have same : ∀ n : Nesting, n.step c = n := fun n => step_of_isInert here
    obtain ⟨scan_eq, within⟩ := ih later
    refine ⟨fun n unquoted => ?_, fun n unquoted depth => ?_⟩
    · show (n.step c).scan word = n
      rw [same, scan_eq n unquoted]
    · show (n.step c).depth ≤ limit ∧ (n.step c).Within word
      rw [same]
      exact ⟨depth, within n unquoted depth⟩

/-- Inside quotes nothing counts but a quote. -/
theorem step_quoted {c : Char} (quoted : n.quoted = true) (notQuote : c ≠ '"') : n.step c = n := by
  rw [step, if_neg notQuote, if_pos quoted]

theorem scan_quoted (quoted : n.quoted = true) (absent : '"' ∉ word) : n.scan word = n := by
  induction word with
  | nil => rfl
  | cons c word ih =>
    rw [List.mem_cons, not_or] at absent
    show (n.step c).scan word = n
    rw [step_quoted quoted (Ne.symm absent.1), ih absent.2]

theorem within_quoted (quoted : n.quoted = true) (depth : n.depth ≤ limit) (absent : '"' ∉ word) :
    n.Within word := by
  induction word with
  | nil => trivial
  | cons c word ih =>
    rw [List.mem_cons, not_or] at absent
    show (n.step c).depth ≤ limit ∧ (n.step c).Within word
    rw [step_quoted quoted (Ne.symm absent.1)]
    exact ⟨depth, ih absent.2⟩

/-- **A text in quotes is passed over**, whatever stands in it.  Between the quotes nothing counts,
and the closing one restores what the opening one had changed. -/
theorem passed_of_isQuoted (isQuoted : Word.isQuoted word) : Passed word := by
  obtain ⟨content, rfl, absent⟩ := Lexeme.isQuoted_iff.mp isQuoted
  have opened : ∀ n : Nesting, n.quoted = false → n.step '"' = { n with quoted := true } := by
    intro n unquoted
    rw [step, if_pos rfl, unquoted]
    rfl
  have closed : ∀ n : Nesting, n.quoted = false →
      ({ n with quoted := true } : Nesting).step '"' = n := by
    intro n unquoted
    obtain ⟨inner, outer, conditionals, quoted⟩ := n
    cases unquoted
    rfl
  refine ⟨fun n unquoted => ?_, fun n unquoted depth => ?_⟩
  · show (n.step '"').scan (content ++ ['"']) = n
    rw [opened n unquoted, scan_append, scan_quoted rfl absent]
    exact closed n unquoted
  · show (n.step '"').depth ≤ limit ∧ (n.step '"').Within (content ++ ['"'])
    rw [opened n unquoted, within_append, scan_quoted rfl absent]
    refine ⟨depth, within_quoted rfl depth absent, ?_, trivial⟩
    rw [closed n unquoted]
    exact depth

/-- Only a quote opens and closes quotes. -/
theorem quoted_step (c : Char) :
    (n.step c).quoted = (n.quoted ^^ decide (c = '"')) := by
  unfold step
  split
  · rename_i quote
    simp [quote]
  · rename_i notQuote
    have same : n.quoted = (n.quoted ^^ decide (c = '"')) := by simp [notQuote]
    (repeat' split) <;> exact same

/-- **The scan is in quotes** behind an odd number of them. -/
theorem quoted_scan (chars : List Char) :
    (n.scan chars).quoted = (n.quoted ^^ decide (chars.count '"' % 2 = 1)) := by
  induction chars generalizing n with
  | nil => simp [scan]
  | cons c chars ih =>
    show ((n.step c).scan chars).quoted = _
    rw [ih, quoted_step, List.count_cons]
    by_cases quote : c = '"'
    · have odd : decide ((chars.count '"' + 1) % 2 = 1) = !decide (chars.count '"' % 2 = 1) := by
        rw [← decide_not]
        exact decide_eq_decide.mpr (by omega)
      simp [quote, odd]
    · simp [quote]

/-- **A text in quotes does not count**: with it a source nests too deep only where it does without
it. -/
theorem excess?_eq_none_iff_of_isQuoted {before behind : List Char}
    (outside : before.count '"' % 2 = 0) (isQuoted : Word.isQuoted word) :
    excess? (before ++ (word ++ behind)) = none ↔ excess? (before ++ behind) = none := by
  have unquoted : (start.scan before).quoted = false := by
    rw [quoted_scan, outside]
    rfl
  have passed := passed_of_isQuoted isQuoted
  rw [excess?, excess?, excessFrom_eq_none_iff, excessFrom_eq_none_iff, within_append,
    within_append,
    within_append, passed.scan_eq _ unquoted]
  refine and_congr_right fun within => and_iff_right ?_
  exact passed.within _ unquoted (within.depth_scan (Nat.zero_le _))

/-- Names and numerals have no such character in them. -/
theorem isInert_of_forall {p : Char → Bool} (each : ∀ c ∈ word, p c)
    (others : ∀ c ∈ ['"', '(', ')', ',', '?'], p c = false) : ∀ c ∈ word, isInert c := by
  intro c member
  rw [isInert, Bool.not_eq_true', Bool.eq_false_iff]
  intro among
  have no := others c (by simpa using among)
  rw [each c member] at no
  cases no

theorem passed_of_isName (name : Word.isName word) : Passed word := by
  refine passed_of_isInert (isInert_of_forall (Lexeme.isNamePart_of_mem_name name) ?_)
  simp [Lexeme.isNamePart, Lexeme.isNameStart]

theorem passed_of_isNumeral (numeral : Word.isNumeral word) : Passed word := by
  have each : ∀ c ∈ word, c.isDigit || ['.', 'e', 'E', '+', '-'].contains c := by
    intro c member
    simpa using Lexeme.mem_numeral numeral c member
  exact passed_of_isInert (isInert_of_forall each (by simp))

theorem passed_of_layout (layout : ∀ c ∈ word, Text.isLayout c) : Passed word :=
  passed_of_isInert (isInert_of_forall layout (by simp [Text.isLayout]))

/-! ## 3. Levels that the scan has open

One lemma for each mark: what it makes of a level with some conditionals open on it. -/

/-- More conditionals open on the innermost level. -/
def ask (n : Nesting) (more : Nat) : Nesting :=
  { n with inner := n.inner + more, conditionals := n.conditionals + more }

/-- A level more, with nothing open on it. -/
def enter (n : Nesting) : Nesting := { n with inner := 0, outer := n.inner :: n.outer }

@[simp] theorem depth_ask (more : Nat) : (n.ask more).depth = n.depth + more :=
  (Nat.add_assoc _ _ _).symm

@[simp] theorem depth_enter : n.enter.depth = n.depth + 1 := by
  simp only [depth, enter, List.length_cons]
  omega

@[simp] theorem ask_ask (more further : Nat) :
    (n.ask more).ask further = n.ask (more + further) := by
  simp only [ask, Nat.add_assoc]

theorem step_question (unquoted : n.quoted = false) : n.step '?' = n.ask 1 := by
  simp [step, unquoted, ask]

theorem step_opening (unquoted : n.quoted = false) : n.step '(' = n.enter := by
  simp [step, unquoted, enter]

/-- **A comma closes the conditionals of an argument.** -/
theorem step_comma (unquoted : n.quoted = false) (more : Nat) :
    (n.enter.ask more).step ',' = n.enter := by
  simp [step, unquoted, ask, enter]

/-- **A closing parenthesis gives back** the level and its conditionals. -/
theorem step_closing (unquoted : n.quoted = false) (more : Nat) :
    (n.enter.ask more).step ')' = n := by
  obtain ⟨inner, outer, conditionals, quoted⟩ := n
  cases unquoted
  simp [step, ask, enter]

end Nesting

/-! ## 4. The nesting of a tree

Groups, calls and branches open a level each.  The nesting of a tree is the most levels on any path,
with the same equations as the height. -/

/-- **Productions that open a level**: the grammar starts over inside them. -/
def Production.opensLevel : Production → Bool
  | .group | .call | .consequent | .alternative => true
  | _ => false

/-- The branches of a conditional, which open their level in front of their first token. -/
def Production.isBranch : Production → Bool
  | .consequent | .alternative => true
  | _ => false

namespace ParseTree

/-- **The nesting of a tree**: the most levels open on a path down from the root. -/
def nesting : ParseTree → Nat
  | ⟨production, _, children⟩ =>
    children.foldl (fun most child => max most child.nesting) 0 + production.opensLevel.toNat

variable {tree child : ParseTree} {k : Nat}

/-- **A node adds its own level** to the nesting of its children. -/
theorem nesting_le_iff (tree : ParseTree) (k : Nat) :
    tree.nesting ≤ k + tree.production.opensLevel.toNat ↔
      ∀ child ∈ tree.children, child.nesting ≤ k := by
  obtain ⟨_, _, children⟩ := tree
  rw [nesting, Nat.add_le_add_iff_right, foldl_max_le_iff]
  exact and_iff_right (Nat.zero_le k)

theorem opensLevel_le_nesting (tree : ParseTree) :
    tree.production.opensLevel.toNat ≤ tree.nesting := by
  obtain ⟨_, _, _⟩ := tree
  rw [nesting]
  exact Nat.le_add_left _ _

theorem nesting_child_le (tree : ParseTree) (member : child ∈ tree.children) :
    child.nesting + tree.production.opensLevel.toNat ≤ tree.nesting := by
  obtain ⟨k, same⟩ := Nat.exists_eq_add_of_le' tree.opensLevel_le_nesting
  have below := (tree.nesting_le_iff k).mp (Nat.le_of_eq same) child member
  omega

theorem nesting_le_of_mem {p : Production} {slice : String} {children : List ParseTree}
    (member : child ∈ children) : child.nesting ≤ nesting ⟨p, slice, children⟩ :=
  (Nat.le_add_right _ _).trans (nesting_child_le ⟨p, slice, children⟩ member)

/-- Below a node that opens a level one level less is open. -/
theorem nesting_lt_of_mem {p : Production} (opens : p.opensLevel = true) {slice : String}
    {children : List ParseTree} (member : child ∈ children) :
    child.nesting < nesting ⟨p, slice, children⟩ := by
  have below := nesting_child_le ⟨p, slice, children⟩ member
  rwa [opens] at below

theorem nesting_leaf (slice : String) (p : Production) :
    (leaf p slice).nesting = p.opensLevel.toNat := by
  rw [leaf, nesting, List.foldl_nil, Nat.zero_add]

/-- The levels open on a path. -/
def levelsOn (path : List ParseTree) : Nat :=
  path.countP fun node => node.production.opensLevel

/-- **The nesting is the count of the path with the most levels.**  One direction is by induction on
the path, and the other by recursion on the height of the tree. -/
theorem nesting_le_iff_path (tree : ParseTree) (k : Nat) :
    tree.nesting ≤ k ↔ ∀ path, tree.Path path → levelsOn path ≤ k := by
  have counted : ∀ (node : ParseTree) (path : List ParseTree),
      levelsOn (node :: path) = levelsOn path + node.production.opensLevel.toNat := by
    intro node path
    rw [levelsOn, List.countP_cons]
    cases node.production.opensLevel <;> rfl
  constructor
  · intro within path down
    induction down generalizing k with
    | here tree =>
      have := tree.opensLevel_le_nesting
      rw [counted]
      exact Nat.le_trans (Nat.le_of_eq (Nat.zero_add _)) (Nat.le_trans this within)
    | @child tree child path member _ ih =>
      have := nesting_child_le tree member
      have := ih (k - tree.production.opensLevel.toNat) (by omega)
      rw [counted]
      omega
  · intro within
    have here := within [tree] (.here tree)
    rw [counted] at here
    obtain ⟨j, rfl⟩ := Nat.exists_eq_add_of_le' (Nat.le_trans (Nat.le_add_left _ _) here)
    rw [nesting_le_iff]
    intro child member
    refine (nesting_le_iff_path child j).mpr fun path down => ?_
    have := within _ (.child member down)
    rw [counted] at this
    omega
termination_by tree.height
decreasing_by exact height_child_lt member

end ParseTree

/-! ## 5. Characters that rise

Conditionals stay open up to the end of the level that they are in, so the scan does not return to
where it was behind a part of a tree.  `Rises` says how it changes: by how many open conditionals,
and how far above the start in between.  `Shuts` is the other half, for what ends a level. -/

namespace Nesting

variable {n : Nesting} {word gap first second inside rest : List Char} {more more' peak peak' : Nat}

/-- **Characters that rise so high**: outside quotes a scan over them opens some conditionals and
nothing else, and it is within the limit exactly where there is room for so many levels. -/
structure Rises (word : List Char) (more peak : Nat) : Prop where
  scan_eq : ∀ n : Nesting, n.quoted = false → n.scan word = n.ask more
  within_iff : ∀ n : Nesting, n.quoted = false → n.depth ≤ limit →
    (n.Within word ↔ n.depth + peak ≤ limit)

theorem Passed.rises (passed : Passed word) : Rises word 0 0 where
  scan_eq := passed.scan_eq
  within_iff := fun n unquoted depth => iff_of_true (passed.within n unquoted depth) depth

/-- **One rise behind another** starts at the conditionals that are open there. -/
theorem Rises.append (h : Rises first more peak) (h' : Rises second more' peak') :
    Rises (first ++ second) (more + more') (max peak (more + peak')) where
  scan_eq := fun n unquoted => by
    rw [scan_append, h.scan_eq n unquoted, h'.scan_eq (n.ask more) unquoted, ask_ask]
  within_iff := fun n unquoted depth => by
    have behind (room : n.depth + peak ≤ limit) :
        (n.ask more).Within second ↔ n.depth + more + peak' ≤ limit := by
      have here := ((h.within_iff n unquoted depth).mpr room).depth_scan depth
      rw [h.scan_eq n unquoted] at here
      rw [h'.within_iff (n.ask more) unquoted here, depth_ask]
    rw [within_append, h.scan_eq n unquoted, h.within_iff n unquoted depth, and_congr_right behind]
    omega

theorem Rises.behindLayout (h : Rises word more peak) (layout : ∀ c ∈ gap, Text.isLayout c) :
    Rises (gap ++ word) more peak := by
  have both := (passed_of_layout layout).rises.append h
  rwa [Nat.zero_add, Nat.zero_add, Nat.zero_max] at both

/-- **A question mark** opens a level in front of what stands behind it. -/
theorem rises_question : Rises ['?'] 1 1 where
  scan_eq := fun _ unquoted => step_question unquoted
  within_iff := fun n unquoted _ => by
    show (n.step '?').depth ≤ limit ∧ True ↔ n.depth + 1 ≤ limit
    rw [step_question unquoted, depth_ask, and_true]

/-- **Characters that shut a level**, whatever conditionals are open on it, and rise so high on it
before. -/
structure Shuts (word : List Char) (peak : Nat) : Prop where
  scan_eq : ∀ (n : Nesting) (asked : Nat), n.quoted = false → (n.enter.ask asked).scan word = n
  within_iff : ∀ (n : Nesting) (asked : Nat), n.quoted = false → (n.enter.ask asked).depth ≤ limit →
    ((n.enter.ask asked).Within word ↔ n.depth + 1 + peak ≤ limit)

theorem Shuts.behindLayout (h : Shuts word peak) (layout : ∀ c ∈ gap, Text.isLayout c) :
    Shuts (gap ++ word) peak where
  scan_eq := fun n asked unquoted => by
    rw [scan_append, (passed_of_layout layout).scan_eq (n.enter.ask asked) unquoted,
      h.scan_eq n asked unquoted]
  within_iff := fun n asked unquoted depth => by
    have passed := passed_of_layout layout
    rw [within_append, passed.scan_eq (n.enter.ask asked) unquoted,
      and_iff_right (passed.within (n.enter.ask asked) unquoted depth),
      h.within_iff n asked unquoted depth]

theorem shuts_parenthesis : Shuts [')'] 0 where
  scan_eq := fun _ asked unquoted => step_closing unquoted asked
  within_iff := fun n asked unquoted depth => by
    show ((n.enter.ask asked).step ')').depth ≤ limit ∧ True ↔ n.depth + 1 + 0 ≤ limit
    rw [step_closing unquoted, and_true]
    rw [depth_ask, depth_enter] at depth
    omega

/-- **A level that is filled and shut** leaves the scan as it was in front of it. -/
theorem Rises.scan_shut (h : Rises inside more peak) (h' : Shuts rest peak')
    (unquoted : n.quoted = false) : n.enter.scan (inside ++ rest) = n := by
  rw [scan_append, h.scan_eq n.enter unquoted, h'.scan_eq n more unquoted]

theorem Rises.within_shut (h : Rises inside more peak) (h' : Shuts rest peak')
    (unquoted : n.quoted = false) (depth : n.enter.depth ≤ limit) :
    n.enter.Within (inside ++ rest) ↔ n.depth + 1 + max peak peak' ≤ limit := by
  have behind (room : n.enter.depth + peak ≤ limit) :
      (n.enter.ask more).Within rest ↔ n.depth + 1 + peak' ≤ limit := by
    have here := ((h.within_iff n.enter unquoted depth).mpr room).depth_scan depth
    rw [h.scan_eq n.enter unquoted] at here
    exact h'.within_iff n more unquoted here
  rw [within_append, h.scan_eq n.enter unquoted, h.within_iff n.enter unquoted depth,
    and_congr_right behind, depth_enter]
  omega

/-- **An argument behind a comma** starts without conditionals. -/
theorem Rises.argument (h : Rises inside more peak) (h' : Shuts rest peak') :
    Shuts (',' :: (inside ++ rest)) (max peak peak') where
  scan_eq := fun n asked unquoted => by
    show ((n.enter.ask asked).step ',').scan (inside ++ rest) = n
    rw [step_comma unquoted, h.scan_shut h' unquoted]
  within_iff := fun n asked unquoted depth => by
    have here : n.enter.depth ≤ limit := by
      rw [depth_ask] at depth
      omega
    show ((n.enter.ask asked).step ',').depth ≤ limit
      ∧ ((n.enter.ask asked).step ',').Within (inside ++ rest) ↔ _
    rw [step_comma unquoted, h.within_shut h' unquoted here, and_iff_right here]

/-- **Parentheses** open a level, and leave the scan as they found it. -/
theorem Rises.parentheses (h : Rises inside more peak) (h' : Shuts rest peak') :
    Rises ('(' :: (inside ++ rest)) 0 (max peak peak' + 1) where
  scan_eq := fun n unquoted => by
    show (n.step '(').scan (inside ++ rest) = n
    rw [step_opening unquoted, h.scan_shut h' unquoted]
  within_iff := fun n unquoted _ => by
    show (n.step '(').depth ≤ limit ∧ (n.step '(').Within (inside ++ rest) ↔ _
    rw [step_opening unquoted, and_congr_right (h.within_shut h' unquoted), depth_enter]
    omega

/-- **Within a scan** that is within the limit, what rises is within the limit by itself. -/
theorem Rises.excess?_eq_none (h : Rises word more peak) (unquoted : n.quoted = false)
    (depth : n.depth ≤ limit) (within : n.Within word) : excess? word = none := by
  have room := (h.within_iff n unquoted depth).mp within
  have start : start.depth = 0 := rfl
  rw [excess?, excessFrom_eq_none_iff, h.within_iff _ rfl (Nat.zero_le _)]
  omega

end Nesting

/-! ## 6. Tokens that nest

The same on tokens, however they are spelled out, so that layout is settled here. -/

namespace Nesting

open ParseTree

variable {tokens first second inside rest : List String} {deep deep' : Nat}

/-- **Tokens that nest so deep**: however they are spelled out they rise, and so high at least. -/
def Levelled (tokens : List String) (deep : Nat) : Prop :=
  ∀ ⦃body : List Char⦄, Spelled tokens body → ∃ more peak, Rises body more peak ∧ deep ≤ peak

theorem Levelled.mono (h : Levelled tokens deep) (less : deep' ≤ deep) : Levelled tokens deep' := by
  intro body spelled
  obtain ⟨more, peak, rises, high⟩ := h spelled
  exact ⟨more, peak, rises, less.trans high⟩

theorem levelled_nil : Levelled [] 0 := by
  intro body spelled
  rw [spelled.eq_nil]
  exact ⟨0, 0, (passed_of_isInert (List.forall_mem_nil _)).rises, Nat.le_refl _⟩

/-- **Tokens in sequence** nest as deep as either. -/
theorem Levelled.append (atFirst : Levelled first deep) (atSecond : Levelled second deep') :
    Levelled (first ++ second) (max deep deep') := by
  intro body spelled
  obtain ⟨x, y, rfl, spelledFirst, spelledSecond⟩ := spelled.exists_of_append
  obtain ⟨more, peak, rises, high⟩ := atFirst spelledFirst
  obtain ⟨more', peak', rises', high'⟩ := atSecond spelledSecond
  exact ⟨_, _, rises.append rises', by omega⟩

/-- A word that the scan passes over does not nest. -/
theorem levelled_passed {token : String} (passed : Passed token.toList) : Levelled [token] 0 := by
  intro body spelled
  obtain ⟨gap, behind, rfl, layout, spelled⟩ := spelled.exists_of_cons
  rw [spelled.eq_nil, List.append_nil]
  exact ⟨0, 0, passed.rises.behindLayout layout, Nat.le_refl _⟩

theorem levelled_inert {token : String} (inert : token.toList.all isInert = true) :
    Levelled [token] 0 :=
  levelled_passed (passed_of_isInert (List.all_eq_true.mp inert))

theorem levelled_operator {operator : String} (member : operator ∈ levelOperators) :
    Levelled [operator] 0 := by
  have inert : ∀ operator ∈ levelOperators, operator.toList.all isInert = true := by decide
  exact levelled_inert (inert operator member)

/-- **A question mark** nests what stands behind it. -/
theorem Levelled.question (h : Levelled rest deep) : Levelled ("?" :: rest) (deep + 1) := by
  intro body spelled
  obtain ⟨gap, behind, rfl, layout, spelled⟩ := spelled.exists_of_cons
  obtain ⟨more, peak, rises, high⟩ := h spelled
  exact ⟨_, _, (rises_question.append rises).behindLayout layout, by omega⟩

/-- **Tokens that close a level**, however they are spelled out. -/
def Closes (tokens : List String) (deep : Nat) : Prop :=
  ∀ ⦃body : List Char⦄, Spelled tokens body → ∃ peak, Shuts body peak ∧ deep ≤ peak

theorem closes_parenthesis : Closes [")"] 0 := by
  intro body spelled
  obtain ⟨gap, behind, rfl, layout, spelled⟩ := spelled.exists_of_cons
  rw [spelled.eq_nil, List.append_nil]
  exact ⟨0, shuts_parenthesis.behindLayout layout, Nat.le_refl _⟩

/-- **An argument behind a comma**, and what closes the call. -/
theorem Closes.argument (h : Levelled inside deep) (closes : Closes rest deep') :
    Closes ("," :: (inside ++ rest)) (max deep deep') := by
  intro body spelled
  obtain ⟨gap, behind, rfl, layout, spelled⟩ := spelled.exists_of_cons
  obtain ⟨x, y, rfl, spelledInside, spelledRest⟩ := spelled.exists_of_append
  obtain ⟨more, peak, rises, high⟩ := h spelledInside
  obtain ⟨peak', shuts, high'⟩ := closes spelledRest
  exact ⟨_, (rises.argument shuts).behindLayout layout, by omega⟩

/-- **Parentheses** nest what stands between them. -/
theorem Levelled.parentheses (h : Levelled inside deep) (closes : Closes rest deep') :
    Levelled ("(" :: (inside ++ rest)) (max deep deep' + 1) := by
  intro body spelled
  obtain ⟨gap, behind, rfl, layout, spelled⟩ := spelled.exists_of_cons
  obtain ⟨x, y, rfl, spelledInside, spelledRest⟩ := spelled.exists_of_append
  obtain ⟨more, peak, rises, high⟩ := h spelledInside
  obtain ⟨peak', shuts, high'⟩ := closes spelledRest
  exact ⟨_, _, (rises.parentheses shuts).behindLayout layout, by omega⟩

end Nesting

/-! ## 7. Derived trees

By induction on the derivation, the tokens of a tree rise at least as high as the tree nests.  A
branch of a conditional opens its level in front of its first token, and the scan has counted the
question mark by then. -/

namespace ParseTree

open Nesting

variable {p : Production} {tree : ParseTree} {slice : String} {children : List ParseTree}

/-- A node that opens no level nests as its children do. -/
theorem nesting_node_le {k : Nat} (closed : p.opensLevel = false)
    (below : ∀ child ∈ children, child.nesting ≤ k) : nesting ⟨p, slice, children⟩ ≤ k := by
  have within := (nesting_le_iff ⟨p, slice, children⟩ k).mpr below
  rwa [closed] at within

theorem nesting_layer (p : Production) (slice : String) (body : ParseTree) :
    nesting ⟨p, slice, [body]⟩ = body.nesting + p.opensLevel.toNat := by
  rw [nesting, List.foldl_cons, List.foldl_nil, Nat.zero_max]

/-- A word that the scan passes over opens no level. -/
theorem levelled_leaf (passed : Passed slice.toList) (closed : p.opensLevel = false) :
    Levelled (leaf p slice).tokens (leaf p slice).nesting := by
  rw [tokens_leaf, nesting_leaf, closed]
  exact levelled_passed passed

/-- Two operands nest as deep as either. -/
theorem levelled_operation {left right : ParseTree} {operator : String}
    (closed : p.opensLevel = false)
    (member : operator ∈ levelOperators) (atLeft : Levelled left.tokens left.nesting)
    (atRight : Levelled right.tokens right.nesting) :
    Levelled (left.tokens ++ operator :: right.tokens)
      (nesting ⟨p, slice, [left, leaf .token operator, right]⟩) := by
  refine (atLeft.append ((levelled_operator member).append atRight)).mono ?_
  refine nesting_node_le closed ?_
  simp only [List.forall_mem_cons, nesting_leaf, Production.opensLevel, Bool.toNat_false]
  exact ⟨by omega, by omega, by omega, List.forall_mem_nil _⟩

/-- The links of a flat chain nest as deep as its operands. -/
theorem exists_levelled_links {operators : List String} {links : List (String × ParseTree)}
    (operator : ∀ o ∈ operators, o ∈ levelOperators) (signs : ∀ link ∈ links, link.1 ∈ operators)
    (each : ∀ link ∈ links, Levelled link.2.tokens link.2.nesting) :
    ∃ deep, Levelled (linkTokens links) deep ∧ ∀ child ∈ linkTrees links, child.nesting ≤ deep := by
  induction links with
  | nil => exact ⟨0, levelled_nil, nofun⟩
  | cons link links ih =>
    obtain ⟨sign, moreSigns⟩ := List.forall_mem_cons.mp signs
    obtain ⟨here, later⟩ := List.forall_mem_cons.mp each
    obtain ⟨deep, levelled, below⟩ := ih moreSigns later
    refine ⟨_, (levelled_operator (operator _ sign)).append (here.append levelled), ?_⟩
    rw [linkTrees, List.forall_mem_cons, List.forall_mem_cons, nesting_leaf]
    exact ⟨Nat.zero_le _, by omega, fun child member => (below child member).trans (by omega)⟩

/-- The arguments behind a first one nest as deep as each of them, and close the call. -/
theorem exists_closes {arguments : List ParseTree}
    (each : ∀ a ∈ arguments, Levelled a.tokens a.nesting) :
    ∃ deep, Closes (moreTokens arguments) deep ∧ ∀ a ∈ arguments, a.nesting ≤ deep := by
  induction arguments with
  | nil => exact ⟨0, closes_parenthesis, nofun⟩
  | cons argument arguments ih =>
    obtain ⟨here, later⟩ := List.forall_mem_cons.mp each
    obtain ⟨deep, closes, below⟩ := ih later
    refine ⟨_, closes.argument here, List.forall_mem_cons.mpr ⟨by omega, fun a member => ?_⟩⟩
    exact (below a member).trans (by omega)

/-- **A call** opens a level around its arguments. -/
theorem exists_levelled_call {arguments : List ParseTree}
    (each : ∀ a ∈ arguments, Levelled a.tokens a.nesting) :
    ∃ deep, Levelled ("(" :: callTokens arguments) (deep + 1) ∧
      ∀ a ∈ arguments, a.nesting ≤ deep := by
  cases arguments with
  | nil => exact ⟨_, levelled_nil.parentheses closes_parenthesis, nofun⟩
  | cons first arguments =>
    obtain ⟨here, later⟩ := List.forall_mem_cons.mp each
    obtain ⟨deep, closes, below⟩ := exists_closes later
    refine ⟨_, here.parentheses closes, List.forall_mem_cons.mpr ⟨by omega, fun a member => ?_⟩⟩
    exact (below a member).trans (by omega)

/-- **A derived tree nests no deeper than the scan over its tokens.**  A branch opens its level at
the token in front of it. -/
theorem Derives.levelled (h : Derives p tree) :
    Levelled tree.tokens (tree.nesting - p.isBranch.toNat) := by
  induction h with
  | layer level slice below ih =>
    rw [tokens_layer level, nesting_layer]
    cases level <;> exact ih
  | @flat outer operand operators level slice first links signs atFirst atLinks ihFirst ihLinks =>
    have operandLevels : operand.isBranch = false := by cases level <;> rfl
    simp only [operandLevels] at ihFirst ihLinks
    obtain ⟨deep, levelled, below⟩ := exists_levelled_links level.mem_levelOperators signs ihLinks
    rw [tokens_flat level]
    refine (ihFirst.append levelled).mono ((Nat.sub_le _ _).trans ?_)
    refine nesting_node_le (by cases level <;> rfl) (List.forall_mem_cons.mpr ⟨?_, ?_⟩)
    · exact Nat.le_max_left _ _
    · exact fun child member => (below child member).trans (Nat.le_max_right _ _)
  | left level slice sign atLeft atRight ihLeft ihRight =>
    rw [tokens_left level]
    have member := level.mem_levelOperators _ sign
    cases level <;> exact levelled_operation rfl member ihLeft ihRight
  | right level slice atLeft atRight ihLeft ihRight =>
    rw [tokens_right level]
    have member := level.mem_levelOperators
    cases level <;> exact levelled_operation rfl member ihLeft ihRight
  | choice slice atCondition atConsequent atAlternative ihCondition ihConsequent ihAlternative =>
    have colon : Levelled [":"] 0 := levelled_inert (by decide)
    rw [tokens_choice]
    have levelled := ihCondition.append
      (ihConsequent.append (colon.append ihAlternative)).question
    refine levelled.mono ((Nat.sub_le _ _).trans (nesting_node_le rfl ?_))
    simp only [List.forall_mem_cons, nesting_leaf]
    simp [Production.isBranch, Production.opensLevel]
    omega
  | @signed slice sign operand plain below ih =>
    have signs : ∀ sign ∈ ["+", "-"], sign ∈ levelOperators := by decide
    rw [tokens_signed]
    refine ((levelled_operator (signs _ plain)).append ih).mono ((Nat.sub_le _ _).trans ?_)
    refine nesting_node_le rfl ?_
    simp [nesting_leaf, Production.isBranch, Production.opensLevel]
  | @group slice body below ih =>
    rw [tokens_group]
    refine (ih.parentheses closes_parenthesis).mono ?_
    refine (nesting_le_iff _ (max body.nesting 0)).mpr ?_
    simp [nesting_leaf, Production.opensLevel]
  | @call slice name word arguments below ih =>
    obtain ⟨deep, levelled, each⟩ := exists_levelled_call ih
    have atName : Levelled [name] 0 := levelled_passed (passed_of_isName word)
    rw [tokens_call]
    refine (atName.append levelled).mono ?_
    refine ((nesting_le_iff _ deep).mpr ?_).trans (Nat.le_max_right _ _)
    simp only [List.forall_mem_cons, List.forall_mem_append, nesting_leaf]
    simpa [Production.opensLevel] using each
  | number word => exact levelled_leaf (passed_of_isNumeral word) rfl
  | text word => exact levelled_leaf (passed_of_isQuoted word) rfl
  | reference word => exact levelled_leaf (passed_of_isName word) rfl

/-- **A derived tree rises**, however it is laid out. -/
theorem Derives.exists_rises {chars : List Char} (h : Derives p tree)
    (laid : LaidOut tree.tokens chars) :
    ∃ more peak, Rises chars more peak := by
  obtain ⟨body, gap, rfl, spelled, layout⟩ := laid
  obtain ⟨more, peak, rises, -⟩ := h.levelled spelled
  exact ⟨_, _, rises.append (passed_of_layout layout).rises⟩

/-- **The tree of a source nests within the limit.** -/
theorem nesting_ofSource_le {source : String} (read : ofSource source = .ok tree) :
    tree.nesting ≤ Nesting.limit := by
  obtain ⟨derives, -, -⟩ := ofSource_sound read
  obtain ⟨body, gap, split, spelled, -⟩ := ofSource_laidOut read
  have within := (excessFrom_eq_none_iff 0 source.toList).mp (ofSource_limits read).1
  rw [split, within_append] at within
  obtain ⟨more, peak, rises, high⟩ := derives.levelled spelled
  have room := (rises.within_iff _ rfl (Nat.zero_le _)).mp within.1
  have start : Nesting.start.depth = 0 := rfl
  have branch : Production.expression.isBranch.toNat = 0 := rfl
  omega

end ParseTree
end DecimalExpression
