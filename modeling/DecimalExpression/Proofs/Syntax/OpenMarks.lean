import DecimalExpression.Proofs.Syntax.Stops
import Mathlib

/-!
# What the scan for nesting counts

The scan keeps a number for each level and a total beside them, and takes the one from the other on
input that nobody has checked: parentheses without partners, stray commas, quotes that do not end.
This module says what its depth is in terms of the source alone, as a number of marks
(`Nesting.openMarks`).  A parenthesis is open if nothing behind it closes more than it opens
(`IsOpenAt`).  A question mark is open if all parentheses around it are open still, and no comma
behind it stands in the same ones (`IsAskedAt`).

The two meet in `Stacked`: the levels of the scan, the places of the open parentheses, and the
places of the open question marks, of which each level has those behind its parenthesis.  One more
character keeps them together (`Follows.step`), so a whole source does (`depth_scan`).

That the subtractions are safe is said of counters of which nothing is known (`Counters`), where
each of them is checked: a scan over them always ends, with the same result (`excess?_openMarks`).
-/

namespace DecimalExpression
namespace Nesting

variable {chars : List Char} {c : Char}

/-! ## 1. Open marks

What is open behind a text is said of the text, without a state that goes along it.  A place is open
if whatever stands directly behind it, as far as one looks, closes no more than it opens. -/

/-- **The characters outside quotes**, without the quotes. -/
def bare (quoted : Bool) : List Char → List Char
  | [] => []
  | c :: rest =>
    if c = '"' then bare (!quoted) rest
    else if quoted then bare quoted rest
    else c :: bare quoted rest

/-- **An open parenthesis**: no stretch directly behind it closes more parentheses than it opens. -/
def IsOpenAt (chars : List Char) (p : Nat) : Prop :=
  chars[p]? = some '(' ∧ ∀ front ∈ (chars.drop (p + 1)).inits, front.count ')' ≤ front.count '('

instance (chars : List Char) : DecidablePred (IsOpenAt chars) :=
  fun _ => inferInstanceAs (Decidable (_ ∧ _))

/-- The places of the open parentheses. -/
def opened (chars : List Char) : Finset Nat := (Finset.range chars.length).filter (IsOpenAt chars)

/-- **A question mark that is open at its level**: the parentheses that are open in front of it are
open still, and no comma behind it has the same ones open in front of it. -/
def IsAskedAt (chars : List Char) (i : Nat) : Prop :=
  chars[i]? = some '?' ∧ opened (chars.take i) ⊆ opened chars ∧
    ∀ j < chars.length, i < j → chars[j]? = some ',' → opened (chars.take j) ≠ opened (chars.take i)

instance (chars : List Char) : DecidablePred (IsAskedAt chars) :=
  fun _ => inferInstanceAs (Decidable (_ ∧ _))

/-- The places of the question marks that are open. -/
def asked (chars : List Char) : Finset Nat := (Finset.range chars.length).filter (IsAskedAt chars)

/-- **The marks open behind a source**: parentheses and question marks outside quotes. -/
def openMarks (source : List Char) : Nat :=
  (opened (bare false source)).card + (asked (bare false source)).card

example : openMarks "(a?1,(b?\"((?\")?".toList = 2 := by decide

theorem IsOpenAt.lt {p : Nat} (isOpen : IsOpenAt chars p) : p < chars.length :=
  (List.getElem?_eq_some_iff.mp isOpen.1).1

theorem IsAskedAt.lt {i : Nat} (isAsked : IsAskedAt chars i) : i < chars.length :=
  (List.getElem?_eq_some_iff.mp isAsked.1).1

theorem mem_opened {p : Nat} : p ∈ opened chars ↔ IsOpenAt chars p := by
  rw [opened, Finset.mem_filter, Finset.mem_range, and_iff_right_iff_imp]
  exact IsOpenAt.lt

theorem mem_asked {i : Nat} : i ∈ asked chars ↔ IsAskedAt chars i := by
  rw [asked, Finset.mem_filter, Finset.mem_range, and_iff_right_iff_imp]
  exact IsAskedAt.lt

/-! ## 2. Open parentheses, one character further

Adding one character changes a count by one at most.  So one more character closes an open
parenthesis only if it is a closing one and no other parenthesis is open behind. -/

theorem isOpenAt_drop (chars : List Char) (m k : Nat) :
    IsOpenAt (chars.drop m) k ↔ IsOpenAt chars (m + k) := by
  rw [IsOpenAt, IsOpenAt, List.getElem?_drop, List.drop_drop, Nat.add_assoc]

/-- **Where more is opened than closed, something is open.**  By induction on the length.  The first
character is open, or some stretch behind it closes it, and then the surplus is left behind that
stretch. -/
theorem exists_isOpenAt (chars : List Char) (surplus : chars.count ')' < chars.count '(') :
    ∃ p, IsOpenAt chars p := by
  induction size : chars.length using Nat.strongRecOn generalizing chars with
  | ind size ih =>
    obtain _ | ⟨c, rest⟩ := chars
    · cases surplus
    -- what is open further behind is open
    have later : ∀ m, 0 < m → ((c :: rest).drop m).count ')' < ((c :: rest).drop m).count '(' →
        ∃ p, IsOpenAt (c :: rest) p := by
      intro m positive more
      obtain ⟨p, isOpen⟩ := ih _ (by rw [List.length_drop, size]; simp at size; omega) _ more rfl
      exact ⟨m + p, (isOpenAt_drop _ _ _).mp isOpen⟩
    by_cases opening : c = '('
    · subst opening
      by_cases closes : ∀ front ∈ rest.inits, front.count ')' ≤ front.count '('
      · exact ⟨0, rfl, closes⟩
      · -- behind the stretch that closes it the surplus is left
        push Not at closes
        obtain ⟨front, member, closed⟩ := closes
        obtain ⟨back, rfl⟩ := (List.mem_inits _ _).mp member
        refine later (front.length + 1) (Nat.succ_pos _) ?_
        rw [List.drop_succ_cons, List.drop_left]
        simp only [List.count_cons, List.count_append] at surplus
        simp at surplus
        omega
    · refine later 1 Nat.one_pos ?_
      rw [List.drop_succ_cons, List.drop_zero]
      have count := List.count_cons_of_ne (l := rest) opening
      have closing := List.count_le_count_cons (a := ')') (b := c) (l := rest)
      omega

/-- Behind an open parenthesis more is opened than closed exactly if another one is open there.  In
front of a further open parenthesis no more is closed than opened, and behind it neither. -/
theorem surplus_iff {p : Nat} (isOpen : IsOpenAt chars p) :
    (chars.drop (p + 1)).count ')' < (chars.drop (p + 1)).count '(' ↔ ∃ q, p < q ∧
    IsOpenAt chars q := by
  constructor
  · intro surplus
    obtain ⟨k, further⟩ := exists_isOpenAt _ surplus
    exact ⟨p + 1 + k, by omega, (isOpenAt_drop _ _ _).mp further⟩
  · rintro ⟨q, behind, further⟩
    obtain ⟨k, rfl⟩ := Nat.exists_eq_add_of_le behind
    rw [← isOpenAt_drop] at further
    set back := chars.drop (p + 1)
    obtain ⟨here, within⟩ := further
    obtain ⟨inside, mark⟩ := List.getElem?_eq_some_iff.mp here
    have split : back = back.take k ++ '(' :: back.drop (k + 1) := by
      rw [← mark, ← List.drop_eq_getElem_cons inside, List.take_append_drop]
    have before := isOpen.2 (back.take k) ((List.mem_inits _ _).mpr (List.take_prefix _ _))
    have after := within _ ((List.mem_inits _ _).mpr (List.prefix_refl _))
    rw [split]
    simp only [List.count_append, List.count_cons]
    simp
    omega

/-- **An open parenthesis stays open** unless a closing one follows and it is the last that is open.
The stretches behind it are the old ones and the whole, which closes one more if the new character
does. -/
theorem isOpenAt_concat {p : Nat} (inside : p < chars.length) : IsOpenAt (chars ++ [c]) p ↔
    IsOpenAt chars p ∧ (c = ')' → ∃ q, p < q ∧ IsOpenAt chars q) := by
  have still : IsOpenAt (chars ++ [c]) p ↔ IsOpenAt chars p ∧
      (chars.drop (p + 1) ++ [c]).count ')' ≤ (chars.drop (p + 1) ++ [c]).count '(' := by
    rw [IsOpenAt, IsOpenAt, List.getElem?_append_left inside,
      List.drop_append_of_le_length inside, and_assoc]
    refine and_congr_right fun _ => ?_
    simp only [List.mem_inits, List.prefix_concat_iff]
    constructor
    · exact fun within => ⟨fun front stretch => within front (.inr stretch), within _ (.inl rfl)⟩
    · rintro ⟨within, whole⟩ front (rfl | stretch)
      · exact whole
      · exact within front stretch
  rw [still]
  refine and_congr_right fun isOpen => ?_
  have whole := isOpen.2 _ ((List.mem_inits _ _).mpr (List.prefix_refl _))
  rw [← surplus_iff isOpen, List.count_append, List.count_append, List.count_singleton,
    List.count_singleton]
  by_cases closing : c = ')'
  · subst closing
    simp
  · simp [closing]
    omega

/-- The last character is open if it opens. -/
theorem isOpenAt_last : IsOpenAt (chars ++ [c]) chars.length ↔ c = '(' := by
  simp [IsOpenAt]

/-- **What is open one character further.** -/
theorem mem_opened_concat {p : Nat} : p ∈ opened (chars ++ [c]) ↔
    (p = chars.length ∧ c = '(') ∨ (p ∈ opened chars ∧ (c = ')' → ∃ q ∈ opened chars, p < q)) := by
  simp only [mem_opened]
  rcases Nat.lt_trichotomy p chars.length with inside | rfl | outside
  · rw [isOpenAt_concat inside, or_iff_right fun last => absurd last.1 (Nat.ne_of_lt inside)]
    simp only [and_comm]
  · rw [isOpenAt_last, or_iff_left fun isOpen => Nat.lt_irrefl _ isOpen.1.lt, and_iff_right rfl]
  · refine iff_of_false (fun isOpen => ?_) ?_
    · have := isOpen.lt
      rw [List.length_append, List.length_singleton] at this
      omega
    · rintro (⟨rfl, -⟩ | ⟨isOpen, -⟩)
      · exact Nat.lt_irrefl _ outside
      · exact Nat.lt_asymm outside isOpen.lt

/-- Only a closing parenthesis closes any. -/
theorem opened_subset_concat (others : c ≠ ')') : opened chars ⊆ opened (chars ++ [c]) :=
  fun _ member => mem_opened_concat.mpr (.inr ⟨member, fun closing => absurd closing others⟩)

/-- What is open in front of a place is what is open there and stays so, or is closed further on. -/
theorem mem_opened_take {p i : Nat} (member : p ∈ opened chars) (before : p < i) :
    p ∈ opened (chars.take i) := by
  rw [mem_opened] at member ⊢
  obtain ⟨here, within⟩ := member
  refine ⟨by rwa [List.getElem?_take_of_lt before], fun front stretch => within front ?_⟩
  rw [List.mem_inits] at stretch ⊢
  rw [List.drop_take] at stretch
  exact stretch.trans (List.take_prefix _ _)

/-! ## 3. Open question marks, one character further

An open question mark is tied to the parentheses that are open in front of it.  It goes when the
last of them is closed, or at a comma with the same ones open. -/

/-- **What an open question mark stands in** is what is open in front of it. -/
theorem opened_take_of_mem_asked {i : Nat} (member : i ∈ asked chars) :
    opened (chars.take i) = (opened chars).filter (· < i) := by
  have inside := (mem_asked.mp member).lt
  obtain ⟨-, still, -⟩ := mem_asked.mp member
  ext p
  rw [Finset.mem_filter]
  constructor
  · intro isOpen
    have before := (mem_opened.mp isOpen).lt
    rw [List.length_take] at before
    exact ⟨still isOpen, by omega⟩
  · rintro ⟨isOpen, before⟩
    exact mem_opened_take isOpen before

/-- **An open question mark stays open** unless what it stands in is closed or a comma follows
there.  What is open in front of it has to stay open, and a comma counts only where the same
parentheses are open. -/
theorem isAskedAt_concat {i : Nat} (inside : i < chars.length) : IsAskedAt (chars ++ [c]) i ↔
    IsAskedAt chars i ∧ opened (chars.take i) ⊆ opened (chars ++ [c]) ∧
      (c = ',' → opened (chars.take i) ≠ opened chars) := by
  have last : (chars ++ [c])[chars.length]? = some c := List.getElem?_concat_length
  rw [IsAskedAt, IsAskedAt, List.getElem?_append_left inside,
    List.take_append_of_le_length (Nat.le_of_lt inside)]
  constructor
  · rintro ⟨mark, still, commas⟩
    refine ⟨⟨mark, fun p isOpen => ?_, fun j early behind comma => ?_⟩, still, fun comma => ?_⟩
    · have before := (mem_opened.mp isOpen).lt
      rw [List.length_take] at before
      rcases mem_opened_concat.mp (still isOpen) with ⟨rfl, -⟩ | ⟨member, -⟩
      · omega
      · exact member
    · have same := commas j (by simp; omega) behind (by rwa [List.getElem?_append_left early])
      rwa [List.take_append_of_le_length (Nat.le_of_lt early)] at same
    · have same := commas chars.length (by simp) inside (by rw [last, comma])
      rw [List.take_left] at same
      exact same.symm
  · rintro ⟨⟨mark, -, commas⟩, still, atLast⟩
    refine ⟨mark, still, fun j early behind comma => ?_⟩
    rw [List.length_append, List.length_singleton] at early
    rcases Nat.lt_succ_iff_lt_or_eq.mp early with early | rfl
    · rw [List.getElem?_append_left early] at comma
      rw [List.take_append_of_le_length (Nat.le_of_lt early)]
      exact commas j early behind comma
    · rw [last] at comma
      rw [List.take_left]
      exact (atLast (Option.some.inj comma)).symm

/-- The last character is an open question mark if it is one. -/
theorem isAskedAt_last : IsAskedAt (chars ++ [c]) chars.length ↔ c = '?' := by
  rw [IsAskedAt, List.getElem?_concat_length, List.take_left, Option.some.injEq]
  refine and_iff_left_of_imp fun question => ⟨opened_subset_concat (by rw [question]; decide), ?_⟩
  intro j early behind
  rw [List.length_append, List.length_singleton] at early
  omega

/-- **Which question marks are open one character further.** -/
theorem mem_asked_concat {i : Nat} : i ∈ asked (chars ++ [c]) ↔
    (i = chars.length ∧ c = '?') ∨
    (i ∈ asked chars ∧ opened (chars.take i) ⊆ opened (chars ++ [c]) ∧
      (c = ',' → opened (chars.take i) ≠ opened chars)) := by
  rw [mem_asked, mem_asked]
  rcases Nat.lt_trichotomy i chars.length with inside | rfl | outside
  · rw [isAskedAt_concat inside, or_iff_right fun last => absurd last.1 (Nat.ne_of_lt inside)]
  · rw [isAskedAt_last, or_iff_left fun isAsked => Nat.lt_irrefl _ isAsked.1.lt, and_iff_right rfl]
  · refine iff_of_false (fun isAsked => ?_) ?_
    · have := isAsked.lt
      rw [List.length_append, List.length_singleton] at this
      omega
    · rintro (⟨rfl, -⟩ | ⟨isAsked, -⟩)
      · exact Nat.lt_irrefl _ outside
      · exact Nat.lt_asymm outside isAsked.lt

/-! ## 4. The levels of the scan

A scan has numbers where the definition has places.  `Stacked` ties the two: the numbers, level by
level, are how many of the marked places stand behind a parenthesis and not behind a later one. -/

/-- **What the levels of a scan count**: one level for each of the parentheses in `stack`, from the
innermost to the outermost, and one around them; on each level the question marks behind its
parenthesis and in front of the next. -/
inductive Stacked : List Nat → List Nat → Finset Nat → Prop
  | outermost (marks : Finset Nat) : Stacked [marks.card] [] marks
  | group {levels stack : List Nat} {around : Finset Nat} (p : Nat) (marks : Finset Nat)
      (below : Stacked levels stack around) (above : ∀ q ∈ stack, q < p)
      (behind : ∀ i ∈ around, i < p)
      (inside : ∀ i ∈ marks, p < i) : Stacked (marks.card :: levels) (p :: stack) (around ∪ marks)

namespace Stacked

variable {inner : Nat} {outer stack levels : List Nat} {marks : Finset Nat}

/-- **The levels count each mark once.** -/
theorem sum_eq (stacked : Stacked levels stack marks) : levels.sum = marks.card := by
  induction stacked with
  | outermost marks => simp
  | group p marks below above behind inside ih =>
    rw [List.sum_cons, ih, Finset.card_union_of_disjoint, Nat.add_comm]
    rw [Finset.disjoint_left]
    intro i before after
    exact Nat.lt_asymm (behind i before) (inside i after)

theorem length_eq (stacked : Stacked levels stack marks) : levels.length = stack.length + 1 := by
  induction stacked with
  | outermost marks => rfl
  | group p marks below above behind inside ih => rw [List.length_cons, List.length_cons, ih]

theorem nodup (stacked : Stacked levels stack marks) : stack.Nodup := by
  induction stacked with
  | outermost marks => exact List.nodup_nil
  | group p marks below above behind inside ih =>
    exact List.nodup_cons.mpr ⟨fun member => Nat.lt_irrefl p (above p member), ih⟩

/-- A question mark opens on the innermost level. -/
theorem ask {e : Nat} (stacked : Stacked (inner :: outer) stack marks) (last : ∀ p ∈ stack, p < e)
    (fresh : ∀ i ∈ marks, i < e) : Stacked ((inner + 1) :: outer) stack (insert e marks) := by
  have absent : ∀ some : Finset Nat, some ⊆ marks → e ∉ some := fun some part member =>
    Nat.lt_irrefl e (fresh e (part member))
  cases stacked with
  | outermost =>
    rw [← Finset.card_insert_of_notMem (absent _ (Finset.Subset.refl _))]
    exact .outermost _
  | @group levels stack around p inside below above behind within =>
    rw [← Finset.card_insert_of_notMem (absent inside Finset.subset_union_right),
      ← Finset.union_insert]
    refine .group p _ below above behind fun i member => ?_
    rcases Finset.mem_insert.mp member with rfl | old
    · exact last p List.mem_cons_self
    · exact within i old

/-- A comma closes the question marks of the innermost level. -/
theorem comma (stacked : Stacked (inner :: outer) stack marks) :
    Stacked (0 :: outer) stack (marks.filter fun i => ∃ p ∈ stack, i < p) := by
  cases stacked with
  | outermost => simpa using outermost ∅
  | @group levels stack around p inside below above behind within =>
    have kept : (around ∪ inside).filter (fun i => ∃ q ∈ p :: stack, i < q) = around ∪ ∅ := by
      ext i
      rw [Finset.mem_filter, Finset.mem_union, Finset.union_empty]
      constructor
      · rintro ⟨early | late, q, member, before⟩
        · exact early
        · have after := within i late
          rcases List.mem_cons.mp member with rfl | outer
          · omega
          · have := above q outer
            omega
      · exact fun early => ⟨.inl early, p, List.mem_cons_self, behind i early⟩
    rw [kept]
    exact .group p ∅ below above behind (by simp)

/-- A closing parenthesis closes the innermost level, and the question marks on it. -/
theorem close {around : Nat} (stacked : Stacked (inner :: around :: outer) stack marks) :
    ∃ p rest, stack = p :: rest ∧ (∀ q ∈ rest, q < p) ∧
    Stacked (around :: outer) rest (marks.filter (· < p)) := by
  cases stacked with
  | @group levels stack before p inside below above behind within =>
    refine ⟨p, stack, rfl, above, ?_⟩
    have kept : (before ∪ inside).filter (· < p) = before := by
      rw [Finset.filter_union, Finset.filter_true_of_mem behind,
        Finset.filter_false_of_mem fun i late => Nat.lt_asymm (within i late), Finset.union_empty]
    rwa [kept]

end Stacked

/-! ## 5. The scan counts the marks

One lemma for each kind of character says what happens to the places, and by section 4 the numbers
follow.  Closing parentheses without an open one are ignored on both sides. -/

variable {n : Nesting}

/-- **The scan agrees with the marks** of the characters behind it, which are outside quotes. -/
structure Follows (n : Nesting) (chars : List Char) : Prop where
  unquoted : n.quoted = false
  balanced : n.Balanced
  stacked : ∃ stack, (∀ p, p ∈ stack ↔ p ∈ opened chars) ∧
    Stacked (n.inner :: n.outer) stack (asked chars)

theorem follows_start : Follows start [] :=
  ⟨rfl, rfl, [], fun _ => iff_of_false (by simp) (by simp [opened]), .outermost ∅⟩

/-- **The depth is the number of marks.** -/
theorem Follows.depth_eq (follows : Follows n chars) :
    n.depth = (opened chars).card + (asked chars).card := by
  obtain ⟨-, balanced, stack, same, stacked⟩ := follows
  have levels : n.outer.length = (opened chars).card := by
    have length := stacked.length_eq
    rw [List.length_cons, Nat.add_right_cancel_iff] at length
    rw [length, ← List.toFinset_card_of_nodup stacked.nodup]
    congr 1
    ext p
    rw [List.mem_toFinset, same]
  have total : n.conditionals = (asked chars).card := by
    rw [balanced, ← stacked.sum_eq]
    rfl
  rw [depth, levels, total]

/-- A question mark is no parenthesis. -/
theorem ne_of_mem_asked {i p : Nat} (mark : i ∈ asked chars) (isOpen : p ∈ opened chars) :
    i ≠ p := by
  rintro rfl
  cases (mem_asked.mp mark).1.symm.trans (mem_opened.mp isOpen).1

/-- What is neither a comma nor a closing parenthesis leaves question marks open. -/
theorem asked_concat (closing : c ≠ ')') (comma : c ≠ ',') (question : c ≠ '?') :
    asked (chars ++ [c]) = asked chars := by
  ext i
  rw [mem_asked_concat, or_iff_right fun last => question last.2, and_iff_left_iff_imp]
  intro mark
  exact ⟨(mem_asked.mp mark).2.1.trans (opened_subset_concat closing),
    fun same => absurd same comma⟩

theorem opened_concat (opening : c ≠ '(') (closing : c ≠ ')') :
    opened (chars ++ [c]) = opened chars := by
  ext p
  rw [mem_opened_concat, or_iff_right fun last => opening last.2, and_iff_left_iff_imp]
  exact fun _ same => absurd same closing

theorem opened_concat_opening : opened (chars ++ ['(']) = insert chars.length (opened chars) := by
  ext p
  rw [mem_opened_concat, Finset.mem_insert]
  simp

theorem asked_concat_question : asked (chars ++ ['?']) = insert chars.length (asked chars) := by
  ext i
  rw [mem_asked_concat, Finset.mem_insert, and_iff_left rfl]
  refine or_congr_right (and_iff_left_of_imp fun mark => ⟨?_, by rintro ⟨⟩⟩)
  exact (mem_asked.mp mark).2.1.trans (opened_subset_concat (by decide))

/-- **A closing parenthesis closes** the last open one. -/
theorem opened_concat_closing :
    opened (chars ++ [')']) = (opened chars).filter fun p => ∃ q ∈ opened chars, p < q := by
  ext p
  rw [mem_opened_concat, Finset.mem_filter, or_iff_right (by rintro ⟨-, ⟨⟩⟩), imp_iff_right rfl]

/-- **A comma closes** what has all open parentheses in front of it. -/
theorem asked_concat_comma :
    asked (chars ++ [',']) = (asked chars).filter fun i => ∃ p ∈ opened chars, i < p := by
  ext i
  rw [mem_asked_concat, Finset.mem_filter, or_iff_right (by rintro ⟨-, ⟨⟩⟩)]
  refine and_congr_right fun mark => ?_
  rw [and_iff_right ((mem_asked.mp mark).2.1.trans (opened_subset_concat (by decide))),
    opened_take_of_mem_asked mark, imp_iff_right rfl, Ne, Finset.filter_eq_self]
  push Not
  refine exists_congr fun p => and_congr_right fun isOpen => ?_
  exact (ne_of_mem_asked mark isOpen).le_iff_lt

/-- **A closing parenthesis closes** what stands in the innermost level. -/
theorem asked_concat_closing : asked (chars ++ [')']) =
    (asked chars).filter fun i => ∀ p ∈ opened chars, p < i → ∃ q ∈ opened chars, p < q := by
  ext i
  rw [mem_asked_concat, Finset.mem_filter, or_iff_right (by rintro ⟨-, ⟨⟩⟩)]
  refine and_congr_right fun mark => ?_
  rw [and_iff_left (by rintro ⟨⟩), opened_take_of_mem_asked mark, opened_concat_closing]
  constructor
  · intro still p isOpen before
    exact (Finset.mem_filter.mp (still (Finset.mem_filter.mpr ⟨isOpen, before⟩))).2
  · intro inner p member
    obtain ⟨isOpen, before⟩ := Finset.mem_filter.mp member
    exact Finset.mem_filter.mpr ⟨isOpen, inner p isOpen before⟩

/-- A closing parenthesis without an open one is ignored. -/
theorem Follows.closing_outermost (follows : Follows n chars) (outermost : n.outer = []) :
    Follows (n.step ')') (chars ++ [')']) := by
  have unquoted := follows.unquoted
  have unchanged : n.step ')' = n := by simp [Nesting.step, unquoted, outermost]
  obtain ⟨stack, same, stacked⟩ := follows.stacked
  have bottom : stack = [] := by
    have length := stacked.length_eq
    rw [outermost] at length
    exact List.eq_nil_of_length_eq_zero (by simpa using length)
  have none : ∀ p, p ∉ opened chars := fun p isOpen => by
    have member := (same p).mpr isOpen
    rw [bottom] at member
    cases member
  have opened_eq : opened (chars ++ [')']) = opened chars := by
    rw [opened_concat_closing, Finset.filter_true_of_mem fun p isOpen => absurd isOpen (none p)]
  have asked_eq : asked (chars ++ [')']) = asked chars := by
    rw [asked_concat_closing, Finset.filter_true_of_mem fun i _ p isOpen => absurd isOpen (none p)]
  rw [unchanged]
  exact ⟨unquoted, follows.balanced, stack, by rwa [opened_eq], by rwa [asked_eq]⟩

/-- A closing parenthesis closes the innermost level.  The last open parenthesis goes, and with it
the question marks behind it, which are those on the innermost level. -/
theorem Follows.closing_group {around : Nat} {outer : List Nat} (follows : Follows n chars)
    (group : n.outer = around :: outer) : Follows (n.step ')') (chars ++ [')']) := by
  have unquoted := follows.unquoted
  have closed : n.step ')' = ⟨around, outer, n.conditionals - n.inner, false⟩ := by
    simp [Nesting.step, unquoted, group]
  have balanced := follows.balanced.step ')'
  obtain ⟨stack, same, stacked⟩ := follows.stacked
  rw [group] at stacked
  obtain ⟨p, rest, rfl, above, stacked⟩ := stacked.close
  have last : ∀ q, (∃ r ∈ opened chars, q < r) ↔ q < p := by
    intro q
    constructor
    · rintro ⟨r, isOpen, before⟩
      rcases List.mem_cons.mp ((same r).mpr isOpen) with rfl | outer
      · exact before
      · exact before.trans (above r outer)
    · exact fun before => ⟨p, (same p).mp List.mem_cons_self, before⟩
  have opened_eq : opened (chars ++ [')']) = (opened chars).filter (· < p) := by
    simp only [opened_concat_closing, last]
  have asked_eq : asked (chars ++ [')']) = (asked chars).filter (· < p) := by
    rw [asked_concat_closing]
    refine Finset.filter_congr fun i mark => ?_
    simp only [last]
    have apart := ne_of_mem_asked mark ((same p).mp List.mem_cons_self)
    constructor
    · intro inner
      by_contra behind
      exact Nat.lt_irrefl p (inner p ((same p).mp List.mem_cons_self) (by omega))
    · exact fun before q _ earlier => earlier.trans before
  rw [closed] at balanced ⊢
  refine ⟨rfl, balanced, rest, fun q => ?_, by rwa [asked_eq]⟩
  rw [opened_eq, Finset.mem_filter, ← same, List.mem_cons]
  constructor
  · exact fun member => ⟨.inr member, above q member⟩
  · rintro ⟨rfl | member, before⟩
    · exact absurd before (Nat.lt_irrefl q)
    · exact member

/-- **A step keeps the scan and the marks together.**  By the character: two kinds open something,
two close something, and all others change nothing. -/
theorem Follows.step (follows : Follows n chars) (outside : c ≠ '"') :
    Follows (n.step c) (chars ++ [c]) := by
  by_cases closing : c = ')'
  · subst closing
    cases group : n.outer with
    | nil => exact follows.closing_outermost group
    | cons around outer => exact follows.closing_group group
  obtain ⟨unquoted, balanced, stack, same, stacked⟩ := follows
  have still : (n.step c).quoted = false := by
    rw [quoted_step, unquoted]
    simpa using outside
  refine ⟨still, balanced.step c, ?_⟩
  have placed : ∀ p ∈ stack, p < chars.length :=
    fun p member => (mem_opened.mp ((same p).mp member)).lt
  have marked : ∀ i ∈ asked chars, i < chars.length := fun i mark => (mem_asked.mp mark).lt
  by_cases opening : c = '('
  · subst opening
    rw [step_opening unquoted, opened_concat_opening,
      asked_concat (by decide) (by decide) (by decide)]
    refine ⟨chars.length :: stack, fun p => by rw [List.mem_cons, Finset.mem_insert, same], ?_⟩
    have entered := Stacked.group chars.length ∅ stacked placed marked (by simp)
    rwa [Finset.card_empty, Finset.union_empty] at entered
  rw [opened_concat opening closing]
  by_cases comma : c = ','
  · subst comma
    rw [asked_concat_comma]
    refine ⟨stack, same, ?_⟩
    have closed := stacked.comma
    simp only [same] at closed
    simpa [Nesting.step, unquoted] using closed
  by_cases question : c = '?'
  · subst question
    rw [step_question unquoted, asked_concat_question]
    exact ⟨stack, same, stacked.ask placed marked⟩
  · rw [asked_concat closing comma question]
    have unchanged : n.step c = n := by
      rw [Nesting.step, if_neg outside, if_neg (by rw [unquoted]; decide), if_neg opening,
        if_neg closing, if_neg comma,
        if_neg question]
    rw [unchanged]
    exact ⟨stack, same, stacked⟩

/-- **The scan and the marks stay together** over a whole word outside quotes. -/
theorem Follows.scan {more : List Char} (follows : Follows n chars)
    (outside : ∀ c ∈ more, c ≠ '"') :
    Follows (n.scan more) (chars ++ more) := by
  induction more generalizing n chars with
  | nil => rwa [List.append_nil]
  | cons c more ih =>
    obtain ⟨here, later⟩ := List.forall_mem_cons.mp outside
    have next := ih (follows.step here) later
    rwa [List.append_assoc] at next

/-- The state of a scan, as it is outside quotes. -/
def outside (n : Nesting) : Nesting := { n with quoted := false }

theorem ne_quote_of_mem_bare {quoted : Bool} (member : c ∈ bare quoted chars) : c ≠ '"' := by
  induction chars generalizing quoted with
  | nil => cases member
  | cons d rest ih =>
    rw [bare] at member
    split at member
    · exact ih member
    · rename_i noQuote
      split at member
      · exact ih member
      · rcases List.mem_cons.mp member with rfl | later
        · exact noQuote
        · exact ih later

/-- **A scan reads the characters outside quotes** and no others. -/
theorem outside_scan (chars : List Char) :
    (n.scan chars).outside = n.outside.scan (bare n.quoted chars) := by
  induction chars generalizing n with
  | nil => rfl
  | cons c rest ih =>
    show ((n.step c).scan rest).outside = _
    rw [ih, bare]
    by_cases quote : c = '"'
    · subst quote
      simp [step, outside]
    by_cases quoted : n.quoted = true
    · rw [step_quoted quoted quote, if_neg quote, if_pos quoted]
    · have unquoted : n.quoted = false := by simpa using quoted
      have here : n.outside = n := by rw [outside, ← unquoted]
      have still : (n.step c).quoted = false := by simp [quoted_step, unquoted, quote]
      have there : (n.step c).outside = n.step c := by rw [outside, ← still]
      rw [if_neg quote, if_neg quoted, here, there, still, unquoted]
      rfl

/-- **The depth behind a source** is the number of its open marks. -/
theorem depth_scan (source : List Char) : (start.scan source).depth = openMarks source := by
  have follows : Follows (start.scan (bare false source)) ([] ++ bare false source) :=
    follows_start.scan fun _ => ne_quote_of_mem_bare
  rw [List.nil_append] at follows
  have same : (start.scan source).outside = start.scan (bare false source) := outside_scan source
  calc (start.scan source).depth
      = (start.scan source).outside.depth := rfl
    _ = openMarks source := by rw [same, follows.depth_eq, openMarks]

/-! ## 6. Checked counters

Numbers that are subtracted must not go below zero.  `Counters` has the same counters with each
subtraction checked, so that a step may fail; it never does, since the total is the sum of the
levels. -/

/-- **The counters of a scan, on their own**: the conditionals open on each level, from the
innermost level outwards, and the total that is kept beside them.  Nothing says that there is a
level, or that the total is the sum. -/
structure Counters where
  levels : List Nat
  conditionals : Nat
  quoted : Bool

namespace Counters

/-- One level, with nothing open on it. -/
def start : Counters := ⟨[0], 0, false⟩

/-- The counters of a state of the scan. -/
def ofScan (n : Nesting) : Counters := ⟨n.inner :: n.outer, n.conditionals, n.quoted⟩

/-- A difference, unless it is below zero. -/
def less? (total part : Nat) : Option Nat := if part ≤ total then some (total - part) else none

/-- **One character**, with every subtraction checked: there is no state behind it if it needs a
level and there is none, or if the total would fall below zero. -/
def step? (s : Counters) (c : Char) : Option Counters :=
  if c = '"' then some { s with quoted := !s.quoted }
  else if s.quoted then some s
  else if c = '(' then some { s with levels := 0 :: s.levels }
  else if c = ')' ∧ 1 < s.levels.length then do
    let inner ← s.levels.head?
    return { s with levels := s.levels.tail, conditionals := ← less? s.conditionals inner }
  else if c = ',' then do
    let inner ← s.levels.head?
    return { s with levels := 0 :: s.levels.tail, conditionals := ← less? s.conditionals inner }
  else if c = '?' then do
    let inner ← s.levels.head?
    return { s with levels := (inner + 1) :: s.levels.tail, conditionals := s.conditionals + 1 }
  else some s

/-- The state behind some characters. -/
def scan? (s : Counters) (chars : List Char) : Option Counters := chars.foldlM step? s

/-- **The depth**: the levels but the outermost, and the total. -/
def depth? (s : Counters) : Option Nat := do
  return (← less? s.levels.length 1) + s.conditionals

/-- **The first place at which a source nests too deep**, if no subtraction on the way to it
fails. -/
def excessFrom? (position : Nat) (s : Counters) : List Char → Option (Option Nat)
  | [] => some none
  | c :: rest => do
    let next ← s.step? c
    if limit < (← next.depth?) then return some position
    else excessFrom? (position + c.utf8Size) next rest

/-- What is on one level is part of the total. -/
theorem inner_le (balanced : n.Balanced) : n.inner ≤ n.conditionals := by
  rw [balanced]
  exact Nat.le_add_right _ _

/-- **No step fails** where the total is the sum over all levels.  A subtraction takes the
conditionals of one level from the total, so it never falls below zero. -/
theorem step?_ofScan (balanced : n.Balanced) (c : Char) :
    (ofScan n).step? c = some (ofScan (n.step c)) := by
  have fits : less? n.conditionals n.inner = some (n.conditionals - n.inner) :=
    if_pos (inner_le balanced)
  obtain ⟨inner, outer, conditionals, quoted⟩ := n
  dsimp only at fits
  rw [step?, step]
  by_cases quote : c = '"'
  · simp [quote, ofScan]
  by_cases inside : quoted = true
  · simp [quote, inside, ofScan]
  by_cases opening : c = '('
  · simp [opening, inside, ofScan]
  by_cases closing : c = ')'
  · subst closing
    cases outer <;> simp [inside, ofScan, fits]
  by_cases comma : c = ','
  · subst comma
    simp [inside, ofScan, fits]
  by_cases question : c = '?'
  · subst question
    simp [inside, ofScan]
  · simp [quote, inside, opening, closing, comma, question, ofScan]

theorem depth?_ofScan (n : Nesting) : (ofScan n).depth? = some n.depth := by
  simp [depth?, less?, ofScan, depth]

/-- **No scan fails.** -/
theorem scan?_ofScan (balanced : n.Balanced) (chars : List Char) :
    (ofScan n).scan? chars = some (ofScan (n.scan chars)) := by
  induction chars generalizing n with
  | nil => rfl
  | cons c chars ih =>
    rw [scan?, List.foldlM_cons, step?_ofScan balanced]
    exact ih (balanced.step c)

/-- **The checked scan finds what the scan finds.** -/
theorem excessFrom?_ofScan (balanced : n.Balanced) (position : Nat) (chars : List Char) :
    excessFrom? position (ofScan n) chars = some (excessFrom position n chars) := by
  induction chars generalizing position n with
  | nil => rfl
  | cons c chars ih =>
    rw [excessFrom?, step?_ofScan balanced, excessFrom, Option.bind_eq_bind, Option.bind_some,
      depth?_ofScan,
      Option.bind_eq_bind, Option.bind_some]
    split
    · rfl
    · exact ih (balanced.step c) _

end Counters

theorem balanced_scan (balanced : n.Balanced) (chars : List Char) : (n.scan chars).Balanced := by
  induction chars generalizing n with
  | nil => exact balanced
  | cons c chars ih => exact ih (balanced.step c)

/-! ## 7. The first excess

The scan stops at the first character behind which too many marks are open. -/

/-- **The first place with too many open marks**, by its position in bytes. -/
def ExceedsAt (source : List Char) (position : Nat) : Prop :=
  ∃ front c back, source = front ++ c :: back ∧ position = Text.utf8Size front ∧
    limit < openMarks (front ++ [c]) ∧ ∀ shorter, shorter <+: front → openMarks shorter ≤ limit

/-- The scan stays within the limit if every front part does. -/
theorem within_iff (chars : List Char) :
    start.Within chars ↔ ∀ front, front <+: chars → openMarks front ≤ limit := by
  constructor
  · rintro within front ⟨back, rfl⟩
    rw [← depth_scan]
    exact (within_append.mp within).1.depth_scan (Nat.zero_le _)
  · intro each
    rw [← excessFrom_eq_none_iff 0, Option.eq_none_iff_forall_ne_some]
    intro position found
    obtain ⟨front, c, back, rfl, -, -, beyond⟩ := excessFrom_eq_some_iff.mp found
    rw [depth_scan] at beyond
    exact Nat.not_le.mpr beyond (each _ ⟨back, by simp⟩)

theorem excess?_eq_some_iff {source : List Char} {position : Nat} :
    excess? source = some position ↔ ExceedsAt source position := by
  rw [excess?, excessFrom_eq_some_iff, ExceedsAt]
  simp only [Nat.zero_add, within_iff, depth_scan, and_comm]

/-- **The scan for nesting.**  Over every source, behind every character, there is a level, the
total is the sum over all levels, and the depth is the number of open marks; no subtraction fails,
here or in the whole scan.  The scan stops exactly at the first character with more open marks than
the limit, and the source is then refused there. -/
theorem excess?_openMarks (source : String) :
    (∀ front, front <+: source.toList → ∃ s, Counters.start.scan? front = some s ∧ s.levels ≠ [] ∧
      s.conditionals = s.levels.sum ∧ s.depth? = some (openMarks front)) ∧
    Counters.excessFrom? 0 .start source.toList = some (excess? source.toList) ∧
    (∀ position, excess? source.toList = some position ↔ ExceedsAt source.toList position) ∧
    ∀ position, ParseTree.ofSource source = .error (.source position (.nestedTooDeep limit)) ↔
      ExceedsAt source.toList position := by
  refine ⟨fun front _ => ?_, ?_, fun position => excess?_eq_some_iff, fun position => ?_⟩
  · refine ⟨_, Counters.scan?_ofScan balanced_start front, List.cons_ne_nil _ _, ?_, ?_⟩
    · exact balanced_scan balanced_start front
    · rw [Counters.depth?_ofScan, depth_scan]
  · exact Counters.excessFrom?_ofScan balanced_start 0 source.toList
  · rw [ParseTree.ofSource_eq_nestedTooDeep_iff, excess?_eq_some_iff]

/-- Behind a text in quotes, a stray parenthesis and a comma, the last of sixty-five parentheses is
one too many. -/
theorem excess?_openMarks_stray :
    ExceedsAt ("\"((\"),".toList ++ List.replicate 65 '(') 70 ∧
    ParseTree.ofSource (String.ofList ("\"((\"),".toList ++ List.replicate 65 '(')) =
      .error (.source 70 (.nestedTooDeep 64)) := by
  obtain ⟨-, -, exceeds, refused⟩ :=
    excess?_openMarks (String.ofList ("\"((\"),".toList ++ List.replicate 65 '('))
  rw [String.toList_ofList] at exceeds refused
  have found := (exceeds 70).mp (by decide)
  exact ⟨found, (refused 70).mpr found⟩

end Nesting
end DecimalExpression
