/-!
# Blank characters and byte positions

Two classes of blank occur in this language and they differ.  **Layout** is what may stand
between two tokens: space, tab, carriage return and line feed, and nothing else.  **Blank** is
the Unicode property `White_Space`; it decides what is trimmed off a slice of source, off the
text quoted in a report and off a string that is read as a number.  Every layout character is
blank (`isBlank_of_isLayout`), so trimming a slice always removes the layout around it.

Positions are reported in bytes of the UTF-8 form, so `utf8Size` measures a list of characters.

Both are at work when a source is read: whitespace "is insignificant between tokens", and an inner
node has "the trimmed source slice" for its text (specification, section 10).
-/

namespace DecimalExpression.Text

/-! ## 1. The two classes -/

/-- **Layout**: the four characters that may separate tokens. -/
def isLayout (c : Char) : Bool :=
  c = ' ' || c = '\t' || c = '\r' || c = '\n'

/-- **Blank**: the Unicode property `White_Space`, as its code point ranges. -/
def isBlank (c : Char) : Bool :=
  let n := c.toNat
  (0x9 ≤ n && n ≤ 0xD) || n = 0x20 || n = 0x85 || n = 0xA0 || n = 0x1680
    || (0x2000 ≤ n && n ≤ 0x200A) || n = 0x2028 || n = 0x2029 || n = 0x202F
    || n = 0x205F || n = 0x3000

theorem isBlank_of_isLayout {c : Char} (h : isLayout c = true) : isBlank c = true := by
  simp only [isLayout, Bool.or_eq_true, decide_eq_true_eq] at h
  rcases h with ((rfl | rfl) | rfl) | rfl <;> decide

/-! ## 2. Trimming -/

/-- The text without its leading blanks. -/
def trimStart (text : List Char) : List Char :=
  text.dropWhile isBlank

/-- The text without its leading and trailing blanks. -/
def trim (text : List Char) : List Char :=
  ((trimStart text).reverse.dropWhile isBlank).reverse

/-! ## 3. Byte length -/

/-- The number of bytes of the UTF-8 form. -/
def utf8Size (text : List Char) : Nat :=
  text.foldl (fun bytes c => bytes + c.utf8Size) 0

theorem foldl_utf8Size (text : List Char) (start : Nat) :
    text.foldl (fun bytes c => bytes + c.utf8Size) start = start + utf8Size text := by
  induction text generalizing start with
  | nil => rfl
  | cons c rest ih =>
    have tail := ih c.utf8Size
    simp only [utf8Size, List.foldl_cons, Nat.zero_add] at ih tail ⊢
    rw [ih, tail]
    omega

@[simp] theorem utf8Size_nil : utf8Size [] = 0 := rfl

@[simp] theorem utf8Size_cons (c : Char) (text : List Char) :
    utf8Size (c :: text) = c.utf8Size + utf8Size text := by
  rw [utf8Size, List.foldl_cons, foldl_utf8Size, Nat.zero_add]

theorem utf8Size_append (first second : List Char) :
    utf8Size (first ++ second) = utf8Size first + utf8Size second := by
  induction first with
  | nil => simp
  | cons c rest ih =>
    rw [List.cons_append, utf8Size_cons, utf8Size_cons, ih]
    omega

end DecimalExpression.Text
