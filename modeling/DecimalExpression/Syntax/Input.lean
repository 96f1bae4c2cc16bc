import DecimalExpression.Syntax.Lexeme

/-!
# Input and readings of it

An `Input` is the text that is left to read, with its length at hand.  What a rule of the grammar
gives back is a `Reading`: a value and a later input, together with the proofs that this input is a
suffix of the one the rule started from and that at least so many characters were read.  The
suffix says that slices between two inputs are slices of the source, and the count makes every
repetition and every recursion of the grammar end.

The slice of a reading is the text `consumed` between two inputs, without the blanks around it
(specification, section 10: the text of an inner node is "the trimmed source slice").
-/

namespace DecimalExpression

/-- **The text left to read**, and its length. -/
structure Input where
  chars : List Char
  size : Nat
  size_eq : size = chars.length

/-- **A reading** of at least `least` characters of `s`. -/
structure Reading (least : Nat) (s : Input) (α : Type) where
  value : α
  rest : Input
  suffix : rest.chars <:+ s.chars
  progress : rest.size + least ≤ s.size

namespace Input

def ofChars (chars : List Char) : Input := ⟨chars, chars.length, rfl⟩

theorem suffix_self (s : Input) : s.chars <:+ s.chars := List.suffix_refl _

/-! ## 1. Readings of a part of the text -/

/-- What is left behind a part in front. -/
def dropPart (s : Input) (part rest : List Char) (h : part ++ rest = s.chars) : Input :=
  ⟨rest, s.size - part.length, by
    have length := congrArg List.length h
    rw [List.length_append] at length
    have size := s.size_eq
    omega⟩

theorem dropPart_size (s : Input) {part rest : List Char} (h : part ++ rest = s.chars) :
    (s.dropPart part rest h).size + part.length = s.size := by
  have length := congrArg List.length h
  rw [List.length_append] at length
  have size := s.size_eq
  simp only [dropPart]
  omega

/-- Layout is skipped. -/
def skipLayout (s : Input) : Reading 0 s Unit where
  value := ()
  rest := s.dropPart (s.chars.takeWhile Text.isLayout) (s.chars.dropWhile Text.isLayout)
    List.takeWhile_append_dropWhile
  suffix := ⟨_, List.takeWhile_append_dropWhile⟩
  progress := by
    have size := s.dropPart_size
      (List.takeWhile_append_dropWhile (p := Text.isLayout) (l := s.chars))
    omega

/-- A lexeme is read. -/
def take (s : Input) (lexeme : Lexeme s.chars) : Reading 1 s String where
  value := String.ofList lexeme.text
  rest := s.dropPart lexeme.text lexeme.rest lexeme.split
  suffix := ⟨_, lexeme.split⟩
  progress := by
    have size := s.dropPart_size lexeme.split
    have positive := List.length_pos_iff.mpr lexeme.nonempty
    omega

/-! ## 2. Slices -/

/-- **The slice from one input to a later one**, without the blanks around it. -/
def slice (start rest : Input) : String :=
  String.ofList (Text.trim (start.chars.take (start.size - rest.size)))

end Input

namespace Reading

variable {least more : Nat} {s : Input} {α β : Type}

/-! ## 3. Readings in sequence -/

/-- **One reading after another**, as a reading from where the first one started. -/
def andThen (first : Reading least s α) (second : Reading more first.rest β) :
    Reading (least + more) s β where
  value := second.value
  rest := second.rest
  suffix := second.suffix.trans first.suffix
  progress := by
    have start := first.progress
    have goesOn := second.progress
    omega

/-- A reading of more characters is one of fewer. -/
def weaken (reading : Reading more s α) (h : least ≤ more) : Reading least s α where
  value := reading.value
  rest := reading.rest
  suffix := reading.suffix
  progress := by
    have progress := reading.progress
    omega

/-- The same reading with another value. -/
def give (reading : Reading least s α) (value : β) : Reading least s β where
  value := value
  rest := reading.rest
  suffix := reading.suffix
  progress := reading.progress

/-- Nothing is read. -/
def nothing (s : Input) (value : α) : Reading 0 s α :=
  ⟨value, s, s.suffix_self, Nat.le_refl _⟩

end Reading

namespace Input

/-! ## 4. Tokens behind layout -/

/-- **A token behind layout**: the first of `tokens` that stands there. -/
def token? (s : Input) (tokens : List (List Char)) : Option (Reading 1 s String) :=
  let start := s.skipLayout
  (Lexeme.token? start.rest.chars tokens).map fun lexeme =>
    (start.andThen (start.rest.take lexeme)).weaken (by omega)

end Input
end DecimalExpression
