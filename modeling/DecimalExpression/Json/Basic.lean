/-!
# JSON values

A JSON value as it is written.  Numbers keep all their digits, so nothing is lost before a reader
decides what a number means.  Members of an object stay in the order of the text, and a name may
come up several times.

A string may escape half of a surrogate pair.  It is then well formed but has no text, and it is
up to the reader of the value whether that matters (`Json.hasTexts`).

Variables and policies come in this form (specification, section 18), and the "exact decimal text"
that it asks for is why a number is kept as digits.
-/

namespace DecimalExpression

/-- **A number as it is written.** -/
structure JsonNumber where
  negative : Bool
  whole : List Char
  fraction : Option (List Char)
  /-- whether the exponent is negative, and its digits -/
  exponent : Option (Bool × List Char)
deriving DecidableEq, Repr

namespace JsonNumber

/-- **The text of a number**, with a small `e` and a sign in front of every exponent. -/
def write (n : JsonNumber) : String :=
  let sign := if n.negative then ['-'] else []
  let fraction := match n.fraction with
    | none => []
    | some digits => '.' :: digits
  let exponent := match n.exponent with
    | none => []
    | some (negative, digits) => 'e' :: (if negative then '-' else '+') :: digits
  String.ofList (sign ++ n.whole ++ fraction ++ exponent)

end JsonNumber

/-- **A JSON value.**  A string is its text, if it has one. -/
inductive Json where
  | null
  | bool (truth : Bool)
  | number (n : JsonNumber)
  | string (text : Option String)
  | array (items : List Json)
  | object (members : List (Option String × Json))

namespace Json

/-- **Depth**: how many arrays and objects stand around the innermost value, these included. -/
def depth : Json → Nat
  | array items => items.foldl (fun deepest item => max deepest item.depth) 0 + 1
  | object members =>
    members.attach.foldl (fun deepest member => max deepest member.val.2.depth) 0 + 1
  | _ => 0
decreasing_by
  · have := List.sizeOf_lt_of_mem ‹item ∈ items›
    simp only [array.sizeOf_spec]
    omega
  · have := List.sizeOf_lt_of_mem member.property
    have : sizeOf member.val.2 < sizeOf member.val := by
      rcases member with ⟨⟨_, _⟩, _⟩
      simp only [Prod.mk.sizeOf_spec]
      omega
    simp only [object.sizeOf_spec]
    omega

/-- **Whether every string in a value has a text**, names of members included. -/
def hasTexts : Json → Bool
  | string text => text.isSome
  | array items => items.attach.all fun item => item.val.hasTexts
  | object members =>
    members.attach.all fun member => member.val.1.isSome && member.val.2.hasTexts
  | _ => true
decreasing_by
  · have := List.sizeOf_lt_of_mem item.property
    simp only [array.sizeOf_spec]
    omega
  · have := List.sizeOf_lt_of_mem member.property
    have : sizeOf member.val.2 < sizeOf member.val := by
      rcases member with ⟨⟨_, _⟩, _⟩
      simp only [Prod.mk.sizeOf_spec]
      omega
    simp only [object.sizeOf_spec]
    omega

/-- The members of an object by name, if all names have texts. -/
def namedMembers? (members : List (Option String × Json)) : Option (List (String × Json)) :=
  members.mapM fun member => member.1.map fun name => (name, member.2)

end Json
end DecimalExpression
