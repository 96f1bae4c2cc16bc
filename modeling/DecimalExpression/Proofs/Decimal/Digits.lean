import DecimalExpression.Proofs.Decimal.Magnitude

/-!
# Digits that are written

The digits that are written for a number read as that number (`Digits.read_write`), and they start
with zero only where the number is zero (`Digits.write_of_head?`).

Both follow from what one block of digits is: its front half says the number of units in it, and its
back half what is left (`Digits.exists_block`, `Digits.exists_leading`).
-/

namespace DecimalExpression
namespace Digits

/-! ## 1. Digits behind digits

Reading goes through the digits from the front with an accumulator.  What the accumulator holds at
the start is moved up by all the digits that follow, which is the law of `foldl_value`; everything
about reading comes from it. -/

theorem foldl_value (digits : List Char) (number : Nat) :
    digits.foldl (fun number c => 10 * number + value c) number = number * 10 ^ digits.length
      + read digits := by
  induction digits generalizing number with
  | nil => simp [read]
  | cons c digits ih =>
    have first : read (c :: digits) = (10 * 0 + value c) * 10 ^ digits.length + read digits := ih _
    rw [List.foldl_cons, ih, first, List.length_cons, pow_succ]
    ring

/-- **Digits behind others** move these up by as many places. -/
theorem read_append (front back : List Char) :
    read (front ++ back) = read front * 10 ^ back.length + read back := by
  rw [read, List.foldl_append, foldl_value]
  rfl

theorem read_singleton (c : Char) : read [c] = value c := Nat.zero_add _

@[simp] theorem read_zeros (n : Nat) : read (List.replicate n '0') = 0 := by
  induction n with
  | zero => rfl
  | succ n ih =>
    rw [List.replicate_succ', read_append, ih]
    rfl

/-! ## 2. Blocks

Writing cuts a number in halves of equal numbers of digits, and each half again.  A half that stands
behind another one keeps its zeros in front (`exists_block`); the half that leads drops them, and is
left out where it is zero (`exists_leading`).  Both are inductions on the number of halvings. -/

theorem value_digit {n : Nat} (small : n < 10) : value (digit n) = n := by
  have each : ∀ n < 10, value (digit n) = n := by decide
  exact each n small

theorem isDigit_digit {n : Nat} (small : n < 10) : (digit n).isDigit := by
  have each : ∀ n < 10, (digit n).isDigit := by decide
  exact each n small

/-- **Digits of a number**: one at least, and they read as it. -/
structure Spell (digits : List Char) (n : Nat) : Prop where
  nonempty : digits ≠ []
  allDigits : ∀ c ∈ digits, c.isDigit
  read_eq : read digits = n

theorem spell_digit {n : Nat} (small : n < 10) : Spell [digit n] n where
  nonempty := List.cons_ne_nil _ _
  allDigits := List.forall_mem_singleton.mpr (isDigit_digit small)
  read_eq := by rw [read_singleton, value_digit small]

/-- The two halves of a number, in digits. -/
theorem Spell.append {front back : List Char} {n m : Nat} (first : Spell front (n / m))
    (second : Spell back (n % m))
    (whole : 10 ^ back.length = m) : Spell (front ++ back) n where
  nonempty := List.append_ne_nil_of_left_ne_nil first.nonempty _
  allDigits := List.forall_mem_append.mpr ⟨first.allDigits, second.allDigits⟩
  read_eq := by rw [read_append, first.read_eq, second.read_eq, whole, Nat.div_add_mod']

/-- **A block** is the digits of its number, padded to its length. -/
theorem exists_block {k n : Nat} (small : n < 10 ^ 2 ^ k) (tail : List Char) :
    ∃ front, block k n tail = front ++ tail ∧ front.length = 2 ^ k ∧ Spell front n := by
  induction k generalizing n tail with
  | zero => exact ⟨[digit n], rfl, rfl, spell_digit (by simpa using small)⟩
  | succ k ih =>
    obtain ⟨back, isBack, lengthBack, spellBack⟩ := ih (Nat.mod_lt n (by positivity)) tail
    obtain ⟨front, isFront, lengthFront, spellFront⟩ := ih (div_half_lt small) (back ++ tail)
    refine ⟨front ++ back, ?_, ?_, spellFront.append spellBack (by rw [lengthBack])⟩
    · rw [block, unit_half, isBack, isFront, List.append_assoc]
    · rw [List.length_append, lengthFront, lengthBack, pow_succ, mul_two]

/-- **The leading digits** are the digits of the number, and no zero stands in front of others.  By
induction on the number of halvings: a number that has fewer digits goes on with the front half
alone, and any other one is divided, with the remainder as a block that keeps its zeros. -/
theorem exists_leading {k n : Nat} (small : n < 10 ^ 2 ^ k) (tail : List Char) :
    ∃ front, leading k n tail = front ++ tail ∧ Spell front n ∧
      (front.head? = some '0' → front = ['0']) := by
  induction k generalizing n tail with
  | zero =>
    refine ⟨[digit n], rfl, spell_digit (by simpa using small), fun zero => ?_⟩
    rw [Option.some.inj zero]
  | succ k ih =>
    rw [leading, unit_half]
    split
    · rename_i below
      exact ih below tail
    · rename_i above
      obtain ⟨back, isBack, lengthBack, spellBack⟩ :=
        exists_block (Nat.mod_lt n (by positivity)) tail
      obtain ⟨front, isFront, spellFront, noZero⟩ := ih (div_half_lt small) (back ++ tail)
      refine ⟨front ++ back, ?_, spellFront.append spellBack (by rw [lengthBack]), fun zero => ?_⟩
      · rw [isBack, isFront, List.append_assoc]
      · -- A zero in front would say that nothing is left of the number in the front half.
        rw [List.head?_append_of_ne_nil _ spellFront.nonempty] at zero
        have none : n / 10 ^ 2 ^ k = 0 := by
          rw [← spellFront.read_eq, noZero zero]
          rfl
        have positive : 0 < n / 10 ^ 2 ^ k := Nat.div_pos (not_lt.mp above) (by positivity)
        omega

/-! ## 3. Whole numbers

The number of halvings that `write` starts with leaves room for the whole number.  With that the
lemmas on blocks give everything at once: what is written consists of digits, is not empty, reads as
the number and has no zero in front that it does not need. -/

theorem exists_write (n : Nat) :
    Spell (write n) n ∧ ((write n).head? = some '0' → write n = ['0']) := by
  obtain ⟨front, same, spell, noZero⟩ := exists_leading (lt_block_of_write n) []
  rw [List.append_nil] at same
  rw [write, same]
  exact ⟨spell, noZero⟩

theorem spell_write (n : Nat) : Spell (write n) n := (exists_write n).1

/-- **What is written is read back.** -/
@[simp] theorem read_write (n : Nat) : read (write n) = n := (spell_write n).read_eq

theorem isDigit_of_mem_write (n : Nat) : ∀ c ∈ write n, c.isDigit := (spell_write n).allDigits

theorem write_ne_nil (n : Nat) : write n ≠ [] := (spell_write n).nonempty

/-- **No zero is written in front of other digits.** -/
theorem write_of_head? {n : Nat} (zero : (write n).head? = some '0') : write n = ['0'] :=
  (exists_write n).2 zero

end Digits
end DecimalExpression
