import Mathlib.Data.List.Lex
import Mathlib.Data.String.Basic

/-!
# Texts in the order of their bytes

Texts are ordered by their code points.  UTF-8 keeps that order: the bytes of a lesser character
come first, whatever follows them (`Text.append_lt_append`), and so do those of a lesser text
(`Text.bytes_lt_bytes_iff`).
-/

namespace DecimalExpression.Text

/-- **The bytes of a text** in UTF-8. -/
def bytes (text : String) : List UInt8 := text.toUTF8.data.toList

theorem bytes_ofList (chars : List Char) :
    bytes (String.ofList chars) = chars.flatMap String.utf8EncodeChar := by
  rw [bytes, String.toUTF8_eq_toByteArray, String.toByteArray_ofList, List.utf8Encode,
    List.toList_data_toByteArray]

/-! ## 1. Characters

UTF-8 was made so that this holds, and the proof is the one its layout suggests: a longer code has a
greater first byte, and two codes of one length are numbers in base 64 with a common front, so their
bytes are compared like digits. -/

theorem byte_lt_iff {m n : Nat} (left : m < 256) (right : n < 256) :
    UInt8.ofNat m < UInt8.ofNat n ↔ m < n := by
  rw [UInt8.lt_iff_toNat_lt, UInt8.toNat_ofNat', UInt8.toNat_ofNat', Nat.mod_eq_of_lt left,
    Nat.mod_eq_of_lt right]

theorem byte_eq_iff {m n : Nat} (left : m < 256) (right : n < 256) :
    UInt8.ofNat m = UInt8.ofNat n ↔ m = n := by
  rw [← UInt8.toNat_inj, UInt8.toNat_ofNat', UInt8.toNat_ofNat', Nat.mod_eq_of_lt left,
    Nat.mod_eq_of_lt right]

/-- **The bytes of a lesser character come first.**  A longer character has the greater first byte,
and two of one length differ as their digits in base 64. -/
theorem append_lt_append {c d : Char} (lesser : c < d) (rest rest' : List UInt8) :
    String.utf8EncodeChar c ++ rest < String.utf8EncodeChar d ++ rest' := by
  have below : c.val.toNat < d.val.toNat := lesser
  have valid : d.val.toNat < 0x110000 := by
    have := d.valid
    simp only [UInt32.isValidChar, Nat.isValidChar] at this
    omega
  have digits (n : Nat) (valid : n < 0x110000) :
      n / 4096 = n / 64 / 64 ∧ n / 262144 = n / 64 / 64 / 64 ∧ n / 262144 % 8 = n / 262144 := by
    refine ⟨(Nat.div_div_eq_div_mul n 64 64).symm, ?_, Nat.mod_eq_of_lt (by omega)⟩
    simp only [Nat.div_div_eq_div_mul]
  unfold String.utf8EncodeChar
  generalize c.val.toNat = v at *
  generalize d.val.toNat = w at *
  have left := digits v (below.trans valid)
  have right := digits w valid
  dsimp only
  repeat' split
  all_goals
    simp only [List.cons_append, List.nil_append, List.cons_lt_cons_iff]
    simp (disch := omega) only [byte_lt_iff, byte_eq_iff]
    omega

/-! ## 2. Texts

A lesser text either ends where the greater goes on, or differs first at a lesser character; the
characters in front are the same and so are their bytes.  The converse needs no proof of its own,
for both orders are total. -/

theorem append_lt_append_left {left right : List UInt8} (front : List UInt8)
    (lesser : left < right) :
    front ++ left < front ++ right := by
  induction front with
  | nil => exact lesser
  | cons byte front ih => exact List.cons_lt_cons_iff.mpr (.inr ⟨rfl, ih⟩)

theorem flatMap_lt_flatMap {left right : List Char} (lesser : left < right) :
    left.flatMap String.utf8EncodeChar < right.flatMap String.utf8EncodeChar := by
  induction right generalizing left with
  | nil => cases lesser
  | cons d right ih =>
    rw [List.flatMap_cons]
    cases left with
    | nil =>
      obtain ⟨byte, more, same⟩ :=
        List.exists_cons_of_ne_nil (String.utf8EncodeChar_ne_nil (c := d))
      rw [same]
      exact List.nil_lt_cons _ _
    | cons c left =>
      rw [List.flatMap_cons]
      rcases List.cons_lt_cons_iff.mp lesser with first | ⟨rfl, rest⟩
      · exact append_lt_append first _ _
      · exact append_lt_append_left _ (ih rest)

theorem bytes_lt_bytes {left right : String} (lesser : left < right) :
    bytes left < bytes right := by
  rw [← String.ofList_toList (s := left), ← String.ofList_toList (s := right),
    bytes_ofList, bytes_ofList]
  exact flatMap_lt_flatMap lesser

/-- **Texts are ordered by their bytes.** -/
theorem bytes_lt_bytes_iff {left right : String} : bytes left < bytes right ↔ left < right := by
  refine ⟨fun lesser => ?_, bytes_lt_bytes⟩
  rcases lt_trichotomy left right with before | rfl | after
  · exact before
  · exact absurd lesser (List.lt_irrefl _)
  · exact absurd lesser (List.lt_asymm (bytes_lt_bytes after))

end DecimalExpression.Text
