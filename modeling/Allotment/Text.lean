/-
**Characters and texts.**

Texts are measured in the bytes of their UTF-8 form, in which digits and the other characters of
ASCII take one byte each.  A reader of dates skips the characters with the Unicode property
`White_Space`.

Main definitions:

* `Allotment.Text.isBlank` — whether a character is white space;
* `Allotment.Text.dropBlanks` — a text without the white space at its start.

Main results:

* `Allotment.Text.utf8ByteSize_ofList_of_ascii` — a text of characters of one byte has as many
  bytes as characters;
* `Allotment.Text.isBlank_of_isDigit` — a decimal digit is not white space.
-/

set_option relaxedAutoImplicit false
set_option autoImplicit false

namespace Allotment.Text

/-! ### Sizes -/

/-- A text of characters of one byte each has as many bytes as characters. -/
theorem utf8ByteSize_ofList_of_ascii {cs : List Char} (h : ∀ c ∈ cs, c.utf8Size = 1) :
    (String.ofList cs).utf8ByteSize = cs.length := by
  induction cs with
  | nil => rfl
  | cons c cs ih =>
    rw [← List.singleton_append, String.ofList_append, String.utf8ByteSize_append,
      ← String.singleton_eq_ofList, String.utf8ByteSize_singleton, h c (by simp),
      ih fun d hd => h d (by simp [hd]), List.singleton_append, List.length_cons, Nat.add_comm]

theorem utf8Size_of_isDigit {c : Char} (h : c.isDigit = true) : c.utf8Size = 1 := by
  have zero : '0'.toNat = 48 := rfl
  have nine : '9'.toNat = 57 := rfl
  simp only [Char.isDigit, Bool.and_eq_true, decide_eq_true_eq, ge_iff_le,
    UInt32.le_iff_toNat_le, Char.toNat_val] at h
  have small : c.val ≤ 0x7f := by
    rw [UInt32.le_iff_toNat_le, Char.toNat_val]
    simp
    omega
  simp [Char.utf8Size, small]

/-! ### White space -/

/-- Whether a character has the Unicode property `White_Space`. -/
def isBlank (c : Char) : Bool :=
  ('\t' ≤ c && c ≤ '\r') || c = ' ' || c = '\x85' || c = '\xa0' || c = '\u1680' ||
    ('\u2000' ≤ c && c ≤ '\u200a') || c = '\u2028' || c = '\u2029' || c = '\u202f' ||
    c = '\u205f' || c = '\u3000'

/-- What is left of a text once the white space at its start is dropped. -/
def dropBlanks (cs : List Char) : List Char := cs.dropWhile isBlank

theorem dropBlanks_cons {c : Char} (h : isBlank c = false) (cs : List Char) :
    dropBlanks (c :: cs) = c :: cs := by
  simp [dropBlanks, h]

theorem isBlank_of_isDigit {c : Char} (h : c.isDigit = true) : isBlank c = false := by
  have zero : '0'.toNat = 48 := rfl
  have nine : '9'.toNat = 57 := rfl
  have low : '\r'.toNat = 13 := rfl
  have high : '\u2000'.toNat = 8192 := rfl
  simp only [Char.isDigit, Bool.and_eq_true, decide_eq_true_eq, ge_iff_le,
    UInt32.le_iff_toNat_le, Char.toNat_val] at h
  have hne (d : Char) (hd : d.toNat < 48 ∨ 57 < d.toNat) : c ≠ d := by
    rintro rfl
    omega
  have h₁ : ¬ c ≤ '\r' := by
    rw [Char.le_def, UInt32.le_iff_toNat_le, Char.toNat_val, Char.toNat_val]
    omega
  have h₂ : ¬ '\u2000' ≤ c := by
    rw [Char.le_def, UInt32.le_iff_toNat_le, Char.toNat_val, Char.toNat_val]
    omega
  simp [isBlank, h₁, h₂, hne]

end Allotment.Text
