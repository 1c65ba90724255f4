/-
**Identifiers of 128 bits.**

Quotas, allocations and versions are told apart by numbers of 128 bits.  They are compared as
numbers, and this order is the one in which reports list quotas.

An identifier is written with 26 digits of Crockford's base 32, whose alphabet leaves out the
letters `I`, `L`, `O` and `U`.  Twenty-six digits hold 130 bits, two more than an identifier has:
writing never needs them, and reading drops them.  Reading also takes small letters.

Main definitions:

* `Allotment.Ulid` — an identifier, with its order as an instance of `Ord`;
* `Allotment.Ulid.nil` — the identifier whose bits are all zero;
* `Allotment.Ulid.toText` — the 26 digits of an identifier;
* `Allotment.Ulid.ofText?` — the identifier that a text writes, if it writes one.

Main results:

* the order is lawful (`Std.TransOrd Ulid`, `Std.LawfulEqOrd Ulid`), so identifiers can key a sorted
  map;
* `Allotment.Ulid.length_digits`, `Allotment.Ulid.ofDigits_digits` — a number below `32 ^ k` is
  recovered from its `k` digits;
* `Allotment.Ulid.ofText?_toText` — the written form of an identifier is read back;
* `Allotment.Ulid.utf8ByteSize_toText` — it has 26 bytes.
-/

import Std.Data.ExtTreeMap
import Allotment.Text

set_option relaxedAutoImplicit false
set_option autoImplicit false

namespace Allotment

/-- An identifier: a number of 128 bits. -/
structure Ulid where
  /-- The number itself. -/
  bits : BitVec 128
deriving DecidableEq

namespace Ulid

/-- The identifier whose bits are all zero. -/
def nil : Ulid := ⟨0⟩

instance : Inhabited Ulid := ⟨nil⟩

/-- Identifiers are ordered as numbers. -/
instance : Ord Ulid := ⟨compareOn fun u => u.bits.toNat⟩

instance : Std.TransOrd Ulid :=
  inferInstanceAs (Std.TransCmp (compareOn fun u : Ulid => u.bits.toNat))

/-- Different identifiers are different numbers. -/
instance : Std.LawfulEqOrd Ulid where
  eq_of_compare {a b} h := by
    have : a.bits.toNat = b.bits.toNat := Std.LawfulEqOrd.eq_of_compare (α := Nat) h
    cases a
    cases b
    simpa [BitVec.toNat_inj] using this

/-! ### The written form -/

/-- The digits of base 32 in ascending order. -/
def alphabet : List Char :=
  ['0', '1', '2', '3', '4', '5', '6', '7', '8', '9', 'A', 'B', 'C', 'D', 'E', 'F',
   'G', 'H', 'J', 'K', 'M', 'N', 'P', 'Q', 'R', 'S', 'T', 'V', 'W', 'X', 'Y', 'Z']

/-- The character that stands for the digit `d`. -/
def digitChar (d : Nat) : Char := alphabet.getD d '0'

/-- The digit that a character stands for; a small letter counts as its capital. -/
def digit? (c : Char) : Option Nat := alphabet.idxOf? c.toUpper

/-- The last `k` digits of `n` in base 32, the most significant one first. -/
def digits : Nat → Nat → List Nat
  | 0, _ => []
  | k + 1, n => digits k (n / 32) ++ [n % 32]

/-- The number with the given digits in base 32, the most significant one first. -/
def ofDigits (ds : List Nat) : Nat := ds.foldl (fun n d => n * 32 + d) 0

@[simp] theorem length_digits (k n : Nat) : (digits k n).length = k := by
  induction k generalizing n with
  | zero => rfl
  | succ k ih => simp [digits, ih]

theorem ofDigits_digits (k n : Nat) (h : n < Nat.pow 32 k) : ofDigits (digits k n) = n := by
  induction k generalizing n with
  | zero => simp at h; simp [digits, ofDigits, h]
  | succ k ih =>
    have hpow : Nat.pow 32 (k + 1) = Nat.pow 32 k * 32 := rfl
    have hn : n / 32 < Nat.pow 32 k := by omega
    have := ih (n / 32) hn
    simp only [ofDigits] at this
    simp only [digits, ofDigits, List.foldl_append, List.foldl_cons, List.foldl_nil, this]
    omega

/-- The number of digits in the written form. -/
def textLength : Nat := 26

/-- The written form of an identifier. -/
def toText (u : Ulid) : String :=
  String.ofList ((digits textLength u.bits.toNat).map digitChar)

/-- The identifier that a text writes: 26 digits, of whose value the low 128 bits count. -/
def ofText? (s : String) : Option Ulid :=
  if s.length = textLength then
    (s.toList.mapM digit?).map fun ds => ⟨BitVec.ofNat 128 (ofDigits ds)⟩
  else none

theorem digit?_digitChar (d : Nat) (h : d < 32) : digit? (digitChar d) = some d := by
  have all : ∀ d : Fin 32, digit? (digitChar d) = some d.val := by decide
  exact all ⟨d, h⟩

theorem lt_of_mem_digits {k n d : Nat} (h : d ∈ digits k n) : d < 32 := by
  induction k generalizing n with
  | zero => simp [digits] at h
  | succ k ih =>
    rcases List.mem_append.1 h with h | h
    · exact ih h
    · rw [List.mem_singleton.1 h]
      omega

theorem mapM_digit?_digitChar (ds : List Nat) (h : ∀ d ∈ ds, d < 32) :
    (ds.map digitChar).mapM digit? = some ds := by
  induction ds with
  | nil => rfl
  | cons d ds ih =>
    rw [List.map_cons, List.mapM_cons, digit?_digitChar d (h d (by simp)),
      ih fun e he => h e (by simp [he])]
    rfl

/-- What is written is read back. -/
theorem ofText?_toText (u : Ulid) : ofText? u.toText = some u := by
  have hu : u.bits.toNat < Nat.pow 32 textLength := Nat.lt_of_lt_of_le u.bits.isLt (by decide)
  have hd := mapM_digit?_digitChar (digits textLength u.bits.toNat) fun _ => lt_of_mem_digits
  simp only [ofText?, toText, String.length_ofList, List.length_map, length_digits, ↓reduceIte,
    String.toList_ofList, hd, Option.map_some, ofDigits_digits _ _ hu]
  simp

theorem utf8ByteSize_toText (u : Ulid) : u.toText.utf8ByteSize = textLength := by
  have ascii : ∀ d : Fin 32, (digitChar d).utf8Size = 1 := by decide
  rw [toText, Text.utf8ByteSize_ofList_of_ascii, List.length_map, length_digits]
  intro c hc
  obtain ⟨d, hd, rfl⟩ := List.mem_map.1 hc
  exact ascii ⟨d, lt_of_mem_digits hd⟩

end Ulid

end Allotment
