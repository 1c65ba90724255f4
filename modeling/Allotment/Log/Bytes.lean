/-
**Numbers as bytes.**

Numbers are stored with a fixed number of bytes, the least significant one first.  Readers take
what they need from the front of a byte sequence and hand on the rest; they give nothing if there
are too few bytes.

Main definitions:

* `Allotment.Log.Bytes` — a sequence of bytes;
* `Allotment.Log.toBytes`, `Allotment.Log.ofBytes` — a number as bytes, and back;
* `Allotment.Log.chunk?`, `Allotment.Log.word?` — the readers.

Main results:

* `Allotment.Log.length_toBytes`, `Allotment.Log.ofBytes_toBytes`;
* `Allotment.Log.chunk?_append`, `Allotment.Log.word?_append` — what was written in front of any
  rest is read, and the rest is handed on.
-/

set_option relaxedAutoImplicit false
set_option autoImplicit false

namespace Allotment.Log

/-- A sequence of bytes. -/
abbrev Bytes := List UInt8

/-- The low `width` bytes of a number, the least significant one first. -/
def toBytes : Nat → Nat → Bytes
  | 0, _ => []
  | width + 1, n => UInt8.ofNat n :: toBytes width (n / 256)

/-- The number that bytes store. -/
def ofBytes : Bytes → Nat
  | [] => 0
  | b :: r => b.toNat + 256 * ofBytes r

@[simp] theorem length_toBytes (width n : Nat) : (toBytes width n).length = width := by
  induction width generalizing n with
  | zero => rfl
  | succ width ih => simp [toBytes, ih]

theorem ofBytes_toBytes (width n : Nat) (h : n < Nat.pow 256 width) :
    ofBytes (toBytes width n) = n := by
  induction width generalizing n with
  | zero => simp at h; simp [toBytes, ofBytes, h]
  | succ width ih =>
    have hpow : Nat.pow 256 (width + 1) = Nat.pow 256 width * 256 := rfl
    have hn : n / 256 < Nat.pow 256 width := by omega
    simp only [toBytes, ofBytes, ih _ hn, UInt8.toNat_ofNat']
    omega

/-- Takes exactly `n` bytes from the front. -/
def chunk? (n : Nat) (bs : Bytes) : Option (Bytes × Bytes) :=
  let front := bs.take n
  if front.length = n then some (front, bs.drop n) else none

/-- Takes a number of `width` bytes from the front. -/
def word? (width : Nat) (bs : Bytes) : Option (Nat × Bytes) :=
  (chunk? width bs).map fun (front, rest) => (ofBytes front, rest)

theorem chunk?_append (front rest : Bytes) :
    chunk? front.length (front ++ rest) = some (front, rest) := by
  simp [chunk?]

theorem word?_append (width n : Nat) (rest : Bytes) (h : n < Nat.pow 256 width) :
    word? width (toBytes width n ++ rest) = some (n, rest) := by
  have := chunk?_append (toBytes width n) rest
  rw [length_toBytes] at this
  simp [word?, this, ofBytes_toBytes width n h]

theorem eq_append_of_chunk? {n : Nat} {bs front rest : Bytes}
    (h : chunk? n bs = some (front, rest)) : front.length = n ∧ bs = front ++ rest := by
  simp only [chunk?, Option.ite_none_right_eq_some, Option.some.injEq, Prod.mk.injEq] at h
  obtain ⟨hn, rfl, rfl⟩ := h
  exact ⟨hn, (List.take_append_drop n bs).symm⟩

end Allotment.Log
