/-
**The payload of a record.**

A record is stored field by field.  Numbers have a fixed width; a text is its length in bytes,
stored in eight bytes, and then its UTF-8 bytes; identifiers and days are stored as texts; a field
that may be absent starts with a byte that says whether it is there.  A number of four bytes in
front says which kind of record it is.

Reading takes the fields from the front and allows bytes behind the last one.

Main definitions:

* `Allotment.Log.writeText`, `Allotment.Log.text?`, and the same for identifiers, days, terms and
  allocations;
* `Allotment.Log.payload` — the stored form of a record;
* `Allotment.Log.record?` — the record that a payload stores, if it stores one.

Main results:

* `Allotment.Log.record?_payload_append` — a record is read back from its payload.
-/

import Allotment.Change
import Allotment.Log.Bytes

set_option relaxedAutoImplicit false
set_option autoImplicit false

namespace Allotment.Log

/-! ### Texts and what is stored as a text -/

/-- The bytes of a text. -/
def utf8 (s : String) : Bytes := s.toByteArray.data.toList

/-- The text whose bytes these are, if they are well formed. -/
def ofUtf8? (bs : Bytes) : Option String := String.fromUTF8? ⟨bs.toArray⟩

/-- A text is stored as its length and its bytes. -/
def writeText (s : String) : Bytes := toBytes 8 s.utf8ByteSize ++ utf8 s

/-- Reads a text. -/
def text? (bs : Bytes) : Option (String × Bytes) := do
  let (size, bs) ← word? 8 bs
  let (front, bs) ← chunk? size bs
  let s ← ofUtf8? front
  return (s, bs)

/-- Identifiers are stored in their written form. -/
def writeUlid (u : Ulid) : Bytes := writeText u.toText

/-- Reads an identifier. -/
def ulid? (bs : Bytes) : Option (Ulid × Bytes) := do
  let (s, bs) ← text? bs
  let u ← Ulid.ofText? s
  return (u, bs)

/-- Days are stored in their written form. -/
def writeDate (d : Date) : Bytes := writeText d.toText

/-- Reads a day. -/
def date? (bs : Bytes) : Option (Date × Bytes) := do
  let (s, bs) ← text? bs
  let d ← Date.ofText? s
  return (d, bs)

/-! ### Fields of 32 and 64 bits and absent fields -/

/-- Counts of units take four bytes. -/
def writeUnits (n : UInt32) : Bytes := toBytes 4 n.toNat

/-- Reads a count of units. -/
def units? (bs : Bytes) : Option (UInt32 × Bytes) :=
  (word? 4 bs).map fun (n, bs) => (UInt32.ofNat n, bs)

/-- A time takes eight bytes, negative ones in two's complement. -/
def writeTime (t : Int64) : Bytes := toBytes 8 t.toUInt64.toNat

/-- Reads a time. -/
def time? (bs : Bytes) : Option (Int64 × Bytes) :=
  (word? 8 bs).map fun (n, bs) => ((UInt64.ofNat n).toInt64, bs)

/-- A text that may be absent has a byte 0 or 1 in front. -/
def writeOptionalText : Option String → Bytes
  | none => [0]
  | some s => 1 :: writeText s

/-- Reads a text that may be absent. -/
def optionalText? : Bytes → Option (Option String × Bytes)
  | [] => none
  | b :: bs =>
    if b = 0 then some (none, bs)
    else if b = 1 then (text? bs).map fun (s, bs) => (some s, bs)
    else none

/-! ### Records -/

/-- The stored form of the terms of a quota. -/
def writeTerms (t : Terms) : Bytes :=
  writeText t.name ++ writeText t.productType ++ writeDate t.travelDate ++
    writeUnits t.capacity ++ writeUnits t.overbooking

/-- Reads the terms of a quota. -/
def terms? (bs : Bytes) : Option (Terms × Bytes) := do
  let (name, bs) ← text? bs
  let (productType, bs) ← text? bs
  let (travelDate, bs) ← date? bs
  let (capacity, bs) ← units? bs
  let (overbooking, bs) ← units? bs
  return ({ name, productType, travelDate, capacity, overbooking }, bs)

/-- The stored form of an allocation. -/
def writeAllocation (a : Allocation) : Bytes :=
  writeUlid a.id ++ writeUlid a.quota ++ writeOptionalText a.reference ++
    writeUnits a.quantity ++ writeTime a.assignedAt

/-- Reads an allocation. -/
def allocation? (bs : Bytes) : Option (Allocation × Bytes) := do
  let (id, bs) ← ulid? bs
  let (quota, bs) ← ulid? bs
  let (reference, bs) ← optionalText? bs
  let (quantity, bs) ← units? bs
  let (assignedAt, bs) ← time? bs
  return ({ id, quota, reference, quantity, assignedAt }, bs)

/-- The stored form of a version. -/
def writeVersion (v : Version) : Bytes := writeUlid v.mark

/-- Reads a version. -/
def version? (bs : Bytes) : Option (Version × Bytes) :=
  (ulid? bs).map fun (u, bs) => (⟨u⟩, bs)

/-- The number that stands for a kind of record. -/
def kindOf : Record → Nat
  | .created _ _ _ => 0
  | .revised _ _ _ => 1
  | .allocated _ _ => 2

/-- The stored form of a record. -/
def payload (r : Record) : Bytes :=
  toBytes 4 (kindOf r) ++
    match r with
    | .created quota terms version => writeUlid quota ++ writeTerms terms ++ writeVersion version
    | .revised quota terms version => writeUlid quota ++ writeTerms terms ++ writeVersion version
    | .allocated allocation version => writeAllocation allocation ++ writeVersion version

/-- The record that a payload stores, if it stores one. -/
def record? (bs : Bytes) : Option Record := do
  let (kind, bs) ← word? 4 bs
  match kind with
  | 0 =>
    let (quota, bs) ← ulid? bs
    let (terms, bs) ← terms? bs
    let (version, _) ← version? bs
    return .created quota terms version
  | 1 =>
    let (quota, bs) ← ulid? bs
    let (terms, bs) ← terms? bs
    let (version, _) ← version? bs
    return .revised quota terms version
  | 2 =>
    let (allocation, bs) ← allocation? bs
    let (version, _) ← version? bs
    return .allocated allocation version
  | _ => none

/-! ### Reading what was written

A text is read back if its length fits in the eight bytes set aside for it, so a record is read back
if its payload is no longer than that.  Whatever stands behind what was written is handed on. -/

theorem length_utf8 (s : String) : (utf8 s).length = s.utf8ByteSize := by
  rw [utf8, Array.length_toList, ByteArray.size_data]
  rfl

theorem ofUtf8?_utf8 (s : String) : ofUtf8? (utf8 s) = some s := by
  have hb : ByteArray.mk (utf8 s).toArray = s.toByteArray := by simp [utf8]
  rw [ofUtf8?, hb, String.fromUTF8?, dif_pos s.isValidUTF8]
  rfl

theorem length_writeText (s : String) : (writeText s).length = 8 + s.utf8ByteSize := by
  rw [writeText, List.length_append, length_toBytes, length_utf8]

theorem length_writeUlid (u : Ulid) : (writeUlid u).length = 34 := by
  rw [writeUlid, length_writeText, Ulid.utf8ByteSize_toText]
  rfl

theorem text?_append {s : String} (h : s.utf8ByteSize < UInt64.size) (rest : Bytes) :
    text? (writeText s ++ rest) = some (s, rest) := by
  have hc := chunk?_append (utf8 s) rest
  rw [length_utf8] at hc
  simp only [text?, writeText, List.append_assoc, word?_append 8 _ _ h, Option.bind_eq_bind,
    Option.bind_some, hc, ofUtf8?_utf8]
  rfl

theorem ulid?_append (u : Ulid) (rest : Bytes) : ulid? (writeUlid u ++ rest) = some (u, rest) := by
  have h : u.toText.utf8ByteSize < UInt64.size := by
    rw [Ulid.utf8ByteSize_toText]
    decide
  simp only [ulid?, writeUlid, text?_append h, Option.bind_eq_bind, Option.bind_some,
    Ulid.ofText?_toText]
  rfl

theorem date?_append (d : Date) (rest : Bytes) : date? (writeDate d ++ rest) = some (d, rest) := by
  have h : d.toText.utf8ByteSize < UInt64.size :=
    Nat.lt_of_le_of_lt d.utf8ByteSize_toText_le (by decide)
  simp only [date?, writeDate, text?_append h, Option.bind_eq_bind, Option.bind_some,
    Date.ofText?_toText]
  rfl

theorem units?_append (n : UInt32) (rest : Bytes) :
    units? (writeUnits n ++ rest) = some (n, rest) := by
  simp only [units?, writeUnits, word?_append 4 n.toNat rest n.toNat_lt, Option.map_some,
    UInt32.ofNat_toNat]

theorem time?_append (t : Int64) (rest : Bytes) : time? (writeTime t ++ rest) = some (t, rest) := by
  have same : (UInt64.ofNat t.toUInt64.toNat).toInt64 = t := by
    rw [UInt64.ofNat_toNat]
    cases t
    rfl
  simp only [time?, writeTime, word?_append 8 t.toUInt64.toNat rest t.toUInt64.toNat_lt, same,
    Option.map_some]

theorem optionalText?_append {s : Option String} (h : ∀ t ∈ s, t.utf8ByteSize < UInt64.size)
    (rest : Bytes) : optionalText? (writeOptionalText s ++ rest) = some (s, rest) := by
  cases s with
  | none => rfl
  | some t => simp [optionalText?, writeOptionalText, text?_append (h t rfl)]

theorem terms?_append {t : Terms} (hn : t.name.utf8ByteSize < UInt64.size)
    (hp : t.productType.utf8ByteSize < UInt64.size) (rest : Bytes) :
    terms? (writeTerms t ++ rest) = some (t, rest) := by
  simp only [terms?, writeTerms, List.append_assoc, text?_append hn, text?_append hp,
    date?_append, units?_append, Option.bind_eq_bind, Option.bind_some]
  rfl

theorem allocation?_append {a : Allocation} (h : ∀ t ∈ a.reference, t.utf8ByteSize < UInt64.size)
    (rest : Bytes) : allocation? (writeAllocation a ++ rest) = some (a, rest) := by
  simp only [allocation?, writeAllocation, List.append_assoc, ulid?_append,
    optionalText?_append h, units?_append, time?_append, Option.bind_eq_bind, Option.bind_some]
  rfl

theorem version?_append (v : Version) (rest : Bytes) :
    version? (writeVersion v ++ rest) = some (v, rest) := by
  simp [version?, writeVersion, ulid?_append]

theorem size_lt_of_terms {t : Terms} {n : Nat} (h : (writeTerms t).length < n) :
    t.name.utf8ByteSize < n ∧ t.productType.utf8ByteSize < n := by
  simp only [writeTerms, List.length_append, length_writeText] at h
  omega

theorem size_lt_of_allocation {a : Allocation} {n : Nat} (h : (writeAllocation a).length < n) :
    ∀ t ∈ a.reference, t.utf8ByteSize < n := by
  intro t ht
  rw [Option.mem_def] at ht
  simp only [writeAllocation, List.length_append, ht, writeOptionalText, List.length_cons,
    length_writeText] at h
  omega

/-- A record whose payload is not too long is read back, whatever bytes follow. -/
theorem record?_payload_append {r : Record} (h : (payload r).length < UInt64.size) (rest : Bytes) :
    record? (payload r ++ rest) = some r := by
  cases r with
  | created quota terms version =>
    simp only [payload, List.length_append] at h
    obtain ⟨hn, hp⟩ := size_lt_of_terms (t := terms) (n := UInt64.size) (by omega)
    simp only [record?, payload, kindOf, List.append_assoc, word?_append 4 0 _ (by decide),
      ulid?_append, terms?_append hn hp, version?_append, Option.bind_eq_bind, Option.bind_some]
    rfl
  | revised quota terms version =>
    simp only [payload, List.length_append] at h
    obtain ⟨hn, hp⟩ := size_lt_of_terms (t := terms) (n := UInt64.size) (by omega)
    simp only [record?, payload, kindOf, List.append_assoc, word?_append 4 1 _ (by decide),
      ulid?_append, terms?_append hn hp, version?_append, Option.bind_eq_bind, Option.bind_some]
    rfl
  | allocated allocation version =>
    simp only [payload, List.length_append] at h
    have ha := size_lt_of_allocation (a := allocation) (n := UInt64.size) (by omega)
    simp only [record?, payload, kindOf, List.append_assoc, word?_append 4 2 _ (by decide),
      allocation?_append ha, version?_append, Option.bind_eq_bind, Option.bind_some]
    rfl

end Allotment.Log
