/-
**Frames: records in a log.**

A log is a sequence of frames.  A frame is the length of a payload in four bytes, the payload, and
its checksum in four bytes.  A log may end in a frame that was only written in part, or be damaged
anywhere; a scan reads whole, undamaged frames from the front and stops at the first that is not.

The checksum is the cyclic redundancy check of 32 bits with the reflected polynomial `0xEDB88320`,
which starts from all ones and is inverted at the end.  A register holds the state; each bit of the
input moves it by one step.

Main definitions:

* `Allotment.Log.Checksum.step`, `Allotment.Log.Checksum.feed` — the register after one bit and
  after one byte;
* `Allotment.Log.checksum` — the check of a byte sequence;
* `Allotment.Log.frame`, `Allotment.Log.frames` — the stored form of a record and of a list of
  records;
* `Allotment.Log.frame?` — takes one frame from the front of a log;
* `Allotment.Log.scan` — the readable records of a log, and how many bytes they take;
* `Allotment.Log.Scan.cut?` — where a log has to be cut to leave only its readable frames.

Main results:

* `Allotment.Log.scan_eq` — a scan takes one frame and goes on with the rest;
* `Allotment.Log.scan_frames` — a log of readable records is read back as a whole.
-/

import Allotment.Log.Payload

set_option relaxedAutoImplicit false
set_option autoImplicit false

namespace Allotment.Log

/-! ### The checksum of a record -/

namespace Checksum

/-- The reflected polynomial. -/
def polynomial : UInt32 := 0xEDB88320

/-- The register after one step. -/
def step (register : UInt32) : UInt32 :=
  if register &&& 1 = 1 then (register >>> 1) ^^^ polynomial else register >>> 1

/-- The register after `n` steps. -/
def steps : Nat → UInt32 → UInt32
  | 0, register => register
  | n + 1, register => steps n (step register)

/-- The register after one more byte. -/
def feed (register : UInt32) (b : UInt8) : UInt32 := steps 8 (register ^^^ b.toUInt32)

end Checksum

/-- The checksum of a byte sequence. -/
def checksum (bs : Bytes) : UInt32 := bs.foldl Checksum.feed 0xFFFFFFFF ^^^ 0xFFFFFFFF

/-! ### Frames -/

/-- The longest payload that a reader takes; a larger length is taken for damage. -/
def payloadLimit : Nat := 1048576

/-- The stored form of a record: length, payload, checksum. -/
def frame (r : Record) : Bytes :=
  let p := payload r
  toBytes 4 p.length ++ p ++ toBytes 4 (checksum p).toNat

/-- The stored form of a list of records. -/
def frames (rs : List Record) : Bytes := rs.flatMap frame

/-- Takes one frame from the front of a log: the record it holds, the number of bytes it takes, and
the bytes behind it.  There is none if the bytes end inside it, if its length is above the limit,
if its checksum is another, or if the payload stores no record. -/
def frame? (bs : Bytes) : Option (Record × Nat × Bytes) := do
  let (size, bs) ← word? 4 bs
  if size > payloadLimit then none
  let (p, bs) ← chunk? size bs
  let (check, bs) ← word? 4 bs
  if check ≠ (checksum p).toNat then none
  let r ← record? p
  return (r, 4 + size + 4, bs)

/-- What a scan finds. -/
structure Scan where
  /-- The records of the readable frames, in the order of the log. -/
  records : List Record
  /-- The number of bytes that these frames take. -/
  good : Nat
deriving DecidableEq

/-- Scans at most `n` frames. -/
def scanUpTo : Nat → Bytes → Scan
  | 0, _ => ⟨[], 0⟩
  | n + 1, bs =>
    match frame? bs with
    | none => ⟨[], 0⟩
    | some (r, size, rest) =>
      let s := scanUpTo n rest
      ⟨r :: s.records, size + s.good⟩

/-- Scans a log.  A frame takes at least one byte, so there are no more frames than bytes. -/
def scan (bs : Bytes) : Scan := scanUpTo bs.length bs

/-- The records that a log replays to. -/
def replay (bs : Bytes) : List Record := (scan bs).records

theorem length_of_word? {width n : Nat} {bs rest : Bytes} (h : word? width bs = some (n, rest)) :
    bs.length = width + rest.length := by
  simp only [word?, Option.map_eq_some_iff, Prod.exists, Prod.mk.injEq] at h
  obtain ⟨front, _, hc, _, rfl⟩ := h
  obtain ⟨hn, rfl⟩ := eq_append_of_chunk? hc
  simp [hn]

/-- The bytes of a frame and the bytes behind it are all the bytes there are. -/
theorem length_of_frame? {bs rest : Bytes} {r : Record} {size : Nat}
    (h : frame? bs = some (r, size, rest)) : bs.length = size + rest.length ∧ 8 ≤ size := by
  simp only [frame?, Option.bind_eq_bind, Option.bind_eq_some_iff, Prod.exists] at h
  obtain ⟨n, bs₁, h₁, h⟩ := h
  split at h
  · simp at h
  simp only [Option.bind_eq_some_iff, Prod.exists] at h
  obtain ⟨p, bs₂, h₂, check, bs₃, h₃, h⟩ := h
  split at h
  · simp at h
  simp only [Option.bind_eq_some_iff, Option.pure_def, Option.some.injEq, Prod.mk.injEq] at h
  obtain ⟨_, _, _, rfl, rfl⟩ := h
  obtain ⟨hp, rfl⟩ := eq_append_of_chunk? h₂
  have e₁ := length_of_word? h₁
  have e₃ := length_of_word? h₃
  simp only [List.length_append] at e₁
  omega

/-- More steps than there are bytes change nothing. -/
theorem scanUpTo_of_length_le {n m : Nat} {bs : Bytes} (hn : bs.length ≤ n) (hm : bs.length ≤ m) :
    scanUpTo n bs = scanUpTo m bs := by
  have stop : ∀ bs : Bytes, bs.length = 0 → frame? bs = none := by
    intro bs hb
    rw [List.length_eq_zero_iff.1 hb]
    rfl
  induction n generalizing m bs with
  | zero =>
    cases m with
    | zero => rfl
    | succ m => simp [scanUpTo, stop bs (by omega)]
  | succ n ih =>
    cases m with
    | zero => simp [scanUpTo, stop bs (by omega)]
    | succ m =>
      cases hf : frame? bs with
      | none => simp [scanUpTo, hf]
      | some f =>
        obtain ⟨r, size, rest⟩ := f
        have := length_of_frame? hf
        simp only [scanUpTo, hf]
        rw [ih (m := m) (by omega) (by omega)]

theorem scan_eq (bs : Bytes) :
    scan bs =
      match frame? bs with
      | none => ⟨[], 0⟩
      | some (r, size, rest) => ⟨r :: (scan rest).records, size + (scan rest).good⟩ := by
  cases bs with
  | nil => rfl
  | cons b bs =>
    cases hf : frame? (b :: bs) with
    | none => simp [scan, scanUpTo, hf]
    | some f =>
      obtain ⟨r, size, rest⟩ := f
      have := length_of_frame? hf
      simp only [List.length_cons] at this
      simp only [scan, List.length_cons, scanUpTo, hf]
      rw [scanUpTo_of_length_le (n := bs.length) (m := rest.length) (by omega) (by omega)]

/-- Where a log of this size has to be cut, if there is anything behind the readable frames. -/
def Scan.cut? (s : Scan) (size : Nat) : Option Nat := if s.good < size then some s.good else none

/-! ### Reading what was written -/

/-- Whether a reader takes the payload of a record. -/
def Readable (r : Record) : Prop := (payload r).length ≤ payloadLimit

instance (r : Record) : Decidable (Readable r) := inferInstanceAs (Decidable (_ ≤ _))

/-- The length of a record that can be read can be stored. -/
theorem Readable.length_payload_lt {r : Record} (h : Readable r) :
    (payload r).length < UInt32.size :=
  Nat.lt_of_le_of_lt h (by decide)

theorem length_frame (r : Record) : (frame r).length = (payload r).length + 8 := by
  simp only [frame, List.length_append, length_toBytes]
  omega

theorem frame?_append {r : Record} (h : Readable r) (rest : Bytes) :
    frame? (frame r ++ rest) = some (r, (frame r).length, rest) := by
  have hs := h.length_payload_lt
  have hr := record?_payload_append (r := r) (Nat.lt_of_le_of_lt h (by decide)) []
  rw [List.append_nil] at hr
  have hl : ¬ (payload r).length > payloadLimit := Nat.not_lt.2 h
  rw [length_frame]
  simp only [frame?, frame, List.append_assoc, word?_append 4 _ _ hs, Option.bind_eq_bind,
    Option.bind_some, if_neg hl, chunk?_append, word?_append 4 _ _ (checksum (payload r)).toNat_lt,
    ne_eq, not_true_eq_false, if_false, hr]
  simp only [Option.pure_def, Option.some.injEq, Prod.mk.injEq, and_true, true_and]
  omega

/-- A scan reads the readable records in front of any bytes, and goes on with these. -/
theorem scan_frames_append {rs : List Record} (h : ∀ r ∈ rs, Readable r) (rest : Bytes) :
    scan (frames rs ++ rest) =
      ⟨rs ++ (scan rest).records, (frames rs).length + (scan rest).good⟩ := by
  induction rs with
  | nil => simp [frames]
  | cons r rs ih =>
    have split : frames (r :: rs) = frame r ++ frames rs := List.flatMap_cons
    rw [split, List.append_assoc, scan_eq, frame?_append (h r (by simp))]
    simp only [ih fun s hs => h s (by simp [hs]), List.cons_append, List.length_append,
      Nat.add_assoc]

/-- A log of readable records is read back as a whole. -/
theorem scan_frames {rs : List Record} (h : ∀ r ∈ rs, Readable r) :
    scan (frames rs) = ⟨rs, (frames rs).length⟩ := by
  have := scan_frames_append h []
  rw [List.append_nil] at this
  rw [this]
  simp [scan, scanUpTo]

end Allotment.Log
