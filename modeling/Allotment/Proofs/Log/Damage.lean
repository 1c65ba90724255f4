/-
**Damage to one byte of a frame is noticed.**

A reader trusts the length of a frame, takes as many bytes for the payload and compares their
checksum with the one stored behind them.  If one byte of the payload is another, the checksum is
another; if one byte of the stored checksum is another, it stores another number.  Either way the
two differ, and the reader stops there.  A length that is wrong can make the reader take anything
for a frame, so less can be said then; but the frames in front are read from their own bytes and do
not change, whatever stands behind them.

Main definitions:

* `Allotment.Log.startOf` — the place at which the frame of a record starts.

Main results:

* `Allotment.Log.ofBytes_injective` — bytes of one width store different numbers;
* `Allotment.Log.frame?_modify` — **a frame with one wrong byte behind its length is not read**;
* `Allotment.Log.replay_damaged` — **one wrong byte behind the length of a frame ends the log in
  front of the frame, and no change from there on touches the records in front**.  -/

import Allotment.Proofs.Log.Course
import Allotment.Proofs.Log.Checksum

set_option relaxedAutoImplicit false
set_option autoImplicit false

namespace Allotment.Log

/-! ### Numbers -/

/-- Bytes of one width store different numbers. -/
theorem ofBytes_injective {bs bs' : Bytes} (hlen : bs.length = bs'.length)
    (h : ofBytes bs = ofBytes bs') : bs = bs' := by
  induction bs generalizing bs' with
  | nil => exact (List.length_eq_zero_iff.1 hlen.symm).symm
  | cons b bs ih =>
      cases bs' with
      | nil => cases hlen
      | cons b' bs' =>
          have hb := b.toNat_lt
          have hb' := b'.toNat_lt
          simp only [ofBytes] at h
          have hfirst : b = b' := UInt8.toNat_inj.1 (by omega)
          have hrest := ih (Nat.succ.inj hlen) (by omega)
          rw [hfirst, hrest]

/-! ### One byte -/

theorem xor_ne_self {x : UInt8} (hx : x ≠ 0) (b : UInt8) : b ^^^ x ≠ b := by
  intro h
  have hzero : b ^^^ x = b ^^^ 0 := h.trans (UInt8.xor_zero).symm
  exact hx ((UInt8.xor_right_inj b).1 hzero)

/-- A change behind the front is a change of the rest. -/
theorem modify_append_right (front rest : Bytes) (k : Nat) (f : UInt8 → UInt8) :
    (front ++ rest).modify (front.length + k) f = front ++ rest.modify k f := by
  induction front with
  | nil => simp
  | cons b front ih =>
      rw [List.length_cons, Nat.add_right_comm, List.cons_append, List.modify_succ_cons, ih,
        List.cons_append]

/-- A change within the front is a change of the front. -/
theorem modify_append_left (rest : Bytes) (f : UInt8 → UInt8) {front : Bytes} {k : Nat}
    (hk : k < front.length) : (front ++ rest).modify k f = front.modify k f ++ rest := by
  obtain ⟨before, b, behind, rfl, rfl, h⟩ := List.exists_of_modify f hk
  have hat := modify_append_right before (b :: (behind ++ rest)) 0 f
  rw [Nat.add_zero, List.modify_zero_cons] at hat
  rw [h, List.append_assoc, List.cons_append, hat, List.append_assoc, List.cons_append]

/-- Bytes with one other byte have another checksum. -/
theorem checksum_modify_ne {p : Bytes} {k : Nat} {x : UInt8} (hk : k < p.length) (hx : x ≠ 0) :
    checksum (p.modify k (· ^^^ x)) ≠ checksum p := by
  obtain ⟨before, b, behind, rfl, rfl, h⟩ := List.exists_of_modify (· ^^^ x) hk
  rw [h]
  exact checksum_ne_of_ne (xor_ne_self hx b) before behind

/-- Bytes with one other byte store another number. -/
theorem ofBytes_modify_ne {bs : Bytes} {k : Nat} {x : UInt8} (hk : k < bs.length) (hx : x ≠ 0) :
    ofBytes (bs.modify k (· ^^^ x)) ≠ ofBytes bs := by
  intro heq
  have hsame := ofBytes_injective (List.length_modify ..) heq
  obtain ⟨before, b, behind, rfl, rfl, h⟩ := List.exists_of_modify (· ^^^ x) hk
  rw [h] at hsame
  have htail := List.append_cancel_left hsame
  exact xor_ne_self hx b (List.cons.inj htail).1

/-! ### One frame -/

/-- A frame whose checksum is not that of its payload is not read. -/
theorem frame?_of_checksum_ne {p check : Bytes} (hp : p.length < UInt32.size)
    (hcheck : check.length = 4) (h : ofBytes check ≠ (checksum p).toNat) (rest : Bytes) :
    frame? (toBytes 4 p.length ++ (p ++ (check ++ rest))) = none := by
  have hword : word? 4 (check ++ rest) = some (ofBytes check, rest) := by
    have hchunk := chunk?_append check rest
    rw [hcheck] at hchunk
    rw [word?, hchunk]
    rfl
  simp only [frame?, word?_append 4 _ _ hp, chunk?_append, hword, Option.bind_eq_bind,
    Option.bind_some, if_pos h, Option.bind_none, ite_self]

/-- **A frame with one wrong byte behind its length is not read.** -/
theorem frame?_modify {r : Record} (h : Readable r) {k : Nat} {x : UInt8}
    (hk : k < (payload r).length + 4) (hx : x ≠ 0) (rest : Bytes) :
    frame? ((frame r ++ rest).modify (4 + k) (· ^^^ x)) = none := by
  have hlength := h.length_payload_lt
  have hsum : ofBytes (toBytes 4 (checksum (payload r)).toNat) = (checksum (payload r)).toNat :=
    ofBytes_toBytes 4 _ (checksum (payload r)).toNat_lt
  have hsplit := modify_append_right (toBytes 4 (payload r).length)
    (payload r ++ (toBytes 4 (checksum (payload r)).toNat ++ rest)) k (· ^^^ x)
  rw [length_toBytes] at hsplit
  simp only [frame, List.append_assoc]
  rw [hsplit]
  by_cases hpart : k < (payload r).length
  · -- the payload has another checksum than the one that is stored
    have hne := checksum_modify_ne hpart hx
    have hlen : ((payload r).modify k (· ^^^ x)).length = (payload r).length :=
      List.length_modify ..
    rw [modify_append_left _ _ hpart, ← hlen]
    refine frame?_of_checksum_ne ?_ (length_toBytes _ _) ?_ rest
    · rwa [hlen]
    · rw [hsum]
      exact fun heq => hne (UInt32.toNat_inj.1 heq).symm
  · -- the stored checksum is another
    obtain ⟨m, rfl⟩ := Nat.exists_eq_add_of_le (Nat.le_of_not_lt hpart)
    have hm : m < (toBytes 4 (checksum (payload r)).toNat).length := by
      rw [length_toBytes]
      omega
    rw [modify_append_right, modify_append_left _ _ hm]
    refine frame?_of_checksum_ne hlength ?_ ?_ rest
    · rw [List.length_modify, length_toBytes]
    · intro heq
      exact ofBytes_modify_ne hm hx (heq.trans hsum.symm)

/-! ### A log -/

/-- The place at which the frame of a record starts, by the number of records in front of it. -/
def startOf (rs : List Record) (i : Nat) : Nat := (frames (rs.take i)).length

/-- The frames of a log before, at and behind a record. -/
theorem frames_split {rs : List Record} {i : Nat} {r : Record} (hi : rs[i]? = some r) :
    frames rs = frames (rs.take i) ++ (frame r ++ frames (rs.drop (i + 1))) := by
  obtain ⟨hlt, rfl⟩ := List.getElem?_eq_some_iff.1 hi
  rw [← frames_cons, ← frames_append, ← List.drop_eq_getElem_cons hlt, List.take_append_drop]

/-- Bytes behind the frames in front of a record do not touch what is read from these. -/
theorem scan_startOf_append {rs : List Record} (h : ∀ r ∈ rs, Readable r) (i : Nat)
    (tail : Bytes) :
    scan (frames (rs.take i) ++ tail) =
      ⟨rs.take i ++ (scan tail).records, startOf rs i + (scan tail).good⟩ :=
  scan_frames_append (fun r hr => h r (List.mem_of_mem_take hr)) tail

/-- **One wrong byte behind the length of a frame ends the log there.** -/
theorem scan_damaged {rs : List Record} (h : ∀ r ∈ rs, Readable r) {i : Nat} {r : Record}
    (hi : rs[i]? = some r) {k : Nat} {x : UInt8} (hk : k < (payload r).length + 4) (hx : x ≠ 0) :
    scan ((frames rs).modify (startOf rs i + (4 + k)) (· ^^^ x)) = ⟨rs.take i, startOf rs i⟩ := by
  have hr : Readable r := h r (List.mem_of_getElem? hi)
  rw [frames_split hi, startOf, modify_append_right, scan_startOf_append h, scan_eq,
    frame?_modify hr hk hx, List.append_nil]
  rfl

/-- **Damage is noticed.**  From a log of readable records in which one byte of the payload or of
the checksum of a record has been changed, whichever record and byte it is and whatever the change,
a reader gets exactly the records in front of it.  Whatever is done to the bytes from the start of
the record on, its length included, these are still the first records that a reader gets. -/
theorem replay_damaged {rs : List Record} (h : ∀ r ∈ rs, Readable r) {i : Nat} {r : Record}
    (hi : rs[i]? = some r) :
    (∀ k x, k < (payload r).length + 4 → x ≠ 0 →
      replay ((frames rs).modify (startOf rs i + (4 + k)) (· ^^^ x)) = rs.take i) ∧
    ∀ tail, (replay ((frames rs).take (startOf rs i) ++ tail)).take i = rs.take i := by
  obtain ⟨hlt, _⟩ := List.getElem?_eq_some_iff.1 hi
  refine ⟨?_, ?_⟩
  · intro k x hk hx
    rw [replay, scan_damaged h hi hk hx]
  · intro tail
    have hfront : (frames rs).take (startOf rs i) = frames (rs.take i) := by
      rw [frames_split hi, startOf, List.take_left]
    have hcount : (rs.take i).length = i := List.length_take_of_le (Nat.le_of_lt hlt)
    rw [hfront, replay, scan_startOf_append h, List.take_left' hcount]

/-- In a log of three records a byte of the payload of the second one is inverted, and then its
length is replaced by one that no payload has. -/
theorem replay_damaged_second :
    let rs := [Course.creation ⟨1⟩, Course.creation ⟨2⟩, Course.creation ⟨3⟩]
    (∀ r ∈ rs, Readable r) ∧ rs[1]? = some (Course.creation ⟨2⟩) ∧
      7 < (payload (Course.creation ⟨2⟩)).length + 4 ∧ (0xFF : UInt8) ≠ 0 ∧
      replay ((frames rs).modify (startOf rs 1 + (4 + 7)) (· ^^^ 0xFF)) = [Course.creation ⟨1⟩] ∧
      (replay ((frames rs).take (startOf rs 1) ++ [255, 255, 255, 255, 0, 0])).take 1 =
        [Course.creation ⟨1⟩] := by
  intro rs
  have hread : ∀ r ∈ rs, Readable r := by decide +kernel
  have hi : rs[1]? = some (Course.creation ⟨2⟩) := rfl
  have hk : 7 < (payload (Course.creation ⟨2⟩)).length + 4 := by decide +kernel
  obtain ⟨hbyte, htail⟩ := replay_damaged hread hi
  exact ⟨hread, hi, hk, by decide, hbyte 7 0xFF hk (by decide), htail _⟩

end Allotment.Log
