/-
**How large records are.**

The size of a payload is that of its texts and a constant.  Records whose texts keep the limits on
requests are therefore far below the largest payload that a reader takes.

A record that was read from a log need not keep these limits, and it is not always as long as it was
when it is written again: identifiers are read from texts of 26 characters, which take at least the
26 bytes of their written form, but a day can be read from a text that is shorter than its written
form.  So an allocation that was read never gets longer, while a quota may, though never by much.

Main results:

* `Allotment.Log.readable_created`, `Allotment.Log.readable_revised`,
  `Allotment.Log.readable_allocated` — **records within the limits are readable**;
* `Allotment.Log.length_payload_of_record?` — **an allocation that was read does not get longer
  when it is written again, whatever version it is written with**;
* `Allotment.Log.length_texts_of_record?` — the texts of terms that were read are not longer than
  the payload they were read from;
* `Allotment.Log.scan_frames_eq_takeWhile` — **of written records those in front of the first
  unreadable one are read back**.
-/

import Mathlib.Data.String.Basic
import Allotment.Proofs.Log.Torn
import Allotment.Proofs.Tables.Sound

set_option relaxedAutoImplicit false
set_option autoImplicit false

namespace Allotment

theorem Text.length_le_utf8ByteSize (s : String) : s.length ≤ s.utf8ByteSize := by
  rw [← String.length_toList, ← String.utf8Len_toList]
  induction s.toList with
  | nil => exact Nat.le_refl 0
  | cons c cs ih =>
      have := c.utf8Size_pos
      rw [List.length_cons, String.utf8Len_cons]
      omega

theorem Text.utf8ByteSize_replicate (n : Nat) {c : Char} (h : c.utf8Size = 1) :
    (String.ofList (List.replicate n c)).utf8ByteSize = n := by
  rw [Text.utf8ByteSize_ofList_of_ascii, List.length_replicate]
  intro d hd
  rw [List.eq_of_mem_replicate hd, h]

namespace Log

/-! ### Sizes of what is written -/

theorem length_writeTerms (t : Terms) :
    (writeTerms t).length =
      t.name.utf8ByteSize + t.productType.utf8ByteSize + t.travelDate.toText.utf8ByteSize + 32 := by
  simp only [writeTerms, writeDate, writeUnits, List.length_append, length_writeText,
    length_toBytes]
  omega

theorem length_writeAllocation (a : Allocation) :
    (writeAllocation a).length = (writeOptionalText a.reference).length + 80 := by
  simp only [writeAllocation, writeUnits, writeTime, List.length_append, length_writeUlid,
    length_toBytes]
  omega

theorem length_payload_created (quota : Ulid) (terms : Terms) (version : Version) :
    (payload (.created quota terms version)).length = (writeTerms terms).length + 72 := by
  simp only [payload, writeVersion, List.length_append, length_toBytes, length_writeUlid]
  omega

theorem length_payload_revised (quota : Ulid) (terms : Terms) (version : Version) :
    (payload (.revised quota terms version)).length = (writeTerms terms).length + 72 := by
  simp only [payload, writeVersion, List.length_append, length_toBytes, length_writeUlid]
  omega

theorem length_payload_allocated (a : Allocation) (version : Version) :
    (payload (.allocated a version)).length = (writeAllocation a).length + 38 := by
  simp only [payload, writeVersion, List.length_append, length_toBytes, length_writeUlid]
  omega

/-! ### Records within the limits -/

theorem length_writeTerms_le {t : Terms} (h : t.brokenLimit? = none) :
    (writeTerms t).length ≤ 400 := by
  obtain ⟨hn, hp, _, _⟩ := Terms.brokenLimit?_eq_none_iff.1 h
  have hd := t.travelDate.utf8ByteSize_toText_le
  rw [length_writeTerms]
  unfold Limit.nameBytes at hn
  unfold Limit.productTypeBytes at hp
  omega

theorem readable_created {terms : Terms} (h : terms.brokenLimit? = none) (quota : Ulid)
    (version : Version) : Readable (.created quota terms version) := by
  have := length_writeTerms_le h
  rw [Readable, length_payload_created, payloadLimit]
  omega

theorem readable_revised {terms : Terms} (h : terms.brokenLimit? = none) (quota : Ulid)
    (version : Version) : Readable (.revised quota terms version) := by
  have := length_writeTerms_le h
  rw [Readable, length_payload_revised, payloadLimit]
  omega

theorem readable_allocated {a : Allocation} (h : brokenReference? a.reference = none)
    (version : Version) : Readable (.allocated a version) := by
  have hr : (writeOptionalText a.reference).length ≤ 137 := by
    cases href : a.reference with
    | none => exact (by decide : 1 ≤ 137)
    | some r =>
        rw [href] at h
        simp only [brokenReference?, Option.any_some, gt_iff_lt, decide_eq_true_eq,
          ite_eq_right_iff, reduceCtorEq, imp_false, Nat.not_lt] at h
        rw [writeOptionalText, List.length_cons, length_writeText]
        unfold Limit.referenceBytes at h
        omega
  rw [Readable, length_payload_allocated, length_writeAllocation, payloadLimit]
  omega

/-! ### Sizes of what is read -/

theorem length_of_text? {bs rest : Bytes} {s : String} (h : text? bs = some (s, rest)) :
    bs.length = 8 + s.utf8ByteSize + rest.length := by
  simp only [text?, Option.bind_eq_bind, Option.bind_eq_some_iff, Prod.exists, Option.pure_def,
    Option.some.injEq, Prod.mk.injEq] at h
  obtain ⟨size, bs₁, h₁, front, bs₂, h₂, s', hs, rfl, rfl⟩ := h
  have hl := length_of_word? h₁
  obtain ⟨rfl, rfl⟩ := eq_append_of_chunk? h₂
  have hsize : front.length = s'.utf8ByteSize := by
    unfold ofUtf8? String.fromUTF8? at hs
    split at hs
    · cases hs
      rfl
    · cases hs
  rw [List.length_append] at hl
  omega

theorem length_of_ulid? {bs rest : Bytes} {u : Ulid} (h : ulid? bs = some (u, rest)) :
    34 + rest.length ≤ bs.length := by
  simp only [ulid?, Option.bind_eq_bind, Option.bind_eq_some_iff, Prod.exists, Option.pure_def,
    Option.some.injEq, Prod.mk.injEq] at h
  obtain ⟨s, bs₁, hs, u', hu, _, rfl⟩ := h
  have hl := length_of_text? hs
  have hle := Text.length_le_utf8ByteSize s
  unfold Ulid.ofText? at hu
  split at hu
  · next h26 =>
    rw [h26, Ulid.textLength] at hle
    omega
  · cases hu

theorem length_of_units? {bs rest : Bytes} {n : UInt32} (h : units? bs = some (n, rest)) :
    bs.length = 4 + rest.length := by
  simp only [units?, Option.map_eq_some_iff, Prod.exists, Prod.mk.injEq] at h
  obtain ⟨_, bs₁, h₁, _, rfl⟩ := h
  exact length_of_word? h₁

theorem length_of_time? {bs rest : Bytes} {t : Int64} (h : time? bs = some (t, rest)) :
    bs.length = 8 + rest.length := by
  simp only [time?, Option.map_eq_some_iff, Prod.exists, Prod.mk.injEq] at h
  obtain ⟨_, bs₁, h₁, _, rfl⟩ := h
  exact length_of_word? h₁

theorem length_of_optionalText? {bs rest : Bytes} {s : Option String}
    (h : optionalText? bs = some (s, rest)) :
    bs.length = (writeOptionalText s).length + rest.length := by
  cases bs with
  | nil => cases h
  | cons b bs =>
      by_cases h₀ : b = 0
      · rw [optionalText?, if_pos h₀] at h
        cases h
        rw [List.length_cons, writeOptionalText, List.length_singleton, Nat.add_comm]
      · by_cases h₁ : b = 1
        · rw [optionalText?, if_neg h₀, if_pos h₁] at h
          simp only [Option.map_eq_some_iff, Prod.exists, Prod.mk.injEq] at h
          obtain ⟨t, bs₁, ht, rfl, rfl⟩ := h
          rw [writeOptionalText, List.length_cons, List.length_cons, length_writeText,
            length_of_text? ht]
          omega
        · rw [optionalText?, if_neg h₀, if_neg h₁] at h
          cases h

theorem length_of_version? {bs rest : Bytes} {v : Version} (h : version? bs = some (v, rest)) :
    34 + rest.length ≤ bs.length := by
  simp only [version?, Option.map_eq_some_iff, Prod.exists, Prod.mk.injEq] at h
  obtain ⟨u, bs₁, hu, _, rfl⟩ := h
  exact length_of_ulid? hu

theorem length_of_allocation? {bs rest : Bytes} {a : Allocation}
    (h : allocation? bs = some (a, rest)) :
    (writeAllocation a).length + rest.length ≤ bs.length := by
  simp only [allocation?, Option.bind_eq_bind, Option.bind_eq_some_iff, Prod.exists,
    Option.pure_def, Option.some.injEq, Prod.mk.injEq] at h
  obtain ⟨_, bs₁, h₁, _, bs₂, h₂, _, bs₃, h₃, _, bs₄, h₄, _, bs₅, h₅, rfl, rfl⟩ := h
  have e₁ := length_of_ulid? h₁
  have e₂ := length_of_ulid? h₂
  have e₃ := length_of_optionalText? h₃
  have e₄ := length_of_units? h₄
  have e₅ := length_of_time? h₅
  rw [length_writeAllocation]
  simp only
  omega

theorem length_of_terms? {bs rest : Bytes} {t : Terms} (h : terms? bs = some (t, rest)) :
    t.name.utf8ByteSize + t.productType.utf8ByteSize ≤ bs.length := by
  simp only [terms?, Option.bind_eq_bind, Option.bind_eq_some_iff, Prod.exists, Option.pure_def,
    Option.some.injEq, Prod.mk.injEq] at h
  obtain ⟨name, bs₁, h₁, productType, bs₂, h₂, _, _, _, _, _, _, _, _, _, rfl, rfl⟩ := h
  have e₁ := length_of_text? h₁
  have e₂ := length_of_text? h₂
  simp only
  omega

/-- **An allocation that was read does not get longer when it is written again.** -/
theorem length_payload_of_record? {p : Bytes} {a : Allocation} {version : Version}
    (h : record? p = some (.allocated a version)) (version' : Version) :
    (payload (.allocated a version')).length ≤ p.length := by
  simp only [record?, Option.bind_eq_bind, Option.bind_eq_some_iff, Prod.exists] at h
  obtain ⟨kind, bs, hk, h⟩ := h
  have e := length_of_word? hk
  split at h
  · simp [Option.bind_eq_some_iff] at h
  · simp [Option.bind_eq_some_iff] at h
  · simp only [Option.bind_eq_some_iff, Prod.exists, Option.pure_def, Option.some.injEq,
      Record.allocated.injEq] at h
    obtain ⟨a', bs₁, ha, v, bs₂, hv, rfl, rfl⟩ := h
    have e₁ := length_of_allocation? ha
    have e₂ := length_of_version? hv
    rw [length_payload_allocated]
    omega
  · cases h

/-- The texts of the terms of a record; an allocation has none. -/
def textsSize : Record → Nat
  | .created _ terms _ | .revised _ terms _ =>
    terms.name.utf8ByteSize + terms.productType.utf8ByteSize
  | .allocated _ _ => 0

/-- The texts of terms that were read are not longer than the payload they were read from. -/
theorem length_texts_of_record? {p : Bytes} {r : Record} (h : record? p = some r) :
    textsSize r ≤ p.length := by
  simp only [record?, Option.bind_eq_bind, Option.bind_eq_some_iff, Prod.exists] at h
  obtain ⟨kind, bs, hk, h⟩ := h
  have e := length_of_word? hk
  split at h
  · simp only [Option.bind_eq_some_iff, Prod.exists, Option.pure_def, Option.some.injEq] at h
    obtain ⟨u, bs₁, hu, t, bs₂, ht, _, _, _, rfl⟩ := h
    have e₁ := length_of_ulid? hu
    have e₂ := length_of_terms? ht
    rw [textsSize]
    omega
  · simp only [Option.bind_eq_some_iff, Prod.exists, Option.pure_def, Option.some.injEq] at h
    obtain ⟨u, bs₁, hu, t, bs₂, ht, _, _, _, rfl⟩ := h
    have e₁ := length_of_ulid? hu
    have e₂ := length_of_terms? ht
    rw [textsSize]
    omega
  · simp only [Option.bind_eq_some_iff, Prod.exists, Option.pure_def, Option.some.injEq] at h
    obtain ⟨_, _, _, _, _, _, rfl⟩ := h
    exact Nat.zero_le _
  · cases h

/-! ### What a scan finds -/

/-- Whatever a scan finds was read from a payload within the limit. -/
theorem exists_payload_of_mem_scan {bs : Bytes} {r : Record} (h : r ∈ (scan bs).records) :
    ∃ p, p.length ≤ payloadLimit ∧ record? p = some r := by
  induction hn : bs.length using Nat.strongRecOn generalizing bs with
  | _ n ih =>
      rw [scan_eq] at h
      split at h
      · cases h
      next r' size rest hf =>
        rcases List.mem_cons.1 h with rfl | h
        · obtain ⟨_, p, _, _, _, hle, hp, _⟩ := frame?_inv hf
          exact ⟨p, hle, hp⟩
        · have hlen := length_of_frame? hf
          exact ih rest.length (by omega) h rfl

/-- The frame of an unreadable record is not read, as long as its length can be stored. -/
theorem frame?_append_of_not_readable {r : Record} (h : ¬ Readable r)
    (hlen : (payload r).length < UInt32.size) (rest : Bytes) : frame? (frame r ++ rest) = none := by
  have hl : (payload r).length > payloadLimit := Nat.not_le.1 h
  simp only [frame?, frame, List.append_assoc, word?_append 4 _ _ hlen, Option.bind_eq_bind,
    Option.bind_some, if_pos hl]
  rfl

/-- **Of written records those in front of the first unreadable one are read back.** -/
theorem scan_frames_eq_takeWhile {rs : List Record}
    (h : ∀ r ∈ rs, (payload r).length < UInt32.size) :
    (scan (frames rs)).records = rs.takeWhile fun r => Readable r := by
  induction rs with
  | nil => rfl
  | cons r rs ih =>
      have hrest := ih fun s hs => h s (by simp [hs])
      rw [frames_cons, scan_eq]
      by_cases hr : Readable r
      · rw [frame?_append hr, List.takeWhile_cons, if_pos (decide_eq_true hr), ← hrest]
      · rw [frame?_append_of_not_readable hr (h r (by simp)), List.takeWhile_cons,
          if_neg (by simp [hr])]

end Log

end Allotment
