/-
**Compacting a log of unknown origin.**

A log need not have been written by this program, or not in one piece: identifiers may come twice,
quotas may be created again, grants may be about quotas that do not exist, texts may be of any
length.  The audit looks at the sums of the quotas only.  This module asks what a compaction does to
such a log if the audit finds nothing.

Most oddities are harmless, because they are gone once the log has been replayed.  Two are not.  If
an identifier was granted on two quotas, then the first of them lists an allocation that names the
other; the sums can still agree, but the snapshot files the allocation under the quota that it
names.  And if the terms of a quota do not fit into a record when they are written again, a reader
takes the record for damage and drops all that follows.  Where neither is the case, nothing is lost.

Main definitions:

* `Allotment.Tables.Same` — tables that show the same quotas and the same ledgers;
* `Allotment.Tables.Fits` — tables all of whose terms fit into a record;
* `Allotment.Tables.Storable` — tables whose snapshot can be written.

Main results:

* `Allotment.Tables.mem_audit_iff`, `Allotment.Tables.balanced_of_audit` — what an audit finds, and
  what a clean one says;
* `Allotment.Tables.Storable.ofRecords_replay_snapshot`, `Allotment.storable_replay` — what a
  snapshot that was written replays to, and that tables read from a log can be written;
* `Allotment.same_replay_snapshot_iff` — **a snapshot after a clean audit loses nothing exactly if
  every allocation is listed under its own quota only and all terms fit into a record**;
* `Allotment.Store.reopen_of_compact` — **what is found when a compacted log is opened again**;
* `Allotment.Store.same_reopened_iff` — the same of a store that is compacted, closed and opened
  again.
-/

import Mathlib.Data.List.TakeWhile
import Allotment.Proofs.Opening
import Allotment.Proofs.Store
import Allotment.Proofs.Log.Size
import Allotment.Proofs.Tables.Trace

set_option relaxedAutoImplicit false
set_option autoImplicit false

namespace Allotment

open Log (Bytes Readable frames payload)
open Log.Writer (Settled)

/-! ### What is shown, and what fits -/

namespace Tables

/-- Tables that show the same quotas and the same ledgers. -/
def Same (t u : Tables) : Prop :=
  ∀ id, t.quota? id = u.quota? id ∧ t.ledger.entries id = u.ledger.entries id

/-- Tables all of whose terms fit into a record. -/
def Fits (t : Tables) : Prop :=
  ∀ (id : Ulid) (s : Standing), t.standings[id]? = some s →
    Readable (.created id s.terms s.version)

theorem mem_quotas_iff {t : Tables} {q : Quota} :
    q ∈ t.quotas ↔ t.standings[q.id]? = some q.toStanding := by
  rw [quotas, List.mem_filterMap]
  constructor
  · rintro ⟨id, _, h⟩
    obtain ⟨hs, rfl⟩ := quota?_eq_some_iff.1 h
    exact hs
  · intro h
    refine ⟨q.id, ?_, quota?_eq_some_iff.2 ⟨h, rfl⟩⟩
    rw [ids, Std.ExtTreeMap.mem_keys]
    exact mem_standings_iff.2 ⟨_, h⟩

end Tables

/-- What is found about a quota: that its units are not those of the ledger, or that they are more
than its bound. -/
theorem Quota.mem_findings_iff {q : Quota} {total : Nat} {f : Finding} :
    f ∈ q.findings total ↔
      (total ≠ q.reserved.toNat ∧ f = .ledgerMismatch q.id q.reserved total) ∨
        (q.terms.bound < q.reserved.toNat ∧ f = .overBound q.id q.reserved q.terms.bound) := by
  rw [findings, List.mem_append]
  refine or_congr ?_ ?_
  · rw [List.mem_ite_nil_right, List.mem_singleton]
  · rw [List.mem_ite_nil_left, List.mem_singleton, Room.holds, decide_eq_true_iff, Nat.not_le]

namespace Tables

/-- **What the audit finds**: every quota whose units are not those of its ledger, and every quota
whose units are more than its bound. -/
theorem mem_audit_iff {t : Tables} {f : Finding} :
    f ∈ t.audit ↔ ∃ id s, t.standings[id]? = some s ∧
      ((t.ledger.total id ≠ s.reserved.toNat ∧
          f = .ledgerMismatch id s.reserved (t.ledger.total id)) ∨
        (s.terms.bound < s.reserved.toNat ∧ f = .overBound id s.reserved s.terms.bound)) := by
  rw [audit, List.mem_flatMap]
  constructor
  · rintro ⟨q, hq, hf⟩
    exact ⟨q.id, q.toStanding, mem_quotas_iff.1 hq, Quota.mem_findings_iff.1 hf⟩
  · rintro ⟨id, s, hs, hf⟩
    have hq : { s with id } ∈ t.quotas := mem_quotas_iff.2 hs
    exact ⟨_, hq, Quota.mem_findings_iff.2 hf⟩

/-- If the audit finds nothing, the units reserved are the sum of the allocations. -/
theorem balanced_of_audit {t : Tables} (h : t.audit = []) : Balanced t := by
  intro id s hs
  by_contra hne
  have hfound := mem_audit_iff.2 ⟨id, s, hs, .inl ⟨Ne.symm hne, rfl⟩⟩
  rw [h] at hfound
  exact List.not_mem_nil hfound

end Tables

/-! ### Writing a snapshot -/

namespace Tables

/-- **Tables whose snapshot can be written**: the length of every record of it can be stored, and no
allocation is too long for a reader. -/
structure Storable (t : Tables) : Prop extends Grown t where
  /-- The length of a creation with the terms of a quota can be stored. -/
  terms : ∀ (id : Ulid) (s : Standing), t.standings[id]? = some s →
    ∀ version, (payload (.created id s.terms version)).length < UInt32.size
  /-- A grant of an allocation can be read. -/
  grants : ∀ i a, t.ledger.find? i = some a → ∀ version, Readable (.allocated a version)

namespace Storable

variable {t : Tables}

/-- The length of every record of a snapshot can be stored. -/
theorem length_payload_lt (h : Storable t) {r : Record} (hr : r ∈ t.snapshotRecords) :
    (payload r).length < UInt32.size := by
  obtain ⟨id, s, hs, hr⟩ := mem_snapshotRecords.1 hr
  rcases List.mem_cons.1 hr with rfl | hr
  · exact h.terms id s hs s.version
  · obtain ⟨a, ha, rfl⟩ := List.mem_map.1 hr
    exact (h.grants a.id a (Ledger.find?_of_mem_entries ha) s.version).length_payload_lt

/-- If all terms fit, a reader takes the whole snapshot. -/
theorem readable_of_fits (h : Storable t) (hfits : Fits t) {r : Record}
    (hr : r ∈ t.snapshotRecords) : Readable r := by
  obtain ⟨id, s, hs, hr⟩ := mem_snapshotRecords.1 hr
  rcases List.mem_cons.1 hr with rfl | hr
  · exact hfits id s hs
  · obtain ⟨a, ha, rfl⟩ := List.mem_map.1 hr
    exact h.grants a.id a (Ledger.find?_of_mem_entries ha) s.version

/-- **Of a snapshot that was written, the records in front of the first unreadable one are read
back.** -/
theorem replay_snapshot (h : Storable t) :
    Log.replay (frames t.snapshotRecords) = t.snapshotRecords.takeWhile fun r => Readable r :=
  Log.scan_frames_eq_takeWhile fun _ => h.length_payload_lt

/-- If all allocations are filed and all terms fit, then writing a snapshot loses nothing, and the
units reserved are counted anew. -/
theorem ofRecords_replay_snapshot (h : Storable t) (hfiled : Filed t) (hfits : Fits t) :
    ofRecords (Log.replay (frames t.snapshotRecords)) = t.recounted := by
  have hall := List.takeWhile_eq_self_iff.2
    fun r hr => decide_eq_true (h.readable_of_fits hfits hr)
  rw [h.replay_snapshot, hall]
  exact ofRecords_snapshotRecords_eq_recounted h.toGrown hfiled

end Storable

end Tables

/-! ### Tables read from a log -/

section Read

variable {bs : Bytes}

/-- An allocation that was read from a log can be written to it again. -/
theorem readable_of_find? {i : Ulid} {a : Allocation}
    (h : (Tables.ofRecords (Log.replay bs)).ledger.find? i = some a) (version : Version) :
    Readable (.allocated a version) := by
  obtain ⟨version', hr⟩ := (Tables.Traced.ofRecords _).granted i a h
  obtain ⟨p, hle, hp⟩ := Log.exists_payload_of_mem_scan hr
  exact Nat.le_trans (Log.length_payload_of_record? hp version) hle

/-- Terms that were read from a log make a record whose length can be stored. -/
theorem length_payload_of_standing {id : Ulid} {s : Standing}
    (h : (Tables.ofRecords (Log.replay bs)).standings[id]? = some s) (version : Version) :
    (payload (.created id s.terms version)).length < UInt32.size := by
  obtain ⟨r, hr, ht⟩ := (Tables.Traced.ofRecords _).terms id s h
  obtain ⟨p, hle, hp⟩ := Log.exists_payload_of_mem_scan hr
  have htexts := Log.length_texts_of_record? hp
  have hdate := s.terms.travelDate.utf8ByteSize_toText_le
  have hsize : Log.textsSize r = s.terms.name.utf8ByteSize + s.terms.productType.utf8ByteSize := by
    cases r with
    | created quota terms version =>
        cases ht
        rfl
    | revised quota terms version =>
        cases ht
        rfl
    | allocated a version => cases ht
  -- what is added to the texts is small, and the limit is far from what a length can be
  have hroom : Log.payloadLimit + 1000 < UInt32.size := by decide
  rw [Log.length_payload_created, Log.length_writeTerms]
  omega

/-- The snapshot of tables that were read from a log can be written. -/
theorem storable_replay (bs : Bytes) : Tables.Storable (.ofRecords (Log.replay bs)) where
  toGrown := Tables.Grown.ofRecords _
  terms _ _ := length_payload_of_standing
  grants _ _ := readable_of_find?

/-- If the audit finds nothing, all allocations are filed and all terms fit, then writing a snapshot
loses nothing at all. -/
theorem ofRecords_replay_snapshot (ha : (Tables.ofRecords (Log.replay bs)).audit = [])
    (hfiled : (Tables.ofRecords (Log.replay bs)).Filed)
    (hfits : (Tables.ofRecords (Log.replay bs)).Fits) :
    Tables.ofRecords (Log.replay (frames (Tables.ofRecords (Log.replay bs)).snapshotRecords)) =
      .ofRecords (Log.replay bs) := by
  rw [(storable_replay bs).ofRecords_replay_snapshot hfiled hfits]
  exact (Tables.balanced_of_audit ha).counted.recounted_eq

end Read

/-! ### What a snapshot loses -/

namespace Tables

/-- Terms that keep the limits fit. -/
theorem fits_ofRecords {rs : List Record}
    (h : ∀ r ∈ rs, ∀ terms ∈ r.terms?, terms.brokenLimit? = none) : Fits (ofRecords rs) := by
  intro id s hs
  obtain ⟨r, hr, hterms⟩ := (Traced.ofRecords rs).terms id s hs
  exact Log.readable_created (h r hr s.terms hterms) id s.version

/-- A part of a snapshot that shows the same as the tables has records of all terms, so these fit
if all records of the part can be read. -/
theorem fits_of_same {t : Tables} {rs : List Record} (hsub : ∀ r ∈ rs, r ∈ t.snapshotRecords)
    (hread : ∀ r ∈ rs, Readable r) (h : Same (.ofRecords rs) t) : Fits t := by
  intro id s hs
  have hquota := (h id).1
  have hsome : (Tables.ofRecords rs).quota? id = some { s with id } := by
    rw [hquota, quota?, hs]
    rfl
  have hstands := (Tables.quota?_eq_some_iff.1 hsome).1
  obtain ⟨terms, version, hr⟩ :=
    (Traced.ofRecords rs).created id (mem_standings_iff.2 ⟨_, hstands⟩)
  obtain ⟨s', hs', rfl, rfl⟩ := created_mem_snapshotRecords (hsub _ hr)
  obtain rfl : s = s' := Option.some.inj (hs.symm.trans hs')
  exact hread _ hr

/-- A part of a snapshot that shows the same as the tables lists every allocation under the quota
that it names. -/
theorem filed_of_same {t : Tables} {rs : List Record} (hsub : ∀ r ∈ rs, r ∈ t.snapshotRecords)
    (h : Same (.ofRecords rs) t) : Filed t := by
  intro quota a ha
  have hmem := ha
  rw [← (h quota).2] at hmem
  obtain ⟨i, hi, hf⟩ := Ledger.mem_entries.1 hmem
  obtain ⟨b, version, hr, hq, hb⟩ := (Traced.ofRecords rs).listed quota i hi
  -- the record that lists the identifier grants what is kept under it
  have hkept := allocated_mem_snapshotRecords (hsub _ hr)
  rw [hb, ← Ledger.id_of_find? hf, Ledger.find?_of_mem_entries ha] at hkept
  rw [Option.some.inj hkept]
  exact hq

end Tables

/-- **A snapshot after a clean audit loses nothing exactly if every allocation is listed under its
own quota only and all terms fit into a record.** -/
theorem same_replay_snapshot_iff {bs : Bytes}
    (ha : (Tables.ofRecords (Log.replay bs)).audit = []) :
    Tables.Same
        (.ofRecords (Log.replay (frames (Tables.ofRecords (Log.replay bs)).snapshotRecords)))
        (.ofRecords (Log.replay bs)) ↔
      (Tables.ofRecords (Log.replay bs)).Filed ∧ (Tables.ofRecords (Log.replay bs)).Fits := by
  constructor
  · intro hsame
    rw [(storable_replay bs).replay_snapshot] at hsame
    refine ⟨Tables.filed_of_same (fun r hr => List.takeWhile_subset _ hr) hsame,
      Tables.fits_of_same (fun r hr => List.takeWhile_subset _ hr) ?_ hsame⟩
    intro r hr
    exact of_decide_eq_true (List.mem_takeWhile_imp (p := fun r => decide (Readable r)) hr)
  · rintro ⟨hfiled, hfits⟩
    rw [ofRecords_replay_snapshot ha hfiled hfits]
    exact fun id => ⟨rfl, rfl⟩

/-! ### Compacting and opening again -/

namespace Store

/-- **What is found when a compacted log is opened again**: what the snapshot replays to. -/
theorem reopen_of_compact {s s' : Store LogFile} {bs : Bytes}
    (h : Settled s.journal.writer s.journal.disk bs) (hc : s.compact = (.ok (), s')) :
    ∃ s'', ofLog s'.close s.journal.writer.name = .ok s'' ∧
      s''.tables = .ofRecords (Log.replay (frames s.tables.snapshotRecords)) := by
  rcases compact_cases h with ⟨_, e, d', he, _⟩ | ⟨_, w', d', he, hrest, hname, _⟩
  · rw [hc] at he
    cases he
  · rw [hc] at he
    obtain rfl := (Prod.mk.inj he).2
    have hfile := hrest.file
    rw [hname] at hfile
    obtain ⟨s'', ho, hs''⟩ := ofLog_of_file? hfile
    exact ⟨s'', by rw [close_eq hrest]; exact ho, hs''.tables⟩

/-- The same of a store that was compacted right after it was opened. -/
theorem reopen_compacted {d : Disk} {name : String} {bs : Bytes} {s s' : Store LogFile}
    (h : Opened d name bs s) (hc : s.compact = (.ok (), s')) :
    ∃ s'', ofLog s'.close name = .ok s'' ∧
      s''.tables = .ofRecords (Log.replay (frames s.tables.snapshotRecords)) := by
  rw [← h.named]
  exact reopen_of_compact h.rest hc

/-- A compaction after a clean audit loses nothing exactly if its snapshot does not. -/
theorem same_reopened_iff {d : Disk} {name : String} {s s' : Store LogFile}
    (ho : ofLog d name = .ok s) (ha : s.tables.audit = []) (hc : s.compact = (.ok (), s')) :
    ∃ s'', ofLog s'.close name = .ok s'' ∧
      (Tables.Same s''.tables s.tables ↔ s.tables.Filed ∧ s.tables.Fits) := by
  obtain ⟨bs, h⟩ := opened_of_ofLog ho
  obtain ⟨s'', ho', ht⟩ := reopen_compacted h hc
  refine ⟨s'', ho', ?_⟩
  rw [h.tables] at ha ht ⊢
  rw [ht]
  exact same_replay_snapshot_iff ha

end Store

end Allotment
