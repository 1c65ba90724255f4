/-
**Compacting without an audit.**

A run compacts the logs in which the audit finds nothing.  A desk that compacts its log because
enough records were appended does not ask for an audit, so it compacts the log of a store with
findings like any other.  This module says what the next audit finds, once such a log is opened
again.

A snapshot does not say how many units are reserved, and replay counts them anew from the
allocations.  So a number of units that differs from the sum of the allocations is not there any
more after a compaction, whatever the log was and whatever the desk has done since it was opened;
only a sum that four bytes cannot hold still differs from what is counted.  A quota that is sold
beyond its bound is found again, unless the number by which it was found was wrong too or the
snapshot has lost something.

Main definitions:

* `Allotment.Unaudited.Reached` — the desks that can come about on a log of unknown origin;
* `Allotment.Unaudited.Kept` — what holds of all of them.

Main results:

* `Allotment.Tables.Counted.of_audit_eq` — whoever finds the same in recounted tables has found no
  mismatch;
* `Allotment.Unaudited.Reached.kept` — the snapshot of every desk that can come about can be
  written;
* `Allotment.Unaudited.findings_of_compactIfDue` — **which findings are left when a log that was
  compacted without an audit is opened again**;
* `Allotment.Unaudited.mismatch_lost` — **a mismatch is lost**.
-/

import Allotment.Proofs.CleanAudit
import Allotment.Proofs.Events
import Allotment.Proofs.Storable
import Allotment.Proofs.Tables.Count

set_option relaxedAutoImplicit false
set_option autoImplicit false

namespace Allotment

open Log (Readable frames)
open Log.Writer (Settled)

/-! ### What the audit says about units that are counted -/

namespace Tables

/-- What it means that the audit finds a mismatch. -/
theorem ledgerMismatch_mem_audit_iff {t : Tables} {id : Ulid} {reserved : UInt32} {total : Nat} :
    .ledgerMismatch id reserved total ∈ t.audit ↔
      ∃ s, t.standings[id]? = some s ∧ s.reserved = reserved ∧ t.ledger.total id = total ∧
        total ≠ reserved.toNat := by
  constructor
  · intro h
    obtain ⟨id', s, hs, ⟨hne, hf⟩ | ⟨_, hf⟩⟩ := mem_audit_iff.1 h
    · cases hf
      exact ⟨s, hs, rfl, rfl, hne⟩
    · cases hf
  · rintro ⟨s, hs, rfl, rfl, hne⟩
    exact mem_audit_iff.2 ⟨id, s, hs, .inl ⟨hne, rfl⟩⟩

/-- Where units are counted, only a sum that four bytes cannot hold differs from what is counted. -/
theorem Counted.size_le_of_mismatch {t : Tables} (h : Counted t) {id : Ulid} {reserved : UInt32}
    {total : Nat} (hf : .ledgerMismatch id reserved total ∈ t.audit) : UInt32.size ≤ total := by
  obtain ⟨s, hs, rfl, rfl, hne⟩ := ledgerMismatch_mem_audit_iff.1 hf
  rw [h id s hs] at hne
  by_contra hlt
  exact hne (Nat.mod_eq_of_lt (Nat.not_le.1 hlt)).symm

/-- Whoever finds the same where units are counted as here has found no mismatch that counting could
set right. -/
theorem Counted.of_audit_eq {t u : Tables} (hu : Counted u) (h : u.audit = t.audit) :
    Counted t := by
  intro id s hs
  by_cases heq : t.ledger.total id = s.reserved.toNat
  · rw [heq]
    exact (Nat.mod_eq_of_lt s.reserved.toNat_lt).symm
  · -- the mismatch that is found here is found there, and there the units are counted
    have hf : .ledgerMismatch id s.reserved (t.ledger.total id) ∈ u.audit :=
      h ▸ ledgerMismatch_mem_audit_iff.2 ⟨s, hs, rfl, rfl, heq⟩
    obtain ⟨s', hs', hreserved, htotal, _⟩ := ledgerMismatch_mem_audit_iff.1 hf
    rw [← hreserved, ← htotal]
    exact hu id s' hs'

end Tables

/-! ### Desks that can come about -/

namespace Unaudited

open Tables (Storable Counted Filed Fits)

/-- **The desks over the log `name` that can come about** after it was opened, whatever the log was
then. -/
inductive Reached (name : String) : Desk LogFile → Prop
  | opened {disk : Disk} {s : Store LogFile} (m : Meter) : Store.ofLog disk name = .ok s →
      Reached name ⟨s, m⟩
  | undergo {d : Desk LogFile} (e : Event) : Reached name d → Reached name (d.undergo e)

/-- Whatever comes to a desk, its snapshot can be written if it could before. -/
theorem storable_receive {d : Desk LogFile} (halone : d.store.rival = none)
    (h : Storable d.store.tables) (v : Visit) : Storable (d.receive v).store.tables := by
  cases v with
  | together cs =>
      change Storable ((Desk.prepareAll d.store cs).2.commitGroup _).2.tables
      rw [Desk.prepareAll_snd halone]
      exact Store.storable_commitGroup h Desk.limited_of_prepareAll
  | ask q =>
      cases q using Request.changeCases with
      | create terms stamp =>
          change Storable (d.create terms stamp).2.store.tables
          unfold Desk.create Terms.check
          cases hl : terms.brokenLimit? with
          | some limit => exact h
          | none =>
              have hs := Store.storable_insert h stamp.id hl stamp.version
              simp only
              rcases hi : d.store.insert stamp.id terms stamp.version with ⟨e | q, s⟩
              · rwa [hi] at hs
              · rwa [hi] at hs
      | revise r stamp =>
          change Storable (Desk.reviseIn d.store r stamp).2.tables
          rcases Desk.reviseIn_cases halone r stamp with he | ⟨q, _, he⟩
          · rw [he]
            exact h
          · rw [he]
            refine Store.storable_carryOut h ?_ stamp.version
            intro w hd
            obtain ⟨rfl, hl, _⟩ := Revision.decideOn_eq_ok hd
            exact hl
      | allocate c stamp =>
          change Storable (Desk.allocateIn d.store c stamp).2.tables
          rcases Desk.allocateIn_cases halone c stamp with he | ⟨q, _, he⟩
          · rw [he]
            exact h
          · rw [he]
            refine Store.storable_carryOut h ?_ stamp.version
            intro w hd
            obtain ⟨rfl, href, _⟩ := Claim.decideOn_eq_ok hd
            exact ⟨rfl, href⟩
      | reads q hq =>
          rw [Desk.receive, store_answer_of_reads halone hq]
          exact h

/-- **What holds of all desks that can come about.** -/
structure Kept (name : String) (d : Desk LogFile) : Prop where
  /-- The log is at rest and has this name, and no rival lies in wait. -/
  log : d.store.Over (LogFile.Named name)
  /-- The snapshot can be written. -/
  storable : Storable d.store.tables

namespace Kept

variable {name : String} {d : Desk LogFile}

theorem opened {disk : Disk} {s : Store LogFile} (ho : Store.ofLog disk name = .ok s) (m : Meter) :
    Kept name ⟨s, m⟩ := by
  obtain ⟨bs, hs⟩ := Store.opened_of_ofLog ho
  refine ⟨⟨⟨⟨_, hs.rest⟩, hs.named⟩, hs.alone⟩, ?_⟩
  rw [hs.tables]
  exact storable_replay bs

/-- **Whatever happens, what holds of a desk goes on to hold.** -/
theorem undergo (h : Kept name d) (e : Event) : Kept name (d.undergo e) := by
  refine ⟨h.log.undergo e, ?_⟩
  have hcompact : Storable d.compact.2.store.tables := by
    rw [Desk.store_compact, Store.tables_compact]
    exact h.storable
  cases e with
  | visit v => exact storable_receive h.log.alone h.storable v
  | compact => exact hcompact
  | compactIfDue threshold =>
      exact Desk.compactIfDue_induction (fun d => Storable d.store.tables) h.storable hcompact
        threshold
  | setWritable writable => exact h.storable
  | restart =>
      obtain ⟨⟨bs, hrest⟩, hname⟩ := h.log.journal
      obtain ⟨s, ho, _⟩ := Store.ofLog_of_file? hrest.file
      rw [Desk.undergo, Store.close_eq hrest, ho]
      exact (opened ho d.meter).storable

end Kept

/-- **The snapshot of every desk that can come about can be written.** -/
theorem Reached.kept {name : String} {d : Desk LogFile} (h : Reached name d) : Kept name d := by
  induction h with
  | opened m ho => exact .opened ho m
  | undergo e _ ih => exact ih.undergo e

/-! ### What the next audit finds -/

/-- A log that was due and was compacted is opened again: it replays to what can be read of the
snapshot. -/
theorem reopen_of_compactIfDue {name : String} {d d' : Desk LogFile} {threshold : Nat}
    (h : Kept name d) (hc : d.compactIfDue threshold = (.ok true, d')) :
    d'.store.tables = d.store.tables ∧
      ∃ u, Store.ofLog d'.store.close name = .ok u ∧
        u.tables = .ofRecords (Log.replay (frames d.store.tables.snapshotRecords)) := by
  obtain ⟨⟨bs, hrest⟩, rfl⟩ := h.log.journal
  have hs := Desk.compact_of_compactIfDue hc
  have hlive := d.store.tables_compact
  rw [hs] at hlive
  exact ⟨hlive, Store.reopen_of_compact hrest hs⟩

/-- What is read of a snapshot has its units counted. -/
theorem counted_replay_snapshot {t : Tables} (h : Storable t) :
    Counted (.ofRecords (Log.replay (frames t.snapshotRecords))) := by
  rw [h.replay_snapshot]
  exact ((Tables.tidy_snapshotRecords t).sublist (List.takeWhile_sublist _)).counted

/-- **Which findings are left when a log that was compacted without an audit is opened again.**  A
log of any content is opened, clients do what they like, and then the log is compacted because
enough records were appended.  The live tables stay as they are.  In the tables that are there once
the log is opened again, no number of units reserved differs from the sum of the allocations, unless
four bytes cannot hold the sum; so the audit finds the same as before only if the units were counted
before.  If nothing else can be lost, since every allocation is listed under its own quota only and
all terms fit into a record, the tables are the live ones with the units counted anew, and the audit
finds the same as before exactly if the units were counted before. -/
theorem findings_of_compactIfDue {name : String} {d d' : Desk LogFile} {threshold : Nat}
    (h : Reached name d) (hc : d.compactIfDue threshold = (.ok true, d')) :
    d'.store.tables = d.store.tables ∧
      ∃ u, Store.ofLog d'.store.close name = .ok u ∧
        (∀ id reserved total, .ledgerMismatch id reserved total ∈ u.tables.audit →
          UInt32.size ≤ total) ∧
        (u.tables.audit = d.store.tables.audit → Counted d.store.tables) ∧
        (Filed d.store.tables → Fits d.store.tables →
          u.tables = d.store.tables.recounted ∧
          (Counted d.store.tables → u.tables = d.store.tables) ∧
          (u.tables.audit = d.store.tables.audit ↔ Counted d.store.tables)) := by
  obtain ⟨hlive, u, ho, hu⟩ := reopen_of_compactIfDue h.kept hc
  have hcounted : Counted u.tables := hu ▸ counted_replay_snapshot h.kept.storable
  refine ⟨hlive, u, ho, ?_, hcounted.of_audit_eq, ?_⟩
  · intro id reserved total hf
    exact hcounted.size_le_of_mismatch hf
  · intro hfiled hfits
    have hsame : u.tables = d.store.tables.recounted :=
      hu.trans (h.kept.storable.ofRecords_replay_snapshot hfiled hfits)
    have hback : Counted d.store.tables → u.tables = d.store.tables :=
      fun hbefore => hsame.trans hbefore.recounted_eq
    exact ⟨hsame, hback, hcounted.of_audit_eq, fun hbefore => by rw [hback hbefore]⟩

/-- The store that is opened on the log of `oneLog`. -/
def storeOf (rs : List Record) : Store LogFile :=
  .ofTables (.ofRecords rs)
    ⟨(oneLog rs).setEntry (logName "a") (.file ⟨0, frames rs⟩),
      .ofHandle ⟨logName "a", 0⟩ (frames rs).length⟩

theorem ofLog_oneLog {rs : List Record} (h : ∀ r ∈ rs, Readable r) :
    Store.ofLog (oneLog rs) (logName "a") = .ok (storeOf rs) := by
  rw [Store.ofLog, Log.Writer.recover_of_file? (file?_oneLog rs), Log.scan_frames h,
    List.take_length]
  rfl

/-- A desk over the log of `oneLog` at which one more quota was created. -/
def deskOf (rs : List Record) : Desk LogFile :=
  Desk.undergo ⟨storeOf rs, .zero⟩ (.visit (.ask (.create fiveUnits ⟨⟨20⟩, ⟨⟨20⟩⟩, 0⟩)))

theorem reached_deskOf {rs : List Record} (h : ∀ r ∈ rs, Readable r) :
    Reached (logName "a") (deskOf rs) :=
  .undergo _ (.opened .zero (ofLog_oneLog h))

/-- The live tables are those of the log with one more record. -/
theorem tables_deskOf (rs : List Record) (hc : (storeOf rs).checkInsert ⟨20⟩ = .ok ()) :
    (deskOf rs).store.tables = .ofRecords (rs ++ [.created ⟨20⟩ fiveUnits ⟨⟨20⟩⟩]) := by
  have hrest : Settled (storeOf rs).journal.writer (storeOf rs).journal.disk (frames rs) :=
    Settled.ofHandle (h := ⟨logName "a", 0⟩) (Disk.file?_setEntry (file?_oneLog rs) _)
  obtain ⟨j, htaken, _⟩ := LogFile.append_of_writable hrest rfl [.created ⟨20⟩ fiveUnits ⟨⟨20⟩⟩]
  have hstore : (deskOf rs).store = ((storeOf rs).insert ⟨20⟩ fiveUnits ⟨⟨20⟩⟩).2 := by
    rcases hi : (storeOf rs).insert ⟨20⟩ fiveUnits ⟨⟨20⟩⟩ with ⟨e | q, s⟩
    · simp only [deskOf, Desk.undergo, Desk.receive, answer, Desk.create, hi]
      rfl
    · simp only [deskOf, Desk.undergo, Desk.receive, answer, Desk.create, hi]
      rfl
  rw [hstore, Tables.ofRecords, List.foldl_append]
  rcases (storeOf rs).insert_cases ⟨20⟩ fiveUnits ⟨⟨20⟩⟩ with
    ⟨e, hc', _⟩ | ⟨e, j', _, ha, _⟩ | ⟨j', _, _, he⟩
  · cases hc.symm.trans hc'
  · cases (Prod.mk.inj (ha.symm.trans htaken)).1
  · rw [he]
    rfl

/-- What was due is compacted. -/
theorem exists_compacted_deskOf (rs : List Record)
    (h : ((deskOf rs).compactIfDue 1).1.toOption = some true) :
    ∃ d', (deskOf rs).compactIfDue 1 = (.ok true, d') := by
  rcases hc : (deskOf rs).compactIfDue 1 with ⟨e | done, d'⟩
  · rw [hc] at h
    cases h
  · rw [hc] at h
    obtain rfl := Option.some.inj h
    exact ⟨d', rfl⟩

/-- The log of a quota that was sold beyond its bound. -/
def overSold : List Record := [creation ⟨10⟩, .allocated ⟨⟨12⟩, ⟨10⟩, none, 9, 0⟩ ⟨⟨1⟩⟩]

/-- Its quota is found to be sold beyond its bound before the compaction and after it. -/
theorem findings_of_compactIfDue_overSold :
    Reached (logName "a") (deskOf overSold) ∧
      Filed (deskOf overSold).store.tables ∧ Fits (deskOf overSold).store.tables ∧
      ∃ d' u, (deskOf overSold).compactIfDue 1 = (.ok true, d') ∧
        Store.ofLog d'.store.close (logName "a") = .ok u ∧
        u.tables = (deskOf overSold).store.tables ∧ u.tables.audit = [.overBound ⟨10⟩ 9 5] := by
  have hread : ∀ r ∈ overSold, Readable r := by
    simp only [overSold, List.forall_mem_cons]
    exact ⟨readable_creation _, Log.readable_allocated rfl _, by simp⟩
  have hlive := tables_deskOf overSold rfl
  have htidy : Tables.Tidy (overSold ++ [.created ⟨20⟩ fiveUnits ⟨⟨20⟩⟩]) := by
    refine ⟨by decide, ?_⟩
    intro a b v w ha hb _
    -- there is one grant only
    simp only [overSold, creation, List.cons_append, List.nil_append, List.mem_cons, reduceCtorEq,
      Record.allocated.injEq, List.not_mem_nil, or_false, false_or] at ha hb
    rw [ha.1, hb.1]
  have hfiled : Filed (deskOf overSold).store.tables := hlive ▸ htidy.filed
  have hfits : Fits (deskOf overSold).store.tables := by
    rw [hlive]
    refine Tables.fits_ofRecords ?_
    decide
  have haudit : (deskOf overSold).store.tables.audit = [.overBound ⟨10⟩ 9 5] := by
    decide +kernel
  obtain ⟨d', hc⟩ := exists_compacted_deskOf overSold (by decide +kernel)
  obtain ⟨_, u, ho, _, _, hback⟩ := findings_of_compactIfDue (reached_deskOf hread) hc
  have hsame := (hback hfiled hfits).2.1 (hlive ▸ htidy.counted)
  exact ⟨reached_deskOf hread, hfiled, hfits, d', u, hc, ho, hsame, by rw [hsame, haudit]⟩

/-- The log of a quota that was created again after a grant. -/
def startedOver : List Record := [creation ⟨10⟩, grantOfTwo ⟨10⟩, creation ⟨10⟩]

/-- **A mismatch is lost**: a run leaves this log alone, because nothing is reserved of its quota
and two units are granted; but when the log was compacted because one more record was appended, the
quota has two units reserved, and the audit finds nothing. -/
theorem mismatch_lost :
    ¬ Compacted (oneLog startedOver) none "a" ∧
      Reached (logName "a") (deskOf startedOver) ∧
      ∃ d' u, (deskOf startedOver).compactIfDue 1 = (.ok true, d') ∧
        Store.ofLog d'.store.close (logName "a") = .ok u ∧
        (deskOf startedOver).audit = [.ledgerMismatch ⟨10⟩ 0 2] ∧ u.tables.audit = [] ∧
        (u.tables.quota? ⟨10⟩).map (·.reserved) = some 2 := by
  have hread : ∀ r ∈ startedOver, Readable r := by
    simp [startedOver, readable_creation, readable_grantOfTwo]
  have hreached := reached_deskOf hread
  have haudit : (deskOf startedOver).audit = [.ledgerMismatch ⟨10⟩ 0 2] := by
    decide +kernel
  obtain ⟨d', hc⟩ := exists_compacted_deskOf startedOver (by decide +kernel)
  obtain ⟨_, u, ho, hu⟩ := reopen_of_compactIfDue hreached.kept hc
  have hsnapshot : (deskOf startedOver).store.tables.snapshotRecords =
      [creation ⟨10⟩, grantOfTwo ⟨10⟩, .created ⟨20⟩ fiveUnits ⟨⟨20⟩⟩] := by
    decide +kernel
  have hread' : ∀ r ∈ (deskOf startedOver).store.tables.snapshotRecords, Readable r := by
    rw [hsnapshot]
    simp only [List.forall_mem_cons]
    exact ⟨readable_creation _, readable_grantOfTwo _, Log.readable_created rfl _ _, by simp⟩
  rw [Log.replay, Log.scan_frames hread', hsnapshot] at hu
  refine ⟨?_, hreached, d', u, hc, ho, haudit, by rw [hu]; decide +kernel,
    by rw [hu]; decide +kernel⟩
  rintro ⟨_, hcompacts⟩
  rw [tablesOf_oneLog hread] at hcompacts
  have hfound : (Tables.ofRecords startedOver).audit ≠ [] := by
    decide +kernel
  exact hfound (audit_of_compacts hcompacts)

end Unaudited

end Allotment
