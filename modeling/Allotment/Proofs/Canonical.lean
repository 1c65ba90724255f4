/-
**A compacted log has one form.**

What a compaction writes is settled by the quotas and the ledgers alone.  It takes the quotas in
ascending order of their identifiers, in whatever order they come out of a table, and of each quota
it says how it stands and which allocations it has, in the order of granting.  How all this came
about cannot be told from it.  Since the log that it leaves replays to the same quotas and ledgers,
compacting again writes the same bytes again, and so does compacting after the log was closed and
opened.

Main definitions:

* `Allotment.Tables.recordsOf` — the records that rebuild quotas, in the order in which these are
  named;
* `Allotment.Desk.log?` — the bytes of the log of a desk;
* `Allotment.Desk.Rewritten`, `Allotment.Desk.Reopened` — what a desk is once its log was compacted,
  and once it was closed and opened;
* `Allotment.Desk.Reached` — desks that a run has led to.

Main results:

* `Allotment.Tables.recordsOf_ascending` — **a snapshot does not depend on the order in which the
  quotas are found**;
* `Allotment.Tables.Same.snapshotRecords_eq` — tables that show the same have the same snapshot;
* `Allotment.Desk.Kept.rewritten`, `Allotment.Desk.Kept.reopened` — **a compaction that completes
  writes the snapshot, and a log can always be closed and opened**;
* `Allotment.Desk.compaction_canonical` — **compactions of desks that show the same write the same
  bytes**.
-/

import Mathlib.Data.List.Flatten
import Allotment.Proofs.Compaction
import Allotment.Proofs.Metered

set_option relaxedAutoImplicit false
set_option autoImplicit false

namespace Allotment

open Log (Bytes frames scan temporaryName)
open Log.Writer (Settled Writable)

/-! ### Snapshots -/

namespace Tables

variable {t u : Tables}

/-- Tables that show the same have the same quotas. -/
theorem Same.standings_eq (h : Same t u) : t.standings = u.standings := by
  refine Std.ExtTreeMap.ext_getElem? fun id => ?_
  have hquota := (h id).1
  rw [quota?, quota?] at hquota
  refine Option.map_injective ?_ hquota
  intro s s' heq
  exact congrArg Quota.toStanding heq

/-- **Tables that show the same have the same snapshot.** -/
theorem Same.snapshotRecords_eq (h : Same t u) : t.snapshotRecords = u.snapshotRecords := by
  rw [snapshotRecords, snapshotRecords, h.standings_eq]
  refine List.flatMap_congr ?_
  rintro ⟨id, s⟩ _
  change t.quotaRecords id s = u.quotaRecords id s
  rw [quotaRecords, quotaRecords, (h id).2]

/-- The records that rebuild quotas, in the order in which these are named.  A quota that does not
exist has none. -/
def recordsOf (t : Tables) (ids : List Ulid) : List Record :=
  ids.flatMap fun id =>
    match t.standings[id]? with
    | none => []
    | some s => t.quotaRecords id s

theorem recordsOf_cons {id : Ulid} {s : Standing} (hs : t.standings[id]? = some s)
    (ids : List Ulid) : t.recordsOf (id :: ids) = t.quotaRecords id s ++ t.recordsOf ids := by
  simp only [recordsOf, List.flatMap_cons, hs]

/-- Identifiers in ascending order. -/
def ascending (ids : List Ulid) : List Ulid := ids.mergeSort fun a b => (compare a b).isLE

/-- A snapshot takes the quotas in the order in which they are listed. -/
theorem recordsOf_ids (t : Tables) : t.recordsOf t.ids = t.snapshotRecords := by
  rw [recordsOf, ids, ← Std.ExtTreeMap.map_fst_toList_eq_keys, List.flatMap_map, snapshotRecords]
  refine List.flatMap_congr ?_
  rintro ⟨id, s⟩ hmem
  simp only [Std.ExtTreeMap.mem_toList_iff_getElem?_eq_some.1 hmem]

/-- Put in ascending order, the quotas come in the order in which they are listed. -/
theorem ascending_eq_ids {found : List Ulid} (h : found.Perm t.ids) : ascending found = t.ids := by
  have hsorted : (ascending found).Pairwise fun a b => (compare a b).isLE = true :=
    pairwise_mergeSort_isLE compare found
  have hlisted : t.ids.Pairwise fun a b => (compare a b).isLE = true :=
    Std.ExtTreeMap.ordered_keys.imp fun hlt => by rw [hlt]; rfl
  refine List.Perm.eq_of_pairwise ?_ hsorted hlisted ((List.mergeSort_perm _ _).trans h)
  intro a b _ _ hab hba
  exact Std.LawfulEqCmp.compare_eq_iff_eq.1 (Std.OrientedCmp.isLE_antisymm hab hba)

/-- **A snapshot does not depend on the order in which the quotas are found.** -/
theorem recordsOf_ascending {found : List Ulid} (h : found.Perm t.ids) :
    t.recordsOf (ascending found) = t.snapshotRecords := by
  rw [ascending_eq_ids h, recordsOf_ids]

end Tables

/-! ### The log of a desk -/

namespace Desk

/-- The bytes of the log with this name. -/
def log? (d : Desk LogFile) (name : String) : Option Bytes :=
  (d.store.journal.disk.file? name).map (·.bytes)

theorem log?_of_entry?_eq {d d' : Desk LogFile} {name : String}
    (h : d'.store.journal.disk.entry? name = d.store.journal.disk.entry? name) :
    d'.log? name = d.log? name := by
  simp only [log?, Disk.file?, h]

/-- A log at rest under its name has the bytes over which it rests. -/
theorem log?_of_settled {d : Desk LogFile} {name : String} {bs : Bytes}
    (h : Settled d.store.journal.writer d.store.journal.disk bs)
    (hname : d.store.journal.writer.name = name) : d.log? name = some bs := by
  rw [log?, ← hname, h.file]
  rfl

/-- A compaction that completes is one of the store. -/
theorem compact_of_compacted {d : Desk LogFile} {e : Event} (h : d.compacted e = 1) :
    d.store.compact = (.ok (), (d.undergo e).store) := by
  have hcompact : d.compacted .compact = 1 → d.store.compact = (.ok (), d.compact.2.store) := by
    intro hc
    simp only [compacted, compact] at hc ⊢
    rcases hs : d.store.compact with ⟨e | u, s⟩
    · rw [hs] at hc
      cases hc
    · rfl
  cases e with
  | visit v => cases h
  | setWritable writable => cases h
  | restart => cases h
  | compact => exact hcompact h
  | compactIfDue threshold =>
      rcases d.compactIfDue_outcome threshold with ⟨_, hc⟩ | ⟨hd, hc⟩
      · rw [hc] at h
        cases h
      · rw [hd]
        exact hcompact (hc.symm.trans h)

/-- A compaction brings nothing. -/
theorem records_of_compacted {d : Desk LogFile} {e : Event} (h : d.compacted e = 1) :
    e.records = [] := by
  cases e with
  | visit v => cases h
  | compact => rfl
  | compactIfDue threshold => rfl
  | setWritable writable => rfl
  | restart => rfl

/-- **What a desk is after its log was compacted**: the log is the snapshot, and nothing is in its
way should it be compacted again. -/
structure Rewritten (name : String) (d d' : Desk LogFile) : Prop where
  /-- The log is the snapshot. -/
  log : d'.log? name = some (frames d.store.tables.snapshotRecords)
  /-- The quotas and the ledgers are the same. -/
  tables : d'.store.tables = d.store.tables
  /-- Nothing has the name under which a snapshot is written. -/
  vacant : d'.store.journal.disk.entry? (temporaryName name) = none
  /-- Bytes can be written, or not, as before. -/
  writable : d'.store.journal.disk.writable = d.store.journal.disk.writable
  /-- Bytes could be written if there were any. -/
  able : d.store.journal.disk.writable = true ∨ d.store.tables.snapshotRecords = []

/-- A log that was compacted can be compacted again. -/
theorem Rewritten.writable_again {name : String} {d d' : Desk LogFile} (h : Rewritten name d d') :
    Writable d'.store.journal.disk name d'.store.tables.snapshotRecords := by
  rw [Writable, h.vacant, h.writable, h.tables]
  exact ⟨Option.some_ne_none _ ∘ Eq.symm, h.able⟩

/-- **What a desk is after its log was closed and opened**: all is as it was. -/
structure Reopened (name : String) (d d' : Desk LogFile) : Prop where
  /-- The log was opened. -/
  opened : ∃ s, Store.ofLog d.store.close name = .ok s ∧ d' = { d with store := s }
  /-- The log is the same. -/
  log : d'.log? name = d.log? name
  /-- The quotas and the ledgers are the same. -/
  tables : d'.store.tables = d.store.tables
  /-- Bytes can be written, or not, as before. -/
  writable : d'.store.journal.disk.writable = d.store.journal.disk.writable
  /-- So is everything else in the directory. -/
  other : ∀ x, x ≠ name → d'.store.journal.disk.entry? x = d.store.journal.disk.entry? x

/-- A log that can be compacted can be compacted after it was closed and opened. -/
theorem Reopened.writable_of {name : String} {d d' : Desk LogFile} (h : Reopened name d d')
    (hcan : Writable d.store.journal.disk name d.store.tables.snapshotRecords) :
    Writable d'.store.journal.disk name d'.store.tables.snapshotRecords := by
  rw [Writable, h.other _ (Log.Writer.temporaryName_ne name), h.writable, h.tables]
  exact hcan

namespace Kept

variable {name : String} {past : List Record} {d : Desk LogFile} {e : Event}

/-- **A compaction that completes writes the snapshot.** -/
theorem rewritten (h : Kept name past d) (hc : d.compacted e = 1) :
    Rewritten name d (d.undergo e) := by
  have hstore := compact_of_compacted hc
  obtain ⟨rs, hrest, _, _⟩ := h.backed.log
  rcases Store.compact_cases hrest with
    ⟨_, e', d', he, _⟩ | ⟨hcan, w', d', he, hrest', hname, hwritable, htemp, _⟩
  · rw [hstore] at he
    cases he
  · rw [hstore] at he
    have hafter := (Prod.mk.inj he).2
    rw [h.backed.named] at hcan hname htemp
    exact {
      log := log?_of_settled (by rw [hafter]; exact hrest') (by rw [hafter]; exact hname)
      tables := by rw [hafter]
      vacant := by rw [hafter]; exact htemp
      writable := by rw [hafter]; exact hwritable
      able := hcan.2 }

/-- A compaction that is asked for completes if the snapshot can be written. -/
theorem compacted_of_writable (h : Kept name past d)
    (hcan : Writable d.store.journal.disk name d.store.tables.snapshotRecords) :
    d.compacted .compact = 1 := by
  obtain ⟨rs, hrest, _, _⟩ := h.backed.log
  rw [← h.backed.named] at hcan
  rcases Store.compact_cases hrest with ⟨hnot, _⟩ | ⟨_, w', d', he, _⟩
  · exact absurd hcan hnot
  · simp only [compacted, Desk.compact, he]

/-- **A log can always be closed and opened**, and nothing changes by this. -/
theorem reopened (h : Kept name past d) : Reopened name d (d.undergo .restart) := by
  obtain ⟨rs, hrest, hread, htables⟩ := h.backed.log
  have hfile := hrest.file
  rw [h.backed.named] at hfile
  obtain ⟨s', ho, hs'⟩ := Store.ofLog_of_file? hfile
  rw [← Store.close_eq hrest] at ho
  have hafter : d.undergo .restart = { d with store := s' } := by
    rw [Desk.undergo, h.backed.named, ho]
  -- a reader takes the log as a whole, so nothing of it is cut off
  have hwhole : (frames rs).take (scan (frames rs)).good = frames rs := by
    rw [Log.scan_frames hread, List.take_length]
  have hrest' := hs'.rest
  rw [hwhole] at hrest'
  have htables' := hs'.tables
  rw [Log.replay, Log.scan_frames hread] at htables'
  rw [hafter]
  exact {
    opened := ⟨s', ho, rfl⟩
    log := by rw [log?_of_settled hrest h.backed.named, log?_of_settled hrest' hs'.named]
    tables := htables'.trans htables
    writable := hs'.writable
    other := hs'.other }

end Kept

/-! ### Every run -/

/-- **A desk that a run has led to**: it was opened on a log that was not there, and nothing that
was brought since came twice. -/
def Reached (name : String) (d : Desk LogFile) : Prop :=
  ∃ (disk : Disk) (s : Store LogFile) (m : Meter) (es : List Event), disk.entry? name = none ∧
    Store.ofLog disk name = .ok s ∧ Novel (es.flatMap (·.records)) ∧ d = undergoAll ⟨s, m⟩ es

namespace Reached

variable {name : String} {d : Desk LogFile}

theorem kept (h : Reached name d) : ∃ past, Kept name past d := by
  obtain ⟨disk, s, m, es, habsent, ho, hnovel, rfl⟩ := h
  obtain ⟨bs, hs⟩ := Store.opened_of_ofLog ho
  have hnone : bs = [] := by
    rcases hs.source with hfile | ⟨_, rfl⟩
    · rw [Disk.file?, habsent] at hfile
      cases hfile
    · rfl
  subst hnone
  have hfirst : Novel ([] ++ es.flatMap (·.records)) := hnovel
  exact ⟨_, ((Kept.of_opened hs m).undergoAll hfirst).1⟩

/-- An event that brings nothing leads on. -/
theorem undergo (h : Reached name d) {e : Event} (hquiet : e.records = []) :
    Reached name (d.undergo e) := by
  obtain ⟨disk, s, m, es, habsent, ho, hnovel, rfl⟩ := h
  refine ⟨disk, s, m, es ++ [e], habsent, ho, ?_, ?_⟩
  · rw [List.flatMap_append, List.flatMap_singleton, hquiet, List.append_nil]
    exact hnovel
  · rw [undergoAll, undergoAll, List.foldl_append]
    rfl

/-- Compacted again, a log can be written again, also after it was closed and opened. -/
theorem compacted_again (h : Reached name d) {e : Event} (hc : d.compacted e = 1) :
    (d.undergo e).compacted .compact = 1 ∧
      ((d.undergo e).undergo .restart).compacted .compact = 1 := by
  obtain ⟨_, hkept⟩ := h.kept
  have h₁ := h.undergo (records_of_compacted hc)
  obtain ⟨_, hkept₁⟩ := h₁.kept
  obtain ⟨_, hkept₂⟩ := (h₁.undergo (e := .restart) rfl).kept
  have hcan := (hkept.rewritten hc).writable_again
  exact ⟨hkept₁.compacted_of_writable hcan,
    hkept₂.compacted_of_writable (hkept₁.reopened.writable_of hcan)⟩

/-- **Compactions at two desks that show the same leave the same bytes.** -/
theorem log?_congr {name' : String} {d' : Desk LogFile} (h : Reached name d) (h' : Reached name' d')
    (hsame : Tables.Same d.store.tables d'.store.tables) {e e' : Event} (hc : d.compacted e = 1)
    (hc' : d'.compacted e' = 1) : (d.undergo e).log? name = (d'.undergo e').log? name' := by
  obtain ⟨_, hkept⟩ := h.kept
  obtain ⟨_, hkept'⟩ := h'.kept
  rw [(hkept.rewritten hc).log, (hkept'.rewritten hc').log, hsame.snapshotRecords_eq]

end Reached

/-- **A compacted log has one form.**  Compactions at two desks that show the same quotas and
ledgers write the same bytes, whatever led to these desks.  They write the records of the quotas in
ascending order, in whatever order these are found.  So a log that is compacted a second time stays
as it is, and so does one that is closed and opened in between. -/
theorem compaction_canonical :
    (∀ {name name' : String} {d d' : Desk LogFile}, Reached name d → Reached name' d' →
      Tables.Same d.store.tables d'.store.tables →
      ∀ {e e' : Event}, d.compacted e = 1 → d'.compacted e' = 1 →
        ∃ bs, (d.undergo e).log? name = some bs ∧ (d'.undergo e').log? name' = some bs) ∧
    ∀ {name : String} {d : Desk LogFile}, Reached name d → ∀ {e : Event}, d.compacted e = 1 →
      (∀ found : List Ulid, found.Perm d.store.tables.ids →
        (d.undergo e).log? name =
          some (frames (d.store.tables.recordsOf (Tables.ascending found)))) ∧
      let d₁ := d.undergo e
      let d₂ := d₁.undergo .restart
      (d₁.compacted .compact = 1 ∧ (d₁.undergo .compact).log? name = d₁.log? name) ∧
      (∃ s, Store.ofLog d₁.store.close name = .ok s ∧ d₂ = { d₁ with store := s }) ∧
      d₂.log? name = d₁.log? name ∧
      d₂.compacted .compact = 1 ∧ (d₂.undergo .compact).log? name = d₁.log? name := by
  refine ⟨?_, ?_⟩
  · intro name name' d d' h h' hsame e e' hc hc'
    obtain ⟨_, hkept⟩ := h.kept
    have hbytes := (hkept.rewritten hc).log
    exact ⟨_, hbytes, (h.log?_congr h' hsame hc hc').symm.trans hbytes⟩
  · intro name d h e hc
    obtain ⟨_, hkept⟩ := h.kept
    have hrewritten := hkept.rewritten hc
    have h₁ := h.undergo (records_of_compacted hc)
    have h₂ := h₁.undergo (e := .restart) rfl
    obtain ⟨_, hkept₁⟩ := h₁.kept
    have hreopened := hkept₁.reopened
    have htables := hrewritten.tables
    have htables' := hreopened.tables.trans htables
    obtain ⟨hagain, hagain'⟩ := h.compacted_again hc
    refine ⟨?_, ⟨hagain, ?_⟩, hreopened.opened, hreopened.log, hagain', ?_⟩
    · intro found hfound
      rw [hrewritten.log, Tables.recordsOf_ascending hfound]
    · exact h₁.log?_congr h (fun id => by rw [htables]; exact ⟨rfl, rfl⟩) hagain hc
    · exact h₂.log?_congr h (fun id => by rw [htables']; exact ⟨rfl, rfl⟩) hagain' hc

/-- Two quotas, each with an allocation; in between the log is compacted. -/
def directRun : List Event :=
  [.visit (.ask (.create ⟨⟨4, 1⟩, "Nord", "tour", tourDay⟩ ⟨⟨1⟩, ⟨⟨1⟩⟩, 0⟩)),
    .visit (.ask (.create ⟨⟨8, 0⟩, "Süd", "tour", tourDay⟩ ⟨⟨2⟩, ⟨⟨2⟩⟩, 1⟩)),
    .visit (.ask (.allocate ⟨⟨2⟩, 3, some "BK-1"⟩ ⟨⟨3⟩, ⟨⟨3⟩⟩, 2⟩)), .compact,
    .visit (.ask (.allocate ⟨⟨1⟩, 1, none⟩ ⟨⟨4⟩, ⟨⟨4⟩⟩, 3⟩))]

/-- The quotas come in the other order, one of them with terms that are replaced later, and a claim
fails for want of space. -/
def roundaboutRun : List Event :=
  [.visit (.ask (.create ⟨⟨1, 0⟩, "Ost", "tour", tourDay⟩ ⟨⟨2⟩, ⟨⟨5⟩⟩, 0⟩)),
    .visit (.ask (.revise ⟨⟨2⟩, ⟨⟨8, 0⟩, "Süd", "tour", tourDay⟩, ⟨⟨5⟩⟩⟩ ⟨⟨6⟩, ⟨⟨6⟩⟩, 1⟩)),
    .setWritable false, .visit (.ask (.allocate ⟨⟨2⟩, 3, none⟩ ⟨⟨7⟩, ⟨⟨7⟩⟩, 1⟩)), .setWritable true,
    .visit (.ask (.allocate ⟨⟨2⟩, 3, some "BK-1"⟩ ⟨⟨3⟩, ⟨⟨3⟩⟩, 2⟩)),
    .visit (.ask (.create ⟨⟨4, 1⟩, "Nord", "tour", tourDay⟩ ⟨⟨1⟩, ⟨⟨8⟩⟩, 2⟩)),
    .visit (.ask (.allocate ⟨⟨1⟩, 1, none⟩ ⟨⟨4⟩, ⟨⟨4⟩⟩, 3⟩))]

set_option maxRecDepth 100000 in
/-- Two runs lead to the same quotas and ledgers, and so to the same log once it is compacted. -/
theorem compaction_canonical_two_runs :
    let d := undergoAll ⟨emptyStore, .zero⟩ directRun
    let d' := undergoAll ⟨emptyStore, .zero⟩ roundaboutRun
    (Reached "a.wal" d ∧ Reached "a.wal" d' ∧ Tables.Same d.store.tables d'.store.tables ∧
      d.compacted (.compactIfDue 1) = 1 ∧ d'.compacted .compact = 1) ∧
    (d.log? "a.wal").map (·.length) ≠ (d'.log? "a.wal").map (·.length) ∧
    (∃ bs, (d.undergo (.compactIfDue 1)).log? "a.wal" = some bs ∧
      (d'.undergo .compact).log? "a.wal" = some bs) ∧
    (((d'.undergo .compact).undergo .restart).undergo .compact).log? "a.wal" =
      (d'.undergo .compact).log? "a.wal" := by
  intro d d'
  have hreached : Reached "a.wal" d :=
    ⟨.blank, emptyStore, .zero, directRun, rfl, ofLog_emptyStore, ⟨by decide, by decide⟩, rfl⟩
  have hreached' : Reached "a.wal" d' :=
    ⟨.blank, emptyStore, .zero, roundaboutRun, rfl, ofLog_emptyStore, ⟨by decide, by decide⟩, rfl⟩
  have hrun : d.store.tables.snapshotRecords = d'.store.tables.snapshotRecords ∧
      d.compacted (.compactIfDue 1) = 1 ∧ d'.compacted .compact = 1 ∧
      (d.log? "a.wal").map (·.length) ≠ (d'.log? "a.wal").map (·.length) := by
    decide +kernel
  obtain ⟨hsnapshot, hc, hc', hlengths⟩ := hrun
  -- sound tables are what their snapshot rebuilds
  have hsame : Tables.Same d.store.tables d'.store.tables := by
    obtain ⟨_, hkept⟩ := hreached.kept
    obtain ⟨_, hkept'⟩ := hreached'.kept
    have htables : d.store.tables = d'.store.tables := by
      rw [← hkept.sound.ofRecords_snapshotRecords, hsnapshot,
        hkept'.sound.ofRecords_snapshotRecords]
    exact fun id => by rw [htables]; exact ⟨rfl, rfl⟩
  obtain ⟨_, _, _, _, _, hagain⟩ := compaction_canonical.2 hreached' hc'
  exact ⟨⟨hreached, hreached', hsame, hc, hc'⟩, hlengths,
    compaction_canonical.1 hreached hreached' hsame hc hc', hagain⟩

end Desk

end Allotment
