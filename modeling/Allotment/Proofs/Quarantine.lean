/-
**A log that refuses everything until it is compacted.**

A batch that fails and cannot be rolled back may leave anything in its file.  From then on the log
refuses every batch, whatever becomes of the disk, and even when a later rollback succeeds.  The
desk goes on: it answers questions from its tables, which stay as they were, and tells whoever wants
to change something that the storage has failed.  Only a compaction mends the log.  It writes the
tables anew, so nothing of what was refused can be in the file, and from then on the log is like any
other.

Main definitions:

* `Allotment.Desk.Mends`, `Allotment.Desk.Unmended` — incidents that mend the log, and runs without
  one;
* `Allotment.Quarantine.Stalled` — a desk whose log refuses everything;
* `Allotment.Quarantine.Mended` — a desk right after its log was mended;
* `Allotment.Quarantine.Works` — a desk whose log is like any other.

Main results:

* `Allotment.LogFile.botched_of_took` — a log becomes unusable only by a batch that cannot be rolled
  back;
* `Allotment.Desk.Tended.meet_of_unusable` — an incident that does not mend the log changes nothing;
* `Allotment.Quarantine.stalled_until_mended` — **from a batch that cannot be rolled back until the
  next compaction that succeeds every change is refused, and after that none is**.
-/

import Allotment.Proofs.Mishaps
import Allotment.Proofs.Verdict

set_option relaxedAutoImplicit false
set_option autoImplicit false

namespace Allotment

open Log.Writer (Barred)

/-! ### Logs that refuse batches -/

namespace LogFile

/-- **A log that becomes unusable was handed a batch that failed and could not be rolled back.** -/
theorem botched_of_took {l l' : LogFile} {rs : List Record} (h : Journal.Took l rs l')
    (hu : l.writer.unusable = false) (hu' : l'.writer.unusable = true) :
    ∃ (rs₁ : List Record) (l₁ : LogFile) (batch : List Record), Journal.Took l rs₁ l₁ ∧
      l₁.writer.Botched l₁.disk batch := by
  -- the first batch that leaves the log unusable is the one
  have hstep : ∀ {l l₁ : LogFile} {batch : List Record} {result : Except Fault Unit},
      Journal.append l batch = (result, l₁) → l.writer.unusable = false →
        l₁.writer.unusable = true → l.writer.Botched l.disk batch := by
    intro l l₁ batch result ha hl hl₁
    obtain rfl : (Journal.append l batch).2 = l₁ := congrArg Prod.snd ha
    rcases (Log.Writer.unusable_appendBatch_iff l.writer l.disk batch).1 hl₁ with hl' | hbotched
    · rw [hl] at hl'
      cases hl'
    · exact hbotched
  induction h with
  | refl l =>
      rw [hu] at hu'
      cases hu'
  | @refused l l₁ l' batch rs e some append rest ih =>
      cases hl₁ : l₁.writer.unusable with
      | false =>
          obtain ⟨rs₁, l₂, batch', htook, hbotched⟩ := ih hl₁ hu'
          exact ⟨rs₁, l₂, batch', .refused some append htook, hbotched⟩
      | true => exact ⟨[], l, batch, .refl l, hstep append hu hl₁⟩
  | @taken l l₁ l' batch rs some append rest ih =>
      cases hl₁ : l₁.writer.unusable with
      | false =>
          obtain ⟨rs₁, l₂, batch', htook, hbotched⟩ := ih hl₁ hu'
          exact ⟨_, l₂, batch', .taken some append htook, hbotched⟩
      | true => exact ⟨[], l, batch, .refl l, hstep append hu hl₁⟩

theorem refusing_refuses : Journal.Refusing Refuses (· = .logUnusable) := by
  intro l rs h hne
  obtain ⟨l', he, hl', _⟩ := h.append hne
  exact ⟨.logUnusable, l', rfl, he, hl'⟩

/-- A log that takes no batch as things are. -/
def Idle (l : LogFile) : Prop := l.Refuses ∨ (∃ rs, l.Takes rs) ∧ l.disk.writable = false

theorem refusing_idle : Journal.Refusing Idle fun _ => True := by
  rintro l rs (h | ⟨⟨rs₀, h⟩, hw⟩) hne
  · obtain ⟨l', he, hl', _⟩ := h.append hne
    exact ⟨_, l', trivial, he, Or.inl hl'⟩
  · rcases h.append_cases hne with ⟨hw', _⟩ | ⟨_, e, l', he, hl', _, hw'⟩
    · rw [hw] at hw'
      cases hw'
    · refine ⟨e, l', trivial, he, ?_⟩
      rcases hl' with hl' | hl'
      · exact Or.inr ⟨⟨rs₀, hl'⟩, hw'.trans hw⟩
      · exact Or.inl hl'

/-- The log after a rollback. -/
def rolledBack (l : LogFile) : LogFile :=
  ⟨(l.writer.rollback l.disk).2.2, (l.writer.rollback l.disk).2.1⟩

theorem Refuses.rolledBack {l : LogFile} (h : l.Refuses) : l.rolledBack.Refuses :=
  (Barred.rollback h).1

end LogFile

/-! ### Runs in which the log is not mended -/

namespace Desk

variable {name : String} {past : List Record} {d : Desk LogFile}

/-- Whether an incident mends the log: it is compacted. -/
def Mends (d : Desk LogFile) : Incident → Prop
  | .compact => d.compact.1 = .ok ()
  | .compactIfDue threshold => (d.compactIfDue threshold).1 = .ok true
  | .visit _ | .mishap _ => False

instance (d : Desk LogFile) : (i : Incident) → Decidable (d.Mends i)
  | .compact => inferInstanceAs (Decidable (_ = _))
  | .compactIfDue _ => inferInstanceAs (Decidable (_ = _))
  | .visit _ => inferInstanceAs (Decidable False)
  | .mishap _ => inferInstanceAs (Decidable False)

/-- Whether none of these incidents mends the log. -/
def Unmended (d : Desk LogFile) : List Incident → Prop
  | [] => True
  | i :: is => ¬ d.Mends i ∧ (d.meet i).Unmended is

instance decidableUnmended (d : Desk LogFile) : (is : List Incident) → Decidable (d.Unmended is)
  | [] => inferInstanceAs (Decidable True)
  | i :: is =>
    have := decidableUnmended (d.meet i) is
    inferInstanceAs (Decidable (_ ∧ _))

/-- A compaction that is made only if it is due is one like any other, or changes nothing. -/
theorem meet_compactIfDue (d : Desk LogFile) (threshold : Nat) :
    (¬ d.Mends (.compactIfDue threshold) ∧ d.meet (.compactIfDue threshold) = d) ∨
      ((d.Mends (.compactIfDue threshold) ↔ d.Mends .compact) ∧
        d.meet (.compactIfDue threshold) = d.meet .compact) := by
  simp only [Mends, meet, compactIfDue]
  split
  · right
    rcases d.compact with ⟨e | u, d'⟩
    · exact ⟨by simp, rfl⟩
    · exact ⟨by simp, rfl⟩
  · exact Or.inl ⟨by simp, rfl⟩

/-- An incident that mends the log is a compaction that succeeds. -/
theorem Mends.compact {i : Incident} (h : d.Mends i) :
    d.Mends .compact ∧ d.meet i = d.meet .compact := by
  cases i with
  | compact => exact ⟨h, rfl⟩
  | compactIfDue threshold =>
      rcases d.meet_compactIfDue threshold with ⟨hnot, _⟩ | ⟨hiff, hsame⟩
      · exact absurd h hnot
      · exact ⟨hiff.1 h, hsame⟩
  | visit v => exact h.elim
  | mishap m => exact h.elim

/-- A compaction that fails changes nothing but the disk. -/
theorem meet_compact_of_not_mends (h : ¬ d.Mends .compact) :
    (d.meet .compact).store.journal.writer = d.store.journal.writer ∧
      (d.meet .compact).store.tables = d.store.tables := by
  simp only [Mends, meet] at h ⊢
  rcases d.compact_outcome with ⟨e, disk, he, _⟩ | ⟨l, m, hok, _⟩
  · rw [he]
    exact ⟨rfl, rfl⟩
  · rw [hok] at h
    exact absurd rfl h

namespace Tended

/-- **An incident that does not mend a log that refuses everything changes nothing.** -/
theorem meet_of_unusable (h : Tended name past d) (hu : d.store.journal.writer.unusable = true)
    {i : Incident} (hnovel : Novel (past ++ i.records)) (hi : ¬ d.Mends i) :
    (d.meet i).store.journal.writer.unusable = true ∧
      (d.meet i).store.tables = d.store.tables := by
  cases i with
  | visit v =>
      obtain ⟨_, hsame, hstays⟩ := h.receive hnovel
      exact ⟨hstays hu, hsame (hstays hu)⟩
  | compact =>
      obtain ⟨hwriter, htables⟩ := meet_compact_of_not_mends hi
      exact ⟨hwriter ▸ hu, htables⟩
  | compactIfDue threshold =>
      rcases d.meet_compactIfDue threshold with ⟨_, hsame⟩ | ⟨hiff, hsame⟩
      · rw [hsame]
        exact ⟨hu, rfl⟩
      · obtain ⟨hwriter, htables⟩ := meet_compact_of_not_mends (mt hiff.2 hi)
        rw [hsame]
        exact ⟨hwriter ▸ hu, htables⟩
  | mishap m => exact ⟨hu, rfl⟩

/-- **As long as the log is not mended nothing changes.** -/
theorem meetAll_of_unusable (h : Tended name past d) (hu : d.store.journal.writer.unusable = true)
    {is : List Incident} (hnovel : Novel (past ++ is.flatMap (·.records))) (his : d.Unmended is) :
    Tended name (past ++ is.flatMap (·.records)) (d.meetAll is) ∧
      (d.meetAll is).store.journal.writer.unusable = true ∧
        (d.meetAll is).store.tables = d.store.tables := by
  induction is generalizing past d with
  | nil =>
      have hnone : past ++ [] = past := List.append_nil past
      exact ⟨hnone.symm ▸ h, hu, rfl⟩
  | cons i is ih =>
      rw [List.flatMap_cons, ← List.append_assoc] at hnovel ⊢
      obtain ⟨hu', htables⟩ := h.meet_of_unusable hu hnovel.left his.1
      obtain ⟨hlast, hu'', htables'⟩ := ih (h.meet hnovel.left) hu' hnovel his.2
      exact ⟨hlast, hu'', htables'.trans htables⟩

/-- If a visit leaves a log that refuses everything, no batch was taken before either. -/
theorem idle_of_receive (h : Tended name past d) {v : Visit} (hnovel : Novel (past ++ v.records))
    (hu : (d.receive v).store.journal.writer.unusable = true) : d.store.journal.Idle := by
  obtain ⟨rs', hleaves⟩ := h.leaves hnovel.visit
  obtain ⟨htakes, _⟩ := LogFile.took_cases hleaves.took.journal
  rcases h.log with ⟨rs, hlog, _⟩ | hlog
  · obtain ⟨_, hlog' | ⟨hw, _⟩⟩ := htakes rs hlog
    · rw [hlog'.usable] at hu
      cases hu
    · exact Or.inr ⟨⟨rs, hlog⟩, hw⟩
  · exact Or.inl hlog

end Tended

end Desk

namespace Quarantine

open Desk (Tended Kept Orderly)

/-! ### The three phases -/

/-- **A desk whose log refuses everything**, with the tables that it had as `d`. -/
structure Stalled (d d' : Desk LogFile) : Prop where
  /-- The tables are as they were. -/
  tables : d'.store.tables = d.store.tables
  /-- Every change is refused. -/
  shut : d'.Shut (· = .logUnusable)
  /-- Another rollback does not help, even if it succeeds. -/
  stays : ∀ rs ≠ [],
    (Journal.append d'.store.journal.rolledBack rs).1 = .error .logUnusable

/-- **A desk right after its log was mended**, with the tables that it had as `d`, if `rejected` is
what was brought in vain. -/
structure Mended (name : String) (rejected : List Record) (d d' : Desk LogFile) : Prop where
  /-- The tables are as they were. -/
  tables : d'.store.tables = d.store.tables
  /-- The file replays to the tables, and has nothing of what was brought in vain: neither a record
  nor a version nor an identifier of an allocation. -/
  file : ∃ f, d'.store.journal.disk.file? name = some f ∧
    Tables.ofRecords (Log.replay f.bytes) = d.store.tables ∧
      ∀ r ∈ rejected, ∀ r' ∈ Log.replay f.bytes, r' ≠ r ∧ r'.version ≠ r.version ∧
        ∀ i, r.grant? = some i → r'.grant? ≠ some i

/-- **A desk whose log is like any other**: it serves if bytes can be written, and opening the log
again gives the tables. -/
structure Works (name : String) (d : Desk LogFile) : Prop where
  /-- Changes are granted. -/
  serves : d.store.journal.disk.writable = true → d.Serves
  /-- They are replayed. -/
  replayed : ∃ s, Store.ofLog d.store.close name = .ok s ∧ s.tables = d.store.tables

variable {name : String} {past : List Record} {d d' : Desk LogFile}

theorem stalled_of_unusable (h : Tended name past d')
    (hu : d'.store.journal.writer.unusable = true) (ht : d'.store.tables = d.store.tables) :
    Stalled d d' where
  tables := ht
  shut := Desk.shut_of_refusing LogFile.refusing_refuses ⟨h.refuses hu, h.alone⟩
  stays rs hne := by
    obtain ⟨l', he, _⟩ := (h.refuses hu).rolledBack.append hne
    rw [he]

/-- What is not in the tables is not in a snapshot of them. -/
theorem not_in_snapshot (h : Orderly past d) {rejected : List Record}
    (hnovel : Novel (past ++ rejected)) {r r' : Record} (hr : r ∈ rejected)
    (hr' : r' ∈ d.store.tables.snapshotRecords) :
    r' ≠ r ∧ r'.version ≠ r.version ∧ ∀ i, r.grant? = some i → r'.grant? ≠ some i := by
  have hversion : r'.version ≠ r.version := by
    obtain ⟨id, s, hs, hmem⟩ := Tables.mem_snapshotRecords.1 hr'
    obtain ⟨r₀, hr₀, hv⟩ := h.versions id s hs
    have hv' : r'.version = s.version := by
      rcases List.mem_cons.1 hmem with rfl | hmem
      · rfl
      · obtain ⟨a, _, rfl⟩ := List.mem_map.1 hmem
        rfl
    rw [hv', hv]
    exact hnovel.version_ne hr₀ hr
  refine ⟨fun heq => hversion (congrArg _ heq), hversion, ?_⟩
  intro i hi hi'
  cases r' with
  | created quota terms version => cases hi'
  | revised quota terms version => cases hi'
  | allocated a version =>
      cases hi'
      have hfound := Tables.allocated_mem_snapshotRecords hr'
      have hbrought := List.mem_filterMap.2 ⟨r, hr, hi⟩
      rw [h.find?_eq_none (Record.not_mem_grants hnovel.grants hbrought)] at hfound
      cases hfound

/-- **What a compaction that succeeds leaves.** -/
theorem mended_of_compact (h : Tended name past d) (hi : d.Mends .compact) :
    Kept name past (d.meet .compact) ∧ (d.meet .compact).store.tables = d.store.tables ∧
      ∃ f, (d.meet .compact).store.journal.disk.file? name = some f ∧
        Log.replay f.bytes = d.store.tables.snapshotRecords := by
  simp only [Desk.Mends, Desk.meet] at hi ⊢
  rcases d.compact_outcome with ⟨e, disk, he, _⟩ | ⟨l, m, hok, hrest, hname⟩
  · rw [he] at hi
    cases hi
  · rw [hok]
    have hfile := hrest.file
    rw [hname.trans h.named] at hfile
    refine ⟨h.of_settled hrest hname, rfl, _, hfile, ?_⟩
    rw [Log.replay, Log.scan_frames h.sound.readable_snapshotRecords]

theorem works_of_kept (h : Kept name past d) : Works name d where
  serves hw := by
    obtain ⟨_, hrest, _⟩ := h.backed.log
    exact Desk.serves_of_obliging LogFile.obliging_free LogFile.lasting_free
      ⟨⟨⟨_, hrest⟩, hw⟩, h.alone⟩
  replayed := by
    obtain ⟨s, ho, ht, _⟩ := h.backed.reopen
    exact ⟨s, ho, ht⟩

/-! ### Every run -/

/-- **From a batch that cannot be rolled back until the next compaction that succeeds every change
is refused, and after that none is.**  A desk is opened on a log that is not there yet, and anything
may happen to it: visits, compactions, mishaps, and closing and opening the log again.  Then comes a
visit that leaves the log unusable, and more visits and mishaps, but no compaction that succeeds.
All this time every change is refused and the tables are as they were.  A compaction that succeeds
then leaves a file with the tables and nothing else, and from then on the log is like any other. -/
theorem stalled_until_mended {disk : Disk} {es : Entries} (hp : disk.place = .directory es)
    {name : String} (habsent : disk.entry? name = none) :
    ∃ s, Store.ofLog disk name = .ok s ∧
      ∀ (m : Meter) (front : List Happening) (d : Desk LogFile) (v : Visit)
        (during : List Incident),
        Site.undergoAll name (.opened ⟨s, m⟩) front = .opened d →
        (d.receive v).store.journal.writer.unusable = true →
        (d.receive v).Unmended during →
        Novel (front.flatMap (·.records) ++ (v.records ++ during.flatMap (·.records))) →
        let rejected := v.records ++ during.flatMap (·.records)
        let d' := (d.receive v).meetAll during
        d.Shut (fun _ => True) ∧ Stalled d d' ∧
          ∀ i, d'.Mends i →
            Mended name rejected d (d'.meet i) ∧
              ∀ later : List Event,
                Novel (front.flatMap (·.records) ++ rejected ++ later.flatMap (·.records)) →
                  Works name ((d'.meet i).undergoAll later) := by
  obtain ⟨s, ho, hs⟩ := Store.ofLog_of_absent hp habsent
  refine ⟨s, ho, ?_⟩
  intro m front d v during hfront hu hduring hnovel
  have hstart : Site.Sane name [] (.opened ⟨s, m⟩) := Tended.of_kept (Kept.of_opened hs m)
  have hsane := hstart.undergoAll hnovel.left
  rw [List.nil_append, hfront] at hsane
  have hd : Tended name (front.flatMap (·.records)) d := hsane
  have hassoc := hnovel
  rw [← List.append_assoc] at hassoc
  obtain ⟨hv, hsame, _⟩ := hd.receive hassoc.left
  obtain ⟨hd', hu', hsame'⟩ := hv.meetAll_of_unusable hu hassoc hduring
  rw [List.append_assoc] at hd'
  have htables := hsame'.trans (hsame hu)
  refine ⟨Desk.shut_of_refusing LogFile.refusing_idle
    ⟨hd.idle_of_receive hassoc.left hu, hd.alone⟩, stalled_of_unusable hd' hu' htables, ?_⟩
  intro i hi
  obtain ⟨hcompact, hmeet⟩ := hi.compact
  obtain ⟨hkept, htables', f, hf, hreplay⟩ := mended_of_compact hd' hcompact
  rw [hmeet]
  refine ⟨⟨htables'.trans htables, f, hf, ?_, ?_⟩, ?_⟩
  · rw [hreplay, ← htables, hd'.sound.ofRecords_snapshotRecords]
  · intro r hr r' hr'
    rw [hreplay, htables] at hr'
    exact not_in_snapshot hd.toOrderly hnovel hr hr'
  · intro later hlater
    exact works_of_kept (hkept.undergoAll hlater).1

/-- A quota of five units is created.  The directory vanishes and is put back empty, and no more
bytes can be written. -/
def vanishedFile : List Incident :=
  [.visit (.ask (.create ⟨⟨4, 1⟩, "Süd", "tour", ⟨2026, 10, 11, by decide⟩⟩ ⟨⟨1⟩, ⟨⟨1⟩⟩, 0⟩)),
   .mishap .removeDirectory, .mishap .restoreDirectory, .mishap (.setWritable false)]

/-- A desk to which this has happened. -/
def withoutFile : Desk LogFile := Desk.meetAll ⟨emptyStore, .zero⟩ vanishedFile

/-- A claim that fails and cannot be rolled back. -/
def failedClaim : Visit := .ask (.allocate ⟨⟨1⟩, 2, some "BK-1"⟩ ⟨⟨2⟩, ⟨⟨2⟩⟩, 1⟩)

/-- Bytes can be written again, and a claim is refused, but rolled back.  A compaction fails because
a directory has taken the name of the log, and the data directory is put back once more. -/
def rolledBack : List Incident :=
  [.mishap (.setWritable true), .visit (.ask (.allocate ⟨⟨1⟩, 1, none⟩ ⟨⟨3⟩, ⟨⟨3⟩⟩, 2⟩)),
   .mishap .block, .compact, .mishap .removeDirectory, .mishap .restoreDirectory]

/-- One more claim, after which the log is opened again. -/
def claimAndReopen : List Event :=
  [.visit (.ask (.allocate ⟨⟨1⟩, 5, none⟩ ⟨⟨4⟩, ⟨⟨4⟩⟩, 3⟩)), .restart]

set_option maxRecDepth 100000 in
/-- A claim on all five units is refused while the log is unusable, though a rollback has succeeded,
and granted when the log has been compacted. -/
theorem stalled_until_mended_despite_rollback :
    Disk.blank.place = .directory ∅ ∧ Disk.blank.entry? "a.wal" = none ∧
      Store.ofLog .blank "a.wal" = .ok emptyStore ∧
      Site.undergoAll "a.wal" (.opened ⟨emptyStore, .zero⟩) (vanishedFile.map .incident) =
        .opened withoutFile ∧
      (withoutFile.receive failedClaim).store.journal.writer.unusable = true ∧
      (withoutFile.receive failedClaim).Unmended rolledBack ∧
      Novel ((vanishedFile.map Happening.incident).flatMap (·.records) ++
        (failedClaim.records ++ rolledBack.flatMap (·.records)) ++
        claimAndReopen.flatMap (·.records)) ∧
      let d := (withoutFile.receive failedClaim).meetAll rolledBack
      let last := (d.meet .compact).undergoAll claimAndReopen
      withoutFile.Shut (fun _ => True) ∧ Stalled withoutFile d ∧ d.Mends .compact ∧
        Mended "a.wal" (failedClaim.records ++ rolledBack.flatMap (·.records)) withoutFile
          (d.meet .compact) ∧
        Works "a.wal" last ∧
        (d.store.journal.writer.rollback d.store.journal.disk).1 = .ok () ∧
        (answer d (.allocate ⟨⟨1⟩, 5, none⟩ ⟨⟨5⟩, ⟨⟨5⟩⟩, 4⟩)).1.refusal? =
          some (.notStored Fault.logUnusable.text) ∧
        (last.allocations ⟨1⟩).map (·.map (·.id)) = .ok [⟨4⟩] := by
  have hplace : Disk.blank.place = .directory ∅ := rfl
  have habsent : Disk.blank.entry? "a.wal" = none := rfl
  obtain ⟨s, ho, hall⟩ := stalled_until_mended hplace habsent
  obtain rfl := Except.ok.inj (ofLog_emptyStore.symm.trans ho)
  have hnovel : Novel ((vanishedFile.map Happening.incident).flatMap (·.records) ++
      (failedClaim.records ++ rolledBack.flatMap (·.records)) ++
      claimAndReopen.flatMap (·.records)) :=
    ⟨by decide, by decide⟩
  have hvanished : Site.undergoAll "a.wal" (.opened ⟨emptyStore, .zero⟩)
      (vanishedFile.map .incident) = .opened withoutFile := rfl
  have hu : (withoutFile.receive failedClaim).store.journal.writer.unusable = true := by
    decide +kernel
  have hunmended : (withoutFile.receive failedClaim).Unmended rolledBack := by decide +kernel
  have hmends : ((withoutFile.receive failedClaim).meetAll rolledBack).Mends .compact := by
    decide +kernel
  obtain ⟨hshut, hstalled, hmended⟩ :=
    hall .zero _ _ failedClaim rolledBack hvanished hu hunmended hnovel.left
  obtain ⟨hfile, hworks⟩ := hmended .compact hmends
  exact ⟨hplace, habsent, ho, hvanished, hu, hunmended, hnovel, hshut, hstalled, hmends, hfile,
    hworks claimAndReopen hnovel, by decide +kernel, by decide +kernel, by decide +kernel⟩

end Quarantine

end Allotment
