/-
**Desks that are struck by mishaps.**

Somebody may take the data directory away, put a file in its place or an empty directory, or let a
directory take the name of the log; and bytes can or cannot be written.  All this can happen between
any two visits, and while the log is closed.  The desk goes on from its tables, whatever its log is
good for: a log takes batches, though they may be lost, or it refuses every batch.  A batch that is
refused changes nothing, so the tables always come from records that the log has taken; and what
lies under the name of the log are such records, zeros or nothing.

Main definitions:

* `Allotment.Mishap`, `Allotment.Incident` — what may happen to the disk, and to a desk;
* `Allotment.Site` — a desk that is open, or the disk when it is closed, with `Site.undergo`;
* `Allotment.LogFile.Takes`, `Allotment.LogFile.Refuses` — logs that take batches, and logs that
  refuse them;
* `Allotment.Desk.Tended`, `Allotment.Desk.Reopenable` — what holds of a desk that is open, and of
  the disk when it is closed.

Main results:

* `Allotment.LogFile.took_cases` — a log that has refused batches may refuse all from then on;
* `Allotment.Desk.Tended.meet`, `Allotment.Site.Sane.undergoAll` — **what holds between two
  incidents goes on holding**, through any run.  -/

import Allotment.Proofs.Log.Adrift
import Allotment.Proofs.Durable

set_option relaxedAutoImplicit false
set_option autoImplicit false

namespace Allotment

open Log (frames Readable)
open Log.Writer (Settled Adrift Barred)

/-! ### Mishaps -/

/-- What may happen to the disk without the program having a hand in it. -/
inductive Mishap where
  /-- From now on bytes can be written, or cannot. -/
  | setWritable (writable : Bool)
  /-- The data directory vanishes. -/
  | removeDirectory
  /-- A regular file takes the place of the data directory. -/
  | occupy
  /-- An empty data directory is put in place unless one is there. -/
  | restoreDirectory
  /-- A directory takes the name of the log. -/
  | block

/-- The disk after a mishap. -/
def Mishap.strike (name : String) (d : Disk) : Mishap → Disk
  | .setWritable writable => { d with writable }
  | .removeDirectory => d.removeDirectory
  | .occupy => d.occupy
  | .restoreDirectory => d.restoreDirectory
  | .block => d.setEntry name .directory

/-- A mishap leaves the file of the log alone or takes it away. -/
theorem Mishap.file?_strike (m : Mishap) (name : String) (d : Disk) :
    (m.strike name d).file? name = d.file? name ∨ (m.strike name d).file? name = none := by
  cases m with
  | setWritable writable => exact Or.inl rfl
  | removeDirectory => exact Or.inr rfl
  | occupy => exact Or.inr rfl
  | restoreDirectory =>
      simp only [strike, Disk.restoreDirectory]
      cases hp : d.place with
      | missing => exact Or.inr (by simp [Disk.file?, Disk.entry?])
      | occupied => exact Or.inr (by simp [Disk.file?, Disk.entry?])
      | directory es => exact Or.inl rfl
  | block =>
      simp only [strike, Disk.setEntry]
      cases hp : d.place with
      | missing => exact Or.inl rfl
      | occupied => exact Or.inl rfl
      | directory es => exact Or.inr (by simp [Disk.file?, Disk.entry?])

/-! ### Logs -/

namespace LogFile

/-- **A log that takes batches**, and the records that it has taken.  They are in its file, or they
are lost because the file is gone. -/
def Takes (l : LogFile) (rs : List Record) : Prop :=
  Settled l.writer l.disk (frames rs) ∨ Adrift l.writer l.disk (frames rs)

/-- **A log that refuses every batch.** -/
def Refuses (l : LogFile) : Prop := Barred l.writer l.disk

variable {l l' : LogFile} {rs : List Record}

theorem Takes.usable (h : l.Takes rs) : l.writer.unusable = false := by
  rcases h with h | h
  · exact h.usable
  · exact h.usable

theorem Takes.buffer (h : l.Takes rs) : l.writer.sink.buffer = [] := by
  rcases h with h | h
  · exact h.buffer
  · exact h.buffer

/-- A log goes on taking batches if its file is left alone or taken away. -/
theorem Takes.of_file? (h : l.Takes rs) {d : Disk}
    (hfile : d.file? l.writer.name = l.disk.file? l.writer.name ∨
      d.file? l.writer.name = none) : Takes ⟨d, l.writer⟩ rs := by
  rcases h with h | h
  · rcases hfile with hsame | hgone
    · exact Or.inl { h with file := hsame.trans h.file }
    · exact Or.inr (h.adrift hgone)
  · refine Or.inr { h with gone := ?_ }
    rcases hfile with hsame | hgone
    · exact hsame.trans h.gone
    · exact hgone

/-- **What can come of a batch.**  It is taken if bytes can be written, and otherwise it is refused,
after which the log may refuse every batch. -/
theorem Takes.append_cases (h : l.Takes rs) {batch : List Record} (hne : batch ≠ []) :
    (l.disk.writable = true ∧ ∃ l', Journal.append l batch = (.ok (), l') ∧
      l'.Takes (rs ++ batch) ∧ l'.writer.name = l.writer.name ∧
      l'.disk.writable = l.disk.writable) ∨
    (l.disk.writable = false ∧ ∃ e l', Journal.append l batch = (.error e, l') ∧
      (l'.Takes rs ∨ l'.Refuses) ∧ l'.writer.name = l.writer.name ∧
      l'.disk.writable = l.disk.writable) := by
  rcases h with h | h
  · cases hw : l.disk.writable with
    | true =>
        left
        obtain ⟨l', hok, hw'⟩ := append_of_writable h hw batch
        refine ⟨rfl, l', hok, Or.inl ?_, ?_, hw'⟩
        · rw [Log.frames_append]
          exact settled_of_append h hok
        · rcases LogFile.append_cases h batch with ⟨e, he⟩ | ⟨l'', hok', _, hname, _⟩
          · rw [he] at hok
            cases (Prod.mk.inj hok).1
          · rw [← (Prod.mk.inj (hok'.symm.trans hok)).2]
            exact hname
    | false =>
        right
        refine ⟨rfl, ?_⟩
        obtain ⟨e, w₁, _, hrefused⟩ :=
          Log.Writer.appendBatch_of_not_writable hw h.usable h.buffer hne
        rcases LogFile.append_cases h batch with ⟨e', he⟩ | ⟨l', hok, _⟩
        · exact ⟨e', l, he, Or.inl (Or.inl h), rfl, hw⟩
        · simp only [Journal.append, hrefused] at hok
          cases (Prod.mk.inj hok).1
  · simp only [Journal.append]
    rcases h.appendBatch_cases hne with
      ⟨hw, w', hok, hadrift, hname⟩ | ⟨hw, e, w', d', he, hafter, hname, hw'⟩
    · left
      rw [← Log.frames_append] at hadrift
      rw [hok]
      exact ⟨hw, _, rfl, Or.inr hadrift, hname, rfl⟩
    · right
      rw [he]
      exact ⟨hw, e, _, rfl, hafter.imp Or.inl id, hname, hw'⟩

/-- A log that refuses batches goes on refusing them. -/
theorem Refuses.append (h : l.Refuses) {batch : List Record} (hne : batch ≠ []) :
    ∃ l', Journal.append l batch = (.error .logUnusable, l') ∧ l'.Refuses ∧
      l'.writer.name = l.writer.name := by
  obtain ⟨w', d', he, hbarred, hname, _⟩ := Barred.appendBatch h hne
  exact ⟨⟨d', w'⟩, by simp only [Journal.append, he], hbarred, hname⟩

/-- **What has become of a log that has taken records.**  It has taken them behind those it had; or
it has taken none, because bytes could not be written, and refuses every batch from then on. -/
theorem took_cases {rs' : List Record} (h : Journal.Took l rs' l') :
    (∀ rs, l.Takes rs → l'.writer.name = l.writer.name ∧
      (l'.Takes (rs ++ rs') ∨ (l.disk.writable = false ∧ rs' = [] ∧ l'.Refuses))) ∧
    (l.Refuses → l'.writer.name = l.writer.name ∧ rs' = [] ∧ l'.Refuses) := by
  induction h with
  | refl j =>
      refine ⟨fun rs h => ⟨rfl, Or.inl ?_⟩, fun h => ⟨rfl, rfl, h⟩⟩
      rw [List.append_nil]
      exact h
  | @refused l l₁ l' batch rs' e some append rest ih =>
      obtain ⟨htakes, hrefuses⟩ := ih
      refine ⟨?_, ?_⟩
      · intro rs h
        rcases h.append_cases some with ⟨_, l₂, hok, _⟩ | ⟨hw, e', l₂, he, hafter, hname, hw'⟩
        · rw [append] at hok
          cases (Prod.mk.inj hok).1
        · obtain rfl := (Prod.mk.inj (he.symm.trans append)).2
          rcases hafter with hafter | hafter
          · obtain ⟨hname', hlast⟩ := htakes rs hafter
            exact ⟨hname'.trans hname, hlast.imp_right fun hlast => ⟨hw, hlast.2⟩⟩
          · obtain ⟨hname', hlast⟩ := hrefuses hafter
            exact ⟨hname'.trans hname, Or.inr ⟨hw, hlast⟩⟩
      · intro h
        obtain ⟨l₂, he, hafter, hname⟩ := h.append some
        obtain rfl := (Prod.mk.inj (he.symm.trans append)).2
        obtain ⟨hname', hlast⟩ := hrefuses hafter
        exact ⟨hname'.trans hname, hlast⟩
  | @taken l l₁ l' batch rs' some append rest ih =>
      obtain ⟨htakes, _⟩ := ih
      refine ⟨?_, ?_⟩
      · intro rs h
        rcases h.append_cases some with ⟨hw, l₂, hok, hafter, hname, hw'⟩ | ⟨_, e, l₂, he, _⟩
        · obtain rfl := (Prod.mk.inj (hok.symm.trans append)).2
          obtain ⟨hname', hlast⟩ := htakes _ hafter
          rw [List.append_assoc] at hlast
          refine ⟨hname'.trans hname, Or.inl (hlast.resolve_right ?_)⟩
          -- bytes could be written, since the batch was taken
          rintro ⟨hnot, _⟩
          rw [hw', hw] at hnot
          cases hnot
        · rw [append] at he
          cases (Prod.mk.inj he).1
      · intro h
        obtain ⟨l₂, he, _⟩ := h.append some
        rw [append] at he
        cases (Prod.mk.inj he).1

end LogFile

/-! ### Incidents -/

/-- What can happen to a desk with a log. -/
inductive Incident where
  /-- Somebody visits. -/
  | visit (v : Visit)
  /-- The log is compacted. -/
  | compact
  /-- The log is compacted if enough records were appended. -/
  | compactIfDue (threshold : Nat)
  /-- Something happens to the disk. -/
  | mishap (m : Mishap)

/-- The records that an incident brings. -/
def Incident.records : Incident → List Record
  | .visit v => v.records
  | _ => []

namespace Desk

/-- The desk after an incident, whether or not what is asked for succeeds. -/
def meet (d : Desk LogFile) : Incident → Desk LogFile
  | .visit v => d.receive v
  | .compact => d.compact.2
  | .compactIfDue threshold => (d.compactIfDue threshold).2
  | .mishap m =>
    { d with store.journal.disk := m.strike d.store.journal.writer.name d.store.journal.disk }

/-- The desk after incidents. -/
def meetAll (d : Desk LogFile) (is : List Incident) : Desk LogFile := is.foldl meet d

/-- **What holds between two incidents**, if `past` is what was brought so far. -/
structure Tended (name : String) (past : List Record) (d : Desk LogFile) : Prop
    extends Orderly past d where
  /-- The log has this name. -/
  named : d.store.journal.writer.name = name
  /-- The log refuses every batch, or the tables come from the records that it has taken. -/
  log : (∃ rs, d.store.journal.Takes rs ∧ (∀ r ∈ rs, Readable r) ∧
    Tables.ofRecords rs = d.store.tables) ∨ d.store.journal.Refuses

/-- What a compaction does to a desk, wherever the file of its log is. -/
theorem compact_outcome (d : Desk LogFile) :
    (∃ e disk, d.compact = (.error e, { d with store.journal.disk := disk }) ∧
      disk.file? d.store.journal.writer.name =
        d.store.journal.disk.file? d.store.journal.writer.name) ∨
    ∃ l m, d.compact = (.ok (), ⟨{ d.store with journal := l }, m⟩) ∧
      Settled l.writer l.disk (frames d.store.tables.snapshotRecords) ∧
      l.writer.name = d.store.journal.writer.name := by
  unfold compact Store.compact
  rcases Log.Writer.compact_outcome d.store.journal.writer d.store.journal.disk
    d.store.tables.snapshotRecords with ⟨e, disk, he, hsame⟩ | ⟨w', disk, hok, hrest, hname⟩
  · rw [he]
    exact Or.inl ⟨_, disk, rfl, hsame⟩
  · rw [hok]
    exact Or.inr ⟨⟨disk, w'⟩, _, rfl, hrest, hname⟩

/-- **What lies under the name of a closed log**, if `past` is what was brought so far: records from
which the tables of some desk come, zeros, or no file. -/
def Reopenable (name : String) (past : List Record) (disk : Disk) : Prop :=
  ∀ f, disk.file? name = some f →
    (∃ (d : Desk LogFile) (rs : List Record), Orderly past d ∧ f.bytes = frames rs ∧
      (∀ r ∈ rs, Readable r) ∧ Tables.ofRecords rs = d.store.tables) ∨
    ∃ n, f.bytes = List.replicate n 0

namespace Tended

variable {name : String} {past brought : List Record} {d : Desk LogFile}

/-- More may have been brought. -/
theorem mono (h : Tended name past d) (brought : List Record) : Tended name (past ++ brought) d :=
  ⟨h.toOrderly.mono fun _ hr => List.mem_append_left _ hr, h.named, h.log⟩

/-- A log that takes no batch refuses every batch. -/
theorem refuses (h : Tended name past d) (hu : d.store.journal.writer.unusable = true) :
    d.store.journal.Refuses := by
  rcases h.log with ⟨rs, htakes, _⟩ | hrefuses
  · rw [htakes.usable] at hu
    cases hu
  · exact hrefuses

/-- The file of the log is left alone or taken away. -/
theorem of_file? (h : Tended name past d) {disk : Disk}
    (hfile : disk.file? d.store.journal.writer.name =
        d.store.journal.disk.file? d.store.journal.writer.name ∨
      disk.file? d.store.journal.writer.name = none) :
    Tended name past { d with store.journal.disk := disk } := by
  refine ⟨h.toOrderly.of_tables_eq rfl h.alone, h.named, ?_⟩
  rcases h.log with ⟨rs, htakes, hread, htables⟩ | hrefuses
  · exact Or.inl ⟨rs, htakes.of_file? hfile, hread, htables⟩
  · exact Or.inr (Barred.of_file? hrefuses hfile)

/-- A desk whose log is at rest over a snapshot. -/
theorem of_settled (h : Tended name past d) {l : LogFile} {m : Meter}
    (hrest : Settled l.writer l.disk (frames d.store.tables.snapshotRecords))
    (hname : l.writer.name = d.store.journal.writer.name) :
    Kept name past ⟨{ d.store with journal := l }, m⟩ :=
  ⟨h.toOrderly.of_tables_eq rfl h.alone,
    ⟨⟨_, hrest, h.sound.readable_snapshotRecords, h.sound.ofRecords_snapshotRecords⟩,
      hname.trans h.named⟩⟩

/-- A desk that is backed by its log. -/
theorem of_kept (h : Kept name past d) : Tended name past d := by
  obtain ⟨rs, hrest, hread, htables⟩ := h.backed.log
  exact ⟨h.toOrderly, h.backed.named, Or.inl ⟨rs, Or.inl hrest, hread, htables⟩⟩

theorem compact (h : Tended name past d) : Tended name past d.compact.2 := by
  rcases d.compact_outcome with ⟨e, disk, he, hsame⟩ | ⟨l, m, hok, hrest, hname⟩
  · rw [he]
    exact h.of_file? (Or.inl hsame)
  · rw [hok]
    exact of_kept (h.of_settled hrest hname)

/-- **A visit is one like any other**, or it comes to nothing: then the tables are as they were, and
the log refuses every batch.  A log that refuses batches goes on refusing them. -/
theorem receive (h : Tended name past d) {v : Visit} (hnovel : Novel (past ++ v.records)) :
    Tended name (past ++ v.records) (d.receive v) ∧
      ((d.receive v).store.journal.writer.unusable = true →
        (d.receive v).store.tables = d.store.tables) ∧
      (d.store.journal.writer.unusable = true →
        (d.receive v).store.journal.writer.unusable = true) := by
  obtain ⟨rs', hleaves⟩ := h.leaves hnovel.visit
  obtain ⟨htakes, hrefuses⟩ := LogFile.took_cases hleaves.took.journal
  have hnext := h.toOrderly.took hleaves.took hleaves.brought
  have hnothing : rs' = [] → (d.receive v).store.tables = d.store.tables := by
    rintro rfl
    exact hleaves.took.tables
  rcases h.log with ⟨rs, hlog, hread, htables⟩ | hlog
  · have husable : d.store.journal.writer.unusable ≠ true := by
      rw [hlog.usable]
      exact Bool.false_ne_true
    obtain ⟨hname, hlog' | ⟨_, hnone, hlog'⟩⟩ := htakes rs hlog
    · refine ⟨⟨hnext, hname.trans h.named, Or.inl ⟨rs ++ rs', hlog', ?_, ?_⟩⟩, ?_,
        fun hu => absurd hu husable⟩
      · exact List.forall_mem_append.2 ⟨hread, hleaves.took.lawful.readable⟩
      · rw [hleaves.took.tables, ← htables, Tables.ofRecords, List.foldl_append, Tables.ofRecords]
      · intro hu
        rw [hlog'.usable] at hu
        cases hu
    · exact ⟨⟨hnext, hname.trans h.named, Or.inr hlog'⟩, fun _ => hnothing hnone,
        fun hu => absurd hu husable⟩
  · obtain ⟨hname, hnone, hlog'⟩ := hrefuses hlog
    exact ⟨⟨hnext, hname.trans h.named, Or.inr hlog'⟩, fun _ => hnothing hnone,
      fun _ => hlog'.unusable⟩

/-- **What lies between two incidents.** -/
theorem meet (h : Tended name past d) {i : Incident} (hnovel : Novel (past ++ i.records)) :
    Tended name (past ++ i.records) (d.meet i) := by
  cases i with
  | visit v => exact (h.receive hnovel).1
  | compact => exact h.compact.mono _
  | compactIfDue threshold =>
      exact (compactIfDue_induction (Tended name past) h h.compact threshold).mono _
  | mishap m => exact (h.of_file? (m.file?_strike _ _)).mono _

/-- What is left when the log is closed. -/
theorem close (h : Tended name past d) : Reopenable name past d.store.close := by
  have hlost : d.store.journal.writer.sink.buffer = [] ∨
      d.store.journal.disk.file? d.store.journal.writer.name = none := by
    rcases h.log with ⟨rs, htakes, _⟩ | hrefuses
    · exact Or.inl htakes.buffer
    · exact hrefuses.buffer
  have hclosed : d.store.close = d.store.journal.disk := Log.Writer.close_of_lost hlost
  intro f hf
  rw [hclosed, ← h.named] at hf
  rcases h.log with ⟨rs, hrest | hadrift, hread, htables⟩ | hrefuses
  · left
    rw [Option.some.inj (hf.symm.trans hrest.file)]
    exact ⟨d, rs, h.toOrderly, rfl, hread, htables⟩
  · rw [hadrift.gone] at hf
    cases hf
  · exact Or.inr (hrefuses.blank f hf)

end Tended

namespace Reopenable

variable {name : String} {past : List Record} {disk : Disk}

/-- More may have been brought. -/
theorem mono (h : Reopenable name past disk) (brought : List Record) :
    Reopenable name (past ++ brought) disk := by
  intro f hf
  rcases h f hf with ⟨d, rs, hd, hrest⟩ | hzeros
  · exact Or.inl ⟨d, rs, hd.mono fun _ hr => List.mem_append_left _ hr, hrest⟩
  · exact Or.inr hzeros

/-- A mishap that strikes while the log is closed. -/
theorem strike (h : Reopenable name past disk) (m : Mishap) :
    Reopenable name past (m.strike name disk) := by
  intro f hf
  rcases m.file?_strike name disk with hsame | hgone
  · exact h f (hsame ▸ hf)
  · rw [hgone] at hf
    cases hf

/-- **A log that can be opened again is at rest**, and its records are those of the tables. -/
theorem reopen (h : Reopenable name past disk) {s : Store LogFile}
    (ho : Store.ofLog disk name = .ok s) (m : Meter) : Kept name past ⟨s, m⟩ := by
  obtain ⟨bs, hs⟩ := Store.opened_of_ofLog ho
  -- a log without records
  have hbare : Log.scan bs = ⟨[], 0⟩ → Kept name past ⟨s, m⟩ := by
    intro hscan
    have htables : s.tables = .empty := by rw [hs.tables, Log.replay, hscan]; rfl
    have hrest := hs.rest
    rw [hscan, List.take_zero] at hrest
    exact ⟨(Orderly.of_empty htables hs.alone).mono (by simp),
      ⟨⟨[], hrest, by simp, htables.symm⟩, hs.named⟩⟩
  rcases hs.source with hfile | ⟨_, rfl⟩
  · obtain ⟨f, hf, rfl⟩ := Option.map_eq_some_iff.1 hfile
    rcases h f hf with ⟨d, rs, hd, hbytes, hread, htables⟩ | ⟨n, hzeros⟩
    · rw [hbytes] at hs
      have hsame : s.tables = d.store.tables := by
        rw [hs.tables, Log.replay, Log.scan_frames hread, htables]
      exact ⟨hd.of_tables_eq hsame hs.alone, .of_opened hs hread⟩
    · exact hbare (hzeros ▸ Log.scan_replicate_zero n)
  · exact hbare rfl

end Reopenable

end Desk

/-! ### Logs that are closed and opened again -/

/-- A desk with a log that is open, or the disk if it is closed. -/
inductive Site where
  /-- The log is open. -/
  | opened (d : Desk LogFile)
  /-- The log is closed. -/
  | closed (disk : Disk)

/-- What can happen to a log over time. -/
inductive Happening where
  /-- Something happens to the desk; if the log is closed, only the disk is struck. -/
  | incident (i : Incident)
  /-- The log is closed. -/
  | close
  /-- The log is opened again, unless that fails. -/
  | reopen

/-- The records that are brought. -/
def Happening.records : Happening → List Record
  | .incident i => i.records
  | _ => []

namespace Site

/-- The log under a name after something has happened. -/
def undergo (name : String) : Site → Happening → Site
  | .opened d, .incident i => .opened (d.meet i)
  | .opened d, .close => .closed d.store.close
  | .closed disk, .incident (.mishap m) => .closed (m.strike name disk)
  | .closed disk, .reopen =>
    match Store.ofLog disk name with
    | .ok store => .opened ⟨store, .zero⟩
    | .error _ => .closed disk
  | site, _ => site

/-- The log under a name after many things have happened. -/
def undergoAll (name : String) (site : Site) (hs : List Happening) : Site :=
  hs.foldl (undergo name) site

/-- **What holds at any time**, if `past` is what was brought so far. -/
def Sane (name : String) (past : List Record) : Site → Prop
  | .opened d => d.Tended name past
  | .closed disk => Desk.Reopenable name past disk

namespace Sane

variable {name : String} {past : List Record} {site : Site}

theorem undergo (h : Sane name past site) {x : Happening} (hnovel : Novel (past ++ x.records)) :
    Sane name (past ++ x.records) (site.undergo name x) := by
  cases site with
  | opened d =>
      have hopen : d.Tended name past := h
      cases x with
      | incident i => exact hopen.meet hnovel
      | close => exact hopen.close.mono _
      | reopen => exact hopen.mono _
  | closed disk =>
      have hclosed : Desk.Reopenable name past disk := h
      cases x with
      | incident i =>
          cases i with
          | mishap m => exact (hclosed.strike m).mono _
          | visit v => exact hclosed.mono _
          | compact => exact hclosed.mono _
          | compactIfDue threshold => exact hclosed.mono _
      | close => exact hclosed.mono _
      | reopen =>
          simp only [Site.undergo]
          cases ho : Store.ofLog disk name with
          | error e => exact hclosed.mono _
          | ok s => exact (Desk.Tended.of_kept (hclosed.reopen ho .zero)).mono _

/-- **What holds at any time goes on holding.** -/
theorem undergoAll (h : Sane name past site) {xs : List Happening}
    (hnovel : Novel (past ++ xs.flatMap (·.records))) :
    Sane name (past ++ xs.flatMap (·.records)) (site.undergoAll name xs) := by
  induction xs generalizing past site with
  | nil =>
      rw [List.flatMap_nil, List.append_nil]
      exact h
  | cons x xs ih =>
      rw [List.flatMap_cons, ← List.append_assoc] at hnovel ⊢
      exact ih (h.undergo hnovel.left) hnovel

end Sane

end Site

end Allotment
