/-
**Opening, compacting and closing a store.**

A store is opened on whatever bytes its log has; a log that is not there has none.  What cannot be
read is cut off, and from then on the log is at rest.  All that can be said about a store right
after it was opened is said here once, and likewise what a compaction does to a store whose log is
at rest.

Main definitions:

* `Allotment.Store.Opened` — a store that was opened on given bytes.

Main results:

* `Allotment.Store.ofLog_of_file?`, `Allotment.Store.ofLog_of_absent` — a log can be opened if it is
  a file or if its name is free;
* `Allotment.Store.opened_of_ofLog` — **whatever could be opened was opened on some bytes**;
* `Allotment.Store.compact_cases` — **a compaction takes effect or changes nothing but its temporary
  file**.
-/

import Allotment.Store
import Allotment.Proofs.Log.Writer

set_option relaxedAutoImplicit false
set_option autoImplicit false

namespace Allotment

open Log (Bytes frames scan)
open Log.Writer (Settled Writable)

namespace Store

/-! ### Opening -/

/-- **A store that was opened on the log with the bytes `bs`**; a log that is not there has none. -/
structure Opened (d : Disk) (name : String) (bs : Bytes) (s : Store LogFile) : Prop where
  /-- Where the bytes are from. -/
  source : (d.file? name).map (·.bytes) = some bs ∨ (d.entry? name = none ∧ bs = [])
  /-- The tables are what the log replays to. -/
  tables : s.tables = .ofRecords (Log.replay bs)
  /-- The log is at rest and ends behind its readable frames. -/
  rest : Settled s.journal.writer s.journal.disk (bs.take (scan bs).good)
  /-- The log has this name. -/
  named : s.journal.writer.name = name
  /-- No rival lies in wait. -/
  alone : s.rival = none
  /-- Bytes can be written if they could be written before. -/
  writable : s.journal.disk.writable = d.writable
  /-- No other file has changed. -/
  other : ∀ x, x ≠ name → s.journal.disk.entry? x = d.entry? x

/-- A log that is there can be opened. -/
theorem ofLog_of_file? {d : Disk} {name : String} {f : File} (h : d.file? name = some f) :
    ∃ s, ofLog d name = .ok s ∧ Opened d name f.bytes s := by
  obtain ⟨serial, bs⟩ := f
  have hfile := Disk.file?_setEntry h ⟨serial, bs.take (scan bs).good⟩
  refine ⟨.ofTables (.ofRecords (Log.replay bs))
    ⟨d.setEntry name (.file ⟨serial, bs.take (scan bs).good⟩),
      .ofHandle ⟨name, serial⟩ (bs.take (scan bs).good).length⟩, ?_,
    Or.inl (congrArg (Option.map _) h), rfl, Settled.ofHandle hfile, rfl, rfl,
    Disk.writable_setEntry _ _ _, ?_⟩
  · rw [ofLog, Log.Writer.recover_of_file? h]
    rfl
  · intro x hx
    exact (Disk.entry?_setEntry h _ x).trans (if_neg (Ne.symm hx))

/-- A log that is not there can be opened if there is a directory for it. -/
theorem ofLog_of_absent {d : Disk} {es : Entries} (hp : d.place = .directory es) {name : String}
    (h : d.entry? name = none) : ∃ s, ofLog d name = .ok s ∧ Opened d name [] s := by
  have hrest : Settled (.ofHandle ⟨name, d.nextSerial⟩ 0) (d.makeFile name).2 [] :=
    Settled.ofHandle (h := ⟨name, d.nextSerial⟩) (Disk.file?_makeFile hp name)
  refine ⟨.ofTables .empty ⟨(d.makeFile name).2, .ofHandle ⟨name, d.nextSerial⟩ 0⟩, ?_,
    Or.inr ⟨h, rfl⟩, rfl, hrest, rfl, rfl, ?_, fun x hx => Disk.entry?_makeFile d hx⟩
  · rw [ofLog, Log.Writer.recover_of_absent hp h]
    rfl
  · exact Disk.writable_setEntry _ _ _

/-- A directory cannot be opened as a log. -/
theorem ofLog_of_directory {d : Disk} {name : String} (h : d.entry? name = some .directory) :
    ofLog d name = .error .isADirectory := by
  cases hp : d.place with
  | missing => simp [Disk.entry?, hp] at h
  | occupied => simp [Disk.entry?, hp] at h
  | directory es =>
      rw [Disk.entry?_of_place hp] at h
      simp [ofLog, Log.Writer.recover, Log.scanFile, Disk.read, Disk.entries, hp, h, bind,
        Except.bind, Except.map]

/-- **Whatever could be opened was opened on some bytes.** -/
theorem opened_of_ofLog {d : Disk} {name : String} {s : Store LogFile}
    (h : ofLog d name = .ok s) : ∃ bs, Opened d name bs s := by
  cases hp : d.place with
  | missing =>
      simp [ofLog, Log.Writer.recover, Log.scanFile, Disk.read, Disk.entries, hp, Log.sizeOf,
        Disk.size?, Disk.entry?, Log.Scan.cut?, Log.Writer.ofFile, Disk.openAppend, bind,
        Except.bind, Except.map] at h
  | occupied =>
      simp [ofLog, Log.Writer.recover, Log.scanFile, Disk.read, Disk.entries, hp, bind,
        Except.bind, Except.map] at h
  | directory es =>
      cases he : d.entry? name with
      | none =>
          obtain ⟨s', ho, hs'⟩ := ofLog_of_absent hp he
          obtain rfl : s = s' := Except.ok.inj (h.symm.trans ho)
          exact ⟨_, hs'⟩
      | some e =>
          cases e with
          | directory =>
              rw [ofLog_of_directory he] at h
              cases h
          | file f =>
              obtain ⟨s', ho, hs'⟩ := ofLog_of_file? (Disk.file?_of_entry? he)
              obtain rfl : s = s' := Except.ok.inj (h.symm.trans ho)
              exact ⟨_, hs'⟩

/-- A store that was opened holds as many quotas as any other. -/
theorem ceiling_of_ofLog {d : Disk} {name : String} {s : Store LogFile}
    (h : ofLog d name = .ok s) : s.ceiling = Limit.quotasPerStore := by
  unfold ofLog at h
  cases hr : Log.Writer.recover d name with
  | error e =>
      rw [hr] at h
      cases h
  | ok opened =>
      rw [hr] at h
      cases h
      rfl

/-! ### Compacting and closing -/

/-- Closing a store whose log is at rest changes nothing. -/
theorem close_eq {s : Store LogFile} {bs : Bytes}
    (h : Settled s.journal.writer s.journal.disk bs) : s.close = s.journal.disk :=
  h.close_eq

/-- **A compaction takes effect or changes nothing but its temporary file.** -/
theorem compact_cases {s : Store LogFile} {bs : Bytes}
    (h : Settled s.journal.writer s.journal.disk bs) :
    (¬ Writable s.journal.disk s.journal.writer.name s.tables.snapshotRecords ∧
      ∃ e d', s.compact = (.error e, { s with journal := ⟨d', s.journal.writer⟩ }) ∧
        ∀ x, x ≠ Log.temporaryName s.journal.writer.name →
          d'.entry? x = s.journal.disk.entry? x) ∨
    (Writable s.journal.disk s.journal.writer.name s.tables.snapshotRecords ∧
      ∃ w' d', s.compact = (.ok (), { s with journal := ⟨d', w'⟩ }) ∧
        Settled w' d' (frames s.tables.snapshotRecords) ∧ w'.name = s.journal.writer.name ∧
        d'.writable = s.journal.disk.writable ∧
        d'.entry? (Log.temporaryName s.journal.writer.name) = none ∧
        ∀ x, x ≠ Log.temporaryName s.journal.writer.name → x ≠ s.journal.writer.name →
          d'.entry? x = s.journal.disk.entry? x) := by
  unfold compact
  rcases Log.Writer.compact_cases h.file s.tables.snapshotRecords with
    ⟨hnot, e, d', he, _, hother⟩ | ⟨hcan, w', d', he, hrest, hname, _, hw, htemp, hother⟩
  · left
    exact ⟨hnot, _, d', by rw [he], hother⟩
  · right
    exact ⟨hcan, w', d', by rw [he], hrest, hname, hw, htemp, hother⟩

/-- A compaction deals with the log only. -/
theorem tables_compact (s : Store LogFile) : s.compact.2.tables = s.tables := by
  unfold compact
  rcases s.journal.writer.compact s.journal.disk s.tables.snapshotRecords with ⟨_ | _, w, d⟩
  · rfl
  · rfl

/-- A compaction does not change whether bytes can be written. -/
theorem writable_compact {s : Store LogFile} {bs : Bytes}
    (h : Settled s.journal.writer s.journal.disk bs) :
    s.compact.2.journal.disk.writable = s.journal.disk.writable := by
  unfold compact
  rcases Log.Writer.compact_cases h.file s.tables.snapshotRecords with
    ⟨_, e, d', he, hw, _⟩ | ⟨_, w', d', he, _, _, _, hw, _⟩
  · rw [he]
    exact hw
  · rw [he]
    exact hw

end Store

end Allotment
