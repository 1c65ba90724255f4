/-
**What a log can touch.**

An open log reaches the disk through its own name only.  Its handle is for the file under this name;
a rollback opens and cuts that file again; a compaction writes the temporary file next to it and
lets it take the name of the log.  So whatever is done with a log, and whatever state the disk is
in, at most these two entries of the data directory change.  Nothing is asked of the log: it may
have lost its file, have refused batches or have bytes in its buffer.

Main definitions:

* `Allotment.Disk.Within` — a change of a disk that stays within some names;
* `Allotment.ownNames` — the names that belong to a log: its own and that of its temporary file;
* `Allotment.LogFile.Confined` — a log that has changed at most the entry under its name.

Main results:

* `Allotment.Log.Writer.recover_within`, `Allotment.Log.Writer.appendBatch_stays`,
  `Allotment.Log.Writer.compact_stays`, `Allotment.Log.Writer.close_within` — **what is done with a
  log stays within its names**;
* `Allotment.Desk.compact_stays` — a desk that compacts its log stays within the names of the log.
-/

import Allotment.Proofs.Journal

set_option relaxedAutoImplicit false
set_option autoImplicit false

namespace Allotment

open Log (Bytes temporaryName)

/-! ### Changes of a disk -/

namespace Disk

/-- **A change of a disk that stays within some names.** -/
structure Within (p : String → Prop) (d d' : Disk) : Prop where
  /-- Every other name stands for what it stood for. -/
  other : ∀ x, ¬ p x → d'.entry? x = d.entry? x
  /-- The data directory is where it was, and nothing has taken its place. -/
  place : d'.place = d.place ∨ ∃ es es', d.place = .directory es ∧ d'.place = .directory es'
  /-- Whether bytes can be written has not changed. -/
  writable : d'.writable = d.writable

namespace Within

variable {p q : String → Prop} {d d' d'' : Disk}

theorem refl (p : String → Prop) (d : Disk) : Within p d d := ⟨fun _ _ => rfl, Or.inl rfl, rfl⟩

theorem trans (h : Within p d d') (h' : Within p d' d'') : Within p d d'' where
  other x hx := (h'.other x hx).trans (h.other x hx)
  place := by
    rcases h.place with hp | ⟨es, es', hes, hes'⟩
    · rw [← hp]
      exact h'.place
    · rcases h'.place with hp' | ⟨es₁, es₂, _, hes₂⟩
      · exact Or.inr ⟨es, es', hes, hp'.trans hes'⟩
      · exact Or.inr ⟨es, es₂, hes, hes₂⟩
  writable := h'.writable.trans h.writable

/-- A change within fewer names. -/
theorem mono (h : Within p d d') (hpq : ∀ x, p x → q x) : Within q d d' :=
  ⟨fun x hx => h.other x fun hp => hx (hpq x hp), h.place, h.writable⟩

theorem file?_eq (h : Within p d d') {x : String} (hx : ¬ p x) : d'.file? x = d.file? x := by
  rw [file?, file?, h.other x hx]

end Within

variable {p : String → Prop} {d : Disk} {name : String}

theorem within_setEntry (hp : p name) (d : Disk) (e : Entry) : Within p d (d.setEntry name e) := by
  unfold setEntry
  cases hd : d.place with
  | missing => exact .refl p d
  | occupied => exact .refl p d
  | directory es =>
      refine ⟨?_, Or.inr ⟨es, _, hd, rfl⟩, rfl⟩
      intro x hx
      have hne : name ≠ x := fun h => hx (h ▸ hp)
      simp [ entry?, hd, Std.ExtTreeMap.getElem?_insert, hne]

theorem within_removeEntry (hp : p name) (d : Disk) : Within p d (d.removeEntry name) := by
  unfold removeEntry
  cases hd : d.place with
  | missing => exact .refl p d
  | occupied => exact .refl p d
  | directory es =>
      refine ⟨?_, Or.inr ⟨es, _, hd, rfl⟩, rfl⟩
      intro x hx
      have hne : name ≠ x := fun h => hx (h ▸ hp)
      simp [ entry?, hd, Std.ExtTreeMap.getElem?_erase, hne]

theorem within_makeFile (hp : p name) (d : Disk) : Within p d (d.makeFile name).2 :=
  let h := within_setEntry hp d (.file ⟨d.nextSerial, []⟩)
  ⟨h.other, h.place, h.writable⟩

theorem within_write {k : Handle} {bs : Bytes} {d' : Disk} (hp : p k.name)
    (h : d.write k bs = .ok d') : Within p d d' := by
  unfold write at h
  split at h
  · cases h
    exact .refl p d
  · split at h
    · cases h
      unfold append
      split
      · exact .refl p d
      · split
        · exact within_setEntry hp d _
        · exact .refl p d
    · cases h

/-- Opening a file gives a handle of its name. -/
theorem within_openAppend {k : Handle} {d' : Disk} (hp : p name)
    (h : d.openAppend name = .ok (k, d')) : k.name = name ∧ Within p d d' := by
  unfold openAppend at h
  split at h
  · cases h
  · split at h
    · cases h
      exact ⟨rfl, within_makeFile hp d⟩
    · cases h
    · cases h
      exact ⟨rfl, .refl p d⟩

theorem within_create {k : Handle} {d' : Disk} (hp : p name)
    (h : d.create name = .ok (k, d')) : k.name = name ∧ Within p d d' := by
  unfold create at h
  split at h
  · cases h
  · split at h
    · cases h
      exact ⟨rfl, within_makeFile hp d⟩
    · cases h
    · cases h
      exact ⟨rfl, within_setEntry hp d _⟩

theorem within_setLength {length : Nat} {d' : Disk} (hp : p name)
    (h : d.setLength name length = .ok d') : Within p d d' := by
  unfold setLength at h
  split at h
  · cases h
  · split at h
    · cases h
    · cases h
    · split at h
      · cases h
      · cases h
        exact within_setEntry hp d _

theorem within_rename {source target : String} {d' : Disk} (hs : p source) (ht : p target)
    (h : d.rename source target = .ok d') : Within p d d' := by
  unfold rename at h
  split at h
  · cases h
  · split at h
    · cases h
    · cases h
    · cases h
    · cases h
      exact (within_removeEntry hs d).trans (within_setEntry ht _ _)

end Disk

open Disk (Within)

/-! ### Sinks and writers -/

namespace Log

variable {p : String → Prop} {d d' : Disk}

namespace Sink

variable {s s' : Sink}

theorem flush_within (hp : p s.handle.name) (h : s.flush d = .ok (s', d')) :
    s'.handle = s.handle ∧ Within p d d' := by
  obtain ⟨hw, rfl⟩ := flush_eq_ok h
  exact ⟨rfl, Disk.within_write hp hw⟩

theorem put_within (hp : p s.handle.name) {chunk : Bytes} (h : s.put d chunk = .ok (s', d')) :
    s'.handle = s.handle ∧ Within p d d' := by
  obtain ⟨s₁, d₁, hm, hput⟩ := put_eq_ok h
  have hroom : s₁.handle = s.handle ∧ Within p d d₁ := by
    rcases makeRoom_eq_ok hm with hf | ⟨rfl, rfl⟩
    · exact flush_within hp hf
    · exact ⟨rfl, .refl p d₁⟩
  rcases hput with ⟨_, hw, rfl⟩ | ⟨rfl, rfl⟩
  · exact ⟨hroom.1, hroom.2.trans (Disk.within_write (hroom.1 ▸ hp) hw)⟩
  · exact hroom

/-- Whether or not all chunks are taken. -/
theorem putAll_within (s : Sink) (d : Disk) (hp : p s.handle.name) (chunks : List Bytes) :
    (s.putAll d chunks).2.1.handle = s.handle ∧ Within p d (s.putAll d chunks).2.2 := by
  induction chunks generalizing s d with
  | nil => exact ⟨rfl, .refl p d⟩
  | cons chunk chunks ih =>
      rw [putAll]
      cases hput : s.put d chunk with
      | error e => exact ⟨rfl, .refl p d⟩
      | ok sd =>
          obtain ⟨s₁, d₁⟩ := sd
          obtain ⟨hhandle, hwithin⟩ := put_within hp hput
          obtain ⟨hhandle', hwithin'⟩ := ih s₁ d₁ (hhandle ▸ hp)
          exact ⟨hhandle'.trans hhandle, hwithin.trans hwithin'⟩

end Sink

namespace Writer

/-- **What is done with a writer stays within its name**, and the writer keeps this name. -/
structure Stays (p : String → Prop) (w w' : Writer) (d d' : Disk) : Prop where
  /-- The writer keeps its name. -/
  name : w'.name = w.name
  /-- No entry has changed but those under the names. -/
  within : Within p d d'

namespace Stays

variable {w w' w'' : Writer} {d'' : Disk}

theorem refl (p : String → Prop) (w : Writer) (d : Disk) : Stays p w w d d := ⟨rfl, .refl p d⟩

theorem trans (h : Stays p w w' d d') (h' : Stays p w' w'' d' d'') : Stays p w w'' d d'' :=
  ⟨h'.name.trans h.name, h.within.trans h'.within⟩

end Stays

variable {w : Writer}

theorem append_stays (hp : p w.name) (d : Disk) (r : Record) :
    Stays p w (w.append d r).2.1 d (w.append d r).2.2 := by
  unfold append
  split
  · exact .refl p w d
  · obtain ⟨hhandle, hwithin⟩ := w.sink.putAll_within d hp (chunks r)
    rcases hs : w.sink.putAll d (chunks r) with ⟨e | u, s, d'⟩
    · rw [hs] at hhandle hwithin
      exact ⟨congrArg Handle.name hhandle, hwithin⟩
    · rw [hs] at hhandle hwithin
      exact ⟨congrArg Handle.name hhandle, hwithin⟩

theorem appendAll_stays (hp : p w.name) (d : Disk) (rs : List Record) :
    Stays p w (w.appendAll d rs).2.1 d (w.appendAll d rs).2.2 := by
  induction rs generalizing w d with
  | nil => exact .refl p w d
  | cons r rs ih =>
      have hfirst := append_stays hp d r
      rw [appendAll]
      rcases hs : w.append d r with ⟨e | u, w', d'⟩
      · rw [hs] at hfirst
        exact hfirst
      · rw [hs] at hfirst
        exact hfirst.trans (ih (hfirst.name ▸ hp) d')

theorem flush_stays {w' : Writer} (hp : p w.name) (h : w.flush d = .ok (w', d')) :
    Stays p w w' d d' := by
  obtain ⟨s, hf, rfl⟩ := flush_eq_ok h
  obtain ⟨hhandle, hwithin⟩ := Sink.flush_within hp hf
  exact ⟨congrArg Handle.name hhandle, hwithin⟩

/-- Whether or not the rollback succeeds. -/
theorem rollback_stays (hp : p w.name) (d : Disk) :
    Stays p w (w.rollback d).2.1 d (w.rollback d).2.2 := by
  unfold rollback
  simp only [name]
  cases ho : d.openAppend w.sink.handle.name with
  | error e => exact ⟨rfl, .refl p d⟩
  | ok kd =>
      obtain ⟨k, d₁⟩ := kd
      obtain ⟨hname, hwithin⟩ := Disk.within_openAppend hp ho
      simp only [Sink.ofHandle]
      cases hl : d₁.setLength k.name w.confirmed with
      | error e => exact ⟨hname, hwithin⟩
      | ok d₂ =>
          exact ⟨hname, hwithin.trans (Disk.within_setLength (hname ▸ hp) hl)⟩

/-- **Whether or not a batch is taken, nothing but the file of the log changes.** -/
theorem appendBatch_stays (hp : p w.name) (d : Disk) (rs : List Record) :
    Stays p w (w.appendBatch d rs).2.1 d (w.appendBatch d rs).2.2 := by
  have hall := appendAll_stays hp d rs
  unfold appendBatch
  rcases hs : w.appendAll d rs with ⟨e | u, w₁, d₁⟩
  · rw [hs] at hall
    exact hall.trans (rollback_stays (hall.name ▸ hp) d₁)
  · rw [hs] at hall
    have hp₁ : p w₁.name := hall.name ▸ hp
    cases hf : w₁.flush d₁ with
    | error e =>
        simp only [hf]
        exact hall.trans (rollback_stays hp₁ d₁)
    | ok wd =>
        simp only [hf]
        exact hall.trans (flush_stays hp₁ hf)

/-- Closing a log may still write to its file. -/
theorem close_within (hp : p w.name) (d : Disk) : Within p d (w.close d) := by
  unfold close
  cases hf : w.sink.flush d with
  | error e => exact .refl p d
  | ok sd => exact (Sink.flush_within hp hf).2

theorem ofFile_within {name : String} (hp : p name) (h : ofFile d name = .ok (w, d')) :
    w.name = name ∧ Within p d d' := by
  unfold ofFile at h
  cases ho : d.openAppend name with
  | error e =>
      rw [ho] at h
      cases h
  | ok kd =>
      rw [ho] at h
      cases h
      exact Disk.within_openAppend hp ho

/-- **Opening a log ends with opening its file**, which may have been cut before. -/
theorem recover_eq_ok {name : String} {rs : List Record} (h : recover d name = .ok (rs, w, d')) :
    ∃ d₁, (d₁ = d ∨ ∃ length, d.setLength name length = .ok d₁) ∧
      ofFile d₁ name = .ok (w, d') := by
  have hfile : ∀ {d₁ : Disk} {s : Scan},
      (ofFile d₁ name >>= fun wd => pure (s.records, wd.1, wd.2)) = .ok (rs, w, d') →
        ofFile d₁ name = .ok (w, d') := by
    intro d₁ s h
    cases ho : ofFile d₁ name with
    | error e =>
        rw [ho] at h
        cases h
    | ok wd =>
        rw [ho] at h
        cases h
        rfl
  unfold recover at h
  cases hs : scanFile d name with
  | error e =>
      rw [hs] at h
      cases h
  | ok s =>
      rw [hs] at h
      simp only [bind, Except.bind] at h
      cases hcut : s.cut? (sizeOf d name) with
      | none =>
          rw [hcut] at h
          exact ⟨d, Or.inl rfl, hfile h⟩
      | some length =>
          cases hl : d.setLength name length with
          | error e =>
              simp only [hcut, hl] at h
              cases h
          | ok d₁ =>
              simp only [hcut, hl] at h
              exact ⟨d₁, Or.inr ⟨length, hl⟩, hfile h⟩

/-- **Opening a log touches no other file**, also where it has to cut its own. -/
theorem recover_within {name : String} {rs : List Record} (hp : p name)
    (h : recover d name = .ok (rs, w, d')) : w.name = name ∧ Within p d d' := by
  obtain ⟨d₁, hcut, ho⟩ := recover_eq_ok h
  obtain ⟨hname, hopen⟩ := ofFile_within hp ho
  rcases hcut with rfl | ⟨length, hl⟩
  · exact ⟨hname, hopen⟩
  · exact ⟨hname, (Disk.within_setLength hp hl).trans hopen⟩

/-- The file into which a log is compacted. -/
theorem writeCompacted_within {name : String} (hp : p (temporaryName name)) (d : Disk)
    (rs : List Record) : Within p d (writeCompacted d name rs).2 := by
  unfold writeCompacted
  cases hc : d.create (temporaryName name) with
  | error e => exact .refl p d
  | ok kd =>
      obtain ⟨k, d₁⟩ := kd
      obtain ⟨hname, hwithin⟩ := Disk.within_create hp hc
      have hk : p (Sink.ofHandle k).handle.name := hname ▸ hp
      obtain ⟨hhandle, hput⟩ := (Sink.ofHandle k).putAll_within d₁ hk (rs.flatMap chunks)
      simp only
      rcases hs : (Sink.ofHandle k).putAll d₁ (rs.flatMap chunks) with ⟨e | u, s, d₂⟩
      · rw [hs] at hput
        exact hwithin.trans hput
      · rw [hs] at hhandle hput
        simp only
        cases hf : s.flush d₂ with
        | error e => exact hwithin.trans hput
        | ok sd => exact (hwithin.trans hput).trans (Sink.flush_within (hhandle ▸ hk) hf).2

/-- **A compaction touches the log and its temporary file only**, whether or not it succeeds. -/
theorem compact_stays (hname : p w.name) (htemp : p (temporaryName w.name)) (d : Disk)
    (rs : List Record) : Stays p w (w.compact d rs).2.1 d (w.compact d rs).2.2 := by
  have hwrite := writeCompacted_within htemp d rs
  unfold compact
  rcases hs : writeCompacted d w.name rs with ⟨e | u, d₁⟩
  · rw [hs] at hwrite
    exact ⟨rfl, hwrite⟩
  · rw [hs] at hwrite
    simp only [swap]
    cases hr : d₁.rename (temporaryName w.name) w.name with
    | error e => exact ⟨rfl, hwrite⟩
    | ok d₂ =>
        have hrename := hwrite.trans (Disk.within_rename htemp hname hr)
        simp only
        cases ho : ofFile d₂ w.name with
        | error e => exact ⟨rfl, hrename⟩
        | ok wd =>
            obtain ⟨hname', hopen⟩ := ofFile_within hname ho
            exact ⟨hname', hrename.trans hopen⟩

end Writer

end Log

open Log.Writer (Stays)

/-! ### Desks -/

/-- The names that belong to a log: its own, and that of the file in which it is compacted. -/
def ownNames (name x : String) : Prop := x = name ∨ x = temporaryName name

/-- **A log under a name that has changed at most the entry under this name**, since the disk was
`d`. -/
def LogFile.Confined (name : String) (d : Disk) (l : LogFile) : Prop :=
  l.writer.name = name ∧ Within (· = name) d l.disk

theorem ownNames_of_eq {name x : String} (h : x = name) : ownNames name x := Or.inl h

/-- **A log that has just been opened** has changed at most its own entry. -/
theorem Store.ofLog_confined {d : Disk} {name : String} {s : Store LogFile}
    (h : Store.ofLog d name = .ok s) : s.Over (LogFile.Confined name d) := by
  unfold Store.ofLog at h
  cases hr : Log.Writer.recover d name with
  | error e =>
      rw [hr] at h
      cases h
  | ok opened =>
      obtain ⟨rs, w, d'⟩ := opened
      rw [hr] at h
      cases h
      exact ⟨Log.Writer.recover_within (p := (· = name)) rfl hr, rfl⟩

/-- A batch leaves a log confined, whether or not it is taken. -/
theorem LogFile.lasting_confined (name : String) (d : Disk) :
    Journal.Lasting (LogFile.Confined name d) := by
  rintro l rs ⟨hname, hwithin⟩
  have hstays := Log.Writer.appendBatch_stays (p := (· = name)) hname l.disk rs
  exact ⟨hstays.name.trans hname, hwithin.trans hstays.within⟩

namespace Desk

variable {d : Desk LogFile} {name : String}

/-- Compacting the log of a desk, whether or not this succeeds. -/
theorem compact_stays (hname : d.store.journal.writer.name = name) :
    Stays (ownNames name) d.store.journal.writer d.compact.2.store.journal.writer
        d.store.journal.disk d.compact.2.store.journal.disk ∧
      d.compact.2.store.rival = d.store.rival := by
  have hstays := Log.Writer.compact_stays (p := ownNames name) (w := d.store.journal.writer)
    (Or.inl hname) (Or.inr (congrArg temporaryName hname)) d.store.journal.disk
    d.store.tables.snapshotRecords
  rw [store_compact]
  unfold Store.compact
  rcases hc : d.store.journal.writer.compact d.store.journal.disk d.store.tables.snapshotRecords
    with ⟨e | u, w', d'⟩
  · rw [hc] at hstays
    exact ⟨hstays, rfl⟩
  · rw [hc] at hstays
    exact ⟨hstays, rfl⟩

end Desk

end Allotment
