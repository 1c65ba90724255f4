/-
**What fails leaves no trace.**

An operation can fail at many depths: the request can break a limit, its quota can be missing or at
another version, the log can refuse the batch while it is being buffered or flushed, and a
compaction can fail before its temporary file is complete.  Whatever it is, the tables are as
before, the log counts as many appends as before, and the file of the log has the same bytes.  So
opening the log again gives what it would have given without the operation, and what is written
later stands right behind what was there.

Main definitions:

* `Allotment.Refused` — a change that was refused, and the desk afterwards;
* `Allotment.Reached` — the desks that can come about on a log that nobody else touches;
* `Allotment.Failed` — an operation that failed on such a desk;
* `Allotment.NoTrace` — what is the same after a failure.

Main results:

* `Allotment.Refused.store_eq` — **a change that is refused leaves the store as it was**;
* `Allotment.Reached.named` — in all desks that can come about the log is at rest;
* `Allotment.noTrace_of_failed` — **a failed operation leaves no trace**, with a log and without.
-/

import Allotment.Proofs.Acknowledged
import Allotment.Proofs.Events

set_option relaxedAutoImplicit false
set_option autoImplicit false

namespace Allotment

open Log (frames temporaryName)
open Log.Writer (Settled)
open Acknowledged (emptyLog fiveUnits)

/-! ### Changes that are refused -/

/-- **A change that was refused**, with the desk before and after. -/
inductive Refused {ι : Type} [Journal ι] : Desk ι → Desk ι → Prop where
  /-- A quota was not created. -/
  | create {d d' : Desk ι} {terms : Terms} {stamp : Stamp} {e : Refusal}
    (h : d.create terms stamp = (.error e, d')) : Refused d d'
  /-- Terms were not replaced. -/
  | revise {d d' : Desk ι} {r : Revision} {stamp : Stamp} {e : Refusal}
    (h : d.revise r stamp = (.error e, d')) : Refused d d'
  /-- A claim was not granted. -/
  | allocate {d d' : Desk ι} {c : Claim} {stamp : Stamp} {e : Refusal}
    (h : d.allocate c stamp = (.error e, d')) : Refused d d'
  /-- None of several claims made at the same time was granted. -/
  | together {d d' : Desk ι} {cs : List (Claim × Stamp)}
    {results : List (Except Refusal Allocation)} (h : d.allocateTogether cs = (results, d'))
    (hall : ∀ r ∈ results, ∃ e, r = .error e) : Refused d d'
  /-- A quota was not entered in the store. -/
  | insert {d : Desk ι} {s : Store ι} {id : Ulid} {terms : Terms} {version : Version} {e : Failure}
    (h : d.store.insert id terms version = (.error e, s)) : Refused d { d with store := s }
  /-- A conditional write was not made. -/
  | commit {d : Desk ι} {s : Store ι} {w : Write} {version : Version} {e : Failure}
    (h : d.store.commit w version = (.error e, s)) : Refused d { d with store := s }

/-- **A change that is refused leaves the store as it was.** -/
theorem Refused.store_eq {ι : Type} [Journal ι] {P : ι → Prop} (hP : Journal.Lasting P)
    (hF : Journal.Firm P) {d d' : Desk ι} (h : d.store.Over P) (hr : Refused d d') :
    d'.store = d.store := by
  cases hr with
  | create hc =>
      have hsame := Desk.create_eq_of_error hF h (congrArg Prod.fst hc)
      rwa [hc] at hsame
  | revise hc =>
      have hsame := Desk.revise_eq_of_error hF h (congrArg Prod.fst hc)
      rwa [hc] at hsame
  | allocate hc =>
      have hsame := Desk.allocate_eq_of_error hF h (congrArg Prod.fst hc)
      rwa [hc] at hsame
  | together hc hall =>
      have hsame := Desk.allocateTogether_eq_of_error hP hF h (by rw [hc]; exact hall)
      rwa [hc] at hsame
  | insert hc =>
      have hsame := Store.insert_eq_of_error hF h (congrArg Prod.fst hc)
      rwa [hc] at hsame
  | commit hc =>
      have hsame := Store.commit_eq_of_error hF h (congrArg Prod.fst hc)
      rwa [hc] at hsame

/-! ### Desks that can come about -/

/-- **The desks that can come about** on a log that nobody else touches, whatever the log was when
it was opened. -/
inductive Reached : Desk LogFile → Prop where
  /-- The log was opened. -/
  | opened {disk : Disk} {name : String} {s : Store LogFile} (h : Store.ofLog disk name = .ok s)
    (m : Meter) : Reached ⟨s, m⟩
  /-- Something happened. -/
  | undergo {d : Desk LogFile} (h : Reached d) (e : Event) : Reached (d.undergo e)
  /-- The store was asked to enter a quota. -/
  | insert {d : Desk LogFile} (h : Reached d) (id : Ulid) (terms : Terms) (version : Version) :
    Reached { d with store := (d.store.insert id terms version).2 }
  /-- The store was asked for a conditional write. -/
  | commit {d : Desk LogFile} (h : Reached d) (w : Write) (version : Version) :
    Reached { d with store := (d.store.commit w version).2 }

theorem Reached.undergoAll {d : Desk LogFile} (h : Reached d) (es : List Event) :
    Reached (d.undergoAll es) := by
  induction es generalizing d with
  | nil => exact h
  | cons e es ih => exact ih (h.undergo e)

/-- **In all desks that can come about the log is at rest**, under one name. -/
theorem Reached.named {d : Desk LogFile} (h : Reached d) :
    ∃ name, d.store.Over (LogFile.Named name) := by
  induction h with
  | opened ho m =>
      obtain ⟨bs, hs⟩ := Store.opened_of_ofLog ho
      exact ⟨_, ⟨⟨_, hs.rest⟩, hs.named⟩, hs.alone⟩
  | undergo _ e ih =>
      obtain ⟨name, hnamed⟩ := ih
      exact ⟨name, hnamed.undergo e⟩
  | insert _ id terms version ih =>
      obtain ⟨name, hnamed⟩ := ih
      exact ⟨name, hnamed.insert (LogFile.lasting_named name) id terms version⟩
  | commit _ w version ih =>
      obtain ⟨name, hnamed⟩ := ih
      exact ⟨name, hnamed.commit (LogFile.lasting_named name) w version⟩

theorem Reached.over {d : Desk LogFile} (h : Reached d) : d.store.Over LogFile.AtRest := by
  obtain ⟨name, hnamed⟩ := h.named
  exact ⟨hnamed.journal.1, hnamed.alone⟩

/-! ### Failures -/

/-- **An operation that failed**, with the desk before and after. -/
inductive Failed : Desk LogFile → Desk LogFile → Prop where
  /-- A change was refused. -/
  | refused {d d' : Desk LogFile} (h : Refused d d') : Failed d d'
  /-- The log was not compacted. -/
  | compact {d d' : Desk LogFile} {e : Refusal} (h : d.compact = (.error e, d')) : Failed d d'
  /-- The log was due to be compacted, and was not. -/
  | compactIfDue {d d' : Desk LogFile} {threshold : Nat} {e : Refusal}
    (h : d.compactIfDue threshold = (.error e, d')) : Failed d d'

/-- **What is the same after a failure**: the tables, and with them every quota, every ledger and
every allocation; the writer of the log, and with it the number of appends; and every file but the
temporary one. -/
structure Untouched (d d' : Desk LogFile) : Prop where
  /-- The quotas and the ledger are as before. -/
  tables : d'.store.tables = d.store.tables
  /-- The writer of the log is as before. -/
  writer : d'.store.journal.writer = d.store.journal.writer
  /-- No file but the temporary one has changed. -/
  other : ∀ x, x ≠ temporaryName d.store.journal.writer.name →
    d'.store.journal.disk.entry? x = d.store.journal.disk.entry? x

/-- A compaction that fails touches nothing but its temporary file. -/
theorem untouched_of_compact {d d' : Desk LogFile} (h : d.store.Over LogFile.AtRest) {e : Refusal}
    (hc : d.compact = (.error e, d')) : Untouched d d' := by
  obtain ⟨bs, hrest⟩ := h.journal
  unfold Desk.compact at hc
  rcases Store.compact_cases hrest with ⟨_, e', disk, he, hother⟩ | ⟨_, w', disk, he, _⟩
  · rw [he] at hc
    cases hc
    exact ⟨rfl, rfl, hother⟩
  · rw [he] at hc
    cases hc

/-- A failure touches nothing but the temporary file of a compaction. -/
theorem Failed.untouched {d d' : Desk LogFile} (h : d.store.Over LogFile.AtRest)
    (hf : Failed d d') : Untouched d d' := by
  cases hf with
  | refused hr =>
      have hsame := hr.store_eq LogFile.lasting_atRest LogFile.firm_atRest h
      exact ⟨by rw [hsame], by rw [hsame], fun x _ => by rw [hsame]⟩
  | compact hc => exact untouched_of_compact h hc
  | @compactIfDue threshold _ hc =>
      rcases d.compactIfDue_cases threshold with he | he
      · rw [he] at hc
        cases hc
      · rw [he] at hc
        rcases hd : d.compact with ⟨e | u, d''⟩
        · rw [hd] at hc
          cases hc
          exact untouched_of_compact h hd
        · rw [hd] at hc
          cases hc

/-- **That a failure has left no trace.** -/
structure NoTrace (d d' : Desk LogFile) : Prop extends Untouched d d' where
  /-- The log counts as many appends as before. -/
  appends : d'.store.appends = d.store.appends
  /-- The file of the log replays to what it replayed to before. -/
  file : ∃ f, d.store.journal.disk.file? d.store.journal.writer.name = some f ∧
    d'.store.journal.disk.file? d.store.journal.writer.name = some f
  /-- Opening the log again gives what it would have given before. -/
  reopened : ∃ s s', Store.ofLog d.store.close d.store.journal.writer.name = .ok s ∧
    Store.ofLog d'.store.close d.store.journal.writer.name = .ok s' ∧ s'.tables = s.tables
  /-- Whatever is acknowledged later stands right behind what was there. -/
  later : ∀ calls : List Acknowledged.Call, ∃ f g,
    d.store.journal.disk.file? d.store.journal.writer.name = some f ∧
    (Acknowledged.run d'.store calls).2.journal.disk.file?
      (Acknowledged.run d'.store calls).2.journal.writer.name = some g ∧
    g.bytes = f.bytes ++ frames (Acknowledged.run d'.store calls).1

/-- Where the log and its writer are untouched, there is no trace. -/
theorem Untouched.noTrace {d d' : Desk LogFile} (h : d.store.Over LogFile.AtRest)
    (hu : Untouched d d') : NoTrace d d' := by
  obtain ⟨bs, hrest⟩ := h.journal
  have hsame := hrest.of_entry?_eq (hu.other _ (Ne.symm (Log.Writer.temporaryName_ne _)))
  have hrest' : Settled d'.store.journal.writer d'.store.journal.disk bs := by
    rw [hu.writer]
    exact hsame
  obtain ⟨s, ho, hs⟩ := Store.ofLog_of_file? hrest.file
  obtain ⟨s', ho', hs'⟩ := Store.ofLog_of_file? hsame.file
  refine { hu with
    appends := congrArg (·.appends) hu.writer
    file := ⟨_, hrest.file, hsame.file⟩
    reopened := ⟨s, s', ?_, ?_, hs'.tables.trans hs.tables.symm⟩
    later := fun calls =>
      ⟨_, _, hrest.file, (Acknowledged.run_settled hrest' calls).file, rfl⟩ }
  · rw [Store.close_eq hrest, ho]
  · rw [Store.close_eq hrest', ho']

/-- **A failed operation leaves no trace.**  Without a log, a change that is refused leaves the
store as it was.  With a log, whatever it was when it was opened and whatever has happened since,
the tables, the number of appends and the file of the log are the same after a failed operation as
before it, and neither opening the log again nor what is acknowledged later brings anything of it
back. -/
theorem noTrace_of_failed :
    (∀ {m m' : Desk Volatile}, m.store.rival = none → Refused m m' → m'.store = m.store) ∧
      ∀ {d d' : Desk LogFile}, Reached d → Failed d d' → NoTrace d d' := by
  refine ⟨?_, ?_⟩
  · intro m m' halone hr
    have hlasting : Journal.Lasting fun _ : Volatile => True := fun _ _ _ => trivial
    have hfirm : Journal.Firm fun _ : Volatile => True := fun _ _ _ _ _ _ => rfl
    exact hr.store_eq hlasting hfirm ⟨trivial, halone⟩
  · intro d d' h hf
    exact (hf.untouched h.over).noTrace h.over

/-- A desk with a quota of five units, on a disk that takes no more bytes. -/
def outOfSpace : Desk LogFile :=
  Desk.undergoAll ⟨.ofTables .empty emptyLog, .zero⟩
    [.visit (.ask (.create fiveUnits ⟨⟨1⟩, ⟨⟨1⟩⟩, 0⟩)), .setWritable false]

/-- A claim and a compaction that fail for want of space, and without a log a claim on a quota that
does not exist. -/
theorem noTrace_of_failed_out_of_space :
    Reached outOfSpace ∧
      (∃ e d', outOfSpace.allocate ⟨⟨1⟩, 2, none⟩ ⟨⟨2⟩, ⟨⟨2⟩⟩, 1⟩ = (.error e, d') ∧
        Failed outOfSpace d' ∧ NoTrace outOfSpace d') ∧
      (∃ e d', outOfSpace.compact = (.error e, d') ∧ Failed outOfSpace d' ∧ NoTrace outOfSpace d') ∧
      ∃ m m' : Desk Volatile, m.store.rival = none ∧ Refused m m' ∧ m'.store = m.store := by
  have hopened : Store.ofLog .blank "a.wal" = .ok (.ofTables .empty emptyLog) := rfl
  have hreached : Reached outOfSpace := (Reached.opened hopened .zero).undergoAll _
  refine ⟨hreached, ?_, ?_, ?_⟩
  · have herror : (outOfSpace.allocate ⟨⟨1⟩, 2, none⟩ ⟨⟨2⟩, ⟨⟨2⟩⟩, 1⟩).1.toBool = false := by
      decide +kernel
    rcases hc : outOfSpace.allocate ⟨⟨1⟩, 2, none⟩ ⟨⟨2⟩, ⟨⟨2⟩⟩, 1⟩ with ⟨e | a, d'⟩
    · have hfailed : Failed outOfSpace d' := .refused (.allocate hc)
      exact ⟨e, d', rfl, hfailed, noTrace_of_failed.2 hreached hfailed⟩
    · rw [hc] at herror
      cases herror
  · have herror : outOfSpace.compact.1.toBool = false := by decide +kernel
    rcases hc : outOfSpace.compact with ⟨e | a, d'⟩
    · have hfailed : Failed outOfSpace d' := .compact hc
      exact ⟨e, d', rfl, hfailed, noTrace_of_failed.2 hreached hfailed⟩
    · rw [hc] at herror
      cases herror
  · have hc : Desk.allocate ⟨.ofTables .empty Volatile.volatile, .zero⟩ ⟨⟨1⟩, 2, none⟩
        ⟨⟨2⟩, ⟨⟨2⟩⟩, 1⟩ = (.error (.unknownQuota ⟨1⟩), _) := rfl
    exact ⟨_, _, rfl, .allocate hc, noTrace_of_failed.1 rfl (.allocate hc)⟩

end Allotment
