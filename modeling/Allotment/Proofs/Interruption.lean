/-
**A compaction that is cut short.**

A log is compacted in steps: the temporary file is made, the snapshot is written to it piece by
piece, and at last the file takes the name of the log.  The program can be cut short, or a step can
fail, at any point.  This module looks at every disk that is left behind.

Up to the last step the log has not been touched, and behind it the log is the whole snapshot; there
is nothing in between, since a file takes a name all at once.  The old records and the snapshot are
different, but they rebuild the same tables.

What is left of the temporary file is litter.  A log is opened without a look at it, the next
compaction begins by emptying it, and its name is not that of a log.  So whether it is there, and
what it holds, makes no difference.

Main definitions:

* `Allotment.Interruption.Unfinished`, `Allotment.Interruption.Stop` — the disks that a compaction
  passes through before the log is replaced, and all of them;
* `Allotment.Interruption.Littered` — two disks that differ at most in a temporary file;
* `Allotment.Interruption.Alike` — two stores with the same tables and the same log on such disks;
* `Allotment.Interruption.Reached` — the desks that can come about, also by compactions that were
  cut short and by litter.

Main results:

* `Allotment.Interruption.unfinished_putAll`, `Allotment.Interruption.stop_compact` — what a
  compaction leaves after some of its chunks, and when it returns, is among these disks;
* `Allotment.Interruption.Littered.of_unfinished`, `Allotment.Interruption.Littered.of_putFile` —
  what a compaction leaves behind, and whatever else is put under that name, is litter;
* `Allotment.Interruption.Littered.ofLog_cases`, `Allotment.Interruption.Littered.discover_eq`,
  `Allotment.Interruption.Alike.compact` — **litter makes no difference**;
* `Allotment.Interruption.crash_safe` — **wherever a compaction is cut short, the log replays to the
  live tables**.
-/

import Allotment.Proofs.Durable
import Allotment.Proofs.Tenants

set_option relaxedAutoImplicit false
set_option autoImplicit false

namespace Allotment

open Log (Bytes Sink Readable frames chunks temporaryName)
open Log.Writer (Settled Writable writeCompacted)

namespace Interruption

/-! ### Where a compaction can stop -/

/-- **What is on the disk while the log `name` has not been replaced yet**: the temporary file has
not been made, or it holds a front of what is to be written. -/
inductive Unfinished (d : Disk) (name : String) (rs : List Record) : Disk → Prop
  | unbegun : Unfinished d name rs d
  | writing {h : Handle} {d₁ : Disk} (n : Nat) : d.create (temporaryName name) = .ok (h, d₁) →
      Unfinished d name rs (d₁.append h ((frames rs).take n))

/-- **What is on the disk at some point of a compaction.** -/
inductive Stop (d : Disk) (name : String) (rs : List Record) : Disk → Prop
  | unfinished {x : Disk} : Unfinished d name rs x → Stop d name rs x
  | renamed {h : Handle} {d₁ x : Disk} : d.create (temporaryName name) = .ok (h, d₁) →
      (d₁.append h (frames rs)).rename (temporaryName name) name = .ok x → Stop d name rs x

section Stops

variable {d x : Disk} {es : Entries} {name : String} {rs : List Record}

/-- A temporary file that was just made is empty, and all else is as it was. -/
theorem made (hp : d.place = .directory es) {h : Handle} {d₁ : Disk}
    (hc : d.create (temporaryName name) = .ok (h, d₁)) :
    h.name = temporaryName name ∧ d₁.file? h.name = some ⟨h.serial, []⟩ ∧
      d₁.writable = d.writable ∧ d.entry? (temporaryName name) ≠ some .directory ∧
      ∀ y, y ≠ temporaryName name → d₁.entry? y = d.entry? y := by
  rcases Disk.create_cases hp (temporaryName name) with
    ⟨_, hc'⟩ | ⟨hfree, serial, d', hc', hf, hw, hother⟩
  · rw [hc] at hc'
    cases hc'
  · rw [hc] at hc'
    cases hc'
    exact ⟨rfl, hf, hw, hfree, hother⟩

/-- What a sink for the temporary file has written of the records is a front of them. -/
theorem unfinished_of_wrote (hp : d.place = .directory es) {h : Handle} {d₁ d' : Disk}
    (hc : d.create (temporaryName name) = .ok (h, d₁)) {s : Sink} {new data : Bytes}
    (hw : Sink.Wrote (.ofHandle h) s d₁ d' [] new data) (hfront : data <+: frames rs) :
    Unfinished d name rs d' := by
  obtain ⟨_, hf, _, _, _⟩ := made hp hc
  have hnew : new <+: frames rs := by
    have hdata := hw.data
    rw [Sink.ofHandle, List.nil_append] at hdata
    exact (hdata ▸ List.prefix_append new s.buffer).trans hfront
  have hdisk : d' = d₁.append h ((frames rs).take new.length) := by
    rw [← List.prefix_iff_eq_take.1 hnew, Disk.append_of_file? hf]
    exact hw.disk
  rw [hdisk]
  exact .writing _ hc

/-- **After any number of chunks the compaction is unfinished.** -/
theorem unfinished_putAll (hp : d.place = .directory es) {h : Handle} {d₁ : Disk}
    (hc : d.create (temporaryName name) = .ok (h, d₁)) (k : Nat) :
    Unfinished d name rs ((Sink.ofHandle h).putAll d₁ ((rs.flatMap chunks).take k)).2.2 := by
  obtain ⟨_, hf, _, _, _⟩ := made hp hc
  obtain ⟨new, data, hw, hfront, _⟩ :=
    Sink.putAll_wrote (s := .ofHandle h) hf ((rs.flatMap chunks).take k)
  refine unfinished_of_wrote hp hc hw (hfront.trans ?_)
  rw [← Log.flatten_flatMap_chunks]
  conv_rhs => rw [← List.take_append_drop k (rs.flatMap chunks), List.flatten_append]
  exact List.prefix_append _ _

/-- Writing the temporary file leaves the compaction unfinished; if it succeeds, all has been
written. -/
theorem unfinished_writeCompacted (hp : d.place = .directory es) (name : String)
    (rs : List Record) :
    Unfinished d name rs (writeCompacted d name rs).2 ∧
      ((writeCompacted d name rs).1 = .ok () → ∃ h d₁,
        d.create (temporaryName name) = .ok (h, d₁) ∧
          (writeCompacted d name rs).2 = d₁.append h (frames rs)) := by
  unfold writeCompacted
  cases hc : d.create (temporaryName name) with
  | error e => exact ⟨.unbegun, fun hok => by cases hok⟩
  | ok made' =>
      obtain ⟨h, d₁⟩ := made'
      obtain ⟨_, hf, _, _, _⟩ := made hp hc
      obtain ⟨new, data, hw, hfront, hall⟩ :=
        Sink.putAll_wrote (s := .ofHandle h) hf (rs.flatMap chunks)
      rw [Log.flatten_flatMap_chunks] at hfront hall
      simp only
      rcases hput : (Sink.ofHandle h).putAll d₁ (rs.flatMap chunks) with ⟨result, s₂, d₂⟩
      rw [hput] at hw hall
      cases result with
      | error e => exact ⟨unfinished_of_wrote hp hc hw hfront, fun hok => by cases hok⟩
      | ok u =>
          simp only
          cases hflush : s₂.flush d₂ with
          | error e => exact ⟨unfinished_of_wrote hp hc hw hfront, fun hok => by cases hok⟩
          | ok sd =>
              obtain ⟨s₃, d₃⟩ := sd
              obtain ⟨hw', hempty⟩ := Sink.flush_wrote (hw.file hf) hflush
              have htotal := hw.trans hw'
              rw [List.append_nil] at htotal
              refine ⟨unfinished_of_wrote hp hc htotal hfront, fun _ => ⟨h, d₁, rfl, ?_⟩⟩
              -- the buffer is empty, so all that was taken is in the file
              have hdata := htotal.data
              rw [hempty, hall rfl, List.append_nil] at hdata
              rw [Disk.append_of_file? hf]
              simp only
              rw [htotal.disk, hdata]
              rfl

/-- An unfinished compaction has touched nothing but the temporary file. -/
theorem Unfinished.entry?_eq (hx : Unfinished d name rs x) (hp : d.place = .directory es)
    {y : String} (hy : y ≠ temporaryName name) : x.entry? y = d.entry? y := by
  cases hx with
  | unbegun => rfl
  | writing n hc =>
      obtain ⟨hname, hf, _, _, hother⟩ := made hp hc
      rw [Disk.append_of_file? hf, Disk.entry?_setEntry hf, hname, if_neg (Ne.symm hy), hother y hy]

/-- The temporary file of a compaction that has stopped is a file. -/
theorem Unfinished.free (hx : Unfinished d name rs x) (hp : d.place = .directory es)
    (hfree : d.entry? (temporaryName name) ≠ some .directory) :
    x.entry? (temporaryName name) ≠ some .directory := by
  cases hx with
  | unbegun => exact hfree
  | writing n hc =>
      obtain ⟨hname, hf, _, _, _⟩ := made hp hc
      rw [Disk.append_of_file? hf, Disk.entry?_setEntry hf, if_pos hname]
      exact nofun

theorem Unfinished.writable_eq (hx : Unfinished d name rs x) (hp : d.place = .directory es) :
    x.writable = d.writable := by
  cases hx with
  | unbegun => rfl
  | writing n hc =>
      obtain ⟨_, hf, hw, _, _⟩ := made hp hc
      rw [Disk.append_of_file? hf, Disk.writable_setEntry, hw]

/-- A disk on which the log has just been replaced. -/
theorem renamed_cases {f : File} (hf : d.file? name = some f) {h : Handle} {d₁ : Disk}
    (hc : d.create (temporaryName name) = .ok (h, d₁))
    (hr : (d₁.append h (frames rs)).rename (temporaryName name) name = .ok x) :
    x.file? name = some ⟨h.serial, frames rs⟩ ∧ x.entry? (temporaryName name) = none := by
  obtain ⟨es, hp, _⟩ := Disk.file?_eq_some_iff.1 hf
  have hne := Log.Writer.temporaryName_ne name
  obtain ⟨hname, hmade, _, _, hother⟩ := made hp hc
  have hlog : d₁.entry? name = some (.file f) :=
    (hother name (Ne.symm hne)).trans (Disk.entry?_of_file? hf)
  rw [Disk.append_of_file? hmade, List.nil_append] at hr
  have hsource := Disk.file?_setEntry hmade ⟨h.serial, frames rs⟩
  rw [hname] at hr hsource hmade
  have htarget : Disk.entry? (d₁.setEntry (temporaryName name) (.file ⟨h.serial, frames rs⟩)) name ≠
      some .directory := by
    rw [Disk.entry?_setEntry hmade, if_neg hne, hlog]
    simp
  obtain ⟨x', hr', hx', htemp, _⟩ := Disk.rename_of_file? hne hsource htarget
  obtain rfl : x' = x := Except.ok.inj (hr'.symm.trans hr)
  exact ⟨hx', htemp⟩

/-- **There is nothing in between**: at every point of a compaction the log is the old file or
holds all of the new records. -/
theorem Stop.file?_cases {f : File} (hf : d.file? name = some f) (hx : Stop d name rs x) :
    x.file? name = some f ∨ ∃ serial, x.file? name = some ⟨serial, frames rs⟩ := by
  cases hx with
  | unfinished hx =>
      obtain ⟨es, hp, _⟩ := Disk.file?_eq_some_iff.1 hf
      have hsame := hx.entry?_eq hp (Ne.symm (Log.Writer.temporaryName_ne name))
      exact Or.inl (Disk.file?_of_entry? (hsame.trans (Disk.entry?_of_file? hf)))
  | renamed hc hr => exact Or.inr ⟨_, (renamed_cases hf hc hr).1⟩

/-- No directory gets in the way of a compaction by itself. -/
theorem Stop.free {f : File} (hf : d.file? name = some f) (hx : Stop d name rs x)
    (hfree : d.entry? (temporaryName name) ≠ some .directory) :
    x.entry? (temporaryName name) ≠ some .directory := by
  cases hx with
  | unfinished hx =>
      obtain ⟨es, hp, _⟩ := Disk.file?_eq_some_iff.1 hf
      exact hx.free hp hfree
  | renamed hc hr =>
      rw [(renamed_cases hf hc hr).2]
      exact nofun

/-- **When a compaction returns, whether or not it has failed, it has stopped at one of these
points.** -/
theorem stop_compact {w : Log.Writer} {f : File} (hf : d.file? w.name = some f)
    (rs : List Record) : Stop d w.name rs (w.compact d rs).2.2 := by
  obtain ⟨es, hp, _⟩ := Disk.file?_eq_some_iff.1 hf
  obtain ⟨hstop, hall⟩ := unfinished_writeCompacted hp w.name rs
  unfold Log.Writer.compact
  rcases hw : writeCompacted d w.name rs with ⟨result, d'⟩
  rw [hw] at hstop hall
  cases result with
  | error e => exact .unfinished hstop
  | ok u =>
      obtain ⟨h, d₁, hc, rfl⟩ := hall rfl
      simp only [Log.Writer.swap]
      cases hr : (d₁.append h (frames rs)).rename (temporaryName w.name) w.name with
      | error e => exact .unfinished hstop
      | ok x =>
          have hx : Stop d w.name rs x := .renamed hc hr
          -- the log is a file, so opening it changes nothing
          have hfile : ∃ g, x.file? w.name = some g := by
            rcases hx.file?_cases hf with h | ⟨serial, h⟩
            · exact ⟨_, h⟩
            · exact ⟨_, h⟩
          obtain ⟨g, hg⟩ := hfile
          simp only [Log.Writer.ofFile, Disk.openAppend_of_file? hg, Except.map]
          exact hx

end Stops

/-! ### Litter -/

/-- **Two disks that differ at most in the temporary file of a log**: it may hold anything, or not
be there. -/
structure Littered (name : String) (d d' : Disk) : Prop where
  /-- There is a directory. -/
  place : ∃ es, d.place = .directory es
  /-- There is a directory on the other disk too. -/
  place' : ∃ es, d'.place = .directory es
  /-- All other entries are the same. -/
  other : ∀ y, y ≠ temporaryName name → d'.entry? y = d.entry? y
  /-- On both or on neither bytes can be written. -/
  writable : d'.writable = d.writable
  /-- No directory has the name of the temporary file. -/
  free : d.entry? (temporaryName name) ≠ some .directory
  /-- Nor on the other disk. -/
  free' : d'.entry? (temporaryName name) ≠ some .directory

/-- What an entry shows of itself: the bytes of a file. -/
def shown : Entry → Option Bytes
  | .file f => some f.bytes
  | .directory => none

/-- **Two stores with the same tables and the same log**, on disks that show the same under all
names but that of the temporary file. -/
structure Alike (name : String) (s s' : Store LogFile) : Prop where
  /-- The tables are the same. -/
  tables : s'.tables = s.tables
  /-- The logs are at rest and have the same bytes. -/
  log : ∃ bs, Settled s.journal.writer s.journal.disk bs ∧
    Settled s'.journal.writer s'.journal.disk bs
  /-- The log has this name. -/
  named : s.journal.writer.name = name
  /-- So has the other. -/
  named' : s'.journal.writer.name = name
  /-- All other names show the same. -/
  other : ∀ y, y ≠ temporaryName name →
    (s'.journal.disk.entry? y).map shown = (s.journal.disk.entry? y).map shown
  /-- On both disks or on neither bytes can be written. -/
  writable : s'.journal.disk.writable = s.journal.disk.writable
  /-- No directory has the name of the temporary file. -/
  free : s.journal.disk.entry? (temporaryName name) ≠ some .directory
  /-- Nor on the other disk. -/
  free' : s'.journal.disk.entry? (temporaryName name) ≠ some .directory

/-- Two stores with the same tables and the same log are alike, if their disks differ in no other
file. -/
theorem Alike.of_settled {s s' : Store LogFile} {name : String} {bs : Bytes}
    (htables : s'.tables = s.tables) (hrest : Settled s.journal.writer s.journal.disk bs)
    (hrest' : Settled s'.journal.writer s'.journal.disk bs)
    (hnamed : s.journal.writer.name = name) (hnamed' : s'.journal.writer.name = name)
    (hother : ∀ y, y ≠ temporaryName name → y ≠ name →
      (s'.journal.disk.entry? y).map shown = (s.journal.disk.entry? y).map shown)
    (hwritable : s'.journal.disk.writable = s.journal.disk.writable)
    (hfree : s.journal.disk.entry? (temporaryName name) ≠ some .directory)
    (hfree' : s'.journal.disk.entry? (temporaryName name) ≠ some .directory) :
    Alike name s s' := by
  have hfile := hrest.file
  have hfile' := hrest'.file
  rw [hnamed] at hfile
  rw [hnamed'] at hfile'
  refine ⟨htables, ⟨bs, hrest, hrest'⟩, hnamed, hnamed', ?_, hwritable, hfree, hfree'⟩
  intro y hy
  by_cases hyn : y = name
  · rw [hyn, Disk.entry?_of_file? hfile, Disk.entry?_of_file? hfile']
    rfl
  · exact hother y hy hyn

namespace Littered

variable {d d' : Disk} {name : String}

/-- A compaction that has stopped before the end leaves litter at most. -/
theorem of_unfinished {x : Disk} {f : File} {rs : List Record} (hf : d.file? name = some f)
    (hx : Unfinished d name rs x) (hfree : d.entry? (temporaryName name) ≠ some .directory) :
    Littered name d x := by
  obtain ⟨es, hp, _⟩ := Disk.file?_eq_some_iff.1 hf
  have hlog : x.file? name = some f := Disk.file?_of_entry?
    ((hx.entry?_eq hp (Ne.symm (Log.Writer.temporaryName_ne name))).trans (Disk.entry?_of_file? hf))
  obtain ⟨es', hp', _⟩ := Disk.file?_eq_some_iff.1 hlog
  exact ⟨⟨es, hp⟩, ⟨es', hp'⟩, fun y hy => hx.entry?_eq hp hy, hx.writable_eq hp, hfree,
    hx.free hp hfree⟩

/-- A temporary file with any content is litter. -/
theorem of_putFile {es : Entries} (hp : d.place = .directory es)
    (hfree : d.entry? (temporaryName name) ≠ some .directory) (bs : Bytes) :
    Littered name d (d.putFile (temporaryName name) bs) where
  place := ⟨es, hp⟩
  place' := by
    unfold Disk.putFile Disk.setEntry
    rw [hp]
    exact ⟨_, rfl⟩
  other y hy := by rw [Disk.entry?_putFile hp, if_neg (Ne.symm hy)]
  writable := Disk.writable_setEntry _ _ _
  free := hfree
  free' := by
    rw [Disk.entry?_putFile hp, if_pos rfl]
    exact nofun

/-- **Litter is not listed among the logs.** -/
theorem discover_eq (h : Littered name d d') : discover d' = discover d := by
  obtain ⟨es, hp⟩ := h.place
  obtain ⟨es', hp'⟩ := h.place'
  refine discover_congr hp' hp fun y hy => ?_
  have hne : y ≠ temporaryName name := by
    rintro rfl
    rw [logStem?_temporaryName] at hy
    cases hy
  have hsame := h.other y hne
  rw [Disk.entry?_of_place hp, Disk.entry?_of_place hp'] at hsame
  rw [Std.ExtTreeMap.mem_iff_isSome_getElem?, Std.ExtTreeMap.mem_iff_isSome_getElem?, hsame]

/-- Stores that were opened on the same bytes are alike. -/
theorem alike_of_opened (h : Littered name d d') {bs : Bytes} {s s' : Store LogFile}
    (hs : Store.Opened d name bs s) (hs' : Store.Opened d' name bs s') : Alike name s s' := by
  have hne := Log.Writer.temporaryName_ne name
  refine .of_settled (hs'.tables.trans hs.tables.symm) hs.rest hs'.rest hs.named hs'.named ?_ ?_
    ?_ ?_
  · intro y hy hyn
    rw [hs.other y hyn, hs'.other y hyn, h.other y hy]
  · rw [hs.writable, hs'.writable, h.writable]
  · rw [hs.other _ hne]
    exact h.free
  · rw [hs'.other _ hne]
    exact h.free'

/-- **A log is opened in the same way whether or not there is litter.** -/
theorem ofLog_cases (h : Littered name d d') :
    (∃ e, Store.ofLog d name = .error e ∧ Store.ofLog d' name = .error e) ∨
      ∃ s s', Store.ofLog d name = .ok s ∧ Store.ofLog d' name = .ok s' ∧ Alike name s s' := by
  obtain ⟨es, hp⟩ := h.place
  obtain ⟨es', hp'⟩ := h.place'
  have hlog := h.other name (Ne.symm (Log.Writer.temporaryName_ne name))
  cases he : d.entry? name with
  | none =>
      obtain ⟨s, ho, hs⟩ := Store.ofLog_of_absent hp he
      obtain ⟨s', ho', hs'⟩ := Store.ofLog_of_absent hp' (hlog.trans he)
      exact Or.inr ⟨s, s', ho, ho', h.alike_of_opened hs hs'⟩
  | some e =>
      cases e with
      | directory =>
          exact Or.inl ⟨_, Store.ofLog_of_directory he, Store.ofLog_of_directory (hlog.trans he)⟩
      | file f =>
          obtain ⟨s, ho, hs⟩ := Store.ofLog_of_file? (Disk.file?_of_entry? he)
          obtain ⟨s', ho', hs'⟩ := Store.ofLog_of_file? (Disk.file?_of_entry? (hlog.trans he))
          exact Or.inr ⟨s, s', ho, ho', h.alike_of_opened hs hs'⟩

end Littered

/-- When a compaction of a store returns, it has stopped at one of its points. -/
theorem stop_compact_store {s : Store LogFile} {bs : Bytes}
    (h : Settled s.journal.writer s.journal.disk bs) :
    Stop s.journal.disk s.journal.writer.name s.tables.snapshotRecords
      s.compact.2.journal.disk := by
  have hstop := stop_compact h.file s.tables.snapshotRecords
  unfold Store.compact
  rcases hc : s.journal.writer.compact s.journal.disk s.tables.snapshotRecords with
    ⟨_ | _, w', d'⟩
  · rw [hc] at hstop
    exact hstop
  · rw [hc] at hstop
    exact hstop

/-- Where no directory is in the way, a compaction of a store fails in one way only. -/
theorem compact_eq_notLogged {s : Store LogFile} {bs : Bytes}
    (h : Settled s.journal.writer s.journal.disk bs)
    (hfree : s.journal.disk.entry? (temporaryName s.journal.writer.name) ≠ some .directory)
    {e : Failure} (he : s.compact.1 = .error e) : e = .notLogged Fault.fileTooLarge.text := by
  have hfails : ∀ {e' : Fault},
      (s.journal.writer.compact s.journal.disk s.tables.snapshotRecords).1 = .error e' →
        e' = .fileTooLarge :=
    Log.Writer.compact_eq_fileTooLarge h.file hfree
  unfold Store.compact at he
  rcases hc : s.journal.writer.compact s.journal.disk s.tables.snapshotRecords with
    ⟨_ | _, w', d'⟩
  · rw [hc] at he hfails
    obtain rfl := Except.error.inj he
    rw [hfails rfl]
  · rw [hc] at he
    cases he

namespace Alike

variable {s s' : Store LogFile} {name : String}

/-- On both disks or on neither the snapshot can be written. -/
theorem writable_iff (h : Alike name s s') :
    Writable s'.journal.disk name s'.tables.snapshotRecords ↔
      Writable s.journal.disk name s.tables.snapshotRecords := by
  unfold Writable
  rw [h.tables, h.writable]
  exact and_congr_left fun _ => ⟨fun _ => h.free, fun _ => h.free'⟩

/-- **A compaction has the same result whether or not there is litter**, and leaves stores that are
alike. -/
theorem compact (h : Alike name s s') :
    s'.compact.1 = s.compact.1 ∧ Alike name s.compact.2 s'.compact.2 := by
  obtain ⟨bs, hrest, hrest'⟩ := h.log
  have hne := Ne.symm (Log.Writer.temporaryName_ne name)
  have hiff := h.writable_iff
  have hkeeps := Store.writable_compact hrest
  have hkeeps' := Store.writable_compact hrest'
  have hfree := (stop_compact_store hrest).free hrest.file (h.named.symm ▸ h.free)
  have hfree' := (stop_compact_store hrest').free hrest'.file (h.named'.symm ▸ h.free')
  have hfails : ∀ {e}, s.compact.1 = .error e → e = .notLogged Fault.fileTooLarge.text :=
    compact_eq_notLogged hrest (h.named.symm ▸ h.free)
  have hfails' : ∀ {e}, s'.compact.1 = .error e → e = .notLogged Fault.fileTooLarge.text :=
    compact_eq_notLogged hrest' (h.named'.symm ▸ h.free')
  have hcases := Store.compact_cases hrest
  have hcases' := Store.compact_cases hrest'
  rw [h.named] at hcases hfree
  rw [h.named'] at hcases' hfree'
  rcases hcases with ⟨hnot, e, d, he, hother⟩ | ⟨hcan, w, d, he, hnew, hname, _, _, hother⟩
  · rcases hcases' with ⟨_, e', d', he', hother'⟩ | ⟨hcan', _⟩
    · rw [he] at hkeeps hfree hfails ⊢
      rw [he'] at hkeeps' hfree' hfails' ⊢
      refine ⟨by rw [hfails rfl, hfails' rfl], ?_⟩
      refine .of_settled h.tables (hrest.of_entry?_eq ?_) (hrest'.of_entry?_eq ?_) h.named h.named'
        ?_ ?_ hfree hfree'
      · rw [h.named]
        exact hother name hne
      · rw [h.named']
        exact hother' name hne
      · intro y hy _
        rw [hother y hy, hother' y hy, h.other y hy]
      · rw [hkeeps, hkeeps', h.writable]
    · exact absurd (hiff.1 hcan') hnot
  · rcases hcases' with ⟨hnot', _⟩ | ⟨_, w', d', he', hnew', hname', _, _, hother'⟩
    · exact absurd (hiff.2 hcan) hnot'
    · rw [he] at hkeeps hfree ⊢
      rw [he'] at hkeeps' hfree' ⊢
      rw [h.tables] at hnew'
      refine ⟨rfl, .of_settled h.tables hnew hnew' hname hname' ?_ ?_ hfree hfree'⟩
      · intro y hy hyn
        rw [hother y hy hyn, hother' y hy hyn, h.other y hy]
      · rw [hkeeps, hkeeps', h.writable]

end Alike

/-! ### Desks that can come about -/

/-- The same store on another disk. -/
def onDisk (s : Store LogFile) (x : Disk) : Store LogFile := { s with journal.disk := x }

open Desk (Kept)

/-- **The desks over the log `name` that can come about**, if `past` is what was brought so far:
from a log that is not there yet, by events that bring what is new, by compactions that were cut
short and after which the log was opened again, and by others that put something under the name of
the temporary file. -/
inductive Reached (name : String) : List Record → Desk LogFile → Prop
  | opened {d : Disk} {es : Entries} {s : Store LogFile} (m : Meter) : d.place = .directory es →
      d.entry? name = none → Store.ofLog d name = .ok s → Reached name [] ⟨s, m⟩
  | undergo {past : List Record} {d : Desk LogFile} {e : Event} : Reached name past d →
      e.New past → Reached name (past ++ e.records) (d.undergo e)
  | cut {past : List Record} {d : Desk LogFile} {x : Disk} {s : Store LogFile} (m : Meter) :
      Reached name past d → Stop d.store.journal.disk name d.store.tables.snapshotRecords x →
      Store.ofLog x name = .ok s → Reached name past ⟨s, m⟩
  | litter {past : List Record} {d : Desk LogFile} (bs : Bytes) : Reached name past d →
      Reached name past
        { d with store := onDisk d.store (d.store.journal.disk.putFile (temporaryName name) bs) }

section Reached

variable {name : String} {past : List Record} {d : Desk LogFile}

/-- **Wherever a compaction stops, the log holds readable records that rebuild the tables.** -/
theorem log_of_stop (h : Kept name past d) {x : Disk}
    (hx : Stop d.store.journal.disk name d.store.tables.snapshotRecords x) :
    ∃ serial rs, x.file? name = some ⟨serial, frames rs⟩ ∧ (∀ r ∈ rs, Readable r) ∧
      Tables.ofRecords rs = d.store.tables := by
  obtain ⟨rs, hrest, hread, htables⟩ := h.backed.log
  have hfile := hrest.file
  rw [h.backed.named] at hfile
  rcases hx.file?_cases hfile with hold | ⟨serial, hnew⟩
  · exact ⟨_, rs, hold, hread, htables⟩
  · exact ⟨serial, _, hnew, h.sound.readable_snapshotRecords, h.sound.ofRecords_snapshotRecords⟩

/-- A desk whose compaction was cut short is as sound as before once its log is opened again. -/
theorem kept_of_stop (h : Kept name past d) {x : Disk} {s : Store LogFile}
    (hx : Stop d.store.journal.disk name d.store.tables.snapshotRecords x)
    (ho : Store.ofLog x name = .ok s) (m : Meter) :
    Kept name past ⟨s, m⟩ ∧ s.tables = d.store.tables := by
  obtain ⟨serial, rs, hfile, hread, htables⟩ := log_of_stop h hx
  obtain ⟨s', ho', hs⟩ := Store.ofLog_of_file? hfile
  obtain rfl : s' = s := Except.ok.inj (ho'.symm.trans ho)
  have hlive := hs.tables
  rw [Log.replay, Log.scan_frames hread, htables] at hlive
  exact ⟨h.of_tables_eq (.of_opened hs hread) hlive hs.alone, hlive⟩

/-- Something under the name of the temporary file leaves the log alone. -/
theorem kept_of_litter (h : Kept name past d) (bs : Bytes) :
    Kept name past
      { d with
        store := onDisk d.store (d.store.journal.disk.putFile (temporaryName name) bs) } := by
  obtain ⟨rs, hrest, hread, htables⟩ := h.backed.log
  obtain ⟨es, hp, _⟩ := Disk.file?_eq_some_iff.1 hrest.file
  have hne : temporaryName name ≠ d.store.journal.writer.name := by
    rw [h.backed.named]
    exact Log.Writer.temporaryName_ne name
  have hsame : Disk.entry? (d.store.journal.disk.putFile (temporaryName name) bs)
      d.store.journal.writer.name = d.store.journal.disk.entry? d.store.journal.writer.name := by
    rw [Disk.entry?_putFile hp, if_neg hne]
  exact h.of_tables_eq ⟨⟨rs, hrest.of_entry?_eq hsame, hread, htables⟩, h.backed.named⟩ rfl h.alone

/-- What holds between two events holds of all desks that can come about. -/
theorem Reached.kept (h : Reached name past d) : Kept name past d := by
  induction h with
  | opened m hp habsent ho =>
      obtain ⟨s', ho', hs⟩ := Store.ofLog_of_absent hp habsent
      obtain rfl := Except.ok.inj (ho'.symm.trans ho)
      exact .of_opened hs m
  | undergo _ hnew ih => exact (ih.undergo_new hnew).1
  | cut m _ hx ho ih => exact (kept_of_stop ih hx ho m).1
  | litter bs _ ih => exact kept_of_litter ih bs

end Reached

/-! ### Crash safety -/

/-- **Wherever a compaction is cut short, the log replays to the live tables.**  Take any desk that
can come about.  At every point of a compaction of its log, the file under the name of the log
replays to the live tables, and opening it gives a store with these tables.  Until the log is
replaced, its file is the old one, and all that is left behind is litter.  These points are those
that the compaction passes through: the one after any number of chunks is among them, and so is the
one at which it returns, whether or not it has failed.  And whatever litter there is, the same logs
are listed, the log is opened in the same way, and the next compaction, by the desk or after the log
was opened again, has the same result and leaves the same log. -/
theorem crash_safe {name : String} {past : List Record} {d : Desk LogFile}
    (h : Reached name past d) :
    (∀ x, Stop d.store.journal.disk name d.store.tables.snapshotRecords x →
      ∃ f s, x.file? name = some f ∧ Tables.ofRecords (Log.replay f.bytes) = d.store.tables ∧
        Store.ofLog x name = .ok s ∧ s.tables = d.store.tables) ∧
    (∀ x, Unfinished d.store.journal.disk name d.store.tables.snapshotRecords x →
      x.file? name = d.store.journal.disk.file? name ∧
        (d.store.journal.disk.entry? (temporaryName name) ≠ some .directory →
          Littered name d.store.journal.disk x)) ∧
    (∀ h d₁ k, d.store.journal.disk.create (temporaryName name) = .ok (h, d₁) →
      Unfinished d.store.journal.disk name d.store.tables.snapshotRecords
        ((Sink.ofHandle h).putAll d₁
          ((d.store.tables.snapshotRecords.flatMap chunks).take k)).2.2) ∧
    Stop d.store.journal.disk name d.store.tables.snapshotRecords
      d.store.compact.2.journal.disk ∧
    ∀ x, Littered name d.store.journal.disk x →
      discover x = discover d.store.journal.disk ∧
      (onDisk d.store x).compact.1 = d.store.compact.1 ∧
      Alike name d.store.compact.2 (onDisk d.store x).compact.2 ∧
      ∃ s s', Store.ofLog d.store.journal.disk name = .ok s ∧ Store.ofLog x name = .ok s' ∧
        s.tables = d.store.tables ∧ Alike name s s' ∧
        s'.compact.1 = s.compact.1 ∧ Alike name s.compact.2 s'.compact.2 := by
  have hkept := h.kept
  obtain ⟨bs, hrest⟩ : ∃ bs, Settled d.store.journal.writer d.store.journal.disk bs := by
    obtain ⟨rs, hrest, _⟩ := hkept.backed.log
    exact ⟨_, hrest⟩
  have hfile := hrest.file
  rw [hkept.backed.named] at hfile
  obtain ⟨es, hp, _⟩ := Disk.file?_eq_some_iff.1 hfile
  refine ⟨?_, ?_, fun _ _ k hc => unfinished_putAll hp hc k, ?_, ?_⟩
  · intro x hx
    obtain ⟨serial, rs, hlog, hread, htables⟩ := log_of_stop hkept hx
    obtain ⟨s, ho, _⟩ := Store.ofLog_of_file? hlog
    refine ⟨_, s, hlog, ?_, ho, (kept_of_stop hkept hx ho d.meter).2⟩
    rw [Log.replay, Log.scan_frames hread, htables]
  · intro x hx
    have hsame := hx.entry?_eq hp (Ne.symm (Log.Writer.temporaryName_ne name))
    refine ⟨?_, fun hfree => .of_unfinished hfile hx hfree⟩
    rw [hfile]
    exact Disk.file?_of_entry? (hsame.trans (Disk.entry?_of_file? hfile))
  · exact hkept.backed.named ▸ stop_compact_store hrest
  · intro x hx
    have hne := Ne.symm (Log.Writer.temporaryName_ne name)
    have hrest' : Settled d.store.journal.writer x bs :=
      hrest.of_entry?_eq (hx.other _ (hkept.backed.named.symm ▸ hne))
    have hlive : Alike name d.store (onDisk d.store x) :=
      .of_settled rfl hrest hrest' hkept.backed.named hkept.backed.named
        (fun y hy _ => congrArg (Option.map shown) (hx.other y hy)) hx.writable hx.free hx.free'
    refine ⟨hx.discover_eq, hlive.compact.1, hlive.compact.2, ?_⟩
    obtain ⟨s, ho, _⟩ := Store.ofLog_of_file? hfile
    rcases hx.ofLog_cases with ⟨e, he, _⟩ | ⟨s₁, s', ho', hs', halike⟩
    · rw [ho] at he
      cases he
    · exact ⟨s₁, s', ho', hs', (kept_of_stop hkept (.unfinished .unbegun) ho' d.meter).2,
        halike, halike.compact⟩

/-- A quota of five units is created. -/
def creation : Event :=
  .visit (.ask (.create ⟨⟨4, 1⟩, "Süd", "tour", tourDay⟩ ⟨⟨1⟩, ⟨⟨1⟩⟩, 0⟩))

/-- Two units of it are claimed. -/
def claim : Event := .visit (.ask (.allocate ⟨⟨1⟩, 2, some "BK-1"⟩ ⟨⟨2⟩, ⟨⟨2⟩⟩, 1⟩))

/-- A desk over a new log at which two units were sold. -/
def twoSold : Desk LogFile := Desk.undergoAll ⟨emptyStore, .zero⟩ [creation, claim]

theorem reached_twoSold : Reached "a.wal" (creation.records ++ claim.records) twoSold := by
  have opened : Reached "a.wal" [] ⟨emptyStore, .zero⟩ :=
    .opened (d := .blank) .zero rfl rfl ofLog_emptyStore
  have hcreation : creation.New [] := Visit.New.ask (by decide)
  have hclaim : claim.New creation.records := Visit.New.ask (by decide)
  exact (opened.undergo hcreation).undergo hclaim

/-- A compaction of this desk's log is cut short when seven bytes of the snapshot are written.  The
log is as it was, and opening it finds the two units. -/
theorem crash_safe_seven_bytes :
    Reached "a.wal" (creation.records ++ claim.records) twoSold ∧
      ∃ x f s, Unfinished twoSold.store.journal.disk "a.wal"
          twoSold.store.tables.snapshotRecords x ∧
        (x.file? "a.wal.tmp").map (·.bytes.length) = some 7 ∧
        x.file? "a.wal" = some f ∧ Tables.ofRecords (Log.replay f.bytes) = twoSold.store.tables ∧
        Store.ofLog x "a.wal" = .ok s ∧ s.tables = twoSold.store.tables ∧
        (s.tables.ledger.entries ⟨1⟩).map (·.quantity) = [2] ∧
        discover x = discover twoSold.store.journal.disk := by
  obtain ⟨hstop, hunfinished, _, _, hlitter⟩ := crash_safe reached_twoSold
  obtain ⟨_, hrest, _⟩ := reached_twoSold.kept.backed.log
  obtain ⟨es, hp, _⟩ := Disk.file?_eq_some_iff.1 hrest.file
  have habsent : twoSold.store.journal.disk.entry? "a.wal.tmp" = none := by decide +kernel
  have hc := Disk.create_of_absent hp habsent
  have hx : Unfinished twoSold.store.journal.disk "a.wal" twoSold.store.tables.snapshotRecords _ :=
    .writing 7 hc
  obtain ⟨f, s, hf, hreplay, ho, ht⟩ := hstop _ (.unfinished hx)
  refine ⟨reached_twoSold, _, f, s, hx, ?_, hf, hreplay, ho, ht, ?_, ?_⟩
  · decide +kernel
  · rw [ht]
    decide +kernel
  · exact (hlitter _ ((hunfinished _ hx).2 (by decide +kernel))).1

end Interruption

end Allotment
