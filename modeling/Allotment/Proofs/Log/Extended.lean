/-
**A log that was damaged can be extended once it has been recovered.**

A log may be opened on any bytes at all.  Recovery keeps the frames that can be read and cuts off
whatever stands behind them.  If it did not, records appended later would stand behind bytes that no
reader passes, and would be lost with them.  Since the cut is made exactly where the reader stopped,
what is appended follows the last record that was read, and a second recovery finds nothing to cut.

Main definitions:

* `Allotment.Log.Writer.extend`, `Allotment.Log.Writer.extendAll` — appending and confirming
  records, once and several times.

Main results:

* `Allotment.Log.Writer.Settled.extend` — a log at rest is extended by the frames of the records;
* `Allotment.Log.Writer.Settled.extendAll` — what was stored stays in front;
* `Allotment.Log.Writer.extend_recovered` — **recovery gives what replay gives, keeps a front of the
  bytes, has nothing to do when it is repeated, and makes the log safe to extend**.
-/

import Allotment.Proofs.Log.Course

set_option relaxedAutoImplicit false
set_option autoImplicit false

namespace Allotment.Log.Writer

/-! ### Appending and confirming -/

/-- Appends records and confirms them. -/
def extend (w : Writer) (d : Disk) (rs : List Record) : Except Fault (Writer × Disk) :=
  match w.appendAll d rs with
  | (.error e, _, _) => .error e
  | (.ok (), w, d) => w.flush d

/-- Appends and confirms lists of records, one list after the other. -/
def extendAll (w : Writer) (d : Disk) : List (List Record) → Except Fault (Writer × Disk)
  | [] => .ok (w, d)
  | rs :: rss =>
    match w.extend d rs with
    | .error e => .error e
    | .ok (w, d) => w.extendAll d rss

variable {w w' : Writer} {d d' : Disk} {bs : Bytes}

/-- Records that were appended and confirmed are a batch that was taken. -/
theorem appendBatch_of_extend {rs : List Record} (h : w.extend d rs = .ok (w', d')) :
    w.appendBatch d rs = (.ok (), w', d') := by
  unfold extend at h
  unfold appendBatch
  rcases hp : w.appendAll d rs with ⟨_ | _, w₁, d₁⟩
  · rw [hp] at h
    cases h
  · rw [hp] at h
    simp only at h
    simp only [h]

/-- **A log at rest is extended by the frames of the records.** -/
theorem Settled.extend (h : Settled w d bs) {rs : List Record}
    (he : w.extend d rs = .ok (w', d')) :
    Settled w' d' (bs ++ frames rs) ∧ w'.name = w.name ∧ d'.writable = d.writable := by
  have hbatch := appendBatch_of_extend he
  rcases appendBatch_cases h rs with ⟨e, hfails⟩ | hok
  · rw [hbatch] at hfails
    cases (Prod.mk.inj hfails).1
  · rw [hbatch] at hok
    obtain ⟨rfl, rfl⟩ := Prod.mk.inj (Prod.mk.inj hok).2
    exact ⟨h.extended rs, rfl, Disk.writable_setEntry _ _ _⟩

/-- If bytes can be written, nothing is refused. -/
theorem extend_of_writable (hw : d.writable = true) (hu : w.unusable = false)
    (rs : List Record) : ∃ w' d', w.extend d rs = .ok (w', d') := by
  obtain ⟨hok, hw'⟩ := appendAll_of_writable hw hu rs
  unfold Writer.extend
  rcases hp : w.appendAll d rs with ⟨result, w₁, d₁⟩
  rw [hp] at hok hw'
  obtain rfl : result = .ok () := hok
  exact flush_of_writable hw'

/-- **What was stored stays in front**, and the records follow in the order in which they were
appended. -/
theorem Settled.extendAll (h : Settled w d bs) {found : List Record} (hstored : Stored found bs)
    {rss : List (List Record)} (hread : ∀ rs ∈ rss, ∀ r ∈ rs, Readable r)
    (he : w.extendAll d rss = .ok (w', d')) :
    ∃ bs', Settled w' d' bs' ∧ Stored (found ++ rss.flatten) bs' ∧ w'.name = w.name := by
  induction rss generalizing w d bs found with
  | nil =>
      obtain ⟨rfl, rfl⟩ := Prod.mk.inj (Except.ok.inj he)
      rw [List.flatten_nil, List.append_nil]
      exact ⟨bs, h, hstored, rfl⟩
  | cons rs rss ih =>
      rw [List.forall_mem_cons] at hread
      unfold Writer.extendAll at he
      cases hone : w.extend d rs with
      | error e =>
          rw [hone] at he
          cases he
      | ok wd =>
          obtain ⟨w₁, d₁⟩ := wd
          rw [hone] at he
          obtain ⟨hrest, hname, _⟩ := h.extend hone
          obtain ⟨bs', hlast, hstored', hname'⟩ :=
            ih hrest (hstored.append (stored_frames hread.1)) hread.2 he
          rw [List.append_assoc, ← List.flatten_cons] at hstored'
          exact ⟨bs', hlast, hstored', hname'.trans hname⟩

theorem Settled.extendAll_of_writable (h : Settled w d bs) (hw : d.writable = true)
    (rss : List (List Record)) : ∃ w' d', w.extendAll d rss = .ok (w', d') := by
  induction rss generalizing w d bs with
  | nil => exact ⟨w, d, rfl⟩
  | cons rs rss ih =>
      obtain ⟨w₁, d₁, hone⟩ := extend_of_writable hw h.usable rs
      obtain ⟨hsettled, _, hwritable⟩ := h.extend hone
      obtain ⟨w₂, d₂, hrest⟩ := ih hsettled (hwritable.trans hw)
      exact ⟨w₂, d₂, by simp only [Writer.extendAll, hone, hrest]⟩

/-! ### Recovery -/

/-- The records that a reader finds in the file under a name. -/
def replayFile (d : Disk) (name : String) : Except Fault (List Record) :=
  (scanFile d name).map (·.records)

theorem replayFile_of_file? {name : String} {f : File} (h : d.file? name = some f) :
    replayFile d name = .ok (replay f.bytes) := by
  simp only [replayFile, scanFile, Disk.read_of_file? h, Except.map, replay]

/-- Recovering a log that was recovered changes nothing. -/
theorem recover_recovered {name : String} {serial : Nat}
    (h : d.file? name = some ⟨serial, bs⟩) :
    recover (d.setEntry name (.file ⟨serial, bs.take (scan bs).good⟩)) name =
      .ok (replay bs, ofHandle ⟨name, serial⟩ (bs.take (scan bs).good).length,
        d.setEntry name (.file ⟨serial, bs.take (scan bs).good⟩)) := by
  have hsame := scan_take_good bs
  have hall : (bs.take (scan bs).good).take (scan bs).good = bs.take (scan bs).good := by
    rw [List.take_take, Nat.min_self]
  rw [recover_of_file? (Disk.file?_setEntry h _), hsame, hall, Disk.setEntry_setEntry]
  rfl

/-- **Recovery makes a log safe to extend.**  Whatever bytes the file of a log has, recovery gives
the records that replay gives; it keeps a front of the bytes and changes nothing else on the disk; a
second recovery gives the same records and changes nothing.  Readable records can then be appended
and confirmed, in one go or in several, if bytes can be written; and whenever this has succeeded,
the file replays to the records that were recovered, followed by exactly those that were appended.
-/
theorem extend_recovered {name : String} {serial : Nat} (h : d.file? name = some ⟨serial, bs⟩) :
    ∃ w d' n, replayFile d name = .ok (replay bs) ∧
      recover d name = .ok (replay bs, w, d') ∧
      d' = d.setEntry name (.file ⟨serial, bs.take n⟩) ∧
      recover d' name = .ok (replay bs, w, d') ∧
      ∀ rss : List (List Record), (∀ rs ∈ rss, ∀ r ∈ rs, Readable r) →
        (d.writable = true → ∃ w₁ d₁, w.extendAll d' rss = .ok (w₁, d₁)) ∧
        ∀ w₁ d₁, w.extendAll d' rss = .ok (w₁, d₁) →
          replayFile d₁ name = .ok (replay bs ++ rss.flatten) := by
  refine ⟨_, _, (scan bs).good, replayFile_of_file? h, recover_of_file? h, rfl,
    recover_recovered h, ?_⟩
  intro rss hread
  have hrest : Settled (ofHandle ⟨name, serial⟩ (bs.take (scan bs).good).length)
      (d.setEntry name (.file ⟨serial, bs.take (scan bs).good⟩)) (bs.take (scan bs).good) :=
    Settled.ofHandle (h := ⟨name, serial⟩) (Disk.file?_setEntry h _)
  refine ⟨?_, ?_⟩
  · intro hw
    exact hrest.extendAll_of_writable ((Disk.writable_setEntry _ _ _).trans hw) rss
  · intro w₁ d₁ he
    obtain ⟨bs', hlast, hstored, hname⟩ := hrest.extendAll (stored_scan bs) hread he
    have hname' : w₁.name = name := hname
    have hfile := hlast.file
    rw [hname'] at hfile
    rw [replayFile_of_file? hfile, replay, hstored.scan_eq_self]
    rfl

/-- A log of one record, behind which stand a length that no payload has and some zeros. -/
def badLength : Bytes := frames [Course.creation ⟨1⟩] ++ [255, 255, 255, 255, 0, 0]

/-- The record is kept, the bytes behind it are cut off, and two records that are appended after the
recovery are read behind it. -/
theorem extend_recovered_bad_length :
    let d := Disk.blank.putFile "a.wal" badLength
    d.file? "a.wal" = some ⟨0, badLength⟩ ∧
      ∃ w d' w₁ d₁, recover d "a.wal" = .ok ([Course.creation ⟨1⟩], w, d') ∧
        recover d' "a.wal" = .ok ([Course.creation ⟨1⟩], w, d') ∧
        w.extendAll d' [[Course.creation ⟨2⟩], [Course.creation ⟨3⟩]] = .ok (w₁, d₁) ∧
        replayFile d₁ "a.wal" =
          .ok [Course.creation ⟨1⟩, Course.creation ⟨2⟩, Course.creation ⟨3⟩] := by
  intro d
  have hfile : d.file? "a.wal" = some ⟨0, badLength⟩ :=
    Disk.file?_putFile (d := .blank) rfl "a.wal" badLength
  have hread : ∀ rs ∈ [[Course.creation ⟨2⟩], [Course.creation ⟨3⟩]], ∀ r ∈ rs, Readable r := by
    decide +kernel
  have hfirst : ∀ r ∈ [Course.creation ⟨1⟩], Readable r := by decide +kernel
  have hfound : replay badLength = [Course.creation ⟨1⟩] := by
    rw [badLength, replay, scan_frames_append hfirst]
    rfl
  obtain ⟨w, d', _, _, hrec, _, hagain, hall⟩ := extend_recovered hfile
  obtain ⟨hcan, hthen⟩ := hall _ hread
  obtain ⟨w₁, d₁, he⟩ := hcan rfl
  rw [hfound] at hrec hagain hthen
  exact ⟨hfile, w, d', w₁, d₁, hrec, hagain, he, hthen w₁ d₁ he⟩

end Allotment.Log.Writer
