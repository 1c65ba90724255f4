/-
**A batch is committed for all who wait for it or for none.**

The records of a batch are appended one after the other and then confirmed together, and everybody
who waits for one of them gets the same answer.  Writing can give out after any number of bytes, and
making the bytes safe can fail after all of them were written.  By then a part of the batch, or all
of it, has reached the file.  A rollback cuts it off; but opening the file anew, cutting it and
making the cut safe can fail as well, and then the log takes no more records until it is compacted.

Either way nothing of a batch that failed is left once another one has succeeded: a log that was
rolled back is what it was before, and one that was not has been written anew in between.

Main definitions:

* `Allotment.Log.Writer.Weather` — how far writing gets in a batch, and what stands in the way;
* `Allotment.Log.Writer.attempt`, `Allotment.Log.Writer.rollbackAmid`,
  `Allotment.Log.Writer.commit` — appending and confirming a batch, dropping it, and the former
  with the latter if it fails;
* `Allotment.Log.Writer.commitBatch` — the answers to those who wait;
* `Allotment.Log.Upkeep` — a log under batches and compactions, with the bytes that it should hold.

Main results:

* `Allotment.Log.Writer.commit_calm` — **the batches of the program are a special case**;
* `Allotment.Log.Writer.attempt_cases` — what an attempt comes to;
* `Allotment.Log.Upkeep.Sound.perform`, `Allotment.Log.Upkeep.Sound.run` — **a log holds what it
  should, or takes no records**;
* `Allotment.Log.Writer.commitBatch_all_or_nothing` — **the batch is in the file and all get to
  know, or nothing of it is there and all get the same error**.  -/

import Allotment.Proofs.Log.Allowance
import Allotment.Proofs.Log.Adrift
import Allotment.Proofs.Log.Course

set_option relaxedAutoImplicit false
set_option autoImplicit false

namespace Allotment.Log

namespace Writer

/-! ### Batches under any weather -/

/-- How far writing gets in a batch, and what stands in the way of the other steps. -/
structure Weather where
  /-- How many bytes can be written. -/
  allowance : Allowance
  /-- Why the bytes that were written cannot be made safe. -/
  sync : Option Fault
  /-- Why the file cannot be opened anew. -/
  reopen : Option Fault
  /-- Why it cannot be cut. -/
  cut : Option Fault
  /-- Why the cut cannot be made safe. -/
  settle : Option Fault

/-- The weather in which a disk takes all bytes or none, and nothing else stands in the way. -/
def Weather.calm (d : Disk) : Weather := ⟨d.allowance, none, none, none, none⟩

/-- Nothing stands in the way of a rollback. -/
def Weather.Clear (x : Weather) : Prop := x.reopen = none ∧ x.cut = none ∧ x.settle = none

/-- The result of a step, unless something stands in its way. -/
def barring {α : Type} (obstacle : Option Fault) (result : Except Fault α) : Except Fault α :=
  match obstacle with
  | some e => .error e
  | none => result

/-- Appends the records of a batch and confirms them. -/
def attempt (w : Writer) (d : Disk) (rs : List Record) (x : Weather) :
    Except Fault Unit × Writer × Disk :=
  match w.appendAllWithin d x.allowance rs with
  | (.error e, w, d, _) => (.error e, w, d)
  | (.ok (), w, d, a) => w.flushWithin d a x.sync

/-- Drops the records appended since the last flush, as far as nothing stands in the way. -/
def rollbackAmid (w : Writer) (d : Disk) (x : Weather) : Except Fault Unit × Writer × Disk :=
  let w :=
    { w with appends := w.appends - w.pendingAppends, pendingAppends := 0, pendingBytes := 0 }
  match barring x.reopen (d.openAppend w.name) with
  | .error e => (.error e, { w with unusable := true }, d)
  | .ok (h, d) =>
    let w := { w with sink := .ofHandle h }
    match barring x.cut (d.setLength w.name w.confirmed) with
    | .error e => (.error e, { w with unusable := true }, d)
    | .ok d =>
      match x.settle with
      | some e => (.error e, { w with unusable := true }, d)
      | none => (.ok (), w, d)

/-- Appends and confirms a batch, and drops it if that fails. -/
def commit (w : Writer) (d : Disk) (rs : List Record) (x : Weather) :
    Except Fault Unit × Writer × Disk :=
  match w.attempt d rs x with
  | (.error e, w, d) => (.error e, (w.rollbackAmid d x).2)
  | (.ok (), w, d) => (.ok (), w, d)

/-- Commits a batch and answers those who wait, one for every record. -/
def commitBatch (w : Writer) (d : Disk) (rs : List Record) (x : Weather) :
    List (Except Fault Unit) × Writer × Disk :=
  match w.commit d rs x with
  | (result, w, d) => (rs.map fun _ => result, w, d)

theorem commit_ok_iff (w : Writer) (d : Disk) (rs : List Record) (x : Weather) :
    (w.commit d rs x).1 = .ok () ↔ (w.attempt d rs x).1 = .ok () := by
  unfold commit
  rcases w.attempt d rs x with ⟨_ | _, w', d'⟩
  · exact Iff.rfl
  · exact Iff.rfl

/-! The program knows only two kinds of weather. -/

/-- A rollback that nothing stands in the way of is that of the program. -/
theorem rollbackAmid_of_clear {x : Weather} (hx : x.Clear) (w : Writer) (d : Disk) :
    w.rollbackAmid d x = w.rollback d := by
  obtain ⟨allowance, sync, reopen, cut, settle⟩ := x
  obtain ⟨hreopen, hcut, hsettle⟩ := hx
  simp only at hreopen hcut hsettle
  subst hreopen hcut hsettle
  rfl

/-- **The batches of the program are a special case.** -/
theorem commit_calm (w : Writer) (d : Disk) (rs : List Record) :
    w.commit d rs (.calm d) = w.appendBatch d rs := by
  have hclear : (Weather.calm d).Clear := ⟨rfl, rfl, rfl⟩
  unfold commit attempt appendBatch
  rw [show (Weather.calm d).allowance = d.allowance from rfl, appendAllWithin_allowance]
  rcases w.appendAll d rs with ⟨_ | _, w₁, d₁⟩
  · simp only [rollbackAmid_of_clear hclear]
  · simp only [show (Weather.calm d).sync = none from rfl, flushWithin_allowance]
    cases w₁.flush d₁ with
    | error e => simp only [rollbackAmid_of_clear hclear]
    | ok wd => rfl

/-! ### What a batch comes to -/

variable {w : Writer} {d : Disk} {bs : Bytes}

/-- **What an attempt comes to**: it has taken some bytes and confirmed none, or all of them. -/
theorem attempt_cases (h : Settled w d bs) (rs : List Record) (x : Weather) :
    (∃ e w' d' new data k, w.attempt d rs x = (.error e, w', d') ∧
      Ahead w w' d d' bs new data k) ∨
    w.attempt d rs x =
      (.ok (), w.extended rs,
        d.setEntry w.name (.file ⟨w.sink.handle.serial, bs ++ frames rs⟩)) := by
  obtain ⟨new, data, k, ha, hall⟩ := appendAllWithin_ahead h.file h.usable x.allowance rs
  unfold attempt
  rcases hp : w.appendAllWithin d x.allowance rs with ⟨result, w₁, d₁, a₁⟩
  rw [hp] at ha hall
  cases result with
  | error e => exact Or.inl ⟨e, w₁, d₁, new, data, k, rfl, ha⟩
  | ok u =>
      obtain ⟨new', s', hw, hcases⟩ := flushWithin_wrote (ha.sink.file h.file) a₁ x.sync
      simp only
      rcases hf : w₁.flushWithin d₁ a₁ x.sync with ⟨result', w₂, d₂⟩
      rw [hf] at hw hcases
      rcases hcases with ⟨e, rfl, rfl⟩ | ⟨rfl, hempty, rfl⟩
      · exact Or.inl ⟨e, _, d₂, _, _, _, rfl, ha.sink.trans hw, ha.confirmed, ha.appends,
          ha.pendingAppends, ha.usable⟩
      · right
        obtain ⟨rfl, rfl, hbytes⟩ := hall rfl
        obtain ⟨hwriter, hdisk⟩ := h.confirm ha hbytes hw hempty
        simp only at hdisk
        rw [hwriter, hdisk]

/-- **An attempt succeeds exactly if all bytes of the batch can be written and made safe.** -/
theorem attempt_ok_iff (h : Settled w d bs) (rs : List Record) (x : Weather) :
    (w.attempt d rs x).1 = .ok () ↔ x.allowance.Covers (frames rs).length ∧ x.sync = none := by
  have hall := appendAllWithin_ok_iff h.usable d x.allowance rs 0
  rw [h.buffer, List.length_nil, Nat.zero_add, Nat.add_zero, Nat.add_zero] at hall
  rw [← hall]
  unfold attempt
  rcases w.appendAllWithin d x.allowance rs with ⟨_ | _, w₁, d₁, a₁⟩
  · simp
  · simpa using flushWithin_ok_iff w₁ d₁ a₁ x.sync

/-- A rollback that something stands in the way of makes the log unusable. -/
theorem unusable_rollbackAmid {x : Weather} (hx : ¬ x.Clear) (w : Writer) (d : Disk) :
    (w.rollbackAmid d x).2.1.unusable = true := by
  obtain ⟨allowance, sync, reopen, cut, settle⟩ := x
  unfold rollbackAmid
  cases reopen with
  | some e => rfl
  | none =>
      simp only [barring]
      split
      · rfl
      · cases cut with
        | some e => rfl
        | none =>
            simp only
            split
            · rfl
            · cases settle with
              | some e => rfl
              | none => exact absurd ⟨rfl, rfl, rfl⟩ hx

/-- A rollback does not make an unusable log usable. -/
theorem unusable_rollbackAmid_of_unusable (hu : w.unusable = true) (d : Disk) (x : Weather) :
    (w.rollbackAmid d x).2.1.unusable = true := by
  by_cases hx : x.Clear
  · rw [rollbackAmid_of_clear hx, unusable_rollback_iff]
    exact Or.inl hu
  · exact unusable_rollbackAmid hx w d

theorem eq_ok_of_barring {α : Type} {obstacle : Option Fault} {result : Except Fault α} {a : α}
    (h : barring obstacle result = .ok a) : result = .ok a := by
  cases obstacle with
  | some e => cases h
  | none => exact h

/-- A rollback opens the file under the name of the log. -/
theorem name_rollbackAmid (w : Writer) (d : Disk) (x : Weather) :
    (w.rollbackAmid d x).2.1.name = w.name := by
  unfold rollbackAmid
  simp only
  split
  · rfl
  · next h d₁ hopen =>
    have hname : h.name = w.name := by
      have hopen' : d.openAppend w.name = .ok (h, d₁) := eq_ok_of_barring hopen
      rcases Disk.openAppend_cases d w.name with ⟨e, he⟩ | ⟨serial, bs, d', he, _⟩
      · cases he.symm.trans hopen'
      · obtain ⟨rfl, _⟩ := Prod.mk.inj (Except.ok.inj (he.symm.trans hopen'))
        rfl
    split
    · exact hname
    · split
      · exact hname
      · exact hname

/-- **What a batch comes to.**  It is taken as a whole, or it fails and everything is as it was, or
the log takes no more records, which happens only if something stands in the way of the rollback. -/
theorem commit_cases (h : Settled w d bs) (rs : List Record) (x : Weather) :
    ((w.attempt d rs x).1 = .ok () ∧
      w.commit d rs x =
        (.ok (), w.extended rs,
          d.setEntry w.name (.file ⟨w.sink.handle.serial, bs ++ frames rs⟩))) ∨
    ∃ e w' d', (w.attempt d rs x).1 = .error e ∧ w.commit d rs x = (.error e, w', d') ∧
      w'.name = w.name ∧ (x.Clear → w' = w ∧ d' = d) ∧ (¬ x.Clear → w'.unusable = true) := by
  unfold commit
  rcases attempt_cases h rs x with ⟨e, w₁, d₁, new, data, k, he, ha⟩ | hok
  · right
    rw [he]
    have hname : w₁.name = w.name := congrArg Handle.name ha.sink.handle
    refine ⟨e, _, _, rfl, rfl, (name_rollbackAmid w₁ d₁ x).trans hname, ?_, ?_⟩
    · intro hx
      rw [rollbackAmid_of_clear hx, rollback_of_ahead h ha]
      exact ⟨rfl, rfl⟩
    · intro hx
      exact unusable_rollbackAmid hx w₁ d₁
  · left
    rw [hok]
    exact ⟨rfl, rfl⟩

/-- A log that takes no records refuses every batch that has any. -/
theorem commit_of_unusable (hu : w.unusable = true) {rs : List Record} (hne : rs ≠ []) (d : Disk)
    (x : Weather) : w.commit d rs x = (.error .logUnusable, (w.rollbackAmid d x).2) := by
  cases rs with
  | nil => exact absurd rfl hne
  | cons r rs => simp only [commit, attempt, appendAllWithin, appendWithin, hu, if_true]

end Writer

/-! ### Batches and compactions -/

/-- A log and the bytes that it should hold. -/
structure Upkeep where
  /-- The writer of the log. -/
  writer : Writer
  /-- The disk. -/
  disk : Disk
  /-- What was in the log, with the batches that have succeeded; or what it was compacted to, with
  the batches that have succeeded since. -/
  kept : Bytes

namespace Upkeep

/-- What is done to a log. -/
inductive Effort where
  /-- A batch is committed, which has at least one record. -/
  | batch (rs : List Record) (x : Writer.Weather) (hne : rs ≠ [])
  /-- The log is compacted, while bytes can be written or cannot. -/
  | compaction (rs : List Record) (writable : Bool)

/-- The log after an effort, whether or not it succeeds. -/
def perform (u : Upkeep) : Effort → Upkeep
  | .batch rs x _ =>
    match u.writer.commit u.disk rs x with
    | (.ok (), writer, disk) => ⟨writer, disk, u.kept ++ frames rs⟩
    | (.error _, writer, disk) => ⟨writer, disk, u.kept⟩
  | .compaction rs writable =>
    match u.writer.compact { u.disk with writable } rs with
    | (.ok (), writer, disk) => ⟨writer, disk, frames rs⟩
    | (.error _, writer, disk) => ⟨writer, disk, u.kept⟩

/-- The log after efforts. -/
def run (u : Upkeep) (efforts : List Effort) : Upkeep := efforts.foldl perform u

/-- **The log holds what it should, or takes no records.** -/
structure Sound (u : Upkeep) (name : String) : Prop where
  /-- The log is the one under this name. -/
  name : u.writer.name = name
  /-- If the log takes records, its file holds what it should, and nothing is pending. -/
  settled : u.writer.unusable = true ∨ Writer.Settled u.writer u.disk u.kept

namespace Sound

variable {u : Upkeep} {name : String}

theorem batch (h : Sound u name) {rs : List Record} (x : Writer.Weather) (hne : rs ≠ []) :
    Sound (u.perform (.batch rs x hne)) name := by
  unfold Upkeep.perform
  rcases h.settled with hu | hs
  · simp only [Writer.commit_of_unusable hu hne]
    exact ⟨(Writer.name_rollbackAmid ..).trans h.name,
      Or.inl (Writer.unusable_rollbackAmid_of_unusable hu _ x)⟩
  · rcases Writer.commit_cases hs rs x with ⟨_, hok⟩ | ⟨e, w', d', _, he, hname, hback, hbarred⟩
    · simp only [hok]
      exact ⟨h.name, Or.inr (hs.extended rs)⟩
    · simp only [he]
      refine ⟨hname.trans h.name, ?_⟩
      by_cases hx : x.Clear
      · obtain ⟨rfl, rfl⟩ := hback hx
        exact Or.inr hs
      · exact Or.inl (hbarred hx)

/-- A compaction leaves the file alone or makes it hold the new records, whatever was in it. -/
theorem compaction (h : Sound u name) (rs : List Record) (writable : Bool) :
    Sound (u.perform (.compaction rs writable)) name := by
  unfold Upkeep.perform
  rcases Writer.compact_outcome u.writer { u.disk with writable } rs with
    ⟨e, d', he, hsame⟩ | ⟨w', d', hok, hs, hname⟩
  · simp only [he]
    refine ⟨h.name, h.settled.imp_right ?_⟩
    exact fun hs => { hs with file := hsame.trans hs.file }
  · simp only [hok]
    exact ⟨hname.trans h.name, Or.inr hs⟩

/-- **What an effort preserves.** -/
theorem perform (h : Sound u name) (effort : Effort) : Sound (u.perform effort) name := by
  cases effort with
  | batch rs x hne => exact h.batch x hne
  | compaction rs writable => exact h.compaction rs writable

/-- **What a run preserves.** -/
theorem run (h : Sound u name) (efforts : List Effort) : Sound (u.run efforts) name := by
  induction efforts generalizing u with
  | nil => exact h
  | cons effort efforts ih => exact ih (h.perform effort)

/-- A batch that succeeds adds its records, and no others, to what the log should hold. -/
theorem succeed (h : Sound u name) {rs : List Record} (hne : rs ≠ []) {x : Writer.Weather}
    (hok : (u.writer.commit u.disk rs x).1 = .ok ()) :
    ∃ serial, (u.writer.commit u.disk rs x).2.2.file? name =
      some ⟨serial, u.kept ++ frames rs⟩ := by
  rcases h.settled with hu | hs
  · rw [Writer.commit_of_unusable hu hne] at hok
    cases hok
  · rcases Writer.commit_cases hs rs x with ⟨_, htaken⟩ | ⟨e, w', d', _, he, _⟩
    · rw [htaken, ← h.name]
      exact ⟨u.writer.sink.handle.serial, (hs.extended rs).file⟩
    · rw [he] at hok
      cases hok

end Sound

end Upkeep

/-! ### All or nothing -/

namespace Writer

/-- **A batch is committed for all who wait for it or for none.**  A log is at rest over a file with
the bytes `bs`.  If every record of a batch is appended and the flush succeeds, which is so exactly
if all bytes can be written and made safe, all get the answer that the batch was taken, and its
frames stand behind `bs` in their order.  Whatever fails, all get the error of the append or flush
that failed.  Then writer and disk are what they were: the file has the bytes `bs`, nothing is
pending, and no append counts.  Or something stands in the way of the rollback, and the log takes no
more records.  Whatever is done to the log from then on, when a batch succeeds the next time, its
frames stand behind what the log should hold, to which the batch that failed has added nothing. -/
theorem commitBatch_all_or_nothing {w : Writer} {d : Disk} {bs : Bytes} (h : Settled w d bs)
    (rs : List Record) (x : Weather) :
    ((w.attempt d rs x).1 = .ok () ↔ x.allowance.Covers (frames rs).length ∧ x.sync = none) ∧
    ((w.attempt d rs x).1 = .ok () →
      ∃ w' d', w.commitBatch d rs x = (rs.map fun _ => .ok (), w', d') ∧
        Settled w' d' (bs ++ frames rs) ∧ w'.name = w.name ∧
        w'.appends = w.appends + rs.length) ∧
    ∀ e, (w.attempt d rs x).1 = .error e →
      ∃ w' d', w.commitBatch d rs x = (rs.map fun _ => .error e, w', d') ∧
        (w' = w ∧ d' = d ∨ w'.unusable = true ∧ ¬ x.Clear) ∧
        ∀ (efforts : List Upkeep.Effort) (rs' : List Record) (x' : Weather), rs' ≠ [] →
          let u := (Upkeep.mk w' d' bs).run efforts
          (u.writer.commit u.disk rs' x').1 = .ok () →
            ∃ w'' d'' serial,
              u.writer.commitBatch u.disk rs' x' = (rs'.map fun _ => .ok (), w'', d'') ∧
              d''.file? w.name = some ⟨serial, u.kept ++ frames rs'⟩ := by
  refine ⟨attempt_ok_iff h rs x, ?_, ?_⟩
  · intro hok
    rcases commit_cases h rs x with ⟨_, htaken⟩ | ⟨e, _, _, he, _⟩
    · refine ⟨_, _, ?_, h.extended rs, rfl, rfl⟩
      rw [commitBatch, htaken]
    · cases he.symm.trans hok
  · intro e he
    rcases commit_cases h rs x with ⟨hok, _⟩ | ⟨e', w', d', he', hfails, hname, hback, hbarred⟩
    · cases hok.symm.trans he
    · obtain rfl : e' = e := Except.error.inj (he'.symm.trans he)
      have hafter : w' = w ∧ d' = d ∨ w'.unusable = true ∧ ¬ x.Clear := by
        by_cases hx : x.Clear
        · exact Or.inl (hback hx)
        · exact Or.inr ⟨hbarred hx, hx⟩
      have hsound : Upkeep.Sound ⟨w', d', bs⟩ w.name := by
        refine ⟨hname, ?_⟩
        rcases hafter with ⟨rfl, rfl⟩ | ⟨hu, _⟩
        · exact Or.inr h
        · exact Or.inl hu
      refine ⟨w', d', by rw [commitBatch, hfails], hafter, ?_⟩
      intro efforts rs' x' hne u hok
      obtain ⟨serial, hfile⟩ := (hsound.run efforts).succeed hne hok
      rcases hcommit : u.writer.commit u.disk rs' x' with ⟨result, w'', d''⟩
      rw [hcommit] at hok
      obtain rfl : result = .ok () := hok
      refine ⟨w'', d'', serial, by rw [commitBatch, hcommit], ?_⟩
      have hdisk : (u.writer.commit u.disk rs' x').2.2 = d'' := congrArg (·.2.2) hcommit
      rw [← hdisk]
      exact hfile

/-- A log of one record. -/
def oneRecord : Writer × Disk :=
  (ofHandle ⟨"a.wal", 0⟩ (frames [Course.creation ⟨1⟩]).length,
    Disk.blank.putFile "a.wal" (frames [Course.creation ⟨1⟩]))

/-- Writing gives out in the middle of a batch, behind 200 bytes. -/
def breaksOff : Weather := ⟨.upTo 200 .fileTooLarge, none, none, none, none⟩

/-- A batch of two records breaks off in the second one; both who wait get the error, nothing has
changed, and a batch that is committed next stands directly behind the record that was there. -/
theorem commitBatch_all_or_nothing_breaksOff :
    let rs := [Course.creation ⟨2⟩, Course.creation ⟨3⟩]
    let calm : Weather := ⟨.unlimited, none, none, none, none⟩
    Settled oneRecord.1 oneRecord.2 (frames [Course.creation ⟨1⟩]) ∧
      ∃ e, (oneRecord.1.attempt oneRecord.2 rs breaksOff).1 = .error e ∧
      oneRecord.1.commitBatch oneRecord.2 rs breaksOff = ([.error e, .error e], oneRecord) ∧
      ∃ w d serial,
        oneRecord.1.commitBatch oneRecord.2 [Course.creation ⟨4⟩] calm = ([.ok ()], w, d) ∧
        d.file? "a.wal" =
          some ⟨serial, frames [Course.creation ⟨1⟩] ++ frames [Course.creation ⟨4⟩]⟩ := by
  intro rs calm
  have hrest : Settled oneRecord.1 oneRecord.2 (frames [Course.creation ⟨1⟩]) :=
    Settled.ofHandle (h := ⟨"a.wal", 0⟩) (Disk.file?_putFile (d := .blank) rfl "a.wal" _)
  obtain ⟨hok, _, hfailed⟩ := commitBatch_all_or_nothing hrest rs breaksOff
  obtain ⟨e, hfails⟩ : ∃ e, (oneRecord.1.attempt oneRecord.2 rs breaksOff).1 = .error e := by
    have hshort : ¬ breaksOff.allowance.Covers (frames rs).length := by decide +kernel
    cases hp : (oneRecord.1.attempt oneRecord.2 rs breaksOff).1 with
    | ok u => exact absurd (hok.1 hp).1 hshort
    | error e => exact ⟨e, rfl⟩
  have hcalm : (oneRecord.1.commit oneRecord.2 [Course.creation ⟨4⟩] calm).1 = .ok () :=
    (commit_ok_iff ..).2 ((attempt_ok_iff hrest _ _).2 ⟨trivial, rfl⟩)
  obtain ⟨w', d', hanswers, hafter, hnext⟩ := hfailed _ hfails
  have hclear : breaksOff.Clear := ⟨rfl, rfl, rfl⟩
  obtain ⟨rfl, rfl⟩ : w' = oneRecord.1 ∧ d' = oneRecord.2 :=
    hafter.resolve_right fun hbarred => hbarred.2 hclear
  exact ⟨hrest, e, hfails, hanswers, hnext [] _ calm (List.cons_ne_nil _ _) hcalm⟩

end Writer

end Allotment.Log
