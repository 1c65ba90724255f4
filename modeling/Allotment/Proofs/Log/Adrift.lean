/-
**A log whose file is taken away.**

The data directory of an open log may vanish, a file may stand in its place, or a directory may take
the name of the log.  The writer does not notice: what it writes goes to a file that has no name any
more, and is lost without an error.  It notices when a batch fails for want of space and has to be
rolled back, for then the file cannot be opened, or there is a new one that cannot be filled up to
the confirmed length.  From then on the writer refuses every batch.  A later rollback may succeed,
but all that it can do is to fill a new file with zeros, which no reader takes for a record; the
refusal stays.  A compaction that succeeds mends the log, since it needs nothing of the old file.

Main definitions:

* `Allotment.Log.Writer.Botched` — batches that fail and cannot be rolled back;
* `Allotment.Log.Writer.Adrift` — a writer that does not know yet that its file is gone;
* `Allotment.Log.Writer.Barred` — a writer that refuses every batch.

Main results:

* `Allotment.Log.Writer.unusable_appendBatch_iff` — a writer becomes unusable by such a batch only;
* `Allotment.Log.Writer.Adrift.appendBatch_cases` — **a batch is lost, or refused if bytes cannot be
  written**;
* `Allotment.Log.Writer.Barred.appendBatch`, `Allotment.Log.Writer.Barred.rollback` — **a writer
  that refuses batches goes on refusing them**, even if a rollback succeeds;
* `Allotment.Log.Writer.compact_outcome` — what a compaction does, wherever the file is;
* `Allotment.Log.scan_replicate_zero` — zeros hold no records.
-/

import Allotment.Proofs.Log.Writer

set_option relaxedAutoImplicit false
set_option autoImplicit false

namespace Allotment

namespace Log

/-! ### Zeros -/

theorem word?_replicate_zero (n : Nat) :
    word? 4 (List.replicate n 0) = if 4 ≤ n then some (0, List.replicate (n - 4) 0) else none := by
  simp only [word?, chunk?, List.take_replicate, List.length_replicate, List.drop_replicate]
  by_cases h : 4 ≤ n
  · rw [Nat.min_eq_left h, if_pos rfl, if_pos h]
    rfl
  · rw [if_neg (by omega), if_neg h]
    rfl

/-- The length and the checksum of a frame of zeros are right, but no record has no bytes. -/
theorem frame?_replicate_zero (n : Nat) : frame? (List.replicate n 0) = none := by
  have hempty : record? [] = none := rfl
  have hlimit : ¬ 0 > payloadLimit := by decide
  simp only [frame?, word?_replicate_zero, Option.bind_eq_bind]
  split
  · simp only [Option.bind_some, if_neg hlimit, chunk?, List.take_zero, List.length_nil, if_true,
      List.drop_zero, word?_replicate_zero]
    split
    · simp [hempty]
    · rfl
  · rfl

/-- **Zeros hold no records.** -/
theorem scan_replicate_zero (n : Nat) : scan (List.replicate n 0) = ⟨[], 0⟩ := by
  rw [scan_eq, frame?_replicate_zero]

theorem resized_replicate_zero (n length : Nat) :
    Disk.resized (List.replicate n 0) length = List.replicate length 0 := by
  rw [Disk.resized, List.take_replicate, List.length_replicate, List.replicate_append_replicate]
  congr 1
  omega

end Log

namespace Log.Writer

/-! ### Where nothing reaches the file -/

/-- What appending may change of a writer whose bytes do not reach the file: its buffer and what it
counts as pending. -/
structure Drifts (w w' : Writer) : Prop where
  /-- The writer still holds its file. -/
  handle : w'.sink.handle = w.sink.handle
  /-- Nothing was confirmed. -/
  confirmed : w'.confirmed = w.confirmed
  /-- Appending alone does not make a log unusable. -/
  unusable : w'.unusable = w.unusable

namespace Drifts

variable {w w' w'' : Writer}

theorem trans (h : Drifts w w') (h' : Drifts w' w'') : Drifts w w'' :=
  ⟨h'.handle.trans h.handle, h'.confirmed.trans h.confirmed, h'.unusable.trans h.unusable⟩

theorem name (h : Drifts w w') : w'.name = w.name := congrArg Handle.name h.handle

end Drifts

theorem append_of_still {w : Writer} {d : Disk} (h : d.Still w.sink.handle)
    (hu : w.unusable = false) (r : Record) :
    (w.append d r).2.2 = d ∧ Drifts w (w.append d r).2.1 ∧
      ((w.append d r).1 = .ok () →
        (w.append d r).2.1.pendingBytes = w.pendingBytes + (frame r).length) := by
  obtain ⟨hsame, hhandle⟩ := Sink.putAll_of_still h (chunks r)
  unfold append
  rw [if_neg (by simp [hu])]
  rcases hp : w.sink.putAll d (chunks r) with ⟨e | u, s₁, d₁⟩
  · rw [hp] at hsame hhandle
    exact ⟨hsame, ⟨hhandle, rfl, rfl⟩, fun hok => nomatch hok⟩
  · rw [hp] at hsame hhandle
    refine ⟨hsame, ⟨hhandle, rfl, rfl⟩, fun _ => ?_⟩
    simp only
    rw [length_frame, Nat.add_comm 8]

theorem appendAll_of_still {w : Writer} {d : Disk} (h : d.Still w.sink.handle)
    (hu : w.unusable = false) (rs : List Record) :
    (w.appendAll d rs).2.2 = d ∧ Drifts w (w.appendAll d rs).2.1 ∧
      ((w.appendAll d rs).1 = .ok () →
        (w.appendAll d rs).2.1.pendingBytes = w.pendingBytes + (frames rs).length) := by
  induction rs generalizing w with
  | nil => exact ⟨rfl, ⟨rfl, rfl, rfl⟩, fun _ => rfl⟩
  | cons r rs ih =>
      obtain ⟨hsame, hdrifts, hone⟩ := append_of_still h hu r
      rcases hp : w.append d r with ⟨e | u, w₁, d₁⟩
      · rw [hp] at hsame hdrifts
        simp only [appendAll, hp]
        exact ⟨hsame, hdrifts, by simp⟩
      · rw [hp] at hsame hdrifts hone
        obtain rfl : d₁ = d := hsame
        have hstill : d₁.Still w₁.sink.handle := hdrifts.handle ▸ h
        obtain ⟨hsame', hdrifts', hall⟩ := ih hstill (hdrifts.unusable.trans hu)
        simp only [appendAll, hp]
        refine ⟨hsame', hdrifts.trans hdrifts', fun hok => ?_⟩
        rw [hall hok, hone rfl, frames_cons, List.length_append, Nat.add_assoc]

/-- If no bytes can be written, all that is taken is in the buffer. -/
theorem appendAll_of_not_writable {w : Writer} {d : Disk} (h : d.writable = false)
    (hu : w.unusable = false) {rs : List Record} (hok : (w.appendAll d rs).1 = .ok ()) :
    (w.appendAll d rs).2.1.sink.buffer = w.sink.buffer ++ frames rs := by
  induction rs generalizing w with
  | nil => exact (List.append_nil _).symm
  | cons r rs ih =>
      obtain ⟨hsame, hdrifts, _⟩ := append_of_still (Disk.still_of_not_writable h _) hu r
      obtain ⟨_, hbuffer⟩ := Sink.putAll_of_not_writable (s := w.sink) h (chunks r)
      rcases hp : w.append d r with ⟨e | u, w₁, d₁⟩
      · simp [appendAll, hp] at hok
      · rw [hp] at hsame hdrifts
        obtain rfl : d₁ = d := hsame
        simp only [appendAll, hp] at hok ⊢
        rw [ih (hdrifts.unusable.trans hu) hok, frames_cons, ← List.append_assoc]
        congr 1
        unfold append at hp
        rw [if_neg (by simp [hu])] at hp
        rcases hput : w.sink.putAll d₁ (chunks r) with ⟨e | u, s₁, d₂⟩
        · rw [hput] at hp
          cases (Prod.mk.inj hp).1
        · rw [hput] at hp hbuffer
          obtain ⟨rfl, _⟩ := Prod.mk.inj (Prod.mk.inj hp).2
          rw [hbuffer rfl, flatten_chunks]

/-- **If no bytes can be written, a batch is refused**, and rolled back where nothing has reached
the file. -/
theorem appendBatch_of_not_writable {w : Writer} {d : Disk} (h : d.writable = false)
    (hu : w.unusable = false) (hb : w.sink.buffer = []) {rs : List Record} (hne : rs ≠ []) :
    ∃ e w₁, Drifts w w₁ ∧ w.appendBatch d rs = (.error e, (w₁.rollback d).2) := by
  obtain ⟨hsame, hdrifts, _⟩ := appendAll_of_still (Disk.still_of_not_writable h _) hu rs
  have hbuffer : (w.appendAll d rs).1 = .ok () →
      (w.appendAll d rs).2.1.sink.buffer = w.sink.buffer ++ frames rs :=
    appendAll_of_not_writable h hu
  unfold appendBatch
  rcases hp : w.appendAll d rs with ⟨e | u, w₁, d₁⟩
  · rw [hp] at hsame hdrifts
    obtain rfl : d₁ = d := hsame
    exact ⟨e, w₁, hdrifts, rfl⟩
  · rw [hp] at hsame hdrifts hbuffer
    obtain rfl : d₁ = d := hsame
    simp only
    unfold flush
    cases hf : w₁.sink.flush d₁ with
    | error e => exact ⟨e, w₁, hdrifts, rfl⟩
    | ok sd =>
        obtain ⟨s₂, d₂⟩ := sd
        -- only an empty buffer could be written out
        obtain ⟨_, hempty, _⟩ := Sink.flush_of_not_writable h hf
        have hfull : w₁.sink.buffer = w.sink.buffer ++ frames rs := hbuffer rfl
        rw [hempty, hb, List.nil_append] at hfull
        exact absurd (eq_nil_of_frames hfull.symm) hne

/-! ### Rollbacks that fail -/

theorem unusable_append (w : Writer) (d : Disk) (r : Record) :
    (w.append d r).2.1.unusable = w.unusable := by
  have hwithin := unusable_appendWithin w d d.allowance r
  rwa [appendWithin_allowance] at hwithin

theorem unusable_appendAll (w : Writer) (d : Disk) (rs : List Record) :
    (w.appendAll d rs).2.1.unusable = w.unusable := by
  induction rs generalizing w d with
  | nil => rfl
  | cons r rs ih =>
      have hone := unusable_append w d r
      rcases hp : w.append d r with ⟨e | u, w₁, d₁⟩
      · rw [hp] at hone
        simp only [appendAll, hp]
        exact hone
      · rw [hp] at hone
        simp only [appendAll, hp]
        exact (ih w₁ d₁).trans hone

theorem unusable_flush {w w' : Writer} {d d' : Disk} (h : w.flush d = .ok (w', d')) :
    w'.unusable = w.unusable := by
  obtain ⟨s, _, rfl⟩ := flush_eq_ok h
  rfl

/-- A rollback that fails makes a writer unusable, and one that succeeds leaves it as it is. -/
theorem unusable_rollback_iff (w : Writer) (d : Disk) :
    (w.rollback d).2.1.unusable = true ↔ w.unusable = true ∨ ∃ e, (w.rollback d).1 = .error e := by
  unfold rollback
  simp only
  split
  · simp
  · split
    · simp
    · simp

/-- Whether a batch fails and cannot be rolled back. -/
def Botched (w : Writer) (d : Disk) (rs : List Record) : Prop :=
  ∃ (e e' : Fault) (w₁ : Writer) (d₁ : Disk),
    w.appendBatch d rs = (.error e, (w₁.rollback d₁).2) ∧ (w₁.rollback d₁).1 = .error e'

/-- **A writer becomes unusable by a batch that fails and cannot be rolled back**, and by no other.
-/
theorem unusable_appendBatch_iff (w : Writer) (d : Disk) (rs : List Record) :
    (w.appendBatch d rs).2.1.unusable = true ↔ w.unusable = true ∨ w.Botched d rs := by
  -- what a batch that fails leaves is what its rollback leaves
  have hfailed : ∀ {e : Fault} {w₁ : Writer} {d₁ : Disk}, w₁.unusable = w.unusable →
      w.appendBatch d rs = (.error e, (w₁.rollback d₁).2) →
        ((w.appendBatch d rs).2.1.unusable = true ↔ w.unusable = true ∨ w.Botched d rs) := by
    intro e w₁ d₁ hsame he
    constructor
    · intro hu
      rw [he, unusable_rollback_iff, hsame] at hu
      exact hu.imp_right fun ⟨e', he'⟩ => ⟨e, e', w₁, d₁, he, he'⟩
    · rintro (hu | ⟨e, e', w₂, d₂, he₂, he'⟩)
      · rw [he, unusable_rollback_iff, hsame]
        exact Or.inl hu
      · rw [he₂, unusable_rollback_iff]
        exact Or.inr ⟨e', he'⟩
  have hsame := unusable_appendAll w d rs
  rcases hp : w.appendAll d rs with ⟨e | u, w₁, d₁⟩
  · have he : w.appendBatch d rs = (.error e, (w₁.rollback d₁).2) := by simp only [appendBatch, hp]
    rw [hp] at hsame
    exact hfailed hsame he
  · rw [hp] at hsame
    cases hf : w₁.flush d₁ with
    | error e =>
        have he : w.appendBatch d rs = (.error e, (w₁.rollback d₁).2) := by
          simp only [appendBatch, hp, hf]
        exact hfailed hsame he
    | ok wd =>
        obtain ⟨w₂, d₂⟩ := wd
        have hok : w.appendBatch d rs = (.ok (), w₂, d₂) := by simp only [appendBatch, hp, hf]
        have hflush : w₂.unusable = w.unusable := (unusable_flush hf).trans hsame
        rw [hok]
        constructor
        · intro hu
          exact Or.inl (hflush.symm.trans hu)
        · rintro (hu | ⟨e, e', w₃, d₃, he, _⟩)
          · exact hflush.trans hu
          · rw [hok] at he
            cases (Prod.mk.inj he).1

/-! ### Writers that refuse every batch -/

/-- Whether the file under a name, if there is one, has nothing but zeros. -/
def Blank (d : Disk) (name : String) : Prop :=
  ∀ f, d.file? name = some f → ∃ n, f.bytes = List.replicate n 0

/-- **A writer that refuses every batch.** -/
structure Barred (w : Writer) (d : Disk) : Prop where
  /-- A rollback has failed. -/
  unusable : w.unusable = true
  /-- Nothing waits to be written to a file that is there. -/
  buffer : w.sink.buffer = [] ∨ d.file? w.name = none
  /-- The file of the log has nothing but zeros, if it is there at all. -/
  blank : Blank d w.name

/-- What can come of a rollback if the file of the log has nothing but zeros or is gone: either the
writer refuses every batch from then on, or the file has as many zeros as bytes were confirmed. -/
theorem rollback_of_blank {w : Writer} {d : Disk} (h : Blank d w.name)
    (hb : w.sink.buffer = [] ∨ d.file? w.name = none) :
    (∃ e w' d', w.rollback d = (.error e, w', d') ∧ Barred w' d' ∧ w'.name = w.name ∧
      d'.writable = d.writable) ∨
    ∃ serial d', w.rollback d =
        (.ok (), ⟨.ofHandle ⟨w.name, serial⟩, w.confirmed, 0, 0, w.appends - w.pendingAppends,
          w.unusable⟩, d') ∧
      d'.file? w.name = some ⟨serial, List.replicate w.confirmed 0⟩ ∧ d'.writable = d.writable ∧
      (d.file? w.name = none → d.writable = false → w.confirmed = 0) := by
  rcases Disk.openAppend_cases d w.name with ⟨e, ho⟩ | ⟨serial, bs, d₁, ho, hf, hw, hfrom⟩
  · left
    refine ⟨e, { w with
      appends := w.appends - w.pendingAppends, pendingAppends := 0, pendingBytes := 0,
      unusable := true }, d, ?_, ⟨rfl, hb, h⟩, rfl, rfl⟩
    simp only [name] at ho
    simp only [rollback, name, ho]
  · have hzeros : ∃ n, bs = List.replicate n 0 := by
      rcases hfrom with hsame | ⟨_, rfl⟩
      · exact h _ hsame
      · exact ⟨0, rfl⟩
    obtain ⟨n, rfl⟩ := hzeros
    simp only [name] at ho hf
    rcases Disk.setLength_cases hf w.confirmed with ⟨_, _, hl⟩ | ⟨hfits, hl⟩
    · left
      refine ⟨.fileTooLarge, { w with
        sink := .ofHandle ⟨w.name, serial⟩, appends := w.appends - w.pendingAppends,
        pendingAppends := 0, pendingBytes := 0, unusable := true }, d₁, ?_,
        ⟨rfl, Or.inl rfl, ?_⟩, rfl, hw⟩
      · simp only [rollback, name, ho, Sink.ofHandle, hl]
      · intro f hf'
        exact ⟨n, by rw [Option.some.inj (hf'.symm.trans hf)]⟩
    · right
      refine ⟨serial, d₁.setEntry w.name (.file ⟨serial, List.replicate w.confirmed 0⟩), ?_,
        Disk.file?_setEntry hf _, (Disk.writable_setEntry _ _ _).trans hw, ?_⟩
      · rw [resized_replicate_zero] at hl
        simp only [rollback, name, ho, Sink.ofHandle, hl]
      · intro hgone hnot
        -- a file that was made for this is empty, and cannot be filled up
        rcases hfrom with hsame | ⟨_, hempty⟩
        · rw [hgone] at hsame
          cases hsame
        · refine Nat.eq_zero_of_not_pos fun hpos => hfits ⟨?_, hw.trans hnot⟩
          rw [hempty]
          exact hpos

namespace Barred

variable {w : Writer} {d : Disk}

/-- **A rollback does not lift the refusal**, even if it succeeds. -/
theorem rollback (h : Barred w d) :
    Barred (w.rollback d).2.1 (w.rollback d).2.2 ∧ (w.rollback d).2.1.name = w.name ∧
      (w.rollback d).2.2.writable = d.writable := by
  rcases rollback_of_blank h.blank h.buffer with
    ⟨e, w', d', he, hbarred, hname, hw⟩ | ⟨serial, d', hok, hf, hw, _⟩
  · rw [he]
    exact ⟨hbarred, hname, hw⟩
  · rw [hok]
    refine ⟨⟨h.unusable, Or.inl rfl, ?_⟩, rfl, hw⟩
    intro f hf'
    exact ⟨w.confirmed, by rw [Option.some.inj (hf'.symm.trans hf)]⟩

/-- **A writer that refuses batches goes on refusing them.** -/
theorem appendBatch (h : Barred w d) {rs : List Record} (hne : rs ≠ []) :
    ∃ w' d', w.appendBatch d rs = (.error .logUnusable, w', d') ∧ Barred w' d' ∧
      w'.name = w.name ∧ d'.writable = d.writable := by
  obtain ⟨hbarred, hname, hw⟩ := h.rollback
  refine ⟨(w.rollback d).2.1, (w.rollback d).2.2, ?_, hbarred, hname, hw⟩
  cases rs with
  | nil => exact absurd rfl hne
  | cons r rs => simp only [Writer.appendBatch, appendAll, append, h.unusable, if_true]

/-- A writer goes on refusing batches if its file is left alone or taken away. -/
theorem of_file? (h : Barred w d) {d' : Disk}
    (hfile : d'.file? w.name = d.file? w.name ∨ d'.file? w.name = none) : Barred w d' where
  unusable := h.unusable
  buffer := by
    rcases hfile with hsame | hgone
    · exact hsame ▸ h.buffer
    · exact Or.inr hgone
  blank f hf := by
    rcases hfile with hsame | hgone
    · exact h.blank f (hsame ▸ hf)
    · rw [hgone] at hf
      cases hf

end Barred

/-! ### Writers whose file is gone -/

/-- **A writer that does not know yet that its file is gone.** -/
structure Adrift (w : Writer) (d : Disk) (bs : Bytes) : Prop where
  /-- There is no file under the name of the log. -/
  gone : d.file? w.name = none
  /-- Nothing waits to be written. -/
  buffer : w.sink.buffer = []
  /-- The writer takes this many bytes for confirmed. -/
  confirmed : w.confirmed = bs.length
  /-- Nothing waits to be confirmed. -/
  pendingBytes : w.pendingBytes = 0
  /-- No rollback has failed. -/
  usable : w.unusable = false

/-- A writer at rest whose file is taken away. -/
theorem Settled.adrift {w : Writer} {d d' : Disk} {bs : Bytes} (h : Settled w d bs)
    (hgone : d'.file? w.name = none) : Adrift w d' bs :=
  ⟨hgone, h.buffer, h.confirmed, h.pendingBytes, h.usable⟩

/-- **A batch is lost, or refused if bytes cannot be written.**  If it is refused, the writer has
noticed that its file is gone, unless no bytes were ever confirmed. -/
theorem Adrift.appendBatch_cases {w : Writer} {d : Disk} {bs : Bytes} (h : Adrift w d bs)
    {rs : List Record} (hne : rs ≠ []) :
    (d.writable = true ∧ ∃ w', w.appendBatch d rs = (.ok (), w', d) ∧
      Adrift w' d (bs ++ frames rs) ∧ w'.name = w.name) ∨
    (d.writable = false ∧ ∃ e w' d', w.appendBatch d rs = (.error e, w', d') ∧
      (Settled w' d' bs ∨ Barred w' d') ∧ w'.name = w.name ∧ d'.writable = d.writable) := by
  have hstill : d.Still w.sink.handle := Disk.still_of_gone h.gone
  cases hw : d.writable with
  | true =>
      left
      refine ⟨rfl, ?_⟩
      obtain ⟨hsame, hdrifts, hbytes⟩ := appendAll_of_still hstill h.usable rs
      obtain ⟨hok, _⟩ := appendAll_of_writable hw h.usable rs
      unfold appendBatch
      rcases hp : w.appendAll d rs with ⟨result, w₁, d₁⟩
      rw [hp] at hsame hdrifts hbytes hok
      obtain rfl : d₁ = d := hsame
      obtain rfl : result = .ok () := hok
      obtain ⟨s₂, d₂, hf⟩ := Sink.flush_of_writable (s := w₁.sink) hw
      obtain ⟨rfl, rfl⟩ := Sink.flush_of_still (hdrifts.handle ▸ hstill) hf
      simp only [flush, hf, Except.map]
      refine ⟨_, rfl, ⟨?_, rfl, ?_, rfl, hdrifts.unusable.trans h.usable⟩, hdrifts.name⟩
      · exact (congrArg d₂.file? hdrifts.name).trans h.gone
      · have hbytes' : w₁.pendingBytes = w.pendingBytes + (frames rs).length := hbytes rfl
        have hconfirmed : w₁.confirmed = w.confirmed := hdrifts.confirmed
        rw [hbytes', hconfirmed, h.confirmed, h.pendingBytes, List.length_append, Nat.zero_add]
  | false =>
      right
      refine ⟨rfl, ?_⟩
      obtain ⟨e, w₁, hdrifts, he⟩ := appendBatch_of_not_writable hw h.usable h.buffer hne
      have hgone : d.file? w₁.name = none := hdrifts.name ▸ h.gone
      have hblank : Blank d w₁.name := by
        intro f hf
        rw [hgone] at hf
        cases hf
      rw [he]
      rcases rollback_of_blank hblank (Or.inr hgone) with
        ⟨e', w', d', hr, hbarred, hname, hw'⟩ | ⟨serial, d', hr, hf, hw', hnone⟩
      · rw [hr]
        exact ⟨e, w', d', rfl, Or.inr hbarred, hname.trans hdrifts.name, hw'.trans hw⟩
      · rw [hr]
        refine ⟨e, _, d', rfl, Or.inl ?_, hdrifts.name, hw'.trans hw⟩
        have hzero := hnone hgone hw
        have hconfirmed : bs.length = 0 :=
          h.confirmed.symm.trans (hdrifts.confirmed.symm.trans hzero)
        rw [hzero] at hf
        obtain rfl := List.length_eq_zero_iff.1 hconfirmed
        exact ⟨hf, rfl, hzero, rfl, rfl, hdrifts.unusable.trans h.usable⟩

/-! ### Closing and compacting -/

/-- Closing a log from which nothing waits to be written to a file that is there changes nothing. -/
theorem close_of_lost {w : Writer} {d : Disk}
    (h : w.sink.buffer = [] ∨ d.file? w.name = none) : w.close d = d := by
  rcases h with hempty | hgone
  · exact close_of_empty hempty d
  · unfold close
    cases hf : w.sink.flush d with
    | error e => rfl
    | ok sd => exact (Sink.flush_of_still (Disk.still_of_gone hgone) hf).1

/-- **What a compaction does, wherever the file of the log is**: it fails and leaves the file alone,
or the writer is at rest over the new records. -/
theorem compact_outcome (w : Writer) (d : Disk) (rs : List Record) :
    (∃ e d', w.compact d rs = (.error e, w, d') ∧ d'.file? w.name = d.file? w.name) ∨
    ∃ w' d', w.compact d rs = (.ok (), w', d') ∧ Settled w' d' (frames rs) ∧ w'.name = w.name := by
  have hnowhere : (∀ e, d.create (temporaryName w.name) = .error e →
      w.compact d rs = (.error e, w, d)) := by
    intro e he
    simp only [compact, writeCompacted, he]
  cases hp : d.place with
  | missing =>
      exact Or.inl ⟨_, d, hnowhere .noSuchFile (by simp [Disk.create, Disk.entries, hp]), rfl⟩
  | occupied =>
      exact Or.inl ⟨_, d, hnowhere .notADirectory (by simp [Disk.create, Disk.entries, hp]), rfl⟩
  | directory es =>
      obtain ⟨hother, _, hfile⟩ := writeCompacted_cases hp w.name rs
      unfold compact
      rcases hc : writeCompacted d w.name rs with ⟨e | u, d₁⟩
      · rw [hc] at hother
        have hsame := hother _ (Ne.symm (temporaryName_ne _))
        exact Or.inl ⟨e, d₁, rfl, by rw [Disk.file?, Disk.file?, hsame]⟩
      · rw [hc] at hother hfile
        have hsame := hother _ (Ne.symm (temporaryName_ne w.name))
        obtain ⟨serial, htemp⟩ := hfile rfl
        by_cases hdir : Disk.entry? d₁ w.name = some .directory
        · left
          refine ⟨.isADirectory, d₁, ?_, by rw [Disk.file?, Disk.file?, hsame]⟩
          simp only [swap, Disk.rename_of_directory htemp hdir]
        · right
          obtain ⟨d₂, hr, htarget, _⟩ :=
            Disk.rename_of_file? (temporaryName_ne w.name) htemp hdir
          refine ⟨ofHandle ⟨w.name, serial⟩ (frames rs).length, d₂, ?_, Settled.ofHandle htarget,
            rfl⟩
          simp only [swap, hr, ofFile, Disk.openAppend_of_file? htarget, Except.map, sizeOf,
            Disk.size?_of_file? htarget, Option.getD_some]

end Log.Writer

end Allotment
