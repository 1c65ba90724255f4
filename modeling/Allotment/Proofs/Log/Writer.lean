/-
**A log that nobody else touches.**

Between two calls the writer of a log is at rest: its buffer is empty, and the file under its name
is the one it holds, with as many bytes as it has confirmed.  A batch is then taken as a whole or
not at all.  While it is being written, the file grows behind the confirmed bytes and the buffer
holds what has not reached it; whatever happens there, a rollback finds the confirmed bytes at the
front of the file and cuts it back to them, which needs no bytes to be written.  A batch that fails
thus leaves the writer and the disk exactly as they were.

Main definitions:

* `Allotment.Log.Writer.Settled` — a writer at rest over a file with given bytes;
* `Allotment.Log.Writer.Writable` — whether a compaction can write its temporary file.

Main results:

* `Allotment.Log.Writer.rollback_of_ahead`, `Allotment.Log.Writer.Settled.confirm` — what a rollback
  and a flush make of a writer to which records were appended;
* `Allotment.Log.Writer.appendBatch_cases` — **a batch is taken as a whole or changes nothing**;
* `Allotment.Log.Writer.compact_cases` — **a compaction takes effect or changes nothing but its
  temporary file**;
* `Allotment.Log.Writer.recover_of_file?`, `Allotment.Log.Writer.recover_of_absent` — what opening
  a log gives.
-/

import Allotment.Proofs.Log.Allowance

set_option relaxedAutoImplicit false
set_option autoImplicit false

namespace Allotment.Log

namespace Writer

/-! ### Writers at rest -/

/-- A writer at rest over a file with the bytes `bs`. -/
structure Settled (w : Writer) (d : Disk) (bs : Bytes) : Prop where
  /-- The file under the name of the log is the one that the writer holds. -/
  file : d.file? w.name = some ⟨w.sink.handle.serial, bs⟩
  /-- Nothing waits to be written. -/
  buffer : w.sink.buffer = []
  /-- All bytes of the file are confirmed. -/
  confirmed : w.confirmed = bs.length
  /-- Nothing waits to be confirmed. -/
  pendingBytes : w.pendingBytes = 0
  /-- No record waits to be confirmed. -/
  pendingAppends : w.pendingAppends = 0
  /-- No rollback has failed. -/
  usable : w.unusable = false

theorem Settled.ofHandle {d : Disk} {h : Handle} {bs : Bytes}
    (hf : d.file? h.name = some ⟨h.serial, bs⟩) : Settled (ofHandle h bs.length) d bs :=
  ⟨hf, rfl, rfl, rfl, rfl, rfl⟩

/-- A log whose file was not touched is still at rest. -/
theorem Settled.of_entry?_eq {w : Writer} {d d' : Disk} {bs : Bytes} (h : Settled w d bs)
    (hsame : d'.entry? w.name = d.entry? w.name) : Settled w d' bs :=
  { h with file := Disk.file?_of_entry? (hsame.trans (Disk.entry?_of_file? h.file)) }

/-- Closing a log from which nothing waits to be written changes nothing. -/
theorem close_of_empty {w : Writer} (h : w.sink.buffer = []) (d : Disk) : w.close d = d := by
  simp [close, Sink.flush, h, Disk.write, Except.map]

/-- Closing a log at rest writes nothing. -/
theorem Settled.close_eq {w : Writer} {d : Disk} {bs : Bytes} (h : Settled w d bs) :
    w.close d = d := close_of_empty h.buffer d

/-! ### Batches -/

/-- A rollback undoes whatever was appended to a writer at rest. -/
theorem rollback_of_ahead {w w' : Writer} {d d' : Disk} {bs new data : Bytes} {k : Nat}
    (h : Settled w d bs) (a : Ahead w w' d d' bs new data k) :
    w'.rollback d' = (.ok (), w, d) := by
  have hdisk : d' = d.setEntry w.name (.file ⟨w.sink.handle.serial, bs ++ new⟩) := a.sink.disk
  have hfile : d'.file? w.name = some ⟨w.sink.handle.serial, bs ++ new⟩ := by
    rw [hdisk]
    exact Disk.file?_setEntry h.file _
  have hcut : d'.setLength w.name w.confirmed = .ok d := by
    rw [Disk.setLength_of_file? hfile (by simp [h.confirmed]), h.confirmed, List.take_left,
      hdisk, Disk.setEntry_setEntry]
    exact congrArg _ (Disk.setEntry_self h.file)
  have hopen := Disk.openAppend_of_file? hfile
  simp only [name] at hopen hcut
  simp only [rollback, name, a.sink.handle, hopen, Sink.ofHandle, a.confirmed, hcut]
  -- every field of the writer is that of the writer at rest again
  obtain ⟨⟨⟨n, serial⟩, buffer⟩, confirmed, pendingBytes, pendingAppends, appends, unusable⟩ := w
  obtain ⟨_, hb, _, hpb, hpa, hu⟩ := h
  obtain ⟨_, _, happ, hpend, husable⟩ := a
  simp only at hb hpb hpa hu happ hpend husable
  simp only [hb, hpb, hpa, hu, happ, hpend, husable, Nat.zero_add,
    Nat.add_sub_cancel]

/-- A rollback cuts the file back to its confirmed front, whatever has got behind it. -/
theorem rollback_of_front {w : Writer} {d : Disk} {front behind : Bytes}
    (h : d.file? w.name = some ⟨w.sink.handle.serial, front ++ behind⟩)
    (hc : w.confirmed = front.length) (hu : w.unusable = false) :
    ∃ w' d', w.rollback d = (.ok (), w', d') ∧ Settled w' d' front ∧ w'.name = w.name := by
  have hcut : d.setLength w.name w.confirmed =
      .ok (d.setEntry w.name (.file ⟨w.sink.handle.serial, front⟩)) := by
    rw [Disk.setLength_of_file? h (by simp [hc]), hc, List.take_left]
  have hopen := Disk.openAppend_of_file? h
  simp only [name] at hopen hcut
  refine ⟨⟨.ofHandle w.sink.handle, w.confirmed, 0, 0, w.appends - w.pendingAppends, false⟩,
    d.setEntry w.name (.file ⟨w.sink.handle.serial, front⟩), ?_, ?_, rfl⟩
  · simp only [rollback, name, hopen, hcut, Sink.ofHandle, hu]
  · exact ⟨Disk.file?_setEntry h _, rfl, hc, rfl, rfl, rfl⟩

/-- The writer after a batch was taken. -/
def extended (w : Writer) (rs : List Record) : Writer :=
  { w with confirmed := w.confirmed + (frames rs).length, appends := w.appends + rs.length }

/-- **A batch is taken once the buffer is written out**, if all its records were appended to a
writer at rest. -/
theorem Settled.confirm {w w' : Writer} {d d' d'' : Disk} {s : Sink} {bs new new' : Bytes}
    {rs : List Record} (h : Settled w d bs) (a : Ahead w w' d d' bs new (frames rs) rs.length)
    (hbytes : w'.pendingBytes = w.pendingBytes + (frames rs).length)
    (hw : Sink.Wrote w'.sink s d' d'' (bs ++ new) new' []) (hempty : s.buffer = []) :
    { w' with
        sink := s
        confirmed := w'.confirmed + w'.pendingBytes
        pendingBytes := 0
        pendingAppends := 0 } = w.extended rs ∧
      d'' = d.setEntry w.name (.file ⟨w.sink.handle.serial, bs ++ frames rs⟩) := by
  have htotal := a.sink.trans hw
  -- what has reached the file is all that was taken, since both buffers are empty
  have hall : new ++ new' = frames rs := by
    have hdata := htotal.data
    rwa [hempty, h.buffer, List.append_nil, List.append_nil, List.nil_append] at hdata
  have hdisk := htotal.disk
  rw [hall] at hdisk
  refine ⟨?_, hdisk⟩
  have hhandle := htotal.handle
  obtain ⟨⟨handle, buffer⟩, confirmed, pendingBytes, pendingAppends, appends, unusable⟩ := w
  obtain ⟨handle', buffer'⟩ := s
  obtain ⟨_, hb, _, hpb, hpa, _⟩ := h
  obtain ⟨_, hc, happ, _, husable⟩ := a
  simp only at hb hpb hpa hc happ husable hbytes hempty hhandle
  simp only [extended, hb, hpb, hpa, hc, happ, husable, hbytes, hempty, hhandle, Nat.zero_add]

/-- **A batch is taken as a whole or changes nothing.** -/
theorem appendBatch_cases {w : Writer} {d : Disk} {bs : Bytes} (h : Settled w d bs)
    (rs : List Record) :
    (∃ e, w.appendBatch d rs = (.error e, w, d)) ∨
      w.appendBatch d rs =
        (.ok (), w.extended rs,
          d.setEntry w.name (.file ⟨w.sink.handle.serial, bs ++ frames rs⟩)) := by
  obtain ⟨new, data, k, ha, hall⟩ := appendAll_ahead h.file h.usable rs
  unfold appendBatch
  rcases hp : w.appendAll d rs with ⟨result, w₁, d₁⟩
  rw [hp] at ha hall
  cases result with
  | error e => exact Or.inl ⟨e, by simp only [rollback_of_ahead h ha]⟩
  | ok u =>
      simp only
      unfold flush
      cases hf : w₁.sink.flush d₁ with
      | error e => exact Or.inl ⟨e, by simp only [Except.map, rollback_of_ahead h ha]⟩
      | ok sd =>
          right
          obtain ⟨rfl, rfl, hbytes⟩ := hall rfl
          obtain ⟨hw, hempty⟩ := Sink.flush_wrote (ha.sink.file h.file) hf
          obtain ⟨hwriter, hdisk⟩ := h.confirm ha hbytes hw hempty
          simp only [Except.map, hwriter, hdisk]

/-- A flush that succeeds confirms what is pending. -/
theorem flush_eq_ok {w w' : Writer} {d d' : Disk} (h : w.flush d = .ok (w', d')) :
    ∃ s, w.sink.flush d = .ok (s, d') ∧
      w' =
        { w with
          sink := s
          confirmed := w.confirmed + w.pendingBytes
          pendingBytes := 0
          pendingAppends := 0 } := by
  unfold flush at h
  cases hf : w.sink.flush d with
  | error e =>
      rw [hf] at h
      cases h
  | ok sd =>
      rw [hf] at h
      cases h
      exact ⟨sd.1, rfl, rfl⟩

/-! If bytes can be written, nothing is refused. -/

theorem append_of_writable {w : Writer} {d : Disk} (h : d.writable = true)
    (hu : w.unusable = false) (r : Record) :
    (w.append d r).1 = .ok () ∧ (w.append d r).2.1.unusable = false ∧
      (w.append d r).2.2.writable = true := by
  obtain ⟨hok, hw⟩ := Sink.putAll_of_writable (s := w.sink) h (chunks r)
  unfold append
  rw [if_neg (by simp [hu])]
  rcases hp : w.sink.putAll d (chunks r) with ⟨result, s₁, d₁⟩
  rw [hp] at hok hw
  obtain rfl : result = .ok () := hok
  exact ⟨rfl, hu, hw⟩

/-- An append that fails leaves the disk as it is. -/
theorem append_of_error {w : Writer} {d : Disk} {r : Record} {e : Fault}
    (h : (w.append d r).1 = .error e) : (w.append d r).2.2 = d := by
  unfold append at h ⊢
  split at h
  · next hu => rw [if_pos hu]
  · next hu =>
    rw [if_neg hu]
    cases hw : d.writable with
    | true =>
        obtain ⟨hok, _⟩ := Sink.putAll_of_writable (s := w.sink) hw (chunks r)
        rcases hp : w.sink.putAll d (chunks r) with ⟨result, s₁, d₁⟩
        rw [hp] at hok h
        obtain rfl : result = .ok () := hok
        cases h
    | false =>
        have hsame := (Sink.putAll_of_not_writable (s := w.sink) hw (chunks r)).1
        rcases hp : w.sink.putAll d (chunks r) with ⟨result, s₁, d₁⟩
        rw [hp] at hsame
        obtain rfl : d₁ = d := hsame
        cases result <;> rfl

theorem appendAll_of_writable {w : Writer} {d : Disk} (h : d.writable = true)
    (hu : w.unusable = false) (rs : List Record) :
    (w.appendAll d rs).1 = .ok () ∧ (w.appendAll d rs).2.2.writable = true := by
  induction rs generalizing w d with
  | nil => exact ⟨rfl, h⟩
  | cons r rs ih =>
      obtain ⟨hok, hu', hw⟩ := append_of_writable h hu r
      rcases hp : w.append d r with ⟨result, w₁, d₁⟩
      rw [hp] at hok hu' hw
      obtain rfl : result = .ok () := hok
      simp only [appendAll, hp]
      exact ih hw hu'

theorem flush_of_writable {w : Writer} {d : Disk} (h : d.writable = true) :
    ∃ w' d', w.flush d = .ok (w', d') := by
  obtain ⟨s', d', hf⟩ := Sink.flush_of_writable (s := w.sink) h
  exact ⟨_, _, by rw [flush, hf]; rfl⟩

/-- **If bytes can be written, every batch is taken.** -/
theorem appendBatch_of_writable {w : Writer} {d : Disk} (h : d.writable = true)
    (hu : w.unusable = false) (rs : List Record) : (w.appendBatch d rs).1 = .ok () := by
  obtain ⟨hok, hw⟩ := appendAll_of_writable h hu rs
  unfold appendBatch
  rcases hp : w.appendAll d rs with ⟨result, w₁, d₁⟩
  rw [hp] at hok hw
  obtain rfl : result = .ok () := hok
  obtain ⟨w₂, d₂, hf⟩ := flush_of_writable (w := w₁) hw
  simp only [hf]

/-- A writer that has taken a batch is at rest again. -/
theorem Settled.extended {w : Writer} {d : Disk} {bs : Bytes} (h : Settled w d bs)
    (rs : List Record) :
    Settled (w.extended rs)
      (d.setEntry w.name (.file ⟨w.sink.handle.serial, bs ++ frames rs⟩)) (bs ++ frames rs) where
  file := Disk.file?_setEntry h.file _
  buffer := h.buffer
  confirmed := by rw [Writer.extended, h.confirmed, List.length_append]
  pendingBytes := h.pendingBytes
  pendingAppends := h.pendingAppends
  usable := h.usable

/-! ### Compaction -/

theorem temporaryName_ne (name : String) : temporaryName name ≠ name := by
  intro h
  have := congrArg String.length h
  rw [temporaryName, String.length_append] at this
  have hl : (".tmp" : String).length = 4 := rfl
  omega

/-- Writing records to the temporary file touches no other file; if it succeeds, the temporary file
holds exactly these records. -/
theorem writeCompacted_cases {d : Disk} {es : Entries} (hp : d.place = .directory es)
    (name : String) (rs : List Record) :
    (∀ x, x ≠ temporaryName name → Disk.entry? (writeCompacted d name rs).2 x = d.entry? x) ∧
      (writeCompacted d name rs).2.writable = d.writable ∧
      ((writeCompacted d name rs).1 = .ok () →
        ∃ serial, (writeCompacted d name rs).2.file? (temporaryName name) =
          some ⟨serial, frames rs⟩) := by
  unfold writeCompacted
  rcases Disk.create_cases hp (temporaryName name) with
    ⟨_, hc⟩ | ⟨_, serial, d₁, hc, hf, hwritable, hother⟩
  · simp only [hc]
    exact ⟨fun _ _ => trivial, trivial, fun hok => by cases hok⟩
  · simp only [hc]
    -- whatever the sink has written by the end has gone to the temporary file
    have hframe : ∀ {s' d' new data},
        Sink.Wrote (Sink.ofHandle ⟨temporaryName name, serial⟩) s' d₁ d' [] new data →
          (∀ x, x ≠ temporaryName name → d'.entry? x = d.entry? x) ∧ d'.writable = d.writable :=
      fun hw => ⟨fun x hx => (hw.other hf hx).trans (hother x hx), hw.writable_eq.trans hwritable⟩
    obtain ⟨new, data, hw, _, hall⟩ := Sink.putAll_wrote
      (s := Sink.ofHandle ⟨temporaryName name, serial⟩) hf (rs.flatMap chunks)
    rcases hput : (Sink.ofHandle ⟨temporaryName name, serial⟩).putAll d₁ (rs.flatMap chunks) with
      ⟨result, s₂, d₂⟩
    rw [hput] at hw hall
    cases result with
    | error e => exact ⟨(hframe hw).1, (hframe hw).2, fun hok => by cases hok⟩
    | ok u =>
        simp only
        cases hflush : s₂.flush d₂ with
        | error e => exact ⟨(hframe hw).1, (hframe hw).2, fun hok => by cases hok⟩
        | ok sd =>
            obtain ⟨s₃, d₃⟩ := sd
            obtain ⟨hw', hempty⟩ := Sink.flush_wrote (hw.file hf) hflush
            have htotal := hw.trans hw'
            refine ⟨(hframe htotal).1, (hframe htotal).2, ?_⟩
            intro _
            have hdata := htotal.data
            rw [hempty, hall rfl, flatten_flatMap_chunks] at hdata
            simp only [Sink.ofHandle, List.append_nil, List.nil_append] at hdata
            have hfile := htotal.file hf
            rw [htotal.handle, hdata] at hfile
            exact ⟨serial, hfile⟩

theorem eq_nil_of_frames {rs : List Record} (h : frames rs = []) : rs = [] := by
  cases rs with
  | nil => rfl
  | cons r rs =>
      have := congrArg List.length h
      rw [frames_cons, List.length_append, length_frame, List.length_nil] at this
      omega

/-- Whether records can be written to the temporary file of a log: no directory is in the way, and
bytes can be written if there are any. -/
def Writable (d : Disk) (name : String) (rs : List Record) : Prop :=
  d.entry? (temporaryName name) ≠ some .directory ∧ (d.writable = true ∨ rs = [])

/-- Where bytes can be written, nothing can fail once the temporary file is there. -/
theorem writeCompacted_of_writable {d d₁ : Disk} {name : String} {h : Handle}
    (hc : d.create (temporaryName name) = .ok (h, d₁)) (hw : d₁.writable = true)
    (rs : List Record) : (writeCompacted d name rs).1 = .ok () := by
  unfold writeCompacted
  simp only [hc]
  obtain ⟨hput, hw₂⟩ := Sink.putAll_of_writable (s := Sink.ofHandle h) hw (rs.flatMap chunks)
  rcases hp : (Sink.ofHandle h).putAll d₁ (rs.flatMap chunks) with ⟨result, s₂, d₂⟩
  rw [hp] at hput hw₂
  obtain rfl : result = .ok () := hput
  obtain ⟨s₃, d₃, hflush⟩ := Sink.flush_of_writable (s := s₂) hw₂
  simp only [hflush]

/-- Where no bytes can be written, the temporary file is as it was made, unless something fails. -/
theorem writeCompacted_of_not_writable {d d₁ : Disk} {name : String} {h : Handle}
    (hc : d.create (temporaryName name) = .ok (h, d₁)) (hw : d₁.writable = false)
    {rs : List Record} (hok : (writeCompacted d name rs).1 = .ok ()) :
    (writeCompacted d name rs).2 = d₁ := by
  unfold writeCompacted at hok ⊢
  simp only [hc] at hok ⊢
  have hput := (Sink.putAll_of_not_writable (s := Sink.ofHandle h) hw (rs.flatMap chunks)).1
  rcases hp : (Sink.ofHandle h).putAll d₁ (rs.flatMap chunks) with ⟨result, s₂, d₂⟩
  rw [hp] at hput hok
  obtain rfl : d₂ = d₁ := hput
  cases result with
  | error e => cases hok
  | ok u =>
      cases hflush : s₂.flush d₂ with
      | error e => simp [hflush] at hok
      | ok sd =>
          obtain ⟨s₃, d₃⟩ := sd
          obtain rfl := (Sink.flush_of_not_writable hw hflush).1
          simp only [hflush]

/-- **When the records of a compaction can be written.** -/
theorem writeCompacted_eq_ok_iff {d : Disk} {es : Entries} (hp : d.place = .directory es)
    (name : String) (rs : List Record) :
    (writeCompacted d name rs).1 = .ok () ↔ Writable d name rs := by
  have hfile := (writeCompacted_cases hp name rs).2.2
  rcases Disk.create_cases hp (temporaryName name) with
    ⟨hdir, hc⟩ | ⟨hfree, serial, d₁, hc, hf, hwritable, _⟩
  · constructor
    · intro hok
      simp [writeCompacted, hc] at hok
    · rintro ⟨hne, _⟩
      exact absurd hdir hne
  · constructor
    · intro hok
      refine ⟨hfree, ?_⟩
      cases hw : d.writable with
      | true => exact Or.inl rfl
      | false =>
          right
          -- the temporary file holds the records, and it is still empty
          obtain ⟨serial', hfull⟩ := hfile hok
          rw [writeCompacted_of_not_writable hc (hwritable.trans hw) hok, hf] at hfull
          exact eq_nil_of_frames (File.mk.inj (Option.some.inj hfull)).2.symm
    · rintro ⟨_, hw | rfl⟩
      · exact writeCompacted_of_writable hc (hwritable.trans hw) rs
      · simp only [writeCompacted, hc]
        rfl

/-- **A compaction takes effect or changes nothing but its temporary file.**  It takes effect if the
records can be written; then the writer is at rest over them, and the temporary file is gone. -/
theorem compact_cases {w : Writer} {d : Disk} {f : File} (h : d.file? w.name = some f)
    (rs : List Record) :
    (¬ Writable d w.name rs ∧ ∃ e d', w.compact d rs = (.error e, w, d') ∧
      d'.writable = d.writable ∧ ∀ x, x ≠ temporaryName w.name → d'.entry? x = d.entry? x) ∨
    (Writable d w.name rs ∧ ∃ w' d', w.compact d rs = (.ok (), w', d') ∧
      Settled w' d' (frames rs) ∧ w'.name = w.name ∧ w'.appends = 0 ∧
      d'.writable = d.writable ∧ d'.entry? (temporaryName w.name) = none ∧
      ∀ x, x ≠ temporaryName w.name → x ≠ w.name → d'.entry? x = d.entry? x) := by
  obtain ⟨es, hp, _⟩ := Disk.file?_eq_some_iff.1 h
  obtain ⟨hother, hwritable, hfile⟩ := writeCompacted_cases hp w.name rs
  have hiff := writeCompacted_eq_ok_iff hp w.name rs
  unfold compact
  rcases hc : writeCompacted d w.name rs with ⟨result, d₁⟩
  rw [hc] at hother hwritable hfile hiff
  cases result with
  | error e => exact Or.inl ⟨(fun hcan => nomatch hiff.2 hcan), e, d₁, rfl, hwritable, hother⟩
  | ok u =>
      right
      obtain ⟨serial, htemp⟩ := hfile rfl
      have hlog : d₁.entry? w.name ≠ some .directory := by
        rw [hother _ (Ne.symm (temporaryName_ne _)), Disk.entry?_of_file? h]
        simp
      obtain ⟨d₂, hr, htarget, hsource, hwritable', hother'⟩ :=
        Disk.rename_of_file? (temporaryName_ne w.name) htemp hlog
      refine ⟨hiff.1 rfl, ofHandle ⟨w.name, serial⟩ (frames rs).length, d₂, ?_,
        Settled.ofHandle htarget, rfl, rfl, hwritable'.trans hwritable, hsource, ?_⟩
      · simp only [swap, hr, ofFile, Disk.openAppend_of_file? htarget, Except.map, sizeOf,
          Disk.size?_of_file? htarget, Option.getD_some]
      · intro x hx hx'
        rw [hother' x hx hx', hother x hx]

/-- Where no directory is in the way, records are not written only because no bytes can be. -/
theorem writeCompacted_eq_fileTooLarge {d : Disk} {es : Entries} (hp : d.place = .directory es)
    {name : String} (hfree : d.entry? (temporaryName name) ≠ some .directory) {rs : List Record}
    {e : Fault} (he : (writeCompacted d name rs).1 = .error e) : e = .fileTooLarge := by
  unfold writeCompacted at he
  rcases Disk.create_cases hp (temporaryName name) with ⟨hdir, _⟩ | ⟨_, serial, d₁, hc, _⟩
  · exact absurd hdir hfree
  · simp only [hc] at he
    rcases hput : (Sink.ofHandle ⟨temporaryName name, serial⟩).putAll d₁ (rs.flatMap chunks) with
      ⟨result, s₂, d₂⟩
    rw [hput] at he
    cases result with
    | error e' =>
        obtain rfl : e' = e := Except.error.inj he
        exact Sink.putAll_eq_fileTooLarge (congrArg Prod.fst hput)
    | ok u =>
        simp only at he
        cases hflush : s₂.flush d₂ with
        | error e' =>
            rw [hflush] at he
            obtain rfl : e' = e := Except.error.inj he
            exact Sink.flush_eq_fileTooLarge hflush
        | ok sd =>
            rw [hflush] at he
            cases he

/-- Where no directory is in the way, a compaction fails only because no bytes can be written. -/
theorem compact_eq_fileTooLarge {w : Writer} {d : Disk} {f : File} (h : d.file? w.name = some f)
    (hfree : d.entry? (temporaryName w.name) ≠ some .directory) {rs : List Record} {e : Fault}
    (he : (w.compact d rs).1 = .error e) : e = .fileTooLarge := by
  obtain ⟨es, hp, _⟩ := Disk.file?_eq_some_iff.1 h
  have hiff := writeCompacted_eq_ok_iff hp w.name rs
  rcases compact_cases h rs with ⟨hnot, _⟩ | ⟨_, w', d', hc, _⟩
  · have hfails : ∀ {e'}, (writeCompacted d w.name rs).1 = .error e' → e' = .fileTooLarge :=
      writeCompacted_eq_fileTooLarge hp hfree
    unfold compact at he
    rcases hw : writeCompacted d w.name rs with ⟨result, d'⟩
    rw [hw] at he hfails hiff
    cases result with
    | error e' =>
        obtain rfl : e' = e := Except.error.inj he
        exact hfails rfl
    | ok u => exact absurd (hiff.1 rfl) hnot
  · rw [hc] at he
    cases he

/-! ### Opening -/

/-- Opening a log that is there gives its readable records and leaves a log that ends behind
them. -/
theorem recover_of_file? {d : Disk} {name : String} {serial : Nat} {bs : Bytes}
    (h : d.file? name = some ⟨serial, bs⟩) :
    recover d name =
      .ok ((scan bs).records, ofHandle ⟨name, serial⟩ (bs.take (scan bs).good).length,
        d.setEntry name (.file ⟨serial, bs.take (scan bs).good⟩)) := by
  have hle := good_le_length bs
  have hfile := Disk.file?_setEntry h ⟨serial, bs.take (scan bs).good⟩
  have hopen : ofFile (d.setEntry name (.file ⟨serial, bs.take (scan bs).good⟩)) name =
      .ok (ofHandle ⟨name, serial⟩ (bs.take (scan bs).good).length,
        d.setEntry name (.file ⟨serial, bs.take (scan bs).good⟩)) := by
    simp only [ofFile, Disk.openAppend_of_file? hfile, Except.map, sizeOf,
      Disk.size?_of_file? hfile, Option.getD_some]
  by_cases hlt : (scan bs).good < bs.length
  · simp only [recover, scanFile, Disk.read_of_file? h, bind, Except.bind, sizeOf,
      Disk.size?_of_file? h, Option.getD_some, Scan.cut?, if_pos hlt, Disk.setLength_of_file? h hle,
      hopen]
    rfl
  · have hsame : d.setEntry name (.file ⟨serial, bs.take (scan bs).good⟩) = d := by
      rw [List.take_of_length_le (by omega), Disk.setEntry_self h]
    rw [hsame] at hopen ⊢
    simp only [recover, scanFile, Disk.read_of_file? h, bind, Except.bind, sizeOf,
      Disk.size?_of_file? h, Option.getD_some, Scan.cut?, if_neg hlt, hopen]
    rfl

/-- Opening a log that is not there makes an empty one. -/
theorem recover_of_absent {d : Disk} {es : Entries} (hp : d.place = .directory es) {name : String}
    (h : d.entry? name = none) :
    recover d name = .ok ([], ofHandle ⟨name, d.nextSerial⟩ 0, (d.makeFile name).2) := by
  have hsize : d.size? name = none := by rw [Disk.size?, h]; rfl
  have hsize' := Disk.size?_of_file? (Disk.file?_makeFile hp name)
  have hread : scanFile d name = .ok ⟨[], 0⟩ := by rw [scanFile, Disk.read_of_absent hp h]
  have hopen : ofFile d name = .ok (ofHandle ⟨name, d.nextSerial⟩ 0, (d.makeFile name).2) := by
    rw [ofFile, Disk.openAppend_of_absent hp h]
    simp only [Except.map, sizeOf, hsize', Option.getD_some]
    rfl
  simp only [recover, hread, bind, Except.bind, sizeOf, hsize, Option.getD_none, Scan.cut?,
    Nat.lt_irrefl, if_false, hopen]
  rfl

end Writer

end Allotment.Log
