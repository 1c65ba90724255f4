/-
**What a writer of a log has confirmed.**

A log may be written record by record: records are appended, and a flush confirms those appended
since the last one.  Bytes may run out and come back at any moment, what is pending may be rolled
back, and the log may be compacted.  An account is kept beside the log: the records confirmed and
those pending.  At every moment the file holds exactly the confirmed ones and, behind them, a part
of the bytes of the pending ones; the rest of these bytes is in the buffer.

Main definitions:

* `Allotment.Log.Session` — a log while it is written, with the account;
* `Allotment.Log.Session.perform`, `Allotment.Log.Session.run` — calls;
* `Allotment.Log.Session.Exact` — the account is right.

Main results:

* `Allotment.Log.Session.Exact.perform`, `Allotment.Log.Session.Exact.run` — **the account stays
  right**, whatever fails;
* `Allotment.Log.Session.run_of_writable` — if bytes can be written, nothing fails.
-/

import Allotment.Proofs.Log.Writer

set_option relaxedAutoImplicit false
set_option autoImplicit false

namespace Allotment.Log

/-- A log while it is written, and an account of it. -/
structure Session where
  /-- The disk. -/
  disk : Disk
  /-- The writer of the log. -/
  writer : Writer
  /-- The bytes of the log in front of what is accounted for. -/
  base : Bytes
  /-- The records confirmed behind these bytes. -/
  confirmed : List Record
  /-- The records appended since then. -/
  pending : List Record

namespace Session

/-- Rolls back what is pending. -/
def rollback (s : Session) : Session :=
  match s.writer.rollback s.disk with
  | (_, writer, disk) => { s with writer, disk, pending := [] }

/-- Appends a record; if that fails, what is pending is rolled back. -/
def append (s : Session) (r : Record) : Session :=
  match s.writer.append s.disk r with
  | (.ok (), writer, disk) => { s with writer, disk, pending := s.pending ++ [r] }
  | (.error _, writer, disk) => rollback { s with writer, disk }

/-- Confirms what is pending, if that is possible. -/
def flush (s : Session) : Session :=
  match s.writer.flush s.disk with
  | .ok (writer, disk) =>
    { s with writer, disk, confirmed := s.confirmed ++ s.pending, pending := [] }
  | .error _ => s

/-- Compacts the log, if that is possible. -/
def compact (s : Session) (rs : List Record) : Session :=
  match s.writer.compact s.disk rs with
  | (.ok (), writer, disk) => ⟨disk, writer, [], rs, []⟩
  | (.error _, writer, disk) => { s with writer, disk }

/-- What can be asked of a log while it is written. -/
inductive Call where
  /-- A record is appended. -/
  | append (r : Record)
  /-- What is pending is confirmed. -/
  | flush
  /-- What is pending is rolled back. -/
  | rollback
  /-- The log is compacted to these records. -/
  | compact (rs : List Record)
  /-- From now on bytes can be written, or cannot. -/
  | setWritable (writable : Bool)

/-- The log after a call, whether or not the call succeeds. -/
def perform (s : Session) : Call → Session
  | .append r => s.append r
  | .flush => s.flush
  | .rollback => s.rollback
  | .compact rs => s.compact rs
  | .setWritable writable => { s with disk.writable := writable }

/-- The log after calls. -/
def run (s : Session) (calls : List Call) : Session := calls.foldl perform s

/-- A log that was just opened, with these bytes. -/
def start (w : Writer) (d : Disk) (base : Bytes) : Session := ⟨d, w, base, [], []⟩

/-- The bytes of what is confirmed. -/
def settledBytes (s : Session) : Bytes := s.base ++ frames s.confirmed

/-- **The account is right**: the file holds what is confirmed and, behind that, a part of the bytes
of what is pending. -/
structure Exact (s : Session) : Prop where
  /-- A reader takes the bytes in front as a whole. -/
  whole : (scan s.base).good = s.base.length
  /-- The bytes of the file. -/
  file : ∃ new, s.disk.file? s.writer.name =
      some ⟨s.writer.sink.handle.serial, s.settledBytes ++ new⟩ ∧
    new ++ s.writer.sink.buffer = frames s.pending
  /-- The writer knows how much is confirmed. -/
  confirmed : s.writer.confirmed = s.settledBytes.length
  /-- The writer knows how many bytes are pending. -/
  pendingBytes : s.writer.pendingBytes = (frames s.pending).length
  /-- The writer knows how many records are pending. -/
  pendingAppends : s.writer.pendingAppends = s.pending.length
  /-- No rollback has failed. -/
  usable : s.writer.unusable = false

namespace Exact

variable {s : Session}

/-- Over a log at rest an account with nothing pending is right. -/
theorem of_settled {w : Writer} {d : Disk} {base : Bytes} {rs : List Record}
    (h : Writer.Settled w d (base ++ frames rs)) (hwhole : (scan base).good = base.length) :
    Exact ⟨d, w, base, rs, []⟩ where
  whole := hwhole
  file := ⟨[], by rw [List.append_nil]; exact h.file, h.buffer⟩
  confirmed := h.confirmed
  pendingBytes := h.pendingBytes
  pendingAppends := h.pendingAppends
  usable := h.usable

theorem start {w : Writer} {d : Disk} {base : Bytes} (h : Writer.Settled w d base)
    (hwhole : (scan base).good = base.length) : Exact (start w d base) := by
  have hnone : base ++ frames [] = base := List.append_nil base
  exact of_settled (hnone.symm ▸ h) hwhole

/-- A rollback needs to know only what is confirmed. -/
theorem rollback_of_front (hwhole : (scan s.base).good = s.base.length) {behind : Bytes}
    (hfile : s.disk.file? s.writer.name =
      some ⟨s.writer.sink.handle.serial, s.settledBytes ++ behind⟩)
    (hconfirmed : s.writer.confirmed = s.settledBytes.length)
    (husable : s.writer.unusable = false) : Exact s.rollback := by
  obtain ⟨w', d', hr, hrest, _⟩ := Writer.rollback_of_front hfile hconfirmed husable
  rw [Session.rollback, hr]
  exact of_settled hrest hwhole

theorem append (h : Exact s) (r : Record) : Exact (s.append r) := by
  obtain ⟨new, hfile, hdata⟩ := h.file
  obtain ⟨new', data, k, ha, hall⟩ := Writer.append_ahead hfile h.usable r
  have hfile' := ha.sink.file hfile
  unfold Session.append
  rcases hp : s.writer.append s.disk r with ⟨result, w₁, d₁⟩
  rw [hp] at ha hall hfile'
  rw [List.append_assoc] at hfile'
  cases result with
  | error e =>
      exact rollback_of_front (s := { s with writer := w₁, disk := d₁ }) h.whole hfile'
        (ha.confirmed.trans h.confirmed) (ha.usable.trans h.usable)
  | ok u =>
      obtain ⟨rfl, rfl, hbytes⟩ := hall rfl
      have hframes : frames (s.pending ++ [r]) = frames s.pending ++ frame r := by
        rw [frames_append, frames_cons]
        exact congrArg _ (List.append_nil _)
      refine ⟨h.whole, ⟨new ++ new', hfile', ?_⟩, ha.confirmed.trans h.confirmed, ?_, ?_,
        ha.usable.trans h.usable⟩
      · rw [hframes, List.append_assoc, ha.sink.data, ← List.append_assoc, hdata]
      · rw [hframes, List.length_append, ← h.pendingBytes]
        exact hbytes
      · rw [List.length_append, List.length_singleton, ← h.pendingAppends]
        exact ha.pendingAppends

theorem flush (h : Exact s) : Exact s.flush := by
  obtain ⟨new, hfile, hdata⟩ := h.file
  unfold Session.flush Writer.flush
  cases hf : s.writer.sink.flush s.disk with
  | error e => exact h
  | ok sd =>
      obtain ⟨s₁, d₁⟩ := sd
      obtain ⟨hw, hempty⟩ := Sink.flush_wrote hfile hf
      have hfile' := hw.file hfile
      rw [List.append_assoc, hdata] at hfile'
      have hbytes : s.settledBytes ++ frames s.pending =
          s.base ++ frames (s.confirmed ++ s.pending) := by
        rw [settledBytes, frames_append, List.append_assoc]
      rw [hbytes] at hfile'
      refine of_settled ⟨hfile', hempty, ?_, rfl, rfl, h.usable⟩ h.whole
      rw [← hbytes, List.length_append, ← h.pendingBytes, ← h.confirmed]

theorem rollback (h : Exact s) : Exact s.rollback := by
  obtain ⟨new, hfile, _⟩ := h.file
  exact rollback_of_front h.whole hfile h.confirmed h.usable

theorem compact (h : Exact s) (rs : List Record) : Exact (s.compact rs) := by
  obtain ⟨new, hfile, hdata⟩ := h.file
  unfold Session.compact
  rcases Writer.compact_cases hfile rs with ⟨_, e, d', he, _, hother⟩ | ⟨_, w', d', he, hrest, _⟩
  · rw [he]
    -- the log itself was not touched
    have hsame := hother _ (Ne.symm (Writer.temporaryName_ne _))
    exact { h with
      file := ⟨new, Disk.file?_of_entry? (hsame.trans (Disk.entry?_of_file? hfile)), hdata⟩ }
  · rw [he]
    exact of_settled hrest rfl

/-- **Every call keeps the account right.** -/
theorem perform (h : Exact s) (call : Call) : Exact (s.perform call) := by
  cases call with
  | append r => exact h.append r
  | flush => exact h.flush
  | rollback => exact h.rollback
  | compact rs => exact h.compact rs
  | setWritable writable => exact { h with file := h.file }

/-- **The account stays right.** -/
theorem run (h : Exact s) (calls : List Call) : Exact (s.run calls) := by
  induction calls generalizing s with
  | nil => exact h
  | cons call calls ih => exact ih (h.perform call)

end Exact

/-- **If bytes can be written, whatever is appended is confirmed by a flush.** -/
theorem run_of_writable {s : Session} (hw : s.disk.writable = true)
    (hu : s.writer.unusable = false) (rs : List Record) :
    (s.run (rs.map .append ++ [.flush])).confirmed = s.confirmed ++ s.pending ++ rs ∧
      (s.run (rs.map .append ++ [.flush])).base = s.base := by
  induction rs generalizing s with
  | nil =>
      obtain ⟨w', d', hf⟩ := Writer.flush_of_writable (w := s.writer) hw
      change s.flush.confirmed = s.confirmed ++ s.pending ++ [] ∧ s.flush.base = s.base
      rw [flush, hf, List.append_nil]
      exact ⟨rfl, rfl⟩
  | cons r rs ih =>
      change ((s.append r).run (rs.map .append ++ [.flush])).confirmed =
          s.confirmed ++ s.pending ++ r :: rs ∧
        ((s.append r).run (rs.map .append ++ [.flush])).base = s.base
      obtain ⟨hok, hu', hw'⟩ := Writer.append_of_writable hw hu r
      unfold append
      rcases hp : s.writer.append s.disk r with ⟨result, w₁, d₁⟩
      rw [hp] at hok hu' hw'
      obtain rfl : result = .ok () := hok
      have hrest :=
        ih (s := { s with writer := w₁, disk := d₁, pending := s.pending ++ [r] }) hw' hu'
      rwa [← List.append_assoc, List.append_assoc _ [r], List.singleton_append] at hrest

end Session

end Allotment.Log
