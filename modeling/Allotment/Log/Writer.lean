/-
**The writer of a log.**

A log is only ever extended at its end.  Records are first appended to a buffer; a flush confirms
all records appended since the last one.  If a batch of records cannot be appended and flushed, a
rollback drops it, wherever its bytes have got to, by cutting the file back to its confirmed length.
If the rollback fails too, the file may hold bytes of records that were reported as failed; from
then on the log takes no record until it has been compacted.

A log is compacted by writing the new records to a temporary file next to it, which then takes its
name.  Until then the old file is untouched.

A writer collects the bytes for its file in a sink and hands them on in larger pieces.  A chunk that
leaves room in the buffer is only remembered; one that does not fit makes the sink write out the
buffer first; one that is as large as the buffer is written without passing through it.  A flush or
a chunk that fails changes neither the sink nor the disk, since a write to a file fails as a whole.
Of several chunks, those before the one that fails stay where they are.

Main definitions:

* `Allotment.Log.Sink` — a handle with the bytes not yet written to its file;
* `Allotment.Log.Sink.flush`, `Allotment.Log.Sink.put`, `Allotment.Log.Sink.putAll` — writing out
  the buffer, taking one chunk, and taking several;
* `Allotment.Log.Writer` — an open log;
* `Allotment.Log.Writer.ofFile`, `Allotment.Log.Writer.recover` — opening, the latter after reading
  the records that are there and cutting off what cannot be read;
* `Allotment.Log.Writer.append`, `flush`, `rollback`, `appendBatch`, `close`;
* `Allotment.Log.Writer.writeCompacted`, `swap`, `compact` — compaction.
-/

import Allotment.Disk
import Allotment.Log.Frame

set_option relaxedAutoImplicit false
set_option autoImplicit false

namespace Allotment.Log

/-! ### Buffered writing -/

/-- A file that is written to through a buffer. -/
structure Sink where
  /-- The handle of the file. -/
  handle : Handle
  /-- Bytes taken but not yet written to the file. -/
  buffer : Bytes
deriving DecidableEq

namespace Sink

/-- The size of the buffer. -/
def capacity : Nat := 8192

/-- A sink with nothing in its buffer. -/
def ofHandle (h : Handle) : Sink := ⟨h, []⟩

/-- Writes out the buffer. -/
def flush (s : Sink) (d : Disk) : Except Fault (Sink × Disk) :=
  (d.write s.handle s.buffer).map fun d => ({ s with buffer := [] }, d)

/-- Writes out the buffer if a chunk of `size` bytes does not fit behind it. -/
def makeRoom (s : Sink) (d : Disk) (size : Nat) : Except Fault (Sink × Disk) :=
  if size > capacity - s.buffer.length then s.flush d else .ok (s, d)

/-- Takes a chunk. -/
def put (s : Sink) (d : Disk) (chunk : Bytes) : Except Fault (Sink × Disk) :=
  match s.makeRoom d chunk.length with
  | .error e => .error e
  | .ok (s, d) =>
    if chunk.length ≥ capacity then (d.write s.handle chunk).map fun d => (s, d)
    else .ok ({ s with buffer := s.buffer ++ chunk }, d)

/-- Takes chunks until one fails. -/
def putAll (s : Sink) (d : Disk) : List Bytes → Except Fault Unit × Sink × Disk
  | [] => (.ok (), s, d)
  | chunk :: chunks =>
    match s.put d chunk with
    | .error e => (.error e, s, d)
    | .ok (s, d) => s.putAll d chunks

end Sink

/-! ### Writers -/

/-- The readable records of the log under a name.  A log that is not there has none. -/
def scanFile (d : Disk) (name : String) : Except Fault Scan :=
  match d.read name with
  | .ok bs => .ok (scan bs)
  | .error .noSuchFile => .ok ⟨[], 0⟩
  | .error e => .error e

/-- The size of the file under a name; that of a file that is not there is zero. -/
def sizeOf (d : Disk) (name : String) : Nat := (d.size? name).getD 0

/-- The name of the file in which a log is compacted: that of the log with a further extension.  For
a name that ends in `.wal`, as those of all logs do, this comes to the same as to put the extension
`wal.tmp` in the place of the old one; for other names it does not. -/
def temporaryName (name : String) : String := name ++ ".tmp"

/-- The chunks in which a frame is written: length, payload, checksum. -/
def chunks (r : Record) : List Bytes :=
  let p := payload r
  [toBytes 4 p.length, p, toBytes 4 (checksum p).toNat]

/-- An open log. -/
structure Writer where
  /-- Where records are written to. -/
  sink : Sink
  /-- The length of the file up to the last record confirmed. -/
  confirmed : Nat
  /-- The bytes appended since then. -/
  pendingBytes : Nat
  /-- The records appended since then. -/
  pendingAppends : Nat
  /-- The records appended since the log was opened or compacted. -/
  appends : Nat
  /-- Whether a rollback has failed since the log was opened or compacted. -/
  unusable : Bool
deriving DecidableEq

namespace Writer

/-- The name of the log. -/
def name (w : Writer) : String := w.sink.handle.name

/-- A writer that starts behind `size` confirmed bytes. -/
def ofHandle (h : Handle) (size : Nat) : Writer := ⟨.ofHandle h, size, 0, 0, 0, false⟩

/-! ### Opening and closing -/

/-- Opens a log as it is; makes it if it is not there. -/
def ofFile (d : Disk) (name : String) : Except Fault (Writer × Disk) :=
  (d.openAppend name).map fun (h, d) => (ofHandle h (sizeOf d name), d)

/-- Reads the records of a log, cuts off what cannot be read, and opens it. -/
def recover (d : Disk) (name : String) : Except Fault (List Record × Writer × Disk) := do
  let s ← scanFile d name
  let d ← match s.cut? (sizeOf d name) with
    | some length => d.setLength name length
    | none => .ok d
  let (w, d) ← ofFile d name
  return (s.records, w, d)

/-- Closes a log.  What is still in the buffer is written out if that is possible. -/
def close (w : Writer) (d : Disk) : Disk :=
  match w.sink.flush d with
  | .ok (_, d) => d
  | .error _ => d

/-! ### Extending -/

/-- Appends a record without confirming it.  If that fails, the part of its frame that was taken
before the failure stays in the buffer. -/
def append (w : Writer) (d : Disk) (r : Record) : Except Fault Unit × Writer × Disk :=
  if w.unusable then (.error .logUnusable, w, d)
  else
    match w.sink.putAll d (chunks r) with
    | (.error e, sink, d) => (.error e, { w with sink }, d)
    | (.ok (), sink, d) =>
      (.ok (),
        { w with
          sink
          pendingBytes := w.pendingBytes + (8 + (payload r).length)
          pendingAppends := w.pendingAppends + 1
          appends := w.appends + 1 },
        d)

/-- Appends records until one fails. -/
def appendAll (w : Writer) (d : Disk) : List Record → Except Fault Unit × Writer × Disk
  | [] => (.ok (), w, d)
  | r :: rs =>
    match w.append d r with
    | (.error e, w, d) => (.error e, w, d)
    | (.ok (), w, d) => w.appendAll d rs

/-- Confirms the records appended since the last flush. -/
def flush (w : Writer) (d : Disk) : Except Fault (Writer × Disk) :=
  (w.sink.flush d).map fun (sink, d) =>
    ({ w with
        sink
        confirmed := w.confirmed + w.pendingBytes
        pendingBytes := 0
        pendingAppends := 0 },
      d)

/-- Drops the records appended since the last flush.  The file is opened anew, so that nothing of
the buffer gets to it, and cut to its confirmed length. -/
def rollback (w : Writer) (d : Disk) : Except Fault Unit × Writer × Disk :=
  let w :=
    { w with appends := w.appends - w.pendingAppends, pendingAppends := 0, pendingBytes := 0 }
  match d.openAppend w.name with
  | .error e => (.error e, { w with unusable := true }, d)
  | .ok (h, d) =>
    let w := { w with sink := .ofHandle h }
    match d.setLength w.name w.confirmed with
    | .error e => (.error e, { w with unusable := true }, d)
    | .ok d => (.ok (), w, d)

/-- Appends and confirms records as one batch.  If anything fails, the batch is rolled back, and
the failure reported is that of the batch. -/
def appendBatch (w : Writer) (d : Disk) (rs : List Record) : Except Fault Unit × Writer × Disk :=
  match w.appendAll d rs with
  | (.error e, w, d) => (.error e, (w.rollback d).2)
  | (.ok (), w, d) =>
    match w.flush d with
    | .error e => (.error e, (w.rollback d).2)
    | .ok (w, d) => (.ok (), w, d)

/-! ### Compaction -/

/-- Writes records to the temporary file of a log. -/
def writeCompacted (d : Disk) (name : String) (rs : List Record) : Except Fault Unit × Disk :=
  match d.create (temporaryName name) with
  | .error e => (.error e, d)
  | .ok (h, d) =>
    match (Sink.ofHandle h).putAll d (rs.flatMap chunks) with
    | (.error e, _, d) => (.error e, d)
    | (.ok (), sink, d) =>
      match sink.flush d with
      | .error e => (.error e, d)
      | .ok (_, d) => (.ok (), d)

/-- Lets the temporary file take the place of the log, and opens it.  Whatever is still in the
buffer belongs to the file replaced. -/
def swap (w : Writer) (d : Disk) : Except Fault Unit × Writer × Disk :=
  match d.rename (temporaryName w.name) w.name with
  | .error e => (.error e, w, d)
  | .ok d =>
    match ofFile d w.name with
    | .error e => (.error e, w, d)
    | .ok (w, d) => (.ok (), w, d)

/-- Compacts the log, so that it holds exactly these records. -/
def compact (w : Writer) (d : Disk) (rs : List Record) : Except Fault Unit × Writer × Disk :=
  match writeCompacted d w.name rs with
  | (.error e, d) => (.error e, w, d)
  | (.ok (), d) => w.swap d

end Writer

end Allotment.Log
