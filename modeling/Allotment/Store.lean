/-
**Stores.**

A store holds the tables and writes to a journal.  It knows three ways to deal with quotas: reading
one together with its version, entering a new one, and writing on the condition that a quota is
still at a given version.  A change that the checks or the journal refuse leaves the tables as they
are.

A store makes every record durable before the change becomes visible.  Where records go is left to
the journal, which takes a batch of records as a whole or refuses it as a whole.  A store without
persistence has a journal that takes everything and keeps nothing; a durable store has a log on
disk.

A store can carry a rival: a change by somebody else that strikes right after a quota has been
read, and so makes the reader's next write come too late.  It stands for what can happen between
the reading and the writing of a client.

Main definitions:

* `Allotment.Journal` — what a store asks of a journal;
* `Allotment.Volatile` — the journal that keeps nothing;
* `Allotment.LogFile` — an open log together with the disk on which it is;
* `Allotment.Store` — the tables, the ceiling on the number of quotas and the journal;
* `Allotment.Store.insert`, `Allotment.Store.commit`, `Allotment.Store.load`;
* `Allotment.Store.ofLog`, `Allotment.Store.compact`, `Allotment.Store.close` — durable stores.
-/

import Allotment.Tables
import Allotment.Log.Writer

set_option relaxedAutoImplicit false
set_option autoImplicit false

namespace Allotment

/-! ### Journals -/

/-- A place for records. -/
class Journal (ι : Type) where
  /-- Takes a batch of records as a whole, or refuses it. -/
  append : ι → List Record → Except Fault Unit × ι

/-- The journal that takes everything and keeps nothing. -/
inductive Volatile where
  /-- Its only state. -/
  | volatile
deriving DecidableEq

instance : Journal Volatile where
  append j _ := (.ok (), j)

/-- An open log and the disk on which it is. -/
structure LogFile where
  /-- The disk. -/
  disk : Disk
  /-- The log. -/
  writer : Log.Writer

/-- A log takes a batch if it can be appended and confirmed. -/
instance : Journal LogFile where
  append l rs :=
    match l.writer.appendBatch l.disk rs with
    | (result, writer, disk) => (result, ⟨disk, writer⟩)

/-! ### Stores -/

/-- A change that strikes right after the next reading of a quota, at the version read. -/
structure Rival where
  /-- The quota whose reading brings the change about. -/
  quota : Ulid
  /-- The change. -/
  change : Change
  /-- The version that the quota gets by the change. -/
  version : Version
deriving DecidableEq

/-- A store whose records go to a journal of type `ι`. -/
structure Store (ι : Type) where
  /-- The quotas and the ledger. -/
  tables : Tables
  /-- The most quotas that the store holds. -/
  ceiling : Nat
  /-- Where the records go. -/
  journal : ι
  /-- The rival that lies in wait, if there is one. -/
  rival : Option Rival

namespace Store

variable {ι κ : Type}

/-- A store with these tables. -/
def ofTables (tables : Tables) (journal : ι) : Store ι :=
  ⟨tables, Limit.quotasPerStore, journal, none⟩

/-- The same store with its records going elsewhere. -/
def mapJournal (f : ι → κ) (s : Store ι) : Store κ := { s with journal := f s.journal }

/-- Hands a batch of records to the journal, and gives the tables their new content if it is
taken. -/
def log [Journal ι] (s : Store ι) (rs : List Record) (tables : Tables) :
    Except Failure Unit × Store ι :=
  match Journal.append s.journal rs with
  | (.error e, journal) => (.error (.notLogged e.text), { s with journal })
  | (.ok (), journal) => (.ok (), { s with journal, tables })

/-- Whether a quota with this identifier can be entered. -/
def checkInsert (s : Store ι) (id : Ulid) : Except Failure Unit :=
  if id ∈ s.tables.standings then .error (.quotaExists id)
  else if s.tables.count ≥ s.ceiling then .error (.full s.ceiling)
  else .ok ()

/-- Enters a new quota with nothing reserved. -/
def insert [Journal ι] (s : Store ι) (id : Ulid) (terms : Terms) (version : Version) :
    Except Failure Quota × Store ι :=
  match s.checkInsert id with
  | .error e => (.error e, s)
  | .ok () =>
    match s.log [.created id terms version] (s.tables.install id terms version) with
    | (.error e, s) => (.error e, s)
    | (.ok (), s) => (.ok { Standing.opening terms version with id }, s)

/-- How the quota of a write stands, if the write is still in time. -/
def checkWrite (s : Store ι) (w : Write) : Except Failure Standing :=
  match s.tables.standings[w.quota]? with
  | none => .error (.unknownQuota w.quota)
  | some q =>
    if q.version = w.expected then .ok q
    else .error (.versionMismatch w.quota w.expected q.version)

/-- Makes a conditional write; if it takes effect, the quota gets the version `version`. -/
def commit [Journal ι] (s : Store ι) (w : Write) (version : Version) :
    Except Failure Quota × Store ι :=
  match s.checkWrite w with
  | .error e => (.error e, s)
  | .ok q =>
    let r := w.record version
    match s.log [r] (s.tables.commit w.quota q r) with
    | (.error e, s) => (.error e, s)
    | (.ok (), s) => (.ok { q.after r with id := w.quota }, s)

/-- Reads a quota.  If a rival waits for this, its change is made at the version read. -/
def load [Journal ι] (s : Store ι) (id : Ulid) : Option Quota × Store ι :=
  match s.tables.quota? id, s.rival with
  | some q, some r =>
    if r.quota = id then
      (some q, ({ s with rival := none }.commit ⟨id, q.version, r.change⟩ r.version).2)
    else (some q, s)
  | q, _ => (q, s)

/-- Reads quotas one after the other, leaving out those that do not exist. -/
def loadAll [Journal ι] (s : Store ι) : List Ulid → List Quota × Store ι
  | [] => ([], s)
  | id :: ids =>
    let (q, s) := s.load id
    let (qs, s) := s.loadAll ids
    (q.toList ++ qs, s)

/-- Lets a rival lie in wait in the place of any other. -/
def arm (s : Store ι) (r : Rival) : Store ι := { s with rival := some r }

/-- Overwrites the units reserved of a quota without any record.  Such a store fails the audit. -/
def tamper (s : Store ι) (id : Ulid) (reserved : UInt32) : Store ι :=
  match s.tables.standings[id]? with
  | none => s
  | some q =>
    { s with tables.standings := s.tables.standings.insert id { q with reserved } }

/-! ### Durable stores -/

/-- Opens the store whose log has this name: what the log replays to is the content. -/
def ofLog (d : Disk) (name : String) : Except Fault (Store LogFile) :=
  (Log.Writer.recover d name).map fun (rs, writer, disk) =>
    .ofTables (.ofRecords rs) ⟨disk, writer⟩

/-- Compacts the log, so that it holds nothing but what is needed to rebuild the tables. -/
def compact (s : Store LogFile) : Except Failure Unit × Store LogFile :=
  match s.journal.writer.compact s.journal.disk s.tables.snapshotRecords with
  | (.error e, writer, disk) => (.error (.notLogged e.text), { s with journal := ⟨disk, writer⟩ })
  | (.ok (), writer, disk) => (.ok (), { s with journal := ⟨disk, writer⟩ })

/-- The records appended to the log since it was opened or compacted. -/
def appends (s : Store LogFile) : Nat := s.journal.writer.appends

/-- Closes the log of a store. -/
def close (s : Store LogFile) : Disk := s.journal.writer.close s.journal.disk

end Store

end Allotment
