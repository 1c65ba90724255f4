/-
**The data directory.**

All files of the program lie in one directory.  The directory can be missing, or a regular file can
be in its place; names in it can be taken by subdirectories.  The operating system may refuse to
write bytes; making, cutting and renaming files works all the same, as does writing no bytes.

A file has a serial number, which stays with it when it is renamed and is never given to another
file.  A handle remembers the name and the serial number of the file it was opened on: what is
written through it goes to that file while the file is still under that name, and is lost without an
error when the file has been replaced or removed.

A file operation can fail for a reason that lies with the operating system, or be refused by the
program itself.  The two differ in where their texts come from.

Main definitions:

* `Allotment.Fault`, `Allotment.Fault.text` — why a file operation failed, and what is said about
  it;
* `Allotment.Disk` — the directory, and whether bytes can be written;
* `Allotment.Disk.size?`, `read`, `openAppend`, `create`, `write`, `setLength`, `rename`, `names`,
  `makeDirectory` — what the program does with files;
* `Allotment.Disk.putFile`, `alter`, `extend`, `removeDirectory`, `occupy`, `restoreDirectory` —
  what others may do to them.
-/

import Std.Data.ExtTreeMap
import Allotment.Log.Bytes

set_option relaxedAutoImplicit false
set_option autoImplicit false

namespace Allotment

/-! ### What can go wrong with files -/

/-- Why a file operation failed. -/
inductive Fault where
  /-- There is nothing under the name. -/
  | noSuchFile
  /-- The data directory is a regular file. -/
  | notADirectory
  /-- There is a directory under the name. -/
  | isADirectory
  /-- There is a file where a directory is to be made. -/
  | fileExists
  /-- The operating system takes no more bytes. -/
  | fileTooLarge
  /-- The log takes no records since a rollback failed. -/
  | logUnusable
  /-- The name of a tenant has too many bytes. -/
  | tenantNameTooLong
  /-- The name of a tenant has no character that a file name may have. -/
  | tenantNameEmpty
  /-- As many tenants are open as may be. -/
  | tooManyTenants
deriving DecidableEq

/-- Whether the program itself refused the operation. -/
def Fault.isOwn : Fault → Bool
  | logUnusable | tenantNameTooLong | tenantNameEmpty | tooManyTenants => true
  | _ => false

/-- What is said about a failure. -/
def Fault.text : Fault → String
  | noSuchFile => "No such file or directory (os error 2)"
  | notADirectory => "Not a directory (os error 20)"
  | isADirectory => "Is a directory (os error 21)"
  | fileExists => "File exists (os error 17)"
  | fileTooLarge => "File too large (os error 27)"
  | logUnusable => "WAL unusable after a failed rollback"
  | tenantNameTooLong => "tenant name too long"
  | tenantNameEmpty => "empty tenant name"
  | tooManyTenants => "too many tenants"

/-! ### The disk -/

open Log (Bytes)

/-- A regular file. -/
structure File where
  /-- The number that tells this file from all others. -/
  serial : Nat
  /-- Its content. -/
  bytes : Bytes
deriving DecidableEq

/-- What a name in the data directory stands for. -/
inductive Entry where
  /-- A regular file. -/
  | file (f : File)
  /-- A directory. -/
  | directory
deriving DecidableEq

/-- The entries of a directory by name. -/
abbrev Entries := Std.ExtTreeMap String Entry

/-- What is at the place of the data directory. -/
inductive Place where
  /-- Nothing. -/
  | missing
  /-- A regular file. -/
  | occupied
  /-- A directory. -/
  | directory (entries : Entries)

/-- The data directory and the state of the operating system. -/
structure Disk where
  /-- What is at the place of the data directory. -/
  place : Place
  /-- Whether bytes can be written. -/
  writable : Bool
  /-- The serial number of the next file that is made. -/
  nextSerial : Nat

/-- The right to write to a file. -/
structure Handle where
  /-- The name under which the file was opened. -/
  name : String
  /-- The serial number of the file. -/
  serial : Nat
deriving DecidableEq

namespace Disk

/-! ### What the program does with files -/

/-- The directory without entries. -/
def blank : Disk := ⟨.directory ∅, true, 0⟩

/-- The entries of the data directory. -/
def entries (d : Disk) : Except Fault Entries :=
  match d.place with
  | .missing => .error .noSuchFile
  | .occupied => .error .notADirectory
  | .directory es => .ok es

/-- What a name stands for. -/
def entry? (d : Disk) (name : String) : Option Entry :=
  match d.place with
  | .directory es => es[name]?
  | _ => none

/-- The regular file under a name. -/
def file? (d : Disk) (name : String) : Option File :=
  match d.entry? name with
  | some (.file f) => some f
  | _ => none

/-- The size that the file system gives for a directory without entries. -/
def directorySize : Nat := 40

/-- The size of what a name stands for.  Directories under a name of the data directory have no
entries. -/
def size? (d : Disk) (name : String) : Option Nat :=
  (d.entry? name).map fun
    | .file f => f.bytes.length
    | .directory => directorySize

/-- Lets a name stand for something. -/
def setEntry (d : Disk) (name : String) (e : Entry) : Disk :=
  match d.place with
  | .directory es => { d with place := .directory (es.insert name e) }
  | _ => d

/-- Lets a name stand for nothing. -/
def removeEntry (d : Disk) (name : String) : Disk :=
  match d.place with
  | .directory es => { d with place := .directory (es.erase name) }
  | _ => d

/-- Reads a file. -/
def read (d : Disk) (name : String) : Except Fault Bytes :=
  match d.entries with
  | .error e => .error e
  | .ok es =>
    match es[name]? with
    | none => .error .noSuchFile
    | some .directory => .error .isADirectory
    | some (.file f) => .ok f.bytes

/-- Makes an empty file under a name that is free. -/
def makeFile (d : Disk) (name : String) : Handle × Disk :=
  (⟨name, d.nextSerial⟩,
    { d.setEntry name (.file ⟨d.nextSerial, []⟩) with nextSerial := d.nextSerial + 1 })

/-- Opens a file to write at its end; makes it if it is not there. -/
def openAppend (d : Disk) (name : String) : Except Fault (Handle × Disk) :=
  match d.entries with
  | .error e => .error e
  | .ok es =>
    match es[name]? with
    | none => .ok (d.makeFile name)
    | some .directory => .error .isADirectory
    | some (.file f) => .ok (⟨name, f.serial⟩, d)

/-- Opens a file and empties it; makes it if it is not there. -/
def create (d : Disk) (name : String) : Except Fault (Handle × Disk) :=
  match d.entries with
  | .error e => .error e
  | .ok es =>
    match es[name]? with
    | none => .ok (d.makeFile name)
    | some .directory => .error .isADirectory
    | some (.file f) => .ok (⟨name, f.serial⟩, d.setEntry name (.file { f with bytes := [] }))

/-- Adds bytes to the end of the file of a handle, or loses them if the file is gone. -/
def append (d : Disk) (h : Handle) (bs : Bytes) : Disk :=
  match d.file? h.name with
  | none => d
  | some f =>
    if f.serial = h.serial then d.setEntry h.name (.file { f with bytes := f.bytes ++ bs }) else d

/-- Writes bytes through a handle.  Either all are written or none. -/
def write (d : Disk) (h : Handle) (bs : Bytes) : Except Fault Disk :=
  if bs.isEmpty then .ok d
  else if d.writable then .ok (d.append h bs)
  else .error .fileTooLarge

/-- Bytes cut to a length, or filled up to it with zeros. -/
def resized (bs : Bytes) (length : Nat) : Bytes :=
  bs.take length ++ List.replicate (length - bs.length) 0

/-- Gives a file a length.  A file that grows is filled with zeros, which counts as writing. -/
def setLength (d : Disk) (name : String) (length : Nat) : Except Fault Disk :=
  match d.entries with
  | .error e => .error e
  | .ok es =>
    match es[name]? with
    | none => .error .noSuchFile
    | some .directory => .error .isADirectory
    | some (.file f) =>
      if f.bytes.length < length ∧ d.writable = false then .error .fileTooLarge
      else .ok (d.setEntry name (.file { f with bytes := resized f.bytes length }))

/-- Gives a file another name; a file that had this name is gone. -/
def rename (d : Disk) (source target : String) : Except Fault Disk :=
  match d.entries with
  | .error e => .error e
  | .ok es =>
    match es[source]?, es[target]? with
    | none, _ => .error .noSuchFile
    | some (.file _), some .directory => .error .isADirectory
    | some .directory, some (.file _) => .error .notADirectory
    | some e, _ => .ok ((d.removeEntry source).setEntry target e)

/-- The names in the directory, in ascending order. -/
def names (d : Disk) : Except Fault (List String) := d.entries.map (·.keys)

/-- Makes the data directory if nothing is in its place. -/
def makeDirectory (d : Disk) : Except Fault Disk :=
  match d.place with
  | .missing => .ok { d with place := .directory ∅ }
  | .occupied => .error .fileExists
  | .directory _ => .ok d

/-! ### What others may do to files -/

/-- Puts a new file with this content under a name. -/
def putFile (d : Disk) (name : String) (bs : Bytes) : Disk :=
  { d.setEntry name (.file ⟨d.nextSerial, bs⟩) with nextSerial := d.nextSerial + 1 }

/-- Changes the content of the file under a name, if there is one. -/
def alter (d : Disk) (name : String) (f : Bytes → Bytes) : Disk :=
  match d.file? name with
  | none => d
  | some g => d.setEntry name (.file { g with bytes := f g.bytes })

/-- Adds bytes to the end of a file, which is made if the name is free. -/
def extend (d : Disk) (name : String) (bs : Bytes) : Disk :=
  match d.entry? name with
  | none => d.putFile name bs
  | some _ => d.alter name (· ++ bs)

/-- Takes the data directory away, with all that is in it. -/
def removeDirectory (d : Disk) : Disk := { d with place := .missing }

/-- Puts a regular file in the place of the data directory. -/
def occupy (d : Disk) : Disk := { d with place := .occupied }

/-- Puts an empty data directory in place unless one is there. -/
def restoreDirectory (d : Disk) : Disk :=
  match d.place with
  | .directory _ => d
  | _ => { d with place := .directory ∅ }

end Disk

end Allotment
