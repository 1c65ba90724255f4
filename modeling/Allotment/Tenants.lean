/-
**Tenants.**

Every tenant has a store and a log of its own in the data directory.  The name of a tenant is cut
down to the characters that are safe in a file name, and what is left names the log; tenants whose
names agree in this are the same tenant.  Stores are opened when they are first asked for and stay
open.

Main definitions:

* `Allotment.stemOf`, `Allotment.logName` — from the name of a tenant to the name
  of its log;
* `Allotment.Tenants` — the open stores over one data directory;
* `Allotment.Tenants.openTenant` — finds or opens the store of a tenant;
* `Allotment.Tenants.serve` — lets the desk of an open tenant answer a call;
* `Allotment.Tenants.tick` — compacts the logs that are due;
* `Allotment.Tenants.closeAll` — closes all stores;
* `Allotment.discover` — the tenants that have a log.
-/

import Allotment.Desk

set_option relaxedAutoImplicit false
set_option autoImplicit false

namespace Allotment

/-! ### Names -/

/-- Whether a character is safe in a file name. -/
def isSafe (c : Char) : Bool := c.isAlphanum || c = '_' || c = '-'

/-- What is left of the name of a tenant when only safe characters are kept. -/
def stemOf (tenant : String) : String := String.ofList (tenant.toList.filter isSafe)

/-- The name of the log of a tenant. -/
def logName (stem : String) : String := stem ++ ".wal"

/-- The longest name of a tenant, in bytes. -/
def tenantNameBytes : Nat := 128

/-- The most tenants that are open at a time. -/
def tenantCeiling : Nat := 1024

/-- The part of a file name before its last dot, if the part behind it is `wal` and the dot is not
the first character. -/
def logStem? (name : String) : Option String :=
  match name.toList.reverse with
  | 'l' :: 'a' :: 'w' :: '.' :: rest =>
    if rest = [] then none else some (String.ofList rest.reverse)
  | _ => none

/-- The tenants that have a log in the data directory, in ascending order.  The name of a log is
recognised by its safe characters; what kind of entry has the name does not matter. -/
def discover (d : Disk) : Except Fault (List String) :=
  d.names.map fun names =>
    ((names.filterMap logStem?).filter fun stem => stemOf stem = stem).mergeSort
      fun s t => (compare s t).isLE

/-! ### Open tenants -/

/-- The stores of the tenants that are open. -/
structure Tenants where
  /-- The data directory. -/
  disk : Disk
  /-- The open stores, by the stems of their logs. -/
  stores : Std.ExtTreeMap String (Store Log.Writer)
  /-- The appends after which a log is compacted. -/
  threshold : Nat
  /-- What the desks of all tenants have done. -/
  meter : Meter

namespace Tenants

/-- No tenant is open. -/
def start (disk : Disk) (threshold : Nat) (meter : Meter) : Tenants := ⟨disk, ∅, threshold, meter⟩

/-- The desk of an open tenant. -/
def desk? (t : Tenants) (stem : String) : Option (Desk LogFile) :=
  t.stores[stem]?.map fun s => ⟨s.mapJournal fun w => ⟨t.disk, w⟩, t.meter⟩

/-- Takes over what the desk of a tenant has done. -/
def putDesk (t : Tenants) (stem : String) (d : Desk LogFile) : Tenants :=
  { t with
    disk := d.store.journal.disk
    stores := t.stores.insert stem (d.store.mapJournal (·.writer))
    meter := d.meter }

/-- Opens the store of a tenant that is not open. -/
def openStem (t : Tenants) (stem : String) : Except Fault Tenants :=
  if t.stores.size ≥ tenantCeiling then .error .tooManyTenants
  else
    (Store.ofLog t.disk (logName stem)).map fun s =>
      let t := t.putDesk stem ⟨s, t.meter⟩
      { t with meter := t.meter.noteTenants t.stores.size }

/-- Finds the store of a tenant by its stem, or opens it. -/
def openTenant (t : Tenants) (tenant : String) : Except Fault (String × Tenants) :=
  if tenant.utf8ByteSize > tenantNameBytes then .error .tenantNameTooLong
  else
    let stem := stemOf tenant
    if stem = "" then .error .tenantNameEmpty
    else if stem ∈ t.stores then .ok (stem, t)
    else (t.openStem stem).map fun t => (stem, t)

/-- Opens tenants one after the other until one fails: how many could be opened, and why the next
could not. -/
def openMany (t : Tenants) : List String → (Nat × Option Fault) × Tenants
  | [] => ((0, none), t)
  | tenant :: rest =>
    match t.openTenant tenant with
    | .error e => ((0, some e), t)
    | .ok (_, t) =>
      let ((n, e), t) := t.openMany rest
      ((n + 1, e), t)

/-- Lets the desk of an open tenant answer a call. -/
def serve {α : Type} (t : Tenants) (stem : String) (call : Desk LogFile → α × Desk LogFile) :
    Option (α × Tenants) :=
  (t.desk? stem).map fun d =>
    let (answer, d) := call d
    (answer, t.putDesk stem d)

/-- Compacts the log of a tenant if it is due.  A failure is left for the next time. -/
def compactIfDue (t : Tenants) (stem : String) : Tenants :=
  match t.serve stem fun d => d.compactIfDue t.threshold with
  | none => t
  | some (_, t) => t

/-- Compacts the logs of all open tenants that are due. -/
def tick (t : Tenants) : Tenants := t.stores.keys.foldl compactIfDue t

/-- Closes all stores. -/
def closeAll (t : Tenants) : Disk :=
  t.stores.toList.foldl (fun d (_, s) => s.journal.close d) t.disk

end Tenants

end Allotment
