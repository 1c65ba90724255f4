/-
**The tables of a store.**

The state of a store is a table of quotas and a ledger.  A committed record changes them; replaying
the records of a log from the beginning rebuilds them.  Replay is liberal: a record about a quota
that was never created changes nothing, and a creation resets a quota that is there already, though
not its ledger.

Two things must hold of every quota: the units reserved are the sum of its allocations, and they
are within its bound.  The audit reports every quota of which one of them fails.

Main definitions:

* `Allotment.Tables` — the quotas and the ledger, with the readers `quota?`, `count` and `ids`;
* `Allotment.Tables.install`, `Allotment.Tables.commit` — the effect of a creation and of a change;
* `Allotment.Tables.ofRecords` — replay;
* `Allotment.Tables.snapshotRecords` — the shortest list of records that rebuilds the tables;
* `Allotment.Finding` — a quota that breaks one of the two rules;
* `Allotment.Tables.audit` — all findings, in the order of the quotas; of one quota, the mismatch
  comes first.
-/

import Allotment.Ledger
import Allotment.Change

set_option relaxedAutoImplicit false
set_option autoImplicit false

namespace Allotment

/-- The quotas of a store and the claims granted on them. -/
structure Tables where
  /-- How each quota stands. -/
  standings : Std.ExtTreeMap Ulid Standing
  /-- The allocations. -/
  ledger : Ledger

namespace Tables

@[ext] theorem ext {s t : Tables} (h₁ : s.standings = t.standings) (h₂ : s.ledger = t.ledger) :
    s = t := by
  cases s
  cases t
  simp_all

/-- Tables without quotas. -/
def empty : Tables := ⟨∅, .empty⟩

/-- A quota, if it exists. -/
def quota? (t : Tables) (id : Ulid) : Option Quota :=
  t.standings[id]?.map fun s => { s with id }

/-- The number of quotas. -/
def count (t : Tables) : Nat := t.standings.size

/-- The identifiers of the quotas, in ascending order. -/
def ids (t : Tables) : List Ulid := t.standings.keys

/-- The quotas, in ascending order of their identifiers. -/
def quotas (t : Tables) : List Quota := t.ids.filterMap t.quota?

/-- Enters a new quota with nothing reserved. -/
def install (t : Tables) (id : Ulid) (terms : Terms) (version : Version) : Tables :=
  { t with standings := t.standings.insert id (.opening terms version) }

/-- The ledger after a record: a grant is entered, nothing else changes it. -/
def ledgerAfter (l : Ledger) : Record → Ledger
  | .allocated a _ => l.record a
  | _ => l

/-- The effect of a record on a quota that stands as `s`. -/
def commit (t : Tables) (id : Ulid) (s : Standing) (r : Record) : Tables where
  standings := t.standings.insert id (s.after r)
  ledger := ledgerAfter t.ledger r

/-- The effect of one record of a log.  A record about an unknown quota has none. -/
def replayRecord (t : Tables) (r : Record) : Tables :=
  match r with
  | .created id terms version => t.install id terms version
  | _ =>
    match t.standings[r.quota]? with
    | none => t
    | some s => t.commit r.quota s r

/-- The tables that the records of a log rebuild. -/
def ofRecords (rs : List Record) : Tables := rs.foldl replayRecord empty

/-- The records that rebuild one quota: its creation with its present terms, then its allocations,
all with its present version. -/
def quotaRecords (t : Tables) (id : Ulid) (s : Standing) : List Record :=
  .created id s.terms s.version :: (t.ledger.entries id).map (.allocated · s.version)

/-- The shortest list of records that rebuilds the tables, quota by quota. -/
def snapshotRecords (t : Tables) : List Record :=
  t.standings.toList.flatMap fun (id, s) => t.quotaRecords id s

end Tables

/-! ### The audit -/

/-- A quota that breaks a rule. -/
inductive Finding where
  /-- The units reserved differ from the sum of the allocations. -/
  | ledgerMismatch (quota : Ulid) (reserved : UInt32) (ledgerTotal : Nat)
  /-- More units are reserved than the bound allows. -/
  | overBound (quota : Ulid) (reserved : UInt32) (bound : Nat)
deriving DecidableEq

/-- What the audit has to say about a quota whose allocations sum up to `ledgerTotal`. -/
def Quota.findings (q : Quota) (ledgerTotal : Nat) : List Finding :=
  (if ledgerTotal ≠ q.reserved.toNat then [.ledgerMismatch q.id q.reserved ledgerTotal] else []) ++
    (if q.terms.holds q.reserved then [] else [.overBound q.id q.reserved q.terms.bound])

/-- All findings. -/
def Tables.audit (t : Tables) : List Finding :=
  t.quotas.flatMap fun q => q.findings (t.ledger.total q.id)

end Allotment
