/-
**Desks.**

A desk serves clients.  It keeps no state of its own beside its meter: every reading goes to the
store, and every change is a single conditional write made from one reading.  A write that comes
too late is reported as a conflict and never repeated by the desk.

Each call that may change something is given its own fresh identifier, version and time.

Main definitions:

* `Allotment.Stamp` — what is fresh about a call;
* `Allotment.Claim`, `Allotment.Revision` — a claim on a quota and a change of its terms, with
  `check`, what is refused before any reading, and `decide?`, what a reading leads to;
* `Allotment.Desk` — a store and a meter, with the calls `create`, `revise`, `allocate`, `view`,
  `list`, `allocations`, `allocation`, `audit`;
* `Allotment.Desk.compact`, `Allotment.Desk.compactIfDue` — compaction of the log of a desk.
-/

import Allotment.Store
import Allotment.Meter

set_option relaxedAutoImplicit false
set_option autoImplicit false

namespace Allotment

/-- The fresh values that a call may use. -/
structure Stamp where
  /-- An identifier never used before. -/
  id : Ulid
  /-- A version never used before. -/
  version : Version
  /-- The time of the call, in milliseconds since the start of 1970. -/
  time : Int64
deriving DecidableEq

/-! ### Deciding about a request -/

/-- A request for units of a quota. -/
structure Claim where
  /-- The quota. -/
  quota : Ulid
  /-- The units asked for. -/
  quantity : UInt32
  /-- The client's own name for the booking, if there is one. -/
  reference : Option String
deriving DecidableEq

namespace Claim

/-- What is wrong with a claim whatever the quota. -/
def check (c : Claim) : Except Refusal Unit :=
  if c.quantity = 0 then .error .zeroQuantity
  else
    match brokenReference? c.reference with
    | some limit => .error (.overLimit limit)
    | none => .ok ()

/-- The allocation that a granted claim becomes. -/
def allocation (c : Claim) (stamp : Stamp) : Allocation :=
  ⟨stamp.id, c.quota, c.reference, c.quantity, stamp.time⟩

/-- The write by which a claim is granted on a quota that was read as `q`. -/
def write (c : Claim) (q : Quota) (stamp : Stamp) : Write :=
  ⟨c.quota, q.version, .allocate (c.allocation stamp)⟩

/-- What a reading of the quota leads to: a write if the claim fits. -/
def decide? (c : Claim) (q : Option Quota) (stamp : Stamp) : Except Refusal Write :=
  match q with
  | none => .error (.unknownQuota c.quota)
  | some q =>
    match q.terms.admission q.reserved c.quantity with
    | .exceeds available => .error (.overbooked c.quota c.quantity available)
    | .fits => .ok (c.write q stamp)

end Claim

/-- A request to replace the terms of a quota. -/
structure Revision where
  /-- The quota. -/
  quota : Ulid
  /-- The new terms. -/
  terms : Terms
  /-- The version that the client has seen. -/
  expected : Version
deriving DecidableEq

/-- What is wrong with terms whatever the quota. -/
def Terms.check (t : Terms) : Except Refusal Unit :=
  match t.brokenLimit? with
  | some limit => .error (.overLimit limit)
  | none => .ok ()

namespace Revision

/-- The write by which terms are replaced. -/
def write (r : Revision) : Write := ⟨r.quota, r.expected, .revise r.terms⟩

/-- What a reading of the quota leads to: a write if the client has seen the present version and
the new bound covers the units reserved. -/
def decide? (r : Revision) (q : Option Quota) : Except Refusal Write :=
  match q with
  | none => .error (.unknownQuota r.quota)
  | some q =>
    if q.version ≠ r.expected then .error (.conflict r.quota r.expected q.version)
    else if r.terms.holds q.reserved then .ok r.write
    else .error (.boundTooLow r.quota q.reserved r.terms.bound)

end Revision

/-! ### Calls -/

/-- A store with the meter of the calls made on it. -/
structure Desk (ι : Type) where
  /-- The store. -/
  store : Store ι
  /-- The meter. -/
  meter : Meter

namespace Desk

variable {ι : Type} [Journal ι]

/-- Makes the write that was decided on. -/
def carryOut (s : Store ι) (decision : Except Refusal Write) (version : Version) :
    Except Refusal Quota × Store ι :=
  match decision with
  | .error e => (.error e, s)
  | .ok w =>
    match s.commit w version with
    | (.error e, s) => (.error (.ofFailure e), s)
    | (.ok q, s) => (.ok q, s)

/-- Creates a quota. -/
def create (d : Desk ι) (terms : Terms) (stamp : Stamp) : Except Refusal Quota × Desk ι :=
  match terms.check with
  | .error e => (.error e, d)
  | .ok () =>
    match d.store.insert stamp.id terms stamp.version with
    | (.error e, store) => (.error (.ofFailure e), { d with store })
    | (.ok q, store) => (.ok q, { d with store })

/-- Replaces the terms of a quota in a store: one reading, one write. -/
def reviseIn (s : Store ι) (r : Revision) (stamp : Stamp) : Except Refusal Quota × Store ι :=
  match r.terms.check with
  | .error e => (.error e, s)
  | .ok () =>
    match s.load r.quota with
    | (q, s) => carryOut s (r.decide? q) stamp.version

/-- Replaces the terms of a quota. -/
def revise (d : Desk ι) (r : Revision) (stamp : Stamp) : Except Refusal Quota × Desk ι :=
  match reviseIn d.store r stamp with
  | (result, store) => (result, ⟨store, d.meter.countUpdate result⟩)

/-- Decides about a claim from one reading of its quota. -/
def prepare (s : Store ι) (c : Claim) (stamp : Stamp) : Except Refusal Write × Store ι :=
  match c.check with
  | .error e => (.error e, s)
  | .ok () =>
    match s.load c.quota with
    | (q, s) => (c.decide? q stamp, s)

/-- Grants a claim in a store: one reading, one write. -/
def allocateIn (s : Store ι) (c : Claim) (stamp : Stamp) : Except Refusal Allocation × Store ι :=
  match prepare s c stamp with
  | (decision, s) =>
    match carryOut s decision stamp.version with
    | (.error e, s) => (.error e, s)
    | (.ok _, s) => (.ok (c.allocation stamp), s)

/-- Grants a claim. -/
def allocate (d : Desk ι) (c : Claim) (stamp : Stamp) : Except Refusal Allocation × Desk ι :=
  match allocateIn d.store c stamp with
  | (result, store) => (result, ⟨store, d.meter.countAllocation result⟩)

/-- Deals with claims one after the other. -/
def allocateAll (d : Desk ι) : List (Claim × Stamp) → List (Except Refusal Allocation) × Desk ι
  | [] => ([], d)
  | (c, stamp) :: rest =>
    let (result, d) := d.allocate c stamp
    let (results, d) := d.allocateAll rest
    (result :: results, d)

/-- Shows a quota. -/
def view (d : Desk ι) (quota : Ulid) : Except Refusal View × Desk ι :=
  match d.store.load quota with
  | (none, store) => (.error (.unknownQuota quota), { d with store })
  | (some q, store) => (.ok q.view, { d with store })

/-- Lists the quotas that a filter accepts. -/
def list (d : Desk ι) (f : Filter) : List View × Desk ι :=
  match d.store.loadAll d.store.tables.ids with
  | (qs, store) => (listing f qs, { d with store })

omit [Journal ι]

/-- Lists the allocations of a quota, in the order of granting. -/
def allocations (d : Desk ι) (quota : Ulid) : Except Refusal (List Allocation) :=
  if quota ∈ d.store.tables.standings then .ok (d.store.tables.ledger.entries quota)
  else .error (.unknownQuota quota)

/-- Finds an allocation. -/
def allocation (d : Desk ι) (id : Ulid) : Except Refusal Allocation :=
  match d.store.tables.ledger.find? id with
  | none => .error (.unknownAllocation id)
  | some a => .ok a

/-- The findings of the audit. -/
def audit (d : Desk ι) : List Finding := d.store.tables.audit

/-! ### Desks with a log -/

/-- Compacts the log. -/
def compact (d : Desk LogFile) : Except Refusal Unit × Desk LogFile :=
  match d.store.compact with
  | (.error e, store) => (.error (.ofFailure e), { d with store })
  | (.ok (), store) => (.ok (), ⟨store, d.meter.countCompaction⟩)

/-- Whether a log with this many appends is to be compacted. -/
def isDue (appends threshold : Nat) : Bool := appends ≠ 0 && threshold ≤ appends

/-- Compacts the log if enough records were appended since the last time; tells whether it did. -/
def compactIfDue (d : Desk LogFile) (threshold : Nat) : Except Refusal Bool × Desk LogFile :=
  if isDue d.store.appends threshold then
    match d.compact with
    | (.error e, d) => (.error e, d)
    | (.ok (), d) => (.ok true, d)
  else (.ok false, d)

end Desk

end Allotment
