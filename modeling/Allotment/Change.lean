/-
**Changes of quotas.**

Quotas are only changed by conditional writes: a change, together with the version for which it was
made.  It takes effect if the quota is still at this version, and not otherwise.  Since every change
gives the quota a new version, of two writes made for the same state at most one takes effect.

Every accepted change of a store is one record.  A record that grants a claim carries both the
claim and the version the quota gets, so a grant is one record and never half of one.

Main definitions:

* `Allotment.Record` — a quota was created or revised, or a claim on it was granted;
* `Allotment.Record.quota` — the quota that a record is about;
* `Allotment.Standing.after` — how a quota stands after a record about it;
* `Allotment.Change`, `Allotment.Write` — what is to happen to a quota, and this at a version;
* `Allotment.Write.record` — the record of a write that took effect;
* `Allotment.Failure`, `Allotment.Failure.message` — why a store refuses a change, and what is said
  about it.
-/

import Allotment.Quota

set_option relaxedAutoImplicit false
set_option autoImplicit false

namespace Allotment

/-! ### Records of committed changes -/

/-- A committed change. -/
inductive Record where
  /-- A quota came into being. -/
  | created (quota : Ulid) (terms : Terms) (version : Version)
  /-- The terms of a quota were replaced. -/
  | revised (quota : Ulid) (terms : Terms) (version : Version)
  /-- A claim was granted. -/
  | allocated (allocation : Allocation) (version : Version)
deriving DecidableEq

/-- The quota that a record is about. -/
def Record.quota : Record → Ulid
  | created quota _ _ => quota
  | revised quota _ _ => quota
  | allocated allocation _ => allocation.quota

/-- How a quota stands after a record about it.  A creation is not a change of a standing quota. -/
def Standing.after (s : Standing) : Record → Standing
  | .created _ _ _ => s
  | .revised _ terms version => { s with terms, version }
  | .allocated allocation version =>
    { s with reserved := s.reserved + allocation.quantity, version }

/-! ### Conditional writes -/

/-- What is to happen to a quota. -/
inductive Change where
  /-- Grant a claim. -/
  | allocate (allocation : Allocation)
  /-- Replace the terms. -/
  | revise (terms : Terms)
deriving DecidableEq

/-- A change of a quota on the condition that it is at a version. -/
structure Write where
  /-- The quota to change. -/
  quota : Ulid
  /-- The version for which the change was made. -/
  expected : Version
  /-- The change. -/
  change : Change
deriving DecidableEq

/-- The record of a write that gave its quota a version. -/
def Write.record (w : Write) (version : Version) : Record :=
  match w.change with
  | .allocate a => .allocated a version
  | .revise terms => .revised w.quota terms version

/-! ### Why a store refuses a change -/

/-- Why a store refuses a change. -/
inductive Failure where
  /-- There is no such quota. -/
  | unknownQuota (quota : Ulid)
  /-- There is such a quota already. -/
  | quotaExists (quota : Ulid)
  /-- The quota is no longer at the version that the change was made for. -/
  | versionMismatch (quota : Ulid) (expected actual : Version)
  /-- The store has as many quotas as it may have. -/
  | full (ceiling : Nat)
  /-- The change could not be logged. -/
  | notLogged (reason : String)
deriving DecidableEq

/-- What is said about a refusal. -/
def Failure.message : Failure → String
  | unknownQuota quota => "quota not found: " ++ quota.toText
  | quotaExists quota => "quota already exists: " ++ quota.toText
  | versionMismatch quota expected actual =>
    "quota " ++ quota.toText ++ " is at version " ++ actual.toText ++ ", expected " ++
      expected.toText
  | full ceiling => "quota limit of " ++ toString ceiling ++ " reached"
  | notLogged reason => "WAL error: " ++ reason

end Allotment
