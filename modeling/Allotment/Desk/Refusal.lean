/-
**Why a desk turns a client away.**

Refusals fall into categories by what the client can do about them.  Only a conflict is transient:
the same request can succeed once the client has read the quota again.

Main definitions:

* `Allotment.Refusal` — the reasons, with `Refusal.message`;
* `Allotment.Refusal.category`, `Allotment.Refusal.isTransient`;
* `Allotment.Refusal.ofFailure` — what a client is told when the store refuses;
* `Allotment.Outcome`, `Allotment.Outcome.ofResult` — how a call ended, for the meters.
-/

import Allotment.Change

set_option relaxedAutoImplicit false
set_option autoImplicit false

namespace Allotment

/-- Why a client is turned away. -/
inductive Refusal where
  /-- The claim is for no units at all. -/
  | zeroQuantity
  /-- There is no such quota. -/
  | unknownQuota (quota : Ulid)
  /-- There is no such allocation. -/
  | unknownAllocation (allocation : Ulid)
  /-- There is such a quota already. -/
  | quotaExists (quota : Ulid)
  /-- More units are asked for than are left. -/
  | overbooked (quota : Ulid) (requested available : UInt32)
  /-- The quota has changed since the client read it. -/
  | conflict (quota : Ulid) (expected actual : Version)
  /-- The new bound would be below the units reserved. -/
  | boundTooLow (quota : Ulid) (reserved : UInt32) (bound : Nat)
  /-- The request breaks a limit. -/
  | overLimit (limit : Limit)
  /-- The change could not be stored. -/
  | notStored (reason : String)
deriving DecidableEq

/-- What a client can do about a refusal. -/
inductive Category where
  /-- Mend the request. -/
  | input
  /-- Look for another quota or allocation. -/
  | notFound
  /-- Ask for less. -/
  | capacity
  /-- Read again and try again. -/
  | conflict
  /-- Wait for the storage to be mended. -/
  | storage
deriving DecidableEq

/-- How a call ended, as the meters count it. -/
inductive Outcome where
  /-- The call was granted. -/
  | ok
  /-- The request was at fault. -/
  | invalid
  /-- Something does not exist. -/
  | notFound
  /-- The new bound would have been too low. -/
  | invalidCapacity
  /-- There were too few units left. -/
  | overbookingRejected
  /-- Somebody else was faster. -/
  | conflict
  /-- The storage failed. -/
  | storageError
deriving DecidableEq

namespace Refusal

/-- The category of a refusal. -/
def category : Refusal → Category
  | zeroQuantity | quotaExists _ | overLimit _ => .input
  | unknownQuota _ | unknownAllocation _ => .notFound
  | overbooked _ _ _ | boundTooLow _ _ _ => .capacity
  | conflict _ _ _ => .conflict
  | notStored _ => .storage

/-- Whether the same request can succeed later. -/
def isTransient (r : Refusal) : Bool := r.category = .conflict

/-- What is said about a refusal. -/
def message : Refusal → String
  | zeroQuantity => "quantity must be positive"
  | unknownQuota quota => "quota not found: " ++ quota.toText
  | unknownAllocation allocation => "allocation not found: " ++ allocation.toText
  | quotaExists quota => "already exists: " ++ quota.toText
  | overbooked quota requested available =>
    "overbooking rejected on quota " ++ quota.toText ++ ": requested " ++
      toString requested.toNat ++ ", available " ++ toString available.toNat
  | conflict quota expected actual =>
    "concurrency conflict on quota " ++ quota.toText ++ ": expected version " ++
      expected.toText ++ ", found " ++ actual.toText
  | boundTooLow quota reserved bound =>
    "invalid capacity for quota " ++ quota.toText ++ ": " ++ toString reserved.toNat ++
      " units reserved exceed new bound " ++ toString bound
  | overLimit limit => "limit exceeded: " ++ limit.text
  | notStored reason => "storage error: " ++ reason

/-- What a client is told when the store refuses a change. -/
def ofFailure : Failure → Refusal
  | .unknownQuota quota => unknownQuota quota
  | .quotaExists quota => quotaExists quota
  | .versionMismatch quota expected actual => conflict quota expected actual
  | .full _ => overLimit .quotas
  | .notLogged reason => notStored reason

/-- How a call that was refused ended. -/
def outcome : Refusal → Outcome
  | zeroQuantity | quotaExists _ | overLimit _ => .invalid
  | unknownQuota _ | unknownAllocation _ => .notFound
  | boundTooLow _ _ _ => .invalidCapacity
  | overbooked _ _ _ => .overbookingRejected
  | conflict _ _ _ => .conflict
  | notStored _ => .storageError

end Refusal

namespace Outcome

/-- All outcomes. -/
def all : List Outcome :=
  [ok, invalid, notFound, invalidCapacity, overbookingRejected, conflict, storageError]

/-- The label under which an outcome is counted. -/
def label : Outcome → String
  | ok => "ok"
  | invalid => "invalid"
  | notFound => "not_found"
  | invalidCapacity => "invalid_capacity"
  | overbookingRejected => "overbooking_rejected"
  | conflict => "conflict"
  | storageError => "storage_error"

/-- How a call with this result ended. -/
def ofResult {α : Type} : Except Refusal α → Outcome
  | .ok _ => ok
  | .error r => r.outcome

end Outcome

end Allotment
