/-
**Meters.**

A meter counts what desks do: calls by their outcome, units granted, logs compacted, and the number
of tenants open.  A counter is only shown once it has counted something.

Main definitions:

* `Allotment.Tally` — calls counted by outcome;
* `Allotment.Meter` — all counters;
* `Allotment.Meter.readings` — the counters that have counted something, by name.

Main results:

* `Allotment.Tally.get_count`, `Allotment.Tally.total_count` — counting a call raises the number of
  its outcome, and the sum of all, by one.
-/

import Allotment.Desk.Refusal

set_option relaxedAutoImplicit false
set_option autoImplicit false

namespace Allotment

/-- Calls counted by outcome. -/
structure Tally where
  /-- Calls granted. -/
  ok : Nat
  /-- Calls at fault. -/
  invalid : Nat
  /-- Calls about something that does not exist. -/
  notFound : Nat
  /-- Calls for a bound that is too low. -/
  invalidCapacity : Nat
  /-- Calls for more units than were left. -/
  overbookingRejected : Nat
  /-- Calls that came too late. -/
  conflict : Nat
  /-- Calls that the storage failed. -/
  storageError : Nat
deriving DecidableEq

namespace Tally

/-- Nothing counted. -/
def zero : Tally := ⟨0, 0, 0, 0, 0, 0, 0⟩

/-- The number of calls with an outcome. -/
def get (t : Tally) : Outcome → Nat
  | .ok => t.ok
  | .invalid => t.invalid
  | .notFound => t.notFound
  | .invalidCapacity => t.invalidCapacity
  | .overbookingRejected => t.overbookingRejected
  | .conflict => t.conflict
  | .storageError => t.storageError

/-- Counts a call. -/
def count (t : Tally) : Outcome → Tally
  | .ok => { t with ok := t.ok + 1 }
  | .invalid => { t with invalid := t.invalid + 1 }
  | .notFound => { t with notFound := t.notFound + 1 }
  | .invalidCapacity => { t with invalidCapacity := t.invalidCapacity + 1 }
  | .overbookingRejected => { t with overbookingRejected := t.overbookingRejected + 1 }
  | .conflict => { t with conflict := t.conflict + 1 }
  | .storageError => { t with storageError := t.storageError + 1 }

/-- The number of all calls. -/
def total (t : Tally) : Nat := Outcome.all.foldl (fun n o => n + t.get o) 0

theorem get_count (t : Tally) (o p : Outcome) :
    (t.count o).get p = if o = p then t.get p + 1 else t.get p := by
  cases o <;> cases p <;> rfl

theorem total_count (t : Tally) (o : Outcome) : (t.count o).total = t.total + 1 := by
  cases o <;> simp [total, Outcome.all, get, count] <;> omega

end Tally

/-- All counters. -/
structure Meter where
  /-- Claims made on quotas. -/
  allocations : Tally
  /-- Units granted. -/
  units : Nat
  /-- Changes of terms asked for. -/
  updates : Tally
  /-- Logs compacted. -/
  compactions : Nat
  /-- Tenants open, once there has been one. -/
  tenants : Option Nat
deriving DecidableEq

namespace Meter

/-- Nothing counted. -/
def zero : Meter := ⟨.zero, 0, .zero, 0, none⟩

/-- Counts a claim, and the units granted if it succeeded. -/
def countAllocation (m : Meter) (result : Except Refusal Allocation) : Meter :=
  { m with
    allocations := m.allocations.count (.ofResult result)
    units := m.units + match result with
      | .ok a => a.quantity.toNat
      | .error _ => 0 }

/-- Counts a change of terms. -/
def countUpdate (m : Meter) (result : Except Refusal Quota) : Meter :=
  { m with updates := m.updates.count (.ofResult result) }

/-- Counts a log that was compacted. -/
def countCompaction (m : Meter) : Meter := { m with compactions := m.compactions + 1 }

/-- Notes how many tenants are open. -/
def noteTenants (m : Meter) (n : Nat) : Meter := { m with tenants := some n }

/-- A counter by its name, if it has counted something. -/
def reading (name : String) (n : Nat) : List (String × Nat) := if n = 0 then [] else [(name, n)]

/-- The counters of a tally, by name and outcome. -/
def tallyReadings (name : String) (t : Tally) : List (String × Nat) :=
  Outcome.all.flatMap fun o => reading (name ++ "\x7boutcome=" ++ o.label ++ "\x7d") (t.get o)

/-- The counters that have counted something, and the number of tenants once it is known. -/
def readings (m : Meter) : List (String × Nat) :=
  tallyReadings "quotad_allocations_total" m.allocations ++
    reading "quotad_units_allocated_total" m.units ++
    tallyReadings "quotad_quota_updates_total" m.updates ++
    reading "quotad_wal_compactions_total" m.compactions ++
    m.tenants.toList.map fun n => ("quotad_tenants_active", n)

end Meter

end Allotment
