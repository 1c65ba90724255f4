/-
**Claims made at the same time.**

When several clients come at once, the desk first reads the quotas of all of them and decides about
every claim; the writes that this leads to then reach the store as a group.  So none of these claims
sees the effect of another, and of several claims on one quota that fit, one is granted and the
others end in a conflict, unless the log fails.

Main definition:

* `Allotment.Desk.allocateTogether` — deals with claims made at the same time.

Main results:

* `Allotment.Desk.allocateTogether_singleton` — a claim that comes alone is dealt with as ever;
* `Allotment.Desk.length_allocateTogether` — every claim gets exactly one answer.
-/

import Allotment.Desk
import Allotment.Store.Group

set_option relaxedAutoImplicit false
set_option autoImplicit false

namespace Allotment.Desk

variable {ι : Type} [Journal ι]

/-- A claim with its stamp and what was decided about it. -/
structure Decided where
  /-- The claim. -/
  claim : Claim
  /-- What is fresh about it. -/
  stamp : Stamp
  /-- The decision. -/
  decision : Except Refusal Write

/-- Decides about claims one after the other, before any of them is granted. -/
def prepareAll (s : Store ι) : List (Claim × Stamp) → List Decided × Store ι
  | [] => ([], s)
  | (c, stamp) :: cs =>
    let (decision, s) := prepare s c stamp
    let (ds, s) := prepareAll s cs
    (⟨c, stamp, decision⟩ :: ds, s)

/-- The writes that were decided on. -/
def submissions (ds : List Decided) : List Submission :=
  ds.filterMap fun d => d.decision.toOption.map (⟨·, d.stamp.version⟩)

/-- The answers to claims, if these are the results of their writes, in the same order. -/
def answers : List Decided → List (Except Failure Quota) → List (Except Refusal Allocation)
  | [], _ => []
  | ⟨_, _, .error e⟩ :: ds, results => .error e :: answers ds results
  | ⟨_, _, .ok _⟩ :: _, [] => []
  | ⟨_, _, .ok _⟩ :: ds, .error e :: results => .error (.ofFailure e) :: answers ds results
  | ⟨c, stamp, .ok _⟩ :: ds, .ok _ :: results => .ok (c.allocation stamp) :: answers ds results

/-- Deals with claims made at the same time. -/
def allocateTogether (d : Desk ι) (cs : List (Claim × Stamp)) :
    List (Except Refusal Allocation) × Desk ι :=
  match prepareAll d.store cs with
  | (ds, s) =>
    match s.commitGroup (submissions ds) with
    | (results, store) =>
      let results := answers ds results
      (results, ⟨store, results.foldl .countAllocation d.meter⟩)

theorem length_prepareAll (s : Store ι) (cs : List (Claim × Stamp)) :
    (prepareAll s cs).1.length = cs.length := by
  fun_induction prepareAll s cs <;> simp_all

omit [Journal ι] in
theorem length_answers (ds : List Decided) (results : List (Except Failure Quota))
    (h : results.length = (submissions ds).length) : (answers ds results).length = ds.length := by
  fun_induction answers ds results <;> simp_all [submissions, Except.toOption]

/-- Every claim gets exactly one answer. -/
theorem length_allocateTogether (d : Desk ι) (cs : List (Claim × Stamp)) :
    (d.allocateTogether cs).1.length = cs.length := by
  simp only [allocateTogether]
  rw [length_answers _ _ (Store.length_commitGroup _ _), length_prepareAll]

/-- A claim that comes alone is dealt with as ever. -/
theorem allocateTogether_singleton (d : Desk ι) (c : Claim) (stamp : Stamp) :
    d.allocateTogether [(c, stamp)] = ([(d.allocate c stamp).1], (d.allocate c stamp).2) := by
  simp only [allocateTogether, prepareAll, allocate, allocateIn]
  rcases prepare d.store c stamp with ⟨e | w, s⟩
  · rfl
  · simp only [submissions, List.filterMap_cons, List.filterMap_nil, Except.toOption,
      Option.map_some, Store.commitGroup_singleton, carryOut]
    rcases s.commit w stamp.version with ⟨e | q, s⟩ <;> rfl

end Allotment.Desk
