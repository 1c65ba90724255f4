/-
**Group commit.**

Writes that reach a store at the same time go to the journal as one batch.  They share one flush and
one fate: either the journal takes them all, or all of them are refused for the same reason.

A batch has at most one write for every quota.  A write that is not in time is refused and takes no
part.  A write on a quota that has a write in the batch waits until the batch is done, and is then
made like any other; so of several writes made for the same version still at most one takes effect.

Main definitions:

* `Allotment.Submission` — a write with the version that it is to give its quota;
* `Allotment.Turn`, `Allotment.Store.turns` — what becomes of the submissions of a group;
* `Allotment.Store.commitBatch` — logging and applying the writes of a batch;
* `Allotment.Store.commitGroup` — writes made at the same time.

Main results:

* `Allotment.Store.commitGroup_singleton` — a write that comes alone is made as if there were no
  groups;
* `Allotment.Store.length_commitGroup` — every submission gets exactly one answer.
-/

import Allotment.Store

set_option relaxedAutoImplicit false
set_option autoImplicit false

namespace Allotment

/-- A write with the version that its quota gets if it takes effect. -/
structure Submission where
  /-- The write. -/
  write : Write
  /-- The new version. -/
  version : Version
deriving DecidableEq

/-- The record of a submission that takes effect. -/
def Submission.record (w : Submission) : Record := w.write.record w.version

/-- What becomes of a submission. -/
inductive Turn where
  /-- It is refused for this reason. -/
  | refused (reason : Failure)
  /-- It is in the batch; the quota stands as given. -/
  | joins (q : Standing)
  /-- It waits for the write in the batch on the same quota. -/
  | waits
deriving DecidableEq

/-- The submissions that are in the batch, each with its quota as it stands. -/
def batch (ts : List (Submission × Turn)) : List (Submission × Standing) :=
  ts.filterMap fun
    | (w, .joins q) => some (w, q)
    | _ => none

/-- The effect of the writes of a batch. -/
def Tables.commitAll (t : Tables) (b : List (Submission × Standing)) : Tables :=
  b.foldl (fun t (w, q) => t.commit w.write.quota q w.record) t

namespace Store

variable {ι : Type}

/-- What becomes of submissions, if `taken` are the quotas that already have a write in the
batch. -/
def turns (s : Store ι) (taken : List Ulid) : List Submission → List (Submission × Turn)
  | [] => []
  | w :: ws =>
    if w.write.quota ∈ taken then (w, .waits) :: s.turns taken ws
    else
      match s.checkWrite w.write with
      | .error e => (w, .refused e) :: s.turns taken ws
      | .ok q => (w, .joins q) :: s.turns (w.write.quota :: taken) ws

variable [Journal ι]

/-- Logs and applies the writes of a batch.  An empty batch does not reach the journal. -/
def commitBatch (s : Store ι) (b : List (Submission × Standing)) : Except Failure Unit × Store ι :=
  if b.isEmpty then (.ok (), s) else s.log (b.map (·.1.record)) (s.tables.commitAll b)

/-- Answers submissions once the batch has ended with `outcome`, and makes the writes that waited
for it. -/
def answer (outcome : Except Failure Unit) (s : Store ι) :
    List (Submission × Turn) → List (Except Failure Quota) × Store ι
  | [] => ([], s)
  | (_, .refused e) :: ts =>
    let (results, s) := answer outcome s ts
    (.error e :: results, s)
  | (w, .joins q) :: ts =>
    let (results, s) := answer outcome s ts
    (outcome.map (fun () => { q.after w.record with id := w.write.quota }) :: results, s)
  | (w, .waits) :: ts =>
    let (result, s) := s.commit w.write w.version
    let (results, s) := answer outcome s ts
    (result :: results, s)

/-- Makes writes that reach the store at the same time. -/
def commitGroup (s : Store ι) (ws : List Submission) : List (Except Failure Quota) × Store ι :=
  let ts := s.turns [] ws
  let (outcome, s) := s.commitBatch (batch ts)
  s.answer outcome ts

omit [Journal ι] in
theorem length_turns (s : Store ι) (taken : List Ulid) (ws : List Submission) :
    (s.turns taken ws).length = ws.length := by
  induction ws generalizing taken with
  | nil => rfl
  | cons w ws ih =>
    rw [turns]
    split
    · simp [ih]
    · split <;> simp [ih]

theorem length_answer (outcome : Except Failure Unit) (s : Store ι)
    (ts : List (Submission × Turn)) : (s.answer outcome ts).1.length = ts.length := by
  fun_induction answer outcome s ts <;> simp_all

/-- Every submission gets exactly one answer. -/
theorem length_commitGroup (s : Store ι) (ws : List Submission) :
    (s.commitGroup ws).1.length = ws.length := by
  rw [commitGroup, length_answer, length_turns]

/-- A group of one write is a plain commit. -/
theorem commitGroup_singleton (s : Store ι) (w : Submission) :
    s.commitGroup [w] = ([(s.commit w.write w.version).1], (s.commit w.write w.version).2) := by
  cases h : s.checkWrite w.write with
  | error e => simp [commitGroup, turns, batch, commitBatch, answer, commit, h]
  | ok q =>
    simp only [commitGroup, turns, h, batch, commitBatch, answer, commit, Tables.commitAll,
      Submission.record, List.filterMap_cons, List.filterMap_nil, List.isEmpty_cons,
      List.map_cons, List.map_nil, List.foldl_cons, List.foldl_nil, List.not_mem_nil, if_false,
      Bool.false_eq_true]
    rcases s.log _ _ with ⟨_ | _, _⟩ <;> rfl

end Store

end Allotment
