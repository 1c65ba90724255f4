/-
**What can happen to a desk.**

Clients come to a desk, alone or together, and ask for something.  A desk with a log goes through
more than that: the log is compacted, the store is closed and opened again, and bytes can be written
or cannot.  What a desk has gone through is a list of events, and the desk afterwards is what they
lead to.

A request, a visit and an event bring records, which are those they leave if all goes well.  Only
visits bring any.

Main definitions:

* `Allotment.Request`, `Allotment.Answer`, `Allotment.answer` — what a client asks and is told;
* `Allotment.Visit`, `Allotment.Desk.receive` — what can come to a desk, and the desk afterwards;
* `Allotment.Event`, `Allotment.Desk.undergo` — what can happen to a desk with a log;
* `Allotment.Request.records`, `Allotment.Visit.records`, `Allotment.Event.records` — what these
  bring.

Main results:

* `Allotment.Request.changeCases`, `Allotment.store_answer_of_reads` — a request asks for a change,
  or it only wants to know something and leaves the store as it was;
* `Allotment.Store.Over.receive` — **what every batch leaves true stays true whatever comes to a
  desk**;
* `Allotment.Store.Over.undergo` — **a log at rest stays at rest, and keeps its name, whatever
  happens**.
-/

import Allotment.Proofs.Journal

set_option relaxedAutoImplicit false
set_option autoImplicit false

namespace Allotment

/-! ### Requests and answers -/

/-- What a client can ask of a desk. -/
inductive Request where
  /-- A new quota. -/
  | create (terms : Terms) (stamp : Stamp)
  /-- Other terms for a quota. -/
  | revise (r : Revision) (stamp : Stamp)
  /-- Units of a quota. -/
  | allocate (c : Claim) (stamp : Stamp)
  /-- How a quota stands. -/
  | view (quota : Ulid)
  /-- The quotas that a filter accepts. -/
  | list (f : Filter)
  /-- The allocations of a quota. -/
  | allocations (quota : Ulid)
  /-- One allocation. -/
  | allocation (id : Ulid)
  /-- The findings of the audit. -/
  | audit
  /-- The number of quotas. -/
  | count

/-- The records that a request brings: those it leaves if all goes well. -/
def Request.records : Request → List Record
  | .create terms stamp => [.created stamp.id terms stamp.version]
  | .revise r stamp => [.revised r.quota r.terms stamp.version]
  | .allocate c stamp => [.allocated (c.allocation stamp) stamp.version]
  | _ => []

/-- What a client is told. -/
inductive Answer where
  /-- The quota after a change. -/
  | quota (result : Except Refusal Quota)
  /-- The allocation that was granted or found. -/
  | allocation (result : Except Refusal Allocation)
  /-- How a quota stands. -/
  | view (result : Except Refusal View)
  /-- Quotas. -/
  | views (vs : List View)
  /-- Allocations. -/
  | allocations (result : Except Refusal (List Allocation))
  /-- Findings. -/
  | findings (fs : List Finding)
  /-- A number of quotas. -/
  | count (n : Nat)

variable {ι : Type} [Journal ι]

/-- Answers a request. -/
def answer (d : Desk ι) : Request → Answer × Desk ι
  | .create terms stamp => (d.create terms stamp).map .quota id
  | .revise r stamp => (d.revise r stamp).map .quota id
  | .allocate c stamp => (d.allocate c stamp).map .allocation id
  | .view quota => (d.view quota).map .view id
  | .list f => (d.list f).map .views id
  | .allocations quota => (.allocations (d.allocations quota), d)
  | .allocation id => (.allocation (d.allocation id), d)
  | .audit => (.findings d.audit, d)
  | .count => (.count d.store.tables.count, d)

/-- **A request asks for a change or only wants to know something**; then it brings no record. -/
@[elab_as_elim]
theorem Request.changeCases {motive : Request → Prop}
    (create : ∀ terms stamp, motive (.create terms stamp))
    (revise : ∀ r stamp, motive (.revise r stamp))
    (allocate : ∀ c stamp, motive (.allocate c stamp))
    (reads : ∀ q, q.records = [] → motive q) (q : Request) : motive q := by
  cases q with
  | create terms stamp => exact create terms stamp
  | revise r stamp => exact revise r stamp
  | allocate c stamp => exact allocate c stamp
  | _ => exact reads _ rfl

/-- Whoever only wants to know something leaves the store as it was. -/
theorem store_answer_of_reads {d : Desk ι} (halone : d.store.rival = none) {q : Request}
    (hq : q.records = []) : (answer d q).2.store = d.store := by
  cases q with
  | create terms stamp => cases hq
  | revise r stamp => cases hq
  | allocate c stamp => cases hq
  | view quota => simp only [answer, Desk.view_of_no_rival halone, Prod.map_snd, id]
  | list f => simp only [answer, Desk.list_of_no_rival halone, Prod.map_snd, id]
  | _ => rfl

/-! ### Visits -/

/-- What can come to a desk. -/
inductive Visit where
  /-- One client with a request. -/
  | ask (q : Request)
  /-- Several clients with a claim each, at the same time. -/
  | together (cs : List (Claim × Stamp))

/-- The records that a visit brings: those it leaves if all goes well. -/
def Visit.records : Visit → List Record
  | .ask q => q.records
  | .together cs => cs.map fun p => .allocated (p.1.allocation p.2) p.2.version

namespace Desk

/-- The desk after a visit. -/
def receive (d : Desk ι) : Visit → Desk ι
  | .ask q => (answer d q).2
  | .together cs => (d.allocateTogether cs).2

/-- The desk after visits. -/
def receiveAll (d : Desk ι) (vs : List Visit) : Desk ι := vs.foldl receive d

end Desk

/-- **What every batch leaves true of a journal stays true whatever comes to a desk.** -/
theorem Store.Over.receive {P : ι → Prop} (hP : Journal.Lasting P) {d : Desk ι}
    (h : d.store.Over P) (v : Visit) : (d.receive v).store.Over P := by
  cases v with
  | together cs => exact h.allocateTogether hP cs
  | ask q =>
      cases q using Request.changeCases with
      | create terms stamp => exact h.create hP terms stamp
      | revise r stamp => exact h.revise hP r stamp
      | allocate c stamp => exact h.allocate hP c stamp
      | reads q hq =>
          rw [Desk.receive, store_answer_of_reads h.alone hq]
          exact h

/-! ### Events -/

/-- What can happen to a desk with a log. -/
inductive Event where
  /-- Somebody visits. -/
  | visit (v : Visit)
  /-- The log is compacted. -/
  | compact
  /-- The log is compacted if enough records were appended. -/
  | compactIfDue (threshold : Nat)
  /-- From now on bytes can be written, or cannot. -/
  | setWritable (writable : Bool)
  /-- The store is closed and opened again. -/
  | restart

/-- The records that an event brings. -/
def Event.records : Event → List Record
  | .visit v => v.records
  | _ => []

namespace Desk

/-- The desk after an event, whether or not what is asked for succeeds. -/
def undergo (d : Desk LogFile) : Event → Desk LogFile
  | .visit v => d.receive v
  | .compact => d.compact.2
  | .compactIfDue threshold => (d.compactIfDue threshold).2
  | .setWritable writable => { d with store.journal.disk.writable := writable }
  | .restart =>
    match Store.ofLog d.store.close d.store.journal.writer.name with
    | .ok store => { d with store }
    | .error _ => d

/-- The desk after events. -/
def undergoAll (d : Desk LogFile) (es : List Event) : Desk LogFile := es.foldl undergo d

end Desk

/-- **A log at rest stays at rest, and keeps its name, whatever happens.** -/
theorem Store.Over.undergo {name : String} {d : Desk LogFile}
    (h : d.store.Over (LogFile.Named name)) (e : Event) :
    (d.undergo e).store.Over (LogFile.Named name) := by
  obtain ⟨⟨bs, hrest⟩, hname⟩ := h.journal
  cases e with
  | visit v => exact h.receive (LogFile.lasting_named name) v
  | compact => exact h.compact_named
  | compactIfDue threshold =>
      exact Desk.compactIfDue_induction (fun d => d.store.Over (LogFile.Named name)) h
        h.compact_named threshold
  | setWritable writable => exact ⟨⟨⟨bs, { hrest with file := hrest.file }⟩, hname⟩, h.alone⟩
  | restart =>
      obtain ⟨s, ho, hs⟩ := Store.ofLog_of_file? hrest.file
      rw [Desk.undergo, Store.close_eq hrest, ho]
      exact ⟨⟨⟨_, hs.rest⟩, hs.named.trans hname⟩, hs.alone⟩

/-- The day a tour leaves on. -/
def tourDay : Date := ⟨2026, 10, 7, by decide⟩

/-- A store over a log that was made on an empty disk. -/
def emptyStore : Store LogFile :=
  .ofTables .empty ⟨(Disk.blank.makeFile "a.wal").2, .ofHandle ⟨"a.wal", 0⟩ 0⟩

theorem ofLog_emptyStore : Store.ofLog .blank "a.wal" = .ok emptyStore := rfl

end Allotment
