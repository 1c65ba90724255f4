/-
**How many records were appended.**

Every quota that is entered and every conditional write that takes effect is one record of the log,
and nothing else is.  Between two operations nothing waits to be confirmed: a batch is confirmed
before anybody is answered, and what a batch that fails has appended is taken back, whatever the
disk has come to.  So the number that decides when a log is due for compaction can be read off the
answers: it is the number of those that told of a success, since the log was last opened or a
compaction succeeded.

Operations that reach the log at the same time share a batch and so its outcome.  What becomes of
the disk between two operations is left open, and so is when the log is closed and whether it can be
opened again.

Main definitions:

* `Allotment.successes` — how many of several results are successes;
* `Allotment.Store.Appended` — a store whose log has so many records more;
* `Allotment.Operation`, `Allotment.Site.operate` — what may be asked of a durable store, and what
  it comes to;
* `Allotment.Mark`, `Allotment.total` — what is counted.

Main results:

* `Allotment.Store.Appended.commitGroup`, `Allotment.Store.Appended.allocateTogether` — **of several
  writes at the same time, each one that succeeds is counted once**;
* `Allotment.Site.Booked.operate`, `Allotment.Site.Booked.operateAll` — the number agrees with the
  answers, after one operation and after a run;
* `Allotment.Accounts.appends_accounted` — **the counter of a log is exact**, call by call and
  operation by operation.
-/

import Mathlib.Algebra.GroupWithZero.Nat
import Allotment.Proofs.Confined
import Allotment.Proofs.Log.Tally
import Allotment.Proofs.Mishaps

set_option relaxedAutoImplicit false
set_option autoImplicit false

namespace Allotment

/-! ### Successes -/

/-- How many results are successes. -/
def successes {ε α : Type} (results : List (Except ε α)) : Nat := results.countP Except.isOk

section Successes

variable {ε α : Type} (results : List (Except ε α))

@[simp] theorem successes_nil : successes ([] : List (Except ε α)) = 0 := rfl

@[simp] theorem successes_error (e : ε) : successes (.error e :: results) = successes results :=
  List.countP_cons_of_neg (by simp [Except.isOk, Except.toBool])

@[simp] theorem successes_ok (a : α) : successes (.ok a :: results) = successes results + 1 :=
  List.countP_cons_of_pos (by simp [Except.isOk, Except.toBool])

end Successes

/-- Of the writes of a batch, all succeed or none. -/
def share {ε : Type} (outcome : Except ε Unit) (n : Nat) : Nat := if outcome.isOk then n else 0

theorem successes_replicate {ε : Type} (outcome : Except ε Unit) (n : Nat) :
    successes (List.replicate n outcome) = share outcome n := by
  rw [successes, List.countP_replicate, share]

namespace Store

/-- **The log of the store has `n` records more**, if nothing waited to be confirmed, and then
nothing waits. -/
structure Appended (s : Store LogFile) (n : Nat) (s' : Store LogFile) : Prop where
  /-- No rival has come or gone. -/
  rival : s'.rival = s.rival
  /-- What the log says of itself. -/
  counted : s.journal.writer.pendingAppends = 0 →
    s'.journal.writer.pendingAppends = 0 ∧ s'.appends = s.appends + n

namespace Appended

variable {s s' s'' : Store LogFile}

theorem refl (s : Store LogFile) : s.Appended 0 s := ⟨rfl, fun h => ⟨h, rfl⟩⟩

theorem trans {n m : Nat} (h : s.Appended n s') (h' : s'.Appended m s'') :
    s.Appended (n + m) s'' where
  rival := h'.rival.trans h.rival
  counted hzero := by
    obtain ⟨hmid, happends⟩ := h.counted hzero
    obtain ⟨hlast, happends'⟩ := h'.counted hmid
    exact ⟨hlast, by rw [happends', happends, Nat.add_assoc]⟩

/-- **A batch is counted as a whole or not at all.** -/
theorem log (s : Store LogFile) (rs : List Record) (tables : Tables) :
    s.Appended (share (s.log rs tables).1 rs.length) (s.log rs tables).2 := by
  have hcounters : s.journal.writer.pendingAppends = 0 → _ := fun hzero =>
    Log.Writer.appendBatch_counters hzero s.journal.disk rs
  simp only [Store.log, Journal.append]
  rcases hb : s.journal.writer.appendBatch s.journal.disk rs with ⟨e | u, w, disk⟩
  · refine ⟨rfl, fun hzero => ?_⟩
    have hcounted := hcounters hzero
    rw [hb] at hcounted
    obtain ⟨hpending, ⟨hok, _⟩ | ⟨_, happends⟩⟩ := hcounted
    · cases hok
    · exact ⟨hpending, happends⟩
  · refine ⟨rfl, fun hzero => ?_⟩
    have hcounted := hcounters hzero
    rw [hb] at hcounted
    obtain ⟨hpending, ⟨_, happends⟩ | ⟨⟨e, he⟩, _⟩⟩ := hcounted
    · exact ⟨hpending, happends⟩
    · cases he

/-- A quota that is entered is counted. -/
theorem insert (s : Store LogFile) (id : Ulid) (terms : Terms) (version : Version) :
    s.Appended (successes [(s.insert id terms version).1]) (s.insert id terms version).2 := by
  unfold Store.insert
  cases s.checkInsert id with
  | error e => exact refl s
  | ok u =>
      have hlog := log s [.created id terms version] (s.tables.install id terms version)
      simp only
      rcases hl : s.log [.created id terms version] (s.tables.install id terms version)
        with ⟨e | u, s'⟩
      · rwa [hl] at hlog
      · rwa [hl] at hlog

/-- A write that takes effect is counted. -/
theorem commit (s : Store LogFile) (w : Write) (version : Version) :
    s.Appended (successes [(s.commit w version).1]) (s.commit w version).2 := by
  unfold Store.commit
  cases s.checkWrite w with
  | error e => exact refl s
  | ok q =>
      have hlog := log s [w.record version] (s.tables.commit w.quota q (w.record version))
      simp only
      rcases hl : s.log [w.record version] (s.tables.commit w.quota q (w.record version))
        with ⟨e | u, s'⟩
      · rwa [hl] at hlog
      · rwa [hl] at hlog

/-- The writes of a batch are counted when it ends, and those that waited for it when they are
made. -/
theorem answer (outcome : Except Failure Unit) (s : Store LogFile)
    (ts : List (Submission × Turn)) :
    ∃ n, s.Appended n (s.answer outcome ts).2 ∧
      successes (s.answer outcome ts).1 = share outcome (batch ts).length + n := by
  induction ts generalizing s with
  | nil => exact ⟨0, refl s, by cases outcome <;> rfl⟩
  | cons t ts ih =>
      obtain ⟨w, e | q | _⟩ := t
      · obtain ⟨n, happended, hn⟩ := ih s
        exact ⟨n, happended, (successes_error _ e).trans hn⟩
      · obtain ⟨n, happended, hn⟩ := ih s
        refine ⟨n, happended, ?_⟩
        have hbatch : batch ((w, Turn.joins q) :: ts) = (w, q) :: batch ts := rfl
        simp only [Store.answer, hbatch]
        cases outcome with
        | error e => exact (successes_error _ e).trans hn
        | ok u =>
            refine (successes_ok _ _).trans ?_
            rw [hn]
            exact Nat.add_right_comm _ _ _
      · obtain ⟨n, happended, hn⟩ := ih (s.commit w.write w.version).2
        refine ⟨_, (commit s w.write w.version).trans happended, ?_⟩
        have hbatch : batch ((w, Turn.waits) :: ts) = batch ts := rfl
        simp only [Store.answer, hbatch]
        rcases (s.commit w.write w.version).1 with e | q
        · rw [successes_error, hn, successes_error, successes_nil, Nat.zero_add]
        · rw [successes_ok, hn, successes_ok, successes_nil]
          omega

/-- **Writes that are made at the same time** are counted one by one if they succeed. -/
theorem commitGroup (s : Store LogFile) (ws : List Submission) :
    s.Appended (successes (s.commitGroup ws).1) (s.commitGroup ws).2 := by
  have hbatch : s.Appended (share (s.commitBatch (batch (s.turns [] ws))).1
      (batch (s.turns [] ws)).length) (s.commitBatch (batch (s.turns [] ws))).2 := by
    unfold commitBatch
    cases hb : batch (s.turns [] ws) with
    | nil => exact refl s
    | cons p b =>
        have hlog := log s ((p :: b).map (·.1.record)) (s.tables.commitAll (p :: b))
        rw [List.length_map] at hlog
        exact hlog
  obtain ⟨n, happended, hn⟩ := answer (s.commitBatch (batch (s.turns [] ws))).1
    (s.commitBatch (batch (s.turns [] ws))).2 (s.turns [] ws)
  simp only [Store.commitGroup, hn]
  exact hbatch.trans happended

/-! The calls of a desk. -/

theorem carryOut (s : Store LogFile) (decision : Except Refusal Write) (version : Version) :
    s.Appended (successes [(Desk.carryOut s decision version).1])
      (Desk.carryOut s decision version).2 := by
  cases decision with
  | error e => exact refl s
  | ok w =>
      have hcommit := commit s w version
      simp only [Desk.carryOut]
      rcases hc : s.commit w version with ⟨e | q, s'⟩
      · rwa [hc] at hcommit
      · rwa [hc] at hcommit

variable {d : Desk LogFile}

theorem create (d : Desk LogFile) (terms : Terms) (stamp : Stamp) :
    d.store.Appended (successes [(d.create terms stamp).1]) (d.create terms stamp).2.store := by
  unfold Desk.create
  cases terms.check with
  | error e => exact refl d.store
  | ok u =>
      have hinsert := insert d.store stamp.id terms stamp.version
      simp only
      rcases hi : d.store.insert stamp.id terms stamp.version with ⟨e | q, s'⟩
      · rwa [hi] at hinsert
      · rwa [hi] at hinsert

theorem revise (alone : d.store.rival = none) (r : Revision) (stamp : Stamp) :
    d.store.Appended (successes [(d.revise r stamp).1]) (d.revise r stamp).2.store := by
  change d.store.Appended (successes [(Desk.reviseIn d.store r stamp).1])
    (Desk.reviseIn d.store r stamp).2
  unfold Desk.reviseIn
  cases r.terms.check with
  | error e => exact refl d.store
  | ok u =>
      simp only [load_of_no_rival alone]
      exact carryOut d.store _ stamp.version

theorem allocate (alone : d.store.rival = none) (c : Claim) (stamp : Stamp) :
    d.store.Appended (successes [(d.allocate c stamp).1]) (d.allocate c stamp).2.store := by
  change d.store.Appended (successes [(Desk.allocateIn d.store c stamp).1])
    (Desk.allocateIn d.store c stamp).2
  have hsame := Desk.prepare_snd alone c stamp
  unfold Desk.allocateIn
  rcases hp : Desk.prepare d.store c stamp with ⟨decision, s⟩
  rw [hp] at hsame
  obtain rfl : s = d.store := hsame
  have hcarry := carryOut d.store decision stamp.version
  simp only
  rcases hc : Desk.carryOut d.store decision stamp.version with ⟨e | q, s'⟩
  · rwa [hc] at hcarry
  · rwa [hc] at hcarry

/-- A claim is answered with a success if its write was. -/
theorem successes_answers {ds : List Desk.Decided} {results : List (Except Failure Quota)}
    (h : results.length = (Desk.submissions ds).length) :
    successes (Desk.answers ds results) = successes results := by
  fun_induction Desk.answers ds results with
  | case1 results =>
      obtain rfl : results = [] := List.length_eq_zero_iff.1 h
      rfl
  | case2 c stamp e ds results ih => exact (successes_error _ e).trans (ih h)
  | case3 c stamp w ds => cases h
  | case4 c stamp w ds e results ih =>
      rw [successes_error, successes_error]
      exact ih (Nat.succ.inj h)
  | case5 c stamp w ds q results ih =>
      rw [successes_ok, successes_ok, ih (Nat.succ.inj h)]

/-- **Claims that are made at the same time** are counted one by one if they are granted. -/
theorem allocateTogether (alone : d.store.rival = none) (cs : List (Claim × Stamp)) :
    d.store.Appended (successes (d.allocateTogether cs).1) (d.allocateTogether cs).2.store := by
  have hgroup := commitGroup (Desk.prepareAll d.store cs).2
    (Desk.submissions (Desk.prepareAll d.store cs).1)
  rw [Desk.prepareAll_snd alone] at hgroup
  simp only [Desk.allocateTogether]
  rw [Desk.prepareAll_snd alone, successes_answers (length_commitGroup _ _)]
  exact hgroup

end Appended

end Store

/-- How many changes a visit has made, by what it was told. -/
def Visit.gains (d : Desk LogFile) : Visit → Nat
  | .ask (.create terms stamp) => successes [(d.create terms stamp).1]
  | .ask (.revise r stamp) => successes [(d.revise r stamp).1]
  | .ask (.allocate c stamp) => successes [(d.allocate c stamp).1]
  | .ask _ => 0
  | .together cs => successes (d.allocateTogether cs).1

/-- **What a visit appends** is what it was told to have changed. -/
theorem Store.Appended.receive {d : Desk LogFile} (alone : d.store.rival = none) (v : Visit) :
    d.store.Appended (v.gains d) (d.receive v).store := by
  cases v with
  | together cs => exact allocateTogether alone cs
  | ask q =>
      cases q with
      | create terms stamp => exact create d terms stamp
      | revise r stamp => exact revise alone r stamp
      | allocate c stamp => exact allocate alone c stamp
      | _ =>
          rw [Desk.receive, store_answer_of_reads alone rfl]
          exact refl d.store

/-- **A compaction that succeeds starts anew**, and one that fails changes no counter. -/
theorem Desk.compact_counters (d : Desk LogFile) :
    (d.compact.1 = .ok () ∧ d.compact.2.store.appends = 0 ∧
      d.compact.2.store.journal.writer.pendingAppends = 0) ∨
    ((∃ e, d.compact.1 = .error e) ∧
      d.compact.2.store.journal.writer = d.store.journal.writer) := by
  have hcounters := d.store.journal.writer.compact_counters d.store.journal.disk
    d.store.tables.snapshotRecords
  unfold compact Store.compact
  rcases hc : d.store.journal.writer.compact d.store.journal.disk d.store.tables.snapshotRecords
    with ⟨e | u, w, disk⟩
  · rw [hc] at hcounters
    rcases hcounters with ⟨hok, _⟩ | ⟨_, hsame⟩
    · cases hok
    · exact Or.inr ⟨⟨_, rfl⟩, hsame⟩
  · rw [hc] at hcounters
    rcases hcounters with ⟨_, happends, hpending⟩ | ⟨⟨e, he⟩, _⟩
    · exact Or.inl ⟨rfl, happends, hpending⟩
    · cases he

/-- A store that was opened just now has counted nothing. -/
theorem Store.counters_of_ofLog {disk : Disk} {name : String} {s : Store LogFile}
    (h : Store.ofLog disk name = .ok s) :
    s.appends = 0 ∧ s.journal.writer.pendingAppends = 0 := by
  unfold Store.ofLog at h
  cases hr : Log.Writer.recover disk name with
  | error e =>
      rw [hr] at h
      cases h
  | ok opened =>
      rw [hr] at h
      cases h
      obtain ⟨_, _, hfile⟩ := Log.Writer.recover_eq_ok hr
      exact Log.Writer.counters_of_ofFile hfile

/-! ### Runs -/

/-- What may be asked of a durable store, and what else may happen to it. -/
inductive Operation where
  /-- Somebody visits the desk. -/
  | visit (v : Visit)
  /-- The store is asked to enter a quota. -/
  | insert (id : Ulid) (terms : Terms) (version : Version)
  /-- The store is asked for a conditional write. -/
  | commit (w : Write) (version : Version)
  /-- The store is asked for conditional writes at the same time. -/
  | group (ws : List Submission)
  /-- Changes with these records reach the log as one batch, and give the tables this content if it
  is taken. -/
  | batch (rs : List Record) (tables : Tables)
  /-- The log is compacted. -/
  | compact
  /-- The log is compacted if so many records were appended. -/
  | compactIfDue (threshold : Nat)
  /-- Something happens to the disk. -/
  | disturb (f : Disk → Disk)
  /-- The log is closed. -/
  | close
  /-- The log is opened again, unless that fails. -/
  | reopen

/-- What is counted of an operation. -/
inductive Mark where
  /-- The log was opened or compacted. -/
  | renewed
  /-- So many quotas were entered and writes made. -/
  | made (n : Nat)
deriving DecidableEq

/-- The number of changes that were made. -/
def Mark.changes : Mark → Nat
  | .renewed => 0
  | .made n => n

/-- Whether the log was opened or compacted. -/
def Mark.renews : Mark → Bool
  | .renewed => true
  | .made _ => false

/-- The number of changes that were made since the log was last opened or compacted. -/
def total (marks : List Mark) : Nat := ((marks.rtakeWhile (!·.renews)).map Mark.changes).sum

theorem total_snoc_renewed (marks : List Mark) : total (marks ++ [.renewed]) = 0 := by
  rw [total, List.rtakeWhile_concat_neg _ _ _ (by decide)]
  rfl

theorem total_snoc_made (marks : List Mark) (n : Nat) :
    total (marks ++ [.made n]) = total marks + n := by
  rw [total, List.rtakeWhile_concat_pos _ _ _ (by rfl), List.map_append, List.sum_append]
  rfl

namespace Site

/-- What an operation comes to: what is counted of it, and what is left. -/
def operate (name : String) : Site → Operation → Mark × Site
  | .opened d, .visit v => (.made (v.gains d), .opened (d.receive v))
  | .opened d, .insert id terms version =>
    (.made (successes [(d.store.insert id terms version).1]),
      .opened { d with store := (d.store.insert id terms version).2 })
  | .opened d, .commit w version =>
    (.made (successes [(d.store.commit w version).1]),
      .opened { d with store := (d.store.commit w version).2 })
  | .opened d, .group ws =>
    (.made (successes (d.store.commitGroup ws).1),
      .opened { d with store := (d.store.commitGroup ws).2 })
  | .opened d, .batch rs tables =>
    (.made (successes (List.replicate rs.length (d.store.log rs tables).1)),
      .opened { d with store := (d.store.log rs tables).2 })
  | .opened d, .compact =>
    (if d.compact.1.isOk then .renewed else .made 0, .opened d.compact.2)
  | .opened d, .compactIfDue threshold =>
    (if (d.compactIfDue threshold).1 = .ok true then .renewed else .made 0,
      .opened (d.compactIfDue threshold).2)
  | .opened d, .disturb f =>
    (.made 0, .opened { d with store.journal.disk := f d.store.journal.disk })
  | .opened d, .close => (.made 0, .closed d.store.close)
  | .closed disk, .disturb f => (.made 0, .closed (f disk))
  | .closed disk, .reopen =>
    match Store.ofLog disk name with
    | .ok store => (.renewed, .opened ⟨store, .zero⟩)
    | .error _ => (.made 0, .closed disk)
  | site, _ => (.made 0, site)

/-- What operations come to, one after the other. -/
def operateAll (name : String) (site : Site) : List Operation → List Mark × Site
  | [] => ([], site)
  | x :: xs =>
    let (mark, site) := site.operate name x
    let (marks, site) := site.operateAll name xs
    (mark :: marks, site)

/-- **What holds between two operations**, if this was counted so far. -/
def Booked (marks : List Mark) : Site → Prop
  | .opened d => d.store.rival = none ∧ d.store.journal.writer.pendingAppends = 0 ∧
      d.store.appends = total marks
  | .closed _ => True

namespace Booked

variable {marks : List Mark} {d d' : Desk LogFile}

theorem of_appended (h : Booked marks (.opened d)) {n : Nat}
    (happended : d.store.Appended n d'.store) : Booked (marks ++ [.made n]) (.opened d') := by
  obtain ⟨alone, hpending, happends⟩ := h
  obtain ⟨hpending', happends'⟩ := happended.counted hpending
  exact ⟨happended.rival.trans alone, hpending', by rw [happends', happends, total_snoc_made]⟩

/-- The log was compacted or not. -/
theorem of_compact (h : Booked marks (.opened d)) :
    Booked (marks ++ [if d.compact.1.isOk then .renewed else .made 0]) (.opened d.compact.2) := by
  obtain ⟨alone, hpending, happends⟩ := h
  have halone := (d.compact_stays rfl).2.trans alone
  rcases d.compact_counters with ⟨hok, happends', hpending'⟩ | ⟨⟨e, he⟩, hsame⟩
  · rw [hok]
    exact ⟨halone, hpending', happends'.trans (total_snoc_renewed marks).symm⟩
  · rw [he]
    refine ⟨halone, hsame ▸ hpending, ?_⟩
    change d.compact.2.store.journal.writer.appends = total (marks ++ [.made 0])
    rw [hsame, total_snoc_made, Nat.add_zero]
    exact happends

/-- **The count agrees with the answers after one more operation.** -/
theorem operate {site : Site} (h : Booked marks site) (name : String) (x : Operation) :
    Booked (marks ++ [(site.operate name x).1]) (site.operate name x).2 := by
  cases site with
  | closed disk =>
      cases x with
      | reopen =>
          simp only [Site.operate]
          cases ho : Store.ofLog disk name with
          | error e => trivial
          | ok s =>
              obtain ⟨_, hs⟩ := Store.opened_of_ofLog ho
              obtain ⟨happends, hpending⟩ := Store.counters_of_ofLog ho
              exact ⟨hs.alone, hpending, happends.trans (total_snoc_renewed marks).symm⟩
      | _ => trivial
  | opened d =>
      cases x with
      | visit v => exact h.of_appended (.receive h.1 v)
      | insert id terms version => exact h.of_appended (.insert d.store id terms version)
      | commit w version => exact h.of_appended (.commit d.store w version)
      | group ws => exact h.of_appended (.commitGroup d.store ws)
      | batch rs tables =>
          simp only [Site.operate, successes_replicate]
          exact h.of_appended (.log d.store rs tables)
      | compact => exact h.of_compact
      | compactIfDue threshold =>
          simp only [Site.operate]
          have hcompact := h.of_compact
          unfold Desk.compactIfDue
          split
          · rcases hc : d.compact with ⟨e | u, d'⟩
            · rwa [hc] at hcompact
            · rwa [hc] at hcompact
          · exact h.of_appended (.refl d.store)
      | disturb f =>
          have hsame : d.store.Appended 0
              { d.store with journal.disk := f d.store.journal.disk } :=
            ⟨rfl, fun hzero => ⟨hzero, rfl⟩⟩
          exact h.of_appended hsame
      | close => trivial
      | reopen => exact h.of_appended (.refl d.store)

/-- **The count agrees with the answers after any run.** -/
theorem operateAll {site : Site} (h : Booked marks site) (name : String) (xs : List Operation) :
    Booked (marks ++ (site.operateAll name xs).1) (site.operateAll name xs).2 := by
  induction xs generalizing marks site with
  | nil =>
      rw [Site.operateAll, List.append_nil]
      exact h
  | cons x xs ih =>
      have hrest := ih (h.operate name x)
      rwa [List.append_assoc] at hrest

end Booked

/-- The number of records appended since the log was opened or compacted, if it is open. -/
def appends? : Site → Option Nat
  | .opened d => some d.store.appends
  | .closed _ => none

end Site

namespace Accounts

open Log (Call Done Writer fates recent)

/-- **The counter of a log is exact.**  Whatever calls are made on a log that was opened on any
disk, in whatever order, and whatever becomes of the disk and of the bytes in the buffer in between:
since the last swap that succeeded, each append that succeeded was counted, but for those that a
rollback has dropped; what waits to be confirmed is what is open; and this is never more than what
was counted, so a rollback takes off exactly what is open.  And whatever is asked of a durable
store: between two operations the number is that of the quotas entered and writes made since the log
was last opened or a compaction succeeded. -/
theorem appends_accounted :
    (∀ (disk d d' : Disk) (name : String) (w w' : Writer) (cs : List Call) (xs : List Done),
      Writer.ofFile disk name = .ok (w, d) → w.callAll d cs = (xs, w', d') →
        w'.appends + (fates (recent xs)).count (some .dropped) =
          (recent xs).countP Done.accepted ∧
        w'.pendingAppends = (fates (recent xs)).count none ∧
        w'.pendingAppends ≤ w'.appends ∧
        ∀ x, (w'.rollback x).2.1.appends + w'.pendingAppends = w'.appends) ∧
    ∀ (disk : Disk) (name : String) (ops : List Operation) (n : Nat),
      ((Site.closed disk).operateAll name ops).2.appends? = some n →
        n = total ((Site.closed disk).operateAll name ops).1 := by
  constructor
  · intro disk d d' name w w' cs xs hopen hrun
    have h := (Writer.Accounted.of_zero (Writer.counters_of_ofFile hopen)).callAll d cs
    rw [hrun, List.nil_append] at h
    refine ⟨?_, h.pending, h.pending_le, h.rollback_exact⟩
    rw [← Log.length_fates]
    exact h.appends
  · intro disk name ops n hn
    have hclosed : Site.Booked [] (.closed disk) := trivial
    have h := hclosed.operateAll name ops
    rw [List.nil_append] at h
    rcases hrun : (Site.closed disk).operateAll name ops with ⟨marks, d | disk'⟩
    · rw [hrun] at h hn
      exact (Option.some.inj hn).symm.trans h.2.2
    · rw [hrun] at hn
      cases hn

/-- The writer of a log that was made on an empty disk. -/
def fresh : Writer := .ofHandle ⟨"a.wal", 0⟩ 0

/-- Terms of a tour. -/
def tour : Terms := ⟨⟨2, 1⟩, "Süd", "tour", tourDay⟩

/-- One record is confirmed.  Another one is appended, but then no bytes can be written, so the
flush fails, and the rollback drops it; a third one still waits in the buffer. -/
def droppedAndOpen : List Call :=
  [.append (.created ⟨1⟩ tour ⟨⟨1⟩⟩), .flush, .append (.created ⟨2⟩ tour ⟨⟨2⟩⟩),
   .disturb fun (buffer, d) => (buffer, { d with writable := false }), .flush, .rollback,
   .append (.created ⟨3⟩ tour ⟨⟨3⟩⟩)]

/-- How these calls end, and what they leave. -/
def called : List Done × Writer × Disk :=
  fresh.callAll (Disk.blank.makeFile "a.wal").2 droppedAndOpen

/-- A quota is entered, and two clients claim what is left of it at the same time.  Then no bytes
can be written, so neither a claim nor a compaction succeeds, until they can again. -/
def operations : List Operation :=
  [.reopen, .visit (.ask (.create tour ⟨⟨1⟩, ⟨⟨1⟩⟩, 0⟩)), .compact,
   .insert ⟨2⟩ tour ⟨⟨2⟩⟩, .insert ⟨2⟩ tour ⟨⟨3⟩⟩,
   .visit (.together [(⟨⟨1⟩, 2, none⟩, ⟨⟨11⟩, ⟨⟨4⟩⟩, 0⟩), (⟨⟨1⟩, 1, none⟩, ⟨⟨12⟩, ⟨⟨5⟩⟩, 0⟩)]),
   .disturb fun d => { d with writable := false },
   .visit (.ask (.allocate ⟨⟨2⟩, 1, none⟩ ⟨⟨13⟩, ⟨⟨6⟩⟩, 0⟩)), .compactIfDue 1,
   .disturb fun d => { d with writable := true },
   .visit (.ask (.allocate ⟨⟨2⟩, 1, none⟩ ⟨⟨14⟩, ⟨⟨7⟩⟩, 0⟩))]

set_option maxRecDepth 100000 in
/-- Three appends succeeded, one of them was dropped, and one is open, which a rollback would take
off. Of what was asked of the store, one quota and two claims have succeeded since the compaction.
-/
theorem appends_accounted_dropped_and_open :
    Writer.ofFile .blank "a.wal" = .ok (fresh, (Disk.blank.makeFile "a.wal").2) ∧
      (recent called.1).countP Done.accepted = 3 ∧ called.2.1.appends = 2 ∧
      (∀ x, (called.2.1.rollback x).2.1.appends = 1) ∧
      ((Site.closed .blank).operateAll "a.wal" operations).2.appends? = some 3 ∧
      3 = total ((Site.closed .blank).operateAll "a.wal" operations).1 := by
  obtain ⟨hcalls, hoperations⟩ := appends_accounted
  have hfile : Writer.ofFile .blank "a.wal" = .ok (fresh, (Disk.blank.makeFile "a.wal").2) := rfl
  have hrun : fresh.callAll (Disk.blank.makeFile "a.wal").2 droppedAndOpen =
      (called.1, called.2.1, called.2.2) := rfl
  obtain ⟨hall, hpending, _, hexact⟩ := hcalls _ _ _ _ _ _ _ _ hfile hrun
  have haccepted : (recent called.1).countP Done.accepted = 3 := by decide +kernel
  have hdropped : (fates (recent called.1)).count (some .dropped) = 1 := by decide +kernel
  have hopen : (fates (recent called.1)).count none = 1 := by decide +kernel
  rw [haccepted, hdropped] at hall
  have happends : called.2.1.appends = 2 := Nat.succ.inj hall
  have hcount : ((Site.closed .blank).operateAll "a.wal" operations).2.appends? = some 3 := by
    decide +kernel
  refine ⟨hfile, haccepted, happends, fun x => ?_, hcount, hoperations _ _ _ _ hcount⟩
  have hx := hexact x
  rw [hpending, hopen, happends] at hx
  exact Nat.succ.inj hx

end Accounts

end Allotment
