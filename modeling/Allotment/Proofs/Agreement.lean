/-
**A desk with a log answers like a desk without one.**

A store decides from its tables, and its journal is asked only whether a batch is taken.  So two
stores with the same tables whose journals take everything give the same answers and have the same
tables afterwards.  A log takes everything as long as bytes can be written; and compacting a log, or
closing a store and opening it again, changes nothing in the tables.  What a client of a desk with a
log is told is therefore what it would be told at a desk that keeps nothing, however often the log
is compacted and the desk is closed and opened between two of its requests.

Main definitions:

* `Allotment.Journal.Obliging` — journals that take every batch;
* `Allotment.Store.forget` — the same store with a journal that keeps nothing;
* `Allotment.Agreement.answers` — the answers to requests;
* `Allotment.Agreement.Step`, `Allotment.Agreement.attend` — the same for a desk with a log, with
  what happens to the log between requests.

Main results:

* `Allotment.Agreement.answer_forget` — **an answer does not depend on the journal**;
* `Allotment.Agreement.Faithful.attend_eq` — a desk with a log goes on answering like one without;
* `Allotment.Agreement.attend_eq_answers` — **from a new log on, the answers are the same**.
-/

import Allotment.Proofs.Durable

set_option relaxedAutoImplicit false
set_option autoImplicit false

namespace Allotment

/-! ### Journals that take everything -/

/-- Journals that take every batch. -/
def Journal.Obliging {ι : Type} [Journal ι] (P : ι → Prop) : Prop :=
  ∀ j rs, P j → (Journal.append j rs).1 = .ok ()

/-- A log at rest on a disk to which bytes can be written. -/
def LogFile.Free (l : LogFile) : Prop := l.AtRest ∧ l.disk.writable = true

theorem LogFile.obliging_free : Journal.Obliging LogFile.Free := by
  intro l rs ⟨⟨_, h⟩, hw⟩
  obtain ⟨l', hok, _⟩ := LogFile.append_of_writable h hw rs
  rw [hok]

theorem LogFile.lasting_free : Journal.Lasting LogFile.Free := by
  intro l rs ⟨⟨bs, h⟩, hw⟩
  obtain ⟨l', hok, hw'⟩ := LogFile.append_of_writable h hw rs
  rw [hok]
  exact ⟨⟨_, LogFile.settled_of_append h hok⟩, hw'⟩

/-! ### Forgetting the journal -/

namespace Store

variable {ι : Type} [Journal ι] {P : ι → Prop} {s : Store ι}

omit [Journal ι] in
/-- The same store with a journal that keeps nothing. -/
def forget (s : Store ι) : Store Volatile := s.mapJournal fun _ => .volatile

theorem log_forget (hO : Journal.Obliging P) (h : P s.journal) (rs : List Record)
    (tables : Tables) :
    s.forget.log rs tables = ((s.log rs tables).1, (s.log rs tables).2.forget) := by
  have htaken := hO s.journal rs h
  have hvolatile : s.forget.log rs tables = (.ok (), { s.forget with tables }) := rfl
  rw [hvolatile]
  unfold log
  rcases ha : Journal.append s.journal rs with ⟨result, j⟩
  rw [ha] at htaken
  obtain rfl : result = .ok () := htaken
  rfl

theorem insert_forget (hO : Journal.Obliging P) (h : P s.journal) (id : Ulid) (terms : Terms)
    (version : Version) :
    s.forget.insert id terms version =
      ((s.insert id terms version).1, (s.insert id terms version).2.forget) := by
  have hlog := log_forget hO h [.created id terms version] (s.tables.install id terms version)
  have hcheck : s.forget.checkInsert id = s.checkInsert id := rfl
  have htables : s.forget.tables = s.tables := rfl
  unfold insert
  rw [hcheck, htables]
  cases s.checkInsert id with
  | error e => rfl
  | ok u =>
      simp only [hlog]
      rcases s.log [.created id terms version] (s.tables.install id terms version) with ⟨_ | _, s'⟩
      · rfl
      · rfl

theorem commit_forget (hO : Journal.Obliging P) (h : P s.journal) (w : Write)
    (version : Version) :
    s.forget.commit w version = ((s.commit w version).1, (s.commit w version).2.forget) := by
  have hcheck : s.forget.checkWrite w = s.checkWrite w := rfl
  have htables : s.forget.tables = s.tables := rfl
  unfold commit
  rw [hcheck, htables]
  cases s.checkWrite w with
  | error e => rfl
  | ok q =>
      simp only [log_forget hO h]
      rcases s.log [w.record version] (s.tables.commit w.quota q (w.record version)) with
        ⟨_ | _, s'⟩
      · rfl
      · rfl

end Store

namespace Desk

variable {ι : Type} [Journal ι] {P : ι → Prop} {s : Store ι}

theorem carryOut_forget (hO : Journal.Obliging P) (h : P s.journal)
    (decision : Except Refusal Write) (version : Version) :
    carryOut s.forget decision version =
      ((carryOut s decision version).1, (carryOut s decision version).2.forget) := by
  cases decision with
  | error e => rfl
  | ok w =>
      simp only [carryOut, Store.commit_forget hO h]
      rcases s.commit w version with ⟨_ | _, s'⟩
      · rfl
      · rfl

theorem reviseIn_forget (hO : Journal.Obliging P) (h : s.Over P) (r : Revision) (stamp : Stamp) :
    reviseIn s.forget r stamp = ((reviseIn s r stamp).1, (reviseIn s r stamp).2.forget) := by
  have halone : s.forget.rival = none := h.alone
  have htables : s.forget.tables = s.tables := rfl
  unfold reviseIn
  cases r.terms.check with
  | error e => rfl
  | ok u =>
      simp only [Store.load_of_no_rival h.alone, Store.load_of_no_rival halone, htables,
        carryOut_forget hO h.journal]

theorem allocateIn_forget (hO : Journal.Obliging P) (h : s.Over P) (c : Claim) (stamp : Stamp) :
    allocateIn s.forget c stamp =
      ((allocateIn s c stamp).1, (allocateIn s c stamp).2.forget) := by
  have halone : s.forget.rival = none := h.alone
  have hprepare : prepare s.forget c stamp = ((prepare s c stamp).1, s.forget) := by
    unfold prepare
    cases c.check with
    | error e => rfl
    | ok u =>
        simp only [Store.load_of_no_rival h.alone, Store.load_of_no_rival halone]
        rfl
  unfold allocateIn
  rw [hprepare]
  rcases hp : prepare s c stamp with ⟨decision, s'⟩
  obtain rfl : s' = s := by
    have := prepare_snd h.alone c stamp
    rwa [hp] at this
  simp only [carryOut_forget hO h.journal]
  rcases carryOut s' decision stamp.version with ⟨_ | _, s''⟩
  · rfl
  · rfl

end Desk

/-! ### Requests and answers -/

namespace Agreement

variable {ι : Type} [Journal ι]

/-- Answers requests one after the other. -/
def answers (d : Desk ι) : List Request → List Answer
  | [] => []
  | q :: qs =>
    let (a, d) := answer d q
    a :: answers d qs

/-- **An answer does not depend on the journal**, if the journal takes everything. -/
theorem answer_forget {P : ι → Prop} (hO : Journal.Obliging P) {d : Desk ι} (h : d.store.Over P)
    {m : Desk Volatile} (hm : m.store = d.store.forget) (q : Request) :
    (answer m q).1 = (answer d q).1 ∧ (answer m q).2.store = (answer d q).2.store.forget := by
  obtain ⟨store, meter⟩ := m
  obtain rfl : store = d.store.forget := hm
  have halone : d.store.forget.rival = none := h.alone
  cases q with
  | create terms stamp =>
      simp only [answer, Desk.create, Store.insert_forget hO h.journal]
      cases terms.check with
      | error e => exact ⟨rfl, rfl⟩
      | ok u =>
          rcases d.store.insert stamp.id terms stamp.version with ⟨_ | _, s⟩
          · exact ⟨rfl, rfl⟩
          · exact ⟨rfl, rfl⟩
  | revise r stamp =>
      simp only [answer, Desk.revise, Desk.reviseIn_forget hO h]
      exact ⟨rfl, rfl⟩
  | allocate c stamp =>
      simp only [answer, Desk.allocate, Desk.allocateIn_forget hO h]
      exact ⟨rfl, rfl⟩
  | view quota =>
      simp only [answer, Desk.view_of_no_rival h.alone,
        Desk.view_of_no_rival (d := ⟨d.store.forget, meter⟩) halone]
      exact ⟨rfl, rfl⟩
  | list f =>
      simp only [answer, Desk.list_of_no_rival h.alone,
        Desk.list_of_no_rival (d := ⟨d.store.forget, meter⟩) halone]
      exact ⟨rfl, rfl⟩
  | _ => exact ⟨rfl, rfl⟩

/-! ### What does not depend on the tables -/

theorem ceiling_insert (s : Store ι) (id : Ulid) (terms : Terms) (version : Version) :
    (s.insert id terms version).2.ceiling = s.ceiling := by
  rcases s.insert_cases id terms version with ⟨e, _, he⟩ | ⟨e, j, _, _, he⟩ | ⟨j, _, _, he⟩
  · rw [he]
  · rw [he]
  · rw [he]

theorem ceiling_carryOut (s : Store ι) (decision : Except Refusal Write) (version : Version) :
    (Desk.carryOut s decision version).2.ceiling = s.ceiling := by
  cases decision with
  | error e => rfl
  | ok w =>
      rw [Desk.carryOut_ok_snd]
      rcases s.commit_cases w version with ⟨e, _, he⟩ | ⟨q, e, j, _, _, he⟩ | ⟨q, j, _, _, he⟩
      · simp only [he]
      · simp only [he]
      · simp only [he]

/-- Requests never change how many quotas a store holds at most. -/
theorem ceiling_answer {d : Desk ι} (h : d.store.rival = none) (q : Request) :
    (answer d q).2.store.ceiling = d.store.ceiling := by
  cases q using Request.changeCases with
  | create terms stamp =>
      change (d.create terms stamp).2.store.ceiling = d.store.ceiling
      rcases d.create_cases terms stamp with ⟨e, he⟩ | ⟨e, _, he⟩ | ⟨q, _, he⟩
      · rw [he]
      · rw [he]
        exact ceiling_insert d.store stamp.id terms stamp.version
      · rw [he]
        exact ceiling_insert d.store stamp.id terms stamp.version
  | revise r stamp =>
      change (Desk.reviseIn d.store r stamp).2.ceiling = d.store.ceiling
      rcases Desk.reviseIn_cases h r stamp with he | ⟨q, _, he⟩
      · rw [he]
      · rw [he, ceiling_carryOut]
  | allocate c stamp =>
      change (Desk.allocateIn d.store c stamp).2.ceiling = d.store.ceiling
      rcases Desk.allocateIn_cases h c stamp with he | ⟨q, _, he⟩
      · rw [he]
      · rw [he, ceiling_carryOut]
  | reads q hq => rw [store_answer_of_reads h hq]

/-! ### Desks with a log -/

/-- What can happen at a desk with a log. -/
inductive Step where
  /-- A client asks. -/
  | ask (q : Request)
  /-- The log is compacted. -/
  | compact
  /-- The log is compacted if enough records were appended. -/
  | compactIfDue (threshold : Nat)
  /-- The store is closed and opened again. -/
  | restart

/-- The answers that clients get, unless the store cannot be opened again. -/
def attend (d : Desk LogFile) : List Step → Except Fault (List Answer)
  | [] => .ok []
  | .ask q :: steps =>
    let (a, d) := answer d q
    (attend d steps).map (a :: ·)
  | .compact :: steps => attend d.compact.2 steps
  | .compactIfDue threshold :: steps => attend (d.compactIfDue threshold).2 steps
  | .restart :: steps =>
    match Store.ofLog d.store.close d.store.journal.writer.name with
    | .error e => .error e
    | .ok store => attend { d with store } steps

/-- The requests among some steps. -/
def requests (steps : List Step) : List Request :=
  steps.filterMap fun
    | .ask q => some q
    | _ => none

/-- The identifiers that requests bring for allocations. -/
def grants (qs : List Request) : List Ulid := (qs.flatMap (·.records)).filterMap (·.grant?)

/-- **What holds between two steps**, if `past` is what was brought so far. -/
structure Faithful (name : String) (past : List Record) (d : Desk LogFile) : Prop
    extends Desk.Kept name past d where
  /-- Bytes can be written. -/
  writable : d.store.journal.disk.writable = true
  /-- The store holds as many quotas as any other. -/
  ceiling : d.store.ceiling = Limit.quotasPerStore

namespace Faithful

variable {name : String} {past : List Record} {d : Desk LogFile}

/-- The log takes everything. -/
theorem free (h : Faithful name past d) : d.store.Over LogFile.Free := by
  obtain ⟨_, hrest, _⟩ := h.backed.log
  exact ⟨⟨⟨_, hrest⟩, h.writable⟩, h.alone⟩

/-- Every request leaves the log as it has to be. -/
theorem ask (h : Faithful name past d) {q : Request}
    (hgrants : ((past ++ q.records).filterMap (·.grant?)).Nodup) :
    Faithful name (past ++ q.records) (answer d q).2 where
  toKept := (h.toKept.undergo_new (e := .visit (.ask q)) (.ask hgrants)).1
  writable := (h.free.receive LogFile.lasting_free (.ask q)).journal.2
  ceiling := (ceiling_answer h.alone q).trans h.ceiling

/-- A compaction changes nothing but the log. -/
theorem compact (h : Faithful name past d) :
    Faithful name past d.compact.2 ∧ d.compact.2.store.forget = d.store.forget := by
  obtain ⟨_, hrest, _⟩ := h.backed.log
  obtain ⟨hbacked, htables, hrival⟩ := h.backed.compact h.sound
  have hsame : d.store.compact.2.forget = d.store.forget := by
    unfold Store.compact
    rcases d.store.journal.writer.compact d.store.journal.disk d.store.tables.snapshotRecords with
      ⟨_ | _, w, d'⟩ <;> rfl
  have hceiling : d.store.compact.2.ceiling = d.store.ceiling := congrArg (·.ceiling) hsame
  have hwritable := Store.writable_compact hrest
  rw [← Desk.store_compact] at hbacked htables hrival hsame hceiling hwritable
  exact ⟨⟨h.toKept.of_tables_eq hbacked htables (hrival.trans h.alone),
    hwritable.trans h.writable, hceiling.trans h.ceiling⟩, hsame⟩

theorem compactIfDue (h : Faithful name past d) (threshold : Nat) :
    Faithful name past (d.compactIfDue threshold).2 ∧
      (d.compactIfDue threshold).2.store.forget = d.store.forget := by
  exact Desk.compactIfDue_induction
    (fun d' => Faithful name past d' ∧ d'.store.forget = d.store.forget) ⟨h, rfl⟩ h.compact
    threshold

/-- The store can be closed and opened again, and is as before but for its log. -/
theorem restart (h : Faithful name past d) :
    ∃ s, Store.ofLog d.store.close d.store.journal.writer.name = .ok s ∧
      Faithful name past { d with store := s } ∧ s.forget = d.store.forget := by
  obtain ⟨_, hrest, _⟩ := h.backed.log
  obtain ⟨s, ho, htables, halone, hbacked⟩ := h.backed.reopen
  obtain ⟨_, hopened⟩ := Store.opened_of_ofLog ho
  have hceiling : s.ceiling = Limit.quotasPerStore := Store.ceiling_of_ofLog ho
  have hwritable : s.journal.disk.writable = true := by
    rw [hopened.writable, Store.close_eq hrest]
    exact h.writable
  rw [h.backed.named]
  refine ⟨s, ho, ⟨h.toKept.of_tables_eq hbacked htables halone, hwritable, hceiling⟩, ?_⟩
  -- what is left of a store without its journal is the tables, the rival and the ceiling
  rw [Store.forget, Store.forget, Store.mapJournal, Store.mapJournal, htables, halone,
    h.alone, hceiling, h.ceiling]

/-- **A desk with a log goes on answering like one without.** -/
theorem attend_eq {m : Desk Volatile} (h : Faithful name past d)
    (hm : m.store = d.store.forget) {steps : List Step}
    (hnodup : (past.filterMap (·.grant?) ++ grants (requests steps)).Nodup) :
    attend d steps = .ok (answers m (requests steps)) := by
  induction steps generalizing past d m with
  | nil => rfl
  | cons step steps ih =>
      cases step with
      | ask q =>
          have hsplit : grants (requests (.ask q :: steps)) =
              q.records.filterMap (·.grant?) ++ grants (requests steps) := by
            rw [requests, List.filterMap_cons, grants, List.flatMap_cons, List.filterMap_append]
            rfl
          rw [hsplit, ← List.append_assoc, ← List.filterMap_append] at hnodup
          have hnext := h.ask (List.nodup_append.1 hnodup).1
          obtain ⟨hanswer, hstore⟩ := answer_forget LogFile.obliging_free h.free hm q
          change (attend (answer d q).2 steps).map ((answer d q).1 :: ·) =
            .ok ((answer m q).1 :: answers (answer m q).2 (requests steps))
          rw [ih hnext hstore hnodup, hanswer]
          rfl
      | compact =>
          obtain ⟨hnext, hsame⟩ := h.compact
          exact ih hnext (hm.trans hsame.symm) hnodup
      | compactIfDue threshold =>
          obtain ⟨hnext, hsame⟩ := h.compactIfDue threshold
          exact ih hnext (hm.trans hsame.symm) hnodup
      | restart =>
          obtain ⟨s, ho, hnext, hsame⟩ := h.restart
          rw [attend, ho]
          exact ih hnext (hm.trans hsame.symm) hnodup

end Faithful

/-- **From a new log on, the answers are the same.**  A desk is opened on a log that is not there
yet, on a disk to which bytes can be written.  Clients make requests in any order; between any two
of them the log may be compacted, and the store may be closed and opened again.  If no two requests
bring the same identifier for an allocation, then every answer is the one that a desk without a log
gives. -/
theorem attend_eq_answers {d : Disk} {es : Entries} (hp : d.place = .directory es)
    {name : String} (habsent : d.entry? name = none) (hw : d.writable = true) :
    ∃ s, Store.ofLog d name = .ok s ∧
      ∀ steps, (grants (requests steps)).Nodup →
        attend ⟨s, .zero⟩ steps =
          .ok (answers ⟨.ofTables .empty Volatile.volatile, .zero⟩ (requests steps)) := by
  obtain ⟨s, ho, hs⟩ := Store.ofLog_of_absent hp habsent
  have htables : s.tables = .empty := hs.tables
  have hceiling := Store.ceiling_of_ofLog ho
  have hstart : Faithful name [] ⟨s, .zero⟩ :=
    ⟨.of_opened hs .zero, hs.writable.trans hw, hceiling⟩
  have hsame : Store.ofTables .empty Volatile.volatile = s.forget := by
    rw [Store.forget, Store.mapJournal, htables, hceiling, hs.alone]
    rfl
  refine ⟨s, ho, ?_⟩
  intro steps hnodup
  exact hstart.attend_eq hsame hnodup

/-- Five units of a product. -/
def fiveUnits : Terms := ⟨⟨5, 0⟩, "Süd", "tour", ⟨2026, 10, 3, by decide⟩⟩

/-- A quota of five units: three are granted, three more are not, and the log is compacted and
opened again in between. -/
def compactedBetween : List Step :=
  [.ask (.create fiveUnits ⟨⟨1⟩, ⟨⟨1⟩⟩, 0⟩),
   .ask (.allocate ⟨⟨1⟩, 3, none⟩ ⟨⟨2⟩, ⟨⟨2⟩⟩, 1⟩),
   .compact,
   .restart,
   .ask (.allocate ⟨⟨1⟩, 3, none⟩ ⟨⟨3⟩, ⟨⟨3⟩⟩, 2⟩),
   .compactIfDue 1,
   .ask (.allocation ⟨2⟩),
   .ask .count]

/-- What a client is told before and after the log was compacted and opened again. -/
theorem attend_eq_answers_compacted_between :
    Disk.blank.place = .directory ∅ ∧ Disk.blank.entry? "a.wal" = none ∧
      Disk.blank.writable = true ∧ (grants (requests compactedBetween)).Nodup ∧
      ∃ s, Store.ofLog .blank "a.wal" = .ok s ∧
        attend ⟨s, .zero⟩ compactedBetween =
          .ok [.quota (.ok { Standing.opening fiveUnits ⟨⟨1⟩⟩ with id := ⟨1⟩ }),
            .allocation (.ok ⟨⟨2⟩, ⟨1⟩, none, 3, 1⟩),
            .allocation (.error (.overbooked ⟨1⟩ 3 2)),
            .allocation (.ok ⟨⟨2⟩, ⟨1⟩, none, 3, 1⟩),
            .count 1] := by
  have habsent : Disk.blank.entry? "a.wal" = none := rfl
  have hnodup : (grants (requests compactedBetween)).Nodup := by decide
  obtain ⟨s, ho, hall⟩ := attend_eq_answers (d := .blank) rfl habsent rfl
  exact ⟨rfl, habsent, rfl, hnodup, s, ho, (hall compactedBetween hnodup).trans rfl⟩

end Agreement

end Allotment
