/-
**What a store asks of its journal.**

A store touches its journal in one way only, by handing it batches of records.  So what every batch
leaves true of a journal stays true whatever is asked of the store; a journal that is as it was
after every batch it refuses gives stores in which a change that was refused has left no trace; and
if no batch is refused, it makes no difference what kind of journal there is.

A log at rest is such a journal.  It stays at rest, is as it was after a batch it refuses, and
refuses nothing as long as bytes can be written.

Main definitions:

* `Allotment.Journal.Lasting`, `Allotment.Journal.Firm` — what every batch leaves true, and journals
  that are as they were after a batch they refuse;
* `Allotment.LogFile.AtRest`, `Allotment.LogFile.Named` — logs on which nothing waits to be written;
* `Allotment.Store.Over` — a store without a rival, with something said about its journal.

Main results:

* `Allotment.LogFile.append_cases` — **a log at rest takes a batch as a whole or stays as it is**;
* `Allotment.Store.Over.insert`, `Allotment.Store.Over.commit`, `Allotment.Store.Over.commitGroup`,
  and the same for the calls of a desk — **what every batch leaves true stays true**;
* `Allotment.Store.insert_eq_of_error`, `Allotment.Store.commit_eq_of_error`, and the same for the
  calls of a desk — **a change that is refused leaves the store as it was**.
-/

import Allotment.Desk.Together
import Allotment.Proofs.Opening
import Allotment.Proofs.Store

set_option relaxedAutoImplicit false
set_option autoImplicit false

namespace Allotment

open Log (Bytes frames)
open Log.Writer (Settled)

/-! ### Logs at rest as journals -/

namespace LogFile

/-- **A log at rest takes a batch as a whole or stays as it is.** -/
theorem append_cases {l : LogFile} {bs : Bytes} (h : Settled l.writer l.disk bs)
    (rs : List Record) :
    (∃ e, Journal.append l rs = (.error e, l)) ∨
    (∃ l', Journal.append l rs = (.ok (), l') ∧
      Settled l'.writer l'.disk (bs ++ frames rs) ∧ l'.writer.name = l.writer.name ∧
      l'.disk.writable = l.disk.writable) := by
  simp only [Journal.append]
  rcases Log.Writer.appendBatch_cases h rs with ⟨e, he⟩ | hok
  · rw [he]
    exact Or.inl ⟨e, rfl⟩
  · rw [hok]
    exact Or.inr ⟨_, rfl, h.extended rs, rfl, Disk.writable_setEntry _ _ _⟩

/-- A log at rest that has taken a batch is at rest behind its records. -/
theorem settled_of_append {l l' : LogFile} {bs : Bytes} (h : Settled l.writer l.disk bs)
    {rs : List Record} (ha : Journal.append l rs = (.ok (), l')) :
    Settled l'.writer l'.disk (bs ++ frames rs) := by
  rcases append_cases h rs with ⟨e, he⟩ | ⟨l'', hok, h', _⟩
  · rw [he] at ha
    cases (Prod.mk.inj ha).1
  · rw [hok] at ha
    rw [← (Prod.mk.inj ha).2]
    exact h'

/-- If bytes can be written, a log at rest takes every batch. -/
theorem append_of_writable {l : LogFile} {bs : Bytes} (h : Settled l.writer l.disk bs)
    (hw : l.disk.writable = true) (rs : List Record) :
    ∃ l', Journal.append l rs = (.ok (), l') ∧ l'.disk.writable = true := by
  rcases append_cases h rs with ⟨e, he⟩ | ⟨l', hok, _, _, hw'⟩
  · have hall := Log.Writer.appendBatch_of_writable hw h.usable rs
    simp only [Journal.append] at he
    rw [(Prod.mk.inj he).1] at hall
    cases hall
  · exact ⟨l', hok, hw'.trans hw⟩

/-- A log on which nothing waits to be written. -/
def AtRest (l : LogFile) : Prop := ∃ bs, Settled l.writer l.disk bs

/-- A log on which nothing waits to be written, under its name. -/
def Named (name : String) (l : LogFile) : Prop := l.AtRest ∧ l.writer.name = name

end LogFile

/-! ### What batches leave true -/

namespace Journal

variable {ι : Type} [Journal ι]

/-- What every batch leaves true of a journal, whether or not it is taken. -/
def Lasting (P : ι → Prop) : Prop := ∀ j rs, P j → P (Journal.append j rs).2

/-- Journals that are as they were after a batch that they refuse. -/
def Firm (P : ι → Prop) : Prop :=
  ∀ j rs e j', P j → Journal.append j rs = (.error e, j') → j' = j

end Journal

theorem LogFile.lasting_atRest : Journal.Lasting LogFile.AtRest := by
  intro l rs ⟨bs, h⟩
  rcases LogFile.append_cases h rs with ⟨e, he⟩ | ⟨l', hok, h', _⟩
  · rw [he]
    exact ⟨bs, h⟩
  · rw [hok]
    exact ⟨_, h'⟩

theorem LogFile.lasting_named (name : String) : Journal.Lasting (LogFile.Named name) := by
  rintro l rs ⟨⟨bs, h⟩, hname⟩
  rcases LogFile.append_cases h rs with ⟨e, he⟩ | ⟨l', hok, h', hname', _⟩
  · rw [he]
    exact ⟨⟨bs, h⟩, hname⟩
  · rw [hok]
    exact ⟨⟨_, h'⟩, hname'.trans hname⟩

theorem LogFile.firm_atRest : Journal.Firm LogFile.AtRest := by
  intro l rs e l' ⟨bs, h⟩ ha
  rcases LogFile.append_cases h rs with ⟨e', he⟩ | ⟨l'', hok, _⟩
  · rw [he] at ha
    exact (Prod.mk.inj ha).2.symm
  · rw [hok] at ha
    cases (Prod.mk.inj ha).1

variable {ι : Type} [Journal ι]

/-! ### Stores over a journal -/

/-- A store without a rival, and something that is true of its journal. -/
structure Store.Over (P : ι → Prop) (s : Store ι) : Prop where
  /-- What is true of the journal. -/
  journal : P s.journal
  /-- No rival lies in wait. -/
  alone : s.rival = none

namespace Store.Over

variable {P : ι → Prop} {s : Store ι}

/-- A journal that was handed a batch, whether or not it has taken it. -/
theorem appended (hP : Journal.Lasting P) (h : Over P s) {rs : List Record}
    {outcome : Except Fault Unit} {j : ι} (ha : Journal.append s.journal rs = (outcome, j)) :
    P j := by
  have hj := hP s.journal rs h.journal
  rwa [ha] at hj

theorem log (hP : Journal.Lasting P) (h : Over P s) (rs : List Record) (tables : Tables) :
    Over P (s.log rs tables).2 := by
  unfold Store.log
  rcases ha : Journal.append s.journal rs with ⟨_ | _, j⟩
  · exact ⟨h.appended hP ha, h.alone⟩
  · exact ⟨h.appended hP ha, h.alone⟩

theorem insert (hP : Journal.Lasting P) (h : Over P s) (id : Ulid) (terms : Terms)
    (version : Version) : Over P (s.insert id terms version).2 := by
  rcases s.insert_cases id terms version with ⟨e, _, hi⟩ | ⟨e, j, _, ha, hi⟩ | ⟨j, _, ha, hi⟩
  · rw [hi]
    exact h
  · rw [hi]
    exact ⟨h.appended hP ha, h.alone⟩
  · rw [hi]
    exact ⟨h.appended hP ha, h.alone⟩

theorem commit (hP : Journal.Lasting P) (h : Over P s) (w : Write) (version : Version) :
    Over P (s.commit w version).2 := by
  rcases s.commit_cases w version with ⟨e, _, hi⟩ | ⟨q, e, j, _, ha, hi⟩ | ⟨q, j, _, ha, hi⟩
  · rw [hi]
    exact h
  · rw [hi]
    exact ⟨h.appended hP ha, h.alone⟩
  · rw [hi]
    exact ⟨h.appended hP ha, h.alone⟩

theorem answer (hP : Journal.Lasting P) (outcome : Except Failure Unit) (h : Over P s)
    (ts : List (Submission × Turn)) : Over P (s.answer outcome ts).2 := by
  induction ts generalizing s with
  | nil => exact h
  | cons t ts ih =>
      obtain ⟨w, _ | _ | _⟩ := t
      · exact ih h
      · exact ih h
      · exact ih (h.commit hP w.write w.version)

/-- Writes that are made at the same time. -/
theorem commitGroup (hP : Journal.Lasting P) (h : Over P s) (ws : List Submission) :
    Over P (s.commitGroup ws).2 := by
  have hb : Over P (s.commitBatch (batch (s.turns [] ws))).2 := by
    unfold Store.commitBatch
    split
    · exact h
    · exact h.log hP _ _
  exact hb.answer hP _ _

theorem carryOut (hP : Journal.Lasting P) (h : Over P s) (decision : Except Refusal Write)
    (version : Version) : Over P (Desk.carryOut s decision version).2 := by
  cases decision with
  | error e => exact h
  | ok w =>
      rw [Desk.carryOut_ok_snd]
      exact h.commit hP w version

end Store.Over

/-! ### The calls of a desk -/

/-- Without a rival, deciding about a claim leaves the store as it is. -/
theorem Desk.prepare_snd {s : Store ι} (hr : s.rival = none) (c : Claim) (stamp : Stamp) :
    (prepare s c stamp).2 = s := by
  unfold prepare
  cases c.check with
  | error e => rfl
  | ok u => simp only [Store.load_of_no_rival hr]

/-- Without a rival, deciding about claims leaves the store as it is. -/
theorem Desk.prepareAll_snd {s : Store ι} (hr : s.rival = none) (cs : List (Claim × Stamp)) :
    (prepareAll s cs).2 = s := by
  induction cs with
  | nil => rfl
  | cons c cs ih => simp only [prepareAll, prepare_snd hr, ih]

namespace Store.Over

variable {P : ι → Prop} {d : Desk ι}

theorem create (hP : Journal.Lasting P) (h : Over P d.store) (terms : Terms) (stamp : Stamp) :
    Over P (d.create terms stamp).2.store := by
  rcases d.create_cases terms stamp with ⟨e, he⟩ | ⟨e, _, he⟩ | ⟨q, _, he⟩
  · rw [he]
    exact h
  · rw [he]
    exact h.insert hP _ _ _
  · rw [he]
    exact h.insert hP _ _ _

theorem revise (hP : Journal.Lasting P) (h : Over P d.store) (r : Revision) (stamp : Stamp) :
    Over P (d.revise r stamp).2.store := by
  change Over P (Desk.reviseIn d.store r stamp).2
  rcases Desk.reviseIn_cases h.alone r stamp with he | ⟨q, _, he⟩
  · rw [he]
    exact h
  · rw [he]
    exact h.carryOut hP _ _

theorem allocate (hP : Journal.Lasting P) (h : Over P d.store) (c : Claim) (stamp : Stamp) :
    Over P (d.allocate c stamp).2.store := by
  change Over P (Desk.allocateIn d.store c stamp).2
  rcases Desk.allocateIn_cases h.alone c stamp with he | ⟨q, _, he⟩
  · rw [he]
    exact h
  · rw [he]
    exact h.carryOut hP _ _

theorem allocateTogether (hP : Journal.Lasting P) (h : Over P d.store)
    (cs : List (Claim × Stamp)) : Over P (d.allocateTogether cs).2.store := by
  change Over P ((Desk.prepareAll d.store cs).2.commitGroup _).2
  rw [Desk.prepareAll_snd h.alone]
  exact h.commitGroup hP _

end Store.Over

/-- A compaction leaves the log at rest and keeps its name. -/
theorem Store.Over.compact_named {name : String} {d : Desk LogFile}
    (h : d.store.Over (LogFile.Named name)) : d.compact.2.store.Over (LogFile.Named name) := by
  obtain ⟨⟨bs, hrest⟩, hname⟩ := h.journal
  rw [Desk.store_compact]
  rcases Store.compact_cases hrest with
    ⟨_, e, d', he, hother⟩ | ⟨_, w', d', he, hrest', hname', _⟩
  · rw [he]
    -- the log itself was not touched
    have hsame := hother _ (Ne.symm (Log.Writer.temporaryName_ne _))
    exact ⟨⟨⟨bs, hrest.of_entry?_eq hsame⟩, hname⟩, h.alone⟩
  · rw [he]
    exact ⟨⟨⟨_, hrest'⟩, hname'.trans hname⟩, h.alone⟩

/-! ### Changes that are refused -/

section Refused

variable {P : ι → Prop} {s : Store ι} {d : Desk ι}

theorem Store.insert_eq_of_error (hF : Journal.Firm P) (h : Over P s) {id : Ulid} {terms : Terms}
    {version : Version} {e : Failure} (he : (s.insert id terms version).1 = .error e) :
    (s.insert id terms version).2 = s := by
  rcases s.insert_cases id terms version with ⟨e', _, hi⟩ | ⟨e', j, _, ha, hi⟩ | ⟨j, _, _, hi⟩
  · rw [hi]
  · rw [hi, hF _ _ _ _ h.journal ha]
  · rw [hi] at he
    cases he

theorem Store.commit_eq_of_error (hF : Journal.Firm P) (h : Over P s) {w : Write}
    {version : Version} {e : Failure} (he : (s.commit w version).1 = .error e) :
    (s.commit w version).2 = s := by
  rcases s.commit_cases w version with ⟨e', _, hi⟩ | ⟨q, e', j, _, ha, hi⟩ | ⟨q, j, _, _, hi⟩
  · rw [hi]
  · rw [hi, hF _ _ _ _ h.journal ha]
  · rw [hi] at he
    cases he

theorem Desk.carryOut_eq_of_error (hF : Journal.Firm P) (h : s.Over P)
    {decision : Except Refusal Write} {version : Version} {e : Refusal}
    (he : (carryOut s decision version).1 = .error e) : (carryOut s decision version).2 = s := by
  cases decision with
  | error e => rfl
  | ok w =>
      rcases carryOut_ok_cases s w version with ⟨e', hc, hcarry⟩ | ⟨q, _, hcarry⟩
      · rw [hcarry]
        exact Store.commit_eq_of_error hF h hc
      · rw [hcarry] at he
        cases he

theorem Desk.create_eq_of_error (hF : Journal.Firm P) (h : d.store.Over P) {terms : Terms}
    {stamp : Stamp} {e : Refusal} (he : (d.create terms stamp).1 = .error e) :
    (d.create terms stamp).2.store = d.store := by
  rcases d.create_cases terms stamp with ⟨e', hcreate⟩ | ⟨e', hi, hcreate⟩ | ⟨q, _, hcreate⟩
  · rw [hcreate]
  · rw [hcreate]
    exact Store.insert_eq_of_error hF h hi
  · rw [hcreate] at he
    cases he

theorem Desk.revise_eq_of_error (hF : Journal.Firm P) (h : d.store.Over P) {r : Revision}
    {stamp : Stamp} {e : Refusal} (he : (d.revise r stamp).1 = .error e) :
    (d.revise r stamp).2.store = d.store := by
  change (reviseIn d.store r stamp).1 = .error e at he
  change (reviseIn d.store r stamp).2 = d.store
  unfold reviseIn at he ⊢
  cases hc : r.terms.check with
  | error e => rfl
  | ok u =>
      simp only [hc, Store.load_of_no_rival h.alone] at he ⊢
      exact carryOut_eq_of_error hF h he

theorem Desk.allocate_eq_of_error (hF : Journal.Firm P) (h : d.store.Over P) {c : Claim}
    {stamp : Stamp} {e : Refusal} (he : (d.allocate c stamp).1 = .error e) :
    (d.allocate c stamp).2.store = d.store := by
  change (allocateIn d.store c stamp).1 = .error e at he
  change (allocateIn d.store c stamp).2 = d.store
  have hread := prepare_snd h.alone c stamp
  unfold allocateIn at he ⊢
  rcases hp : prepare d.store c stamp with ⟨decision, s⟩
  rw [hp] at hread
  obtain rfl : s = d.store := hread
  simp only [hp] at he ⊢
  rcases hc : carryOut d.store decision stamp.version with ⟨e' | q, s'⟩
  · have hsame := carryOut_eq_of_error hF h (congrArg Prod.fst hc)
    rw [hc] at hsame
    exact hsame
  · rw [hc] at he
    cases he

/-- If all writes of a group are refused, no batch has been taken and the store is as it was. -/
theorem Store.answer_eq_of_error (hF : Journal.Firm P) (h : s.Over P)
    {outcome : Except Failure Unit} {ts : List (Submission × Turn)}
    (hall : ∀ r ∈ (s.answer outcome ts).1, ∃ e, r = .error e) :
    (s.answer outcome ts).2 = s ∧ (outcome = .ok () → batch ts = []) := by
  induction ts with
  | nil => exact ⟨rfl, fun _ => rfl⟩
  | cons t ts ih =>
      obtain ⟨w, e | q | _⟩ := t
      · exact ih fun r hr => hall r (List.mem_cons_of_mem _ hr)
      · obtain ⟨hsame, _⟩ := ih fun r hr => hall r (List.mem_cons_of_mem _ hr)
        refine ⟨hsame, ?_⟩
        rintro rfl
        obtain ⟨e, he⟩ := hall _ List.mem_cons_self
        cases he
      · obtain ⟨e, he⟩ := hall _ List.mem_cons_self
        have hsame := Store.commit_eq_of_error hF h he
        simp only [Store.answer, hsame] at hall ⊢
        exact ih fun r hr => hall r (List.mem_cons_of_mem _ hr)

/-- **A group of writes that are all refused leaves the store as it was.** -/
theorem Store.commitGroup_eq_of_error (hP : Journal.Lasting P) (hF : Journal.Firm P)
    (h : s.Over P) {ws : List Submission}
    (hall : ∀ r ∈ (s.commitGroup ws).1, ∃ e, r = .error e) : (s.commitGroup ws).2 = s := by
  unfold Store.commitGroup Store.commitBatch at hall ⊢
  cases hb : batch (s.turns [] ws) with
  | nil =>
      simp only [hb, List.isEmpty_nil, if_true] at hall ⊢
      exact (Store.answer_eq_of_error hF h hall).1
  | cons first rest =>
      have hlasts := hP s.journal ((first :: rest).map (·.1.record)) h.journal
      simp only [hb, List.isEmpty_cons, Bool.false_eq_true, if_false, Store.log] at hall ⊢
      rcases ha : Journal.append s.journal ((first :: rest).map (·.1.record)) with ⟨e | u, j⟩
      · obtain rfl := hF _ _ _ _ h.journal ha
        simp only [ha] at hall ⊢
        exact (Store.answer_eq_of_error hF h hall).1
      · -- a batch that was taken has granted the writes that are in it
        simp only [ha] at hall hlasts
        have hover : Store.Over P
            { s with journal := j, tables := s.tables.commitAll (first :: rest) } :=
          ⟨hlasts, h.alone⟩
        have hempty := (Store.answer_eq_of_error hF hover hall).2 rfl
        rw [hb] at hempty
        cases hempty

omit [Journal ι] in
/-- If all claims are refused, so are all writes that came of them. -/
theorem Desk.error_of_answers {ds : List Desk.Decided} {results : List (Except Failure Quota)}
    (hlen : results.length = (Desk.submissions ds).length)
    (hall : ∀ r ∈ Desk.answers ds results, ∃ e, r = .error e) :
    ∀ r ∈ results, ∃ e, r = .error e := by
  fun_induction Desk.answers ds results with
  | case1 results =>
      rw [List.length_eq_zero_iff.1 hlen]
      intro r hr
      exact absurd hr List.not_mem_nil
  | case2 c stamp e ds results ih =>
      exact ih hlen fun r hr => hall r (List.mem_cons_of_mem _ hr)
  | case3 =>
      intro r hr
      exact absurd hr List.not_mem_nil
  | case4 c stamp w ds e results ih =>
      have hrest := ih (Nat.succ.inj hlen) fun r hr => hall r (List.mem_cons_of_mem _ hr)
      exact List.forall_mem_cons.2 ⟨⟨e, rfl⟩, hrest⟩
  | case5 c stamp w ds q results ih =>
      obtain ⟨e, he⟩ := hall _ List.mem_cons_self
      cases he

/-- **Claims made at the same time that are all refused leave the store as it was.** -/
theorem Desk.allocateTogether_eq_of_error (hP : Journal.Lasting P) (hF : Journal.Firm P)
    (h : d.store.Over P) {cs : List (Claim × Stamp)}
    (hall : ∀ r ∈ (d.allocateTogether cs).1, ∃ e, r = .error e) :
    (d.allocateTogether cs).2.store = d.store := by
  have hsnd := prepareAll_snd h.alone cs
  unfold allocateTogether at hall ⊢
  rcases hp : prepareAll d.store cs with ⟨ds, s⟩
  rw [hp] at hsnd
  obtain rfl : s = d.store := hsnd
  simp only [hp] at hall ⊢
  exact Store.commitGroup_eq_of_error hP hF h
    (error_of_answers (Store.length_commitGroup _ _) hall)

end Refused

end Allotment
