/-
**What a store takes.**

Whatever is asked of a store ends in the same way: its journal has taken some records, batch by
batch, and its tables are what these records make of them.  Every one of these records may be
committed when its turn comes.  For claims that are dealt with at the same time this is not plain: a
write that waits was decided on tables that have changed since.  But it still expects the version
that was read, and if its quota still has this version, it is as it was read.

Main definitions:

* `Allotment.Journal.Took` — a journal that has taken records, batch by batch;
* `Allotment.Store.Took` — a store that has taken records;
* `Allotment.Tables.Admits` — a write that may be made if it is in time.

Main results:

* `Allotment.Tables.Admits.since` — a write that was decided on earlier tables may still be made;
* `Allotment.Store.insert_took`, `Allotment.Store.commit_took`, `Allotment.Store.commitGroup_took` —
  **what the operations of a store take**.
-/

import Allotment.Proofs.Tables.Lawful
import Allotment.Proofs.Storable

set_option relaxedAutoImplicit false
set_option autoImplicit false

namespace Allotment

open Tables (Since)

/-! ### Journals and stores that have taken records -/

section Took

variable {ι : Type} [Journal ι]

/-- **A journal that has taken records**, batch by batch.  Between these batches there may be others
that it has refused. -/
inductive Journal.Took : ι → List Record → ι → Prop where
  | refl (j : ι) : Took j [] j
  | refused {j j₁ j' : ι} {batch rs : List Record} {e : Fault} (some : batch ≠ [])
      (append : Journal.append j batch = (.error e, j₁)) (rest : Took j₁ rs j') : Took j rs j'
  | taken {j j₁ j' : ι} {batch rs : List Record} (some : batch ≠ [])
      (append : Journal.append j batch = (.ok (), j₁)) (rest : Took j₁ rs j') :
      Took j (batch ++ rs) j'

theorem Journal.Took.trans {j j' j'' : ι} {rs rs' : List Record} (h : Took j rs j')
    (h' : Took j' rs' j'') : Took j (rs ++ rs') j'' := by
  induction h with
  | refl j => exact h'
  | refused some append _ ih => exact .refused some append (ih h')
  | taken some append _ ih =>
      rw [List.append_assoc]
      exact .taken some append (ih h')

namespace Store

/-- **A store that has taken records**: its journal has, they are what has changed the tables, and
each might be committed when its turn came. -/
structure Took (s : Store ι) (rs : List Record) (s' : Store ι) : Prop where
  /-- The journal has taken them. -/
  journal : Journal.Took s.journal rs s'.journal
  /-- The tables are what they make of them. -/
  tables : s'.tables = rs.foldl Tables.replayRecord s.tables
  /-- Each might be committed. -/
  lawful : s.tables.Lawful rs
  /-- No rival has come or gone. -/
  rival : s'.rival = s.rival

namespace Took

variable {s s' s'' : Store ι} {rs rs' : List Record}

theorem refl (s : Store ι) : Took s [] s := ⟨.refl _, rfl, trivial, rfl⟩

theorem trans (h : Took s rs s') (h' : Took s' rs' s'') : Took s (rs ++ rs') s'' where
  journal := h.journal.trans h'.journal
  tables := by rw [h'.tables, h.tables, List.foldl_append]
  lawful := h.lawful.append (h.tables ▸ h'.lawful)
  rival := h'.rival.trans h.rival

theorem since (h : Took s rs s') : Since s.tables s'.tables rs := h.tables ▸ h.lawful.since

/-- A batch that the journal refuses. -/
theorem of_error {batch : List Record} (hne : batch ≠ []) {e : Fault} {j : ι}
    (ha : Journal.append s.journal batch = (.error e, j)) : Took s [] { s with journal := j } :=
  ⟨.refused hne ha (.refl j), rfl, trivial, rfl⟩

/-- A batch that the journal takes. -/
theorem of_ok {batch : List Record} (hne : batch ≠ []) {j : ι}
    (ha : Journal.append s.journal batch = (.ok (), j)) (hlawful : s.tables.Lawful batch)
    {tables : Tables} (ht : tables = batch.foldl Tables.replayRecord s.tables) :
    Took s batch { s with journal := j, tables } := by
  have hj := Journal.Took.taken hne ha (.refl j)
  rw [List.append_nil] at hj
  exact ⟨hj, ht, hlawful, rfl⟩

end Took

end Store

end Took

/-! ### Writes that were decided on earlier tables -/

namespace Tables

/-- Whether a write may be made if it is in time. -/
def Admits (t : Tables) (w : Write) : Prop :=
  ∀ s, t.standings[w.quota]? = some s → s.version = w.expected → w.Suits s

/-- **A write that was decided on earlier tables may still be made** if it is in time, as long as no
quota has been given the version that it expects. -/
theorem Admits.since {t t' : Tables} {rs : List Record} {w : Write} (h : t.Admits w)
    (hs : Since t t' rs) (hfresh : ∀ r ∈ rs, r.version ≠ w.expected) : t'.Admits w := by
  intro s hstands hv
  rcases hs.standings _ s hstands with ⟨hsame, _⟩ | ⟨r, hr, hv'⟩
  · exact h s hsame hv
  · exact absurd (hv'.symm.trans hv) (hfresh r hr)

/-- A write that was decided on a reading. -/
theorem admits_of_quota? {t : Tables} {id : Ulid} {q : Quota} (hq : t.quota? id = some q)
    {w : Write} (hw : w.Suits q.toStanding) (hquota : w.quota = id) : t.Admits w := by
  intro s hs _
  rw [hquota, (quota?_eq_some_iff.1 hq).1] at hs
  exact Option.some.inj hs ▸ hw

end Tables

variable {ι : Type} [Journal ι]

/-! ### The operations of a store -/

namespace Store

/-- Entering a quota takes its creation or nothing. -/
theorem insert_took (s : Store ι) (id : Ulid) {terms : Terms} (hl : terms.brokenLimit? = none)
    (version : Version) :
    ∃ rs, s.Took rs (s.insert id terms version).2 ∧ (∀ r ∈ rs, r = .created id terms version) ∧
      ∀ q, (s.insert id terms version).1 = .ok q → .created id terms version ∈ rs := by
  rcases s.insert_cases id terms version with ⟨e, _, he⟩ | ⟨e, j, _, ha, he⟩ | ⟨j, hc, ha, he⟩
  · rw [he]
    exact ⟨[], .refl s, by simp, by simp⟩
  · rw [he]
    exact ⟨[], .of_error (List.cons_ne_nil _ _) ha, by simp, by simp⟩
  · rw [he]
    have hlawful : s.tables.Lawful [.created id terms version] :=
      ⟨⟨not_mem_of_checkInsert hc, hl⟩, trivial⟩
    exact ⟨_, .of_ok (List.cons_ne_nil _ _) ha hlawful rfl, by simp, by simp⟩

/-- A conditional write takes its record if it is granted, and nothing otherwise. -/
theorem commit_took {s : Store ι} {w : Write} {version : Version} (hw : s.tables.Admits w)
    (hnew : ∀ i, (w.record version).grant? = some i → s.tables.ledger.find? i = none) :
    ∃ rs, s.Took rs (s.commit w version).2 ∧
      (∀ r ∈ rs, r = w.record version ∧ ∃ q, (s.commit w version).1 = .ok q) ∧
      ∀ q, (s.commit w version).1 = .ok q → w.record version ∈ rs := by
  rcases s.commit_cases w version with ⟨e, _, he⟩ | ⟨q, e, j, _, ha, he⟩ | ⟨q, j, hc, ha, he⟩
  · rw [he]
    exact ⟨[], .refl s, by simp, by simp⟩
  · rw [he]
    exact ⟨[], .of_error (List.cons_ne_nil _ _) ha, by simp, by simp⟩
  · rw [he]
    obtain ⟨hs, hv⟩ := checkWrite_eq_ok_iff.1 hc
    obtain ⟨hlegal, hreplay⟩ := Tables.legal_record hs (hw q hs hv) version hnew
    exact ⟨_, .of_ok (List.cons_ne_nil _ _) ha ⟨hlegal, trivial⟩ hreplay.symm, by simp, by simp⟩

/-- Carrying out a decision takes the record of its write if this is granted, and nothing
otherwise. -/
theorem carryOut_took (s : Store ι) (decision : Except Refusal Write) (version : Version)
    (hd : ∀ w, decision = .ok w → s.tables.Admits w ∧
      ∀ i, (w.record version).grant? = some i → s.tables.ledger.find? i = none) :
    ∃ rs, s.Took rs (Desk.carryOut s decision version).2 ∧
      (∀ r ∈ rs, (∃ w, decision = .ok w ∧ r = w.record version) ∧
        ∃ q, (Desk.carryOut s decision version).1 = .ok q) ∧
      ∀ q, (Desk.carryOut s decision version).1 = .ok q →
        ∃ w, decision = .ok w ∧ w.record version ∈ rs := by
  cases decision with
  | error e => exact ⟨[], .refl s, by simp, fun q hq => nomatch hq⟩
  | ok w =>
      obtain ⟨hw, hnew⟩ := hd w rfl
      obtain ⟨rs, htook, hrs, hok⟩ := commit_took hw hnew
      rcases Desk.carryOut_ok_cases s w version with ⟨e, hc, he⟩ | ⟨q, hc, he⟩
      · rw [he]
        refine ⟨rs, htook, ?_, fun q hq => nomatch hq⟩
        intro r hr
        obtain ⟨_, q, hq⟩ := hrs r hr
        rw [hc] at hq
        cases hq
      · rw [he]
        exact ⟨rs, htook, fun r hr => ⟨⟨w, rfl, (hrs r hr).1⟩, q, rfl⟩,
          fun _ _ => ⟨w, rfl, hok q hc⟩⟩

end Store

/-! ### Groups -/

/-- Two submissions that do not enter allocations under the same identifier. -/
def Submission.Apart (w w' : Submission) : Prop :=
  ∀ i, w.record.grant? = some i → w'.record.grant? ≠ some i

theorem Submission.Apart.symm {w w' : Submission} (h : w.Apart w') : w'.Apart w :=
  fun i hi' hi => h i hi hi'

/-- The submissions that wait for the batch. -/
def waiting (ts : List (Submission × Turn)) : List Submission :=
  ts.filterMap fun
    | (w, .waits) => some w
    | _ => none

namespace Store

omit [Journal ι] in
/-- No two writes of a batch are on the same quota. -/
theorem nodup_quotas_batch (s : Store ι) (taken : List Ulid) (ws : List Submission) :
    ((batch (s.turns taken ws)).map (·.1.write.quota)).Nodup ∧
      ∀ p ∈ batch (s.turns taken ws), p.1.write.quota ∉ taken := by
  induction ws generalizing taken with
  | nil => exact ⟨List.nodup_nil, fun p hp => nomatch hp⟩
  | cons w ws ih =>
      rw [turns]
      split
      · exact ih taken
      · next hnot =>
        split
        · exact ih taken
        · next q hq =>
          obtain ⟨hnodup, hfree⟩ := ih (w.write.quota :: taken)
          refine ⟨List.nodup_cons.2 ⟨?_, hnodup⟩, List.forall_mem_cons.2 ⟨hnot, ?_⟩⟩
          · intro hmem
            obtain ⟨p, hp, heq⟩ := List.mem_map.1 hmem
            exact hfree p hp (heq ▸ List.mem_cons_self)
          · intro p hp hin
            exact hfree p hp (List.mem_cons_of_mem _ hin)

end Store

theorem mem_batch {ts : List (Submission × Turn)} {p : Submission × Standing} :
    p ∈ batch ts ↔ (p.1, .joins p.2) ∈ ts := by
  rw [batch, List.mem_filterMap]
  constructor
  · rintro ⟨⟨w, _ | q | _⟩, ht, hp⟩
    · cases hp
    · cases hp
      exact ht
    · cases hp
  · intro h
    exact ⟨_, h, rfl⟩

theorem mem_waiting {ts : List (Submission × Turn)} {w : Submission} :
    w ∈ waiting ts ↔ (w, .waits) ∈ ts := by
  rw [waiting, List.mem_filterMap]
  constructor
  · rintro ⟨⟨w', _ | q | _⟩, ht, hw⟩
    · cases hw
    · cases hw
    · cases hw
      exact ht
  · intro h
    exact ⟨_, h, rfl⟩

/-- If the submissions of a group are apart, so are those in the batch and those that wait. -/
theorem apart_of_turns {ts : List (Submission × Turn)}
    (h : (ts.map (·.1)).Pairwise Submission.Apart) :
    ((batch ts).map (·.1)).Pairwise Submission.Apart ∧
      (waiting ts).Pairwise Submission.Apart ∧
      ∀ p ∈ batch ts, ∀ w ∈ waiting ts, p.1.Apart w := by
  induction ts with
  | nil => exact ⟨List.Pairwise.nil, List.Pairwise.nil, fun p hp => nomatch hp⟩
  | cons t ts ih =>
      obtain ⟨hhead, htail⟩ := List.pairwise_cons.1 h
      obtain ⟨hbatch, hwaiting, hboth⟩ := ih htail
      have hjoins : ∀ p ∈ batch ts, t.1.Apart p.1 := fun p hp =>
        hhead _ (List.mem_map.2 ⟨_, mem_batch.1 hp, rfl⟩)
      have hwaits : ∀ w ∈ waiting ts, t.1.Apart w := fun w hw =>
        hhead _ (List.mem_map.2 ⟨_, mem_waiting.1 hw, rfl⟩)
      obtain ⟨w, e | q | _⟩ := t
      · exact ⟨hbatch, hwaiting, hboth⟩
      · refine ⟨List.pairwise_cons.2 ⟨?_, hbatch⟩, hwaiting, List.forall_mem_cons.2 ⟨hwaits, hboth⟩⟩
        exact List.forall_mem_map.2 hjoins
      · exact ⟨hbatch, List.pairwise_cons.2 ⟨hwaits, hwaiting⟩,
          fun p hp => List.forall_mem_cons.2 ⟨(hjoins p hp).symm, hboth p hp⟩⟩

/-- What is needed of a write that is about to be made on a quota that stands as given. -/
structure Submission.Ready (t : Tables) (w : Submission) (s : Standing) : Prop where
  /-- The quota stands so. -/
  stands : t.standings[w.write.quota]? = some s
  /-- The write may be made. -/
  suits : w.write.Suits s
  /-- Its identifier is new. -/
  new : ∀ i, w.record.grant? = some i → t.ledger.find? i = none

/-- A write stays ready while one on another quota is made that is apart. -/
theorem Submission.Ready.after {t : Tables} {w w' : Submission} {s s' : Standing}
    (h : w.Ready t s) (h' : w'.Ready t s') (hquota : w'.write.quota ≠ w.write.quota)
    (hapart : w'.Apart w) : w.Ready (t.replayRecord w'.record) s := by
  obtain ⟨hlegal, hreplay⟩ := Tables.legal_record h'.stands h'.suits w'.version h'.new
  have hsince := Tables.Legal.since hlegal
  refine ⟨?_, h.suits, ?_⟩
  · change (t.replayRecord (w'.write.record w'.version)).standings[w.write.quota]? = some s
    rw [hreplay, Tables.standings_commit, if_neg hquota]
    exact h.stands
  · intro i hi
    cases hf : Ledger.find? (t.replayRecord w'.record).ledger i with
    | none => rfl
    | some a =>
        rcases hsince.entered i a hf with hold | ⟨r, hr, hgrant⟩
        · rw [h.new i hi] at hold
          cases hold
        · rw [List.mem_singleton.1 hr] at hgrant
          exact absurd hi (hapart i hgrant)

/-- The records of a batch may be committed one after the other, and they change the tables as the
batch does. -/
theorem lawful_batch {t : Tables} {b : List (Submission × Standing)}
    (hready : ∀ p ∈ b, p.1.Ready t p.2) (hquotas : (b.map (·.1.write.quota)).Nodup)
    (hapart : (b.map (·.1)).Pairwise Submission.Apart) :
    t.Lawful (b.map (·.1.record)) ∧
      t.commitAll b = (b.map (·.1.record)).foldl Tables.replayRecord t := by
  induction b generalizing t with
  | nil => exact ⟨trivial, rfl⟩
  | cons p b ih =>
      have hp := hready p List.mem_cons_self
      obtain ⟨hfirst, hrest⟩ := List.pairwise_cons.1 hapart
      obtain ⟨hnotin, hnodup⟩ := List.nodup_cons.1 hquotas
      obtain ⟨hlegal, hreplay⟩ := Tables.legal_record hp.stands hp.suits p.1.version hp.new
      have hnext : ∀ p' ∈ b, p'.1.Ready (t.replayRecord p.1.record) p'.2 := by
        intro p' hp'
        refine (hready p' (List.mem_cons_of_mem _ hp')).after hp ?_ ?_
        · intro heq
          exact hnotin (List.mem_map.2 ⟨p', hp', heq.symm⟩)
        · exact hfirst _ (List.mem_map.2 ⟨p', hp', rfl⟩)
      obtain ⟨hlawful, hall⟩ := ih hnext hnodup hrest
      refine ⟨⟨hlegal, hlawful⟩, ?_⟩
      rw [List.map_cons, List.foldl_cons, ← hall]
      exact congrArg (Tables.commitAll · b) hreplay.symm

namespace Store

/-- What is known when a group is answered: `done` was committed since the tables on which its
writes were decided, and no quota was or will be given a version that a write expects. -/
structure Awaited (t : Tables) (done : List Record) (s : Store ι) (ws : List Submission) :
    Prop where
  /-- What was committed. -/
  since : Since t s.tables done
  /-- Each write may be made if it is in time. -/
  admits : ∀ w ∈ ws, t.Admits w.write
  /-- No quota was given a version that one expects. -/
  done : ∀ w ∈ ws, ∀ r ∈ done, r.version ≠ w.write.expected
  /-- No quota will be given a version that one expects. -/
  fresh : ∀ w ∈ ws, ∀ w' ∈ ws, w'.version ≠ w.write.expected
  /-- Identifiers are new. -/
  new : ∀ w ∈ ws, ∀ i, w.record.grant? = some i → s.tables.ledger.find? i = none
  /-- No identifier comes twice. -/
  apart : ws.Pairwise Submission.Apart

/-- The first of the writes that are awaited is made, and the others are still awaited. -/
theorem Awaited.commit {t : Tables} {done : List Record} {s : Store ι} {w : Submission}
    {ws : List Submission} (h : Awaited t done s (w :: ws)) :
    ∃ rs, s.Took rs (s.commit w.write w.version).2 ∧
      (∀ r ∈ rs, r = w.record ∧ ∃ q, (s.commit w.write w.version).1 = .ok q) ∧
      (∀ q, (s.commit w.write w.version).1 = .ok q → w.record ∈ rs) ∧
      Awaited t (done ++ rs) (s.commit w.write w.version).2 ws := by
  obtain ⟨hfirst, hrest⟩ := List.pairwise_cons.1 h.apart
  have hself : w ∈ w :: ws := List.mem_cons_self
  have htail : ∀ {w'}, w' ∈ ws → w' ∈ w :: ws := List.mem_cons_of_mem _
  obtain ⟨rs, htook, hrs, hok⟩ := commit_took
    ((h.admits w hself).since h.since (h.done w hself)) (h.new w hself)
  refine ⟨rs, htook, hrs, hok, ?_⟩
  exact
    { since := h.since.trans htook.since
      admits := fun w' hw' => h.admits w' (htail hw')
      done := by
        intro w' hw' r hr
        rcases List.mem_append.1 hr with hr | hr
        · exact h.done w' (htail hw') r hr
        · rw [(hrs r hr).1, Write.version_record]
          exact h.fresh w' (htail hw') w hself
      fresh := fun w' hw' w'' hw'' => h.fresh w' (htail hw') w'' (htail hw'')
      new := by
        intro w' hw' i hi
        cases hf : Ledger.find? (s.commit w.write w.version).2.tables.ledger i with
        | none => rfl
        | some a =>
            rcases htook.since.entered i a hf with hold | ⟨r, hr, hgrant⟩
            · rw [h.new w' (htail hw') i hi] at hold
              cases hold
            · rw [(hrs r hr).1] at hgrant
              exact absurd hi (hfirst w' hw' i hgrant)
      apart := hrest }

/-- Answering a group takes the records of the writes that waited and are granted. -/
theorem answer_took {t : Tables} {done : List Record} {s : Store ι} {outcome : Except Failure Unit}
    {ts : List (Submission × Turn)} (h : Awaited t done s (waiting ts)) :
    ∃ rs, s.Took rs (s.answer outcome ts).2 ∧
      (∀ r ∈ rs, ∃ w q, r = w.record ∧
        ((w, .waits), Except.ok q) ∈ ts.zip (s.answer outcome ts).1) ∧
      ∀ w turn q, ((w, turn), Except.ok q) ∈ ts.zip (s.answer outcome ts).1 →
        (outcome = .ok () ∧ ∃ st, turn = .joins st) ∨ w.record ∈ rs := by
  induction ts generalizing s done with
  | nil => exact ⟨[], .refl s, by simp, by simp [answer]⟩
  | cons t' ts ih =>
      obtain ⟨w, e | st | _⟩ := t'
      · obtain ⟨rs, htook, hrs, hok⟩ := ih h
        refine ⟨rs, htook, fun r hr => ?_, ?_⟩
        · obtain ⟨w', q, heq, hin⟩ := hrs r hr
          exact ⟨w', q, heq, List.mem_cons_of_mem _ hin⟩
        intro w' turn q hmem
        rcases List.mem_cons.1 hmem with heq | hmem
        · cases heq
        · exact hok w' turn q hmem
      · obtain ⟨rs, htook, hrs, hok⟩ := ih h
        refine ⟨rs, htook, fun r hr => ?_, ?_⟩
        · obtain ⟨w', q, heq, hin⟩ := hrs r hr
          exact ⟨w', q, heq, List.mem_cons_of_mem _ hin⟩
        intro w' turn q hmem
        rcases List.mem_cons.1 hmem with heq | hmem
        · obtain ⟨hpair, hres⟩ := Prod.mk.inj heq
          obtain ⟨_, rfl⟩ := Prod.mk.inj hpair
          cases outcome with
          | error e => cases hres
          | ok u => exact Or.inl ⟨rfl, st, rfl⟩
        · exact hok w' turn q hmem
      · -- a write that waited is made like any other
        obtain ⟨rs₁, htook₁, hrs₁, hok₁, hnext⟩ := Awaited.commit h
        obtain ⟨rs₂, htook₂, hrs₂, hok₂⟩ := ih hnext
        refine ⟨rs₁ ++ rs₂, htook₁.trans htook₂, ?_, ?_⟩
        · intro r hr
          rcases List.mem_append.1 hr with hr | hr
          · obtain ⟨heq, q, hq⟩ := hrs₁ r hr
            exact ⟨w, q, heq, hq ▸ List.mem_cons_self⟩
          · obtain ⟨w', q, heq, hin⟩ := hrs₂ r hr
            exact ⟨w', q, heq, List.mem_cons_of_mem _ hin⟩
        · intro w' turn q hmem
          rcases List.mem_cons.1 hmem with heq | hmem
          · obtain ⟨hpair, hres⟩ := Prod.mk.inj heq
            obtain ⟨rfl, _⟩ := Prod.mk.inj hpair
            exact Or.inr (List.mem_append_left _ (hok₁ q hres.symm))
          · exact (hok₂ w' turn q hmem).imp_right (List.mem_append_right _)

/-- Writes made at the same time were decided on the present tables, no quota has a version that one
of them brings, and their identifiers are new. -/
structure Grouped (s : Store ι) (ws : List Submission) : Prop where
  /-- Each write may be made if it is in time. -/
  admits : ∀ w ∈ ws, s.tables.Admits w.write
  /-- No quota will be given a version that one expects. -/
  fresh : ∀ w ∈ ws, ∀ w' ∈ ws, w'.version ≠ w.write.expected
  /-- Identifiers are new. -/
  new : ∀ w ∈ ws, ∀ i, w.record.grant? = some i → s.tables.ledger.find? i = none
  /-- No identifier comes twice. -/
  apart : ws.Pairwise Submission.Apart

omit [Journal ι] in
/-- Every write of a group is in the batch, waits for it, or is refused. -/
theorem mem_of_turns (s : Store ι) (ws : List Submission) :
    (∀ p ∈ batch (s.turns [] ws), p.1 ∈ ws) ∧ ∀ w ∈ waiting (s.turns [] ws), w ∈ ws := by
  have hall := map_fst_turns s [] ws
  refine ⟨fun p hp => (checkWrite_of_mem_batch hp).1, ?_⟩
  intro w hw
  rw [← hall]
  exact List.mem_map.2 ⟨_, mem_waiting.1 hw, rfl⟩

omit [Journal ι] in
theorem Grouped.apart_turns {s : Store ι} {ws : List Submission} (h : Grouped s ws) :
    ((s.turns [] ws).map (·.1)).Pairwise Submission.Apart := by
  rw [map_fst_turns]
  exact h.apart

/-- Once a batch has been taken or refused, the writes that wait for it are awaited. -/
theorem Grouped.awaited {s s' : Store ι} {ws : List Submission} (h : Grouped s ws)
    {rs : List Record} (htook : s.Took rs s')
    (hrs : ∀ r ∈ rs, ∃ p ∈ batch (s.turns [] ws), r = p.1.record) :
    Awaited s.tables rs s' (waiting (s.turns [] ws)) := by
  obtain ⟨hjoins, hwaits⟩ := mem_of_turns s ws
  obtain ⟨_, hapart, hboth⟩ := apart_of_turns h.apart_turns
  exact
    { since := htook.since
      admits := fun w hw => h.admits w (hwaits w hw)
      done := by
        intro w hw r hr
        obtain ⟨p, hp, rfl⟩ := hrs r hr
        rw [Submission.record, Write.version_record]
        exact h.fresh w (hwaits w hw) p.1 (hjoins p hp)
      fresh := fun w hw w' hw' => h.fresh w (hwaits w hw) w' (hwaits w' hw')
      new := by
        intro w hw i hi
        cases hf : s'.tables.ledger.find? i with
        | none => rfl
        | some a =>
            rcases htook.since.entered i a hf with hold | ⟨r, hr, hgrant⟩
            · rw [h.new w (hwaits w hw) i hi] at hold
              cases hold
            · obtain ⟨p, hp, rfl⟩ := hrs r hr
              exact absurd hi (hboth p hp w hw i hgrant)
      apart := hapart }

/-- A batch takes all its records if the journal does, and nothing otherwise. -/
theorem commitBatch_took {s : Store ι} {ws : List Submission} (h : Grouped s ws) :
    ∃ rs, s.Took rs (s.commitBatch (batch (s.turns [] ws))).2 ∧
      (∀ r ∈ rs, (∃ p ∈ batch (s.turns [] ws), r = p.1.record) ∧
        (s.commitBatch (batch (s.turns [] ws))).1 = .ok ()) ∧
      ((s.commitBatch (batch (s.turns [] ws))).1 = .ok () →
        ∀ p ∈ batch (s.turns [] ws), p.1.record ∈ rs) := by
  have hready : ∀ p ∈ batch (s.turns [] ws), p.1.Ready s.tables p.2 := by
    intro p hp
    obtain ⟨hmem, hcheck⟩ := checkWrite_of_mem_batch hp
    obtain ⟨hs, hv⟩ := checkWrite_eq_ok_iff.1 hcheck
    exact ⟨hs, h.admits _ hmem _ hs hv, h.new _ hmem⟩
  obtain ⟨hapart, _⟩ := apart_of_turns h.apart_turns
  obtain ⟨hlawful, hall⟩ := lawful_batch hready (nodup_quotas_batch s [] ws).1 hapart
  unfold commitBatch
  cases hb : batch (s.turns [] ws) with
  | nil => exact ⟨[], .refl s, by simp, by simp⟩
  | cons first rest =>
      rw [hb] at hlawful hall
      have hne : (first :: rest).map (·.1.record) ≠ [] := List.cons_ne_nil _ _
      simp only [List.isEmpty_cons, Bool.false_eq_true, if_false, Store.log]
      rcases ha : Journal.append s.journal ((first :: rest).map (·.1.record)) with ⟨e | u, j⟩
      · simp only [ha]
        exact ⟨[], .of_error hne ha, by simp, by simp⟩
      · simp only [ha]
        refine ⟨_, .of_ok hne ha hlawful hall, ?_, fun _ p hp => List.mem_map.2 ⟨p, hp, rfl⟩⟩
        intro r hr
        obtain ⟨p, hp, heq⟩ := List.mem_map.1 hr
        exact ⟨⟨p, hp, heq.symm⟩, trivial⟩

/-- The writes of the batch are answered as the batch ended. -/
theorem joins_mem_answer {s : Store ι} {ts : List (Submission × Turn)} {w : Submission}
    {st : Standing} (h : (w, .joins st) ∈ ts) :
    ∃ q, ((w, Turn.joins st), Except.ok q) ∈ ts.zip (s.answer (.ok ()) ts).1 := by
  induction ts generalizing s with
  | nil => cases h
  | cons t ts ih =>
      rcases List.mem_cons.1 h with rfl | htail
      · exact ⟨_, List.mem_cons_self⟩
      · obtain ⟨w', e | st' | _⟩ := t
        · obtain ⟨q, hin⟩ := ih (s := s) htail
          exact ⟨q, List.mem_cons_of_mem _ hin⟩
        · obtain ⟨q, hin⟩ := ih (s := s) htail
          exact ⟨q, List.mem_cons_of_mem _ hin⟩
        · obtain ⟨q, hin⟩ := ih (s := (s.commit w'.write w'.version).2) htail
          exact ⟨q, List.mem_cons_of_mem _ hin⟩

/-- **Writes made at the same time take the records of those that are granted**, and no others. -/
theorem commitGroup_took {s : Store ι} {ws : List Submission} (h : Grouped s ws) :
    ∃ rs, s.Took rs (s.commitGroup ws).2 ∧
      (∀ r ∈ rs, ∃ w q, r = w.record ∧ (w, Except.ok q) ∈ ws.zip (s.commitGroup ws).1) ∧
      ∀ w q, (w, Except.ok q) ∈ ws.zip (s.commitGroup ws).1 → w.record ∈ rs := by
  obtain ⟨rs₁, htook₁, hrs₁, hall⟩ := commitBatch_took h
  have hawaited := h.awaited htook₁ fun r hr => (hrs₁ r hr).1
  rcases hc : s.commitBatch (batch (s.turns [] ws)) with ⟨outcome, s₁⟩
  rw [hc] at htook₁ hrs₁ hall hawaited
  have hgroup : s.commitGroup ws = s₁.answer outcome (s.turns [] ws) := by
    simp only [commitGroup, hc]
  rw [hgroup]
  obtain ⟨rs₂, htook₂, hrs₂, hok⟩ := answer_took hawaited
  -- the answer to a write stands in the place of its turn
  have hzip : ws.zip (s₁.answer outcome (s.turns [] ws)).1 =
      ((s.turns [] ws).zip (s₁.answer outcome (s.turns [] ws)).1).map (Prod.map (·.1) id) := by
    rw [← List.zip_map_left, map_fst_turns]
  rw [hzip]
  refine ⟨rs₁ ++ rs₂, htook₁.trans htook₂, ?_, ?_⟩
  · intro r hr
    rcases List.mem_append.1 hr with hr | hr
    · obtain ⟨⟨p, hp, heq⟩, rfl⟩ := hrs₁ r hr
      obtain ⟨q, hin⟩ := joins_mem_answer (s := s₁) (mem_batch.1 hp)
      exact ⟨p.1, q, heq, List.mem_map.2 ⟨_, hin, rfl⟩⟩
    · obtain ⟨w, q, heq, hin⟩ := hrs₂ r hr
      exact ⟨w, q, heq, List.mem_map.2 ⟨_, hin, rfl⟩⟩
  · intro w q hmem
    obtain ⟨⟨⟨w', turn⟩, res⟩, hin, heq⟩ := List.mem_map.1 hmem
    obtain ⟨rfl, rfl⟩ := Prod.mk.inj heq
    rcases hok _ _ _ hin with ⟨rfl, st, rfl⟩ | hmem'
    · exact List.mem_append_left _ (hall rfl _ (mem_batch (p := (_, st)).2 (List.of_mem_zip hin).1))
    · exact List.mem_append_right _ hmem'

end Store

end Allotment
