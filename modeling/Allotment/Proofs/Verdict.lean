/-
**What a client learns from the journal.**

A request for a change that passes every check is handed to the journal as one record, and from
there on the journal alone decides about it: what it takes is granted, and for what it refuses the
client is told that the storage has failed.  A request that does not pass never reaches the journal.
So a journal that refuses everything makes every such request fail, whether it comes alone or with
others, and one that takes everything makes none fail for want of storage.

Main definitions:

* `Allotment.Store.Passes` — requests that pass every check and would change something;
* `Allotment.Answer.refusal?`, `Allotment.Refusal.ofVerdict?` — why a request was refused,
  and what a client is told about a batch;
* `Allotment.Journal.Refusing` — journals that refuse every batch;
* `Allotment.Desk.Shut`, `Allotment.Desk.Serves` — desks at which every change, or none, fails for
  want of storage.

Main results:

* `Allotment.refusal?_answer`, `Allotment.store_answer_of_not_passes` — **a
  request that passes fares as its record does, any other leaves the store alone**;
* `Allotment.Desk.shut_of_refusing`, `Allotment.Desk.serves_of_obliging` — **a desk whose journal
  refuses every batch is shut, and one whose journal takes every batch serves**.
-/

import Allotment.Proofs.Agreement

set_option relaxedAutoImplicit false
set_option autoImplicit false

namespace Allotment

variable {ι : Type} [Journal ι]

/-! ### Requests that reach the journal -/

namespace Refusal

/-- Why a call was refused, if it was. -/
def ofResult? {α : Type} : Except Refusal α → Option Refusal
  | .error e => some e
  | .ok _ => none

/-- What a client is told about a batch, unless it is taken. -/
def ofVerdict? : Except Fault Unit → Option Refusal
  | .error e => some (.notStored e.text)
  | .ok () => none

end Refusal

/-- Why a request was refused, if it was. -/
def Answer.refusal? : Answer → Option Refusal
  | .quota result => Refusal.ofResult? result
  | .allocation result => Refusal.ofResult? result
  | .view result => Refusal.ofResult? result
  | .allocations result => Refusal.ofResult? result
  | .views _ | .findings _ | .count _ => none

omit [Journal ι] in
/-- **A request that passes every check** and would change something. -/
def Store.Passes (s : Store ι) : Request → Prop
  | .create terms stamp => terms.check = .ok () ∧ s.checkInsert stamp.id = .ok ()
  | .revise r _ => ∃ q w, s.tables.quota? r.quota = some q ∧ r.decideOn q = .ok w
  | .allocate c stamp => ∃ q w, s.tables.quota? c.quota = some q ∧ c.decideOn q stamp = .ok w
  | _ => False

namespace Desk

variable {s : Store ι}

/-- A write at the present version of its quota fares as its record does. -/
theorem ofResult?_carryOut {q : Quota} {w : Write} (hq : s.tables.quota? w.quota = some q)
    (hv : q.version = w.expected) (version : Version) :
    Refusal.ofResult? (carryOut s (.ok w) version).1 =
      Refusal.ofVerdict? (Journal.append s.journal [w.record version]).1 := by
  have hstands := (Tables.quota?_eq_some_iff.1 hq).1
  have hcheck := Store.checkWrite_eq_ok_iff.2 ⟨hstands, hv⟩
  rcases s.commit_cases w version with ⟨e, he, _⟩ | ⟨_, e, j, _, ha, hc⟩ | ⟨_, j, _, ha, hc⟩
  · rw [hcheck] at he
    cases he
  · simp only [carryOut, hc, ha]
    rfl
  · simp only [carryOut, hc, ha]
    rfl

/-- What is decided about a claim whose quota was read. -/
theorem prepare_of_quota? (hr : s.rival = none) {c : Claim} {q : Quota}
    (hq : s.tables.quota? c.quota = some q) (stamp : Stamp) :
    prepare s c stamp = (c.decideOn q stamp, s) := by
  unfold prepare Claim.decideOn
  cases c.check with
  | error e => rfl
  | ok u => simp only [Store.load_of_no_rival hr, hq]

/-- Claims with what is decided about each on the present tables. -/
def decided (s : Store ι) (cs : List (Claim × Stamp)) : List Decided :=
  cs.map fun p => ⟨p.1, p.2, (prepare s p.1 p.2).1⟩

/-- The answers to claims that are made at the same time. -/
theorem allocateTogether_fst {d : Desk ι} (hr : d.store.rival = none) (cs : List (Claim × Stamp)) :
    (d.allocateTogether cs).1 =
      answers (decided d.store cs) (d.store.commitGroup (submissions (decided d.store cs))).1 := by
  have hfst := prepareAll_fst hr cs
  have hsnd := prepareAll_snd hr cs
  unfold allocateTogether
  rcases hp : prepareAll d.store cs with ⟨ds, s'⟩
  rw [hp] at hfst hsnd
  obtain rfl : s' = d.store := hsnd
  obtain rfl : ds = decided d.store cs := hfst
  rfl

end Desk

section Requests

variable {d : Desk ι}

/-- **A request that passes every check fares as its record does.** -/
theorem refusal?_answer (hr : d.store.rival = none) {q : Request} (h : d.store.Passes q) :
    (answer d q).1.refusal? =
      Refusal.ofVerdict? (Journal.append d.store.journal (Visit.ask q).records).1 := by
  cases q with
  | create terms stamp =>
      obtain ⟨hterms, hinsert⟩ := h
      simp only [answer, Desk.create, hterms, Visit.records, Request.records]
      rcases d.store.insert_cases stamp.id terms stamp.version with
        ⟨e, he, _⟩ | ⟨e, j, _, ha, hc⟩ | ⟨j, _, ha, hc⟩
      · rw [hinsert] at he
        cases he
      · rw [hc, ha]
        rfl
      · rw [hc, ha]
        rfl
  | revise r stamp =>
      obtain ⟨q, w, hq, hd⟩ := h
      obtain ⟨rfl, hl, hv, _⟩ := Revision.decideOn_eq_ok hd
      have hterms : r.terms.check = .ok () := by rw [Terms.check, hl]
      have hdecide : r.decide? (some q) = .ok r.write := by rwa [Revision.decideOn, hterms] at hd
      simp only [answer, Desk.revise, Desk.reviseIn, hterms, Store.load_of_no_rival hr, hq, hdecide]
      exact Desk.ofResult?_carryOut (w := r.write) hq hv stamp.version
  | allocate c stamp =>
      obtain ⟨q, w, hq, hd⟩ := h
      obtain ⟨rfl, _⟩ := Claim.decideOn_eq_ok hd
      have hfate := Desk.ofResult?_carryOut (w := c.write q stamp) hq rfl stamp.version
      simp only [answer, Desk.allocate, Desk.allocateIn, Desk.prepare_of_quota? hr hq, hd]
      rcases hc : Desk.carryOut d.store (.ok (c.write q stamp)) stamp.version with ⟨e | q', s'⟩
      · rw [hc] at hfate
        exact hfate
      · rw [hc] at hfate
        exact hfate
  | _ => exact h.elim

/-- **A request that does not pass leaves the store alone**, and so never reaches the journal. -/
theorem store_answer_of_not_passes (hr : d.store.rival = none) {q : Request}
    (h : ¬ d.store.Passes q) : (answer d q).2.store = d.store := by
  cases q using Request.changeCases with
  | create terms stamp =>
      change (d.create terms stamp).2.store = d.store
      unfold Desk.create
      cases hterms : terms.check with
      | error e => rfl
      | ok u =>
          rcases d.store.insert_cases stamp.id terms stamp.version with
            ⟨e, _, hc⟩ | ⟨e, j, hinsert, _, _⟩ | ⟨j, hinsert, _, _⟩
          · simp only [hc]
          · exact absurd ⟨hterms, hinsert⟩ h
          · exact absurd ⟨hterms, hinsert⟩ h
  | revise r stamp =>
      change (Desk.reviseIn d.store r stamp).2 = d.store
      rcases Desk.reviseIn_cases hr r stamp with he | ⟨q, hq, he⟩
      · exact he
      · rw [he]
        cases hd : r.decideOn q with
        | error e => rfl
        | ok w => exact absurd ⟨q, w, hq, hd⟩ h
  | allocate c stamp =>
      change (Desk.allocateIn d.store c stamp).2 = d.store
      rcases Desk.allocateIn_cases hr c stamp with he | ⟨q, hq, he⟩
      · exact he
      · rw [he]
        cases hd : c.decideOn q stamp with
        | error e => rfl
        | ok w => exact absurd ⟨q, w, hq, hd⟩ h
  | reads q hq => exact store_answer_of_reads hr hq

end Requests

/-! ### Journals that refuse every batch -/

/-- Journals that refuse every batch, for one of the reasons `E`. -/
def Journal.Refusing (P : ι → Prop) (E : Fault → Prop) : Prop :=
  ∀ j rs, P j → rs ≠ [] → ∃ e j', E e ∧ Journal.append j rs = (.error e, j') ∧ P j'

namespace Store

variable {P : ι → Prop} {E : Fault → Prop} {s : Store ι}

/-- A write that is in time is refused by the journal. -/
theorem commit_of_refusing (hR : Journal.Refusing P E) (h : P s.journal) {w : Write} {q : Standing}
    (hq : s.checkWrite w = .ok q) (version : Version) :
    ∃ e j, E e ∧ s.commit w version = (.error (.notLogged e.text), { s with journal := j }) ∧
      P j := by
  obtain ⟨e, j, he, ha, hj⟩ := hR s.journal [w.record version] h (List.cons_ne_nil _ _)
  exact ⟨e, j, he, by simp only [commit, hq, log, ha], hj⟩

omit [Journal ι] in
/-- What is refused before the batch is not in time. -/
theorem checkWrite_of_refused {taken : List Ulid} {ws : List Submission} {w : Submission}
    {f : Failure} (h : (w, .refused f) ∈ s.turns taken ws) : s.checkWrite w.write = .error f := by
  induction ws generalizing taken with
  | nil => cases h
  | cons w' ws ih =>
      rw [turns] at h
      split at h
      · rcases List.mem_cons.1 h with heq | h
        · cases heq
        · exact ih h
      · split at h
        · next f' hf' =>
          rcases List.mem_cons.1 h with heq | h
          · cases heq
            exact hf'
          · exact ih h
        · rcases List.mem_cons.1 h with heq | h
          · cases heq
          · exact ih h

/-- Submissions in a batch that was refused are refused, and so are those that waited for it. -/
theorem answer_of_refusing (hR : Journal.Refusing P E) (h : P s.journal) {e : Fault} (he : E e)
    {ts : List (Submission × Turn)} (hall : ∀ t ∈ ts, ∃ q, s.checkWrite t.1.write = .ok q)
    (hin : ∀ t ∈ ts, ∀ f, t.2 ≠ .refused f) :
    ∀ result ∈ (s.answer (.error (.notLogged e.text)) ts).1,
      ∃ e, E e ∧ result = .error (.notLogged e.text) := by
  induction ts generalizing s with
  | nil => exact fun _ h => nomatch h
  | cons t ts ih =>
      have hall' := fun t' ht' => hall t' (List.mem_cons_of_mem t ht')
      have hin' := fun t' ht' => hin t' (List.mem_cons_of_mem t ht')
      intro result hresult
      obtain ⟨w, f | q | _⟩ := t
      · exact absurd rfl (hin _ List.mem_cons_self f)
      · rcases List.mem_cons.1 hresult with rfl | hresult
        · exact ⟨e, he, rfl⟩
        · exact ih h hall' hin' result hresult
      · obtain ⟨q, hq⟩ := hall _ List.mem_cons_self
        obtain ⟨e', j, he', hc, hj⟩ := commit_of_refusing hR h hq w.version
        rw [answer, hc] at hresult
        rcases List.mem_cons.1 hresult with rfl | hresult
        · exact ⟨e', he', rfl⟩
        · exact ih (s := { s with journal := j }) hj hall' hin' result hresult

/-- **A group of writes that are in time is refused as a whole.** -/
theorem commitGroup_of_refusing (hR : Journal.Refusing P E) (h : P s.journal)
    {ws : List Submission} (hall : ∀ w ∈ ws, ∃ q, s.checkWrite w.write = .ok q) :
    ∀ result ∈ (s.commitGroup ws).1, ∃ e, E e ∧ result = .error (.notLogged e.text) := by
  cases ws with
  | nil => exact fun _ h => nomatch h
  | cons w ws =>
      obtain ⟨q, hq⟩ := hall w List.mem_cons_self
      have hchecked : ∀ t ∈ s.turns [] (w :: ws), ∃ q, s.checkWrite t.1.write = .ok q := by
        intro t ht
        have hmem := List.mem_map_of_mem (f := (·.1)) ht
        rw [map_fst_turns] at hmem
        exact hall _ hmem
      have hin : ∀ t ∈ s.turns [] (w :: ws), ∀ f, t.2 ≠ .refused f := by
        rintro ⟨w', turn⟩ ht f rfl
        obtain ⟨q', hq'⟩ := hchecked _ ht
        rw [checkWrite_of_refused ht] at hq'
        cases hq'
      -- the first submission is in the batch, so that the batch reaches the journal
      have hfirst : ∃ ts, s.turns [] (w :: ws) = (w, .joins q) :: ts := by
        rw [turns]
        simp only [List.not_mem_nil, if_false, hq]
        exact ⟨_, rfl⟩
      obtain ⟨ts, hts⟩ := hfirst
      rw [hts] at hchecked hin
      obtain ⟨e, j, he, ha, hj⟩ := hR s.journal ((batch ((w, .joins q) :: ts)).map (·.1.record)) h
        (List.cons_ne_nil _ _)
      have hbatch : s.commitBatch (batch ((w, .joins q) :: ts)) =
          (.error (.notLogged e.text), { s with journal := j }) := by
        simp only [commitBatch, batch, List.filterMap_cons, List.isEmpty_cons, Bool.false_eq_true,
          if_false, log] at ha ⊢
        rw [ha]
      rw [commitGroup, hts]
      simp only [hbatch]
      exact answer_of_refusing hR (s := { s with journal := j }) hj he hchecked hin

end Store

namespace Desk

variable {P : ι → Prop} {E : Fault → Prop} {d : Desk ι}

/-- **A desk at which every change fails for want of storage**, for one of the reasons `E`: a
request that passes every check, and a claim that passes when it comes alone, in any company. -/
structure Shut (d : Desk ι) (E : Fault → Prop) : Prop where
  /-- A request that passes is refused. -/
  ask : ∀ q, d.store.Passes q →
    ∃ e, E e ∧ (answer d q).1.refusal? = some (.notStored e.text)
  /-- A claim that passes is refused among others. -/
  together : ∀ (cs : List (Claim × Stamp)) (i : Nat) (c : Claim) (stamp : Stamp),
    cs[i]? = some (c, stamp) → d.store.Passes (.allocate c stamp) →
      ∃ e, E e ∧ (d.allocateTogether cs).1[i]? = some (.error (.notStored e.text))

omit [Journal ι] in
/-- What a claim that led to a write is told if all writes were refused. -/
theorem answers_of_refused {ds : List Decided} {results : List (Except Failure Quota)}
    (hlength : results.length = (submissions ds).length)
    (hall : ∀ result ∈ results, ∃ e, E e ∧ result = .error (.notLogged e.text)) {i : Nat}
    {x : Decided} (hi : ds[i]? = some x) {w : Write} (hw : x.decision = .ok w) :
    ∃ e, E e ∧ (answers ds results)[i]? = some (.error (.notStored e.text)) := by
  induction ds generalizing results i with
  | nil => cases hi
  | cons y ds ih =>
      obtain ⟨c, stamp, f | w'⟩ := y
      · cases i with
        | zero =>
            cases hi
            cases hw
        | succ i => exact ih hlength hall hi
      · cases results with
        | nil => cases hlength
        | cons result results =>
            obtain ⟨e, he, rfl⟩ := hall _ List.mem_cons_self
            cases i with
            | zero => exact ⟨e, he, rfl⟩
            | succ i =>
                exact ih (Nat.succ.inj hlength)
                  (fun result hresult => hall result (List.mem_cons_of_mem _ hresult)) hi

/-- **A desk whose journal refuses every batch is shut.** -/
theorem shut_of_refusing (hR : Journal.Refusing P E) (h : d.store.Over P) : d.Shut E where
  ask q hq := by
    have hsome : (Visit.ask q).records ≠ [] := by
      cases q <;> first | exact List.cons_ne_nil _ _ | exact hq.elim
    obtain ⟨e, j, he, ha, _⟩ := hR _ _ h.journal hsome
    refine ⟨e, he, ?_⟩
    rw [refusal?_answer h.alone hq, ha]
    rfl
  together cs i c stamp hi hpasses := by
    obtain ⟨q, w, hq, hd⟩ := hpasses
    rw [allocateTogether_fst h.alone]
    refine answers_of_refused (x := ⟨c, stamp, .ok w⟩) (Store.length_commitGroup _ _)
      (Store.commitGroup_of_refusing hR h.journal ?_) ?_ rfl
    · intro w' hw'
      obtain ⟨x, hx, hd', _⟩ := mem_submissions.1 hw'
      obtain ⟨p, _, rfl⟩ := List.mem_map.1 hx
      obtain ⟨q', hq', hd'⟩ := prepare_eq_ok h.alone hd'
      obtain ⟨hwrite, _⟩ := Claim.decideOn_eq_ok hd'
      refine ⟨q'.toStanding, Store.checkWrite_eq_ok_iff.2 ?_⟩
      rw [hwrite]
      exact ⟨(Tables.quota?_eq_some_iff.1 hq').1, rfl⟩
    · rw [decided, List.getElem?_map, hi, Option.map_some, prepare_of_quota? h.alone hq, hd]

end Desk

/-! ### Journals that take every batch -/

namespace Store

variable {P : ι → Prop} {s : Store ι}

theorem log_of_obliging (hO : Journal.Obliging P) (h : P s.journal) (rs : List Record)
    (tables : Tables) : (s.log rs tables).1 = .ok () := by
  have htaken := hO s.journal rs h
  unfold log
  rcases ha : Journal.append s.journal rs with ⟨result, j⟩
  rw [ha] at htaken
  obtain rfl : result = .ok () := htaken
  rfl

/-- A write that is refused was not in time. -/
theorem checkWrite_of_obliging (hO : Journal.Obliging P) (h : P s.journal) {w : Write}
    {version : Version} {f : Failure} (hc : (s.commit w version).1 = .error f) :
    s.checkWrite w = .error f := by
  rcases s.commit_cases w version with ⟨f', hf, he⟩ | ⟨q, e, j, _, ha, _⟩ | ⟨q, j, _, _, he⟩
  · rw [he] at hc
    rw [hf, Except.error.inj hc]
  · have htaken := hO s.journal [w.record version] h
    rw [ha] at htaken
    cases htaken
  · rw [he] at hc
    cases hc

omit [Journal ι] in
/-- A write that is not in time is not refused for want of storage. -/
theorem checkWrite_ne_notLogged (s : Store ι) (w : Write) (reason : String) :
    s.checkWrite w ≠ .error (.notLogged reason) := by
  intro h
  rcases eq_of_checkWrite_eq_error h with ⟨_, h⟩ | ⟨_, _, _, h⟩
  · cases h
  · cases h

/-- After a batch that was taken nothing is refused for want of storage. -/
theorem answer_ne_notLogged (hO : Journal.Obliging P) (hP : Journal.Lasting P) (h : s.Over P)
    {ts : List (Submission × Turn)}
    (hin : ∀ t ∈ ts, ∀ reason, t.2 ≠ .refused (.notLogged reason)) :
    ∀ reason, .error (.notLogged reason) ∉ (s.answer (.ok ()) ts).1 := by
  induction ts generalizing s with
  | nil => exact fun _ h => nomatch h
  | cons t ts ih =>
      have hrest := fun t' ht' => hin t' (List.mem_cons_of_mem t ht')
      intro reason hmem
      obtain ⟨w, f | q | _⟩ := t
      · rcases List.mem_cons.1 hmem with heq | hmem
        · cases heq
          exact hin _ List.mem_cons_self reason rfl
        · exact ih h hrest reason hmem
      · rcases List.mem_cons.1 hmem with heq | hmem
        · cases heq
        · exact ih h hrest reason hmem
      · rcases List.mem_cons.1 hmem with heq | hmem
        · exact s.checkWrite_ne_notLogged _ _ (checkWrite_of_obliging hO h.journal heq.symm)
        · exact ih (h.commit hP w.write w.version) hrest reason hmem

/-- No write of a group is refused for want of storage. -/
theorem commitGroup_ne_notLogged (hO : Journal.Obliging P) (hP : Journal.Lasting P) (h : s.Over P)
    (ws : List Submission) (reason : String) :
    .error (.notLogged reason) ∉ (s.commitGroup ws).1 := by
  have hbatch : (s.commitBatch (batch (s.turns [] ws))).1 = .ok () ∧
      (s.commitBatch (batch (s.turns [] ws))).2.Over P := by
    unfold commitBatch
    split
    · exact ⟨rfl, h⟩
    · exact ⟨log_of_obliging hO h.journal _ _, h.log hP _ _⟩
  obtain ⟨hok, hover⟩ := hbatch
  rw [commitGroup]
  simp only [hok]
  refine answer_ne_notLogged hO hP hover ?_ reason
  rintro ⟨w, turn⟩ ht reason' rfl
  exact s.checkWrite_ne_notLogged _ _ (checkWrite_of_refused ht)

end Store

namespace Desk

variable {P : ι → Prop} {d : Desk ι}

/-- A claim is not turned down for want of storage before it is handed on. -/
theorem prepare_ne_notStored (s : Store ι) (c : Claim) (stamp : Stamp) (reason : String) :
    (prepare s c stamp).1 ≠ .error (.notStored reason) := by
  have hcheck : c.check ≠ .error (.notStored reason) := by
    unfold Claim.check
    split
    · simp
    · split <;> simp
  have hdecide : ∀ q, c.decide? q stamp ≠ .error (.notStored reason) := by
    intro q
    cases q with
    | none => simp [Claim.decide?]
    | some q =>
        simp only [Claim.decide?]
        split <;> simp
  unfold prepare
  cases hc : c.check with
  | error e =>
      rintro ⟨⟩
      exact hcheck hc
  | ok u => exact hdecide _

omit [Journal ι] in
/-- A claim is refused because of what was decided about it, or because its write was. -/
theorem exists_of_error_mem_answers {ds : List Decided} {results : List (Except Failure Quota)}
    {r : Refusal} (h : .error r ∈ answers ds results) :
    (∃ x ∈ ds, x.decision = .error r) ∨ ∃ f, .error f ∈ results ∧ r = .ofFailure f := by
  fun_induction answers ds results with
  | case1 results => cases h
  | case2 c stamp e ds results ih =>
      rcases List.mem_cons.1 h with heq | h
      · exact Or.inl ⟨_, List.mem_cons_self, by rw [Except.error.inj heq]⟩
      · rcases ih h with ⟨x, hx, hd⟩ | hrefused
        · exact Or.inl ⟨x, List.mem_cons_of_mem _ hx, hd⟩
        · exact Or.inr hrefused
  | case3 => cases h
  | case4 c stamp w' ds e results ih =>
      rcases List.mem_cons.1 h with heq | h
      · exact Or.inr ⟨e, List.mem_cons_self, Except.error.inj heq⟩
      · rcases ih h with ⟨x, hx, hd⟩ | ⟨f, hf, hr⟩
        · exact Or.inl ⟨x, List.mem_cons_of_mem _ hx, hd⟩
        · exact Or.inr ⟨f, List.mem_cons_of_mem _ hf, hr⟩
  | case5 c stamp w' ds q' results ih =>
      rcases List.mem_cons.1 h with heq | h
      · cases heq
      · rcases ih h with ⟨x, hx, hd⟩ | ⟨f, hf, hr⟩
        · exact Or.inl ⟨x, List.mem_cons_of_mem _ hx, hd⟩
        · exact Or.inr ⟨f, List.mem_cons_of_mem _ hf, hr⟩

/-- **A desk at which no change fails for want of storage**: a request that passes every check is
granted. -/
structure Serves (d : Desk ι) : Prop where
  /-- A request that passes is granted. -/
  ask : ∀ q, d.store.Passes q → (answer d q).1.refusal? = none
  /-- No claim of several is refused for want of storage. -/
  together : ∀ (cs : List (Claim × Stamp)) (reason : String),
    .error (.notStored reason) ∉ (d.allocateTogether cs).1

/-- **A desk whose journal takes every batch serves.** -/
theorem serves_of_obliging (hO : Journal.Obliging P) (hP : Journal.Lasting P)
    (h : d.store.Over P) : d.Serves where
  ask q hq := by
    rw [refusal?_answer h.alone hq, hO _ _ h.journal]
    rfl
  together cs reason := by
    rw [allocateTogether_fst h.alone]
    intro hmem
    rcases exists_of_error_mem_answers hmem with ⟨x, hx, hd⟩ | ⟨f, hf, hr⟩
    · obtain ⟨p, _, rfl⟩ := List.mem_map.1 hx
      exact prepare_ne_notStored _ _ _ _ hd
    · cases f with
      | notLogged reason' => exact Store.commitGroup_ne_notLogged hO hP h _ reason' hf
      | unknownQuota quota => cases hr
      | quotaExists quota => cases hr
      | versionMismatch quota expected actual => cases hr
      | full ceiling => cases hr

end Desk

end Allotment
