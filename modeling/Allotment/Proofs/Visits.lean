/-
**What comes of a visit.**

What comes of a visit to a desk is said here in terms of records: a visit brings the records that it
would leave if all went well; the store takes some of these and nothing else, and whatever was
granted is among them.  So the tables between two moments differ by records that were brought in
between.

Stamps are fresh: no version and no identifier of an allocation is brought twice.  A visit takes
less than that.  The identifiers have to be new, but a version only if the claim that brings it is
made at the same time as others: a client that comes alone changes the quota as it has read it.

Main definitions:

* `Allotment.Novel` — that nothing is brought twice;
* `Allotment.Visit.New` — that a visit brings nothing that has to be new and is not;
* `Allotment.Desk.Granted`, `Allotment.Desk.Changed`, `Allotment.Desk.Leaves` — what a visit
  achieves and what it leaves;
* `Allotment.Desk.Orderly` — what holds between two visits;
* `Allotment.Desk.Later` — a desk at a later moment.

Main results:

* `Allotment.Desk.create_took`, `Allotment.Desk.revise_took`, `Allotment.Desk.allocate_took`,
  `Allotment.Desk.allocateTogether_took` — what the calls of a desk take;
* `Allotment.Desk.Orderly.leaves` — **every visit leaves some of the records that it brings**;
* `Allotment.Desk.Orderly.receiveAll` — **what lies between two moments at a desk**.
-/

import Allotment.Proofs.Events
import Allotment.Proofs.Taken

set_option relaxedAutoImplicit false
set_option autoImplicit false

namespace Allotment

open Tables (Sound Distinct Since)

variable {ι : Type} [Journal ι]

/-! ### The calls of a desk -/

namespace Desk

variable {d : Desk ι} {s : Store ι}

/-- Creating a quota takes its creation or nothing. -/
theorem create_took (d : Desk ι) (terms : Terms) (stamp : Stamp) :
    ∃ rs, d.store.Took rs (d.create terms stamp).2.store ∧
      (∀ r ∈ rs, r = .created stamp.id terms stamp.version) ∧
      ∀ q, (d.create terms stamp).1 = .ok q → .created stamp.id terms stamp.version ∈ rs := by
  unfold create Terms.check
  cases hl : terms.brokenLimit? with
  | some limit => exact ⟨[], .refl _, by simp, fun q hq => nomatch hq⟩
  | none =>
      obtain ⟨rs, htook, hrs, hok⟩ := d.store.insert_took stamp.id hl stamp.version
      simp only
      rcases hi : d.store.insert stamp.id terms stamp.version with ⟨e | q, s'⟩
      · rw [hi] at htook
        exact ⟨rs, htook, hrs, fun q hq => nomatch hq⟩
      · rw [hi] at htook hok
        exact ⟨rs, htook, hrs, fun _ _ => hok q rfl⟩

/-- Replacing terms takes its record or nothing. -/
theorem reviseIn_took (hr : s.rival = none) (r : Revision) (stamp : Stamp) :
    ∃ rs, s.Took rs (reviseIn s r stamp).2 ∧
      (∀ x ∈ rs, x = .revised r.quota r.terms stamp.version) ∧
      ∀ q, (reviseIn s r stamp).1 = .ok q → .revised r.quota r.terms stamp.version ∈ rs := by
  unfold reviseIn
  cases hc : r.terms.check with
  | error e => exact ⟨[], .refl s, by simp, fun q hq => nomatch hq⟩
  | ok u =>
      simp only [Store.load_of_no_rival hr]
      cases hq : s.tables.quota? r.quota with
      | none => exact ⟨[], .refl s, by simp, fun q hq => nomatch hq⟩
      | some q =>
          have hdecide : ∀ {w}, r.decide? (some q) = .ok w → r.decideOn q = .ok w := by
            intro w hw
            rw [Revision.decideOn, hc]
            exact hw
          have hwrite : ∀ {w}, r.decide? (some q) = .ok w → w = r.write :=
            fun hw => (Revision.decideOn_eq_ok (hdecide hw)).1
          obtain ⟨rs, htook, hrs, hok⟩ :=
            Store.carryOut_took s (r.decide? (some q)) stamp.version <| by
              intro w hw
              refine ⟨Tables.admits_of_quota? hq (Revision.suits_of_decideOn (hdecide hw)) ?_, ?_⟩
              · rw [hwrite hw]
                rfl
              · rw [hwrite hw]
                exact fun i hi => nomatch hi
          refine ⟨rs, htook, ?_, ?_⟩
          · intro x hx
            obtain ⟨⟨w, hw, rfl⟩, _⟩ := hrs x hx
            rw [hwrite hw]
            rfl
          · intro q' hq'
            obtain ⟨w, hw, hin⟩ := hok q' hq'
            rw [hwrite hw] at hin
            exact hin

theorem revise_took (hr : d.store.rival = none) (r : Revision) (stamp : Stamp) :
    ∃ rs, d.store.Took rs (d.revise r stamp).2.store ∧
      (∀ x ∈ rs, x = .revised r.quota r.terms stamp.version) ∧
      ∀ q, (d.revise r stamp).1 = .ok q → .revised r.quota r.terms stamp.version ∈ rs :=
  reviseIn_took hr r stamp

/-- What is decided about a claim is decided on the present state of its quota. -/
theorem prepare_eq_ok (hr : s.rival = none) {c : Claim} {stamp : Stamp} {w : Write}
    (h : (prepare s c stamp).1 = .ok w) :
    ∃ q, s.tables.quota? c.quota = some q ∧ c.decideOn q stamp = .ok w := by
  unfold prepare at h
  cases hc : c.check with
  | error e =>
      rw [hc] at h
      cases h
  | ok u =>
      simp only [hc, Store.load_of_no_rival hr] at h
      cases hq : s.tables.quota? c.quota with
      | none =>
          rw [hq] at h
          cases h
      | some q =>
          rw [hq] at h
          exact ⟨q, rfl, by rw [Claim.decideOn, hc]; exact h⟩

/-- The write of a claim may be made on the present tables. -/
theorem admits_of_prepare (hr : s.rival = none) (hs : Sound s.tables) {c : Claim} {stamp : Stamp}
    {w : Write} (h : (prepare s c stamp).1 = .ok w) :
    s.tables.Admits w ∧ w.change = .allocate (c.allocation stamp) ∧
      ∃ q, s.tables.quota? c.quota = some q ∧ w.expected = q.version := by
  obtain ⟨q, hq, hd⟩ := prepare_eq_ok hr h
  have hstands := (Tables.quota?_eq_some_iff.1 hq).1
  have hsuits := Claim.suits_of_decideOn hd (hs.within _ _ hstands)
  obtain ⟨rfl, _⟩ := Claim.decideOn_eq_ok hd
  exact ⟨Tables.admits_of_quota? hq hsuits rfl, rfl, q, hq, rfl⟩

/-- A claim takes its grant if it is granted, and nothing otherwise. -/
theorem allocateIn_took (hr : s.rival = none) (hs : Sound s.tables) (c : Claim) {stamp : Stamp}
    (hnew : s.tables.ledger.find? stamp.id = none) :
    ∃ rs, s.Took rs (allocateIn s c stamp).2 ∧
      (∀ x ∈ rs, x = .allocated (c.allocation stamp) stamp.version ∧
        (allocateIn s c stamp).1 = .ok (c.allocation stamp)) ∧
      ∀ a, (allocateIn s c stamp).1 = .ok a →
        a = c.allocation stamp ∧ .allocated (c.allocation stamp) stamp.version ∈ rs := by
  have hread := prepare_snd hr c stamp
  unfold allocateIn
  rcases hp : prepare s c stamp with ⟨decision, s'⟩
  rw [hp] at hread
  obtain rfl : s' = s := hread
  have hdecided : ∀ {w}, decision = .ok w →
      s'.tables.Admits w ∧ w.change = .allocate (c.allocation stamp) := by
    intro w hw
    obtain ⟨hadmits, hchange, _⟩ := admits_of_prepare hr hs ((congrArg Prod.fst hp).trans hw)
    exact ⟨hadmits, hchange⟩
  have hrecord : ∀ {w}, decision = .ok w →
      w.record stamp.version = .allocated (c.allocation stamp) stamp.version := by
    intro w hw
    rw [Write.record, (hdecided hw).2]
  obtain ⟨rs, htook, hrs, hok⟩ := Store.carryOut_took s' decision stamp.version <| by
      intro w hw
      refine ⟨(hdecided hw).1, ?_⟩
      rw [hrecord hw]
      intro i hi
      rw [← Option.some.inj hi]
      exact hnew
  simp only
  rcases hcarry : carryOut s' decision stamp.version with ⟨e | q, s''⟩
  · rw [hcarry] at htook hrs
    refine ⟨rs, htook, ?_, fun a ha => by cases ha⟩
    intro x hx
    obtain ⟨_, q, hq⟩ := hrs x hx
    cases hq
  · rw [hcarry] at htook hrs hok
    refine ⟨rs, htook, ?_, ?_⟩
    · intro x hx
      obtain ⟨⟨w, hw, rfl⟩, _⟩ := hrs x hx
      exact ⟨hrecord hw, rfl⟩
    intro a ha
    obtain ⟨w, hw, hin⟩ := hok q rfl
    rw [hrecord hw] at hin
    exact ⟨(Except.ok.inj ha).symm, hin⟩

theorem allocate_took (hr : d.store.rival = none) (hs : Sound d.store.tables) (c : Claim)
    {stamp : Stamp} (hnew : d.store.tables.ledger.find? stamp.id = none) :
    ∃ rs, d.store.Took rs (d.allocate c stamp).2.store ∧
      (∀ x ∈ rs, x = .allocated (c.allocation stamp) stamp.version ∧
        (d.allocate c stamp).1 = .ok (c.allocation stamp)) ∧
      ∀ a, (d.allocate c stamp).1 = .ok a →
        a = c.allocation stamp ∧ .allocated (c.allocation stamp) stamp.version ∈ rs :=
  allocateIn_took hr hs c hnew

/-- The writes decided on are those of claims, each decided on the present tables. -/
theorem prepareAll_fst (hr : s.rival = none) (cs : List (Claim × Stamp)) :
    (prepareAll s cs).1 = cs.map fun p => ⟨p.1, p.2, (prepare s p.1 p.2).1⟩ := by
  induction cs with
  | nil => rfl
  | cons p cs ih =>
      have hsame := prepare_snd hr p.1 p.2
      rw [prepareAll, List.map_cons, ← ih]
      simp only [hsame]

omit [Journal ι] in
theorem mem_submissions {ds : List Decided} {w : Submission} :
    w ∈ submissions ds ↔ ∃ x ∈ ds, x.decision = .ok w.write ∧ x.stamp.version = w.version := by
  rw [submissions, List.mem_filterMap]
  constructor
  · rintro ⟨⟨c, stamp, e | w'⟩, hx, hw⟩
    · cases hw
    · cases hw
      exact ⟨_, hx, rfl, rfl⟩
  · rintro ⟨x, hx, hd, hv⟩
    exact ⟨x, hx, by rw [hd, hv]; rfl⟩

/-- Claims whose stamps are fresh: no quota has a version of theirs, their identifiers are new, and
none of these comes twice. -/
structure Fresh (t : Tables) (cs : List (Claim × Stamp)) : Prop where
  /-- No quota has a version of theirs. -/
  versions : ∀ p ∈ cs, ∀ (id : Ulid) (st : Standing), t.standings[id]? = some st →
    st.version ≠ p.2.version
  /-- Their identifiers are new. -/
  ids : ∀ p ∈ cs, t.ledger.find? p.2.id = none
  /-- No identifier comes twice. -/
  nodup : (cs.map (·.2.id)).Nodup

/-- Claims with fresh stamps that are decided on the present tables lead to a group of writes. -/
theorem Fresh.grouped (hr : s.rival = none) (hs : Sound s.tables) {cs : List (Claim × Stamp)}
    (h : Fresh s.tables cs) : s.Grouped (submissions (prepareAll s cs).1) := by
  have hmem : ∀ w ∈ submissions (prepareAll s cs).1, ∃ p ∈ cs,
      (prepare s p.1 p.2).1 = .ok w.write ∧ p.2.version = w.version := by
    intro w hw
    rw [prepareAll_fst hr] at hw
    obtain ⟨x, hx, hd, hv⟩ := mem_submissions.1 hw
    obtain ⟨p, hp, rfl⟩ := List.mem_map.1 hx
    exact ⟨p, hp, hd, hv⟩
  have hgrant : ∀ {p : Claim × Stamp} {w : Submission}, (prepare s p.1 p.2).1 = .ok w.write →
      w.record.grant? = some p.2.id := by
    intro p w hw
    obtain ⟨_, hchange, _⟩ := admits_of_prepare hr hs hw
    rw [Submission.record, Write.record, hchange]
    rfl
  refine ⟨?_, ?_, ?_, ?_⟩
  · intro w hw
    obtain ⟨p, _, hd, _⟩ := hmem w hw
    exact (admits_of_prepare hr hs hd).1
  · intro w hw w' hw'
    obtain ⟨p, _, hd, _⟩ := hmem w hw
    obtain ⟨p', hp', _, hv'⟩ := hmem w' hw'
    obtain ⟨_, _, q, hq, hexpected⟩ := admits_of_prepare hr hs hd
    rw [hexpected, ← hv']
    exact (h.versions p' hp' _ _ (Tables.quota?_eq_some_iff.1 hq).1).symm
  · intro w hw i hi
    obtain ⟨p, hp, hd, _⟩ := hmem w hw
    rw [hgrant hd] at hi
    rw [← Option.some.inj hi]
    exact h.ids p hp
  · have hnodup := h.nodup
    clear hmem h
    rw [prepareAll_fst hr]
    induction cs with
    | nil => exact List.Pairwise.nil
    | cons p cs ih =>
        obtain ⟨hnotin, hrest⟩ := List.nodup_cons.1 hnodup
        rw [List.map_cons]
        cases hd : (prepare s p.1 p.2).1 with
        | error e => exact ih hrest
        | ok w =>
            refine List.pairwise_cons.2 ⟨?_, ih hrest⟩
            intro w' hw' i hi hi'
            obtain ⟨x, hx, hd', _⟩ := mem_submissions.1 hw'
            obtain ⟨p', hp', rfl⟩ := List.mem_map.1 hx
            rw [hgrant (w := ⟨w, p.2.version⟩) hd] at hi
            rw [hgrant hd'] at hi'
            refine hnotin (List.mem_map.2 ⟨p', hp', ?_⟩)
            exact (Option.some.inj hi').trans (Option.some.inj hi).symm

omit [Journal ι] in
/-- A claim is granted only if its write was. -/
theorem exists_of_mem_answers {ds : List Decided} {results : List (Except Failure Quota)}
    {a : Allocation} (h : .ok a ∈ answers ds results) :
    ∃ x ∈ ds, ∃ w q, x.decision = .ok w ∧ a = x.claim.allocation x.stamp ∧
      ((⟨w, x.stamp.version⟩ : Submission), Except.ok q) ∈ (submissions ds).zip results := by
  fun_induction answers ds results with
  | case1 results => cases h
  | case2 c stamp e ds results ih =>
      rcases List.mem_cons.1 h with heq | h
      · cases heq
      · obtain ⟨x, hx, w, q, hd, ha, hin⟩ := ih h
        exact ⟨x, List.mem_cons_of_mem _ hx, w, q, hd, ha, hin⟩
  | case3 => cases h
  | case4 c stamp w' ds e results ih =>
      rcases List.mem_cons.1 h with heq | h
      · cases heq
      · obtain ⟨x, hx, w, q, hd, ha, hin⟩ := ih h
        exact ⟨x, List.mem_cons_of_mem _ hx, w, q, hd, ha, List.mem_cons_of_mem _ hin⟩
  | case5 c stamp w' ds q' results ih =>
      rcases List.mem_cons.1 h with heq | h
      · exact ⟨_, List.mem_cons_self, w', q', rfl, Except.ok.inj heq, List.mem_cons_self⟩
      · obtain ⟨x, hx, w, q, hd, ha, hin⟩ := ih h
        exact ⟨x, List.mem_cons_of_mem _ hx, w, q, hd, ha, List.mem_cons_of_mem _ hin⟩

omit [Journal ι] in
/-- A claim is granted if its write was. -/
theorem mem_answers {ds : List Decided} {results : List (Except Failure Quota)} {w : Submission}
    {q : Quota} (h : (w, Except.ok q) ∈ (submissions ds).zip results) :
    ∃ x ∈ ds, x.decision = .ok w.write ∧ x.stamp.version = w.version ∧
      .ok (x.claim.allocation x.stamp) ∈ answers ds results := by
  fun_induction answers ds results with
  | case1 results => cases h
  | case2 c stamp e ds results ih =>
      obtain ⟨x, hx, hd, hv, hin⟩ := ih h
      exact ⟨x, List.mem_cons_of_mem _ hx, hd, hv, List.mem_cons_of_mem _ hin⟩
  | case3 => cases h
  | case4 c stamp w' ds e results ih =>
      rcases List.mem_cons.1 h with heq | htail
      · cases heq
      · obtain ⟨x, hx, hd, hv, hin⟩ := ih htail
        exact ⟨x, List.mem_cons_of_mem _ hx, hd, hv, List.mem_cons_of_mem _ hin⟩
  | case5 c stamp w' ds q' results ih =>
      rcases List.mem_cons.1 h with heq | htail
      · obtain ⟨rfl, _⟩ := Prod.mk.inj heq
        exact ⟨_, List.mem_cons_self, rfl, rfl, List.mem_cons_self⟩
      · obtain ⟨x, hx, hd, hv, hin⟩ := ih htail
        exact ⟨x, List.mem_cons_of_mem _ hx, hd, hv, List.mem_cons_of_mem _ hin⟩

/-- **Claims made at the same time take the grants of those that are granted**, and no others. -/
theorem allocateTogether_took (hr : d.store.rival = none) (hs : Sound d.store.tables)
    {cs : List (Claim × Stamp)} (h : Fresh d.store.tables cs) :
    ∃ rs, d.store.Took rs (d.allocateTogether cs).2.store ∧
      (∀ x ∈ rs, ∃ p ∈ cs, x = .allocated (p.1.allocation p.2) p.2.version ∧
        .ok (p.1.allocation p.2) ∈ (d.allocateTogether cs).1) ∧
      ∀ a, .ok a ∈ (d.allocateTogether cs).1 → ∃ version, .allocated a version ∈ rs := by
  have hrecord : ∀ {p : Claim × Stamp} {w : Submission},
      (prepare d.store p.1 p.2).1 = .ok w.write → p.2.version = w.version →
        w.record = .allocated (p.1.allocation p.2) p.2.version := by
    intro p w hw hv
    obtain ⟨_, hchange, _⟩ := admits_of_prepare hr hs hw
    rw [Submission.record, Write.record, hchange, hv]
  obtain ⟨rs, htook, hrs, hok⟩ := Store.commitGroup_took (h.grouped hr hs)
  have hsnd := prepareAll_snd hr cs
  have hfst := prepareAll_fst hr cs
  unfold allocateTogether
  rcases hp : prepareAll d.store cs with ⟨ds, s'⟩
  rw [hp] at hsnd hfst htook hrs hok
  obtain rfl : s' = d.store := hsnd
  have hdecided : ∀ x ∈ ds, ∃ p ∈ cs, x = ⟨p.1, p.2, (prepare d.store p.1 p.2).1⟩ := by
    intro x hx
    change x ∈ (ds, d.store).1 at hx
    rw [hfst] at hx
    obtain ⟨p, hp', rfl⟩ := List.mem_map.1 hx
    exact ⟨p, hp', rfl⟩
  refine ⟨rs, htook, ?_, ?_⟩
  · intro x hx
    obtain ⟨w, q, rfl, hin⟩ := hrs x hx
    obtain ⟨x', hx', hd, hv, hans⟩ := mem_answers hin
    obtain ⟨p, hp', rfl⟩ := hdecided x' hx'
    exact ⟨p, hp', hrecord hd hv, hans⟩
  · intro a ha
    obtain ⟨x, hx, w, q, hd, rfl, hin⟩ := exists_of_mem_answers ha
    have hmem := hok _ _ hin
    obtain ⟨p, _, rfl⟩ := hdecided x hx
    rw [hrecord (w := ⟨w, p.2.version⟩) hd rfl] at hmem
    exact ⟨_, hmem⟩

end Desk

/-! ### Visits -/

/-- Records of which no two bring the same version or the same identifier of an allocation. -/
structure Novel (rs : List Record) : Prop where
  /-- No version comes twice. -/
  versions : (rs.map (·.version)).Nodup
  /-- No identifier comes twice. -/
  grants : (rs.filterMap (·.grant?)).Nodup

namespace Novel

variable {rs rs' : List Record}

theorem left (h : Novel (rs ++ rs')) : Novel rs where
  versions := by
    have := h.versions
    rw [List.map_append] at this
    exact (List.nodup_append.1 this).1
  grants := by
    have := h.grants
    rw [List.filterMap_append] at this
    exact (List.nodup_append.1 this).1

theorem right (h : Novel (rs ++ rs')) : Novel rs' where
  versions := by
    have := h.versions
    rw [List.map_append] at this
    exact (List.nodup_append.1 this).2.1
  grants := by
    have := h.grants
    rw [List.filterMap_append] at this
    exact (List.nodup_append.1 this).2.1

/-- A version that comes later is another. -/
theorem version_ne (h : Novel (rs ++ rs')) {r r' : Record} (hr : r ∈ rs) (hr' : r' ∈ rs') :
    r.version ≠ r'.version := by
  have := h.versions
  rw [List.map_append] at this
  exact (List.nodup_append.1 this).2.2 _ (List.mem_map_of_mem hr) _ (List.mem_map_of_mem hr')

end Novel

/-- An identifier that comes later is another if none comes twice. -/
theorem Record.not_mem_grants {rs rs' : List Record} (h : ((rs ++ rs').filterMap (·.grant?)).Nodup)
    {i : Ulid} (hi : i ∈ rs'.filterMap (·.grant?)) : i ∉ rs.filterMap (·.grant?) := by
  rw [List.filterMap_append] at h
  exact fun hi' => (List.nodup_append.1 h).2.2 i hi' i hi rfl

/-- **Whether what a visit brings is new**, if `past` is what was brought so far: no identifier of
an allocation comes twice, and no claim that is made at the same time as others brings a version
that was brought before. -/
structure Visit.New (past : List Record) (v : Visit) : Prop where
  /-- No identifier comes twice. -/
  grants : ((past ++ v.records).filterMap (·.grant?)).Nodup
  /-- Claims that are made at the same time bring other versions. -/
  versions : ∀ cs, v = .together cs → ∀ p ∈ cs, ∀ r ∈ past, r.version ≠ p.2.version

/-- If nothing is brought twice, what a visit brings is new. -/
theorem Novel.visit {past : List Record} {v : Visit} (h : Novel (past ++ v.records)) :
    v.New past where
  grants := h.grants
  versions := by
    rintro cs rfl p hp r hr
    exact h.version_ne hr (List.mem_map.2 ⟨p, hp, rfl⟩)

/-- A client that comes alone has only to bring another identifier. -/
theorem Visit.New.ask {past : List Record} {q : Request}
    (h : ((past ++ q.records).filterMap (·.grant?)).Nodup) : (Visit.ask q).New past :=
  ⟨h, fun _ heq => Visit.noConfusion heq⟩

namespace Desk

/-- Whether a visit obtains an allocation. -/
def Granted (d : Desk ι) (a : Allocation) : Visit → Prop
  | .ask (.allocate c stamp) => (d.allocate c stamp).1 = .ok a
  | .together cs => .ok a ∈ (d.allocateTogether cs).1
  | _ => False

/-- Whether a visit changes a quota: its terms are replaced, or units of it are granted. -/
def Changed (d : Desk ι) (quota : Ulid) : Visit → Prop
  | .ask (.revise r stamp) => r.quota = quota ∧ ∃ q, (d.revise r stamp).1 = .ok q
  | .ask (.allocate c stamp) => c.quota = quota ∧ ∃ a, (d.allocate c stamp).1 = .ok a
  | .together cs => ∃ a : Allocation, a.quota = quota ∧ .ok a ∈ (d.allocateTogether cs).1
  | _ => False

/-- **What a visit leaves**: the store has taken some of the records that were brought, among them
all that was granted or changed, and no allocation that was not granted. -/
structure Leaves (d : Desk ι) (v : Visit) (rs : List Record) : Prop where
  /-- The store has taken them. -/
  took : d.store.Took rs (d.receive v).store
  /-- They were brought. -/
  brought : ∀ r ∈ rs, r ∈ v.records
  /-- All grants are among them. -/
  granted : ∀ a, d.Granted a v → ∃ version, .allocated a version ∈ rs
  /-- No allocation is among them that was not granted. -/
  earned : ∀ a version, .allocated a version ∈ rs → d.Granted a v
  /-- All changes are among them. -/
  changed : ∀ quota, d.Changed quota v → ∃ r ∈ rs, r.quota = quota

/-- Whoever only wants to know something leaves nothing. -/
theorem Leaves.of_reads {d : Desk ι} (halone : d.store.rival = none) {q : Request}
    (hq : q.records = []) : d.Leaves (.ask q) [] where
  took := by
    rw [receive, store_answer_of_reads halone hq]
    exact .refl _
  brought _ hr := nomatch hr
  granted a ha := by
    cases q with
    | allocate c stamp => cases hq
    | _ => cases ha
  earned _ _ ha := nomatch ha
  changed quota hchanged := by
    cases q with
    | revise r stamp => cases hq
    | allocate c stamp => cases hq
    | _ => cases hchanged

omit [Journal ι] in
/-- **What holds between two visits**, if `past` is what was brought so far. -/
structure Orderly (past : List Record) (d : Desk ι) : Prop where
  /-- No rival lies in wait. -/
  alone : d.store.rival = none
  /-- The tables are sound. -/
  sound : Sound d.store.tables
  /-- No identifier is listed twice under one quota. -/
  distinct : Distinct d.store.tables
  /-- The identifiers of allocations were brought. -/
  granted : ∀ i a, d.store.tables.ledger.find? i = some a → i ∈ past.filterMap (·.grant?)
  /-- The versions of quotas were brought. -/
  versions : ∀ (id : Ulid) (s : Standing), d.store.tables.standings[id]? = some s →
    ∃ r ∈ past, s.version = r.version

omit [Journal ι] in
/-- **A desk at a later moment**: the tables have changed by records that were brought. -/
def Later (d : Desk ι) (brought : List Record) (d' : Desk ι) : Prop :=
  ∃ rs, Since d.store.tables d'.store.tables rs ∧ ∀ r ∈ rs, r ∈ brought

namespace Later

variable {d d' d'' : Desk ι} {brought brought' : List Record}

omit [Journal ι]

theorem of_tables_eq (h : d'.store.tables = d.store.tables) (brought : List Record) :
    Later d brought d' :=
  ⟨[], h ▸ Since.refl _, fun _ hr => nomatch hr⟩

theorem trans (h : Later d brought d') (h' : Later d' brought' d'') :
    Later d (brought ++ brought') d'' := by
  obtain ⟨rs, hsince, hsub⟩ := h
  obtain ⟨rs', hsince', hsub'⟩ := h'
  refine ⟨rs ++ rs', hsince.trans hsince', ?_⟩
  intro r hr
  rcases List.mem_append.1 hr with hr | hr
  · exact List.mem_append_left _ (hsub r hr)
  · exact List.mem_append_right _ (hsub' r hr)

end Later

namespace Orderly

variable {past : List Record} {d : Desk ι}

omit [Journal ι] in
/-- A desk over a store with the same tables. -/
theorem of_tables_eq (h : Orderly past d) {d' : Desk ι} (ht : d'.store.tables = d.store.tables)
    (hr : d'.store.rival = none) : Orderly past d' where
  alone := hr
  sound := ht ▸ h.sound
  distinct := ht ▸ h.distinct
  granted := ht ▸ h.granted
  versions := ht ▸ h.versions

omit [Journal ι] in
/-- More may have been brought. -/
theorem mono (h : Orderly past d) {past' : List Record} (hsub : ∀ r ∈ past, r ∈ past') :
    Orderly past' d where
  alone := h.alone
  sound := h.sound
  distinct := h.distinct
  granted i a ha := List.filterMap_subset _ (fun r hr => hsub r hr) (h.granted i a ha)
  versions id s hs := by
    obtain ⟨r, hr, hv⟩ := h.versions id s hs
    exact ⟨r, hsub r hr, hv⟩

omit [Journal ι] in
/-- A desk without quotas. -/
theorem of_empty {d : Desk ι} (ht : d.store.tables = .empty) (hr : d.store.rival = none) :
    Orderly [] d where
  alone := hr
  sound := ht ▸ Sound.empty
  distinct quota := by
    rw [ht]
    exact List.nodup_nil
  granted i a ha := by
    rw [ht] at ha
    simp [Tables.empty] at ha
  versions id s hs := by
    rw [ht] at hs
    simp [Tables.empty] at hs

/-- A store that has taken records that were brought. -/
theorem took (h : Orderly past d) {d' : Desk ι} {rs brought : List Record}
    (htook : d.store.Took rs d'.store) (hsub : ∀ r ∈ rs, r ∈ brought) :
    Orderly (past ++ brought) d' where
  alone := htook.rival.trans h.alone
  sound := htook.tables ▸ htook.lawful.sound h.sound
  distinct := htook.tables ▸ htook.lawful.distinct h.distinct
  granted i a ha := by
    rw [List.filterMap_append]
    rcases htook.since.entered i a ha with ha | ⟨r, hr, hi⟩
    · exact List.mem_append_left _ (h.granted i a ha)
    · exact List.mem_append_right _ (List.mem_filterMap.2 ⟨r, hsub r hr, hi⟩)
  versions id s hs := by
    rcases htook.since.standings id s hs with ⟨hs, _⟩ | ⟨r, hr, hv⟩
    · obtain ⟨r, hr, hv⟩ := h.versions id s hs
      exact ⟨r, List.mem_append_left _ hr, hv⟩
    · exact ⟨r, List.mem_append_right _ (hsub r hr), hv⟩

omit [Journal ι] in
/-- What was not brought is not there. -/
theorem find?_eq_none (h : Orderly past d) {i : Ulid} (hi : i ∉ past.filterMap (·.grant?)) :
    d.store.tables.ledger.find? i = none := by
  cases hf : d.store.tables.ledger.find? i with
  | none => rfl
  | some a => exact absurd (h.granted i a hf) hi

omit [Journal ι] in
/-- Claims that are made at the same time have fresh stamps if what they bring is new. -/
theorem fresh (h : Orderly past d) {cs : List (Claim × Stamp)}
    (hnew : (Visit.together cs).New past) : Fresh d.store.tables cs where
  versions p hp id s hs := by
    obtain ⟨r, hr, hv⟩ := h.versions id s hs
    rw [hv]
    exact hnew.versions cs rfl p hp r hr
  ids p hp := by
    refine h.find?_eq_none (Record.not_mem_grants hnew.grants (List.mem_filterMap.2 ?_))
    exact ⟨_, List.mem_map.2 ⟨p, hp, rfl⟩, rfl⟩
  nodup := by
    have hgrants := hnew.grants
    rw [List.filterMap_append] at hgrants
    have hids : (Visit.together cs).records.filterMap (·.grant?) = cs.map (·.2.id) := by
      rw [Visit.records, List.filterMap_map, ← List.filterMap_eq_map]
      rfl
    rw [hids] at hgrants
    exact (List.nodup_append.1 hgrants).2.1

/-- Whatever a client asks for, it leaves some of the records that it brings. -/
theorem ask_leaves (h : Orderly past d) {q : Request}
    (hgrants : ((past ++ q.records).filterMap (·.grant?)).Nodup) :
    ∃ rs, d.Leaves (.ask q) rs := by
  cases q using Request.changeCases with
  | create terms stamp =>
      obtain ⟨rs, htook, hrs, _⟩ := d.create_took terms stamp
      exact ⟨rs, htook, fun r hr => List.mem_singleton.2 (hrs r hr), fun a ha => ha.elim,
        fun a version ha => Record.noConfusion (hrs _ ha), fun quota hq => hq.elim⟩
  | revise r stamp =>
      obtain ⟨rs, htook, hrs, hok⟩ := revise_took h.alone r stamp
      refine ⟨rs, htook, fun x hx => List.mem_singleton.2 (hrs x hx), fun a ha => ha.elim,
        fun a version ha => Record.noConfusion (hrs _ ha), ?_⟩
      rintro quota ⟨rfl, q, hq⟩
      exact ⟨_, hok q hq, rfl⟩
  | allocate c stamp =>
      have hfree := h.find?_eq_none
        (Record.not_mem_grants hgrants (List.mem_singleton_self stamp.id))
      obtain ⟨rs, htook, hrs, hok⟩ := allocate_took h.alone h.sound c hfree
      refine ⟨rs, htook, fun x hx => List.mem_singleton.2 (hrs x hx).1, ?_, ?_, ?_⟩
      · intro a ha
        obtain ⟨rfl, hin⟩ := hok a ha
        exact ⟨_, hin⟩
      · intro a version ha
        obtain ⟨heq, hgrant⟩ := hrs _ ha
        obtain ⟨rfl, _⟩ := Record.allocated.inj heq
        exact hgrant
      · rintro quota ⟨rfl, a, ha⟩
        exact ⟨_, (hok a ha).2, rfl⟩
  | reads q hq => exact ⟨[], .of_reads h.alone hq⟩

/-- **Every visit leaves some of the records that it brings.** -/
theorem leaves (h : Orderly past d) {v : Visit} (hnew : v.New past) : ∃ rs, d.Leaves v rs := by
  cases v with
  | together cs =>
      obtain ⟨rs, htook, hrs, hok⟩ := allocateTogether_took h.alone h.sound (h.fresh hnew)
      refine ⟨rs, htook, ?_, hok, ?_, ?_⟩
      · intro r hr
        obtain ⟨p, hp, rfl, _⟩ := hrs r hr
        exact List.mem_map.2 ⟨p, hp, rfl⟩
      · intro a version ha
        obtain ⟨p, _, heq, hin⟩ := hrs _ ha
        obtain ⟨rfl, _⟩ := Record.allocated.inj heq
        exact hin
      · rintro quota ⟨a, rfl, ha⟩
        obtain ⟨version, hin⟩ := hok a ha
        exact ⟨_, hin, rfl⟩
  | ask q => exact h.ask_leaves hnew.grants

/-- What lies between two visits. -/
theorem receive (h : Orderly past d) {v : Visit} (hnovel : Novel (past ++ v.records)) :
    Orderly (past ++ v.records) (d.receive v) ∧ Later d v.records (d.receive v) := by
  obtain ⟨rs, hleaves⟩ := h.leaves hnovel.visit
  exact ⟨h.took hleaves.took hleaves.brought, rs, hleaves.took.since, hleaves.brought⟩

/-- **What lies between two moments at a desk.** -/
theorem receiveAll (h : Orderly past d) {vs : List Visit}
    (hnovel : Novel (past ++ vs.flatMap (·.records))) :
    Orderly (past ++ vs.flatMap (·.records)) (d.receiveAll vs) ∧
      Later d (vs.flatMap (·.records)) (d.receiveAll vs) := by
  induction vs generalizing past d with
  | nil =>
      have hnone : past ++ [] = past := List.append_nil past
      exact ⟨hnone.symm ▸ h, .of_tables_eq rfl _⟩
  | cons v vs ih =>
      rw [List.flatMap_cons, ← List.append_assoc] at hnovel
      obtain ⟨hnext, hlater⟩ := h.receive hnovel.left
      obtain ⟨hlast, hlater'⟩ := ih hnext hnovel
      rw [List.flatMap_cons, ← List.append_assoc]
      exact ⟨hlast, hlater.trans hlater'⟩

end Orderly

end Desk

end Allotment
