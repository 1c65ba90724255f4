/-
**Compactors that check logs during a survey.**

While a survey is under way, the compactors of the tenants that it has opened may check their logs,
at any moment.  A survey appends nothing to any log.  So at no moment is a log due, whatever number
of appends makes it so, and the survey ends as if there were no compactors.

A log is checked right after a tenant was opened or after it was surveyed.  Listing and auditing
write nothing, so a check between the two, or before a compaction, meets the same store as one right
after the opening.

Main definitions:

* `Allotment.Desk.Quiet`, `Allotment.Tenants.Quiet` — nothing was appended;
* `Allotment.surveyAmid`, `Allotment.runSurveyAmid` — a survey, and a whole run, in the course of
  which compactors check logs.

Main results:

* `Allotment.Tenants.Quiet.surveyTenant` — a survey appends nothing, however it ends;
* `Allotment.surveyAmid_eq` — **compactors find nothing to do during a survey**.
-/

import Allotment.Survey
import Allotment.Proofs.Appended
import Allotment.Proofs.Opening
import Allotment.Proofs.Roster

set_option relaxedAutoImplicit false
set_option autoImplicit false

namespace Allotment

/-! ### Logs to which nothing is appended -/

/-- A desk at which nothing was appended to the log, and nobody lies in wait. -/
structure Desk.Quiet (d : Desk LogFile) : Prop where
  /-- Nothing was appended. -/
  appends : d.store.appends = 0
  /-- No rival lies in wait. -/
  alone : d.store.rival = none

theorem Desk.quiet_of_ofLog {d : Disk} {name : String} {s : Store LogFile}
    (ho : Store.ofLog d name = .ok s) (m : Meter) : Desk.Quiet ⟨s, m⟩ := by
  obtain ⟨_, hs⟩ := Store.opened_of_ofLog ho
  exact ⟨(Store.counters_of_ofLog ho).1, hs.alone⟩

/-- A survey appends nothing. -/
theorem Desk.Quiet.surveyDesk {d : Desk LogFile} (h : d.Quiet) (wanted : Bool) (tenant : String) :
    (surveyDesk d wanted tenant).2.Quiet := by
  have hcompact : d.compact.2.Quiet := by
    constructor
    · rcases d.compact_counters with ⟨_, hzero, _⟩ | ⟨_, hsame⟩
      · exact hzero
      · exact (congrArg (·.appends) hsame).trans h.appends
    · exact (d.compact_stays rfl).2.trans h.alone
  unfold Allotment.surveyDesk
  rw [Desk.list_of_no_rival h.alone]
  simp only
  split
  · rcases hc : d.compact with ⟨e | u, d'⟩
    · rw [hc] at hcompact
      exact hcompact
    · rw [hc] at hcompact
      exact hcompact
  · exact h

namespace Tenants

/-- The compactors of some tenants check their logs, those of tenants that are open. -/
def checkAll (t : Tenants) (stems : List String) : Tenants := stems.foldl compactIfDue t

/-- Nothing was appended to any log. -/
def Quiet (t : Tenants) : Prop :=
  ∀ (stem : String) (d : Desk LogFile), t.desk? stem = some d → d.Quiet

namespace Quiet

variable {t : Tenants}

theorem putDesk (h : t.Quiet) (stem : String) {d : Desk LogFile} (hd : d.Quiet) :
    (t.putDesk stem d).Quiet := by
  intro x d' hd'
  obtain ⟨s, hs, rfl⟩ := Option.map_eq_some_iff.1 hd'
  simp only [Tenants.putDesk, Std.ExtTreeMap.getElem?_insert] at hs
  split at hs
  · cases hs
    exact ⟨hd.appends, hd.alone⟩
  · have hold := h x _ (Option.map_eq_some_iff.2 ⟨s, hs, rfl⟩)
    exact ⟨hold.appends, hold.alone⟩

/-- **A log to which nothing was appended is not due**, whatever number of appends makes it so. -/
theorem compactIfDue_eq (h : t.Quiet) (stem : String) : t.compactIfDue stem = t := by
  unfold Tenants.compactIfDue serve
  cases hd : t.desk? stem with
  | none => rfl
  | some d =>
      have hcheck : d.compactIfDue t.threshold = (.ok false, d) := by
        have hdue : Desk.isDue d.store.appends t.threshold = false := by
          rw [(h stem d hd).appends]
          rfl
        rw [Desk.compactIfDue, hdue]
        rfl
      obtain ⟨s, hs, rfl⟩ := Option.map_eq_some_iff.1 hd
      simp only [Option.map_some, hcheck]
      have hstores : t.stores.insert stem s = t.stores := by
        refine Std.ExtTreeMap.ext_getElem? fun x => ?_
        rw [Std.ExtTreeMap.getElem?_insert]
        split
        · next hx => rw [← Std.LawfulEqOrd.compare_eq_iff_eq.1 hx, hs]
        · rfl
      calc t.putDesk stem ⟨s.mapJournal fun w => ⟨t.disk, w⟩, t.meter⟩
          = { t with stores := t.stores.insert stem s } := rfl
        _ = t := by rw [hstores]

theorem checkAll_eq (h : t.Quiet) (stems : List String) : t.checkAll stems = t := by
  induction stems with
  | nil => rfl
  | cons stem stems ih => rw [checkAll, List.foldl_cons, h.compactIfDue_eq]; exact ih

theorem openTenant (h : t.Quiet) {tenant stem : String} {t' : Tenants}
    (ho : t.openTenant tenant = .ok (stem, t')) : t'.Quiet := by
  have hentering := t.entering tenant
  rw [ho] at hentering
  cases hentering with
  | present short named open_ => exact h
  | @opened short named new room s log =>
      have hput := h.putDesk (stemOf tenant) (Desk.quiet_of_ofLog log t.meter)
      intro x d hd
      obtain ⟨s', hs', rfl⟩ := Option.map_eq_some_iff.1 hd
      have hold := hput x _ (Option.map_eq_some_iff.2 ⟨s', hs', rfl⟩)
      exact ⟨hold.appends, hold.alone⟩

/-- A survey of one tenant appends nothing, however it ends. -/
theorem surveyTenant (h : t.Quiet) (wanted : Bool) (tenant : String) :
    (Allotment.surveyTenant t wanted tenant).2.Quiet := by
  unfold Allotment.surveyTenant
  cases ho : t.openTenant tenant with
  | error e => exact h
  | ok opened =>
      obtain ⟨stem, t₁⟩ := opened
      have h₁ := h.openTenant ho
      simp only [serve]
      cases hd : t₁.desk? stem with
      | none => exact h₁
      | some d =>
          have hput := h₁.putDesk stem ((h₁ stem d hd).surveyDesk wanted tenant)
          simp only [Option.map_some]
          rcases hs : surveyDesk d wanted tenant with ⟨e | r, d'⟩
          · rw [hs] at hput
            exact hput
          · rw [hs] at hput
            exact hput

end Quiet

theorem quiet_start (disk : Disk) (threshold : Nat) (m : Meter) :
    (start disk threshold m).Quiet := by
  intro stem d hd
  simp [start, desk?] at hd

end Tenants

/-- Which tenants have their logs checked right after a tenant was opened, and after it was
surveyed. -/
abbrev Meanwhile := String → List String × List String

/-- Surveys one tenant, while compactors check logs right after it was opened. -/
def surveyTenantAmid (t : Tenants) (wanted : Bool) (checked : List String) (tenant : String) :
    Except Breakoff TenantReport × Tenants :=
  match t.openTenant tenant with
  | .error e => (.error (.file e), t)
  | .ok (stem, t) =>
    match (t.checkAll checked).serve stem fun d => surveyDesk d wanted tenant with
    | none => (.error (.file .noSuchFile), t)
    | some (.error e, t) => (.error (.desk e), t)
    | some (.ok r, t) => (.ok r, t)

/-- Surveys tenants one after the other, while compactors check logs. -/
def surveyAllAmid (t : Tenants) (wanted : Bool) (meanwhile : Meanwhile) :
    List String → Except Breakoff (List TenantReport) × Tenants
  | [] => (.ok [], t)
  | tenant :: rest =>
    match surveyTenantAmid t wanted (meanwhile tenant).1 tenant with
    | (.error e, t) => (.error e, t.checkAll (meanwhile tenant).2)
    | (.ok r, t) =>
      let (rs, t) := surveyAllAmid (t.checkAll (meanwhile tenant).2) wanted meanwhile rest
      (rs.map (r :: ·), t)

/-- Surveys the tenants that have a log, while compactors check logs.  A log is due after
`threshold` appends. -/
def surveyAmid (d : Disk) (wanted : Bool) (threshold : Nat) (meanwhile : Meanwhile) :
    Except Breakoff (List TenantReport) × Disk :=
  match d.makeDirectory with
  | .error e => (.error (.file e), d)
  | .ok d =>
    match discover d with
    | .error e => (.error (.file e), d)
    | .ok tenants =>
      let (rs, t) := surveyAllAmid (.start d threshold .zero) wanted meanwhile tenants
      (rs, t.closeAll)

/-- A whole run in the course of which compactors check logs. -/
def runSurveyAmid (d : Disk) (compaction : Option String) (threshold : Nat)
    (meanwhile : Meanwhile) : RunResult × Disk :=
  let (rs, d) := surveyAmid d (!compaction.any declines) threshold meanwhile
  (.ofReports rs, d)

namespace Tenants

/-- While nothing was appended, compactors make no difference to the survey of a tenant. -/
theorem Quiet.surveyTenantAmid_eq {t : Tenants} (h : t.Quiet) (wanted : Bool)
    (checked : List String) (tenant : String) :
    surveyTenantAmid t wanted checked tenant = Allotment.surveyTenant t wanted tenant := by
  unfold surveyTenantAmid Allotment.surveyTenant
  cases ho : t.openTenant tenant with
  | error e => rfl
  | ok opened =>
      obtain ⟨stem, t₁⟩ := opened
      have hcheck := (h.openTenant ho).checkAll_eq checked
      rcases hs : t₁.serve stem fun d => surveyDesk d wanted tenant with _ | ⟨e | r, t₂⟩
      · simp only [hcheck, hs]
      · simp only [hcheck, hs]
      · simp only [hcheck, hs]

theorem Quiet.surveyAllAmid_eq {t : Tenants} (h : t.Quiet) (wanted : Bool) (meanwhile : Meanwhile)
    (tenants : List String) :
    surveyAllAmid t wanted meanwhile tenants = surveyAll t wanted tenants := by
  induction tenants generalizing t with
  | nil => rfl
  | cons x tenants ih =>
      have h₁ := h.surveyTenant wanted x
      rw [surveyAllAmid, surveyAll, h.surveyTenantAmid_eq]
      rcases hs : Allotment.surveyTenant t wanted x with ⟨e | r, t₁⟩
      · rw [hs] at h₁
        simp only [h₁.checkAll_eq]
      · rw [hs] at h₁
        simp only [h₁.checkAll_eq, ih h₁]

/-- The tenants with another number of appends after which a log is due. -/
def withThreshold (t : Tenants) (n : Nat) : Tenants := { t with threshold := n }

theorem openStem_withThreshold (t : Tenants) (n : Nat) (stem : String) :
    (t.withThreshold n).openStem stem = (t.openStem stem).map (·.withThreshold n) := by
  unfold openStem
  by_cases hfull : t.stores.size ≥ tenantCeiling
  · rw [if_pos hfull, if_pos (show (t.withThreshold n).stores.size ≥ tenantCeiling from hfull)]
    rfl
  · rw [if_neg hfull, if_neg (show ¬ (t.withThreshold n).stores.size ≥ tenantCeiling from hfull)]
    simp only [withThreshold]
    cases Store.ofLog t.disk (logName stem) with
    | error e => rfl
    | ok s => rfl

theorem openTenant_withThreshold (t : Tenants) (n : Nat) (tenant : String) :
    (t.withThreshold n).openTenant tenant =
      (t.openTenant tenant).map fun (stem, t) => (stem, t.withThreshold n) := by
  unfold openTenant
  split
  · rfl
  · simp only
    split
    · rfl
    · by_cases hopen : stemOf tenant ∈ t.stores
      · rw [if_pos hopen, if_pos (show stemOf tenant ∈ (t.withThreshold n).stores from hopen)]
        rfl
      · rw [if_neg hopen, if_neg (show stemOf tenant ∉ (t.withThreshold n).stores from hopen),
          openStem_withThreshold]
        cases t.openStem (stemOf tenant) with
        | error e => rfl
        | ok t₁ => rfl

theorem serve_withThreshold {α : Type} (t : Tenants) (n : Nat) (stem : String)
    (call : Desk LogFile → α × Desk LogFile) :
    (t.withThreshold n).serve stem call =
      (t.serve stem call).map fun (answer, t) => (answer, t.withThreshold n) := by
  simp only [serve, desk?, withThreshold, Option.map_map]
  rfl

theorem surveyTenant_withThreshold (t : Tenants) (n : Nat) (wanted : Bool) (tenant : String) :
    Allotment.surveyTenant (t.withThreshold n) wanted tenant =
      ((Allotment.surveyTenant t wanted tenant).1,
        (Allotment.surveyTenant t wanted tenant).2.withThreshold n) := by
  unfold Allotment.surveyTenant
  rw [openTenant_withThreshold]
  cases t.openTenant tenant with
  | error e => rfl
  | ok opened =>
      obtain ⟨stem, t₁⟩ := opened
      simp only [Except.map, serve_withThreshold]
      rcases t₁.serve stem fun d => surveyDesk d wanted tenant with _ | ⟨e | r, t₂⟩
      · rfl
      · rfl
      · rfl

/-- A survey does not ask when a log is due. -/
theorem surveyAll_withThreshold (t : Tenants) (n : Nat) (wanted : Bool) (tenants : List String) :
    surveyAll (t.withThreshold n) wanted tenants =
      ((surveyAll t wanted tenants).1, (surveyAll t wanted tenants).2.withThreshold n) := by
  induction tenants generalizing t with
  | nil => rfl
  | cons x tenants ih =>
      rw [surveyAll, surveyAll, surveyTenant_withThreshold]
      rcases Allotment.surveyTenant t wanted x with ⟨e | r, t₁⟩
      · rfl
      · simp only [ih]

end Tenants

/-- **Compactors find nothing to do during a survey**, however many appends make a log due. -/
theorem surveyAmid_eq (d : Disk) (wanted : Bool) (threshold : Nat) (meanwhile : Meanwhile) :
    surveyAmid d wanted threshold meanwhile = survey d wanted := by
  unfold surveyAmid survey
  cases d.makeDirectory with
  | error e => rfl
  | ok d₁ =>
      simp only
      cases discover d₁ with
      | error e => rfl
      | ok tenants =>
          have hstart : Tenants.start d₁ threshold .zero =
              (Tenants.start d₁ 0 .zero).withThreshold threshold := rfl
          simp only [(Tenants.quiet_start d₁ threshold .zero).surveyAllAmid_eq]
          rw [hstart, Tenants.surveyAll_withThreshold]
          rfl

end Allotment
