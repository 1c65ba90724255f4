/-
**What a survey does.**

A survey deals with one tenant after the other, and with each by its log alone.  Whether it succeeds
with a tenant can be said in advance: the name is not too long, the log is a file, and if the log is
going to be compacted, its snapshot can be written.  What it does to the directory is to replace the
log of each tenant, by its snapshot or by its readable part.  Since no log and no temporary file of
one tenant is one of another, the tenants do not come between each other, and the directory that a
survey leaves behind is fit for the next survey.

Main definitions:

* `Allotment.tablesOf`, `Allotment.reportOf` — what the log of a tenant replays to, and what a
  survey says about it;
* `Allotment.Ready` — what it takes to survey a tenant;
* `Allotment.Surveyed` — what a survey does to the directory.

Main results:

* `Allotment.surveyTenant_cases`, `Allotment.surveyAll_cases` — **a survey succeeds exactly if all
  tenants are ready, and then says and does this**;
* `Allotment.survey_of_ready`, `Allotment.survey_of_ok` — the same of a survey of a whole directory;
* `Allotment.surveyed_of_complaint` — **what a run that ends with a report has found, said and left
  behind**.
-/

import Allotment.Survey
import Allotment.Proofs.Compaction
import Allotment.Proofs.Tenants

set_option relaxedAutoImplicit false
set_option autoImplicit false

namespace Allotment

open Log (Bytes frames scan temporaryName)
open Log.Writer (Writable)

/-! ### What is said about a log, and what becomes of it -/

/-- The bytes of the log of a tenant; a log that is not there has none. -/
def logBytes (d : Disk) (tenant : String) : Bytes :=
  ((d.file? (logName tenant)).map (·.bytes)).getD []

/-- The tables that the log of a tenant replays to. -/
def tablesOf (d : Disk) (tenant : String) : Tables := .ofRecords (Log.replay (logBytes d tenant))

/-- Whether a survey compacts a log that replays to these tables. -/
def compacts (wanted : Bool) (t : Tables) : Bool := wanted && t.audit.isEmpty

/-- A log is compacted only if the audit finds nothing. -/
theorem audit_of_compacts {wanted : Bool} {t : Tables} (h : compacts wanted t = true) :
    t.audit = [] :=
  List.isEmpty_iff.1 (Bool.and_eq_true_iff.1 h).2

/-- What a survey says about a tenant with these tables. -/
def reportOf (wanted : Bool) (tenant : String) (t : Tables) : TenantReport :=
  ⟨tenant, compacts wanted t, listing .all t.quotas, t.audit⟩

/-- The bytes of a log after a survey. -/
def surveyedBytes (wanted : Bool) (bs : Bytes) : Bytes :=
  if compacts wanted (.ofRecords (Log.replay bs)) then
    frames (Tables.ofRecords (Log.replay bs)).snapshotRecords
  else bs.take (scan bs).good

/-- **What it takes to survey a tenant.** -/
structure Ready (wanted : Bool) (d : Disk) (tenant : String) : Prop where
  /-- The tenant has a name. -/
  named : tenant ≠ ""
  /-- The name is not too long. -/
  short : tenant.utf8ByteSize ≤ tenantNameBytes
  /-- The log is a file. -/
  present : ∃ f, d.file? (logName tenant) = some f
  /-- If the log is going to be compacted, its snapshot can be written. -/
  room : compacts wanted (tablesOf d tenant) = true →
    Writable d (logName tenant) (tablesOf d tenant).snapshotRecords

/-- **What a survey does to the directory**, if it surveys these tenants. -/
structure Surveyed (wanted : Bool) (tenants : List String) (d d' : Disk) : Prop where
  /-- The log of each tenant is replaced. -/
  log : ∀ x ∈ tenants, ∃ f, d'.file? (logName x) = some f ∧
    f.bytes = surveyedBytes wanted (logBytes d x)
  /-- If it was compacted, its temporary file is gone. -/
  temporary : ∀ x ∈ tenants, compacts wanted (tablesOf d x) = true →
    d'.entry? (temporaryName (logName x)) = none
  /-- Nothing else has changed. -/
  other : ∀ y, (∀ x ∈ tenants, y ≠ logName x ∧ y ≠ temporaryName (logName x)) →
    d'.entry? y = d.entry? y
  /-- Bytes can be written if they could be written before. -/
  writable : d'.writable = d.writable
  /-- A directory is still a directory. -/
  place : ∀ es, d.place = .directory es → ∃ es', d'.place = .directory es'

namespace Surveyed

variable {wanted : Bool} {tenants : List String} {d d' d'' : Disk}

theorem nil (wanted : Bool) (d : Disk) : Surveyed wanted [] d d where
  log x hx := by cases hx
  temporary x hx := by cases hx
  other y _ := rfl
  writable := rfl
  place es hp := ⟨es, hp⟩

/-- What it takes to have surveyed one tenant. -/
theorem singleton {x : String} {f : File} (hfile : d'.file? (logName x) = some f)
    (hbytes : f.bytes = surveyedBytes wanted (logBytes d x))
    (htemp : compacts wanted (tablesOf d x) = true →
      d'.entry? (temporaryName (logName x)) = none)
    (hother : ∀ y, y ≠ logName x → y ≠ temporaryName (logName x) → d'.entry? y = d.entry? y)
    (hwritable : d'.writable = d.writable) : Surveyed wanted [x] d d' where
  log y hy := by
    obtain rfl := List.mem_singleton.1 hy
    exact ⟨f, hfile, hbytes⟩
  temporary y hy hc := by
    obtain rfl := List.mem_singleton.1 hy
    exact htemp hc
  other y hy := by
    obtain ⟨hlog, htemporary⟩ := hy x (List.mem_singleton_self x)
    exact hother y hlog htemporary
  writable := hwritable
  place _ _ := by
    obtain ⟨es, hp, _⟩ := Disk.file?_eq_some_iff.1 hfile
    exact ⟨es, hp⟩

/-- The log and the temporary file of a tenant that was not surveyed are as they were. -/
theorem entries_eq (h : Surveyed wanted tenants d d') {y : String} (hy : y ∉ tenants) :
    d'.entry? (logName y) = d.entry? (logName y) ∧
      d'.entry? (temporaryName (logName y)) = d.entry? (temporaryName (logName y)) := by
  have hne : ∀ x ∈ tenants, x ≠ y := fun x hx heq => hy (heq ▸ hx)
  refine ⟨h.other _ fun x hx => ⟨?_, (temporaryName_ne_logName _ _).symm⟩,
    h.other _ fun x hx => ⟨temporaryName_ne_logName _ _, ?_⟩⟩
  · exact fun heq => hne x hx (logName_injective heq).symm
  · exact fun heq => hne x hx (logName_injective (temporaryName_injective heq)).symm

theorem file_eq (h : Surveyed wanted tenants d d') {y : String} (hy : y ∉ tenants) :
    d'.file? (logName y) = d.file? (logName y) := by
  rw [Disk.file?, Disk.file?, (h.entries_eq hy).1]

theorem logBytes_surveyed (h : Surveyed wanted tenants d d') {x : String} (hx : x ∈ tenants) :
    logBytes d' x = surveyedBytes wanted (logBytes d x) := by
  obtain ⟨f, hf, hbytes⟩ := h.log x hx
  rw [logBytes, hf, ← hbytes]
  rfl

theorem logBytes_eq (h : Surveyed wanted tenants d d') {y : String} (hy : y ∉ tenants) :
    logBytes d' y = logBytes d y := by
  rw [logBytes, logBytes, h.file_eq hy]

theorem tablesOf_eq (h : Surveyed wanted tenants d d') {y : String} (hy : y ∉ tenants) :
    tablesOf d' y = tablesOf d y := by
  rw [tablesOf, tablesOf, h.logBytes_eq hy]

/-- Surveying some tenants does not change whether another can be surveyed. -/
theorem ready_iff (h : Surveyed wanted tenants d d') {y : String} (hy : y ∉ tenants) :
    Ready wanted d' y ↔ Ready wanted d y := by
  have hw : Writable d' (logName y) (tablesOf d' y).snapshotRecords ↔
      Writable d (logName y) (tablesOf d y).snapshotRecords := by
    unfold Writable
    rw [(h.entries_eq hy).2, h.writable, h.tablesOf_eq hy]
  constructor
  · intro hr
    exact ⟨hr.named, hr.short, h.file_eq hy ▸ hr.present,
      fun hc => hw.1 (hr.room (h.tablesOf_eq hy ▸ hc))⟩
  · intro hr
    exact ⟨hr.named, hr.short, h.file_eq hy ▸ hr.present,
      fun hc => hw.2 (hr.room (h.tablesOf_eq hy ▸ hc))⟩

/-- Surveying one tenant and then others is surveying all of them. -/
theorem cons {x : String} (h : Surveyed wanted [x] d d') (h' : Surveyed wanted tenants d' d'')
    (hx : x ∉ tenants) : Surveyed wanted (x :: tenants) d d'' where
  log y hy := by
    rcases List.mem_cons.1 hy with rfl | hy'
    · rw [h'.file_eq hx]
      exact h.log y (by simp)
    · have hne : y ∉ [x] := fun hin => hx (List.mem_singleton.1 hin ▸ hy')
      rw [← h.logBytes_eq hne]
      exact h'.log y hy'
  temporary y hy hc := by
    rcases List.mem_cons.1 hy with rfl | hy'
    · rw [(h'.entries_eq hx).2]
      exact h.temporary y (by simp) hc
    · have hne : y ∉ [x] := fun hin => hx (List.mem_singleton.1 hin ▸ hy')
      rw [← h.tablesOf_eq hne] at hc
      exact h'.temporary y hy' hc
  other y hy := by
    rw [h'.other y fun z hz => hy z (List.mem_cons_of_mem _ hz)]
    exact h.other y fun z hz => hy z (List.mem_singleton.1 hz ▸ List.mem_cons_self)
  writable := h'.writable.trans h.writable
  place es hp := by
    obtain ⟨es₁, hp₁⟩ := h.place es hp
    exact h'.place es₁ hp₁

end Surveyed

/-! ### Surveying one tenant -/

theorem Store.Opened.bytes_eq {d : Disk} {tenant : String} {bs : Bytes} {s : Store LogFile}
    (h : Store.Opened d (logName tenant) bs s) : logBytes d tenant = bs := by
  rcases h.source with hf | ⟨hnone, rfl⟩
  · rw [logBytes, hf]
    rfl
  · rw [logBytes, Disk.file?, hnone]
    rfl

/-- A store that was just opened is surveyed unless its log is to be compacted and cannot be. -/
theorem surveyDesk_cases {d : Disk} {tenant : String} {bs : Bytes} {s : Store LogFile}
    (h : Store.Opened d (logName tenant) bs s) (m : Meter) (wanted : Bool) :
    (compacts wanted s.tables = true ∧
      ¬ Writable d (logName tenant) s.tables.snapshotRecords ∧
      ∃ e desk, surveyDesk ⟨s, m⟩ wanted tenant = (.error e, desk)) ∨
    ((compacts wanted s.tables = true → Writable d (logName tenant) s.tables.snapshotRecords) ∧
      ∃ desk, surveyDesk ⟨s, m⟩ wanted tenant = (.ok (reportOf wanted tenant s.tables), desk) ∧
        desk.store.journal.writer.sink.buffer = [] ∧
        Surveyed wanted [tenant] d desk.store.journal.disk) := by
  have hbytes := h.bytes_eq
  have hroom : Writable s.journal.disk s.journal.writer.name s.tables.snapshotRecords ↔
      Writable d (logName tenant) s.tables.snapshotRecords := by
    unfold Writable
    rw [h.named, h.other _ (Log.Writer.temporaryName_ne _), h.writable]
  unfold surveyDesk
  rw [Desk.list_of_no_rival h.alone]
  cases hc : compacts wanted s.tables with
  | false =>
      right
      have hkeep : (wanted && List.isEmpty (Desk.audit ⟨s, m⟩)) = false := hc
      refine ⟨(nomatch ·), ⟨s, m⟩, ?_, h.rest.buffer, ?_⟩
      · simp only [hkeep, Bool.false_eq_true, if_false]
        rw [reportOf, hc]
        rfl
      · have hlog := h.rest.file
        rw [h.named] at hlog
        refine Surveyed.singleton hlog ?_ ?_ (fun y hy _ => h.other y hy) h.writable
        · rw [surveyedBytes, hbytes, ← h.tables, hc]
          rfl
        · intro hcx
          rw [tablesOf, hbytes, ← h.tables, hc] at hcx
          cases hcx
  | true =>
      have hgo : (wanted && List.isEmpty (Desk.audit ⟨s, m⟩)) = true := hc
      rcases Store.compact_cases h.rest with
        ⟨hnot, e, d', he, _⟩ | ⟨hcan, w', d', he, hrest, hname, hwritable, htemp, hother⟩
      · left
        refine ⟨rfl, fun hw => hnot (hroom.2 hw), ?_⟩
        simp only [hgo, if_true, Desk.compact, he]
        exact ⟨_, _, rfl⟩
      · right
        refine ⟨fun _ => hroom.1 hcan, ?_⟩
        simp only [hgo, if_true, Desk.compact, he]
        have hfile := hrest.file
        rw [hname, h.named] at hfile
        rw [h.named] at htemp hother
        refine ⟨_, by rw [reportOf, hc]; rfl, hrest.buffer, ?_⟩
        refine Surveyed.singleton hfile ?_ (fun _ => htemp) ?_ (hwritable.trans h.writable)
        · rw [surveyedBytes, hbytes, ← h.tables, hc]
          rfl
        · intro y hlog htemporary
          exact (hother y htemporary hlog).trans (h.other y hlog)

/-- **How surveying one tenant can end.** -/
theorem surveyTenant_cases {t : Tenants} (hidle : t.Idle) {tenant : String}
    (hstem : stemOf tenant = tenant) (hnew : tenant ∉ t.stores)
    (hentry : t.disk.entry? (logName tenant) ≠ none) (wanted : Bool) :
    (¬ (Ready wanted t.disk tenant ∧ t.stores.size < tenantCeiling) ∧
      ∃ e t', surveyTenant t wanted tenant = (.error e, t')) ∨
    ((Ready wanted t.disk tenant ∧ t.stores.size < tenantCeiling) ∧
      ∃ t', surveyTenant t wanted tenant =
          (.ok (reportOf wanted tenant (tablesOf t.disk tenant)), t') ∧
        t'.Idle ∧ Surveyed wanted [tenant] t.disk t'.disk ∧
        t'.stores.size = t.stores.size + 1 ∧
        ∀ x, x ∈ t'.stores ↔ x = tenant ∨ x ∈ t.stores) := by
  rcases Tenants.openTenant_cases hstem hnew with
    ⟨hnot, e, he⟩ | ⟨hnamed, hshort, hsize, s, ho, he⟩
  · left
    refine ⟨?_, .file e, t, by rw [surveyTenant, he]⟩
    rintro ⟨hready, hsize⟩
    obtain ⟨f, hf⟩ := hready.present
    obtain ⟨s, ho, _⟩ := Store.ofLog_of_file? hf
    exact hnot ⟨hready.named, hready.short, hsize, s, ho⟩
  · obtain ⟨bs, hs⟩ := Store.opened_of_ofLog ho
    have htables : tablesOf t.disk tenant = s.tables := by
      rw [tablesOf, hs.bytes_eq, hs.tables]
    have hpresent : ∃ f, t.disk.file? (logName tenant) = some f := by
      rcases hs.source with hsome | ⟨hnone, _⟩
      · obtain ⟨f, hf, _⟩ := Option.map_eq_some_iff.1 hsome
        exact ⟨f, hf⟩
      · exact absurd hnone hentry
    rcases surveyDesk_cases hs (t.withOpen tenant s).meter wanted with
      ⟨hc, hnot, e, desk, hd⟩ | ⟨hroom, desk, hd, hbuffer, hsurveyed⟩
    · left
      refine ⟨fun h => hnot (htables ▸ h.1.room (htables ▸ hc)), .desk e, ?_⟩
      simp only [surveyTenant, he, Tenants.serve_withOpen, hd]
      exact ⟨_, rfl⟩
    · right
      refine ⟨⟨⟨hnamed, hshort, hpresent, htables ▸ hroom⟩, hsize⟩, ?_⟩
      simp only [surveyTenant, he, Tenants.serve_withOpen, hd]
      refine ⟨_, by rw [htables], ?_, hsurveyed, ?_, ?_⟩
      · exact (hidle.withOpen tenant hs.rest.buffer).putDesk tenant hbuffer
      · rw [Tenants.size_stores_putDesk, if_pos (Tenants.mem_stores_withOpen.2 (Or.inl rfl)),
          Tenants.size_stores_withOpen s hnew]
      · intro x
        rw [Tenants.mem_stores_putDesk, Tenants.mem_stores_withOpen]
        exact or_self_left

/-! ### Surveying all tenants -/

/-- **How surveying several tenants can end.** -/
theorem surveyAll_cases {t : Tenants} (hidle : t.Idle) {tenants : List String}
    (hnodup : tenants.Nodup)
    (htenants : ∀ x ∈ tenants, stemOf x = x ∧ x ∉ t.stores ∧ t.disk.entry? (logName x) ≠ none)
    (hsize : t.stores.size ≤ tenantCeiling) (wanted : Bool) :
    (¬ ((∀ x ∈ tenants, Ready wanted t.disk x) ∧
        t.stores.size + tenants.length ≤ tenantCeiling) ∧
      ∃ e t', surveyAll t wanted tenants = (.error e, t')) ∨
    (((∀ x ∈ tenants, Ready wanted t.disk x) ∧
        t.stores.size + tenants.length ≤ tenantCeiling) ∧
      ∃ t', surveyAll t wanted tenants =
          (.ok (tenants.map fun x => reportOf wanted x (tablesOf t.disk x)), t') ∧
        t'.Idle ∧ Surveyed wanted tenants t.disk t'.disk) := by
  induction tenants generalizing t with
  | nil =>
      right
      exact ⟨⟨(fun x hx => by cases hx), hsize⟩, t, rfl, hidle, Surveyed.nil wanted t.disk⟩
  | cons x tenants ih =>
      obtain ⟨hx, hrest⟩ := List.nodup_cons.1 hnodup
      obtain ⟨hstem, hnew, hentry⟩ := htenants x (by simp)
      rcases surveyTenant_cases hidle hstem hnew hentry wanted with
        ⟨hnot, e, t₁, he⟩ | ⟨⟨hready, hroom⟩, t₁, he, hidle₁, hone, hsize₁, hstores₁⟩
      · left
        refine ⟨fun h => hnot ⟨h.1 x (by simp), ?_⟩, e, t₁, ?_⟩
        · have := h.2
          rw [List.length_cons] at this
          omega
        · simp only [surveyAll, he]
      · have hother : ∀ y ∈ tenants, y ∉ [x] := fun y hy hin => hx (List.mem_singleton.1 hin ▸ hy)
        have htenants₁ : ∀ y ∈ tenants,
            stemOf y = y ∧ y ∉ t₁.stores ∧ t₁.disk.entry? (logName y) ≠ none := by
          intro y hy
          obtain ⟨hstem', hnew', hentry'⟩ := htenants y (List.mem_cons_of_mem _ hy)
          refine ⟨hstem', ?_, by rw [(hone.entries_eq (hother y hy)).1]; exact hentry'⟩
          intro hin
          rcases (hstores₁ y).1 hin with rfl | hin
          · exact hx hy
          · exact hnew' hin
        -- whether the rest can be surveyed is the same before and after the first tenant
        have hiff : ((∀ y ∈ tenants, Ready wanted t₁.disk y) ∧
              t₁.stores.size + tenants.length ≤ tenantCeiling) ↔
            ((∀ y ∈ x :: tenants, Ready wanted t.disk y) ∧
              t.stores.size + (x :: tenants).length ≤ tenantCeiling) := by
          rw [hsize₁, List.length_cons, Nat.add_assoc, Nat.add_comm 1, List.forall_mem_cons]
          refine and_congr_left fun _ => ⟨fun h => ⟨hready, ?_⟩, fun h => ?_⟩
          · exact fun y hy => (hone.ready_iff (hother y hy)).1 (h y hy)
          · exact fun y hy => (hone.ready_iff (hother y hy)).2 (h.2 y hy)
        rcases ih hidle₁ hrest htenants₁ (by omega) with
          ⟨hnot, e, t₂, he₂⟩ | ⟨hall, t₂, he₂, hidle₂, hsurveyed⟩
        · left
          refine ⟨fun h => hnot (hiff.2 h), e, t₂, ?_⟩
          simp only [surveyAll, he, he₂]
          rfl
        · right
          refine ⟨hiff.1 hall, t₂, ?_, hidle₂, hone.cons hsurveyed hx⟩
          have hmap : tenants.map (fun y => reportOf wanted y (tablesOf t₁.disk y)) =
              tenants.map fun y => reportOf wanted y (tablesOf t.disk y) :=
            List.map_congr_left fun y hy => by rw [hone.tablesOf_eq (hother y hy)]
          simp only [surveyAll, he, he₂, hmap, List.map_cons]
          rfl

/-! ### Surveying a directory -/

theorem place_of_makeDirectory {d d' : Disk} (h : d.makeDirectory = .ok d') :
    ∃ es, d'.place = .directory es := by
  unfold Disk.makeDirectory at h
  split at h
  · cases h
    exact ⟨∅, rfl⟩
  · cases h
  · next es hp =>
    cases h
    exact ⟨es, hp⟩

/-- A directory that was just made has no files. -/
theorem eq_of_makeDirectory {d d' : Disk} (h : d.makeDirectory = .ok d') {name : String} {f : File}
    (hf : d'.file? name = some f) : d' = d := by
  unfold Disk.makeDirectory at h
  split at h
  · cases h
    obtain ⟨es, hp, he⟩ := Disk.file?_eq_some_iff.1 hf
    cases hp
    simp at he
  · cases h
  · cases h
    rfl

/-- Tenants are found only in a directory that need not be made. -/
theorem eq_of_discover {d d' : Disk} (h : d.makeDirectory = .ok d') {tenants : List String}
    (hd : discover d = .ok tenants) : d' = d := by
  cases hp : d.place with
  | directory es =>
      rw [Disk.makeDirectory, hp] at h
      exact (Except.ok.inj h).symm
  | missing => simp [discover, Disk.names, Disk.entries, hp, Except.map] at hd
  | occupied => simp [discover, Disk.names, Disk.entries, hp, Except.map] at hd

/-- It makes no difference to a survey whether the directory was made before. -/
theorem survey_of_makeDirectory {d d' : Disk} (h : d.makeDirectory = .ok d') (wanted : Bool) :
    survey d wanted = survey d' wanted := by
  obtain ⟨es, hp⟩ := place_of_makeDirectory h
  have h' : d'.makeDirectory = .ok d' := by rw [Disk.makeDirectory, hp]
  unfold survey
  rw [h, h']

/-- Surveying what was found in a directory, starting with no tenant open. -/
theorem surveyAll_start {d : Disk} {es : Entries} (hp : d.place = .directory es)
    {tenants : List String} (hd : discover d = .ok tenants) (wanted : Bool) :
    (¬ ((∀ x ∈ tenants, Ready wanted d x) ∧ tenants.length ≤ tenantCeiling) ∧
      ∃ e t', surveyAll (.start d 0 .zero) wanted tenants = (.error e, t')) ∨
    (((∀ x ∈ tenants, Ready wanted d x) ∧ tenants.length ≤ tenantCeiling) ∧
      ∃ t', surveyAll (.start d 0 .zero) wanted tenants =
          (.ok (tenants.map fun x => reportOf wanted x (tablesOf d x)), t') ∧
        t'.Idle ∧ Surveyed wanted tenants d t'.disk) := by
  have hempty : (Tenants.start d 0 .zero).stores.size = 0 := rfl
  have hcases := surveyAll_cases (Tenants.idle_start d 0 .zero) (nodup_discover hd) (fun x hx => ?_)
    (Nat.zero_le _) wanted
  · rw [hempty, Nat.zero_add] at hcases
    exact hcases
  · exact ⟨(mem_discover hp hd hx).1, by simp [Tenants.start], entry?_of_mem_discover hp hd hx⟩

/-- **What a survey that succeeds has found and left behind.** -/
theorem survey_of_ok {d d' : Disk} {wanted : Bool} {reports : List TenantReport}
    (h : survey d wanted = (.ok reports, d')) :
    ∃ d₁ tenants, d.makeDirectory = .ok d₁ ∧ discover d₁ = .ok tenants ∧
      (∀ x ∈ tenants, Ready wanted d₁ x) ∧ tenants.length ≤ tenantCeiling ∧
      reports = tenants.map (fun x => reportOf wanted x (tablesOf d₁ x)) ∧
      Surveyed wanted tenants d₁ d' := by
  unfold survey at h
  cases hm : d.makeDirectory with
  | error e => simp [hm] at h
  | ok d₁ =>
      cases hd : discover d₁ with
      | error e => simp [hm, hd] at h
      | ok tenants =>
          obtain ⟨es, hp⟩ := place_of_makeDirectory hm
          simp only [hm, hd] at h
          rcases surveyAll_start hp hd wanted with
            ⟨_, e, t', he⟩ | ⟨⟨hready, hlength⟩, t', he, hidle, hsurveyed⟩
          · rw [he] at h
            cases h
          · rw [he] at h
            simp only [Prod.mk.injEq, Except.ok.injEq] at h
            rw [Tenants.closeAll_of_idle hidle] at h
            obtain ⟨rfl, rfl⟩ := h
            exact ⟨d₁, tenants, rfl, hd, hready, hlength, rfl, hsurveyed⟩

/-- A survey of a directory succeeds if all tenants in it are ready. -/
theorem survey_of_ready {d : Disk} {es : Entries} (hp : d.place = .directory es)
    {tenants : List String} (hd : discover d = .ok tenants) {wanted : Bool}
    (hready : ∀ x ∈ tenants, Ready wanted d x) (hlength : tenants.length ≤ tenantCeiling) :
    (survey d wanted).1 = .ok (tenants.map fun x => reportOf wanted x (tablesOf d x)) := by
  have hm : d.makeDirectory = .ok d := by rw [Disk.makeDirectory, hp]
  unfold survey
  simp only [hm, hd]
  rcases surveyAll_start hp hd wanted with ⟨hnot, _⟩ | ⟨_, t', he, _, _⟩
  · exact absurd ⟨hready, hlength⟩ hnot
  · rw [he]

/-! ### A whole run -/

/-- A run prints a complaint unless its survey succeeds. -/
theorem complaint_eq_iff {d : Disk} {compaction : Option String} :
    (runSurvey d compaction).1.complaint = "" ↔
      ∃ reports, (survey d (!compaction.any declines)).1 = .ok reports := by
  unfold runSurvey
  rcases survey d (!compaction.any declines) with ⟨e | reports, d'⟩
  · constructor
    · intro h
      have hlength := congrArg String.length h
      simp only [RunResult.ofReports, String.length_append] at hlength
      have herror : ("Error: " : String).length = 7 := rfl
      have hnone : ("" : String).length = 0 := rfl
      omega
    · rintro ⟨reports, h⟩
      cases h
  · exact ⟨fun _ => ⟨reports, rfl⟩, fun _ => rfl⟩

/-- A run that prints a complaint prints nothing else and has status 1. -/
theorem failed_of_complaint {d : Disk} {compaction : Option String}
    (h : (runSurvey d compaction).1.complaint ≠ "") :
    (runSurvey d compaction).1.status = 1 ∧ (runSurvey d compaction).1.output = "" := by
  revert h
  unfold runSurvey
  rcases survey d (!compaction.any declines) with ⟨e | reports, d'⟩
  · exact fun _ => ⟨rfl, rfl⟩
  · exact fun h => absurd rfl h

/-- What a run that ends with a report has found and left behind. -/
theorem surveyed_of_complaint {d : Disk} {compaction : Option String}
    (h : (runSurvey d compaction).1.complaint = "") :
    ∃ d₁ tenants, d.makeDirectory = .ok d₁ ∧ discover d₁ = .ok tenants ∧
      (∀ x ∈ tenants, Ready (!compaction.any declines) d₁ x) ∧ tenants.length ≤ tenantCeiling ∧
      (runSurvey d compaction).1 = .ofReports (.ok
        (tenants.map fun x => reportOf (!compaction.any declines) x (tablesOf d₁ x))) ∧
      Surveyed (!compaction.any declines) tenants d₁ (runSurvey d compaction).2 := by
  obtain ⟨reports, hreports⟩ := complaint_eq_iff.1 h
  unfold runSurvey
  rcases hs : survey d (!compaction.any declines) with ⟨result, d'⟩
  rw [hs] at hreports
  obtain rfl : result = .ok reports := hreports
  obtain ⟨d₁, tenants, hm, hd, hready, hlength, rfl, hsurveyed⟩ := survey_of_ok hs
  exact ⟨d₁, tenants, hm, hd, hready, hlength, rfl, hsurveyed⟩

end Allotment
