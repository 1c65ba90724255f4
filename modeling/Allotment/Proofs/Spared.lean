/-
**Which logs a run leaves alone.**

A run may break off at any tenant: its name may be too long, its log may be a directory, or there
may be no room for its snapshot.  However it ends, it has dealt with each tenant through its own
log, and a log that it does not compact has at most lost what could not be read of it.  So a log
with a finding is never rewritten, and no log is if compaction is declined.  Other entries of the
data directory are as they were, but for the temporary files of the logs that a run sets out to
compact.

Compactors that check logs while a run is under way make no difference to it.

Main definitions:

* `Allotment.Intact` — a log that has not been rewritten;
* `Allotment.Exposed` — the entries that a survey may change;
* `Allotment.Spared` — what a survey has done to the directory, whether or not it has broken off.

Main results:

* `Allotment.surveyAll_spared` — **what a survey of several tenants does to the directory, however
  it ends**;
* `Allotment.suspect_spared` — **a run never rewrites a suspect log**.
-/

import Allotment.Proofs.EveryLog
import Allotment.Proofs.Meanwhile

set_option relaxedAutoImplicit false
set_option autoImplicit false

namespace Allotment

open Disk (Within)
open Log (frames scan temporaryName)

/-! ### Logs that are left alone -/

/-- **A log that has not been rewritten**: its entry is as it was, or its file ends behind the
records that could be read. -/
def Intact (name : String) (d d' : Disk) : Prop :=
  d'.entry? name = d.entry? name ∨
    ∃ f f', d.file? name = some f ∧ d'.file? name = some f' ∧
      f'.bytes = f.bytes.take (scan f.bytes).good

/-- The entries that a survey of these tenants may change: their logs, and the temporary files of
those logs that it sets out to compact. -/
def Exposed (wanted : Bool) (tenants : List String) (d : Disk) (y : String) : Prop :=
  ∃ x ∈ tenants, y = logName x ∨
    compacts wanted (tablesOf d x) = true ∧ y = temporaryName (logName x)

/-- **What a survey of these tenants has done to the directory**, whether or not it has broken
off. -/
structure Spared (wanted : Bool) (tenants : List String) (d d' : Disk) : Prop where
  /-- A log is intact, unless it was to be compacted and has been. -/
  log : ∀ x ∈ tenants, Intact (logName x) d d' ∨
    compacts wanted (tablesOf d x) = true ∧
      ∃ f, d'.file? (logName x) = some f ∧ f.bytes = frames (tablesOf d x).snapshotRecords
  /-- Nothing else has changed. -/
  within : Within (Exposed wanted tenants d) d d'

namespace Spared

variable {wanted : Bool} {tenants : List String} {d d' d'' : Disk}

theorem refl (wanted : Bool) (tenants : List String) (d : Disk) : Spared wanted tenants d d :=
  ⟨fun _ _ => Or.inl (Or.inl rfl), .refl _ d⟩

/-- What it takes to have dealt with one tenant. -/
theorem singleton {x : String}
    (hlog : Intact (logName x) d d' ∨ compacts wanted (tablesOf d x) = true ∧
      ∃ f, d'.file? (logName x) = some f ∧ f.bytes = frames (tablesOf d x).snapshotRecords)
    (hwithin : Within (fun y => y = logName x ∨
      compacts wanted (tablesOf d x) = true ∧ y = temporaryName (logName x)) d d') :
    Spared wanted [x] d d' where
  log y hy := by
    obtain rfl := List.mem_singleton.1 hy
    exact hlog
  within := hwithin.mono fun y hy => ⟨x, List.mem_singleton_self x, hy⟩

/-- The log of another tenant is as it was. -/
theorem entry?_eq (h : Spared wanted tenants d d') {y : String} (hy : y ∉ tenants) :
    d'.entry? (logName y) = d.entry? (logName y) := by
  refine h.within.other _ ?_
  rintro ⟨x, hx, heq | ⟨_, heq⟩⟩
  · exact hy (logName_injective heq ▸ hx)
  · exact temporaryName_ne_logName _ _ heq.symm

theorem file?_eq (h : Spared wanted tenants d d') {y : String} (hy : y ∉ tenants) :
    d'.file? (logName y) = d.file? (logName y) := by
  rw [Disk.file?, Disk.file?, h.entry?_eq hy]

theorem tablesOf_eq (h : Spared wanted tenants d d') {y : String} (hy : y ∉ tenants) :
    tablesOf d' y = tablesOf d y := by
  rw [tablesOf, tablesOf, logBytes, logBytes, h.file?_eq hy]

/-- A survey that breaks off at one of its tenants has not come to the others. -/
theorem mono (h : Spared wanted tenants d d') {tenants' : List String}
    (hsub : ∀ x ∈ tenants, x ∈ tenants') : Spared wanted tenants' d d' where
  log x _ := by
    by_cases hx : x ∈ tenants
    · exact h.log x hx
    · exact Or.inl (Or.inl (h.entry?_eq hx))
  within := h.within.mono fun _ ⟨x, hx, hy⟩ => ⟨x, hsub x hx, hy⟩

/-- Dealing with one tenant and then with others is dealing with all of them. -/
theorem cons {x : String} (h : Spared wanted [x] d d') (h' : Spared wanted tenants d' d'')
    (hx : x ∉ tenants) : Spared wanted (x :: tenants) d d'' where
  log y hy := by
    rcases List.mem_cons.1 hy with rfl | hy'
    · have hlog := h.log y (List.mem_singleton_self y)
      rw [Intact, h'.entry?_eq hx, h'.file?_eq hx]
      exact hlog
    · have hne : y ∉ [x] := fun hin => hx (List.mem_singleton.1 hin ▸ hy')
      have hlog := h'.log y hy'
      rw [Intact, h.entry?_eq hne, h.file?_eq hne, h.tablesOf_eq hne] at hlog
      exact hlog
  within := by
    have hfirst := h.within.mono (q := Exposed wanted (x :: tenants) d)
      fun _ ⟨y, hy, hexposed⟩ => ⟨y, List.mem_cons.2 (Or.inl (List.mem_singleton.1 hy)), hexposed⟩
    refine hfirst.trans (h'.within.mono ?_)
    rintro z ⟨y, hy, hexposed⟩
    have hne : y ∉ [x] := fun hin => hx (List.mem_singleton.1 hin ▸ hy)
    rw [h.tablesOf_eq hne] at hexposed
    exact ⟨y, List.mem_cons_of_mem _ hy, hexposed⟩

end Spared

/-! ### Surveys that may break off -/

/-- **A log that was opened has not been rewritten** as long as nothing is put in its place: it ends
behind what could be read. -/
theorem Store.Opened.intact {d d' : Disk} {name : String} {bs : Log.Bytes} {s : Store LogFile}
    (h : Store.Opened d name bs s) (hentry : d.entry? name ≠ none)
    (hsame : d'.entry? name = s.journal.disk.entry? name) : Intact name d d' := by
  rcases h.source with hsome | ⟨hnone, _⟩
  · obtain ⟨f, hf, rfl⟩ := Option.map_eq_some_iff.1 hsome
    have hfile := h.rest.file
    rw [h.named, Disk.file?, ← hsame] at hfile
    exact Or.inr ⟨f, _, hf, hfile, rfl⟩
  · exact absurd hnone hentry

/-- **Surveying one store**, also if its log is to be compacted and cannot be. -/
theorem surveyDesk_spared {d : Disk} {tenant : String} {s : Store LogFile}
    (ho : Store.ofLog d (logName tenant) = .ok s) (hentry : d.entry? (logName tenant) ≠ none)
    (m : Meter) (wanted : Bool) :
    let desk := (surveyDesk ⟨s, m⟩ wanted tenant).2
    desk.store.journal.writer.sink.buffer = [] ∧
      Spared wanted [tenant] d desk.store.journal.disk := by
  obtain ⟨bs, hs⟩ := Store.opened_of_ofLog ho
  have htables : tablesOf d tenant = s.tables := by rw [tablesOf, hs.bytes_eq, hs.tables]
  have hopened : Within (· = logName tenant) d s.journal.disk := (Store.ofLog_confined ho).journal.2
  unfold surveyDesk
  rw [Desk.list_of_no_rival hs.alone]
  cases hc : compacts wanted s.tables with
  | false =>
      have hkeep : (wanted && List.isEmpty (Desk.audit ⟨s, m⟩)) = false := hc
      simp only [hkeep, Bool.false_eq_true, if_false]
      exact ⟨hs.rest.buffer, .singleton (Or.inl (hs.intact hentry rfl))
        (hopened.mono fun _ => Or.inl)⟩
  | true =>
      have hgo : (wanted && List.isEmpty (Desk.audit ⟨s, m⟩)) = true := hc
      have hstays := (Desk.compact_stays (d := ⟨s, m⟩) hs.named).1.within
      have hwithin : Within (fun y => y = logName tenant ∨
          compacts wanted (tablesOf d tenant) = true ∧ y = temporaryName (logName tenant)) d
            (Desk.compact ⟨s, m⟩).2.store.journal.disk := by
        refine (hopened.mono fun _ => Or.inl).trans (hstays.mono ?_)
        rintro y (hy | hy)
        · exact Or.inl hy
        · exact Or.inr ⟨htables ▸ hc, hy⟩
      simp only [hgo, if_true]
      rcases Store.compact_cases hs.rest with
        ⟨_, e, d', he, hother⟩ | ⟨_, w', d', he, hrest, hname, _, _, _⟩
      · simp only [Desk.compact, he] at hwithin ⊢
        refine ⟨hs.rest.buffer, .singleton (Or.inl (hs.intact hentry (hother _ ?_))) hwithin⟩
        exact (temporaryName_ne_logName _ _).symm
      · simp only [Desk.compact, he] at hwithin ⊢
        have hfile := hrest.file
        rw [hname, hs.named] at hfile
        refine ⟨hrest.buffer, .singleton (Or.inr ⟨htables ▸ hc, _, hfile, ?_⟩) hwithin⟩
        rw [htables]

/-- **Surveying one tenant**, however this ends. -/
theorem surveyTenant_spared {t : Tenants} (hidle : t.Idle) {tenant : String}
    (hstem : stemOf tenant = tenant) (hnew : tenant ∉ t.stores)
    (hentry : t.disk.entry? (logName tenant) ≠ none) (wanted : Bool) :
    let t' := (surveyTenant t wanted tenant).2
    t'.Idle ∧ Spared wanted [tenant] t.disk t'.disk ∧
      ∀ x ∈ t'.stores, x = tenant ∨ x ∈ t.stores := by
  rcases Tenants.openTenant_cases hstem hnew with ⟨_, e, he⟩ | ⟨_, _, _, s, ho, he⟩
  · simp only [surveyTenant, he]
    exact ⟨hidle, .refl _ _ _, fun _ hx => Or.inr hx⟩
  · obtain ⟨bs, hs⟩ := Store.opened_of_ofLog ho
    obtain ⟨hbuffer, hspared⟩ := surveyDesk_spared ho hentry (t.withOpen tenant s).meter wanted
    have hall : ∀ desk : Desk LogFile, desk.store.journal.writer.sink.buffer = [] →
        ((t.withOpen tenant s).putDesk tenant desk).Idle ∧
          ∀ x ∈ ((t.withOpen tenant s).putDesk tenant desk).stores, x = tenant ∨ x ∈ t.stores := by
      intro desk hdesk
      refine ⟨(hidle.withOpen tenant hs.rest.buffer).putDesk tenant hdesk, ?_⟩
      intro x hx
      rw [Tenants.mem_stores_putDesk, Tenants.mem_stores_withOpen] at hx
      exact or_self_left.1 hx
    obtain ⟨hidle', hstores⟩ := hall _ hbuffer
    simp only [surveyTenant, he, Tenants.serve_withOpen]
    rcases hd : surveyDesk ⟨s, (t.withOpen tenant s).meter⟩ wanted tenant with ⟨e | r, desk⟩
    · rw [hd] at hspared hidle' hstores
      exact ⟨hidle', hspared, hstores⟩
    · rw [hd] at hspared hidle' hstores
      exact ⟨hidle', hspared, hstores⟩

/-- **Surveying several tenants**, however this ends. -/
theorem surveyAll_spared {t : Tenants} (hidle : t.Idle) {tenants : List String}
    (hnodup : tenants.Nodup)
    (htenants : ∀ x ∈ tenants, stemOf x = x ∧ x ∉ t.stores ∧ t.disk.entry? (logName x) ≠ none)
    (wanted : Bool) :
    let t' := (surveyAll t wanted tenants).2
    t'.Idle ∧ Spared wanted tenants t.disk t'.disk := by
  induction tenants generalizing t with
  | nil => exact ⟨hidle, .refl _ _ _⟩
  | cons x tenants ih =>
      obtain ⟨hx, hrest⟩ := List.nodup_cons.1 hnodup
      obtain ⟨hstem, hnew, hentry⟩ := htenants x List.mem_cons_self
      obtain ⟨hidle₁, hone, hstores₁⟩ := surveyTenant_spared hidle hstem hnew hentry wanted
      rw [surveyAll]
      rcases hs : surveyTenant t wanted x with ⟨e | r, t₁⟩
      · rw [hs] at hidle₁ hone
        exact ⟨hidle₁, hone.mono fun _ hy => List.mem_cons.2 (Or.inl (List.mem_singleton.1 hy))⟩
      · rw [hs] at hidle₁ hone hstores₁
        have htenants₁ : ∀ y ∈ tenants,
            stemOf y = y ∧ y ∉ t₁.stores ∧ t₁.disk.entry? (logName y) ≠ none := by
          intro y hy
          have hne : y ≠ x := fun heq => hx (heq ▸ hy)
          obtain ⟨hstem', hnew', hentry'⟩ := htenants y (List.mem_cons_of_mem _ hy)
          refine ⟨hstem', fun hin => (hstores₁ y hin).elim hne hnew', ?_⟩
          rw [hone.entry?_eq fun hin => hne (List.mem_singleton.1 hin)]
          exact hentry'
        obtain ⟨hidle₂, hall⟩ := ih hidle₁ hrest htenants₁
        exact ⟨hidle₂, hone.cons hall hx⟩

/-! ### A whole run -/

/-- The log of a tenant replays to the same tables in a directory that need not be made. -/
theorem tablesOf_makeDirectory {d d' : Disk} (h : d.makeDirectory = .ok d') (tenant : String) :
    tablesOf d' tenant = tablesOf d tenant := by
  have hoccupied : d.place ≠ .occupied := by
    intro hp
    rw [Disk.makeDirectory, hp] at h
    cases h
  obtain ⟨d₁, h₁, _, _, hentries⟩ := Disk.makeDirectory_of_not_occupied hoccupied
  cases h.symm.trans h₁
  rw [tablesOf, tablesOf, logBytes, logBytes, Disk.file?, Disk.file?, hentries]

/-- What a survey leaves behind, however it ends. -/
theorem survey_spared {d : Disk} {es : Entries} (hp : d.place = .directory es) (wanted : Bool) :
    ∃ tenants, discover d = .ok tenants ∧ Spared wanted tenants d (survey d wanted).2 := by
  have hm : d.makeDirectory = .ok d := by rw [Disk.makeDirectory, hp]
  obtain ⟨tenants, hd⟩ := exists_discover hp
  have htenants : ∀ x ∈ tenants,
      stemOf x = x ∧ x ∉ (Tenants.start d 0 .zero).stores ∧ d.entry? (logName x) ≠ none := by
    intro x hx
    exact ⟨(mem_discover hp hd hx).1, by simp [Tenants.start], entry?_of_mem_discover hp hd hx⟩
  obtain ⟨hidle, hspared⟩ :=
    surveyAll_spared (Tenants.idle_start d 0 .zero) (nodup_discover hd) htenants wanted
  refine ⟨tenants, hd, ?_⟩
  unfold survey
  simp only [hm, hd]
  rw [Tenants.closeAll_of_idle hidle]
  exact hspared

/-- **A run never rewrites a suspect log**, whatever there is in the place of the data directory,
whatever the environment says, and however the run ends.  A log with a finding keeps its bytes or
those of the records that could be read, and so does every log if compaction is declined; another
log may also have become its snapshot.  No other entries change, but for the temporary files of logs
that are to be compacted; nothing changes in the place of the directory, except that a missing
directory is made.  A log is reported as compacted only if its audit finds nothing.  Compactors that
check logs meanwhile make no difference. -/
theorem suspect_spared (d : Disk) (compaction : Option String) :
    let wanted := !compaction.any declines
    let d' := (runSurvey d compaction).2
    (d.place = .occupied → d' = d) ∧
    (d.place = .missing → d' = { d with place := .directory ∅ }) ∧
    (∀ es, d.place = .directory es → ∃ tenants es', discover d = .ok tenants ∧
      d'.place = .directory es' ∧
      (∀ x ∈ tenants, ((tablesOf d x).audit ≠ [] ∨ wanted = false → Intact (logName x) d d') ∧
        (Intact (logName x) d d' ∨ ∃ f, d'.file? (logName x) = some f ∧
          f.bytes = frames (tablesOf d x).snapshotRecords)) ∧
      ∀ y, (∀ x ∈ tenants, y ≠ logName x ∧
          (wanted = true → (tablesOf d x).audit = [] → y ≠ temporaryName (logName x))) →
        d'.entry? y = d.entry? y) ∧
    (runSurvey d compaction).1 = .ofReports (survey d wanted).1 ∧
    (∀ reports, (survey d wanted).1 = .ok reports → ∀ r ∈ reports,
      r.findings = (tablesOf d r.tenant).audit ∧ (r.compacted = true → r.findings = [])) ∧
    ∀ (threshold : Nat) (meanwhile : Meanwhile),
      runSurveyAmid d compaction threshold meanwhile = runSurvey d compaction := by
  intro wanted d'
  have hrun : d' = (survey d wanted).2 := rfl
  refine ⟨?_, ?_, ?_, rfl, ?_, ?_⟩
  · intro hp
    rw [hrun, survey, Disk.makeDirectory, hp]
  · intro hp
    have hkeys : (∅ : Entries).keys = [] := rfl
    have hnone : discover { d with place := .directory ∅ } = .ok [] := by
      simp [discover, Disk.names, Disk.entries, Except.map, hkeys]
    rw [hrun, survey, Disk.makeDirectory, hp]
    simp only [hnone]
    rfl
  · intro es hp
    obtain ⟨tenants, hd, hspared⟩ := survey_spared hp wanted
    rw [← hrun] at hspared
    have hplace : ∃ es', d'.place = .directory es' := by
      rcases hspared.within.place with hsame | ⟨_, es', _, hp'⟩
      · exact ⟨es, hsame.trans hp⟩
      · exact ⟨es', hp'⟩
    obtain ⟨es', hp'⟩ := hplace
    refine ⟨tenants, es', hd, hp', ?_, ?_⟩
    · intro x hx
      refine ⟨?_, (hspared.log x hx).imp_right And.right⟩
      intro hsuspect
      refine (hspared.log x hx).resolve_right ?_
      rintro ⟨hc, _⟩
      rcases hsuspect with hfound | hdeclined
      · exact hfound (audit_of_compacts hc)
      · rw [hdeclined] at hc
        cases hc
    · intro y hy
      refine hspared.within.other y ?_
      rintro ⟨x, hx, heq | ⟨hc, heq⟩⟩
      · exact (hy x hx).1 heq
      · exact (hy x hx).2 (Bool.and_eq_true_iff.1 hc).1 (audit_of_compacts hc) heq
  · intro reports hreports r hr
    obtain ⟨d₁, tenants, hm, _, _, _, rfl, _⟩ := survey_of_ok (Prod.ext hreports rfl)
    obtain ⟨x, _, rfl⟩ := List.mem_map.1 hr
    rw [tablesOf_makeDirectory hm]
    exact ⟨rfl, audit_of_compacts⟩
  · intro threshold meanwhile
    unfold runSurveyAmid runSurvey
    rw [surveyAmid_eq]

/-- Two logs, of which the second is suspect and has a temporary file that was left behind, and a
directory under the name of a third one. -/
def thirdUnusable : Disk :=
  (twoLogs.setEntry (logName "c") .directory).putFile (temporaryName (logName "b")) [1]

theorem place_thirdUnusable : ∃ es, thirdUnusable.place = .directory es := by
  obtain ⟨es, hp⟩ := place_ofLogs [("b", frames overGranted), ("a", frames [creation ⟨10⟩])]
  exact ⟨_, by rw [thirdUnusable, twoLogs, Disk.putFile, Disk.setEntry, Disk.setEntry, hp]⟩

/-- The run breaks off at the third log.  The suspect one is as it was or ends behind what could be
read, and its temporary file is as it was.  A run over the first two logs reports both.  Where there
is no data directory, a run makes an empty one or changes nothing. -/
theorem suspect_spared_broken_off :
    (runSurvey thirdUnusable none).1.complaint ≠ "" ∧
      (tablesOf thirdUnusable "b").audit ≠ [] ∧
      Intact (logName "b") thirdUnusable (runSurvey thirdUnusable none).2 ∧
      Disk.entry? (runSurvey thirdUnusable none).2 (temporaryName (logName "b")) =
        thirdUnusable.entry? (temporaryName (logName "b")) ∧
      (∃ reports, (runSurvey twoLogs none).1 = .ofReports (.ok reports) ∧
        ∀ r ∈ reports, r.compacted = true → r.findings = []) ∧
      (runSurvey ⟨.missing, true, 0⟩ none).2 = ⟨.directory ∅, true, 0⟩ ∧
      (runSurvey ⟨.occupied, true, 0⟩ none).2 = ⟨.occupied, true, 0⟩ := by
  obtain ⟨es, hp⟩ := place_thirdUnusable
  have hfile : thirdUnusable.file? (logName "b") = twoLogs.file? (logName "b") := rfl
  have hsuspect : (tablesOf thirdUnusable "b").audit ≠ [] := by
    rw [tablesOf, logBytes, hfile]
    exact audit_twoLogs
  obtain ⟨_, _, hdirectory, _, _, _⟩ := suspect_spared thirdUnusable none
  obtain ⟨tenants, _, hd, _, hlogs, hother⟩ := hdirectory es hp
  have hfound : Logs thirdUnusable tenants := logs_of_discover hp hd
  refine ⟨?_, hsuspect, ?_, hother _ ?_, ?_, ?_, ?_⟩
  · intro hnone
    obtain ⟨d₁, tenants', hm, hd', hready, _⟩ := surveyed_of_complaint hnone
    rw [Disk.makeDirectory, hp] at hm
    cases hm
    cases hd.symm.trans hd'
    have hc : HasLog thirdUnusable "c" :=
      ⟨by decide, stemOf_eq_self_iff.1 (by decide), by decide +kernel⟩
    obtain ⟨f, hf⟩ := (hready "c" ((hfound.mem_iff "c").2 hc)).present
    have hnofile : thirdUnusable.file? (logName "c") = none := rfl
    rw [hnofile] at hf
    cases hf
  · have hb : HasLog thirdUnusable "b" :=
      ⟨by decide, stemOf_eq_self_iff.1 (by decide), by decide +kernel⟩
    exact (hlogs "b" ((hfound.mem_iff "b").2 hb)).1 (Or.inl hsuspect)
  · intro x _
    refine ⟨temporaryName_ne_logName _ _, ?_⟩
    intro _ hclean heq
    obtain rfl := logName_injective (temporaryName_injective heq)
    exact hsuspect hclean
  · have hwithin : WithinLimits ["a", "b"] := by
      simp only [WithinLimits, List.forall_mem_cons]
      decide
    have hnone := (complaint_iff_withinLimits (unhindered_ofLogs _) logs_twoLogs none).2 hwithin
    obtain ⟨reports, hok⟩ := complaint_eq_iff.1 hnone
    obtain ⟨_, _, _, hresult, hreports, _⟩ := suspect_spared twoLogs none
    exact ⟨reports, hok ▸ hresult, fun r hr => (hreports reports hok r hr).2⟩
  · exact (suspect_spared ⟨.missing, true, 0⟩ none).2.1 rfl
  · exact (suspect_spared ⟨.occupied, true, 0⟩ none).1 rfl

end Allotment
