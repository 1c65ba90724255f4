/-
**What a clean audit is worth.**

A run compacts the logs in which the audit finds nothing, and what a compaction loses is not there
for the next run to find.  Whether a compaction loses anything can be said for each log by itself,
since a survey deals with each tenant by its log alone.  If none does, the directory that a run
leaves behind looks to the next run like the one that it has found.

Main definitions:

* `Allotment.Compacted` — the logs that a run compacts.

Main results:

* `Allotment.Surveyed.tablesOf_surveyed`, `Allotment.Surveyed.same_surveyed_iff` — what the logs
  replay to after a survey;
* `Allotment.runSurvey_twice` — **a second run prints the same as the first** if no compaction of
  the first has lost anything;
* `Allotment.clean_audit_compaction` — **what a clean audit is worth**;
* `Allotment.clean_audit_compaction_two_quotas` — **a clean audit does not make a compaction safe**.
-/

import Allotment.Proofs.Survey

set_option relaxedAutoImplicit false
set_option autoImplicit false

namespace Allotment

open Log (frames temporaryName)
open Log.Writer (Writable)

/-! ### Surveying a directory twice -/

namespace Surveyed

variable {wanted : Bool} {tenants : List String} {d d' : Disk} {es : Entries}

/-- The next survey finds the same tenants. -/
theorem discover_eq (h : Surveyed wanted tenants d d') (hp : d.place = .directory es)
    (hd : discover d = .ok tenants) : discover d' = .ok tenants := by
  obtain ⟨es', hp'⟩ := h.place es hp
  rw [← hd]
  refine discover_congr hp' hp ?_
  intro name hname
  obtain ⟨stem, hstem⟩ := Option.isSome_iff_exists.1 hname
  obtain rfl := eq_logName_of_logStem? hstem
  rw [Disk.mem_iff_entry? hp, Disk.mem_iff_entry? hp']
  by_cases hin : stem ∈ tenants
  · obtain ⟨f, hf, _⟩ := h.log stem hin
    rw [Disk.entry?_of_file? hf]
    exact iff_of_true (Option.some_ne_none _) (entry?_of_mem_discover hp hd hin)
  · rw [(h.entries_eq hin).1]

/-- A log that was not compacted replays to the same tables as before. -/
theorem tablesOf_of_not_compacts (h : Surveyed wanted tenants d d') {x : String} (hx : x ∈ tenants)
    (hc : compacts wanted (tablesOf d x) = false) : tablesOf d' x = tablesOf d x := by
  rw [tablesOf] at hc
  rw [tablesOf, h.logBytes_surveyed hx, surveyedBytes, hc, if_neg Bool.false_ne_true, Log.replay,
    Log.scan_take_good]
  rfl

/-- A log that was compacted replays to what its snapshot replays to. -/
theorem tablesOf_of_compacts (h : Surveyed wanted tenants d d') {x : String} (hx : x ∈ tenants)
    (hc : compacts wanted (tablesOf d x) = true) :
    tablesOf d' x = .ofRecords (Log.replay (frames (tablesOf d x).snapshotRecords)) := by
  rw [tablesOf] at hc
  rw [tablesOf, h.logBytes_surveyed hx, surveyedBytes, if_pos hc]
  rfl

/-- If no compaction has lost anything, every log replays to the same tables as before. -/
theorem tablesOf_surveyed (h : Surveyed wanted tenants d d') {x : String} (hx : x ∈ tenants)
    (hkeep : compacts wanted (tablesOf d x) = true → (tablesOf d x).Filed ∧ (tablesOf d x).Fits) :
    tablesOf d' x = tablesOf d x := by
  cases hc : compacts wanted (tablesOf d x) with
  | false => exact h.tablesOf_of_not_compacts hx hc
  | true =>
      obtain ⟨hfiled, hfits⟩ := hkeep hc
      rw [h.tablesOf_of_compacts hx hc]
      exact ofRecords_replay_snapshot (audit_of_compacts hc) hfiled hfits

/-- A compaction loses nothing exactly if its snapshot does not. -/
theorem same_surveyed_iff (h : Surveyed wanted tenants d d') {x : String} (hx : x ∈ tenants)
    (hc : compacts wanted (tablesOf d x) = true) :
    Tables.Same (tablesOf d' x) (tablesOf d x) ↔ (tablesOf d x).Filed ∧ (tablesOf d x).Fits := by
  rw [h.tablesOf_of_compacts hx hc]
  exact same_replay_snapshot_iff (audit_of_compacts hc)

end Surveyed

/-- A tenant that was surveyed can be surveyed again. -/
theorem Surveyed.ready {wanted : Bool} {tenants : List String} {d d' : Disk}
    (h : Surveyed wanted tenants d d') {x : String} (hx : x ∈ tenants)
    (htables : tablesOf d' x = tablesOf d x) (hready : Ready wanted d x) : Ready wanted d' x where
  named := hready.named
  short := hready.short
  present := by
    obtain ⟨f, hf, _⟩ := h.log x hx
    exact ⟨f, hf⟩
  room hc := by
    rw [htables] at hc ⊢
    refine ⟨by rw [h.temporary x hx hc]; exact nofun, ?_⟩
    rw [h.writable]
    exact (hready.room hc).2

/-- A run finds this tenant and compacts its log. -/
def Compacted (d : Disk) (compaction : Option String) (tenant : String) : Prop :=
  (∃ tenants, discover d = .ok tenants ∧ tenant ∈ tenants) ∧
    compacts (!compaction.any declines) (tablesOf d tenant) = true

/-- A run that ends with a report loses nothing of a log that it compacts exactly if the snapshot
loses nothing. -/
theorem same_runSurvey_iff {d : Disk} {compaction : Option String} {x : String}
    (hok : (runSurvey d compaction).1.complaint = "") (hx : Compacted d compaction x) :
    Tables.Same (tablesOf (runSurvey d compaction).2 x) (tablesOf d x) ↔
      (tablesOf d x).Filed ∧ (tablesOf d x).Fits := by
  obtain ⟨d₁, tenants, hm, hd, hready, _, _, hsurveyed⟩ := surveyed_of_complaint hok
  obtain ⟨⟨tenants', hd', hx⟩, hc⟩ := hx
  -- a directory in which tenants are found need not be made
  obtain rfl := eq_of_discover hm hd'
  obtain rfl : tenants' = tenants := Except.ok.inj (hd'.symm.trans hd)
  exact hsurveyed.same_surveyed_iff hx hc

/-- **A second run prints the same as the first**, if the first ends with a report and no compaction
of it has lost anything. -/
theorem runSurvey_twice {d : Disk} {compaction : Option String}
    (hok : (runSurvey d compaction).1.complaint = "")
    (hkeep : ∀ x, Compacted d compaction x → (tablesOf d x).Filed ∧ (tablesOf d x).Fits) :
    (runSurvey (runSurvey d compaction).2 compaction).1 = (runSurvey d compaction).1 := by
  obtain ⟨d₁, tenants, hm, hd, hready, hlength, hreport, hsurveyed⟩ := surveyed_of_complaint hok
  rw [hreport]
  generalize (runSurvey d compaction).2 = d' at hsurveyed ⊢
  obtain ⟨es, hp⟩ := place_of_makeDirectory hm
  obtain ⟨es', hp'⟩ := hsurveyed.place es hp
  have hsame : ∀ x ∈ tenants, tablesOf d' x = tablesOf d₁ x := by
    intro x hx
    refine hsurveyed.tablesOf_surveyed hx ?_
    intro hc
    obtain ⟨f, hf⟩ := (hready x hx).present
    obtain rfl := eq_of_makeDirectory hm hf
    exact hkeep x ⟨⟨tenants, hd, hx⟩, hc⟩
  have hagain := survey_of_ready hp' (hsurveyed.discover_eq hp hd)
    (fun x hx => hsurveyed.ready hx (hsame x hx) (hready x hx)) hlength
  have hmap : tenants.map (fun x => reportOf (!compaction.any declines) x (tablesOf d' x)) =
      tenants.map fun x => reportOf (!compaction.any declines) x (tablesOf d₁ x) :=
    List.map_congr_left fun x hx => by rw [hsame x hx]
  simp only [runSurvey, hagain, hmap]

/-! ### A directory with one log -/

/-- A directory with one log, which holds these records. -/
def oneLog (rs : List Record) : Disk := Disk.blank.putFile (logName "a") (frames rs)

theorem place_oneLog (rs : List Record) :
    (oneLog rs).place = .directory ((∅ : Entries).insert (logName "a") (.file ⟨0, frames rs⟩)) :=
  rfl

theorem discover_oneLog (rs : List Record) : discover (oneLog rs) = .ok ["a"] := by
  have hkeys : ((∅ : Entries).insert (logName "a") (.file ⟨0, frames rs⟩)).keys = [logName "a"] :=
    rfl
  have hstem : logStem? (logName "a") = some "a" := by
    decide
  have hsafe : stemOf "a" = "a" := by
    decide
  simp only [discover, Disk.names, Disk.entries, place_oneLog, Except.map, hkeys,
    List.filterMap_cons, hstem, List.filterMap_nil, List.filter_cons, hsafe, List.filter_nil,
    decide_true, if_true, List.mergeSort_singleton]

theorem file?_oneLog (rs : List Record) :
    (oneLog rs).file? (logName "a") = some ⟨0, frames rs⟩ :=
  Disk.file?_putFile rfl (logName "a") (frames rs)

theorem tablesOf_oneLog {rs : List Record} (h : ∀ r ∈ rs, Log.Readable r) :
    tablesOf (oneLog rs) "a" = .ofRecords rs := by
  rw [tablesOf, logBytes, file?_oneLog, Option.map_some, Option.getD_some, Log.replay,
    Log.scan_frames h]

theorem writable_oneLog (rs ss : List Record) : Writable (oneLog rs) (logName "a") ss := by
  refine ⟨?_, Or.inl rfl⟩
  have hne : (logName "a" : String) ≠ temporaryName (logName "a") :=
    (temporaryName_ne_logName _ _).symm
  have hentry : Disk.entry? (oneLog rs) (temporaryName (logName "a")) = none := by
    rw [Disk.entry?_of_place rfl, Std.ExtTreeMap.getElem?_insert]
    simp [hne]
  rw [hentry]
  exact nofun

/-- A log of readable records can be compacted. -/
theorem exists_compacted_oneLog {rs : List Record} (h : ∀ r ∈ rs, Log.Readable r) :
    ∃ s s', Store.ofLog (oneLog rs) (logName "a") = .ok s ∧
      Store.Opened (oneLog rs) (logName "a") (frames rs) s ∧ s.tables = .ofRecords rs ∧
      s.compact = (.ok (), s') := by
  obtain ⟨s, ho, hs⟩ := Store.ofLog_of_file? (file?_oneLog rs)
  have htables := hs.tables
  rw [Log.replay, Log.scan_frames h] at htables
  rcases Store.compact_cases hs.rest with ⟨hnot, _⟩ | ⟨_, w', d', he, _⟩
  · refine absurd ?_ hnot
    have hw := writable_oneLog rs s.tables.snapshotRecords
    unfold Writable at hw ⊢
    rwa [hs.named, hs.other _ (Log.Writer.temporaryName_ne _), hs.writable]
  · exact ⟨s, _, ho, hs, htables, he⟩

/-- The terms of the quotas of both logs. -/
def fiveUnits : Terms := ⟨⟨5, 0⟩, "n", "p", ⟨2026, 8, 1, by decide⟩⟩

/-- The creation of a quota. -/
def creation (quota : Ulid) : Record := .created quota fiveUnits ⟨⟨1⟩⟩

/-- The grant of two units of a quota, always with the same identifier. -/
def grantOfTwo (quota : Ulid) : Record := .allocated ⟨⟨12⟩, quota, none, 2, 0⟩ ⟨⟨1⟩⟩

theorem readable_creation (quota : Ulid) : Log.Readable (creation quota) :=
  Log.readable_created rfl _ _

theorem readable_grantOfTwo (quota : Ulid) : Log.Readable (grantOfTwo quota) :=
  Log.readable_allocated rfl _

/-! ### What a clean audit is worth -/

/-- **What a clean audit is worth.**  A log in which the audit finds nothing is compacted without
loss exactly if every allocation is listed under its own quota only and all terms fit into a record,
whether a store compacts it or a run.  If this is so of all logs that a run compacts, a second run
prints the same as the first. -/
theorem clean_audit_compaction (d : Disk) :
    (∀ (name : String) (s s' : Store LogFile), Store.ofLog d name = .ok s →
      s.tables.audit = [] → s.compact = (.ok (), s') →
        ∃ s'', Store.ofLog s'.close name = .ok s'' ∧
          (Tables.Same s''.tables s.tables ↔ s.tables.Filed ∧ s.tables.Fits)) ∧
    ∀ compaction : Option String, (runSurvey d compaction).1.complaint = "" →
      (∀ x, Compacted d compaction x →
        (Tables.Same (tablesOf (runSurvey d compaction).2 x) (tablesOf d x) ↔
          (tablesOf d x).Filed ∧ (tablesOf d x).Fits)) ∧
      ((∀ x, Compacted d compaction x → (tablesOf d x).Filed ∧ (tablesOf d x).Fits) →
        (runSurvey (runSurvey d compaction).2 compaction).1 = (runSurvey d compaction).1) := by
  constructor
  · intro name s s' ho ha hc
    exact Store.same_reopened_iff ho ha hc
  · intro compaction hok
    constructor
    · intro x hx
      exact same_runSurvey_iff hok hx
    · intro hkeep
      exact runSurvey_twice hok hkeep

/-- A log in which a quota was granted the same identifier twice. -/
def repeatedGrant : List Record := [creation ⟨10⟩, grantOfTwo ⟨10⟩, grantOfTwo ⟨10⟩]

theorem readable_repeatedGrant : ∀ r ∈ repeatedGrant, Log.Readable r := by
  simp [repeatedGrant, readable_creation, readable_grantOfTwo]

/-- All grants are about one quota, and the terms fit, so nothing can be lost. -/
theorem keeps_repeatedGrant :
    (Tables.ofRecords repeatedGrant).Filed ∧ (Tables.ofRecords repeatedGrant).Fits := by
  have htraced := Tables.Traced.ofRecords repeatedGrant
  have hgrant : ∀ a version, Record.allocated a version ∈ repeatedGrant → a.quota = ⟨10⟩ := by
    intro a version hr
    simp only [repeatedGrant, creation, grantOfTwo, List.mem_cons, reduceCtorEq, false_or,
      Record.allocated.injEq, List.not_mem_nil, or_false, or_self] at hr
    rw [hr.1]
  constructor
  · intro quota a ha
    obtain ⟨i, hi, hf⟩ := Ledger.mem_entries.1 ha
    obtain ⟨b, version, hb, rfl, _⟩ := htraced.listed quota i hi
    obtain ⟨version', ha'⟩ := htraced.granted i a hf
    rw [hgrant a version' ha', hgrant b version hb]
  · intro id s hs
    obtain ⟨r, hr, hterms⟩ := htraced.terms id s hs
    have hfive : s.terms = fiveUnits := by
      simp only [repeatedGrant, List.mem_cons, List.not_mem_nil, or_false] at hr
      rcases hr with rfl | rfl | rfl
      · exact (Option.some.inj hterms).symm
      · cases hterms
      · cases hterms
    rw [hfive]
    exact Log.readable_created rfl _ _

/-- The survey of this directory succeeds. -/
theorem complaint_repeatedGrant : (runSurvey (oneLog repeatedGrant) none).1.complaint = "" := by
  have hready : ∀ x ∈ ["a"], Ready true (oneLog repeatedGrant) x := by
    intro x hx
    obtain rfl := List.mem_singleton.1 hx
    exact ⟨by decide, by decide, ⟨_, file?_oneLog _⟩, fun _ => writable_oneLog _ _⟩
  exact complaint_eq_iff.2
    ⟨_, survey_of_ready (place_oneLog _) (discover_oneLog _) hready (by decide)⟩

/-- An identifier that was granted twice on one quota does no harm. -/
theorem clean_audit_compaction_repeated :
    (∃ s s' s'', Store.ofLog (oneLog repeatedGrant) (logName "a") = .ok s ∧
      s.tables.audit = [] ∧ s.compact = (.ok (), s') ∧
      Store.ofLog s'.close (logName "a") = .ok s'' ∧ Tables.Same s''.tables s.tables ∧
      (s''.tables.quota? ⟨10⟩).map (·.reserved) = some 4) ∧
    (runSurvey (oneLog repeatedGrant) none).1.complaint = "" ∧
      Compacted (oneLog repeatedGrant) none "a" ∧
      Tables.Same (tablesOf (runSurvey (oneLog repeatedGrant) none).2 "a")
        (.ofRecords repeatedGrant) ∧
      (runSurvey (runSurvey (oneLog repeatedGrant) none).2 none).1 =
        (runSurvey (oneLog repeatedGrant) none).1 := by
  have haudit : (Tables.ofRecords repeatedGrant).audit = [] := by
    decide +kernel
  have htables := tablesOf_oneLog readable_repeatedGrant
  obtain ⟨hstore, hrun⟩ := clean_audit_compaction (oneLog repeatedGrant)
  constructor
  · obtain ⟨s, s', ho, _, ht, hc⟩ := exists_compacted_oneLog readable_repeatedGrant
    rw [← ht] at haudit
    obtain ⟨s'', ho', hsame⟩ := hstore _ s s' ho haudit hc
    have hsame' := hsame.2 (ht ▸ keeps_repeatedGrant)
    refine ⟨s, s', s'', ho, haudit, hc, ho', hsame', ?_⟩
    rw [(hsame' ⟨10⟩).1, ht]
    decide +kernel
  · have hc : Compacted (oneLog repeatedGrant) none "a" := by
      refine ⟨⟨_, discover_oneLog _, List.mem_singleton_self _⟩, ?_⟩
      rw [htables, compacts, haudit]
      rfl
    obtain ⟨hiff, hagain⟩ := hrun none complaint_repeatedGrant
    refine ⟨complaint_repeatedGrant, hc, ?_, ?_⟩
    · rw [← htables]
      exact (hiff "a" hc).2 (htables ▸ keeps_repeatedGrant)
    · refine hagain ?_
      rintro x ⟨⟨tenants, hd, hx⟩, _⟩
      obtain rfl := Except.ok.inj (hd.symm.trans (discover_oneLog _))
      obtain rfl := List.mem_singleton.1 hx
      exact htables ▸ keeps_repeatedGrant

/-- A log in which two quotas were granted the same identifier. -/
def twoQuotas : List Record :=
  [creation ⟨10⟩, creation ⟨11⟩, grantOfTwo ⟨10⟩, grantOfTwo ⟨11⟩]

/-- **A clean audit does not make a compaction safe**: if two quotas were granted the same
identifier for the same number of units, the sums agree, but the first of them has lost its
allocation and its units when the compacted log is opened again. -/
theorem clean_audit_compaction_two_quotas :
    ∃ s s' s'', Store.ofLog (oneLog twoQuotas) (logName "a") = .ok s ∧ s.tables.audit = [] ∧
      s.compact = (.ok (), s') ∧ Store.ofLog s'.close (logName "a") = .ok s'' ∧
      (s.tables.quota? ⟨10⟩).map (·.reserved) = some 2 ∧
      (s''.tables.quota? ⟨10⟩).map (·.reserved) = some 0 ∧
      ¬ Tables.Same s''.tables s.tables := by
  have hread : ∀ r ∈ twoQuotas, Log.Readable r := by
    simp [twoQuotas, readable_creation, readable_grantOfTwo]
  obtain ⟨s, s', ho, hs, ht, hc⟩ := exists_compacted_oneLog hread
  obtain ⟨s'', ho', ht''⟩ := Store.reopen_compacted hs hc
  have hsnapshot : (Tables.ofRecords twoQuotas).snapshotRecords =
      [creation ⟨10⟩, grantOfTwo ⟨11⟩, creation ⟨11⟩, grantOfTwo ⟨11⟩] := by
    decide +kernel
  have hread' : ∀ r ∈ (Tables.ofRecords twoQuotas).snapshotRecords, Log.Readable r := by
    simp [hsnapshot, readable_creation, readable_grantOfTwo]
  rw [ht, Log.replay, Log.scan_frames hread', hsnapshot] at ht''
  have hbefore : (s.tables.quota? ⟨10⟩).map (·.reserved) = some 2 := by
    rw [ht]
    decide +kernel
  have hafter : (s''.tables.quota? ⟨10⟩).map (·.reserved) = some 0 := by
    rw [ht'']
    decide +kernel
  refine ⟨s, s', s'', ho, by rw [ht]; decide +kernel, hc, ho', hbefore, hafter, ?_⟩
  intro hsame
  rw [(hsame ⟨10⟩).1, hbefore] at hafter
  exact absurd hafter (by decide)

end Allotment
