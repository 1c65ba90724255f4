/-
**A run reports every log.**

Which logs there are is decided by their names alone, and a run that ends with a report has an entry
for each of them.  But a log must not only be found, it must also be opened, and there the limits
for tenants apply: no name is longer than 128 bytes, and at most 1024 tenants are open at a time.
The first log beyond a limit ends the run without a report.

Main definitions:

* `Allotment.HasLog`, `Allotment.Logs` — the logs in a directory;
* `Allotment.Unhindered` — a directory in which no entry is in the way of a run;
* `Allotment.ReportsAll` — a report with exactly one entry for each log;
* `Allotment.WithinLimits` — the limits for tenants, for the logs of a directory.

Main results:

* `Allotment.reportsAll_iff_withinLimits` — **a run reports every log exactly if the logs keep the
  limits for tenants**, and else prints no report at all;
* `Allotment.not_reportsAll_beyond_limits` — logs that one run cannot report.
-/

import Std.Data.String.ToNat
import Allotment.Proofs.CleanAudit

set_option relaxedAutoImplicit false
set_option autoImplicit false

namespace Allotment

open Log (Bytes frames temporaryName)

/-! ### The logs in a directory -/

/-- The directory has a log with this stem: the stem is a name of safe characters, and the name of
its log is taken. -/
structure HasLog (d : Disk) (stem : String) : Prop where
  /-- The stem is not empty. -/
  named : stem ≠ ""
  /-- It has safe characters only. -/
  safe : ∀ c ∈ stem.toList, isSafe c = true
  /-- There is an entry for its log. -/
  present : d.entry? (logName stem) ≠ none

/-- These are the stems of all logs in the directory, in ascending order. -/
structure Logs (d : Disk) (stems : List String) : Prop where
  /-- No stem stands there twice. -/
  ascending : stems.Pairwise (· < ·)
  /-- All logs are there, and nothing else. -/
  mem_iff : ∀ stem, stem ∈ stems ↔ HasLog d stem

/-- The logs of a directory can be listed in one way only. -/
theorem Logs.unique {d : Disk} {stems stems' : List String} (h : Logs d stems)
    (h' : Logs d stems') : stems = stems' := by
  refine List.Perm.eq_of_pairwise ?_ h.ascending h'.ascending ?_
  · intro s t _ _ hst hts
    exact absurd hts (String.lt_asymm hst)
  · rw [List.perm_ext_iff_of_nodup (h.ascending.imp String.ne_of_lt)
      (h'.ascending.imp String.ne_of_lt)]
    intro stem
    rw [h.mem_iff, h'.mem_iff]

/-- What is found in a directory are its logs. -/
theorem logs_of_discover {d : Disk} {es : Entries} (hp : d.place = .directory es)
    {stems : List String} (h : discover d = .ok stems) : Logs d stems where
  ascending := pairwise_discover h
  mem_iff stem := by
    rw [mem_discover_iff hp h, stemOf_eq_self_iff, Disk.mem_iff_entry? hp]
    exact ⟨fun ⟨hn, hs, he⟩ => ⟨hn, hs, he⟩, fun hl => ⟨hl.named, hl.safe, hl.present⟩⟩

/-! ### What a run should print -/

/-- A report on a log shows the quotas that its readable records come to, in order, and what the
audit finds in them. -/
structure Tells (d : Disk) (r : TenantReport) : Prop where
  /-- Each quota is shown once. -/
  shown : r.quotas.Perm ((tablesOf d r.tenant).quotas.map Quota.view)
  /-- The quotas are in order. -/
  sorted : r.quotas.Pairwise fun v w => (v.order w).isLE = true
  /-- The findings are those of the audit. -/
  findings : r.findings = (tablesOf d r.tenant).audit

/-- **The result of a run reports every log**: what is printed is a list of reports, one for each
log, in ascending order, and the status is 1 exactly if one of them has a finding. -/
def ReportsAll (d : Disk) (result : RunResult) : Prop :=
  ∃ reports : List TenantReport,
    Logs d (reports.map (·.tenant)) ∧ (∀ r ∈ reports, Tells d r) ∧
      result = ⟨if reports.all (·.findings.isEmpty) then 0 else 1,
        (Json.arr (reports.map (·.toJson))).print ++ "\n", ""⟩

/-- A run that reports every log has status 1 exactly if the audit finds something in one of
them. -/
theorem ReportsAll.status_eq_one_iff {d : Disk} {result : RunResult} (h : ReportsAll d result) :
    result.status = 1 ↔ ∃ stem, HasLog d stem ∧ (tablesOf d stem).audit ≠ [] := by
  obtain ⟨reports, hlogs, htells, rfl⟩ := h
  have hstatus : (if reports.all (·.findings.isEmpty) then 0 else 1) = 1 ↔
      ∃ r ∈ reports, r.findings ≠ [] := by
    simp
  refine hstatus.trans ⟨?_, ?_⟩
  · rintro ⟨r, hr, hfinding⟩
    rw [(htells r hr).findings] at hfinding
    exact ⟨r.tenant, (hlogs.mem_iff _).1 (List.mem_map_of_mem hr), hfinding⟩
  · rintro ⟨stem, hl, hfinding⟩
    obtain ⟨r, hr, rfl⟩ := List.mem_map.1 ((hlogs.mem_iff stem).2 hl)
    exact ⟨r, hr, (htells r hr).findings ▸ hfinding⟩

/-- No entry of the directory is in the way of a run, and bytes can be written. -/
structure Unhindered (d : Disk) : Prop where
  /-- No regular file is in the place of the directory. -/
  place : d.place ≠ .occupied
  /-- Every log is a regular file. -/
  log : ∀ stem, HasLog d stem → ∃ f, d.file? (logName stem) = some f
  /-- No directory has the name of the temporary file of a log. -/
  temporary : ∀ stem, HasLog d stem → d.entry? (temporaryName (logName stem)) ≠ some .directory
  /-- Bytes can be written. -/
  writable : d.writable = true

/-- **The limits for tenants**: no stem is too long, and there are not too many. -/
def WithinLimits (stems : List String) : Prop :=
  (∀ stem ∈ stems, stem.utf8ByteSize ≤ tenantNameBytes) ∧ stems.length ≤ tenantCeiling

/-! ### Making the directory

A directory that is missing is made, which changes nothing about the logs in it. -/

section

variable {d d' : Disk} (hsame : ∀ name, d'.entry? name = d.entry? name)
include hsame

theorem file?_congr (name : String) : d'.file? name = d.file? name := by
  rw [Disk.file?, Disk.file?, hsame]

theorem tablesOf_congr (stem : String) : tablesOf d' stem = tablesOf d stem := by
  rw [tablesOf, tablesOf, logBytes, logBytes, file?_congr hsame]

theorem HasLog.congr {stem : String} (h : HasLog d' stem) : HasLog d stem :=
  ⟨h.named, h.safe, hsame _ ▸ h.present⟩

theorem hasLog_congr (stem : String) : HasLog d' stem ↔ HasLog d stem :=
  ⟨HasLog.congr hsame, HasLog.congr fun name => (hsame name).symm⟩

theorem Logs.congr {stems : List String} (h : Logs d' stems) : Logs d stems :=
  ⟨h.ascending, fun stem => (h.mem_iff stem).trans (hasLog_congr hsame stem)⟩

theorem Tells.congr {r : TenantReport} (h : Tells d' r) : Tells d r := by
  have htables := tablesOf_congr hsame r.tenant
  exact ⟨htables ▸ h.shown, h.sorted, htables ▸ h.findings⟩

theorem Unhindered.congr (h : Unhindered d') (hplace : d.place ≠ .occupied)
    (hwritable : d.writable = true) : Unhindered d where
  place := hplace
  log stem hl := by
    rw [← file?_congr hsame]
    exact h.log stem ((hasLog_congr hsame stem).2 hl)
  temporary stem hl := by
    rw [← hsame]
    exact h.temporary stem ((hasLog_congr hsame stem).2 hl)
  writable := hwritable

end

/-! ### Directories in which there is nothing but logs -/

/-- The directory with these logs, each with its stem and its bytes. -/
def ofLogs : List (String × Bytes) → Disk
  | [] => .blank
  | (stem, bs) :: logs => (ofLogs logs).putFile (logName stem) bs

theorem place_ofLogs (logs : List (String × Bytes)) :
    ∃ es, (ofLogs logs).place = .directory es := by
  induction logs with
  | nil => exact ⟨∅, rfl⟩
  | cons p logs ih =>
      obtain ⟨es, hp⟩ := ih
      exact ⟨es.insert (logName p.1) (.file ⟨(ofLogs logs).nextSerial, p.2⟩),
        by simp [ofLogs, Disk.putFile, Disk.setEntry, hp]⟩

theorem writable_ofLogs (logs : List (String × Bytes)) : (ofLogs logs).writable = true := by
  induction logs with
  | nil => rfl
  | cons p logs ih => simp [ofLogs, Disk.putFile, ih]

theorem entry?_ofLogs_cons (stem : String) (bs : Bytes) (logs : List (String × Bytes))
    (name : String) :
    Disk.entry? (ofLogs ((stem, bs) :: logs)) name =
      if logName stem = name then some (.file ⟨(ofLogs logs).nextSerial, bs⟩)
      else Disk.entry? (ofLogs logs) name := by
  obtain ⟨es, hp⟩ := place_ofLogs logs
  exact Disk.entry?_putFile hp (logName stem) name bs

theorem logBytes_ofLogs_cons (stem : String) (bs : Bytes) (logs : List (String × Bytes)) :
    logBytes (ofLogs ((stem, bs) :: logs)) stem = bs := by
  rw [logBytes, Disk.file?_of_entry? ((entry?_ofLogs_cons stem bs logs _).trans (if_pos rfl))]
  rfl

/-- Every entry is the regular file of a log. -/
theorem entry?_ofLogs (logs : List (String × Bytes)) (name : String) :
    Disk.entry? (ofLogs logs) name = none ∧ (∀ p ∈ logs, logName p.1 ≠ name) ∨
      ∃ f, Disk.entry? (ofLogs logs) name = some (.file f) ∧ ∃ p ∈ logs, logName p.1 = name := by
  induction logs with
  | nil => exact Or.inl ⟨by simp [ofLogs, Disk.blank, Disk.entry?], by simp⟩
  | cons p logs ih =>
      obtain ⟨stem, bs⟩ := p
      rw [entry?_ofLogs_cons]
      by_cases hname : logName stem = name
      · right
        exact ⟨_, if_pos hname, _, List.mem_cons_self, hname⟩
      · rw [if_neg hname]
        rcases ih with ⟨hnone, hnot⟩ | ⟨f, hf, p, hp, hpname⟩
        · left
          refine ⟨hnone, ?_⟩
          rintro q (_ | ⟨_, hq⟩)
          · exact hname
          · exact hnot q hq
        · right
          exact ⟨f, hf, p, List.mem_cons_of_mem _ hp, hpname⟩

theorem unhindered_ofLogs (logs : List (String × Bytes)) : Unhindered (ofLogs logs) where
  place := by
    obtain ⟨es, hp⟩ := place_ofLogs logs
    rw [hp]
    exact nofun
  log stem hl := by
    rcases entry?_ofLogs logs (logName stem) with ⟨hnone, _⟩ | ⟨f, hf, _⟩
    · exact absurd hnone hl.present
    · exact ⟨f, Disk.file?_of_entry? hf⟩
  temporary stem _ := by
    rcases entry?_ofLogs logs (temporaryName (logName stem)) with ⟨hnone, _⟩ | ⟨f, hf, _⟩
    · rw [hnone]
      exact nofun
    · rw [hf]
      exact nofun
  writable := writable_ofLogs logs

/-- The logs in the directory are those that it was made of. -/
theorem hasLog_ofLogs_iff {logs : List (String × Bytes)} {stem : String} :
    HasLog (ofLogs logs) stem ↔
      stem ≠ "" ∧ (∀ c ∈ stem.toList, isSafe c = true) ∧ stem ∈ logs.map (·.1) := by
  have hpresent : Disk.entry? (ofLogs logs) (logName stem) ≠ none ↔ stem ∈ logs.map (·.1) := by
    rw [List.mem_map]
    rcases entry?_ofLogs logs (logName stem) with ⟨hnone, hnot⟩ | ⟨f, hf, p, hp, hname⟩
    · refine ⟨fun h => absurd hnone h, ?_⟩
      rintro ⟨p, hp, rfl⟩
      exact absurd rfl (hnot p hp)
    · exact ⟨fun _ => ⟨p, hp, logName_injective hname⟩, fun _ => by rw [hf]; exact nofun⟩
  rw [← hpresent]
  exact ⟨fun h => ⟨h.named, h.safe, h.present⟩, fun ⟨hn, hs, he⟩ => ⟨hn, hs, he⟩⟩

/-! ### A run -/

theorem tells_reportOf (wanted : Bool) (d : Disk) (stem : String) :
    Tells d (reportOf wanted stem (tablesOf d stem)) where
  shown := listing_all_perm _
  sorted := pairwise_listing _ _
  findings := rfl

/-- A log can be surveyed unless its stem is too long. -/
theorem Unhindered.ready {d : Disk} (h : Unhindered d) {stem : String} (hl : HasLog d stem)
    (hshort : stem.utf8ByteSize ≤ tenantNameBytes) (wanted : Bool) : Ready wanted d stem where
  named := hl.named
  short := hshort
  present := h.log stem hl
  room _ := ⟨h.temporary stem hl, Or.inl h.writable⟩

/-- The logs of a directory can be listed, as soon as it is made. -/
theorem exists_found {d : Disk} (hplace : d.place ≠ .occupied) :
    ∃ d' es stems, d.makeDirectory = .ok d' ∧ d'.place = .directory es ∧
      d'.writable = d.writable ∧ (∀ name, d'.entry? name = d.entry? name) ∧
      discover d' = .ok stems ∧ Logs d stems := by
  obtain ⟨d', hm, ⟨es, hp⟩, hwritable, hsame⟩ := Disk.makeDirectory_of_not_occupied hplace
  obtain ⟨stems, hd⟩ := exists_discover hp
  exact ⟨d', es, stems, hm, hp, hwritable, hsame, hd, (logs_of_discover hp hd).congr hsame⟩

/-- A run reports every log exactly if it ends with a report. -/
theorem reportsAll_iff_complaint {d : Disk} {compaction : Option String}
    (hplace : d.place ≠ .occupied) :
    ReportsAll d (runSurvey d compaction).1 ↔ (runSurvey d compaction).1.complaint = "" := by
  constructor
  · rintro ⟨reports, _, _, hresult⟩
    rw [hresult]
  · intro h
    obtain ⟨d₁, tenants, hm, hd, _, _, hresult, _⟩ := surveyed_of_complaint h
    obtain ⟨d', es, stems, hm', _, _, hsame, hd', hlogs⟩ := exists_found hplace
    -- the run has found what there is to be found
    obtain rfl : d' = d₁ := Except.ok.inj (hm'.symm.trans hm)
    obtain rfl : stems = tenants := Except.ok.inj (hd'.symm.trans hd)
    refine ⟨stems.map fun x => reportOf (!compaction.any declines) x (tablesOf d' x), ?_, ?_,
      hresult⟩
    · have htenant : (fun r : TenantReport => r.tenant) ∘
          (fun x => reportOf (!compaction.any declines) x (tablesOf d' x)) = id := rfl
      rwa [List.map_map, htenant, List.map_id]
    · intro r hr
      obtain ⟨stem, _, rfl⟩ := List.mem_map.1 hr
      exact (tells_reportOf _ d' stem).congr hsame

/-- A run ends with a report exactly if the logs keep the limits for tenants, provided that nothing
is in its way. -/
theorem complaint_iff_withinLimits {d : Disk} (h : Unhindered d) {stems : List String}
    (hl : Logs d stems) (compaction : Option String) :
    (runSurvey d compaction).1.complaint = "" ↔ WithinLimits stems := by
  obtain ⟨d', es, stems', hm, hp, hwritable, hsame, hd, hl'⟩ := exists_found h.place
  obtain rfl := hl'.unique hl
  constructor
  · intro hnone
    obtain ⟨d₁, tenants, hm', hd', hready, hlength, _⟩ := surveyed_of_complaint hnone
    obtain rfl : d' = d₁ := Except.ok.inj (hm.symm.trans hm')
    obtain rfl : stems' = tenants := Except.ok.inj (hd.symm.trans hd')
    exact ⟨fun stem hs => (hready stem hs).short, hlength⟩
  · intro hw
    have h' : Unhindered d' := h.congr (fun name => (hsame name).symm)
      (by rw [hp]; exact nofun) (hwritable.trans h.writable)
    -- of all that it takes to survey a tenant, only the length of the name is left to be checked
    have hready : ∀ x ∈ stems', Ready (!compaction.any declines) d' x := by
      intro x hx
      have hlog := (hasLog_congr hsame x).2 ((hl.mem_iff x).1 hx)
      exact h'.ready hlog (hw.1 x hx) _
    rw [complaint_eq_iff, survey_of_makeDirectory hm]
    exact ⟨_, survey_of_ready hp hd hready hw.2⟩

/-- **A run reports every log exactly if the logs keep the limits for tenants.**  If they do not,
nothing is printed but a complaint, and the status is 1 whatever the audit would have found. -/
theorem reportsAll_iff_withinLimits {d : Disk} (h : Unhindered d) (compaction : Option String) :
    ∃ stems, Logs d stems ∧
      (ReportsAll d (runSurvey d compaction).1 ↔ WithinLimits stems) ∧
      (¬ WithinLimits stems → (runSurvey d compaction).1.status = 1 ∧
        (runSurvey d compaction).1.output = "" ∧ (runSurvey d compaction).1.complaint ≠ "") := by
  obtain ⟨_, _, stems, _, _, _, _, _, hl⟩ := exists_found h.place
  have hiff := complaint_iff_withinLimits h hl compaction
  refine ⟨stems, hl, (reportsAll_iff_complaint h.place).trans hiff, ?_⟩
  intro hnot
  have hcomplaint : (runSurvey d compaction).1.complaint ≠ "" := fun hnone => hnot (hiff.1 hnone)
  obtain ⟨hstatus, houtput⟩ := failed_of_complaint hcomplaint
  exact ⟨hstatus, houtput, hcomplaint⟩

/-- The records of a log in which more units were granted than there are. -/
def overGranted : List Record := [creation ⟨10⟩, .allocated ⟨⟨12⟩, ⟨10⟩, none, 9, 0⟩ ⟨⟨2⟩⟩]

/-- Two logs: nothing is wrong with the first, but with the second. -/
def twoLogs : Disk := ofLogs [("b", frames overGranted), ("a", frames [creation ⟨10⟩])]

theorem logs_twoLogs : Logs twoLogs ["a", "b"] where
  ascending := by decide
  mem_iff stem := by
    have hmem : stem ∈ ["a", "b"] ↔ stem ∈ ["b", "a"] := by
      simp [or_comm]
    rw [hmem, twoLogs, hasLog_ofLogs_iff]
    refine ⟨fun h => ?_, fun h => h.2.2⟩
    rcases List.mem_cons.1 h with rfl | ha
    · exact ⟨by decide, stemOf_eq_self_iff.1 (by decide), h⟩
    · obtain rfl := List.mem_singleton.1 ha
      exact ⟨by decide, stemOf_eq_self_iff.1 (by decide), h⟩

/-- The audit finds something in the second log. -/
theorem audit_twoLogs : (tablesOf twoLogs "b").audit ≠ [] := by
  have hread : ∀ r ∈ overGranted, Log.Readable r := by
    simp only [overGranted, List.forall_mem_cons]
    exact ⟨readable_creation _, Log.readable_allocated rfl _, by simp⟩
  rw [tablesOf, twoLogs, logBytes_ofLogs_cons, Log.replay, Log.scan_frames hread]
  decide +kernel

/-- A run reports both logs, and the finding in one of them decides its status. -/
theorem reportsAll_iff_withinLimits_one_suspect :
    Unhindered twoLogs ∧ Logs twoLogs ["a", "b"] ∧
      ReportsAll twoLogs (runSurvey twoLogs none).1 ∧ (runSurvey twoLogs none).1.status = 1 := by
  have hunhindered : Unhindered twoLogs := unhindered_ofLogs _
  have hwithin : WithinLimits ["a", "b"] := by
    simp only [WithinLimits, List.forall_mem_cons]
    decide
  obtain ⟨stems, hl, hiff, _⟩ := reportsAll_iff_withinLimits hunhindered none
  obtain rfl := hl.unique logs_twoLogs
  have hall := hiff.2 hwithin
  have hb : HasLog twoLogs "b" := (hl.mem_iff "b").1 (by simp)
  exact ⟨hunhindered, hl, hall, hall.status_eq_one_iff.2 ⟨"b", hb, audit_twoLogs⟩⟩

/-! ### Logs that one run cannot report -/

/-- If a run reports every log, the logs keep the limits for tenants. -/
theorem ReportsAll.withinLimits {d : Disk} {compaction : Option String} (h : Unhindered d)
    (hall : ReportsAll d (runSurvey d compaction).1) :
    ∃ stems, Logs d stems ∧ WithinLimits stems := by
  obtain ⟨_, _, stems, _, _, _, _, _, hl⟩ := exists_found h.place
  have hnone := (reportsAll_iff_complaint h.place).1 hall
  exact ⟨stems, hl, (complaint_iff_withinLimits h hl compaction).1 hnone⟩

/-- A stem of this many characters. -/
def longStem (length : Nat) : String := String.ofList (List.replicate length 'a')

/-- A directory with an empty log under this stem. -/
def lone (stem : String) : Disk := ofLogs [(stem, [])]

theorem hasLog_lone_longStem {length : Nat} (h : 0 < length) :
    HasLog (lone (longStem length)) (longStem length) := by
  have hlist : (longStem length).toList = List.replicate length 'a' := String.toList_ofList
  refine hasLog_ofLogs_iff.2 ⟨?_, ?_, List.mem_cons_self⟩
  · intro hempty
    rw [hempty] at hlist
    have hzero : 0 = length := by
      simpa using congrArg List.length hlist
    omega
  · intro c hc
    rw [hlist] at hc
    rw [List.eq_of_mem_replicate hc]
    rfl

/-- One log with a stem that is too long keeps a run from reporting anything. -/
theorem not_reportsAll_of_long {d : Disk} (h : Unhindered d) {stem : String} (hl : HasLog d stem)
    (hlong : tenantNameBytes < stem.utf8ByteSize) (compaction : Option String) :
    ¬ ReportsAll d (runSurvey d compaction).1 := by
  intro hall
  obtain ⟨stems, hlogs, hshort, _⟩ := hall.withinLimits h
  exact Nat.not_le.2 hlong (hshort stem ((hlogs.mem_iff stem).2 hl))

/-- A directory with this many empty logs, named by their numbers. -/
def numbered (count : Nat) : Disk := ofLogs ((List.range count).map fun i => (i.repr, []))

theorem isSafe_of_mem_repr {n : Nat} {c : Char} (h : c ∈ n.repr.toList) : isSafe c = true := by
  rw [Nat.toList_repr] at h
  have hdigit := Nat.isDigit_of_mem_toDigits (by decide) (by decide) h
  simp [isSafe, Char.isAlphanum, hdigit]

theorem hasLog_numbered {n count : Nat} (h : n < count) : HasLog (numbered count) n.repr := by
  refine hasLog_ofLogs_iff.2 ⟨Nat.repr_ne_empty, fun _ => isSafe_of_mem_repr, ?_⟩
  rw [List.map_map]
  exact List.mem_map_of_mem (List.mem_range.2 h)

/-- So do more logs than tenants can be open at a time. -/
theorem not_reportsAll_numbered {count : Nat} (h : tenantCeiling < count)
    (compaction : Option String) :
    ¬ ReportsAll (numbered count) (runSurvey (numbered count) compaction).1 := by
  intro hall
  obtain ⟨stems, hlogs, _, hfew⟩ := hall.withinLimits (unhindered_ofLogs _)
  -- different numbers are written differently, so there are as many stems as numbers
  have hsubset : (List.range count).map Nat.repr ⊆ stems := by
    intro stem hs
    obtain ⟨n, hn, rfl⟩ := List.mem_map.1 hs
    exact (hlogs.mem_iff _).2 (hasLog_numbered (List.mem_range.1 hn))
  have hmany := (List.nodup_range.map fun _ _ => Nat.repr_injective).length_le_of_subset hsubset
  rw [List.length_map, List.length_range] at hmany
  omega

/-- **Logs that one run cannot report**: one whose stem is a byte too long, and 1025 of them. -/
theorem not_reportsAll_beyond_limits :
    (Unhindered (lone (longStem 129)) ∧
      ¬ ReportsAll (lone (longStem 129)) (runSurvey (lone (longStem 129)) none).1) ∧
    Unhindered (numbered 1025) ∧
      ¬ ReportsAll (numbered 1025) (runSurvey (numbered 1025) (some "0")).1 := by
  have hlong : tenantNameBytes < (longStem 129).utf8ByteSize := by
    decide +kernel
  have hmany : tenantCeiling < 1025 := by
    decide +kernel
  refine ⟨⟨unhindered_ofLogs _, ?_⟩, unhindered_ofLogs _, not_reportsAll_numbered hmany _⟩
  exact not_reportsAll_of_long (unhindered_ofLogs _) (hasLog_lone_longStem (by decide)) hlong none

end Allotment
