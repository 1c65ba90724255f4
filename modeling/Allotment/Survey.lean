/-
**The survey of a data directory.**

A survey opens the log of every tenant that has one, lists its quotas, audits it, and compacts the
logs in which the audit finds nothing.  A log with a finding is never compacted.  If a log cannot be
opened or compacted, the survey breaks off without a report; what it has compacted stays so.

Main definitions:

* `Allotment.TenantReport` — what a survey says about one tenant;
* `Allotment.survey` — the reports on all tenants;
* `Allotment.Breakoff` — why there is no report;
* `Allotment.runSurvey` — a whole run: its exit status and what it prints.
-/

import Allotment.Tenants
import Allotment.Json

set_option relaxedAutoImplicit false
set_option autoImplicit false

namespace Allotment

/-! ### Reports -/

/-- What a survey says about one tenant. -/
structure TenantReport where
  /-- The stem of its log. -/
  tenant : String
  /-- Whether the log was compacted. -/
  compacted : Bool
  /-- Its quotas, in the order of a listing. -/
  quotas : List View
  /-- The findings of the audit. -/
  findings : List Finding

/-- A quota in a report. -/
def View.toJson (v : View) : Json :=
  .obj
    [("id", .str v.id.toText),
     ("name", .str v.terms.name),
     ("product_type", .str v.terms.productType),
     ("travel_date", .str v.terms.travelDate.toText),
     ("capacity", .num v.terms.capacity.toNat),
     ("overbooking_limit", .num v.terms.overbooking.toNat),
     ("reserved", .num v.reserved.toNat),
     ("available", .num v.available.toNat),
     ("version", .str v.version.toText)]

/-- A finding in a report. -/
def Finding.toJson : Finding → Json
  | .ledgerMismatch quota reserved ledgerTotal =>
    .obj
      [("kind", .str "ledger_mismatch"),
       ("quota_id", .str quota.toText),
       ("reserved", .num reserved.toNat),
       ("ledger_total", .num ledgerTotal)]
  | .overBound quota reserved bound =>
    .obj
      [("kind", .str "over_bound"),
       ("quota_id", .str quota.toText),
       ("reserved", .num reserved.toNat),
       ("bound", .num bound)]

/-- A tenant in a report. -/
def TenantReport.toJson (r : TenantReport) : Json :=
  .obj
    [("tenant", .str r.tenant),
     ("compacted", .bool r.compacted),
     ("quotas", .arr (r.quotas.map View.toJson)),
     ("findings", .arr (r.findings.map Finding.toJson))]

/-! ### Surveying -/

/-- Why a survey broke off. -/
inductive Breakoff where
  /-- The data directory could not be used, or a log could not be opened. -/
  | file (fault : Fault)
  /-- A log could not be compacted. -/
  | desk (refusal : Refusal)
deriving DecidableEq

/-- What is said about a survey that broke off. -/
def Breakoff.message : Breakoff → String
  | file fault => fault.text
  | desk refusal => refusal.message

/-- Lists and audits an open store, and compacts its log if that is wanted and nothing is found. -/
def surveyDesk (d : Desk LogFile) (wanted : Bool) (tenant : String) :
    Except Refusal TenantReport × Desk LogFile :=
  let (quotas, d) := d.list .all
  let findings := d.audit
  if wanted && findings.isEmpty then
    match d.compact with
    | (.error e, d) => (.error e, d)
    | (.ok (), d) => (.ok ⟨tenant, true, quotas, findings⟩, d)
  else (.ok ⟨tenant, false, quotas, findings⟩, d)

/-- Surveys one tenant. -/
def surveyTenant (t : Tenants) (wanted : Bool) (tenant : String) :
    Except Breakoff TenantReport × Tenants :=
  match t.openTenant tenant with
  | .error e => (.error (.file e), t)
  | .ok (stem, t) =>
    match t.serve stem fun d => surveyDesk d wanted tenant with
    | none => (.error (.file .noSuchFile), t)
    | some (.error e, t) => (.error (.desk e), t)
    | some (.ok r, t) => (.ok r, t)

/-- Surveys tenants one after the other; the first failure ends the survey. -/
def surveyAll (t : Tenants) (wanted : Bool) :
    List String → Except Breakoff (List TenantReport) × Tenants
  | [] => (.ok [], t)
  | tenant :: rest =>
    match surveyTenant t wanted tenant with
    | (.error e, t) => (.error e, t)
    | (.ok r, t) =>
      let (rs, t) := surveyAll t wanted rest
      (rs.map (r :: ·), t)

/-- Surveys the tenants that have a log.  The data directory is made if it is missing. -/
def survey (d : Disk) (wanted : Bool) : Except Breakoff (List TenantReport) × Disk :=
  match d.makeDirectory with
  | .error e => (.error (.file e), d)
  | .ok d =>
    match discover d with
    | .error e => (.error (.file e), d)
    | .ok tenants =>
      let (rs, t) := surveyAll (.start d 0 .zero) wanted tenants
      (rs, t.closeAll)

/-! ### A run -/

/-- Whether the value of an environment variable asks for logs to be left as they are. -/
def declines (value : String) : Bool := value ∈ ["0", "false", "no", "off"]

/-- How a run ends. -/
structure RunResult where
  /-- The exit status. -/
  status : Nat
  /-- What is printed. -/
  output : String
  /-- What is printed for the operator if the survey broke off. -/
  complaint : String
deriving DecidableEq

/-- The result of a survey: the reports are printed, and the status is 1 if there is a finding or if
there is no report at all. -/
def RunResult.ofReports : Except Breakoff (List TenantReport) → RunResult
  | .error e => ⟨1, "", "Error: " ++ e.message ++ "\n"⟩
  | .ok rs =>
    ⟨if rs.all (·.findings.isEmpty) then 0 else 1,
      (Json.arr (rs.map (·.toJson))).print ++ "\n", ""⟩

/-- A whole run.  `compaction` is the value of the environment variable that can decline the
compaction of logs, if it is set. -/
def runSurvey (d : Disk) (compaction : Option String) : RunResult × Disk :=
  let (rs, d) := survey d (!compaction.any declines)
  (.ofReports rs, d)

end Allotment
