/-
**The meter agrees with the ledger.**

A desk counts every claim by its outcome and adds up the units that it grants.  The store keeps the
allocations.  Neither knows of the other, and still they agree at every moment: whatever a visit
grants is counted once and is entered once.  A batch that is refused is counted as refused and
enters nothing; a log that is compacted, or closed and opened again, changes neither side.

Main definitions:

* `Allotment.Meter.counter` — what a counter shows, by its name;
* `Allotment.Desk.claimed`, `Allotment.Desk.revised` — the results of the claims and of the
  revisions of a visit;
* `Allotment.Desk.Balances` — a meter that agrees with the tables;
* `Allotment.Desk.Reconciled` — the same, in terms of the counters shown.

Main results:

* `Allotment.Meter.counter_eq` — a counter shows its number, also when it is not shown at all;
* `Allotment.Desk.Orderly.granted_receive` — **a visit enters the allocations that it grants**, and
  no others;
* `Allotment.Desk.Balances.receive`, `Allotment.Desk.Balances.undergoAll` — the meter goes on
  agreeing with the tables;
* `Allotment.Desk.reconciled_run` — **the meter agrees with the ledger at every moment of every
  run**.
-/

import Mathlib.Data.List.Nodup
import Allotment.Proofs.Fingerprint
import Allotment.Proofs.Tables.Granted

set_option relaxedAutoImplicit false
set_option autoImplicit false

namespace Allotment

open Fingerprint (bare)

/-! ### Reading a meter -/

namespace Meter

/-- What a counter shows.  One that is not shown has counted nothing. -/
def counter (m : Meter) (name : String) : Nat := (m.readings.lookup name).getD 0

/-- The name of the counter of a tally for an outcome. -/
def tallyName (name : String) (o : Outcome) : String :=
  name ++ "\x7boutcome=" ++ o.label ++ "\x7d"

/-- All counters with their names, also those that have counted nothing. -/
def counters (m : Meter) : List (String × Nat) :=
  Outcome.all.map (fun o => (tallyName "quotad_allocations_total" o, m.allocations.get o)) ++
    [("quotad_units_allocated_total", m.units)] ++
    Outcome.all.map (fun o => (tallyName "quotad_quota_updates_total" o, m.updates.get o)) ++
    [("quotad_wal_compactions_total", m.compactions)]

theorem reading_eq_filter (name : String) (n : Nat) :
    reading name n = [(name, n)].filter (·.2 ≠ 0) := by
  by_cases h : n = 0
  · simp [reading, h]
  · simp [reading, h]

theorem tallyReadings_eq_filter (name : String) (t : Tally) :
    tallyReadings name t =
      (Outcome.all.map fun o => (tallyName name o, t.get o)).filter (·.2 ≠ 0) := by
  rw [tallyReadings, List.map_eq_flatMap, List.filter_flatMap]
  exact congrArg (Outcome.all.flatMap ·) (funext fun o => reading_eq_filter _ _)

/-- What is shown are the counters that have counted something, and the number of tenants. -/
theorem readings_eq (m : Meter) :
    m.readings = m.counters.filter (·.2 ≠ 0) ++
      m.tenants.toList.map fun n => ("quotad_tenants_active", n) := by
  rw [readings, counters, List.filter_append, List.filter_append, List.filter_append,
    ← tallyReadings_eq_filter, ← tallyReadings_eq_filter, ← reading_eq_filter, ← reading_eq_filter]

/-- No two counters have the same name, and none is named like the number of tenants. -/
theorem nodup_names (m : Meter) :
    (m.counters.map (·.1) ++ ["quotad_tenants_active"]).Nodup := by
  have hnames : m.counters.map (·.1) = zero.counters.map (·.1) := by
    simp [counters, Function.comp_def]
  rw [hnames]
  decide

/-- Among entries with different names, an entry is found by its name unless it is left out for
being zero. -/
theorem lookup_filter {l : List (String × Nat)} (h : (l.map (·.1)).Nodup) {name : String} {n : Nat}
    (hmem : (name, n) ∈ l) :
    (l.filter (·.2 ≠ 0)).lookup name = if n = 0 then none else some n := by
  induction l with
  | nil => cases hmem
  | cons p l ih =>
      obtain ⟨key, k⟩ := p
      obtain ⟨hnotin, hnodup⟩ := List.nodup_cons.1 h
      rcases List.mem_cons.1 hmem with heq | htail
      · obtain ⟨rfl, rfl⟩ := Prod.mk.inj heq
        by_cases hn : n = 0
        · have hnone : (l.filter (·.2 ≠ 0)).lookup name = none := by
            rw [List.lookup_eq_none_iff]
            intro p hp
            refine bne_iff_ne.2 ?_
            rintro rfl
            exact hnotin (List.mem_map.2 ⟨p, (List.mem_filter.1 hp).1, rfl⟩)
          simpa [hn] using hnone
        · simp [hn]
      · have hne : (name == key) = false := by
          refine beq_eq_false_iff_ne.2 ?_
          rintro rfl
          exact hnotin (List.mem_map.2 ⟨_, htail, rfl⟩)
        by_cases hk : k = 0
        · simpa [hk] using ih hnodup htail
        · simpa [hk, List.lookup_cons, hne] using ih hnodup htail

/-- **A counter shows its number**, also when it is not shown at all. -/
theorem counter_eq {m : Meter} {name : String} {n : Nat} (h : (name, n) ∈ m.counters) :
    m.counter name = n := by
  obtain ⟨hnodup, _, hapart⟩ := List.nodup_append.1 m.nodup_names
  have hne : name ≠ "quotad_tenants_active" :=
    hapart name (List.mem_map.2 ⟨_, h, rfl⟩) _ (List.mem_singleton_self _)
  have htenants : (m.tenants.toList.map fun n => ("quotad_tenants_active", n)).lookup name =
      none := by
    rw [List.lookup_eq_none_iff]
    intro p hp
    obtain ⟨k, _, rfl⟩ := List.mem_map.1 hp
    exact bne_iff_ne.2 hne
  rw [counter, readings_eq, List.lookup_append, lookup_filter hnodup h, htenants]
  by_cases hn : n = 0
  · simp [hn]
  · simp [hn]

theorem counter_allocations (m : Meter) (o : Outcome) :
    m.counter (tallyName "quotad_allocations_total" o) = m.allocations.get o := by
  refine counter_eq ?_
  cases o <;> simp [counters, Outcome.all]

theorem counter_updates (m : Meter) (o : Outcome) :
    m.counter (tallyName "quotad_quota_updates_total" o) = m.updates.get o := by
  refine counter_eq ?_
  cases o <;> simp [counters, Outcome.all]

theorem counter_units (m : Meter) : m.counter "quotad_units_allocated_total" = m.units :=
  counter_eq (by simp [counters])

theorem counter_compactions (m : Meter) :
    m.counter "quotad_wal_compactions_total" = m.compactions :=
  counter_eq (by simp [counters])

/-- What a list of claims makes of a meter. -/
theorem foldl_countAllocation (results : List (Except Refusal Allocation)) (m : Meter) :
    (results.foldl countAllocation m).units =
        m.units + ((results.filterMap Except.toOption).map (·.quantity.toNat)).sum ∧
      (results.foldl countAllocation m).allocations.ok =
        m.allocations.ok + (results.filterMap Except.toOption).length ∧
      (results.foldl countAllocation m).allocations.total =
        m.allocations.total + results.length ∧
      (results.foldl countAllocation m).updates = m.updates ∧
      (results.foldl countAllocation m).compactions = m.compactions := by
  induction results generalizing m with
  | nil => exact ⟨rfl, rfl, rfl, rfl, rfl⟩
  | cons result results ih =>
      obtain ⟨hunits, hok, htotal, hupdates, hcompactions⟩ := ih (m.countAllocation result)
      have hone : (m.countAllocation result).allocations.total = m.allocations.total + 1 :=
        Tally.total_count _ _
      rw [List.foldl_cons, hunits, hok, htotal, hupdates, hcompactions, hone]
      cases result with
      | error e =>
          have hsame : (m.allocations.count e.outcome).ok = m.allocations.ok := by
            cases e <;> rfl
          refine ⟨rfl, congrArg (· + _) hsame, ?_, rfl, rfl⟩
          rw [List.length_cons]
          omega
      | ok a =>
          refine ⟨?_, ?_, ?_, rfl, rfl⟩
          · simp only [countAllocation, List.filterMap_cons, Except.toOption, List.map_cons,
              List.sum_cons]
            omega
          · simp only [countAllocation, Outcome.ofResult, Tally.count, List.filterMap_cons,
              Except.toOption, List.length_cons]
            omega
          · rw [List.length_cons]
            omega

/-- What a list of revisions makes of a meter. -/
theorem foldl_countUpdate (results : List (Except Refusal Quota)) (m : Meter) :
    (results.foldl countUpdate m).updates.total = m.updates.total + results.length ∧
      (results.foldl countUpdate m).allocations = m.allocations ∧
      (results.foldl countUpdate m).units = m.units ∧
      (results.foldl countUpdate m).compactions = m.compactions := by
  induction results generalizing m with
  | nil => exact ⟨rfl, rfl, rfl, rfl⟩
  | cons result results ih =>
      obtain ⟨htotal, hrest⟩ := ih (m.countUpdate result)
      have hone : (m.countUpdate result).updates.total = m.updates.total + 1 :=
        Tally.total_count _ _
      rw [List.foldl_cons, htotal, hone, List.length_cons]
      exact ⟨by omega, hrest⟩

end Meter

/-! ### What a visit makes of a meter -/

/-- How many claims a visit makes. -/
def Visit.claims : Visit → Nat
  | .ask (.allocate _ _) => 1
  | .together cs => cs.length
  | _ => 0

/-- How many changes of terms a visit asks for. -/
def Visit.revisions : Visit → Nat
  | .ask (.revise _ _) => 1
  | _ => 0

namespace Desk

variable {ι : Type} [Journal ι] {d : Desk ι}

/-- The results of the claims of a visit. -/
def claimed (d : Desk ι) : Visit → List (Except Refusal Allocation)
  | .ask (.allocate c stamp) => [(d.allocate c stamp).1]
  | .together cs => (d.allocateTogether cs).1
  | _ => []

/-- The results of the revisions of a visit. -/
def revised (d : Desk ι) : Visit → List (Except Refusal Quota)
  | .ask (.revise r stamp) => [(d.revise r stamp).1]
  | _ => []

theorem length_claimed (d : Desk ι) (v : Visit) : (d.claimed v).length = v.claims := by
  cases v with
  | together cs => exact d.length_allocateTogether cs
  | ask q => cases q <;> rfl

theorem length_revised (d : Desk ι) (v : Visit) : (d.revised v).length = v.revisions := by
  cases v with
  | together cs => rfl
  | ask q => cases q <;> rfl

/-- A visit is counted by its results. -/
theorem meter_receive (d : Desk ι) (v : Visit) :
    (d.receive v).meter =
      (d.revised v).foldl .countUpdate ((d.claimed v).foldl .countAllocation d.meter) := by
  cases v with
  | together cs => rfl
  | ask q =>
      cases q with
      | create terms stamp =>
          change (d.create terms stamp).2.meter = d.meter
          rcases d.create_cases terms stamp with ⟨e, he⟩ | ⟨e, _, he⟩ | ⟨q, _, he⟩
          · rw [he]
          · rw [he]
          · rw [he]
      | view quota =>
          change (d.view quota).2.meter = d.meter
          unfold view
          rcases d.store.load quota with ⟨_ | q, s⟩
          · rfl
          · rfl
      | _ => rfl

theorem granted_iff (d : Desk ι) (v : Visit) (a : Allocation) :
    d.Granted a v ↔ a ∈ (d.claimed v).filterMap Except.toOption := by
  have hmem : ∀ results : List (Except Refusal Allocation),
      .ok a ∈ results ↔ a ∈ results.filterMap Except.toOption := by
    intro results
    rw [List.mem_filterMap]
    constructor
    · intro h
      exact ⟨_, h, rfl⟩
    · rintro ⟨e | b, h, hb⟩
      · cases hb
      · cases hb
        exact h
  rw [← hmem]
  cases v with
  | together cs => exact Iff.rfl
  | ask q =>
      cases q with
      | allocate c stamp => exact eq_comm.trans List.mem_singleton.symm
      | _ => exact (iff_false_intro List.not_mem_nil).symm

omit [Journal ι] in
/-- Claims are granted under the identifiers of their own stamps. -/
theorem ids_answers_sublist (ds : List Decided) (results : List (Except Failure Quota)) :
    (((answers ds results).filterMap Except.toOption).map (·.id)).Sublist
      (ds.map (·.stamp.id)) := by
  fun_induction answers ds results with
  | case1 results => exact List.Sublist.refl _
  | case2 c stamp e ds results ih => exact ih.cons _
  | case3 c stamp w ds => exact List.nil_sublist _
  | case4 c stamp w ds e results ih => exact ih.cons _
  | case5 c stamp w ds q results ih => exact ih.cons_cons _

/-- **No two claims of a visit are granted under the same identifier.** -/
theorem nodup_ids_claimed (halone : d.store.rival = none) {v : Visit} (hnovel : Novel v.records) :
    (((d.claimed v).filterMap Except.toOption).map (·.id)).Nodup := by
  cases v with
  | together cs =>
      have hids : cs.map (·.2.id) = (Visit.together cs).records.filterMap (·.grant?) := by
        rw [Visit.records, List.filterMap_map, ← List.filterMap_eq_map]
        rfl
      have hstamps : (prepareAll d.store cs).1.map (·.stamp.id) = cs.map (·.2.id) := by
        rw [prepareAll_fst halone, List.map_map]
        rfl
      have hnodup := hnovel.grants
      rw [← hids, ← hstamps] at hnodup
      exact hnodup.sublist (ids_answers_sublist _ _)
  | ask q =>
      have hone : ∀ result : Except Refusal Allocation,
          (([result].filterMap Except.toOption).map (·.id)).Nodup := by
        intro result
        cases result with
        | error e => exact List.nodup_nil
        | ok a => exact List.nodup_singleton _
      cases q with
      | allocate c stamp => exact hone _
      | _ => exact List.nodup_nil

/-- **A visit enters the allocations that it grants**, and no others. -/
theorem Orderly.granted_receive {past : List Record} (h : Orderly past d) {v : Visit}
    (hnovel : Novel (past ++ v.records)) :
    (d.receive v).store.tables.granted.Perm
      ((d.claimed v).filterMap Except.toOption ++ d.store.tables.granted) := by
  obtain ⟨rs, hleaves⟩ := h.leaves hnovel.visit
  have hlawful := hleaves.took.lawful
  rw [hleaves.took.tables]
  refine (hlawful.granted_perm h.sound.toGrown).trans (List.Perm.append_right _ ?_)
  -- neither list holds anything twice, so it is enough that they hold the same
  rw [List.perm_ext_iff_of_nodup (hlawful.nodup_ids.of_map _)
    ((nodup_ids_claimed h.alone hnovel.right).of_map _)]
  intro a
  rw [← granted_iff, List.mem_filterMap]
  constructor
  · rintro ⟨r, hr, ha⟩
    cases r with
    | allocated b version =>
        cases ha
        exact hleaves.earned _ _ hr
    | created id terms version => cases ha
    | revised id terms version => cases ha
  · intro ha
    obtain ⟨version, hr⟩ := hleaves.granted a ha
    exact ⟨_, hr, rfl⟩

/-! ### Agreement -/

/-- **A meter that agrees with the tables** after so many claims, revisions and compactions. -/
structure Balances (d : Desk ι) (claims revisions compactions : Nat) : Prop where
  /-- The units counted are those reserved. -/
  units : d.meter.units = d.store.tables.unitsReserved
  /-- The claims counted as granted are those in the ledger. -/
  granted : d.meter.allocations.ok = d.store.tables.granted.length
  /-- Every claim is counted. -/
  claims : d.meter.allocations.total = claims
  /-- Every revision is counted. -/
  revisions : d.meter.updates.total = revisions
  /-- Every compaction is counted. -/
  compactions : d.meter.compactions = compactions

namespace Balances

variable {claims revisions compactions : Nat}

omit [Journal ι] in
/-- A desk without quotas whose meter has counted nothing. -/
theorem of_empty {d : Desk ι} (ht : d.store.tables = .empty) (hm : d.meter = .zero) :
    Balances d 0 0 0 := by
  constructor
  all_goals first | rw [hm, ht] | rw [hm]
  all_goals rfl

omit [Journal ι] in
/-- A desk with the same tables and the same meter. -/
theorem of_tables_eq (h : Balances d claims revisions compactions) {d' : Desk ι}
    (ht : d'.store.tables = d.store.tables) (hm : d'.meter = d.meter) :
    Balances d' claims revisions compactions where
  units := by rw [hm, ht, h.units]
  granted := by rw [hm, ht, h.granted]
  claims := by rw [hm, h.claims]
  revisions := by rw [hm, h.revisions]
  compactions := by rw [hm, h.compactions]

/-- **What a visit grants is counted once and entered once.** -/
theorem receive {past : List Record} (h : Balances d claims revisions compactions)
    (ho : Orderly past d) {v : Visit} (hnovel : Novel (past ++ v.records)) :
    Balances (d.receive v) (claims + v.claims) (revisions + v.revisions) compactions := by
  have hgranted := ho.granted_receive hnovel
  have hsound := (ho.receive hnovel).1.sound
  obtain ⟨hunits, hok, htotal, hupdates, hcompactions⟩ :=
    Meter.foldl_countAllocation (d.claimed v) d.meter
  obtain ⟨hupdates', hallocations', hunits', hcompactions'⟩ :=
    Meter.foldl_countUpdate (d.revised v) ((d.claimed v).foldl .countAllocation d.meter)
  rw [← meter_receive] at hupdates' hallocations' hunits' hcompactions'
  refine ⟨?_, ?_, ?_, ?_, ?_⟩
  · rw [hunits', hunits, h.units, hsound.unitsReserved_eq, ho.sound.unitsReserved_eq,
      (hgranted.map _).sum_nat, List.map_append, List.sum_append, Nat.add_comm]
  · rw [hallocations', hok, h.granted, hgranted.length_eq, List.length_append, Nat.add_comm]
  · rw [hallocations', htotal, h.claims, length_claimed]
  · rw [hupdates', hupdates, h.revisions, length_revised]
  · rw [hcompactions', hcompactions, h.compactions]

end Balances

end Desk

/-! ### Runs -/

/-- How many claims an event makes. -/
def Event.claims : Event → Nat
  | .visit v => v.claims
  | _ => 0

/-- How many changes of terms an event asks for. -/
def Event.revisions : Event → Nat
  | .visit v => v.revisions
  | _ => 0

namespace Desk

section AnyJournal

variable {ι : Type} [Journal ι]

/-- The desk after visits, before each of which its journal has become another. -/
def receiveAmid (d : Desk ι) (vs : List (ι × Visit)) : Desk ι :=
  vs.foldl (fun d p => receive { d with store.journal := p.1 } p.2) d

/-- **Whatever becomes of the journal between visits, the meter goes on agreeing.** -/
theorem Balances.receiveAmid {d : Desk ι} {past : List Record} {claims revisions compactions : Nat}
    (h : Balances d claims revisions compactions) (ho : Orderly past d) {vs : List (ι × Visit)}
    (hnovel : Novel (past ++ vs.flatMap (·.2.records))) :
    Balances (d.receiveAmid vs) (claims + (vs.map (·.2.claims)).sum)
      (revisions + (vs.map (·.2.revisions)).sum) compactions := by
  induction vs generalizing past d claims revisions with
  | nil => exact h
  | cons p vs ih =>
      rw [List.flatMap_cons, ← List.append_assoc] at hnovel
      have hsame : Orderly past { d with store.journal := p.1 } := ho.of_tables_eq rfl ho.alone
      have hbalances : Balances { d with store.journal := p.1 } claims revisions compactions :=
        h.of_tables_eq rfl rfl
      have hnext := hbalances.receive hsame hnovel.left
      have hlast := ih hnext (hsame.receive hnovel.left).1 hnovel
      rw [Nat.add_assoc, Nat.add_assoc] at hlast
      exact hlast

end AnyJournal

/-- How many compactions an event completes. -/
def compacted (d : Desk LogFile) : Event → Nat
  | .compact =>
    match d.compact.1 with
    | .ok () => 1
    | .error _ => 0
  | .compactIfDue threshold =>
    match (d.compactIfDue threshold).1 with
    | .ok true => 1
    | _ => 0
  | _ => 0

theorem compacted_cases (d : Desk LogFile) (e : Event) :
    d.compacted e = 0 ∨ d.compacted e = 1 := by
  fun_cases compacted d e <;> simp

/-- A log that is due is compacted as if this had been asked for, and any other is left alone. -/
theorem compactIfDue_outcome (d : Desk LogFile) (threshold : Nat) :
    (d.undergo (.compactIfDue threshold) = d ∧ d.compacted (.compactIfDue threshold) = 0) ∨
      (d.undergo (.compactIfDue threshold) = d.compact.2 ∧
        d.compacted (.compactIfDue threshold) = d.compacted .compact) := by
  rcases d.compactIfDue_cases threshold with he | he
  · exact Or.inl ⟨congrArg Prod.snd he, by simp only [compacted, he]⟩
  · refine Or.inr ⟨congrArg Prod.snd he, ?_⟩
    simp only [compacted, he]
    cases d.compact.1 with
    | error e => rfl
    | ok u => rfl

/-- How many compactions a run completes. -/
def compactedAll (d : Desk LogFile) : List Event → Nat
  | [] => 0
  | e :: es => d.compacted e + (d.undergo e).compactedAll es

namespace Balances

variable {d : Desk LogFile} {name : String} {past : List Record}
  {claims revisions compactions : Nat}

/-- A compaction is counted if it completes. -/
theorem compact (h : Balances d claims revisions compactions) :
    Balances d.compact.2 claims revisions (compactions + d.compacted .compact) := by
  have htables := Store.tables_compact d.store
  unfold compacted Desk.compact
  rcases hs : d.store.compact with ⟨e | u, s⟩
  · rw [hs] at htables
    exact h.of_tables_eq htables rfl
  · rw [hs] at htables
    have hsame : Balances ⟨s, d.meter⟩ claims revisions compactions := h.of_tables_eq htables rfl
    exact { hsame with compactions := congrArg (· + 1) h.compactions }

theorem undergo (h : Balances d claims revisions compactions) (hk : Kept name past d) {e : Event}
    (hnovel : Novel (past ++ e.records)) :
    Balances (d.undergo e) (claims + e.claims) (revisions + e.revisions)
      (compactions + d.compacted e) := by
  cases e with
  | visit v => exact h.receive hk.toOrderly hnovel
  | compact => exact h.compact
  | compactIfDue threshold =>
      rcases d.compactIfDue_outcome threshold with ⟨hd, hc⟩ | ⟨hd, hc⟩
      · rw [hd, hc]
        exact h
      · rw [hd, hc]
        exact h.compact
  | setWritable writable => exact h.of_tables_eq rfl rfl
  | restart =>
      obtain ⟨s', ho, ht, _, _⟩ := hk.backed.reopen
      rw [Desk.undergo, hk.backed.named, ho]
      exact h.of_tables_eq ht rfl

theorem undergoAll (h : Balances d claims revisions compactions) (hk : Kept name past d)
    {es : List Event} (hnovel : Novel (past ++ es.flatMap (·.records))) :
    Balances (d.undergoAll es) (claims + (es.map (·.claims)).sum)
      (revisions + (es.map (·.revisions)).sum) (compactions + d.compactedAll es) := by
  induction es generalizing past d claims revisions compactions with
  | nil => exact h
  | cons e es ih =>
      rw [List.flatMap_cons, ← List.append_assoc] at hnovel
      have hlast := ih (h.undergo hk hnovel.left) (hk.undergo hnovel.left).1 hnovel
      rw [Nat.add_assoc, Nat.add_assoc, Nat.add_assoc] at hlast
      exact hlast

end Balances

/-! ### Every run -/

/-- A desk over a log that holds no record that can be read. -/
theorem Kept.of_unread {disk : Disk} {name : String} {bs : Log.Bytes} {s : Store LogFile}
    (h : Store.Opened disk name bs s) (hnone : Log.scan bs = ⟨[], 0⟩) (m : Meter) :
    Kept name [] ⟨s, m⟩ := by
  have htables := h.tables
  have hrest := h.rest
  rw [Log.replay, hnone] at htables
  rw [hnone] at hrest
  exact ⟨.of_empty htables h.alone,
    ⟨⟨[], hrest, fun _ hr => absurd hr List.not_mem_nil, htables.symm⟩, h.named⟩⟩

/-- A log that holds no record that can be read, or is not there, can be opened. -/
theorem exists_kept_of_unread {disk : Disk} {es : Entries} (hp : disk.place = .directory es)
    {name : String} (hnone : Log.scanFile disk name = .ok ⟨[], 0⟩) :
    ∃ s, Store.ofLog disk name = .ok s ∧ s.tables = .empty ∧ Kept name [] ⟨s, .zero⟩ := by
  cases he : disk.entry? name with
  | none =>
      obtain ⟨s, ho, hs⟩ := Store.ofLog_of_absent hp he
      exact ⟨s, ho, hs.tables, .of_opened hs .zero⟩
  | some e =>
      cases e with
      | directory =>
          rw [Disk.entry?_of_place hp] at he
          simp [Log.scanFile, Disk.read, Disk.entries, hp, he] at hnone
      | file f =>
          have hfile := Disk.file?_of_entry? he
          obtain ⟨s, ho, hs⟩ := Store.ofLog_of_file? hfile
          have hscan : Log.scan f.bytes = ⟨[], 0⟩ := by
            rw [Log.scanFile, Disk.read_of_file? hfile] at hnone
            exact Except.ok.inj hnone
          have htables := hs.tables
          rw [Log.replay, hscan] at htables
          exact ⟨s, ho, htables, .of_unread hs hscan .zero⟩

/-- **A meter whose counters agree with the tables** after so many claims, revisions and
compactions. -/
structure Reconciled {ι : Type} (d : Desk ι) (claims revisions compactions : Nat) : Prop where
  /-- The units granted are those reserved of all quotas. -/
  units : d.meter.counter "quotad_units_allocated_total" =
    (d.store.tables.quotas.map (·.reserved.toNat)).sum
  /-- The claims granted are the allocations of all quotas. -/
  granted : d.meter.counter "quotad_allocations_total\x7boutcome=ok\x7d" =
    (d.store.tables.ids.map fun quota => (d.store.tables.ledger.entries quota).length).sum
  /-- Every claim is counted under its outcome. -/
  claims : (Outcome.all.map fun o =>
    d.meter.counter (Meter.tallyName "quotad_allocations_total" o)).sum = claims
  /-- Every revision is counted under its outcome. -/
  revisions : (Outcome.all.map fun o =>
    d.meter.counter (Meter.tallyName "quotad_quota_updates_total" o)).sum = revisions
  /-- Every compaction that was completed is counted. -/
  compactions : d.meter.counter "quotad_wal_compactions_total" = compactions

theorem Balances.reconciled {ι : Type} {d : Desk ι} {claims revisions compactions : Nat}
    (h : Balances d claims revisions compactions) : Reconciled d claims revisions compactions := by
  have htotal : ∀ t : Tally, (Outcome.all.map t.get).sum = t.total := by
    intro t
    rw [Tally.total, List.sum_eq_foldl, List.foldl_map]
  refine ⟨?_, ?_, ?_, ?_, ?_⟩
  · rw [Meter.counter_units, h.units, Tables.unitsReserved]
  · rw [← List.length_flatMap]
    exact (Meter.counter_allocations d.meter .ok).trans h.granted
  · simp only [Meter.counter_allocations]
    exact (htotal _).trans h.claims
  · simp only [Meter.counter_updates]
    exact (htotal _).trans h.revisions
  · rw [Meter.counter_compactions, h.compactions]

/-- **The meter agrees with the ledger at every moment of every run** that starts without quotas: a
run of visits at a desk that keeps no log; a run of visits at any desk, whatever becomes of its
journal in between; and a run at a desk with a log in which there is no record yet, where bytes can
or cannot be written, the log is compacted, and the store is closed and opened again. -/
theorem reconciled_run :
    (∀ (ceiling : Nat) (vs : List Visit), Novel (vs.flatMap (·.records)) →
      Reconciled ((bare ceiling .zero).receiveAll vs) (vs.map (·.claims)).sum
        (vs.map (·.revisions)).sum 0) ∧
    (∀ {ι : Type} [Journal ι] (d : Desk ι), d.store.tables = .empty → d.store.rival = none →
      d.meter = .zero → ∀ vs : List (ι × Visit), Novel (vs.flatMap (·.2.records)) →
        Reconciled (d.receiveAmid vs) (vs.map (·.2.claims)).sum (vs.map (·.2.revisions)).sum 0) ∧
    ∀ {disk : Disk} {es : Entries}, disk.place = .directory es →
      ∀ {name : String}, Log.scanFile disk name = .ok ⟨[], 0⟩ →
        ∃ s, Store.ofLog disk name = .ok s ∧
          ∀ events : List Event, Novel (events.flatMap (·.records)) →
            Reconciled (undergoAll ⟨s, .zero⟩ events) (events.map (·.claims)).sum
              (events.map (·.revisions)).sum (compactedAll ⟨s, .zero⟩ events) := by
  have hany : ∀ {ι : Type} [Journal ι] (d : Desk ι), d.store.tables = .empty →
      d.store.rival = none → d.meter = .zero → ∀ vs : List (ι × Visit),
        Novel (vs.flatMap (·.2.records)) →
          Reconciled (d.receiveAmid vs) (vs.map (·.2.claims)).sum (vs.map (·.2.revisions)).sum
            0 := by
    intro ι _ d ht hr hm vs hnovel
    have hlast := (Balances.of_empty ht hm).receiveAmid (.of_empty ht hr) hnovel
    rw [Nat.zero_add, Nat.zero_add] at hlast
    exact hlast.reconciled
  refine ⟨?_, hany, ?_⟩
  · intro ceiling vs hnovel
    have hlast := hany (bare ceiling .zero) rfl rfl rfl (vs.map (Volatile.volatile, ·)) <| by
      rwa [List.flatMap_map]
    rw [List.map_map, List.map_map, receiveAmid, List.foldl_map] at hlast
    exact hlast
  · intro disk es hp name hnone
    obtain ⟨s, ho, ht, hkept⟩ := exists_kept_of_unread hp hnone
    refine ⟨s, ho, ?_⟩
    intro events hnovel
    have hstart : Balances (⟨s, .zero⟩ : Desk LogFile) 0 0 0 := .of_empty ht rfl
    have hlast := hstart.undergoAll hkept hnovel
    rw [Nat.zero_add, Nat.zero_add, Nat.zero_add] at hlast
    exact hlast.reconciled

open Fingerprint (twoOfFive failedAndReopened twoAtOnce)

/-- The quota gets one more unit. -/
def oneUnitMore : Visit :=
  .ask (.revise ⟨⟨1⟩, ⟨⟨5, 1⟩, "Süd", "tour", tourDay⟩, ⟨⟨4⟩⟩⟩ ⟨⟨6⟩, ⟨⟨6⟩⟩, 5⟩)

/-- A claim is granted, one fails for want of space, the log is compacted and opened again; of two
claims that come at the same time one is granted, and the quota is changed. -/
def eachOutcome : List Event :=
  twoOfFive.map .visit ++ failedAndReopened ++ [.visit twoAtOnce, .visit oneUnitMore]

/-- The log of a store that has just been made, when bytes cannot be written. -/
def unwritableLog : LogFile := { emptyStore.journal with disk.writable := false }

set_option maxRecDepth 100000 in
/-- Three units are counted and reserved in the end, for two of four claims; one of the others ended
in a conflict and one for want of space. -/
theorem reconciled_run_each_outcome :
    (Novel (twoOfFive.flatMap Visit.records) ∧
      Reconciled ((bare 10 .zero).receiveAll twoOfFive) 1 0 0) ∧
    (Novel ((twoOfFive.map (unwritableLog, ·)).flatMap (·.2.records)) ∧
      Reconciled (receiveAmid ⟨emptyStore, .zero⟩ (twoOfFive.map (unwritableLog, ·))) 1 0 0) ∧
    Disk.blank.place = .directory ∅ ∧ Log.scanFile .blank "a.wal" = .ok ⟨[], 0⟩ ∧
      Novel (eachOutcome.flatMap (·.records)) ∧
      ∃ s, Store.ofLog .blank "a.wal" = .ok s ∧
        Reconciled (undergoAll ⟨s, .zero⟩ eachOutcome) 4 1 1 ∧
          (undergoAll ⟨s, .zero⟩ eachOutcome).meter.readings =
            [("quotad_allocations_total\x7boutcome=ok\x7d", 2),
              ("quotad_allocations_total\x7boutcome=conflict\x7d", 1),
              ("quotad_allocations_total\x7boutcome=storage_error\x7d", 1),
              ("quotad_units_allocated_total", 3),
              ("quotad_quota_updates_total\x7boutcome=ok\x7d", 1),
              ("quotad_wal_compactions_total", 1)] := by
  have hclaimed : Novel (twoOfFive.flatMap Visit.records) := ⟨by decide, by decide⟩
  have hevents : Novel (eachOutcome.flatMap (·.records)) := ⟨by decide, by decide⟩
  have hnone : Log.scanFile .blank "a.wal" = .ok ⟨[], 0⟩ := rfl
  obtain ⟨hvolatile, hany, hlog⟩ := reconciled_run
  obtain ⟨s, ho, hall⟩ := hlog (rfl : Disk.blank.place = _) hnone
  obtain rfl := Except.ok.inj (ofLog_emptyStore.symm.trans ho)
  have hlast := hall eachOutcome hevents
  have hcompacted : compactedAll ⟨emptyStore, .zero⟩ eachOutcome = 1 := by decide +kernel
  rw [hcompacted] at hlast
  refine ⟨⟨hclaimed, hvolatile 10 twoOfFive hclaimed⟩, ⟨hclaimed, ?_⟩, rfl, hnone, hevents, _, ho,
    hlast, by decide +kernel⟩
  exact hany ⟨emptyStore, .zero⟩ rfl rfl rfl (twoOfFive.map (unwritableLog, ·)) hclaimed

end Desk

end Allotment
