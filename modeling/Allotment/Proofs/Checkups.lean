/-
**The checks of the compactors.**

Every open tenant has a compactor, and at a tick each of them checks the log of its tenant, in
whatever order they come.  Whether a log is compacted depends on how many records were appended to
it, and by whatever run the tenants have got where they are, this is the number of quotas entered
and writes made since the log was last opened or compacted.

After the tick a log has fewer records to its count than would make it due, or it could not be
compacted; a log that was not due has not been touched, whatever the compactors of the others did;
and compaction makes no difference to what a log replays to.

Main definitions:

* `Allotment.Tenants.mark`, `Allotment.Roster.marks` — what is counted of a step and of a run for
  one tenant;
* `Allotment.Tenants.Counted` — the counter of a log agrees with what was counted;
* `Allotment.Tenants.answers`, `Allotment.checks` — the checks of several logs, each at its turn:
  how they are answered, and the steps that they are;
* `Allotment.Store.Checkup` — how the check of a log can end.

Main results:

* `Allotment.Tenants.Counted.takeAll` — the counter of a log is exact after any run;
* `Allotment.Tenants.Housed.checkup` — how the check of a log among others ends;
* `Allotment.Roster.tick_run` — **after a tick no log is due but those that could not be
  compacted**.
-/

import Allotment.Proofs.Meanwhile
import Allotment.Proofs.Sheltered

set_option relaxedAutoImplicit false
set_option autoImplicit false

namespace Allotment

/-! ### What is counted -/

/-- What a deed asks of a store. -/
def Deed.operation (threshold : Nat) : Deed → Operation
  | .visit v => .visit v
  | .compact => .compact
  | .check => .compactIfDue threshold

theorem Deed.operate (d : Desk LogFile) (threshold : Nat) (name : String) (deed : Deed) :
    ((Site.opened d).operate name (deed.operation threshold)).2 =
      .opened (d.undergo (deed.event threshold)) := by
  cases deed with
  | _ => rfl

namespace Tenants

/-- What is counted of an act for the tenant to which it is addressed. -/
def markAct (t : Tenants) : Act → Mark
  | .enter tenant =>
    if stemOf tenant ∉ t.stores ∧ (t.openTenant tenant).isOk then .renewed else .made 0
  | .call tenant deed =>
    match t.desk? (stemOf tenant) with
    | none => .made 0
    | some d =>
      ((Site.opened d).operate (logName (stemOf tenant)) (deed.operation t.threshold)).1

/-- **What is counted of a step** for the tenant under a stem. -/
def mark (t : Tenants) (stem : String) : Step → Mark
  | .act a => if stemOf a.tenant = stem then t.markAct a else .made 0
  | _ => .made 0

/-- **The counter of the log under a stem agrees with what was counted.** -/
def Counted (stem : String) (marks : List Mark) (t : Tenants) : Prop :=
  ∀ d, t.desk? stem = some d → Site.Booked marks (.opened d)

end Tenants

/-- What is counted of steps, one after the other. -/
def Roster.marks (stem : String) (r : Roster) : List Step → List Mark
  | [] => []
  | step :: steps => r.tenants.mark stem step :: (r.take step).marks stem steps

namespace Tenants.Counted

variable {stem : String} {marks : List Mark} {t t' : Tenants}

theorem of_closed (marks : List Mark) (h : stem ∉ t.stores) : t.Counted stem marks := by
  intro d hd
  obtain ⟨s, hs, _⟩ := desk?_eq_some_iff.1 hd
  exact absurd (mem_stores_iff_exists.2 ⟨s, hs⟩) h

/-- The store is as it was. -/
theorem of_same (h : t.Counted stem marks) (hstore : t'.stores[stem]? = t.stores[stem]?) :
    t'.Counted stem (marks ++ [.made 0]) := by
  intro d hd
  obtain ⟨s, hs, rfl⟩ := desk?_eq_some_iff.1 hd
  have hold := h _ (desk?_eq_some_iff.2 ⟨s, hstore ▸ hs, rfl⟩)
  exact hold.of_appended ⟨rfl, fun hzero => ⟨hzero, rfl⟩⟩

/-- **What is counted of one act.** -/
theorem performAct {a : Act} (h : t.Counted (stemOf a.tenant) marks) :
    (t.perform a).Counted (stemOf a.tenant) (marks ++ [t.markAct a]) := by
  cases a with
  | enter tenant =>
      have hentering := t.entering tenant
      simp only [Tenants.perform, markAct, Act.tenant] at h ⊢
      generalize t.openTenant tenant = result at hentering
      cases hentering with
      | present short named open_ =>
          rw [if_neg fun hnew => hnew.1 open_]
          exact h.of_same rfl
      | @opened short named new room s log =>
          rw [if_pos ⟨new, rfl⟩]
          intro d hd
          cases (desk?_withOpen t (stemOf tenant) s).symm.trans hd
          obtain ⟨_, hs⟩ := Store.opened_of_ofLog log
          obtain ⟨happends, hpending⟩ := Store.counters_of_ofLog log
          exact ⟨hs.alone, hpending, happends.trans (total_snoc_renewed marks).symm⟩
      | _ =>
          rw [if_neg fun hok => Bool.false_ne_true hok.2]
          exact h.of_same rfl
  | call tenant deed =>
      rw [perform_call, markAct]
      simp only [Act.tenant] at h ⊢
      cases hd : t.desk? (stemOf tenant) with
      | none => exact h.of_same rfl
      | some d =>
          intro d' hd'
          cases (desk?_putDesk t _ _).symm.trans hd'
          have hnext := (h d hd).operate (logName (stemOf tenant)) (deed.operation t.threshold)
          rwa [Deed.operate] at hnext

/-- **What is counted of one step.** -/
theorem take {r : Roster} (h : r.tenants.Counted stem marks) (hhoused : r.tenants.Housed)
    (step : Step) :
    (r.take step).tenants.Counted stem (marks ++ [r.tenants.mark stem step]) := by
  cases step with
  | act a =>
      rw [Roster.tenants_take_act, mark]
      by_cases hstem : stemOf a.tenant = stem
      · rw [if_pos hstem]
        subst hstem
        exact h.performAct
      · rw [if_neg hstem]
        exact h.of_same ((hhoused.perform a).2.others stem (Ne.symm hstem))
  | disturb disk => exact h.of_same rfl
  | restart => exact .of_closed _ (by simp [Roster.take, Tenants.start])

/-- **The counter of a log is exact after any run.** -/
theorem takeAll {r : Roster} (h : r.tenants.Counted stem marks) (hnumbered : r.Numbered)
    (steps : List Step) :
    (r.takeAll steps).tenants.Counted stem (marks ++ r.marks stem steps) := by
  induction steps generalizing marks r with
  | nil =>
      rw [Roster.marks, List.append_nil]
      exact h
  | cons step steps ih =>
      have hrest := ih (h.take hnumbered.housed step) (hnumbered.take step).1
      rwa [List.append_assoc] at hrest

theorem appends (h : t.Counted stem marks) {s : Store Log.Writer} (hs : t.stores[stem]? = some s) :
    s.journal.appends = total marks :=
  (h _ (desk?_eq_some_iff.2 ⟨s, hs, rfl⟩)).2.2

end Tenants.Counted

/-! ### One check -/

/-- **How the check of a log can end**, and the store afterwards. -/
inductive Store.Checkup (threshold : Nat) (s : Store Log.Writer) :
    Except Refusal Bool → Store Log.Writer → Prop where
  /-- The log is not due. -/
  | early (fewer : s.journal.appends < max threshold 1) : Checkup threshold s (.ok false) s
  /-- It was due and was compacted. -/
  | compacted {w : Log.Writer} (due : max threshold 1 ≤ s.journal.appends) (zero : w.appends = 0) :
      Checkup threshold s (.ok true) { s with journal := w }
  /-- It is due, but could not be compacted. -/
  | failed {e : Refusal} (due : max threshold 1 ≤ s.journal.appends) :
      Checkup threshold s (.error e) s

namespace Store.Checkup

variable {threshold : Nat} {s s' : Store Log.Writer} {answer : Except Refusal Bool}

/-- **A log that was checked is not due**, unless its compaction has failed. -/
theorem fewer_or_failed (h : s.Checkup threshold answer s') :
    s'.journal.appends < max threshold 1 ∨ ∃ e, answer = .error e := by
  cases h with
  | early fewer => exact Or.inl fewer
  | @compacted w due zero =>
      left
      change w.appends < max threshold 1
      omega
  | failed due => exact Or.inr ⟨_, rfl⟩

/-- The check of a log changes no tables. -/
theorem tables (h : s.Checkup threshold answer s') : s'.tables = s.tables := by
  cases h with
  | _ => rfl

end Store.Checkup

namespace Desk

theorem isDue_iff {appends threshold : Nat} :
    isDue appends threshold = true ↔ max threshold 1 ≤ appends := by
  simp only [isDue, Bool.and_eq_true, decide_eq_true_eq]
  omega

/-- A compaction changes nothing of a store but its journal. -/
theorem compact_store (d : Desk LogFile) :
    d.compact.2.store = { d.store with journal := d.compact.2.store.journal } := by
  rw [store_compact]
  unfold Store.compact
  rcases d.store.journal.writer.compact d.store.journal.disk d.store.tables.snapshotRecords
    with ⟨e | u, w, disk⟩
  · rfl
  · rfl

/-- **How the check of a log ends.** -/
theorem checkup (d : Desk LogFile) (threshold : Nat) :
    Store.Checkup threshold (d.store.mapJournal (·.writer)) (d.compactIfDue threshold).1
      ((d.compactIfDue threshold).2.store.mapJournal (·.writer)) := by
  unfold compactIfDue
  by_cases hdue : isDue d.store.appends threshold = true
  · rw [if_pos hdue]
    have hmax := isDue_iff.1 hdue
    have hstore := d.compact_store
    have hcounters := d.compact_counters
    rcases hc : d.compact with ⟨e | u, d'⟩
    · rw [hc] at hstore hcounters
      rcases hcounters with ⟨hok, _⟩ | ⟨_, hsame⟩
      · cases hok
      · have hsame' : d'.store.mapJournal (·.writer) = d.store.mapJournal (·.writer) := by
          rw [hstore]
          exact congrArg (fun w => { d.store with journal := w }) hsame
        simp only [hsame']
        exact .failed hmax
    · rw [hc] at hstore hcounters
      rcases hcounters with ⟨_, hzero, _⟩ | ⟨⟨e, he⟩, _⟩
      · have hsame : d'.store.mapJournal (·.writer) =
            { d.store.mapJournal (·.writer) with journal := d'.store.journal.writer } := by
          rw [hstore]
          rfl
        simp only [hsame]
        exact .compacted hmax hzero
      · cases he
  · rw [if_neg hdue]
    exact .early (Nat.lt_of_not_le (mt isDue_iff.2 hdue))

end Desk

/-! ### Checks in a row -/

/-- The checks of the logs under some stems, as steps. -/
def checks (stems : List String) : List Step := stems.map fun stem => .act (.call stem .check)

namespace Tenants

/-- **How the checks of logs are answered**, each at its turn. -/
def answers (t : Tenants) : List String → List (String × Except Refusal Bool)
  | [] => []
  | stem :: stems =>
    ((t.desk? stem).map fun d => (stem, (d.compactIfDue t.threshold).1)).toList ++
      (t.compactIfDue stem).answers stems

variable {t : Tenants}

/-- The check of the log of an open tenant. -/
theorem compactIfDue_of_open {stem : String} {s : Store Log.Writer}
    (hs : t.stores[stem]? = some s) :
    ∃ answer s', (∀ stems, t.answers (stem :: stems) =
        (stem, answer) :: (t.compactIfDue stem).answers stems) ∧
      (t.compactIfDue stem).stores[stem]? = some s' ∧ s.Checkup t.threshold answer s' ∧
      (s.journal.appends < max t.threshold 1 → t.LeftAlone stem (t.compactIfDue stem)) := by
  obtain ⟨d, hd, hstore⟩ : ∃ d, t.desk? stem = some d ∧ d.store.mapJournal (·.writer) = s :=
    ⟨_, desk?_eq_some_iff.2 ⟨s, hs, rfl⟩, rfl⟩
  have hcheck : t.compactIfDue stem = t.putDesk stem (d.compactIfDue t.threshold).2 := by
    rw [compactIfDue, serve, hd]
    rfl
  have hcheckup := d.checkup t.threshold
  rw [hstore] at hcheckup
  refine ⟨_, _, fun stems => by rw [answers, hd]; rfl, ?_, hcheckup, ?_⟩
  · rw [hcheck, putDesk]
    exact Std.ExtTreeMap.getElem?_insert_self
  · intro hfewer
    have hdue : ¬ Desk.isDue d.store.appends t.threshold = true := by
      rw [Desk.isDue_iff, Nat.not_le]
      rw [← hstore] at hfewer
      exact hfewer
    have hsame : d.compactIfDue t.threshold = (.ok false, d) := if_neg hdue
    obtain ⟨s₁, hs₁, rfl⟩ := desk?_eq_some_iff.1 hd
    rw [hcheck, hsame]
    refine ⟨?_, rfl, rfl⟩
    rw [hs₁]
    exact Std.ExtTreeMap.getElem?_insert_self

namespace Housed

/-- A check changes only what belongs to its tenant. -/
theorem compactIfDue (h : t.Housed) {stem : String} (hstem : stemOf stem = stem) :
    (t.compactIfDue stem).Housed ∧ Addressed stem t (t.compactIfDue stem) := by
  have hperform := h.perform (.call stem .check)
  rw [← compactIfDue_eq_perform t hstem, Act.tenant, hstem] at hperform
  exact hperform

/-- Who is not checked is left alone. -/
theorem checkAll_leftAlone (h : t.Housed) {stems : List String}
    (hstems : ∀ x ∈ stems, stemOf x = x) {stem : String} (hnot : stem ∉ stems) :
    t.LeftAlone stem (t.checkAll stems) := by
  induction stems generalizing t with
  | nil => exact .refl stem t
  | cons x stems ih =>
      obtain ⟨hx, hrest⟩ := List.forall_mem_cons.1 hstems
      obtain ⟨hne, hnot'⟩ := not_or.1 (mt List.mem_cons.2 hnot)
      obtain ⟨hhoused, haddressed⟩ := h.compactIfDue hx
      exact (haddressed.leftAlone hne).trans (ih hhoused hrest hnot')

/-- **How the check of a log among others ends.** -/
theorem checkup (h : t.Housed) {stems : List String} (hnodup : stems.Nodup)
    (hstems : ∀ x ∈ stems, stemOf x = x) {stem : String} (hmem : stem ∈ stems)
    {s : Store Log.Writer} (hs : t.stores[stem]? = some s) :
    ∃ answer s', (stem, answer) ∈ t.answers stems ∧
      (t.checkAll stems).stores[stem]? = some s' ∧ s.Checkup t.threshold answer s' ∧
      (s.journal.appends < max t.threshold 1 → t.LeftAlone stem (t.checkAll stems)) := by
  induction stems generalizing t with
  | nil => cases hmem
  | cons x stems ih =>
      obtain ⟨hx, hrest⟩ := List.forall_mem_cons.1 hstems
      obtain ⟨hnot, hnodup'⟩ := List.nodup_cons.1 hnodup
      obtain ⟨hhoused, haddressed⟩ := h.compactIfDue hx
      by_cases hstem : stem = x
      · subst hstem
        obtain ⟨answer, s', hanswers, hs', hcheckup, halone⟩ := compactIfDue_of_open hs
        -- the checks that follow are those of others
        have hlater := hhoused.checkAll_leftAlone hrest hnot
        refine ⟨answer, s', ?_, hlater.store.trans hs', hcheckup, ?_⟩
        · rw [hanswers]
          exact List.mem_cons_self
        · exact fun hfewer => (halone hfewer).trans hlater
      · have hbefore := haddressed.leftAlone hstem
        have hmem' := (List.mem_cons.1 hmem).resolve_left hstem
        obtain ⟨answer, s', hanswer, hs', hcheckup, halone⟩ :=
          ih hhoused hnodup' hrest hmem' (hbefore.store.trans hs)
        rw [haddressed.threshold] at hcheckup halone
        refine ⟨answer, s', ?_, hs', hcheckup, fun hfewer => hbefore.trans (halone hfewer)⟩
        exact List.mem_append_right _ hanswer

/-- Every open tenant whose log is checked gets an answer. -/
theorem map_fst_answers (h : t.Housed) {stems : List String}
    (hopen : ∀ x ∈ stems, x ∈ t.stores) : (t.answers stems).map (·.1) = stems := by
  induction stems generalizing t with
  | nil => rfl
  | cons x stems ih =>
      obtain ⟨hx, hrest⟩ := List.forall_mem_cons.1 hopen
      obtain ⟨hhoused, haddressed⟩ := h.compactIfDue (h.stems x hx).2
      obtain ⟨s, hs⟩ := mem_stores_iff_exists.1 hx
      obtain ⟨answer, _, hanswers, _⟩ := compactIfDue_of_open hs
      rw [hanswers, List.map_cons, ih hhoused fun y hy => haddressed.mem_stores (hrest y hy)]

end Housed

end Tenants

namespace Roster

variable {r : Roster} {stem : String}

theorem takeAll_append (r : Roster) (steps steps' : List Step) :
    r.takeAll (steps ++ steps') = (r.takeAll steps).takeAll steps' := List.foldl_append

/-- The checks of logs, taken as steps. -/
theorem tenants_takeAll_checks (r : Roster) {stems : List String}
    (hstems : ∀ x ∈ stems, stemOf x = x) :
    (r.takeAll (checks stems)).tenants = r.tenants.checkAll stems := by
  induction stems generalizing r with
  | nil => rfl
  | cons x stems ih =>
      obtain ⟨hx, hrest⟩ := List.forall_mem_cons.1 hstems
      have hnext := ih (r.take (.act (.call x .check))) hrest
      rwa [tenants_take_act, ← Tenants.compactIfDue_eq_perform r.tenants hx] at hnext

/-- Checks bring no records. -/
theorem records_checks (stem : String) (stems : List String) :
    (checks stems).flatMap (·.records stem) = [] := by
  rw [List.flatMap_eq_nil_iff]
  intro step hstep
  obtain ⟨x, _, rfl⟩ := List.mem_map.1 hstep
  simp [Step.records, Deed.records]

/-- Checks are nothing that others do. -/
theorem spares_checks (r : Roster) (stem : String) (stems : List String) :
    r.Spares stem (checks stems) := by
  induction stems generalizing r with
  | nil => trivial
  | cons x stems ih => exact ⟨trivial, ih _⟩

/-- The number of appends that makes a log due is always the same. -/
theorem Numbered.threshold_takeAll (h : r.Numbered) (steps : List Step) :
    (r.takeAll steps).tenants.threshold = r.tenants.threshold := by
  induction steps generalizing r with
  | nil => rfl
  | cons step steps ih =>
      have hstep : (r.take step).tenants.threshold = r.tenants.threshold := by
        cases step with
        | act a =>
            rw [tenants_take_act]
            exact (h.housed.perform a).2.threshold
        | disturb disk => rfl
        | restart => rfl
      exact (ih (h.take step).1).trans hstep

/-- The counters of the logs are exact, by whatever run the tenants have got where they are. -/
theorem counted_run (disk : Disk) (threshold : Nat) (m : Meter) (steps : List Step)
    (stem : String) : ((start disk threshold m).takeAll steps).tenants.Counted stem
      ((start disk threshold m).marks stem steps) := by
  have hnone : (start disk threshold m).tenants.Counted stem [] :=
    .of_closed [] (by simp [start, Tenants.start])
  exact hnone.takeAll (numbered_start disk threshold m) steps

/-- Checks make no difference to a log that nobody else touches. -/
theorem sheltered_checks {past : List Record} (h : r.tenants.Sheltered stem past)
    (hnumbered : r.Numbered) (hnovel : Novel past) (stems : List String) :
    (r.takeAll (checks stems)).tenants.Sheltered stem past := by
  have hafter := h.takeAll hnumbered (spares_checks r stem stems)
  rw [records_checks, List.append_nil] at hafter
  exact hafter hnovel

/-- **After a tick no log is due but those that could not be compacted.**  Whatever run has led
here, from any disk, the compactors check the logs of all open tenants, in any order, and each gets
one answer.  The number that decides is that of the quotas entered and writes made since the log was
last opened or compacted.  Afterwards it is below the threshold, which counts as one if it is zero,
or the compaction has failed; where it was below the threshold, neither the store nor the log was
touched.  The tables are as they were; and a log that was not there when the run began, and that
nobody else has touched since, replays to them before and after. -/
theorem tick_run (disk : Disk) (threshold : Nat) (m : Meter) (steps : List Step)
    (order : List String)
    (hall : order.Perm ((start disk threshold m).takeAll steps).tenants.stores.keys) :
    let r := start disk threshold m
    let t := (r.takeAll steps).tenants
    let t' := (r.takeAll (steps ++ checks order)).tenants
    t' = t.checkAll order ∧ t.tick = t.checkAll t.stores.keys ∧
    (t.answers order).map (·.1) = order ∧
    ∀ (stem : String) (s : Store Log.Writer), t.stores[stem]? = some s →
      ∃ (s' : Store Log.Writer) (answer : Except Refusal Bool),
        t'.stores[stem]? = some s' ∧ (stem, answer) ∈ t.answers order ∧
        s.Checkup threshold answer s' ∧
        s.journal.appends = total (r.marks stem steps) ∧
        s'.journal.appends = total (r.marks stem (steps ++ checks order)) ∧
        (s'.journal.appends < max threshold 1 ∨ ∃ e, answer = .error e) ∧
        (s.journal.appends < max threshold 1 → t.LeftAlone stem t') ∧
        s'.tables = s.tables ∧
        (disk.file? (logName stem) = none → r.Spares stem steps →
          Novel (steps.flatMap (·.records stem)) →
          ∃ s₁ s₂, Store.ofLog t.disk (logName stem) = .ok s₁ ∧
            Store.ofLog t'.disk (logName stem) = .ok s₂ ∧
            s₁.tables = s.tables ∧ s₂.tables = s.tables) := by
  intro r t t'
  have hstart : r.Numbered := numbered_start disk threshold m
  have hnumbered : (r.takeAll steps).Numbered := (hstart.takeAll steps).1
  have hhoused : t.Housed := hnumbered.housed
  have hthreshold : t.threshold = threshold := hstart.threshold_takeAll steps
  have hopen : ∀ x ∈ order, x ∈ t.stores := fun x hx =>
    Std.ExtTreeMap.mem_keys.1 (hall.mem_iff.1 hx)
  have hstems : ∀ x ∈ order, stemOf x = x := fun x hx => (hhoused.stems x (hopen x hx)).2
  have hchecked : t' = t.checkAll order := by
    simp only [t', takeAll_append, tenants_takeAll_checks _ hstems, t]
  refine ⟨hchecked, rfl, hhoused.map_fst_answers hopen, ?_⟩
  intro stem s hs
  have hmem : stem ∈ order := by
    rw [hall.mem_iff, Std.ExtTreeMap.mem_keys]
    exact Tenants.mem_stores_iff_exists.2 ⟨s, hs⟩
  have hnodup : order.Nodup := hall.nodup_iff.2 Std.ExtTreeMap.nodup_keys
  obtain ⟨answer, s', hanswer, hs', hcheckup, halone⟩ := hhoused.checkup hnodup hstems hmem hs
  rw [hthreshold] at hcheckup halone
  rw [← hchecked] at hs' halone
  have hcounted := counted_run disk threshold m steps stem
  have hcounted' := counted_run disk threshold m (steps ++ checks order) stem
  refine ⟨s', answer, hs', hanswer, hcheckup, hcounted.appends hs, hcounted'.appends hs',
    hcheckup.fewer_or_failed, halone, hcheckup.tables, ?_⟩
  intro hfresh hspares hnovel
  have hsheltered : t.Sheltered stem (steps.flatMap (·.records stem)) :=
    (Tenants.Sheltered.start hfresh threshold m).takeAll hstart hspares hnovel
  have hafter := sheltered_checks hsheltered hnumbered hnovel order
  rw [← takeAll_append] at hafter
  obtain ⟨s₁, ho₁, htables₁⟩ := hsheltered.replays hs
  obtain ⟨s₂, ho₂, htables₂⟩ := hafter.replays hs'
  exact ⟨s₁, s₂, ho₁, ho₂, htables₁, htables₂.trans hcheckup.tables⟩

/-- Three tenants are opened and enter a quota each, and two of them also grant a claim. -/
def threeTenants : List Step :=
  [.act (.enter "a"), .act (.enter "b"), .act (.enter "c")] ++
  (["a", "b", "c"].map fun tenant => .act (.call tenant (.visit (.ask
    (.create ⟨⟨4, 1⟩, "Süd", "tour", tourDay⟩ ⟨⟨1⟩, ⟨⟨1⟩⟩, 0⟩))))) ++
  ["b", "c"].map fun tenant => .act (.call tenant (.visit (.ask
    (.allocate ⟨⟨1⟩, 2, none⟩ ⟨⟨2⟩, ⟨⟨2⟩⟩, 0⟩))))

/-- Then somebody puts a directory where the log of the third one is to be compacted. -/
def obstructed : List Step :=
  threeTenants ++
    [.disturb (((start .blank 2 .zero).takeAll threeTenants).tenants.disk.obstruct "c.wal.tmp")]

set_option maxRecDepth 100000 in
/-- Two appends make a log due.  The log of the first tenant is left alone, that of the second one
is compacted and replays to the same tables, and the compaction of the third one fails. -/
theorem tick_run_one_fails :
    let r := start .blank 2 .zero
    let t := (r.takeAll obstructed).tenants
    let t' := (r.takeAll (obstructed ++ checks ["c", "a", "b"])).tenants
    ["c", "a", "b"].Perm t.stores.keys ∧
      (t'.stores.toList.map fun p => (p.1, p.2.journal.appends)) =
        [("a", 1), ("b", 0), ("c", 2)] ∧
      t.LeftAlone "a" t' ∧ (∃ e, ("c", .error e) ∈ t.answers ["c", "a", "b"]) ∧
      r.Spares "b" obstructed ∧ Novel (obstructed.flatMap (·.records "b")) ∧
      ∃ s₁ s₂, Store.ofLog t.disk "b.wal" = .ok s₁ ∧ Store.ofLog t'.disk "b.wal" = .ok s₂ ∧
        s₁.tables.count = 1 ∧ s₁.tables = s₂.tables := by
  intro r t t'
  have hall : ["c", "a", "b"].Perm t.stores.keys := by decide +kernel
  obtain ⟨_, _, _, hstores⟩ := tick_run .blank 2 .zero obstructed ["c", "a", "b"] hall
  have happends : (t'.stores.toList.map fun p => (p.1, p.2.journal.appends)) =
      [("a", 1), ("b", 0), ("c", 2)] := by decide +kernel
  have hleft : t.LeftAlone "a" t' := by
    have hone : t.stores["a"]?.map (·.journal.appends) = some 1 := by decide +kernel
    obtain ⟨s, hs, hs₁⟩ := Option.map_eq_some_iff.1 hone
    have hfewer : s.journal.appends < max 2 1 := by
      rw [hs₁]
      decide
    obtain ⟨_, _, _, _, _, _, _, _, halone, _⟩ := hstores "a" s hs
    exact halone hfewer
  have hfailed : ∃ e, ("c", .error e) ∈ t.answers ["c", "a", "b"] := by
    have hopen : "c" ∈ t.stores := by decide +kernel
    obtain ⟨s, hs⟩ := Tenants.mem_stores_iff_exists.1 hopen
    obtain ⟨s', answer, hs', hanswer, _, _, _, hfewer, _⟩ := hstores "c" s hs
    have htwo : t'.stores["c"]?.map (·.journal.appends) = some 2 := by decide +kernel
    have hs₂ : s'.journal.appends = 2 := Option.some.inj ((congrArg _ hs').symm.trans htwo)
    rcases hfewer with hlt | ⟨e, rfl⟩
    · rw [hs₂] at hlt
      cases Nat.lt_irrefl 2 hlt
    · exact ⟨e, hanswer⟩
  have hspares : r.Spares "b" obstructed := by decide +kernel
  have hnovel : Novel (obstructed.flatMap (·.records "b")) :=
    ⟨by decide +kernel, by decide +kernel⟩
  have hcount : t.stores["b"]?.map (·.tables.count) = some 1 := by decide +kernel
  obtain ⟨s, hs, hone⟩ := Option.map_eq_some_iff.1 hcount
  obtain ⟨_, _, _, _, _, _, _, _, _, _, hreplays⟩ := hstores "b" s hs
  obtain ⟨s₁, s₂, ho₁, ho₂, htables₁, htables₂⟩ := hreplays rfl hspares hnovel
  exact ⟨hall, happends, hleft, hfailed, hspares, hnovel, s₁, s₂, ho₁, ho₂,
    (congrArg _ htables₁).trans hone, htables₁.trans htables₂.symm⟩

end Roster

end Allotment
