/-
**Logs that nobody else touches.**

Tenants are at work over one data directory, all stores are closed and the work begun again, and in
between others do to the disk what they like; only the log of one tenant they leave alone.  If there
was no such log when the work began, then whatever becomes of the other tenants, this log replays to
the tables of its tenant as long as this is open, and while it is not, opening it leads to tables
that the tenant has had.

Main definitions:

* `Allotment.Step.records` — the records that a step brings to the log of a tenant;
* `Allotment.Roster.Spares` — others leave the log of a tenant alone;
* `Allotment.Tenants.Sheltered` — what holds of the log of such a tenant at any moment.

Main results:

* `Allotment.Tenants.Sheltered.perform`, `Allotment.Tenants.Sheltered.restart` — what one act
  leaves, and what is left when all stores are closed;
* `Allotment.Tenants.Sheltered.takeAll` — **what holds at any moment goes on holding**;
* `Allotment.Tenants.Sheltered.replays` — the log of an open tenant replays to its tables.
-/

import Allotment.Proofs.Mishaps
import Allotment.Proofs.Recovery

set_option relaxedAutoImplicit false
set_option autoImplicit false

namespace Allotment

/-- The records that a step brings to the log of the tenant under a stem. -/
def Step.records (stem : String) : Step → List Record
  | .act (.call tenant deed) => if stemOf tenant = stem then deed.records else []
  | _ => []

/-- Whoever does something to the disk leaves the log under a stem alone. -/
def Step.Spares (stem : String) (t : Tenants) : Step → Prop
  | .disturb disk => disk.file? (logName stem) = t.disk.file? (logName stem)
  | _ => True

instance (stem : String) (t : Tenants) (step : Step) : Decidable (step.Spares stem t) :=
  match step with
  | .disturb disk =>
    inferInstanceAs (Decidable (disk.file? (logName stem) = t.disk.file? (logName stem)))
  | .act _ => isTrue trivial
  | .restart => isTrue trivial

/-- **Others leave the log under a stem alone** in the course of steps. -/
def Roster.Spares (stem : String) (r : Roster) : List Step → Prop
  | [] => True
  | step :: steps => step.Spares stem r.tenants ∧ (r.take step).Spares stem steps

instance Roster.decidableSpares (stem : String) :
    (steps : List Step) → (r : Roster) → Decidable (r.Spares stem steps)
  | [], _ => isTrue trivial
  | step :: steps, r =>
    have := decidableSpares stem steps (r.take step)
    inferInstanceAs (Decidable (step.Spares stem r.tenants ∧ (r.take step).Spares stem steps))

namespace Tenants

/-- **What holds at any moment of a log that nobody else touches**, if `past` is what was brought to
it so far. -/
structure Sheltered (stem : String) (past : List Record) (t : Tenants) : Prop where
  /-- While its tenant is open, it replays to the tables. -/
  kept : ∀ d, t.desk? stem = some d → d.Kept (logName stem) past
  /-- While it is not, it can be opened again. -/
  left : stem ∉ t.stores → Desk.Reopenable (logName stem) past t.disk

namespace Sheltered

variable {stem : String} {past : List Record} {t t' : Tenants}

/-- There is no log yet. -/
theorem start {disk : Disk} (hfresh : disk.file? (logName stem) = none) (threshold : Nat)
    (m : Meter) : (Tenants.start disk threshold m).Sheltered stem [] where
  kept d hd := by simp [Tenants.start, desk?] at hd
  left _ f hf := by
    have hnone : disk.file? (logName stem) = some f := hf
    rw [hfresh] at hnone
    cases hnone

/-- More may have been brought. -/
theorem mono (h : t.Sheltered stem past) (brought : List Record) :
    t.Sheltered stem (past ++ brought) where
  kept d hd := (h.kept d hd).mono fun _ hr => List.mem_append_left _ hr
  left hnew := (h.left hnew).mono brought

/-- Something has happened elsewhere. -/
theorem of_same (h : t.Sheltered stem past) (hstore : t'.stores[stem]? = t.stores[stem]?)
    (hfile : t'.disk.file? (logName stem) = t.disk.file? (logName stem)) :
    t'.Sheltered stem past where
  kept d hd := kept_of_same h.kept hstore hfile hd
  left hnew f hf := by
    have hnew' : stem ∉ t.stores := by
      rwa [Std.ExtTreeMap.mem_iff_isSome_getElem?, ← hstore,
        ← Std.ExtTreeMap.mem_iff_isSome_getElem?]
    exact h.left hnew' f (hfile ▸ hf)

/-- An act that is addressed to another tenant. -/
theorem of_addressed (h : t.Sheltered stem past) {other : String} (hne : stem ≠ other)
    (haddressed : Addressed other t t') : t'.Sheltered stem past :=
  h.of_same (haddressed.others stem hne) (haddressed.disk.file?_eq (not_ownNames hne).1)

/-- The tenant was opened. -/
theorem withOpen (h : t.Sheltered stem past) (hnew : stem ∉ t.stores) {s : Store LogFile}
    (ho : Store.ofLog t.disk (logName stem) = .ok s) : (t.withOpen stem s).Sheltered stem past where
  kept d hd := by
    cases (desk?_withOpen t stem s).symm.trans hd
    exact (h.left hnew).reopen ho _
  left hnot := absurd (mem_stores_withOpen.2 (Or.inl rfl)) hnot

/-- Something was asked of the desk. -/
theorem putDesk (h : t.Sheltered stem past) {d : Desk LogFile} (hd : t.desk? stem = some d)
    {deed : Deed} (hnovel : Novel (past ++ deed.records)) :
    (t.putDesk stem (d.undergo (deed.event t.threshold))).Sheltered stem
      (past ++ deed.records) where
  kept d' hd' := by
    cases (desk?_putDesk t stem _).symm.trans hd'
    exact (h.kept d hd).deed t.threshold hnovel
  left hnot := absurd (mem_stores_putDesk.2 (Or.inl rfl)) hnot

/-- **What one act leaves.** -/
theorem perform (h : t.Sheltered stem past) (hhoused : t.Housed) {a : Act}
    (hnovel : Novel (past ++ (Step.act a).records stem)) :
    (t.perform a).Sheltered stem (past ++ (Step.act a).records stem) := by
  by_cases hother : stem = stemOf a.tenant
  · cases a with
    | enter tenant =>
        have hentering := t.entering tenant
        rw [Act.tenant] at hother
        simp only [Tenants.perform]
        generalize t.openTenant tenant = result at hentering
        cases hentering with
        | opened short named new room log =>
            rw [← hother] at new log ⊢
            exact (h.withOpen new log).mono _
        | _ => exact h.mono _
    | call tenant deed =>
        have hrecords : (Step.act (.call tenant deed)).records stem = deed.records :=
          if_pos hother.symm
        rw [hrecords] at hnovel ⊢
        rw [Act.tenant] at hother
        rw [perform_call, ← hother]
        cases hd : t.desk? stem with
        | none => exact h.mono _
        | some d => exact h.putDesk hd hnovel
  · exact (h.of_addressed hother (hhoused.perform a).2).mono _

/-- The log has nothing to write. -/
theorem idle (h : t.Sheltered stem past) {s : Store Log.Writer} (hs : t.stores[stem]? = some s) :
    s.journal.sink.buffer = [] := by
  obtain ⟨_, hrest, _⟩ := (h.kept _ (desk?_eq_some_iff.2 ⟨s, hs, rfl⟩)).backed.log
  exact hrest.buffer

/-- **What is left when all stores are closed.** -/
theorem restart (h : t.Sheltered stem past) (hhoused : t.Housed) :
    (Tenants.start t.closeAll t.threshold t.meter).Sheltered stem past where
  kept d hd := by simp [Tenants.start, desk?] at hd
  left _ := by
    -- closing the other logs does not touch this one, and closing this one writes nothing
    have hsame : t.closeAll.file? (logName stem) = t.disk.file? (logName stem) := by
      refine hhoused.closeAll_waiting.file?_eq ?_
      rintro ⟨x, s, hs, hwaits, hname⟩
      obtain rfl := logName_injective hname
      exact hwaits (h.idle hs)
    have hleft : Desk.Reopenable (logName stem) past t.disk := by
      cases hd : t.desk? stem with
      | none =>
          refine h.left ?_
          rintro hopen
          obtain ⟨s, hs⟩ := mem_stores_iff_exists.1 hopen
          rw [desk?_eq_some_iff.2 ⟨s, hs, rfl⟩] at hd
          cases hd
      | some d =>
          have hkept := h.kept d hd
          have hclosed := (Desk.Tended.of_kept hkept).close
          obtain ⟨_, hrest, _⟩ := hkept.backed.log
          rwa [Store.close_eq hrest, (hhoused.desk? hd).2.1] at hclosed
    exact fun f hf => hleft f (hsame ▸ hf)

/-- **What holds at any moment holds after one more step**, if it spares the log. -/
theorem take {r : Roster} (h : r.tenants.Sheltered stem past) (hhoused : r.tenants.Housed)
    {step : Step} (hspares : step.Spares stem r.tenants)
    (hnovel : Novel (past ++ step.records stem)) :
    (r.take step).tenants.Sheltered stem (past ++ step.records stem) := by
  cases step with
  | act a =>
      rw [Roster.tenants_take_act]
      exact h.perform hhoused hnovel
  | disturb disk =>
      have hsame : (r.take (.disturb disk)).tenants.Sheltered stem past := h.of_same rfl hspares
      exact hsame.mono _
  | restart => exact (h.restart hhoused).mono _

/-- **What holds at any moment goes on holding**, as long as others leave the log alone. -/
theorem takeAll {r : Roster} (h : r.tenants.Sheltered stem past) (hnumbered : r.Numbered)
    {steps : List Step} (hspares : r.Spares stem steps)
    (hnovel : Novel (past ++ steps.flatMap (·.records stem))) :
    (r.takeAll steps).tenants.Sheltered stem (past ++ steps.flatMap (·.records stem)) := by
  induction steps generalizing past r with
  | nil => exact h.mono _
  | cons step steps ih =>
      obtain ⟨hstep, hrest⟩ := hspares
      rw [List.flatMap_cons, ← List.append_assoc] at hnovel ⊢
      exact ih (h.take hnumbered.housed hstep hnovel.left) (hnumbered.take step).1 hrest hnovel

/-- **The log of an open tenant replays to its tables.** -/
theorem replays (h : t.Sheltered stem past) {s : Store Log.Writer}
    (hs : t.stores[stem]? = some s) :
    ∃ s', Store.ofLog t.disk (logName stem) = .ok s' ∧ s'.tables = s.tables :=
  (h.kept _ (desk?_eq_some_iff.2 ⟨s, hs, rfl⟩)).replays rfl

end Sheltered

end Tenants

end Allotment
