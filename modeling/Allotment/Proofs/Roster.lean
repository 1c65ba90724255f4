/-
**Tenants at work.**

Whoever works with tenants asks for one by its name and then makes calls on its desk; and from time
to time the log of a tenant is compacted if that is due.  Each of these acts is addressed to one
tenant.  In between, others may do to the disk what they like, and all stores may be closed and the
work begun again.  A roster watches this and gives every store that is opened a number of its own,
so that it can be told whether two clients have been given the same store.

Whatever happens, every open store lies under a stem of its own and writes to the log of this stem.
An act changes the store of the tenant to which it is addressed, the two entries of the data
directory that belong to its log, and nothing else.

Main definitions:

* `Allotment.Deed`, `Allotment.Act`, `Allotment.Tenants.perform` — acts, and the tenants afterwards;
* `Allotment.Roster`, `Allotment.Roster.enter` — the tenants with a number for every store, and how
  a client is given one;
* `Allotment.Step`, `Allotment.Roster.take` — what can happen, and a roster afterwards;
* `Allotment.Tenants.Housed` — what holds of open tenants at any moment;
* `Allotment.Tenants.Entering` — how asking for a tenant can end;
* `Allotment.Tenants.Addressed` — what an act may change.

Main results:

* `Allotment.Tenants.Housed.perform` — **an act changes only what belongs to its tenant**;
* `Allotment.Roster.Numbered.takeAll` — no two stores ever have the same number.
-/

import Allotment.Proofs.Confined
import Allotment.Proofs.Events
import Allotment.Proofs.Tenants

set_option relaxedAutoImplicit false
set_option autoImplicit false

namespace Allotment

open Disk (Within)

/-! ### Acts -/

/-- What may be asked of the desk of an open tenant. -/
inductive Deed where
  /-- Something for which clients come to a desk. -/
  | visit (v : Visit)
  /-- That the log is compacted. -/
  | compact
  /-- That the log is compacted if this is due, for which nobody has to come. -/
  | check

/-- What happens to a desk by a deed. -/
def Deed.event (threshold : Nat) : Deed → Event
  | .visit v => .visit v
  | .compact => .compact
  | .check => .compactIfDue threshold

/-- What can be done with a tenant. -/
inductive Act where
  /-- Its store is asked for. -/
  | enter (tenant : String)
  /-- Something is asked of its desk, if it is open. -/
  | call (tenant : String) (deed : Deed)

/-- The tenant to which an act is addressed. -/
def Act.tenant : Act → String
  | .enter tenant | .call tenant _ => tenant

namespace Tenants

/-- The tenants after an act. -/
def perform (t : Tenants) : Act → Tenants
  | .enter tenant =>
    match t.openTenant tenant with
    | .ok (_, t) => t
    | .error _ => t
  | .call tenant deed =>
    match t.serve (stemOf tenant) fun d => ((), d.undergo (deed.event t.threshold)) with
    | some (_, t) => t
    | none => t

/-- The tenants after acts. -/
def performAll (t : Tenants) (acts : List Act) : Tenants := acts.foldl perform t

/-! ### What holds of open tenants -/

/-- **What holds of open tenants at any moment.** -/
structure Housed (t : Tenants) : Prop where
  /-- Stores lie under stems. -/
  stems : ∀ stem ∈ t.stores, stem ≠ "" ∧ stemOf stem = stem
  /-- Every store writes to the log of its stem. -/
  named : ∀ (stem : String) (s : Store Log.Writer), t.stores[stem]? = some s →
    s.journal.name = logName stem
  /-- No rival lies in wait. -/
  alone : ∀ (stem : String) (s : Store Log.Writer), t.stores[stem]? = some s → s.rival = none
  /-- There are no more than may be open. -/
  size : t.stores.size ≤ tenantCeiling

/-- **What an act that is addressed to a tenant may change.** -/
structure Addressed (stem : String) (t t' : Tenants) : Prop where
  /-- Nothing on the disk changes but the entries that belong to its log. -/
  disk : Within (ownNames (logName stem)) t.disk t'.disk
  /-- No other store changes, and none comes or goes. -/
  others : ∀ x, x ≠ stem → t'.stores[x]? = t.stores[x]?
  /-- The store of the tenant stays open. -/
  stays : stem ∈ t.stores → stem ∈ t'.stores
  /-- The same number of appends makes a compaction due. -/
  threshold : t'.threshold = t.threshold

theorem stemOf_stemOf (tenant : String) : stemOf (stemOf tenant) = stemOf tenant := by
  rw [stemOf_eq_self_iff, stemOf, String.toList_ofList]
  intro c hc
  exact (List.mem_filter.1 hc).2

namespace Addressed

variable {stem : String} {t t' : Tenants}

theorem refl (stem : String) (t : Tenants) : Addressed stem t t :=
  ⟨.refl _ _, fun _ _ => rfl, id, rfl⟩

/-- A store is put under the stem. -/
theorem of_insert {s : Store Log.Writer} (hdisk : Within (ownNames (logName stem)) t.disk t'.disk)
    (hstores : t'.stores = t.stores.insert stem s) (hthreshold : t'.threshold = t.threshold) :
    Addressed stem t t' where
  disk := hdisk
  others x hx := by
    have hne : stem ≠ x := Ne.symm hx
    rw [hstores, Std.ExtTreeMap.getElem?_insert]
    simp [hne]
  stays _ := by
    rw [hstores]
    simp
  threshold := hthreshold

theorem mem_stores_iff (h : Addressed stem t t') {x : String} (hx : x ≠ stem) :
    x ∈ t'.stores ↔ x ∈ t.stores := by
  rw [Std.ExtTreeMap.mem_iff_isSome_getElem?, Std.ExtTreeMap.mem_iff_isSome_getElem?, h.others x hx]

/-- Whatever is open stays open. -/
theorem mem_stores (h : Addressed stem t t') {x : String} (hx : x ∈ t.stores) : x ∈ t'.stores := by
  by_cases hstem : x = stem
  · exact hstem ▸ h.stays (hstem ▸ hx)
  · exact (h.mem_stores_iff hstem).2 hx

end Addressed

/-- What holds of open tenants goes on holding when a store is put under a stem. -/
theorem Housed.of_insert {t t' : Tenants} {stem : String} {s : Store Log.Writer} (h : t.Housed)
    (hstores : t'.stores = t.stores.insert stem s) (hstem : stem ≠ "" ∧ stemOf stem = stem)
    (hnamed : s.journal.name = logName stem) (halone : s.rival = none)
    (hroom : stem ∈ t.stores ∨ t.stores.size < tenantCeiling) : t'.Housed := by
  have hget : ∀ (x : String) (s' : Store Log.Writer), t'.stores[x]? = some s' →
      (x = stem ∧ s' = s) ∨ t.stores[x]? = some s' := by
    intro x s' hs'
    rw [hstores, Std.ExtTreeMap.getElem?_insert] at hs'
    split at hs'
    · next heq =>
      exact Or.inl ⟨(Std.LawfulEqOrd.compare_eq_iff_eq.1 heq).symm, (Option.some.inj hs').symm⟩
    · exact Or.inr hs'
  refine ⟨?_, ?_, ?_, ?_⟩
  · intro x hx
    rw [hstores, Std.ExtTreeMap.mem_insert, Std.LawfulEqOrd.compare_eq_iff_eq] at hx
    rcases hx with rfl | hx
    · exact hstem
    · exact h.stems x hx
  · intro x s' hs'
    rcases hget x s' hs' with ⟨rfl, rfl⟩ | hold
    · exact hnamed
    · exact h.named x s' hold
  · intro x s' hs'
    rcases hget x s' hs' with ⟨rfl, rfl⟩ | hold
    · exact halone
    · exact h.alone x s' hold
  · rw [hstores, Std.ExtTreeMap.size_insert]
    have hsize := h.size
    split
    · exact hsize
    · next hnew =>
      rcases hroom with hin | hlt
      · exact absurd hin hnew
      · omega

theorem housed_start (disk : Disk) (threshold : Nat) (m : Meter) :
    (start disk threshold m).Housed := by
  refine ⟨?_, ?_, ?_, ?_⟩
  · intro stem hs
    simp [start] at hs
  · intro stem s hs
    simp [start] at hs
  · intro stem s hs
    simp [start] at hs
  · simp [start]

/-! ### One act -/

/-- **How asking for a tenant can end.** -/
inductive Entering (t : Tenants) (tenant : String) : Except Fault (String × Tenants) → Prop where
  /-- The name is too long. -/
  | tooLong (long : tenantNameBytes < tenant.utf8ByteSize) :
      Entering t tenant (.error .tenantNameTooLong)
  /-- Nothing is left of the name. -/
  | nameless (short : tenant.utf8ByteSize ≤ tenantNameBytes) (empty : stemOf tenant = "") :
      Entering t tenant (.error .tenantNameEmpty)
  /-- The tenant is open. -/
  | present (short : tenant.utf8ByteSize ≤ tenantNameBytes) (named : stemOf tenant ≠ "")
      (open_ : stemOf tenant ∈ t.stores) : Entering t tenant (.ok (stemOf tenant, t))
  /-- There are as many tenants as may be open. -/
  | crowded (short : tenant.utf8ByteSize ≤ tenantNameBytes) (named : stemOf tenant ≠ "")
      (new : stemOf tenant ∉ t.stores) (full : tenantCeiling ≤ t.stores.size) :
      Entering t tenant (.error .tooManyTenants)
  /-- Its log cannot be opened. -/
  | barred (short : tenant.utf8ByteSize ≤ tenantNameBytes) (named : stemOf tenant ≠ "")
      (new : stemOf tenant ∉ t.stores) (room : t.stores.size < tenantCeiling) {e : Fault}
      (log : Store.ofLog t.disk (logName (stemOf tenant)) = .error e) :
      Entering t tenant (.error e)
  /-- It is opened. -/
  | opened (short : tenant.utf8ByteSize ≤ tenantNameBytes) (named : stemOf tenant ≠ "")
      (new : stemOf tenant ∉ t.stores) (room : t.stores.size < tenantCeiling)
      {s : Store LogFile} (log : Store.ofLog t.disk (logName (stemOf tenant)) = .ok s) :
      Entering t tenant (.ok (stemOf tenant, t.withOpen (stemOf tenant) s))

theorem entering (t : Tenants) (tenant : String) : Entering t tenant (t.openTenant tenant) := by
  unfold openTenant
  rcases Nat.lt_or_ge tenantNameBytes tenant.utf8ByteSize with hlong | hshort
  · rw [if_pos hlong]
    exact .tooLong hlong
  rw [if_neg (Nat.not_lt.2 hshort)]
  simp only
  by_cases hempty : stemOf tenant = ""
  · rw [if_pos hempty]
    exact .nameless hshort hempty
  rw [if_neg hempty]
  by_cases hopen : stemOf tenant ∈ t.stores
  · rw [if_pos hopen]
    exact .present hshort hempty hopen
  rw [if_neg hopen, openStem]
  rcases Nat.lt_or_ge t.stores.size tenantCeiling with hroom | hfull
  · rw [if_neg (Nat.not_le.2 hroom)]
    cases ho : Store.ofLog t.disk (logName (stemOf tenant)) with
    | error e => exact .barred hshort hempty hopen hroom ho
    | ok s => exact .opened hshort hempty hopen hroom ho
  · rw [if_pos hfull]
    exact .crowded hshort hempty hopen hfull

/-- A store that has just been opened is put under its stem. -/
theorem addressed_withOpen {t : Tenants} {stem : String} {s : Store LogFile}
    (ho : Store.ofLog t.disk (logName stem) = .ok s) : Addressed stem t (t.withOpen stem s) :=
  .of_insert ((Store.ofLog_confined ho).journal.2.mono fun _ => ownNames_of_eq) rfl rfl

/-- What a desk has done is taken over. -/
theorem addressed_putDesk {t : Tenants} {stem : String} {d : Desk LogFile}
    (h : Within (ownNames (logName stem)) t.disk d.store.journal.disk) :
    Addressed stem t (t.putDesk stem d) := .of_insert h rfl rfl

/-- The desk of an open tenant. -/
theorem Housed.desk? {t : Tenants} (h : t.Housed) {stem : String} {d : Desk LogFile}
    (hd : t.desk? stem = some d) :
    stem ∈ t.stores ∧ d.store.journal.disk = t.disk ∧
      d.store.journal.writer.name = logName stem ∧ d.store.rival = none := by
  obtain ⟨s, hs, rfl⟩ := Option.map_eq_some_iff.1 hd
  have hmem : stem ∈ t.stores := mem_stores_iff_exists.2 ⟨s, hs⟩
  exact ⟨hmem, rfl, h.named stem s hs, h.alone stem s hs⟩

/-- A deed changes the desk of its tenant, if this is open. -/
theorem perform_call (t : Tenants) (tenant : String) (deed : Deed) :
    t.perform (.call tenant deed) =
      match t.desk? (stemOf tenant) with
      | none => t
      | some d => t.putDesk (stemOf tenant) (d.undergo (deed.event t.threshold)) := by
  simp only [perform, serve]
  cases t.desk? (stemOf tenant) with
  | none => rfl
  | some d => rfl

/-- **A deed touches nothing that belongs to another log**, and the log keeps its name. -/
theorem undergo_bounded {d : Desk LogFile} {stem : String}
    (hname : d.store.journal.writer.name = logName stem) (halone : d.store.rival = none)
    (threshold : Nat) (deed : Deed) :
    let d' := d.undergo (deed.event threshold)
    Within (ownNames (logName stem)) d.store.journal.disk d'.store.journal.disk ∧
      d'.store.journal.writer.name = logName stem ∧ d'.store.rival = none := by
  have hcompact : Within (ownNames (logName stem)) d.store.journal.disk
        d.compact.2.store.journal.disk ∧
      d.compact.2.store.journal.writer.name = logName stem ∧ d.compact.2.store.rival = none := by
    obtain ⟨hstays, hrival⟩ := d.compact_stays hname
    exact ⟨hstays.within, hstays.name.trans hname, hrival.trans halone⟩
  cases deed with
  | visit v =>
      have hover : d.store.Over (LogFile.Confined (logName stem) d.store.journal.disk) :=
        ⟨⟨hname, .refl _ _⟩, halone⟩
      have hlater := hover.receive (LogFile.lasting_confined _ _) v
      exact ⟨hlater.journal.2.mono fun _ => ownNames_of_eq, hlater.journal.1, hlater.alone⟩
  | compact => exact hcompact
  | check =>
      exact Desk.compactIfDue_induction
        (fun d' => Within (ownNames (logName stem)) d.store.journal.disk d'.store.journal.disk ∧
          d'.store.journal.writer.name = logName stem ∧ d'.store.rival = none)
        ⟨.refl _ _, hname, halone⟩ hcompact threshold

/-- **An act changes only what belongs to its tenant**, and what holds of open tenants goes on
holding. -/
theorem Housed.perform {t : Tenants} (h : t.Housed) (a : Act) :
    (t.perform a).Housed ∧ Addressed (stemOf a.tenant) t (t.perform a) := by
  cases a with
  | enter tenant =>
      have hentering := t.entering tenant
      simp only [Tenants.perform, Act.tenant]
      generalize t.openTenant tenant = result at hentering
      cases hentering with
      | opened short named new room log =>
          have hover := Store.ofLog_confined log
          exact ⟨h.of_insert rfl ⟨named, stemOf_stemOf tenant⟩ hover.journal.1 hover.alone
            (Or.inr room), addressed_withOpen log⟩
      | _ => exact ⟨h, .refl _ _⟩
  | call tenant deed =>
      rw [perform_call, Act.tenant]
      cases hd : t.desk? (stemOf tenant) with
      | none => exact ⟨h, .refl _ _⟩
      | some d =>
          obtain ⟨hmem, hdisk, hname, halone⟩ := h.desk? hd
          obtain ⟨hwithin, hname', halone'⟩ := undergo_bounded hname halone t.threshold deed
          rw [hdisk] at hwithin
          exact ⟨h.of_insert rfl (h.stems _ hmem) hname' halone' (Or.inl hmem),
            addressed_putDesk hwithin⟩

/-- A deed opens no store and closes none. -/
theorem Housed.mem_stores_call {t : Tenants} (h : t.Housed) {tenant x : String} {deed : Deed} :
    x ∈ (t.perform (.call tenant deed)).stores ↔ x ∈ t.stores := by
  rw [perform_call]
  cases hd : t.desk? (stemOf tenant) with
  | none => exact Iff.rfl
  | some d =>
      rw [mem_stores_putDesk]
      refine or_iff_right_of_imp ?_
      rintro rfl
      exact (h.desk? hd).1

/-- The check of a log is an act. -/
theorem compactIfDue_eq_perform (t : Tenants) {stem : String} (hstem : stemOf stem = stem) :
    t.compactIfDue stem = t.perform (.call stem .check) := by
  rw [perform_call, hstem, compactIfDue, serve]
  cases t.desk? stem with
  | none => rfl
  | some d => rfl

/-- A tick checks the open tenants one after the other. -/
theorem Housed.tick_eq {t : Tenants} (h : t.Housed) :
    t.tick = t.performAll (t.stores.keys.map fun stem => .call stem .check) := by
  have hall : ∀ (stems : List String) (t' : Tenants), (∀ stem ∈ stems, stemOf stem = stem) →
      stems.foldl compactIfDue t' =
        t'.performAll (stems.map fun stem => .call stem .check) := by
    intro stems
    induction stems with
    | nil => exact fun _ _ => rfl
    | cons stem stems ih =>
        intro t' hstems
        obtain ⟨hstem, hrest⟩ := List.forall_mem_cons.1 hstems
        rw [List.foldl_cons, compactIfDue_eq_perform t' hstem]
        exact ih _ hrest
  exact hall _ t fun stem hs => (h.stems stem (Std.ExtTreeMap.mem_keys.1 hs)).2

/-- **Closing all stores writes at most to the logs from which something waits to be written.** -/
theorem Housed.closeAll_waiting {t : Tenants} (h : t.Housed) :
    Within (fun x => ∃ stem s, t.stores[stem]? = some s ∧ s.journal.sink.buffer ≠ [] ∧
      x = logName stem) t.disk t.closeAll := by
  have hall : ∀ (l : List (String × Store Log.Writer)) (d : Disk),
      (∀ p ∈ l, t.stores[p.1]? = some p.2) →
        Within (fun x => ∃ stem s, t.stores[stem]? = some s ∧ s.journal.sink.buffer ≠ [] ∧
          x = logName stem) d (l.foldl (fun d p => p.2.journal.close d) d) := by
    intro l
    induction l with
    | nil => exact fun d _ => .refl _ d
    | cons p l ih =>
        intro d hl
        obtain ⟨hstore, hrest⟩ := List.forall_mem_cons.1 hl
        rw [List.foldl_cons]
        by_cases hempty : p.2.journal.sink.buffer = []
        · rw [Log.Writer.close_of_empty hempty]
          exact ih _ hrest
        · have hname := h.named _ _ hstore
          exact (Log.Writer.close_within ⟨_, _, hstore, hempty, hname⟩ d).trans (ih _ hrest)
  exact hall _ _ fun _ hp => Std.ExtTreeMap.mem_toList_iff_getElem?_eq_some.1 hp

/-- Closing all stores writes at most to their logs. -/
theorem Housed.closeAll_within {t : Tenants} (h : t.Housed) :
    Within (fun x => ∃ stem ∈ t.stores, x = logName stem) t.disk t.closeAll := by
  refine h.closeAll_waiting.mono ?_
  rintro x ⟨stem, s, hs, _, hx⟩
  exact ⟨stem, mem_stores_iff_exists.2 ⟨s, hs⟩, hx⟩

end Tenants

/-! ### Rosters -/

/-- Open tenants, with a number for every store. -/
structure Roster where
  /-- The tenants. -/
  tenants : Tenants
  /-- The number of the store that was last put under a stem. -/
  number : String → Nat
  /-- How many stores were opened so far. -/
  made : Nat

/-- What can happen to tenants. -/
inductive Step where
  /-- Somebody acts. -/
  | act (a : Act)
  /-- Others do something to the disk. -/
  | disturb (disk : Disk)
  /-- All stores are closed, and the work begins again. -/
  | restart

namespace Roster

/-- Nothing is open. -/
def start (disk : Disk) (threshold : Nat) (m : Meter) : Roster :=
  ⟨.start disk threshold m, fun _ => 0, 0⟩

/-- **Gives a client the store of a tenant**: the number of the store, and the roster afterwards.  A
store that was under the stem before is given with the number that it has; one that was not gets the
next number. -/
def enter (r : Roster) (tenant : String) : Except Fault (Nat × Roster) :=
  (r.tenants.openTenant tenant).map fun (stem, tenants) =>
    if stem ∈ r.tenants.stores then (r.number stem, { r with tenants })
    else (r.made, ⟨tenants, fun x => if x = stem then r.made else r.number x, r.made + 1⟩)

/-- The roster after a step. -/
def take (r : Roster) : Step → Roster
  | .act (.enter tenant) =>
    match r.enter tenant with
    | .ok (_, r) => r
    | .error _ => r
  | .act a => { r with tenants := r.tenants.perform a }
  | .disturb disk => { r with tenants.disk := disk }
  | .restart =>
    { r with tenants := .start r.tenants.closeAll r.tenants.threshold r.tenants.meter }

/-- The roster after steps. -/
def takeAll (r : Roster) (steps : List Step) : Roster := steps.foldl take r

/-- **A roster only watches**: it leaves the tenants to themselves. -/
theorem tenants_take_act (r : Roster) (a : Act) :
    (r.take (.act a)).tenants = r.tenants.perform a := by
  cases a with
  | enter tenant =>
      simp only [take, enter, Tenants.perform]
      cases r.tenants.openTenant tenant with
      | error e => rfl
      | ok opened =>
          obtain ⟨stem, tenants⟩ := opened
          simp only [Except.map]
          split
          · rfl
          · rfl
  | call tenant deed => rfl

/-- **What holds of a roster at any moment**: no two open stores have the same number. -/
structure Numbered (r : Roster) : Prop where
  /-- What holds of the tenants. -/
  housed : r.tenants.Housed
  /-- Numbers are given in order. -/
  below : ∀ stem ∈ r.tenants.stores, r.number stem < r.made
  /-- No number is given twice. -/
  apart : ∀ stem ∈ r.tenants.stores, ∀ stem' ∈ r.tenants.stores,
    r.number stem = r.number stem' → stem = stem'

theorem numbered_start (disk : Disk) (threshold : Nat) (m : Meter) :
    (start disk threshold m).Numbered := by
  refine ⟨Tenants.housed_start disk threshold m, ?_, ?_⟩
  · intro stem hs
    simp [start, Tenants.start] at hs
  · intro stem hs
    simp [start, Tenants.start] at hs

/-- **How a client can be given a store**: one that is open, or one that is opened for it. -/
theorem enter_eq_ok {r r' : Roster} {tenant : String} {n : Nat}
    (h : r.enter tenant = .ok (n, r')) :
    (stemOf tenant ∈ r.tenants.stores ∧ n = r.number (stemOf tenant) ∧ r' = r) ∨
    (stemOf tenant ∉ r.tenants.stores ∧ n = r.made ∧
      ∃ s, Store.ofLog r.tenants.disk (logName (stemOf tenant)) = .ok s ∧
        r' = ⟨r.tenants.withOpen (stemOf tenant) s,
          fun x => if x = stemOf tenant then r.made else r.number x, r.made + 1⟩) := by
  have hentering := r.tenants.entering tenant
  unfold enter at h
  generalize r.tenants.openTenant tenant = result at h hentering
  cases hentering with
  | present short named open_ =>
      simp only [Except.map, if_pos open_] at h
      cases h
      exact Or.inl ⟨open_, rfl, rfl⟩
  | opened short named new room log =>
      simp only [Except.map, if_neg new] at h
      cases h
      exact Or.inr ⟨new, rfl, _, log, rfl⟩
  | _ => cases h

/-- **A roster at a later moment** before any restart: whatever was open is open, under the number
that it had. -/
def Follows (r r' : Roster) : Prop :=
  ∀ stem ∈ r.tenants.stores, stem ∈ r'.tenants.stores ∧ r'.number stem = r.number stem

theorem Follows.refl (r : Roster) : Follows r r := fun _ hs => ⟨hs, rfl⟩

theorem Follows.trans {r r' r'' : Roster} (h : Follows r r') (h' : Follows r' r'') :
    Follows r r'' := by
  intro stem hs
  obtain ⟨hs', hn⟩ := h stem hs
  obtain ⟨hs'', hn'⟩ := h' stem hs'
  exact ⟨hs'', hn'.trans hn⟩

/-- Giving a client a store. -/
theorem Numbered.enter {r r' : Roster} (h : r.Numbered) {tenant : String} {n : Nat}
    (he : r.enter tenant = .ok (n, r')) :
    r'.Numbered ∧ Follows r r' ∧ stemOf tenant ∈ r'.tenants.stores ∧
      r'.number (stemOf tenant) = n := by
  have htenants : r'.tenants.Housed := by
    have hperform := (h.housed.perform (.enter tenant)).1
    rw [← tenants_take_act, take, he] at hperform
    exact hperform
  rcases enter_eq_ok he with ⟨hopen, rfl, rfl⟩ | ⟨hnew, rfl, s, _, rfl⟩
  · exact ⟨h, .refl r', hopen, rfl⟩
  · have hold : ∀ x ∈ r.tenants.stores, x ≠ stemOf tenant := fun x hx heq => hnew (heq ▸ hx)
    refine ⟨⟨htenants, ?_, ?_⟩, ?_, Tenants.mem_stores_withOpen.2 (Or.inl rfl), if_pos rfl⟩
    · intro x hx
      simp only
      rcases Tenants.mem_stores_withOpen.1 hx with rfl | hx
      · rw [if_pos rfl]
        omega
      · have hlt := h.below x hx
        rw [if_neg (hold x hx)]
        omega
    · intro x hx y hy
      simp only
      rcases Tenants.mem_stores_withOpen.1 hx with rfl | hx
      · rcases Tenants.mem_stores_withOpen.1 hy with rfl | hy
        · exact fun _ => rfl
        · have hlt := h.below y hy
          rw [if_pos rfl, if_neg (hold y hy)]
          intro heq
          omega
      · rcases Tenants.mem_stores_withOpen.1 hy with rfl | hy
        · have hlt := h.below x hx
          rw [if_pos rfl, if_neg (hold x hx)]
          intro heq
          omega
        · rw [if_neg (hold x hx), if_neg (hold y hy)]
          exact h.apart x hx y hy
    · intro x hx
      exact ⟨Tenants.mem_stores_withOpen.2 (Or.inr hx), if_neg (hold x hx)⟩

/-- **Whatever happens, no two open stores have the same number**; and until a restart, whatever is
open stays open under the number that it has. -/
theorem Numbered.take {r : Roster} (h : r.Numbered) (step : Step) :
    (r.take step).Numbered ∧ (step ≠ .restart → Follows r (r.take step)) := by
  cases step with
  | act a =>
      cases a with
      | enter tenant =>
          simp only [Roster.take]
          cases he : r.enter tenant with
          | error e => exact ⟨h, fun _ => .refl r⟩
          | ok given =>
              obtain ⟨hnumbered, hfollows, _⟩ := h.enter he
              exact ⟨hnumbered, fun _ => hfollows⟩
      | call tenant deed =>
          have hmem : ∀ x, x ∈ (r.tenants.perform (.call tenant deed)).stores ↔
              x ∈ r.tenants.stores := fun x => h.housed.mem_stores_call
          exact ⟨⟨(h.housed.perform (.call tenant deed)).1, fun x hx => h.below x ((hmem x).1 hx),
              fun x hx y hy => h.apart x ((hmem x).1 hx) y ((hmem y).1 hy)⟩,
            fun _ x hx => ⟨(hmem x).2 hx, rfl⟩⟩
  | disturb disk =>
      exact ⟨⟨⟨h.housed.stems, h.housed.named, h.housed.alone, h.housed.size⟩, h.below, h.apart⟩,
        fun _ => .refl r⟩
  | restart =>
      have hnone : ∀ stem, stem ∉ (Roster.take r .restart).tenants.stores := by
        intro stem hs
        simp [Roster.take, Tenants.start] at hs
      exact ⟨⟨Tenants.housed_start _ _ _, fun x hx => absurd hx (hnone x),
        fun x hx => absurd hx (hnone x)⟩, fun hne => absurd rfl hne⟩

/-- **A run keeps numbers apart**, and until a restart it keeps open what is open. -/
theorem Numbered.takeAll {r : Roster} (h : r.Numbered) (steps : List Step) :
    (r.takeAll steps).Numbered ∧ (.restart ∉ steps → Follows r (r.takeAll steps)) := by
  induction steps generalizing r with
  | nil => exact ⟨h, fun _ => .refl r⟩
  | cons step steps ih =>
      obtain ⟨hnumbered, hfollows⟩ := h.take step
      obtain ⟨hlast, hfollows'⟩ := ih hnumbered
      refine ⟨hlast, ?_⟩
      intro hno
      obtain ⟨hne, hrest⟩ := not_or.1 (mt List.mem_cons.2 hno)
      exact (hfollows (Ne.symm hne)).trans (hfollows' hrest)

end Roster

end Allotment
