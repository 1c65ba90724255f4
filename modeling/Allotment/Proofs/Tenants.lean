/-
**Logs and tenants in one directory.**

Logs of different tenants have different names, and no log has the name of a temporary file.  So
what happens to the log of one tenant leaves those of the others alone, and which tenants are found
in a directory depends only on which names of logs are taken in it.

Main definitions:

* `Allotment.Tenants.withOpen` — the open tenants after one more was opened;
* `Allotment.Tenants.Idle` — no log of an open tenant has anything to write.

Main results:

* `Allotment.logName_injective`, `Allotment.temporaryName_ne_logName` — the names;
* `Allotment.discover_congr` — **the tenants found depend only on the names of logs**;
* `Allotment.mem_discover_iff`, `Allotment.nodup_discover`, `Allotment.pairwise_discover` — **the
  tenants found are those that have an entry for their log**, each once, in ascending order;
* `Allotment.Tenants.openTenant_cases` — **how opening a tenant can end**;
* `Allotment.Tenants.closeAll_of_idle` — closing logs that have nothing to write changes nothing.
-/

import Mathlib.Data.List.Nodup
import Allotment.Tenants
import Allotment.Proofs.Disk

set_option relaxedAutoImplicit false
set_option autoImplicit false

namespace Allotment

/-! ### Names -/

theorem logName_injective {s t : String} (h : logName s = logName t) : s = t := by
  have hlist := congrArg String.toList h
  simp only [logName, String.toList_append] at hlist
  exact String.toList_inj.1 (List.append_cancel_right hlist)

theorem temporaryName_injective {s t : String}
    (h : Log.temporaryName s = Log.temporaryName t) : s = t := by
  have hlist := congrArg String.toList h
  simp only [Log.temporaryName, String.toList_append] at hlist
  exact String.toList_inj.1 (List.append_cancel_right hlist)

/-- The last character tells a temporary file from a log. -/
theorem temporaryName_ne_logName (s t : String) : Log.temporaryName s ≠ logName t := by
  intro h
  have hlast := congrArg (fun x : String => x.toList.getLast?) h
  have htemp : (".tmp" : String).toList = ['.', 't', 'm', 'p'] := rfl
  have hlog : (".wal" : String).toList = ['.', 'w', 'a', 'l'] := rfl
  simp [logName, Log.temporaryName, String.toList_append, htemp, hlog,
    List.getLast?_append] at hlast

theorem eq_logName_of_logStem? {name stem : String} (h : logStem? name = some stem) :
    name = logName stem := by
  unfold logStem? at h
  split at h
  · next rest hrev =>
    split at h
    · cases h
    · cases h
      have hlist : name.toList = rest.reverse ++ ['.', 'w', 'a', 'l'] := by
        have := congrArg List.reverse hrev
        rw [List.reverse_reverse] at this
        rw [this]
        simp
      have hlog : (".wal" : String).toList = ['.', 'w', 'a', 'l'] := rfl
      rw [← String.toList_inj, hlist, logName, String.toList_append, String.toList_ofList, hlog]
  · cases h

/-- A temporary file is not taken for a log. -/
theorem logStem?_temporaryName (s : String) : logStem? (Log.temporaryName s) = none := by
  cases h : logStem? (Log.temporaryName s) with
  | none => rfl
  | some stem => exact absurd (eq_logName_of_logStem? h) (temporaryName_ne_logName s stem)

/-- The stem of a log is read off its name. -/
theorem logStem?_logName {stem : String} (h : stem ≠ "") : logStem? (logName stem) = some stem := by
  have hlog : (".wal" : String).toList = ['.', 'w', 'a', 'l'] := rfl
  have hrev : (logName stem).toList.reverse = 'l' :: 'a' :: 'w' :: '.' :: stem.toList.reverse := by
    rw [logName, String.toList_append, hlog, List.reverse_append]
    rfl
  have hne : stem.toList.reverse ≠ [] := by
    simpa using h
  unfold logStem?
  rw [hrev]
  simp only [if_neg hne, List.reverse_reverse, String.ofList_toList]

/-- A stem has a character. -/
theorem ne_empty_of_logStem? {name stem : String} (h : logStem? name = some stem) : stem ≠ "" := by
  rintro rfl
  unfold logStem? at h
  split at h
  · split at h
    · cases h
    · next hne =>
      have hlist := congrArg String.toList (Option.some.inj h)
      rw [String.toList_ofList] at hlist
      exact hne (List.reverse_eq_nil_iff.1 hlist)
  · cases h

/-- A name is its own stem if all its characters are safe. -/
theorem stemOf_eq_self_iff {s : String} : stemOf s = s ↔ ∀ c ∈ s.toList, isSafe c = true := by
  rw [← String.toList_inj, stemOf, String.toList_ofList, List.filter_eq_self]

/-! ### Discovery -/

/-- Two directories have the same names among those that a test picks out if they agree on which of
these are taken. -/
theorem filter_keys_congr {es es' : Entries} {p : String → Bool}
    (h : ∀ name, p name = true → (name ∈ es ↔ name ∈ es')) :
    es.keys.filter p = es'.keys.filter p := by
  have hperm : (es.keys.filter p).Perm (es'.keys.filter p) := by
    rw [List.perm_ext_iff_of_nodup (Std.ExtTreeMap.nodup_keys.filter p)
      (Std.ExtTreeMap.nodup_keys.filter p)]
    intro name
    rw [List.mem_filter, List.mem_filter, Std.ExtTreeMap.mem_keys, Std.ExtTreeMap.mem_keys]
    exact and_congr_left (h name)
  -- names stand in strictly ascending order, so there is only one way to list them
  have hsorted := (Std.ExtTreeMap.ordered_keys (t := es)).filter p
  have hsorted' := (Std.ExtTreeMap.ordered_keys (t := es')).filter p
  refine List.Perm.eq_of_pairwise ?_ hsorted hsorted' hperm
  intro a b _ _ hab hba
  exact absurd hba (Std.OrientedCmp.not_lt_of_lt hab)

/-- **The tenants found depend only on the names of logs.** -/
theorem discover_congr {d d' : Disk} {es es' : Entries} (hp : d.place = .directory es)
    (hp' : d'.place = .directory es')
    (h : ∀ name, (logStem? name).isSome = true → (name ∈ es ↔ name ∈ es')) :
    discover d = discover d' := by
  have hpick : ∀ names : List String,
      names.filterMap logStem? =
        (names.filter fun n => (logStem? n).isSome).filterMap logStem? := by
    intro names
    rw [List.filterMap_filter]
    congr 1
    funext n
    cases logStem? n <;> rfl
  simp only [discover, Disk.names, Disk.entries, hp, hp', Except.map]
  rw [hpick es.keys, hpick es'.keys, filter_keys_congr h]

/-- Tenants can be looked for in any directory. -/
theorem exists_discover {d : Disk} {es : Entries} (hp : d.place = .directory es) :
    ∃ tenants, discover d = .ok tenants := by
  simp only [discover, Disk.names, Disk.entries, hp]
  exact ⟨_, rfl⟩

/-- **The tenants found are those that have an entry for their log.** -/
theorem mem_discover_iff {d : Disk} {es : Entries} (hp : d.place = .directory es)
    {tenants : List String} (h : discover d = .ok tenants) {tenant : String} :
    tenant ∈ tenants ↔ tenant ≠ "" ∧ stemOf tenant = tenant ∧ logName tenant ∈ es := by
  simp only [discover, Disk.names, Disk.entries, hp, Except.map, Except.ok.injEq] at h
  rw [← h, List.mem_mergeSort, List.mem_filter, List.mem_filterMap]
  constructor
  · rintro ⟨⟨name, hname, hstem⟩, hsafe⟩
    rw [Std.ExtTreeMap.mem_keys, eq_logName_of_logStem? hstem] at hname
    exact ⟨ne_empty_of_logStem? hstem, of_decide_eq_true hsafe, hname⟩
  · rintro ⟨hne, hsafe, hname⟩
    exact ⟨⟨logName tenant, Std.ExtTreeMap.mem_keys.2 hname, logStem?_logName hne⟩,
      decide_eq_true hsafe⟩

/-- The name of the log of a tenant that is found stands for something. -/
theorem entry?_of_mem_discover {d : Disk} {es : Entries} (hp : d.place = .directory es)
    {tenants : List String} (h : discover d = .ok tenants) {tenant : String}
    (ht : tenant ∈ tenants) : d.entry? (logName tenant) ≠ none :=
  (Disk.mem_iff_entry? hp).1 ((mem_discover_iff hp h).1 ht).2.2

/-- Each tenant that is found has an entry for its log. -/
theorem mem_discover {d : Disk} {es : Entries} (hp : d.place = .directory es)
    {tenants : List String} (h : discover d = .ok tenants) {tenant : String}
    (ht : tenant ∈ tenants) :
    stemOf tenant = tenant ∧ logName tenant ∈ es :=
  ((mem_discover_iff hp h).1 ht).2

/-- Each tenant is found once. -/
theorem nodup_discover {d : Disk} {tenants : List String} (h : discover d = .ok tenants) :
    tenants.Nodup := by
  cases hp : d.place with
  | missing => simp [discover, Disk.names, Disk.entries, hp, Except.map] at h
  | occupied => simp [discover, Disk.names, Disk.entries, hp, Except.map] at h
  | directory es =>
      simp only [discover, Disk.names, Disk.entries, hp, Except.map, Except.ok.injEq] at h
      rw [← h, (List.mergeSort_perm _ _).nodup_iff]
      refine (List.Nodup.filterMap ?_ Std.ExtTreeMap.nodup_keys).filter _
      intro a b stem ha hb
      rw [eq_logName_of_logStem? ha, eq_logName_of_logStem? hb]

/-- The tenants are found in ascending order. -/
theorem pairwise_discover {d : Disk} {tenants : List String} (h : discover d = .ok tenants) :
    tenants.Pairwise (· < ·) := by
  have hsorted : tenants.Pairwise fun s t => (compare s t).isLE = true := by
    cases hn : d.names with
    | error e => simp [discover, hn, Except.map] at h
    | ok names =>
        simp only [discover, hn, Except.map, Except.ok.injEq] at h
        rw [← h]
        exact pairwise_mergeSort_isLE compare _
  -- no tenant is found twice, so none of the comparisons ends in a draw
  refine (hsorted.and (nodup_discover h)).imp ?_
  rintro s t ⟨hle, hne⟩
  cases hc : compare s t with
  | lt => exact compareOfLessAndEq_eq_lt.1 hc
  | eq => exact absurd (Std.LawfulEqOrd.eq_of_compare hc) hne
  | gt =>
      rw [hc] at hle
      cases hle

/-! ### Opening -/

namespace Tenants

/-- There is a store under the stem of an open tenant, and of no other. -/
theorem mem_stores_iff_exists {t : Tenants} {stem : String} :
    stem ∈ t.stores ↔ ∃ s, t.stores[stem]? = some s := by
  rw [Std.ExtTreeMap.mem_iff_isSome_getElem?, Option.isSome_iff_exists]

theorem mem_stores_putDesk {t : Tenants} {stem x : String} {d : Desk LogFile} :
    x ∈ (t.putDesk stem d).stores ↔ x = stem ∨ x ∈ t.stores := by
  rw [putDesk, Std.ExtTreeMap.mem_insert, Std.LawfulEqOrd.compare_eq_iff_eq, eq_comm]

theorem size_stores_putDesk (t : Tenants) (stem : String) (d : Desk LogFile) :
    (t.putDesk stem d).stores.size =
      if stem ∈ t.stores then t.stores.size else t.stores.size + 1 := by
  simp [putDesk, Std.ExtTreeMap.size_insert]

/-- The open tenants after the store of one more was opened. -/
def withOpen (t : Tenants) (stem : String) (s : Store LogFile) : Tenants :=
  { t.putDesk stem ⟨s, t.meter⟩ with
    meter := t.meter.noteTenants (t.putDesk stem ⟨s, t.meter⟩).stores.size }

theorem mem_stores_withOpen {t : Tenants} {stem x : String} {s : Store LogFile} :
    x ∈ (t.withOpen stem s).stores ↔ x = stem ∨ x ∈ t.stores :=
  mem_stores_putDesk

theorem size_stores_withOpen {t : Tenants} {stem : String} (s : Store LogFile)
    (h : stem ∉ t.stores) : (t.withOpen stem s).stores.size = t.stores.size + 1 :=
  (size_stores_putDesk t stem ⟨s, t.meter⟩).trans (if_neg h)

/-- The desk of a tenant that was just opened is that of its store. -/
theorem serve_withOpen {α : Type} (t : Tenants) (stem : String) (s : Store LogFile)
    (call : Desk LogFile → α × Desk LogFile) :
    (t.withOpen stem s).serve stem call =
      some ((call ⟨s, (t.withOpen stem s).meter⟩).1,
        (t.withOpen stem s).putDesk stem (call ⟨s, (t.withOpen stem s).meter⟩).2) := by
  simp [serve, desk?, withOpen, putDesk, Store.mapJournal]

/-- **How opening a tenant that is not open can end**, if its name is its stem. -/
theorem openTenant_cases {t : Tenants} {tenant : String} (hstem : stemOf tenant = tenant)
    (hnew : tenant ∉ t.stores) :
    (¬ (tenant ≠ "" ∧ tenant.utf8ByteSize ≤ tenantNameBytes ∧ t.stores.size < tenantCeiling ∧
        ∃ s, Store.ofLog t.disk (logName tenant) = .ok s) ∧
      ∃ e, t.openTenant tenant = .error e) ∨
    (tenant ≠ "" ∧ tenant.utf8ByteSize ≤ tenantNameBytes ∧ t.stores.size < tenantCeiling ∧
      ∃ s, Store.ofLog t.disk (logName tenant) = .ok s ∧
        t.openTenant tenant = .ok (tenant, t.withOpen tenant s)) := by
  rcases Nat.lt_or_ge tenantNameBytes tenant.utf8ByteSize with hlong | hshort
  · left
    exact ⟨fun h => absurd h.2.1 (Nat.not_le.2 hlong), _, by rw [openTenant, if_pos hlong]⟩
  rw [openTenant, if_neg (Nat.not_lt.2 hshort)]
  simp only [hstem]
  by_cases hnamed : tenant = ""
  · left
    exact ⟨fun h => h.1 hnamed, _, if_pos hnamed⟩
  rw [if_neg hnamed, if_neg hnew, openStem]
  rcases Nat.lt_or_ge t.stores.size tenantCeiling with hsize | hfull
  · rw [if_neg (Nat.not_le.2 hsize)]
    cases ho : Store.ofLog t.disk (logName tenant) with
    | error e =>
        left
        refine ⟨?_, e, rfl⟩
        rintro ⟨_, _, _, s, hs⟩
        cases hs
    | ok s =>
        right
        exact ⟨hnamed, hshort, hsize, s, rfl, rfl⟩
  · left
    exact ⟨fun h => absurd h.2.2.1 (Nat.not_lt.2 hfull), _, by rw [if_pos hfull]; rfl⟩

end Tenants

/-! ### Closing -/

namespace Tenants

/-- No log of an open tenant has anything to write. -/
def Idle (t : Tenants) : Prop :=
  ∀ (stem : String) (s : Store Log.Writer), t.stores[stem]? = some s → s.journal.sink.buffer = []

theorem Idle.putDesk {t : Tenants} (h : t.Idle) (stem : String) {d : Desk LogFile}
    (hd : d.store.journal.writer.sink.buffer = []) : (t.putDesk stem d).Idle := by
  intro x s hs
  simp only [Tenants.putDesk, Std.ExtTreeMap.getElem?_insert] at hs
  split at hs
  · cases hs
    exact hd
  · exact h x s hs

theorem Idle.withOpen {t : Tenants} (h : t.Idle) (stem : String) {s : Store LogFile}
    (hs : s.journal.writer.sink.buffer = []) : (t.withOpen stem s).Idle :=
  h.putDesk stem (d := ⟨s, t.meter⟩) hs

/-- If nothing is open, there is nothing to write. -/
theorem idle_start (disk : Disk) (threshold : Nat) (m : Meter) : (start disk threshold m).Idle := by
  intro stem s hs
  simp [start] at hs

/-- Closing logs that have nothing to write changes nothing. -/
theorem closeAll_of_idle {t : Tenants} (h : t.Idle) : t.closeAll = t.disk := by
  have hfold : ∀ (l : List (String × Store Log.Writer)) (d : Disk),
      (∀ p ∈ l, p.2.journal.sink.buffer = []) →
        l.foldl (fun d p => p.2.journal.close d) d = d := by
    intro l
    induction l with
    | nil => exact fun _ _ => rfl
    | cons p l ih =>
        intro d hl
        have hclose : p.2.journal.close d = d := by
          simp [Log.Writer.close, Log.Sink.flush, hl p (by simp), Disk.write, Except.map]
        rw [List.foldl_cons, hclose]
        exact ih d fun q hq => hl q (List.mem_cons_of_mem _ hq)
  refine hfold _ _ ?_
  intro p hp
  exact h p.1 p.2 (Std.ExtTreeMap.mem_toList_iff_getElem?_eq_some.1 hp)

end Tenants

end Allotment
