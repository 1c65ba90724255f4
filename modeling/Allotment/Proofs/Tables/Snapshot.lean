/-
**Rebuilding tables from their snapshot.**

A snapshot names every quota once, with its present terms and version, and then every allocation
that is listed under it.  Replaying it enters the quotas one after the other.  The invariant of this
is that the tables built so far are the old ones as far as the quotas entered so far go, and empty
otherwise: quotas do not come between each other, because each has records of its own.

One thing is needed of the old tables.  An allocation must be listed under no quota but its own:
replay goes by the quota that an allocation names, so one that is listed elsewhere gets lost there.
It does not matter whether an identifier is listed more than once under its quota.

A snapshot does not say how many units are reserved.  Replay counts them anew from the allocations,
so the units reserved are what they were only if they were the sum of the allocations.

Main definitions:

* `Allotment.Tables.recounted`, `Allotment.Tables.Counted` — tables with the units reserved counted
  anew, and tables of which this is true already;
* `Allotment.Tables.Restores` — tables that are others, recounted, as far as some quotas go.

Main results:

* `Allotment.Tables.Grown.ext` — tables that records rebuild are the same if they answer the same;
* `Allotment.Tables.ofRecords_snapshotRecords_eq_recounted` — **a snapshot rebuilds the tables but
  for the units reserved, which are counted anew**;
* `Allotment.Tables.ofRecords_snapshotRecords` — **a snapshot rebuilds balanced tables**.
-/

import Allotment.Proofs.Tables.Sound

set_option relaxedAutoImplicit false
set_option autoImplicit false

namespace Allotment

namespace Ledger

theorem find?_of_mem_entries {l : Ledger} {quota : Ulid} {a : Allocation}
    (h : a ∈ l.entries quota) : l.find? a.id = some a := by
  obtain ⟨i, _, hf⟩ := mem_entries.1 h
  rwa [id_of_find? hf]

/-- A quota lists the identifiers of its allocations. -/
theorem map_id_entries (l : Ledger) (quota : Ulid) :
    (l.entries quota).map (·.id) = l.ids quota := by
  have hall : ∀ is : List Ulid, (∀ i ∈ is, ∃ a, l.find? i = some a) →
      (is.filterMap l.find?).map (·.id) = is := by
    intro is
    induction is with
    | nil => exact fun _ => rfl
    | cons i is ih =>
        intro h
        obtain ⟨a, ha⟩ := h i (by simp)
        rw [List.filterMap_cons, ha]
        simp only [List.map_cons, id_of_find? ha]
        rw [ih fun j hj => h j (List.mem_cons_of_mem i hj)]
  exact hall _ fun i => find?_of_mem_ids

/-- Entering allocations of one quota lists their identifiers under it. -/
theorem ids_foldl_record {id : Ulid} {as : List Allocation} (hquota : ∀ a ∈ as, a.quota = id)
    (l : Ledger) (x : Ulid) :
    (as.foldl record l).ids x = if x = id then l.ids x ++ as.map (·.id) else l.ids x := by
  induction as generalizing l with
  | nil => simp
  | cons a as ih =>
      obtain rfl : a.quota = id := hquota a (by simp)
      rw [List.foldl_cons, ih (fun b hb => hquota b (by simp [hb])), ids_record]
      by_cases hx : x = a.quota
      · rw [if_pos hx, if_pos hx, if_pos hx.symm, List.map_cons, List.append_assoc]
        rfl
      · rw [if_neg hx, if_neg hx, if_neg (Ne.symm hx)]

/-- Entering allocations that were found in another ledger makes them be found here. -/
theorem find?_foldl_record {f : Ulid → Option Allocation} {as : List Allocation}
    (hfind : ∀ a ∈ as, f a.id = some a) (l : Ledger) (i : Ulid) :
    (as.foldl record l).find? i = if i ∈ as.map (·.id) then f i else l.find? i := by
  induction as generalizing l with
  | nil => simp
  | cons a as ih =>
      rw [List.foldl_cons, ih (fun b hb => hfind b (by simp [hb])), find?_record, List.map_cons]
      by_cases hi : i ∈ as.map (·.id)
      · rw [if_pos hi, if_pos (List.mem_cons_of_mem _ hi)]
      · rw [if_neg hi]
        by_cases ha : a.id = i
        · rw [if_pos ha, if_pos (by rw [ha]; exact List.mem_cons_self), ← ha, hfind a (by simp)]
        · rw [if_neg ha, if_neg]
          intro hmem
          rcases List.mem_cons.1 hmem with heq | hmem
          · exact ha heq.symm
          · exact hi hmem

end Ledger

/-- Units after more have been added, wrapping. -/
def plusAll (n : UInt32) (as : List Allocation) : UInt32 := as.foldl (fun n a => n + a.quantity) n

theorem toNat_plusAll {n : UInt32} {m : Nat} (h : n.toNat = m % UInt32.size)
    (as : List Allocation) :
    (plusAll n as).toNat = as.foldl (fun k a => k + a.quantity.toNat) m % UInt32.size := by
  induction as generalizing n m with
  | nil => exact h
  | cons a as ih =>
      have hnext : (n + a.quantity).toNat = (m + a.quantity.toNat) % UInt32.size := by
        rw [UInt32.toNat_add, h]
        exact Nat.mod_add_mod _ _ _
      exact ih hnext

namespace Tables

/-- Tables that records rebuild are the same if they answer the same. -/
theorem Grown.ext {t u : Tables} (ht : Grown t) (hu : Grown u)
    (hstandings : ∀ id : Ulid, t.standings[id]? = u.standings[id]?)
    (hids : ∀ quota, t.ledger.ids quota = u.ledger.ids quota)
    (hfind : ∀ i, t.ledger.find? i = u.ledger.find? i) : t = u := by
  refine Tables.ext (Std.ExtTreeMap.ext_getElem? fun id => hstandings id)
    (Ledger.ext (Std.ExtTreeMap.ext_getElem? fun i => hfind i)
      (Std.ExtTreeMap.ext_getElem? fun quota => ?_))
  -- a quota that lists nothing is absent from both indexes
  have h := hids quota
  unfold Ledger.ids at h
  have ht₀ := ht.nonempty quota
  have hu₀ := hu.nonempty quota
  cases hl : t.ledger.listed[quota]? with
  | none =>
      cases hm : u.ledger.listed[quota]? with
      | none => rfl
      | some js =>
          rw [hl, hm] at h
          exact absurd (hm.trans (congrArg some h.symm)) hu₀
  | some is =>
      cases hm : u.ledger.listed[quota]? with
      | none =>
          rw [hl, hm] at h
          exact absurd (hl.trans (congrArg some h)) ht₀
      | some js =>
          rw [hl, hm] at h
          exact congrArg some h

/-! ### Replaying the records of one quota -/

/-- Replaying a grant of a quota that exists. -/
theorem replayRecord_allocated {u : Tables} {a : Allocation} {s : Standing}
    (hs : u.standings[a.quota]? = some s) (version : Version) :
    u.replayRecord (.allocated a version) = u.commit a.quota s (.allocated a version) := by
  simp only [replayRecord, Record.quota, hs]

/-- Replaying grants of one quota, all with the version that it has, adds their units and enters
them in the ledger. -/
theorem foldl_allocated {u : Tables} {id : Ulid} {s : Standing} (hs : u.standings[id]? = some s)
    {as : List Allocation} (hquota : ∀ a ∈ as, a.quota = id) :
    (∀ x : Ulid, ((as.map (.allocated · s.version)).foldl replayRecord u).standings[x]? =
      if x = id then some { s with reserved := plusAll s.reserved as } else u.standings[x]?) ∧
    ((as.map (.allocated · s.version)).foldl replayRecord u).ledger =
      as.foldl Ledger.record u.ledger := by
  induction as generalizing u s with
  | nil =>
      refine ⟨?_, rfl⟩
      intro x
      by_cases hx : x = id
      · rw [if_pos hx, hx]
        exact hs
      · rw [if_neg hx]
        rfl
  | cons a as ih =>
      obtain rfl : a.quota = id := hquota a (by simp)
      -- the grant leaves the version alone, so that the quota is ready for the next one
      have hs' : (u.commit a.quota s (.allocated a s.version)).standings[a.quota]? =
          some { s with reserved := s.reserved + a.quantity } := by
        rw [standings_commit, if_pos rfl]
        rfl
      obtain ⟨hst, hledger⟩ := ih hs' fun b hb => hquota b (by simp [hb])
      simp only at hst hledger
      rw [List.map_cons, List.foldl_cons, replayRecord_allocated hs]
      refine ⟨?_, by rw [hledger, ledger_commit_allocated, List.foldl_cons]⟩
      intro x
      rw [hst, standings_commit]
      by_cases hx : x = a.quota
      · rw [if_pos hx, if_pos hx]
        rfl
      · rw [if_neg hx, if_neg hx, if_neg (Ne.symm hx)]

/-! ### Counting anew -/

/-- Tables in which the units reserved are the sum of the allocations, wrapping. -/
def recounted (t : Tables) : Tables where
  standings := t.standings.map fun id s => { s with reserved := .ofNat (t.ledger.total id) }
  ledger := t.ledger

theorem standings_recounted (t : Tables) (id : Ulid) :
    t.recounted.standings[id]? =
      t.standings[id]?.map fun s => { s with reserved := .ofNat (t.ledger.total id) } := by
  simp [recounted]

theorem mem_standings_recounted {t : Tables} {id : Ulid} :
    id ∈ t.recounted.standings ↔ id ∈ t.standings := by
  simp [recounted]

theorem Grown.recounted {t : Tables} (h : Grown t) : Grown t.recounted where
  nonempty := h.nonempty
  indexed := h.indexed
  rooted quota i hi := mem_standings_recounted.2 (h.rooted quota i hi)

/-- The units reserved are the sum of the allocations as far as it can be counted. -/
def Counted (t : Tables) : Prop :=
  ∀ (id : Ulid) (s : Standing), t.standings[id]? = some s →
    s.reserved.toNat = t.ledger.total id % UInt32.size

theorem Balanced.counted {t : Tables} (h : Balanced t) : Counted t := by
  intro id s hs
  rw [← h id s hs]
  exact (Nat.mod_eq_of_lt s.reserved.toNat_lt).symm

/-- Where the units reserved are what can be counted, counting anew changes nothing. -/
theorem Counted.recounted_eq {t : Tables} (h : Counted t) : t.recounted = t := by
  refine Tables.ext (Std.ExtTreeMap.ext_getElem? fun id => ?_) rfl
  rw [standings_recounted]
  cases hs : t.standings[id]? with
  | none => rfl
  | some s =>
      have hsame : UInt32.ofNat (t.ledger.total id) = s.reserved :=
        UInt32.toNat_inj.1 (h id s hs).symm
      rw [Option.map_some, hsame]

/-! ### Replaying a snapshot -/

/-- A snapshot consists of the records of each quota. -/
theorem mem_snapshotRecords {t : Tables} {r : Record} :
    r ∈ t.snapshotRecords ↔
      ∃ (id : Ulid) (s : Standing), t.standings[id]? = some s ∧ r ∈ t.quotaRecords id s := by
  rw [snapshotRecords, List.mem_flatMap]
  constructor
  · rintro ⟨⟨id, s⟩, hmem, hr⟩
    exact ⟨id, s, Std.ExtTreeMap.mem_toList_iff_getElem?_eq_some.1 hmem, hr⟩
  · rintro ⟨id, s, hs, hr⟩
    exact ⟨(id, s), Std.ExtTreeMap.mem_toList_iff_getElem?_eq_some.2 hs, hr⟩

/-- `u` is `t` as far as the quotas `done` go, with the units reserved counted anew, and empty
otherwise. -/
structure Restores (u t : Tables) (done : List Ulid) : Prop where
  /-- The quotas themselves. -/
  standings : ∀ x : Ulid, u.standings[x]? = if x ∈ done then t.recounted.standings[x]? else none
  /-- What is listed under them. -/
  ids : ∀ x, u.ledger.ids x = if x ∈ done then t.ledger.ids x else []
  /-- The allocations that are listed. -/
  find? : ∀ i, (∃ quota ∈ done, i ∈ t.ledger.ids quota) → u.ledger.find? i = t.ledger.find? i
  /-- No other allocation is kept. -/
  absent : ∀ i, (¬ ∃ quota ∈ done, i ∈ t.ledger.ids quota) → u.ledger.find? i = none

theorem Restores.empty (t : Tables) : Restores Tables.empty t [] where
  standings x := by simp [Tables.empty]
  ids x := by simp [Tables.empty]
  find? i h := by
    obtain ⟨_, hq, _⟩ := h
    cases hq
  absent i _ := by simp [Tables.empty]

/-- Replaying the records of one more quota restores it. -/
theorem Restores.quota {u t : Tables} {done : List Ulid} (h : Restores u t done) {id : Ulid}
    {s : Standing} (hs : t.standings[id]? = some s) (hid : id ∉ done)
    (hfiled : ∀ a ∈ t.ledger.entries id, a.quota = id) :
    Restores ((t.quotaRecords id s).foldl replayRecord u) t (id :: done) := by
  have hopen : (u.install id s.terms s.version).standings[id]? =
      some (Standing.opening s.terms s.version) := by
    rw [standings_install, if_pos rfl]
  obtain ⟨hst, hentered⟩ := foldl_allocated hopen hfiled
  have hledger : ((t.quotaRecords id s).foldl replayRecord u).ledger =
      (t.ledger.entries id).foldl Ledger.record u.ledger := hentered
  have hfind : ∀ a ∈ t.ledger.entries id, t.ledger.find? a.id = some a :=
    fun a => Ledger.find?_of_mem_entries
  have hreserved : plusAll 0 (t.ledger.entries id) = .ofNat (t.ledger.total id) := by
    rw [← UInt32.toNat_inj, toNat_plusAll (n := 0) (m := 0) rfl]
    rfl
  refine ⟨?_, ?_, ?_, ?_⟩
  · intro x
    refine (hst x).trans ?_
    by_cases hx : x = id
    · rw [if_pos hx, if_pos (by simp [hx]), hx, standings_recounted, hs]
      exact congrArg some (congrArg (Standing.mk s.terms · s.version) hreserved)
    · rw [if_neg hx, standings_install, if_neg (Ne.symm hx), h.standings]
      simp [hx]
  · intro x
    rw [hledger, Ledger.ids_foldl_record hfiled, h.ids, Ledger.map_id_entries]
    by_cases hx : x = id
    · simp [hx, hid]
    · simp [hx]
  · rintro i ⟨quota, hquota, hi⟩
    rw [hledger, Ledger.find?_foldl_record hfind, Ledger.map_id_entries]
    by_cases hmem : i ∈ t.ledger.ids id
    · rw [if_pos hmem]
    · rw [if_neg hmem]
      rcases List.mem_cons.1 hquota with rfl | hquota
      · exact absurd hi hmem
      · exact h.find? i ⟨quota, hquota, hi⟩
  · intro i hnone
    rw [hledger, Ledger.find?_foldl_record hfind, Ledger.map_id_entries,
      if_neg fun hmem => hnone ⟨id, by simp, hmem⟩]
    exact h.absent i fun ⟨quota, hquota, hi⟩ =>
      hnone ⟨quota, List.mem_cons_of_mem _ hquota, hi⟩

/-- Replaying the records of several quotas, one after the other, restores them. -/
theorem Restores.quotas {u t : Tables} {done : List Ulid} (h : Restores u t done)
    (hfiled : Filed t) {l : List (Ulid × Standing)}
    (hl : ∀ p ∈ l, t.standings[p.1]? = some p.2) (hnodup : (l.map (·.1)).Nodup)
    (hdone : ∀ p ∈ l, p.1 ∉ done) :
    ∃ done', Restores
        ((l.flatMap fun (id, s) => t.quotaRecords id s).foldl replayRecord u) t done' ∧
      ∀ x, x ∈ done' ↔ x ∈ done ∨ x ∈ l.map (·.1) := by
  induction l generalizing u done with
  | nil => exact ⟨done, h, by simp⟩
  | cons p l ih =>
      obtain ⟨id, s⟩ := p
      have hs : t.standings[id]? = some s := hl (id, s) (by simp)
      rw [List.map_cons, List.nodup_cons] at hnodup
      have hnext := h.quota hs (hdone (id, s) (by simp)) (hfiled id)
      obtain ⟨done', hr, hmem⟩ := ih hnext (fun p hp => hl p (by simp [hp])) hnodup.2 <| by
        intro p hp hin
        rcases List.mem_cons.1 hin with heq | hin
        · exact hnodup.1 (List.mem_map.2 ⟨p, hp, heq⟩)
        · exact hdone p (by simp [hp]) hin
      rw [List.flatMap_cons, List.foldl_append]
      refine ⟨done', hr, ?_⟩
      intro x
      rw [hmem, List.map_cons, List.mem_cons, List.mem_cons]
      constructor
      · rintro ((rfl | hx) | hx)
        · exact Or.inr (Or.inl rfl)
        · exact Or.inl hx
        · exact Or.inr (Or.inr hx)
      · rintro (hx | rfl | hx)
        · exact Or.inl (Or.inr hx)
        · exact Or.inl (Or.inl rfl)
        · exact Or.inr hx

/-- **A snapshot rebuilds the tables but for the units reserved, which are counted anew**, provided
that every allocation is listed under its own quota only. -/
theorem ofRecords_snapshotRecords_eq_recounted {t : Tables} (h : Grown t) (hfiled : Filed t) :
    ofRecords t.snapshotRecords = t.recounted := by
  have hkeys : (t.standings.toList.map (·.1)).Nodup := by
    rw [Std.ExtTreeMap.map_fst_toList_eq_keys]
    exact Std.ExtTreeMap.nodup_keys
  obtain ⟨done, hr, hmem⟩ := (Restores.empty t).quotas hfiled
    (fun p hp => Std.ExtTreeMap.mem_toList_iff_getElem?_eq_some.1 hp) hkeys
    (fun _ _ hin => by cases hin)
  have hdone : ∀ x : Ulid, x ∈ done ↔ x ∈ t.standings := by
    intro x
    rw [hmem, Std.ExtTreeMap.map_fst_toList_eq_keys, Std.ExtTreeMap.mem_keys]
    simp
  refine Grown.ext (Grown.ofRecords _) h.recounted ?_ ?_ ?_
  · intro x
    refine (hr.standings x).trans ?_
    split
    · rfl
    · next hx =>
      rw [hdone, ← mem_standings_recounted] at hx
      exact (Std.ExtTreeMap.getElem?_eq_none hx).symm
  · intro x
    refine (hr.ids x).trans ?_
    split
    · rfl
    · next hx =>
      rw [hdone] at hx
      exact (h.ids_eq_nil hx).symm
  · intro i
    change (ofRecords t.snapshotRecords).ledger.find? i = t.ledger.find? i
    cases hf : t.ledger.find? i with
    | none =>
        by_cases hin : ∃ quota ∈ done, i ∈ t.ledger.ids quota
        · exact (hr.find? i hin).trans hf
        · exact hr.absent i hin
    | some a =>
        have hi := h.indexed i a hf
        exact (hr.find? i ⟨a.quota, (hdone _).2 (h.rooted _ _ hi), hi⟩).trans hf

/-- **A snapshot rebuilds balanced tables**, provided that every allocation is listed under its own
quota only. -/
theorem ofRecords_snapshotRecords {t : Tables} (h : Grown t) (hfiled : Filed t)
    (hbal : Balanced t) : ofRecords t.snapshotRecords = t := by
  rw [ofRecords_snapshotRecords_eq_recounted h hfiled, hbal.counted.recounted_eq]

/-- A snapshot rebuilds sound tables. -/
theorem Sound.ofRecords_snapshotRecords {t : Tables} (h : Sound t) :
    ofRecords t.snapshotRecords = t :=
  Tables.ofRecords_snapshotRecords h.toGrown h.filed h.balanced

end Tables

end Allotment
