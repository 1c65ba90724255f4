/-
**All allocations of a store.**

The ledger lists allocations quota by quota.  Put together, these lists hold every allocation that
was ever granted, and a record that may be committed adds to them the allocation that it grants and
nothing else.  In sound tables the units reserved of all quotas are the units of all allocations.

Main definitions:

* `Allotment.Record.allocation?` — the allocation that a record grants;
* `Allotment.Tables.granted` — the allocations of all quotas;
* `Allotment.Tables.unitsReserved` — the units reserved of all quotas.

Main results:

* `Allotment.Tables.Lawful.granted_perm` — **records that may be committed add the allocations that
  they grant**;
* `Allotment.Tables.Lawful.nodup_ids` — none of these has the identifier of another;
* `Allotment.Tables.Sound.unitsReserved_eq` — the units reserved are those of all allocations.
-/

import Mathlib.Algebra.GroupWithZero.Nat
import Mathlib.Data.List.Basic
import Allotment.Proofs.Tables.Lawful

set_option relaxedAutoImplicit false
set_option autoImplicit false

namespace Allotment

/-- The allocation that a record grants, if it does. -/
def Record.allocation? : Record → Option Allocation
  | .allocated a _ => some a
  | _ => none

theorem Record.grant?_eq (r : Record) : r.grant? = r.allocation?.map (·.id) := by
  cases r with
  | created id terms version => rfl
  | revised id terms version => rfl
  | allocated a version => rfl

namespace Tables

/-- The allocations of all quotas, quota by quota. -/
def granted (t : Tables) : List Allocation := t.ids.flatMap t.ledger.entries

/-- The units reserved of all quotas. -/
def unitsReserved (t : Tables) : Nat := (t.quotas.map (·.reserved.toNat)).sum

variable {t : Tables}

theorem mem_ids {id : Ulid} : id ∈ t.ids ↔ id ∈ t.standings := Std.ExtTreeMap.mem_keys

theorem nodup_ids (t : Tables) : t.ids.Nodup := Std.ExtTreeMap.nodup_keys

/-! ### One record -/

theorem ids_install_perm {id : Ulid} (hid : id ∉ t.standings) (terms : Terms) (version : Version) :
    (t.install id terms version).ids.Perm (id :: t.ids) := by
  rw [List.perm_ext_iff_of_nodup (nodup_ids _)
    (List.nodup_cons.2 ⟨fun h => hid (mem_ids.1 h), nodup_ids t⟩)]
  intro x
  rw [mem_ids, mem_standings_install, List.mem_cons, mem_ids, eq_comm]

theorem ids_commit_perm {id : Ulid} {s : Standing} (hs : t.standings[id]? = some s)
    (s' : Standing) (r : Record) : (t.commit id s' r).ids.Perm t.ids := by
  rw [List.perm_ext_iff_of_nodup (nodup_ids _) (nodup_ids _)]
  intro x
  rw [mem_ids, mem_standings_commit, mem_ids]
  refine or_iff_right_of_imp ?_
  rintro rfl
  exact mem_standings_iff.2 ⟨s, hs⟩

/-- A new allocation joins those of its quota, wherever this stands among the others. -/
theorem flatMap_entries_record_perm {l : Ledger} {a : Allocation} (hnew : l.find? a.id = none)
    {quotas : List Ulid} (hnodup : quotas.Nodup) (hmem : a.quota ∈ quotas) :
    (quotas.flatMap (l.record a).entries).Perm (a :: quotas.flatMap l.entries) := by
  have hsplit := List.perm_cons_erase hmem
  have hrest : a.quota ∉ quotas.erase a.quota :=
    (List.nodup_cons.1 (hsplit.nodup_iff.1 hnodup)).1
  have hothers : (quotas.erase a.quota).flatMap (l.record a).entries =
      (quotas.erase a.quota).flatMap l.entries := by
    refine List.flatMap_congr ?_
    intro quota hquota
    rw [Ledger.entries_record hnew, if_neg]
    rintro rfl
    exact hrest hquota
  refine (hsplit.flatMap_right _).trans ?_
  rw [List.flatMap_cons, hothers, Ledger.entries_record hnew, if_pos rfl, List.append_assoc]
  exact List.perm_middle.trans ((hsplit.symm.flatMap_right l.entries).cons a)

/-- A record that may be committed adds the allocation that it grants. -/
theorem Legal.granted_perm {r : Record} (hg : Grown t) (hr : t.Legal r) :
    (t.replayRecord r).granted.Perm (r.allocation?.toList ++ t.granted) := by
  cases r with
  | created id terms version =>
      have hperm := (ids_install_perm hr.1 terms version).flatMap_right t.ledger.entries
      rw [List.flatMap_cons, Ledger.entries, hg.ids_eq_nil hr.1] at hperm
      exact hperm
  | revised id terms version =>
      obtain ⟨s, hs, _⟩ := hr
      rw [replayRecord_revised hs]
      exact (ids_commit_perm hs s _).flatMap_right t.ledger.entries
  | allocated a version =>
      obtain ⟨s, hs, hnew, _⟩ := hr
      rw [replayRecord_allocated hs]
      refine ((ids_commit_perm hs s _).flatMap_right _).trans ?_
      exact flatMap_entries_record_perm hnew (nodup_ids t)
        (mem_ids.2 (mem_standings_iff.2 ⟨s, hs⟩))

/-! ### Several records -/

namespace Lawful

variable {rs : List Record}

/-- **Records that may be committed add the allocations that they grant**, and nothing else. -/
theorem granted_perm (hg : Grown t) (hrs : t.Lawful rs) :
    (rs.foldl replayRecord t).granted.Perm (rs.filterMap Record.allocation? ++ t.granted) := by
  induction rs generalizing t with
  | nil => exact List.Perm.refl _
  | cons r rs ih =>
      have hfirst := Legal.granted_perm hg hrs.1
      have hsplit : (r :: rs).filterMap Record.allocation? =
          r.allocation?.toList ++ rs.filterMap Record.allocation? := by
        rw [List.filterMap_cons]
        cases r.allocation? <;> rfl
      rw [hsplit, List.append_assoc]
      refine (ih (hg.replayRecord r) hrs.2).trans ?_
      exact (hfirst.append_left _).trans (List.perm_append_comm_assoc _ _ _)

/-- None of them grants an allocation with an identifier that is in use. -/
theorem grant_ne (hrs : t.Lawful rs) {i : Ulid} {a : Allocation} (ha : t.ledger.find? i = some a) :
    ∀ r ∈ rs, r.grant? ≠ some i := by
  induction rs generalizing t with
  | nil => exact fun r hr => nomatch hr
  | cons r rs ih =>
      refine List.forall_mem_cons.2 ⟨?_, ih hrs.2 ((Legal.since hrs.1).found i a ha)⟩
      cases r with
      | created id terms version => exact fun h => nomatch h
      | revised id terms version => exact fun h => nomatch h
      | allocated b version =>
          obtain ⟨s, _, hnew, _⟩ := hrs.1
          intro h
          rw [Option.some.inj h, ha] at hnew
          cases hnew

/-- No two of them grant allocations with the same identifier. -/
theorem nodup_ids (hrs : t.Lawful rs) : ((rs.filterMap Record.allocation?).map (·.id)).Nodup := by
  induction rs generalizing t with
  | nil => exact List.nodup_nil
  | cons r rs ih =>
      have hrest := ih hrs.2
      cases r with
      | created id terms version => exact hrest
      | revised id terms version => exact hrest
      | allocated a version =>
          refine List.nodup_cons.2 ⟨?_, hrest⟩
          intro hmem
          obtain ⟨b, hb, hid⟩ := List.mem_map.1 hmem
          obtain ⟨r', hr', hb'⟩ := List.mem_filterMap.1 hb
          -- the first allocation is known by the time the later one is granted
          have hknown := (Legal.since hrs.1).granted a version (List.mem_singleton_self _)
          refine grant_ne hrs.2 hknown r' hr' ?_
          rw [Record.grant?_eq, hb', Option.map_some, hid]

end Lawful

/-! ### Units -/

/-- The total of a quota as a sum over its allocations. -/
theorem total_eq_sum (l : Ledger) (quota : Ulid) :
    l.total quota = ((l.entries quota).map (·.quantity.toNat)).sum := by
  rw [Ledger.total, List.sum_eq_foldl, List.foldl_map]

/-- **The units reserved of all quotas are those of all allocations.** -/
theorem Sound.unitsReserved_eq (h : Sound t) :
    t.unitsReserved = (t.granted.map (·.quantity.toNat)).sum := by
  have hquotas : ∀ ids : List Ulid, (∀ id ∈ ids, id ∈ t.standings) →
      ((ids.filterMap t.quota?).map (·.reserved.toNat)).sum =
        ((ids.flatMap t.ledger.entries).map (·.quantity.toNat)).sum := by
    intro ids hids
    induction ids with
    | nil => rfl
    | cons id ids ih =>
        obtain ⟨hid, hrest⟩ := List.forall_mem_cons.1 hids
        obtain ⟨s, hs⟩ := mem_standings_iff.1 hid
        have hquota : t.quota? id = some { s with id } := by rw [quota?, hs]; rfl
        rw [List.filterMap_cons, hquota, List.map_cons, List.sum_cons, ih hrest, List.flatMap_cons,
          List.map_append, List.sum_append, ← total_eq_sum, ← h.balanced id s hs]
  exact hquotas t.ids fun id hid => mem_ids.1 hid

end Tables

end Allotment
