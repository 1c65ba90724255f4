/-
**The ledger.**

The ledger keeps every allocation ever granted.  It finds an allocation by its identifier and lists
the allocations of a quota in the order in which they were granted.  An allocation that comes with
an identifier already in use takes the place of the earlier one wherever that is listed.

Main definitions:

* `Allotment.Ledger` — the allocations by identifier, and for each quota the identifiers in order;
* `Allotment.Ledger.record` — enters an allocation;
* `Allotment.Ledger.find?`, `Allotment.Ledger.entries` — the two ways to read a ledger;
* `Allotment.Ledger.total` — the units that the allocations of a quota sum up to.

Main results:

* `Allotment.Ledger.find?_record` — an identifier finds the allocation entered last under it;
* `Allotment.Ledger.entries_record` — an allocation with a new identifier is added at the end of
  the list of its quota, and no other list changes;
* `Allotment.Ledger.ext` — two ledgers with the same maps are equal.
-/

import Allotment.Quota

set_option relaxedAutoImplicit false
set_option autoImplicit false

namespace Allotment

/-- The allocations granted so far. -/
structure Ledger where
  /-- The allocations by identifier. -/
  byId : Std.ExtTreeMap Ulid Allocation
  /-- For each quota the identifiers of its allocations, in the order of granting. -/
  listed : Std.ExtTreeMap Ulid (List Ulid)
  /-- An allocation is kept under its own identifier. -/
  id_eq : ∀ (i : Ulid) (a : Allocation), byId[i]? = some a → a.id = i
  /-- Whatever is listed is kept. -/
  kept : ∀ (q : Ulid) (ids : List Ulid), listed[q]? = some ids → ∀ i ∈ ids, i ∈ byId

namespace Ledger

@[ext] theorem ext {l m : Ledger} (h₁ : l.byId = m.byId) (h₂ : l.listed = m.listed) : l = m := by
  cases l
  cases m
  simp_all

/-- The ledger without allocations. -/
def empty : Ledger := ⟨∅, ∅, by simp, by simp⟩

/-- The identifiers of the allocations of a quota, in the order of granting. -/
def ids (l : Ledger) (quota : Ulid) : List Ulid := l.listed[quota]?.getD []

/-- The allocation with an identifier. -/
def find? (l : Ledger) (id : Ulid) : Option Allocation := l.byId[id]?

/-- The allocations of a quota, in the order of granting. -/
def entries (l : Ledger) (quota : Ulid) : List Allocation := (l.ids quota).filterMap l.find?

/-- The units that the allocations of a quota sum up to. -/
def total (l : Ledger) (quota : Ulid) : Nat :=
  (l.entries quota).foldl (fun n a => n + a.quantity.toNat) 0

theorem mem_byId_of_mem_ids {l : Ledger} {quota i : Ulid} (h : i ∈ l.ids quota) : i ∈ l.byId := by
  unfold ids at h
  cases hq : l.listed[quota]? with
  | none => simp [hq] at h
  | some is => exact l.kept quota is hq i (by simpa [hq] using h)

/-- Enters an allocation. -/
def record (l : Ledger) (a : Allocation) : Ledger where
  byId := l.byId.insert a.id a
  listed := l.listed.insert a.quota (l.ids a.quota ++ [a.id])
  id_eq i b h := by
    rw [Std.ExtTreeMap.getElem?_insert] at h
    split at h
    · next he => simp_all
    · exact l.id_eq i b h
  kept q is h i hi := by
    rw [Std.ExtTreeMap.getElem?_insert] at h
    rw [Std.ExtTreeMap.mem_insert]
    split at h
    · simp only [Option.some.injEq] at h
      subst h
      rcases List.mem_append.1 hi with hi | hi
      · exact .inr (mem_byId_of_mem_ids hi)
      · exact .inl (by simpa using (List.mem_singleton.1 hi).symm)
    · exact .inr (l.kept q is h i hi)

theorem find?_record (l : Ledger) (a : Allocation) (i : Ulid) :
    (l.record a).find? i = if a.id = i then some a else l.find? i := by
  simp [find?, record, Std.ExtTreeMap.getElem?_insert]

theorem ids_record (l : Ledger) (a : Allocation) (quota : Ulid) :
    (l.record a).ids quota = if a.quota = quota then l.ids quota ++ [a.id] else l.ids quota := by
  simp only [ids, record, Std.ExtTreeMap.getElem?_insert]
  by_cases h : a.quota = quota
  · simp [h]
  · simp [h]

/-- An allocation that takes the place of no other does not show in a list of identifiers in use. -/
theorem filterMap_find?_record {l : Ledger} {a : Allocation}
    (same : ∀ b, l.find? a.id = some b → b = a) (is : List Ulid) (h : ∀ i ∈ is, i ∈ l.byId) :
    is.filterMap (l.record a).find? = is.filterMap l.find? := by
  induction is with
  | nil => rfl
  | cons i is ih =>
    have hhead : (l.record a).find? i = l.find? i := by
      rw [find?_record]
      split
      · next heq =>
        subst heq
        have hkept := Std.ExtTreeMap.getElem?_eq_some_getElem (h a.id (by simp))
        exact (congrArg some (same _ hkept)).symm.trans hkept.symm
      · rfl
    rw [List.filterMap_cons, List.filterMap_cons, hhead,
      ih fun j hj => h j (List.mem_cons_of_mem i hj)]

/-- An allocation that takes the place of no other is added at the end of the list of its quota, and
no other list changes. -/
theorem entries_record_of_same {l : Ledger} {a : Allocation}
    (same : ∀ b, l.find? a.id = some b → b = a) (quota : Ulid) :
    (l.record a).entries quota =
      if a.quota = quota then l.entries quota ++ [a] else l.entries quota := by
  have old := filterMap_find?_record same (l.ids quota) fun _ => mem_byId_of_mem_ids
  have self : (l.record a).find? a.id = some a := by simp [find?_record]
  unfold entries
  rw [ids_record]
  split
  · simp [List.filterMap_append, old, self]
  · exact old

theorem entries_record {l : Ledger} {a : Allocation} (new : l.find? a.id = none) (quota : Ulid) :
    (l.record a).entries quota =
      if a.quota = quota then l.entries quota ++ [a] else l.entries quota :=
  entries_record_of_same (by simp [new]) quota

end Ledger

end Allotment
