/-
**Sound tables.**

Two layers of facts hold of the tables of a store.  The first holds of whatever the records of a
log rebuild, however odd these records are: nothing is listed for a quota that does not exist, and
every allocation is listed under the quota that it names.  The second holds of the tables that a
desk leaves behind: the terms keep the limits, no quota is sold beyond its bound, the units reserved
are the sum of the allocations, and an allocation is listed under no quota but its own.

The second layer rests on allocations getting new identifiers, and on a claim being granted only if
it fits.  That a sum of units does not wrap is a consequence: the bound is far below `2 ^ 32`.

Main definitions:

* `Allotment.Tables.Grown` — what holds of all tables that records rebuild;
* `Allotment.Tables.Filed`, `Allotment.Tables.Balanced` — every allocation is listed where it
  belongs, and the units reserved are the sum of the allocations;
* `Allotment.Tables.Sound` — what holds of the tables of a store behind a desk.

Main results:

* `Allotment.Tables.Grown.ofRecords` — replay gives grown tables;
* `Allotment.Terms.bound_le` — terms within the limits have a small bound;
* `Allotment.Tables.Sound.install`, `Allotment.Tables.Sound.revise`,
  `Allotment.Tables.Sound.allocate` — **the three changes that a desk makes keep tables sound**.
-/

import Allotment.Tables

set_option relaxedAutoImplicit false
set_option autoImplicit false

namespace Allotment

/-! ### Reading a ledger after an entry -/

namespace Ledger

theorem mem_ids_record {l : Ledger} {a : Allocation} {quota i : Ulid} :
    i ∈ (l.record a).ids quota ↔ i ∈ l.ids quota ∨ (a.quota = quota ∧ i = a.id) := by
  rw [ids_record]
  by_cases h : a.quota = quota
  · simp [h]
  · simp [h]

theorem mem_entries {l : Ledger} {quota : Ulid} {a : Allocation} :
    a ∈ l.entries quota ↔ ∃ i ∈ l.ids quota, l.find? i = some a := by
  rw [entries, List.mem_filterMap]

/-- An allocation is kept under its own identifier. -/
theorem id_of_find? {l : Ledger} {i : Ulid} {a : Allocation} (h : l.find? i = some a) : a.id = i :=
  l.id_eq i a h

/-- Whatever is listed is found. -/
theorem find?_of_mem_ids {l : Ledger} {quota i : Ulid} (h : i ∈ l.ids quota) :
    ∃ a, l.find? i = some a := by
  have := mem_byId_of_mem_ids h
  exact ⟨l.byId[i], Std.ExtTreeMap.getElem?_eq_some_getElem this⟩

/-- An allocation that takes the place of no other adds to the total of its own quota only. -/
theorem total_record_of_same {l : Ledger} {a : Allocation}
    (same : ∀ b, l.find? a.id = some b → b = a) (quota : Ulid) :
    (l.record a).total quota =
      if a.quota = quota then l.total quota + a.quantity.toNat else l.total quota := by
  rw [total, entries_record_of_same same]
  by_cases h : a.quota = quota
  · simp [h, total]
  · simp [h, total]

/-- A new allocation adds to the total of its own quota and to no other. -/
theorem total_record {l : Ledger} {a : Allocation} (new : l.find? a.id = none) (quota : Ulid) :
    (l.record a).total quota =
      if a.quota = quota then l.total quota + a.quantity.toNat else l.total quota :=
  total_record_of_same (by simp [new]) quota

theorem total_eq_zero {l : Ledger} {quota : Ulid} (h : l.ids quota = []) : l.total quota = 0 := by
  simp [total, entries, h]

@[simp] theorem find?_empty (i : Ulid) : empty.find? i = none := by
  simp [find?, empty]

@[simp] theorem ids_empty (quota : Ulid) : empty.ids quota = [] := by
  simp [ids, empty]

end Ledger

namespace Tables

/-! ### Reading tables after a change -/

theorem standings_install (t : Tables) (id : Ulid) (terms : Terms) (version : Version) (x : Ulid) :
    (t.install id terms version).standings[x]? =
      if id = x then some (.opening terms version) else t.standings[x]? := by
  simp [install, Std.ExtTreeMap.getElem?_insert]

theorem standings_commit (t : Tables) (id : Ulid) (s : Standing) (r : Record) (x : Ulid) :
    (t.commit id s r).standings[x]? = if id = x then some (s.after r) else t.standings[x]? := by
  simp [commit, Std.ExtTreeMap.getElem?_insert]

theorem ledger_commit_allocated (t : Tables) (id : Ulid) (s : Standing) (a : Allocation)
    (version : Version) :
    (t.commit id s (.allocated a version)).ledger = t.ledger.record a := rfl

theorem reserved_after_allocated (s : Standing) (a : Allocation) (version : Version) :
    (s.after (.allocated a version)).reserved = s.reserved + a.quantity := rfl

theorem mem_standings_iff {t : Tables} {id : Ulid} :
    id ∈ t.standings ↔ ∃ s, t.standings[id]? = some s := by
  rw [Std.ExtTreeMap.mem_iff_isSome_getElem?, Option.isSome_iff_exists]

theorem mem_standings_install {t : Tables} {id x : Ulid} {terms : Terms} {version : Version} :
    x ∈ (t.install id terms version).standings ↔ id = x ∨ x ∈ t.standings := by
  simp [install, Std.ExtTreeMap.mem_insert]

theorem mem_standings_commit {t : Tables} {id x : Ulid} {s : Standing} {r : Record} :
    x ∈ (t.commit id s r).standings ↔ id = x ∨ x ∈ t.standings := by
  simp [commit, Std.ExtTreeMap.mem_insert]

/-! ### Tables that records rebuild -/

/-- What holds of all tables that records rebuild. -/
structure Grown (t : Tables) : Prop where
  /-- A quota without allocations is not listed at all. -/
  nonempty : ∀ quota : Ulid, t.ledger.listed[quota]? ≠ some []
  /-- An allocation is listed under the quota that it names. -/
  indexed : ∀ i a, t.ledger.find? i = some a → i ∈ t.ledger.ids a.quota
  /-- Only quotas that exist have allocations. -/
  rooted : ∀ quota i, i ∈ t.ledger.ids quota → quota ∈ t.standings

namespace Grown

theorem empty : Grown Tables.empty where
  nonempty quota := by simp [Tables.empty, Ledger.empty]
  indexed i a h := by simp [Tables.empty] at h
  rooted quota i h := by simp [Tables.empty] at h

theorem install {t : Tables} (h : Grown t) (id : Ulid) (terms : Terms) (version : Version) :
    Grown (t.install id terms version) where
  nonempty := h.nonempty
  indexed := h.indexed
  rooted quota i hi := mem_standings_install.2 (Or.inr (h.rooted quota i hi))

theorem commit {t : Tables} (h : Grown t) {id : Ulid} (s : Standing) {r : Record}
    (hr : r.quota = id) : Grown (t.commit id s r) := by
  cases r with
  | created quota terms version =>
      exact ⟨h.nonempty, h.indexed, fun q i hi => mem_standings_commit.2 (Or.inr (h.rooted q i hi))⟩
  | revised quota terms version =>
      exact ⟨h.nonempty, h.indexed, fun q i hi => mem_standings_commit.2 (Or.inr (h.rooted q i hi))⟩
  | allocated a version =>
      have hq : a.quota = id := hr
      refine ⟨?_, ?_, ?_⟩
      · intro quota hnil
        simp only [ledger_commit_allocated, Ledger.record, Std.ExtTreeMap.getElem?_insert] at hnil
        split at hnil
        · simp at hnil
        · exact h.nonempty quota hnil
      · intro i b hb
        rw [ledger_commit_allocated] at hb ⊢
        rw [Ledger.find?_record] at hb
        rw [Ledger.mem_ids_record]
        by_cases hi : a.id = i
        · rw [if_pos hi, Option.some.injEq] at hb
          subst hb
          exact Or.inr ⟨rfl, hi.symm⟩
        · rw [if_neg hi] at hb
          exact Or.inl (h.indexed i b hb)
      · intro quota i hi
        rw [ledger_commit_allocated] at hi
        rw [mem_standings_commit]
        rcases Ledger.mem_ids_record.1 hi with hi | ⟨hi, _⟩
        · exact Or.inr (h.rooted quota i hi)
        · exact Or.inl (hq.symm.trans hi)

theorem replayRecord {t : Tables} (h : Grown t) (r : Record) : Grown (t.replayRecord r) := by
  cases r with
  | created id terms version => exact h.install id terms version
  | revised id terms version =>
      simp only [Tables.replayRecord]
      split
      · exact h
      · exact h.commit _ rfl
  | allocated a version =>
      simp only [Tables.replayRecord]
      split
      · exact h
      · exact h.commit _ rfl

/-- Whatever records are replayed, the tables are grown. -/
theorem foldl_replayRecord {t : Tables} (h : Grown t) (rs : List Record) :
    Grown (rs.foldl Tables.replayRecord t) := by
  induction rs generalizing t with
  | nil => exact h
  | cons r rs ih => exact ih (h.replayRecord r)

theorem ofRecords (rs : List Record) : Grown (Tables.ofRecords rs) :=
  foldl_replayRecord Grown.empty rs

/-- A quota that does not exist has no allocations. -/
theorem ids_eq_nil {t : Tables} (h : Grown t) {id : Ulid} (hid : id ∉ t.standings) :
    t.ledger.ids id = [] := by
  rw [List.eq_nil_iff_forall_not_mem]
  intro i hi
  exact hid (h.rooted id i hi)

end Grown

end Tables

/-! ### Terms within the limits -/

/-- What it means for terms to keep all limits. -/
theorem Terms.brokenLimit?_eq_none_iff {t : Terms} :
    t.brokenLimit? = none ↔
      t.name.utf8ByteSize ≤ Limit.nameBytes ∧ t.productType.utf8ByteSize ≤ Limit.productTypeBytes ∧
        t.capacity ≤ Limit.units ∧ t.overbooking ≤ Limit.units := by
  unfold Terms.brokenLimit?
  split
  · next h => simp [Nat.not_le.2 h]
  next h₁ =>
  split
  · next h => simp [Nat.not_le.2 h]
  next h₂ =>
  split
  · next h => simp [UInt32.not_le.2 h]
  next h₃ =>
  split
  · next h => simp [UInt32.not_le.2 h]
  next h₄ =>
  exact ⟨fun _ => ⟨Nat.not_lt.1 h₁, Nat.not_lt.1 h₂, UInt32.not_lt.1 h₃, UInt32.not_lt.1 h₄⟩,
    fun _ => rfl⟩

/-- Terms within the limits have a small bound. -/
theorem Terms.bound_le {t : Terms} (h : t.brokenLimit? = none) : t.bound ≤ 2000000 := by
  obtain ⟨_, _, hc, ho⟩ := Terms.brokenLimit?_eq_none_iff.1 h
  rw [UInt32.le_iff_toNat_le] at hc ho
  have hu : Limit.units.toNat = 1000000 := rfl
  rw [Room.bound]
  omega

namespace Tables

/-! ### Tables behind a desk -/

/-- An allocation is listed under no quota but its own. -/
def Filed (t : Tables) : Prop := ∀ quota, ∀ a ∈ t.ledger.entries quota, a.quota = quota

/-- The units reserved are the sum of the allocations. -/
def Balanced (t : Tables) : Prop :=
  ∀ (id : Ulid) (s : Standing), t.standings[id]? = some s → s.reserved.toNat = t.ledger.total id

/-- **What holds of the tables of a store behind a desk.** -/
structure Sound (t : Tables) : Prop extends Grown t where
  /-- The terms of every quota keep the limits. -/
  limits : ∀ (id : Ulid) (s : Standing), t.standings[id]? = some s → s.terms.brokenLimit? = none
  /-- No quota is sold beyond its bound. -/
  within : ∀ (id : Ulid) (s : Standing), t.standings[id]? = some s →
    s.reserved.toNat ≤ s.terms.bound
  /-- The units reserved are the sum of the allocations. -/
  balanced : Balanced t
  /-- An allocation is listed under no quota but its own. -/
  filed : Filed t
  /-- The reference of every allocation keeps its limit. -/
  references : ∀ i a, t.ledger.find? i = some a → brokenReference? a.reference = none

namespace Sound

theorem empty : Sound Tables.empty where
  toGrown := Grown.empty
  limits id s h := by simp [Tables.empty] at h
  within id s h := by simp [Tables.empty] at h
  balanced id s h := by simp [Tables.empty] at h
  filed quota a h := by simp [Tables.empty, Ledger.entries] at h
  references i a h := by simp [Tables.empty] at h

/-- Entering a new quota keeps tables sound. -/
theorem install {t : Tables} (h : Sound t) {id : Ulid} (hid : id ∉ t.standings) {terms : Terms}
    (hterms : terms.brokenLimit? = none) (version : Version) :
    Sound (t.install id terms version) where
  toGrown := h.toGrown.install id terms version
  limits x s hx := by
    rw [standings_install] at hx
    split at hx
    · cases hx
      exact hterms
    · exact h.limits x s hx
  within x s hx := by
    rw [standings_install] at hx
    split at hx
    · cases hx
      exact Nat.zero_le _
    · exact h.within x s hx
  balanced x s hx := by
    rw [standings_install] at hx
    split at hx
    · next heq =>
      cases hx
      subst heq
      exact (Ledger.total_eq_zero (h.toGrown.ids_eq_nil hid)).symm
    · exact h.balanced x s hx
  filed := h.filed
  references := h.references

/-- Replacing the terms of a quota by terms whose bound covers what is reserved keeps tables
sound. -/
theorem revise {t : Tables} (h : Sound t) {id : Ulid} {s : Standing}
    (hs : t.standings[id]? = some s) {terms : Terms} (hterms : terms.brokenLimit? = none)
    (hbound : s.reserved.toNat ≤ terms.bound) (version : Version) :
    Sound (t.commit id s (.revised id terms version)) where
  toGrown := h.toGrown.commit s rfl
  limits x s' hx := by
    rw [standings_commit] at hx
    split at hx
    · cases hx
      exact hterms
    · exact h.limits x s' hx
  within x s' hx := by
    rw [standings_commit] at hx
    split at hx
    · cases hx
      exact hbound
    · exact h.within x s' hx
  balanced x s' hx := by
    rw [standings_commit] at hx
    split at hx
    · next heq =>
      cases hx
      subst heq
      exact h.balanced id s hs
    · exact h.balanced x s' hx
  filed := h.filed
  references := h.references

/-- Units that fit under the bound are added without wrapping. -/
theorem reserved_add_lt {t : Tables} (h : Sound t) {id : Ulid} {s : Standing}
    (hs : t.standings[id]? = some s) {quantity : UInt32}
    (fits : s.reserved.toNat + quantity.toNat ≤ s.terms.bound) :
    s.reserved.toNat + quantity.toNat < UInt32.size := by
  have hbound := Terms.bound_le (h.limits id s hs)
  have hsize : (2000000 : Nat) < UInt32.size := by decide
  omega

/-- Granting a claim that fits, under a new identifier, keeps tables sound. -/
theorem allocate {t : Tables} (h : Sound t) {a : Allocation} {s : Standing}
    (hs : t.standings[a.quota]? = some s) (new : t.ledger.find? a.id = none)
    (fits : s.reserved.toNat + a.quantity.toNat ≤ s.terms.bound)
    (href : brokenReference? a.reference = none) (version : Version) :
    Sound (t.commit a.quota s (.allocated a version)) where
  toGrown := h.toGrown.commit s rfl
  limits x s' hx := by
    rw [standings_commit] at hx
    split at hx
    · cases hx
      exact h.limits a.quota s hs
    · exact h.limits x s' hx
  within x s' hx := by
    rw [standings_commit] at hx
    split at hx
    · cases hx
      change (s.after (.allocated a version)).reserved.toNat ≤ s.terms.bound
      rw [reserved_after_allocated, UInt32.toNat_add]
      exact Nat.le_trans (Nat.mod_le _ _) fits
    · exact h.within x s' hx
  balanced x s' hx := by
    have hlt := h.reserved_add_lt hs fits
    rw [standings_commit] at hx
    rw [ledger_commit_allocated, Ledger.total_record new]
    split at hx
    · next heq =>
      cases hx
      rw [if_pos heq, ← heq, ← h.balanced a.quota s hs]
      rw [reserved_after_allocated, UInt32.toNat_add]
      exact Nat.mod_eq_of_lt hlt
    · next hne =>
      rw [if_neg hne]
      exact h.balanced x s' hx
  filed quota b hb := by
    rw [ledger_commit_allocated, Ledger.entries_record new] at hb
    split at hb
    · next heq =>
      rcases List.mem_append.1 hb with hb | hb
      · exact h.filed quota b hb
      · rw [List.mem_singleton.1 hb]
        exact heq
    · exact h.filed quota b hb
  references i b hb := by
    rw [ledger_commit_allocated, Ledger.find?_record] at hb
    split at hb
    · cases hb
      exact href
    · exact h.references i b hb

end Sound

end Tables

end Allotment
