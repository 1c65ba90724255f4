/-
**Counting the units of a log.**

Replay adds up the units of every grant that it meets, and the ledger keeps the grants.  The two can
come apart in a log of unknown origin: a quota that is created again starts from nothing while its
allocations stay listed, and an identifier that is granted again takes the place of what it stood
for.  In a log in which neither happens, the units reserved are always the sum of the allocations.

A snapshot is such a log, and so is every part of one, whatever tables it was taken of.

Main definitions:

* `Allotment.Tables.Tidy` — records in which nothing comes twice.

Main results:

* `Allotment.Tables.Tidy.counted` — **tidy records rebuild tables whose units are counted**;
* `Allotment.Tables.Tidy.filed` — they list every allocation under its own quota only;
* `Allotment.Tables.tidy_snapshotRecords` — **a snapshot is tidy**.
-/

import Mathlib.Data.List.Induction
import Allotment.Proofs.Tables.Trace

set_option relaxedAutoImplicit false
set_option autoImplicit false

namespace Allotment

/-- The quota that a record creates. -/
def Record.creates? : Record → Option Ulid
  | .created quota _ _ => some quota
  | _ => none

namespace Tables

/-! ### One record after the other -/

section Step

variable {t : Tables}

/-- Entering a quota that does not exist keeps the units counted: it has no allocations. -/
theorem Counted.install (h : Counted t) (hg : Grown t) {id : Ulid} (hid : id ∉ t.standings)
    (terms : Terms) (version : Version) : Counted (t.install id terms version) := by
  intro x s hs
  rw [standings_install] at hs
  split at hs
  · next heq =>
    subst heq
    obtain rfl := Option.some.inj hs
    have hzero : (t.install id terms version).ledger.total id = 0 :=
      Ledger.total_eq_zero (hg.ids_eq_nil hid)
    rw [hzero]
    rfl
  · exact h x s hs

/-- Replacing terms keeps the units counted. -/
theorem Counted.revise (h : Counted t) {id : Ulid} {s : Standing} (hs : t.standings[id]? = some s)
    (terms : Terms) (version : Version) : Counted (t.commit id s (.revised id terms version)) := by
  intro x s' hs'
  rw [standings_commit] at hs'
  split at hs'
  · next heq =>
    subst heq
    obtain rfl := Option.some.inj hs'
    exact h id s hs
  · exact h x s' hs'

/-- A grant that takes the place of no other keeps the units counted. -/
theorem Counted.allocate (h : Counted t) {a : Allocation} {s : Standing}
    (hs : t.standings[a.quota]? = some s) (same : ∀ b, t.ledger.find? a.id = some b → b = a)
    (version : Version) : Counted (t.commit a.quota s (.allocated a version)) := by
  intro x s' hs'
  rw [standings_commit] at hs'
  rw [ledger_commit_allocated, Ledger.total_record_of_same same]
  split at hs'
  · next heq =>
    subst heq
    obtain rfl := Option.some.inj hs'
    rw [if_pos rfl, reserved_after_allocated, UInt32.toNat_add, h a.quota s hs]
    exact Nat.mod_add_mod _ _ _
  · next hne =>
    rw [if_neg hne]
    exact h x s' hs'

end Step

/-! ### Tidy records -/

/-- **Records in which nothing comes twice.** -/
structure Tidy (rs : List Record) : Prop where
  /-- No quota is created twice. -/
  created : (rs.filterMap Record.creates?).Nodup
  /-- An identifier is granted for one allocation only. -/
  granted : ∀ a b v w, .allocated a v ∈ rs → .allocated b w ∈ rs → a.id = b.id → a = b

namespace Tidy

variable {rs : List Record}

/-- A part of tidy records is tidy. -/
theorem sublist (h : Tidy rs) {rs' : List Record} (hsub : rs'.Sublist rs) : Tidy rs' where
  created := h.created.sublist (hsub.filterMap _)
  granted a b v w ha hb := h.granted a b v w (hsub.subset ha) (hsub.subset hb)

/-- **Tidy records rebuild tables whose units are counted.** -/
theorem counted (h : Tidy rs) : Counted (ofRecords rs) := by
  induction rs using List.reverseRecOn with
  | nil =>
      intro id s hs
      simp [ofRecords, empty] at hs
  | append_singleton rs r ih =>
      have hcounted := ih (h.sublist (List.sublist_append_left rs [r]))
      have htraced := Traced.ofRecords rs
      rw [ofRecords, List.foldl_append, List.foldl_cons, List.foldl_nil]
      change Counted ((ofRecords rs).replayRecord r)
      cases r with
      | created id terms version =>
          refine hcounted.install (Grown.ofRecords rs) ?_ terms version
          intro hid
          -- a quota that exists was created before
          obtain ⟨terms', version', hr⟩ := htraced.created id hid
          have hnodup := h.created
          rw [List.filterMap_append] at hnodup
          exact (List.nodup_append.1 hnodup).2.2 id (List.mem_filterMap.2 ⟨_, hr, rfl⟩) id
            List.mem_cons_self rfl
      | revised id terms version =>
          simp only [replayRecord]
          split
          · exact hcounted
          · next hs => exact hcounted.revise hs terms version
      | allocated a version =>
          simp only [replayRecord]
          split
          · exact hcounted
          · next hs =>
            refine hcounted.allocate hs ?_ version
            intro b hb
            -- what is kept under the identifier was granted before
            obtain ⟨version', hr⟩ := htraced.granted a.id b hb
            exact h.granted b a version' version (List.mem_append_left _ hr) (by simp)
              (Ledger.id_of_find? hb)

/-- Tidy records list every allocation under its own quota only. -/
theorem filed (h : Tidy rs) : Filed (ofRecords rs) := by
  intro quota a ha
  obtain ⟨i, hi, hf⟩ := Ledger.mem_entries.1 ha
  obtain ⟨version, hr⟩ := (Traced.ofRecords rs).granted i a hf
  obtain ⟨b, version', hr', hquota, hid⟩ := (Traced.ofRecords rs).listed quota i hi
  rw [h.granted a b version version' hr hr' ((Ledger.id_of_find? hf).trans hid.symm), hquota]

end Tidy

/-- A snapshot creates the quotas that there are, one after the other. -/
theorem filterMap_creates?_snapshotRecords (t : Tables) :
    t.snapshotRecords.filterMap Record.creates? = t.standings.keys := by
  have hquota : ∀ p : Ulid × Standing,
      (t.quotaRecords p.1 p.2).filterMap Record.creates? = [p.1] := by
    intro p
    simp [quotaRecords, Record.creates?, List.filterMap_map, Function.comp_def]
  rw [snapshotRecords, List.filterMap_flatMap, ← Std.ExtTreeMap.map_fst_toList_eq_keys,
    List.map_eq_flatMap]
  exact congrArg (t.standings.toList.flatMap ·) (funext hquota)

/-- **A snapshot is tidy**, whatever tables it was taken of. -/
theorem tidy_snapshotRecords (t : Tables) : Tidy t.snapshotRecords where
  created := by
    rw [filterMap_creates?_snapshotRecords]
    exact Std.ExtTreeMap.nodup_keys
  granted a b v w ha hb hid := by
    have hkept := allocated_mem_snapshotRecords ha
    rw [hid, allocated_mem_snapshotRecords hb] at hkept
    exact (Option.some.inj hkept).symm

end Tables

end Allotment
