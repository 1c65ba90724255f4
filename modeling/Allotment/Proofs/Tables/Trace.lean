/-
**Where the contents of tables come from.**

Replay makes nothing up: every quota was created by a record, its terms were set by one, and every
allocation was granted by one, on the quota under which it is listed.

Main definitions:

* `Allotment.Tables.Traced` — tables whose contents come from given records.

Main results:

* `Allotment.Tables.Traced.ofRecords` — **what records rebuild comes from these records**;
* `Allotment.Tables.created_mem_snapshotRecords`,
  `Allotment.Tables.allocated_mem_snapshotRecords` — what the records of a snapshot say.
-/

import Allotment.Proofs.Tables.Snapshot

set_option relaxedAutoImplicit false
set_option autoImplicit false

namespace Allotment

/-- The terms that a record sets. -/
def Record.terms? : Record → Option Terms
  | .created _ terms _ | .revised _ terms _ => some terms
  | .allocated _ _ => none

namespace Tables

/-- **Tables whose contents come from these records.** -/
structure Traced (t : Tables) (rs : List Record) : Prop where
  /-- Every quota was created. -/
  created : ∀ id : Ulid, id ∈ t.standings → ∃ terms version, .created id terms version ∈ rs
  /-- The terms of every quota were set. -/
  terms : ∀ (id : Ulid) (s : Standing), t.standings[id]? = some s →
    ∃ r ∈ rs, r.terms? = some s.terms
  /-- Whatever is listed was granted on the quota that lists it. -/
  listed : ∀ quota i, i ∈ t.ledger.ids quota →
    ∃ a version, .allocated a version ∈ rs ∧ a.quota = quota ∧ a.id = i
  /-- Every allocation that is kept was granted. -/
  granted : ∀ i a, t.ledger.find? i = some a → ∃ version, .allocated a version ∈ rs

namespace Traced

theorem empty : Traced Tables.empty [] where
  created id h := by simp [Tables.empty] at h
  terms id s h := by simp [Tables.empty] at h
  listed quota i h := by simp [Tables.empty] at h
  granted i a h := by simp [Tables.empty] at h

variable {t : Tables} {rs : List Record}

/-- More records do no harm. -/
theorem mono (h : Traced t rs) {rs' : List Record} (hsub : ∀ r ∈ rs, r ∈ rs') : Traced t rs' where
  created id hid := by
    obtain ⟨terms, version, hr⟩ := h.created id hid
    exact ⟨terms, version, hsub _ hr⟩
  terms id s hs := by
    obtain ⟨r, hr, ht⟩ := h.terms id s hs
    exact ⟨r, hsub r hr, ht⟩
  listed quota i hi := by
    obtain ⟨a, version, hr, hq, ha⟩ := h.listed quota i hi
    exact ⟨a, version, hsub _ hr, hq, ha⟩
  granted i a ha := by
    obtain ⟨version, hr⟩ := h.granted i a ha
    exact ⟨version, hsub _ hr⟩

theorem install (h : Traced t rs) {id : Ulid} {terms : Terms} {version : Version}
    (hr : .created id terms version ∈ rs) : Traced (t.install id terms version) rs where
  created x hx := by
    rcases mem_standings_install.1 hx with rfl | hx
    · exact ⟨terms, version, hr⟩
    · exact h.created x hx
  terms x s hs := by
    rw [standings_install] at hs
    split at hs
    · cases hs
      exact ⟨_, hr, rfl⟩
    · exact h.terms x s hs
  listed := h.listed
  granted := h.granted

theorem commit (h : Traced t rs) {s : Standing} {r : Record} (hs : t.standings[r.quota]? = some s)
    (hr : r ∈ rs) : Traced (t.commit r.quota s r) rs := by
  have hcreated : ∀ id : Ulid, id ∈ (t.commit r.quota s r).standings →
      ∃ terms version, .created id terms version ∈ rs := by
    intro id hid
    rcases mem_standings_commit.1 hid with rfl | hid
    · exact h.created _ (mem_standings_iff.2 ⟨s, hs⟩)
    · exact h.created id hid
  have hterms : ∀ (id : Ulid) (s' : Standing), (t.commit r.quota s r).standings[id]? = some s' →
      ∃ r ∈ rs, r.terms? = some s'.terms := by
    intro id s' hs'
    rw [standings_commit] at hs'
    split at hs'
    · obtain rfl := Option.some.inj hs'
      cases r with
      | created quota terms version => exact h.terms quota s hs
      | revised quota terms version => exact ⟨_, hr, rfl⟩
      | allocated a version => exact h.terms a.quota s hs
    · exact h.terms id s' hs'
  cases r with
  | created quota terms version => exact ⟨hcreated, hterms, h.listed, h.granted⟩
  | revised quota terms version => exact ⟨hcreated, hterms, h.listed, h.granted⟩
  | allocated a version =>
      refine ⟨hcreated, hterms, ?_, ?_⟩
      · intro quota i hi
        rw [ledger_commit_allocated] at hi
        rcases Ledger.mem_ids_record.1 hi with hi | ⟨hq, rfl⟩
        · exact h.listed quota i hi
        · exact ⟨a, version, hr, hq, rfl⟩
      · intro i b hb
        rw [ledger_commit_allocated, Ledger.find?_record] at hb
        split at hb
        · cases hb
          exact ⟨version, hr⟩
        · exact h.granted i b hb

theorem replayRecord (h : Traced t rs) {r : Record} (hr : r ∈ rs) :
    Traced (t.replayRecord r) rs := by
  cases r with
  | created id terms version => exact h.install hr
  | revised id terms version =>
      simp only [Tables.replayRecord]
      split
      · exact h
      · next hs => exact h.commit hs hr
  | allocated a version =>
      simp only [Tables.replayRecord]
      split
      · exact h
      · next hs => exact h.commit hs hr

/-- **What records rebuild comes from these records.** -/
theorem ofRecords (rs : List Record) : Traced (Tables.ofRecords rs) rs := by
  have hfold : ∀ (ss : List Record) (t : Tables), (∀ r ∈ ss, r ∈ rs) → Traced t rs →
      Traced (ss.foldl Tables.replayRecord t) rs := by
    intro ss
    induction ss with
    | nil => exact fun t _ h => h
    | cons r ss ih =>
        intro t hsub h
        exact ih _ (fun x hx => hsub x (by simp [hx])) (h.replayRecord (hsub r (by simp)))
  exact hfold rs _ (fun _ hr => hr) (Traced.empty.mono fun _ hr => by cases hr)

end Traced

/-- A snapshot creates every quota with its present terms. -/
theorem created_mem_snapshotRecords {t : Tables} {id : Ulid} {terms : Terms} {version : Version}
    (h : .created id terms version ∈ t.snapshotRecords) :
    ∃ s, t.standings[id]? = some s ∧ terms = s.terms ∧ version = s.version := by
  obtain ⟨id', s, hs, hr⟩ := mem_snapshotRecords.1 h
  rcases List.mem_cons.1 hr with heq | hr
  · cases heq
    exact ⟨s, hs, rfl, rfl⟩
  · obtain ⟨a, _, heq⟩ := List.mem_map.1 hr
    cases heq

/-- A snapshot grants allocations that are kept. -/
theorem allocated_mem_snapshotRecords {t : Tables} {a : Allocation} {version : Version}
    (h : .allocated a version ∈ t.snapshotRecords) : t.ledger.find? a.id = some a := by
  obtain ⟨id, s, _, hr⟩ := mem_snapshotRecords.1 h
  rcases List.mem_cons.1 hr with heq | hr
  · cases heq
  · obtain ⟨b, hb, heq⟩ := List.mem_map.1 hr
    cases heq
    exact Ledger.find?_of_mem_entries hb

end Tables

end Allotment
