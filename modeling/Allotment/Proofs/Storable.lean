/-
**What a desk does can be written as a snapshot.**

A compaction writes the terms of every quota and every allocation again, so it takes more than a log
that could be read: the records of the snapshot must not be too long either.  Tables that were read
from a log have this property, whatever the log was, and a desk keeps it, since it refuses terms and
references that are too long.  It does not matter whether claims are dealt with one after the other
or at the same time, nor whether the journal takes what it is handed.

Main definitions:

* `Allotment.Write.Limited` — writes that keep the limits.

Main results:

* `Allotment.Tables.Storable.install`, `Allotment.Tables.Storable.commit` — what keeps the limits
  leaves tables whose snapshot can be written;
* `Allotment.Store.storable_insert`, `Allotment.Store.storable_commit`,
  `Allotment.Store.storable_commitGroup` — the same of the operations of a store;
* `Allotment.Desk.limited_of_prepare`, `Allotment.Desk.limited_of_prepareAll` — **whatever a desk
  decides about claims keeps the limits**.
-/

import Allotment.Proofs.Compaction
import Allotment.Proofs.Journal

set_option relaxedAutoImplicit false
set_option autoImplicit false

namespace Allotment

open Log (payload)

/-! ### Writes within the limits -/

/-- What a write says keeps the limits, and what it grants is granted on its own quota. -/
def Write.Limited (w : Write) : Prop :=
  match w.change with
  | .revise terms => terms.brokenLimit? = none
  | .allocate a => a.quota = w.quota ∧ brokenReference? a.reference = none

namespace Tables.Storable

variable {t : Tables}

/-- Entering a quota whose terms keep the limits. -/
theorem install (h : Storable t) (id : Ulid) {terms : Terms} (hl : terms.brokenLimit? = none)
    (version : Version) : Storable (t.install id terms version) where
  toGrown := h.toGrown.install id terms version
  terms x s hs v := by
    rw [standings_install] at hs
    split at hs
    · obtain rfl := Option.some.inj hs
      exact (Log.readable_created hl x v).length_payload_lt
    · exact h.terms x s hs v
  grants := h.grants

/-- A write within the limits, on a quota that stood as `s` at some time. -/
theorem commit (h : Storable t) {w : Write} (hw : w.Limited) {s : Standing}
    (hs : ∀ version, (payload (.created w.quota s.terms version)).length < UInt32.size)
    (version : Version) : Storable (t.commit w.quota s (w.record version)) := by
  obtain ⟨quota, expected, change⟩ := w
  cases change with
  | revise terms =>
      have hl : terms.brokenLimit? = none := hw
      refine ⟨h.toGrown.commit s rfl, ?_, h.grants⟩
      intro x s' hs' v
      rw [standings_commit] at hs'
      split at hs'
      · obtain rfl := Option.some.inj hs'
        exact (Log.readable_created hl x v).length_payload_lt
      · exact h.terms x s' hs' v
  | allocate a =>
      obtain ⟨rfl, href⟩ : a.quota = quota ∧ brokenReference? a.reference = none := hw
      refine ⟨h.toGrown.commit s rfl, ?_, ?_⟩
      · intro x s' hs' v
        rw [standings_commit] at hs'
        split at hs'
        · next heq =>
          subst heq
          obtain rfl := Option.some.inj hs'
          exact hs v
        · exact h.terms x s' hs' v
      · intro i b hb v
        simp only [Write.record, ledger_commit_allocated, Ledger.find?_record] at hb
        split at hb
        · obtain rfl := Option.some.inj hb
          exact Log.readable_allocated href v
        · exact h.grants i b hb v

/-- Several writes within the limits, each on a quota that stood as given at some time. -/
theorem commitAll (h : Storable t) {b : List (Submission × Standing)}
    (hb : ∀ p ∈ b, p.1.write.Limited ∧ ∀ version,
      (payload (.created p.1.write.quota p.2.terms version)).length < UInt32.size) :
    Storable (t.commitAll b) := by
  induction b generalizing t with
  | nil => exact h
  | cons p b ih =>
      obtain ⟨hw, hs⟩ := hb p List.mem_cons_self
      exact ih (h.commit hw hs p.1.version) fun q hq => hb q (List.mem_cons_of_mem _ hq)

end Tables.Storable

/-! ### Stores whose snapshot can be written -/

namespace Store

open Tables (Storable)

variable {ι : Type} [Journal ι] {s : Store ι}

theorem storable_insert (h : Storable s.tables) (id : Ulid) {terms : Terms}
    (hl : terms.brokenLimit? = none) (version : Version) :
    Storable (s.insert id terms version).2.tables := by
  rcases s.insert_cases id terms version with ⟨e, _, hi⟩ | ⟨e, j, _, _, hi⟩ | ⟨j, _, _, hi⟩
  · rw [hi]
    exact h
  · rw [hi]
    exact h
  · rw [hi]
    exact h.install id hl version

theorem storable_commit (h : Storable s.tables) {w : Write} (hw : w.Limited) (version : Version) :
    Storable (s.commit w version).2.tables := by
  rcases s.commit_cases w version with ⟨e, _, hi⟩ | ⟨q, e, j, _, _, hi⟩ | ⟨q, j, hc, _, hi⟩
  · rw [hi]
    exact h
  · rw [hi]
    exact h
  · rw [hi]
    exact h.commit hw (h.terms _ _ (checkWrite_eq_ok_iff.1 hc).1) version

theorem storable_carryOut (h : Storable s.tables) {decision : Except Refusal Write}
    (hd : ∀ w, decision = .ok w → w.Limited) (version : Version) :
    Storable (Desk.carryOut s decision version).2.tables := by
  cases decision with
  | error e => exact h
  | ok w =>
      rw [Desk.carryOut_ok_snd]
      exact storable_commit h (hd w rfl) version

omit [Journal ι] in
/-- Every submission has one turn. -/
theorem map_fst_turns (s : Store ι) (taken : List Ulid) (ws : List Submission) :
    (s.turns taken ws).map (·.1) = ws := by
  induction ws generalizing taken with
  | nil => rfl
  | cons w ws ih =>
      rw [turns]
      split
      · rw [List.map_cons, ih]
      · split
        · rw [List.map_cons, ih]
        · rw [List.map_cons, ih]

omit [Journal ι] in
/-- What is in a batch is in time. -/
theorem checkWrite_of_mem_batch {taken : List Ulid} {ws : List Submission}
    {p : Submission × Standing} (h : p ∈ batch (s.turns taken ws)) :
    p.1 ∈ ws ∧ s.checkWrite p.1.write = .ok p.2 := by
  induction ws generalizing taken with
  | nil => cases h
  | cons w ws ih =>
      rw [turns] at h
      split at h
      · exact (ih h).imp_left (List.mem_cons_of_mem w)
      · split at h
        · exact (ih h).imp_left (List.mem_cons_of_mem w)
        · next q hq =>
          rcases List.mem_cons.1 h with rfl | h
          · exact ⟨List.mem_cons_self, hq⟩
          · exact (ih h).imp_left (List.mem_cons_of_mem w)

theorem storable_answer (outcome : Except Failure Unit) (h : Storable s.tables)
    {ts : List (Submission × Turn)} (hts : ∀ w ∈ ts.map (·.1), w.write.Limited) :
    Storable (s.answer outcome ts).2.tables := by
  induction ts generalizing s with
  | nil => exact h
  | cons t ts ih =>
      obtain ⟨hw, hrest⟩ := List.forall_mem_cons.1 hts
      obtain ⟨w, _ | _ | _⟩ := t
      · exact ih h hrest
      · exact ih h hrest
      · exact ih (storable_commit h hw w.version) hrest

theorem storable_commitGroup (h : Storable s.tables) {ws : List Submission}
    (hws : ∀ w ∈ ws, w.write.Limited) : Storable (s.commitGroup ws).2.tables := by
  have hbatch : Storable (s.commitBatch (batch (s.turns [] ws))).2.tables := by
    unfold commitBatch Store.log
    split
    · exact h
    · rcases Journal.append s.journal _ with ⟨_ | _, j⟩
      · exact h
      · refine h.commitAll fun p hp => ?_
        obtain ⟨hmem, hc⟩ := checkWrite_of_mem_batch hp
        exact ⟨hws _ hmem, h.terms _ _ (checkWrite_eq_ok_iff.1 hc).1⟩
  exact storable_answer _ hbatch (by rwa [map_fst_turns])

end Store

/-! ### What a desk decides keeps the limits -/

namespace Desk

variable {ι : Type} [Journal ι]

/-- A claim leads to a write within the limits only. -/
theorem limited_of_prepare {s : Store ι} {c : Claim} {stamp : Stamp} {w : Write}
    (h : (prepare s c stamp).1 = .ok w) : w.Limited := by
  unfold prepare at h
  cases hc : c.check with
  | error e =>
      rw [hc] at h
      cases h
  | ok u =>
      rw [hc] at h
      cases hq : (s.load c.quota).1 with
      | none =>
          simp only [hq] at h
          cases h
      | some q =>
          have hd : c.decideOn q stamp = .ok w := by
            rw [Claim.decideOn, hc]
            simpa only [hq] using h
          obtain ⟨rfl, href, _⟩ := Claim.decideOn_eq_ok hd
          exact ⟨rfl, href⟩

/-- Claims made at the same time lead to writes within the limits only. -/
theorem limited_of_prepareAll {s : Store ι} {cs : List (Claim × Stamp)} :
    ∀ w ∈ submissions (prepareAll s cs).1, w.write.Limited := by
  induction cs generalizing s with
  | nil => exact fun w hw => absurd hw List.not_mem_nil
  | cons c cs ih =>
      obtain ⟨c, stamp⟩ := c
      intro w hw
      rw [prepareAll] at hw
      rcases hp : prepare s c stamp with ⟨e | w', s'⟩
      · simp only [hp] at hw
        exact ih w hw
      · simp only [hp] at hw
        rcases List.mem_cons.1 hw with rfl | hw
        · exact limited_of_prepare (congrArg Prod.fst hp)
        · exact ih w hw

end Desk

end Allotment
