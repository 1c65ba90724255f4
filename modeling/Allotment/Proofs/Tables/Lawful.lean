/-
**Records that a desk may commit.**

A desk checks a change before it commits it: a new quota does not exist yet, the terms keep the
limits, a lower bound still covers what is reserved, a claim fits and its identifier was never used.
Replayed on the tables for which they were checked, such records keep everything in order, and they
do nothing to what they are not about.  A quota that was changed by some of them has the version of
one of them; a list of allocations only grows at its end, and no allocation is lost or altered.

Main definitions:

* `Allotment.Record.version`, `Allotment.Record.grant?` — what a record brings that is new;
* `Allotment.Write.Suits` — a write that may be made on a quota that stands as given;
* `Allotment.Tables.Legal`, `Allotment.Tables.Lawful` — a record, and several, that may be
  committed;
* `Allotment.Tables.Since` — what lies between two moments.

Main results:

* `Allotment.Claim.suits_of_decideOn`, `Allotment.Revision.suits_of_decideOn` — whatever a desk
  decides on a reading may be made on the quota that was read;
* `Allotment.Tables.Lawful.sound`, `Allotment.Tables.Lawful.since` — **records that may be committed
  keep tables sound and touch only what they are about**.
-/

import Allotment.Proofs.Store
import Allotment.Proofs.Log.Size
import Allotment.Proofs.Tables.Snapshot

set_option relaxedAutoImplicit false
set_option autoImplicit false

namespace Allotment

open Log (Readable)

/-! ### What a record brings -/

/-- The version that a record gives its quota. -/
def Record.version : Record → Version
  | .created _ _ version | .revised _ _ version | .allocated _ version => version

theorem Write.version_record (w : Write) (version : Version) :
    (w.record version).version = version := by
  obtain ⟨quota, expected, change⟩ := w
  cases change with
  | allocate a => rfl
  | revise terms => rfl

/-- The identifier under which a record enters an allocation, if it does. -/
def Record.grant? : Record → Option Ulid
  | .allocated a _ => some a.id
  | _ => none

/-! ### Writes that may be made -/

/-- Whether a write may be made on a quota that stands as given: it keeps the limits, and the units
reserved stay within the bound. -/
def Write.Suits (w : Write) (s : Standing) : Prop :=
  match w.change with
  | .revise terms => terms.brokenLimit? = none ∧ s.reserved.toNat ≤ terms.bound
  | .allocate a =>
    a.quota = w.quota ∧ brokenReference? a.reference = none ∧
      s.reserved.toNat + a.quantity.toNat ≤ s.terms.bound

/-- The write of a claim may be made on the quota on which the claim was decided. -/
theorem Claim.suits_of_decideOn {c : Claim} {q : Quota} {stamp : Stamp} {w : Write}
    (h : c.decideOn q stamp = .ok w) (hwithin : q.reserved.toNat ≤ q.terms.bound) :
    w.Suits q.toStanding := by
  obtain ⟨rfl, href, _, hfit⟩ := Claim.decideOn_eq_ok h
  exact ⟨rfl, href, Nat.add_le_of_le_sub' hwithin hfit⟩

/-- The write of a revision may be made on the quota on which the revision was decided. -/
theorem Revision.suits_of_decideOn {r : Revision} {q : Quota} {w : Write}
    (h : r.decideOn q = .ok w) : w.Suits q.toStanding := by
  obtain ⟨rfl, hl, _, hb⟩ := Revision.decideOn_eq_ok h
  exact ⟨hl, hb⟩

namespace Tables

/-! ### Records that may be committed -/

/-- Whether a record may be committed: what it is about is there, or not there yet, and it keeps the
limits and the bound. -/
def Legal (t : Tables) : Record → Prop
  | .created id terms _ => id ∉ t.standings ∧ terms.brokenLimit? = none
  | .revised id terms _ =>
    ∃ s, t.standings[id]? = some s ∧ terms.brokenLimit? = none ∧ s.reserved.toNat ≤ terms.bound
  | .allocated a _ =>
    ∃ s, t.standings[a.quota]? = some s ∧ t.ledger.find? a.id = none ∧
      brokenReference? a.reference = none ∧ s.reserved.toNat + a.quantity.toNat ≤ s.terms.bound

/-- Whether each of some records may be committed when its turn comes. -/
def Lawful (t : Tables) : List Record → Prop
  | [] => True
  | r :: rs => t.Legal r ∧ (t.replayRecord r).Lawful rs

theorem replayRecord_revised {t : Tables} {id : Ulid} {s : Standing}
    (hs : t.standings[id]? = some s) (terms : Terms) (version : Version) :
    t.replayRecord (.revised id terms version) = t.commit id s (.revised id terms version) := by
  simp only [replayRecord, Record.quota, hs]

/-- The tables after a record that makes a commit. -/
theorem replayRecord_eq_commit {t : Tables} {id : Ulid} {s : Standing}
    (hs : t.standings[id]? = some s) {w : Write} (hw : w.quota = id)
    (hquota : ∀ a, w.change = .allocate a → a.quota = id) (version : Version) :
    t.replayRecord (w.record version) = t.commit id s (w.record version) := by
  obtain ⟨quota, expected, change⟩ := w
  cases change with
  | revise terms =>
      obtain rfl : quota = id := hw
      simp only [Write.record, Tables.replayRecord, Record.quota, hs]
  | allocate a =>
      obtain rfl : a.quota = id := hquota a rfl
      simp only [Write.record, Tables.replayRecord, Record.quota, hs]

/-- The record of a write that suits its quota may be committed, and replaying it is the effect of
the write. -/
theorem legal_record {t : Tables} {w : Write} {s : Standing} (hs : t.standings[w.quota]? = some s)
    (hw : w.Suits s) (version : Version)
    (hnew : ∀ i, (w.record version).grant? = some i → t.ledger.find? i = none) :
    t.Legal (w.record version) ∧
      t.replayRecord (w.record version) = t.commit w.quota s (w.record version) := by
  have hquota : ∀ a, w.change = .allocate a → a.quota = w.quota := by
    intro a ha
    unfold Write.Suits at hw
    rw [ha] at hw
    exact hw.1
  refine ⟨?_, replayRecord_eq_commit hs rfl hquota version⟩
  obtain ⟨quota, expected, change⟩ := w
  cases change with
  | revise terms => exact ⟨s, hs, hw⟩
  | allocate a =>
      obtain ⟨rfl, href, hfit⟩ := hw
      exact ⟨s, hs, hnew a.id rfl, href, hfit⟩

theorem Legal.sound {t : Tables} {r : Record} (h : Sound t) (hr : t.Legal r) :
    Sound (t.replayRecord r) := by
  cases r with
  | created id terms version => exact h.install hr.1 hr.2 version
  | revised id terms version =>
      obtain ⟨s, hs, hl, hb⟩ := hr
      rw [replayRecord_revised hs]
      exact h.revise hs hl hb version
  | allocated a version =>
      obtain ⟨s, hs, hnew, href, hfit⟩ := hr
      rw [replayRecord_allocated hs]
      exact h.allocate hs hnew hfit href version

theorem Legal.readable {t : Tables} {r : Record} (hr : t.Legal r) : Readable r := by
  cases r with
  | created id terms version => exact Log.readable_created hr.2 id version
  | revised id terms version =>
      obtain ⟨s, _, hl, _⟩ := hr
      exact Log.readable_revised hl id version
  | allocated a version =>
      obtain ⟨s, _, _, href, _⟩ := hr
      exact Log.readable_allocated href version

/-- No identifier is listed twice under one quota. -/
def Distinct (t : Tables) : Prop := ∀ quota, (t.ledger.ids quota).Nodup

theorem Legal.distinct {t : Tables} {r : Record} (h : Distinct t) (hr : t.Legal r) :
    Distinct (t.replayRecord r) := by
  cases r with
  | created id terms version => exact h
  | revised id terms version =>
      obtain ⟨s, hs, _⟩ := hr
      rw [replayRecord_revised hs]
      exact h
  | allocated a version =>
      obtain ⟨s, hs, hnew, _⟩ := hr
      rw [replayRecord_allocated hs]
      intro quota
      rw [ledger_commit_allocated, Ledger.ids_record]
      split
      · refine List.nodup_append.2 ⟨h quota, List.pairwise_singleton _ _, ?_⟩
        rintro i hi j hj rfl
        obtain rfl := List.mem_singleton.1 hj
        obtain ⟨b, hb⟩ := Ledger.find?_of_mem_ids hi
        rw [hnew] at hb
        cases hb
      · exact h quota

/-! ### What lies between two moments -/

/-- **What lies between two moments**, if `rs` was committed in between. -/
structure Since (t t' : Tables) (rs : List Record) : Prop where
  /-- A quota stands as before, with the same allocations, or has the version of a record. -/
  standings : ∀ (id : Ulid) (s : Standing), t'.standings[id]? = some s →
    (t.standings[id]? = some s ∧ t'.ledger.entries id = t.ledger.entries id) ∨
      ∃ r ∈ rs, s.version = r.version
  /-- A quota that a record is about has the version of a record. -/
  changed : ∀ r ∈ rs, ∃ s, t'.standings[r.quota]? = some s ∧ ∃ r' ∈ rs, s.version = r'.version
  /-- No quota is lost. -/
  kept : ∀ id : Ulid, id ∈ t.standings → id ∈ t'.standings
  /-- Lists of allocations only grow at their end. -/
  entries : ∀ quota, t.ledger.entries quota <+: t'.ledger.entries quota
  /-- No allocation is lost or altered. -/
  found : ∀ i a, t.ledger.find? i = some a → t'.ledger.find? i = some a
  /-- Allocations that are new were granted by a record. -/
  entered : ∀ i a, t'.ledger.find? i = some a →
    t.ledger.find? i = some a ∨ ∃ r ∈ rs, r.grant? = some i
  /-- What was granted by a record is kept. -/
  granted : ∀ a version, .allocated a version ∈ rs → t'.ledger.find? a.id = some a

namespace Since

variable {t t' t'' : Tables} {rs rs' : List Record}

theorem refl (t : Tables) : Since t t [] where
  standings _ _ h := Or.inl ⟨h, rfl⟩
  changed _ h := nomatch h
  kept _ h := h
  entries _ := List.prefix_refl _
  found _ _ h := h
  entered _ _ h := Or.inl h
  granted _ _ h := nomatch h

theorem trans (h : Since t t' rs) (h' : Since t' t'' rs') : Since t t'' (rs ++ rs') where
  standings id s hs := by
    rcases h'.standings id s hs with ⟨hs', he'⟩ | ⟨r, hr, hv⟩
    · rcases h.standings id s hs' with ⟨hs₀, he⟩ | ⟨r, hr, hv⟩
      · exact Or.inl ⟨hs₀, he'.trans he⟩
      · exact Or.inr ⟨r, List.mem_append_left _ hr, hv⟩
    · exact Or.inr ⟨r, List.mem_append_right _ hr, hv⟩
  changed r hr := by
    rcases List.mem_append.1 hr with hr | hr
    · obtain ⟨s, hs, r₁, hr₁, hv₁⟩ := h.changed r hr
      obtain ⟨s', hs'⟩ := mem_standings_iff.1 (h'.kept _ (mem_standings_iff.2 ⟨s, hs⟩))
      refine ⟨s', hs', ?_⟩
      rcases h'.standings _ s' hs' with ⟨hsame, _⟩ | ⟨r₂, hr₂, hv₂⟩
      · obtain rfl := Option.some.inj (hsame.symm.trans hs)
        exact ⟨r₁, List.mem_append_left _ hr₁, hv₁⟩
      · exact ⟨r₂, List.mem_append_right _ hr₂, hv₂⟩
    · obtain ⟨s, hs, r₁, hr₁, hv₁⟩ := h'.changed r hr
      exact ⟨s, hs, r₁, List.mem_append_right _ hr₁, hv₁⟩
  kept id hid := h'.kept id (h.kept id hid)
  entries quota := (h.entries quota).trans (h'.entries quota)
  found i a ha := h'.found i a (h.found i a ha)
  entered i a ha := by
    rcases h'.entered i a ha with ha | ⟨r, hr, hi⟩
    · rcases h.entered i a ha with ha | ⟨r, hr, hi⟩
      · exact Or.inl ha
      · exact Or.inr ⟨r, List.mem_append_left _ hr, hi⟩
    · exact Or.inr ⟨r, List.mem_append_right _ hr, hi⟩
  granted a version ha := by
    rcases List.mem_append.1 ha with ha | ha
    · exact h'.found _ _ (h.granted a version ha)
    · exact h'.granted a version ha

/-- A record that only changes how its quota stands. -/
theorem of_ledger_eq {r : Record} (hledger : t'.ledger = t.ledger)
    (hgrant : ∀ a version, r ≠ .allocated a version)
    {s : Standing} (hv : s.version = r.version)
    (hstandings : ∀ x : Ulid,
      t'.standings[x]? = if r.quota = x then some s else t.standings[x]?) :
    Since t t' [r] where
  standings id s' hs' := by
    rw [hstandings] at hs'
    split at hs'
    · obtain rfl := Option.some.inj hs'
      exact Or.inr ⟨r, List.mem_singleton_self r, hv⟩
    · exact Or.inl ⟨hs', by rw [hledger]⟩
  changed r' hr' := by
    obtain rfl := List.mem_singleton.1 hr'
    exact ⟨s, by rw [hstandings, if_pos rfl], r', hr', hv⟩
  kept id hid := by
    obtain ⟨s₀, hs₀⟩ := mem_standings_iff.1 hid
    rw [mem_standings_iff, hstandings]
    split
    · exact ⟨s, rfl⟩
    · exact ⟨s₀, hs₀⟩
  entries quota := hledger ▸ List.prefix_refl _
  found i a ha := hledger ▸ ha
  entered i a ha := Or.inl (hledger ▸ ha)
  granted a version ha := absurd (List.mem_singleton.1 ha).symm (hgrant a version)

/-- A claim that is granted under a new identifier. -/
theorem of_allocated {a : Allocation} {s : Standing} {version : Version}
    (hnew : t.ledger.find? a.id = none) :
    Since t (t.commit a.quota s (.allocated a version)) [.allocated a version] where
  standings id s' hs' := by
    rw [standings_commit] at hs'
    rw [ledger_commit_allocated, Ledger.entries_record hnew]
    split at hs'
    · obtain rfl := Option.some.inj hs'
      exact Or.inr ⟨_, List.mem_singleton_self _, rfl⟩
    · next hne => exact Or.inl ⟨hs', if_neg hne⟩
  changed r hr := by
    obtain rfl := List.mem_singleton.1 hr
    refine ⟨_, by rw [standings_commit]; exact if_pos rfl, _, hr, rfl⟩
  kept id hid := mem_standings_commit.2 (Or.inr hid)
  entries quota := by
    rw [ledger_commit_allocated, Ledger.entries_record hnew]
    split
    · exact List.prefix_append _ _
    · exact List.prefix_refl _
  found i b hb := by
    rw [ledger_commit_allocated, Ledger.find?_record]
    split
    · next heq =>
      rw [← heq, hnew] at hb
      cases hb
    · exact hb
  entered i b hb := by
    rw [ledger_commit_allocated, Ledger.find?_record] at hb
    split at hb
    · next heq => exact Or.inr ⟨_, List.mem_singleton_self _, congrArg some heq⟩
    · exact Or.inl hb
  granted b version' hb := by
    obtain ⟨rfl, rfl⟩ := Record.allocated.inj (List.mem_singleton.1 hb)
    rw [ledger_commit_allocated, Ledger.find?_record, if_pos rfl]

end Since

theorem Legal.since {t : Tables} {r : Record} (hr : t.Legal r) :
    Since t (t.replayRecord r) [r] := by
  cases r with
  | created id terms version =>
      exact Since.of_ledger_eq rfl (fun _ _ h => nomatch h) (s := .opening terms version) rfl
        (standings_install t id terms version)
  | revised id terms version =>
      obtain ⟨s, hs, _⟩ := hr
      rw [replayRecord_revised hs]
      exact Since.of_ledger_eq rfl (fun _ _ h => nomatch h) rfl (standings_commit t id s _)
  | allocated a version =>
      obtain ⟨s, hs, hnew, _⟩ := hr
      rw [replayRecord_allocated hs]
      exact Since.of_allocated hnew

/-! ### Several records -/

namespace Lawful

variable {t : Tables} {rs rs' : List Record}

theorem append (h : t.Lawful rs) (h' : (rs.foldl replayRecord t).Lawful rs') :
    t.Lawful (rs ++ rs') := by
  induction rs generalizing t with
  | nil => exact h'
  | cons r rs ih => exact ⟨h.1, ih h.2 h'⟩

/-- **Records that may be committed keep tables sound.** -/
theorem sound (hrs : t.Lawful rs) (h : Sound t) : Sound (rs.foldl replayRecord t) := by
  induction rs generalizing t with
  | nil => exact h
  | cons r rs ih => exact ih hrs.2 (Legal.sound h hrs.1)

theorem distinct (hrs : t.Lawful rs) (h : Distinct t) : Distinct (rs.foldl replayRecord t) := by
  induction rs generalizing t with
  | nil => exact h
  | cons r rs ih => exact ih hrs.2 (Legal.distinct h hrs.1)

theorem readable (hrs : t.Lawful rs) : ∀ r ∈ rs, Readable r := by
  induction rs generalizing t with
  | nil => exact fun r hr => nomatch hr
  | cons r rs ih => exact List.forall_mem_cons.2 ⟨Legal.readable hrs.1, ih hrs.2⟩

/-- **Records that may be committed touch only what they are about.** -/
theorem since (hrs : t.Lawful rs) : Since t (rs.foldl replayRecord t) rs := by
  induction rs generalizing t with
  | nil => exact Since.refl t
  | cons r rs ih => exact (Legal.since hrs.1).trans (ih hrs.2)

end Lawful

end Tables

end Allotment
