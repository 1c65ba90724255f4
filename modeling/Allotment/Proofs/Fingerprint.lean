/-
**A version is a fingerprint.**

A client that has seen a quota at some version, and later finds it at the same version, has seen all
there is to see: the terms, the units reserved and the list of allocations are what they were.  For
every change brings a version of its own, and what is not changed stays as it is.  Compacting a log
writes all allocations again with the version that their quota has at that time, and a log that is
opened again is replayed; neither can be seen from the tables.

Main definitions:

* `Allotment.Fingerprint.Same` — whatever has the same version at two desks is the same there;
* `Allotment.Fingerprint.Renews` — whatever a visit changes gets a version that it did not have.

Main results:

* `Allotment.Fingerprint.Same.of_later`, `Allotment.Fingerprint.Renews.of_orderly` — both, for any
  two moments;
* `Allotment.Fingerprint.fingerprint_run` — **at any two moments of every run the same version means
  the same quota**, at a desk without a log and at one with.
-/

import Allotment.Proofs.Durable

set_option relaxedAutoImplicit false
set_option autoImplicit false

namespace Allotment.Fingerprint

open Desk (Orderly Later Kept)

variable {ι : Type} [Journal ι]

/-! ### Two moments -/

omit [Journal ι] in
/-- **A quota that has the same version at two desks is the same at both**: the same terms, the same
units reserved, and the same allocations in the same order. -/
def Same (d₁ d₂ : Desk ι) : Prop :=
  ∀ (quota : Ulid) (q₁ q₂ : Quota), d₁.store.tables.quota? quota = some q₁ →
    d₂.store.tables.quota? quota = some q₂ → q₁.version = q₂.version →
      q₁ = q₂ ∧ d₁.allocations quota = d₂.allocations quota

/-- **Whatever a visit changes at the desk `d₂` gets a version that it did not have at `d₁`.** -/
def Renews (d₁ d₂ : Desk ι) (v : Visit) : Prop :=
  ∀ quota : Ulid, d₂.Changed quota v →
    ∃ q', (d₂.receive v).store.tables.quota? quota = some q' ∧
      ∀ q, d₁.store.tables.quota? quota = some q → q'.version ≠ q.version

omit [Journal ι] in
/-- A quota that has changed since has a version that was brought since, and so another. -/
theorem Same.of_later {past brought : List Record} {d₁ d₂ : Desk ι} (h : Orderly past d₁)
    (hlater : Later d₁ brought d₂) (hnovel : Novel (past ++ brought)) : Same d₁ d₂ := by
  obtain ⟨rs, hsince, hsub⟩ := hlater
  intro quota q₁ q₂ hq₁ hq₂ hv
  obtain ⟨hs₁, hid₁⟩ := Tables.quota?_eq_some_iff.1 hq₁
  obtain ⟨hs₂, hid₂⟩ := Tables.quota?_eq_some_iff.1 hq₂
  rcases hsince.standings quota _ hs₂ with ⟨hsame, hentries⟩ | ⟨r, hr, hr'⟩
  · have hstands := Option.some.inj (hs₁.symm.trans hsame)
    refine ⟨?_, ?_⟩
    · obtain ⟨st₁, id₁⟩ := q₁
      obtain ⟨st₂, id₂⟩ := q₂
      simp only at hstands hid₁ hid₂
      rw [hstands, hid₁, hid₂]
    · have hin₁ : quota ∈ d₁.store.tables.standings := Tables.mem_standings_iff.2 ⟨_, hs₁⟩
      have hin₂ : quota ∈ d₂.store.tables.standings := Tables.mem_standings_iff.2 ⟨_, hs₂⟩
      rw [Desk.allocations, Desk.allocations, if_pos hin₁, if_pos hin₂, hentries]
  · -- a version that was brought since is not one of those brought before
    obtain ⟨r₀, hr₀, hv₀⟩ := h.versions quota _ hs₁
    exact absurd (hv₀.symm.trans (hv.trans hr')) (hnovel.version_ne hr₀ (hsub r hr))

theorem Renews.of_orderly {past brought : List Record} {d₁ d₂ : Desk ι} (h₁ : Orderly past d₁)
    (h₂ : Orderly (past ++ brought) d₂) {v : Visit}
    (hnovel : Novel (past ++ brought ++ v.records)) : Renews d₁ d₂ v := by
  obtain ⟨rs, hleaves⟩ := h₂.leaves hnovel.visit
  intro quota hchanged
  obtain ⟨r, hr, rfl⟩ := hleaves.changed quota hchanged
  obtain ⟨s', hs', r', hr', hv'⟩ := hleaves.took.since.changed r hr
  refine ⟨_, by rw [Tables.quota?, hs']; rfl, ?_⟩
  intro q hq
  obtain ⟨r₀, hr₀, hv₀⟩ := h₁.versions _ _ (Tables.quota?_eq_some_iff.1 hq).1
  change s'.version ≠ q.version
  rw [hv', hv₀]
  exact (hnovel.version_ne (List.mem_append_left _ hr₀) (hleaves.brought r' hr')).symm

/-! ### Every run -/

/-- A desk without quotas that keeps no log. -/
def bare (ceiling : Nat) (m : Meter) : Desk Volatile := ⟨⟨.empty, ceiling, .volatile, none⟩, m⟩

/-- **At any two moments of every run the same version means the same quota**, and whatever is
changed gets a version that it never had.  Both moments are reached from a desk without quotas: the
earlier one by `front`, the later one by `back` behind it.  The first part is about a desk that
keeps no log; the second one about a desk with a log that was not there yet, where bytes can or
cannot be written, the log is compacted, and the store is closed and opened again. -/
theorem fingerprint_run :
    (∀ (ceiling : Nat) (m : Meter) (front back : List Visit),
      Novel ((front ++ back).flatMap (·.records)) →
        let d₁ := (bare ceiling m).receiveAll front
        let d₂ := d₁.receiveAll back
        Same d₁ d₂ ∧
          ∀ v : Visit, Novel ((front ++ back).flatMap (·.records) ++ v.records) →
            Renews d₁ d₂ v) ∧
    ∀ {disk : Disk} {es : Entries}, disk.place = .directory es →
      ∀ {name : String}, disk.entry? name = none →
        ∃ s, Store.ofLog disk name = .ok s ∧
          ∀ (m : Meter) (front back : List Event),
            Novel ((front ++ back).flatMap (·.records)) →
              let d₁ := Desk.undergoAll ⟨s, m⟩ front
              let d₂ := d₁.undergoAll back
              Same d₁ d₂ ∧
                ∀ v : Visit, Novel ((front ++ back).flatMap (·.records) ++ v.records) →
                  Renews d₁ d₂ v := by
  refine ⟨?_, ?_⟩
  · intro ceiling m front back hnovel
    rw [List.flatMap_append] at hnovel
    have hempty : Orderly [] (bare ceiling m) := .of_empty rfl rfl
    obtain ⟨h₁, _⟩ := hempty.receiveAll hnovel.left
    obtain ⟨h₂, hlater⟩ := h₁.receiveAll hnovel
    refine ⟨.of_later h₁ hlater hnovel, ?_⟩
    intro v hv
    rw [List.flatMap_append] at hv
    exact .of_orderly h₁ h₂ hv
  · intro disk es hp name habsent
    obtain ⟨s, ho, hs⟩ := Store.ofLog_of_absent hp habsent
    refine ⟨s, ho, ?_⟩
    intro m front back hnovel
    rw [List.flatMap_append] at hnovel
    obtain ⟨h₁, _⟩ := (Kept.of_opened hs m).undergoAll hnovel.left
    obtain ⟨h₂, hlater⟩ := h₁.undergoAll hnovel
    refine ⟨.of_later h₁.toOrderly hlater hnovel, ?_⟩
    intro v hv
    rw [List.flatMap_append] at hv
    exact .of_orderly h₁.toOrderly h₂.toOrderly hv

/-- A quota of five units is created and two units are claimed. -/
def twoOfFive : List Visit :=
  [.ask (.create ⟨⟨4, 1⟩, "Süd", "tour", tourDay⟩ ⟨⟨1⟩, ⟨⟨1⟩⟩, 0⟩),
   .ask (.allocate ⟨⟨1⟩, 2, some "BK-1"⟩ ⟨⟨2⟩, ⟨⟨2⟩⟩, 1⟩)]

/-- A claim fails for want of space; then the log is compacted, and the store opened again. -/
def failedAndReopened : List Event :=
  [.setWritable false, .visit (.ask (.allocate ⟨⟨1⟩, 1, none⟩ ⟨⟨3⟩, ⟨⟨3⟩⟩, 2⟩)), .setWritable true,
   .compact, .restart]

/-- Two claims are made at the same time. -/
def twoAtOnce : Visit :=
  .together [(⟨⟨1⟩, 1, none⟩, ⟨⟨4⟩, ⟨⟨4⟩⟩, 3⟩), (⟨⟨1⟩, 2, none⟩, ⟨⟨5⟩, ⟨⟨5⟩⟩, 4⟩)]

set_option maxRecDepth 100000 in
/-- The quota keeps its version while a claim fails and the store is opened again, and gets another
by the claims that are made at the same time. -/
theorem fingerprint_run_kept_then_renewed :
    (Novel ((twoOfFive ++ []).flatMap Visit.records ++ twoAtOnce.records) ∧
      let d := (bare 10 .zero).receiveAll twoOfFive
      Same d (d.receiveAll []) ∧ Renews d (d.receiveAll []) twoAtOnce) ∧
    Disk.blank.place = .directory ∅ ∧ Disk.blank.entry? "a.wal" = none ∧
      Novel ((twoOfFive.map Event.visit ++ failedAndReopened).flatMap Event.records ++
        twoAtOnce.records) ∧
      ∃ s, Store.ofLog .blank "a.wal" = .ok s ∧
        let d₁ := Desk.undergoAll ⟨s, .zero⟩ (twoOfFive.map Event.visit)
        let d₂ := d₁.undergoAll failedAndReopened
        Same d₁ d₂ ∧ Renews d₁ d₂ twoAtOnce ∧ d₂.Changed ⟨1⟩ twoAtOnce ∧
          (d₁.store.tables.quota? ⟨1⟩).map (·.version) = some ⟨⟨2⟩⟩ ∧
          (d₂.store.tables.quota? ⟨1⟩).map (·.version) = some ⟨⟨2⟩⟩ := by
  have hshort : Novel ((twoOfFive ++ []).flatMap Visit.records ++ twoAtOnce.records) :=
    ⟨by decide, by decide⟩
  have hlong : Novel ((twoOfFive.map Event.visit ++ failedAndReopened).flatMap Event.records ++
      twoAtOnce.records) :=
    ⟨by decide, by decide⟩
  have habsent : Disk.blank.entry? "a.wal" = none := rfl
  obtain ⟨hvolatile, hdurable⟩ := fingerprint_run
  obtain ⟨hsame, hrenews⟩ := hvolatile 10 .zero twoOfFive [] hshort.left
  obtain ⟨s, ho, hall⟩ := hdurable (rfl : Disk.blank.place = _) habsent
  obtain ⟨hsame', hrenews'⟩ := hall .zero (twoOfFive.map Event.visit) failedAndReopened hlong.left
  obtain rfl := Except.ok.inj (ofLog_emptyStore.symm.trans ho)
  exact ⟨⟨hshort, hsame, hrenews twoAtOnce hshort⟩, rfl, habsent, hlong, _, ho, hsame',
    hrenews' twoAtOnce hlong, ⟨⟨⟨4⟩, ⟨1⟩, none, 1, 3⟩, rfl, by decide +kernel⟩, by decide +kernel,
    by decide +kernel⟩

end Allotment.Fingerprint
