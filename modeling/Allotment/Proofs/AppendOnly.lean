/-
**Lists of allocations only grow.**

An allocation that was granted is never lost, altered or listed a second time.  Whatever happens to
a desk with a log, the allocations of a quota at one moment are the first of those at any later
moment, and so the units reserved never become fewer.  A log that is compacted lists the quotas in
another order than the records came in, but the allocations of each quota in the order of granting.

Main definitions:

* `Allotment.AppendOnly.Extends` — a desk whose lists go on behind those of another;
* `Allotment.AppendOnly.Lists` — a desk that lists an allocation, once and where it belongs.

Main results:

* `Allotment.AppendOnly.Extends.of_later`, `Allotment.AppendOnly.Lists.of_find?` — a desk at a later
  moment extends the earlier one, and an allocation that is found is listed;
* `Allotment.AppendOnly.append_only` — **at any two moments of every run the later lists extend the
  earlier ones, and whatever was granted is listed from then on**.
-/

import Allotment.Proofs.Durable

set_option relaxedAutoImplicit false
set_option autoImplicit false

namespace Allotment

/-- A list of allocations that goes on behind another has no smaller total. -/
theorem Ledger.total_le_of_prefix {l m : Ledger} {quota : Ulid}
    (h : l.entries quota <+: m.entries quota) : l.total quota ≤ m.total quota := by
  have hgrows : ∀ (as : List Allocation) (n : Nat),
      n ≤ as.foldl (fun n a => n + a.quantity.toNat) n := by
    intro as
    induction as with
    | nil => exact fun n => Nat.le_refl n
    | cons a as ih => exact fun n => Nat.le_trans (Nat.le_add_right n _) (ih _)
  obtain ⟨more, hmore⟩ := h
  rw [total, total, ← hmore, List.foldl_append]
  exact hgrows more _

namespace AppendOnly

open Desk (Orderly Later Kept)

variable {ι : Type}

/-! ### Two moments -/

/-- **The lists of `d₂` go on behind those of `d₁`**, and no fewer units are reserved. -/
structure Extends (d₁ d₂ : Desk ι) : Prop where
  /-- The allocations of a quota are the first of its allocations. -/
  listed : ∀ quota as, d₁.allocations quota = .ok as →
    ∃ as', d₂.allocations quota = .ok as' ∧ as <+: as'
  /-- A quota is still there, with as many units reserved or more. -/
  reserved : ∀ quota q, d₁.store.tables.quota? quota = some q →
    ∃ q', d₂.store.tables.quota? quota = some q' ∧ q.reserved ≤ q'.reserved

/-- **An allocation that is found as it is, and that is listed once over all quotas**, for the quota
that it names. -/
structure Lists (d : Desk ι) (a : Allocation) : Prop where
  /-- It is found under its identifier. -/
  found : d.allocation a.id = .ok a
  /-- It is listed. -/
  listed : ∃ as, d.allocations a.quota = .ok as ∧ a ∈ as
  /-- Its identifier is listed once for its quota, and for no other. -/
  once : ∀ quota as, d.allocations quota = .ok as →
    (as.map (·.id)).count a.id = if quota = a.quota then 1 else 0

theorem allocations_eq_ok_iff {d : Desk ι} {quota : Ulid} {as : List Allocation} :
    d.allocations quota = .ok as ↔
      quota ∈ d.store.tables.standings ∧ d.store.tables.ledger.entries quota = as := by
  unfold Desk.allocations
  split
  · next h => simp [h]
  · next h => simp [h]

/-- The desk at a later moment extends the earlier one. -/
theorem Extends.of_later {past past' brought : List Record} {d₁ d₂ : Desk ι} (h₁ : Orderly past d₁)
    (h₂ : Orderly past' d₂) (hlater : Later d₁ brought d₂) : Extends d₁ d₂ where
  listed quota as has := by
    obtain ⟨rs, hsince, _⟩ := hlater
    obtain ⟨hin, rfl⟩ := allocations_eq_ok_iff.1 has
    exact ⟨_, allocations_eq_ok_iff.2 ⟨hsince.kept quota hin, rfl⟩, hsince.entries quota⟩
  reserved quota q hq := by
    obtain ⟨rs, hsince, _⟩ := hlater
    obtain ⟨hs, _⟩ := Tables.quota?_eq_some_iff.1 hq
    have hin := hsince.kept quota (Tables.mem_standings_iff.2 ⟨_, hs⟩)
    obtain ⟨s', hs'⟩ := Tables.mem_standings_iff.1 hin
    refine ⟨{ s' with id := quota }, by rw [Tables.quota?, hs']; rfl, ?_⟩
    -- units reserved are the total of the allocations, which has not become smaller
    rw [UInt32.le_iff_toNat_le]
    calc q.reserved.toNat = d₁.store.tables.ledger.total quota := h₁.sound.balanced quota _ hs
      _ ≤ d₂.store.tables.ledger.total quota := Ledger.total_le_of_prefix (hsince.entries quota)
      _ = s'.reserved.toNat := (h₂.sound.balanced quota s' hs').symm

/-- An allocation that is found is listed where it belongs. -/
theorem Lists.of_find? {past : List Record} {d : Desk ι} (h : Orderly past d) {a : Allocation}
    (ha : d.store.tables.ledger.find? a.id = some a) : Lists d a := by
  have hid : a.id ∈ d.store.tables.ledger.ids a.quota := h.sound.indexed _ _ ha
  refine ⟨by rw [Desk.allocation, ha], ?_, ?_⟩
  · exact ⟨_, allocations_eq_ok_iff.2 ⟨h.sound.rooted _ _ hid, rfl⟩, Ledger.mem_entries.2
      ⟨_, hid, ha⟩⟩
  · intro quota as has
    obtain ⟨_, rfl⟩ := allocations_eq_ok_iff.1 has
    rw [Ledger.map_id_entries]
    split
    · next heq =>
      rw [heq, (h.distinct a.quota).count, if_pos hid]
    · next hne =>
      rw [List.count_eq_zero]
      intro hmem
      -- whatever is listed for a quota names it
      exact hne (h.sound.filed quota a (Ledger.mem_entries.2 ⟨_, hmem, ha⟩)).symm

/-! ### Every run -/

/-- **At any two moments of every run the later lists extend the earlier ones**, and whatever was
granted is listed from then on.  A desk is opened on a log that is not there yet; bytes can or
cannot be written, the log is compacted, and the store is closed and opened again.  Between the two
moments there are the events `back`; for the second part, the first of these is a visit that obtains
an allocation. -/
theorem append_only {disk : Disk} {es : Entries} (hp : disk.place = .directory es) {name : String}
    (habsent : disk.entry? name = none) :
    ∃ s, Store.ofLog disk name = .ok s ∧
      ∀ (m : Meter) (front back : List Event), Novel ((front ++ back).flatMap (·.records)) →
        let d₁ := Desk.undergoAll ⟨s, m⟩ front
        let d₂ := d₁.undergoAll back
        Extends d₁ d₂ ∧
          ∀ (v : Visit) (rest : List Event) (a : Allocation), back = .visit v :: rest →
            d₁.Granted a v → Lists d₂ a := by
  obtain ⟨s, ho, hs⟩ := Store.ofLog_of_absent hp habsent
  refine ⟨s, ho, ?_⟩
  intro m front back hnovel
  rw [List.flatMap_append] at hnovel
  obtain ⟨h₁, _⟩ := (Kept.of_opened hs m).undergoAll hnovel.left
  obtain ⟨h₂, hlater⟩ := h₁.undergoAll hnovel
  refine ⟨.of_later h₁.toOrderly h₂.toOrderly hlater, ?_⟩
  rintro v rest a rfl hgranted
  rw [List.flatMap_cons, ← List.append_assoc] at hnovel
  obtain ⟨rs, hleaves⟩ := h₁.leaves hnovel.left.visit
  obtain ⟨version, hin⟩ := hleaves.granted a hgranted
  have hfound := hleaves.took.since.granted a version hin
  obtain ⟨hnext, _⟩ := h₁.undergo hnovel.left
  obtain ⟨_, _, hsince, _⟩ := hnext.undergoAll hnovel
  exact .of_find? h₂.toOrderly (hsince.found _ _ hfound)

/-- A quota of five units. -/
def oneCreated : List Event :=
  [.visit (.ask (.create ⟨⟨4, 1⟩, "Süd", "tour", ⟨2026, 10, 9, by decide⟩⟩ ⟨⟨1⟩, ⟨⟨1⟩⟩, 0⟩))]

/-- A claim for two of its units. -/
def firstClaim : Visit := .ask (.allocate ⟨⟨1⟩, 2, some "BK-1"⟩ ⟨⟨2⟩, ⟨⟨2⟩⟩, 1⟩)

/-- A claim fails for want of space, the log is compacted, the store is opened again, and one more
unit is claimed. -/
def failedAndReopened : List Event :=
  [.setWritable false, .visit (.ask (.allocate ⟨⟨1⟩, 1, none⟩ ⟨⟨3⟩, ⟨⟨3⟩⟩, 2⟩)), .setWritable true,
   .compact, .restart, .visit (.ask (.allocate ⟨⟨1⟩, 1, none⟩ ⟨⟨4⟩, ⟨⟨4⟩⟩, 3⟩))]

set_option maxRecDepth 100000 in
/-- What was granted first stays first. -/
theorem append_only_failed_and_reopened :
    Disk.blank.place = .directory ∅ ∧ Disk.blank.entry? "a.wal" = none ∧
      Novel ((oneCreated ++ .visit firstClaim :: failedAndReopened).flatMap Event.records) ∧
      ∃ s, Store.ofLog .blank "a.wal" = .ok s ∧
        let d₁ := Desk.undergoAll ⟨s, .zero⟩ oneCreated
        let d₂ := d₁.undergoAll (.visit firstClaim :: failedAndReopened)
        d₁.Granted ⟨⟨2⟩, ⟨1⟩, some "BK-1", 2, 1⟩ firstClaim ∧ Extends d₁ d₂ ∧
          Lists d₂ ⟨⟨2⟩, ⟨1⟩, some "BK-1", 2, 1⟩ ∧
          (d₂.allocations ⟨1⟩).map (·.map (·.id)) = .ok [⟨2⟩, ⟨4⟩] := by
  have hnovel :
      Novel ((oneCreated ++ .visit firstClaim :: failedAndReopened).flatMap Event.records) :=
    ⟨by decide, by decide⟩
  have hplace : Disk.blank.place = .directory ∅ := rfl
  have habsent : Disk.blank.entry? "a.wal" = none := rfl
  obtain ⟨s, ho, hall⟩ := append_only hplace habsent
  obtain rfl := Except.ok.inj (ofLog_emptyStore.symm.trans ho)
  obtain ⟨hextends, hlists⟩ := hall .zero oneCreated (.visit firstClaim :: failedAndReopened) hnovel
  have hgranted : (Desk.undergoAll ⟨emptyStore, .zero⟩ oneCreated).Granted
      ⟨⟨2⟩, ⟨1⟩, some "BK-1", 2, 1⟩ firstClaim := by
    change (Desk.allocate _ _ _).1 = _
    decide +kernel
  exact ⟨hplace, habsent, hnovel, _, ho, hgranted, hextends, hlists _ _ _ rfl hgranted,
    by decide +kernel⟩

end AppendOnly

end Allotment
