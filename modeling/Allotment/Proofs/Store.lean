/-
**What a store can do.**

Entering a quota and making a conditional write each have three ways to end: a check refuses, the
journal refuses, or the change takes effect.  The theorems of this module say so once, with all that
the store is afterwards, so that no later proof has to open the operations.

A change that a desk makes bears a stamp: whatever is new in the tables afterwards has the stamp's
version or the stamp's identifier.

Main definitions:

* `Allotment.Tables.Stamped` — tables that come from others by a change with a stamp;
* `Allotment.Claim.decideOn`, `Allotment.Revision.decideOn` — what a request leads to when it is
  decided on a reading, however old the reading is.

Main results:

* `Allotment.Claim.decide?_cases`, `Allotment.Revision.decide?_cases` — how a request is decided on
  a reading;
* `Allotment.Store.insert_cases`, `Allotment.Store.commit_cases` — **the three ways to end**;
* `Allotment.Desk.allocateIn_cases`, `Allotment.Desk.reviseIn_cases` — a call is a reading and a
  write with nothing in between;
* `Allotment.Desk.create_sound`, `Allotment.Desk.allocate_sound`, `Allotment.Desk.revise_sound` —
  what a desk does to sound tables.  A request may be decided on a reading of any age, as long as
  the reading is right about the quota whenever it has the quota's present version.
-/

import Allotment.Desk
import Allotment.Proofs.Tables.Sound

set_option relaxedAutoImplicit false
set_option autoImplicit false

namespace Allotment

/-! ### Deciding on a reading -/

/-- What a claim leads to when it is decided on the reading `q`. -/
def Claim.decideOn (c : Claim) (q : Quota) (stamp : Stamp) : Except Refusal Write :=
  match c.check with
  | .error e => .error e
  | .ok () => c.decide? (some q) stamp

/-- What a revision leads to when it is decided on the reading `q`. -/
def Revision.decideOn (r : Revision) (q : Quota) : Except Refusal Write :=
  match r.terms.check with
  | .error e => .error e
  | .ok () => r.decide? (some q)

theorem Claim.check_eq_ok_iff {c : Claim} :
    c.check = .ok () ↔ c.quantity ≠ 0 ∧ brokenReference? c.reference = none := by
  unfold check
  by_cases hz : c.quantity = 0
  · simp [hz]
  · cases href : brokenReference? c.reference <;> simp [hz]

/-- **How a claim is decided on a reading**: its units were left, or they were not. -/
theorem Claim.decide?_cases (c : Claim) (q : Quota) (stamp : Stamp) :
    (c.quantity.toNat ≤ q.terms.bound - q.reserved.toNat ∧
      c.decide? (some q) stamp = .ok (c.write q stamp)) ∨
    (q.terms.bound - q.reserved.toNat < c.quantity.toNat ∧
      c.decide? (some q) stamp =
        .error (.overbooked c.quota c.quantity (q.terms.headroom q.reserved))) := by
  -- no claim is for more units than a count can say
  have hcount := c.quantity.toNat_lt
  have hheadroom := q.terms.toNat_headroom q.reserved
  rw [UInt32.size] at hheadroom
  simp only [decide?, Room.admission]
  by_cases hle : c.quantity ≤ q.terms.headroom q.reserved
  · have hfits := UInt32.le_iff_toNat_le.1 hle
    exact Or.inl ⟨by omega, by rw [if_pos hle]⟩
  · have hexceeds := mt UInt32.le_iff_toNat_le.2 hle
    exact Or.inr ⟨by omega, by rw [if_neg hle]⟩

/-- **How a revision is decided on a reading**: the client has seen another version, or the new
bound is below the units reserved, or neither. -/
theorem Revision.decide?_cases (r : Revision) (q : Quota) :
    (q.version ≠ r.expected ∧
      r.decide? (some q) = .error (.conflict r.quota r.expected q.version)) ∨
    (q.version = r.expected ∧ r.terms.bound < q.reserved.toNat ∧
      r.decide? (some q) = .error (.boundTooLow r.quota q.reserved r.terms.bound)) ∨
    (q.version = r.expected ∧ q.reserved.toNat ≤ r.terms.bound ∧
      r.decide? (some q) = .ok r.write) := by
  by_cases hv : q.version = r.expected
  · by_cases hb : q.reserved.toNat ≤ r.terms.bound
    · exact Or.inr (Or.inr ⟨hv, hb, by simp [decide?, Room.holds, hv, hb]⟩)
    · exact Or.inr (Or.inl ⟨hv, Nat.lt_of_not_le hb, by simp [decide?, Room.holds, hv, hb]⟩)
  · exact Or.inl ⟨hv, by simp [decide?, hv]⟩

/-- A claim that leads to a write keeps the limit of its reference and fits under the bound that was
read. -/
theorem Claim.decideOn_eq_ok {c : Claim} {q : Quota} {stamp : Stamp} {w : Write}
    (h : c.decideOn q stamp = .ok w) :
    w = c.write q stamp ∧ brokenReference? c.reference = none ∧ c.quantity ≠ 0 ∧
      c.quantity.toNat ≤ q.terms.bound - q.reserved.toNat := by
  unfold decideOn at h
  cases hc : c.check with
  | error e => simp [hc] at h
  | ok u =>
      obtain ⟨hpositive, href⟩ := check_eq_ok_iff.1 hc
      rcases c.decide?_cases q stamp with ⟨hfits, hd⟩ | ⟨_, hd⟩
      · simp only [hc, hd] at h
        exact ⟨(Except.ok.inj h).symm, href, hpositive, hfits⟩
      · simp [hc, hd] at h

/-- A revision that leads to a write keeps the limits, expects the version that was read, and sets a
bound that covers the units that were read as reserved. -/
theorem Revision.decideOn_eq_ok {r : Revision} {q : Quota} {w : Write}
    (h : r.decideOn q = .ok w) :
    w = r.write ∧ r.terms.brokenLimit? = none ∧ q.version = r.expected ∧
      q.reserved.toNat ≤ r.terms.bound := by
  unfold decideOn Terms.check at h
  cases hl : r.terms.brokenLimit? with
  | some limit => simp [hl] at h
  | none =>
      rcases r.decide?_cases q with ⟨_, hd⟩ | ⟨_, _, hd⟩ | ⟨hv, hb, hd⟩
      · simp [hl, hd] at h
      · simp [hl, hd] at h
      · simp only [hl, hd] at h
        exact ⟨(Except.ok.inj h).symm, rfl, hv, hb⟩

/-! ### The three ways to end -/

namespace Store

variable {ι : Type} [Journal ι]

/-- **How entering a quota can end.** -/
theorem insert_cases (s : Store ι) (id : Ulid) (terms : Terms) (version : Version) :
    (∃ e, s.checkInsert id = .error e ∧ s.insert id terms version = (.error e, s)) ∨
    (∃ e j, s.checkInsert id = .ok () ∧
      Journal.append s.journal [.created id terms version] = (.error e, j) ∧
      s.insert id terms version = (.error (.notLogged e.text), { s with journal := j })) ∨
    (∃ j, s.checkInsert id = .ok () ∧
      Journal.append s.journal [.created id terms version] = (.ok (), j) ∧
      s.insert id terms version =
        (.ok { Standing.opening terms version with id },
          { s with journal := j, tables := s.tables.install id terms version })) := by
  unfold Store.insert Store.log
  cases hc : s.checkInsert id with
  | error e => exact Or.inl ⟨e, rfl, rfl⟩
  | ok u =>
      cases ha : Journal.append s.journal [.created id terms version] with
      | mk result j =>
          cases result with
          | error e => exact Or.inr (Or.inl ⟨e, j, rfl, rfl, rfl⟩)
          | ok u => exact Or.inr (Or.inr ⟨j, rfl, rfl, rfl⟩)

/-- **How a conditional write can end.** -/
theorem commit_cases (s : Store ι) (w : Write) (version : Version) :
    (∃ e, s.checkWrite w = .error e ∧ s.commit w version = (.error e, s)) ∨
    (∃ q e j, s.checkWrite w = .ok q ∧
      Journal.append s.journal [w.record version] = (.error e, j) ∧
      s.commit w version = (.error (.notLogged e.text), { s with journal := j })) ∨
    (∃ q j, s.checkWrite w = .ok q ∧
      Journal.append s.journal [w.record version] = (.ok (), j) ∧
      s.commit w version =
        (.ok { q.after (w.record version) with id := w.quota },
          { s with
            journal := j
            tables := s.tables.commit w.quota q (w.record version) })) := by
  unfold Store.commit Store.log
  cases hc : s.checkWrite w with
  | error e => exact Or.inl ⟨e, rfl, rfl⟩
  | ok q =>
      cases ha : Journal.append s.journal [w.record version] with
      | mk result j =>
          simp only [ha]
          cases result with
          | error e => exact Or.inr (Or.inl ⟨q, e, j, rfl, rfl, rfl⟩)
          | ok u => exact Or.inr (Or.inr ⟨q, j, rfl, rfl, rfl⟩)

omit [Journal ι]

/-- A quota can be entered only if it does not exist. -/
theorem not_mem_of_checkInsert {s : Store ι} {id : Ulid} (h : s.checkInsert id = .ok ()) :
    id ∉ s.tables.standings := by
  intro hm
  simp [checkInsert, hm] at h

/-- A write is in time only if its quota exists and has the version expected. -/
theorem checkWrite_eq_ok_iff {s : Store ι} {w : Write} {q : Standing} :
    s.checkWrite w = .ok q ↔ s.tables.standings[w.quota]? = some q ∧ q.version = w.expected := by
  unfold checkWrite
  cases hq : s.tables.standings[w.quota]? with
  | none => simp
  | some q' =>
      by_cases hv : q'.version = w.expected
      · simp only [hv, if_true, Except.ok.injEq, Option.some.injEq]
        exact ⟨fun h => ⟨h, h ▸ hv⟩, fun h => h.1⟩
      · simp only [hv, if_false, Option.some.injEq]
        constructor
        · intro h
          cases h
        · rintro ⟨rfl, h⟩
          exact absurd h hv

/-- A write that is not in time is on a quota that does not exist or has another version. -/
theorem eq_of_checkWrite_eq_error {s : Store ι} {w : Write} {e : Failure}
    (h : s.checkWrite w = .error e) :
    (s.tables.standings[w.quota]? = none ∧ e = .unknownQuota w.quota) ∨
      ∃ st, s.tables.standings[w.quota]? = some st ∧ st.version ≠ w.expected ∧
        e = .versionMismatch w.quota w.expected st.version := by
  unfold checkWrite at h
  cases hst : s.tables.standings[w.quota]? with
  | none =>
      simp only [hst, Except.error.injEq] at h
      exact Or.inl ⟨rfl, h.symm⟩
  | some st =>
      by_cases hv : st.version = w.expected
      · simp [hst, hv] at h
      · simp only [hst, hv, if_false, Except.error.injEq] at h
        exact Or.inr ⟨st, rfl, hv, h.symm⟩

variable [Journal ι]

/-- Without a rival a reading changes nothing. -/
theorem load_of_no_rival {s : Store ι} (h : s.rival = none) (id : Ulid) :
    s.load id = (s.tables.quota? id, s) := by
  unfold load
  rw [h]
  cases s.tables.quota? id <;> rfl

end Store

/-- What a reading says about a quota. -/
theorem Tables.quota?_eq_some_iff {t : Tables} {id : Ulid} {q : Quota} :
    t.quota? id = some q ↔ t.standings[id]? = some q.toStanding ∧ q.id = id := by
  unfold Tables.quota?
  rw [Option.map_eq_some_iff]
  constructor
  · rintro ⟨s, hs, rfl⟩
    exact ⟨hs, rfl⟩
  · rintro ⟨hs, rfl⟩
    exact ⟨q.toStanding, hs, rfl⟩

/-! ### A call is a reading and a write -/

namespace Desk

variable {ι : Type} [Journal ι]

/-- Granting a claim is deciding on a reading and carrying out the decision, unless there is nothing
to read. -/
theorem allocateIn_cases {s : Store ι} (hr : s.rival = none) (c : Claim) (stamp : Stamp) :
    (allocateIn s c stamp).2 = s ∨
      ∃ q, s.tables.quota? c.quota = some q ∧
        (allocateIn s c stamp).2 = (carryOut s (c.decideOn q stamp) stamp.version).2 := by
  unfold allocateIn prepare Claim.decideOn
  cases c.check with
  | error e => exact Or.inl rfl
  | ok u =>
      simp only [Store.load_of_no_rival hr]
      cases hq : s.tables.quota? c.quota with
      | none => exact Or.inl rfl
      | some q =>
          refine Or.inr ⟨q, rfl, ?_⟩
          rcases carryOut s (c.decide? (some q) stamp) stamp.version with ⟨e | a, s'⟩ <;> rfl

/-- Changing terms is deciding on a reading and carrying out the decision, unless there is nothing
to read. -/
theorem reviseIn_cases {s : Store ι} (hr : s.rival = none) (r : Revision) (stamp : Stamp) :
    (reviseIn s r stamp).2 = s ∨
      ∃ q, s.tables.quota? r.quota = some q ∧
        (reviseIn s r stamp).2 = (carryOut s (r.decideOn q) stamp.version).2 := by
  unfold reviseIn Revision.decideOn
  cases r.terms.check with
  | error e => exact Or.inl rfl
  | ok u =>
      simp only [Store.load_of_no_rival hr]
      cases hq : s.tables.quota? r.quota with
      | none => exact Or.inl rfl
      | some q => exact Or.inr ⟨q, rfl, rfl⟩

/-- Without a rival showing a quota changes nothing. -/
theorem view_of_no_rival {d : Desk ι} (h : d.store.rival = none) (quota : Ulid) :
    d.view quota =
      (match d.store.tables.quota? quota with
        | none => .error (.unknownQuota quota)
        | some q => .ok q.view, d) := by
  simp only [view, Store.load_of_no_rival h]
  cases d.store.tables.quota? quota <;> rfl

/-- Without a rival a listing shows all quotas and changes nothing. -/
theorem list_of_no_rival {d : Desk ι} (h : d.store.rival = none) (f : Filter) :
    d.list f = (listing f d.store.tables.quotas, d) := by
  have hall : ∀ ids : List Ulid,
      d.store.loadAll ids = (ids.filterMap d.store.tables.quota?, d.store) := by
    intro ids
    induction ids with
    | nil => rfl
    | cons id ids ih =>
        simp only [Store.loadAll, Store.load_of_no_rival h, ih, List.filterMap_cons]
        cases d.store.tables.quota? id <;> rfl
  simp only [Desk.list, hall]
  rfl

end Desk

/-! ### Changes with a stamp -/

namespace Tables

/-- **The tables `t'` come from `t` by a change with the stamp `x`**: what is new in them has the
stamp's version or the stamp's identifier. -/
structure Stamped (t t' : Tables) (x : Stamp) : Prop where
  /-- A quota that changed has the version of the stamp. -/
  standings : ∀ (id : Ulid) (s : Standing), t'.standings[id]? = some s →
    t.standings[id]? = some s ∨ s.version = x.version
  /-- An allocation that was entered has the identifier of the stamp. -/
  ledger : ∀ i a, t'.ledger.find? i = some a → t.ledger.find? i = some a ∨ i = x.id

namespace Stamped

theorem refl (t : Tables) (x : Stamp) : Stamped t t x :=
  ⟨fun _ _ h => Or.inl h, fun _ _ h => Or.inl h⟩

theorem install (t : Tables) (id : Ulid) (terms : Terms) (x : Stamp) :
    Stamped t (t.install id terms x.version) x where
  standings y s h := by
    rw [standings_install] at h
    split at h
    · cases h
      exact Or.inr rfl
    · exact Or.inl h
  ledger i a h := Or.inl h

/-- A write whose record bears the stamp makes a change with the stamp. -/
theorem commit (t : Tables) (id : Ulid) (s : Standing) {w : Write} {x : Stamp}
    (hid : ∀ a, w.change = .allocate a → a.id = x.id) :
    Stamped t (t.commit id s (w.record x.version)) x := by
  obtain ⟨quota, expected, change⟩ := w
  cases change with
  | revise terms =>
      refine ⟨?_, fun i a h => Or.inl h⟩
      intro y s' h
      rw [standings_commit] at h
      split at h
      · cases h
        exact Or.inr rfl
      · exact Or.inl h
  | allocate a =>
      refine ⟨?_, ?_⟩
      · intro y s' h
        rw [standings_commit] at h
        split at h
        · cases h
          exact Or.inr rfl
        · exact Or.inl h
      · intro i b h
        simp only [Write.record, ledger_commit_allocated, Ledger.find?_record] at h
        split at h
        · next heq => exact Or.inr (heq.symm.trans (hid a rfl))
        · exact Or.inl h

end Stamped

end Tables

/-! ### What a desk does to sound tables -/

namespace Desk

variable {ι : Type} [Journal ι]

open Tables (Sound Stamped)

/-- Creating a quota keeps tables sound. -/
theorem create_sound {d : Desk ι} (h : Sound d.store.tables) (terms : Terms) (stamp : Stamp) :
    Sound (d.create terms stamp).2.store.tables ∧
      Stamped d.store.tables (d.create terms stamp).2.store.tables stamp ∧
      (d.create terms stamp).2.store.rival = d.store.rival := by
  have hsame := Stamped.refl d.store.tables stamp
  unfold Desk.create Terms.check
  cases hl : terms.brokenLimit? with
  | some limit => exact ⟨h, hsame, rfl⟩
  | none =>
      simp only
      rcases d.store.insert_cases stamp.id terms stamp.version with
        ⟨e, _, he⟩ | ⟨e, j, _, _, he⟩ | ⟨j, hc, _, he⟩
      · rw [he]
        exact ⟨h, hsame, rfl⟩
      · rw [he]
        exact ⟨h, hsame, rfl⟩
      · rw [he]
        exact ⟨h.install (Store.not_mem_of_checkInsert hc) hl stamp.version,
          Stamped.install _ _ _ _, rfl⟩

omit [Journal ι] in
/-- A log that is not due is left alone. -/
theorem compactIfDue_cases (d : Desk LogFile) (threshold : Nat) :
    d.compactIfDue threshold = (.ok false, d) ∨
      d.compactIfDue threshold = (d.compact.1.map fun _ => true, d.compact.2) := by
  unfold compactIfDue
  split
  · rcases d.compact with ⟨_ | _, d'⟩
    · exact Or.inr rfl
    · exact Or.inr rfl
  · exact Or.inl rfl

omit [Journal ι] in
/-- **What holds of a desk and of the desk that has compacted its log** holds when the log was
compacted in case it was due. -/
theorem compactIfDue_induction (motive : Desk LogFile → Prop) {d : Desk LogFile} (h : motive d)
    (hcompact : motive d.compact.2) (threshold : Nat) : motive (d.compactIfDue threshold).2 := by
  rcases d.compactIfDue_cases threshold with he | he
  · rw [he]
    exact h
  · rw [he]
    exact hcompact

omit [Journal ι] in
/-- A desk that compacts its log compacts that of its store. -/
theorem store_compact (d : Desk LogFile) : d.compact.2.store = d.store.compact.2 := by
  unfold compact
  rcases d.store.compact with ⟨_ | _, s⟩
  · rfl
  · rfl

omit [Journal ι] in
/-- A log that was due and was compacted is that of the store. -/
theorem compact_of_compactIfDue {d d' : Desk LogFile} {threshold : Nat}
    (h : d.compactIfDue threshold = (.ok true, d')) : d.store.compact = (.ok (), d'.store) := by
  rcases d.compactIfDue_cases threshold with he | he
  · rw [he] at h
    cases h
  · rw [he] at h
    unfold compact at h
    rcases hs : d.store.compact with ⟨e | u, s⟩
    · rw [hs] at h
      cases h
    · rw [hs] at h
      rw [← (Prod.mk.inj h).2]

/-- Carrying out a write ends as the write does. -/
theorem carryOut_ok_cases (s : Store ι) (w : Write) (version : Version) :
    (∃ e, (s.commit w version).1 = .error e ∧
      carryOut s (.ok w) version = (.error (.ofFailure e), (s.commit w version).2)) ∨
    (∃ q, (s.commit w version).1 = .ok q ∧
      carryOut s (.ok w) version = (.ok q, (s.commit w version).2)) := by
  unfold carryOut
  simp only
  rcases s.commit w version with ⟨e | q, s'⟩
  · exact Or.inl ⟨e, rfl, rfl⟩
  · exact Or.inr ⟨q, rfl, rfl⟩

/-- Creating a quota ends as entering it does, if its terms keep the limits. -/
theorem create_cases (d : Desk ι) (terms : Terms) (stamp : Stamp) :
    (∃ e, d.create terms stamp = (.error e, d)) ∨
    (∃ e, (d.store.insert stamp.id terms stamp.version).1 = .error e ∧
      d.create terms stamp = (.error (.ofFailure e),
        { d with store := (d.store.insert stamp.id terms stamp.version).2 })) ∨
    (∃ q, (d.store.insert stamp.id terms stamp.version).1 = .ok q ∧
      d.create terms stamp = (.ok q,
        { d with store := (d.store.insert stamp.id terms stamp.version).2 })) := by
  unfold create
  cases terms.check with
  | error e => exact Or.inl ⟨e, rfl⟩
  | ok u =>
      simp only
      rcases d.store.insert stamp.id terms stamp.version with ⟨e | q, s'⟩
      · exact Or.inr (Or.inl ⟨e, rfl, rfl⟩)
      · exact Or.inr (Or.inr ⟨q, rfl, rfl⟩)

/-- Carrying out a write leaves the store as the write does. -/
theorem carryOut_ok_snd (s : Store ι) (w : Write) (version : Version) :
    (carryOut s (.ok w) version).2 = (s.commit w version).2 := by
  rcases carryOut_ok_cases s w version with ⟨e, _, he⟩ | ⟨q, _, he⟩
  · rw [he]
  · rw [he]

/-- Carrying out a decision changes the tables by its write or not at all. -/
theorem carryOut_cases (s : Store ι) (decision : Except Refusal Write) (version : Version) :
    ((carryOut s decision version).2.tables = s.tables ∨
      ∃ w q, decision = .ok w ∧ s.checkWrite w = .ok q ∧
        (carryOut s decision version).2.tables =
          s.tables.commit w.quota q (w.record version)) ∧
      (carryOut s decision version).2.rival = s.rival := by
  cases decision with
  | error e => exact ⟨Or.inl rfl, rfl⟩
  | ok w =>
      rw [carryOut_ok_snd]
      rcases s.commit_cases w version with ⟨e, _, he⟩ | ⟨q, e, j, _, _, he⟩ | ⟨q, j, hc, _, he⟩
      · rw [he]
        exact ⟨Or.inl rfl, rfl⟩
      · rw [he]
        exact ⟨Or.inl rfl, rfl⟩
      · rw [he]
        exact ⟨Or.inr ⟨w, q, rfl, hc, rfl⟩, rfl⟩

omit [Journal ι] in
/-- The quota of a write that is in time stands as it was read. -/
theorem eq_reading_of_checkWrite {s : Store ι} {q : Quota} {w : Write} {st : Standing}
    (current : ∀ st, s.tables.standings[q.id]? = some st → st.version = q.version →
      st = q.toStanding)
    (hquota : w.quota = q.id) (hexpected : w.expected = q.version) (hc : s.checkWrite w = .ok st) :
    st = q.toStanding ∧ s.tables.standings[q.id]? = some st := by
  obtain ⟨hs, hv⟩ := Store.checkWrite_eq_ok_iff.1 hc
  rw [hquota] at hs
  exact ⟨current st hs (hv.trans hexpected), hs⟩

omit [Journal ι] in
/-- The units of a claim that was decided on a reading fit on top of those reserved when its write
is in time. -/
theorem reserved_add_le {s : Store ι} (h : Sound s.tables) {c : Claim} {q : Quota} {stamp : Stamp}
    {w : Write} {st : Standing} (hquota : c.quota = q.id)
    (current : ∀ st, s.tables.standings[q.id]? = some st → st.version = q.version →
      st = q.toStanding)
    (hd : c.decideOn q stamp = .ok w) (hc : s.checkWrite w = .ok st) :
    st.reserved.toNat + c.quantity.toNat ≤ st.terms.bound := by
  obtain ⟨rfl, _, _, hfit⟩ := Claim.decideOn_eq_ok hd
  obtain ⟨rfl, hs⟩ := eq_reading_of_checkWrite current hquota rfl hc
  have := h.within q.id q.toStanding hs
  omega

/-- Granting a claim that was decided on a reading keeps tables sound. -/
theorem allocate_sound {s : Store ι} (h : Sound s.tables) {c : Claim} {q : Quota} {stamp : Stamp}
    (hquota : c.quota = q.id)
    (current : ∀ st, s.tables.standings[q.id]? = some st → st.version = q.version →
      st = q.toStanding)
    (new : s.tables.ledger.find? stamp.id = none) :
    Sound (carryOut s (c.decideOn q stamp) stamp.version).2.tables ∧
      Stamped s.tables (carryOut s (c.decideOn q stamp) stamp.version).2.tables stamp := by
  rcases (carryOut_cases s (c.decideOn q stamp) stamp.version).1 with he | ⟨w, st, hd, hc, he⟩
  · rw [he]
    exact ⟨h, Stamped.refl _ _⟩
  · have hfit := reserved_add_le h hquota current hd hc
    obtain ⟨rfl, href, _, _⟩ := Claim.decideOn_eq_ok hd
    obtain ⟨_, hs⟩ := eq_reading_of_checkWrite current hquota rfl hc
    rw [← hquota] at hs
    rw [he]
    refine ⟨?_, Stamped.commit _ _ _ fun a ha => by cases ha; rfl⟩
    exact Sound.allocate h (a := c.allocation stamp) hs new hfit href stamp.version

/-- Replacing terms by a revision that was decided on a reading keeps tables sound. -/
theorem revise_sound {s : Store ι} (h : Sound s.tables) {r : Revision} {q : Quota} (stamp : Stamp)
    (hquota : r.quota = q.id)
    (current : ∀ st, s.tables.standings[q.id]? = some st → st.version = q.version →
      st = q.toStanding) :
    Sound (carryOut s (r.decideOn q) stamp.version).2.tables ∧
      Stamped s.tables (carryOut s (r.decideOn q) stamp.version).2.tables stamp := by
  rcases (carryOut_cases s (r.decideOn q) stamp.version).1 with he | ⟨w, st, hd, hc, he⟩
  · rw [he]
    exact ⟨h, Stamped.refl _ _⟩
  · obtain ⟨rfl, hl, hv, hb⟩ := Revision.decideOn_eq_ok hd
    obtain ⟨rfl, hs⟩ := eq_reading_of_checkWrite current hquota hv.symm hc
    rw [← hquota] at hs
    rw [he]
    refine ⟨?_, Stamped.commit _ _ _ fun a ha => by cases ha⟩
    exact h.revise hs hl hb stamp.version

end Desk

end Allotment
