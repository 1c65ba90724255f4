/-
**Which answer comes first.**

A claim can fail in five ways and a revision in five, and often more than one of them would apply.
Which one a client is told of is decided in a fixed order: what can be seen from the request alone
comes before the quota is looked up, the quota before its version, the version before its units, and
the journal comes last.  The rules below say this without any reference to how a desk goes about it:
one rule for each way to end, with all that holds when a call ends in this way and all that the
store is afterwards.  Some rule always applies, and the rule that applies says what the desk does.
So every answer is given exactly when its rule applies.

The numbers of the limits are written out here, and sums of units are sums of natural numbers.

Main definitions:

* `Allotment.Claim.TooLong`, `Allotment.Terms.Breaks` — what breaks a limit;
* `Allotment.Claim.Ends`, `Allotment.Revision.Ends` — the rules;
* `Allotment.Tables.Gains`, `Allotment.Tables.Replaces` — tables with one more allocation, and
  tables with other terms for one quota;
* `Allotment.Claim.Settles`, `Allotment.Revision.Settles` — when each answer is given, and what it
  leaves.

Main results:

* `Allotment.Claim.ends`, `Allotment.Revision.ends` — **some rule always applies**;
* `Allotment.Claim.Ends.eq`, `Allotment.Revision.Ends.eq` — **the desk does what the rule says**;
* `Allotment.Precedence.claim_run`, `Allotment.Precedence.revision_run` — **the answer to a claim
  and to a revision in every run**, at a desk without a log and at one with.  -/

import Allotment.Proofs.Fingerprint
import Allotment.Proofs.LostRace
import Allotment.Proofs.Mishaps

set_option relaxedAutoImplicit false
set_option autoImplicit false

namespace Allotment

variable {ι : Type} [Journal ι]

/-! ### What can be seen from a request alone -/

/-- The reference of a claim has more than 128 bytes. -/
def Claim.TooLong (c : Claim) : Prop := ∃ r, c.reference = some r ∧ 128 < r.utf8ByteSize

/-- **A claim in proper form**: it is for some units, and its reference is not too long. -/
structure Claim.Proper (c : Claim) : Prop where
  /-- It is for some units. -/
  positive : c.quantity ≠ 0
  /-- Its reference is not too long. -/
  short : ¬ c.TooLong

theorem Claim.any_iff_tooLong (c : Claim) :
    c.reference.any (fun r => r.utf8ByteSize > Limit.referenceBytes) = true ↔ c.TooLong := by
  simp [TooLong, Option.any_eq_true, Limit.referenceBytes]

instance (c : Claim) : Decidable c.TooLong := decidable_of_iff _ c.any_iff_tooLong

/-- The length of a reference is checked against the limit. -/
theorem Claim.brokenReference?_eq (c : Claim) :
    brokenReference? c.reference = if c.TooLong then some .reference else none :=
  if_congr c.any_iff_tooLong rfl rfl

theorem Claim.check_of_zero {c : Claim} (h : c.quantity = 0) :
    c.check = .error .zeroQuantity := by
  rw [check, if_pos h]

theorem Claim.check_of_tooLong {c : Claim} (h : c.quantity ≠ 0) (hlong : c.TooLong) :
    c.check = .error (.overLimit .reference) := by
  rw [check, if_neg h, c.brokenReference?_eq, if_pos hlong]

theorem Claim.Proper.check {c : Claim} (h : c.Proper) : c.check = .ok () := by
  rw [Claim.check, if_neg h.positive, c.brokenReference?_eq, if_neg h.short]

/-- **What it means for terms to break a limit.** -/
def Terms.Breaks (t : Terms) : Limit → Prop
  | .name => 256 < t.name.utf8ByteSize
  | .productType => 64 < t.productType.utf8ByteSize
  | .capacity => 1000000 < t.capacity.toNat
  | .overbooking => 1000000 < t.overbooking.toNat
  | .reference | .quotas => False

instance (t : Terms) : DecidablePred t.Breaks
  | .name => inferInstanceAs (Decidable (256 < _))
  | .productType => inferInstanceAs (Decidable (64 < _))
  | .capacity => inferInstanceAs (Decidable (1000000 < _))
  | .overbooking => inferInstanceAs (Decidable (1000000 < _))
  | .reference => inferInstanceAs (Decidable False)
  | .quotas => inferInstanceAs (Decidable False)

/-- The first limit that terms break: name, product type, capacity, overbooking limit. -/
def Terms.firstBroken? (t : Terms) : Option Limit :=
  [Limit.name, .productType, .capacity, .overbooking].find? (t.Breaks ·)

/-- The limits are checked in this order. -/
theorem Terms.brokenLimit?_eq (t : Terms) : t.brokenLimit? = t.firstBroken? := by
  have hcapacity : t.capacity > Limit.units ↔ 1000000 < t.capacity.toNat := UInt32.lt_iff_toNat_lt
  have hoverbooking : t.overbooking > Limit.units ↔ 1000000 < t.overbooking.toNat :=
    UInt32.lt_iff_toNat_lt
  simp only [brokenLimit?, firstBroken?, List.find?, Breaks, Limit.nameBytes,
    Limit.productTypeBytes, hcapacity, hoverbooking]
  by_cases hn : 256 < t.name.utf8ByteSize
  · simp [hn]
  by_cases hp : 64 < t.productType.utf8ByteSize
  · simp [hn, hp]
  by_cases hc : 1000000 < t.capacity.toNat
  · simp [hn, hp, hc]
  by_cases ho : 1000000 < t.overbooking.toNat
  · simp [hn, hp, hc, ho]
  · simp [hn, hp, hc, ho]

theorem Terms.check_of_firstBroken? {t : Terms} {l : Limit} (h : t.firstBroken? = some l) :
    t.check = .error (.overLimit l) := by
  rw [check, t.brokenLimit?_eq, h]

/-- Terms in proper form break no limit. -/
def Terms.Proper (t : Terms) : Prop := ∀ l, ¬ t.Breaks l

theorem Terms.firstBroken?_eq_none_iff {t : Terms} : t.firstBroken? = none ↔ t.Proper := by
  rw [firstBroken?, List.find?_eq_none]
  constructor
  · intro h l
    cases l with
    | name => simpa using h .name (by simp)
    | productType => simpa using h .productType (by simp)
    | capacity => simpa using h .capacity (by simp)
    | overbooking => simpa using h .overbooking (by simp)
    | reference => exact id
    | quotas => exact id
  · intro h l _
    simpa using h l

instance (t : Terms) : Decidable t.Proper := decidable_of_iff _ Terms.firstBroken?_eq_none_iff

theorem Terms.Proper.check {t : Terms} (h : t.Proper) : t.check = .ok () := by
  rw [Terms.check, t.brokenLimit?_eq, firstBroken?_eq_none_iff.2 h]

/-! ### Deciding on what was read -/

/-- A claim for some units fits if the sum keeps the bound. -/
theorem Claim.decide?_of_le {c : Claim} {q : Quota} (stamp : Stamp)
    (hfits : q.reserved.toNat + c.quantity.toNat ≤ q.terms.bound) :
    c.decide? (some q) stamp = .ok (c.write q stamp) := by
  rcases c.decide?_cases q stamp with ⟨_, hd⟩ | ⟨hlt, _⟩
  · exact hd
  · omega

/-- A claim for some units is too large if the sum passes the bound. -/
theorem Claim.decide?_of_lt {c : Claim} {q : Quota} (stamp : Stamp) (hpositive : c.quantity ≠ 0)
    (hover : q.terms.bound < q.reserved.toNat + c.quantity.toNat) :
    c.decide? (some q) stamp =
      .error (.overbooked c.quota c.quantity (q.terms.headroom q.reserved)) := by
  have hsome : c.quantity.toNat ≠ 0 := fun h => hpositive (UInt32.toNat_inj.1 h)
  rcases c.decide?_cases q stamp with ⟨hle, _⟩ | ⟨_, hd⟩
  · omega
  · exact hd

/-- What is read of a quota that stands as `st`. -/
theorem Store.load_of_stands {s : Store ι} (alone : s.rival = none) {quota : Ulid} {st : Standing}
    (hstands : s.tables.standings[quota]? = some st) :
    s.load quota = (some { st with id := quota }, s) := by
  rw [Store.load_of_no_rival alone, Tables.quota?, hstands]
  rfl

/-- Nothing is read of a quota that does not exist. -/
theorem Store.load_of_missing {s : Store ι} (alone : s.rival = none) {quota : Ulid}
    (hnone : s.tables.standings[quota]? = none) : s.load quota = (none, s) := by
  rw [Store.load_of_no_rival alone, Tables.quota?, hnone]
  rfl

namespace Desk

variable {s : Store ι} {w : Write} {st : Standing}

/-- **A write at the present version of its quota fares as its record does**, and leaves the store
accordingly. -/
theorem carryOut_of_current (hstands : s.tables.standings[w.quota]? = some st)
    (hv : st.version = w.expected) (version : Version) {outcome : Except Fault Unit} {j : ι}
    (ha : Journal.append s.journal [w.record version] = (outcome, j)) :
    carryOut s (.ok w) version =
      match outcome with
      | .error e => (.error (.notStored e.text), { s with journal := j })
      | .ok () => (.ok { st.after (w.record version) with id := w.quota },
          { s with journal := j, tables := s.tables.commit w.quota st (w.record version) }) := by
  have hc : s.checkWrite w = .ok st := Store.checkWrite_eq_ok_iff.2 ⟨hstands, hv⟩
  simp only [carryOut, Store.commit, hc, Store.log, ha]
  cases outcome with
  | error e => rfl
  | ok u => rfl

end Desk

/-! ### The rules for claims -/

namespace Claim

/-- The record of a claim that is granted. -/
def record (c : Claim) (stamp : Stamp) : Record := .allocated (c.allocation stamp) stamp.version

/-- **A claim that nothing speaks against**: it is in proper form, and its quota, which stands as
`st`, has room for it. -/
structure Admitted (c : Claim) (t : Tables) (st : Standing) : Prop where
  /-- It is in proper form. -/
  proper : c.Proper
  /-- Its quota exists. -/
  stands : t.standings[c.quota]? = some st
  /-- There is room. -/
  fits : st.reserved.toNat + c.quantity.toNat ≤ st.terms.bound

/-- **How a claim can end**, and the store afterwards. -/
inductive Ends (s : Store ι) (c : Claim) (stamp : Stamp) :
    Except Refusal Allocation → Store ι → Prop where
  /-- It is for no units. -/
  | zero (hzero : c.quantity = 0) : Ends s c stamp (.error .zeroQuantity) s
  /-- Its reference is too long. -/
  | tooLong (hpositive : c.quantity ≠ 0) (hlong : c.TooLong) :
    Ends s c stamp (.error (.overLimit .reference)) s
  /-- There is no such quota. -/
  | unknown (hproper : c.Proper) (hnone : s.tables.standings[c.quota]? = none) :
    Ends s c stamp (.error (.unknownQuota c.quota)) s
  /-- The sum of units would pass the bound. -/
  | overbooked {st : Standing} (hproper : c.Proper)
    (hstands : s.tables.standings[c.quota]? = some st)
    (hover : st.terms.bound < st.reserved.toNat + c.quantity.toNat) :
    Ends s c stamp (.error (.overbooked c.quota c.quantity (st.terms.headroom st.reserved))) s
  /-- The journal refuses the record. -/
  | notStored {st : Standing} {e : Fault} {j : ι} (hadmitted : c.Admitted s.tables st)
    (happend : Journal.append s.journal [c.record stamp] = (.error e, j)) :
    Ends s c stamp (.error (.notStored e.text)) { s with journal := j }
  /-- The journal takes the record. -/
  | granted {st : Standing} {j : ι} (hadmitted : c.Admitted s.tables st)
    (happend : Journal.append s.journal [c.record stamp] = (.ok (), j)) :
    Ends s c stamp (.ok (c.allocation stamp))
      { s with journal := j, tables := s.tables.commit c.quota st (c.record stamp) }

/-- **Some rule always applies to a claim.** -/
theorem ends (s : Store ι) (c : Claim) (stamp : Stamp) : ∃ result s', Ends s c stamp result s' := by
  by_cases hzero : c.quantity = 0
  · exact ⟨_, _, .zero hzero⟩
  by_cases hlong : c.TooLong
  · exact ⟨_, _, .tooLong hzero hlong⟩
  have hproper : c.Proper := ⟨hzero, hlong⟩
  cases hstands : s.tables.standings[c.quota]? with
  | none => exact ⟨_, _, .unknown hproper hstands⟩
  | some st =>
      rcases Nat.lt_or_ge st.terms.bound (st.reserved.toNat + c.quantity.toNat) with hover | hfits
      · exact ⟨_, _, .overbooked hproper hstands hover⟩
      · rcases ha : Journal.append s.journal [c.record stamp] with ⟨e | u, j⟩
        · exact ⟨_, _, .notStored ⟨hproper, hstands, hfits⟩ ha⟩
        · exact ⟨_, _, .granted ⟨hproper, hstands, hfits⟩ ha⟩

variable {s s' : Store ι} {c : Claim} {stamp : Stamp} {result : Except Refusal Allocation}

/-- **A desk does with a claim what the rule says.** -/
theorem Ends.eq (h : Ends s c stamp result s') (alone : s.rival = none) :
    Desk.allocateIn s c stamp = (result, s') := by
  cases h with
  | zero hzero => simp only [Desk.allocateIn, Desk.prepare, check_of_zero hzero, Desk.carryOut]
  | tooLong hpositive hlong =>
      simp only [Desk.allocateIn, Desk.prepare, check_of_tooLong hpositive hlong, Desk.carryOut]
  | unknown hproper hnone =>
      simp only [Desk.allocateIn, Desk.prepare, hproper.check, Store.load_of_missing alone hnone,
        decide?, Desk.carryOut]
  | overbooked hproper hstands hover =>
      rw [Desk.allocateIn_of_load hproper.check (Store.load_of_stands alone hstands),
        decide?_of_lt stamp hproper.positive hover]
      rfl
  | @notStored st e j hadmitted happend =>
      rw [Desk.allocateIn_of_load hadmitted.proper.check
          (Store.load_of_stands alone hadmitted.stands), decide?_of_le stamp hadmitted.fits,
        Desk.carryOut_of_current (w := c.write { st with id := c.quota } stamp) hadmitted.stands rfl
          stamp.version happend]
      rfl
  | @granted st j hadmitted happend =>
      rw [Desk.allocateIn_of_load hadmitted.proper.check
          (Store.load_of_stands alone hadmitted.stands), decide?_of_le stamp hadmitted.fits,
        Desk.carryOut_of_current (w := c.write { st with id := c.quota } stamp) hadmitted.stands rfl
          stamp.version happend]
      rfl

/-- **A desk answers what the rule says that applies.** -/
theorem allocate_eq_iff {d : Desk ι} (alone : d.store.rival = none) :
    ((d.allocate c stamp).1 = result ∧ (d.allocate c stamp).2.store = s') ↔
      Ends d.store c stamp result s' := by
  constructor
  · rintro ⟨rfl, rfl⟩
    obtain ⟨result, s', h⟩ := ends d.store c stamp
    simp only [Desk.allocate, h.eq alone]
    exact h
  · intro h
    simp only [Desk.allocate, h.eq alone, and_self]

/-- The same without what is left. -/
theorem fst_allocate_eq_iff {d : Desk ι} (alone : d.store.rival = none) :
    (d.allocate c stamp).1 = result ↔ ∃ s', Ends d.store c stamp result s' := by
  simp only [← allocate_eq_iff alone, exists_and_left, exists_eq', and_true]

end Claim

/-! ### The rules for revisions -/

namespace Revision

/-- The record of a revision that is made. -/
def record (r : Revision) (stamp : Stamp) : Record := .revised r.quota r.terms stamp.version

/-- **A revision that nothing speaks against**: its terms are in proper form, it was made for the
present version of its quota, which stands as `st`, and its bound covers the units reserved. -/
structure Admitted (r : Revision) (t : Tables) (st : Standing) : Prop where
  /-- Its terms are in proper form. -/
  proper : r.terms.Proper
  /-- Its quota exists. -/
  stands : t.standings[r.quota]? = some st
  /-- It was made for the present version. -/
  current : st.version = r.expected
  /-- Its bound covers the units reserved. -/
  covers : st.reserved.toNat ≤ r.terms.bound

/-- **How a revision can end**, and the store afterwards. -/
inductive Ends (s : Store ι) (r : Revision) (stamp : Stamp) :
    Except Refusal Quota → Store ι → Prop where
  /-- It breaks a limit. -/
  | overLimit {l : Limit} (hbroken : r.terms.firstBroken? = some l) :
    Ends s r stamp (.error (.overLimit l)) s
  /-- There is no such quota. -/
  | unknown (hproper : r.terms.Proper)
    (hnone : s.tables.standings[r.quota]? = none) :
    Ends s r stamp (.error (.unknownQuota r.quota)) s
  /-- The quota has another version. -/
  | conflict {st : Standing} (hproper : r.terms.Proper)
    (hstands : s.tables.standings[r.quota]? = some st) (hother : st.version ≠ r.expected) :
    Ends s r stamp (.error (.conflict r.quota r.expected st.version)) s
  /-- The units reserved would pass the bound. -/
  | boundTooLow {st : Standing} (hproper : r.terms.Proper)
    (hstands : s.tables.standings[r.quota]? = some st) (hcurrent : st.version = r.expected)
    (hlow : r.terms.bound < st.reserved.toNat) :
    Ends s r stamp (.error (.boundTooLow r.quota st.reserved r.terms.bound)) s
  /-- The journal refuses the record. -/
  | notStored {st : Standing} {e : Fault} {j : ι} (hadmitted : r.Admitted s.tables st)
    (happend : Journal.append s.journal [r.record stamp] = (.error e, j)) :
    Ends s r stamp (.error (.notStored e.text)) { s with journal := j }
  /-- The journal takes the record. -/
  | replaced {st : Standing} {j : ι} (hadmitted : r.Admitted s.tables st)
    (happend : Journal.append s.journal [r.record stamp] = (.ok (), j)) :
    Ends s r stamp (.ok ⟨⟨r.terms, st.reserved, stamp.version⟩, r.quota⟩)
      { s with journal := j, tables := s.tables.commit r.quota st (r.record stamp) }

/-- **Some rule always applies to a revision.** -/
theorem ends (s : Store ι) (r : Revision) (stamp : Stamp) :
    ∃ result s', Ends s r stamp result s' := by
  cases hbroken : r.terms.firstBroken? with
  | some l => exact ⟨_, _, .overLimit hbroken⟩
  | none =>
      have hproper := Terms.firstBroken?_eq_none_iff.1 hbroken
      cases hstands : s.tables.standings[r.quota]? with
      | none => exact ⟨_, _, .unknown hproper hstands⟩
      | some st =>
          by_cases hcurrent : st.version = r.expected
          · rcases Nat.lt_or_ge r.terms.bound st.reserved.toNat with hlow | hcovers
            · exact ⟨_, _, .boundTooLow hproper hstands hcurrent hlow⟩
            · rcases ha : Journal.append s.journal [r.record stamp] with ⟨e | u, j⟩
              · exact ⟨_, _, .notStored ⟨hproper, hstands, hcurrent, hcovers⟩ ha⟩
              · exact ⟨_, _, .replaced ⟨hproper, hstands, hcurrent, hcovers⟩ ha⟩
          · exact ⟨_, _, .conflict hproper hstands hcurrent⟩

variable {s s' : Store ι} {r : Revision} {stamp : Stamp} {result : Except Refusal Quota}

omit [Journal ι] in
theorem decide?_of_admitted {t : Tables} {st : Standing} (h : r.Admitted t st) :
    r.decide? (some { st with id := r.quota }) = .ok r.write := by
  simp [decide?, h.current, Room.holds, h.covers]

/-- **A desk does with a revision what the rule says.** -/
theorem Ends.eq (h : Ends s r stamp result s') (alone : s.rival = none) :
    Desk.reviseIn s r stamp = (result, s') := by
  cases h with
  | overLimit hbroken => simp only [Desk.reviseIn, Terms.check_of_firstBroken? hbroken]
  | unknown hproper hnone =>
      simp only [Desk.reviseIn, hproper.check, Store.load_of_missing alone hnone,
        decide?, Desk.carryOut]
  | conflict hproper hstands hother =>
      rw [Desk.reviseIn_of_load (hproper.check) (Store.load_of_stands alone hstands),
        decide?]
      simp only [if_pos hother, Desk.carryOut]
  | boundTooLow hproper hstands hcurrent hlow =>
      rw [Desk.reviseIn_of_load (hproper.check) (Store.load_of_stands alone hstands),
        decide?]
      simp [hcurrent, Room.holds, Nat.not_le.2 hlow, Desk.carryOut]
  | @notStored st e j hadmitted happend =>
      rw [Desk.reviseIn_of_load (hadmitted.proper.check)
          (Store.load_of_stands alone hadmitted.stands), decide?_of_admitted hadmitted,
        Desk.carryOut_of_current (w := r.write) hadmitted.stands hadmitted.current stamp.version
          happend]
  | @replaced st j hadmitted happend =>
      rw [Desk.reviseIn_of_load (hadmitted.proper.check)
          (Store.load_of_stands alone hadmitted.stands), decide?_of_admitted hadmitted,
        Desk.carryOut_of_current (w := r.write) hadmitted.stands hadmitted.current stamp.version
          happend]
      rfl

/-- **A desk answers what the rule says that applies.** -/
theorem revise_eq_iff {d : Desk ι} (alone : d.store.rival = none) :
    ((d.revise r stamp).1 = result ∧ (d.revise r stamp).2.store = s') ↔
      Ends d.store r stamp result s' := by
  constructor
  · rintro ⟨rfl, rfl⟩
    obtain ⟨result, s', h⟩ := ends d.store r stamp
    simp only [Desk.revise, h.eq alone]
    exact h
  · intro h
    simp only [Desk.revise, h.eq alone, and_self]

/-- The same without what is left. -/
theorem fst_revise_eq_iff {d : Desk ι} (alone : d.store.rival = none) :
    (d.revise r stamp).1 = result ↔ ∃ s', Ends d.store r stamp result s' := by
  simp only [← revise_eq_iff alone, exists_and_left, exists_eq', and_true]

end Revision

/-! ### What a change leaves -/

namespace Tables

/-- **Tables with one more allocation**, and nothing else. -/
structure Gains (t t' : Tables) (a : Allocation) (version : Version) : Prop where
  /-- The units reserved of its quota grow by exactly its units; the terms stay. -/
  quota : ∃ st n, t.standings[a.quota]? = some st ∧
    t'.standings[a.quota]? = some ⟨st.terms, n, version⟩ ∧
      n.toNat = st.reserved.toNat + a.quantity.toNat ∧ n.toNat ≤ st.terms.bound
  /-- No quota had the version. -/
  fresh : ∀ (id : Ulid) (st : Standing), t.standings[id]? = some st → st.version ≠ version
  /-- The other quotas stay. -/
  others : ∀ id ≠ a.quota, t'.standings[id]? = t.standings[id]?
  /-- The list of its quota has the allocation at its end. -/
  listed : t'.ledger.entries a.quota = t.ledger.entries a.quota ++ [a]
  /-- The other lists stay. -/
  lists : ∀ id ≠ a.quota, t'.ledger.entries id = t.ledger.entries id
  /-- Nothing was found under its identifier. -/
  unused : t.ledger.find? a.id = none
  /-- Now it is found there, and under the others what was there. -/
  found : ∀ i, t'.ledger.find? i = if a.id = i then some a else t.ledger.find? i

/-- **Tables with other terms for one quota**, and nothing else. -/
structure Replaces (t t' : Tables) (r : Revision) (version : Version) : Prop where
  /-- The terms are the new ones and cover the units reserved, which stay. -/
  quota : ∃ st, t.standings[r.quota]? = some st ∧ st.reserved.toNat ≤ r.terms.bound ∧
    t'.standings[r.quota]? = some ⟨r.terms, st.reserved, version⟩
  /-- No quota had the version. -/
  fresh : ∀ (id : Ulid) (st : Standing), t.standings[id]? = some st → st.version ≠ version
  /-- The other quotas stay. -/
  others : ∀ id ≠ r.quota, t'.standings[id]? = t.standings[id]?
  /-- The ledger stays. -/
  ledger : t'.ledger = t.ledger

variable {t : Tables} {version : Version}

/-- What is left of a quota is the difference between its bound and the units reserved. -/
theorem Sound.reserved_add_headroom (h : Sound t) {id : Ulid} {st : Standing}
    (hstands : t.standings[id]? = some st) :
    st.reserved.toNat + (st.terms.headroom st.reserved).toNat = st.terms.bound := by
  have hwithin := h.within id st hstands
  have hbound := Terms.bound_le (h.limits id st hstands)
  rw [Room.toNat_headroom, UInt32.size]
  omega

/-- Granting a claim that fits, under a new identifier. -/
theorem Gains.commit (hs : Sound t) {a : Allocation} {st : Standing}
    (hstands : t.standings[a.quota]? = some st)
    (hfits : st.reserved.toNat + a.quantity.toNat ≤ st.terms.bound)
    (hnew : t.ledger.find? a.id = none)
    (hfresh : ∀ (id : Ulid) (st : Standing), t.standings[id]? = some st → st.version ≠ version) :
    Gains t (t.commit a.quota st (.allocated a version)) a version where
  quota := by
    have hsum : (st.reserved + a.quantity).toNat = st.reserved.toNat + a.quantity.toNat :=
      (UInt32.toNat_add _ _).trans (Nat.mod_eq_of_lt (hs.reserved_add_lt hstands hfits))
    exact ⟨st, st.reserved + a.quantity, hstands, (standings_commit _ _ _ _ _).trans (if_pos rfl),
      hsum, hsum ▸ hfits⟩
  fresh := hfresh
  others _ hne := (standings_commit _ _ _ _ _).trans (if_neg hne.symm)
  listed := (Ledger.entries_record hnew _).trans (if_pos rfl)
  lists _ hne := (Ledger.entries_record hnew _).trans (if_neg hne.symm)
  unused := hnew
  found _ := Ledger.find?_record _ _ _

/-- Replacing terms by terms that cover the units reserved. -/
theorem Replaces.commit {r : Revision} {st : Standing} (hstands : t.standings[r.quota]? = some st)
    (hcovers : st.reserved.toNat ≤ r.terms.bound)
    (hfresh : ∀ (id : Ulid) (st : Standing), t.standings[id]? = some st → st.version ≠ version) :
    Replaces t (t.commit r.quota st (.revised r.quota r.terms version)) r version where
  quota := ⟨st, hstands, hcovers, (standings_commit _ _ _ _ _).trans (if_pos rfl)⟩
  fresh := hfresh
  others _ hne := (standings_commit _ _ _ _ _).trans (if_neg hne.symm)
  ledger := rfl

end Tables

/-! ### When each answer is given -/

/-- **When each answer to a claim is given, and what it leaves.** -/
structure Claim.Settles (c : Claim) (d : Desk ι) (stamp : Stamp) : Prop where
  /-- The claim is for no units. -/
  zero : (d.allocate c stamp).1 = .error .zeroQuantity ↔ c.quantity = 0
  /-- Otherwise its reference is too long. -/
  tooLong : ∀ l, (d.allocate c stamp).1 = .error (.overLimit l) ↔
    c.quantity ≠ 0 ∧ c.TooLong ∧ l = .reference
  /-- Otherwise there is no such quota. -/
  unknown : ∀ quota, (d.allocate c stamp).1 = .error (.unknownQuota quota) ↔
    c.Proper ∧ d.store.tables.standings[c.quota]? = none ∧ quota = c.quota
  /-- Otherwise the sum of units would pass the bound; the client is told what is left. -/
  overbooked : ∀ quota requested available,
    (d.allocate c stamp).1 = .error (.overbooked quota requested available) ↔
      c.Proper ∧ ∃ st, d.store.tables.standings[c.quota]? = some st ∧
        st.terms.bound < st.reserved.toNat + c.quantity.toNat ∧
          quota = c.quota ∧ requested = c.quantity ∧
            st.reserved.toNat + available.toNat = st.terms.bound
  /-- Otherwise the journal refuses the record. -/
  notStored : ∀ reason, (d.allocate c stamp).1 = .error (.notStored reason) ↔
    (∃ st, c.Admitted d.store.tables st) ∧
      ∃ e, (Journal.append d.store.journal [c.record stamp]).1 = .error e ∧ reason = e.text
  /-- Otherwise the claim is granted. -/
  granted : ∀ a, (d.allocate c stamp).1 = .ok a ↔
    (∃ st, c.Admitted d.store.tables st) ∧
      (Journal.append d.store.journal [c.record stamp]).1 = .ok () ∧ a = c.allocation stamp
  /-- A claim that is refused changes nothing. -/
  refused : ∀ e, (d.allocate c stamp).1 = .error e →
    (d.allocate c stamp).2.store.tables = d.store.tables
  /-- A claim that is granted adds its allocation. -/
  gains : ∀ a, (d.allocate c stamp).1 = .ok a →
    d.store.tables.Gains (d.allocate c stamp).2.store.tables a stamp.version

/-- **When each answer to a revision is given, and what it leaves.** -/
structure Revision.Settles (r : Revision) (d : Desk ι) (stamp : Stamp) : Prop where
  /-- The terms break a limit; the first one is named. -/
  overLimit : ∀ l, (d.revise r stamp).1 = .error (.overLimit l) ↔ r.terms.firstBroken? = some l
  /-- Otherwise there is no such quota. -/
  unknown : ∀ quota, (d.revise r stamp).1 = .error (.unknownQuota quota) ↔
    r.terms.Proper ∧ d.store.tables.standings[r.quota]? = none ∧ quota = r.quota
  /-- Otherwise the quota has another version, whatever the new bound is. -/
  conflict : ∀ quota expected actual,
    (d.revise r stamp).1 = .error (.conflict quota expected actual) ↔
      r.terms.Proper ∧ ∃ st, d.store.tables.standings[r.quota]? = some st ∧
        st.version ≠ r.expected ∧ quota = r.quota ∧ expected = r.expected ∧ actual = st.version
  /-- Otherwise the units reserved would pass the bound. -/
  boundTooLow : ∀ quota reserved bound,
    (d.revise r stamp).1 = .error (.boundTooLow quota reserved bound) ↔
      r.terms.Proper ∧ ∃ st, d.store.tables.standings[r.quota]? = some st ∧
        st.version = r.expected ∧ r.terms.bound < st.reserved.toNat ∧
          quota = r.quota ∧ reserved = st.reserved ∧ bound = r.terms.bound
  /-- Otherwise the journal refuses the record. -/
  notStored : ∀ reason, (d.revise r stamp).1 = .error (.notStored reason) ↔
    (∃ st, r.Admitted d.store.tables st) ∧
      ∃ e, (Journal.append d.store.journal [r.record stamp]).1 = .error e ∧ reason = e.text
  /-- Otherwise the terms are replaced. -/
  replaced : ∀ q, (d.revise r stamp).1 = .ok q ↔
    (Journal.append d.store.journal [r.record stamp]).1 = .ok () ∧
      ∃ st, r.Admitted d.store.tables st ∧ q = ⟨⟨r.terms, st.reserved, stamp.version⟩, r.quota⟩
  /-- A revision that is refused changes nothing. -/
  refused : ∀ e, (d.revise r stamp).1 = .error e →
    (d.revise r stamp).2.store.tables = d.store.tables
  /-- A revision that is made replaces the terms. -/
  replaces : ∀ q, (d.revise r stamp).1 = .ok q →
    d.store.tables.Replaces (d.revise r stamp).2.store.tables r stamp.version

omit [Journal ι] in
/-- No quota has a version that is brought for the first time. -/
theorem Desk.Orderly.version_ne {past : List Record} {d : Desk ι} (h : Orderly past d) {x : Record}
    (hnovel : Novel (past ++ [x])) (id : Ulid) (st : Standing)
    (hst : d.store.tables.standings[id]? = some st) : st.version ≠ x.version := by
  obtain ⟨x₀, hx₀, hv⟩ := h.versions id st hst
  rw [hv]
  exact hnovel.version_ne hx₀ (List.mem_singleton_self x)

namespace Precedence

open Desk (Orderly Tended)
open Fingerprint (bare)

variable {past : List Record} {d : Desk ι} {c : Claim} {r : Revision} {stamp : Stamp}

/-- **The answer to a claim at any desk between two visits.** -/
theorem claim_settles (h : Orderly past d) (hnovel : Novel (past ++ [c.record stamp])) :
    c.Settles d stamp where
  zero := by
    rw [Claim.fst_allocate_eq_iff h.alone]
    constructor
    · rintro ⟨_, hends⟩
      cases hends with
      | zero hzero => exact hzero
    · exact fun hzero => ⟨_, .zero hzero⟩
  tooLong l := by
    rw [Claim.fst_allocate_eq_iff h.alone]
    constructor
    · rintro ⟨_, hends⟩
      cases hends with
      | tooLong hpositive hlong => exact ⟨hpositive, hlong, rfl⟩
    · rintro ⟨hpositive, hlong, rfl⟩
      exact ⟨_, .tooLong hpositive hlong⟩
  unknown quota := by
    rw [Claim.fst_allocate_eq_iff h.alone]
    constructor
    · rintro ⟨_, hends⟩
      cases hends with
      | unknown hproper hnone => exact ⟨hproper, hnone, rfl⟩
    · rintro ⟨hproper, hnone, rfl⟩
      exact ⟨_, .unknown hproper hnone⟩
  overbooked quota requested available := by
    rw [Claim.fst_allocate_eq_iff h.alone]
    constructor
    · rintro ⟨_, hends⟩
      cases hends with
      | overbooked hproper hstands hover =>
          exact ⟨hproper, _, hstands, hover, rfl, rfl, h.sound.reserved_add_headroom hstands⟩
    · rintro ⟨hproper, st, hstands, hover, rfl, rfl, hleft⟩
      have hheadroom : available = st.terms.headroom st.reserved := by
        have hsum := h.sound.reserved_add_headroom hstands
        exact UInt32.toNat_inj.1 (by omega)
      rw [hheadroom]
      exact ⟨_, .overbooked hproper hstands hover⟩
  notStored reason := by
    rw [Claim.fst_allocate_eq_iff h.alone]
    constructor
    · rintro ⟨_, hends⟩
      cases hends with
      | notStored hadmitted happend => exact ⟨⟨_, hadmitted⟩, _, congrArg Prod.fst happend, rfl⟩
    · rintro ⟨⟨st, hadmitted⟩, e, happend, rfl⟩
      exact ⟨_, .notStored hadmitted (Prod.ext happend rfl)⟩
  granted a := by
    rw [Claim.fst_allocate_eq_iff h.alone]
    constructor
    · rintro ⟨_, hends⟩
      cases hends with
      | granted hadmitted happend => exact ⟨⟨_, hadmitted⟩, congrArg Prod.fst happend, rfl⟩
    · rintro ⟨⟨st, hadmitted⟩, happend, rfl⟩
      exact ⟨_, .granted hadmitted (Prod.ext happend rfl)⟩
  refused e he := by
    have hends := (Claim.allocate_eq_iff h.alone).1 ⟨he, rfl⟩
    generalize (d.allocate c stamp).2.store = s' at hends
    cases hends <;> rfl
  gains a ha := by
    have hends := (Claim.allocate_eq_iff h.alone).1 ⟨ha, rfl⟩
    generalize (d.allocate c stamp).2.store = s' at hends
    cases hends with
    | granted hadmitted happend =>
        exact .commit h.sound (a := c.allocation stamp) hadmitted.stands hadmitted.fits
          (h.find?_eq_none (Record.not_mem_grants hnovel.grants (List.mem_singleton_self _)))
          (h.version_ne hnovel)

/-- **The answer to a revision at any desk between two visits.** -/
theorem revision_settles (h : Orderly past d) (hnovel : Novel (past ++ [r.record stamp])) :
    r.Settles d stamp where
  overLimit l := by
    rw [Revision.fst_revise_eq_iff h.alone]
    constructor
    · rintro ⟨_, hends⟩
      cases hends with
      | overLimit hbroken => exact hbroken
    · exact fun hbroken => ⟨_, .overLimit hbroken⟩
  unknown quota := by
    rw [Revision.fst_revise_eq_iff h.alone]
    constructor
    · rintro ⟨_, hends⟩
      cases hends with
      | unknown hproper hnone => exact ⟨hproper, hnone, rfl⟩
    · rintro ⟨hproper, hnone, rfl⟩
      exact ⟨_, .unknown hproper hnone⟩
  conflict quota expected actual := by
    rw [Revision.fst_revise_eq_iff h.alone]
    constructor
    · rintro ⟨_, hends⟩
      cases hends with
      | conflict hproper hstands hother => exact ⟨hproper, _, hstands, hother, rfl, rfl, rfl⟩
    · rintro ⟨hproper, st, hstands, hother, rfl, rfl, rfl⟩
      exact ⟨_, .conflict hproper hstands hother⟩
  boundTooLow quota reserved bound := by
    rw [Revision.fst_revise_eq_iff h.alone]
    constructor
    · rintro ⟨_, hends⟩
      cases hends with
      | boundTooLow hproper hstands hcurrent hlow =>
          exact ⟨hproper, _, hstands, hcurrent, hlow, rfl, rfl, rfl⟩
    · rintro ⟨hproper, st, hstands, hcurrent, hlow, rfl, rfl, rfl⟩
      exact ⟨_, .boundTooLow hproper hstands hcurrent hlow⟩
  notStored reason := by
    rw [Revision.fst_revise_eq_iff h.alone]
    constructor
    · rintro ⟨_, hends⟩
      cases hends with
      | notStored hadmitted happend => exact ⟨⟨_, hadmitted⟩, _, congrArg Prod.fst happend, rfl⟩
    · rintro ⟨⟨st, hadmitted⟩, e, happend, rfl⟩
      exact ⟨_, .notStored hadmitted (Prod.ext happend rfl)⟩
  replaced q := by
    rw [Revision.fst_revise_eq_iff h.alone]
    constructor
    · rintro ⟨_, hends⟩
      cases hends with
      | replaced hadmitted happend => exact ⟨congrArg Prod.fst happend, _, hadmitted, rfl⟩
    · rintro ⟨happend, st, hadmitted, rfl⟩
      exact ⟨_, .replaced hadmitted (Prod.ext happend rfl)⟩
  refused e he := by
    have hends := (Revision.revise_eq_iff h.alone).1 ⟨he, rfl⟩
    generalize (d.revise r stamp).2.store = s' at hends
    cases hends <;> rfl
  replaces q hq := by
    have hends := (Revision.revise_eq_iff h.alone).1 ⟨hq, rfl⟩
    generalize (d.revise r stamp).2.store = s' at hends
    cases hends with
    | replaced hadmitted happend =>
        exact .commit hadmitted.stands hadmitted.covers (h.version_ne hnovel)

/-! ### Every run -/

/-- A log that somebody else may have touched takes a batch if bytes can be written and no rollback
has failed. -/
theorem append_eq_ok_iff {name : String} {d : Desk LogFile} (h : Tended name past d)
    {batch : List Record} (hne : batch ≠ []) :
    (Journal.append d.store.journal batch).1 = .ok () ↔
      d.store.journal.disk.writable = true ∧ d.store.journal.writer.unusable = false := by
  rcases h.log with ⟨rs, htakes, _⟩ | hrefuses
  · rcases htakes.append_cases hne with ⟨hw, l, hok, _⟩ | ⟨hw, e, l, he, _⟩
    · simp [hok, hw, htakes.usable]
    · simp [he, hw]
  · obtain ⟨l, he, _⟩ := hrefuses.append hne
    simp [he, hrefuses.unusable]

/-- What holds of a desk whose log was not there yet, whatever has happened. -/
theorem tended_of_undergoAll {disk : Disk} {name : String} {s : Store LogFile}
    (hs : Store.Opened disk name [] s) {m : Meter} {front : List Happening} {d : Desk LogFile}
    (hfront : Site.undergoAll name (.opened ⟨s, m⟩) front = .opened d)
    (hnovel : Novel (front.flatMap (·.records))) :
    Tended name (front.flatMap (·.records)) d := by
  have hstart : Site.Sane name [] (.opened ⟨s, m⟩) := .of_kept (.of_opened hs m)
  have hsane := hstart.undergoAll hnovel
  rwa [List.nil_append, hfront] at hsane

/-- A journal that keeps nothing has nothing to change. -/
theorem firm_volatile : Journal.Firm fun _ : Volatile => True := fun _ _ _ _ _ _ => rfl

/-- A desk without a log after some visits. -/
theorem orderly_of_receiveAll (ceiling : Nat) (m : Meter) {front : List Visit}
    (hnovel : Novel (front.flatMap (·.records))) :
    Orderly (front.flatMap (·.records)) ((bare ceiling m).receiveAll front) := by
  have hempty : Orderly [] (bare ceiling m) := .of_empty rfl rfl
  exact (hempty.receiveAll hnovel).1

/-- **The answer to a claim in every run.**  The first part is about a desk that keeps no log, after
any visits.  The second part is about a desk with a log that was not there yet, after anything that
may happen: visits, compactions, closing and opening the log again, and also what may happen to the
disk behind the desk's back.  Its log refuses a record just if no bytes can be written or a rollback
has failed.  A claim that is refused leaves the tables as they were; it leaves the whole store as it
was if there is no log, or if nobody else has touched the log. -/
theorem claim_run :
    (∀ (ceiling : Nat) (m : Meter) (front : List Visit) (c : Claim) (stamp : Stamp),
      Novel (front.flatMap (·.records) ++ [c.record stamp]) →
        let d := (bare ceiling m).receiveAll front
        c.Settles d stamp ∧ ∀ e, (d.allocate c stamp).1 = .error e →
          (d.allocate c stamp).2.store = d.store) ∧
    ∀ {disk : Disk} {es : Entries}, disk.place = .directory es →
      ∀ {name : String}, disk.entry? name = none →
        ∃ s, Store.ofLog disk name = .ok s ∧
          ∀ (m : Meter) (front : List Happening) (d : Desk LogFile) (c : Claim) (stamp : Stamp),
            Site.undergoAll name (.opened ⟨s, m⟩) front = .opened d →
            Novel (front.flatMap (·.records) ++ [c.record stamp]) →
              c.Settles d stamp ∧
              ((Journal.append d.store.journal [c.record stamp]).1 = .ok () ↔
                d.store.journal.disk.writable = true ∧ d.store.journal.writer.unusable = false) ∧
              (d.store.journal.AtRest → ∀ e, (d.allocate c stamp).1 = .error e →
                (d.allocate c stamp).2.store = d.store) := by
  refine ⟨?_, ?_⟩
  · intro ceiling m front c stamp hnovel
    have h := orderly_of_receiveAll ceiling m hnovel.left
    refine ⟨claim_settles h hnovel, ?_⟩
    exact fun e he => Desk.allocate_eq_of_error firm_volatile ⟨trivial, h.alone⟩ he
  · intro disk es hp name habsent
    obtain ⟨s, ho, hs⟩ := Store.ofLog_of_absent hp habsent
    refine ⟨s, ho, ?_⟩
    intro m front d c stamp hfront hnovel
    have h := tended_of_undergoAll hs hfront hnovel.left
    refine ⟨claim_settles h.toOrderly hnovel, append_eq_ok_iff h (List.cons_ne_nil _ _), ?_⟩
    exact fun hrest e he => Desk.allocate_eq_of_error LogFile.firm_atRest ⟨hrest, h.alone⟩ he

/-- A quota of five units is created and two are claimed; then the disk is full. -/
def untilFull : List Incident :=
  Fingerprint.twoOfFive.map .visit ++ [.mishap (.setWritable false)]

/-- A desk to which this has happened. -/
def fullDisk : Desk LogFile := Desk.meetAll ⟨emptyStore, .zero⟩ untilFull

theorem undergoAll_untilFull :
    Site.undergoAll "a.wal" (.opened ⟨emptyStore, .zero⟩) (untilFull.map .incident) =
      .opened fullDisk := rfl

/-- A claim for two of the three units that are left. -/
def fittingClaim : Claim := ⟨⟨1⟩, 2, some "BK-2"⟩

/-- What is fresh about a call. -/
def callStamp : Stamp := ⟨⟨9⟩, ⟨⟨9⟩⟩, 8⟩

set_option maxRecDepth 100000 in
/-- Of five units two are taken.  Without a log a claim for four is told that three are left, and
one for none is told so even on a quota that does not exist.  On a full disk a claim for two fails
for want of storage. -/
theorem claim_run_three_refusals :
    let d := (bare 10 .zero).receiveAll Fingerprint.twoOfFive
    (d.allocate ⟨⟨1⟩, 4, none⟩ callStamp).1 = .error (.overbooked ⟨1⟩ 4 3) ∧
      (d.allocate ⟨⟨7⟩, 0, none⟩ callStamp).1 = .error .zeroQuantity ∧
    Disk.blank.place = .directory ∅ ∧ Disk.blank.entry? "a.wal" = none ∧
      Store.ofLog .blank "a.wal" = .ok emptyStore ∧
      Site.undergoAll "a.wal" (.opened ⟨emptyStore, .zero⟩) (untilFull.map .incident) =
        .opened fullDisk ∧
      Novel ((untilFull.map Happening.incident).flatMap (·.records) ++
        [fittingClaim.record callStamp]) ∧
      (fullDisk.allocate fittingClaim callStamp).1 = .error (.notStored Fault.fileTooLarge.text) ∧
      (fullDisk.allocate fittingClaim callStamp).2.store.tables = fullDisk.store.tables := by
  obtain ⟨hvolatile, hdurable⟩ := claim_run
  have hfour := (hvolatile 10 .zero Fingerprint.twoOfFive ⟨⟨1⟩, 4, none⟩ callStamp
    ⟨by decide, by decide⟩).1
  have hnone := (hvolatile 10 .zero Fingerprint.twoOfFive ⟨⟨7⟩, 0, none⟩ callStamp
    ⟨by decide, by decide⟩).1
  obtain ⟨s, ho, hall⟩ := hdurable (rfl : Disk.blank.place = _) (rfl : _ = none)
  obtain rfl := Except.ok.inj (ofLog_emptyStore.symm.trans ho)
  have hnovel : Novel ((untilFull.map Happening.incident).flatMap (·.records) ++
      [fittingClaim.record callStamp]) := ⟨by decide, by decide⟩
  have hfitting := (hall .zero _ _ fittingClaim callStamp undergoAll_untilFull hnovel).1
  have hstored : (fullDisk.allocate fittingClaim callStamp).1 =
      .error (.notStored Fault.fileTooLarge.text) :=
    (hfitting.notStored _).2 ⟨⟨⟨⟨⟨4, 1⟩, "Süd", "tour", tourDay⟩, 2, ⟨⟨2⟩⟩⟩,
      ⟨by decide, by decide +kernel⟩, by decide +kernel, by decide⟩, .fileTooLarge,
      by decide +kernel, rfl⟩
  exact ⟨(hfour.overbooked _ _ _).2 ⟨⟨by decide, by decide⟩,
      ⟨⟨⟨4, 1⟩, "Süd", "tour", tourDay⟩, 2, ⟨⟨2⟩⟩⟩, by decide +kernel, by decide, rfl, rfl,
      by decide⟩,
    hnone.zero.2 rfl, rfl, rfl, ho, undergoAll_untilFull, hnovel, hstored,
    hfitting.refused _ hstored⟩

/-- **The answer to a revision in every run**, of both kinds. -/
theorem revision_run :
    (∀ (ceiling : Nat) (m : Meter) (front : List Visit) (r : Revision) (stamp : Stamp),
      Novel (front.flatMap (·.records) ++ [r.record stamp]) →
        let d := (bare ceiling m).receiveAll front
        r.Settles d stamp ∧ ∀ e, (d.revise r stamp).1 = .error e →
          (d.revise r stamp).2.store = d.store) ∧
    ∀ {disk : Disk} {es : Entries}, disk.place = .directory es →
      ∀ {name : String}, disk.entry? name = none →
        ∃ s, Store.ofLog disk name = .ok s ∧
          ∀ (m : Meter) (front : List Happening) (d : Desk LogFile) (r : Revision) (stamp : Stamp),
            Site.undergoAll name (.opened ⟨s, m⟩) front = .opened d →
            Novel (front.flatMap (·.records) ++ [r.record stamp]) →
              r.Settles d stamp ∧
              ((Journal.append d.store.journal [r.record stamp]).1 = .ok () ↔
                d.store.journal.disk.writable = true ∧ d.store.journal.writer.unusable = false) ∧
              (d.store.journal.AtRest → ∀ e, (d.revise r stamp).1 = .error e →
                (d.revise r stamp).2.store = d.store) := by
  refine ⟨?_, ?_⟩
  · intro ceiling m front r stamp hnovel
    have h := orderly_of_receiveAll ceiling m hnovel.left
    refine ⟨revision_settles h hnovel, ?_⟩
    exact fun e he => Desk.revise_eq_of_error firm_volatile ⟨trivial, h.alone⟩ he
  · intro disk es hp name habsent
    obtain ⟨s, ho, hs⟩ := Store.ofLog_of_absent hp habsent
    refine ⟨s, ho, ?_⟩
    intro m front d r stamp hfront hnovel
    have h := tended_of_undergoAll hs hfront hnovel.left
    refine ⟨revision_settles h.toOrderly hnovel, append_eq_ok_iff h (List.cons_ne_nil _ _), ?_⟩
    exact fun hrest e he => Desk.revise_eq_of_error LogFile.firm_atRest ⟨hrest, h.alone⟩ he

/-- Terms with this much room, otherwise like those of the quota that was created. -/
def roomFor (capacity : UInt32) : Terms := ⟨⟨capacity, 0⟩, "Süd", "tour", tourDay⟩

set_option maxRecDepth 100000 in
/-- Two of five units are taken.  A client that has not seen the claim and wants room for one unit
is told of the conflict, and one that has seen it that two units are taken.  Too many units are
refused even on a quota that does not exist.  On a full disk the terms stay what they are. -/
theorem revision_run_four_refusals :
    let d := (bare 10 .zero).receiveAll Fingerprint.twoOfFive
    (d.revise ⟨⟨1⟩, roomFor 1, ⟨⟨1⟩⟩⟩ callStamp).1 = .error (.conflict ⟨1⟩ ⟨⟨1⟩⟩ ⟨⟨2⟩⟩) ∧
      (d.revise ⟨⟨1⟩, roomFor 1, ⟨⟨2⟩⟩⟩ callStamp).1 = .error (.boundTooLow ⟨1⟩ 2 1) ∧
      (d.revise ⟨⟨7⟩, roomFor 1000001, ⟨⟨2⟩⟩⟩ callStamp).1 = .error (.overLimit .capacity) ∧
    Disk.blank.place = .directory ∅ ∧ Disk.blank.entry? "a.wal" = none ∧
      Store.ofLog .blank "a.wal" = .ok emptyStore ∧
      Site.undergoAll "a.wal" (.opened ⟨emptyStore, .zero⟩) (untilFull.map .incident) =
        .opened fullDisk ∧
      Novel ((untilFull.map Happening.incident).flatMap (·.records) ++
        [Revision.record ⟨⟨1⟩, roomFor 3, ⟨⟨2⟩⟩⟩ callStamp]) ∧
      (fullDisk.revise ⟨⟨1⟩, roomFor 3, ⟨⟨2⟩⟩⟩ callStamp).1 =
        .error (.notStored Fault.fileTooLarge.text) ∧
      (fullDisk.revise ⟨⟨1⟩, roomFor 3, ⟨⟨2⟩⟩⟩ callStamp).2.store.tables =
        fullDisk.store.tables := by
  obtain ⟨hvolatile, hdurable⟩ := revision_run
  have hone : (roomFor 1).Proper := by decide +kernel
  have hstands : ((bare 10 .zero).receiveAll Fingerprint.twoOfFive).store.tables.standings[
      (⟨1⟩ : Ulid)]? = some ⟨⟨⟨4, 1⟩, "Süd", "tour", tourDay⟩, 2, ⟨⟨2⟩⟩⟩ := by decide +kernel
  have hunseen := (hvolatile 10 .zero Fingerprint.twoOfFive ⟨⟨1⟩, roomFor 1, ⟨⟨1⟩⟩⟩ callStamp
    ⟨by decide, by decide⟩).1
  have hseen := (hvolatile 10 .zero Fingerprint.twoOfFive ⟨⟨1⟩, roomFor 1, ⟨⟨2⟩⟩⟩ callStamp
    ⟨by decide, by decide⟩).1
  have hlarge := (hvolatile 10 .zero Fingerprint.twoOfFive ⟨⟨7⟩, roomFor 1000001, ⟨⟨2⟩⟩⟩ callStamp
    ⟨by decide, by decide⟩).1
  obtain ⟨s, ho, hall⟩ := hdurable (rfl : Disk.blank.place = _) (rfl : _ = none)
  obtain rfl := Except.ok.inj (ofLog_emptyStore.symm.trans ho)
  have hnovel : Novel ((untilFull.map Happening.incident).flatMap (·.records) ++
      [Revision.record ⟨⟨1⟩, roomFor 3, ⟨⟨2⟩⟩⟩ callStamp]) := ⟨by decide, by decide⟩
  have hthree := (hall .zero _ _ ⟨⟨1⟩, roomFor 3, ⟨⟨2⟩⟩⟩ callStamp undergoAll_untilFull hnovel).1
  have hstored : (fullDisk.revise ⟨⟨1⟩, roomFor 3, ⟨⟨2⟩⟩⟩ callStamp).1 =
      .error (.notStored Fault.fileTooLarge.text) :=
    (hthree.notStored _).2 ⟨⟨⟨⟨⟨4, 1⟩, "Süd", "tour", tourDay⟩, 2, ⟨⟨2⟩⟩⟩,
      by decide +kernel, by decide +kernel, rfl, by decide⟩, .fileTooLarge, by decide +kernel, rfl⟩
  exact ⟨(hunseen.conflict _ _ _).2 ⟨hone, _, hstands, by decide, rfl, rfl, rfl⟩,
    (hseen.boundTooLow _ _ _).2 ⟨hone, _, hstands, rfl, by decide, rfl, rfl, rfl⟩,
    (hlarge.overLimit _).2 (by decide +kernel), rfl, rfl, ho, undergoAll_untilFull, hnovel, hstored,
    hthree.refused _ hstored⟩

end Precedence

end Allotment
