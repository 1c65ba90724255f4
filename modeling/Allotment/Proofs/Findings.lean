/-
**What the audit says of a log.**

A log of unknown origin may do what no desk does: grant units of a quota that was never created,
create a quota again, or grant more than the bound allows.  Replay takes what it can, and the audit
of the tables speaks afterwards.  What it says can be read off the log itself, quota by quota.

What stands in the history of a quota before its first creation has no effect.  Every later creation
starts the count of units afresh and leaves the list of allocations as it is.  So the units granted
between the first creation and the last are still listed, though nothing counts them any more; those
granted behind the last creation are both listed and counted.  The first are what the audit finds
missing, and the second are what it holds against the bound, which is that of the terms set last.

Main definitions:

* `Allotment.lifetime` — the history of a quota from its first creation on;
* `Allotment.unitsLost`, `Allotment.unitsKept` — the units granted before the last creation and
  behind it;
* `Allotment.lastTerms?` — the terms set last;
* `Allotment.Finding.Before` — the order of findings.

Main results:

* `Allotment.Narrates.foldl` — **what a history says of its quota**, record by record;
* `Allotment.Tables.total_ofRecords` — the units listed are those lost and those kept;
* `Allotment.Tables.pairwise_audit` — **findings come in order, and none comes twice**;
* `Allotment.Tables.audit_ofRecords` — **what the audit says of any log**.
-/

import Mathlib.Algebra.Order.BigOperators.Group.List
import Mathlib.Algebra.Order.Group.Nat
import Mathlib.Data.List.DropRight
import Allotment.Proofs.Histories
import Allotment.Proofs.Tables.Granted
import Allotment.Proofs.Unaudited
import Allotment.Proofs.Durable

set_option relaxedAutoImplicit false
set_option autoImplicit false

namespace Allotment

/-! ### Reading a history -/

/-- Whether a record creates a quota. -/
def Record.isCreation (r : Record) : Bool := r.creates?.isSome

/-- The units that records grant. -/
def unitsOf (rs : List Record) : Nat :=
  ((rs.filterMap Record.allocation?).map (·.quantity.toNat)).sum

/-- What is left of a history when all that stands before the first creation is taken off. -/
def fromFirst (h : List Record) : List Record := h.dropWhile (!·.isCreation)

/-- What is left of a history when all that stands behind the last creation is taken off. -/
def toLast (h : List Record) : List Record := h.rdropWhile (!·.isCreation)

/-- What stands behind the last creation. -/
def behindLast (h : List Record) : List Record := h.rtakeWhile (!·.isCreation)

/-- The history of a quota from its first creation on. -/
def lifetime (rs : List Record) (quota : Ulid) : List Record := fromFirst (history rs quota)

/-- **The units of a quota that are granted between its first and its last creation.** -/
def unitsLost (rs : List Record) (quota : Ulid) : Nat := unitsOf (toLast (lifetime rs quota))

/-- **The units of a quota that are granted behind its last creation.** -/
def unitsKept (rs : List Record) (quota : Ulid) : Nat := unitsOf (behindLast (lifetime rs quota))

/-- **The terms that are set last for a quota**, by a creation or a revision. -/
def lastTerms? (rs : List Record) (quota : Ulid) : Option Terms :=
  ((history rs quota).filterMap Record.terms?).getLast?

theorem unitsOf_append (rs ss : List Record) : unitsOf (rs ++ ss) = unitsOf rs + unitsOf ss := by
  rw [unitsOf, List.filterMap_append, List.map_append, List.sum_append]
  rfl

/-- A part of a list grants no more units than the whole. -/
theorem unitsOf_le_of_sublist {rs ss : List Record} (h : rs.Sublist ss) :
    unitsOf rs ≤ unitsOf ss :=
  ((h.filterMap _).map _).sum_le_sum fun _ _ => Nat.zero_le _

theorem toLast_append_behindLast (h : List Record) : toLast h ++ behindLast h = h :=
  List.rdropWhile_append_rtakeWhile

/-- The units granted during the lifetime of a quota are those lost and those kept. -/
theorem unitsOf_lifetime (rs : List Record) (quota : Ulid) :
    unitsOf (lifetime rs quota) = unitsLost rs quota + unitsKept rs quota := by
  rw [unitsLost, unitsKept, ← unitsOf_append, toLast_append_behindLast]

theorem unitsKept_le (rs : List Record) (quota : Ulid) : unitsKept rs quota ≤ unitsOf rs :=
  unitsOf_le_of_sublist <|
    ((List.rtakeWhile_suffix _ _).sublist.trans (List.dropWhile_sublist _)).trans
      List.filter_sublist

/-! ### One record more -/

section Concat

variable {h : List Record} {r : Record}

/-- A creation is the first one, or it comes behind the first one. -/
theorem fromFirst_concat_of_creation (hr : r.isCreation = true) :
    fromFirst (h ++ [r]) = fromFirst h ++ [r] := by
  rw [fromFirst, List.dropWhile_append]
  split
  · next hnil => simp [fromFirst, List.isEmpty_iff.1 hnil, hr]
  · rfl

/-- What comes behind the first creation is kept. -/
theorem fromFirst_concat_of_ne_nil (hne : fromFirst h ≠ []) :
    fromFirst (h ++ [r]) = fromFirst h ++ [r] := by
  rw [fromFirst, List.dropWhile_append, if_neg (by simpa [fromFirst] using hne)]
  rfl

/-- Without a creation nothing is kept. -/
theorem fromFirst_concat_of_nil (hnil : fromFirst h = []) (hr : r.isCreation = false) :
    fromFirst (h ++ [r]) = [] := by
  rw [fromFirst, List.dropWhile_append, if_pos (by simpa [fromFirst] using hnil)]
  simp [hr]

theorem behindLast_concat_of_creation (hr : r.isCreation = true) : behindLast (h ++ [r]) = [] :=
  List.rtakeWhile_concat_neg _ _ _ (by simp [hr])

theorem behindLast_concat (hr : r.isCreation = false) :
    behindLast (h ++ [r]) = behindLast h ++ [r] :=
  List.rtakeWhile_concat_pos _ _ _ (by simp [hr])

end Concat

/-! ### What a history says -/

/-- **What a history says of its quota.** -/
structure Narrates (h : List Record) (c : Account) : Prop where
  /-- The quota exists if it was created. -/
  standing : c.standing = none ↔ fromFirst h = []
  /-- The units granted behind the last creation are counted, as far as a count goes. -/
  reserved : ∀ st, c.standing = some st →
    st.reserved = UInt32.ofNat (unitsOf (behindLast (fromFirst h)))
  /-- The terms are those set last. -/
  terms : ∀ st, c.standing = some st → (h.filterMap Record.terms?).getLast? = some st.terms
  /-- The allocations granted from the first creation on are listed. -/
  ids : c.ids = (fromFirst h).filterMap Record.grant?

namespace Narrates

variable {h : List Record} {c : Account}

/-- A creation starts the count afresh and leaves the list as it is. -/
theorem created (hc : Narrates h c) (id : Ulid) (terms : Terms) (version : Version) :
    Narrates (h ++ [.created id terms version]) (c.after (.created id terms version)) where
  standing := by
    rw [fromFirst_concat_of_creation rfl]
    simp [Account.after]
  reserved st hst := by
    cases hst
    rw [fromFirst_concat_of_creation rfl, behindLast_concat_of_creation rfl]
    rfl
  terms st hst := by
    cases hst
    simp [Record.terms?, Standing.opening]
  ids := by
    rw [fromFirst_concat_of_creation rfl, List.filterMap_append]
    simp [Account.after, hc.ids, Record.grant?]

/-- A record about a quota that exists. -/
theorem changed (hc : Narrates h c) {st : Standing} (hst : c.standing = some st) {r : Record}
    (hr : r.isCreation = false)
    (hreserved : (st.after r).reserved =
      UInt32.ofNat (unitsOf (behindLast (fromFirst h) ++ [r])))
    (hterms : ((h ++ [r]).filterMap Record.terms?).getLast? = some (st.after r).terms) :
    Narrates (h ++ [r]) ⟨some (st.after r), c.ids ++ r.grant?.toList⟩ := by
  have hne : fromFirst h ≠ [] := fun hnil => by simp [hc.standing.2 hnil] at hst
  have hfirst := fromFirst_concat_of_ne_nil (r := r) hne
  refine ⟨by simp [hfirst], ?_, ?_, ?_⟩
  · intro st' hst'
    cases hst'
    rw [hfirst, behindLast_concat hr]
    exact hreserved
  · intro st' hst'
    cases hst'
    exact hterms
  · rw [hfirst, List.filterMap_append, hc.ids]
    cases hg : r.grant? <;> simp [hg]

/-- A record about a quota that was not created says nothing. -/
theorem idle (hc : Narrates h c) (hnone : c.standing = none) {r : Record}
    (hr : r.isCreation = false) : Narrates (h ++ [r]) c := by
  have hnil := hc.standing.1 hnone
  have hfirst := fromFirst_concat_of_nil (r := r) hnil hr
  refine ⟨by simp [hfirst, hnone], ?_, ?_, ?_⟩
  · exact fun st hst => by simp [hnone] at hst
  · exact fun st hst => by simp [hnone] at hst
  · rw [hfirst, hc.ids, hnil]

/-- **What one more record makes of what a history says.** -/
theorem after (hc : Narrates h c) (r : Record) : Narrates (h ++ [r]) (c.after r) := by
  cases r with
  | created id terms version => exact hc.created id terms version
  | revised id terms version =>
      cases hst : c.standing with
      | none =>
          simp only [Account.after, hst]
          exact hc.idle hst rfl
      | some st =>
          simp only [Account.after, hst]
          refine hc.changed hst rfl ?_ (by simp [Record.terms?, Standing.after])
          rw [unitsOf_append]
          exact hc.reserved st hst
  | allocated a version =>
      cases hst : c.standing with
      | none =>
          simp only [Account.after, hst]
          exact hc.idle hst rfl
      | some st =>
          simp only [Account.after, hst]
          refine hc.changed hst rfl ?_ ?_
          · have hunits : unitsOf [.allocated a version] = a.quantity.toNat := by
              simp [unitsOf, Record.allocation?]
            rw [unitsOf_append, hunits, UInt32.ofNat_add, UInt32.ofNat_toNat, ← hc.reserved st hst]
            rfl
          · rw [List.filterMap_append]
            simp [Record.terms?, Standing.after, hc.terms st hst]

/-- **What a history says of its quota, record by record.** -/
theorem foldl (h : List Record) : Narrates h (h.foldl Account.after .none) := by
  induction h using List.reverseRecOn with
  | nil =>
      refine ⟨by simp [Account.none, fromFirst], ?_, ?_, rfl⟩
      · exact fun st hst => by simp [Account.none] at hst
      · exact fun st hst => by simp [Account.none] at hst
  | append_singleton h r ih =>
      rw [List.foldl_append]
      exact ih.after r

end Narrates

/-! ### The order of findings -/

/-- The quota that a finding is about. -/
def Finding.quota : Finding → Ulid
  | ledgerMismatch quota _ _ => quota
  | overBound quota _ _ => quota

/-- **The order of findings.**  They ascend with the quotas, and of one quota the mismatch comes
first.  So of two findings of one kind on one quota neither comes before the other. -/
inductive Finding.Before : Finding → Finding → Prop where
  /-- The quotas ascend. -/
  | ascending {f g : Finding} (h : f.quota.bits < g.quota.bits) : Before f g
  /-- The mismatch comes first. -/
  | sameQuota (quota : Ulid) (reserved : UInt32) (ledgerTotal : Nat) (reserved' : UInt32)
    (bound : Nat) :
    Before (.ledgerMismatch quota reserved ledgerTotal) (.overBound quota reserved' bound)

/-- What is found about a quota is about this quota. -/
theorem Quota.quota_of_mem_findings {q : Quota} {total : Nat} {f : Finding}
    (h : f ∈ q.findings total) : f.quota = q.id := by
  rcases mem_findings_iff.1 h with ⟨_, rfl⟩ | ⟨_, rfl⟩ <;> rfl

theorem Quota.pairwise_findings (q : Quota) (total : Nat) :
    (q.findings total).Pairwise Finding.Before := by
  unfold findings
  refine List.pairwise_append.2 ⟨?_, ?_, ?_⟩
  · split
    · exact List.pairwise_singleton _ _
    · exact List.Pairwise.nil
  · split
    · exact List.Pairwise.nil
    · exact List.pairwise_singleton _ _
  · intro f hf g hg
    split at hf
    · split at hg
      · cases hg
      · cases List.mem_singleton.1 hf
        cases List.mem_singleton.1 hg
        exact .sameQuota _ _ _ _ _
    · cases hf

namespace Tables

variable {t : Tables}

/-- Identifiers are listed in ascending order. -/
theorem pairwise_ids (t : Tables) : t.ids.Pairwise fun a b => a.bits < b.bits := by
  have hordered : t.ids.Pairwise fun a b => compare a b = .lt := Std.ExtTreeMap.ordered_keys
  exact hordered.imp fun h => BitVec.lt_def.2 (Nat.compare_eq_lt.1 h)

/-- **Findings come in order, and none comes twice.** -/
theorem pairwise_audit (t : Tables) : t.audit.Pairwise Finding.Before := by
  refine List.pairwise_flatMap.2 ⟨fun q _ => q.pairwise_findings _, ?_⟩
  refine List.pairwise_filterMap.2 (t.pairwise_ids.imp ?_)
  intro a b hlt q hq q' hq' f hf g hg
  obtain ⟨_, rfl⟩ := quota?_eq_some_iff.1 hq
  obtain ⟨_, rfl⟩ := quota?_eq_some_iff.1 hq'
  refine .ascending ?_
  rw [Quota.quota_of_mem_findings hf, Quota.quota_of_mem_findings hg]
  exact hlt

/-- What it means that the audit finds a quota beyond its bound. -/
theorem overBound_mem_audit_iff {id : Ulid} {reserved : UInt32} {bound : Nat} :
    .overBound id reserved bound ∈ t.audit ↔
      ∃ s, t.standings[id]? = some s ∧ s.reserved = reserved ∧ s.terms.bound = bound ∧
        bound < reserved.toNat := by
  constructor
  · intro h
    obtain ⟨id', s, hs, ⟨_, hf⟩ | ⟨hover, hf⟩⟩ := mem_audit_iff.1 h
    · cases hf
    · cases hf
      exact ⟨s, hs, rfl, rfl, hover⟩
  · rintro ⟨s, hs, rfl, rfl, hover⟩
    exact mem_audit_iff.2 ⟨id, s, hs, .inr ⟨hover, rfl⟩⟩

/-! ### The tables of a log -/

section OfRecords

variable {rs : List Record} {quota : Ulid}

/-- What the history of a quota says is what the tables say of it. -/
theorem narrates_ofRecords (rs : List Record) (quota : Ulid) :
    Narrates (history rs quota) ((ofRecords rs).account quota) := by
  rw [account_ofRecords]
  exact Narrates.foldl _

/-- An allocation that is listed is the one that was granted, if no identifier is granted twice. -/
theorem find?_of_granted (hnodup : (rs.filterMap Record.grant?).Nodup) {a : Allocation}
    {version : Version} (ha : .allocated a version ∈ rs)
    (hlisted : a.id ∈ (ofRecords rs).ledger.ids quota) :
    (ofRecords rs).ledger.find? a.id = some a := by
  obtain ⟨b, hb⟩ := Ledger.find?_of_mem_ids hlisted
  obtain ⟨v, hv⟩ := (Traced.ofRecords rs).granted a.id b hb
  rw [hb, allocation_eq_of_nodup hnodup hv ha (Ledger.id_of_find? hb)]

/-- **The allocations listed for a quota are those granted during its lifetime.** -/
theorem entries_ofRecords (hnodup : (rs.filterMap Record.grant?).Nodup) (quota : Ulid) :
    (ofRecords rs).ledger.entries quota =
      (lifetime rs quota).filterMap Record.allocation? := by
  have hids : (ofRecords rs).ledger.ids quota = (lifetime rs quota).filterMap Record.grant? :=
    (narrates_ofRecords rs quota).ids
  have hfound : ∀ r ∈ lifetime rs quota,
      r.grant?.bind (ofRecords rs).ledger.find? = r.allocation? := by
    intro r hr
    cases r with
    | created id terms version => rfl
    | revised id terms version => rfl
    | allocated a version =>
        have hin : .allocated a version ∈ rs :=
          (mem_history.1 ((List.dropWhile_sublist _).subset hr)).1
        have hlisted : a.id ∈ (ofRecords rs).ledger.ids quota :=
          hids ▸ List.mem_filterMap.2 ⟨_, hr, rfl⟩
        exact find?_of_granted hnodup hin hlisted
  rw [Ledger.entries, hids, List.filterMap_filterMap]
  exact List.filterMap_congr hfound

/-- **The units listed are those lost and those kept.** -/
theorem total_ofRecords (hnodup : (rs.filterMap Record.grant?).Nodup) (quota : Ulid) :
    (ofRecords rs).ledger.total quota = unitsLost rs quota + unitsKept rs quota := by
  rw [total_eq_sum, entries_ofRecords hnodup, ← unitsOf_lifetime, unitsOf]

/-- The units reserved are those kept, if these can be counted. -/
theorem reserved_ofRecords (hcount : unitsKept rs quota < UInt32.size) {st : Standing}
    (hst : (ofRecords rs).standings[quota]? = some st) :
    st.reserved.toNat = unitsKept rs quota := by
  rw [(narrates_ofRecords rs quota).reserved st hst]
  exact UInt32.toNat_ofNat_of_lt' hcount

/-- The terms are those set last. -/
theorem terms_ofRecords {st : Standing} (hst : (ofRecords rs).standings[quota]? = some st) :
    lastTerms? rs quota = some st.terms :=
  (narrates_ofRecords rs quota).terms st hst

/-- A quota of which units were lost or kept exists. -/
theorem exists_of_units (h : 0 < unitsLost rs quota + unitsKept rs quota) :
    ∃ st, (ofRecords rs).standings[quota]? = some st := by
  rw [← Option.ne_none_iff_exists']
  intro hnone
  have hnil : lifetime rs quota = [] := (narrates_ofRecords rs quota).standing.1 hnone
  rw [← unitsOf_lifetime, hnil] at h
  exact Nat.lt_irrefl 0 h

end OfRecords

/-! ### What the audit says -/

/-- **What the audit says of any log** in which no identifier is granted twice and the units kept of
every quota can be counted.  It reports a mismatch just for the quotas of which units were lost, and
the sum of the allocations is too large by exactly these units.  It reports a quota as beyond its
bound just if the units kept are more than the terms set last allow.  The findings ascend with the
quotas, with the mismatch first, and there is at most one of each kind for a quota. -/
theorem audit_ofRecords {rs : List Record} (hnodup : (rs.filterMap Record.grant?).Nodup)
    (hcount : ∀ quota, unitsKept rs quota < UInt32.size) :
    (∀ quota,
      ((∃ reserved total, .ledgerMismatch quota reserved total ∈ (ofRecords rs).audit) ↔
        0 < unitsLost rs quota) ∧
      ∀ reserved total, .ledgerMismatch quota reserved total ∈ (ofRecords rs).audit →
        reserved.toNat = unitsKept rs quota ∧
          total - reserved.toNat = unitsLost rs quota ∧ reserved.toNat ≤ total) ∧
    (∀ quota,
      ((∃ reserved bound, .overBound quota reserved bound ∈ (ofRecords rs).audit) ↔
        ∃ terms, lastTerms? rs quota = some terms ∧ terms.bound < unitsKept rs quota) ∧
      ∀ reserved bound, .overBound quota reserved bound ∈ (ofRecords rs).audit →
        reserved.toNat = unitsKept rs quota ∧
          ∃ terms, lastTerms? rs quota = some terms ∧ bound = terms.bound) ∧
    (ofRecords rs).audit.Pairwise Finding.Before := by
  refine ⟨fun quota => ⟨⟨?_, ?_⟩, ?_⟩, fun quota => ⟨⟨?_, ?_⟩, ?_⟩, pairwise_audit _⟩
  · rintro ⟨reserved, total, hmem⟩
    obtain ⟨st, hst, rfl, rfl, hne⟩ := ledgerMismatch_mem_audit_iff.1 hmem
    rw [reserved_ofRecords (hcount quota) hst, total_ofRecords hnodup] at hne
    omega
  · intro hlost
    have hunits : 0 < unitsLost rs quota + unitsKept rs quota := by omega
    obtain ⟨st, hst⟩ := exists_of_units hunits
    refine ⟨_, _, ledgerMismatch_mem_audit_iff.2 ⟨st, hst, rfl, rfl, ?_⟩⟩
    rw [reserved_ofRecords (hcount quota) hst, total_ofRecords hnodup]
    omega
  · intro reserved total hmem
    obtain ⟨st, hst, rfl, rfl, _⟩ := ledgerMismatch_mem_audit_iff.1 hmem
    rw [reserved_ofRecords (hcount quota) hst, total_ofRecords hnodup]
    exact ⟨rfl, Nat.add_sub_cancel _ _, Nat.le_add_left _ _⟩
  · rintro ⟨reserved, bound, hmem⟩
    obtain ⟨st, hst, rfl, rfl, hover⟩ := overBound_mem_audit_iff.1 hmem
    rw [reserved_ofRecords (hcount quota) hst] at hover
    exact ⟨st.terms, terms_ofRecords hst, hover⟩
  · rintro ⟨terms, hterms, hover⟩
    have hunits : 0 < unitsLost rs quota + unitsKept rs quota := by omega
    obtain ⟨st, hst⟩ := exists_of_units hunits
    obtain rfl := Option.some.inj (hterms.symm.trans (terms_ofRecords hst))
    refine ⟨_, _, overBound_mem_audit_iff.2 ⟨st, hst, rfl, rfl, ?_⟩⟩
    rw [reserved_ofRecords (hcount quota) hst]
    exact hover
  · intro reserved bound hmem
    obtain ⟨st, hst, rfl, rfl, _⟩ := overBound_mem_audit_iff.1 hmem
    exact ⟨reserved_ofRecords (hcount quota) hst, _, terms_ofRecords hst, rfl⟩

/-- Terms with this much room. -/
def roomFor (capacity : UInt32) : Terms := ⟨⟨capacity, 0⟩, "Süd", "ferry", tourDay⟩

/-- Three units are granted of a quota that is not there yet; then it is created, two units are
granted, it is created again with room for one unit, and two more are granted.  Four units of
another quota are granted, and then its room is cut down to three. -/
def createdTwice : List Record :=
  [.allocated ⟨⟨11⟩, ⟨1⟩, none, 3, 0⟩ ⟨⟨11⟩⟩, .created ⟨1⟩ (roomFor 3) ⟨⟨12⟩⟩,
   .created ⟨2⟩ (roomFor 5) ⟨⟨13⟩⟩, .allocated ⟨⟨14⟩, ⟨1⟩, none, 2, 1⟩ ⟨⟨14⟩⟩,
   .created ⟨1⟩ (roomFor 1) ⟨⟨15⟩⟩, .allocated ⟨⟨16⟩, ⟨2⟩, none, 4, 2⟩ ⟨⟨16⟩⟩,
   .revised ⟨2⟩ (roomFor 3) ⟨⟨17⟩⟩, .allocated ⟨⟨18⟩, ⟨1⟩, none, 2, 3⟩ ⟨⟨18⟩⟩]

/-- Of the first quota two units are lost, and the two that are kept are too many.  Of the second
one no units are lost, and the four that are kept are too many. -/
theorem audit_ofRecords_created_twice :
    (createdTwice.filterMap Record.grant?).Nodup ∧
      (∀ quota, unitsKept createdTwice quota < UInt32.size) ∧
      unitsLost createdTwice ⟨1⟩ = 2 ∧ unitsKept createdTwice ⟨1⟩ = 2 ∧
      (∃ reserved total, .ledgerMismatch ⟨1⟩ reserved total ∈ (ofRecords createdTwice).audit) ∧
      (∃ reserved bound, .overBound ⟨1⟩ reserved bound ∈ (ofRecords createdTwice).audit) ∧
      (¬ ∃ reserved total, .ledgerMismatch ⟨2⟩ reserved total ∈ (ofRecords createdTwice).audit) ∧
      (∃ reserved bound, .overBound ⟨2⟩ reserved bound ∈ (ofRecords createdTwice).audit) ∧
      (ofRecords createdTwice).audit.Pairwise Finding.Before ∧
      (ofRecords createdTwice).audit =
        [.ledgerMismatch ⟨1⟩ 2 4, .overBound ⟨1⟩ 2 1, .overBound ⟨2⟩ 4 3] := by
  have hnodup : (createdTwice.filterMap Record.grant?).Nodup := by decide
  have hcount : ∀ quota, unitsKept createdTwice quota < UInt32.size := fun quota =>
    Nat.lt_of_le_of_lt (unitsKept_le createdTwice quota) (by decide)
  obtain ⟨hlost, hover, hordered⟩ := audit_ofRecords hnodup hcount
  exact ⟨hnodup, hcount, by decide, by decide, (hlost ⟨1⟩).1.2 (by decide),
    (hover ⟨1⟩).1.2 ⟨roomFor 1, by decide, by decide⟩,
    fun h => absurd ((hlost ⟨2⟩).1.1 h) (by decide),
    (hover ⟨2⟩).1.2 ⟨roomFor 3, by decide, by decide⟩, hordered, by decide +kernel⟩

end Tables

end Allotment
