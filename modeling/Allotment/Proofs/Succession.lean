/-
**Conditional writes come one after the other.**

Any number of clients make conditional writes, each for a version that it got from somewhere: it may
be the present one, an old one, one of another quota, or one that it made up.  The store takes the
writes one at a time.  This module says what a whole sequence of them does to a quota.

The writes that take effect on a quota form a chain: each was made for the version that the one
before it has produced.  As versions never come back, no version is the basis of two of them, so
no update is lost and none is made twice.  The quota, the list of its allocations and the table in
which an allocation is found are three places, each changed on its own; what the chain says about
one of them it says about all three.

Main definitions:

* `Allotment.Succession.after`, `Allotment.Succession.accepted` — the store after some writes, and
  the writes among them that took effect;
* `Allotment.Succession.Chained` — each write was made for the version of the one before it;
* `Allotment.Succession.Answered` — how a single write is answered;
* `Allotment.Succession.Proper` — what is assumed of the writes;
* `Allotment.Succession.Linear` — what the writes have done.

Main results:

* `Allotment.Succession.Linear.taken`, `Allotment.Succession.Linear.refused` — what one write in
  front of others does;
* `Allotment.Succession.linear_of_proper` — **the writes on a quota are linearized by its version**.
-/

import Mathlib.Algebra.GroupWithZero.Nat
import Mathlib.Data.List.Nodup
import Allotment.Store.Group
import Allotment.Proofs.Agreement

set_option relaxedAutoImplicit false
set_option autoImplicit false

namespace Allotment

/-! ### What a write brings -/

/-- The claim that a write grants, if it grants one. -/
def Write.grant? (w : Write) : Option Allocation :=
  match w.change with
  | .allocate a => some a
  | .revise _ => none

/-- The terms that a write sets, if it sets any. -/
def Write.terms? (w : Write) : Option Terms :=
  match w.change with
  | .allocate _ => none
  | .revise terms => some terms

namespace Succession

/-- The writes on one quota. -/
def on (quota : Ulid) (ws : List Submission) : List Submission := ws.filter (·.write.quota = quota)

/-- The claims that writes grant, in order. -/
def grants (ws : List Submission) : List Allocation := ws.filterMap (·.write.grant?)

/-- The units that writes grant. -/
def units (ws : List Submission) : Nat := ((grants ws).map (·.quantity.toNat)).sum

/-- **Each write was made for the version of the one before it**, the first for `v`. -/
def Chained (v : Version) : List Submission → Prop
  | [] => True
  | w :: ws => w.write.expected = v ∧ Chained w.version ws

@[simp] theorem on_nil (quota : Ulid) : on quota [] = [] := rfl

theorem on_cons (quota : Ulid) (w : Submission) (ws : List Submission) :
    on quota (w :: ws) = if w.write.quota = quota then w :: on quota ws else on quota ws := by
  simp [on, List.filter_cons]

theorem mem_on {quota : Ulid} {w : Submission} {ws : List Submission} :
    w ∈ on quota ws ↔ w ∈ ws ∧ w.write.quota = quota := by
  simp [on, List.mem_filter]

theorem grants_cons (w : Submission) (ws : List Submission) :
    grants (w :: ws) = w.write.grant?.toList ++ grants ws := by
  unfold grants
  cases h : w.write.grant? with
  | none => simp [h]
  | some a => simp [h]

theorem units_cons (w : Submission) (ws : List Submission) :
    units (w :: ws) = (w.write.grant?.toList.map (·.quantity.toNat)).sum + units ws := by
  simp [units, grants_cons]

/-- The versions that the writes of a chain were made for are the first one and those that they
produced, the last one apart. -/
theorem Chained.map_expected {v : Version} {ws : List Submission} (h : Chained v ws) :
    ws.map (·.write.expected) = (v :: ws.map (·.version)).dropLast := by
  induction ws generalizing v with
  | nil => rfl
  | cons w ws ih =>
      obtain ⟨hv, hrest⟩ := h
      rw [List.map_cons, List.map_cons, List.dropLast_cons_cons, ih hrest, hv]

/-- A write of a chain was made for the first version or for one that a write of the chain
produced. -/
theorem Chained.expected_mem {v : Version} {ws : List Submission} (h : Chained v ws)
    {w : Submission} (hw : w ∈ ws) :
    w.write.expected = v ∨ ∃ u ∈ ws, u.version = w.write.expected := by
  have hmem : w.write.expected ∈ ws.map (·.write.expected) := List.mem_map_of_mem hw
  rw [h.map_expected] at hmem
  rcases List.mem_cons.1 (List.dropLast_subset _ hmem) with heq | hmem
  · exact Or.inl heq
  · exact Or.inr (List.mem_map.1 hmem)

/-! ### One write after the other -/

variable {ι : Type} [Journal ι]

/-- The store after writes that are made one after the other. -/
def after (s : Store ι) (ws : List Submission) : Store ι :=
  ws.foldl (fun s w => (s.commit w.write w.version).2) s

/-- The writes that take effect, in the order in which they do. -/
def accepted (s : Store ι) : List Submission → List Submission
  | [] => []
  | w :: ws =>
    match s.commit w.write w.version with
    | (.ok _, s') => w :: accepted s' ws
    | (.error _, s') => accepted s' ws

/-- **How a write is answered**: it takes effect if its quota exists at the version for which it was
made; otherwise it is refused and nothing changes. -/
inductive Answered (s : Store ι) (w : Submission) : Prop
  | granted (st : Standing) (q : Quota) :
      s.tables.standings[w.write.quota]? = some st → st.version = w.write.expected →
      (s.commit w.write w.version).1 = .ok q → q.version = w.version → Answered s w
  | unknown :
      s.tables.standings[w.write.quota]? = none →
      s.commit w.write w.version = (.error (.unknownQuota w.write.quota), s) → Answered s w
  | late (st : Standing) :
      s.tables.standings[w.write.quota]? = some st → st.version ≠ w.write.expected →
      s.commit w.write w.version =
        (.error (.versionMismatch w.write.quota w.write.expected st.version), s) → Answered s w

omit [Journal ι] in
/-- **What is assumed of a write that is in time**: a claim that it grants names the quota of the
write and has an unused identifier, and its units are added to `st` without wrapping. -/
structure Fitting (s : Store ι) (w : Submission) (st : Standing) : Prop where
  /-- The claim is on the quota of the write. -/
  named : ∀ a, w.write.grant? = some a → a.quota = w.write.quota
  /-- No allocation has the identifier yet. -/
  unused : ∀ a, w.write.grant? = some a → s.tables.ledger.find? a.id = none
  /-- The units reserved stay in range. -/
  room : ∀ a, w.write.grant? = some a → st.reserved.toNat + a.quantity.toNat < UInt32.size

/-- **What is assumed of writes**, whatever versions they were made for: each fits if it is in time,
and the versions that they give are new and never repeat. -/
structure Proper (s : Store ι) (ws : List Submission) : Prop where
  /-- A write that is in time fits. -/
  fitting : ∀ front w back, ws = front ++ w :: back → ∀ st,
    (after s front).checkWrite w.write = .ok st → Fitting (after s front) w st
  /-- No version is given twice. -/
  fresh : ((accepted s ws).map (·.version)).Nodup
  /-- No version that is given was there before. -/
  new : ∀ w ∈ accepted s ws, ∀ (i : Ulid) st, s.tables.standings[i]? = some st →
    st.version ≠ w.version

/-- **What writes have done to the quotas and the ledger.** -/
structure Linear (s : Store ι) (ws : List Submission) : Prop where
  /-- Each write is answered by the version that its quota has at that moment. -/
  answered : ∀ front w back, ws = front ++ w :: back → Answered (after s front) w
  /-- The writes that took effect on a quota form a chain from the version it had. -/
  chained : ∀ (i : Ulid) st, s.tables.standings[i]? = some st →
    Chained st.version (on i (accepted s ws))
  /-- A quota has the terms set last, what was reserved and the units granted since, and the version
  given last. -/
  standings : ∀ (i : Ulid) st, s.tables.standings[i]? = some st →
    ∃ st', (after s ws).tables.standings[i]? = some st' ∧
      st'.terms = ((on i (accepted s ws)).filterMap (·.write.terms?)).getLastD st.terms ∧
      st'.reserved.toNat = st.reserved.toNat + units (on i (accepted s ws)) ∧
      st'.version = ((on i (accepted s ws)).map (·.version)).getLastD st.version
  /-- No quota comes into being. -/
  absent : ∀ i : Ulid, s.tables.standings[i]? = none →
    (after s ws).tables.standings[i]? = none ∧ on i (accepted s ws) = []
  /-- The claims granted are listed behind those of before, in the order of granting. -/
  entries : ∀ i : Ulid, (after s ws).tables.ledger.entries i =
    s.tables.ledger.entries i ++ grants (on i (accepted s ws))
  /-- They are found by their identifiers, and so are those of before. -/
  found : ∀ (k : Ulid) (a : Allocation), (after s ws).tables.ledger.find? k = some a ↔
    s.tables.ledger.find? k = some a ∨ (a ∈ grants (accepted s ws) ∧ a.id = k)

@[simp] theorem after_nil (s : Store ι) : after s [] = s := rfl

theorem after_cons (s : Store ι) (w : Submission) (ws : List Submission) :
    after s (w :: ws) = after (s.commit w.write w.version).2 ws := rfl

theorem accepted_of_ok {s : Store ι} {w : Submission} {q : Quota}
    (h : (s.commit w.write w.version).1 = .ok q) (ws : List Submission) :
    accepted s (w :: ws) = w :: accepted (s.commit w.write w.version).2 ws := by
  rcases hc : s.commit w.write w.version with ⟨_ | _, s'⟩
  · simp [hc] at h
  · simp [accepted, hc]

theorem accepted_of_error {s : Store ι} {w : Submission} {e : Failure}
    (h : (s.commit w.write w.version).1 = .error e) (ws : List Submission) :
    accepted s (w :: ws) = accepted (s.commit w.write w.version).2 ws := by
  rcases hc : s.commit w.write w.version with ⟨_ | _, s'⟩
  · simp [accepted, hc]
  · simp [hc] at h

/-! ### What one write does -/

/-- Without journals that refuse, a write either is in time and takes effect, or changes
nothing. -/
theorem commit_cases {P : ι → Prop} (hO : Journal.Obliging P) {s : Store ι} (h : P s.journal)
    (w : Submission) :
    (∃ st q, s.checkWrite w.write = .ok st ∧ (s.commit w.write w.version).1 = .ok q ∧
      q.version = (st.after w.record).version ∧
      (s.commit w.write w.version).2.tables = s.tables.commit w.write.quota st w.record) ∨
    (∃ e, s.checkWrite w.write = .error e ∧ s.commit w.write w.version = (.error e, s)) := by
  rcases s.commit_cases w.write w.version with
    ⟨e, hc, he⟩ | ⟨st, e, j, _, ha, _⟩ | ⟨st, j, hc, _, he⟩
  · exact Or.inr ⟨e, hc, he⟩
  · have htaken := hO s.journal [w.write.record w.version] h
    rw [ha] at htaken
    cases htaken
  · refine Or.inl ⟨st, ⟨st.after w.record, w.write.quota⟩, hc, ?_⟩
    rw [he]
    exact ⟨rfl, rfl, rfl⟩

section Taken

variable {s : Store ι} {w : Submission} {st : Standing}

omit [Journal ι]

@[simp] theorem version_after (st : Standing) (w : Submission) :
    (st.after w.record).version = w.version := by
  obtain ⟨⟨quota, expected, change⟩, version⟩ := w
  cases change with
  | allocate a => rfl
  | revise terms => rfl

theorem terms_after (st : Standing) (w : Submission) :
    (st.after w.record).terms = w.write.terms?.getD st.terms := by
  obtain ⟨⟨quota, expected, change⟩, version⟩ := w
  cases change with
  | allocate a => rfl
  | revise terms => rfl

theorem reserved_after (h : Fitting s w st) :
    (st.after w.record).reserved.toNat =
      st.reserved.toNat + (w.write.grant?.toList.map (·.quantity.toNat)).sum := by
  obtain ⟨⟨quota, expected, change⟩, version⟩ := w
  cases change with
  | allocate a =>
      have hroom := h.room a rfl
      change (st.reserved + a.quantity).toNat = _
      rw [UInt32.toNat_add, Nat.mod_eq_of_lt hroom]
      simp [Write.grant?]
  | revise terms => rfl

theorem entries_after (h : Fitting s w st) (i : Ulid) :
    (s.tables.commit w.write.quota st w.record).ledger.entries i =
      if w.write.quota = i then s.tables.ledger.entries i ++ w.write.grant?.toList
      else s.tables.ledger.entries i := by
  obtain ⟨⟨quota, expected, change⟩, version⟩ := w
  cases change with
  | allocate a =>
      have hnamed : a.quota = quota := h.named a rfl
      change (s.tables.ledger.record a).entries i = _
      rw [Ledger.entries_record (h.unused a rfl), hnamed]
      rfl
  | revise terms =>
      change s.tables.ledger.entries i = _
      simp [Write.grant?]

theorem find?_after (h : Fitting s w st) (k : Ulid) (a : Allocation) :
    (s.tables.commit w.write.quota st w.record).ledger.find? k = some a ↔
      s.tables.ledger.find? k = some a ∨ (w.write.grant? = some a ∧ a.id = k) := by
  obtain ⟨⟨quota, expected, change⟩, version⟩ := w
  cases change with
  | allocate b =>
      have hunused : s.tables.ledger.find? b.id = none := h.unused b rfl
      change (s.tables.ledger.record b).find? k = some a ↔ _ ∨ (some b = some a ∧ _)
      rw [Ledger.find?_record]
      by_cases hk : b.id = k
      · subst hk
        simp only [if_true, hunused, Option.some.injEq, reduceCtorEq, false_or]
        exact ⟨fun heq => ⟨heq, heq ▸ rfl⟩, fun heq => heq.1⟩
      · simp only [hk, if_false, Option.some.injEq]
        refine ⟨Or.inl, ?_⟩
        rintro (hold | ⟨rfl, hid⟩)
        · exact hold
        · exact absurd hid hk
  | revise terms =>
      change s.tables.ledger.find? k = some a ↔ _ ∨ (none = some a ∧ _)
      simp

end Taken

/-! ### What a sequence of writes does -/

namespace Linear

variable {s : Store ι} {w : Submission} {ws : List Submission}

theorem nil (s : Store ι) : Linear s [] where
  answered front w back h := by simp at h
  chained i st h := trivial
  standings i st h := ⟨st, h, rfl, rfl, rfl⟩
  absent i h := ⟨h, rfl⟩
  entries i := (List.append_nil _).symm
  found k a := by simp [accepted, grants]

omit [Journal ι] in
/-- A write at the beginning is looked at on its own. -/
theorem forall_moment {p : List Submission → Submission → Prop} (hfirst : p [] w)
    (hrest : ∀ front u back, ws = front ++ u :: back → p (w :: front) u) :
    ∀ front u back, w :: ws = front ++ u :: back → p front u := by
  intro front u back heq
  cases front with
  | nil =>
      obtain ⟨rfl, _⟩ := List.cons.inj heq
      exact hfirst
  | cons first front =>
      obtain ⟨rfl, hback⟩ := List.cons.inj heq
      exact hrest front u back hback

/-- A write that was refused in front changes nothing. -/
theorem refused {e : Failure} (hc : s.checkWrite w.write = .error e)
    (he : s.commit w.write w.version = (.error e, s)) (h : Linear s ws) : Linear s (w :: ws) := by
  have hsame : (s.commit w.write w.version).2 = s := by rw [he]
  have hafter : ∀ us, after s (w :: us) = after s us := fun us => by rw [after_cons, hsame]
  have haccepted : accepted s (w :: ws) = accepted s ws := by
    rw [accepted_of_error (congrArg Prod.fst he), hsame]
  refine ⟨?_, ?_, ?_, ?_, ?_, ?_⟩
  · refine forall_moment ?_ fun front u back heq => by
      rw [hafter]
      exact h.answered front u back heq
    rcases Store.eq_of_checkWrite_eq_error hc with ⟨hnone, rfl⟩ | ⟨st, hsome, hv, rfl⟩
    · exact .unknown hnone he
    · exact .late st hsome hv he
  · rw [haccepted]
    exact h.chained
  · rw [haccepted, hafter]
    exact h.standings
  · rw [haccepted, hafter]
    exact h.absent
  · rw [haccepted, hafter]
    exact h.entries
  · rw [haccepted, hafter]
    exact h.found

/-- A write that took effect in front is the first link of the chain on its quota, and what it
brings comes before all else. -/
theorem taken {st : Standing} {q : Quota} (hfit : Fitting s w st)
    (hc : s.checkWrite w.write = .ok st) (hok : (s.commit w.write w.version).1 = .ok q)
    (hq : q.version = (st.after w.record).version)
    (ht : (s.commit w.write w.version).2.tables = s.tables.commit w.write.quota st w.record)
    (h : Linear (s.commit w.write w.version).2 ws) : Linear s (w :: ws) := by
  obtain ⟨hst, hv⟩ := Store.checkWrite_eq_ok_iff.1 hc
  -- how a quota stands behind the write
  have hself : (s.commit w.write w.version).2.tables.standings[w.write.quota]? =
      some (st.after w.record) := by
    rw [ht, Tables.standings_commit, if_pos rfl]
  have hother : ∀ i : Ulid, w.write.quota ≠ i →
      (s.commit w.write w.version).2.tables.standings[i]? = s.tables.standings[i]? := by
    intro i hi
    rw [ht, Tables.standings_commit, if_neg hi]
  refine ⟨?_, ?_, ?_, ?_, ?_, ?_⟩
  · exact forall_moment (.granted st q hst hv hok (hq.trans (version_after st w))) h.answered
  · intro i st' hi
    rw [accepted_of_ok hok, on_cons]
    by_cases hiw : w.write.quota = i
    · subst hiw
      rw [hst, Option.some.injEq] at hi
      subst hi
      rw [if_pos rfl]
      have hchain := h.chained _ _ hself
      rw [version_after] at hchain
      exact ⟨hv.symm, hchain⟩
    · rw [if_neg hiw]
      exact h.chained i st' ((hother i hiw).trans hi)
  · intro i st' hi
    rw [accepted_of_ok hok, after_cons, on_cons]
    by_cases hiw : w.write.quota = i
    · subst hiw
      rw [hst, Option.some.injEq] at hi
      subst hi
      obtain ⟨st'', hst'', hterms, hreserved, hversion⟩ := h.standings _ _ hself
      refine ⟨st'', hst'', ?_, ?_, ?_⟩
      · rw [hterms, terms_after, if_pos rfl, List.filterMap_cons]
        cases w.write.terms? with
        | none => rfl
        | some terms => rw [List.getLastD_cons, Option.getD_some]
      · rw [hreserved, reserved_after hfit, if_pos rfl, units_cons, Nat.add_assoc]
      · rw [hversion, version_after, if_pos rfl, List.map_cons, List.getLastD_cons]
    · rw [if_neg hiw]
      exact h.standings i st' ((hother i hiw).trans hi)
  · intro i hi
    have hiw : w.write.quota ≠ i := by
      rintro rfl
      rw [hst] at hi
      cases hi
    rw [accepted_of_ok hok, after_cons, on_cons, if_neg hiw]
    exact h.absent i ((hother i hiw).trans hi)
  · intro i
    rw [accepted_of_ok hok, after_cons, h.entries i, ht, entries_after hfit, on_cons]
    by_cases hiw : w.write.quota = i
    · rw [if_pos hiw, if_pos hiw, grants_cons, List.append_assoc]
    · rw [if_neg hiw, if_neg hiw]
  · intro k a
    rw [accepted_of_ok hok, after_cons, h.found k a, ht, find?_after hfit, grants_cons,
      List.mem_append, Option.mem_toList, or_and_right, or_assoc]

end Linear

/-- Writes that fit whenever they are in time, on a store whose journal takes everything. -/
theorem linear_of_fitting {P : ι → Prop} (hP : Journal.Lasting P) (hO : Journal.Obliging P)
    {s : Store ι} (h : s.Over P) {ws : List Submission}
    (hfit : ∀ front w back, ws = front ++ w :: back → ∀ st,
      (after s front).checkWrite w.write = .ok st → Fitting (after s front) w st) :
    Linear s ws := by
  induction ws generalizing s with
  | nil => exact .nil s
  | cons w ws ih =>
      have hrest := ih (h.commit hP w.write w.version) fun front u back heq =>
        hfit (w :: front) u back (congrArg (w :: ·) heq)
      rcases commit_cases hO h.journal w with ⟨st, q, hc, hok, hq, ht⟩ | ⟨e, hc, he⟩
      · exact hrest.taken (hfit [] w ws rfl st hc) hc hok hq ht
      · rw [he] at hrest
        exact hrest.refused hc he

/-! ### No version is the basis of two writes -/

section Once

variable {s : Store ι} {ws : List Submission}

/-- An accepted write is on a quota that was there from the start. -/
theorem Linear.exists_standing (h : Linear s ws) {w : Submission} (hw : w ∈ accepted s ws) :
    ∃ st, s.tables.standings[w.write.quota]? = some st := by
  cases hst : s.tables.standings[w.write.quota]? with
  | some st => exact ⟨st, rfl⟩
  | none =>
      have hon : w ∈ on w.write.quota (accepted s ws) := mem_on.2 ⟨hw, rfl⟩
      rw [(h.absent _ hst).2] at hon
      cases hon

/-- No version is the basis of two writes on a quota. -/
theorem Linear.nodup_expected (h : Linear s ws) (hp : Proper s ws) (i : Ulid) :
    ((on i (accepted s ws)).map (·.write.expected)).Nodup := by
  cases hst : s.tables.standings[i]? with
  | none =>
      rw [(h.absent i hst).2]
      exact List.nodup_nil
  | some st =>
      have hversions : ((on i (accepted s ws)).map (·.version)).Nodup :=
        hp.fresh.sublist (List.filter_sublist.map _)
      have hnew : st.version ∉ (on i (accepted s ws)).map (·.version) := by
        intro hmem
        obtain ⟨w, hw, heq⟩ := List.mem_map.1 hmem
        exact hp.new w (mem_on.1 hw).1 i st hst heq.symm
      rw [(h.chained i st hst).map_expected]
      exact (List.nodup_cons.2 ⟨hnew, hversions⟩).sublist (List.dropLast_sublist _)

/-- A version that two quotas share was theirs from the start: no write gives it to one of them. -/
theorem Linear.expected_eq_start (h : Linear s ws) (hp : Proper s ws) {w u : Submission}
    (hw : w ∈ accepted s ws) (hu : u ∈ accepted s ws) (hquota : w.write.quota ≠ u.write.quota)
    (heq : w.write.expected = u.write.expected) {st : Standing}
    (hst : s.tables.standings[w.write.quota]? = some st) : st.version = w.write.expected := by
  rcases (h.chained _ _ hst).expected_mem (mem_on.2 ⟨hw, rfl⟩) with hstart | ⟨x, hx, hxv⟩
  · exact hstart.symm
  · -- the write `x` that gave the version is on the quota of `w`, so `u` cannot have it
    exfalso
    obtain ⟨hxs, hxq⟩ := mem_on.1 hx
    obtain ⟨st', hst'⟩ := h.exists_standing hu
    rcases (h.chained _ _ hst').expected_mem (mem_on.2 ⟨hu, rfl⟩) with hstart | ⟨y, hy, hyv⟩
    · exact hp.new x hxs _ st' hst' (hstart.symm.trans (heq.symm.trans hxv.symm))
    · obtain ⟨hys, hyq⟩ := mem_on.1 hy
      have hxy : x = y :=
        List.inj_on_of_nodup_map hp.fresh hxs hys (hxv.trans (heq.trans hyv.symm))
      exact hquota (hxq.symm.trans (hxy ▸ hyq))

end Once

/-- **The writes on a quota are linearized by its version.**  Take any quotas and ledger, a journal
that takes everything, and any sequence of writes, made for whatever versions.  Each is answered by
the version that its quota has at that moment.  Those that took effect on a quota form a chain, each
made for the version that the one before it has produced; no version is the basis of two of them,
nor of two on different quotas, unless these shared it from the start.  What the quota, the list of
its allocations and the table of allocations hold in the end is what they held at the start with the
changes of the chain. -/
theorem linear_of_proper {P : ι → Prop} (hP : Journal.Lasting P) (hO : Journal.Obliging P)
    {s : Store ι} (h : s.Over P) {ws : List Submission} (hp : Proper s ws) :
    Linear s ws ∧
      (∀ i : Ulid, ((on i (accepted s ws)).map (·.write.expected)).Nodup) ∧
      ∀ w ∈ accepted s ws, ∀ u ∈ accepted s ws, w.write.quota ≠ u.write.quota →
        w.write.expected = u.write.expected →
        ∃ st st', s.tables.standings[w.write.quota]? = some st ∧
          s.tables.standings[u.write.quota]? = some st' ∧
          st.version = w.write.expected ∧ st'.version = w.write.expected := by
  have hlinear := linear_of_fitting hP hO h hp.fitting
  refine ⟨hlinear, hlinear.nodup_expected hp, ?_⟩
  intro w hw u hu hquota heq
  obtain ⟨st, hst⟩ := hlinear.exists_standing hw
  obtain ⟨st', hst'⟩ := hlinear.exists_standing hu
  exact ⟨st, st', hst, hst', hlinear.expected_eq_start hp hw hu hquota heq hst,
    (hlinear.expected_eq_start hp hu hw hquota.symm heq.symm hst').trans heq.symm⟩

/-! ### Clients that come too late -/

/-- Terms for ten units under a name. -/
def tenUnits (name : String) : Terms := ⟨⟨10, 0⟩, name, "tour", ⟨2026, 9, 20, by decide⟩⟩

/-- How the quota stands: three units are gone. -/
def threeTaken : Standing := ⟨tenUnits "Harbour", 3, ⟨⟨1⟩⟩⟩

/-- A store with this quota. -/
def oneQuota : Store Volatile :=
  .ofTables { Tables.empty with
    standings := Tables.empty.standings.insert ⟨1⟩ threeTaken } .volatile

/-- An allocation of that quota. -/
def unitsOf (id : Ulid) (quantity : UInt32) : Allocation := ⟨id, ⟨1⟩, none, quantity, 0⟩

/-- Two units are granted for the version that the quota has. -/
def inTime : Submission := ⟨⟨⟨1⟩, ⟨⟨1⟩⟩, .allocate (unitsOf ⟨21⟩ 2)⟩, ⟨⟨2⟩⟩⟩

/-- A second client has read the same version and comes too late. -/
def tooLate : Submission := ⟨⟨⟨1⟩, ⟨⟨1⟩⟩, .allocate (unitsOf ⟨22⟩ 1)⟩, ⟨⟨3⟩⟩⟩

/-- The quota gets another name. -/
def renamed : Submission := ⟨⟨⟨1⟩, ⟨⟨2⟩⟩, .revise (tenUnits "Harbour by night")⟩, ⟨⟨4⟩⟩⟩

/-- The second client has read again. -/
def again : Submission := ⟨⟨⟨1⟩, ⟨⟨4⟩⟩, .allocate (unitsOf ⟨22⟩ 1)⟩, ⟨⟨5⟩⟩⟩

/-- What the store is asked for, in this order. -/
def staleSecond : List Submission := [inTime, tooLate, renamed, again]

theorem accepted_staleSecond : accepted oneQuota staleSecond = [inTime, renamed, again] := by
  rfl

theorem proper_staleSecond : Proper oneQuota staleSecond where
  fitting := by
    have first : oneQuota.checkWrite inTime.write = .ok threeTaken := rfl
    have second : (after oneQuota [inTime]).checkWrite tooLate.write =
      .error (.versionMismatch ⟨1⟩ ⟨⟨1⟩⟩ ⟨⟨2⟩⟩) := rfl
    have third : (after oneQuota [inTime, tooLate]).checkWrite renamed.write =
      .ok (threeTaken.after inTime.record) := rfl
    have fourth : (after oneQuota [inTime, tooLate, renamed]).checkWrite again.write =
      .ok ((threeTaken.after inTime.record).after renamed.record) := rfl
    refine Linear.forall_moment ?_ (Linear.forall_moment ?_ (Linear.forall_moment ?_
      (Linear.forall_moment ?_ ?_)))
    · rw [after_nil, first]
      rintro st ⟨⟩
      exact ⟨by rintro a ⟨⟩; rfl, by rintro a ⟨⟩; rfl, by rintro a ⟨⟩; decide⟩
    · rw [second]
      rintro st ⟨⟩
    · rw [third]
      rintro st ⟨⟩
      exact ⟨by rintro a ⟨⟩, by rintro a ⟨⟩, by rintro a ⟨⟩⟩
    · rw [fourth]
      rintro st ⟨⟩
      exact ⟨by rintro a ⟨⟩; rfl, by rintro a ⟨⟩; rfl, by rintro a ⟨⟩; decide⟩
    · intro front w back heq
      simp at heq
  fresh := by
    rw [accepted_staleSecond]
    decide
  new := by
    rw [accepted_staleSecond]
    intro w hw i st hst
    have hv : st = threeTaken := by
      simp only [oneQuota, Store.ofTables, Tables.empty, Std.ExtTreeMap.getElem?_insert] at hst
      split at hst
      · exact (Option.some.inj hst).symm
      · simp at hst
    rw [hv]
    revert w
    decide

/-- Of four writes on a quota the second is made for a version that the first has used up.  It is
refused with the version that the first has given, and its claim is granted when it comes again.
The quota has a new name and six units reserved in the end. -/
theorem linear_of_proper_stale_second :
    Proper oneQuota staleSecond ∧ Linear oneQuota staleSecond ∧
      (after oneQuota [inTime]).commit tooLate.write tooLate.version =
        (.error (.versionMismatch ⟨1⟩ ⟨⟨1⟩⟩ ⟨⟨2⟩⟩), after oneQuota [inTime]) ∧
      ((on ⟨1⟩ (accepted oneQuota staleSecond)).map (·.write.expected)).Nodup ∧
      (after oneQuota staleSecond).tables.ledger.entries ⟨1⟩ = [unitsOf ⟨21⟩ 2, unitsOf ⟨22⟩ 1] ∧
      ∃ st, (after oneQuota staleSecond).tables.standings[(⟨1⟩ : Ulid)]? = some st ∧
        st.terms = tenUnits "Harbour by night" ∧ st.reserved.toNat = 6 ∧ st.version = ⟨⟨5⟩⟩ := by
  obtain ⟨hlinear, honce, _⟩ := linear_of_proper (P := fun _ => True) (fun _ _ _ => trivial)
    (fun _ _ _ => rfl) ⟨trivial, rfl⟩ proper_staleSecond
  refine ⟨proper_staleSecond, hlinear, rfl, honce ⟨1⟩, ?_, ?_⟩
  · rw [hlinear.entries, accepted_staleSecond]
    rfl
  · obtain ⟨st, hst, hterms, hreserved, hversion⟩ :=
      hlinear.standings ⟨1⟩ threeTaken rfl
    rw [accepted_staleSecond] at hterms hreserved hversion
    exact ⟨st, hst, hterms, hreserved, hversion⟩

end Succession

end Allotment
