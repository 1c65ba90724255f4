/-
**How many quotas a store holds.**

A store is given a ceiling, and a quota can be entered in it as long as there are fewer quotas than
that.  The check, the log and the tables are three steps, and each of the first two can end the
matter.  The rules below say when a quota is entered and when it is not; an identifier that is in
use is refused as such, also by a store that is full.  What a failure leaves behind is at most a
journal that has changed: no place is used up, and the same identifier can be entered later as if
nobody had tried.

Everything else that is asked of a store, by one client or by several at a time, leaves it with the
quotas that it has.  So from one moment to the next the store has gained exactly the quotas whose
entering has succeeded.

Main definitions:

* `Allotment.Store.Enters` — the rules for entering a quota;
* `Allotment.Store.SameRoster` — a store with the same quotas;
* `Allotment.Demand`, `Allotment.Desk.heed`, `Allotment.Desk.made` — what may be asked of a desk,
  what it is afterwards, and which quotas are new;
* `Allotment.Desk.Within` — what holds between two calls;
* `Allotment.Store.Exact` — when a quota is entered, and what is left.

Main results:

* `Allotment.Store.insert_eq_iff` — **a quota is entered as the rules say**;
* `Allotment.Desk.Within.heed`, `Allotment.Desk.Within.heedAll` — **what a call and a run add**;
* `Allotment.Ceiling.ceiling_run` — **the ceiling is exact in every run**.
-/

import Allotment.Proofs.Storable
import Allotment.Proofs.Tables.Granted
import Allotment.Proofs.Durable

set_option relaxedAutoImplicit false
set_option autoImplicit false

namespace Allotment

open Tables (Grown)

variable {ι : Type} [Journal ι]

/-! ### Entering a quota -/

namespace Store

/-- **How entering a quota can end**, and the store afterwards. -/
inductive Enters (s : Store ι) (id : Ulid) (terms : Terms) (version : Version) :
    Except Failure Quota → Store ι → Prop where
  /-- There is such a quota. -/
  | known (hin : id ∈ s.tables.standings) :
    Enters s id terms version (.error (.quotaExists id)) s
  /-- There are as many quotas as there may be. -/
  | full (hnew : id ∉ s.tables.standings) (hfull : s.ceiling ≤ s.tables.count) :
    Enters s id terms version (.error (.full s.ceiling)) s
  /-- The journal refuses the record. -/
  | notLogged {e : Fault} {j : ι} (hnew : id ∉ s.tables.standings)
    (hroom : s.tables.count < s.ceiling)
    (happend : Journal.append s.journal [.created id terms version] = (.error e, j)) :
    Enters s id terms version (.error (.notLogged e.text)) { s with journal := j }
  /-- The journal takes the record. -/
  | entered {j : ι} (hnew : id ∉ s.tables.standings) (hroom : s.tables.count < s.ceiling)
    (happend : Journal.append s.journal [.created id terms version] = (.ok (), j)) :
    Enters s id terms version (.ok { Standing.opening terms version with id })
      { s with journal := j, tables := s.tables.install id terms version }

variable {s s' : Store ι} {id : Ulid} {terms : Terms} {version : Version}
  {result : Except Failure Quota}

/-- Some rule always applies. -/
theorem enters (s : Store ι) (id : Ulid) (terms : Terms) (version : Version) :
    ∃ result s', Enters s id terms version result s' := by
  by_cases hin : id ∈ s.tables.standings
  · exact ⟨_, _, .known hin⟩
  rcases Nat.lt_or_ge s.tables.count s.ceiling with hroom | hfull
  · rcases ha : Journal.append s.journal [.created id terms version] with ⟨e | u, j⟩
    · exact ⟨_, _, .notLogged hin hroom ha⟩
    · exact ⟨_, _, .entered hin hroom ha⟩
  · exact ⟨_, _, .full hin hfull⟩

/-- A store does what the rule says. -/
theorem Enters.eq (h : Enters s id terms version result s') :
    s.insert id terms version = (result, s') := by
  cases h with
  | known hin => simp only [insert, checkInsert, if_pos hin]
  | full hnew hfull => simp only [insert, checkInsert, if_neg hnew, if_pos hfull]
  | notLogged hnew hroom happend =>
      simp only [insert, checkInsert, if_neg hnew, if_neg (Nat.not_le.2 hroom), log, happend]
  | entered hnew hroom happend =>
      simp only [insert, checkInsert, if_neg hnew, if_neg (Nat.not_le.2 hroom), log, happend]

/-- **A quota is entered as the rules say.** -/
theorem insert_eq_iff :
    s.insert id terms version = (result, s') ↔ Enters s id terms version result s' := by
  constructor
  · intro h
    obtain ⟨result', s'', hends⟩ := enters s id terms version
    obtain ⟨rfl, rfl⟩ := Prod.mk.inj (h.symm.trans hends.eq)
    exact hends
  · exact Enters.eq

/-- The same without what is left. -/
theorem fst_insert_eq_iff :
    (s.insert id terms version).1 = result ↔ ∃ s', Enters s id terms version result s' := by
  simp only [← insert_eq_iff, Prod.ext_iff, exists_and_left, exists_eq', and_true]

end Store

/-! ### Everything else -/

/-- A write that grants units of its own quota only. -/
def Write.Own (w : Write) : Prop := ∀ a, w.change = .allocate a → a.quota = w.quota

theorem Write.Limited.own {w : Write} (h : w.Limited) : w.Own := by
  intro a ha
  rw [Write.Limited, ha] at h
  exact h.1

theorem Write.Own.quota_record {w : Write} (h : w.Own) (version : Version) :
    (w.record version).quota = w.quota := by
  obtain ⟨quota, expected, change⟩ := w
  cases change with
  | allocate a => exact h a rfl
  | revise terms => rfl

namespace Tables

variable {t : Tables}

theorem count_eq_length (t : Tables) : t.count = t.ids.length := Std.ExtTreeMap.length_keys.symm

/-- Writes on quotas that exist, each on its own quota, leave the tables grown and the quotas as
they are. -/
theorem commitAll_roster {b : List (Submission × Standing)}
    (hb : ∀ p ∈ b, p.1.write.Own ∧ p.1.write.quota ∈ t.standings) :
    (Grown t → Grown (t.commitAll b)) ∧ (t.commitAll b).ids.Perm t.ids := by
  induction b generalizing t with
  | nil => exact ⟨id, .refl _⟩
  | cons p b ih =>
      obtain ⟨⟨hown, hin⟩, hrest⟩ := List.forall_mem_cons.1 hb
      obtain ⟨st, hst⟩ := mem_standings_iff.1 hin
      obtain ⟨hgrown, hperm⟩ := ih (t := t.commit p.1.write.quota p.2 p.1.record) fun p' hp' =>
        ⟨(hrest p' hp').1, mem_standings_commit.2 (Or.inr (hrest p' hp').2)⟩
      exact ⟨fun h => hgrown (h.commit _ (hown.quota_record _)),
        hperm.trans (ids_commit_perm hst _ _)⟩

end Tables

namespace Store

omit [Journal ι] in
/-- **A store with the same quotas**, however they stand. -/
structure SameRoster (s s' : Store ι) : Prop where
  /-- The same rival, if there is one. -/
  rival : s'.rival = s.rival
  /-- The same ceiling. -/
  ceiling : s'.ceiling = s.ceiling
  /-- Allocations of quotas that exist only. -/
  grown : Grown s.tables → Grown s'.tables
  /-- The same quotas. -/
  ids : s'.tables.ids.Perm s.tables.ids

namespace SameRoster

variable {s s' s'' : Store ι}

omit [Journal ι] in
theorem of_journal (s : Store ι) (j : ι) : SameRoster s { s with journal := j } :=
  ⟨rfl, rfl, id, .refl _⟩

omit [Journal ι] in
theorem trans (h : SameRoster s s') (h' : SameRoster s' s'') : SameRoster s s'' where
  rival := h'.rival.trans h.rival
  ceiling := h'.ceiling.trans h.ceiling
  grown := h'.grown ∘ h.grown
  ids := h'.ids.trans h.ids

theorem commit (s : Store ι) {w : Write} (hw : w.Own) (version : Version) :
    SameRoster s (s.commit w version).2 := by
  rcases s.commit_cases w version with ⟨e, _, hi⟩ | ⟨q, e, j, _, _, hi⟩ | ⟨q, j, hc, _, hi⟩
  · rw [hi]
    exact of_journal s s.journal
  · rw [hi]
    exact of_journal s j
  · rw [hi]
    exact ⟨rfl, rfl, fun h => h.commit q (hw.quota_record version),
      Tables.ids_commit_perm (checkWrite_eq_ok_iff.1 hc).1 _ _⟩

theorem answer (outcome : Except Failure Unit) (s : Store ι) {ts : List (Submission × Turn)}
    (hts : ∀ w ∈ ts.map (·.1), w.write.Own) : SameRoster s (s.answer outcome ts).2 := by
  induction ts generalizing s with
  | nil => exact of_journal s s.journal
  | cons t ts ih =>
      obtain ⟨hw, hrest⟩ := List.forall_mem_cons.1 hts
      obtain ⟨w, _ | _ | _⟩ := t
      · exact ih s hrest
      · exact ih s hrest
      · exact (commit s hw w.version).trans (ih _ hrest)

/-- Writes that are made at the same time. -/
theorem commitGroup (s : Store ι) {ws : List Submission} (hws : ∀ w ∈ ws, w.write.Own) :
    SameRoster s (s.commitGroup ws).2 := by
  have hbatch : SameRoster s (s.commitBatch (batch (s.turns [] ws))).2 := by
    unfold commitBatch Store.log
    split
    · exact of_journal s s.journal
    · rcases Journal.append s.journal _ with ⟨e | u, j⟩
      · exact of_journal s j
      · have hall := Tables.commitAll_roster (t := s.tables) (b := batch (s.turns [] ws)) <| by
          intro p hp
          obtain ⟨hmem, hc⟩ := checkWrite_of_mem_batch hp
          exact ⟨hws _ hmem, Tables.mem_standings_iff.2 ⟨_, (checkWrite_eq_ok_iff.1 hc).1⟩⟩
        exact ⟨rfl, rfl, hall.1, hall.2⟩
  exact hbatch.trans (answer _ _ (by rwa [map_fst_turns]))

theorem carryOut (s : Store ι) {decision : Except Refusal Write}
    (hd : ∀ w, decision = .ok w → w.Own) (version : Version) :
    SameRoster s (Desk.carryOut s decision version).2 := by
  cases decision with
  | error e => exact of_journal s s.journal
  | ok w =>
      rw [Desk.carryOut_ok_snd]
      exact commit s (hd w rfl) version

variable {d : Desk ι}

theorem revise (alone : d.store.rival = none) (r : Revision) (stamp : Stamp) :
    SameRoster d.store (d.revise r stamp).2.store := by
  change SameRoster d.store (Desk.reviseIn d.store r stamp).2
  rcases Desk.reviseIn_cases alone r stamp with he | ⟨q, _, he⟩
  · rw [he]
    exact of_journal _ _
  · rw [he]
    refine carryOut _ (fun w hw => ?_) _
    rw [(Revision.decideOn_eq_ok hw).1]
    exact fun a ha => nomatch ha

theorem allocate (alone : d.store.rival = none) (c : Claim) (stamp : Stamp) :
    SameRoster d.store (d.allocate c stamp).2.store := by
  change SameRoster d.store (Desk.allocateIn d.store c stamp).2
  rcases Desk.allocateIn_cases alone c stamp with he | ⟨q, _, he⟩
  · rw [he]
    exact of_journal _ _
  · rw [he]
    refine carryOut _ (fun w hw => ?_) _
    rw [(Claim.decideOn_eq_ok hw).1]
    rintro a ⟨⟩
    rfl

theorem allocateTogether (alone : d.store.rival = none) (cs : List (Claim × Stamp)) :
    SameRoster d.store (d.allocateTogether cs).2.store := by
  change SameRoster d.store ((Desk.prepareAll d.store cs).2.commitGroup _).2
  rw [Desk.prepareAll_snd alone]
  exact commitGroup _ fun w hw => (Desk.limited_of_prepareAll w hw).own

end SameRoster

end Store

/-! ### Calls -/

/-- What may be asked of a desk and of its store.  Between two calls anything may happen to the
journal, which so may come to refuse what it is handed. -/
inductive Demand (ι : Type) where
  /-- A client asks for a new quota. -/
  | create (terms : Terms) (stamp : Stamp)
  /-- The store is asked to enter a quota under some identifier. -/
  | insert (id : Ulid) (terms : Terms) (version : Version)
  /-- Terms are to be replaced. -/
  | revise (r : Revision) (stamp : Stamp)
  /-- Units are claimed. -/
  | allocate (c : Claim) (stamp : Stamp)
  /-- Units are claimed by several clients at the same time. -/
  | together (cs : List (Claim × Stamp))
  /-- The store is asked for a conditional write. -/
  | commit (w : Write) (own : w.Own) (version : Version)
  /-- Something happens to the journal. -/
  | disturb (f : ι → ι)

namespace Desk

/-- The desk after a call, whether or not it succeeds. -/
def heed (d : Desk ι) : Demand ι → Desk ι
  | .create terms stamp => (d.create terms stamp).2
  | .insert id terms version => { d with store := (d.store.insert id terms version).2 }
  | .revise r stamp => (d.revise r stamp).2
  | .allocate c stamp => (d.allocate c stamp).2
  | .together cs => (d.allocateTogether cs).2
  | .commit w _ version => { d with store := (d.store.commit w version).2 }
  | .disturb f => { d with store.journal := f d.store.journal }

/-- The quotas that a call has made. -/
def made (d : Desk ι) : Demand ι → List Ulid
  | .create terms stamp => ((d.create terms stamp).1.toOption.map (·.id)).toList
  | .insert id terms version => ((d.store.insert id terms version).1.toOption.map (·.id)).toList
  | _ => []

/-- The desk after calls. -/
def heedAll (d : Desk ι) (demands : List (Demand ι)) : Desk ι := demands.foldl heed d

/-- The quotas that calls have made, the last one first. -/
def madeAll (d : Desk ι) : List (Demand ι) → List Ulid
  | [] => []
  | x :: xs => (d.heed x).madeAll xs ++ d.made x

omit [Journal ι] in
/-- **What holds between two calls** of a desk whose store has the ceiling `m`. -/
structure Within (m : Nat) (d : Desk ι) : Prop where
  /-- No rival lies in wait. -/
  alone : d.store.rival = none
  /-- The store has this ceiling. -/
  ceiling : d.store.ceiling = m
  /-- Only quotas that exist have allocations. -/
  grown : Grown d.store.tables
  /-- There are no more quotas than there may be. -/
  count : d.store.tables.count ≤ m

namespace Within

variable {m : Nat} {d : Desk ι}

omit [Journal ι] in
/-- Calls that leave the quotas as they are. -/
theorem of_sameRoster (h : d.Within m) {x : Desk ι} (hsame : d.store.SameRoster x.store) :
    x.Within m ∧ x.store.tables.ids.Perm ([] ++ d.store.tables.ids) := by
  refine ⟨⟨hsame.rival.trans h.alone, hsame.ceiling.trans h.ceiling, hsame.grown h.grown, ?_⟩,
    hsame.ids⟩
  rw [Tables.count_eq_length, hsame.ids.length_eq, ← Tables.count_eq_length]
  exact h.count

/-- **Entering a quota adds the quota or nothing**, and leaves no more quotas than there may be. -/
theorem insert (h : d.Within m) (id : Ulid) (terms : Terms) (version : Version) :
    Within m { d with store := (d.store.insert id terms version).2 } ∧
      (d.store.insert id terms version).2.tables.ids.Perm
        (d.made (.insert id terms version) ++ d.store.tables.ids) := by
  obtain ⟨result, s', hends⟩ := d.store.enters id terms version
  rw [made, hends.eq]
  cases hends with
  | known hin => exact h.of_sameRoster (.of_journal _ _)
  | full hnew hfull => exact h.of_sameRoster (.of_journal _ _)
  | @notLogged e j hnew hroom happend =>
      exact h.of_sameRoster (x := ⟨{ d.store with journal := j }, d.meter⟩) (.of_journal _ _)
  | entered hnew hroom happend =>
      have hperm := Tables.ids_install_perm hnew terms version
      refine ⟨⟨h.alone, h.ceiling, h.grown.install id terms version, ?_⟩, hperm⟩
      change Tables.count (d.store.tables.install id terms version) ≤ m
      rw [Tables.count_eq_length, hperm.length_eq, List.length_cons, ← Tables.count_eq_length]
      exact h.ceiling ▸ hroom

/-- A quota that a client asks for is entered like any other, if its terms keep the limits. -/
theorem create (h : d.Within m) (terms : Terms) (stamp : Stamp) :
    (d.create terms stamp).2.Within m ∧
      (d.create terms stamp).2.store.tables.ids.Perm
        (d.made (.create terms stamp) ++ d.store.tables.ids) := by
  have hinsert := h.insert stamp.id terms stamp.version
  rcases d.create_cases terms stamp with ⟨e, he⟩ | ⟨e, hi, he⟩ | ⟨q, hi, he⟩
  · rw [made, he]
    exact h.of_sameRoster (.of_journal _ _)
  · rw [made, hi] at hinsert
    rw [made, he]
    exact hinsert
  · rw [made, hi] at hinsert
    rw [made, he]
    exact hinsert

/-- **What a call adds.** -/
theorem heed (h : d.Within m) (x : Demand ι) :
    (d.heed x).Within m ∧
      (d.heed x).store.tables.ids.Perm (d.made x ++ d.store.tables.ids) := by
  cases x with
  | create terms stamp => exact h.create terms stamp
  | insert id terms version => exact h.insert id terms version
  | revise r stamp => exact h.of_sameRoster (.revise h.alone r stamp)
  | allocate c stamp => exact h.of_sameRoster (.allocate h.alone c stamp)
  | together cs => exact h.of_sameRoster (.allocateTogether h.alone cs)
  | commit w own version =>
      exact h.of_sameRoster (x := ⟨(d.store.commit w version).2, d.meter⟩) (.commit _ own version)
  | disturb f =>
      exact h.of_sameRoster (x := { d with store.journal := f d.store.journal }) (.of_journal _ _)

/-- **What a run adds.** -/
theorem heedAll (h : d.Within m) (xs : List (Demand ι)) :
    (d.heedAll xs).Within m ∧
      (d.heedAll xs).store.tables.ids.Perm (d.madeAll xs ++ d.store.tables.ids) := by
  induction xs generalizing d with
  | nil => exact ⟨h, .refl _⟩
  | cons x xs ih =>
      obtain ⟨hnext, hfirst⟩ := h.heed x
      obtain ⟨hlast, hrest⟩ := ih hnext
      refine ⟨hlast, hrest.trans ?_⟩
      rw [madeAll, List.append_assoc]
      exact hfirst.append_left _

end Within

end Desk

/-! ### The ceiling is exact -/

/-- **When a quota is entered in a store with the ceiling `m`, and what is left.** -/
structure Store.Exact (m : Nat) (s : Store ι) (id : Ulid) (terms : Terms) (version : Version) :
    Prop where
  /-- It is entered if it is new, there is room, and the journal takes the record. -/
  entered : ∀ q, (s.insert id terms version).1 = .ok q ↔
    id ∉ s.tables.standings ∧ s.tables.count < m ∧
      (Journal.append s.journal [.created id terms version]).1 = .ok () ∧
        q = ⟨⟨terms, 0, version⟩, id⟩
  /-- A quota that exists is refused as such, whether or not there is room. -/
  known : ∀ x, (s.insert id terms version).1 = .error (.quotaExists x) ↔
    id ∈ s.tables.standings ∧ x = id
  /-- A new quota is refused if there is no room. -/
  full : ∀ n, (s.insert id terms version).1 = .error (.full n) ↔
    id ∉ s.tables.standings ∧ m ≤ s.tables.count ∧ n = m
  /-- A new quota for which there is room is refused if the journal does so. -/
  notLogged : ∀ reason, (s.insert id terms version).1 = .error (.notLogged reason) ↔
    id ∉ s.tables.standings ∧ s.tables.count < m ∧
      ∃ e, (Journal.append s.journal [.created id terms version]).1 = .error e ∧ reason = e.text
  /-- A quota that was entered has nothing reserved and no allocations. -/
  opened : ∀ q, (s.insert id terms version).1 = .ok q →
    (s.insert id terms version).2.tables.standings[id]? = some ⟨terms, 0, version⟩ ∧
      (s.insert id terms version).2.tables.ledger.entries id = []
  /-- Nothing else has changed. -/
  others : ∀ q, (s.insert id terms version).1 = .ok q →
    (∀ x ≠ id, (s.insert id terms version).2.tables.standings[x]? = s.tables.standings[x]?) ∧
      (s.insert id terms version).2.tables.ledger = s.tables.ledger ∧
        (s.insert id terms version).2.tables.count = s.tables.count + 1
  /-- A failure changes at most the journal, so with any journal entering the quota later ends as it
  would have ended without the failure. -/
  failed : ∀ e, (s.insert id terms version).1 = .error e →
    (s.insert id terms version).2.tables = s.tables ∧
      ∀ (j : ι) (terms' : Terms) (version' : Version),
        Store.insert { (s.insert id terms version).2 with journal := j } id terms' version' =
          Store.insert { s with journal := j } id terms' version'

namespace Desk.Within

variable {m : Nat} {d : Desk ι}

/-- **The ceiling is exact between two calls.** -/
theorem exact (h : d.Within m) (id : Ulid) (terms : Terms) (version : Version) :
    d.store.Exact m id terms version where
  entered q := by
    rw [Store.fst_insert_eq_iff, ← h.ceiling]
    constructor
    · rintro ⟨_, hends⟩
      cases hends with
      | entered hnew hroom happend => exact ⟨hnew, hroom, congrArg Prod.fst happend, rfl⟩
    · rintro ⟨hnew, hroom, happend, rfl⟩
      exact ⟨_, .entered hnew hroom (Prod.ext happend rfl)⟩
  known x := by
    rw [Store.fst_insert_eq_iff]
    constructor
    · rintro ⟨_, hends⟩
      cases hends with
      | known hin => exact ⟨hin, rfl⟩
    · rintro ⟨hin, rfl⟩
      exact ⟨_, .known hin⟩
  full n := by
    rw [Store.fst_insert_eq_iff, ← h.ceiling]
    constructor
    · rintro ⟨_, hends⟩
      cases hends with
      | full hnew hfull => exact ⟨hnew, hfull, rfl⟩
    · rintro ⟨hnew, hfull, rfl⟩
      exact ⟨_, .full hnew hfull⟩
  notLogged reason := by
    rw [Store.fst_insert_eq_iff, ← h.ceiling]
    constructor
    · rintro ⟨_, hends⟩
      cases hends with
      | notLogged hnew hroom happend =>
          exact ⟨hnew, hroom, _, congrArg Prod.fst happend, rfl⟩
    · rintro ⟨hnew, hroom, e, happend, rfl⟩
      exact ⟨_, .notLogged hnew hroom (Prod.ext happend rfl)⟩
  opened q hq := by
    obtain ⟨s', hends⟩ := Store.fst_insert_eq_iff.1 hq
    rw [hends.eq]
    cases hends with
    | entered hnew hroom happend =>
        refine ⟨(Tables.standings_install _ _ _ _ _).trans (if_pos rfl), ?_⟩
        change d.store.tables.ledger.entries id = []
        rw [Ledger.entries, h.grown.ids_eq_nil hnew, List.filterMap_nil]
  others q hq := by
    obtain ⟨s', hends⟩ := Store.fst_insert_eq_iff.1 hq
    rw [hends.eq]
    cases hends with
    | entered hnew hroom happend =>
        refine ⟨fun x hne => (Tables.standings_install _ _ _ _ _).trans (if_neg hne.symm), rfl, ?_⟩
        rw [Tables.count_eq_length, (Tables.ids_install_perm hnew _ _).length_eq, List.length_cons,
          ← Tables.count_eq_length]
  failed e he := by
    obtain ⟨s', hends⟩ := Store.fst_insert_eq_iff.1 he
    rw [hends.eq]
    cases hends <;> exact ⟨rfl, fun _ _ _ => rfl⟩

end Desk.Within

/-- A client that asks for a quota within the limits is answered as the store does. -/
theorem Desk.create_of_check {d : Desk ι} {terms : Terms} (hterms : terms.check = .ok ())
    (stamp : Stamp) :
    (d.create terms stamp).2.store = (d.store.insert stamp.id terms stamp.version).2 ∧
      ∀ q, (d.create terms stamp).1 = .ok q ↔
        (d.store.insert stamp.id terms stamp.version).1 = .ok q := by
  simp only [create, hterms]
  rcases d.store.insert stamp.id terms stamp.version with ⟨e | q, s'⟩
  · exact ⟨rfl, fun q => by simp⟩
  · exact ⟨rfl, fun q' => by simp⟩

namespace Ceiling

/-- A desk whose store has the ceiling `m` and starts from a log. -/
def start (m : Nat) (rs : List Record) (j : ι) (meter : Meter) : Desk ι :=
  ⟨⟨.ofRecords rs, m, j, none⟩, meter⟩

/-- **The ceiling is exact in every run.**  A store with any ceiling `m` starts from any log with at
most `m` quotas, and with any journal.  Then there may be any calls, and between them anything may
happen to the journal; `front` comes first and `back` behind it.  At no time are there more than `m`
quotas.  The later quotas are the earlier ones and those that were made in between, so their number
never falls.  A quota is entered just if it is new, there are fewer than `m` and the journal takes
its record; a failure leaves the tables as they were, and everything as it was if that holds of the
journal.  A client that asks for a quota within the limits is answered as the store does, and any
other is refused without anything being changed. -/
theorem ceiling_run (m : Nat) (rs : List Record) (j : ι) (meter : Meter)
    (hstart : (Tables.ofRecords rs).count ≤ m) (front back : List (Demand ι)) :
    let d := (start m rs j meter).heedAll front
    let d' := d.heedAll back
    d.store.tables.count ≤ m ∧
      d'.store.tables.ids.Perm (d.madeAll back ++ d.store.tables.ids) ∧
      d'.store.tables.count = (d.madeAll back).length + d.store.tables.count ∧
      (∀ (id : Ulid) (terms : Terms) (version : Version), d.store.Exact m id terms version ∧
        ∀ P, Journal.Firm P → P d.store.journal →
          ∀ e, (d.store.insert id terms version).1 = .error e →
            (d.store.insert id terms version).2 = d.store) ∧
      ∀ (terms : Terms) (stamp : Stamp),
        (∀ e, terms.check = .error e → d.create terms stamp = (.error e, d)) ∧
        (terms.check = .ok () →
          (d.create terms stamp).2.store = (d.store.insert stamp.id terms stamp.version).2 ∧
            ∀ q, (d.create terms stamp).1 = .ok q ↔
              (d.store.insert stamp.id terms stamp.version).1 = .ok q) := by
  intro d d'
  have hfirst : (start m rs j meter).Within m := ⟨rfl, rfl, .ofRecords rs, hstart⟩
  obtain ⟨hd, _⟩ := hfirst.heedAll front
  obtain ⟨_, hperm⟩ := hd.heedAll back
  refine ⟨hd.count, hperm, ?_, ?_, ?_⟩
  · rw [Tables.count_eq_length, hperm.length_eq, List.length_append, ← Tables.count_eq_length]
  · intro id terms version
    refine ⟨hd.exact id terms version, ?_⟩
    exact fun P hF hP e he => Store.insert_eq_of_error hF ⟨hP, hd.alone⟩ he
  · intro terms stamp
    refine ⟨fun e he => ?_, fun hterms => Desk.create_of_check hterms stamp⟩
    simp only [Desk.create, he]

/-- Terms of a tour. -/
def tour : Terms := ⟨⟨4, 1⟩, "Süd", "tour", tourDay⟩

/-- A quota is entered while the disk is full, which fails, and once more when it is not. -/
def retried : List (Demand LogFile) :=
  [.disturb fun l => { l with disk.writable := false }, .insert ⟨1⟩ tour ⟨⟨1⟩⟩,
   .disturb fun l => { l with disk.writable := true }, .insert ⟨1⟩ tour ⟨⟨2⟩⟩]

/-- A desk with a log and room for one quota, after this. -/
def afterRetry : Desk LogFile := (start 1 [] emptyStore.journal .zero).heedAll retried

set_option maxRecDepth 100000 in
/-- The first attempt uses up nothing, and the second one succeeds.  Then there is no room for
another quota, and the one that is there is refused because it is there. -/
theorem ceiling_run_retry_after_failure :
    (Tables.ofRecords []).count ≤ 1 ∧
      (start 1 [] emptyStore.journal .zero).madeAll (retried.take 2) = [] ∧
      (start 1 [] emptyStore.journal .zero).madeAll retried = [⟨1⟩] ∧
      afterRetry.store.tables.count ≤ 1 ∧ afterRetry.store.tables.ids = [⟨1⟩] ∧
      (afterRetry.store.insert ⟨2⟩ tour ⟨⟨3⟩⟩).1 = .error (.full 1) ∧
      (afterRetry.store.insert ⟨1⟩ tour ⟨⟨3⟩⟩).1 = .error (.quotaExists ⟨1⟩) := by
  have hstart : (Tables.ofRecords []).count ≤ 1 := by decide
  obtain ⟨hcount, _, _, hexact, _⟩ :=
    ceiling_run 1 [] emptyStore.journal .zero hstart retried []
  have hids : afterRetry.store.tables.ids = [⟨1⟩] := by decide +kernel
  have hnew : (⟨2⟩ : Ulid) ∉ afterRetry.store.tables.standings := by
    rw [← Tables.mem_ids, hids]
    decide
  have hold : (⟨1⟩ : Ulid) ∈ afterRetry.store.tables.standings := by
    rw [← Tables.mem_ids, hids]
    decide
  have hfull : 1 ≤ afterRetry.store.tables.count := by
    rw [Tables.count_eq_length, hids]
    decide
  exact ⟨hstart, by decide +kernel, by decide +kernel, hcount, hids,
    ((hexact ⟨2⟩ tour ⟨⟨3⟩⟩).1.full 1).2 ⟨hnew, hfull, rfl⟩,
    ((hexact ⟨1⟩ tour ⟨⟨3⟩⟩).1.known ⟨1⟩).2 ⟨hold, rfl⟩⟩

end Ceiling

end Allotment
