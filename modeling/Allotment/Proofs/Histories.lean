/-
**Replay goes by quota.**

A record is about one quota.  Replaying it looks at nothing but how this quota stands and changes
nothing else, apart from keeping the allocation that it grants.  So what becomes of a quota depends
on the records about it and on their order, and it does not matter what other records stand between
them.  Identifiers of allocations are the one thing that quotas share: an allocation takes the place
of any other with its identifier.  Where no identifier is granted twice, quotas have nothing to do
with each other at all.

This is why writes on different quotas need no common order.  They may be logged in one order and
take effect in another, and the log still says what the store holds.

Main definitions:

* `Allotment.history` — the records about one quota;
* `Allotment.SameHistories` — records that are the same quota by quota;
* `Allotment.Account`, `Allotment.Account.after` — what tables say of one quota, and what becomes of
  it by a record;
* `Allotment.Tables.InFlight` — writes on different quotas, none of which waits for another.

Main results:

* `Allotment.Tables.account_ofRecords` — **replay follows the history of each quota**;
* `Allotment.Tables.InFlight.commitAll_eq_foldl` — writes in flight take effect as their records do;
* `Allotment.Tables.inFlight_batch` — the writes of a batch are in flight;
* `Allotment.Tables.replay_by_quota` — **records that are the same quota by quota rebuild the same
  tables, and writes in flight may be logged in any order**.
-/

import Mathlib.Data.List.Nodup
import Mathlib.Data.List.Pairwise
import Allotment.Proofs.Taken
import Allotment.Proofs.Tables.Trace

set_option relaxedAutoImplicit false
set_option autoImplicit false

namespace Allotment

/-! ### Histories -/

/-- The records about one quota, in their order. -/
def history (rs : List Record) (quota : Ulid) : List Record := rs.filter (·.quota = quota)

/-- **Records that are the same quota by quota**: they are mixed in another way at most. -/
def SameHistories (rs ss : List Record) : Prop := ∀ quota, history rs quota = history ss quota

theorem mem_history {rs : List Record} {quota : Ulid} {r : Record} :
    r ∈ history rs quota ↔ r ∈ rs ∧ r.quota = quota := by
  simp [history]

/-- A quota that no record is about has no history. -/
theorem history_eq_nil {rs : List Record} {quota : Ulid} (h : ∀ r ∈ rs, r.quota ≠ quota) :
    history rs quota = [] := by
  simpa [history] using h

theorem history_append (rs ss : List Record) (quota : Ulid) :
    history (rs ++ ss) quota = history rs quota ++ history ss quota :=
  List.filter_append _ _

theorem SameHistories.symm {rs ss : List Record} (h : SameHistories rs ss) : SameHistories ss rs :=
  fun quota => (h quota).symm

/-- Such records are the same but for their order. -/
theorem SameHistories.perm {rs ss : List Record} (h : SameHistories rs ss) : rs.Perm ss := by
  rw [List.perm_iff_count]
  intro r
  have hcount : ∀ l : List Record, (history l r.quota).count r = l.count r :=
    fun l => List.count_filter (by simp)
  rw [← hcount rs, ← hcount ss, h r.quota]

/-- Only the quotas that records are about need to be compared. -/
theorem sameHistories_iff {rs ss : List Record} :
    SameHistories rs ss ↔ ∀ r ∈ rs ++ ss, history rs r.quota = history ss r.quota := by
  constructor
  · exact fun h r _ => h r.quota
  · intro h quota
    by_cases hex : ∃ r ∈ rs ++ ss, r.quota = quota
    · obtain ⟨r, hr, rfl⟩ := hex
      exact h r hr
    · have hnone : ∀ r ∈ rs ++ ss, r.quota ≠ quota := fun r hr heq => hex ⟨r, hr, heq⟩
      rw [history_eq_nil fun r hr => hnone r (List.mem_append_left _ hr),
        history_eq_nil fun r hr => hnone r (List.mem_append_right _ hr)]

instance (rs ss : List Record) : Decidable (SameHistories rs ss) :=
  decidable_of_iff _ sameHistories_iff.symm

/-- Records about different quotas may be put in any order. -/
theorem SameHistories.of_perm {rs ss : List Record} (h : rs.Perm ss)
    (hapart : (rs.map (·.quota)).Nodup) : SameHistories rs ss := by
  intro quota
  have hperm : (history rs quota).Perm (history ss quota) := h.filter _
  have hsub : ((history rs quota).map (·.quota)).Nodup :=
    hapart.sublist (List.filter_sublist.map _)
  have hall : ∀ r ∈ history rs quota, r.quota = quota := fun r hr => (mem_history.1 hr).2
  -- a quota has one record at most, and a list of one record has one order
  cases hh : history rs quota with
  | nil => exact (List.nil_perm.1 (hh ▸ hperm)).symm
  | cons r rest =>
      cases rest with
      | nil => exact List.singleton_perm.1 (hh ▸ hperm)
      | cons r' rest =>
          rw [hh] at hall hsub
          have heq : r.quota = r'.quota := (hall r (by simp)).trans (hall r' (by simp)).symm
          exact absurd (by simp [heq]) (List.nodup_cons.1 hsub).1

/-! ### Accounts -/

/-- What tables say of one quota. -/
structure Account where
  /-- How the quota stands, if it exists. -/
  standing : Option Standing
  /-- The identifiers of its allocations, in the order of granting. -/
  ids : List Ulid

namespace Account

/-- What tables without quotas say. -/
def none : Account := ⟨.none, []⟩

/-- What becomes of a quota by a record about it.  A creation keeps what is listed, and any other
record needs a quota that exists. -/
def after (c : Account) (r : Record) : Account :=
  match r with
  | .created _ terms version => { c with standing := some (.opening terms version) }
  | _ =>
    match c.standing with
    | .none => c
    | some s => ⟨some (s.after r), c.ids ++ r.grant?.toList⟩

end Account

namespace Tables

/-- What the tables say of a quota. -/
def account (t : Tables) (quota : Ulid) : Account := ⟨t.standings[quota]?, t.ledger.ids quota⟩

variable {t : Tables}

theorem ids_ledgerAfter (l : Ledger) (r : Record) (quota : Ulid) :
    (ledgerAfter l r).ids quota =
      if r.quota = quota then l.ids quota ++ r.grant?.toList else l.ids quota := by
  cases r with
  | created id terms version => simp [ledgerAfter, Record.grant?]
  | revised id terms version => simp [ledgerAfter, Record.grant?]
  | allocated a version => exact Ledger.ids_record l a quota

/-- A change is a change of what is said of its quota. -/
theorem account_commit (t : Tables) (s : Standing) (r : Record) (quota : Ulid) :
    (t.commit r.quota s r).account quota =
      if r.quota = quota then ⟨some (s.after r), t.ledger.ids quota ++ r.grant?.toList⟩
      else t.account quota := by
  have hids := ids_ledgerAfter t.ledger r quota
  rw [account, standings_commit]
  change Account.mk _ ((ledgerAfter t.ledger r).ids quota) = _
  rw [hids]
  split <;> rfl

theorem account_install (t : Tables) (id : Ulid) (terms : Terms) (version : Version)
    (quota : Ulid) :
    (t.install id terms version).account quota =
      if id = quota then (t.account quota).after (.created id terms version)
      else t.account quota := by
  rw [account, standings_install]
  split <;> rfl

/-- A record that is no creation goes by how its quota stands, and has no effect if there is no such
quota. -/
theorem account_change {r : Record}
    (hreplay : t.replayRecord r =
      match t.standings[r.quota]? with
      | none => t
      | some s => t.commit r.quota s r)
    (hafter : ∀ c : Account, c.after r =
      match c.standing with
      | none => c
      | some s => ⟨some (s.after r), c.ids ++ r.grant?.toList⟩) (quota : Ulid) :
    (t.replayRecord r).account quota =
      if r.quota = quota then (t.account quota).after r else t.account quota := by
  rw [hreplay, hafter]
  by_cases heq : r.quota = quota
  · subst heq
    rw [if_pos rfl]
    cases hs : t.standings[r.quota]? with
    | none => simp only [account, hs]
    | some s =>
        refine (account_commit t s r r.quota).trans ((if_pos rfl).trans ?_)
        simp only [account, hs]
  · rw [if_neg heq]
    cases hs : t.standings[r.quota]? with
    | none => rfl
    | some s => exact (account_commit t s r quota).trans (if_neg heq)

/-- **A record changes what is said of its own quota**, going by nothing else, and of no other. -/
theorem account_replayRecord (t : Tables) (r : Record) (quota : Ulid) :
    (t.replayRecord r).account quota =
      if r.quota = quota then (t.account quota).after r else t.account quota := by
  cases r with
  | created id terms version => exact account_install t id terms version quota
  | revised id terms version => exact account_change rfl (fun c => rfl) quota
  | allocated a version => exact account_change rfl (fun c => rfl) quota

theorem account_foldl (t : Tables) (rs : List Record) (quota : Ulid) :
    (rs.foldl replayRecord t).account quota =
      (history rs quota).foldl Account.after (t.account quota) := by
  induction rs generalizing t with
  | nil => rfl
  | cons r rs ih =>
      rw [List.foldl_cons, ih, account_replayRecord, history, history, List.filter_cons]
      by_cases heq : r.quota = quota
      · simp only [heq, decide_true, if_true, List.foldl_cons]
      · simp only [heq, decide_false, if_false, Bool.false_eq_true]

/-- **Replay follows the history of each quota.** -/
theorem account_ofRecords (rs : List Record) (quota : Ulid) :
    (ofRecords rs).account quota = (history rs quota).foldl Account.after .none := by
  have hempty : empty.account quota = .none := by
    simp [account, Account.none, empty]
  rw [← hempty]
  exact account_foldl empty rs quota

/-! ### The allocations -/

/-- Where no identifier is granted twice, an identifier says which allocation is meant. -/
theorem allocation_eq_of_nodup {rs : List Record} (hnodup : (rs.filterMap Record.grant?).Nodup)
    {a b : Allocation} {v w : Version} (ha : .allocated a v ∈ rs) (hb : .allocated b w ∈ rs)
    (hid : a.id = b.id) : a = b := by
  have hpair := List.pairwise_filterMap.1 hnodup
  have hsymm : Std.Symm fun r r' : Record =>
      ∀ i, r.grant? = some i → ∀ j, r'.grant? = some j → i ≠ j :=
    ⟨fun _ _ h i hi j hj => (h j hj i hi).symm⟩
  by_cases heq : Record.allocated a v = .allocated b w
  · exact (Record.allocated.inj heq).1
  · exact absurd hid (hpair.forall ha hb heq a.id rfl b.id rfl)

/-- Whatever one of two lists of records with the same histories rebuilds an allocation from, the
other does. -/
theorem find?_of_sameHistories {rs ss : List Record} (h : SameHistories rs ss)
    (hnodup : (rs.filterMap Record.grant?).Nodup) {i : Ulid} {a : Allocation}
    (ha : (ofRecords rs).ledger.find? i = some a) : (ofRecords ss).ledger.find? i = some a := by
  have hids : (ofRecords rs).ledger.ids a.quota = (ofRecords ss).ledger.ids a.quota := by
    have haccount := (account_ofRecords rs a.quota).trans
      ((congrArg _ (h a.quota)).trans (account_ofRecords ss a.quota).symm)
    exact congrArg Account.ids haccount
  -- it is listed under its quota, so the other tables keep something under its identifier
  have hlisted := (Grown.ofRecords rs).indexed i a ha
  rw [hids] at hlisted
  obtain ⟨b, hb⟩ := Ledger.find?_of_mem_ids hlisted
  obtain ⟨v, hv⟩ := (Traced.ofRecords rs).granted i a ha
  obtain ⟨w, hw⟩ := (Traced.ofRecords ss).granted i b hb
  rw [hb, allocation_eq_of_nodup hnodup hv (h.perm.mem_iff.2 hw)
    ((Ledger.id_of_find? ha).trans (Ledger.id_of_find? hb).symm)]

/-- **Records that are the same quota by quota rebuild the same tables**, if no identifier is
granted twice. -/
theorem ofRecords_congr {rs ss : List Record} (h : SameHistories rs ss)
    (hnodup : (rs.filterMap Record.grant?).Nodup) : ofRecords rs = ofRecords ss := by
  have haccount : ∀ quota, (ofRecords rs).account quota = (ofRecords ss).account quota := by
    intro quota
    rw [account_ofRecords, account_ofRecords, h quota]
  refine Grown.ext (Grown.ofRecords rs) (Grown.ofRecords ss)
    (fun id => congrArg Account.standing (haccount id))
    (fun quota => congrArg Account.ids (haccount quota)) ?_
  intro i
  refine Option.ext fun a => ⟨find?_of_sameHistories h hnodup, ?_⟩
  -- the other list grants the same allocations
  exact find?_of_sameHistories h.symm ((h.perm.filterMap _).nodup_iff.1 hnodup)

/-! ### Writes in flight -/

/-- **Writes in flight**, each with its quota as it stands: none of them waits for another. -/
structure InFlight (t : Tables) (b : List (Submission × Standing)) : Prop where
  /-- No two of them are on the same quota. -/
  apart : (b.map (·.1.write.quota)).Nodup
  /-- The quotas stand as given. -/
  stands : ∀ p ∈ b, t.standings[p.1.write.quota]? = some p.2
  /-- A claim is granted on the quota that it names. -/
  filed : ∀ p ∈ b, ∀ a, p.1.write.change = .allocate a → a.quota = p.1.write.quota

namespace InFlight

variable {t : Tables} {b : List (Submission × Standing)}

/-- The record of a write in flight is about its quota. -/
theorem quota_record (h : InFlight t b) {p : Submission × Standing} (hp : p ∈ b) :
    p.1.record.quota = p.1.write.quota := by
  have hfiled := h.filed p hp
  obtain ⟨⟨⟨quota, expected, change⟩, version⟩, s⟩ := p
  cases change with
  | allocate a => exact hfiled a rfl
  | revise terms => rfl

/-- So no two of their records are about the same quota. -/
theorem apart_records (h : InFlight t b) : ((b.map (·.1.record)).map (·.quota)).Nodup := by
  have hquotas : (b.map (·.1.record)).map (·.quota) = b.map (·.1.write.quota) := by
    rw [List.map_map]
    exact List.map_congr_left fun p hp => h.quota_record hp
  rw [hquotas]
  exact h.apart

/-- A write that takes effect leaves the others in flight. -/
theorem tail {p : Submission × Standing} (h : InFlight t (p :: b)) :
    InFlight (t.commit p.1.write.quota p.2 p.1.record) b := by
  obtain ⟨hnot, hapart⟩ := List.nodup_cons.1 h.apart
  refine ⟨hapart, ?_, fun p' hp' => h.filed p' (List.mem_cons_of_mem _ hp')⟩
  intro p' hp'
  rw [standings_commit, if_neg fun heq => hnot (List.mem_map.2 ⟨p', hp', heq.symm⟩)]
  exact h.stands p' (List.mem_cons_of_mem _ hp')

/-- Writes in flight take effect as their records do. -/
theorem commitAll_eq_foldl (h : InFlight t b) :
    t.commitAll b = (b.map (·.1.record)).foldl replayRecord t := by
  induction b generalizing t with
  | nil => rfl
  | cons p b ih =>
      have hp : p ∈ p :: b := List.mem_cons_self
      have hfirst : t.replayRecord p.1.record = t.commit p.1.write.quota p.2 p.1.record :=
        replayRecord_eq_commit (h.stands p hp) rfl (h.filed p hp) p.1.version
      rw [List.map_cons, List.foldl_cons, hfirst, ← ih h.tail]
      rfl

end InFlight

/-- The writes that a group makes as a batch are in flight. -/
theorem inFlight_batch {ι : Type} (s : Store ι) {ws : List Submission}
    (hfiled : ∀ w ∈ ws, ∀ a, w.write.change = .allocate a → a.quota = w.write.quota) :
    InFlight s.tables (batch (s.turns [] ws)) where
  apart := (s.nodup_quotas_batch [] ws).1
  stands _ hp := (Store.checkWrite_eq_ok_iff.1 (Store.checkWrite_of_mem_batch hp).2).1
  filed p hp := hfiled p.1 (Store.checkWrite_of_mem_batch hp).1

/-- **Replay goes by quota.**  Records that are the same quota by quota rebuild the same tables.  So
writes in flight may be logged in any order: whatever order that is, the log rebuilds the tables in
which they have taken effect. -/
theorem replay_by_quota :
    (∀ rs ss : List Record, (rs.filterMap Record.grant?).Nodup → SameHistories rs ss →
      ofRecords rs = ofRecords ss) ∧
    ∀ (rs logged : List Record) (b : List (Submission × Standing)), InFlight (ofRecords rs) b →
      logged.Perm (b.map (·.1.record)) → ((rs ++ logged).filterMap Record.grant?).Nodup →
      ofRecords (rs ++ logged) = (ofRecords rs).commitAll b := by
  refine ⟨fun rs ss hnodup h => ofRecords_congr h hnodup, ?_⟩
  intro rs logged b hb hperm hnodup
  have hlogged : SameHistories logged (b.map (·.1.record)) :=
    .of_perm hperm ((hperm.map (·.quota)).nodup_iff.2 hb.apart_records)
  have hsame : SameHistories (rs ++ logged) (rs ++ b.map (·.1.record)) := by
    intro quota
    rw [history_append, history_append, hlogged quota]
  calc ofRecords (rs ++ logged)
      = ofRecords (rs ++ b.map (·.1.record)) := ofRecords_congr hsame hnodup
    _ = (b.map (·.1.record)).foldl replayRecord (ofRecords rs) := List.foldl_append
    _ = (ofRecords rs).commitAll b := hb.commitAll_eq_foldl.symm

/-- Terms of a tour on one day. -/
def tourTerms (name : String) (room : Room) : Terms :=
  ⟨room, name, "tour", ⟨2026, 10, 2, by decide⟩⟩

/-- A log of three quotas.  One is never created, one is claimed before it is created, and one is
created twice. -/
def mixedLog : List Record :=
  [.allocated ⟨⟨11⟩, ⟨2⟩, none, 9, 0⟩ ⟨⟨1⟩⟩, .created ⟨1⟩ (tourTerms "Alba" ⟨5, 0⟩) ⟨⟨2⟩⟩,
    .created ⟨2⟩ (tourTerms "Brig" ⟨7, 1⟩) ⟨⟨3⟩⟩, .allocated ⟨⟨12⟩, ⟨1⟩, some "a", 2, 5⟩ ⟨⟨4⟩⟩,
    .revised ⟨3⟩ (tourTerms "Cham" ⟨1, 0⟩) ⟨⟨5⟩⟩, .created ⟨1⟩ (tourTerms "Alba" ⟨6, 0⟩) ⟨⟨6⟩⟩,
    .allocated ⟨⟨13⟩, ⟨2⟩, some "b", 3, 6⟩ ⟨⟨7⟩⟩, .revised ⟨1⟩ (tourTerms "Alba" ⟨4, 1⟩) ⟨⟨8⟩⟩]

/-- The same records quota by quota, one quota after the other. -/
def sortedLog : List Record :=
  [.created ⟨1⟩ (tourTerms "Alba" ⟨5, 0⟩) ⟨⟨2⟩⟩, .allocated ⟨⟨12⟩, ⟨1⟩, some "a", 2, 5⟩ ⟨⟨4⟩⟩,
    .created ⟨1⟩ (tourTerms "Alba" ⟨6, 0⟩) ⟨⟨6⟩⟩, .revised ⟨1⟩ (tourTerms "Alba" ⟨4, 1⟩) ⟨⟨8⟩⟩,
    .allocated ⟨⟨11⟩, ⟨2⟩, none, 9, 0⟩ ⟨⟨1⟩⟩, .created ⟨2⟩ (tourTerms "Brig" ⟨7, 1⟩) ⟨⟨3⟩⟩,
    .allocated ⟨⟨13⟩, ⟨2⟩, some "b", 3, 6⟩ ⟨⟨7⟩⟩, .revised ⟨3⟩ (tourTerms "Cham" ⟨1, 0⟩) ⟨⟨5⟩⟩]

/-- A claim on one quota and a revision of another that are made at the same time. -/
def twoWrites : List (Submission × Standing) :=
  [(⟨⟨⟨1⟩, ⟨⟨8⟩⟩, .allocate ⟨⟨14⟩, ⟨1⟩, none, 1, 7⟩⟩, ⟨⟨9⟩⟩⟩,
      ⟨tourTerms "Alba" ⟨4, 1⟩, 0, ⟨⟨8⟩⟩⟩),
    (⟨⟨⟨2⟩, ⟨⟨7⟩⟩, .revise (tourTerms "Brig" ⟨9, 0⟩)⟩, ⟨⟨10⟩⟩⟩,
      ⟨tourTerms "Brig" ⟨7, 1⟩, 3, ⟨⟨7⟩⟩⟩)]

/-- Mixed or sorted, the log rebuilds the same tables, also with two writes behind it that were
logged in the order opposite to that in which they took effect. -/
theorem replay_by_quota_reordered :
    (mixedLog.filterMap Record.grant?).Nodup ∧ SameHistories mixedLog sortedLog ∧
      ofRecords mixedLog = ofRecords sortedLog ∧ InFlight (ofRecords mixedLog) twoWrites ∧
      ofRecords (mixedLog ++ (twoWrites.map (·.1.record)).reverse) =
        (ofRecords mixedLog).commitAll twoWrites := by
  have hnodup : (mixedLog.filterMap Record.grant?).Nodup := by decide +kernel
  have hsame : SameHistories mixedLog sortedLog := by decide +kernel
  have hflight : InFlight (ofRecords mixedLog) twoWrites := by
    refine ⟨by decide +kernel, by decide +kernel, ?_⟩
    intro p hp a ha
    rcases List.mem_pair.1 hp with rfl | rfl
    · cases ha
      rfl
    · cases ha
  exact ⟨hnodup, hsame, replay_by_quota.1 _ _ hnodup hsame, hflight,
    replay_by_quota.2 _ _ _ hflight (List.reverse_perm _) (by decide +kernel)⟩

end Tables

end Allotment
