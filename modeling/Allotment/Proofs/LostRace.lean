/-
**A race that is lost.**

A client reads a quota and then writes to it.  If somebody else changes the quota in between, the
client's write comes too late: the change has given the quota a version that the write does not
expect.  It does not matter what the change was.  It may have taken the last units or made room for
more, and the request might still fit or fit no longer; the desk does not look again.  So the client
is told of a conflict, which it can do something about, and of the two only the other is left a
trace.  A request that is refused on what was read is refused for the same reason as ever.

Main definitions:

* `Allotment.Claim.Passes`, `Allotment.Revision.Passes` — what a desk checks before it writes;
* `Allotment.LostRace.Outrun` — how a call ends if a rival strikes between its reading and its
  write.

Main results:

* `Allotment.Store.load_arm` — a reading brings the rival's change about, at the version read;
* `Allotment.Store.commit_late` — a write that expects an earlier version changes nothing;
* `Allotment.LostRace.lost_race` — **a call that is outrun ends in a conflict or as it would have
  ended anyway, and leaves what the rival's change alone leaves**.
-/

import Allotment.Proofs.Store

set_option relaxedAutoImplicit false
set_option autoImplicit false

namespace Allotment

/-! ### What is checked before a write -/

/-- **What a desk checks of a claim** on the reading `q`: it keeps the limits and fits. -/
structure Claim.Passes (c : Claim) (q : Quota) : Prop where
  /-- The claim is for some units, and its reference is not too long. -/
  check : c.check = .ok ()
  /-- The units are still there. -/
  fits : c.quantity.toNat ≤ q.terms.bound - q.reserved.toNat

/-- **What a desk checks of a revision** on the reading `q`: it keeps the limits, was made for the
version that was read, and covers what is reserved. -/
structure Revision.Passes (v : Revision) (q : Quota) : Prop where
  /-- The terms keep the limits. -/
  check : v.terms.check = .ok ()
  /-- The client has seen the version that was read. -/
  seen : v.expected = q.version
  /-- The new bound covers the units reserved. -/
  covers : q.reserved.toNat ≤ v.terms.bound

/-- A claim whose units are there leads to a write at the version that was read; any other is
refused. -/
theorem Claim.passes_cases {c : Claim} (hc : c.check = .ok ()) (q : Quota) (stamp : Stamp) :
    (c.Passes q ∧ c.decide? (some q) stamp = .ok (c.write q stamp)) ∨
      (¬ c.Passes q ∧ ∃ e, c.decide? (some q) stamp = .error e) := by
  rcases c.decide?_cases q stamp with ⟨hfits, hd⟩ | ⟨hlt, hd⟩
  · exact Or.inl ⟨⟨hc, hfits⟩, hd⟩
  · exact Or.inr ⟨fun hp => Nat.not_le.2 hlt hp.fits, _, hd⟩

/-- A revision that passes leads to a write at the version that was read; any other is refused. -/
theorem Revision.passes_cases {v : Revision} (hc : v.terms.check = .ok ()) (q : Quota) :
    (v.Passes q ∧ v.decide? (some q) = .ok v.write) ∨
      (¬ v.Passes q ∧ ∃ e, v.decide? (some q) = .error e) := by
  rcases v.decide?_cases q with ⟨hother, hd⟩ | ⟨_, hlow, hd⟩ | ⟨hseen, hcovers, hd⟩
  · exact Or.inr ⟨fun hp => hother hp.seen.symm, _, hd⟩
  · exact Or.inr ⟨fun hp => Nat.not_le.2 hlow hp.covers, _, hd⟩
  · exact Or.inl ⟨⟨hc, hseen.symm, hcovers⟩, hd⟩

/-! ### A reading with a rival in wait -/

/-- The write by which a rival strikes, at the version that was read. -/
def Rival.strike (r : Rival) (q : Quota) : Write := ⟨r.quota, q.version, r.change⟩

/-- A write gives its quota the version it was made with. -/
theorem Write.version_after (w : Write) (st : Standing) (version : Version) :
    (st.after (w.record version)).version = version := by
  obtain ⟨quota, expected, change⟩ := w
  cases change with
  | allocate a => rfl
  | revise terms => rfl

namespace Store

variable {ι : Type} [Journal ι] {s : Store ι}

/-- **A reading brings the rival's change about**, at the version read, and says what was there
before. -/
theorem load_arm (alone : s.rival = none) {r : Rival} {q : Quota}
    (hq : s.tables.quota? r.quota = some q) :
    (s.arm r).load r.quota = (some q, (s.commit (r.strike q) r.version).2) := by
  have hsame : { s.arm r with rival := none } = s := by
    cases s
    cases alone
    rfl
  have hread : (s.arm r).tables.quota? r.quota = some q := hq
  unfold load
  rw [hread]
  change (if r.quota = r.quota then _ else _) = _
  rw [if_pos rfl, hsame]
  rfl

/-- **A write that expects an earlier version changes nothing**: the write `w` has come first. -/
theorem commit_late {w w' : Write} {version : Version} {q : Quota}
    (hw : (s.commit w version).1 = .ok q) (hquota : w'.quota = w.quota)
    (hexpected : w'.expected ≠ version) (version' : Version) :
    (s.commit w version).2.commit w' version' =
      (.error (.versionMismatch w'.quota w'.expected version), (s.commit w version).2) := by
  have hcheck : (s.commit w version).2.checkWrite w' =
      .error (.versionMismatch w'.quota w'.expected version) := by
    rcases s.commit_cases w version with ⟨e, _, he⟩ | ⟨st, e, j, _, _, he⟩ | ⟨st, j, _, _, he⟩
    · rw [he] at hw
      cases hw
    · rw [he] at hw
      cases hw
    · rw [he]
      simp only [checkWrite, Tables.standings_commit, if_pos hquota.symm, Write.version_after,
        if_neg (Ne.symm hexpected)]
  rw [commit, hcheck]

/-- A write that is in time takes effect in a store that keeps no log. -/
theorem commit_volatile {s : Store Volatile} {w : Write} {st : Standing}
    (hstands : s.tables.standings[w.quota]? = some st) (hv : st.version = w.expected)
    (version : Version) :
    s.commit w version =
      (.ok { st.after (w.record version) with id := w.quota },
        { s with tables := s.tables.commit w.quota st (w.record version) }) := by
  have hc : s.checkWrite w = .ok st := checkWrite_eq_ok_iff.2 ⟨hstands, hv⟩
  rw [commit, hc]
  rfl

end Store

namespace Desk

variable {ι : Type} [Journal ι] {s s' : Store ι} {q : Quota}

/-- A claim that reads its quota is decided on the reading and carried out on what is there then. -/
theorem allocateIn_of_load {c : Claim} (hc : c.check = .ok ())
    (hread : s.load c.quota = (some q, s')) (stamp : Stamp) :
    allocateIn s c stamp =
      ((carryOut s' (c.decide? (some q) stamp) stamp.version).1.map fun _ => c.allocation stamp,
        (carryOut s' (c.decide? (some q) stamp) stamp.version).2) := by
  simp only [allocateIn, prepare, hc, hread]
  rcases carryOut s' (c.decide? (some q) stamp) stamp.version with ⟨e | q', s''⟩
  · rfl
  · rfl

/-- A revision that reads its quota is decided on the reading and carried out on what is there
then. -/
theorem reviseIn_of_load {v : Revision} (hc : v.terms.check = .ok ())
    (hread : s.load v.quota = (some q, s')) (stamp : Stamp) :
    reviseIn s v stamp = carryOut s' (v.decide? (some q)) stamp.version := by
  simp only [reviseIn, hc, hread]

end Desk

namespace LostRace

/-! ### Calls that are outrun -/

/-- **How a call ends if a rival strikes between its reading and its write.**  Without the rival it
ends with `alone`, with the rival it ends with `raced` and leaves the store `left`.  The call passes
its checks on what was read, at the version `read`, if `passes`; the rival's change alone gives the
quota the version `actual` and leaves the store `won`. -/
structure Outrun {α : Type} (alone raced : Except Refusal α) (left won : Store Volatile)
    (passes : Prop) (quota : Ulid) (read actual : Version) : Prop where
  /-- A call that passes its checks would be granted, and ends in a conflict. -/
  conflict : passes → (∃ a, alone = .ok a) ∧ raced = .error (.conflict quota read actual)
  /-- A call that does not is refused as it would be without the rival. -/
  refused : ¬ passes → ∃ e, alone = .error e ∧ raced = .error e
  /-- Nothing is left but the rival's change. -/
  left : left = won

theorem Outrun.map {α β : Type} {alone raced : Except Refusal α} {left won : Store Volatile}
    {passes : Prop} {quota : Ulid} {read actual : Version}
    (h : Outrun alone raced left won passes quota read actual) (f : α → β) :
    Outrun (alone.map f) (raced.map f) left won passes quota read actual where
  conflict hp := by
    obtain ⟨⟨a, ha⟩, hraced⟩ := h.conflict hp
    exact ⟨⟨f a, by rw [ha]; rfl⟩, by rw [hraced]; rfl⟩
  refused hp := by
    obtain ⟨e, ha, hraced⟩ := h.refused hp
    exact ⟨e, by rw [ha]; rfl, by rw [hraced]; rfl⟩
  left := h.left

section Race

variable {s : Store Volatile} {r : Rival} {q : Quota}

/-- The rival's change takes effect, and gives the quota its version. -/
theorem strike_ok (hq : s.tables.quota? r.quota = some q) :
    ∃ q', (s.commit (r.strike q) r.version).1 = .ok q' ∧
      (s.commit (r.strike q) r.version).2.tables.quota? r.quota = some q' ∧
      q'.version = r.version := by
  have hstands := (Tables.quota?_eq_some_iff.1 hq).1
  rw [Store.commit_volatile (w := r.strike q) hstands rfl]
  refine ⟨_, rfl, Tables.quota?_eq_some_iff.2 ⟨?_, rfl⟩, Write.version_after _ _ _⟩
  exact (Tables.standings_commit _ _ _ _ _).trans (if_pos rfl)

/-- A decision that was made on a reading is outrun: it leads to a write at the version read if the
checks are passed, and to a refusal otherwise. -/
theorem outrun_carryOut (hq : s.tables.quota? r.quota = some q) (hfresh : r.version ≠ q.version)
    {decision : Except Refusal Write} {passes : Prop}
    (hd : (passes ∧ ∃ w, decision = .ok w ∧ w.quota = r.quota ∧ w.expected = q.version) ∨
      (¬ passes ∧ ∃ e, decision = .error e)) (version : Version) :
    Outrun (Desk.carryOut s decision version).1
      (Desk.carryOut (s.commit (r.strike q) r.version).2 decision version).1
      (Desk.carryOut (s.commit (r.strike q) r.version).2 decision version).2
      (s.commit (r.strike q) r.version).2 passes r.quota q.version r.version := by
  rcases hd with ⟨hp, w, rfl, hquota, hexpected⟩ | ⟨hp, e, rfl⟩
  · obtain ⟨q', hwon, _, _⟩ := strike_ok hq
    have hstands : s.tables.standings[w.quota]? = some q.toStanding :=
      hquota ▸ (Tables.quota?_eq_some_iff.1 hq).1
    have hgranted := congrArg Prod.fst (Store.commit_volatile hstands hexpected.symm version)
    have hlate := Store.commit_late hwon hquota (hexpected ▸ hfresh.symm) version
    rw [hquota, hexpected] at hlate
    have hraced : Desk.carryOut (s.commit (r.strike q) r.version).2 (.ok w) version =
        (.error (.conflict r.quota q.version r.version), (s.commit (r.strike q) r.version).2) := by
      simp only [Desk.carryOut, hlate, Refusal.ofFailure]
    rw [hraced]
    refine ⟨fun _ => ⟨?_, rfl⟩, fun hnot => absurd hp hnot, rfl⟩
    rcases Desk.carryOut_ok_cases s w version with ⟨e, he, _⟩ | ⟨q'', _, hcarry⟩
    · rw [hgranted] at he
      cases he
    · exact ⟨q'', by rw [hcarry]⟩
  · exact ⟨fun hyes => absurd hyes hp, fun _ => ⟨e, rfl, rfl⟩, rfl⟩

/-- A claim that is outrun. -/
theorem outrun_allocateIn (alone : s.rival = none) (hq : s.tables.quota? r.quota = some q)
    (hfresh : r.version ≠ q.version) {c : Claim} (hquota : c.quota = r.quota)
    (hc : c.check = .ok ()) (stamp : Stamp) :
    Outrun (Desk.allocateIn s c stamp).1 (Desk.allocateIn (s.arm r) c stamp).1
      (Desk.allocateIn (s.arm r) c stamp).2 (s.commit (r.strike q) r.version).2 (c.Passes q)
      r.quota q.version r.version := by
  have hread : s.load c.quota = (some q, s) := by
    rw [Store.load_of_no_rival alone, hquota, hq]
  have hraced : (s.arm r).load c.quota = (some q, (s.commit (r.strike q) r.version).2) := by
    rw [hquota, Store.load_arm alone hq]
  rw [Desk.allocateIn_of_load hc hread, Desk.allocateIn_of_load hc hraced]
  refine (outrun_carryOut hq hfresh ?_ stamp.version).map _
  rcases Claim.passes_cases hc q stamp with ⟨hp, hd⟩ | hrefused
  · exact Or.inl ⟨hp, _, hd, hquota, rfl⟩
  · exact Or.inr hrefused

/-- A revision that is outrun. -/
theorem outrun_reviseIn (alone : s.rival = none) (hq : s.tables.quota? r.quota = some q)
    (hfresh : r.version ≠ q.version) {v : Revision} (hquota : v.quota = r.quota)
    (hc : v.terms.check = .ok ()) (stamp : Stamp) :
    Outrun (Desk.reviseIn s v stamp).1 (Desk.reviseIn (s.arm r) v stamp).1
      (Desk.reviseIn (s.arm r) v stamp).2 (s.commit (r.strike q) r.version).2 (v.Passes q)
      r.quota q.version r.version := by
  have hread : s.load v.quota = (some q, s) := by
    rw [Store.load_of_no_rival alone, hquota, hq]
  have hraced : (s.arm r).load v.quota = (some q, (s.commit (r.strike q) r.version).2) := by
    rw [hquota, Store.load_arm alone hq]
  rw [Desk.reviseIn_of_load hc hread, Desk.reviseIn_of_load hc hraced]
  refine outrun_carryOut hq hfresh ?_ stamp.version
  rcases Revision.passes_cases hc q with ⟨hp, hd⟩ | hrefused
  · exact Or.inl ⟨hp, _, hd, hquota, hp.seen⟩
  · exact Or.inr hrefused

end Race

/-! ### The race -/

/-- **A call that is outrun ends in a conflict or as it would have ended anyway, and leaves what the
rival's change alone leaves.**  Take any store that keeps no log, a quota in it that is read as `q`,
and a rival with any change of this quota, made at the version read right after the reading.  The
change takes effect and gives the quota a version.  A claim or a revision that passes its checks on
what was read ends in a conflict between the version read and this one, and a conflict is transient;
any other is refused as it would be without the rival.  Either way the store is the one that the
rival's change alone leaves.  Only a call that is refused before it reads anything leaves the rival
in wait. -/
theorem lost_race {d : Desk Volatile} (alone : d.store.rival = none) {r : Rival} {q : Quota}
    (hq : d.store.tables.quota? r.quota = some q) (hfresh : r.version ≠ q.version) :
    let armed : Desk Volatile := { d with store := d.store.arm r }
    let won := d.store.commit (r.strike q) r.version
    (∃ q', won.1 = .ok q' ∧ won.2.tables.quota? r.quota = some q' ∧ q'.version = r.version) ∧
    (∀ (c : Claim) (stamp : Stamp), c.quota = r.quota →
      (c.check = .ok () →
        Outrun (d.allocate c stamp).1 (armed.allocate c stamp).1 (armed.allocate c stamp).2.store
          won.2 (c.Passes q) r.quota q.version r.version) ∧
      ∀ e, c.check = .error e →
        (d.allocate c stamp).1 = .error e ∧ (armed.allocate c stamp).1 = .error e ∧
          (armed.allocate c stamp).2.store = armed.store) ∧
    (∀ (v : Revision) (stamp : Stamp), v.quota = r.quota →
      (v.terms.check = .ok () →
        Outrun (d.revise v stamp).1 (armed.revise v stamp).1 (armed.revise v stamp).2.store
          won.2 (v.Passes q) r.quota q.version r.version) ∧
      ∀ e, v.terms.check = .error e →
        (d.revise v stamp).1 = .error e ∧ (armed.revise v stamp).1 = .error e ∧
          (armed.revise v stamp).2.store = armed.store) ∧
    (Refusal.conflict r.quota q.version r.version).isTransient = true := by
  refine ⟨strike_ok hq, ?_, ?_, rfl⟩
  · intro c stamp hquota
    refine ⟨fun hc => outrun_allocateIn alone hq hfresh hquota hc stamp, ?_⟩
    intro e he
    have hunread : ∀ s : Store Volatile, Desk.allocateIn s c stamp = (.error e, s) := by
      intro s
      simp only [Desk.allocateIn, Desk.prepare, he, Desk.carryOut]
    exact ⟨congrArg Prod.fst (hunread d.store), congrArg Prod.fst (hunread _),
      congrArg Prod.snd (hunread _)⟩
  · intro v stamp hquota
    refine ⟨fun hc => outrun_reviseIn alone hq hfresh hquota hc stamp, ?_⟩
    intro e he
    have hunread : ∀ s : Store Volatile, Desk.reviseIn s v stamp = (.error e, s) := by
      intro s
      simp only [Desk.reviseIn, he]
    exact ⟨congrArg Prod.fst (hunread d.store), congrArg Prod.fst (hunread _),
      congrArg Prod.snd (hunread _)⟩

/-- Terms of a quota on one day. -/
def dayTerms (room : Room) : Terms := ⟨room, "Süd", "ferry", ⟨2026, 10, 12, by decide⟩⟩

/-- A quota of five units, two of which are taken. -/
def twoTaken : Desk Volatile where
  store := .ofTables (.ofRecords [.created ⟨1⟩ (dayTerms ⟨4, 1⟩) ⟨⟨1⟩⟩,
    .allocated ⟨⟨2⟩, ⟨1⟩, none, 2, 0⟩ ⟨⟨2⟩⟩]) .volatile
  meter := .zero

/-- How this quota is read. -/
def reading : Quota := { id := ⟨1⟩, terms := dayTerms ⟨4, 1⟩, reserved := 2, version := ⟨⟨2⟩⟩ }

/-- A rival that takes all units that are left. -/
def faster : Rival := ⟨⟨1⟩, .allocate ⟨⟨3⟩, ⟨1⟩, some "rival", 3, 1⟩, ⟨⟨3⟩⟩⟩

/-- The desk with the rival in wait. -/
def contested : Desk Volatile := { twoTaken with store := twoTaken.store.arm faster }

/-- What is fresh about a call. -/
def late : Stamp := ⟨⟨4⟩, ⟨⟨4⟩⟩, 2⟩

/-- A claim for two units and a revision that allows for three both pass on what was read, and end
in a conflict.  A claim for four units was never going to be granted. -/
theorem lost_race_units_taken :
    twoTaken.store.rival = none ∧ twoTaken.store.tables.quota? faster.quota = some reading ∧
      faster.version ≠ reading.version ∧
      (contested.allocate ⟨⟨1⟩, 2, some "BK-1"⟩ late).1 =
        .error (.conflict ⟨1⟩ ⟨⟨2⟩⟩ ⟨⟨3⟩⟩) ∧
      (contested.revise ⟨⟨1⟩, dayTerms ⟨3, 0⟩, ⟨⟨2⟩⟩⟩ late).1 =
        .error (.conflict ⟨1⟩ ⟨⟨2⟩⟩ ⟨⟨3⟩⟩) ∧
      (contested.allocate ⟨⟨1⟩, 4, none⟩ late).1 = .error (.overbooked ⟨1⟩ 4 3) ∧
      (contested.allocate ⟨⟨1⟩, 4, none⟩ late).2.store =
        (twoTaken.store.commit (faster.strike reading) faster.version).2 := by
  have hq : twoTaken.store.tables.quota? faster.quota = some reading := by decide +kernel
  have hfresh : faster.version ≠ reading.version := by decide
  obtain ⟨_, hclaims, hrevisions, _⟩ := lost_race (d := twoTaken) rfl hq hfresh
  have htwo := (hclaims ⟨⟨1⟩, 2, some "BK-1"⟩ late rfl).1 rfl
  have hterms := (hrevisions ⟨⟨1⟩, dayTerms ⟨3, 0⟩, ⟨⟨2⟩⟩⟩ late rfl).1 rfl
  have hfour := (hclaims ⟨⟨1⟩, 4, none⟩ late rfl).1 rfl
  obtain ⟨e, halone, hraced⟩ := hfour.refused fun hp => absurd hp.fits (by decide)
  have hover : (twoTaken.allocate ⟨⟨1⟩, 4, none⟩ late).1 = .error (.overbooked ⟨1⟩ 4 3) := by
    rfl
  exact ⟨rfl, hq, hfresh, (htwo.conflict ⟨rfl, by decide⟩).2,
    (hterms.conflict ⟨rfl, rfl, by decide⟩).2, hraced.trans (halone.symm.trans hover),
    hfour.left⟩

end LostRace

end Allotment
