/-
**Clients that come between each other.**

A client that claims units or changes terms first reads the quota and later makes a conditional
write.  Between the two, other clients may do anything.  This module lets any number of clients take
such steps in any order, on a store with any journal: a reading may be acted on immediately, much
later, several times or never, and the journal may refuse a write for reasons of its own.

Nothing is locked between reading and writing.  What protects the bound is that a write is only
made at the version that was read, and that a version is never used twice.  So the invariant says of
every reading ever taken: if its quota still has the version that was read, then the quota still
stands as it was read.

Main definitions:

* `Allotment.Interleaving.State` — a desk, what the clients have read, and the stamps used so far;
* `Allotment.Interleaving.Step`, `Allotment.Interleaving.Reachable` — what can happen;
* `Allotment.Interleaving.Invariant` — what holds at every moment.

Main results:

* `Allotment.Interleaving.Reachable.invariant` — the invariant holds in every reachable state;
* `Allotment.Interleaving.never_oversold` — **no quota is ever sold beyond its bound**.
-/

import Allotment.Proofs.Store

set_option relaxedAutoImplicit false
set_option autoImplicit false

namespace Allotment

namespace Interleaving

open Tables (Sound Stamped)

/-! ### What can happen -/

/-- Clients of the type `κ` at work on a desk. -/
structure State (κ ι : Type) where
  /-- The desk. -/
  desk : Desk ι
  /-- What each client has read so far. -/
  readings : List (κ × Quota)
  /-- The stamps used so far. -/
  used : List Stamp

variable {κ ι : Type}

/-- A stamp none of whose marks was used before. -/
def State.Fresh (st : State κ ι) (x : Stamp) : Prop :=
  ∀ y ∈ st.used, x.id ≠ y.id ∧ x.version ≠ y.version

variable [Journal ι]

/-- The desk after a decision was carried out on its store. -/
def State.carryOut (st : State κ ι) (decision : Except Refusal Write) (x : Stamp) : State κ ι :=
  { st with
    desk := { st.desk with store := (Desk.carryOut st.desk.store decision x.version).2 }
    used := x :: st.used }

/-- **What can happen next**: a quota is created, a client reads a quota, or a client acts on
something that it has read, no matter how long ago. -/
inductive Step : State κ ι → State κ ι → Prop
  | create (st : State κ ι) (terms : Terms) (x : Stamp) : st.Fresh x →
      Step st { st with desk := (st.desk.create terms x).2, used := x :: st.used }
  | read (st : State κ ι) (k : κ) (quota : Ulid) :
      Step st
        { st with
          desk := { st.desk with store := (st.desk.store.load quota).2 }
          readings := (st.desk.store.load quota).1.toList.map (k, ·) ++ st.readings }
  | allocate (st : State κ ι) (k : κ) (q : Quota) (c : Claim) (x : Stamp) :
      (k, q) ∈ st.readings → c.quota = q.id → st.Fresh x →
      Step st (st.carryOut (c.decideOn q x) x)
  | revise (st : State κ ι) (k : κ) (q : Quota) (r : Revision) (x : Stamp) :
      (k, q) ∈ st.readings → r.quota = q.id → st.Fresh x →
      Step st (st.carryOut (r.decideOn q) x)

/-- The beginning: an empty store with some journal and some ceiling, and nobody has read
anything. -/
def State.start (j : ι) (ceiling : Nat) : State κ ι :=
  ⟨⟨{ Store.ofTables .empty j with ceiling }, .zero⟩, [], []⟩

/-- The states that can be reached from an empty store. -/
inductive Reachable : State κ ι → Prop
  | start (j : ι) (ceiling : Nat) : Reachable (.start j ceiling)
  | step {st st' : State κ ι} : Reachable st → Step st st' → Reachable st'

/-! ### What holds at every moment -/

omit [Journal ι] in
/-- A reading is right about its quota whenever the quota has the version that was read. -/
def Current (t : Tables) (q : Quota) : Prop :=
  ∀ s, t.standings[q.id]? = some s → s.version = q.version → s = q.toStanding

omit [Journal ι] in
/-- **What holds at every moment.** -/
structure Invariant (st : State κ ι) : Prop where
  /-- The tables are sound. -/
  sound : Sound st.desk.store.tables
  /-- No rival lies in wait. -/
  alone : st.desk.store.rival = none
  /-- Every reading is right at its version. -/
  current : ∀ k q, (k, q) ∈ st.readings → Current st.desk.store.tables q
  /-- The versions of quotas come from stamps. -/
  standing_used : ∀ (id : Ulid) (s : Standing), st.desk.store.tables.standings[id]? = some s →
    ∃ x ∈ st.used, x.version = s.version
  /-- The versions that were read come from stamps. -/
  reading_used : ∀ k q, (k, q) ∈ st.readings → ∃ x ∈ st.used, x.version = q.version
  /-- The identifiers of allocations come from stamps. -/
  ledger_used : ∀ i a, st.desk.store.tables.ledger.find? i = some a → ∃ x ∈ st.used, x.id = i

namespace Invariant

omit [Journal ι] in
/-- A fresh stamp's identifier has no allocation yet. -/
theorem find?_eq_none {st : State κ ι} (h : Invariant st) {x : Stamp} (hx : st.Fresh x) :
    st.desk.store.tables.ledger.find? x.id = none := by
  cases hf : st.desk.store.tables.ledger.find? x.id with
  | none => rfl
  | some a =>
      obtain ⟨y, hy, heq⟩ := h.ledger_used _ _ hf
      exact absurd heq.symm (hx y hy).1

omit [Journal ι] in
/-- A sound change with a fresh stamp keeps the invariant, as long as nobody reads anything. -/
theorem stamped {st : State κ ι} (h : Invariant st) {x : Stamp} (hx : st.Fresh x) {d : Desk ι}
    (hs : Sound d.store.tables) (ht : Stamped st.desk.store.tables d.store.tables x)
    (hr : d.store.rival = st.desk.store.rival) :
    Invariant { st with desk := d, used := x :: st.used } where
  sound := hs
  alone := hr.trans h.alone
  current k q hq s hsome hv := by
    -- the version that was read is an old one, so the quota has not changed since
    rcases ht.standings _ _ hsome with hold | hnew
    · exact h.current k q hq s hold hv
    · obtain ⟨y, hy, heq⟩ := h.reading_used k q hq
      exact absurd (hnew.symm.trans (hv.trans heq.symm)) (hx y hy).2
  standing_used id s hsome := by
    rcases ht.standings _ _ hsome with hold | hnew
    · obtain ⟨y, hy, heq⟩ := h.standing_used id s hold
      exact ⟨y, List.mem_cons_of_mem _ hy, heq⟩
    · exact ⟨x, List.mem_cons_self, hnew.symm⟩
  reading_used k q hq := by
    obtain ⟨y, hy, heq⟩ := h.reading_used k q hq
    exact ⟨y, List.mem_cons_of_mem _ hy, heq⟩
  ledger_used i a hf := by
    rcases ht.ledger _ _ hf with hold | hnew
    · obtain ⟨y, hy, heq⟩ := h.ledger_used i a hold
      exact ⟨y, List.mem_cons_of_mem _ hy, heq⟩
    · exact ⟨x, List.mem_cons_self, hnew.symm⟩

omit [Journal ι] in
theorem start (j : ι) (ceiling : Nat) : Invariant (State.start j ceiling : State κ ι) where
  sound := Sound.empty
  alone := rfl
  current k q hq := absurd hq List.not_mem_nil
  standing_used id s h := by simp [State.start, Store.ofTables, Tables.empty] at h
  reading_used k q hq := absurd hq List.not_mem_nil
  ledger_used i a h := by simp [State.start, Store.ofTables, Tables.empty] at h

/-- **Every step keeps the invariant.** -/
theorem step {st st' : State κ ι} (h : Invariant st) (hstep : Step st st') : Invariant st' := by
  cases hstep with
  | create terms x hx =>
      obtain ⟨hs, ht, hr⟩ := Desk.create_sound h.sound terms x
      exact h.stamped hx hs ht hr
  | read k quota =>
      rw [Store.load_of_no_rival h.alone]
      refine ⟨h.sound, h.alone, ?_, h.standing_used, ?_, h.ledger_used⟩
      · intro k' q hq s hs hv
        rcases List.mem_append.1 hq with hq | hq
        · obtain ⟨q', hq', heq⟩ := List.mem_map.1 hq
          cases heq
          obtain ⟨hstands, hid⟩ := Tables.quota?_eq_some_iff.1 (Option.mem_toList.1 hq')
          rw [hid, hstands] at hs
          exact (Option.some.inj hs).symm
        · exact h.current k' q hq s hs hv
      · intro k' q hq
        rcases List.mem_append.1 hq with hq | hq
        · obtain ⟨q', hq', heq⟩ := List.mem_map.1 hq
          cases heq
          obtain ⟨hstands, _⟩ := Tables.quota?_eq_some_iff.1 (Option.mem_toList.1 hq')
          exact h.standing_used _ _ hstands
        · exact h.reading_used k' q hq
  | allocate k q c x hq hquota hx =>
      obtain ⟨hs, ht⟩ := Desk.allocate_sound h.sound hquota (h.current k q hq) (h.find?_eq_none hx)
      exact h.stamped hx hs ht (Desk.carryOut_cases _ _ _).2
  | revise k q r x hq hquota hx =>
      obtain ⟨hs, ht⟩ := Desk.revise_sound h.sound x hquota (h.current k q hq)
      exact h.stamped hx hs ht (Desk.carryOut_cases _ _ _).2

end Invariant

/-- The invariant holds in every reachable state. -/
theorem Reachable.invariant {st : State κ ι} (h : Reachable st) : Invariant st := by
  induction h with
  | start j ceiling => exact Invariant.start j ceiling
  | step _ hstep ih => exact ih.step hstep

/-- **No quota is ever sold beyond its bound.**  Whatever clients do on an empty store and in
whatever order, the units reserved of every quota are within its bound and are the sum of its
allocations; and whenever a write that grants a claim is in time, the units of the claim are added
to those reserved without wrapping. -/
theorem never_oversold {st : State κ ι} (h : Reachable st) :
    (∀ (id : Ulid) (s : Standing), st.desk.store.tables.standings[id]? = some s →
      s.reserved.toNat ≤ s.terms.bound ∧
        s.reserved.toNat = st.desk.store.tables.ledger.total id) ∧
    (∀ k q, (k, q) ∈ st.readings → ∀ (c : Claim) (x : Stamp) (w : Write) (s : Standing),
      c.quota = q.id → c.decideOn q x = .ok w → st.desk.store.checkWrite w = .ok s →
        (s.after (w.record x.version)).reserved.toNat =
          s.reserved.toNat + c.quantity.toNat) := by
  have hinv := h.invariant
  constructor
  · intro id s hs
    exact ⟨hinv.sound.within id s hs, hinv.sound.balanced id s hs⟩
  · intro k q hq c x w s hquota hd hc
    have hfit := Desk.reserved_add_le hinv.sound hquota (hinv.current k q hq) hd hc
    have hlt := hinv.sound.reserved_add_lt (Store.checkWrite_eq_ok_iff.1 hc).1 hfit
    obtain ⟨rfl, _, _, _⟩ := Claim.decideOn_eq_ok hd
    simp only [Claim.write, Claim.allocation, Write.record, Tables.reserved_after_allocated]
    rw [UInt32.toNat_add, Nat.mod_eq_of_lt hlt]

/-- Terms for one unit. -/
def lastSeat : Terms := ⟨⟨1, 0⟩, "Last seat", "tour", ⟨2026, 9, 1, by decide⟩⟩

/-- The reading of a new quota with one unit. -/
def seatRead : Quota := ⟨.opening lastSeat ⟨⟨1⟩⟩, ⟨1⟩⟩

/-- A claim for that unit. -/
def seatClaim : Claim := ⟨⟨1⟩, 1, none⟩

/-- Two clients have read that one unit is left. -/
def bothRead : State Bool Volatile where
  desk :=
    ⟨(Store.insert (Store.ofTables .empty Volatile.volatile) ⟨1⟩ lastSeat ⟨⟨1⟩⟩).2, .zero⟩
  readings := [(true, seatRead), (false, seatRead)]
  used := [⟨⟨1⟩, ⟨⟨1⟩⟩, 0⟩]

/-- One of them has got it. -/
def oneSold : State Bool Volatile :=
  bothRead.carryOut (seatClaim.decideOn seatRead ⟨⟨2⟩, ⟨⟨2⟩⟩, 0⟩) ⟨⟨2⟩, ⟨⟨2⟩⟩, 0⟩

theorem reachable_bothRead : Reachable bothRead := by
  have start : Reachable (State.start Volatile.volatile Limit.quotasPerStore : State Bool _) :=
    .start _ _
  have created := start.step (.create _ lastSeat ⟨⟨1⟩, ⟨⟨1⟩⟩, 0⟩ fun _ h => by cases h)
  exact (created.step (.read _ false ⟨1⟩)).step (.read _ true ⟨1⟩)

theorem reachable_oneSold : Reachable oneSold :=
  reachable_bothRead.step (.allocate _ false seatRead seatClaim _ (by decide) rfl
    (by unfold State.Fresh; decide))

/-- Two clients read that one unit is left.  The first to write gets it, and with it the quota is
sold out but not oversold. -/
theorem never_oversold_last_seat :
    Reachable bothRead ∧ Reachable oneSold ∧
      (∃ w s, seatClaim.decideOn seatRead ⟨⟨2⟩, ⟨⟨2⟩⟩, 0⟩ = .ok w ∧
        bothRead.desk.store.checkWrite w = .ok s ∧ (false, seatRead) ∈ bothRead.readings ∧
        (s.after (w.record ⟨⟨2⟩⟩)).reserved.toNat = s.reserved.toNat + 1) ∧
      ∃ s, oneSold.desk.store.tables.standings[(⟨1⟩ : Ulid)]? = some s ∧ s.reserved = 1 ∧
        s.reserved.toNat ≤ s.terms.bound ∧
        s.reserved.toNat = oneSold.desk.store.tables.ledger.total ⟨1⟩ := by
  have hread : (false, seatRead) ∈ bothRead.readings := by decide
  have hd : seatClaim.decideOn seatRead ⟨⟨2⟩, ⟨⟨2⟩⟩, 0⟩ =
      .ok (seatClaim.write seatRead ⟨⟨2⟩, ⟨⟨2⟩⟩, 0⟩) := rfl
  have hc : bothRead.desk.store.checkWrite (seatClaim.write seatRead ⟨⟨2⟩, ⟨⟨2⟩⟩, 0⟩) =
      .ok seatRead.toStanding := rfl
  have hs : oneSold.desk.store.tables.standings[(⟨1⟩ : Ulid)]? = some ⟨lastSeat, 1, ⟨⟨2⟩⟩⟩ := rfl
  refine ⟨reachable_bothRead, reachable_oneSold, ⟨_, _, hd, hc, hread, ?_⟩, _, hs, rfl, ?_⟩
  · exact (never_oversold reachable_bothRead).2 false seatRead hread seatClaim _ _ _ rfl hd hc
  · exact (never_oversold reachable_oneSold).1 _ _ hs

end Interleaving

end Allotment
