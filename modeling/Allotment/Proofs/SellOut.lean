/-
**Selling a quota out.**

A number of clients want units of one quota.  Each reads the quota, decides, and makes its write; if
somebody else was faster it starts again, and it goes on until it has its units or is told that
there are too few left.  Their readings and writes come in any order, and other business of the
store may come in between, as long as it leaves this quota alone.

A client is turned away because of what it has read, while others may still be granted units.  That
this is never unfair rests on one fact: the units left only become fewer.  So a client that is told
that its claim does not fit would be told the same at any later time, and when all have their
answers, no claim that was turned away would fit into what is left.

Main definitions:

* `Allotment.SellOut.Phase`, `Allotment.SellOut.State` — how far each client is;
* `Allotment.SellOut.State.read`, `Allotment.SellOut.State.write` — the two halves of a call, and
  `Allotment.SellOut.Step`, `Allotment.SellOut.Reachable` — what can happen;
* `Allotment.SellOut.Honest` — what holds of a client at every moment, and
  `Allotment.SellOut.Invariant` — what holds of all of them and of the quota.

Main results:

* `Allotment.SellOut.allocateIn_eq` — a call is a reading and a write with nothing in between;
* `Allotment.SellOut.Honest.later` — units that are granted to one client make no other dishonest;
* `Allotment.SellOut.Invariant.step` — **every step keeps the invariant**;
* `Allotment.SellOut.sold_out_exactly` — **the quota is sold out exactly**.
-/

import Mathlib.Algebra.BigOperators.Group.Finset.Piecewise
import Mathlib.Data.Fintype.Card
import Allotment.Proofs.Journal

set_option relaxedAutoImplicit false
set_option autoImplicit false

namespace Allotment

/-- The units of a quota that can still be granted. -/
def Standing.left (s : Standing) : Nat := s.terms.bound - s.reserved.toNat

/-- A client is told that there are too few units only if its claim is for more than were left. -/
theorem Claim.left_lt_of_overbooked {c : Claim} {q : Quota} {stamp : Stamp} {quota : Ulid}
    {requested available : UInt32}
    (h : c.decideOn q stamp = .error (.overbooked quota requested available)) :
    q.left < c.quantity.toNat := by
  unfold Claim.decideOn at h
  cases hc : c.check with
  | error e =>
      -- a check that fails does not speak of units that are left
      obtain rfl : e = .overbooked quota requested available := by simpa [hc] using h
      unfold Claim.check at hc
      split at hc
      · cases hc
      · split at hc <;> cases hc
  | ok u =>
      rcases c.decide?_cases q stamp with ⟨_, hd⟩ | ⟨hlt, _⟩
      · simp [hc, hd] at h
      · exact hlt

namespace SellOut

/-! ### Clients and their steps -/

/-- How far a client is. -/
inductive Phase where
  /-- It is about to read the quota. -/
  | waiting
  /-- It has read the quota and decided. -/
  | decided (decision : Except Refusal Write) (stamp : Stamp)
  /-- It has its answer. -/
  | ended (answer : Except Refusal Allocation)

namespace Phase

/-- The client has units. -/
def isGranted : Phase → Bool
  | .ended (.ok _) => true
  | _ => false

/-- The units that the client has. -/
def units : Phase → Nat
  | .ended (.ok a) => a.quantity.toNat
  | _ => 0

/-- The client was told that there are too few units. -/
def IsRejected (p : Phase) : Prop :=
  ∃ quota requested available, p = .ended (.error (.overbooked quota requested available))

/-- What a client does with an answer: it starts again after a conflict, and is content with
anything else. -/
def next : Except Refusal Allocation → Phase
  | .error e => if e.isTransient then .waiting else .ended (.error e)
  | .ok a => .ended (.ok a)

end Phase

/-- Clients of the type `κ` that want units of a quota. -/
structure State (κ ι : Type) where
  /-- The store. -/
  store : Store ι
  /-- How far each client is. -/
  phase : κ → Phase
  /-- The versions that the quota has had. -/
  used : List Version

variable {κ ι : Type} [DecidableEq κ] [Journal ι]

namespace State

/-- A client reads the quota and decides. -/
def read (st : State κ ι) (claims : κ → Claim) (k : κ) (stamp : Stamp) : State κ ι :=
  { st with
    store := (Desk.prepare st.store (claims k) stamp).2
    phase := Function.update st.phase k
      (.decided (Desk.prepare st.store (claims k) stamp).1 stamp) }

/-- A client carries out what it has decided. -/
def write (st : State κ ι) (claims : κ → Claim) (k : κ) (decision : Except Refusal Write)
    (stamp : Stamp) (version : Version) : State κ ι where
  store := (Desk.carryOut st.store decision version).2
  phase := Function.update st.phase k
    (.next ((Desk.carryOut st.store decision version).1.map fun _ => (claims k).allocation stamp))
  used := version :: st.used

end State

/-- **What can happen next**: a client reads the quota, a client makes the write that it has decided
on, or something happens to the store that leaves the quota alone. -/
inductive Step (claims : κ → Claim) (quota : Ulid) : State κ ι → State κ ι → Prop
  | read (st : State κ ι) (k : κ) (stamp : Stamp) : st.phase k = .waiting →
      Step claims quota st (st.read claims k stamp)
  | write (st : State κ ι) (k : κ) (decision : Except Refusal Write) (stamp : Stamp)
      (version : Version) : st.phase k = .decided decision stamp → version ∉ st.used →
      Step claims quota st (st.write claims k decision stamp version)
  | elsewhere (st : State κ ι) (store : Store ι) : store.rival = none →
      store.tables.standings[quota]? = st.store.tables.standings[quota]? →
      Step claims quota st { st with store }

/-- The states that can be reached from one state. -/
inductive Reachable (claims : κ → Claim) (quota : Ulid) (start : State κ ι) : State κ ι → Prop
  | start : Reachable claims quota start start
  | step {st st' : State κ ι} : Reachable claims quota start st → Step claims quota st st' →
      Reachable claims quota start st'

omit [DecidableEq κ] [Journal ι] in
/-- **The beginning**: nobody has read anything, and the quota stands as `s`, with terms within the
limits. -/
structure Opens (claims : κ → Claim) (quota : Ulid) (s : Standing) (st : State κ ι) : Prop where
  /-- No rival lies in wait. -/
  alone : st.store.rival = none
  /-- All clients want units of this quota. -/
  named : ∀ k, (claims k).quota = quota
  /-- How the quota stands. -/
  standing : st.store.tables.standings[quota]? = some s
  /-- The terms keep the limits. -/
  limits : s.terms.brokenLimit? = none
  /-- All clients are about to read. -/
  waiting : ∀ k, st.phase k = .waiting
  /-- The version is known to be used. -/
  used : s.version ∈ st.used

omit [DecidableEq κ] in
/-- A call is a reading and a write with nothing in between. -/
theorem allocateIn_eq (s : Store ι) (c : Claim) (stamp : Stamp) :
    Desk.allocateIn s c stamp =
      ((Desk.carryOut (Desk.prepare s c stamp).2 (Desk.prepare s c stamp).1 stamp.version).1.map
          fun _ => c.allocation stamp,
        (Desk.carryOut (Desk.prepare s c stamp).2 (Desk.prepare s c stamp).1 stamp.version).2) := by
  unfold Desk.allocateIn
  rcases Desk.prepare s c stamp with ⟨decision, s'⟩
  simp only
  rcases Desk.carryOut s' decision stamp.version with ⟨_ | _, s''⟩
  · rfl
  · rfl

/-! ### What holds of a client -/

/-- **What holds of a client whose quota stands as `s`.**  A write that it has decided on fits into
the quota as it was read, and if the version that was read is still the present one, so is all else.
If it was told that there are too few units, or is going to be told so, there are too few. -/
def Honest (c : Claim) (s : Standing) (used : List Version) : Phase → Prop
  | .waiting => True
  | .decided (.ok w) stamp => ∃ q : Quota, w = c.write q stamp ∧ q.version ∈ used ∧
      c.quantity.toNat ≤ q.left ∧ (s.version = q.version → s = q.toStanding)
  | .decided (.error e) _ => ∀ quota requested available,
      e = .overbooked quota requested available → s.left < c.quantity.toNat
  | .ended (.ok a) => a.quantity = c.quantity
  | .ended (.error e) => ∀ quota requested available,
      e = .overbooked quota requested available → s.left < c.quantity.toNat

/-- Units that are granted to one client make no other dishonest: what is left becomes less, and the
new version is not one that anybody has read. -/
theorem Honest.later {c : Claim} {s s' : Standing} {used : List Version} {p : Phase}
    (h : Honest c s used p) (hleft : s'.left ≤ s.left) (hnew : s'.version ∉ used) :
    Honest c s' (s'.version :: used) p := by
  cases p with
  | waiting => trivial
  | decided decision stamp =>
      cases decision with
      | ok w =>
          obtain ⟨q, hw, hq, hfit, _⟩ := h
          refine ⟨q, hw, List.mem_cons_of_mem _ hq, hfit, ?_⟩
          intro hv
          exact absurd (hv ▸ hq) hnew
      | error e =>
          intro quota requested available he
          exact Nat.lt_of_le_of_lt hleft (h quota requested available he)
  | ended answer =>
      cases answer with
      | ok a => exact h
      | error e =>
          intro quota requested available he
          exact Nat.lt_of_le_of_lt hleft (h quota requested available he)

/-- A client stays honest when more versions are known to be used. -/
theorem Honest.more {c : Claim} {s : Standing} {used : List Version} {p : Phase}
    (h : Honest c s used p) (v : Version) : Honest c s (v :: used) p := by
  cases p with
  | waiting => trivial
  | decided decision stamp =>
      cases decision with
      | ok w =>
          obtain ⟨q, hw, hq, hrest⟩ := h
          exact ⟨q, hw, List.mem_cons_of_mem _ hq, hrest⟩
      | error e => exact h
  | ended answer =>
      cases answer with
      | ok a => exact h
      | error e => exact h

/-- A client that has just read the quota is honest. -/
theorem Honest.ofReading {c : Claim} {s : Standing} {used : List Version} (hv : s.version ∈ used)
    (quota : Ulid) (stamp : Stamp) :
    Honest c s used (.decided (c.decideOn { s with id := quota } stamp) stamp) := by
  cases hd : c.decideOn { s with id := quota } stamp with
  | ok w =>
      obtain ⟨hw, _, _, hfit⟩ := Claim.decideOn_eq_ok hd
      exact ⟨_, hw, hv, hfit, fun _ => rfl⟩
  | error e =>
      rintro i requested available rfl
      exact Claim.left_lt_of_overbooked hd

/-- A client whose write was refused by the store is not told that there are too few units. -/
theorem Honest.ofFailure (c : Claim) (s : Standing) (used : List Version) (e : Failure) :
    Honest c s used (.next (.error (.ofFailure e))) := by
  cases e with
  | versionMismatch quota expected actual => exact trivial
  | unknownQuota quota => exact nofun
  | quotaExists quota => exact nofun
  | full ceiling => exact nofun
  | notLogged reason => exact nofun

/-- A client that has decided not to write is told what it has found out. -/
theorem Honest.ofRefusal {c : Claim} {s : Standing} {used : List Version} {e : Refusal}
    {stamp : Stamp} (h : Honest c s used (.decided (.error e) stamp)) :
    Honest c s used (.next (.error e)) := by
  change Honest c s used (if e.isTransient then .waiting else .ended (.error e))
  split
  · trivial
  · exact h

/-- A client that was turned away has no units. -/
theorem Phase.units_next_error (e : Refusal) : (Phase.next (.error e)).units = 0 := by
  change Phase.units (if e.isTransient then .waiting else .ended (.error e)) = 0
  split
  · rfl
  · rfl

/-! ### Counting the units -/

section Sold

variable [Fintype κ]

omit [Journal ι]

/-- The units that the clients have together. -/
def State.sold (st : State κ ι) : Nat := ∑ k, (st.phase k).units

/-- When one client moves on, only its own units change. -/
theorem sold_update (st : State κ ι) (store : Store ι) (k : κ) (p : Phase) (used : List Version) :
    State.sold ⟨store, Function.update st.phase k p, used⟩ + (st.phase k).units =
      st.sold + p.units := by
  have hrest : ∑ j ∈ Finset.univ.erase k, (Function.update st.phase k p j).units =
      ∑ j ∈ Finset.univ.erase k, (st.phase j).units :=
    Finset.sum_congr rfl fun j hj => by rw [Function.update_of_ne (Finset.ne_of_mem_erase hj)]
  simp only [State.sold]
  rw [← Finset.add_sum_erase _ (fun j => (Function.update st.phase k p j).units)
    (Finset.mem_univ k), ← Finset.add_sum_erase _ (fun j => (st.phase j).units) (Finset.mem_univ k),
    hrest, Function.update_self]
  omega

end Sold

/-! ### What holds at every moment -/

section Invariant

variable [Fintype κ]

omit [DecidableEq κ] [Journal ι] in
/-- **What holds at every moment** of clients that have begun when the quota stood as `s₀`: it now
stands as `s`. -/
structure Invariant (claims : κ → Claim) (quota : Ulid) (s₀ s : Standing) (st : State κ ι) :
    Prop where
  /-- No rival lies in wait. -/
  alone : st.store.rival = none
  /-- How the quota stands. -/
  standing : st.store.tables.standings[quota]? = some s
  /-- The terms are the same. -/
  terms : s.terms = s₀.terms
  /-- What the clients have is reserved on top of what was. -/
  reserved : s.reserved.toNat = s₀.reserved.toNat + st.sold
  /-- It is no more than was left. -/
  within : st.sold ≤ s₀.left
  /-- The version is known to be used. -/
  used : s.version ∈ st.used
  /-- All clients are honest. -/
  honest : ∀ k, Honest (claims k) s st.used (st.phase k)

namespace Invariant

variable {claims : κ → Claim} {quota : Ulid} {s₀ s : Standing} {st : State κ ι}

omit [DecidableEq κ] [Journal ι] in
theorem start (h : Opens claims quota s₀ st) : Invariant claims quota s₀ s₀ st := by
  have hsold : st.sold = 0 := Finset.sum_eq_zero fun k _ => by rw [h.waiting k]; rfl
  refine ⟨h.alone, h.standing, rfl, by omega, by omega, h.used, fun k => ?_⟩
  rw [h.waiting k]
  trivial

omit [DecidableEq κ] [Journal ι] in
/-- What is left now is what was left at the beginning without what the clients have. -/
theorem left_eq (h : Invariant claims quota s₀ s st) : s.left = s₀.left - st.sold := by
  have := h.reserved
  unfold Standing.left
  rw [h.terms]
  omega

omit [DecidableEq κ] [Journal ι] in
/-- One more version is known to be used. -/
theorem more (h : Invariant claims quota s₀ s st) (v : Version) :
    Invariant claims quota s₀ s { st with used := v :: st.used } :=
  ⟨h.alone, h.standing, h.terms, h.reserved, h.within, List.mem_cons_of_mem _ h.used,
    fun k => (h.honest k).more v⟩

omit [Journal ι] in
/-- A client moves on without getting units, and the quota stays as it is. -/
theorem move (h : Invariant claims quota s₀ s st) {k : κ} {p : Phase}
    (hp : Honest (claims k) s st.used p) (hunits : p.units = 0) (hbefore : (st.phase k).units = 0)
    {store : Store ι} (halone : store.rival = none)
    (hstands : store.tables.standings[quota]? = some s) :
    Invariant claims quota s₀ s ⟨store, Function.update st.phase k p, st.used⟩ := by
  have hsold := sold_update st store k p st.used
  rw [hunits, hbefore, Nat.add_zero, Nat.add_zero] at hsold
  refine ⟨halone, hstands, h.terms, by rw [hsold]; exact h.reserved,
    by rw [hsold]; exact h.within, h.used, ?_⟩
  exact Function.forall_update_iff _ (p := fun j => Honest (claims j) s st.used) |>.2
    ⟨hp, fun j _ => h.honest j⟩

omit [Journal ι] in
/-- A client is granted its units. -/
theorem grant (h : Invariant claims quota s₀ s st) (hlimits : s₀.terms.brokenLimit? = none)
    {k : κ} (hbefore : (st.phase k).units = 0) (hfit : (claims k).quantity.toNat ≤ s.left)
    (stamp : Stamp) {version : Version} (hnew : version ∉ st.used) {store : Store ι}
    (halone : store.rival = none)
    (hstands : store.tables.standings[quota]? =
      some (s.after (.allocated ((claims k).allocation stamp) version))) :
    Invariant claims quota s₀ (s.after (.allocated ((claims k).allocation stamp) version))
      ⟨store, Function.update st.phase k (.ended (.ok ((claims k).allocation stamp))),
        version :: st.used⟩ := by
  have hsold := sold_update st store k (.ended (.ok ((claims k).allocation stamp)))
    (version :: st.used)
  rw [hbefore] at hsold
  change _ = st.sold + (claims k).quantity.toNat at hsold
  have hleft := h.left_eq
  have hwithin := h.within
  have hreserved := h.reserved
  -- the bound is far below the largest count, so nothing wraps
  have hadd : (s.after (.allocated ((claims k).allocation stamp) version)).reserved.toNat =
      s.reserved.toNat + (claims k).quantity.toNat := by
    have hbound := Terms.bound_le hlimits
    have hlt := s.reserved.toNat_lt
    unfold Standing.left at hfit
    rw [h.terms] at hfit
    change (s.reserved + (claims k).quantity).toNat = _
    rw [UInt32.toNat_add]
    apply Nat.mod_eq_of_lt
    omega
  have hless : (s.after (.allocated ((claims k).allocation stamp) version)).left ≤ s.left := by
    unfold Standing.left
    rw [hadd]
    exact Nat.sub_le_sub_left (Nat.le_add_right _ _) _
  refine ⟨halone, hstands, h.terms, by omega, by omega, List.mem_cons_self, ?_⟩
  exact Function.forall_update_iff _ (p := fun j => Honest (claims j) _ _) |>.2
    ⟨rfl, fun j _ => (h.honest j).later hless hnew⟩

/-- **Every step keeps the invariant.** -/
theorem step (h : Invariant claims quota s₀ s st) (hlimits : s₀.terms.brokenLimit? = none)
    (hnamed : ∀ k, (claims k).quota = quota) {st' : State κ ι} (hstep : Step claims quota st st') :
    ∃ s', Invariant claims quota s₀ s' st' := by
  cases hstep with
  | elsewhere store halone hsame =>
      exact ⟨s, halone, hsame.trans h.standing, h.terms, h.reserved, h.within, h.used, h.honest⟩
  | read k stamp hphase =>
      have hread : st.store.tables.quota? (claims k).quota = some { s with id := quota } := by
        rw [hnamed k, Tables.quota?_eq_some_iff]
        exact ⟨h.standing, rfl⟩
      have hprepare : Desk.prepare st.store (claims k) stamp =
          ((claims k).decideOn { s with id := quota } stamp, st.store) := by
        unfold Desk.prepare Claim.decideOn
        cases (claims k).check with
        | error e => rfl
        | ok u => simp only [Store.load_of_no_rival h.alone, hread]
      refine ⟨s, ?_⟩
      unfold State.read
      rw [hprepare]
      exact h.move (.ofReading h.used quota stamp) rfl (by rw [hphase]; rfl) h.alone h.standing
  | write k decision stamp version hphase hnew =>
      have hbefore : (st.phase k).units = 0 := by rw [hphase]; rfl
      have hk := h.honest k
      rw [hphase] at hk
      unfold State.write
      cases decision with
      | error e =>
          exact ⟨s, (h.more version).move (hk.ofRefusal.more version) (Phase.units_next_error e)
            hbefore h.alone h.standing⟩
      | ok w =>
          obtain ⟨q, rfl, hq, hfit, hcurrent⟩ := hk
          rcases st.store.commit_cases ((claims k).write q stamp) version with
            ⟨e, _, he⟩ | ⟨q', e, j, _, _, he⟩ | ⟨q', j, hc, _, he⟩
          · simp only [Desk.carryOut, he]
            exact ⟨s, (h.more version).move (.ofFailure _ _ _ e) (Phase.units_next_error _) hbefore
              h.alone h.standing⟩
          · simp only [Desk.carryOut, he]
            exact ⟨s, (h.more version).move (.ofFailure _ _ _ (.notLogged e.text))
              (Phase.units_next_error _) hbefore h.alone h.standing⟩
          · -- the write is in time, so the quota still stands as it was read
            obtain ⟨hstands, hv⟩ := Store.checkWrite_eq_ok_iff.1 hc
            have hstands' : st.store.tables.standings[quota]? = some q' := hnamed k ▸ hstands
            obtain rfl : s = q' := Option.some.inj (h.standing.symm.trans hstands')
            have hfit' : (claims k).quantity.toNat ≤ s.left := by
              rw [hcurrent hv]
              exact hfit
            simp only [Desk.carryOut, he]
            refine ⟨_, h.grant hlimits hbefore hfit' stamp hnew h.alone ?_⟩
            rw [Tables.standings_commit]
            exact if_pos (hnamed k)

end Invariant

/-- The invariant holds in every state that can be reached. -/
theorem Reachable.invariant {claims : κ → Claim} {quota : Ulid} {s₀ : Standing}
    {start st : State κ ι} (hopens : Opens claims quota s₀ start)
    (h : Reachable claims quota start st) : ∃ s, Invariant claims quota s₀ s st := by
  induction h with
  | start => exact ⟨s₀, .start hopens⟩
  | step _ hstep ih =>
      obtain ⟨s, hs⟩ := ih
      exact hs.step hopens.limits hopens.named hstep

end Invariant

/-! ### When all have their answers -/

section Finished

variable [Fintype κ]

omit [DecidableEq κ] [Journal ι]

/-- All clients have their final answer: units, or that there are too few. -/
def State.Finished (st : State κ ι) : Prop :=
  ∀ k, (st.phase k).isGranted = true ∨ (st.phase k).IsRejected

/-- The number of clients that have units. -/
def State.grants (st : State κ ι) : Nat := (Finset.univ.filter fun k => (st.phase k).isGranted).card

/-- The units that a client has. -/
theorem Honest.units_eq {c : Claim} {s : Standing} {used : List Version} {p : Phase}
    (h : Honest c s used p) : p.units = if p.isGranted then c.quantity.toNat else 0 := by
  cases p with
  | waiting => rfl
  | decided decision stamp => rfl
  | ended answer =>
      cases answer with
      | ok a => exact congrArg UInt32.toNat h
      | error e => rfl

/-- If all claims are for as many units, those granted are as many for each client that has
units. -/
theorem Invariant.sold_eq {claims : κ → Claim} {quota : Ulid} {s₀ s : Standing} {st : State κ ι}
    (h : Invariant claims quota s₀ s st) {quantity : UInt32}
    (hall : ∀ k, (claims k).quantity = quantity) : st.sold = st.grants * quantity.toNat := by
  calc st.sold = ∑ k, if (st.phase k).isGranted then quantity.toNat else 0 :=
        Finset.sum_congr rfl fun k _ => by rw [(h.honest k).units_eq, hall k]
    _ = st.grants * quantity.toNat := by
        rw [← Finset.sum_filter]
        exact Finset.sum_const_nat fun _ _ => rfl

/-- A claim that was turned away is for more than is left. -/
theorem Invariant.left_lt {claims : κ → Claim} {quota : Ulid} {s₀ s : Standing} {st : State κ ι}
    (h : Invariant claims quota s₀ s st) {k : κ} (hk : (st.phase k).IsRejected) :
    s.left < (claims k).quantity.toNat := by
  obtain ⟨i, requested, available, hphase⟩ := hk
  have honest := h.honest k
  rw [hphase] at honest
  exact honest i requested available rfl

/-- If all claims are for as many units, as many clients have units as there are clients, or as the
units suffice for. -/
theorem Invariant.grants_eq {claims : κ → Claim} {quota : Ulid} {s₀ s : Standing} {st : State κ ι}
    (h : Invariant claims quota s₀ s st) (hdone : st.Finished) {quantity : UInt32}
    (hpos : quantity ≠ 0) (hall : ∀ k, (claims k).quantity = quantity) :
    st.grants = min (Fintype.card κ) (s₀.left / quantity.toNat) := by
  have hq : 0 < quantity.toNat :=
    Nat.pos_of_ne_zero fun hzero => hpos (UInt32.toNat_inj.1 hzero)
  have hwithin := h.within
  rw [h.sold_eq hall] at hwithin
  have hle : st.grants ≤ s₀.left / quantity.toNat := (Nat.le_div_iff_mul_le hq).2 hwithin
  by_cases hgranted : ∀ k, (st.phase k).isGranted = true
  · -- everybody has units, so they suffice for everybody
    have hcard : st.grants = Fintype.card κ := by
      unfold State.grants
      rw [Finset.filter_true_of_mem fun k _ => hgranted k]
      rfl
    omega
  · -- somebody was turned away, so what is left does not suffice for one more
    obtain ⟨k, hk⟩ := not_forall.1 hgranted
    have hlt := h.left_lt ((hdone k).resolve_left hk)
    rw [hall k, h.left_eq, h.sold_eq hall] at hlt
    have hdiv : s₀.left / quantity.toNat < st.grants + 1 := by
      rw [Nat.div_lt_iff_lt_mul hq, Nat.add_mul]
      omega
    have hcard : st.grants ≤ Fintype.card κ := Finset.card_le_univ _
    omega

end Finished

/-- **The quota is sold out exactly.**  However the readings and writes of any number of clients
come between each other, once all have units or were told that there are too few: every client that
has units has as many as it asked for, together they have no more than was left at the beginning,
exactly these units are reserved on top of those of before, and whoever was turned away asked for
more than is left now.  If all ask for as many units, then as many clients have units as there are
clients, or as the units suffice for, whichever is less. -/
theorem sold_out_exactly [Fintype κ] {claims : κ → Claim} {quota : Ulid} {s₀ : Standing}
    {start st : State κ ι} (hopens : Opens claims quota s₀ start)
    (h : Reachable claims quota start st) (hdone : st.Finished) :
    ∃ s, st.store.tables.standings[quota]? = some s ∧ s.terms = s₀.terms ∧
      (∀ k, (st.phase k).units =
        if (st.phase k).isGranted then (claims k).quantity.toNat else 0) ∧
      st.sold ≤ s₀.left ∧
      s.reserved.toNat = s₀.reserved.toNat + st.sold ∧
      (∀ k, (st.phase k).IsRejected → s.left < (claims k).quantity.toNat) ∧
      ∀ quantity : UInt32, quantity ≠ 0 → (∀ k, (claims k).quantity = quantity) →
        st.grants = min (Fintype.card κ) (s₀.left / quantity.toNat) := by
  obtain ⟨s, hs⟩ := h.invariant hopens
  exact ⟨s, hs.standing, hs.terms, fun k => (hs.honest k).units_eq, hs.within, hs.reserved,
    fun k hk => hs.left_lt hk, fun quantity hpos hall => hs.grants_eq hdone hpos hall⟩

/-- Terms for four units and one more at the operator's risk. -/
def fourAndOne : Terms := ⟨⟨4, 1⟩, "Ferry", "boat", ⟨2026, 9, 12, by decide⟩⟩

/-- Three clients that each want two units. -/
def pairs (_ : Fin 3) : Claim := ⟨⟨1⟩, 2, none⟩

/-- A quota with these terms has just been created, and nobody has read anything. -/
def allWaiting : State (Fin 3) Volatile where
  store :=
    (Desk.create ⟨.ofTables .empty Volatile.volatile, .zero⟩ fourAndOne ⟨⟨1⟩, ⟨⟨1⟩⟩, 0⟩).2.store
  phase _ := .waiting
  used := [⟨⟨1⟩⟩]

/-- A stamp with this identifier. -/
def stampOf (id : Ulid) : Stamp := ⟨id, ⟨id⟩, 0⟩

/-- Two clients have read that five units are left. -/
def twoHaveRead : State (Fin 3) Volatile :=
  (allWaiting.read pairs 0 (stampOf ⟨11⟩)).read pairs 1 (stampOf ⟨12⟩)

/-- Both have made their writes: one has its units, the other starts again. -/
def oneGranted : State (Fin 3) Volatile :=
  (twoHaveRead.write pairs 0 (.ok ((pairs 0).write ⟨⟨fourAndOne, 0, ⟨⟨1⟩⟩⟩, ⟨1⟩⟩ (stampOf ⟨11⟩)))
    (stampOf ⟨11⟩) ⟨⟨2⟩⟩).write pairs 1
    (.ok ((pairs 1).write ⟨⟨fourAndOne, 0, ⟨⟨1⟩⟩⟩, ⟨1⟩⟩ (stampOf ⟨12⟩))) (stampOf ⟨12⟩) ⟨⟨3⟩⟩

/-- The second has read again and got its units, and for the third there are too few left. -/
def allAnswered : State (Fin 3) Volatile :=
  (((oneGranted.read pairs 1 (stampOf ⟨13⟩)).write pairs 1
    (.ok ((pairs 1).write ⟨⟨fourAndOne, 2, ⟨⟨2⟩⟩⟩, ⟨1⟩⟩ (stampOf ⟨13⟩))) (stampOf ⟨13⟩) ⟨⟨4⟩⟩).read
    pairs 2 (stampOf ⟨14⟩)).write pairs 2 (.error (.overbooked ⟨1⟩ 2 1)) (stampOf ⟨14⟩) ⟨⟨5⟩⟩

theorem opens_allWaiting : Opens pairs ⟨1⟩ ⟨fourAndOne, 0, ⟨⟨1⟩⟩⟩ allWaiting :=
  ⟨rfl, fun _ => rfl, rfl, rfl, fun _ => rfl, List.mem_singleton_self _⟩

theorem reachable_allAnswered : Reachable pairs ⟨1⟩ allWaiting allAnswered := by
  have both : Reachable pairs ⟨1⟩ allWaiting twoHaveRead :=
    (Reachable.start.step (.read _ 0 _ rfl)).step (.read _ 1 _ rfl)
  have one : Reachable pairs ⟨1⟩ allWaiting oneGranted :=
    (both.step (.write _ 0 _ _ _ rfl (by decide))).step (.write _ 1 _ _ _ rfl (by decide))
  exact (((one.step (.read _ 1 _ rfl)).step (.write _ 1 _ _ _ rfl (by decide))).step
    (.read _ 2 _ rfl)).step (.write _ 2 _ _ _ rfl (by decide))

/-- Three clients want two units each, and five are left.  Two read the same state and one of them
has to start again; in the end two have their units, and for the third one unit is too few. -/
theorem sold_out_exactly_two_of_three :
    Reachable pairs ⟨1⟩ allWaiting allAnswered ∧ allAnswered.Finished ∧
      oneGranted.phase 1 = .waiting ∧
      allAnswered.grants = min 3 (5 / 2) ∧ (allAnswered.phase 2).IsRejected ∧
      ∃ s, allAnswered.store.tables.standings[(⟨1⟩ : Ulid)]? = some s ∧
        s.reserved.toNat = 0 + allAnswered.sold ∧ s.left < 2 := by
  have hrejected : (allAnswered.phase 2).IsRejected := ⟨_, _, _, rfl⟩
  have hdone : allAnswered.Finished := by
    intro k
    match k with
    | 0 => exact Or.inl rfl
    | 1 => exact Or.inl rfl
    | 2 => exact Or.inr hrejected
  obtain ⟨s, hstands, _, _, _, hreserved, hleft, hgrants⟩ :=
    sold_out_exactly opens_allWaiting reachable_allAnswered hdone
  exact ⟨reachable_allAnswered, hdone, rfl, hgrants 2 (by decide) fun _ => rfl, hrejected, s,
    hstands, hreserved, hleft 2 hrejected⟩

end SellOut

end Allotment
