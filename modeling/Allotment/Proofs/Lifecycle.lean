/-
**How tenants come and go.**

A client asks for a tenant by any name.  Whether it is given a store depends on the name and on the
present moment: on whether the tenant is open, on whether there is room for one more, and on whether
a log can be opened in the data directory.  It does not depend on how often this has failed before.
A tenant that is open is given to everybody who asks for it, under whatever name and however many
others are open, and always with the same store.

Over a data directory that was empty at first, the tenants that are found after all stores were
closed are those that were opened, and each of them has the quotas and the allocations that it had.

Main definitions:

* `Allotment.Disk.Accepts` — a log can be opened under a name;
* `Allotment.Tenants.Clear` — no log is a directory.

Main results:

* `Allotment.Roster.enter_isOk_iff` — **when a client is given a store**;
* `Allotment.Roster.Numbered.enter_again` — **an open tenant is given to everybody**;
* `Allotment.Tenants.lifecycle` — **what holds of tenants from the first to the last moment, and
  after it**.
-/

import Allotment.Proofs.Recovery

set_option relaxedAutoImplicit false
set_option autoImplicit false

namespace Allotment

/-! ### When a client is given a store -/

/-- A log can be opened under a name: there is a directory for it, and it is not one itself. -/
structure Disk.Accepts (d : Disk) (name : String) : Prop where
  /-- There is a data directory. -/
  place : ∃ es, d.place = .directory es
  /-- The name is free or stands for a file. -/
  entry : d.entry? name ≠ some .directory

/-- **Which logs can be opened.** -/
theorem Store.ofLog_isOk_iff {d : Disk} {name : String} :
    (∃ s, Store.ofLog d name = .ok s) ↔ d.Accepts name := by
  constructor
  · rintro ⟨s, ho⟩
    refine ⟨?_, ?_⟩
    · obtain ⟨_, hs⟩ := Store.opened_of_ofLog ho
      obtain ⟨es', hp', _⟩ := Disk.file?_eq_some_iff.1 hs.rest.file
      rcases (Store.ofLog_confined ho).journal.2.place with hsame | ⟨es, _, hp, _⟩
      · exact ⟨es', hsame.symm.trans hp'⟩
      · exact ⟨es, hp⟩
    · intro he
      rw [Store.ofLog_of_directory he] at ho
      cases ho
  · rintro ⟨⟨es, hp⟩, hentry⟩
    cases he : d.entry? name with
    | none =>
        obtain ⟨s, ho, _⟩ := Store.ofLog_of_absent hp he
        exact ⟨s, ho⟩
    | some e =>
        cases e with
        | directory => exact absurd he hentry
        | file f =>
            obtain ⟨s, ho, _⟩ := Store.ofLog_of_file? (Disk.file?_of_entry? he)
            exact ⟨s, ho⟩

namespace Roster

variable {r : Roster} {tenant : String}

/-- **When a client is given a store.** -/
theorem enter_isOk_iff (r : Roster) (tenant : String) :
    (∃ given, r.enter tenant = .ok given) ↔
      tenant.utf8ByteSize ≤ tenantNameBytes ∧ stemOf tenant ≠ "" ∧
        (stemOf tenant ∈ r.tenants.stores ∨ r.tenants.stores.size < tenantCeiling ∧
          r.tenants.disk.Accepts (logName (stemOf tenant))) := by
  have hentering := r.tenants.entering tenant
  unfold enter
  generalize r.tenants.openTenant tenant = result at hentering
  cases hentering with
  | tooLong long =>
      refine iff_of_false (fun ⟨_, h⟩ => nomatch h) ?_
      exact fun h => absurd h.1 (Nat.not_le.2 long)
  | nameless short empty =>
      refine iff_of_false (fun ⟨_, h⟩ => nomatch h) ?_
      exact fun h => h.2.1 empty
  | present short named open_ => exact iff_of_true ⟨_, rfl⟩ ⟨short, named, Or.inl open_⟩
  | crowded short named new full =>
      refine iff_of_false (fun ⟨_, h⟩ => nomatch h) ?_
      rintro ⟨_, _, hopen | ⟨hroom, _⟩⟩
      · exact new hopen
      · exact absurd hroom (Nat.not_lt.2 full)
  | barred short named new room log =>
      refine iff_of_false (fun ⟨_, h⟩ => nomatch h) ?_
      rintro ⟨_, _, hopen | ⟨_, haccepts⟩⟩
      · exact new hopen
      · obtain ⟨s, ho⟩ := Store.ofLog_isOk_iff.2 haccepts
        rw [log] at ho
        cases ho
  | opened short named new room log =>
      exact iff_of_true ⟨_, rfl⟩ ⟨short, named, Or.inr ⟨room, Store.ofLog_isOk_iff.1 ⟨_, log⟩⟩⟩

/-- A client that is given nothing leaves everything as it was. -/
theorem take_enter_of_error {e : Fault} (h : r.enter tenant = .error e) :
    r.take (.act (.enter tenant)) = r := by
  rw [take, h]

/-- A tenant that is open is given as it is. -/
theorem enter_of_open (short : tenant.utf8ByteSize ≤ tenantNameBytes) (named : stemOf tenant ≠ "")
    (open_ : stemOf tenant ∈ r.tenants.stores) :
    r.enter tenant = .ok (r.number (stemOf tenant), r) := by
  have hopen : r.tenants.openTenant tenant = .ok (stemOf tenant, r.tenants) := by
    rw [Tenants.openTenant, if_neg (Nat.not_lt.2 short)]
    simp only [if_neg named, if_pos open_]
  rw [enter, hopen]
  simp only [Except.map, if_pos open_]

/-- **An open tenant is given to everybody who asks for it before the next restart**, and always
with the same store. -/
theorem Numbered.enter_again {r₁ : Roster} (h : r.Numbered) {n : Nat}
    (he : r.enter tenant = .ok (n, r₁)) {later : List Step} (hno : .restart ∉ later)
    {tenant' : String} (hshort : tenant'.utf8ByteSize ≤ tenantNameBytes)
    (hstem : stemOf tenant' = stemOf tenant) :
    (r₁.takeAll later).enter tenant' = .ok (n, r₁.takeAll later) := by
  obtain ⟨h₁, _, hopen, hn⟩ := h.enter he
  obtain ⟨hlater, hfollows⟩ := h₁.takeAll later
  obtain ⟨hopen', hn'⟩ := hfollows hno _ hopen
  rw [← hstem] at hopen' hn' hn
  rw [enter_of_open hshort (hlater.housed.stems _ hopen').1 hopen', hn', hn]

end Roster

namespace Tenants

/-! ### Directories in the way of logs -/

/-- No log is a directory. -/
def Clear (t : Tenants) : Prop := ∀ stem, t.disk.entry? (logName stem) ≠ some .directory

/-- If a tenant is not open after an act that was addressed to it, nothing has happened. -/
theorem perform_of_closed {t : Tenants} {a : Act}
    (h : stemOf a.tenant ∉ (t.perform a).stores) : t.perform a = t := by
  cases a with
  | enter tenant =>
      have hentering := t.entering tenant
      simp only [perform, Act.tenant] at h ⊢
      generalize t.openTenant tenant = result at h hentering
      cases hentering with
      | opened short named new room log => exact absurd (mem_stores_withOpen.2 (Or.inl rfl)) h
      | _ => rfl
  | call tenant deed =>
      rw [perform_call] at h ⊢
      cases hd : t.desk? (stemOf tenant) with
      | none => rfl
      | some d =>
          rw [hd] at h
          exact absurd (mem_stores_putDesk.2 (Or.inl rfl)) h

variable {past : List Record} {t : Tenants}

/-- Only others put directories in the way of logs. -/
theorem Whole.clear_pass (h : t.Whole past) (hclear : t.Clear) {x : Moment}
    (hx : ∀ name, x ≠ .obstruct name) (hnovel : Novel (past ++ x.records)) : (t.pass x).Clear := by
  intro stem
  cases x with
  | act a =>
      have hnext : (t.perform a).Whole (past ++ a.records) := h.perform hnovel
      change Disk.entry? (t.perform a).disk (logName stem) ≠ some .directory
      by_cases hopen : stem ∈ (t.perform a).stores
      · obtain ⟨f, hf⟩ := Option.ne_none_iff_exists'.1 (hnext.file?_of_open hopen)
        rw [Disk.entry?_of_file? hf]
        exact fun heq => nomatch heq
      · by_cases hstem : stem = stemOf a.tenant
        · rw [perform_of_closed (hstem ▸ hopen)]
          exact hclear stem
        · rw [(h.housed.perform a).2.disk.other _ (not_ownNames hstem).1]
          exact hclear stem
  | setWritable writable => exact hclear stem
  | obstruct name => exact absurd rfl (hx name)
  | clear name =>
      obtain ⟨es, hp⟩ := h.place
      change Disk.entry? (t.disk.clear name) (logName stem) ≠ some .directory
      unfold Disk.clear
      split
      · rw [Disk.entry?_removeEntry hp]
        split
        · exact fun heq => nomatch heq
        · exact hclear stem
      · exact hclear stem

/-- If nobody puts directories in the way of logs, there are none. -/
theorem Whole.clear_passAll (h : t.Whole past) (hclear : t.Clear) {run : List Moment}
    (hrun : ∀ name, .obstruct name ∉ run)
    (hnovel : Novel (past ++ run.flatMap (·.records))) : (t.passAll run).Clear := by
  induction run generalizing past t with
  | nil => exact hclear
  | cons x run ih =>
      rw [List.flatMap_cons, ← List.append_assoc] at hnovel
      have hx : ∀ name, x ≠ .obstruct name := fun name heq => hrun name (heq ▸ List.mem_cons_self)
      refine ih (h.pass hnovel.left) (h.clear_pass hclear hx hnovel.left) ?_ hnovel
      exact fun name hin => hrun name (List.mem_cons_of_mem _ hin)

/-! ### From the first moment to the last -/

/-- **How tenants come and go.**  At any moment, whatever was done before by clients and by others,
and however often all stores were closed: no more tenants are open than may be; whether a client is
given a store depends on the present moment alone, and one that is given nothing leaves everything
as it was; and whoever asks for an open tenant before the next restart is given the same store.

Over a data directory that was empty at first: when all stores are closed, the tenants that are
found, in strictly ascending order, are those that were opened, and besides those in the way of
whose logs somebody has left a directory; and any of those that were opened can be opened again, in
any order, with the quotas and allocations that they had. -/
theorem lifecycle (disk : Disk) (threshold : Nat) (m : Meter) :
    (∀ steps : List Step,
      let r := (Roster.start disk threshold m).takeAll steps
      r.tenants.stores.size ≤ tenantCeiling ∧
      (∀ tenant : String, (∃ given, r.enter tenant = .ok given) ↔
        tenant.utf8ByteSize ≤ tenantNameBytes ∧ stemOf tenant ≠ "" ∧
          (stemOf tenant ∈ r.tenants.stores ∨ r.tenants.stores.size < tenantCeiling ∧
            r.tenants.disk.Accepts (logName (stemOf tenant)))) ∧
      (∀ (tenant : String) (e : Fault), r.enter tenant = .error e →
        r.take (.act (.enter tenant)) = r) ∧
      ∀ (tenant : String) (n : Nat) (r₁ : Roster), r.enter tenant = .ok (n, r₁) →
        ∀ later : List Step, .restart ∉ later →
          ∀ tenant' : String, tenant'.utf8ByteSize ≤ tenantNameBytes →
            stemOf tenant' = stemOf tenant →
              (r₁.takeAll later).enter tenant' = .ok (n, r₁.takeAll later)) ∧
    (disk.place = .directory ∅ →
      ∀ run : List Moment, Novel (run.flatMap (·.records)) →
        let start := Tenants.start disk threshold m
        let t := start.passAll run
        ∃ names, discover t.closeAll = .ok names ∧ names.Pairwise (· < ·) ∧
          (∀ x, x ∈ names ↔ x ∈ start.opened run ∨
            x ≠ "" ∧ stemOf x = x ∧ t.closeAll.entry? (logName x) = some .directory) ∧
          ((∀ name, .obstruct name ∉ run) → ∀ x, x ∈ names ↔ x ∈ start.opened run) ∧
          ∀ (threshold' : Nat) (m' : Meter) (asked : List String),
            (∀ x ∈ asked, x ∈ start.opened run) →
              ∃ t', (Tenants.start t.closeAll threshold' m').openMany asked =
                  ((asked.length, none), t') ∧
                ∀ x ∈ asked, ∃ s s', t.stores[x]? = some s ∧ t'.stores[x]? = some s' ∧
                  s'.tables = s.tables) := by
  refine ⟨?_, ?_⟩
  · intro steps r
    have hnumbered : r.Numbered := ((Roster.numbered_start disk threshold m).takeAll steps).1
    refine ⟨hnumbered.housed.size, r.enter_isOk_iff, ?_, ?_⟩
    · exact fun tenant e he => Roster.take_enter_of_error he
    · intro tenant n r₁ he later hno tenant' hshort hstem
      exact hnumbered.enter_again he hno hshort hstem
  · intro hp run hnovel start t
    have hstart : start.Whole [] := .start hp threshold m
    have hwhole : t.Whole (run.flatMap (·.records)) := hstart.passAll hnovel
    have hopened : ∀ x, x ∈ t.stores ↔ x ∈ start.opened run := by
      intro x
      have hnone : x ∉ start.stores := by simp [start, Tenants.start]
      exact (hstart.mem_stores_passAll hnovel x).trans (or_iff_left hnone)
    rw [closeAll_of_idle hwhole.idle]
    obtain ⟨names, hnames, hfound⟩ := hwhole.mem_discover_iff
    refine ⟨names, hnames, pairwise_discover hnames, ?_, ?_, ?_⟩
    · exact fun x => by rw [hfound, hopened]
    · intro hrun x
      have hnodirectory : start.Clear := fun stem => by
        simp [start, Tenants.start, Disk.entry?, hp]
      have hclear := hstart.clear_passAll hnodirectory hrun hnovel
      rw [hfound, hopened]
      exact or_iff_left fun h => hclear x h.2.2
    · intro threshold' m' asked hasked
      obtain ⟨t', hmany, hrecovering, hall, _⟩ := hwhole.openMany (.start t threshold' m')
        fun x hx => (hopened x).2 (hasked x hx)
      refine ⟨t', hmany, ?_⟩
      intro x hx
      obtain ⟨s, hs⟩ := mem_stores_iff_exists.1 ((hopened x).2 (hasked x hx))
      obtain ⟨s', hs'⟩ := mem_stores_iff_exists.1 (hall x hx)
      exact ⟨s, s', hs, hs', hrecovering.tables x s s' hs hs'⟩

/-- Two tenants are opened, one of them under a name that would lead out of the directory, and the
other one only after a directory in its way was taken away; this one then creates a quota.  A third
client gives a name of which nothing is left. -/
def failedThenOpened : List Moment :=
  [.act (.enter "../evil"), .act (.enter "../.."), .obstruct "b.wal", .act (.enter "b"),
   .clear "b.wal", .act (.enter "b"),
   .act (.call "b" (.visit (.ask
     (.create ⟨⟨4, 1⟩, "Süd", "tour", tourDay⟩ ⟨⟨1⟩, ⟨⟨1⟩⟩, 0⟩)))),
   .act (.enter "evil")]

set_option maxRecDepth 100000 in
/-- The two tenants are found, and opened in the other order the second has its quota again.  As
long as nothing was closed, the first could be asked for under its plain name as well. -/
theorem lifecycle_failed_then_opened :
    let r := Roster.start .blank 1000 .zero
    let t := (Tenants.start .blank 1000 .zero).passAll failedThenOpened
    r.enter "../.." = .error .tenantNameEmpty ∧ r.take (.act (.enter "../..")) = r ∧
      (∃ r₁, r.enter "../evil" = .ok (0, r₁) ∧ .restart ∉ [Step.act (.enter "b")] ∧
        "evil".utf8ByteSize ≤ tenantNameBytes ∧ stemOf "evil" = stemOf "../evil" ∧
        (r₁.takeAll [.act (.enter "b")]).enter "evil" = .ok (0, r₁.takeAll [.act (.enter "b")])) ∧
      Disk.blank.place = .directory ∅ ∧ Novel (failedThenOpened.flatMap (·.records)) ∧
      (Tenants.start .blank 1000 .zero).opened failedThenOpened = ["evil", "b", "evil"] ∧
      (∃ names, discover t.closeAll = .ok names ∧ "b" ∈ names ∧ "evil" ∈ names) ∧
      ∃ t', (Tenants.start t.closeAll 1 .zero).openMany ["evil", "b"] = ((2, none), t') ∧
        (t'.stores["b"]?.map (·.tables.ids)) = some [⟨1⟩] := by
  intro r t
  obtain ⟨hrun, hclosed⟩ := lifecycle .blank 1000 .zero
  have herror : r.enter "../.." = .error .tenantNameEmpty := rfl
  have hno : Step.restart ∉ [Step.act (.enter "b")] := by simp
  have hshort : "evil".utf8ByteSize ≤ tenantNameBytes := by decide
  have hstem : stemOf "evil" = stemOf "../evil" := by decide
  obtain ⟨_, _, hfailed, hagain⟩ := hrun []
  have hnovel : Novel (failedThenOpened.flatMap (·.records)) := ⟨by decide, by decide⟩
  have hopened : (Tenants.start .blank 1000 .zero).opened failedThenOpened =
      ["evil", "b", "evil"] := by
    decide +kernel
  obtain ⟨names, hnames, _, hfound, _, hback⟩ := hclosed rfl failedThenOpened hnovel
  rw [hopened] at hfound hback
  obtain ⟨t', hmany, htables⟩ := hback 1 .zero ["evil", "b"] (by simp)
  obtain ⟨s, s', hs, hs', hsame⟩ := htables "b" (by simp)
  refine ⟨herror, hfailed _ _ herror, ⟨_, rfl, hno, hshort, hstem,
      hagain "../evil" 0 _ rfl _ hno "evil" hshort hstem⟩, rfl, hnovel, hopened,
    ⟨names, hnames, (hfound "b").2 (by simp), (hfound "evil").2 (by simp)⟩, t', hmany, ?_⟩
  have hids : (t.stores["b"]?.map (·.tables.ids)) = some [⟨1⟩] := by decide +kernel
  rw [hs] at hids
  rw [hs', Option.map_some, hsame]
  exact hids

end Tenants

end Allotment
