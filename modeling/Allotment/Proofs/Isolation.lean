/-
**Tenants are kept apart.**

Whatever name a client gives for a tenant, with separators, dots or letters of any script in it, the
log that it leads to lies directly in the data directory.  Whatever is then done with this tenant
changes nothing but its log and its temporary file: the quotas, the allocations and the logs of all
tenants with another stem stay as they are.  Two clients are given the same store exactly when what
is left of their names is the same.

Nothing is asked of the run that has led here.  Others may have written to the disk what they like,
logs may be damaged or gone, and opening may have failed any number of times.

Main definitions:

* `Allotment.IsPlain` — a name that is one plain component of a path.

Main results:

* `Allotment.isPlain_logName`, `Allotment.isPlain_temporaryName` — the names that belong to a log;
* `Allotment.Roster.Numbered.enter_twice` — **two clients are given the same store exactly when
  their names have the same stem**;
* `Allotment.Roster.isolated_run` — **tenants are kept apart at every moment of every run**.
-/

import Allotment.Proofs.Roster

set_option relaxedAutoImplicit false
set_option autoImplicit false

namespace Allotment

open Disk (Within)
open Log (temporaryName)

/-! ### Names -/

/-- **A name that is one plain component of a path**: it neither ends it nor leads elsewhere. -/
def IsPlain (name : String) : Prop :=
  name ≠ "" ∧ name ≠ "." ∧ name ≠ ".." ∧ ∀ c ∈ name.toList, c ≠ '/' ∧ c ≠ '\\' ∧ c ≠ '\x00'

/-- What is left of the name of a tenant, with a longer ending of safe characters and dots. -/
theorem isPlain_stemOf_append (tenant : String) {ending : String} (hlength : 2 < ending.length)
    (h : ∀ c ∈ ending.toList, isSafe c = true ∨ c = '.') : IsPlain (stemOf tenant ++ ending) := by
  have hlong : 2 < (stemOf tenant ++ ending).length := by
    rw [String.length_append]
    omega
  have hchars : ∀ c ∈ (stemOf tenant ++ ending).toList, isSafe c = true ∨ c = '.' := by
    intro c hc
    rw [String.toList_append, stemOf, String.toList_ofList] at hc
    rcases List.mem_append.1 hc with hc | hc
    · exact Or.inl (List.mem_filter.1 hc).2
    · exact h c hc
  have hshort : ∀ name : String, name.length ≤ 2 → stemOf tenant ++ ending ≠ name := by
    rintro name hname rfl
    exact absurd hlong (Nat.not_lt.2 hname)
  have hbad : ∀ x : Char, isSafe x = false → x ≠ '.' → ∀ c ∈ (stemOf tenant ++ ending).toList,
      c ≠ x := by
    rintro x hx hdot c hc rfl
    rcases hchars c hc with hsafe | heq
    · rw [hx] at hsafe
      cases hsafe
    · exact hdot heq
  refine ⟨hshort "" (by decide), hshort "." (by decide), hshort ".." (by decide), ?_⟩
  intro c hc
  exact ⟨hbad '/' (by decide) (by decide) c hc, hbad '\\' (by decide) (by decide) c hc,
    hbad '\x00' (by decide) (by decide) c hc⟩

/-- **The log of a tenant lies directly in the data directory**, whatever the name of the tenant. -/
theorem isPlain_logName (tenant : String) : IsPlain (logName (stemOf tenant)) :=
  isPlain_stemOf_append tenant (by decide) (by simp [isSafe])

/-- **And so does the file in which the log is compacted.** -/
theorem isPlain_temporaryName (tenant : String) :
    IsPlain (temporaryName (logName (stemOf tenant))) := by
  have hname : temporaryName (logName (stemOf tenant)) = stemOf tenant ++ ".wal.tmp" := by
    rw [temporaryName, logName, String.append_assoc]
    rfl
  rw [hname]
  exact isPlain_stemOf_append tenant (by decide) (by simp [isSafe])

/-- The names that belong to the log of one tenant do not belong to that of another. -/
theorem not_ownNames {stem other : String} (h : other ≠ stem) :
    ¬ ownNames (logName stem) (logName other) ∧
      ¬ ownNames (logName stem) (temporaryName (logName other)) := by
  refine ⟨not_or.2 ⟨?_, ?_⟩, not_or.2 ⟨?_, ?_⟩⟩
  · exact fun heq => h (logName_injective heq)
  · exact fun heq => temporaryName_ne_logName _ _ heq.symm
  · exact temporaryName_ne_logName _ _
  · exact fun heq => h (logName_injective (temporaryName_injective heq))

/-! ### Other tenants -/

/-- **What is left alone of a tenant**: its quotas and its allocations, if it is open, and the two
entries of the data directory that belong to its log. -/
structure Tenants.LeftAlone (stem : String) (t t' : Tenants) : Prop where
  /-- Its store is as it was, or it is still not open. -/
  store : t'.stores[stem]? = t.stores[stem]?
  /-- Its log is as it was, or it is still not there. -/
  log : t'.disk.entry? (logName stem) = t.disk.entry? (logName stem)
  /-- And so is the file in which its log is compacted. -/
  temporary : t'.disk.entry? (temporaryName (logName stem)) =
    t.disk.entry? (temporaryName (logName stem))

theorem Tenants.LeftAlone.refl (stem : String) (t : Tenants) : t.LeftAlone stem t := ⟨rfl, rfl, rfl⟩

theorem Tenants.LeftAlone.trans {stem : String} {t t' t'' : Tenants} (h : t.LeftAlone stem t')
    (h' : t'.LeftAlone stem t'') : t.LeftAlone stem t'' where
  store := h'.store.trans h.store
  log := h'.log.trans h.log
  temporary := h'.temporary.trans h.temporary

theorem Tenants.Addressed.leftAlone {stem other : String} {t t' : Tenants}
    (h : Tenants.Addressed stem t t') (hne : other ≠ stem) : t.LeftAlone other t' where
  store := h.others other hne
  log := h.disk.other _ (not_ownNames hne).1
  temporary := h.disk.other _ (not_ownNames hne).2

namespace Roster

/-- **Two clients are given the same store exactly when their names have the same stem**, as long as
there is no restart between the two. -/
theorem Numbered.enter_twice {r r₁ r₂ : Roster} (h : r.Numbered) {tenant tenant' : String}
    {n n' : Nat} (he : r.enter tenant = .ok (n, r₁)) {later : List Step} (hno : .restart ∉ later)
    (he' : (r₁.takeAll later).enter tenant' = .ok (n', r₂)) :
    n = n' ↔ stemOf tenant = stemOf tenant' := by
  obtain ⟨h₁, _, hopen, hn⟩ := h.enter he
  obtain ⟨hlater, hfollows⟩ := h₁.takeAll later
  obtain ⟨hopen', hn'⟩ := hfollows hno _ hopen
  rw [← hn, ← hn']
  rcases enter_eq_ok he' with ⟨hthere, rfl, _⟩ | ⟨hnew, rfl, _⟩
  · exact ⟨hlater.apart _ hopen' _ hthere, fun heq => by rw [heq]⟩
  · -- a store that is opened now has a number that was never given
    have hlt := hlater.below _ hopen'
    refine ⟨fun heq => absurd heq (Nat.ne_of_lt hlt), ?_⟩
    intro heq
    exact absurd (heq ▸ hopen') hnew

/-- **Tenants are kept apart at every moment of every run.**  An act addressed to a tenant changes
nothing on the disk but two entries with plain names, and leaves every tenant with another stem
alone; a tick of the compactors is a sequence of such acts; closing all stores changes nothing but
logs of open tenants; and two clients are given the same store exactly when their names have the
same stem. -/
theorem isolated_run (disk : Disk) (threshold : Nat) (m : Meter) (steps : List Step) :
    let r := (start disk threshold m).takeAll steps
    (∀ a : Act,
      let r' := r.take (.act a)
      let log := logName (stemOf a.tenant)
      IsPlain log ∧ IsPlain (temporaryName log) ∧
        Within (fun x => x = log ∨ x = temporaryName log) r.tenants.disk r'.tenants.disk ∧
        ∀ other : String, stemOf other ≠ stemOf a.tenant →
          r.tenants.LeftAlone (stemOf other) r'.tenants) ∧
    r.tenants.tick =
      r.tenants.performAll (r.tenants.stores.keys.map fun stem => .call stem .check) ∧
    Within (fun x => ∃ stem ∈ r.tenants.stores, x = logName stem) r.tenants.disk
      (r.take .restart).tenants.disk ∧
    ∀ (tenant : String) (n : Nat) (r₁ : Roster), r.enter tenant = .ok (n, r₁) →
      ∀ later : List Step, .restart ∉ later →
        ∀ (tenant' : String) (n' : Nat) (r₂ : Roster),
          (r₁.takeAll later).enter tenant' = .ok (n', r₂) →
            (n = n' ↔ stemOf tenant = stemOf tenant') := by
  intro r
  have hnumbered : r.Numbered := ((numbered_start disk threshold m).takeAll steps).1
  refine ⟨?_, hnumbered.housed.tick_eq, hnumbered.housed.closeAll_within, ?_⟩
  · intro a r' log
    have haddressed := (hnumbered.housed.perform a).2
    rw [← tenants_take_act] at haddressed
    exact ⟨isPlain_logName _, isPlain_temporaryName _, haddressed.disk,
      fun other hne => haddressed.leftAlone hne⟩
  · intro tenant n r₁ he later hno tenant' n' r₂ he'
    exact hnumbered.enter_twice he hno he'

/-- Two tenants are opened, one of them under a name that would lead out of the directory, and the
other one creates a quota. -/
def twoTenants : List Step :=
  [.act (.enter "../evil"), .act (.enter "b"),
   .act (.call "b" (.visit (.ask
     (.create ⟨⟨4, 1⟩, "Süd", "tour", tourDay⟩ ⟨⟨1⟩, ⟨⟨1⟩⟩, 0⟩))))]

set_option maxRecDepth 100000 in
/-- The first tenant compacts its log, which leaves the quota of the second one alone; under its
plain name it is given the same store again, and the other tenant is given another. -/
theorem isolated_run_outward_name :
    let r := (start .blank 1000 .zero).takeAll twoTenants
    let r' := r.take (.act (.call "../evil" .compact))
    stemOf "b" ≠ stemOf "../evil" ∧ r.tenants.LeftAlone (stemOf "b") r'.tenants ∧
      (r'.tenants.stores["b"]?.map (·.tables.ids)) = some [⟨1⟩] ∧
      r'.tenants.disk.entry? "evil.wal" ≠ r.tenants.disk.entry? "evil.wal" ∧
      ∃ r₁ r₂, r.enter "evil" = .ok (0, r₁) ∧ Step.restart ∉ [Step.act (.call "evil" .compact)] ∧
        (r₁.takeAll [.act (.call "evil" .compact)]).enter "b" = .ok (1, r₂) ∧
        (0 = 1 ↔ stemOf "evil" = stemOf "b") := by
  intro r r'
  have hne : stemOf "b" ≠ stemOf "../evil" := by decide
  have hno : Step.restart ∉ [Step.act (.call "evil" .compact)] := by simp
  obtain ⟨hacts, _, _, htwice⟩ := isolated_run .blank 1000 .zero twoTenants
  obtain ⟨_, _, _, hothers⟩ := hacts (.call "../evil" .compact)
  have h₁ : r.enter "evil" = .ok (0, r) := rfl
  have h₂ : ∃ r₂, (r.takeAll [.act (.call "evil" .compact)]).enter "b" = .ok (1, r₂) := ⟨_, rfl⟩
  obtain ⟨r₂, h₂⟩ := h₂
  exact ⟨hne, hothers "b" hne, by decide +kernel, by decide +kernel, r, r₂, h₁, hno, h₂,
    htwice "evil" 0 r h₁ _ hno "b" 1 r₂ h₂⟩

end Roster

end Allotment
