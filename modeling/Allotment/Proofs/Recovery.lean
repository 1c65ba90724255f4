/-
**Opening tenants again.**

Tenants are at work over a data directory in which only they make files.  Clients ask for tenants
under any names and make calls on their desks; bytes can or cannot be written; and from time to time
somebody puts a directory where a log is not there yet, so that this log cannot be opened until the
directory is taken away.

The log of every open tenant replays to its tables, and there is no file but those that belong to
open tenants.  So a tenant that is asked for the first time starts on a log that is not there, and
when all stores are closed, the logs that are found are those of the tenants that were open.  Opened
again, in any order, these have the tables that they had.

Main definitions:

* `Allotment.Moment`, `Allotment.Tenants.pass` — what can happen, and the tenants afterwards;
* `Allotment.Tenants.opened` — the stems under which tenants were opened in the course of a run;
* `Allotment.Tenants.Whole` — what holds at any moment;
* `Allotment.Tenants.Recovering` — tenants of which some were opened again.

Main results:

* `Allotment.Tenants.Whole.passAll` — **what holds at any moment goes on holding**;
* `Allotment.Tenants.Whole.mem_discover_iff` — **the tenants that are found are those that are
  open**;
* `Allotment.Tenants.Whole.openMany` — **tenants that are opened again have the tables that they
  had**.
-/

import Allotment.Proofs.Durable
import Allotment.Proofs.Isolation

set_option relaxedAutoImplicit false
set_option autoImplicit false

namespace Allotment

/-! ### What can happen -/

/-- The records that a deed brings. -/
def Deed.records : Deed → List Record
  | .visit v => v.records
  | _ => []

/-- The records that an act brings. -/
def Act.records : Act → List Record
  | .enter _ => []
  | .call _ deed => deed.records

/-- What can happen to tenants whose files nobody else touches. -/
inductive Moment where
  /-- Somebody acts. -/
  | act (a : Act)
  /-- From now on bytes can be written, or cannot. -/
  | setWritable (writable : Bool)
  /-- A directory is put under a name, unless the name is taken. -/
  | obstruct (name : String)
  /-- The directory under a name is taken away. -/
  | clear (name : String)

/-- The records that are brought. -/
def Moment.records : Moment → List Record
  | .act a => a.records
  | _ => []

namespace Disk

/-- Puts a directory under a name, unless the name is taken. -/
def obstruct (d : Disk) (name : String) : Disk :=
  match d.entry? name with
  | none => d.setEntry name .directory
  | some _ => d

/-- Takes away the directory under a name. -/
def clear (d : Disk) (name : String) : Disk :=
  match d.entry? name with
  | some .directory => d.removeEntry name
  | _ => d

variable {d : Disk} {es : Entries}

theorem entry?_removeEntry (hp : d.place = .directory es) (name x : String) :
    entry? (d.removeEntry name) x = if name = x then none else d.entry? x := by
  simp [ entry?, removeEntry, hp, Std.ExtTreeMap.getElem?_erase]

/-- Whoever puts up a directory leaves all files as they are. -/
theorem file?_obstruct (hp : d.place = .directory es) (name x : String) :
    (d.obstruct name).file? x = d.file? x := by
  unfold obstruct
  cases he : d.entry? name with
  | some e => rfl
  | none =>
      have hset : entry? (d.setEntry name .directory) x =
          if name = x then some .directory else d.entry? x := by
        simp [ entry?, setEntry, hp, Std.ExtTreeMap.getElem?_insert]
      simp only [file?, hset]
      by_cases hx : name = x
      · rw [if_pos hx, ← hx, he]
      · rw [if_neg hx]

/-- And so does whoever takes one away. -/
theorem file?_clear (hp : d.place = .directory es) (name x : String) :
    (d.clear name).file? x = d.file? x := by
  unfold clear
  split
  · next he =>
    simp only [file?, entry?_removeEntry hp]
    by_cases hx : name = x
    · rw [if_pos hx, ← hx, he]
    · rw [if_neg hx]
  · rfl

theorem place_obstruct (hp : d.place = .directory es) (name : String) :
    ∃ es', (d.obstruct name).place = .directory es' := by
  unfold obstruct
  split
  · exact ⟨_, by rw [setEntry, hp]⟩
  · exact ⟨es, hp⟩

theorem place_clear (hp : d.place = .directory es) (name : String) :
    ∃ es', (d.clear name).place = .directory es' := by
  unfold clear
  split
  · exact ⟨_, by rw [removeEntry, hp]⟩
  · exact ⟨es, hp⟩

end Disk

/-- What is left of a name is not longer than the name. -/
theorem utf8ByteSize_stemOf_le (tenant : String) :
    (stemOf tenant).utf8ByteSize ≤ tenant.utf8ByteSize := by
  rw [stemOf, String.utf8ByteSize_ofList, ← String.utf8Len_toList]
  exact String.utf8Len_le_of_sublist List.filter_sublist

/-- A desk that is kept is kept whatever else is brought. -/
theorem Desk.Kept.mono {name : String} {past past' : List Record} {d : Desk LogFile}
    (h : d.Kept name past) (hsub : ∀ r ∈ past, r ∈ past') : d.Kept name past' :=
  ⟨h.toOrderly.mono hsub, h.backed⟩

/-- A desk is kept wherever the file of its log is as it was. -/
theorem Desk.Kept.moved {name : String} {past : List Record} {d : Desk LogFile}
    (h : d.Kept name past) {disk : Disk}
    (hfile : disk.file? name = d.store.journal.disk.file? name) (m : Meter) :
    Desk.Kept name past ⟨{ d.store with journal := ⟨disk, d.store.journal.writer⟩ }, m⟩ := by
  obtain ⟨rs, hrest, hread, htables⟩ := h.backed.log
  have hname := h.backed.named
  have hrest' : Log.Writer.Settled d.store.journal.writer disk (Log.frames rs) :=
    { hrest with file := by rw [hname, hfile, ← hname]; exact hrest.file }
  exact ⟨h.toOrderly.of_tables_eq rfl h.alone, ⟨rs, hrest', hread, htables⟩, hname⟩

/-- A desk is kept after whatever is asked of it. -/
theorem Desk.Kept.deed {name : String} {past : List Record} {d : Desk LogFile}
    (h : d.Kept name past) {deed : Deed} (threshold : Nat)
    (hnovel : Novel (past ++ deed.records)) :
    (d.undergo (deed.event threshold)).Kept name (past ++ deed.records) := by
  have hrecords : (deed.event threshold).records = deed.records := by
    cases deed with
    | _ => rfl
  rw [← hrecords] at hnovel ⊢
  exact (h.undergo hnovel).1

/-- The log of a desk, wherever it has been taken, replays to the tables of the desk. -/
theorem Desk.Kept.replays {name : String} {past : List Record} {d : Desk LogFile}
    (h : d.Kept name past) {disk : Disk}
    (hfile : disk.file? name = d.store.journal.disk.file? name) :
    ∃ s, Store.ofLog disk name = .ok s ∧ s.tables = d.store.tables := by
  obtain ⟨rs, hrest, hread, htables⟩ := h.backed.log
  have hlog := hrest.file
  rw [h.backed.named] at hlog
  obtain ⟨s, ho, hs⟩ := Store.ofLog_of_file? (hfile.trans hlog)
  have htables' := hs.tables
  rw [Log.replay, Log.scan_frames hread] at htables'
  exact ⟨s, ho, htables'.trans htables⟩

namespace Tenants

/-- The tenants after a moment. -/
def pass (t : Tenants) : Moment → Tenants
  | .act a => t.perform a
  | .setWritable writable => { t with disk.writable := writable }
  | .obstruct name => { t with disk := t.disk.obstruct name }
  | .clear name => { t with disk := t.disk.clear name }

/-- The tenants after a run. -/
def passAll (t : Tenants) (run : List Moment) : Tenants := run.foldl pass t

/-- The stem under which a client is given a store, if it is given one. -/
def opening? (t : Tenants) : Moment → Option String
  | .act (.enter tenant) =>
    match t.openTenant tenant with
    | .ok _ => some (stemOf tenant)
    | .error _ => none
  | _ => none

/-- **The stems under which clients were given stores in the course of a run.** -/
def opened (t : Tenants) : List Moment → List String
  | [] => []
  | x :: run => (t.opening? x).toList ++ (t.pass x).opened run

/-! ### What holds at any moment -/

/-- **What holds at any moment**, if `past` is what was brought so far. -/
structure Whole (past : List Record) (t : Tenants) : Prop where
  /-- What holds of open tenants. -/
  housed : t.Housed
  /-- There is a data directory. -/
  place : ∃ es, t.disk.place = .directory es
  /-- Stems are short. -/
  short : ∀ stem ∈ t.stores, stem.utf8ByteSize ≤ tenantNameBytes
  /-- The log of every open tenant replays to its tables. -/
  kept : ∀ (stem : String) (d : Desk LogFile), t.desk? stem = some d → d.Kept (logName stem) past
  /-- All files belong to open tenants. -/
  files : ∀ name, t.disk.file? name ≠ none → ∃ stem ∈ t.stores, ownNames (logName stem) name

theorem desk?_eq_some_iff {t : Tenants} {stem : String} {d : Desk LogFile} :
    t.desk? stem = some d ↔
      ∃ s, t.stores[stem]? = some s ∧ ⟨s.mapJournal fun w => ⟨t.disk, w⟩, t.meter⟩ = d :=
  Option.map_eq_some_iff

/-- A desk that was put under a stem lies there. -/
theorem desk?_putDesk (t : Tenants) (stem : String) (d : Desk LogFile) :
    (t.putDesk stem d).desk? stem = some d := by
  simp [desk?, putDesk, Store.mapJournal]

theorem desk?_withOpen (t : Tenants) (stem : String) (s : Store LogFile) :
    (t.withOpen stem s).desk? stem = some ⟨s, (t.withOpen stem s).meter⟩ := by
  simp [desk?, withOpen, putDesk, Store.mapJournal]

/-- A desk that was left alone, with its log, is kept as before. -/
theorem kept_of_same {past : List Record} {t t' : Tenants} {stem : String}
    (h : ∀ d, t.desk? stem = some d → d.Kept (logName stem) past)
    (hstore : t'.stores[stem]? = t.stores[stem]?)
    (hfile : t'.disk.file? (logName stem) = t.disk.file? (logName stem)) {d : Desk LogFile}
    (hd : t'.desk? stem = some d) : d.Kept (logName stem) past := by
  obtain ⟨s, hs, rfl⟩ := desk?_eq_some_iff.1 hd
  have hold := h _ (desk?_eq_some_iff.2 ⟨s, hstore ▸ hs, rfl⟩)
  exact hold.moved hfile t'.meter

namespace Whole

variable {past past' : List Record} {t t' : Tenants}

/-- Nothing is open, and there are no files. -/
theorem start {disk : Disk} (hp : disk.place = .directory ∅) (threshold : Nat) (m : Meter) :
    (Tenants.start disk threshold m).Whole [] where
  housed := housed_start disk threshold m
  place := ⟨∅, hp⟩
  short stem hs := by simp [Tenants.start] at hs
  kept stem d hd := by simp [Tenants.start, desk?] at hd
  files name hf := by simp [Tenants.start, Disk.file?, Disk.entry?, hp] at hf

/-- A desk that was left alone, with its log, is kept whatever else was brought. -/
theorem kept_elsewhere (h : t.Whole past) (hsub : ∀ r ∈ past, r ∈ past') {stem : String}
    (hstore : t'.stores[stem]? = t.stores[stem]?)
    (hfile : t'.disk.file? (logName stem) = t.disk.file? (logName stem)) {d : Desk LogFile}
    (hd : t'.desk? stem = some d) : d.Kept (logName stem) past' :=
  (kept_of_same (h.kept stem) hstore hfile hd).mono hsub

/-- More may have been brought. -/
theorem mono (h : t.Whole past) (hsub : ∀ r ∈ past, r ∈ past') : t.Whole past' :=
  ⟨h.housed, h.place, h.short, fun stem d hd => (h.kept stem d hd).mono hsub, h.files⟩

/-- Something has happened to the disk, but not to files. -/
theorem of_file? (h : t.Whole past) (disk : Disk) (hp : ∃ es, disk.place = .directory es)
    (hfile : ∀ name, disk.file? name = t.disk.file? name) :
    Whole past { t with disk := disk } where
  housed := ⟨h.housed.stems, h.housed.named, h.housed.alone, h.housed.size⟩
  place := hp
  short := h.short
  kept stem _ hd := by
    have hstore : ({ t with disk := disk } : Tenants).stores[stem]? = t.stores[stem]? := rfl
    exact h.kept_elsewhere (fun _ hr => hr) hstore (hfile (logName stem)) hd
  files name hf := h.files name (by rw [← hfile name]; exact hf)

/-- **What was done was addressed to an open tenant**, whose desk is kept afterwards. -/
theorem of_addressed (h : t.Whole past) (hsub : ∀ r ∈ past, r ∈ past') {stem : String}
    (hhoused : t'.Housed) (haddressed : Addressed stem t t') (hopen : stem ∈ t'.stores)
    (hshort : stem.utf8ByteSize ≤ tenantNameBytes)
    (hkept : ∀ d, t'.desk? stem = some d → d.Kept (logName stem) past') : t'.Whole past' where
  housed := hhoused
  place := by
    obtain ⟨es, hp⟩ := h.place
    rcases haddressed.disk.place with hsame | ⟨_, es', _, hp'⟩
    · exact ⟨es, hsame.trans hp⟩
    · exact ⟨es', hp'⟩
  short x hx := by
    by_cases hstem : x = stem
    · exact hstem ▸ hshort
    · exact h.short x ((haddressed.mem_stores_iff hstem).1 hx)
  kept x d hd := by
    by_cases hstem : x = stem
    · subst hstem
      exact hkept d hd
    · have hfile := haddressed.disk.file?_eq (not_ownNames hstem).1
      exact h.kept_elsewhere hsub (haddressed.others x hstem) hfile hd
  files name hf := by
    by_cases hown : ownNames (logName stem) name
    · exact ⟨stem, hopen, hown⟩
    · rw [haddressed.disk.file?_eq hown] at hf
      obtain ⟨x, hx, hname⟩ := h.files name hf
      exact ⟨x, haddressed.mem_stores hx, hname⟩

/-- **A tenant that is opened for the first time starts on a log that is not there.** -/
theorem kept_of_ofLog (h : t.Whole past) {stem : String} (hnew : stem ∉ t.stores)
    {s : Store LogFile} (ho : Store.ofLog t.disk (logName stem) = .ok s) (m : Meter) :
    Desk.Kept (logName stem) past ⟨s, m⟩ := by
  have hnofile : t.disk.file? (logName stem) = none := by
    by_contra hf
    obtain ⟨x, hx, hname⟩ := h.files _ hf
    have hne : stem ≠ x := fun heq => hnew (heq ▸ hx)
    exact (not_ownNames hne).1 hname
  obtain ⟨bs, hs⟩ := Store.opened_of_ofLog ho
  rcases hs.source with hsome | ⟨_, rfl⟩
  · rw [hnofile] at hsome
    cases hsome
  · exact (Desk.Kept.of_opened hs m).mono fun _ hr => nomatch hr

/-- **What holds at any moment holds after an act.** -/
theorem perform (h : t.Whole past) {a : Act} (hnovel : Novel (past ++ a.records)) :
    (t.perform a).Whole (past ++ a.records) := by
  have hsub : ∀ r ∈ past, r ∈ past ++ a.records := fun _ hr => List.mem_append_left _ hr
  obtain ⟨hhoused, haddressed⟩ := h.housed.perform a
  cases a with
  | enter tenant =>
      have hentering := t.entering tenant
      simp only [Tenants.perform] at hhoused haddressed ⊢
      generalize t.openTenant tenant = result at hentering hhoused haddressed
      cases hentering with
      | @opened short named new room s log =>
          refine h.of_addressed hsub hhoused haddressed (mem_stores_withOpen.2 (Or.inl rfl))
            (Nat.le_trans (utf8ByteSize_stemOf_le tenant) short) ?_
          intro d hd
          cases (desk?_withOpen t (stemOf tenant) s).symm.trans hd
          exact (h.kept_of_ofLog new log _).mono hsub
      | _ => exact h.mono hsub
  | call tenant deed =>
      rw [perform_call] at hhoused haddressed ⊢
      cases hd : t.desk? (stemOf tenant) with
      | none => exact h.mono hsub
      | some d =>
          rw [hd] at hhoused haddressed
          have hopen := (h.housed.desk? hd).1
          refine h.of_addressed hsub hhoused haddressed (haddressed.stays hopen)
            (h.short _ hopen) ?_
          intro d' hd'
          cases (desk?_putDesk t _ _).symm.trans hd'
          exact (h.kept _ d hd).deed t.threshold hnovel

/-- **What holds at any moment holds at the next one.** -/
theorem pass (h : t.Whole past) {x : Moment} (hnovel : Novel (past ++ x.records)) :
    (t.pass x).Whole (past ++ x.records) := by
  obtain ⟨es, hp⟩ := h.place
  have hsub : ∀ r ∈ past, r ∈ past ++ x.records := fun _ hr => List.mem_append_left _ hr
  cases x with
  | act a => exact h.perform hnovel
  | setWritable writable =>
      exact (h.of_file? { t.disk with writable } ⟨es, hp⟩ fun _ => rfl).mono hsub
  | obstruct name =>
      exact (h.of_file? _ (Disk.place_obstruct hp name) (Disk.file?_obstruct hp name)).mono hsub
  | clear name =>
      exact (h.of_file? _ (Disk.place_clear hp name) (Disk.file?_clear hp name)).mono hsub

/-- **What holds at any moment goes on holding.** -/
theorem passAll (h : t.Whole past) {run : List Moment}
    (hnovel : Novel (past ++ run.flatMap (·.records))) :
    (t.passAll run).Whole (past ++ run.flatMap (·.records)) := by
  induction run generalizing past t with
  | nil => exact h.mono fun _ hr => List.mem_append_left _ hr
  | cons x run ih =>
      rw [List.flatMap_cons, ← List.append_assoc] at hnovel ⊢
      exact ih (h.pass hnovel.left) hnovel

end Whole

/-! ### Which tenants are open -/

/-- **A tenant is open if it was open before or has just been opened.** -/
theorem Housed.mem_stores_pass {t : Tenants} (h : t.Housed) (x : Moment) (stem : String) :
    stem ∈ (t.pass x).stores ↔ t.opening? x = some stem ∨ stem ∈ t.stores := by
  have hnone : ∀ {t' : Tenants}, (stem ∈ t'.stores ↔ stem ∈ t.stores) →
      (stem ∈ t'.stores ↔ none = some stem ∨ stem ∈ t.stores) :=
    fun hsame => hsame.trans (or_iff_right (Option.some_ne_none stem).symm).symm
  cases x with
  | act a =>
      cases a with
      | enter tenant =>
          have hentering := t.entering tenant
          simp only [pass, Tenants.perform, opening?]
          generalize t.openTenant tenant = result at hentering
          cases hentering with
          | present short named open_ =>
              rw [Option.some.injEq]
              exact (or_iff_right_of_imp fun heq => heq ▸ open_).symm
          | opened short named new room log =>
              rw [mem_stores_withOpen, Option.some.injEq, eq_comm]
          | _ => exact hnone Iff.rfl
      | call tenant deed => exact hnone h.mem_stores_call
  | _ => exact hnone Iff.rfl

/-- **The tenants that are open are those that were opened.** -/
theorem Whole.mem_stores_passAll {past : List Record} {t : Tenants} (h : t.Whole past)
    {run : List Moment} (hnovel : Novel (past ++ run.flatMap (·.records))) (stem : String) :
    stem ∈ (t.passAll run).stores ↔ stem ∈ t.opened run ∨ stem ∈ t.stores := by
  induction run generalizing past t with
  | nil => exact (or_iff_right List.not_mem_nil).symm
  | cons x run ih =>
      rw [List.flatMap_cons, ← List.append_assoc] at hnovel
      have hrest := ih (h.pass hnovel.left) hnovel
      rw [opened, List.mem_append, Option.mem_toList]
      rw [h.housed.mem_stores_pass] at hrest
      rw [or_assoc, or_left_comm]
      exact hrest

/-! ### Which tenants are found -/

namespace Whole

variable {past : List Record} {t t' : Tenants}

/-- A log at rest has nothing to write. -/
theorem idle (h : t.Whole past) : t.Idle := by
  intro stem s hs
  obtain ⟨_, hrest, _⟩ := (h.kept stem _ (desk?_eq_some_iff.2 ⟨s, hs, rfl⟩)).backed.log
  exact hrest.buffer

/-- The log of an open tenant is a file. -/
theorem file?_of_open (h : t.Whole past) {stem : String} (hopen : stem ∈ t.stores) :
    t.disk.file? (logName stem) ≠ none := by
  obtain ⟨s, hs⟩ := mem_stores_iff_exists.1 hopen
  have hkept := h.kept stem _ (desk?_eq_some_iff.2 ⟨s, hs, rfl⟩)
  obtain ⟨_, hrest, _⟩ := hkept.backed.log
  have hfile := hrest.file
  rw [hkept.backed.named] at hfile
  exact Option.ne_none_iff_exists'.2 ⟨_, hfile⟩

/-- **The tenants that are found are those that are open**, and those whose logs are directories. -/
theorem mem_discover_iff (h : t.Whole past) :
    ∃ names, discover t.disk = .ok names ∧ ∀ x, x ∈ names ↔
      x ∈ t.stores ∨ x ≠ "" ∧ stemOf x = x ∧ t.disk.entry? (logName x) = some .directory := by
  obtain ⟨es, hp⟩ := h.place
  obtain ⟨names, hnames⟩ := exists_discover hp
  refine ⟨names, hnames, ?_⟩
  intro x
  rw [Allotment.mem_discover_iff hp hnames, Disk.mem_iff_entry? hp]
  constructor
  · rintro ⟨hne, hstem, htaken⟩
    obtain ⟨e, he⟩ := Option.ne_none_iff_exists'.1 htaken
    cases e with
    | directory => exact Or.inr ⟨hne, hstem, he⟩
    | file f =>
        have hfile : t.disk.file? (logName x) ≠ none := by
          rw [Disk.file?_of_entry? he]
          exact Option.some_ne_none f
        obtain ⟨y, hy, hname⟩ := h.files _ hfile
        have heq : x = y := by
          by_contra hne'
          exact (not_ownNames hne').1 hname
        exact Or.inl (heq ▸ hy)
  · rintro (hopen | ⟨hne, hstem, he⟩)
    · obtain ⟨f, hf⟩ := Option.ne_none_iff_exists'.1 (h.file?_of_open hopen)
      obtain ⟨hne, hstem⟩ := h.housed.stems x hopen
      exact ⟨hne, hstem, Option.ne_none_iff_exists'.2 ⟨_, Disk.entry?_of_file? hf⟩⟩
    · exact ⟨hne, hstem, Option.ne_none_iff_exists'.2 ⟨_, he⟩⟩

end Whole

/-! ### Opening again -/

/-- **Tenants `t'` of which some were opened again**, over the files that `t` has left. -/
structure Recovering (t t' : Tenants) : Prop where
  /-- Only tenants that were open are opened. -/
  fewer : ∀ x ∈ t'.stores, x ∈ t.stores
  /-- Those that are open have the tables that they had. -/
  tables : ∀ (x : String) (s s' : Store Log.Writer),
    t.stores[x]? = some s → t'.stores[x]? = some s' → s'.tables = s.tables
  /-- The logs of the others are as they were. -/
  waiting : ∀ x ∈ t.stores, x ∉ t'.stores → t'.disk.file? (logName x) = t.disk.file? (logName x)

theorem Recovering.start (t : Tenants) (threshold : Nat) (m : Meter) :
    Recovering t (Tenants.start t.disk threshold m) where
  fewer x hx := by simp [Tenants.start] at hx
  tables x s s' hs hs' := by simp [Tenants.start] at hs'
  waiting x hx hnot := rfl

/-- There is room for a tenant as long as no others are open than were open together with it. -/
theorem Recovering.room {t t' : Tenants} (h : Recovering t t') {x : String} (hopen : x ∈ t.stores)
    (hnew : x ∉ t'.stores) : t'.stores.size < t.stores.size := by
  have hnodup : (x :: t'.stores.keys).Nodup :=
    List.nodup_cons.2 ⟨mt Std.ExtTreeMap.mem_keys.1 hnew, Std.ExtTreeMap.nodup_keys⟩
  have hsub : x :: t'.stores.keys ⊆ t.stores.keys := by
    intro y hy
    rcases List.mem_cons.1 hy with rfl | hy
    · exact Std.ExtTreeMap.mem_keys.2 hopen
    · exact Std.ExtTreeMap.mem_keys.2 (h.fewer y (Std.ExtTreeMap.mem_keys.1 hy))
  have hlength := hnodup.length_le_of_subset hsub
  rw [List.length_cons, Std.ExtTreeMap.length_keys, Std.ExtTreeMap.length_keys] at hlength
  exact hlength

/-- One more is opened, and its log replays to the tables that it had. -/
theorem Recovering.withOpen {t t' : Tenants} (h : Recovering t t') {x : String}
    (hopen : x ∈ t.stores) {s : Store LogFile} (ho : Store.ofLog t'.disk (logName x) = .ok s)
    (htables : ∀ s₁, t.stores[x]? = some s₁ → s.tables = s₁.tables) :
    Recovering t (t'.withOpen x s) := by
  have haddressed := addressed_withOpen ho
  refine ⟨?_, ?_, ?_⟩
  · intro y hy
    rcases mem_stores_withOpen.1 hy with rfl | hy
    · exact hopen
    · exact h.fewer y hy
  · intro y s₁ s₂ hs₁ hs₂
    by_cases hyx : y = x
    · subst hyx
      simp only [Tenants.withOpen, putDesk, Std.ExtTreeMap.getElem?_insert_self] at hs₂
      cases hs₂
      exact htables s₁ hs₁
    · exact h.tables y s₁ s₂ hs₁ ((haddressed.others y hyx) ▸ hs₂)
  · intro y hy hnot
    have hyx : y ≠ x := fun heq => hnot (mem_stores_withOpen.2 (Or.inl heq))
    have hwaits : y ∉ t'.stores := fun hy' => hnot (haddressed.mem_stores hy')
    exact (haddressed.disk.file?_eq (not_ownNames hyx).1).trans (h.waiting y hy hwaits)

namespace Whole

variable {past : List Record} {t t' : Tenants}

/-- The log of an open tenant, wherever it has been taken, replays to the tables of the tenant. -/
theorem replays (h : t.Whole past) {x : String} {s : Store Log.Writer} (hs : t.stores[x]? = some s)
    {disk : Disk} (hfile : disk.file? (logName x) = t.disk.file? (logName x)) :
    ∃ s', Store.ofLog disk (logName x) = .ok s' ∧ s'.tables = s.tables := by
  have hkept := h.kept x _ (desk?_eq_some_iff.2 ⟨s, hs, rfl⟩)
  exact hkept.replays hfile

/-- **A tenant that is opened again has the tables that it had.** -/
theorem openTenant (h : t.Whole past) (hr : Recovering t t') {x : String} (hopen : x ∈ t.stores) :
    ∃ t'', t'.openTenant x = .ok (x, t'') ∧ Recovering t t'' ∧ x ∈ t''.stores ∧
      ∀ y ∈ t'.stores, y ∈ t''.stores := by
  obtain ⟨hne, hstem⟩ := h.housed.stems x hopen
  have hshort := h.short x hopen
  have hentering := t'.entering x
  generalize t'.openTenant x = result at hentering
  cases hentering with
  | tooLong long => exact absurd hshort (Nat.not_le.2 long)
  | nameless short empty => exact absurd (hstem ▸ empty) hne
  | present short named open_ =>
      rw [hstem] at open_ ⊢
      exact ⟨t', rfl, hr, open_, fun _ hy => hy⟩
  | crowded short named new full =>
      rw [hstem] at new
      have hroom := hr.room hopen new
      have hsize := h.housed.size
      omega
  | barred short named new room log =>
      rw [hstem] at new log
      obtain ⟨s, hs⟩ := mem_stores_iff_exists.1 hopen
      obtain ⟨s', ho, _⟩ := h.replays hs (hr.waiting x hopen new)
      rw [log] at ho
      cases ho
  | @opened short named new room s log =>
      rw [hstem] at new log ⊢
      refine ⟨_, rfl, hr.withOpen hopen log ?_, mem_stores_withOpen.2 (Or.inl rfl),
        fun _ => (addressed_withOpen log).mem_stores⟩
      intro s₁ hs₁
      obtain ⟨s', ho, htables⟩ := h.replays hs₁ (hr.waiting x hopen new)
      cases log.symm.trans ho
      exact htables

/-- **Tenants that are opened again have the tables that they had**, whichever are opened, and in
whatever order. -/
theorem openMany (h : t.Whole past) (hr : Recovering t t') {asked : List String}
    (hasked : ∀ x ∈ asked, x ∈ t.stores) :
    ∃ t'', t'.openMany asked = ((asked.length, none), t'') ∧ Recovering t t'' ∧
      (∀ x ∈ asked, x ∈ t''.stores) ∧ ∀ y ∈ t'.stores, y ∈ t''.stores := by
  induction asked generalizing t' with
  | nil => exact ⟨t', rfl, hr, fun x hx => absurd hx List.not_mem_nil, fun _ hy => hy⟩
  | cons x asked ih =>
      obtain ⟨hx, hrest⟩ := List.forall_mem_cons.1 hasked
      obtain ⟨t₁, ho, hr₁, hx₁, hstays₁⟩ := h.openTenant hr hx
      obtain ⟨t₂, hmany, hr₂, hall, hstays₂⟩ := ih hr₁ hrest
      refine ⟨t₂, ?_, hr₂, List.forall_mem_cons.2 ⟨hstays₂ x hx₁, hall⟩,
        fun y hy => hstays₂ y (hstays₁ y hy)⟩
      rw [Tenants.openMany, ho]
      simp only [hmany, List.length_cons]

end Whole

end Tenants

end Allotment
