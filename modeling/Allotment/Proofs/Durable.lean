/-
**What a store has said is what its log says.**

A store writes a record before it changes its tables, and a change that cannot be logged is not
made.  So the tables of a store are at any moment what its log replays to: each change of the tables
is the effect of the record that was appended for it, a batch that fails changes neither, and a
compaction puts a snapshot that rebuilds the same tables in the place of the old records.  All of
this goes on whether or not bytes can be written: what needs bytes fails as a whole, and neither
cutting a file back nor opening one needs any.

It takes two facts about the records of a desk.  They are within the limits on requests, so no
reader takes them for damage.  And identifiers of allocations are not used twice, so no allocation
is listed under a quota that it does not name, and a snapshot loses none.

Main definitions:

* `Allotment.Store.Backed` — a store whose log replays to its tables;
* `Allotment.Event.New`, `Allotment.Event.NewInTurn` — that an event, or each of several, brings
  nothing that has to be new and is not;
* `Allotment.Desk.Kept` — what holds between two events.

Main results:

* `Allotment.Store.Backed.took` — a store that takes records stays backed by its log;
* `Allotment.Store.Backed.reopen` — a store that is closed and opened again has the same tables;
* `Allotment.Store.Backed.undergo_cases` — what happens between visits keeps a store backed, and its
  tables as they are;
* `Allotment.Desk.Kept.undergoAll_new` — **what lies between two moments at a desk with a log**;
* `Allotment.Durability.reopened_eq_live` — **at every moment of every run, opening the log again
  gives the live tables**.
-/

import Allotment.Proofs.Visits

set_option relaxedAutoImplicit false
set_option autoImplicit false

namespace Allotment

open Log (Bytes Readable frames)
open Log.Writer (Settled)
open Tables (Sound)

/-- A snapshot of sound tables has readable records only. -/
theorem Tables.Sound.readable_snapshotRecords {t : Tables} (h : Sound t) :
    ∀ r ∈ t.snapshotRecords, Readable r := by
  intro r hr
  obtain ⟨id, s, hs, hr⟩ := Tables.mem_snapshotRecords.1 hr
  rcases List.mem_cons.1 hr with rfl | hr
  · exact Log.readable_created (h.limits id s hs) id s.version
  · obtain ⟨a, ha, rfl⟩ := List.mem_map.1 hr
    exact Log.readable_allocated (h.references a.id a (Ledger.find?_of_mem_entries ha)) s.version

/-! ### Stores that are backed by their log -/

/-- A log at rest that has taken records is at rest behind them. -/
theorem LogFile.settled_of_took {l l' : LogFile} {rs : List Record} (h : Journal.Took l rs l')
    {bs : Bytes} (hrest : Settled l.writer l.disk bs) :
    Settled l'.writer l'.disk (bs ++ frames rs) ∧
      l'.writer.name = l.writer.name := by
  induction h generalizing bs with
  | refl j =>
      have hnone : bs ++ frames [] = bs := List.append_nil bs
      exact ⟨hnone.symm ▸ hrest, rfl⟩
  | refused some append rest ih =>
      obtain rfl := LogFile.firm_atRest _ _ _ _ ⟨bs, hrest⟩ append
      exact ih hrest
  | @taken l l₁ l' batch rs some append rest ih =>
      rcases LogFile.append_cases hrest batch with ⟨e, he⟩ | ⟨l₂, hok, hrest₁, hname, _⟩
      · rw [he] at append
        cases (Prod.mk.inj append).1
      · obtain rfl := (Prod.mk.inj (hok.symm.trans append)).2
        obtain ⟨hrest', hname'⟩ := ih hrest₁
        rw [List.append_assoc, ← Log.frames_append] at hrest'
        exact ⟨hrest', hname'.trans hname⟩

namespace Store

/-- **A store whose log replays to its tables**: the log under this name is at rest and holds
readable records that rebuild the tables. -/
structure Backed (s : Store LogFile) (name : String) : Prop where
  /-- The records of the log. -/
  log : ∃ rs, Settled s.journal.writer s.journal.disk (frames rs) ∧ (∀ r ∈ rs, Readable r) ∧
    Tables.ofRecords rs = s.tables
  /-- The name of the log. -/
  named : s.journal.writer.name = name

namespace Backed

variable {s : Store LogFile} {name : String}

/-- A store that was opened on a log of readable records is backed by it. -/
theorem of_opened {d : Disk} {rs : List Record} (h : Opened d name (frames rs) s)
    (hread : ∀ r ∈ rs, Readable r) : Backed s name := by
  have hrest := h.rest
  have htables := h.tables
  rw [Log.replay] at htables
  rw [Log.scan_frames hread] at hrest htables
  rw [List.take_length] at hrest
  exact ⟨⟨rs, hrest, hread, htables.symm⟩, h.named⟩

/-- **A store that is closed and opened again has the same tables.** -/
theorem reopen (h : Backed s name) :
    ∃ s', Store.ofLog s.close name = .ok s' ∧ s'.tables = s.tables ∧ s'.rival = none ∧
      Backed s' name := by
  obtain ⟨rs, hrest, hread, htables⟩ := h.log
  have hfile := hrest.file
  rw [h.named] at hfile
  obtain ⟨s', ho, hs'⟩ := ofLog_of_file? hfile
  have htables' := hs'.tables
  rw [Log.replay, Log.scan_frames hread] at htables'
  rw [close_eq hrest]
  exact ⟨s', ho, htables'.trans htables, hs'.alone, of_opened hs' hread⟩

/-- **A store that takes records stays backed by its log.** -/
theorem took (h : Backed s name) {s' : Store LogFile} {rs : List Record} (htook : s.Took rs s') :
    Backed s' name := by
  obtain ⟨rs₀, hrest, hread, htables⟩ := h.log
  obtain ⟨hrest', hname⟩ := LogFile.settled_of_took htook.journal hrest
  rw [← Log.frames_append] at hrest'
  refine ⟨⟨rs₀ ++ rs, hrest', ?_, ?_⟩, hname.trans h.named⟩
  · exact List.forall_mem_append.2 ⟨hread, htook.lawful.readable⟩
  · rw [htook.tables, ← htables, Tables.ofRecords, List.foldl_append, Tables.ofRecords]

/-- **A compaction keeps a store backed**, and its tables as they are. -/
theorem compact (h : Backed s name) (hs : Sound s.tables) :
    Backed s.compact.2 name ∧ s.compact.2.tables = s.tables ∧ s.compact.2.rival = s.rival := by
  obtain ⟨rs, hrest, hread, htables⟩ := h.log
  rcases compact_cases hrest with ⟨_, e, d', he, hother⟩ | ⟨_, w', d', he, hrest', hname, _⟩
  · rw [he]
    -- the log itself was not touched
    have hsame := hother _ (Ne.symm (Log.Writer.temporaryName_ne _))
    exact ⟨⟨⟨rs, hrest.of_entry?_eq hsame, hread, htables⟩, h.named⟩, rfl, rfl⟩
  · rw [he]
    exact ⟨⟨⟨s.tables.snapshotRecords, hrest', hs.readable_snapshotRecords,
      hs.ofRecords_snapshotRecords⟩, hname.trans h.named⟩, rfl, rfl⟩

end Backed

end Store

/-! ### Desks with a log -/

/-- **What happens between visits keeps a store backed, and its tables as they are.** -/
theorem Store.Backed.undergo_cases {name : String} {d : Desk LogFile} (h : d.store.Backed name)
    (hs : Sound d.store.tables) (halone : d.store.rival = none) (e : Event) :
    (∃ v, e = .visit v) ∨
      e.records = [] ∧ (d.undergo e).store.Backed name ∧
        (d.undergo e).store.tables = d.store.tables ∧ (d.undergo e).store.rival = none := by
  have hcompact : d.compact.2.store.Backed name ∧
      d.compact.2.store.tables = d.store.tables ∧ d.compact.2.store.rival = none := by
    obtain ⟨hb, ht, hr⟩ := h.compact hs
    rw [← Desk.store_compact] at hb ht hr
    exact ⟨hb, ht, hr.trans halone⟩
  cases e with
  | visit v => exact Or.inl ⟨v, rfl⟩
  | compact => exact Or.inr ⟨rfl, hcompact⟩
  | compactIfDue threshold =>
      refine Or.inr ⟨rfl, ?_⟩
      exact Desk.compactIfDue_induction
        (fun d' => d'.store.Backed name ∧ d'.store.tables = d.store.tables ∧
          d'.store.rival = none) ⟨h, rfl, halone⟩ hcompact threshold
  | setWritable writable =>
      obtain ⟨rs, hrest, hread, htables⟩ := h.log
      exact Or.inr ⟨rfl, ⟨⟨rs, { hrest with file := hrest.file }, hread, htables⟩, h.named⟩, rfl,
        halone⟩
  | restart =>
      obtain ⟨s, ho, ht, hr, hb⟩ := h.reopen
      rw [Desk.undergo, h.named, ho]
      exact Or.inr ⟨rfl, hb, ht, hr⟩

/-- **Whether what an event brings is new**, if `past` is what was brought so far. -/
def Event.New (past : List Record) : Event → Prop
  | .visit v => v.New past
  | _ => True

/-- Whether what events bring is new, each behind those before it. -/
def Event.NewInTurn (past : List Record) : List Event → Prop
  | [] => True
  | e :: es => e.New past ∧ NewInTurn (past ++ e.records) es

/-- If nothing is brought twice, what an event brings is new. -/
theorem Novel.event {past : List Record} {e : Event} (h : Novel (past ++ e.records)) :
    e.New past := by
  cases e with
  | visit v => exact Novel.visit h
  | _ => trivial

/-- If nothing is brought twice, what events bring is new. -/
theorem Novel.events {past : List Record} {es : List Event}
    (h : Novel (past ++ es.flatMap (·.records))) : Event.NewInTurn past es := by
  induction es generalizing past with
  | nil => trivial
  | cons e es ih =>
      rw [List.flatMap_cons, ← List.append_assoc] at h
      exact ⟨h.left.event, ih h⟩

/-- As long as clients come one at a time, it takes no more than that no identifier of an allocation
comes twice. -/
theorem Event.newInTurn_of_alone {past : List Record} {es : List Event}
    (halone : ∀ cs, .visit (.together cs) ∉ es)
    (h : ((past ++ es.flatMap (·.records)).filterMap (·.grant?)).Nodup) :
    Event.NewInTurn past es := by
  induction es generalizing past with
  | nil => trivial
  | cons e es ih =>
      rw [List.flatMap_cons, ← List.append_assoc] at h
      refine ⟨?_, ih (fun cs hmem => halone cs (List.mem_cons_of_mem _ hmem)) h⟩
      rw [List.filterMap_append] at h
      have hfirst := (List.nodup_append.1 h).1
      cases e with
      | visit v =>
          cases v with
          | ask q => exact .ask hfirst
          | together cs => exact absurd List.mem_cons_self (halone cs)
      | _ => trivial

namespace Desk

/-- **What holds between two events**, if `past` is what was brought so far. -/
structure Kept (name : String) (past : List Record) (d : Desk LogFile) : Prop
    extends Orderly past d where
  /-- The log replays to the tables. -/
  backed : d.store.Backed name

namespace Kept

variable {name : String} {past : List Record} {d : Desk LogFile}

/-- A desk over a store with the same tables that is backed by its log. -/
theorem of_tables_eq (h : Kept name past d) {d' : Desk LogFile} (hb : d'.store.Backed name)
    (ht : d'.store.tables = d.store.tables) (hr : d'.store.rival = none) : Kept name past d' :=
  ⟨h.toOrderly.of_tables_eq ht hr, hb⟩

/-- A desk over a log that was not there yet. -/
theorem of_opened {disk : Disk} {s : Store LogFile} (h : Store.Opened disk name [] s) (m : Meter) :
    Kept name [] ⟨s, m⟩ := by
  have hempty : Store.Opened disk name (frames []) s := h
  exact ⟨.of_empty h.tables h.alone, .of_opened hempty fun _ hr => nomatch hr⟩

/-- **What lies between two events.** -/
theorem undergo_new (h : Kept name past d) {e : Event} (hnew : e.New past) :
    Kept name (past ++ e.records) (d.undergo e) ∧ Later d e.records (d.undergo e) := by
  rcases h.backed.undergo_cases h.sound h.alone e with ⟨v, rfl⟩ | ⟨hquiet, hb, ht, hr⟩
  · obtain ⟨rs, hleaves⟩ := h.leaves hnew
    exact ⟨⟨h.toOrderly.took hleaves.took hleaves.brought, h.backed.took hleaves.took⟩, rs,
      hleaves.took.since, hleaves.brought⟩
  · rw [hquiet, List.append_nil]
    exact ⟨h.of_tables_eq hb ht hr, .of_tables_eq ht _⟩

/-- **What lies between two moments at a desk with a log.** -/
theorem undergoAll_new (h : Kept name past d) {es : List Event}
    (hnew : Event.NewInTurn past es) :
    Kept name (past ++ es.flatMap (·.records)) (d.undergoAll es) ∧
      Later d (es.flatMap (·.records)) (d.undergoAll es) := by
  induction es generalizing past d with
  | nil =>
      have hnone : past ++ [] = past := List.append_nil past
      exact ⟨hnone.symm ▸ h, .of_tables_eq rfl _⟩
  | cons e es ih =>
      obtain ⟨hnext, hlater⟩ := h.undergo_new hnew.1
      obtain ⟨hlast, hlater'⟩ := ih hnext hnew.2
      rw [List.flatMap_cons, ← List.append_assoc]
      exact ⟨hlast, hlater.trans hlater'⟩

/-- What lies between two events if nothing is brought twice. -/
theorem undergo (h : Kept name past d) {e : Event} (hnovel : Novel (past ++ e.records)) :
    Kept name (past ++ e.records) (d.undergo e) ∧ Later d e.records (d.undergo e) :=
  h.undergo_new hnovel.event

/-- What lies between two moments if nothing is brought twice. -/
theorem undergoAll (h : Kept name past d) {es : List Event}
    (hnovel : Novel (past ++ es.flatMap (·.records))) :
    Kept name (past ++ es.flatMap (·.records)) (d.undergoAll es) ∧
      Later d (es.flatMap (·.records)) (d.undergoAll es) :=
  h.undergoAll_new hnovel.events

end Kept

end Desk

/-! ### Opening the log again -/

namespace Durability

/-- **At every moment of every run, opening the log again gives the live tables.**  A desk is
opened on a log that is not there yet.  Then clients come and make requests in any order, one at a
time or at the same time, the log is compacted, the store is closed and opened again, and bytes can
or cannot be written.  No two claims bring the same identifier for an allocation, and no claim that
is made at the same time as others brings a version that was brought before.  After that the store
can be closed and opened again, and its tables are those it had: the same quotas with the same
terms, units and versions, the same allocations in the same order, and the same answer for every
identifier. -/
theorem reopened_eq_live {d : Disk} {es : Entries} (hp : d.place = .directory es) {name : String}
    (habsent : d.entry? name = none) :
    ∃ s, Store.ofLog d name = .ok s ∧
      ∀ events : List Event, Event.NewInTurn [] events →
        ∃ s', Store.ofLog (Desk.undergoAll ⟨s, .zero⟩ events).store.close name = .ok s' ∧
          s'.tables = (Desk.undergoAll ⟨s, .zero⟩ events).store.tables := by
  obtain ⟨s, ho, hs⟩ := Store.ofLog_of_absent hp habsent
  refine ⟨s, ho, ?_⟩
  intro events hnew
  obtain ⟨hkept, _⟩ := (Desk.Kept.of_opened hs .zero).undergoAll_new hnew
  obtain ⟨s', ho', ht', _, _⟩ := hkept.backed.reopen
  exact ⟨s', ho', ht'⟩

/-- A quota of five units: two are claimed, a claim and a compaction fail for want of space, the log
is compacted, and one more unit is claimed. -/
def failedWrites : List Event :=
  [.visit (.ask (.create ⟨⟨4, 1⟩, "Süd", "tour", tourDay⟩ ⟨⟨1⟩, ⟨⟨1⟩⟩, 0⟩)),
   .visit (.ask (.allocate ⟨⟨1⟩, 2, some "BK-1"⟩ ⟨⟨2⟩, ⟨⟨2⟩⟩, 1⟩)),
   .setWritable false,
   .visit (.ask (.allocate ⟨⟨1⟩, 2, none⟩ ⟨⟨3⟩, ⟨⟨3⟩⟩, 2⟩)),
   .compact,
   .setWritable true,
   .compact,
   .visit (.ask (.allocate ⟨⟨1⟩, 1, none⟩ ⟨⟨4⟩, ⟨⟨4⟩⟩, 3⟩))]

/-- What was claimed while there was space is there after the store was opened again, and what
failed is not. -/
theorem reopened_eq_live_failed_writes :
    Disk.blank.place = .directory ∅ ∧ Disk.blank.entry? "a.wal" = none ∧
      Event.NewInTurn [] failedWrites ∧
      ∃ s s', Store.ofLog .blank "a.wal" = .ok s ∧
        Store.ofLog (Desk.undergoAll ⟨s, .zero⟩ failedWrites).store.close "a.wal" = .ok s' ∧
        s'.tables = (Desk.undergoAll ⟨s, .zero⟩ failedWrites).store.tables ∧
        (s'.tables.ledger.entries ⟨1⟩).map (·.id) = [⟨2⟩, ⟨4⟩] := by
  have habsent : Disk.blank.entry? "a.wal" = none := rfl
  have halone : ∀ cs, .visit (.together cs) ∉ failedWrites := by simp [failedWrites]
  have hnew : Event.NewInTurn [] failedWrites := Event.newInTurn_of_alone halone (by decide)
  obtain ⟨s, ho, hall⟩ := reopened_eq_live (d := .blank) rfl habsent
  obtain ⟨s', ho', ht⟩ := hall failedWrites hnew
  refine ⟨rfl, habsent, hnew, s, s', ho, ho', ht, ?_⟩
  rw [ht, ← Except.ok.inj (ofLog_emptyStore.symm.trans ho)]
  decide +kernel

end Durability

end Allotment
