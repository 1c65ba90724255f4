/-
**What a compaction saves.**

A log grows by a frame for every record, and a compacted log holds one record for every quota and
one for every allocation.  A creation and a grant stay needed as long as there is a log, and take as
many bytes in a snapshot as they took when they were written: identifiers and versions have written
forms of one length.  A revision takes as many bytes as a creation with the same terms, and makes
the record needless that set the terms before.  So what a compaction saves are the records of terms
that were replaced since the last one, and it saves nothing if there are none.

This is an account of bytes.  Every record that may be committed adds as many bytes to the snapshot
as to the log, less those of the terms that it replaces; and whatever else happens to a desk touches
neither, or makes the two the same.

Main definitions:

* `Allotment.Log.termsBytes`, `Allotment.Log.grantBytes` — how long records are;
* `Allotment.Tables.quotaBytes`, `Allotment.Tables.replaced` — the bytes for the terms of a quota,
  and those that a record makes needless;
* `Allotment.Tables.Itemized` — records of which each quota and each allocation has one;
* `Allotment.Desk.Weighed` — a log that is longer than its snapshot on one condition only;
* `Allotment.Desk.RenewedSince` — whether terms were replaced since the last compaction.

Main results:

* `Allotment.Tables.length_frames_snapshotRecords` — what the bytes of a snapshot are for;
* `Allotment.Tables.Legal.length_snapshot`, `Allotment.Tables.Lawful.length_snapshot` — **the
  account of one record**, and of several;
* `Allotment.Tables.itemized_snapshotRecords` — a snapshot itemizes the tables;
* `Allotment.Desk.Weighed.undergo`, `Allotment.Desk.Weighed.undergoAll` — **what one event does to
  the account**, and a run;
* `Allotment.Desk.compaction_shrinks` — **a compaction never makes a log longer, and makes it
  shorter exactly if terms were replaced since the last one**.
-/

import Mathlib.Data.List.Induction
import Allotment.Proofs.Canonical
import Allotment.Proofs.Histories
import Allotment.Proofs.Tables.Granted

set_option relaxedAutoImplicit false
set_option autoImplicit false

namespace Allotment

open Log (Bytes frame frames scan writeTerms writeAllocation)
open Log.Writer (Settled)

/-! ### How long records are -/

namespace Log

/-- The bytes of a record that sets terms. -/
def termsBytes (terms : Terms) : Nat := (writeTerms terms).length + 80

/-- The bytes of a record that grants an allocation. -/
def grantBytes (a : Allocation) : Nat := (writeAllocation a).length + 46

theorem length_frame_created (quota : Ulid) (terms : Terms) (version : Version) :
    (frame (.created quota terms version)).length = termsBytes terms := by
  rw [length_frame, length_payload_created, termsBytes]

/-- A revision takes as many bytes as a creation with the same terms. -/
theorem length_frame_revised (quota : Ulid) (terms : Terms) (version : Version) :
    (frame (.revised quota terms version)).length = termsBytes terms := by
  rw [length_frame, length_payload_revised, termsBytes]

theorem length_frame_allocated (a : Allocation) (version : Version) :
    (frame (.allocated a version)).length = grantBytes a := by
  rw [length_frame, length_payload_allocated, grantBytes]

end Log

open Log (termsBytes grantBytes)

/-- Whether a record replaces terms. -/
def Record.isRevision : Record → Bool
  | .revised _ _ _ => true
  | _ => false

namespace Tables

variable {t : Tables}

/-! ### How long a snapshot is -/

/-- The bytes that a snapshot has for the terms of a quota. -/
def quotaBytes (t : Tables) (id : Ulid) : Nat := (t.standings[id]?.map (termsBytes ·.terms)).getD 0

theorem quotaBytes_eq {id : Ulid} {s : Standing} (hs : t.standings[id]? = some s) :
    t.quotaBytes id = termsBytes s.terms := by
  rw [quotaBytes, hs]
  rfl

theorem quotaBytes_congr {u : Tables} {id : Ulid} (h : u.standings[id]? = t.standings[id]?) :
    u.quotaBytes id = t.quotaBytes id := by
  rw [quotaBytes, quotaBytes, h]

theorem length_frames_grants (as : List Allocation) (version : Version) :
    (frames (as.map (.allocated · version))).length = (as.map grantBytes).sum := by
  induction as with
  | nil => rfl
  | cons a as ih =>
      rw [List.map_cons, Log.frames_cons, List.length_append, ih, Log.length_frame_allocated,
        List.map_cons, List.sum_cons]

theorem length_frames_quotaRecords {id : Ulid} {s : Standing} (hs : t.standings[id]? = some s) :
    (frames (t.quotaRecords id s)).length =
      t.quotaBytes id + ((t.ledger.entries id).map grantBytes).sum := by
  rw [quotaRecords, Log.frames_cons, List.length_append, length_frames_grants,
    Log.length_frame_created, quotaBytes_eq hs]

theorem length_frames_recordsOf {ids : List Ulid} (h : ∀ id ∈ ids, id ∈ t.standings) :
    (frames (t.recordsOf ids)).length =
      (ids.map t.quotaBytes).sum + ((ids.flatMap t.ledger.entries).map grantBytes).sum := by
  induction ids with
  | nil => rfl
  | cons id ids ih =>
      obtain ⟨hid, hrest⟩ := List.forall_mem_cons.1 h
      obtain ⟨s, hs⟩ := mem_standings_iff.1 hid
      rw [recordsOf_cons hs, Log.frames_append, List.length_append, ih hrest,
        length_frames_quotaRecords hs, List.map_cons, List.sum_cons, List.flatMap_cons,
        List.map_append, List.sum_append]
      omega

/-- **A snapshot has the bytes of all terms and of all allocations.** -/
theorem length_frames_snapshotRecords (t : Tables) :
    (frames t.snapshotRecords).length =
      (t.ids.map t.quotaBytes).sum + (t.granted.map grantBytes).sum := by
  rw [← recordsOf_ids]
  exact length_frames_recordsOf fun id hid => mem_ids.1 hid

/-! ### The account of one record -/

/-- The bytes that a record makes needless: those of the terms that it replaces. -/
def replaced (t : Tables) : Record → Nat
  | .revised id _ _ => t.quotaBytes id
  | _ => 0

/-- A sum over identifiers, for one of which there is another number. -/
theorem sum_map_change {ids : List Ulid} (hnodup : ids.Nodup) {id : Ulid} (hid : id ∈ ids)
    {f g : Ulid → Nat} (hother : ∀ x, x ≠ id → f x = g x) :
    (ids.map f).sum + g id = (ids.map g).sum + f id := by
  have hsplit := List.perm_cons_erase hid
  have hnot : id ∉ ids.erase id := (List.nodup_cons.1 (hsplit.nodup_iff.1 hnodup)).1
  have hrest : (ids.erase id).map f = (ids.erase id).map g :=
    List.map_congr_left fun x hx => hother x fun heq => hnot (heq ▸ hx)
  have hf := (hsplit.map f).sum_nat
  have hg := (hsplit.map g).sum_nat
  rw [List.map_cons, List.sum_cons] at hf hg
  rw [hrest] at hf
  omega

/-- The bytes of all terms after a record. -/
theorem Legal.sum_quotaBytes {r : Record} (hr : t.Legal r) :
    ((t.replayRecord r).ids.map (t.replayRecord r).quotaBytes).sum + t.replaced r +
        (r.allocation?.map grantBytes).getD 0 =
      (t.ids.map t.quotaBytes).sum + (frame r).length := by
  cases r with
  | created id terms version =>
      change ((t.install id terms version).ids.map (t.install id terms version).quotaBytes).sum =
        (t.ids.map t.quotaBytes).sum + (frame (.created id terms version)).length
      have hstands : (t.install id terms version).standings[id]? = some (.opening terms version) :=
        (standings_install t id terms version id).trans (if_pos rfl)
      have hold : t.ids.map (t.install id terms version).quotaBytes = t.ids.map t.quotaBytes := by
        refine List.map_congr_left fun x hx => quotaBytes_congr ?_
        rw [standings_install, if_neg]
        rintro rfl
        exact hr.1 (mem_ids.1 hx)
      rw [((ids_install_perm hr.1 terms version).map _).sum_nat, List.map_cons, List.sum_cons,
        quotaBytes_eq hstands, hold, Log.length_frame_created, Nat.add_comm]
      rfl
  | revised id terms version =>
      obtain ⟨s, hs, _⟩ := hr
      have hid : id ∈ t.ids := mem_ids.2 (mem_standings_iff.2 ⟨s, hs⟩)
      rw [replayRecord_revised hs, ((ids_commit_perm hs s _).map _).sum_nat]
      have hstands : (t.commit id s (.revised id terms version)).standings[id]? =
          some (s.after (.revised id terms version)) :=
        (standings_commit t id s _ id).trans (if_pos rfl)
      have hsum := sum_map_change (nodup_ids t) hid
        (f := (t.commit id s (.revised id terms version)).quotaBytes) (g := t.quotaBytes)
        fun x hx => quotaBytes_congr ((standings_commit t id s _ x).trans (if_neg (Ne.symm hx)))
      rw [quotaBytes_eq hstands] at hsum
      rw [Log.length_frame_revised]
      exact hsum
  | allocated a version =>
      obtain ⟨s, hs, _⟩ := hr
      rw [replayRecord_allocated hs, ((ids_commit_perm hs s _).map _).sum_nat]
      have hstands : (t.commit a.quota s (.allocated a version)).standings[a.quota]? =
          some (s.after (.allocated a version)) :=
        (standings_commit t a.quota s _ a.quota).trans (if_pos rfl)
      have hsame : (t.commit a.quota s (.allocated a version)).quotaBytes = t.quotaBytes := by
        funext x
        by_cases hx : a.quota = x
        · subst hx
          rw [quotaBytes_eq hs, quotaBytes_eq hstands]
          rfl
        · exact quotaBytes_congr ((standings_commit t a.quota s _ x).trans (if_neg hx))
      rw [hsame, Log.length_frame_allocated]
      rfl

/-- **The account of one record**: it adds as many bytes to the snapshot as to the log, less those
of the terms that it replaces. -/
theorem Legal.length_snapshot (hg : Grown t) {r : Record} (hr : t.Legal r) :
    (frames (t.replayRecord r).snapshotRecords).length + t.replaced r =
      (frames t.snapshotRecords).length + (frame r).length := by
  have hterms := hr.sum_quotaBytes
  have hgrants := ((hr.granted_perm hg).map grantBytes).sum_nat
  have hgrant : (r.allocation?.toList.map grantBytes).sum =
      (r.allocation?.map grantBytes).getD 0 := by
    cases r.allocation? with
    | none => rfl
    | some a => simp
  rw [List.map_append, List.sum_append, hgrant] at hgrants
  rw [length_frames_snapshotRecords, length_frames_snapshotRecords]
  omega

/-- Terms that are replaced have bytes. -/
theorem Legal.replaced_pos_iff {r : Record} (hr : t.Legal r) :
    0 < t.replaced r ↔ r.isRevision = true := by
  cases r with
  | created id terms version => simp [replaced, Record.isRevision]
  | allocated a version => simp [replaced, Record.isRevision]
  | revised id terms version =>
      obtain ⟨s, hs, _⟩ := hr
      have hpos : 0 < termsBytes s.terms := Nat.lt_of_lt_of_le (by decide) (Nat.le_add_left 80 _)
      simp only [replaced, quotaBytes_eq hs, hpos, Record.isRevision]

/-- **The account of several records**: they never add more bytes to the snapshot than to the log,
and fewer if one of them replaces terms. -/
theorem Lawful.length_snapshot (hg : Grown t) {rs : List Record} (hrs : t.Lawful rs) :
    (frames (rs.foldl replayRecord t).snapshotRecords).length ≤
        (frames t.snapshotRecords).length + (frames rs).length ∧
      ((frames (rs.foldl replayRecord t).snapshotRecords).length <
          (frames t.snapshotRecords).length + (frames rs).length ↔
        ∃ r ∈ rs, r.isRevision = true) := by
  induction rs generalizing t with
  | nil => simp [frames]
  | cons r rs ih =>
      have hfirst := hrs.1.length_snapshot hg
      have hpos := hrs.1.replaced_pos_iff
      obtain ⟨hle, hlt⟩ := ih (hg.replayRecord r) hrs.2
      rw [List.foldl_cons, Log.frames_cons, List.length_append]
      refine ⟨by omega, ?_⟩
      rw [List.exists_mem_cons_iff, ← hpos, ← hlt]
      omega

/-! ### What a snapshot holds -/

/-- **Records of which each quota and each allocation has one.** -/
structure Itemized (t : Tables) (rs : List Record) : Prop where
  /-- About each quota there is its creation, with its present terms, and then its allocations. -/
  quota : ∀ (id : Ulid) (s : Standing), t.standings[id]? = some s →
    history rs id =
      .created id s.terms s.version :: (t.ledger.entries id).map (.allocated · s.version)
  /-- There are no other records. -/
  length : rs.length = t.count + t.granted.length

theorem mem_recordsOf {ids : List Ulid} {r : Record} :
    r ∈ t.recordsOf ids ↔
      ∃ id ∈ ids, ∃ s, t.standings[id]? = some s ∧ r ∈ t.quotaRecords id s := by
  rw [recordsOf, List.mem_flatMap]
  refine exists_congr fun id => and_congr_right fun _ => ?_
  cases t.standings[id]? with
  | none => simp
  | some s => simp

/-- Of the records of quotas, those of one quota are about it. -/
theorem history_recordsOf (hfiled : Filed t) (ids : List Ulid) (quota : Ulid) :
    history (t.recordsOf ids) quota = t.recordsOf (ids.filter (· = quota)) := by
  have hown : ∀ {ids : List Ulid} {r : Record}, r ∈ t.recordsOf ids → r.quota ∈ ids := by
    intro ids r hr
    obtain ⟨id, hid, s, hs, hr⟩ := mem_recordsOf.1 hr
    rcases List.mem_cons.1 hr with rfl | hr
    · exact hid
    · obtain ⟨a, ha, rfl⟩ := List.mem_map.1 hr
      change a.quota ∈ ids
      rw [hfiled id a ha]
      exact hid
  induction ids with
  | nil => rfl
  | cons id ids ih =>
      have hsplit : ∀ is, t.recordsOf (id :: is) = t.recordsOf [id] ++ t.recordsOf is := by
        intro is
        rw [← List.singleton_append]
        exact List.flatMap_append
      rw [hsplit ids, history_append, ih, List.filter_cons]
      by_cases heq : id = quota
      · rw [if_pos (decide_eq_true heq), hsplit (ids.filter _)]
        refine congrArg (· ++ _) (List.filter_eq_self.2 ?_)
        intro r hr
        exact decide_eq_true ((List.mem_singleton.1 (hown hr)).trans heq)
      · rw [if_neg (by simpa using heq), history_eq_nil, List.nil_append]
        intro r hr hquota
        exact heq ((List.mem_singleton.1 (hown hr)).symm.trans hquota)

theorem length_recordsOf {ids : List Ulid} (h : ∀ id ∈ ids, id ∈ t.standings) :
    (t.recordsOf ids).length = ids.length + (ids.flatMap t.ledger.entries).length := by
  induction ids with
  | nil => rfl
  | cons id ids ih =>
      obtain ⟨hid, hrest⟩ := List.forall_mem_cons.1 h
      obtain ⟨s, hs⟩ := mem_standings_iff.1 hid
      rw [recordsOf_cons hs, List.length_append, ih hrest, quotaRecords, List.length_cons,
        List.length_map, List.length_cons, List.flatMap_cons, List.length_append]
      omega

/-- **A snapshot itemizes the tables.** -/
theorem itemized_snapshotRecords (hfiled : Filed t) : Itemized t t.snapshotRecords where
  quota id s hs := by
    have hid : id ∈ t.ids := mem_ids.2 (mem_standings_iff.2 ⟨s, hs⟩)
    rw [← recordsOf_ids, history_recordsOf hfiled, List.filter_eq, (nodup_ids t).count, if_pos hid,
      List.replicate_one, recordsOf_cons hs]
    exact List.append_nil _
  length := by
    rw [← recordsOf_ids, length_recordsOf fun id hid => mem_ids.1 hid, count, granted, ids,
      Std.ExtTreeMap.length_keys]

end Tables

/-! ### The account of a run -/

namespace Desk

/-- **A log that is longer than its snapshot on one condition only**, and never shorter. -/
def Weighed (name : String) (renewed : Prop) (d : Desk LogFile) : Prop :=
  ∃ bs, d.log? name = some bs ∧ (frames d.store.tables.snapshotRecords).length ≤ bs.length ∧
    ((frames d.store.tables.snapshotRecords).length < bs.length ↔ renewed)

namespace Weighed

variable {name : String} {renewed : Prop} {past : List Record} {d d' : Desk LogFile}

/-- A desk with the same log and the same tables. -/
theorem of_same (h : Weighed name renewed d) (hlog : d'.log? name = d.log? name)
    (ht : d'.store.tables = d.store.tables) : Weighed name renewed d' := by
  obtain ⟨bs, hbs, hle, hlt⟩ := h
  rw [← ht] at hle hlt
  exact ⟨bs, hlog.trans hbs, hle, hlt⟩

/-- The same condition in other words. -/
theorem congr (h : Weighed name renewed d) {renewed' : Prop} (hiff : renewed ↔ renewed') :
    Weighed name renewed' d := by
  obtain ⟨bs, hbs, hle, hlt⟩ := h
  exact ⟨bs, hbs, hle, hlt.trans hiff⟩

/-- A store that has taken records. -/
theorem took (h : Weighed name renewed d) (hk : Kept name past d) {rs : List Record}
    (htook : d.store.Took rs d'.store) :
    Weighed name (renewed ∨ ∃ r ∈ rs, r.isRevision = true) d' := by
  obtain ⟨bs, hbs, hle, hlt⟩ := h
  obtain ⟨rs₀, hrest, _, _⟩ := hk.backed.log
  obtain ⟨hrest', hname⟩ := LogFile.settled_of_took htook.journal hrest
  obtain rfl := Option.some.inj ((log?_of_settled hrest hk.backed.named).symm.trans hbs)
  obtain ⟨hle', hlt'⟩ := htook.lawful.length_snapshot hk.sound.toGrown
  rw [← htook.tables] at hle' hlt'
  refine ⟨_, log?_of_settled hrest' (hname.trans hk.backed.named), ?_, ?_⟩
  · rw [List.length_append]
    omega
  · rw [List.length_append, ← hlt, ← hlt']
    omega

/-- A compaction that completes makes the log its snapshot. -/
theorem of_compacted (hk : Kept name past d) {e : Event} (hc : d.compacted e = 1) :
    Weighed name False (d.undergo e) := by
  have hrewritten := hk.rewritten hc
  refine ⟨_, hrewritten.log, ?_, ?_⟩
  · rw [hrewritten.tables]
  · rw [hrewritten.tables]
    exact iff_of_false (Nat.lt_irrefl _) id

/-- Only a request to replace terms brings a revision. -/
theorem revised_cases (d : Desk LogFile) (v : Visit) :
    (∃ r stamp, v = .ask (.revise r stamp)) ∨
      (d.revised v = [] ∧ ∀ r ∈ v.records, r.isRevision = false) := by
  cases v with
  | together cs =>
      refine Or.inr ⟨rfl, fun r hr => ?_⟩
      obtain ⟨p, _, rfl⟩ := List.mem_map.1 hr
      rfl
  | ask q =>
      cases q with
      | revise r stamp => exact Or.inl ⟨r, stamp, rfl⟩
      | _ => exact Or.inr ⟨rfl, by simp [Visit.records, Request.records, Record.isRevision]⟩

/-- **What a visit does to the account**: the log gets longer than its snapshot if terms are
replaced. -/
theorem receive (h : Weighed name renewed d) (hk : Kept name past d) {v : Visit}
    (hnovel : Novel (past ++ v.records)) :
    Weighed name (renewed ∨ ∃ q, .ok q ∈ d.revised v) (d.receive v) := by
  obtain ⟨rs, hleaves⟩ := hk.leaves hnovel.visit
  have htook := h.took hk hleaves.took
  rcases revised_cases d v with ⟨r, stamp, rfl⟩ | ⟨hnone, hrecords⟩
  · have hresult : d.revised (.ask (.revise r stamp)) = [(d.revise r stamp).1] := rfl
    rw [hresult]
    cases hr : (d.revise r stamp).1 with
    | ok q =>
        -- the record of what was replaced has been taken
        obtain ⟨x, hx, _⟩ := hleaves.changed r.quota ⟨rfl, q, hr⟩
        have hrevision : x.isRevision = true := by
          rw [List.mem_singleton.1 (hleaves.brought x hx)]
          rfl
        exact htook.congr (or_congr_right
          (iff_of_true ⟨x, hx, hrevision⟩ ⟨q, List.mem_singleton_self _⟩))
    | error e =>
        obtain ⟨_, hrest, _⟩ := hk.backed.log
        have hstore := revise_eq_of_error LogFile.firm_atRest ⟨⟨_, hrest⟩, hk.alone⟩ hr
        have hsame : Weighed name renewed (d.receive (.ask (.revise r stamp))) :=
          h.of_same (congrArg (fun s => (s.journal.disk.file? name).map (·.bytes)) hstore)
            (congrArg (·.tables) hstore)
        refine hsame.congr (or_iff_left ?_).symm
        rintro ⟨q, hq⟩
        cases List.mem_singleton.1 hq
  · rw [hnone]
    refine htook.congr (or_congr_right (iff_of_false ?_ ?_))
    · rintro ⟨r, hr, hrevision⟩
      rw [hrecords r (hleaves.brought r hr)] at hrevision
      cases hrevision
    · rintro ⟨q, hq⟩
      cases hq

/-- A compaction makes the log its snapshot if it completes, and leaves it as it is otherwise. -/
theorem compact (h : Weighed name renewed d) (hk : Kept name past d) :
    Weighed name (renewed ∧ d.compacted .compact = 0) d.compact.2 := by
  rcases compacted_cases d .compact with hc | hc
  · obtain ⟨_, hrest, _⟩ := hk.backed.log
    rcases Store.compact_cases hrest with ⟨_, e, d', he, hother⟩ | ⟨hcan, _⟩
    · rw [hk.backed.named] at hother
      have hstore := store_compact d
      rw [he] at hstore
      -- the log itself was not touched
      have hentry : d.compact.2.store.journal.disk.entry? name =
          d.store.journal.disk.entry? name := by
        rw [hstore]
        exact hother _ (Ne.symm (Log.Writer.temporaryName_ne name))
      have htables : d.compact.2.store.tables = d.store.tables := by rw [hstore]
      exact (h.of_same (log?_of_entry?_eq hentry) htables).congr (by simp [hc])
    · rw [hk.backed.named] at hcan
      rw [hk.compacted_of_writable hcan] at hc
      cases hc
  · exact (of_compacted hk hc).congr (by simp [hc])

/-- **What an event does to the account.** -/
theorem undergo (h : Weighed name renewed d) (hk : Kept name past d) {e : Event}
    (hnovel : Novel (past ++ e.records)) :
    Weighed name ((renewed ∧ d.compacted e = 0) ∨ ∃ v q, e = .visit v ∧ .ok q ∈ d.revised v)
      (d.undergo e) := by
  cases e with
  | visit v =>
      have hcompacted : d.compacted (.visit v) = 0 := rfl
      exact (h.receive hk hnovel).congr (by simp [hcompacted])
  | compact => exact (h.compact hk).congr (by simp)
  | compactIfDue threshold =>
      rcases compactIfDue_outcome d threshold with ⟨hd, hc⟩ | ⟨hd, hc⟩
      · rw [hd, hc]
        exact h.congr (by simp)
      · rw [hd, hc]
        exact (h.compact hk).congr (by simp)
  | setWritable writable =>
      have hcompacted : d.compacted (.setWritable writable) = 0 := rfl
      have hsame : Weighed name renewed (d.undergo (.setWritable writable)) := h.of_same rfl rfl
      exact hsame.congr (by simp [hcompacted])
  | restart =>
      have hcompacted : d.compacted .restart = 0 := rfl
      have hreopened := hk.reopened
      exact (h.of_same hreopened.log hreopened.tables).congr (by simp [hcompacted])

end Weighed

/-! ### Every run -/

/-- **Whether terms were replaced since the last compaction**, or since the start if there was none:
some visit of the run replaced terms, and no compaction completed behind it. -/
def RenewedSince (start : Desk LogFile) (es : List Event) : Prop :=
  ∃ front v back, es = front ++ .visit v :: back ∧
    (∃ q, .ok q ∈ (start.undergoAll front).revised v) ∧
    (start.undergoAll (front ++ [.visit v])).compactedAll back = 0

theorem undergoAll_append (d : Desk LogFile) (es es' : List Event) :
    d.undergoAll (es ++ es') = (d.undergoAll es).undergoAll es' :=
  List.foldl_append

theorem compactedAll_append (d : Desk LogFile) (es es' : List Event) :
    d.compactedAll (es ++ es') = d.compactedAll es + (d.undergoAll es).compactedAll es' := by
  induction es generalizing d with
  | nil => exact (Nat.zero_add _).symm
  | cons e es ih =>
      rw [List.cons_append, compactedAll, ih, compactedAll, Nat.add_assoc]
      rfl

/-- One more event replaces terms, or leaves those that were replaced unless it is a compaction. -/
theorem renewedSince_concat (start : Desk LogFile) (es : List Event) (e : Event) :
    RenewedSince start (es ++ [e]) ↔
      (RenewedSince start es ∧ (start.undergoAll es).compacted e = 0) ∨
        ∃ v q, e = .visit v ∧ .ok q ∈ (start.undergoAll es).revised v := by
  have hlast : ∀ front v back, (start.undergoAll (front ++ [.visit v])).compactedAll (back ++ [e]) =
      (start.undergoAll (front ++ [.visit v])).compactedAll back +
        (start.undergoAll (front ++ .visit v :: back)).compacted e := by
    intro front v back
    rw [compactedAll_append, ← undergoAll_append, List.append_assoc]
    rfl
  constructor
  · rintro ⟨front, v, back, hes, hrevised, hcompacted⟩
    rcases List.eq_nil_or_concat' back with rfl | ⟨back, e', rfl⟩
    · obtain ⟨rfl, heq⟩ := List.append_inj' hes rfl
      obtain ⟨q, hq⟩ := hrevised
      exact Or.inr ⟨v, q, List.singleton_inj.1 heq, hq⟩
    · rw [← List.cons_append, ← List.append_assoc] at hes
      obtain ⟨rfl, heq⟩ := List.append_inj' hes rfl
      obtain rfl := List.singleton_inj.1 heq
      rw [hlast] at hcompacted
      obtain ⟨hbefore, hnow⟩ := Nat.add_eq_zero_iff.1 hcompacted
      exact Or.inl ⟨⟨front, v, back, rfl, hrevised, hbefore⟩, hnow⟩
  · rintro (⟨⟨front, v, back, rfl, hrevised, hbefore⟩, hnow⟩ | ⟨v, q, rfl, hq⟩)
    · refine ⟨front, v, back ++ [e], by simp, hrevised, ?_⟩
      rw [hlast, hbefore, hnow]
    · exact ⟨es, v, [], rfl, ⟨q, hq⟩, rfl⟩

/-- A log that was just made is as long as its snapshot: both are empty. -/
theorem Weighed.of_opened {disk : Disk} {name : String} {s : Store LogFile}
    (h : Store.Opened disk name [] s) (m : Meter) : Weighed name False ⟨s, m⟩ := by
  have hrest : Settled s.journal.writer s.journal.disk [] := h.rest
  have htables : s.tables = .empty := h.tables
  have hsnapshot : Tables.empty.snapshotRecords = [] := by
    simp [Tables.snapshotRecords, Tables.empty]
  refine ⟨[], log?_of_settled hrest h.named, ?_⟩
  rw [htables, hsnapshot]
  exact ⟨Nat.le_refl 0, iff_of_false (Nat.lt_irrefl 0) id⟩

/-- **The account of a run.** -/
theorem Weighed.undergoAll {name : String} {d : Desk LogFile} (h : Weighed name False d)
    (hk : Kept name [] d) {es : List Event} (hnovel : Novel (es.flatMap (·.records))) :
    Weighed name (RenewedSince d es) (d.undergoAll es) := by
  induction es using List.reverseRecOn with
  | nil =>
      refine h.congr (iff_of_false id ?_)
      rintro ⟨front, v, back, hes, _⟩
      simp at hes
  | append_singleton es e ih =>
      rw [List.flatMap_append, List.flatMap_singleton] at hnovel
      have hfirst : Novel ([] ++ es.flatMap (·.records)) := hnovel.left
      have hkept := (hk.undergoAll hfirst).1
      rw [undergoAll_append]
      exact ((ih hnovel.left).undergo hkept hnovel).congr (renewedSince_concat d es e).symm

/-- **A compaction never makes a log longer**, and makes it shorter exactly if terms were replaced
since the last one.  A desk is opened on a log that is not there yet; bytes can or cannot be
written, the log is compacted, and the store is closed and opened again.  What a compaction leaves
itemizes the tables: about each quota and each allocation there is one record. -/
theorem compaction_shrinks {disk : Disk} {dir : Entries} (hp : disk.place = .directory dir)
    {name : String} (habsent : disk.entry? name = none) :
    ∃ s, Store.ofLog disk name = .ok s ∧
      ∀ (m : Meter) (es : List Event), Novel (es.flatMap (·.records)) →
        let d := Desk.undergoAll ⟨s, m⟩ es
        ∀ e, d.compacted e = 1 →
          ∃ old new rs, d.log? name = some old ∧ (d.undergo e).log? name = some new ∧
            new.length ≤ old.length ∧ (new.length < old.length ↔ RenewedSince ⟨s, m⟩ es) ∧
            scan new = ⟨rs, new.length⟩ ∧ Tables.Itemized (d.undergo e).store.tables rs := by
  obtain ⟨s, ho, hs⟩ := Store.ofLog_of_absent hp habsent
  refine ⟨s, ho, ?_⟩
  intro m es hnovel d e hc
  have hkept₀ : Kept name [] ⟨s, m⟩ := .of_opened hs m
  have hfirst : Novel ([] ++ es.flatMap (·.records)) := hnovel
  have hkept := (hkept₀.undergoAll hfirst).1
  obtain ⟨old, hold, hle, hlt⟩ := (Weighed.of_opened hs m).undergoAll hkept₀ hnovel
  have hrewritten := hkept.rewritten hc
  refine ⟨old, _, _, hold, hrewritten.log, hle, hlt,
    Log.scan_frames hkept.sound.readable_snapshotRecords, ?_⟩
  rw [hrewritten.tables]
  exact Tables.itemized_snapshotRecords hkept.sound.filed

/-- A quota is created, the store is opened again, the terms are replaced, and a claim is
granted. -/
def oneRevision : List Event :=
  [.visit (.ask (.create ⟨⟨4, 1⟩, "Nord", "tour", tourDay⟩ ⟨⟨1⟩, ⟨⟨1⟩⟩, 0⟩)), .restart,
    .visit (.ask (.revise ⟨⟨1⟩, ⟨⟨5, 1⟩, "Nordwand", "tour", tourDay⟩, ⟨⟨1⟩⟩⟩ ⟨⟨2⟩, ⟨⟨2⟩⟩, 1⟩)),
    .visit (.ask (.allocate ⟨⟨1⟩, 2, some "BK-1"⟩ ⟨⟨3⟩, ⟨⟨3⟩⟩, 2⟩))]

/-- The log is compacted, another claim is granted, and terms fail to be replaced for want of
space. -/
def noRevision : List Event :=
  [.compact, .visit (.ask (.allocate ⟨⟨1⟩, 1, none⟩ ⟨⟨4⟩, ⟨⟨4⟩⟩, 3⟩)), .setWritable false,
    .visit (.ask (.revise ⟨⟨1⟩, ⟨⟨9, 1⟩, "Ost", "tour", tourDay⟩, ⟨⟨4⟩⟩⟩ ⟨⟨5⟩, ⟨⟨5⟩⟩, 4⟩)),
    .setWritable true]

set_option maxRecDepth 100000 in
/-- The first compaction saves the 130 bytes of the terms that were replaced, the second nothing. -/
theorem compaction_shrinks_one_revision :
    Disk.blank.place = .directory ∅ ∧ Disk.blank.entry? "a.wal" = none ∧
      Novel ((oneRevision ++ noRevision).flatMap Event.records) ∧
      ∃ s, Store.ofLog .blank "a.wal" = .ok s ∧
        let start : Desk LogFile := ⟨s, .zero⟩
        let d := start.undergoAll oneRevision
        let d' := start.undergoAll (oneRevision ++ noRevision)
        d.compacted .compact = 1 ∧ d'.compacted .compact = 1 ∧
          (d.log? "a.wal").map (·.length) = some 403 ∧
          ((d.undergo .compact).log? "a.wal").map (·.length) = some 273 ∧
          (d'.log? "a.wal").map (·.length) = some 400 ∧
          ((d'.undergo .compact).log? "a.wal").map (·.length) = some 400 ∧
          RenewedSince start oneRevision ∧ ¬ RenewedSince start (oneRevision ++ noRevision) := by
  have hnovel : Novel ((oneRevision ++ noRevision).flatMap Event.records) := ⟨by decide, by decide⟩
  have hfirst : Novel (oneRevision.flatMap Event.records) := by
    rw [List.flatMap_append] at hnovel
    exact hnovel.left
  have habsent : Disk.blank.entry? "a.wal" = none := rfl
  obtain ⟨s, ho, hall⟩ := compaction_shrinks (rfl : Disk.blank.place = _) habsent
  obtain rfl := Except.ok.inj (ofLog_emptyStore.symm.trans ho)
  have hrun :
      let start : Desk LogFile := ⟨emptyStore, .zero⟩
      let d := start.undergoAll oneRevision
      let d' := start.undergoAll (oneRevision ++ noRevision)
      d.compacted .compact = 1 ∧ d'.compacted .compact = 1 ∧
        (d.log? "a.wal").map (·.length) = some 403 ∧
        ((d.undergo .compact).log? "a.wal").map (·.length) = some 273 ∧
        (d'.log? "a.wal").map (·.length) = some 400 ∧
        ((d'.undergo .compact).log? "a.wal").map (·.length) = some 400 := by
    decide +kernel
  obtain ⟨hc, hc', hold, hnew, hold', hnew'⟩ := hrun
  obtain ⟨old, new, _, hlog, hafter, _, hiff, _⟩ := hall .zero oneRevision hfirst .compact hc
  obtain ⟨old', new', _, hlog', hafter', _, hiff', _⟩ :=
    hall .zero (oneRevision ++ noRevision) hnovel .compact hc'
  have hlength : ∀ {o : Option Bytes} {bs : Bytes} {n : Nat}, o = some bs →
      o.map (·.length) = some n → bs.length = n := by
    rintro _ bs n rfl h
    exact Option.some.inj h
  rw [hlength hlog hold, hlength hafter hnew] at hiff
  rw [hlength hlog' hold', hlength hafter' hnew'] at hiff'
  have hrenewed := hiff.1 (by decide)
  have hnot := fun h => Nat.lt_irrefl 400 (hiff'.2 h)
  exact ⟨rfl, habsent, hnovel, _, ho, hc, hc', hold, hnew, hold', hnew', hrenewed, hnot⟩

end Desk

end Allotment
