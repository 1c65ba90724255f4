/-
**Which of the records that were acknowledged are read back.**

A writer takes a record of any size: it stores its length in four bytes and writes the payload
behind it.  A reader takes a length above its limit for damage and stops there.  So a record that is
too long is confirmed like any other, but neither it nor anything that was confirmed behind it is
ever read again; and that is all that can go wrong.  It holds even for payloads so long that their
length does not fit in four bytes, because what is read there in their place is too short to be
them.

Main definitions:

* `Allotment.Acknowledged.Call`, `Allotment.Acknowledged.run` — writing calls on a durable store,
  with the records of those that succeeded;
* `Allotment.Acknowledged.ReadBack` — which of some confirmed records a file gives back.

Main results:

* `Allotment.Log.readable_of_frame?` — a record that is read from its own frame is readable;
* `Allotment.Log.prefix_replay_frames_iff` — **written records are read back exactly if they are
  readable**;
* `Allotment.Acknowledged.readBack_of_exact` — the same for whatever a log has confirmed;
* `Allotment.Acknowledged.readBack_run` — **a confirmed record is read back if and only if it and
  all before it are readable**, in every run of a log and of a store.
-/

import Allotment.Proofs.Journal
import Allotment.Proofs.Log.Session
import Allotment.Proofs.Log.Size

set_option relaxedAutoImplicit false
set_option autoImplicit false

namespace Allotment

namespace Log

/-! ### Records read from their own frames -/

/-- Written again, a record takes at most a few bytes more than what it was read from. -/
theorem length_payload_le_of_record? {p : Bytes} {r : Record} (h : record? p = some r) :
    (payload r).length ≤ p.length + 120 := by
  have htexts := length_texts_of_record? h
  cases r with
  | created quota terms version =>
      have hd := terms.travelDate.utf8ByteSize_toText_le
      rw [textsSize] at htexts
      rw [length_payload_created, length_writeTerms]
      omega
  | revised quota terms version =>
      have hd := terms.travelDate.utf8ByteSize_toText_le
      rw [textsSize] at htexts
      rw [length_payload_revised, length_writeTerms]
      omega
  | allocated a version =>
      have := length_payload_of_record? h version
      omega

/-- A record that is read from its own frame is readable. -/
theorem readable_of_frame? {r : Record} {rest rest' : Bytes} {size : Nat}
    (h : frame? (frame r ++ rest) = some (r, size, rest')) : Readable r := by
  obtain ⟨_, p, _, _, _, hle, hp, _⟩ := frame?_inv h
  have hlen := length_payload_le_of_record? hp
  have hsize : (payload r).length < UInt32.size := by
    rw [payloadLimit] at hle
    exact Nat.lt_of_le_of_lt hlen (Nat.lt_of_le_of_lt (Nat.add_le_add_right hle 120) (by decide))
  by_cases hr : Readable r
  · exact hr
  · rw [frame?_append_of_not_readable hr hsize] at h
    cases h

/-- **Written records are read back exactly if they are readable**, whatever stands behind them. -/
theorem prefix_replay_frames_iff (rs : List Record) (tail : Bytes) :
    rs <+: replay (frames rs ++ tail) ↔ ∀ r ∈ rs, Readable r := by
  constructor
  · intro h
    induction rs with
    | nil => exact fun r hr => nomatch hr
    | cons r rs ih =>
        rw [frames_cons, List.append_assoc, replay, scan_eq] at h
        split at h
        · cases List.prefix_nil.1 h
        next r' size rest hf =>
          obtain ⟨rfl, hrest⟩ := List.cons_prefix_cons.1 h
          have hr := readable_of_frame? hf
          -- a readable record takes its own frame and leaves the rest to the others
          rw [frame?_append hr] at hf
          simp only [Option.some.injEq, Prod.mk.injEq, true_and] at hf
          rw [← hf.2] at hrest
          exact List.forall_mem_cons.2 ⟨hr, ih hrest⟩
  · intro h
    rw [replay, scan_frames_append h]
    exact List.prefix_append _ _

/-- A record that is not readable hides whatever stands behind it, as long as its length can be
stored. -/
theorem replay_of_not_readable {r : Record} (h : ¬ Readable r)
    (hlen : (payload r).length < UInt32.size) (rest : Bytes) : replay (frame r ++ rest) = [] := by
  rw [replay, scan_eq, frame?_append_of_not_readable h hlen]

/-- A log that is read as a whole is read likewise in front of other bytes. -/
theorem replay_append_of_whole {bs : Bytes} (h : (scan bs).good = bs.length) (rest : Bytes) :
    replay (bs ++ rest) = replay bs ++ replay rest := by
  unfold replay
  induction hn : bs.length using Nat.strongRecOn generalizing bs with
  | _ n ih =>
      cases hf : frame? bs with
      | none =>
          have hz : scan bs = ⟨[], 0⟩ := by rw [scan_eq, hf]
          rw [hz] at h ⊢
          rw [List.length_eq_zero_iff.1 h.symm]
          rfl
      | some f =>
          obtain ⟨r, size, rest'⟩ := f
          have hlen := length_of_frame? hf
          obtain ⟨front, _, hbs, hl, _, _, _, hany⟩ := frame?_inv hf
          have hs : scan bs = ⟨r :: (scan rest').records, size + (scan rest').good⟩ := by
            rw [scan_eq, hf]
          rw [hs] at h ⊢
          have hgood : (scan rest').good = rest'.length := by
            simp only at h
            omega
          have hrest := ih rest'.length (by omega) hgood rfl
          rw [hbs, List.append_assoc, scan_eq, hany]
          simp only [hrest, List.cons_append]

end Log

open Log (Bytes Readable frames replay scan Session)
open Log.Writer (Settled)

namespace Acknowledged

/-! ### Writing calls on a store -/

/-- What can be asked of a durable store that makes it write. -/
inductive Call where
  /-- A quota is entered. -/
  | insert (id : Ulid) (terms : Terms) (version : Version)
  /-- A conditional write is made. -/
  | commit (w : Write) (version : Version)
  /-- From now on bytes can be written, or cannot. -/
  | setWritable (writable : Bool)

/-- What is acknowledged when a change with this record ends with this result. -/
def noted (r : Record) : Except Failure Quota × Store LogFile → List Record × Store LogFile
  | (.ok _, s) => ([r], s)
  | (.error _, s) => ([], s)

/-- A call, with the record that it acknowledges if it succeeds. -/
def perform (s : Store LogFile) : Call → List Record × Store LogFile
  | .insert id terms version => noted (.created id terms version) (s.insert id terms version)
  | .commit w version => noted (w.record version) (s.commit w version)
  | .setWritable writable => ([], { s with journal.disk.writable := writable })

/-- Calls one after the other, with the records that they acknowledge. -/
def run (s : Store LogFile) : List Call → List Record × Store LogFile
  | [] => ([], s)
  | call :: calls =>
    let (done, s) := perform s call
    let (rest, s) := run s calls
    (done ++ rest, s)

/-- A call on a store whose log is at rest adds to the log what it acknowledges, and nothing
else. -/
theorem perform_settled {s : Store LogFile} {bs : Bytes}
    (h : Settled s.journal.writer s.journal.disk bs) (call : Call) :
    Settled (perform s call).2.journal.writer (perform s call).2.journal.disk
      (bs ++ frames (perform s call).1) := by
  have hnone : bs ++ frames [] = bs := List.append_nil bs
  cases call with
  | setWritable writable =>
      simp only [perform, hnone]
      exact { h with file := h.file }
  | insert id terms version =>
      rcases s.insert_cases id terms version with ⟨e, _, he⟩ | ⟨e, j, _, ha, he⟩ | ⟨j, _, ha, he⟩
      · simp only [perform, he, noted, hnone]
        exact h
      · simp only [perform, he, noted, hnone, LogFile.firm_atRest _ _ _ _ ⟨bs, h⟩ ha]
        exact h
      · simp only [perform, he, noted]
        exact LogFile.settled_of_append h ha
  | commit w version =>
      rcases s.commit_cases w version with ⟨e, _, he⟩ | ⟨q, e, j, _, ha, he⟩ | ⟨q, j, _, ha, he⟩
      · simp only [perform, he, noted, hnone]
        exact h
      · simp only [perform, he, noted, hnone, LogFile.firm_atRest _ _ _ _ ⟨bs, h⟩ ha]
        exact h
      · simp only [perform, he, noted]
        exact LogFile.settled_of_append h ha

/-- **A log is extended by what is acknowledged.** -/
theorem run_settled {s : Store LogFile} {bs : Bytes}
    (h : Settled s.journal.writer s.journal.disk bs) (calls : List Call) :
    Settled (run s calls).2.journal.writer (run s calls).2.journal.disk
      (bs ++ frames (run s calls).1) := by
  induction calls generalizing s bs with
  | nil =>
      rw [run, show bs ++ frames [] = bs from List.append_nil bs]
      exact h
  | cons call calls ih =>
      have hrest := ih (perform_settled h call)
      rw [List.append_assoc, ← Log.frames_append] at hrest
      exact hrest

/-! ### What is read back -/

/-- **Which of the records confirmed behind `base` a file gives back.**  If all records before one
are readable, the file gives it back exactly if it is readable itself, and it gives back it and all
records confirmed after it exactly if all of these are readable. -/
structure ReadBack (base : Bytes) (confirmed : List Record) (file : Bytes) : Prop where
  /-- The record itself. -/
  one : ∀ before r after, confirmed = before ++ r :: after → (∀ b ∈ before, Readable b) →
    (replay base ++ before ++ [r] <+: replay file ↔ Readable r)
  /-- The record with all that were confirmed after it. -/
  all : ∀ before r after, confirmed = before ++ r :: after → (∀ b ∈ before, Readable b) →
    (replay base ++ confirmed <+: replay file ↔ ∀ x ∈ r :: after, Readable x)

theorem readBack_of_append {base : Bytes} (hwhole : (scan base).good = base.length)
    (confirmed : List Record) (new : Bytes) :
    ReadBack base confirmed (base ++ frames confirmed ++ new) := by
  have hfile : replay (base ++ frames confirmed ++ new) =
      replay base ++ replay (frames confirmed ++ new) := by
    rw [List.append_assoc, Log.replay_append_of_whole hwhole]
  constructor
  · intro before r after hsplit hbefore
    -- what was confirmed behind the record is only more bytes behind it
    have hbytes : frames confirmed ++ new =
        frames (before ++ [r]) ++ (frames after ++ new) := by
      rw [hsplit, ← List.append_assoc, ← Log.frames_append, List.append_assoc before,
        List.singleton_append]
    rw [hfile, hbytes, List.append_assoc, List.prefix_append_right_inj,
      Log.prefix_replay_frames_iff, List.forall_mem_append]
    exact ⟨fun h => h.2 r (List.mem_singleton.2 rfl),
      fun hr => ⟨hbefore, fun x hx => List.mem_singleton.1 hx ▸ hr⟩⟩
  · intro before r after hsplit hbefore
    rw [hfile, List.prefix_append_right_inj, Log.prefix_replay_frames_iff, hsplit,
      List.forall_mem_append]
    exact ⟨fun h => h.2, fun h => ⟨hbefore, h⟩⟩

/-- Whatever a log has confirmed is read back as far as it is readable. -/
theorem readBack_of_exact {s : Session} (h : s.Exact) :
    ∃ f, s.disk.file? s.writer.name = some f ∧ ReadBack s.base s.confirmed f.bytes := by
  obtain ⟨new, hfile, _⟩ := h.file
  exact ⟨_, hfile, readBack_of_append h.whole s.confirmed new⟩

/-- **A confirmed record is read back if and only if it and all before it are readable.**  The first
part is about the writer of a log that is read as a whole at the beginning: records are appended,
confirmed and rolled back in any order while bytes can or cannot be written.  The second part is
about a store with such a log, for the records of all its writing calls that succeeded. -/
theorem readBack_run {base : Bytes} (hwhole : (scan base).good = base.length) :
    (∀ {w : Log.Writer} {d : Disk}, Settled w d base → ∀ calls : List Session.Call,
      let s := (Session.start w d base).run calls
      ∃ f, s.disk.file? s.writer.name = some f ∧ ReadBack s.base s.confirmed f.bytes) ∧
    ∀ {s : Store LogFile}, Settled s.journal.writer s.journal.disk base → ∀ calls : List Call,
      let s' := (run s calls).2
      ∃ f, s'.journal.disk.file? s'.journal.writer.name = some f ∧
        ReadBack base (run s calls).1 f.bytes := by
  refine ⟨?_, ?_⟩
  · intro w d h calls
    exact readBack_of_exact ((Session.Exact.start h hwhole).run calls)
  · intro s h calls
    have hread := readBack_of_append hwhole (run s calls).1 []
    rw [List.append_nil] at hread
    exact ⟨_, (run_settled h calls).file, hread⟩

/-- An empty log that nobody else touches. -/
def emptyLog : LogFile := ⟨(Disk.blank.makeFile "a.wal").2, .ofHandle ⟨"a.wal", 0⟩ 0⟩

theorem settled_emptyLog : Settled emptyLog.writer emptyLog.disk [] :=
  Settled.ofHandle (h := ⟨"a.wal", 0⟩) (Disk.file?_makeFile (d := .blank) rfl "a.wal")

/-- Five units of a product. -/
def fiveUnits : Terms := ⟨⟨5, 0⟩, "Süd", "tour", ⟨2026, 6, 12, by decide⟩⟩

/-- A quota and a change of its terms. -/
def twoRecords : List Record := [.created ⟨1⟩ fiveUnits ⟨⟨1⟩⟩, .revised ⟨1⟩ fiveUnits ⟨⟨3⟩⟩]

/-- Two records that are confirmed and one between them that is rolled back. -/
def rolledBack : List Session.Call :=
  [.append (.created ⟨1⟩ fiveUnits ⟨⟨1⟩⟩), .flush,
    .append (.created ⟨2⟩ fiveUnits ⟨⟨2⟩⟩), .rollback,
    .append (.revised ⟨1⟩ fiveUnits ⟨⟨3⟩⟩), .flush]

/-- Two calls that succeed and one between them that fails. -/
def oneFails : List Call :=
  [.insert ⟨1⟩ fiveUnits ⟨⟨1⟩⟩, .setWritable false, .insert ⟨2⟩ fiveUnits ⟨⟨2⟩⟩, .setWritable true,
    .commit ⟨⟨1⟩, ⟨⟨1⟩⟩, .revise fiveUnits⟩ ⟨⟨3⟩⟩]

/-- What was confirmed by a log and by a store is read back. -/
theorem readBack_run_rolled_back :
    Settled emptyLog.writer emptyLog.disk [] ∧ (scan []).good = ([] : Bytes).length ∧
      (∀ r ∈ twoRecords, Readable r) ∧
      (∃ f, ((Session.start emptyLog.writer emptyLog.disk []).run rolledBack).disk.file? "a.wal" =
        some f ∧ twoRecords <+: replay f.bytes) ∧
      ∃ f, (run (.ofTables .empty emptyLog) oneFails).2.journal.disk.file? "a.wal" = some f ∧
        twoRecords <+: replay f.bytes := by
  have hreadable : ∀ r ∈ twoRecords, Readable r := by decide +kernel
  have hwhole : (scan []).good = ([] : Bytes).length := rfl
  obtain ⟨f, hf, hread⟩ := (readBack_run hwhole).1 settled_emptyLog rolledBack
  obtain ⟨f', hf', hread'⟩ :=
    (readBack_run hwhole).2 (s := .ofTables .empty emptyLog) settled_emptyLog oneFails
  have hconfirmed : ((Session.start emptyLog.writer emptyLog.disk []).run rolledBack).confirmed =
    twoRecords := by decide +kernel
  have hbase : ((Session.start emptyLog.writer emptyLog.disk []).run rolledBack).base = [] := by
    decide +kernel
  have hname : ((Session.start emptyLog.writer emptyLog.disk []).run rolledBack).writer.name =
    "a.wal" := by decide +kernel
  have hdone : (run (.ofTables .empty emptyLog) oneFails).1 = twoRecords := by decide +kernel
  have hname' : (run (.ofTables .empty emptyLog) oneFails).2.journal.writer.name = "a.wal" := by
    decide +kernel
  rw [hname] at hf
  rw [hconfirmed, hbase] at hread
  rw [hname'] at hf'
  rw [hdone] at hread'
  exact ⟨settled_emptyLog, hwhole, hreadable,
    ⟨f, hf, (hread.all [] _ _ rfl (fun b hb => nomatch hb)).2 hreadable⟩,
    f', hf', (hread'.all [] _ _ rfl (fun b hb => nomatch hb)).2 hreadable⟩

/-! ### A record that is too long -/

/-- A record that is not readable is confirmed all the same, and what is confirmed after it is not
read back either. -/
theorem replay_run_of_not_readable {w : Log.Writer} {d : Disk} {base : Bytes}
    (hrest : Settled w d base) (hwhole : (scan base).good = base.length) (hw : d.writable = true)
    {r : Record} (h : ¬ Readable r) (hlen : (Log.payload r).length < UInt32.size)
    (rs : List Record) :
    ∃ s : Session, s = (Session.start w d base).run ((r :: rs).map .append ++ [.flush]) ∧
      s.confirmed = r :: rs ∧
      ∃ f, s.disk.file? s.writer.name = some f ∧ replay f.bytes = replay base := by
  obtain ⟨hconfirmed, hbase⟩ :=
    Session.run_of_writable (s := Session.start w d base) hw hrest.usable (r :: rs)
  obtain ⟨new, hfile, _⟩ := ((Session.Exact.start hrest hwhole).run
    ((r :: rs).map .append ++ [.flush])).file
  rw [Session.settledBytes, hconfirmed, hbase] at hfile
  refine ⟨_, rfl, hconfirmed, _, hfile, ?_⟩
  change replay (base ++ frames (r :: rs) ++ new) = replay base
  rw [List.append_assoc, Log.replay_append_of_whole hwhole, Log.frames_cons, List.append_assoc,
    Log.replay_of_not_readable h hlen, List.append_nil]

/-- A quota whose creation is not readable is entered in a store all the same, and nothing that the
store acknowledges after it is read back either. -/
theorem replay_insert_of_not_readable {s : Store LogFile} {base : Bytes}
    (hrest : Settled s.journal.writer s.journal.disk base)
    (hwhole : (scan base).good = base.length) (hw : s.journal.disk.writable = true) {id : Ulid}
    (hc : s.checkInsert id = .ok ()) {terms : Terms} {version : Version}
    (h : ¬ Readable (.created id terms version))
    (hlen : (Log.payload (.created id terms version)).length < UInt32.size) (calls : List Call) :
    ∃ done s', run s (.insert id terms version :: calls) = (.created id terms version :: done, s') ∧
      ∃ f, s'.journal.disk.file? s'.journal.writer.name = some f ∧
        replay f.bytes = replay base := by
  have hdone : (perform s (.insert id terms version)).1 = [.created id terms version] := by
    obtain ⟨j, htaken, _⟩ := LogFile.append_of_writable hrest hw [.created id terms version]
    rcases s.insert_cases id terms version with ⟨e, hc', _⟩ | ⟨e, j', _, ha, _⟩ | ⟨j', _, _, he⟩
    · cases hc.symm.trans hc'
    · cases (Prod.mk.inj (ha.symm.trans htaken)).1
    · rw [perform, he, noted]
  have hfile := (run_settled hrest (.insert id terms version :: calls)).file
  refine ⟨(run (perform s (.insert id terms version)).2 calls).1,
    (run s (.insert id terms version :: calls)).2, ?_, _, hfile, ?_⟩
  · rw [run]
    simp only [hdone, List.singleton_append]
  · rw [run]
    simp only [hdone, List.singleton_append]
    rw [Log.replay_append_of_whole hwhole, Log.frames_cons, Log.replay_of_not_readable h hlen,
      List.append_nil]

/-- Terms with a name so long that their creation is one byte above the limit. -/
def longTerms : Terms :=
  ⟨⟨5, 0⟩, String.ofList (List.replicate 1048463 'x'), "", ⟨2026, 6, 12, by decide⟩⟩

theorem length_payload_longTerms (quota : Ulid) (version : Version) :
    (Log.payload (.created quota longTerms version)).length = 1048577 := by
  have hname : longTerms.name.utf8ByteSize = 1048463 := Text.utf8ByteSize_replicate _ rfl
  have hproduct : longTerms.productType.utf8ByteSize = 0 := rfl
  have hdate : longTerms.travelDate.toText.utf8ByteSize = 10 := by decide +kernel
  rw [Log.length_payload_created, Log.length_writeTerms, hname, hdate, hproduct]

/-- **A record one byte above the limit is confirmed and never read again, and neither is the one
confirmed after it**, by a writer and by a store. -/
theorem not_readBack_longTerms :
    (∃ s : Session, s = (Session.start emptyLog.writer emptyLog.disk []).run
        [.append (.created ⟨1⟩ longTerms ⟨⟨1⟩⟩), .append (.created ⟨2⟩ fiveUnits ⟨⟨2⟩⟩), .flush] ∧
      s.confirmed = [.created ⟨1⟩ longTerms ⟨⟨1⟩⟩, .created ⟨2⟩ fiveUnits ⟨⟨2⟩⟩] ∧
      ∃ f, s.disk.file? s.writer.name = some f ∧ replay f.bytes = []) ∧
    ∃ done s, run (.ofTables .empty emptyLog)
        [.insert ⟨1⟩ longTerms ⟨⟨1⟩⟩, .insert ⟨2⟩ fiveUnits ⟨⟨2⟩⟩] =
        (.created ⟨1⟩ longTerms ⟨⟨1⟩⟩ :: done, s) ∧
      ∃ f, s.journal.disk.file? s.journal.writer.name = some f ∧ replay f.bytes = [] := by
  have hlen := length_payload_longTerms ⟨1⟩ ⟨⟨1⟩⟩
  have hlong : ¬ Readable (.created ⟨1⟩ longTerms ⟨⟨1⟩⟩) := by
    unfold Readable Log.payloadLimit
    omega
  have hsize : (Log.payload (.created ⟨1⟩ longTerms ⟨⟨1⟩⟩)).length < UInt32.size := by
    rw [hlen]
    decide
  exact ⟨replay_run_of_not_readable settled_emptyLog rfl rfl hlong hsize
      [.created ⟨2⟩ fiveUnits ⟨⟨2⟩⟩],
    replay_insert_of_not_readable (s := .ofTables .empty emptyLog) settled_emptyLog rfl rfl rfl
      hlong hsize [.insert ⟨2⟩ fiveUnits ⟨⟨2⟩⟩]⟩

end Acknowledged

end Allotment
