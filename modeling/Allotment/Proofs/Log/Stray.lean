/-
**What a failed append leaves behind if it is not rolled back.**

A record is handed to the buffer in three pieces, and writing can fail between them.  Then the
pieces in front stay where they are, and it is for a rollback to drop them.  Here no rollback is
made: records go on being appended and confirmed.  As long as none is taken behind such pieces, no
harm is done: all confirmed records are read back.  But the next record that is taken stands behind
them, where a reader does not find it.

Whether a failed append leaves anything depends on its first piece, the length: it is taken if there
is room for it in the buffer, or if room can be made.

Main definitions:

* `Allotment.Log.Writer.TakesLength` — whether the length of a record is taken;
* `Allotment.Log.Trial` — a log that is written without rollbacks;
* `Allotment.Log.Trial.Intact` — every record that was confirmed is read back, and no byte of a
  record that failed stands in front of one that was taken;
* `Allotment.Log.Trial.Harmless` — no record is taken after a failed append has left something.

Main results:

* `Allotment.Log.Writer.appendWithin_of_error` — what a failed append leaves;
* `Allotment.Log.Trial.Held.perform` — what a call preserves;
* `Allotment.Log.Trial.intact_iff_harmless` — **the log is intact if and only if the run is
  harmless**.
-/

import Allotment.Proofs.Log.Allowance
import Allotment.Proofs.Log.Course
import Allotment.Proofs.Log.Size

set_option relaxedAutoImplicit false
set_option autoImplicit false

namespace Allotment.Log

/-! ### A failed append -/

namespace Writer

/-- Whether the length of a record is taken: there is room for it in the buffer, or the buffer can
be written out. -/
def TakesLength (w : Writer) (a : Allowance) : Prop :=
  w.sink.buffer.length + 4 ≤ Sink.capacity ∨ a.Covers w.sink.buffer.length

instance (w : Writer) (a : Allowance) : Decidable (w.TakesLength a) :=
  inferInstanceAs (Decidable (_ ∨ _))

/-- When the length of a record is taken. -/
theorem putWithin_length_ok_iff (w : Writer) (d : Disk) (a : Allowance) (n : Nat) :
    (w.sink.putWithin d a (toBytes 4 n)).1 = .ok () ↔ w.TakesLength a := by
  have hcap : Sink.capacity = 8192 := rfl
  have hroom : (w.sink.makeRoomWithin d a 4).1 = .ok () ↔ w.TakesLength a := by
    unfold Sink.makeRoomWithin TakesLength
    split
    · next hfull =>
      have hno : ¬ w.sink.buffer.length + 4 ≤ Sink.capacity := by omega
      have hflush := Disk.writeWithin_ok_iff d a w.sink.handle w.sink.buffer 0
      rw [Nat.add_zero] at hflush
      rw [← hflush]
      simp [hno, Sink.flushWithin, Allowance.covers_zero]
    · next hfull => exact iff_of_true rfl (Or.inl (by omega))
  rw [← hroom]
  unfold Sink.putWithin
  rw [length_toBytes]
  rcases w.sink.makeRoomWithin d a 4 with ⟨_ | _, s₁, d₁, a₁⟩
  · simp
  · simp [hcap]

/-- **A failed append leaves a front of the frame**, and it leaves nothing exactly if it did not
take the length. -/
theorem appendWithin_of_error {w : Writer} {d : Disk} {bs : Bytes}
    (h : d.file? w.name = some ⟨w.sink.handle.serial, bs⟩) (hu : w.unusable = false)
    {a : Allowance} {r : Record} {e : Fault} (he : (w.appendWithin d a r).1 = .error e) :
    ∃ new data,
      Sink.Wrote w.sink (w.appendWithin d a r).2.1.sink d (w.appendWithin d a r).2.2.1 bs new data ∧
      data <+: frame r ∧ (data = [] ↔ ¬ w.TakesLength a) := by
  have hcap : Sink.capacity = 8192 := rfl
  have hsmall : (toBytes 4 (payload r).length).length < Sink.capacity := by
    rw [length_toBytes, hcap]
    omega
  obtain ⟨new, data, hw, hfront, hone, hnone⟩ :=
    Sink.putWithin_wrote h a (toBytes 4 (payload r).length)
  have hlength := putWithin_length_ok_iff w d a (payload r).length
  unfold appendWithin at he ⊢
  rw [if_neg (by simp [hu])] at he ⊢
  rw [← flatten_chunks r]
  unfold chunks Sink.putAllWithin at he ⊢
  rcases hp : w.sink.putWithin d a (toBytes 4 (payload r).length) with ⟨result, s₁, d₁, a₁⟩
  rw [hp] at hw hone hnone hlength
  cases result with
  | error e' =>
      -- the length was not taken, and nothing behind it was tried
      have hrefused : ¬ w.TakesLength a := fun htakes => by cases hlength.2 htakes
      have hdata : data = [] := hnone (fun hok => by cases hok) hsmall
      exact ⟨new, data, hw, hdata ▸ List.nil_prefix, iff_of_true hdata hrefused⟩
  | ok u =>
      -- the length was taken, so whatever happened next, something is left
      simp only [hp] at he ⊢
      obtain rfl : data = toBytes 4 (payload r).length := hone rfl
      obtain ⟨new', data', hw', hfront', _⟩ := Sink.putAllWithin_wrote (hw.file h) a₁
        [payload r, toBytes 4 (checksum (payload r)).toNat]
      have htaken : w.TakesLength a := hlength.1 rfl
      have hsome : toBytes 4 (payload r).length ++ data' ≠ [] := by
        intro hnil
        have hlen := congrArg List.length hnil
        rw [List.length_append, length_toBytes, List.length_nil] at hlen
        omega
      have hfront'' := (List.prefix_append_right_inj (toBytes 4 (payload r).length)).2 hfront'
      rw [← List.flatten_cons] at hfront''
      rcases hq : s₁.putAllWithin d₁ a₁ [payload r, toBytes 4 (checksum (payload r)).toNat] with
        ⟨result', s₂, d₂, a₂⟩
      rw [hq] at hw' he
      cases result' with
      | ok u' => cases he
      | error e' =>
          exact ⟨_, _, hw.trans hw', hfront'',
            iff_of_false hsome (fun hrefused => hrefused htaken)⟩

/-- If nothing can be written, a record that does not fit in the buffer leaves its length there. -/
theorem appendWithin_of_large {w : Writer} (hu : w.unusable = false) (hb : w.sink.buffer = [])
    {r : Record} (hlarge : (payload r).length > Sink.capacity - 4) (d : Disk) (fault : Fault) :
    w.appendWithin d (.upTo 0 fault) r =
      (.error fault, { w with sink.buffer := toBytes 4 (payload r).length }, d,
        .upTo 0 fault) := by
  have hcap : Sink.capacity = 8192 := rfl
  have hfirst : w.sink.putWithin d (.upTo 0 fault) (toBytes 4 (payload r).length) =
      (.ok (), { w.sink with buffer := toBytes 4 (payload r).length }, d, .upTo 0 fault) := by
    rw [Sink.putWithin_of_room, hb, List.nil_append]
    · simp [hb, hcap]
    · simp [hcap]
  have hsecond : Sink.putWithin { w.sink with buffer := toBytes 4 (payload r).length } d
      (.upTo 0 fault) (payload r) =
      (.error fault, { w.sink with buffer := toBytes 4 (payload r).length }, d, .upTo 0 fault) := by
    apply Sink.putWithin_of_no_room
    · simpa using hlarge
    · simp [toBytes]
  simp only [appendWithin, hu, Bool.false_eq_true, if_false, chunks, Sink.putAllWithin, hfirst,
    hsecond]

end Writer

/-! ### A log without rollbacks -/

/-- A log that is written without rollbacks. -/
structure Trial where
  /-- The disk. -/
  disk : Disk
  /-- The writer of the log. -/
  writer : Writer
  /-- The records that were taken. -/
  accepted : List Record
  /-- Those of them that were taken before the last flush that succeeded. -/
  confirmed : List Record
  /-- Whether an append that failed has left anything behind. -/
  torn : Bool

namespace Trial

/-- What is asked of the log, and how far writing gets. -/
inductive Call where
  /-- A record is appended. -/
  | append (r : Record) (a : Allowance)
  /-- The records are confirmed. -/
  | flush (a : Allowance) (sync : Option Fault)

/-- Whether the record of a call, if it has one, is readable. -/
def Call.Readable : Call → Prop
  | .append r _ => Log.Readable r
  | .flush .. => True

/-- Appends a record. -/
def append (t : Trial) (r : Record) (a : Allowance) : Trial :=
  match t.writer.appendWithin t.disk a r with
  | (.ok (), writer, disk, _) => { t with writer, disk, accepted := t.accepted ++ [r] }
  | (.error _, writer, disk, _) =>
    { t with writer, disk, torn := t.torn || decide (t.writer.TakesLength a) }

/-- Confirms the records that were taken, if that is possible. -/
def flush (t : Trial) (a : Allowance) (sync : Option Fault) : Trial :=
  match t.writer.flushWithin t.disk a sync with
  | (.ok (), writer, disk) => { t with writer, disk, confirmed := t.accepted }
  | (.error _, writer, disk) => { t with writer, disk }

/-- The log after a call, whether or not the call succeeds. -/
def perform (t : Trial) : Call → Trial
  | .append r a => t.append r a
  | .flush a sync => t.flush a sync

/-- The log after calls. -/
def run (t : Trial) (calls : List Call) : Trial := calls.foldl perform t

theorem run_cons (t : Trial) (call : Call) (calls : List Call) :
    t.run (call :: calls) = (t.perform call).run calls := rfl

/-- A log on which nothing was done yet. -/
def start (w : Writer) (d : Disk) : Trial := ⟨d, w, [], [], false⟩

/-- Whether a call appends a record and succeeds. -/
def Accepts (t : Trial) : Call → Prop
  | .append r a => (t.writer.appendWithin t.disk a r).1 = .ok ()
  | .flush .. => False

/-- The bytes of the file. -/
def fileBytes (t : Trial) : Bytes := ((t.disk.file? t.writer.name).map (·.bytes)).getD []

/-- The records that were confirmed are read back, in their order, behind those that the log had. -/
def Returns (t : Trial) (base : Bytes) : Prop :=
  replay base ++ t.confirmed <+: replay t.fileBytes

/-- The file and the buffer hold the records that were taken and nothing else behind the bytes that
the log had. -/
def Seamless (t : Trial) (base : Bytes) : Prop :=
  t.fileBytes ++ t.writer.sink.buffer = base ++ frames t.accepted

/-- **No harm is done**: after every call the records confirmed by then are read back, and after
every record that was taken no byte of one that failed stands in front of it. -/
def Intact (base : Bytes) (t : Trial) : List Call → Prop
  | [] => True
  | call :: calls =>
    (t.perform call).Returns base ∧ (t.Accepts call → (t.perform call).Seamless base) ∧
      (t.perform call).Intact base calls

/-- No record is taken after an append that failed and has left something behind. -/
def Harmless (t : Trial) : List Call → Prop
  | [] => True
  | call :: calls => ¬ (t.torn = true ∧ t.Accepts call) ∧ (t.perform call).Harmless calls

theorem append_of_error {t : Trial} {r : Record} {a a' : Allowance} {e : Fault} {w : Writer}
    {d : Disk} (he : t.writer.appendWithin t.disk a r = (.error e, w, d, a')) :
    t.append r a =
      { t with writer := w, disk := d, torn := t.torn || decide (t.writer.TakesLength a) } := by
  unfold append
  rw [he]

/-! ### What is held -/

/-- What a log holds as long as no record was taken behind what failed appends have left. -/
structure Held (t : Trial) (base : Bytes) : Prop where
  /-- The bytes that were confirmed are in the file; behind the records that were taken only what
  failed appends have left stands in the file and the buffer. -/
  file : ∃ bs stray, t.disk.file? t.writer.name = some ⟨t.writer.sink.handle.serial, bs⟩ ∧
    bs ++ t.writer.sink.buffer = base ++ frames t.accepted ++ stray ∧
    (stray = [] ↔ t.torn = false) ∧ base ++ frames t.confirmed <+: bs
  /-- The log takes records. -/
  usable : t.writer.unusable = false
  /-- The records that were confirmed are readable. -/
  readable : ∀ r ∈ t.accepted, Log.Readable r
  /-- What was confirmed was taken before. -/
  confirmed : t.confirmed <+: t.accepted

namespace Held

variable {t : Trial} {base : Bytes}

theorem start {w : Writer} {d : Disk} (h : Writer.Settled w d base) : Held (start w d) base where
  file := ⟨base, [], h.file, by simp [Trial.start, h.buffer, frames], by simp [Trial.start],
    by simp [Trial.start, frames]⟩
  usable := h.usable
  readable _ hr := absurd hr List.not_mem_nil
  confirmed := List.prefix_rfl

/-- What was confirmed is read back. -/
theorem returns (h : Held t base) (hwhole : (scan base).good = base.length) : t.Returns base := by
  obtain ⟨bs, _, hfile, _, _, rest, rfl⟩ := h.file
  have hbase := stored_scan base
  rw [hwhole, List.take_length] at hbase
  have hread : ∀ r ∈ t.confirmed, Log.Readable r := fun r hr => h.readable r (h.confirmed.subset hr)
  have hscan := (hbase.append (stored_frames hread)).scan_append rest
  unfold Returns fileBytes
  rw [hfile]
  simp only [Option.map_some, Option.getD_some]
  rw [replay, replay, hscan]
  exact List.prefix_append _ _

/-- If nothing was left behind, there are no other bytes than those of the records that were taken.
-/
theorem seamless (h : Held t base) (hclean : t.torn = false) : t.Seamless base := by
  obtain ⟨bs, stray, hfile, htotal, hstray, _⟩ := h.file
  unfold Seamless fileBytes
  rw [hfile]
  simp only [Option.map_some, Option.getD_some]
  rw [htotal, hstray.2 hclean, List.append_nil]

theorem flush (h : Held t base) (a : Allowance) (sync : Option Fault) :
    Held (t.flush a sync) base := by
  obtain ⟨bs, stray, hfile, htotal, hstray, hfront⟩ := h.file
  obtain ⟨new, s', hw, hcases⟩ := Writer.flushWithin_wrote hfile a sync
  have hfile' := hw.file hfile
  have htotal' : bs ++ new ++ s'.buffer = base ++ frames t.accepted ++ stray := by
    rw [List.append_assoc, hw.data, List.append_nil, htotal]
  unfold Trial.flush
  rcases hp : t.writer.flushWithin t.disk a sync with ⟨result, w', d'⟩
  rw [hp] at hw hcases hfile'
  rcases hcases with ⟨e, rfl, rfl⟩ | ⟨rfl, hempty, rfl⟩
  · exact ⟨⟨bs ++ new, stray, hfile', htotal', hstray, hfront.trans (List.prefix_append _ _)⟩,
      h.usable, h.readable, h.confirmed⟩
  · have hall : base ++ frames t.accepted <+: bs ++ new := by
      rw [hempty, List.append_nil] at htotal'
      rw [htotal']
      exact List.prefix_append _ _
    exact ⟨⟨bs ++ new, stray, hfile', htotal', hstray, hall⟩, h.usable, h.readable,
      List.prefix_rfl⟩

/-- Where the bytes are once a record was taken: it stands behind what failed appends have left. -/
theorem taken (h : Held t base) {r : Record} {a : Allowance}
    (hok : (t.writer.appendWithin t.disk a r).1 = .ok ()) :
    ∃ w d bs stray,
      t.append r a = { t with writer := w, disk := d, accepted := t.accepted ++ [r] } ∧
      d.file? w.name = some ⟨w.sink.handle.serial, bs⟩ ∧
      bs ++ w.sink.buffer = base ++ frames t.accepted ++ (stray ++ frame r) ∧
      (stray = [] ↔ t.torn = false) ∧ base ++ frames t.confirmed <+: bs ∧ w.unusable = false := by
  obtain ⟨bs, stray, hfile, htotal, hstray, hfront⟩ := h.file
  obtain ⟨new, data, k, ha, hone⟩ := Writer.appendWithin_ahead hfile h.usable a r
  have hfile' := ha.sink.file hfile
  unfold Trial.append
  rcases hp : t.writer.appendWithin t.disk a r with ⟨result, w', d', a'⟩
  rw [hp] at hok ha hone hfile'
  obtain rfl : result = .ok () := hok
  obtain ⟨rfl, _, _⟩ := hone rfl
  refine ⟨w', d', bs ++ new, stray, rfl, hfile', ?_, hstray,
    hfront.trans (List.prefix_append _ _), ha.usable.trans h.usable⟩
  rw [List.append_assoc, ha.sink.data, ← List.append_assoc, htotal, List.append_assoc]

/-- A record that is taken, if nothing was left behind. -/
theorem accept (h : Held t base) (hclean : t.torn = false) {r : Record} (hr : Log.Readable r)
    {a : Allowance} (hok : (t.writer.appendWithin t.disk a r).1 = .ok ()) :
    Held (t.append r a) base ∧ (t.append r a).torn = false := by
  obtain ⟨w, d, bs, stray, he, hfile, htotal, hstray, hfront, husable⟩ := h.taken hok
  obtain rfl := hstray.2 hclean
  rw [he]
  refine ⟨⟨⟨bs, [], hfile, ?_, hstray, hfront⟩, husable, ?_,
    h.confirmed.trans (List.prefix_append _ _)⟩, hclean⟩
  · have hone : frames [r] = frame r := by simp [frames]
    rw [htotal, frames_append, hone, List.nil_append, List.append_nil, List.append_assoc]
  · intro x hx
    rcases List.mem_append.1 hx with hx | hx
    · exact h.readable x hx
    · rw [List.mem_singleton.1 hx]
      exact hr

/-- A record that fails. -/
theorem refuse (h : Held t base) {r : Record} {a : Allowance} {e : Fault}
    (he : (t.writer.appendWithin t.disk a r).1 = .error e) : Held (t.append r a) base := by
  obtain ⟨bs, stray, hfile, htotal, hstray, hfront⟩ := h.file
  obtain ⟨new, data, hw, _, hdata⟩ := Writer.appendWithin_of_error hfile h.usable he
  have hfile' := hw.file hfile
  have husable := Writer.unusable_appendWithin t.writer t.disk a r
  unfold Trial.append
  rcases hp : t.writer.appendWithin t.disk a r with ⟨result, w', d', a'⟩
  rw [hp] at he hw hfile' husable
  obtain rfl : result = .error e := he
  have htotal' : bs ++ new ++ w'.sink.buffer = base ++ frames t.accepted ++ (stray ++ data) := by
    rw [List.append_assoc, hw.data, ← List.append_assoc, htotal, List.append_assoc]
  refine ⟨⟨bs ++ new, stray ++ data, hfile', htotal', ?_, hfront.trans (List.prefix_append _ _)⟩,
    husable.trans h.usable, h.readable, h.confirmed⟩
  simp [hstray, hdata]

/-- A record that is taken behind what a failed append has left is not in its place. -/
theorem not_seamless (h : Held t base) (htorn : t.torn = true) {r : Record} {a : Allowance}
    (hok : (t.writer.appendWithin t.disk a r).1 = .ok ()) : ¬ (t.append r a).Seamless base := by
  obtain ⟨w, d, bs, stray, he, hfile, htotal, hstray, _⟩ := h.taken hok
  intro hplace
  rw [he] at hplace
  unfold Seamless fileBytes at hplace
  simp only [hfile, Option.map_some, Option.getD_some] at hplace
  -- there are as many bytes too many as were left behind
  have hlen := congrArg List.length (htotal.symm.trans hplace)
  simp only [List.length_append, frames_append, frames_cons] at hlen
  have hnil : (frames []).length = 0 := rfl
  have hnone : stray = [] := List.length_eq_zero_iff.1 (by omega)
  cases htorn.symm.trans (hstray.1 hnone)

/-- **What a call preserves**, unless a record is taken behind what a failed append has left. -/
theorem perform (h : Held t base) {call : Call} (hr : call.Readable)
    (hharmless : ¬ (t.torn = true ∧ t.Accepts call)) :
    Held (t.perform call) base ∧ (t.Accepts call → (t.perform call).torn = false) := by
  cases call with
  | flush a sync => exact ⟨h.flush a sync, fun haccepts => nomatch haccepts⟩
  | append r a =>
      cases hp : (t.writer.appendWithin t.disk a r).1 with
      | error e =>
          refine ⟨h.refuse hp, ?_⟩
          intro haccepts
          cases hp.symm.trans haccepts
      | ok u =>
          have hclean : t.torn = false := by
            cases htorn : t.torn with
            | false => rfl
            | true => exact absurd ⟨htorn, hp⟩ hharmless
          obtain ⟨hheld, hclean'⟩ := h.accept hclean hr hp
          exact ⟨hheld, fun _ => hclean'⟩

/-- **No harm is done exactly if no record is taken behind what a failed append has left.** -/
theorem intact_iff (h : Held t base) (hwhole : (scan base).good = base.length)
    {calls : List Call} (hr : ∀ call ∈ calls, call.Readable) :
    t.Intact base calls ↔ t.Harmless calls := by
  induction calls generalizing t with
  | nil => exact Iff.rfl
  | cons call calls ih =>
      rw [List.forall_mem_cons] at hr
      by_cases hharm : t.torn = true ∧ t.Accepts call
      · -- the record of this call is not in its place
        refine iff_of_false ?_ (fun hharmless => hharmless.1 hharm)
        intro hintact
        obtain ⟨htorn, haccepts⟩ := hharm
        cases call with
        | flush a sync => exact haccepts
        | append r a => exact h.not_seamless htorn haccepts (hintact.2.1 haccepts)
      · obtain ⟨hheld, hclean⟩ := h.perform hr.1 hharm
        have hrest := ih hheld hr.2
        constructor
        · rintro ⟨_, _, hintact⟩
          exact ⟨hharm, hrest.1 hintact⟩
        · rintro ⟨_, hharmless⟩
          exact ⟨hheld.returns hwhole, fun haccepts => hheld.seamless (hclean haccepts),
            hrest.2 hharmless⟩

end Held

/-- **When failed appends do no harm.**  Records are appended to a log at rest and confirmed, with
writing failing anywhere in any of the calls, and nothing is rolled back.  Then every record that
was taken before a flush that succeeded is read back, in the order of the calls, and no byte of a
record that failed stands in front of one that was taken, if and only if no record is taken after an
append that failed although it could take the length of its record. -/
theorem intact_iff_harmless {w : Writer} {d : Disk} {base : Bytes} (h : Writer.Settled w d base)
    (hwhole : (scan base).good = base.length) {calls : List Call}
    (hr : ∀ call ∈ calls, call.Readable) :
    (start w d).Intact base calls ↔ (start w d).Harmless calls :=
  (Held.start h).intact_iff hwhole hr

/-- An empty log. -/
def fresh : Trial := start (.ofHandle ⟨"a.wal", 0⟩ 0) (Disk.blank.makeFile "a.wal").2

/-- Terms with a name that does not fit in the buffer. -/
def bulkyTerms : Terms :=
  ⟨⟨5, 0⟩, String.ofList (List.replicate 8100 'x'), "", ⟨2026, 6, 14, by decide⟩⟩

/-- The creation of a quota with such terms. -/
def bulky : Record := .created ⟨7⟩ bulkyTerms ⟨⟨7⟩⟩

theorem length_payload_bulky : (payload bulky).length = 8214 := by
  have hname : bulkyTerms.name.utf8ByteSize = 8100 := Text.utf8ByteSize_replicate _ rfl
  have hproduct : bulkyTerms.productType.utf8ByteSize = 0 := rfl
  have hdate : bulkyTerms.travelDate.toText.utf8ByteSize = 10 := by decide +kernel
  rw [bulky, length_payload_created, length_writeTerms, hname, hdate, hproduct]

/-- A record is taken, one that does not fit fails, and what was taken is confirmed. -/
def lastFails : List Call :=
  [.append (Course.creation ⟨1⟩) .unlimited, .append bulky (.upTo 0 .fileTooLarge),
    .flush .unlimited none]

theorem readable_lastFails : ∀ call ∈ lastFails, call.Readable := by
  have hbulky : Log.Readable bulky := by
    rw [Log.Readable, length_payload_bulky]
    decide
  have hsmall : Log.Readable (Course.creation ⟨1⟩) := by decide +kernel
  simp only [lastFails, List.forall_mem_cons]
  exact ⟨hsmall, hbulky, trivial, fun call hcall => absurd hcall List.not_mem_nil⟩

/-- Nothing is taken behind what the failed append has left, so the first record is read back. -/
theorem intact_iff_harmless_lastFails :
    Writer.Settled fresh.writer fresh.disk [] ∧ (scan []).good = ([] : Bytes).length ∧
      (∀ call ∈ lastFails, call.Readable) ∧ fresh.Intact [] lastFails := by
  have hrest : Writer.Settled fresh.writer fresh.disk [] :=
    Writer.Settled.ofHandle (h := ⟨"a.wal", 0⟩) (Disk.file?_makeFile (d := .blank) rfl "a.wal")
  have hharmless : (start fresh.writer fresh.disk).Harmless lastFails := by
    have hclean : (fresh.perform (.append (Course.creation ⟨1⟩) .unlimited)).torn = false := by
      decide +kernel
    simp only [lastFails, Harmless]
    refine ⟨fun hbad => Bool.noConfusion hbad.1, ?_, fun hbad => hbad.2, trivial⟩
    exact fun hbad => Bool.noConfusion (hclean.symm.trans hbad.1)
  exact ⟨hrest, rfl, readable_lastFails,
    (intact_iff_harmless hrest rfl readable_lastFails).2 hharmless⟩

/-- A record that does not fit fails, and one that is taken behind it is confirmed. -/
def firstFails : List Call :=
  [.append bulky (.upTo 0 .fileTooLarge), .append (Course.creation ⟨1⟩) .unlimited,
    .flush .unlimited none]

/-- The log when the record has failed that does not fit: its length is in the buffer. -/
def lengthLeft : Trial := { fresh with writer.sink.buffer := [22, 32, 0, 0], torn := true }

theorem append_bulky : fresh.append bulky (.upTo 0 .fileTooLarge) = lengthLeft := by
  have hlength : toBytes 4 (payload bulky).length = [22, 32, 0, 0] := by
    rw [length_payload_bulky]
    decide
  have hlarge : (payload bulky).length > Sink.capacity - 4 := by
    rw [length_payload_bulky]
    decide
  rw [append_of_error (Writer.appendWithin_of_large rfl rfl hlarge _ _), hlength]
  rfl

/-- **The record that is taken behind the length is confirmed and lost.** -/
theorem not_intact_firstFails :
    Writer.Settled fresh.writer fresh.disk [] ∧ (scan []).good = ([] : Bytes).length ∧
      (∀ call ∈ firstFails, call.Readable) ∧ ¬ fresh.Intact [] firstFails ∧
      (fresh.run firstFails).confirmed = [Course.creation ⟨1⟩] ∧
      replay (fresh.run firstFails).fileBytes = [] := by
  have hrest : Writer.Settled fresh.writer fresh.disk [] :=
    Writer.Settled.ofHandle (h := ⟨"a.wal", 0⟩) (Disk.file?_makeFile (d := .blank) rfl "a.wal")
  have hread : ∀ call ∈ firstFails, call.Readable := by
    have hlast := readable_lastFails
    simp only [lastFails, firstFails, List.forall_mem_cons] at hlast ⊢
    exact ⟨hlast.2.1, hlast.1, hlast.2.2⟩
  have hrun : fresh.run firstFails =
      lengthLeft.run [.append (Course.creation ⟨1⟩) .unlimited, .flush .unlimited none] := by
    rw [firstFails, run_cons, perform, append_bulky]
  have hconfirmed : (fresh.run firstFails).confirmed = [Course.creation ⟨1⟩] := by
    rw [hrun]
    decide +kernel
  have hreplay : replay (fresh.run firstFails).fileBytes = [] := by
    rw [hrun]
    decide +kernel
  refine ⟨hrest, rfl, hread, ?_, hconfirmed, hreplay⟩
  intro hintact
  simp only [firstFails, Intact] at hintact
  obtain ⟨_, _, _, _, hreturns, _⟩ := hintact
  have hlost : replay [] ++ (fresh.run firstFails).confirmed <+:
      replay (fresh.run firstFails).fileBytes := hreturns
  rw [hconfirmed, hreplay] at hlost
  cases List.prefix_nil.1 hlost

end Trial

end Allotment.Log
