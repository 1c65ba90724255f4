/-
**What a log holds at every moment of its use.**

A log is opened on whatever bytes there are; from then on records are appended, flushed and rolled
back, the log is compacted, bytes run out and come back, and in the end it is closed.  Two lists say
what it should hold: the settled records, which are those that were found and those confirmed since,
and the pending ones.  Records that were found keep the bytes they were found with, which need not
be those the writer would use; a record that was appended has the bytes of its frame.

An append that fails may leave a part of a frame in the buffer, and it has to be rolled back before
anything else is asked of the log.  Bytes can run out and come back even between the two.

Main definitions:

* `Allotment.Log.Stored` — bytes are the stored form of records;
* `Allotment.Log.Course` — a log in use, with the two lists and whether an append has just failed;
* `Allotment.Log.Course.Proper` — a failed append is rolled back first, and records are readable;
* `Allotment.Log.Course.Holds` — what the file holds;
* `Allotment.Log.Course.Faithful` — the invariant.

Main results:

* `Allotment.Log.stored_scan` — whatever is read from a log is stored in its readable front;
* `Allotment.Log.Course.Faithful.perform`, `Allotment.Log.Course.Faithful.run` — the invariant is
  kept;
* `Allotment.Log.Course.holds_run` — **at every moment the file holds the settled records and a
  part of the pending ones, in this order, and is read back so**, also after it was closed.
-/

import Allotment.Proofs.Log.Session

set_option relaxedAutoImplicit false
set_option autoImplicit false

namespace Allotment.Log

/-! ### Stored forms -/

/-- The bytes are the stored forms of the records, one behind the other: a reader takes each for its
record, whatever stands behind it. -/
inductive Stored : List Record → Bytes → Prop where
  | nil : Stored [] []
  | cons {r : Record} {front : Bytes} {rs : List Record} {bs : Bytes}
      (head : ∀ rest, frame? (front ++ rest) = some (r, front.length, rest))
      (tail : Stored rs bs) : Stored (r :: rs) (front ++ bs)

namespace Stored

variable {rs rs' : List Record} {bs bs' : Bytes}

theorem append (h : Stored rs bs) (h' : Stored rs' bs') : Stored (rs ++ rs') (bs ++ bs') := by
  induction h with
  | nil => exact h'
  | cons head _ ih =>
      rw [List.append_assoc]
      exact cons head ih

/-- A scan reads what is stored and goes on with the rest. -/
theorem scan_append (h : Stored rs bs) (rest : Bytes) :
    scan (bs ++ rest) = ⟨rs ++ (scan rest).records, bs.length + (scan rest).good⟩ := by
  induction h with
  | nil => simp
  | cons head _ ih =>
      rw [List.append_assoc, scan_eq, head]
      simp only [ih, List.cons_append, List.length_append, Nat.add_assoc]

theorem scan_eq_self (h : Stored rs bs) : scan bs = ⟨rs, bs.length⟩ := by
  have := h.scan_append []
  rw [List.append_nil] at this
  rw [this]
  simp [scan, scanUpTo]

end Stored

theorem stored_frames {rs : List Record} (h : ∀ r ∈ rs, Readable r) : Stored rs (frames rs) := by
  induction rs with
  | nil => exact .nil
  | cons r rs ih =>
      rw [frames_cons]
      have hrest := ih fun s hs => h s (List.mem_cons_of_mem _ hs)
      exact .cons (frame?_append (h r List.mem_cons_self)) hrest

/-- Whatever is read from a log is stored in its readable front. -/
theorem stored_scan (bs : Bytes) : Stored (scan bs).records (bs.take (scan bs).good) := by
  induction hn : bs.length using Nat.strongRecOn generalizing bs with
  | _ n ih =>
      rw [scan_eq]
      cases hf : frame? bs with
      | none => exact .nil
      | some f =>
          obtain ⟨r, size, rest⟩ := f
          obtain ⟨front, _, rfl, rfl, _, _, _, hany⟩ := frame?_inv hf
          have hlen := length_of_frame? hf
          have hrest := ih rest.length (by omega) rest rfl
          simp only [List.take_length_add_append]
          exact .cons hany hrest

/-- From a front of written records a reader gets the first of them. -/
theorem replay_of_prefix_frames {rs : List Record} (h : ∀ r ∈ rs, Readable r) {new : Bytes}
    (hnew : new <+: frames rs) : replay new <+: rs := by
  induction rs generalizing new with
  | nil =>
      rw [List.prefix_nil.1 hnew]
      exact List.nil_prefix
  | cons r rs ih =>
      have hr := h r List.mem_cons_self
      rw [frames_cons] at hnew
      rcases List.prefix_or_prefix_of_prefix (List.prefix_append (frame r) (frames rs)) hnew
        with ⟨new', rfl⟩ | hpart
      · rw [replay, scan_eq, frame?_append hr]
        have hnew' := (List.prefix_append_right_inj (frame r)).1 hnew
        exact (List.prefix_cons_inj r).2 (ih (fun s hs => h s (List.mem_cons_of_mem _ hs)) hnew')
      · -- the first frame is not whole unless it is all there is
        by_cases hlt : new.length < (frame r).length
        · rw [replay, scan_eq, List.prefix_iff_eq_take.1 hpart, frame?_take_frame hr hlt]
          exact List.nil_prefix
        · obtain rfl := hpart.eq_of_length_le (Nat.le_of_not_lt hlt)
          have hone := frame?_append hr []
          rw [List.append_nil] at hone
          rw [replay, scan_eq, hone]
          exact (List.prefix_cons_inj r).2 List.nil_prefix

/-! ### A log in use -/

/-- The records that a log should hold: those that were found in it and those confirmed since. -/
def Session.settled (s : Session) : List Record := replay s.base ++ s.confirmed

/-- A log in use, with the lists of what is settled and what is pending. -/
structure Course extends Session where
  /-- Whether an append has failed that was not rolled back yet. -/
  stuck : Bool

namespace Course

/-- Appends a record, which is pending if that succeeds. -/
def append (c : Course) (r : Record) : Course :=
  match c.writer.append c.disk r with
  | (.ok (), writer, disk) => { c with writer, disk, pending := c.pending ++ [r] }
  | (.error _, writer, disk) => { c with writer, disk, stuck := true }

/-- The log after a call, whether or not the call succeeds. -/
def perform (c : Course) : Session.Call → Course
  | .append r => c.append r
  | .flush => { c with toSession := c.toSession.flush }
  | .rollback => { toSession := c.toSession.rollback, stuck := false }
  | .compact rs => { c with toSession := c.toSession.compact rs }
  | .setWritable writable => { c with disk.writable := writable }

/-- The log after calls. -/
def run (c : Course) (calls : List Session.Call) : Course := calls.foldl perform c

/-- A log that was just opened; what was read from it is all that its file holds. -/
def start (w : Writer) (d : Disk) (found : Bytes) : Course := ⟨.start w d found, false⟩

/-- Whether a call may be made: a failed append is rolled back before anything else is asked of the
log, and what is written is readable. -/
def Allows (c : Course) : Session.Call → Prop
  | .append r => c.stuck = false ∧ Readable r
  | .flush => c.stuck = false
  | .rollback => True
  | .compact rs => c.stuck = false ∧ ∀ r ∈ rs, Readable r
  | .setWritable _ => True

/-- Whether each of some calls may be made when its turn comes. -/
def Proper (c : Course) : List Session.Call → Prop
  | [] => True
  | call :: calls => c.Allows call ∧ (c.perform call).Proper calls

instance (c : Course) (call : Session.Call) : Decidable (c.Allows call) :=
  match call with
  | .append r => inferInstanceAs (Decidable (c.stuck = false ∧ Readable r))
  | .flush => inferInstanceAs (Decidable (c.stuck = false))
  | .rollback => inferInstanceAs (Decidable True)
  | .compact rs => inferInstanceAs (Decidable (c.stuck = false ∧ ∀ r ∈ rs, Readable r))
  | .setWritable _ => inferInstanceAs (Decidable True)

instance decidableProper (c : Course) : (calls : List Session.Call) → Decidable (c.Proper calls)
  | [] => inferInstanceAs (Decidable True)
  | call :: calls =>
    have := decidableProper (c.perform call) calls
    inferInstanceAs (Decidable (c.Allows call ∧ (c.perform call).Proper calls))

/-- What the file of a log holds: the settled records in their stored form and, behind them, a part
of the bytes of the pending ones; and what is read back from it. -/
structure Holds (c : Course) (d : Disk) : Prop where
  /-- The settled records are stored. -/
  stored : Stored c.settled c.settledBytes
  /-- The bytes of the file, and what they replay to. -/
  file : ∃ new rs, d.file? c.writer.name =
      some ⟨c.writer.sink.handle.serial, c.settledBytes ++ new⟩ ∧ new <+: frames c.pending ∧
    replay (c.settledBytes ++ new) = c.settled ++ rs ∧ rs <+: c.pending
  /-- If nothing is pending, the file holds what is settled and nothing else. -/
  alone : c.pending = [] →
    d.file? c.writer.name = some ⟨c.writer.sink.handle.serial, c.settledBytes⟩ ∧
      replay c.settledBytes = c.settled

/-! ### The invariant -/

/-- The account is right, but for an append that has failed: until it is rolled back, nothing is
known of the buffer, and what the writer has counted since the last flush does not matter. -/
structure Faithful (c : Course) : Prop where
  /-- The account is right if no append has failed. -/
  exact_of_free : c.stuck = false → c.toSession.Exact
  /-- A reader takes the bytes in front as a whole. -/
  whole : (scan c.base).good = c.base.length
  /-- The bytes of the file. -/
  file : ∃ new, c.disk.file? c.writer.name =
      some ⟨c.writer.sink.handle.serial, c.settledBytes ++ new⟩ ∧ new <+: frames c.pending
  /-- The writer knows how much is settled. -/
  confirmed : c.writer.confirmed = c.settledBytes.length
  /-- No rollback has failed. -/
  usable : c.writer.unusable = false
  /-- What was written is readable. -/
  readable : ∀ r ∈ c.confirmed ++ c.pending, Readable r

namespace Faithful

variable {c : Course}

/-- An account that is right needs nothing else. -/
theorem of_exact {s : Session} (h : s.Exact) (hr : ∀ r ∈ s.confirmed ++ s.pending, Readable r)
    (stuck : Bool) : Faithful ⟨s, stuck⟩ where
  exact_of_free _ := h
  whole := h.whole
  file := by
    obtain ⟨new, hfile, hdata⟩ := h.file
    exact ⟨new, hfile, _, hdata⟩
  confirmed := h.confirmed
  usable := h.usable
  readable := hr

/-- An append that succeeds is one of the account; one that fails leaves the disk as it is. -/
theorem append (h : Faithful c) (hfree : c.stuck = false) {r : Record} (hr : Readable r) :
    Faithful (c.append r) := by
  have hexact := h.exact_of_free hfree
  have hnext := hexact.append r
  obtain ⟨new, hfile, hpart⟩ := h.file
  obtain ⟨_, _, _, hahead, _⟩ := Writer.append_ahead hfile h.usable r
  have hdisk := fun e => Writer.append_of_error (w := c.writer) (d := c.disk) (r := r) (e := e)
  unfold Session.append at hnext
  unfold Course.append
  rcases hp : c.writer.append c.disk r with ⟨result, w, d⟩
  rw [hp] at hnext hahead hdisk
  cases result with
  | ok u =>
      refine of_exact hnext ?_ _
      intro x hx
      simp only [← List.append_assoc, List.mem_append, List.mem_singleton] at hx
      rcases hx with hx | rfl
      · exact h.readable x (List.mem_append.2 hx)
      · exact hr
  | error e =>
      obtain rfl : d = c.disk := hdisk e rfl
      have hhandle : w.sink.handle = c.writer.sink.handle := hahead.sink.handle
      have hfile' : c.disk.file? w.sink.handle.name =
          some ⟨w.sink.handle.serial, c.settledBytes ++ new⟩ := by
        rw [hhandle]
        exact hfile
      exact
        { exact_of_free := fun hstuck => nomatch hstuck
          whole := h.whole
          file := ⟨new, hfile', hpart⟩
          confirmed := hahead.confirmed.trans h.confirmed
          usable := hahead.usable.trans h.usable
          readable := h.readable }

theorem flush (h : Faithful c) (hfree : c.stuck = false) :
    Faithful { c with toSession := c.toSession.flush } := by
  refine of_exact (h.exact_of_free hfree).flush ?_ _
  unfold Session.flush
  cases c.writer.flush c.disk with
  | error e => exact h.readable
  | ok wd => simpa using h.readable

/-- A rollback needs to know only what is settled, so it also undoes an append that has failed. -/
theorem rollback (h : Faithful c) :
    Faithful { toSession := c.toSession.rollback, stuck := false } := by
  obtain ⟨new, hfile, _⟩ := h.file
  refine of_exact (Session.Exact.rollback_of_front h.whole hfile h.confirmed h.usable) ?_ _
  intro r hr
  refine h.readable r (List.mem_append_left _ ?_)
  simpa [Session.rollback] using hr

theorem compact (h : Faithful c) (hfree : c.stuck = false) {rs : List Record}
    (hrs : ∀ r ∈ rs, Readable r) : Faithful { c with toSession := c.toSession.compact rs } := by
  refine of_exact ((h.exact_of_free hfree).compact rs) ?_ _
  unfold Session.compact
  rcases c.writer.compact c.disk rs with ⟨result, w, d⟩
  cases result with
  | error e => exact h.readable
  | ok u => simpa using hrs

/-- Every call that may be made keeps the invariant. -/
theorem perform (h : Faithful c) {call : Session.Call} (hc : c.Allows call) :
    Faithful (c.perform call) := by
  cases call with
  | append r => exact h.append hc.1 hc.2
  | flush => exact h.flush hc
  | rollback => exact h.rollback
  | compact rs => exact h.compact hc.1 hc.2
  | setWritable writable =>
      exact { h with
        exact_of_free := fun hfree =>
          { h.exact_of_free hfree with file := (h.exact_of_free hfree).file } }

/-- The invariant is kept as long as calls may be made. -/
theorem run (h : Faithful c) {calls : List Session.Call} (hc : c.Proper calls) :
    Faithful (c.run calls) := by
  induction calls generalizing c with
  | nil => exact h
  | cons call calls ih => exact ih (h.perform hc.1) hc.2

/-! ### What the file holds -/

theorem stored (h : Faithful c) : Stored c.settled c.settledBytes := by
  have hbase := stored_scan c.base
  rw [h.whole, List.take_length] at hbase
  exact hbase.append
    (stored_frames fun r hr => h.readable r (List.mem_append_left _ hr))

/-- What a file holds depends on its bytes alone. -/
theorem holds_of_file (h : Faithful c) {d : Disk} {new : Bytes}
    (hfile : d.file? c.writer.name =
      some ⟨c.writer.sink.handle.serial, c.settledBytes ++ new⟩)
    (hnew : new <+: frames c.pending) : Holds c d where
  stored := h.stored
  file := by
    refine ⟨new, replay new, hfile, hnew, ?_, ?_⟩
    · rw [replay, h.stored.scan_append]
      rfl
    · exact replay_of_prefix_frames (fun r hr => h.readable r (List.mem_append_right _ hr)) hnew
  alone hnone := by
    rw [hnone] at hnew
    rw [List.prefix_nil.1 hnew, List.append_nil] at hfile
    exact ⟨hfile, by rw [replay, h.stored.scan_eq_self]⟩

theorem holds (h : Faithful c) : Holds c c.disk := by
  obtain ⟨new, hfile, hnew⟩ := h.file
  exact h.holds_of_file hfile hnew

/-- Closing a log moves bytes of pending records from the buffer to the file, or loses them. -/
theorem holds_close (h : Faithful c) (hfree : c.stuck = false) :
    Holds c (c.writer.close c.disk) := by
  obtain ⟨new, hfile, hdata⟩ := (h.exact_of_free hfree).file
  unfold Writer.close
  cases hf : c.writer.sink.flush c.disk with
  | error e => exact h.holds_of_file hfile ⟨_, hdata⟩
  | ok sd =>
      obtain ⟨s₁, d₁⟩ := sd
      obtain ⟨hw, _⟩ := Sink.flush_wrote hfile hf
      have hfile' := hw.file hfile
      rw [hw.handle, List.append_assoc, hdata] at hfile'
      exact h.holds_of_file hfile' (List.prefix_refl _)

end Faithful

/-- A log that was just opened is at rest over the bytes that can be read. -/
theorem faithful_start {w : Writer} {d : Disk} {found : Bytes}
    (h : Writer.Settled w d found) (hwhole : (scan found).good = found.length) :
    Faithful (start w d found) :=
  Faithful.of_exact (Session.Exact.start h hwhole) (fun _ hr => nomatch hr) _

/-- **At every moment the file of a log holds the settled records and a part of the bytes of the
pending ones.**  A log is opened on any bytes, or made if it is not there.  What is found are the
records of its readable front, which stay as they are.  After any calls that may be made, the writer
knows how many bytes the settled records take, the file holds these bytes and a front of those of
the pending records, and it replays to the settled records and the first of the pending ones; if
nothing is pending it holds and replays to the settled records alone.  The same holds of the file
after the log was closed. -/
theorem holds_run {d : Disk} {es : Entries} (hplace : d.place = .directory es) {name : String}
    (hfree : d.entry? name ≠ some .directory) :
    ∃ found w d', Writer.recover d name = .ok (replay found, w, d') ∧ w.name = name ∧
      (∀ bs, d.read name = .ok bs → found = bs.take (scan bs).good ∧ replay found = replay bs) ∧
      ∀ calls, (start w d' found).Proper calls →
        let c := (start w d' found).run calls
        c.writer.confirmed = c.settledBytes.length ∧ c.Holds c.disk ∧
          (c.stuck = false → c.Holds (c.writer.close c.disk)) := by
  have hrun : ∀ {w : Writer} {d' : Disk} {found : Bytes}, Writer.Settled w d' found →
      (scan found).good = found.length → ∀ calls, (start w d' found).Proper calls →
        let c := (start w d' found).run calls
        c.writer.confirmed = c.settledBytes.length ∧ c.Holds c.disk ∧
          (c.stuck = false → c.Holds (c.writer.close c.disk)) := by
    intro w d' found hrest hwhole calls hcalls
    have h := (faithful_start hrest hwhole).run hcalls
    exact ⟨h.confirmed, h.holds, h.holds_close⟩
  cases he : d.entry? name with
  | none =>
      refine ⟨[], _, _, Writer.recover_of_absent hplace he, rfl, ?_,
        hrun (Writer.Settled.ofHandle (h := ⟨name, _⟩) (Disk.file?_makeFile hplace name)) rfl⟩
      intro bs hbs
      rw [Disk.read_of_absent hplace he] at hbs
      cases hbs
  | some e =>
      cases e with
      | directory => exact absurd he hfree
      | file f =>
          obtain ⟨serial, bs⟩ := f
          have hf := Disk.file?_of_entry? he
          have hsame := scan_take_good bs
          have hreplay : replay (bs.take (scan bs).good) = (scan bs).records := by
            rw [replay, hsame]
          refine ⟨bs.take (scan bs).good, _, _, hreplay ▸ Writer.recover_of_file? hf, rfl, ?_,
            hrun (Writer.Settled.ofHandle (h := ⟨name, _⟩) (Disk.file?_setEntry hf _)) ?_⟩
          · intro bs' hbs'
            rw [Disk.read_of_file? hf] at hbs'
            obtain rfl := Except.ok.inj hbs'
            exact ⟨rfl, hreplay⟩
          · rw [hsame, List.length_take, Nat.min_eq_left (good_le_length bs)]

/-- The creation of a quota. -/
def creation (quota : Ulid) : Record :=
  .created quota ⟨⟨5, 2⟩, "Süd", "tour", ⟨2026, 6, 15, by decide⟩⟩ ⟨quota⟩

/-- One record is confirmed; another is pending when bytes run out, so that it cannot be confirmed
and is rolled back; then a third is pending. -/
def failedFlush : List Session.Call :=
  [.append (creation ⟨1⟩), .flush, .append (creation ⟨2⟩), .setWritable false, .flush, .rollback,
    .append (creation ⟨3⟩)]

/-- A log of three bytes that no reader takes. -/
def unreadable : Disk := Disk.blank.putFile "a.wal" [1, 2, 3]

/-- What such a log becomes when it is opened. -/
def opened : Course :=
  start (.ofHandle ⟨"a.wal", 0⟩ 0) (unreadable.setEntry "a.wal" (.file ⟨0, []⟩)) []

/-- Three bytes that no reader takes are cut off, what could not be flushed was rolled back, and a
pending record is lost when the log is closed. -/
theorem holds_run_failed_flush :
    (unreadable.entry? "a.wal" ≠ some .directory ∧ opened.Proper failedFlush) ∧
      (opened.run failedFlush).settled = [creation ⟨1⟩] ∧
      (opened.run failedFlush).pending = [creation ⟨3⟩] ∧
      (opened.run failedFlush).Holds (opened.run failedFlush).disk ∧
      (opened.run failedFlush).Holds
        ((opened.run failedFlush).writer.close (opened.run failedFlush).disk) := by
  have hfree : unreadable.entry? "a.wal" ≠ some .directory := by decide +kernel
  have hproper : opened.Proper failedFlush := by decide +kernel
  have hfile : unreadable.file? "a.wal" = some ⟨0, [1, 2, 3]⟩ := by decide +kernel
  have hcut : ([1, 2, 3] : Bytes).take (scan [1, 2, 3]).good = [] := by decide +kernel
  obtain ⟨found, w, d', hrec, _, hfound, hall⟩ := holds_run (d := unreadable) rfl hfree
  obtain ⟨rfl, _⟩ := hfound _ (Disk.read_of_file? hfile)
  rw [Writer.recover_of_file? hfile] at hrec
  rw [hcut] at hrec hall
  obtain ⟨_, hsame⟩ := Prod.mk.inj (Except.ok.inj hrec)
  obtain ⟨rfl, rfl⟩ := Prod.mk.inj hsame
  have hopened : start (.ofHandle ⟨"a.wal", 0⟩ ([] : Bytes).length)
    (unreadable.setEntry "a.wal" (.file ⟨0, []⟩)) [] = opened := rfl
  rw [hopened] at hall
  obtain ⟨_, hnow, hclosed⟩ := hall failedFlush hproper
  have hnotStuck : (opened.run failedFlush).stuck = false := by decide +kernel
  exact ⟨⟨hfree, hproper⟩, by decide +kernel, by decide +kernel, hnow, hclosed hnotStuck⟩

end Course

end Allotment.Log
