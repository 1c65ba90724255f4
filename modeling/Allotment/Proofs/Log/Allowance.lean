/-
**Writing until the operating system gives out.**

A disk takes all bytes or none, and it does so for the whole of a call.  A real one may take some
and then refuse, in the middle of a record or of a single write.  An allowance says how much it
takes: once it is used up, writing fails.  Since a call stops at the first write that fails, this
covers every way in which the writes of a call can fail.  The sink is followed through it: of a
buffer that is written out in part, the rest stays in the buffer; of a chunk that is written past
the buffer, the rest is lost.

With an allowance that is without limit or nothing, each operation is the one that the program
performs, so what is proved about allowances holds of the program.

Main definitions:

* `Allotment.Allowance` — how many bytes can be written;
* `Allotment.Disk.writeWithin`, `Allotment.Log.Sink.putAllWithin`,
  `Allotment.Log.Writer.appendWithin`, `Allotment.Log.Writer.flushWithin` — writing within an
  allowance;
* `Allotment.Log.Writer.Ahead` — what appending has done to a writer.

Main results:

* `Allotment.Log.Sink.putAllWithin_allowance`, `Allotment.Log.Writer.appendWithin_allowance`,
  `Allotment.Log.Writer.flushWithin_allowance` — **the operations of the program are special
  cases**;
* `Allotment.Log.Sink.putAllWithin_wrote`, `Allotment.Log.Writer.appendAllWithin_ahead` — **bytes
  that were taken are in the file or in the buffer**, in their order, and records that were taken
  count;
* `Allotment.Log.Writer.appendAllWithin_ok_iff` — **records are taken exactly if the allowance
  covers them**.  -/

import Allotment.Log.Writer
import Allotment.Proofs.Log.Sink
import Allotment.Proofs.Log.Torn

set_option relaxedAutoImplicit false
set_option autoImplicit false

namespace Allotment

open Log (Bytes)

/-- How many bytes the operating system takes. -/
inductive Allowance where
  /-- As many as there are. -/
  | unlimited
  /-- So many; then writing fails. -/
  | upTo (n : Nat) (fault : Fault)

namespace Allowance

/-- Whether so many bytes are taken. -/
def Covers : Allowance → Nat → Prop
  | unlimited, _ => True
  | upTo n _, size => size ≤ n

instance (a : Allowance) (size : Nat) : Decidable (a.Covers size) :=
  match a with
  | unlimited => inferInstanceAs (Decidable True)
  | upTo n _ => inferInstanceAs (Decidable (size ≤ n))

@[simp] theorem covers_zero (a : Allowance) : a.Covers 0 := by
  cases a with
  | unlimited => trivial
  | upTo n fault => exact Nat.zero_le n

end Allowance

/-! ### Disks -/

namespace Disk

/-- The allowance of a disk that takes all bytes or none. -/
def allowance (d : Disk) : Allowance := if d.writable then .unlimited else .upTo 0 .fileTooLarge

/-- Writes bytes through a handle, as many as are taken.  Gives the bytes that were not, and what is
left of the allowance. -/
def writeWithin (d : Disk) (a : Allowance) (h : Handle) (bs : Bytes) :
    Except Fault Unit × Bytes × Disk × Allowance :=
  match a with
  | .unlimited => (.ok (), [], d.append h bs, .unlimited)
  | .upTo n fault =>
    if bs.length ≤ n then (.ok (), [], d.append h bs, .upTo (n - bs.length) fault)
    else (.error fault, bs.drop n, d.append h (bs.take n), .upTo 0 fault)

@[simp] theorem allowance_setEntry (d : Disk) (name : String) (e : Entry) :
    (d.setEntry name e).allowance = d.allowance := by
  rw [allowance, allowance, writable_setEntry]

theorem append_nil (d : Disk) (h : Handle) : d.append h [] = d := by
  unfold append
  cases hf : d.file? h.name with
  | none => rfl
  | some f =>
      simp only [List.append_nil]
      split
      · exact setEntry_self hf
      · rfl

/-- Adding bytes to a file does not change what can be written. -/
theorem allowance_append (d : Disk) (h : Handle) (bs : Bytes) :
    (d.append h bs).allowance = d.allowance := by
  unfold append
  split
  · rfl
  · split
    · exact allowance_setEntry _ _ _
    · rfl

/-- **Writing is a special case.** -/
theorem writeWithin_allowance (d : Disk) (h : Handle) (bs : Bytes) :
    d.writeWithin d.allowance h bs =
      match d.write h bs with
      | .ok d' => (.ok (), [], d', d.allowance)
      | .error e => (.error e, bs, d, d.allowance) := by
  unfold write allowance
  cases bs with
  | nil => cases d.writable <;> simp [writeWithin, append_nil]
  | cons b bs => cases d.writable <;> simp [writeWithin, append_nil]

/-- The disk afterwards takes as many bytes as before. -/
theorem allowance_write {d d' : Disk} {h : Handle} {bs : Bytes} (hw : d.write h bs = .ok d') :
    d'.allowance = d.allowance := by
  unfold write at hw
  split at hw
  · cases hw
    rfl
  · split at hw
    · cases hw
      exact allowance_append d h bs
    · cases hw

/-- If writing succeeds, no byte is left. -/
theorem writeWithin_rest (d : Disk) (a : Allowance) (k : Handle) (data : Bytes)
    (hok : (d.writeWithin a k data).1 = .ok ()) : (d.writeWithin a k data).2.1 = [] := by
  cases a with
  | unlimited => rfl
  | upTo n fault =>
      unfold writeWithin at hok ⊢
      by_cases hle : data.length ≤ n
      · simp only [if_pos hle]
      · simp only [if_neg hle] at hok
        cases hok

/-- What is written is a front of the bytes, and it stands at the end of the file. -/
theorem writeWithin_of_file? {d : Disk} {k : Handle} {bs : Bytes}
    (h : d.file? k.name = some ⟨k.serial, bs⟩) (a : Allowance) (data : Bytes) :
    ∃ new, (d.writeWithin a k data).2.2.1 = d.setEntry k.name (.file ⟨k.serial, bs ++ new⟩) ∧
      new ++ (d.writeWithin a k data).2.1 = data := by
  cases a with
  | unlimited => exact ⟨data, append_of_file? h data, List.append_nil _⟩
  | upTo n fault =>
      unfold writeWithin
      by_cases hle : data.length ≤ n
      · simp only [if_pos hle]
        exact ⟨data, append_of_file? h data, List.append_nil _⟩
      · simp only [if_neg hle]
        exact ⟨data.take n, append_of_file? h _, List.take_append_drop n data⟩

/-- Writing succeeds, and leaves so much of the allowance, exactly if the allowance covers both. -/
theorem writeWithin_ok_iff (d : Disk) (a : Allowance) (k : Handle) (data : Bytes) (size : Nat) :
    ((d.writeWithin a k data).1 = .ok () ∧ (d.writeWithin a k data).2.2.2.Covers size) ↔
      a.Covers (data.length + size) := by
  cases a with
  | unlimited => simp [writeWithin, Allowance.Covers]
  | upTo n fault =>
      unfold writeWithin
      by_cases hle : data.length ≤ n
      · simp only [if_pos hle, Allowance.Covers, true_and]
        omega
      · simp only [if_neg hle, Allowance.Covers]
        constructor
        · rintro ⟨hok, _⟩
          cases hok
        · intro hcovers
          omega

end Disk

namespace Log

/-! ### Sinks -/

namespace Sink

/-- Writes out the buffer.  What is not taken stays in it. -/
def flushWithin (s : Sink) (d : Disk) (a : Allowance) :
    Except Fault Unit × Sink × Disk × Allowance :=
  match d.writeWithin a s.handle s.buffer with
  | (result, rest, d, a) => (result, { s with buffer := rest }, d, a)

/-- Writes out the buffer if a chunk of `size` bytes does not fit behind it. -/
def makeRoomWithin (s : Sink) (d : Disk) (a : Allowance) (size : Nat) :
    Except Fault Unit × Sink × Disk × Allowance :=
  if size > capacity - s.buffer.length then s.flushWithin d a else (.ok (), s, d, a)

/-- Takes a chunk.  Of one that is as large as the buffer, what is not taken is lost. -/
def putWithin (s : Sink) (d : Disk) (a : Allowance) (chunk : Bytes) :
    Except Fault Unit × Sink × Disk × Allowance :=
  match s.makeRoomWithin d a chunk.length with
  | (.error e, s, d, a) => (.error e, s, d, a)
  | (.ok (), s, d, a) =>
    if chunk.length ≥ capacity then
      match d.writeWithin a s.handle chunk with
      | (result, _, d, a) => (result, s, d, a)
    else (.ok (), { s with buffer := s.buffer ++ chunk }, d, a)

/-- Takes chunks until one fails. -/
def putAllWithin (s : Sink) (d : Disk) (a : Allowance) :
    List Bytes → Except Fault Unit × Sink × Disk × Allowance
  | [] => (.ok (), s, d, a)
  | chunk :: chunks =>
    match s.putWithin d a chunk with
    | (.error e, s, d, a) => (.error e, s, d, a)
    | (.ok (), s, d, a) => s.putAllWithin d a chunks

/-! The operations of the program are special cases. -/

theorem flushWithin_allowance (s : Sink) (d : Disk) :
    s.flushWithin d d.allowance =
      match s.flush d with
      | .ok (s', d') => (.ok (), s', d', d'.allowance)
      | .error e => (.error e, s, d, d.allowance) := by
  unfold flushWithin flush
  rw [Disk.writeWithin_allowance]
  cases hw : d.write s.handle s.buffer with
  | error e => rfl
  | ok d' => simp only [Except.map, Disk.allowance_write hw]

theorem makeRoomWithin_allowance (s : Sink) (d : Disk) (size : Nat) :
    s.makeRoomWithin d d.allowance size =
      match s.makeRoom d size with
      | .ok (s', d') => (.ok (), s', d', d'.allowance)
      | .error e => (.error e, s, d, d.allowance) := by
  unfold makeRoomWithin makeRoom
  by_cases h : size > capacity - s.buffer.length
  · rw [if_pos h, if_pos h, flushWithin_allowance]
  · rw [if_neg h, if_neg h]

theorem putWithin_allowance (s : Sink) (d : Disk) (chunk : Bytes) :
    s.putWithin d d.allowance chunk =
      match s.put d chunk with
      | .ok (s', d') => (.ok (), s', d', d'.allowance)
      | .error e => (.error e, s, d, d.allowance) := by
  unfold putWithin put
  rw [makeRoomWithin_allowance]
  cases hm : s.makeRoom d chunk.length with
  | error e => rfl
  | ok sd =>
      obtain ⟨s₁, d₁⟩ := sd
      simp only
      by_cases hlarge : chunk.length ≥ capacity
      · simp only [if_pos hlarge, Disk.writeWithin_allowance]
        cases hw : d₁.write s₁.handle chunk with
        | ok d₂ => simp only [Except.map, Disk.allowance_write hw]
        | error e =>
            -- only if nothing can be written does this fail, and then no room was made either
            have hwritable : d.writable = false := by
              cases hd : d.writable with
              | false => rfl
              | true =>
                  obtain ⟨s₂, d₂, hput, _⟩ := put_of_writable (s := s) hd chunk
                  simp only [put, hm, if_pos hlarge, hw, Except.map] at hput
                  cases hput
            obtain ⟨rfl, rfl⟩ := makeRoom_of_not_writable hwritable hm
            rfl
      · simp only [if_neg hlarge]

/-- **Taking chunks is a special case.** -/
theorem putAllWithin_allowance (s : Sink) (d : Disk) (chunks : List Bytes) :
    s.putAllWithin d d.allowance chunks =
      ((s.putAll d chunks).1, (s.putAll d chunks).2.1, (s.putAll d chunks).2.2,
        (s.putAll d chunks).2.2.allowance) := by
  induction chunks generalizing s d with
  | nil => rfl
  | cons chunk chunks ih =>
      unfold putAllWithin putAll
      rw [putWithin_allowance]
      cases hp : s.put d chunk with
      | error e => rfl
      | ok sd => exact ih sd.1 sd.2

/-! What has become of the bytes. -/

theorem flushWithin_buffer (s : Sink) (d : Disk) (a : Allowance)
    (hok : (s.flushWithin d a).1 = .ok ()) : (s.flushWithin d a).2.1.buffer = [] :=
  Disk.writeWithin_rest _ _ _ _ hok

/-- If room was made for a chunk as large as the buffer, the buffer is empty. -/
theorem makeRoomWithin_buffer (s : Sink) (d : Disk) (a : Allowance) (size : Nat)
    (hlarge : capacity ≤ size) (hok : (s.makeRoomWithin d a size).1 = .ok ()) :
    (s.makeRoomWithin d a size).2.1.buffer = [] := by
  unfold makeRoomWithin at hok ⊢
  split
  · next hroom =>
    rw [if_pos hroom] at hok
    exact flushWithin_buffer s d a hok
  · have hcap : 0 < capacity := by decide
    have hempty : s.buffer.length = 0 := by omega
    exact List.length_eq_zero_iff.1 hempty

section

variable {s : Sink} {d : Disk} {bs : Bytes}

theorem flushWithin_wrote (h : d.file? s.handle.name = some ⟨s.handle.serial, bs⟩)
    (a : Allowance) :
    ∃ new, Wrote s (s.flushWithin d a).2.1 d (s.flushWithin d a).2.2.1 bs new [] := by
  obtain ⟨new, hdisk, hdata⟩ := Disk.writeWithin_of_file? h a s.buffer
  exact ⟨new, rfl, hdisk, by rw [List.append_nil]; exact hdata⟩

theorem makeRoomWithin_wrote (h : d.file? s.handle.name = some ⟨s.handle.serial, bs⟩)
    (a : Allowance) (size : Nat) :
    ∃ new, Wrote s (s.makeRoomWithin d a size).2.1 d (s.makeRoomWithin d a size).2.2.1 bs new
      [] := by
  unfold makeRoomWithin
  split
  · exact flushWithin_wrote h a
  · exact ⟨[], Wrote.refl h⟩

/-- Of a chunk a front is taken.  Of a small chunk, which passes through the buffer, nothing is
taken unless all is. -/
theorem putWithin_wrote (h : d.file? s.handle.name = some ⟨s.handle.serial, bs⟩) (a : Allowance)
    (chunk : Bytes) :
    ∃ new data, Wrote s (s.putWithin d a chunk).2.1 d (s.putWithin d a chunk).2.2.1 bs new data ∧
      data <+: chunk ∧ ((s.putWithin d a chunk).1 = .ok () → data = chunk) ∧
      ((s.putWithin d a chunk).1 ≠ .ok () → chunk.length < capacity → data = []) := by
  obtain ⟨new, hw⟩ := makeRoomWithin_wrote h a chunk.length
  have hempty := makeRoomWithin_buffer s d a chunk.length
  unfold putWithin
  rcases hm : s.makeRoomWithin d a chunk.length with ⟨result, s₁, d₁, a₁⟩
  rw [hm] at hw hempty
  cases result with
  | error e =>
      refine ⟨new, [], hw, List.nil_prefix, ?_, fun _ _ => rfl⟩
      intro hok
      cases hok
  | ok u =>
      simp only
      by_cases hlarge : chunk.length ≥ capacity
      · -- a chunk as large as the buffer goes straight to the file, behind an empty buffer
        simp only [if_pos hlarge]
        obtain ⟨new', hdisk, hdata⟩ := Disk.writeWithin_of_file? (hw.file h) a₁ chunk
        have hdirect : Wrote s₁ s₁ d₁ (d₁.writeWithin a₁ s₁.handle chunk).2.2.1 (bs ++ new) new'
            new' := ⟨rfl, hdisk, by rw [hempty hlarge rfl]; simp⟩
        refine ⟨_, _, hw.trans hdirect, ⟨_, hdata⟩, ?_, fun _ hsmall => by omega⟩
        intro hok
        rw [Disk.writeWithin_rest _ _ _ _ hok, List.append_nil] at hdata
        exact hdata
      · simp only [if_neg hlarge]
        have hkeep : Wrote s₁ { s₁ with buffer := s₁.buffer ++ chunk } d₁ d₁ (bs ++ new) [] chunk :=
          ⟨rfl, (Wrote.refl (hw.file h)).disk, rfl⟩
        exact ⟨_, _, hw.trans hkeep, List.prefix_rfl, fun _ => rfl, fun hok => absurd rfl hok⟩

/-- **Bytes that were taken are in the file or in the buffer**, and they are a front of the chunks.
-/
theorem putAllWithin_wrote (h : d.file? s.handle.name = some ⟨s.handle.serial, bs⟩)
    (a : Allowance) (chunks : List Bytes) :
    ∃ new data, Wrote s (s.putAllWithin d a chunks).2.1 d (s.putAllWithin d a chunks).2.2.1 bs new
        data ∧
      data <+: chunks.flatten ∧
      ((s.putAllWithin d a chunks).1 = .ok () → data = chunks.flatten) := by
  induction chunks generalizing s d bs a with
  | nil => exact ⟨[], [], Wrote.refl h, List.nil_prefix, fun _ => rfl⟩
  | cons chunk chunks ih =>
      obtain ⟨new, data, hw, hfront, hone, _⟩ := putWithin_wrote h a chunk
      unfold putAllWithin
      rcases hp : s.putWithin d a chunk with ⟨result, s₁, d₁, a₁⟩
      rw [hp] at hw hone
      cases result with
      | error e =>
          exact ⟨new, data, hw, hfront.trans (List.prefix_append _ _), fun hok => nomatch hok⟩
      | ok u =>
          obtain ⟨new', data', hw', hfront', hall⟩ := ih (hw.file h) a₁
          obtain rfl := hone rfl
          refine ⟨_, _, hw.trans hw', (List.prefix_append_right_inj _).2 hfront', ?_⟩
          intro hok
          rw [hall hok, List.flatten_cons]

/-- The same for a sink over a disk that takes all bytes or none. -/
theorem putAll_wrote (h : d.file? s.handle.name = some ⟨s.handle.serial, bs⟩)
    (chunks : List Bytes) :
    ∃ new data, Wrote s (s.putAll d chunks).2.1 d (s.putAll d chunks).2.2 bs new data ∧
      data <+: chunks.flatten ∧ ((s.putAll d chunks).1 = .ok () → data = chunks.flatten) := by
  have hwithin := putAllWithin_wrote h d.allowance chunks
  rwa [putAllWithin_allowance] at hwithin

end

/-! When all is taken.  The bytes of the buffer are still to be written. -/

theorem flushWithin_ok_iff (s : Sink) (d : Disk) (a : Allowance) (size : Nat) :
    ((s.flushWithin d a).1 = .ok () ∧
        (s.flushWithin d a).2.2.2.Covers ((s.flushWithin d a).2.1.buffer.length + size)) ↔
      a.Covers (s.buffer.length + size) := by
  rw [← Disk.writeWithin_ok_iff d a s.handle s.buffer size]
  refine and_congr_right ?_
  intro hok
  rw [flushWithin_buffer s d a hok, List.length_nil, Nat.zero_add]
  rfl

theorem makeRoomWithin_ok_iff (s : Sink) (d : Disk) (a : Allowance) (chunk size : Nat) :
    ((s.makeRoomWithin d a chunk).1 = .ok () ∧ (s.makeRoomWithin d a chunk).2.2.2.Covers
        ((s.makeRoomWithin d a chunk).2.1.buffer.length + size)) ↔
      a.Covers (s.buffer.length + size) := by
  unfold makeRoomWithin
  split
  · exact flushWithin_ok_iff s d a size
  · exact and_iff_right rfl

theorem putWithin_ok_iff (s : Sink) (d : Disk) (a : Allowance) (chunk : Bytes) (size : Nat) :
    ((s.putWithin d a chunk).1 = .ok () ∧
        (s.putWithin d a chunk).2.2.2.Covers ((s.putWithin d a chunk).2.1.buffer.length + size)) ↔
      a.Covers (s.buffer.length + (chunk.length + size)) := by
  rw [← makeRoomWithin_ok_iff s d a chunk.length (chunk.length + size)]
  have hempty := makeRoomWithin_buffer s d a chunk.length
  unfold putWithin
  rcases hm : s.makeRoomWithin d a chunk.length with ⟨result, s₁, d₁, a₁⟩
  rw [hm] at hempty
  cases result with
  | error e => simp
  | ok u =>
      simp only
      by_cases hlarge : chunk.length ≥ capacity
      · have hzero : s₁.buffer.length = 0 := congrArg List.length (hempty hlarge rfl)
        simp only [if_pos hlarge, true_and, hzero, Nat.zero_add]
        exact Disk.writeWithin_ok_iff d₁ a₁ s₁.handle chunk size
      · simp only [if_neg hlarge, List.length_append, Nat.add_assoc]

/-- **Chunks are taken exactly if the allowance covers them**, if all is to be written in the end.
-/
theorem putAllWithin_ok_iff (s : Sink) (d : Disk) (a : Allowance) (chunks : List Bytes)
    (size : Nat) :
    ((s.putAllWithin d a chunks).1 = .ok () ∧ (s.putAllWithin d a chunks).2.2.2.Covers
        ((s.putAllWithin d a chunks).2.1.buffer.length + size)) ↔
      a.Covers (s.buffer.length + (chunks.flatten.length + size)) := by
  induction chunks generalizing s d a with
  | nil => simp [putAllWithin]
  | cons chunk chunks ih =>
      rw [List.flatten_cons, List.length_append, Nat.add_assoc, ← putWithin_ok_iff s d]
      unfold putAllWithin
      rcases hp : s.putWithin d a chunk with ⟨result, s₁, d₁, a₁⟩
      cases result with
      | error e => simp
      | ok u => simpa using ih s₁ d₁ a₁

/-! When nothing can be written. -/

/-- A chunk for which there is room is in the buffer. -/
theorem putWithin_of_room {s : Sink} {chunk : Bytes}
    (hroom : chunk.length ≤ capacity - s.buffer.length) (hsmall : chunk.length < capacity)
    (d : Disk) (a : Allowance) :
    s.putWithin d a chunk = (.ok (), { s with buffer := s.buffer ++ chunk }, d, a) := by
  simp only [putWithin, makeRoomWithin, gt_iff_lt, if_neg (Nat.not_lt.2 hroom), ge_iff_le,
    if_neg (Nat.not_le.2 hsmall)]

/-- A chunk for which there is no room fails if nothing can be written, and changes nothing. -/
theorem putWithin_of_no_room {s : Sink} {chunk : Bytes}
    (hroom : chunk.length > capacity - s.buffer.length) (hb : s.buffer ≠ []) (d : Disk)
    (fault : Fault) :
    s.putWithin d (.upTo 0 fault) chunk = (.error fault, s, d, .upTo 0 fault) := by
  have hpos := List.length_pos_iff.2 hb
  simp only [putWithin, makeRoomWithin, if_pos hroom, flushWithin, Disk.writeWithin,
    if_neg (Nat.not_le.2 hpos), List.take_zero, List.drop_zero, Disk.append_nil]

end Sink

/-! ### Chunks -/

theorem flatten_chunks (r : Record) : (chunks r).flatten = frame r := by
  simp [chunks, frame]

theorem flatten_flatMap_chunks (rs : List Record) : (rs.flatMap chunks).flatten = frames rs := by
  induction rs with
  | nil => rfl
  | cons r rs ih =>
      rw [List.flatMap_cons, List.flatten_append, flatten_chunks, ih, frames_cons]

/-! ### Writers -/

namespace Writer

/-- What appending has done to a writer: bytes were taken, and `k` records of them are whole. -/
structure Ahead (w w' : Writer) (d d' : Disk) (bs new data : Bytes) (k : Nat) : Prop where
  /-- What has become of the bytes. -/
  sink : Sink.Wrote w.sink w'.sink d d' bs new data
  /-- Nothing was confirmed. -/
  confirmed : w'.confirmed = w.confirmed
  /-- Every record counts as appended. -/
  appends : w'.appends = w.appends + k
  /-- Every record counts as not confirmed. -/
  pendingAppends : w'.pendingAppends = w.pendingAppends + k
  /-- Appending alone does not make a log unusable. -/
  usable : w'.unusable = w.unusable

namespace Ahead

variable {w w' w'' : Writer} {d d' d'' : Disk} {bs new new' data data' : Bytes} {k k' : Nat}

theorem refl (h : d.file? w.name = some ⟨w.sink.handle.serial, bs⟩) : Ahead w w d d bs [] [] 0 :=
  ⟨Sink.Wrote.refl h, rfl, rfl, rfl, rfl⟩

theorem trans (a : Ahead w w' d d' bs new data k)
    (a' : Ahead w' w'' d' d'' (bs ++ new) new' data' k') :
    Ahead w w'' d d'' bs (new ++ new') (data ++ data') (k + k') where
  sink := a.sink.trans a'.sink
  confirmed := a'.confirmed.trans a.confirmed
  appends := by rw [a'.appends, a.appends, Nat.add_assoc]
  pendingAppends := by rw [a'.pendingAppends, a.pendingAppends, Nat.add_assoc]
  usable := a'.usable.trans a.usable

end Ahead

/-- Appends a record without confirming it. -/
def appendWithin (w : Writer) (d : Disk) (a : Allowance) (r : Record) :
    Except Fault Unit × Writer × Disk × Allowance :=
  if w.unusable then (.error .logUnusable, w, d, a)
  else
    match w.sink.putAllWithin d a (chunks r) with
    | (.error e, sink, d, a) => (.error e, { w with sink }, d, a)
    | (.ok (), sink, d, a) =>
      (.ok (),
        { w with
          sink
          pendingBytes := w.pendingBytes + (8 + (payload r).length)
          pendingAppends := w.pendingAppends + 1
          appends := w.appends + 1 },
        d, a)

/-- Appends records until one fails. -/
def appendAllWithin (w : Writer) (d : Disk) (a : Allowance) :
    List Record → Except Fault Unit × Writer × Disk × Allowance
  | [] => (.ok (), w, d, a)
  | r :: rs =>
    match w.appendWithin d a r with
    | (.error e, w, d, a) => (.error e, w, d, a)
    | (.ok (), w, d, a) => w.appendAllWithin d a rs

/-- Confirms the records appended since the last flush.  After the bytes were written, making them
safe can still fail. -/
def flushWithin (w : Writer) (d : Disk) (a : Allowance) (sync : Option Fault) :
    Except Fault Unit × Writer × Disk :=
  match w.sink.flushWithin d a, sync with
  | (.error e, sink, d, _), _ => (.error e, { w with sink }, d)
  | (.ok (), sink, d, _), some e => (.error e, { w with sink }, d)
  | (.ok (), sink, d, _), none =>
    (.ok (),
      { w with
        sink
        confirmed := w.confirmed + w.pendingBytes
        pendingBytes := 0
        pendingAppends := 0 },
      d)

/-! The operations of the program are special cases. -/

theorem appendWithin_allowance (w : Writer) (d : Disk) (r : Record) :
    w.appendWithin d d.allowance r =
      ((w.append d r).1, (w.append d r).2.1, (w.append d r).2.2, (w.append d r).2.2.allowance) := by
  unfold appendWithin append
  rw [Sink.putAllWithin_allowance]
  by_cases hu : w.unusable = true
  · rw [if_pos hu, if_pos hu]
  · rw [if_neg hu, if_neg hu]
    rcases w.sink.putAll d (chunks r) with ⟨_ | _, s₁, d₁⟩ <;> rfl

theorem appendAllWithin_allowance (w : Writer) (d : Disk) (rs : List Record) :
    w.appendAllWithin d d.allowance rs =
      ((w.appendAll d rs).1, (w.appendAll d rs).2.1, (w.appendAll d rs).2.2,
        (w.appendAll d rs).2.2.allowance) := by
  induction rs generalizing w d with
  | nil => rfl
  | cons r rs ih =>
      unfold appendAllWithin appendAll
      rw [appendWithin_allowance]
      rcases w.append d r with ⟨_ | _, w₁, d₁⟩
      · rfl
      · exact ih w₁ d₁

theorem flushWithin_allowance (w : Writer) (d : Disk) :
    w.flushWithin d d.allowance none =
      match w.flush d with
      | .ok (w', d') => (.ok (), w', d')
      | .error e => (.error e, w, d) := by
  unfold flushWithin flush
  rw [Sink.flushWithin_allowance]
  cases w.sink.flush d <;> rfl

/-! What has become of the bytes. -/

section

variable {w : Writer} {d : Disk} {bs : Bytes}

/-- Of a record a front is taken, and the record counts if it was taken as a whole. -/
theorem appendWithin_ahead (h : d.file? w.name = some ⟨w.sink.handle.serial, bs⟩)
    (hu : w.unusable = false) (a : Allowance) (r : Record) :
    ∃ new data k,
      Ahead w (w.appendWithin d a r).2.1 d (w.appendWithin d a r).2.2.1 bs new data k ∧
      ((w.appendWithin d a r).1 = .ok () → data = frame r ∧ k = 1 ∧
        (w.appendWithin d a r).2.1.pendingBytes = w.pendingBytes + (frame r).length) := by
  obtain ⟨new, data, hw, _, hall⟩ := Sink.putAllWithin_wrote h a (chunks r)
  unfold appendWithin
  rw [if_neg (by simp [hu])]
  rcases hp : w.sink.putAllWithin d a (chunks r) with ⟨result, s₁, d₁, a₁⟩
  rw [hp] at hw hall
  cases result with
  | error e => exact ⟨new, data, 0, ⟨hw, rfl, rfl, rfl, rfl⟩, fun hok => by cases hok⟩
  | ok u =>
      refine ⟨new, data, 1, ⟨hw, rfl, rfl, rfl, rfl⟩, ?_⟩
      intro _
      refine ⟨(hall rfl).trans (flatten_chunks r), rfl, ?_⟩
      simp only
      rw [length_frame, Nat.add_comm 8]

/-- Of several records a front is taken, and those count that were taken as a whole. -/
theorem appendAllWithin_ahead (h : d.file? w.name = some ⟨w.sink.handle.serial, bs⟩)
    (hu : w.unusable = false) (a : Allowance) (rs : List Record) :
    ∃ new data k,
      Ahead w (w.appendAllWithin d a rs).2.1 d (w.appendAllWithin d a rs).2.2.1 bs new data k ∧
      ((w.appendAllWithin d a rs).1 = .ok () → data = frames rs ∧ k = rs.length ∧
        (w.appendAllWithin d a rs).2.1.pendingBytes = w.pendingBytes + (frames rs).length) := by
  induction rs generalizing w d bs a with
  | nil => exact ⟨[], [], 0, Ahead.refl h, fun _ => ⟨rfl, rfl, rfl⟩⟩
  | cons r rs ih =>
      obtain ⟨new, data, k, ha, hone⟩ := appendWithin_ahead h hu a r
      rcases hp : w.appendWithin d a r with ⟨result, w₁, d₁, a₁⟩
      rw [hp] at ha hone
      cases result with
      | error e =>
          simp only [appendAllWithin, hp]
          exact ⟨new, data, k, ha, fun hok => by cases hok⟩
      | ok u =>
          obtain ⟨new', data', k', ha', hall⟩ := ih (ha.sink.file h) (ha.usable.trans hu) a₁
          simp only [appendAllWithin, hp]
          refine ⟨_, _, _, ha.trans ha', ?_⟩
          intro hok
          obtain ⟨hdata, hk, hbytes⟩ := hone rfl
          obtain ⟨hdata', hk', hbytes'⟩ := hall hok
          simp only at hbytes
          refine ⟨by rw [hdata, hdata', frames_cons], ?_, ?_⟩
          · rw [hk, hk', List.length_cons, Nat.add_comm]
          · rw [hbytes', hbytes, frames_cons, List.length_append, Nat.add_assoc]

/-- The same for a writer over a disk that takes all bytes or none. -/
theorem append_ahead (h : d.file? w.name = some ⟨w.sink.handle.serial, bs⟩)
    (hu : w.unusable = false) (r : Record) :
    ∃ new data k, Ahead w (w.append d r).2.1 d (w.append d r).2.2 bs new data k ∧
      ((w.append d r).1 = .ok () → data = frame r ∧ k = 1 ∧
        (w.append d r).2.1.pendingBytes = w.pendingBytes + (frame r).length) := by
  have hwithin := appendWithin_ahead h hu d.allowance r
  rwa [appendWithin_allowance] at hwithin

theorem appendAll_ahead (h : d.file? w.name = some ⟨w.sink.handle.serial, bs⟩)
    (hu : w.unusable = false) (rs : List Record) :
    ∃ new data k, Ahead w (w.appendAll d rs).2.1 d (w.appendAll d rs).2.2 bs new data k ∧
      ((w.appendAll d rs).1 = .ok () → data = frames rs ∧ k = rs.length ∧
        (w.appendAll d rs).2.1.pendingBytes = w.pendingBytes + (frames rs).length) := by
  have hwithin := appendAllWithin_ahead h hu d.allowance rs
  rwa [appendAllWithin_allowance] at hwithin

/-- A flush writes bytes of the buffer; if it succeeds, all of them, and what is pending is
confirmed. -/
theorem flushWithin_wrote (h : d.file? w.name = some ⟨w.sink.handle.serial, bs⟩) (a : Allowance)
    (sync : Option Fault) :
    ∃ new s', Sink.Wrote w.sink s' d (w.flushWithin d a sync).2.2 bs new [] ∧
      ((∃ e, (w.flushWithin d a sync).1 = .error e ∧
          (w.flushWithin d a sync).2.1 = { w with sink := s' }) ∨
        ((w.flushWithin d a sync).1 = .ok () ∧ s'.buffer = [] ∧
          (w.flushWithin d a sync).2.1 =
            { w with
              sink := s'
              confirmed := w.confirmed + w.pendingBytes
              pendingBytes := 0
              pendingAppends := 0 })) := by
  obtain ⟨new, hw⟩ := Sink.flushWithin_wrote h a
  have hempty := Sink.flushWithin_buffer w.sink d a
  unfold flushWithin
  rcases hf : w.sink.flushWithin d a with ⟨result, s₁, d₁, a₁⟩
  rw [hf] at hw hempty
  cases result with
  | error e => exact ⟨new, s₁, hw, Or.inl ⟨e, rfl, rfl⟩⟩
  | ok u =>
      cases sync with
      | some e => exact ⟨new, s₁, hw, Or.inl ⟨e, rfl, rfl⟩⟩
      | none => exact ⟨new, s₁, hw, Or.inr ⟨rfl, hempty rfl, rfl⟩⟩

end

/-! When all is taken. -/

/-- A flush succeeds exactly if the bytes of the buffer are covered and can be made safe. -/
theorem flushWithin_ok_iff (w : Writer) (d : Disk) (a : Allowance) (sync : Option Fault) :
    (w.flushWithin d a sync).1 = .ok () ↔ a.Covers w.sink.buffer.length ∧ sync = none := by
  have hsink := Sink.flushWithin_ok_iff w.sink d a 0
  have hempty := Sink.flushWithin_buffer w.sink d a
  rw [Nat.add_zero, Nat.add_zero] at hsink
  rw [← hsink]
  unfold flushWithin
  rcases hf : w.sink.flushWithin d a with ⟨result, s₁, d₁, a₁⟩
  rw [hf] at hempty
  cases result with
  | error e => simp
  | ok u =>
      have hzero : s₁.buffer = [] := hempty rfl
      cases sync <;> simp [hzero]

theorem appendWithin_ok_iff {w : Writer} (hu : w.unusable = false) (d : Disk) (a : Allowance)
    (r : Record) (size : Nat) :
    ((w.appendWithin d a r).1 = .ok () ∧ (w.appendWithin d a r).2.2.2.Covers
        ((w.appendWithin d a r).2.1.sink.buffer.length + size)) ↔
      a.Covers (w.sink.buffer.length + ((frame r).length + size)) := by
  rw [← flatten_chunks r, ← Sink.putAllWithin_ok_iff w.sink d a (chunks r) size]
  unfold appendWithin
  rw [if_neg (by simp [hu])]
  rcases w.sink.putAllWithin d a (chunks r) with ⟨_ | _, s₁, d₁, a₁⟩ <;> rfl

/-- Appending does not make a log unusable. -/
theorem unusable_appendWithin (w : Writer) (d : Disk) (a : Allowance) (r : Record) :
    (w.appendWithin d a r).2.1.unusable = w.unusable := by
  unfold appendWithin
  split
  · rfl
  · rcases w.sink.putAllWithin d a (chunks r) with ⟨_ | _, s₁, d₁, a₁⟩ <;> rfl

/-- **Records are taken exactly if the allowance covers them**, if all is to be written in the end.
-/
theorem appendAllWithin_ok_iff {w : Writer} (hu : w.unusable = false) (d : Disk) (a : Allowance)
    (rs : List Record) (size : Nat) :
    ((w.appendAllWithin d a rs).1 = .ok () ∧ (w.appendAllWithin d a rs).2.2.2.Covers
        ((w.appendAllWithin d a rs).2.1.sink.buffer.length + size)) ↔
      a.Covers (w.sink.buffer.length + ((frames rs).length + size)) := by
  induction rs generalizing w d a with
  | nil => simp [appendAllWithin, frames]
  | cons r rs ih =>
      rw [frames_cons, List.length_append, Nat.add_assoc, ← appendWithin_ok_iff hu d]
      have husable := unusable_appendWithin w d a r
      unfold appendAllWithin
      rcases hp : w.appendWithin d a r with ⟨result, w₁, d₁, a₁⟩
      rw [hp] at husable
      cases result with
      | error e => simp
      | ok u => simpa using ih (husable.trans hu) d₁ a₁

end Writer

end Log

end Allotment
