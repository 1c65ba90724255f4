/-
**Where the bytes are that a sink has taken.**

A sink gathers bytes in a buffer and hands them to its file when the buffer is full, so that at any
moment a part of what it has taken is in the file and the rest is not.  Nothing is lost on the way
and nothing changes its order: the bytes that have reached the file, followed by the buffer, are
the buffer of the beginning, followed by the bytes taken.  This holds even if the sink has failed in
between, and so it says how much a rollback has to undo.

Main definitions:

* `Allotment.Log.Sink.Wrote` — what has become of the bytes that a sink has taken.

Main results:

* `Allotment.Log.Sink.flush_eq_ok`, `Allotment.Log.Sink.put_eq_ok` — what a flush and a chunk come
  to, from which everything else follows;
* `Allotment.Log.Sink.Wrote.trans` — what a sink has taken at first and what it has taken then;
* `Allotment.Log.Sink.putAll_of_writable`, `Allotment.Log.Sink.putAll_of_not_writable`,
  `Allotment.Log.Sink.putAll_of_still` — what a sink can do if bytes can be written, if they cannot,
  and if its file is gone.
-/

import Allotment.Log.Writer
import Allotment.Proofs.Disk

set_option relaxedAutoImplicit false
set_option autoImplicit false

namespace Allotment.Log

namespace Sink

/-! ### What a sink does

A flush writes the buffer.  A chunk that is taken makes the sink flush if there is no room for it;
then it is written if it is as large as the buffer, and is kept in the buffer if it is not. -/

section

variable {s s' : Sink} {d d' : Disk}

theorem flush_eq_ok (h : s.flush d = .ok (s', d')) :
    d.write s.handle s.buffer = .ok d' ∧ s' = { s with buffer := [] } := by
  unfold flush at h
  cases hw : d.write s.handle s.buffer with
  | error e => simp [hw, Except.map] at h
  | ok d₁ =>
      simp only [hw, Except.map, Except.ok.injEq, Prod.mk.injEq] at h
      obtain ⟨rfl, rfl⟩ := h
      exact ⟨rfl, rfl⟩

theorem makeRoom_eq_ok {size : Nat} (h : s.makeRoom d size = .ok (s', d')) :
    s.flush d = .ok (s', d') ∨ s' = s ∧ d' = d := by
  unfold makeRoom at h
  split at h
  · exact Or.inl h
  · cases h
    exact Or.inr ⟨rfl, rfl⟩

theorem put_eq_ok {chunk : Bytes} (h : s.put d chunk = .ok (s', d')) :
    ∃ s₁ d₁, s.makeRoom d chunk.length = .ok (s₁, d₁) ∧
      (capacity ≤ chunk.length ∧ d₁.write s₁.handle chunk = .ok d' ∧ s' = s₁ ∨
        d' = d₁ ∧ s' = { s₁ with buffer := s₁.buffer ++ chunk }) := by
  unfold put at h
  cases hm : s.makeRoom d chunk.length with
  | error e => simp [hm] at h
  | ok sd =>
      obtain ⟨s₁, d₁⟩ := sd
      refine ⟨s₁, d₁, rfl, ?_⟩
      simp only [hm] at h
      split at h
      · next hlarge =>
        cases hw : d₁.write s₁.handle chunk with
        | error e => simp [hw, Except.map] at h
        | ok d₂ =>
            simp only [hw, Except.map, Except.ok.injEq, Prod.mk.injEq] at h
            obtain ⟨rfl, rfl⟩ := h
            exact Or.inl ⟨hlarge, rfl, rfl⟩
      · simp only [Except.ok.injEq, Prod.mk.injEq] at h
        obtain ⟨rfl, rfl⟩ := h
        exact Or.inr ⟨rfl, rfl⟩

end

/-! ### What a sink has written -/

/-- What has become of `data` that a sink has taken when its file had the bytes `bs`: together with
what was in the buffer before, a part `new` has reached the file, and the rest is in the buffer. -/
structure Wrote (s s' : Sink) (d d' : Disk) (bs new data : Bytes) : Prop where
  /-- The sink is still that of the same file. -/
  handle : s'.handle = s.handle
  /-- The file has grown, and nothing else has changed. -/
  disk : d' = d.setEntry s.handle.name (.file ⟨s.handle.serial, bs ++ new⟩)
  /-- No byte is lost, and none comes twice. -/
  data : new ++ s'.buffer = s.buffer ++ data

namespace Wrote

variable {s s' s'' : Sink} {d d' d'' : Disk} {bs new new' data data' : Bytes}

theorem refl (h : d.file? s.handle.name = some ⟨s.handle.serial, bs⟩) :
    Wrote s s d d bs [] [] where
  handle := rfl
  disk := by rw [List.append_nil, Disk.setEntry_self h]
  data := by rw [List.nil_append, List.append_nil]

/-- The file of the sink afterwards. -/
theorem file (w : Wrote s s' d d' bs new data)
    (h : d.file? s.handle.name = some ⟨s.handle.serial, bs⟩) :
    d'.file? s'.handle.name = some ⟨s'.handle.serial, bs ++ new⟩ := by
  rw [w.handle, w.disk]
  exact Disk.file?_setEntry h _

/-- No other file has changed. -/
theorem other (w : Wrote s s' d d' bs new data)
    (h : d.file? s.handle.name = some ⟨s.handle.serial, bs⟩) {x : String}
    (hx : x ≠ s.handle.name) : d'.entry? x = d.entry? x := by
  rw [w.disk]
  exact (Disk.entry?_setEntry h _ x).trans (if_neg (Ne.symm hx))

theorem writable_eq (w : Wrote s s' d d' bs new data) : d'.writable = d.writable := by
  rw [w.disk, Disk.writable_setEntry]

theorem trans (w : Wrote s s' d d' bs new data) (w' : Wrote s' s'' d' d'' (bs ++ new) new' data') :
    Wrote s s'' d d'' bs (new ++ new') (data ++ data') where
  handle := w'.handle.trans w.handle
  disk := by rw [w'.disk, w.handle, w.disk, Disk.setEntry_setEntry, List.append_assoc]
  data := by rw [List.append_assoc, w'.data, ← List.append_assoc, w.data, List.append_assoc]

end Wrote

variable {s s' : Sink} {d d' : Disk} {bs : Bytes}

theorem flush_wrote (h : d.file? s.handle.name = some ⟨s.handle.serial, bs⟩)
    (hf : s.flush d = .ok (s', d')) : Wrote s s' d d' bs s.buffer [] ∧ s'.buffer = [] := by
  obtain ⟨hw, rfl⟩ := flush_eq_ok hf
  exact ⟨⟨rfl, Disk.write_of_file? h hw, rfl⟩, rfl⟩

/-! ### What a sink can do

If bytes can be written, nothing fails, and if they cannot, the disk stays as it is. -/

theorem put_of_writable (h : d.writable = true) (chunk : Bytes) :
    ∃ s' d', s.put d chunk = .ok (s', d') ∧ d'.writable = true := by
  have hroom : ∃ s₁ d₁, s.makeRoom d chunk.length = .ok (s₁, d₁) ∧ d₁.writable = true := by
    unfold makeRoom
    split
    · obtain ⟨d₁, hw, hd₁⟩ := Disk.write_of_writable h s.handle s.buffer
      exact ⟨_, d₁, by rw [flush, hw]; rfl, hd₁⟩
    · exact ⟨s, d, rfl, h⟩
  obtain ⟨s₁, d₁, hm, h₁⟩ := hroom
  unfold put
  simp only [hm]
  split
  · obtain ⟨d₂, hw, hd₂⟩ := Disk.write_of_writable h₁ s₁.handle chunk
    exact ⟨s₁, d₂, by rw [hw]; rfl, hd₂⟩
  · exact ⟨_, d₁, rfl, h₁⟩

theorem putAll_of_writable (h : d.writable = true) (cs : List Bytes) :
    (s.putAll d cs).1 = .ok () ∧ (s.putAll d cs).2.2.writable = true := by
  induction cs generalizing s d with
  | nil => exact ⟨rfl, h⟩
  | cons c cs ih =>
      obtain ⟨s₁, d₁, hp, h₁⟩ := put_of_writable (s := s) h c
      simp only [putAll, hp]
      exact ih h₁

theorem flush_of_writable (h : d.writable = true) : ∃ s' d', s.flush d = .ok (s', d') := by
  obtain ⟨d₁, hw, _⟩ := Disk.write_of_writable h s.handle s.buffer
  exact ⟨_, d₁, by rw [flush, hw]; rfl⟩

theorem flush_of_not_writable (h : d.writable = false) (hf : s.flush d = .ok (s', d')) :
    d' = d ∧ s.buffer = [] ∧ s'.buffer = [] := by
  obtain ⟨hw, rfl⟩ := flush_eq_ok hf
  obtain ⟨hsame, hnone⟩ := Disk.write_of_not_writable h hw
  exact ⟨hsame, hnone, rfl⟩

/-- If no bytes can be written, room is made only where there was room. -/
theorem makeRoom_of_not_writable (h : d.writable = false) {size : Nat}
    (hm : s.makeRoom d size = .ok (s', d')) : s' = s ∧ d' = d := by
  rcases makeRoom_eq_ok hm with hf | hsame
  · obtain ⟨hw, rfl⟩ := flush_eq_ok hf
    obtain ⟨rfl, hnone⟩ := Disk.write_of_not_writable h hw
    exact ⟨by rw [← hnone], rfl⟩
  · exact hsame

/-- If no bytes can be written, a chunk that is taken is in the buffer. -/
theorem put_of_not_writable (h : d.writable = false) {chunk : Bytes}
    (hp : s.put d chunk = .ok (s', d')) : d' = d ∧ s'.buffer = s.buffer ++ chunk := by
  obtain ⟨s₁, d₁, hm, hput⟩ := put_eq_ok hp
  obtain ⟨rfl, rfl⟩ := makeRoom_of_not_writable h hm
  rcases hput with ⟨hlarge, hw, rfl⟩ | ⟨rfl, rfl⟩
  · rw [(Disk.write_of_not_writable h hw).2] at hlarge
    cases hlarge
  · exact ⟨rfl, rfl⟩

theorem putAll_of_not_writable (h : d.writable = false) (cs : List Bytes) :
    (s.putAll d cs).2.2 = d ∧
      ((s.putAll d cs).1 = .ok () → (s.putAll d cs).2.1.buffer = s.buffer ++ cs.flatten) := by
  induction cs generalizing s d with
  | nil => exact ⟨rfl, fun _ => (List.append_nil _).symm⟩
  | cons c cs ih =>
      cases hp : s.put d c with
      | error e => simp [putAll, hp]
      | ok sd =>
          obtain ⟨s₁, d₁⟩ := sd
          obtain ⟨rfl, hbuffer⟩ := put_of_not_writable h hp
          obtain ⟨hsame, hall⟩ := ih (s := s₁) h
          simp only [putAll, hp]
          refine ⟨hsame, fun hok => ?_⟩
          rw [hall hok, hbuffer, List.flatten_cons, List.append_assoc]

/-! A sink whose file is gone goes on taking bytes, and they are lost. -/

theorem flush_of_still (h : d.Still s.handle) (hf : s.flush d = .ok (s', d')) :
    d' = d ∧ s' = { s with buffer := [] } := by
  obtain ⟨hw, hs⟩ := flush_eq_ok hf
  exact ⟨h _ _ hw, hs⟩

theorem put_of_still (h : d.Still s.handle) {chunk : Bytes} (hp : s.put d chunk = .ok (s', d')) :
    d' = d ∧ s'.handle = s.handle := by
  obtain ⟨s₁, d₁, hm, hput⟩ := put_eq_ok hp
  have hroom : d₁ = d ∧ s₁.handle = s.handle := by
    rcases makeRoom_eq_ok hm with hf | ⟨rfl, rfl⟩
    · obtain ⟨hsame, rfl⟩ := flush_of_still h hf
      exact ⟨hsame, rfl⟩
    · exact ⟨rfl, rfl⟩
  obtain ⟨rfl, hhandle⟩ := hroom
  rcases hput with ⟨_, hw, rfl⟩ | ⟨rfl, rfl⟩
  · exact ⟨h _ _ (hhandle ▸ hw), hhandle⟩
  · exact ⟨rfl, hhandle⟩

theorem putAll_of_still (h : d.Still s.handle) (cs : List Bytes) :
    (s.putAll d cs).2.2 = d ∧ (s.putAll d cs).2.1.handle = s.handle := by
  induction cs generalizing s d with
  | nil => exact ⟨rfl, rfl⟩
  | cons c cs ih =>
      cases hp : s.put d c with
      | error e => simp only [putAll, hp, and_self]
      | ok sd =>
          obtain ⟨s₁, d₁⟩ := sd
          obtain ⟨rfl, hhandle⟩ := put_of_still h hp
          simp only [putAll, hp]
          rw [← hhandle] at h ⊢
          exact ih h

/-! Whatever fails, fails because no bytes can be written. -/

theorem flush_eq_fileTooLarge {e : Fault} (h : s.flush d = .error e) : e = .fileTooLarge := by
  unfold flush at h
  cases hw : d.write s.handle s.buffer with
  | error e' =>
      simp only [hw, Except.map, Except.error.injEq] at h
      exact h ▸ Disk.write_eq_fileTooLarge hw
  | ok d' => simp [hw, Except.map] at h

theorem put_eq_fileTooLarge {e : Fault} {chunk : Bytes} (h : s.put d chunk = .error e) :
    e = .fileTooLarge := by
  unfold put at h
  cases hm : s.makeRoom d chunk.length with
  | error e' =>
      simp only [hm, Except.error.injEq] at h
      subst h
      unfold makeRoom at hm
      split at hm
      · exact flush_eq_fileTooLarge hm
      · cases hm
  | ok sd =>
      simp only [hm] at h
      split at h
      · cases hw : sd.2.write sd.1.handle chunk with
        | error e' =>
            simp only [hw, Except.map, Except.error.injEq] at h
            exact h ▸ Disk.write_eq_fileTooLarge hw
        | ok d' => simp [hw, Except.map] at h
      · cases h

theorem putAll_eq_fileTooLarge {e : Fault} {cs : List Bytes} (h : (s.putAll d cs).1 = .error e) :
    e = .fileTooLarge := by
  induction cs generalizing s d with
  | nil => cases h
  | cons c cs ih =>
      cases hp : s.put d c with
      | error e' =>
          simp only [putAll, hp, Except.error.injEq] at h
          exact h ▸ put_eq_fileTooLarge hp
      | ok sd =>
          simp only [putAll, hp] at h
          exact ih h

end Sink

end Allotment.Log
