/-
**Logs that end inside a frame.**

A log can end anywhere: a crash may leave any number of bytes of the frame that was being written.
What a reader makes of such a log rests on two facts.  A frame is read from its own bytes alone, so
nothing that stands behind it can change what it is read as; and a frame that is cut short is not
read at all, because a reader that took it would have taken it from the whole frame too, with fewer
bytes than the frame has.

Main definitions:

* `Allotment.Log.framed` — records with the places at which their frames end;
* `Allotment.Log.wholeBy` — the records whose frames end at or before a place.

Main results:

* `Allotment.Log.frame?_inv` — **a frame is read from its own bytes alone**;
* `Allotment.Log.frame?_take_frame` — a frame that is cut short is not read;
* `Allotment.Log.scan_take_good` — cutting a log behind its readable frames changes nothing;
* `Allotment.Log.scan_take_frames` — **what is read from a log that was cut anywhere**.
-/

import Allotment.Log.Frame

set_option relaxedAutoImplicit false
set_option autoImplicit false

namespace Allotment.Log

/-! ### Readers take their own bytes only -/

/-- What a reader of numbers takes is a front of that width, and nothing behind it matters. -/
theorem word?_inv {width n : Nat} {bs rest : Bytes} (h : word? width bs = some (n, rest)) :
    ∃ front, bs = front ++ rest ∧ front.length = width ∧
      ∀ rest', word? width (front ++ rest') = some (n, rest') := by
  simp only [word?, Option.map_eq_some_iff, Prod.exists, Prod.mk.injEq] at h
  obtain ⟨front, rest₁, hc, hn, rfl⟩ := h
  obtain ⟨hl, hbs⟩ := eq_append_of_chunk? hc
  refine ⟨front, hbs, hl, ?_⟩
  intro rest'
  have hc' := chunk?_append front rest'
  rw [hl] at hc'
  simp only [word?, hc', Option.map_some, hn]

/-- **A frame is read from its own bytes alone.**  The frame is a length, a payload of that length
and a checksum; the record comes from the payload. -/
theorem frame?_inv {bs rest : Bytes} {r : Record} {size : Nat}
    (h : frame? bs = some (r, size, rest)) :
    ∃ front p, bs = front ++ rest ∧ front.length = size ∧ size = p.length + 8 ∧
      p.length ≤ payloadLimit ∧ record? p = some r ∧
      ∀ rest', frame? (front ++ rest') = some (r, size, rest') := by
  simp only [frame?, Option.bind_eq_bind, Option.bind_eq_some_iff, Prod.exists] at h
  obtain ⟨n, bs₁, h₁, h⟩ := h
  split at h
  · simp at h
  next hle =>
  simp only [Option.bind_eq_some_iff, Prod.exists] at h
  obtain ⟨p, bs₂, h₂, check, bs₃, h₃, h⟩ := h
  split at h
  · simp at h
  next hcheck =>
  simp only [Option.bind_eq_some_iff, Option.pure_def, Option.some.injEq, Prod.mk.injEq] at h
  obtain ⟨r', hr, rfl, rfl, rfl⟩ := h
  obtain ⟨front₁, rfl, hl₁, hw₁⟩ := word?_inv h₁
  obtain ⟨hp, rfl⟩ := eq_append_of_chunk? h₂
  obtain ⟨front₃, rfl, hl₃, hw₃⟩ := word?_inv h₃
  refine ⟨front₁ ++ (p ++ front₃), p, by simp, by simp; omega, by omega, by omega, hr, ?_⟩
  intro rest'
  have hc := chunk?_append p (front₃ ++ rest')
  rw [hp] at hc
  simp only [frame?, List.append_assoc, hw₁, Option.bind_eq_bind, Option.bind_some, if_neg hle, hc,
    hw₃, if_neg hcheck, hr]
  rfl

/-- A frame that is cut short is not read. -/
theorem frame?_take_frame {r : Record} (h : Readable r) {n : Nat} (hn : n < (frame r).length) :
    frame? ((frame r).take n) = none := by
  cases hf : frame? ((frame r).take n) with
  | none => rfl
  | some f =>
      obtain ⟨r', size, rest⟩ := f
      obtain ⟨front, _, hbs, hl, _, _, _, hany⟩ := frame?_inv hf
      -- what was read from the part would also be read from the whole, with its smaller size
      have whole : frame r = front ++ (rest ++ (frame r).drop n) := by
        rw [← List.append_assoc, ← hbs, List.take_append_drop]
      have hread := frame?_append h []
      rw [List.append_nil, whole, hany] at hread
      simp only [Option.some.injEq, Prod.mk.injEq] at hread
      have hsize : size = (frame r).length := by rw [whole]; exact hread.2.1
      have hlen := congrArg List.length hbs
      simp only [List.length_take, List.length_append] at hlen
      omega

/-! ### Cutting a log behind its readable frames -/

/-- The readable frames are a front of the log. -/
theorem good_le_length (bs : Bytes) : (scan bs).good ≤ bs.length := by
  induction hn : bs.length using Nat.strongRecOn generalizing bs with
  | _ n ih =>
      rw [scan_eq]
      split
      · exact Nat.zero_le _
      next r size rest hf =>
        have hlen := length_of_frame? hf
        have := ih rest.length (by omega) rest rfl
        simp only
        omega

/-- Of a log only its readable frames matter, whatever stands behind them in place of the rest, as
long as no frame can be read there. -/
theorem scan_take_good_append (bs tail : Bytes) (ht : frame? tail = none) :
    scan (bs.take (scan bs).good ++ tail) = scan bs := by
  induction hn : bs.length using Nat.strongRecOn generalizing bs with
  | _ n ih =>
      cases hf : frame? bs with
      | none =>
          have hz : scan bs = ⟨[], 0⟩ := by rw [scan_eq, hf]
          rw [hz, List.take_zero, List.nil_append, scan_eq, ht]
      | some f =>
          obtain ⟨r, size, rest⟩ := f
          have hlen := length_of_frame? hf
          obtain ⟨front, _, hbs, hl, _, _, _, hany⟩ := frame?_inv hf
          have hs : scan bs = ⟨r :: (scan rest).records, size + (scan rest).good⟩ := by
            rw [scan_eq, hf]
          have htake : bs.take (size + (scan rest).good) = front ++ rest.take (scan rest).good := by
            rw [hbs, ← hl, List.take_length_add_append]
          have hrest := ih rest.length (by omega) rest rfl
          rw [hs, htake, List.append_assoc, scan_eq, hany]
          simp only [hrest]

/-- Cutting a log behind its readable frames changes nothing. -/
theorem scan_take_good (bs : Bytes) : scan (bs.take (scan bs).good) = scan bs := by
  have := scan_take_good_append bs [] rfl
  rwa [List.append_nil] at this

/-! ### Cutting a log of written records anywhere -/

theorem frames_cons (r : Record) (rs : List Record) : frames (r :: rs) = frame r ++ frames rs :=
  List.flatMap_cons

theorem frames_append (rs ss : List Record) : frames (rs ++ ss) = frames rs ++ frames ss :=
  List.flatMap_append

/-- Records with the places at which their frames end, if the first frame starts at `start`. -/
def framed (start : Nat) : List Record → List (Record × Nat)
  | [] => []
  | r :: rs => (r, start + (frame r).length) :: framed (start + (frame r).length) rs

/-- The records whose frames end at or before `n`, with the places at which they end. -/
def wholeBy (n : Nat) (rs : List Record) : List (Record × Nat) :=
  (framed 0 rs).filter fun f => f.2 ≤ n

/-- Where the last of some frames ends; `start` if there is none. -/
def lastEnd (start : Nat) (fs : List (Record × Nat)) : Nat := (fs.getLast?.map (·.2)).getD start

theorem lastEnd_cons (start : Nat) (f : Record × Nat) (fs : List (Record × Nat)) :
    lastEnd start (f :: fs) = lastEnd f.2 fs := by
  cases fs with
  | nil => rfl
  | cons g fs => simp [lastEnd, List.getLast?_cons]

/-- No frame ends before the first one starts. -/
theorem le_of_mem_framed {start : Nat} {rs : List Record} {f : Record × Nat}
    (h : f ∈ framed start rs) : start ≤ f.2 := by
  induction rs generalizing start with
  | nil => simp [framed] at h
  | cons r rs ih =>
      rcases List.mem_cons.1 h with rfl | h
      · exact Nat.le_add_right _ _
      · exact Nat.le_trans (Nat.le_add_right _ _) (ih h)

/-- The last frame ends where the log ends. -/
theorem lastEnd_framed (start : Nat) (rs : List Record) :
    lastEnd start (framed start rs) = start + (frames rs).length := by
  induction rs generalizing start with
  | nil => rfl
  | cons r rs ih =>
      rw [framed, lastEnd_cons, ih, frames_cons, List.length_append, Nat.add_assoc]

/-- No frame ends behind the log. -/
theorem le_length_of_mem_framed {start : Nat} {rs : List Record} {f : Record × Nat}
    (h : f ∈ framed start rs) : f.2 ≤ start + (frames rs).length := by
  induction rs generalizing start with
  | nil => simp [framed] at h
  | cons r rs ih =>
      rw [frames_cons, List.length_append]
      rcases List.mem_cons.1 h with rfl | h
      · simp only
        omega
      · have := ih h
        omega

/-- The scan of a log that was cut after `n` bytes, with all places shifted by `start`. -/
theorem scan_take_frames_shifted {rs : List Record} (h : ∀ r ∈ rs, Readable r) (start n : Nat) :
    (scan ((frames rs).take n)).records =
        ((framed start rs).filter fun f => f.2 ≤ start + n).map (·.1) ∧
      start + (scan ((frames rs).take n)).good =
        lastEnd start ((framed start rs).filter fun f => f.2 ≤ start + n) := by
  induction rs generalizing start n with
  | nil =>
      have hnil : (frames []).take n = [] := List.take_nil
      rw [hnil]
      exact ⟨rfl, rfl⟩
  | cons r rs ih =>
      have hr : Readable r := h r (by simp)
      rw [frames_cons, framed]
      by_cases hle : (frame r).length ≤ n
      · -- the first frame is whole: it is read, and the rest is a shorter log cut earlier
        obtain ⟨m, rfl⟩ : ∃ m, n = (frame r).length + m := ⟨n - (frame r).length, by omega⟩
        have hrest := ih (fun s hs => h s (by simp [hs])) (start + (frame r).length) m
        have hkeep : decide (start + (frame r).length ≤ start + ((frame r).length + m)) = true := by
          simp
        rw [List.take_length_add_append, scan_eq, frame?_append hr, List.filter_cons, if_pos hkeep,
          List.map_cons, lastEnd_cons, ← Nat.add_assoc start]
        exact ⟨congrArg _ hrest.1, by rw [← hrest.2]; simp only; omega⟩
      · -- the first frame is cut: nothing is read, and every later frame ends behind the cut
        have htake : (frame r ++ frames rs).take n = (frame r).take n :=
          List.take_append_of_le_length (by omega)
        have hdrop : ((r, start + (frame r).length) ::
            framed (start + (frame r).length) rs).filter (fun f => f.2 ≤ start + n) = [] := by
          rw [List.filter_eq_nil_iff]
          intro f hf
          rw [decide_eq_true_eq]
          rcases List.mem_cons.1 hf with rfl | hf
          · simp only
            omega
          · have := le_of_mem_framed hf
            omega
        rw [htake, hdrop, scan_eq, frame?_take_frame hr (by omega)]
        exact ⟨rfl, rfl⟩

/-- **What is read from a log that was cut anywhere.**  From the first `n` bytes of a log of
readable records a scan gives exactly the records whose frames end at or before `n`, in their
order, and the cut it asks for is the end of the last of these frames, if that is not `n` itself.
From the whole log it gives all records and asks for no cut. -/
theorem scan_take_frames {rs : List Record} (h : ∀ r ∈ rs, Readable r) {n : Nat}
    (hn : n ≤ (frames rs).length) :
    (scan ((frames rs).take n)).records = (wholeBy n rs).map (·.1) ∧
      (scan ((frames rs).take n)).cut? ((frames rs).take n).length =
        (if lastEnd 0 (wholeBy n rs) = n then none else some (lastEnd 0 (wholeBy n rs))) ∧
      (n = (frames rs).length →
        (scan ((frames rs).take n)).records = rs ∧ lastEnd 0 (wholeBy n rs) = n) := by
  obtain ⟨hrecords, hgood⟩ := scan_take_frames_shifted h 0 n
  rw [Nat.zero_add, Nat.zero_add] at hgood
  simp only [Nat.zero_add] at hrecords
  have hlen : ((frames rs).take n).length = n := by rw [List.length_take]; omega
  have hle := good_le_length ((frames rs).take n)
  rw [hlen] at hle
  refine ⟨hrecords, ?_, ?_⟩
  · rw [hlen, Scan.cut?, hgood]
    rw [hgood] at hle
    change lastEnd 0 (wholeBy n rs) ≤ n at hle
    change (if lastEnd 0 (wholeBy n rs) < n then some (lastEnd 0 (wholeBy n rs)) else none) = _
    by_cases heq : lastEnd 0 (wholeBy n rs) = n
    · rw [if_pos heq, if_neg (by omega)]
    · rw [if_neg heq, if_pos (by omega)]
  · rintro rfl
    have hall : wholeBy (frames rs).length rs = framed 0 rs := by
      rw [wholeBy, List.filter_eq_self]
      intro f hf
      have := le_length_of_mem_framed hf
      rw [Nat.zero_add] at this
      exact decide_eq_true this
    rw [hall, lastEnd_framed, Nat.zero_add, List.take_length, scan_frames h]
    exact ⟨rfl, rfl⟩

/-- A log of two records that was cut inside the second frame gives the first record. -/
theorem scan_take_frames_in_second :
    let rs : List Record :=
      [.created ⟨7⟩ ⟨⟨5, 2⟩, "Süd", "tour", ⟨-44, 3, 15, by decide⟩⟩ ⟨⟨1⟩⟩,
       .allocated ⟨⟨9⟩, ⟨7⟩, some "BK-1", 3, -1⟩ ⟨⟨2⟩⟩]
    (∀ r ∈ rs, Readable r) ∧ 200 ≤ (frames rs).length ∧
      (scan ((frames rs).take 200)).records = rs.take 1 ∧
      (scan ((frames rs).take 200)).cut? ((frames rs).take 200).length = some 131 := by
  intro rs
  have h : ∀ r ∈ rs, Readable r := by decide +kernel
  have hn : 200 ≤ (frames rs).length := by decide +kernel
  obtain ⟨hrecords, hcut, _⟩ := scan_take_frames h hn
  have hwhole : (wholeBy 200 rs).map (·.1) = rs.take 1 := by decide +kernel
  have hend : lastEnd 0 (wholeBy 200 rs) = 131 := by decide +kernel
  refine ⟨h, hn, hrecords.trans hwhole, hcut.trans ?_⟩
  rw [hend]
  rfl

end Allotment.Log
