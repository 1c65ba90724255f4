/-
**What the counters of a log say.**

The writer of a log counts the records appended since the log was opened or compacted, and those
among them that wait for a flush.  A rollback takes the second number off the first.  Both numbers
can be read off the calls themselves: an append that succeeded is open until the first flush that
succeeds or the first rollback behind it, and it is dropped if this is a rollback.  Whatever the
calls are, in whatever order, and however each of them ends, the first counter is the number of
appends that succeeded since the last swap less those that were dropped, and the second is the
number of those that are open.  So a rollback never takes off more than there is.

The disk has no part in this.  It may become anything between two calls, and so may the bytes in the
buffer, as when a flush writes them and still fails.

Main definitions:

* `Allotment.Log.Call`, `Allotment.Log.Done` — what may be asked of a writer, and how it ended;
* `Allotment.Log.Writer.callAll` — a run of calls, with how each of them ended;
* `Allotment.Log.recent` — the calls since the last swap that succeeded;
* `Allotment.Log.fates` — what has become of each append that succeeded;
* `Allotment.Log.Writer.Accounted` — what holds between two calls.

Main results:

* `Allotment.Log.Writer.Accounted.call`, `Allotment.Log.Writer.Accounted.callAll` — **the counters
  agree with the calls**, after one call and after a run;
* `Allotment.Log.Writer.Accounted.rollback_exact` — **a rollback never takes off too much**;
* `Allotment.Log.Writer.appendBatch_counters` — what a batch does to the counters.
-/

import Mathlib.Data.List.DropRight
import Allotment.Proofs.Log.Writer

set_option relaxedAutoImplicit false
set_option autoImplicit false

namespace Allotment.Log

/-! ### Calls and how they end -/

/-- What may be asked of the writer of a log, and what else may happen to it. -/
inductive Call where
  /-- A record is appended. -/
  | append (r : Record)
  /-- The records appended are to be confirmed. -/
  | flush
  /-- The records not confirmed are to be dropped. -/
  | rollback
  /-- Records are written to the temporary file. -/
  | writeCompacted (rs : List Record)
  /-- The temporary file is to take the place of the log. -/
  | swap
  /-- Something becomes of the bytes in the buffer and of the disk. -/
  | disturb (f : Bytes × Disk → Bytes × Disk)

/-- A call and whether it succeeded. -/
structure Done where
  /-- The call. -/
  call : Call
  /-- Whether it succeeded. -/
  ok : Bool

namespace Writer

/-- Makes a call: whether it succeeds, and what is left. -/
def call (w : Writer) (d : Disk) : Call → Bool × Writer × Disk
  | .append r => ((w.append d r).1.isOk, (w.append d r).2)
  | .flush =>
    match w.flush d with
    | .ok (w, d) => (true, w, d)
    | .error _ => (false, w, d)
  | .rollback => ((w.rollback d).1.isOk, (w.rollback d).2)
  | .writeCompacted rs =>
    ((writeCompacted d w.name rs).1.isOk, w, (writeCompacted d w.name rs).2)
  | .swap => ((w.swap d).1.isOk, (w.swap d).2)
  | .disturb f =>
    (true, { w with sink.buffer := (f (w.sink.buffer, d)).1 }, (f (w.sink.buffer, d)).2)

/-- Makes calls one after the other: how each of them ended, and what is left. -/
def callAll (w : Writer) (d : Disk) : List Call → List Done × Writer × Disk
  | [] => ([], w, d)
  | c :: cs =>
    let (ok, w, d) := w.call d c
    let (xs, w, d) := w.callAll d cs
    (⟨c, ok⟩ :: xs, w, d)

end Writer

/-! ### What the calls say -/

/-- What has become of an append that succeeded. -/
inductive Fate where
  /-- A flush has confirmed it. -/
  | confirmed
  /-- A rollback has dropped it. -/
  | dropped
deriving DecidableEq

namespace Done

/-- Whether this is an append that succeeded. -/
def accepted : Done → Bool
  | ⟨.append _, true⟩ => true
  | _ => false

/-- Whether this is a swap that succeeded. -/
def renews : Done → Bool
  | ⟨.swap, true⟩ => true
  | _ => false

/-- What becomes here of appends that are open.  A rollback drops them even if it fails. -/
def settles : Done → Option Fate
  | ⟨.flush, true⟩ => some .confirmed
  | ⟨.rollback, _⟩ => some .dropped
  | _ => none

end Done

/-- The calls since the last swap that succeeded. -/
def recent (xs : List Done) : List Done := xs.rtakeWhile fun x => !x.renews

/-- What becomes of an append with these calls behind it, unless it stays open. -/
def fate (xs : List Done) : Option Fate := xs.findSome? Done.settles

/-- What has become of each append that succeeded, in their order. -/
def fates : List Done → List (Option Fate)
  | [] => []
  | x :: xs => if x.accepted then fate xs :: fates xs else fates xs

theorem length_fates (xs : List Done) : (fates xs).length = xs.countP Done.accepted := by
  induction xs with
  | nil => rfl
  | cons x xs ih =>
      rw [fates, List.countP_cons]
      split
      · rw [List.length_cons, ih]
      · rw [ih, Nat.add_zero]

/-- One more call settles what is open, or is an append that is open itself. -/
theorem fates_snoc (xs : List Done) (x : Done) :
    fates (xs ++ [x]) =
      (fates xs).map (·.or x.settles) ++ if x.accepted then [none] else [] := by
  induction xs with
  | nil => simp only [List.nil_append, fates, fate, List.findSome?_nil, List.map_nil]
  | cons y xs ih =>
      rw [List.cons_append, fates, fates, ih]
      split
      · simp [fate, List.findSome?_append]
      · rfl

theorem recent_snoc_of_renews {x : Done} (h : x.renews = true) (xs : List Done) :
    recent (xs ++ [x]) = [] :=
  List.rtakeWhile_concat_neg _ _ _ (by simp [h])

theorem recent_snoc {x : Done} (h : x.renews = false) (xs : List Done) :
    recent (xs ++ [x]) = recent xs ++ [x] :=
  List.rtakeWhile_concat_pos _ _ _ (by simp [h])

/-! Counting what is open and what was dropped. -/

section Counting

variable (fs : List (Option Fate))

theorem count_none_add_count_dropped_le :
    fs.count none + fs.count (some .dropped) ≤ fs.length := by
  induction fs with
  | nil => exact Nat.le_refl 0
  | cons f fs ih =>
      rw [List.length_cons, List.count_cons, List.count_cons]
      rcases f with _ | _ | _ <;>
        simp only [beq_iff_eq, Option.some.injEq, reduceCtorEq, if_true, if_false] <;> omega

/-- Nothing is open once everything is settled. -/
theorem count_none_map_or (f : Fate) : (fs.map (·.or (some f))).count none = 0 := by
  rw [List.count_eq_zero]
  intro h
  obtain ⟨g, _, hg⟩ := List.mem_map.1 h
  cases g <;> cases hg

/-- A flush drops nothing. -/
theorem count_dropped_map_or_confirmed :
    (fs.map (·.or (some .confirmed))).count (some .dropped) = fs.count (some .dropped) := by
  induction fs with
  | nil => rfl
  | cons f fs ih =>
      rw [List.map_cons, List.count_cons, List.count_cons, ih]
      cases f <;> rfl

/-- A rollback drops what is open. -/
theorem count_dropped_map_or_dropped :
    (fs.map (·.or (some .dropped))).count (some .dropped) =
      fs.count (some .dropped) + fs.count none := by
  induction fs with
  | nil => rfl
  | cons f fs ih =>
      rw [List.map_cons, List.count_cons, List.count_cons, List.count_cons, ih]
      rcases f with _ | _ | _ <;>
        simp only [Option.or_some, Option.getD_none, Option.getD_some, beq_iff_eq, reduceCtorEq,
          Option.some.injEq, if_true, if_false] <;> omega

end Counting

namespace Writer

variable {w : Writer} {d : Disk} {xs : List Done}

/-! ### What each call does to the counters -/

/-- An append counts if it succeeds. -/
theorem append_counters (w : Writer) (d : Disk) (r : Record) :
    ((w.append d r).1 = .ok () ∧ (w.append d r).2.1.appends = w.appends + 1 ∧
      (w.append d r).2.1.pendingAppends = w.pendingAppends + 1) ∨
    ((∃ e, (w.append d r).1 = .error e) ∧ (w.append d r).2.1.appends = w.appends ∧
      (w.append d r).2.1.pendingAppends = w.pendingAppends) := by
  unfold append
  split
  · exact Or.inr ⟨⟨_, rfl⟩, rfl, rfl⟩
  · rcases w.sink.putAll d (chunks r) with ⟨e | u, sink, d'⟩
    · exact Or.inr ⟨⟨e, rfl⟩, rfl, rfl⟩
    · exact Or.inl ⟨rfl, rfl, rfl⟩

/-- A flush that succeeds leaves nothing open. -/
theorem counters_of_flush {w' : Writer} {d' : Disk} (h : w.flush d = .ok (w', d')) :
    w'.appends = w.appends ∧ w'.pendingAppends = 0 := by
  obtain ⟨s, _, rfl⟩ := flush_eq_ok h
  exact ⟨rfl, rfl⟩

/-- A rollback takes off what is open, whether or not it succeeds. -/
theorem rollback_counters (w : Writer) (d : Disk) :
    (w.rollback d).2.1.appends = w.appends - w.pendingAppends ∧
      (w.rollback d).2.1.pendingAppends = 0 := by
  unfold rollback
  simp only
  split
  · exact ⟨rfl, rfl⟩
  · split
    · exact ⟨rfl, rfl⟩
    · exact ⟨rfl, rfl⟩

/-- A writer that starts on a file has counted nothing. -/
theorem counters_of_ofFile {d' : Disk} {file : String} (h : ofFile d file = .ok (w, d')) :
    w.appends = 0 ∧ w.pendingAppends = 0 := by
  unfold ofFile at h
  cases ho : d.openAppend file with
  | error e =>
      rw [ho] at h
      cases h
  | ok opened =>
      rw [ho] at h
      cases h
      exact ⟨rfl, rfl⟩

/-- A swap that succeeds starts anew, and one that fails changes nothing. -/
theorem swap_counters (w : Writer) (d : Disk) :
    ((w.swap d).1 = .ok () ∧ (w.swap d).2.1.appends = 0 ∧ (w.swap d).2.1.pendingAppends = 0) ∨
    ((∃ e, (w.swap d).1 = .error e) ∧ (w.swap d).2.1 = w) := by
  unfold swap
  cases d.rename (temporaryName w.name) w.name with
  | error e => exact Or.inr ⟨⟨e, rfl⟩, rfl⟩
  | ok d' =>
      simp only
      cases ho : ofFile d' w.name with
      | error e => exact Or.inr ⟨⟨e, rfl⟩, rfl⟩
      | ok opened => exact Or.inl ⟨rfl, counters_of_ofFile ho⟩

/-- A compaction that succeeds starts anew, and one that fails changes nothing. -/
theorem compact_counters (w : Writer) (d : Disk) (rs : List Record) :
    ((w.compact d rs).1 = .ok () ∧ (w.compact d rs).2.1.appends = 0 ∧
      (w.compact d rs).2.1.pendingAppends = 0) ∨
    ((∃ e, (w.compact d rs).1 = .error e) ∧ (w.compact d rs).2.1 = w) := by
  unfold compact
  rcases writeCompacted d w.name rs with ⟨e | u, d'⟩
  · exact Or.inr ⟨⟨e, rfl⟩, rfl⟩
  · exact w.swap_counters d'

/-! ### Runs of calls -/

/-- **What holds between two calls**, if the log has seen these calls since it was opened. -/
structure Accounted (xs : List Done) (w : Writer) : Prop where
  /-- What waits for a flush is open. -/
  pending : w.pendingAppends = (fates (recent xs)).count none
  /-- What succeeded was counted, but for what was dropped. -/
  appends : w.appends + (fates (recent xs)).count (some .dropped) = (fates (recent xs)).length

namespace Accounted

/-- A log that was opened just now. -/
theorem of_zero (h : w.appends = 0 ∧ w.pendingAppends = 0) : Accounted [] w :=
  ⟨h.2, by rw [h.1]; rfl⟩

/-- What is open was counted. -/
theorem pending_le (h : Accounted xs w) : w.pendingAppends ≤ w.appends := by
  have hle := count_none_add_count_dropped_le (fates (recent xs))
  rw [h.pending]
  have happends := h.appends
  omega

/-- **A rollback takes off what was counted before.** -/
theorem rollback_exact (h : Accounted xs w) (d : Disk) :
    (w.rollback d).2.1.appends + w.pendingAppends = w.appends := by
  rw [(w.rollback_counters d).1]
  exact Nat.sub_add_cancel h.pending_le

/-- A call that settles nothing, and that no counter knows of. -/
theorem skip (h : Accounted xs w) {x : Done} {w' : Writer} (hx : x.renews = false)
    (hs : x.settles = none) (ha : x.accepted = false) (happends : w'.appends = w.appends)
    (hpending : w'.pendingAppends = w.pendingAppends) : Accounted (xs ++ [x]) w' := by
  have hfates : fates (recent (xs ++ [x])) = fates (recent xs) := by
    rw [recent_snoc hx, fates_snoc, hs, ha]
    simp
  constructor
  · rw [hfates, hpending, h.pending]
  · rw [hfates, happends, h.appends]

/-- **The counters agree with the calls after one more call.** -/
theorem call (h : Accounted xs w) (d : Disk) (c : Call) :
    Accounted (xs ++ [⟨c, (w.call d c).1⟩]) (w.call d c).2.1 := by
  cases c with
  | append r =>
      rcases w.append_counters d r with ⟨hok, happends, hpending⟩ | ⟨⟨e, he⟩, happends, hpending⟩
      · simp only [Writer.call, hok]
        have hfates : fates (recent (xs ++ [⟨.append r, true⟩])) = fates (recent xs) ++ [none] := by
          rw [recent_snoc rfl, fates_snoc]
          simp [Done.settles, Done.accepted]
        constructor
        · rw [Except.isOk, Except.toBool, hfates, hpending, h.pending]
          simp
        · rw [Except.isOk, Except.toBool, hfates, happends]
          have hold := h.appends
          simp
          omega
      · simp only [Writer.call, he]
        exact h.skip rfl rfl rfl happends hpending
  | flush =>
      unfold Writer.call
      cases hf : w.flush d with
      | error e => exact h.skip rfl rfl rfl rfl rfl
      | ok wd =>
          obtain ⟨happends, hpending⟩ := counters_of_flush hf
          have hfates : fates (recent (xs ++ [⟨.flush, true⟩])) =
              (fates (recent xs)).map (·.or (some .confirmed)) := by
            rw [recent_snoc rfl, fates_snoc]
            simp [Done.settles, Done.accepted]
          constructor
          · rw [hfates, hpending, count_none_map_or]
          · rw [hfates, happends, count_dropped_map_or_confirmed, List.length_map, h.appends]
  | rollback =>
      obtain ⟨happends, hpending⟩ := w.rollback_counters d
      have hexact := h.rollback_exact d
      have hfates : ∀ ok, fates (recent (xs ++ [⟨.rollback, ok⟩])) =
          (fates (recent xs)).map (·.or (some .dropped)) := by
        intro ok
        rw [recent_snoc rfl, fates_snoc]
        simp [Done.settles, Done.accepted]
      constructor
      · rw [Writer.call, hfates, hpending, count_none_map_or]
      · change (w.rollback d).2.1.appends + _ = _
        rw [Writer.call, hfates, count_dropped_map_or_dropped, List.length_map, ← h.appends,
          ← h.pending, ← hexact]
        omega
  | writeCompacted rs => exact h.skip rfl rfl rfl rfl rfl
  | swap =>
      rcases w.swap_counters d with ⟨hok, happends, hpending⟩ | ⟨⟨e, he⟩, hsame⟩
      · simp only [Writer.call, hok]
        have hrecent : recent (xs ++ [⟨.swap, true⟩]) = [] := recent_snoc_of_renews rfl xs
        constructor
        · rw [Except.isOk, Except.toBool, hrecent, hpending]
          rfl
        · rw [Except.isOk, Except.toBool, hrecent, happends]
          rfl
      · simp only [Writer.call, he, hsame]
        exact h.skip rfl rfl rfl rfl rfl
  | disturb f => exact h.skip rfl rfl rfl rfl rfl

/-- **The counters agree with the calls after any run.** -/
theorem callAll (h : Accounted xs w) (d : Disk) (cs : List Call) :
    Accounted (xs ++ (w.callAll d cs).1) (w.callAll d cs).2.1 := by
  induction cs generalizing xs w d with
  | nil =>
      rw [Writer.callAll, List.append_nil]
      exact h
  | cons c cs ih =>
      have hrest := ih (h.call d c) (w.call d c).2.2
      rwa [List.append_assoc] at hrest

end Accounted

/-! ### Batches -/

/-- Appends count one by one, up to the one that fails. -/
theorem appendAll_counters (w : Writer) (d : Disk) (rs : List Record) :
    ∃ k, (w.appendAll d rs).2.1.appends = w.appends + k ∧
      (w.appendAll d rs).2.1.pendingAppends = w.pendingAppends + k ∧
      ((w.appendAll d rs).1 = .ok () → k = rs.length) := by
  induction rs generalizing w d with
  | nil => exact ⟨0, rfl, rfl, fun _ => rfl⟩
  | cons r rs ih =>
      rw [appendAll]
      rcases hp : w.append d r with ⟨result, w₁, d₁⟩
      have hcounters := w.append_counters d r
      rw [hp] at hcounters
      rcases hcounters with ⟨hok, happends, hpending⟩ | ⟨⟨e, he⟩, happends, hpending⟩
      · obtain rfl : result = .ok () := hok
        obtain ⟨k, hk, hpk, hall⟩ := ih w₁ d₁
        refine ⟨k + 1, ?_, ?_, fun h => congrArg (· + 1) (hall h)⟩
        · rw [hk, happends, Nat.add_assoc, Nat.add_comm 1]
        · rw [hpk, hpending, Nat.add_assoc, Nat.add_comm 1]
      · obtain rfl : result = .error e := he
        refine ⟨0, happends, hpending, ?_⟩
        intro h
        cases h

/-- **A batch counts as a whole or not at all**, whatever the disk, and leaves nothing open. -/
theorem appendBatch_counters (h : w.pendingAppends = 0) (d : Disk) (rs : List Record) :
    (w.appendBatch d rs).2.1.pendingAppends = 0 ∧
      (((w.appendBatch d rs).1 = .ok () ∧
          (w.appendBatch d rs).2.1.appends = w.appends + rs.length) ∨
        ((∃ e, (w.appendBatch d rs).1 = .error e) ∧
          (w.appendBatch d rs).2.1.appends = w.appends)) := by
  obtain ⟨k, hk, hpk, hall⟩ := w.appendAll_counters d rs
  unfold appendBatch
  rcases hp : w.appendAll d rs with ⟨result, w₁, d₁⟩
  rw [hp] at hk hpk hall
  -- a rollback takes off what the batch has counted so far
  have hback : ∀ d', (w₁.rollback d').2.1.appends = w.appends := by
    intro d'
    simp only at hk hpk
    rw [(w₁.rollback_counters d').1]
    omega
  cases result with
  | error e => exact ⟨(w₁.rollback_counters d₁).2, Or.inr ⟨⟨e, rfl⟩, hback d₁⟩⟩
  | ok u =>
      simp only
      cases hf : w₁.flush d₁ with
      | error e => exact ⟨(w₁.rollback_counters d₁).2, Or.inr ⟨⟨e, rfl⟩, hback d₁⟩⟩
      | ok wd =>
          obtain ⟨happends, hpending⟩ := counters_of_flush hf
          exact ⟨hpending, Or.inl ⟨rfl, by rw [happends, hk, hall rfl]⟩⟩

end Writer

end Allotment.Log
