/-
**Files that nobody else touches.**

What the operations on files do is said here for a file that is known to be under a name.  Such a
file can always be read, opened and cut, whether or not bytes can be written; and what writing,
cutting and emptying do to the disk is to give the name a file with other bytes and the same serial
number.  So the disk after any number of these operations is the disk before them with one entry
replaced.

Main results:

* `Allotment.Disk.setEntry_setEntry`, `Allotment.Disk.setEntry_self` — of several replacements of
  one entry the last one counts, and replacing an entry by itself changes nothing;
* `Allotment.Disk.write_of_file?`, `Allotment.Disk.setLength_of_file?` — **writing and cutting
  replace the entry of the file**;
* `Allotment.Disk.create_cases`, `Allotment.Disk.rename_of_file?` — a second file takes the place of
  the first;
* `Allotment.Disk.openAppend_cases`, `Allotment.Disk.setLength_cases` — what can come of opening and
  of cutting a file that may be gone;
* `Allotment.Disk.still_of_gone` — what is written to a file that is gone changes nothing.
-/

import Allotment.Disk

set_option relaxedAutoImplicit false
set_option autoImplicit false

namespace Allotment.Disk

open Log (Bytes)

/-! ### Entries -/

theorem entry?_of_place {d : Disk} {es : Entries} (hp : d.place = .directory es) (name : String) :
    d.entry? name = es[name]? := by
  unfold entry?
  rw [hp]

/-- The names in the directory are those that stand for something. -/
theorem mem_iff_entry? {d : Disk} {es : Entries} (hp : d.place = .directory es) {name : String} :
    name ∈ es ↔ d.entry? name ≠ none := by
  rw [Std.ExtTreeMap.mem_iff_isSome_getElem?, entry?_of_place hp, Option.isSome_iff_ne_none]

theorem file?_eq_some_iff {d : Disk} {name : String} {f : File} :
    d.file? name = some f ↔ ∃ es, d.place = .directory es ∧ es[name]? = some (.file f) := by
  unfold file? entry?
  cases hp : d.place with
  | missing => simp
  | occupied => simp
  | directory es =>
      cases he : es[name]? with
      | none => simp [he]
      | some e =>
          cases e with
          | directory => simp [he]
          | file g => simp [he]

theorem entry?_of_file? {d : Disk} {name : String} {f : File} (h : d.file? name = some f) :
    d.entry? name = some (.file f) := by
  obtain ⟨es, hp, he⟩ := file?_eq_some_iff.1 h
  rw [entry?_of_place hp, he]

theorem file?_of_entry? {d : Disk} {name : String} {f : File}
    (h : d.entry? name = some (.file f)) : d.file? name = some f := by
  rw [file?, h]

theorem entry?_setEntry {d : Disk} {name : String} {f : File} (h : d.file? name = some f)
    (e : Entry) (x : String) :
    entry? (d.setEntry name e) x = if name = x then some e else d.entry? x := by
  obtain ⟨es, hp, _⟩ := file?_eq_some_iff.1 h
  simp [ entry?, setEntry, hp, Std.ExtTreeMap.getElem?_insert]

/-- An entry that is replaced stands for the file it was replaced by. -/
theorem file?_setEntry {d : Disk} {name : String} {f : File} (h : d.file? name = some f)
    (g : File) : (d.setEntry name (.file g)).file? name = some g := by
  apply file?_of_entry?
  rw [entry?_setEntry h, if_pos rfl]

/-- Of two replacements of one entry the second one counts. -/
theorem setEntry_setEntry (d : Disk) (name : String) (e e' : Entry) :
    (d.setEntry name e).setEntry name e' = d.setEntry name e' := by
  unfold setEntry
  cases hp : d.place with
  | missing => simp [hp]
  | occupied => simp [hp]
  | directory es =>
      have : (es.insert name e).insert name e' = es.insert name e' := by
        apply Std.ExtTreeMap.ext_getElem?
        intro k
        simp only [Std.ExtTreeMap.getElem?_insert]
        split <;> rfl
      simp [this]

/-- Replacing an entry by itself changes nothing. -/
theorem setEntry_self {d : Disk} {name : String} {f : File} (h : d.file? name = some f) :
    d.setEntry name (.file f) = d := by
  obtain ⟨es, hp, he⟩ := file?_eq_some_iff.1 h
  have : es.insert name (.file f) = es := by
    apply Std.ExtTreeMap.ext_getElem?
    intro k
    rw [Std.ExtTreeMap.getElem?_insert]
    split
    · next hk =>
      rw [Std.LawfulEqOrd.compare_eq_iff_eq] at hk
      rw [← hk, he]
    · rfl
  cases d
  simp_all [setEntry]

@[simp] theorem writable_setEntry (d : Disk) (name : String) (e : Entry) :
    (d.setEntry name e).writable = d.writable := by
  unfold setEntry
  split <;> rfl

/-! ### Operations on a file that is there -/

theorem read_of_file? {d : Disk} {name : String} {f : File} (h : d.file? name = some f) :
    d.read name = .ok f.bytes := by
  obtain ⟨es, hp, he⟩ := file?_eq_some_iff.1 h
  simp only [read, entries, hp, he]

theorem size?_of_file? {d : Disk} {name : String} {f : File} (h : d.file? name = some f) :
    d.size? name = some f.bytes.length := by
  rw [size?, entry?_of_file? h]
  rfl

theorem openAppend_of_file? {d : Disk} {name : String} {f : File} (h : d.file? name = some f) :
    d.openAppend name = .ok (⟨name, f.serial⟩, d) := by
  obtain ⟨es, hp, he⟩ := file?_eq_some_iff.1 h
  simp only [openAppend, entries, hp, he]

/-- Bytes are added to the end of the file that a handle was opened on. -/
theorem append_of_file? {d : Disk} {k : Handle} {bs : Bytes}
    (h : d.file? k.name = some ⟨k.serial, bs⟩) (new : Bytes) :
    d.append k new = d.setEntry k.name (.file ⟨k.serial, bs ++ new⟩) := by
  simp [append, h]

/-- **Writing adds bytes to the file of the handle.** -/
theorem write_of_file? {d d' : Disk} {k : Handle} {bs new : Bytes}
    (h : d.file? k.name = some ⟨k.serial, bs⟩) (hw : d.write k new = .ok d') :
    d' = d.setEntry k.name (.file ⟨k.serial, bs ++ new⟩) := by
  unfold write at hw
  by_cases hn : new.isEmpty
  · rw [if_pos hn] at hw
    cases hw
    rw [List.isEmpty_iff.1 hn, List.append_nil, setEntry_self h]
  · rw [if_neg hn] at hw
    split at hw
    · cases hw
      exact append_of_file? h new
    · cases hw

/-- Writing succeeds if bytes can be written. -/
theorem write_of_writable {d : Disk} (h : d.writable = true) (k : Handle) (new : Bytes) :
    ∃ d', d.write k new = .ok d' ∧ d'.writable = true := by
  unfold write
  rw [if_pos h]
  split
  · exact ⟨d, rfl, h⟩
  · refine ⟨d.append k new, rfl, ?_⟩
    unfold append
    split
    · exact h
    · split
      · rw [writable_setEntry, h]
      · exact h

/-- If no bytes can be written, writing succeeds only if there are none, and changes nothing. -/
theorem write_of_not_writable {d d' : Disk} (h : d.writable = false) {k : Handle} {new : Bytes}
    (hw : d.write k new = .ok d') : d' = d ∧ new = [] := by
  unfold write at hw
  split at hw
  · next hnone =>
    cases hw
    exact ⟨rfl, List.isEmpty_iff.1 hnone⟩
  · simp [h] at hw

/-- Writing fails only because no bytes can be written. -/
theorem write_eq_fileTooLarge {d : Disk} {k : Handle} {new : Bytes} {e : Fault}
    (hw : d.write k new = .error e) : e = .fileTooLarge := by
  unfold write at hw
  split at hw
  · cases hw
  · split at hw
    · cases hw
    · exact (Except.error.inj hw).symm

/-- **Cutting a file keeps its front**, whether or not bytes can be written. -/
theorem setLength_of_file? {d : Disk} {name : String} {f : File} (h : d.file? name = some f)
    {length : Nat} (hl : length ≤ f.bytes.length) :
    d.setLength name length =
      .ok (d.setEntry name (.file { f with bytes := f.bytes.take length })) := by
  obtain ⟨es, hp, he⟩ := file?_eq_some_iff.1 h
  have hz : length - f.bytes.length = 0 := by omega
  simp only [setLength, entries, hp, he, resized, hz, List.replicate_zero, List.append_nil]
  rw [if_neg (by omega)]

/-! ### Files that come and go -/

/-- Making a file gives the name an empty file and leaves all other names alone. -/
theorem file?_makeFile {d : Disk} {es : Entries} (hp : d.place = .directory es) (name : String) :
    (d.makeFile name).2.file? name = some ⟨d.nextSerial, []⟩ := by
  rw [file?_eq_some_iff]
  exact ⟨es.insert name (.file ⟨d.nextSerial, []⟩), by simp [makeFile, setEntry, hp], by simp⟩

theorem entry?_makeFile (d : Disk) {name x : String} (hx : x ≠ name) :
    entry? (d.makeFile name).2 x = d.entry? x := by
  unfold makeFile setEntry entry?
  cases hp : d.place with
  | missing => simp [hp]
  | occupied => simp [hp]
  | directory es => simp [Std.ExtTreeMap.getElem?_insert, Ne.symm hx]

/-- A file that is opened but not there is made. -/
theorem openAppend_of_absent {d : Disk} {es : Entries} (hp : d.place = .directory es)
    {name : String} (h : d.entry? name = none) : d.openAppend name = .ok (d.makeFile name) := by
  rw [entry?_of_place hp] at h
  simp only [openAppend, entries, hp, h]

/-- A file that is not there cannot be read. -/
theorem read_of_absent {d : Disk} {es : Entries} (hp : d.place = .directory es) {name : String}
    (h : d.entry? name = none) : d.read name = .error .noSuchFile := by
  rw [entry?_of_place hp] at h
  simp only [read, entries, hp, h]

/-- A file that is to be emptied but not there is made. -/
theorem create_of_absent {d : Disk} {es : Entries} (hp : d.place = .directory es) {name : String}
    (h : d.entry? name = none) : d.create name = .ok (d.makeFile name) := by
  rw [entry?_of_place hp] at h
  simp only [create, entries, hp, h]

/-- Emptying a file makes one unless a directory is in the way. -/
theorem create_cases {d : Disk} {es : Entries} (hp : d.place = .directory es) (name : String) :
    (d.entry? name = some .directory ∧ d.create name = .error .isADirectory) ∨
    (d.entry? name ≠ some .directory ∧ ∃ serial d', d.create name = .ok (⟨name, serial⟩, d') ∧
      d'.file? name = some ⟨serial, []⟩ ∧ d'.writable = d.writable ∧
      ∀ x, x ≠ name → d'.entry? x = d.entry? x) := by
  cases he : d.entry? name with
  | none =>
      right
      refine ⟨by simp, d.nextSerial, (d.makeFile name).2, create_of_absent hp he,
        file?_makeFile hp name, ?_, ?_⟩
      · simp [makeFile]
      · intro x hx
        exact entry?_makeFile d hx
  | some e =>
      have hes : es[name]? = some e := (entry?_of_place hp name).symm.trans he
      cases e with
      | directory =>
          left
          exact ⟨rfl, by simp only [create, entries, hp, hes]⟩
      | file f =>
          right
          have hf := file?_of_entry? he
          refine ⟨by simp, f.serial, d.setEntry name (.file { f with bytes := [] }), ?_,
            file?_setEntry hf _, writable_setEntry _ _ _, ?_⟩
          · simp only [create, entries, hp, hes]
          · intro x hx
            rw [entry?_setEntry hf, if_neg (Ne.symm hx)]

/-- Making the data directory leaves all names as they are, unless a regular file is in its
place. -/
theorem makeDirectory_of_not_occupied {d : Disk} (h : d.place ≠ .occupied) :
    ∃ d', d.makeDirectory = .ok d' ∧ (∃ es, d'.place = .directory es) ∧ d'.writable = d.writable ∧
      ∀ name, d'.entry? name = d.entry? name := by
  cases hp : d.place with
  | missing =>
      refine ⟨{ d with place := .directory ∅ }, by rw [makeDirectory, hp], ⟨∅, rfl⟩, rfl, ?_⟩
      intro name
      simp [ entry?, hp]
  | occupied => exact absurd hp h
  | directory es => exact ⟨d, by rw [makeDirectory, hp], ⟨es, hp⟩, rfl, fun _ => rfl⟩

/-- Renaming a file puts it in the place of what had the other name, unless that is a directory, and
leaves its own name free. -/
theorem rename_of_file? {d : Disk} {source target : String} {f : File} (hne : source ≠ target)
    (hf : d.file? source = some f) (hfree : d.entry? target ≠ some .directory) :
    ∃ d', d.rename source target = .ok d' ∧ d'.file? target = some f ∧
      d'.entry? source = none ∧ d'.writable = d.writable ∧
      ∀ x, x ≠ source → x ≠ target → d'.entry? x = d.entry? x := by
  obtain ⟨es, hp, hs⟩ := file?_eq_some_iff.1 hf
  rw [entry?_of_place hp] at hfree
  refine ⟨(d.removeEntry source).setEntry target (.file f), ?_, ?_, ?_, ?_, ?_⟩
  · cases ht : es[target]? with
    | none => simp only [rename, entries, hp, hs, ht]
    | some e =>
        cases e with
        | file g => simp only [rename, entries, hp, hs, ht]
        | directory => exact absurd ht hfree
  · simp [file?, entry?, removeEntry, setEntry, hp]
  · simp [ entry?, removeEntry, setEntry, hp, Ne.symm hne]
  · simp [removeEntry, hp]
  · intro x hxs hxt
    simp [ entry?, removeEntry, setEntry, hp, Std.ExtTreeMap.getElem?_insert,
      Std.ExtTreeMap.getElem?_erase, Ne.symm hxs, Ne.symm hxt]

/-- A file does not take the name of a directory. -/
theorem rename_of_directory {d : Disk} {source target : String} {f : File}
    (hf : d.file? source = some f) (ht : d.entry? target = some .directory) :
    d.rename source target = .error .isADirectory := by
  obtain ⟨es, hp, hs⟩ := file?_eq_some_iff.1 hf
  rw [entry?_of_place hp] at ht
  simp only [rename, entries, hp, hs, ht]

/-- What can come of opening a file to write at its end. -/
theorem openAppend_cases (d : Disk) (name : String) :
    (∃ e, d.openAppend name = .error e) ∨
      ∃ serial bs d', d.openAppend name = .ok (⟨name, serial⟩, d') ∧
        d'.file? name = some ⟨serial, bs⟩ ∧ d'.writable = d.writable ∧
        (d.file? name = some ⟨serial, bs⟩ ∨ (d.file? name = none ∧ bs = [])) := by
  cases hp : d.place with
  | missing => exact Or.inl ⟨.noSuchFile, by simp only [openAppend, entries, hp]⟩
  | occupied => exact Or.inl ⟨.notADirectory, by simp only [openAppend, entries, hp]⟩
  | directory es =>
      cases he : d.entry? name with
      | none =>
          have hgone : d.file? name = none := by rw [file?, he]
          exact Or.inr ⟨d.nextSerial, [], (d.makeFile name).2, openAppend_of_absent hp he,
            file?_makeFile hp name, writable_setEntry _ _ _, Or.inr ⟨hgone, rfl⟩⟩
      | some e =>
          cases e with
          | directory =>
              rw [entry?_of_place hp] at he
              exact Or.inl ⟨.isADirectory, by simp only [openAppend, entries, hp, he]⟩
          | file f =>
              have hf := file?_of_entry? he
              exact Or.inr ⟨f.serial, f.bytes, d, openAppend_of_file? hf, hf, rfl, Or.inl hf⟩

/-- What can come of giving a file a length. -/
theorem setLength_cases {d : Disk} {name : String} {f : File} (h : d.file? name = some f)
    (length : Nat) :
    (f.bytes.length < length ∧ d.writable = false ∧
      d.setLength name length = .error .fileTooLarge) ∨
    (¬ (f.bytes.length < length ∧ d.writable = false) ∧
      d.setLength name length =
        .ok (d.setEntry name (.file { f with bytes := resized f.bytes length }))) := by
  obtain ⟨es, hp, he⟩ := file?_eq_some_iff.1 h
  simp only [setLength, entries, hp, he]
  split
  · next hgrow => exact Or.inl ⟨hgrow.1, hgrow.2, rfl⟩
  · next hfits => exact Or.inr ⟨hfits, rfl⟩

/-! ### Writing in vain -/

/-- Whether nothing that is written through a handle changes the disk. -/
def Still (d : Disk) (k : Handle) : Prop := ∀ bs d', d.write k bs = .ok d' → d' = d

/-- If no bytes can be written, nothing changes. -/
theorem still_of_not_writable {d : Disk} (h : d.writable = false) (k : Handle) : d.Still k :=
  fun _ _ hw => (write_of_not_writable h hw).1

/-- What is written to a file that is gone is lost. -/
theorem still_of_gone {d : Disk} {k : Handle} (h : d.file? k.name = none) : d.Still k := by
  intro bs d' hw
  have hlost : d.append k bs = d := by rw [append, h]
  unfold write at hw
  split at hw
  · exact (Except.ok.inj hw).symm
  · split at hw
    · exact (Except.ok.inj hw).symm.trans hlost
    · cases hw

/-! ### What others may do to files -/

/-- Putting a file under a name leaves all other names alone. -/
theorem entry?_putFile {d : Disk} {es : Entries} (hp : d.place = .directory es)
    (name x : String) (bs : Bytes) :
    entry? (d.putFile name bs) x =
      if name = x then some (.file ⟨d.nextSerial, bs⟩) else d.entry? x := by
  simp [putFile, setEntry, entry?, hp, Std.ExtTreeMap.getElem?_insert]

theorem file?_putFile {d : Disk} {es : Entries} (hp : d.place = .directory es) (name : String)
    (bs : Bytes) : (d.putFile name bs).file? name = some ⟨d.nextSerial, bs⟩ := by
  apply file?_of_entry?
  rw [entry?_putFile hp, if_pos rfl]

end Allotment.Disk
