/-
**Calendar days.**

Days of the Gregorian calendar, extended to the years before its introduction: year 0 is the year
before year 1, and it is a leap year.  The calendar ends at both sides, which is part of the
contract: a date outside its range cannot be read.

A day is written as year, month and day with hyphens between them.  Month and day have two digits.
A year from 0 to 9999 has four digits; any other year has a sign and at least four digits, so that
no two days are written alike.

Reading is more liberal than writing.  White space may stand before each number and behind each
of the three; a signed year has any number of digits, an unsigned one up to four; month and day
have one or two.  Nothing else may follow, and the calendar must have the day.

Main definitions:

* `Allotment.Date` — a day of the calendar, ordered by year, month and day;
* `Allotment.Date.ofParts?` — the day with the given year, month and day, if it exists;
* `Allotment.Date.toText` — the written form of a day;
* `Allotment.Date.ofText?` — the day that a text writes, if it writes one.

Main results:

* `Allotment.Date.utf8ByteSize_toText_le` — a written day has at most 13 bytes;
* `Allotment.Date.ofText?_toText` — the written form of a day is read back.
-/

import Std.Data.ExtTreeMap
import Allotment.Text

set_option relaxedAutoImplicit false
set_option autoImplicit false

namespace Allotment

namespace Date

/-- The first year of the calendar. -/
def firstYear : Int := -262143

/-- The last year of the calendar. -/
def lastYear : Int := 262142

/-- Every fourth year is a leap year, of the full centuries only every fourth. -/
def isLeap (year : Int) : Bool := year % 4 = 0 && (year % 100 ≠ 0 || year % 400 = 0)

/-- The number of days of a month. -/
def daysIn (year : Int) (month : Nat) : Nat :=
  if month = 2 then (if isLeap year then 29 else 28)
  else if month ∈ [4, 6, 9, 11] then 30
  else 31

/-- Whether the calendar has the day with this year, month and day. -/
def Exists (year : Int) (month day : Nat) : Prop :=
  firstYear ≤ year ∧ year ≤ lastYear ∧ 1 ≤ month ∧ month ≤ 12 ∧ 1 ≤ day ∧ day ≤ daysIn year month

instance (year : Int) (month day : Nat) : Decidable (Exists year month day) :=
  inferInstanceAs (Decidable (_ ∧ _))

end Date

/-- A day of the calendar. -/
structure Date where
  /-- The year; 0 is the year before year 1. -/
  year : Int
  /-- The month, counted from 1. -/
  month : Nat
  /-- The day of the month, counted from 1. -/
  day : Nat
  /-- The calendar has this day. -/
  exists_day : Date.Exists year month day
deriving DecidableEq

namespace Date

/-- The day with the given parts, if the calendar has it. -/
def ofParts? (year : Int) (month day : Nat) : Option Date :=
  if h : Exists year month day then some ⟨year, month, day, h⟩ else none

/-- Days are ordered by time: by year, then month, then day. -/
instance : Ord Date :=
  ⟨compareLex (compareOn Date.year) (compareLex (compareOn Date.month) (compareOn Date.day))⟩

instance : Std.TransOrd Date :=
  inferInstanceAs (Std.TransCmp
    (compareLex (compareOn Date.year) (compareLex (compareOn Date.month) (compareOn Date.day))))

open Text (dropBlanks dropBlanks_cons isBlank_of_isDigit)

/-! ### Writing -/

/-- The decimal digits of `n`, filled up with zeros in front to `width` digits. -/
def padded (width n : Nat) : List Char :=
  let ds := Nat.toDigits 10 n
  List.replicate (width - ds.length) '0' ++ ds

/-- The written form of a year. -/
def yearText (year : Int) : List Char :=
  if 0 ≤ year ∧ year ≤ 9999 then padded 4 year.toNat
  else (if year < 0 then '-' else '+') :: padded 4 year.natAbs

/-- The written form of a day. -/
def toText (d : Date) : String :=
  String.ofList (yearText d.year ++ '-' :: (padded 2 d.month ++ '-' :: padded 2 d.day))

theorem length_padded (width n : Nat) :
    (padded width n).length = max width (Nat.toDigits 10 n).length := by
  simp [padded]
  omega

theorem length_padded_of_lt {width n : Nat} (hw : 0 < width) (h : n < Nat.pow 10 width) :
    (padded width n).length = width := by
  rw [length_padded]
  have := (Nat.length_toDigits_le_iff (b := 10) (n := n) (by decide) hw).2 h
  omega

theorem padded_ne_nil (width n : Nat) : padded width n ≠ [] := by
  simp [padded, Nat.toDigits_ne_nil]

theorem isDigit_of_mem_padded {width n : Nat} {c : Char} (h : c ∈ padded width n) :
    c.isDigit = true := by
  rcases List.mem_append.1 h with h | h
  · rw [List.eq_of_mem_replicate h]
    rfl
  · exact Nat.isDigit_of_mem_toDigits (by decide) (by decide) h

/-- The characters of a year take one byte each. -/
theorem utf8Size_of_mem_yearText {year : Int} {c : Char} (h : c ∈ yearText year) :
    c.utf8Size = 1 := by
  unfold yearText at h
  split at h
  · exact Text.utf8Size_of_isDigit (isDigit_of_mem_padded h)
  · rcases List.mem_cons.1 h with rfl | h
    · split <;> rfl
    · exact Text.utf8Size_of_isDigit (isDigit_of_mem_padded h)

theorem length_yearText_le {year : Int} (h₁ : firstYear ≤ year) (h₂ : year ≤ lastYear) :
    (yearText year).length ≤ 7 := by
  unfold firstYear at h₁
  unfold lastYear at h₂
  unfold yearText
  split
  · rw [length_padded_of_lt (by decide) (show year.toNat < 10000 by omega)]
    omega
  · have digits := (Nat.length_toDigits_le_iff (b := 10) (n := year.natAbs) (k := 6) (by decide)
      (by decide)).2 (by omega)
    rw [List.length_cons, length_padded]
    omega

/-- The written form of a day has as many bytes as characters. -/
theorem utf8ByteSize_toText (d : Date) :
    d.toText.utf8ByteSize =
      (yearText d.year).length + (padded 2 d.month).length + (padded 2 d.day).length + 2 := by
  rw [toText, Text.utf8ByteSize_ofList_of_ascii]
  · simp only [List.length_append, List.length_cons]
    omega
  · intro c hc
    simp only [List.mem_append, List.mem_cons] at hc
    rcases hc with h | rfl | h | rfl | h
    · exact utf8Size_of_mem_yearText h
    · rfl
    · exact Text.utf8Size_of_isDigit (isDigit_of_mem_padded h)
    · rfl
    · exact Text.utf8Size_of_isDigit (isDigit_of_mem_padded h)

theorem daysIn_le (year : Int) (month : Nat) : daysIn year month ≤ 31 := by
  unfold daysIn
  split
  · split <;> decide
  · split <;> decide

theorem utf8ByteSize_toText_le (d : Date) : d.toText.utf8ByteSize ≤ 13 := by
  obtain ⟨h₁, h₂, _, h₄, _, h₆⟩ := d.exists_day
  have hd := daysIn_le d.year d.month
  rw [utf8ByteSize_toText, length_padded_of_lt (by decide) (show d.month < 100 by omega),
    length_padded_of_lt (by decide) (show d.day < 100 by omega)]
  have := length_yearText_le h₁ h₂
  omega

/-! ### Reading -/

/-- A number above every year of the calendar, at which reading stops counting. -/
def beyondCalendar : Nat := 1000000

/-- The value of a run of decimal digits, or `beyondCalendar` if it is larger: a run of any length
is read, and one that is too large for a year is too large for every part of a date. -/
def valueOf (ds : List Char) : Nat :=
  ds.foldl (fun n c => min (10 * n + (c.toNat - '0'.toNat)) beyondCalendar) 0

/-- Reads a number of one to `most` digits at the start of a text. -/
def number? (most : Nat) (cs : List Char) : Option (Nat × List Char) :=
  let ds := (cs.take most).takeWhile Char.isDigit
  if ds = [] then none else some (valueOf ds, cs.drop ds.length)

/-- Reads a year: with a sign, any number of digits; without, at most four. -/
def year? (cs : List Char) : Option (Int × List Char) :=
  match dropBlanks cs with
  | '-' :: r => (number? r.length r).map fun (n, r) => (-(n : Int), r)
  | '+' :: r => (number? r.length r).map fun (n, r) => ((n : Int), r)
  | r => (number? 4 r).map fun (n, r) => ((n : Int), r)

/-- Reads a month or a day: one or two digits. -/
def part? (cs : List Char) : Option (Nat × List Char) := number? 2 (dropBlanks cs)

/-- Reads the hyphen behind a number, skipping white space before it. -/
def hyphen? (cs : List Char) : Option (List Char) :=
  match dropBlanks cs with
  | '-' :: r => some r
  | _ => none

/-- The day that a text writes, if it writes one. -/
def ofText? (s : String) : Option Date := do
  let (year, r) ← year? s.toList
  let r ← hyphen? r
  let (month, r) ← part? r
  let r ← hyphen? r
  let (day, r) ← part? r
  if dropBlanks r = [] then ofParts? year month day else none

/-! ### Reading what was written -/

theorem valueOf_eq (ds : List Char) :
    valueOf ds = min (Nat.ofDigitChars 10 ds 0) beyondCalendar := by
  have step (ds : List Char) (i : Nat) :
      ds.foldl (fun n c => min (10 * n + (c.toNat - '0'.toNat)) beyondCalendar)
          (min i beyondCalendar) =
        min (Nat.ofDigitChars 10 ds i) beyondCalendar := by
    induction ds generalizing i with
    | nil => rfl
    | cons c ds ih =>
      rw [List.foldl_cons, Nat.ofDigitChars_cons, ← ih]
      congr 1
      omega
  exact step ds 0

theorem valueOf_padded (width n : Nat) (h : n < beyondCalendar) : valueOf (padded width n) = n := by
  rw [valueOf_eq, padded, Nat.ofDigitChars_append, Nat.ofDigitChars_replicate_zero, Nat.mul_zero,
    Nat.ofDigitChars_ten_toDigits]
  omega

theorem number?_append (most : Nat) {ds : List Char} (rest : List Char)
    (hd : ∀ c ∈ ds, c.isDigit = true) (hne : ds ≠ []) (hlen : ds.length ≤ most)
    (hrest : ds.length = most ∨ ∀ c ∈ rest.head?, c.isDigit = false) :
    number? most (ds ++ rest) = some (valueOf ds, rest) := by
  have hw : (List.take most (ds ++ rest)).takeWhile Char.isDigit = ds := by
    rw [List.take_append, List.take_of_length_le hlen, List.takeWhile_append_of_pos hd]
    rcases hrest with h | h
    · simp [h]
    · cases rest with
      | nil => simp
      | cons c rest =>
        have hc := h c (by simp)
        cases most - ds.length with
        | zero => simp
        | succ k => simp [hc]
  simp [number?, hw, hne]

theorem part?_padded {n : Nat} (h : n < 100) (rest : List Char) :
    part? (padded 2 n ++ rest) = some (n, rest) := by
  have hl : (padded 2 n).length = 2 := length_padded_of_lt (by decide) h
  have hn := number?_append 2 rest (fun c => isDigit_of_mem_padded (c := c)) (padded_ne_nil 2 n)
    (by omega) (.inl hl)
  rw [valueOf_padded 2 n (by unfold beyondCalendar; omega)] at hn
  cases hp : padded 2 n with
  | nil => exact absurd hp (padded_ne_nil 2 n)
  | cons c cs =>
    have hm : c ∈ padded 2 n := by simp [hp]
    have hc := isDigit_of_mem_padded hm
    rw [hp] at hn
    rw [part?, List.cons_append, dropBlanks_cons (isBlank_of_isDigit hc)]
    exact hn

theorem year?_yearText {year : Int} (h₁ : firstYear ≤ year) (h₂ : year ≤ lastYear)
    (rest : List Char) : year? (yearText year ++ '-' :: rest) = some (year, '-' :: rest) := by
  unfold firstYear at h₁
  unfold lastYear at h₂
  have notDigit : ∀ c ∈ ('-' :: rest).head?, c.isDigit = false := by
    intro c hc
    simp only [List.head?_cons, Option.mem_some_iff] at hc
    subst hc
    rfl
  unfold yearText
  split
  · next h =>
    have hl : (padded 4 year.toNat).length = 4 := length_padded_of_lt (by decide)
      (show year.toNat < 10000 by omega)
    have hn := number?_append 4 ('-' :: rest)
      (fun c => isDigit_of_mem_padded (c := c)) (padded_ne_nil 4 year.toNat) (by omega) (.inl hl)
    rw [valueOf_padded 4 _ (by unfold beyondCalendar; omega)] at hn
    cases hp : padded 4 year.toNat with
    | nil => exact absurd hp (padded_ne_nil 4 _)
    | cons c cs =>
      have hmem : c ∈ padded 4 year.toNat := by simp [hp]
      have hc := isDigit_of_mem_padded hmem
      have hm : c ≠ '-' := by rintro rfl; exact absurd hc (by decide)
      have hs : c ≠ '+' := by rintro rfl; exact absurd hc (by decide)
      rw [hp] at hn
      rw [year?, List.cons_append, dropBlanks_cons (isBlank_of_isDigit hc)]
      simp only [List.cons_append] at hn
      split
      · next he => simp_all
      · next he => simp_all
      · simp only [hn, Option.map_some, Option.some.injEq, Prod.mk.injEq, and_true]
        omega
  · next h =>
    have hn := number?_append (padded 4 year.natAbs ++ '-' :: rest).length
      ('-' :: rest) (fun c => isDigit_of_mem_padded (c := c)) (padded_ne_nil 4 year.natAbs)
      (by simp) (.inr notDigit)
    rw [valueOf_padded 4 _ (by unfold beyondCalendar; omega)] at hn
    split
    · next hneg =>
      rw [year?, List.cons_append, dropBlanks_cons (by rfl)]
      simp only [hn, Option.map_some, Option.some.injEq, Prod.mk.injEq, and_true]
      omega
    · next hpos =>
      rw [year?, List.cons_append, dropBlanks_cons (by rfl)]
      simp only [hn, Option.map_some, Option.some.injEq, Prod.mk.injEq, and_true]
      omega

theorem hyphen?_cons (rest : List Char) : hyphen? ('-' :: rest) = some rest := rfl

/-- What is written is read back. -/
theorem ofText?_toText (d : Date) : ofText? d.toText = some d := by
  obtain ⟨h₁, h₂, _, h₄, _, h₆⟩ := d.exists_day
  have hd := daysIn_le d.year d.month
  have hday := part?_padded (n := d.day) (by omega) []
  rw [List.append_nil] at hday
  simp only [ofText?, toText, String.toList_ofList, Option.bind_eq_bind, Option.bind_some,
    year?_yearText h₁ h₂, hyphen?_cons, part?_padded (n := d.month) (by omega), hday]
  simp [dropBlanks, ofParts?, d.exists_day]

end Date

end Allotment
