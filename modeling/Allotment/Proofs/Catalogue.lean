/-
**Listings show what there is, once, and in one order.**

A listing is made from one reading of each quota, in whatever order the store names them.  A reading
tells the record of its quota as it stands, and what may be changed right after it is that quota
alone; so all readings of a listing together tell what the store held before the first one.  Each
quota that meets the filter is shown once, and of any two quotas it is settled which one comes
first, since no two have the same identifier.  So there is one listing for what a store holds:
neither the order of the readings nor the way in which the quotas came there makes a difference.

Names are compared by the code points of their characters, and this is the order of their UTF-8
bytes: where the forms of two characters first differ, that of the smaller character has the smaller
byte, and there is such a place, since no form is the front of another one.

Main definitions:

* `Allotment.Date.Before`, `Allotment.View.Before` — which of two days, and of two views, comes
  first;
* `Allotment.Filter.Met` — terms that meet each field that is set;
* `Allotment.View.Shows` — a view of a quota as it stands.

Main results:

* `Allotment.TextOrder.encode_lt` — the forms of two characters stand in the order of the
  characters, whatever comes behind them;
* `Allotment.TextOrder.utf8_lt_iff`, `Allotment.TextOrder.compare_eq_lt_iff` — **a text is before
  another one just if its bytes are**, and so it is in the comparison by which names are sorted;
* `Allotment.View.order_eq_lt_iff` — listings are sorted by that order;
* `Allotment.Store.fst_loadAll` — what the readings of a listing tell;
* `Allotment.pairwise_before_listing`, `Allotment.mem_listing_iff` — a listing is in order without
  ties, and shows what meets the filter;
* `Allotment.Catalogue.list_exact` — **a listing is complete, filtered, and the only one in order**.
-/

import Mathlib.Data.List.Sort
import Mathlib.Data.String.Basic
import Allotment.Proofs.Compaction
import Allotment.Proofs.Tables.Granted

set_option relaxedAutoImplicit false
set_option autoImplicit false

namespace Allotment

open Log (utf8)

/-! ### The order of texts -/

namespace TextOrder

open Log (Bytes)

/-- The bytes of a text are those of its characters. -/
theorem utf8_eq_flatMap (s : String) : utf8 s = s.toList.flatMap String.utf8EncodeChar := by
  rw [utf8, ← String.ofList_toList (s := s), String.toByteArray_ofList, String.toList_ofList,
    List.utf8Encode, List.toList_data_toByteArray]

/-- **The forms of two characters stand in the order of the characters**, whatever comes behind
them. -/
theorem encode_lt {c d : Char} (h : c < d) (xs ys : Bytes) :
    String.utf8EncodeChar c ++ xs < String.utf8EncodeChar d ++ ys := by
  have hlt : c.val.toNat < d.val.toNat := h
  have hd : d.val.toNat < 0x110000 := by
    rcases d.valid with hd | hd
    · exact lt_trans hd (by decide)
    · exact hd.2
  simp only [String.utf8EncodeChar]
  -- the number of bytes, and then the bytes themselves, are read off the code point
  split_ifs <;>
    simp only [List.cons_append, List.nil_append, List.cons_lt_cons_iff, UInt8.lt_iff_toNat_lt,
      ← UInt8.toNat_inj, UInt8.toNat_ofNat'] <;>
    simp (disch := omega) only [Nat.mod_eq_of_lt] <;>
    omega

theorem flatMap_lt {cs ds : List Char} (h : cs < ds) :
    cs.flatMap String.utf8EncodeChar < ds.flatMap String.utf8EncodeChar := by
  induction h with
  | @nil c cs =>
      rw [List.flatMap_nil, List.flatMap_cons]
      cases he : String.utf8EncodeChar c with
      | nil => exact absurd he String.utf8EncodeChar_ne_nil
      | cons b bs => exact List.nil_lt_cons _ _
  | @cons c cs ds h ih =>
      rw [List.flatMap_cons, List.flatMap_cons]
      exact List.append_left_lt ih
  | rel h =>
      rw [List.flatMap_cons, List.flatMap_cons]
      exact encode_lt h _ _

/-- **A text is before another one just if its bytes are.** -/
theorem utf8_lt_iff {s t : String} : utf8 s < utf8 t ↔ s < t := by
  rw [utf8_eq_flatMap, utf8_eq_flatMap, String.lt_iff]
  constructor
  · intro h
    by_contra hnot
    rw [← String.lt_iff] at hnot
    -- what is not before the other text is behind it, or is the same
    by_cases hgt : t < s
    · exact List.lt_asymm h (flatMap_lt (String.lt_iff.1 hgt))
    · obtain rfl := String.le_antisymm (String.not_lt.1 hgt) (String.not_lt.1 hnot)
      exact List.lt_irrefl _ h
  · exact flatMap_lt

theorem compare_eq_lt_iff {s t : String} : compare s t = .lt ↔ utf8 s < utf8 t :=
  compareOfLessAndEq_eq_lt.trans utf8_lt_iff.symm

end TextOrder

/-! ### The order of a listing -/

namespace Date

/-- Whether a day comes before another one. -/
def Before (a b : Date) : Prop :=
  a.year < b.year ∨ a.year = b.year ∧ (a.month < b.month ∨ a.month = b.month ∧ a.day < b.day)

instance : Std.LawfulEqOrd Date where
  eq_of_compare {a b} h := by
    obtain ⟨hyear, hrest⟩ := compareLex_eq_eq.1 h
    obtain ⟨hmonth, hday⟩ := compareLex_eq_eq.1 hrest
    cases a
    cases b
    simp only [Date.mk.injEq]
    exact ⟨Std.LawfulEqOrd.eq_of_compare hyear, Std.LawfulEqOrd.eq_of_compare hmonth,
      Std.LawfulEqOrd.eq_of_compare hday⟩

theorem compare_eq_lt_iff {a b : Date} : compare a b = .lt ↔ a.Before b := by
  change ((compare a.year b.year).then
    ((compare a.month b.month).then (compare a.day b.day))) = .lt ↔ _
  rw [Ordering.then_eq_lt, Ordering.then_eq_lt, Int.compare_eq_lt, Nat.compare_eq_lt,
    Nat.compare_eq_lt, Std.LawfulEqOrd.compare_eq_iff_eq, Std.LawfulEqOrd.compare_eq_iff_eq]
  rfl

end Date

namespace View

/-- **Which of two views comes first**: that of the earlier day; on the same day, that with the
smaller name, byte by byte; and of two with the same name, that with the smaller identifier. -/
def Before (v w : View) : Prop :=
  v.terms.travelDate.Before w.terms.travelDate ∨
    v.terms.travelDate = w.terms.travelDate ∧
      (utf8 v.terms.name < utf8 w.terms.name ∨
        v.terms.name = w.terms.name ∧ v.id.bits < w.id.bits)

variable {v w : View}

/-- **Listings are sorted by this order.** -/
theorem order_eq_lt_iff : v.order w = .lt ↔ v.Before w := by
  change ((compare v.terms.travelDate w.terms.travelDate).then
    ((compare v.terms.name w.terms.name).then (compare v.id.bits.toNat w.id.bits.toNat))) = .lt ↔ _
  rw [Ordering.then_eq_lt, Ordering.then_eq_lt, Date.compare_eq_lt_iff,
    TextOrder.compare_eq_lt_iff, Nat.compare_eq_lt, Std.LawfulEqOrd.compare_eq_iff_eq,
    Std.LawfulEqOrd.compare_eq_iff_eq]
  rfl

/-- Two views that are not told apart are of the same quota. -/
theorem id_eq_of_order (h : v.order w = .eq) : v.id = w.id :=
  Std.LawfulEqOrd.eq_of_compare (compareLex_eq_eq.1 (compareLex_eq_eq.1 h).2).2

/-- Of two views of different quotas, one comes first. -/
theorem before_of_isLE (h : (v.order w).isLE = true) (hne : v.id ≠ w.id) : v.Before w := by
  rw [← order_eq_lt_iff]
  cases ho : v.order w with
  | lt => rfl
  | eq => exact absurd (id_eq_of_order ho) hne
  | gt =>
      rw [ho] at h
      cases h

instance : Std.Asymm Before where
  asymm v w h h' := by
    rw [← order_eq_lt_iff] at h h'
    have hswap : v.order w = (w.order v).swap := Std.OrientedCmp.eq_swap
    rw [hswap, h'] at h
    cases h

end View

/-! ### What a listing shows -/

namespace Filter

/-- Terms that meet each field of a filter that is set. -/
structure Met (f : Filter) (t : Terms) : Prop where
  /-- The product is of the kind asked for. -/
  productType : ∀ p, f.productType = some p → t.productType = p
  /-- The day is the one asked for. -/
  travelDate : ∀ day, f.travelDate = some day → t.travelDate = day

theorem accepts_eq_true_iff {f : Filter} {t : Terms} : f.accepts t = true ↔ f.Met t := by
  obtain ⟨p, day⟩ := f
  simp only [accepts, Bool.and_eq_true, Option.all_eq_true, decide_eq_true_eq]
  constructor
  · rintro ⟨hp, hday⟩
    exact ⟨fun x hx => (hp x hx).symm, fun x hx => (hday x hx).symm⟩
  · rintro ⟨hp, hday⟩
    exact ⟨fun x hx => (hp x hx).symm, fun x hx => (hday x hx).symm⟩

end Filter

/-- **A view of a quota as it stands**, with the units that are left of its bound. -/
structure View.Shows (t : Tables) (v : View) : Prop where
  /-- The record is that of the quota. -/
  stands : t.standings[v.id]? = some v.toStanding
  /-- What can still be granted is what is reserved off the bound, up to the largest count. -/
  available : v.available.toNat =
    min (v.terms.capacity.toNat + v.terms.overbooking.toNat - v.reserved.toNat) (2 ^ 32 - 1)

theorem Quota.shows_view {t : Tables} {q : Quota} (h : t.standings[q.id]? = some q.toStanding) :
    q.view.Shows t where
  stands := h
  available := q.terms.toNat_headroom q.reserved

/-- A view of a quota as it stands is the view of its record. -/
theorem View.Shows.view_eq {t : Tables} {v : View} (h : v.Shows t) : v.toQuota.view = v := by
  have havailable : v.toStanding.available = v.available := by
    rw [← UInt32.toNat_inj, h.available]
    exact v.terms.toNat_headroom v.reserved
  rw [Quota.view, havailable]

section Listing

variable {t : Tables} {f : Filter}

/-- A listing shows the quotas that meet the filter. -/
theorem mem_listing_iff {v : View} : v ∈ listing f t.quotas ↔ v.Shows t ∧ f.Met v.terms := by
  rw [(listing_perm f t.quotas).mem_iff, List.mem_map]
  constructor
  · rintro ⟨q, hq, rfl⟩
    obtain ⟨hin, haccepts⟩ := List.mem_filter.1 hq
    exact ⟨Quota.shows_view (Tables.mem_quotas_iff.1 hin), Filter.accepts_eq_true_iff.1 haccepts⟩
  · rintro ⟨hshows, hmet⟩
    exact ⟨v.toQuota, List.mem_filter.2 ⟨Tables.mem_quotas_iff.2 hshows.stands,
      Filter.accepts_eq_true_iff.2 hmet⟩, hshows.view_eq⟩

/-- A listing shows no quota twice. -/
theorem nodup_ids_listing {quotas : List Quota} (h : (quotas.map (·.id)).Nodup) (f : Filter) :
    ((listing f quotas).map (·.id)).Nodup := by
  have hperm := (listing_perm f quotas).map (·.id)
  rw [hperm.nodup_iff, List.map_map]
  exact (List.filter_sublist.map Quota.id).nodup h

/-- **A listing is in order, without ties.** -/
theorem pairwise_before_listing {quotas : List Quota} (h : (quotas.map (·.id)).Nodup) (f : Filter) :
    (listing f quotas).Pairwise View.Before := by
  have hne : (listing f quotas).Pairwise fun v w => v.id ≠ w.id :=
    List.pairwise_map.1 (nodup_ids_listing h f)
  exact (pairwise_listing f quotas).imp₂ (fun _ _ hle hne => View.before_of_isLE hle hne) hne

end Listing

/-! ### The readings of a listing -/

namespace Tables

theorem map_id_filterMap_quota? (t : Tables) (ids : List Ulid) :
    (ids.filterMap t.quota?).map (·.id) = ids.filter fun id => (t.standings[id]?).isSome := by
  induction ids with
  | nil => rfl
  | cons id ids ih =>
      rw [List.filterMap_cons, List.filter_cons, quota?]
      cases t.standings[id]? with
      | none => exact ih
      | some st => exact congrArg (id :: ·) ih

/-- No quota is read twice. -/
theorem nodup_map_id (t : Tables) {ids : List Ulid} (h : ids.Nodup) :
    ((ids.filterMap t.quota?).map (·.id)).Nodup := by
  rw [map_id_filterMap_quota?]
  exact h.filter _

end Tables

namespace Store

variable {ι : Type} [Journal ι]

/-- A reading tells how its quota stands, and no other quota is changed by it. -/
theorem load_spec (s : Store ι) (id : Ulid) :
    (s.load id).1 = s.tables.quota? id ∧
      ∀ x, x ≠ id → (s.load id).2.tables.quota? x = s.tables.quota? x := by
  unfold load
  cases hq : s.tables.quota? id with
  | none => exact ⟨rfl, fun _ _ => rfl⟩
  | some q =>
      cases hr : s.rival with
      | none => exact ⟨rfl, fun _ _ => rfl⟩
      | some r =>
          simp only
          split
          · refine ⟨rfl, fun x hx => ?_⟩
            simp only
            rcases Store.commit_cases { s with rival := none } ⟨id, q.version, r.change⟩ r.version
              with ⟨e, _, he⟩ | ⟨q', e, j, _, _, he⟩ | ⟨q', j, _, _, he⟩
            · rw [he]
            · rw [he]
            · rw [he]
              simp only [Tables.quota?, Tables.standings_commit, if_neg hx.symm]
          · exact ⟨rfl, fun _ _ => rfl⟩

/-- **What the readings of a listing tell** is what the store held before the first one. -/
theorem fst_loadAll (s : Store ι) {ids : List Ulid} (h : ids.Nodup) :
    (s.loadAll ids).1 = ids.filterMap s.tables.quota? := by
  induction ids generalizing s with
  | nil => rfl
  | cons id ids ih =>
      obtain ⟨hnotin, hrest⟩ := List.nodup_cons.1 h
      obtain ⟨hread, hothers⟩ := s.load_spec id
      have hsame : ids.filterMap (s.load id).2.tables.quota? = ids.filterMap s.tables.quota? :=
        List.filterMap_congr fun x hx => hothers x fun heq => hnotin (heq ▸ hx)
      rw [loadAll, List.filterMap_cons]
      simp only [hread, ih (s.load id).2 hrest, hsame]
      cases s.tables.quota? id <;> rfl

end Store

/-- A listing shows what the store held. -/
theorem Desk.fst_list {ι : Type} [Journal ι] (d : Desk ι) (f : Filter) :
    (d.list f).1 = listing f d.store.tables.quotas := by
  have hread := d.store.fst_loadAll (Tables.nodup_ids d.store.tables)
  rcases hl : d.store.loadAll d.store.tables.ids with ⟨qs, s⟩
  rw [hl] at hread
  simp only [Desk.list, hl]
  exact congrArg _ hread

namespace Catalogue

variable {ι κ : Type} [Journal ι] [Journal κ]

/-- **A listing is complete, filtered, and the only one in order.**  Whatever a store holds,
wherever its records go and whoever lies in wait, a listing shows just the views of quotas as they
stand whose terms meet the filter; each such quota has exactly one view in it, and none comes twice.
The views stand in strictly increasing order of day, of the bytes of the name, and of identifier,
and no other list of the same views does.  The quotas may be read in any order, and any other store
with the same quotas has the same listing. -/
theorem list_exact (d : Desk ι) (f : Filter) :
    (∀ v, v ∈ (d.list f).1 ↔ v.Shows d.store.tables ∧ f.Met v.terms) ∧
      (∀ (id : Ulid) (st : Standing), d.store.tables.standings[id]? = some st → f.Met st.terms →
        ∃! v, v ∈ (d.list f).1 ∧ v.id = id) ∧
      ((d.list f).1.map (·.id)).Nodup ∧
      (d.list f).1.Pairwise View.Before ∧
      (∀ vs : List View, vs.Pairwise View.Before → (∀ v, v ∈ vs ↔ v ∈ (d.list f).1) →
        vs = (d.list f).1) ∧
      (∀ order : List Ulid, order.Perm d.store.tables.ids →
        listing f (d.store.loadAll order).1 = (d.list f).1) ∧
      ∀ d' : Desk κ,
        (∀ id : Ulid, d'.store.tables.standings[id]? = d.store.tables.standings[id]?) →
          (d'.list f).1 = (d.list f).1 := by
  have hsorted : ∀ {τ : Type} [Journal τ] (x : Desk τ), (x.list f).1.Pairwise View.Before := by
    intro τ _ x
    rw [x.fst_list]
    exact pairwise_before_listing (x.store.tables.nodup_map_id (Tables.nodup_ids _)) f
  have hmem : ∀ {τ : Type} [Journal τ] (x : Desk τ) (v : View),
      v ∈ (x.list f).1 ↔ v.Shows x.store.tables ∧ f.Met v.terms := by
    intro τ _ x v
    rw [x.fst_list]
    exact mem_listing_iff
  have hids : ((d.list f).1.map (·.id)).Nodup := by
    rw [d.fst_list]
    exact nodup_ids_listing (d.store.tables.nodup_map_id (Tables.nodup_ids _)) f
  have hunique : ∀ vs : List View, vs.Pairwise View.Before →
      (∀ v, v ∈ vs ↔ v ∈ (d.list f).1) → vs = (d.list f).1 :=
    fun vs hvs hsame => hvs.eq_of_mem_iff (hsorted d) hsame
  refine ⟨hmem d, ?_, hids, hsorted d, hunique, ?_, ?_⟩
  · intro id st hst hmet
    refine ⟨({ st with id } : Quota).view, ⟨(hmem d _).2 ⟨Quota.shows_view hst, hmet⟩, rfl⟩, ?_⟩
    rintro v ⟨hv, rfl⟩
    have hshows := ((hmem d v).1 hv).1
    rw [hshows.stands] at hst
    obtain rfl := Option.some.inj hst
    exact hshows.view_eq.symm
  · intro order hperm
    have hnodup := hperm.nodup_iff.2 (Tables.nodup_ids d.store.tables)
    refine hunique _ ?_ fun v => ?_
    · rw [d.store.fst_loadAll hnodup]
      exact pairwise_before_listing (d.store.tables.nodup_map_id hnodup) f
    · rw [d.store.fst_loadAll hnodup, d.fst_list, (listing_perm f _).mem_iff,
        (listing_perm f _).mem_iff]
      exact (((hperm.filterMap _).filter _).map _).mem_iff
  · intro d' hsame
    refine hunique _ (hsorted d') fun v => ?_
    rw [hmem d', hmem d]
    refine and_congr_left fun _ => ?_
    constructor
    · rintro ⟨hstands, havailable⟩
      exact ⟨(hsame v.id).symm.trans hstands, havailable⟩
    · rintro ⟨hstands, havailable⟩
      exact ⟨(hsame v.id).trans hstands, havailable⟩

/-- Terms of a tour with three units. -/
def tour (name : String) (day : Date) : Terms := ⟨⟨2, 1⟩, name, "tour", day⟩

/-- The day of most of them. -/
def laterDay : Date := ⟨2026, 11, 1, by decide⟩

/-- A day before the year 0. -/
def beforeYearZero : Date := ⟨-43, 3, 15, by decide⟩

/-- Five tours are created, two of them with the same name and day, and a cruise, and some units are
granted. -/
def fiveToursOneCruise : List Record :=
  [.created ⟨9⟩ (tour "Süd" laterDay) ⟨⟨1⟩⟩, .created ⟨4⟩ (tour "Süd" laterDay) ⟨⟨2⟩⟩,
   .created ⟨3⟩ (tour "～" laterDay) ⟨⟨3⟩⟩, .created ⟨2⟩ (tour "😀" laterDay) ⟨⟨4⟩⟩,
   .created ⟨8⟩ (tour "z" beforeYearZero) ⟨⟨5⟩⟩,
   .created ⟨1⟩ ⟨⟨2, 1⟩, "Süd", "cruise", laterDay⟩ ⟨⟨6⟩⟩,
   .allocated ⟨⟨11⟩, ⟨9⟩, none, 2, 0⟩ ⟨⟨7⟩⟩]

/-- A desk at which somebody waits to change a quota once it has been read. -/
def armedDesk : Desk Volatile :=
  ⟨(Store.ofTables (.ofRecords fiveToursOneCruise) .volatile).arm
    ⟨⟨9⟩, .revise (tour "a" beforeYearZero), ⟨⟨20⟩⟩⟩, .zero⟩

/-- A desk with a log, at which the same quotas were created in another order. -/
def reorderedDesk : Desk LogFile :=
  ⟨.ofTables (.ofRecords ((fiveToursOneCruise.take 6).reverse ++ fiveToursOneCruise.drop 6))
    ⟨.blank, .ofHandle ⟨"a.wal", 0⟩ 0⟩, .zero⟩

/-- Tours on any day. -/
def tours : Filter := ⟨some "tour", none⟩

/-- The tours in the order of a listing.  Two stand in the order of their identifiers, and the last
two in that of the bytes of their names. -/
def listed : List View :=
  [⟨⟨⟨tour "z" beforeYearZero, 0, ⟨⟨5⟩⟩⟩, ⟨8⟩⟩, 3⟩, ⟨⟨⟨tour "Süd" laterDay, 0, ⟨⟨2⟩⟩⟩, ⟨4⟩⟩, 3⟩,
   ⟨⟨⟨tour "Süd" laterDay, 2, ⟨⟨7⟩⟩⟩, ⟨9⟩⟩, 1⟩, ⟨⟨⟨tour "～" laterDay, 0, ⟨⟨3⟩⟩⟩, ⟨3⟩⟩, 3⟩,
   ⟨⟨⟨tour "😀" laterDay, 0, ⟨⟨4⟩⟩⟩, ⟨2⟩⟩, 3⟩]

set_option maxRecDepth 100000 in
/-- The first desk lists the tours as they were before anybody struck, whatever it reads first, and
the second desk lists the same. -/
theorem list_exact_ties :
    (armedDesk.list tours).1 = listed ∧
      armedDesk.store.tables.ids.reverse.Perm armedDesk.store.tables.ids ∧
      listing tours (armedDesk.store.loadAll armedDesk.store.tables.ids.reverse).1 =
        (armedDesk.list tours).1 ∧
      (∀ id : Ulid,
        reorderedDesk.store.tables.standings[id]? = armedDesk.store.tables.standings[id]?) ∧
      (reorderedDesk.list tours).1 = (armedDesk.list tours).1 := by
  obtain ⟨_, _, _, _, hunique, horder, hcontent⟩ := @list_exact _ LogFile _ _ armedDesk tours
  have hsorted : listed.Pairwise View.Before := by
    refine List.Pairwise.imp (R := fun v w : View => v.order w = .lt)
      (fun h => View.order_eq_lt_iff.1 h) ?_
    decide +kernel
  have hperm : listed.Perm
      ((armedDesk.store.tables.quotas.filter fun q => tours.accepts q.terms).map Quota.view) := by
    decide +kernel
  have hlisted : listed = (armedDesk.list tours).1 := by
    refine hunique _ hsorted fun v => ?_
    rw [armedDesk.fst_list, hperm.mem_iff, (listing_perm tours _).mem_iff]
  have hsame : reorderedDesk.store.tables.standings = armedDesk.store.tables.standings :=
    Std.ExtTreeMap.toList_inj.1 (by decide +kernel)
  have hstandings : ∀ id : Ulid,
      reorderedDesk.store.tables.standings[id]? = armedDesk.store.tables.standings[id]? :=
    fun id => by rw [hsame]
  exact ⟨hlisted.symm, List.reverse_perm _, horder _ (List.reverse_perm _), hstandings,
    hcontent reorderedDesk hstandings⟩

end Catalogue

end Allotment
