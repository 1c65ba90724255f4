/-
**Quotas and the claims granted on them.**

A quota is a stock of units of one product on one day.  Its terms are what an administrator sets;
the number of units reserved and the version are kept by the program.  Every accepted change gives
a quota a version that it never had before, by which a client shows that it has seen the latest
state.  An allocation is one claim granted on a quota; it never changes.

A quota guarantees a number of units, its capacity, and lets some more be sold at the operator's
risk.  The sum of the two is the bound that the units reserved never pass.  All rules about what
still fits are here; they are plain arithmetic on counts of 32 bits, done in the natural numbers
so that no sum wraps.

What a client sends is bounded in size before it reaches any quota.  Lengths of texts are counted
in bytes of UTF-8.  The ceiling on capacity and overbooking keeps the units reserved of a quota far
below the largest count of 32 bits.

A listing shows the quotas that a filter accepts, ordered by day, then by name, then by identifier.
Names are ordered by the code points of their characters, which is the order of their UTF-8 bytes.

Main definitions:

* `Allotment.Room` — capacity and overbooking limit, with their sum `Room.bound`;
* `Allotment.Room.headroom`, `Allotment.Room.admission`, `Allotment.Room.holds` — how many units are
  left, whether a request fits, and whether the units reserved are within the bound;
* `Allotment.Version`, `Allotment.Terms`, `Allotment.Standing`, `Allotment.Quota`;
* `Allotment.Allocation` — one granted claim;
* `Allotment.View` — a quota as clients see it, with the units still available;
* `Allotment.Limit` — the limits that a request can break, with their texts;
* `Allotment.Terms.brokenLimit?`, `Allotment.brokenReference?` — the first limit that the terms of
  a quota or the reference of a claim breaks;
* `Allotment.Filter`, `Allotment.Filter.accepts` — which quotas a listing shows;
* `Allotment.View.order`, `Allotment.listing` — the order of a listing, and the listing of some
  quotas.

Main results:

* `Allotment.Room.toNat_headroom` — the headroom is the difference of bound and units reserved,
  cut off at zero and at the largest count;
* `Allotment.Room.admission_eq_fits_iff` — a request fits exactly when it is not above the headroom;
* `Allotment.pairwise_mergeSort_isLE` — what was sorted by a comparison stands in its order;
* `Allotment.listing_perm`, `Allotment.pairwise_listing` — **a listing shows each quota that the
  filter accepts once, in the order of listings**.
-/

import Allotment.Ulid
import Allotment.Date

set_option relaxedAutoImplicit false
set_option autoImplicit false

namespace Allotment

/-! ### Room -/

/-- The units that a quota offers for sale. -/
structure Room where
  /-- Units guaranteed to be there. -/
  capacity : UInt32
  /-- Units that may be sold beyond the capacity. -/
  overbooking : UInt32
deriving DecidableEq

/-- The answer to the question whether a request fits. -/
inductive Admission where
  /-- The request fits. -/
  | fits
  /-- The request is for more than the units that are `available`. -/
  | exceeds (available : UInt32)
deriving DecidableEq

namespace Room

/-- The most units that may ever be reserved. -/
def bound (r : Room) : Nat := r.capacity.toNat + r.overbooking.toNat

/-- The units left when `reserved` are taken: none if the bound is passed already, and never more
than a count can say. -/
def headroom (r : Room) (reserved : UInt32) : UInt32 :=
  UInt32.ofNat (min (r.bound - reserved.toNat) (UInt32.size - 1))

/-- Whether `quantity` more units fit when `reserved` are taken. -/
def admission (r : Room) (reserved quantity : UInt32) : Admission :=
  if quantity ≤ r.headroom reserved then .fits else .exceeds (r.headroom reserved)

/-- Whether `reserved` units are within the bound. -/
def holds (r : Room) (reserved : UInt32) : Bool := decide (reserved.toNat ≤ r.bound)

theorem toNat_headroom (r : Room) (reserved : UInt32) :
    (r.headroom reserved).toNat = min (r.bound - reserved.toNat) (UInt32.size - 1) := by
  simp only [headroom, UInt32.toNat_ofNat', UInt32.size]
  omega

theorem admission_eq_fits_iff (r : Room) (reserved quantity : UInt32) :
    r.admission reserved quantity = .fits ↔ quantity.toNat ≤ (r.headroom reserved).toNat := by
  unfold admission
  split <;> simp_all [UInt32.le_iff_toNat_le]

end Room

/-! ### Quotas -/

/-- The mark of one state of a quota.  Versions are only ever compared for equality. -/
structure Version where
  /-- The identifier that serves as the mark. -/
  mark : Ulid
deriving DecidableEq

/-- Versions are written like identifiers. -/
def Version.toText (v : Version) : String := v.mark.toText

/-- What an administrator sets about a quota. -/
structure Terms extends Room where
  /-- The name shown to clients. -/
  name : String
  /-- The kind of product. -/
  productType : String
  /-- The day for which the units are sold. -/
  travelDate : Date
deriving DecidableEq

/-- How a quota stands at one moment. -/
structure Standing where
  /-- What the administrator has set. -/
  terms : Terms
  /-- Units granted so far. -/
  reserved : UInt32
  /-- The mark of this state. -/
  version : Version
deriving DecidableEq

namespace Standing

/-- A new quota has nothing reserved. -/
def opening (terms : Terms) (version : Version) : Standing := ⟨terms, 0, version⟩

/-- The units still available. -/
def available (s : Standing) : UInt32 := s.terms.headroom s.reserved

end Standing

/-- A quota at one moment: which one it is, and how it stands. -/
structure Quota extends Standing where
  /-- Which quota this is. -/
  id : Ulid
deriving DecidableEq

/-- One claim granted on a quota. -/
structure Allocation where
  /-- Which allocation this is. -/
  id : Ulid
  /-- The quota on which it was granted. -/
  quota : Ulid
  /-- The client's own name for the booking, if there is one. -/
  reference : Option String
  /-- The units granted. -/
  quantity : UInt32
  /-- When it was granted, in milliseconds since the start of 1970. -/
  assignedAt : Int64
deriving DecidableEq

/-- A quota as clients see it. -/
structure View extends Quota where
  /-- The units that can still be granted. -/
  available : UInt32
deriving DecidableEq

/-- The view of a quota. -/
def Quota.view (q : Quota) : View := { q with available := q.toStanding.available }

/-! ### Limits on requests -/

/-- A limit that a request can break. -/
inductive Limit where
  /-- The name of a quota. -/
  | name
  /-- The product type of a quota. -/
  | productType
  /-- The capacity of a quota. -/
  | capacity
  /-- The overbooking limit of a quota. -/
  | overbooking
  /-- The reference of a claim. -/
  | reference
  /-- The number of quotas in a store. -/
  | quotas
deriving DecidableEq

namespace Limit

/-- What is said of a request that breaks the limit. -/
def text : Limit → String
  | name => "quota name too long"
  | productType => "product type too long"
  | capacity => "capacity too large"
  | overbooking => "overbooking limit too large"
  | reference => "reservation reference too long"
  | quotas => "too many quotas"

/-- The longest name of a quota, in bytes. -/
def nameBytes : Nat := 256

/-- The longest product type, in bytes. -/
def productTypeBytes : Nat := 64

/-- The longest reference of a claim, in bytes. -/
def referenceBytes : Nat := 128

/-- The largest capacity and the largest overbooking limit. -/
def units : UInt32 := 1000000

/-- The most quotas that one store holds unless it is told otherwise. -/
def quotasPerStore : Nat := 100000

end Limit

/-- The first limit that the terms of a quota break: name, product type, capacity and overbooking
limit are checked in this order. -/
def Terms.brokenLimit? (t : Terms) : Option Limit :=
  if t.name.utf8ByteSize > Limit.nameBytes then some .name
  else if t.productType.utf8ByteSize > Limit.productTypeBytes then some .productType
  else if t.capacity > Limit.units then some .capacity
  else if t.overbooking > Limit.units then some .overbooking
  else none

/-- The limit that the reference of a claim breaks, if it has a reference that is too long. -/
def brokenReference? (reference : Option String) : Option Limit :=
  if reference.any (fun r => r.utf8ByteSize > Limit.referenceBytes) then some .reference else none

/-! ### Listings -/

/-- Which quotas a listing shows.  A field that is not set accepts every quota. -/
structure Filter where
  /-- The kind of product to show. -/
  productType : Option String
  /-- The day to show. -/
  travelDate : Option Date
deriving DecidableEq

namespace Filter

/-- The filter that accepts every quota. -/
def all : Filter := ⟨none, none⟩

/-- Whether a quota with these terms is shown: each field that is set must be met. -/
def accepts (f : Filter) (t : Terms) : Bool :=
  f.productType.all (· = t.productType) && f.travelDate.all (· = t.travelDate)

end Filter

/-- The order of a listing: by day, by name, by identifier. -/
def View.order : View → View → Ordering :=
  compareLex (compareOn fun v => v.terms.travelDate)
    (compareLex (compareOn fun v => v.terms.name) (compareOn fun v => v.id))

/-- The listing of some quotas under a filter. -/
def listing (f : Filter) (quotas : List Quota) : List View :=
  ((quotas.filter fun q => f.accepts q.terms).map Quota.view).mergeSort
    fun v w => (v.order w).isLE

/-- What was sorted by a comparison stands in its order. -/
theorem pairwise_mergeSort_isLE {α : Type} (cmp : α → α → Ordering) [Std.TransCmp cmp]
    (l : List α) :
    (l.mergeSort fun a b => (cmp a b).isLE).Pairwise fun a b => (cmp a b).isLE = true := by
  refine List.pairwise_mergeSort (fun _ _ _ => Std.TransCmp.isLE_trans) ?_ l
  intro a b
  have hswap : cmp b a = (cmp a b).swap := Std.OrientedCmp.eq_swap
  rw [hswap]
  cases cmp a b <;> rfl

instance : Std.TransCmp View.order :=
  inferInstanceAs (Std.TransCmp (compareLex (compareOn fun v : View => v.terms.travelDate)
    (compareLex (compareOn fun v : View => v.terms.name) (compareOn fun v : View => v.id))))

/-- A listing shows each quota that the filter accepts once. -/
theorem listing_perm (f : Filter) (quotas : List Quota) :
    (listing f quotas).Perm ((quotas.filter fun q => f.accepts q.terms).map Quota.view) :=
  List.mergeSort_perm _ _

/-- A listing of all quotas shows each quota once. -/
theorem listing_all_perm (quotas : List Quota) :
    (listing .all quotas).Perm (quotas.map Quota.view) := by
  have haccepts : ∀ q ∈ quotas, Filter.all.accepts q.terms = true := fun _ _ => rfl
  have hperm := listing_perm .all quotas
  rwa [List.filter_eq_self.2 haccepts] at hperm

/-- A listing is in order. -/
theorem pairwise_listing (f : Filter) (quotas : List Quota) :
    (listing f quotas).Pairwise fun v w => (v.order w).isLE = true :=
  pairwise_mergeSort_isLE View.order _

end Allotment
