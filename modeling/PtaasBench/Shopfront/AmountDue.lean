import Mathlib.Algebra.Order.Group.Int.Sum
import PtaasBench.Shopfront.Checkout

/-!
# PtaasBench.Shopfront.AmountDue — which orders are written down below their price

What is due is counted over whole numbers without a bound.  The figures of an order agree with it until they
leave 32 bits.  No counter looks at the subtotal or at the total, so an order whose lines fit one by one, and whose sum
does not, is written down at what 32 bits leave of it.

The conditions below speak of the exact charges of the lines and of what is left of their sum modulo `2 ^ 32`.
-/

namespace PtaasBench.Shopfront

open Lib List

/-! ## What is due -/

/-- What one code takes off of an exact amount. -/
def exactDiscount (amount : ℤ) (coupon : Coupon) : ℤ :=
  match coupon.percentOff with
  | some percent => (amount * percent + 50) / 100
  | none => coupon.amountOffCents.getD 0

def exactDiscounts (amount : ℤ) (applied : List Coupon) : ℤ := (applied.map (exactDiscount amount)).sum

def catalogueSubtotal (items : List Item) : ℤ := (items.map fun i => i.quantity.1 * i.cataloguePriceCents.1).sum

/-- What each line is charged. -/
def charges (items : List Item) : List ℤ := items.map fun i => i.quantity.1 * i.unitPriceCents.1

def chargedSubtotal (items : List Item) : ℤ := (charges items).sum

theorem toInt32_intCast (n : ℤ) : toInt32 (n : ℚ) = n.bmod (2 ^ 32) := by
  rw [toInt32, Int.floor_intCast, Int.ceil_intCast, ite_self]

theorem bmod_of_fits {n : ℤ} (h : -2 ^ 31 ≤ n ∧ n < 2 ^ 31) : n.bmod (2 ^ 32) = n :=
  Int.bmod_eq_of_le (by omega) (by omega)

theorem toInt32_bounds (x : ℚ) : -2 ^ 31 ≤ toInt32 x ∧ toInt32 x < 2 ^ 31 := by
  have hlo := Int.le_bmod (x := if 0 ≤ x then ⌊x⌋ else ⌈x⌉) (m := 2 ^ 32) (by norm_num)
  have hhi := Int.bmod_lt (x := if 0 ≤ x then ⌊x⌋ else ⌈x⌉) (m := 2 ^ 32) (by norm_num)
  rw [toInt32]
  constructor
  · omega
  · omega

/-- A whole number below `2 ^ 53` is coerced as it is. -/
theorem toInt32_nearest {n : ℤ} (h : |n| < 2 ^ 53) : toInt32 (Double.nearest n) = n.bmod (2 ^ 32) := by
  rw [Double.nearest_int h, toInt32_intCast]

/-- Amounts added up one by one: their exact sum, while they come to less than `2 ^ 53` together. -/
def addedUp (xs : List ℤ) : ℚ := if (xs.map fun x => |x|).sum < 2 ^ 53 then (xs.sum : ℤ) else Double.sum xs

theorem sum_eq_addedUp (xs : List ℤ) : Double.sum xs = addedUp xs := by
  rw [addedUp]
  split_ifs with h
  · exact Double.sum_eq_of_abs_sum_lt h
  · rfl

/-- What 32 bits leave of the sum of the charges. -/
def leftSubtotal (items : List Item) : ℤ := toInt32 (addedUp (charges items))

section Lines

variable (item : Item)

/-- A line total is exact just if it fits. -/
theorem lineTotal_eq_iff :
    (lineOf item).lineTotalCents = item.quantity.1 * item.unitPriceCents.1 ↔
      -2 ^ 31 ≤ item.quantity.1 * item.unitPriceCents.1 ∧ item.quantity.1 * item.unitPriceCents.1 < 2 ^ 31 := by
  have hcast : (item.quantity.1 : ℚ) * (item.unitPriceCents.1 : ℚ) =
      ((item.quantity.1 * item.unitPriceCents.1 : ℤ) : ℚ) := by push_cast; rfl
  rw [lineOf]
  dsimp only
  rw [hcast]
  constructor
  · intro h
    rw [← h]
    exact toInt32_bounds _
  · intro h
    rw [toInt32_nearest, bmod_of_fits h]
    rw [abs_lt]
    constructor
    · omega
    · omega

end Lines

/-! ## What is counted -/

section Counting

/-- A counter has something to count: a line below the catalogue's price, a line total that does not fit, a
credit that lowers the subtotal, a rate below the contract's, a code that is repeated or used up. -/
structure Uncounted (session : Session) (items : List Item) (applied : List Coupon) (redemptions : List ℤ) : Prop where
  priced : ∀ i ∈ items, i.cataloguePriceCents.1 ≤ i.unitPriceCents.1
  fits : ∀ i ∈ items, -2 ^ 31 ≤ i.quantity.1 * i.unitPriceCents.1 ∧ i.quantity.1 * i.unitPriceCents.1 < 2 ^ 31
  credits : (∃ i ∈ items, i.quantity.1 < 1) →
    addedUp (charges (items.filter fun i => 0 < i.quantity.1)) ≤ leftSubtotal items
  quoted : quotedOf session ≤ shippingOf session
  distinct : (applied.map Coupon.code).Nodup
  left : ∀ c ∈ applied, usedOf (redemptions ++ applied.map Coupon.couponId) c ≤ c.maxRedemptions

theorem duplicatedOf_eq_nil_iff {codes : List String} : duplicatedOf codes = [] ↔ codes.Nodup := by
  have hall : duplicatedOf codes = [] ↔ ∀ (i : ℕ) (code : String), codes[i]? = some code → codes.idxOf code = i := by
    rw [duplicatedOf, map_eq_nil_iff, filter_eq_nil_iff]
    constructor
    · intro h i code hi
      have hmem : (code, i) ∈ codes.zipIdx := mk_mem_zipIdx_iff_getElem?.mpr hi
      simpa using h _ hmem
    · rintro h ⟨code, i⟩ hmem
      simpa using h i code (mk_mem_zipIdx_iff_getElem?.mp hmem)
  rw [hall]
  constructor
  · intro h
    rw [nodup_iff_getElem?_ne_getElem?]
    intro i j hij hj heq
    have hi := h i codes[j] (heq.trans (List.getElem?_eq_getElem hj))
    have hj' := h j codes[j] (List.getElem?_eq_getElem hj)
    omega
  · intro h i code hi
    obtain ⟨hlt, rfl⟩ := List.getElem?_eq_some_iff.mp hi
    exact h.idxOf_getElem i hlt

theorem raise_eq_nil_iff {p : Prop} [Decidable p] {raise : Raise} : (if p then [raise] else []) = [] ↔ ¬ p := by
  split_ifs with h <;> simp [h]

theorem reconcileLine_eq_nil_iff {reference : String} {item : Item} :
    reconcileLine reference (lineOf item) = [] ↔
      item.cataloguePriceCents.1 ≤ item.unitPriceCents.1 ∧
        (-2 ^ 31 ≤ item.quantity.1 * item.unitPriceCents.1 ∧ item.quantity.1 * item.unitPriceCents.1 < 2 ^ 31) := by
  have hunit : (lineOf item).unitPriceCents = item.unitPriceCents.1 := rfl
  have hcatalogue : (lineOf item).cataloguePriceCents = item.cataloguePriceCents.1 := rfl
  have hquantity : (lineOf item).quantity = item.quantity.1 := rfl
  rw [← lineTotal_eq_iff, reconcileLine, append_eq_nil_iff, raise_eq_nil_iff, raise_eq_nil_iff, not_lt,
    not_not, hunit, hcatalogue, hquantity]

/-- Line totals that fit are the charges. -/
theorem lineTotals_eq {items : List Item} (h : ∀ i ∈ items, -2 ^ 31 ≤ i.quantity.1 * i.unitPriceCents.1 ∧
    i.quantity.1 * i.unitPriceCents.1 < 2 ^ 31) : (items.map lineOf).map Line.lineTotalCents = charges items := by
  rw [map_map]
  exact map_congr_left fun i hi => (lineTotal_eq_iff i).mpr (h i hi)

theorem subtotalOf_eq_left {items : List Item} (h : ∀ i ∈ items, -2 ^ 31 ≤ i.quantity.1 * i.unitPriceCents.1 ∧
    i.quantity.1 * i.unitPriceCents.1 < 2 ^ 31) : subtotalOf (items.map lineOf) = leftSubtotal items := by
  rw [subtotalOf, lineTotals_eq h, sum_eq_addedUp, leftSubtotal]

theorem positiveOf_eq {items : List Item} (h : ∀ i ∈ items, -2 ^ 31 ≤ i.quantity.1 * i.unitPriceCents.1 ∧
    i.quantity.1 * i.unitPriceCents.1 < 2 ^ 31) :
    positiveOf (items.map lineOf) = addedUp (charges (items.filter fun i => 0 < i.quantity.1)) := by
  have hfilter : (items.map lineOf).filter (fun l => 0 < l.quantity) =
      (items.filter fun i => 0 < i.quantity.1).map lineOf := filter_map
  rw [positiveOf, hfilter, lineTotals_eq fun i hi => h i (mem_of_mem_filter hi), sum_eq_addedUp]

/-- Reconciliation is silent just if no counter has something to count. -/
theorem reconcile_eq_nil_iff {reference : String} {session : Session} {items : List Item} {applied : List Coupon}
    {redemptions : List ℤ} :
    reconcile reference (items.map lineOf) (subtotalOf (items.map lineOf)) (shippingOf session) applied session
        (redemptions ++ applied.map Coupon.couponId) = [] ↔
      Uncounted session items applied redemptions := by
  have hlines : (items.map lineOf).flatMap (reconcileLine reference) = [] ↔
      ∀ i ∈ items, i.cataloguePriceCents.1 ≤ i.unitPriceCents.1 ∧
        (-2 ^ 31 ≤ i.quantity.1 * i.unitPriceCents.1 ∧ i.quantity.1 * i.unitPriceCents.1 < 2 ^ 31) := by
    rw [flatMap_eq_nil_iff]
    simp only [mem_map, forall_exists_index, and_imp, forall_apply_eq_imp_iff₂, reconcileLine_eq_nil_iff]
  have hcredits : reconcileQuantities reference (items.map lineOf) (subtotalOf (items.map lineOf)) = [] ↔
      ((∃ i ∈ items, i.quantity.1 < 1) → positiveOf (items.map lineOf) ≤ subtotalOf (items.map lineOf)) := by
    have hany : ((items.map lineOf).any fun l => l.quantity < 1) = true ↔ ∃ i ∈ items, i.quantity.1 < 1 := by
      rw [any_eq_true]
      constructor
      · rintro ⟨l, hl, hlt⟩
        obtain ⟨i, hi, rfl⟩ := mem_map.mp hl
        exact ⟨i, hi, of_decide_eq_true hlt⟩
      · rintro ⟨i, hi, hlt⟩
        exact ⟨lineOf i, mem_map_of_mem hi, decide_eq_true hlt⟩
    rw [reconcileQuantities, raise_eq_nil_iff, not_and, not_lt, hany]
  have hshipping : reconcileShipping reference session (shippingOf session) = [] ↔
      quotedOf session ≤ shippingOf session := by
    rw [reconcileShipping, raise_eq_nil_iff, not_lt]
  have hcoupons : reconcileCoupons reference applied (redemptions ++ applied.map Coupon.couponId) = [] ↔
      (applied.map Coupon.code).Nodup ∧
        ∀ c ∈ applied, usedOf (redemptions ++ applied.map Coupon.couponId) c ≤ c.maxRedemptions := by
    rw [reconcileCoupons, raise_eq_nil_iff, not_or, not_not, not_not, duplicatedOf_eq_nil_iff, filter_eq_nil_iff]
    simp only [decide_eq_true_eq, not_lt]
  rw [reconcile, append_eq_nil_iff, append_eq_nil_iff, append_eq_nil_iff, hlines, hcredits, hshipping,
    hcoupons]
  constructor
  · rintro ⟨⟨⟨hlines, hcredits⟩, hshipping⟩, hdistinct, hleft⟩
    have hfits := fun i hi => (hlines i hi).2
    rw [positiveOf_eq hfits, subtotalOf_eq_left hfits] at hcredits
    exact ⟨fun i hi => (hlines i hi).1, hfits, hcredits, hshipping, hdistinct, hleft⟩
  · intro h
    refine ⟨⟨⟨fun i hi => ⟨h.priced i hi, h.fits i hi⟩, ?_⟩, h.quoted⟩, h.distinct, h.left⟩
    rw [positiveOf_eq h.fits, subtotalOf_eq_left h.fits]
    exact h.credits

end Counting

/-! ## Discounts -/

section Discounts

end Discounts

/-! ## Subtotals -/

section Subtotals

variable {session : Session} {items : List Item} {applied : List Coupon} {redemptions : List ℤ}

/-- The total over exact figures. -/
def chargedTotal (session : Session) (items : List Item) (applied : List Coupon) : ℤ :=
  chargedSubtotal items + shippingOf session - exactDiscounts (chargedSubtotal items) applied

end Subtotals

/-! ## Below its price -/

section Noticing

variable (reference : String) (session : Session) (items : List Item) (applied : List Coupon) (redemptions : List ℤ)

/-- The session is open, the basket is not empty, and the database takes the discount. -/
def Placed : Prop :=
  session.isOpen = true ∧ items ≠ [] ∧ (written (discountOf (subtotalOf (items.map lineOf)) applied)).isSome

/-- The exact total is one of 32 bits, and the discounts on an overcharge do not exceed it. -/
def Covered : Prop :=
  chargedTotal session items applied < 2 ^ 31 ∧
    exactDiscounts (chargedSubtotal items) applied - exactDiscounts (catalogueSubtotal items) applied ≤
      chargedSubtotal items - catalogueSubtotal items + (shippingOf session - quotedOf session)

variable {reference session items applied redemptions}

theorem confirm_of_placed (hplaced : Placed session items applied) :
    ∃ order : Order, confirm reference session items applied redemptions =
        .placed order (reconcile reference (items.map lineOf) (subtotalOf (items.map lineOf)) (shippingOf session) applied
          session (redemptions ++ applied.map Coupon.couponId)) ∧
      order.totalCents = totalOf (subtotalOf (items.map lineOf)) (shippingOf session)
        (discountOf (subtotalOf (items.map lineOf)) applied) := by
  obtain ⟨hopen, hsome, hwritten⟩ := hplaced
  obtain ⟨discount, hdiscount⟩ := Option.isSome_iff_exists.mp hwritten
  rw [confirm, hopen, if_neg (by simp), if_neg hsome]
  dsimp only
  rw [hdiscount]
  exact ⟨_, rfl, rfl⟩

theorem placed_of_confirm {order : Order} {raised : List Raise}
    (h : confirm reference session items applied redemptions = .placed order raised) : Placed session items applied := by
  rw [confirm] at h
  split_ifs at h with hopen hnone
  refine ⟨by simpa using hopen, hnone, ?_⟩
  dsimp only at h
  cases hwritten : written (discountOf (subtotalOf (items.map lineOf)) applied) with
  | none =>
    rw [hwritten] at h
    cases h
  | some discount => rfl

variable (reference session items applied redemptions)

end Noticing

/-! ## A basket of three lines -/

/-- A variant that costs what its product costs. -/
def wardrobe : Variant where
  title := "Wardrobe — oak"
  stock := 12
  priceCents := ⟨65536, by decide⟩
  productPriceCents := ⟨65536, by decide⟩
  isActive := true
  price_nonneg := by decide
  product_price_nonneg := by decide

/-- Three lines are added, and their quantities changed. -/
def basket : List Item :=
  [CartOp.add 3101 (some 1) none, .add 3101 (some 1) none, .add 3101 (some 1) none,
    .patch 0 (some 21846), .patch 1 (some 21845), .patch 2 (some 21845)].foldl (stepCart fun _ => some wardrobe) []

end PtaasBench.Shopfront
