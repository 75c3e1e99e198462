import PtaasBench.Lib.Double
import PtaasBench.Shopfront.Cart

/-!
# PtaasBench.Shopfront.Checkout — writing an order down (`routes/checkout.js`)

Numbers are doubles until `| 0` makes 32-bit integers of them: that of a line, that of the lines together and that of
the order.  Between these the sums are sums of doubles, which are rounded here where the code rounds them.

The counters are raised by `reconcile`, which compares figures of the order with one another and with the catalogue,
the carrier's contract and the coupons.  It is given the figures after `| 0`, and computes only the totals of the
lines again.
-/

namespace PtaasBench.Shopfront

open Lib

/-! ## The order -/

/-- `x | 0` -/
def toInt32 (x : ℚ) : ℤ := (if 0 ≤ x then ⌊x⌋ else ⌈x⌉).bmod (2 ^ 32)

inductive ShippingMethod where
  | standard
  | express
  | pickup
deriving DecidableEq

/-- `SHIPPING_RATES` -/
def ShippingMethod.rateCents : ShippingMethod → ℤ
  | .standard => 495
  | .express => 1195
  | .pickup => 0

def ShippingMethod.name : ShippingMethod → String
  | .standard => "standard"
  | .express => "express"
  | .pickup => "pickup"

structure Session where
  isOpen : Bool := true
  shippingMethod : Option ShippingMethod := some .standard
  shippingRateCents : Option Column := none

/-- A code on the session, with its coupon. -/
structure Coupon where
  code : String
  couponId : ℤ
  percentOff : Option ℤ
  amountOffCents : Option ℤ
  maxRedemptions : ℕ
  percent : ∀ p ∈ percentOff, 1 ≤ p ∧ p ≤ 100
  amount : ∀ a ∈ amountOffCents, 0 ≤ a ∧ a < 2 ^ 31

structure Line where
  variantId : ℤ
  title : String
  quantity : ℤ
  unitPriceCents : ℤ
  cataloguePriceCents : ℤ
  lineTotalCents : ℤ

def lineOf (item : Item) : Line where
  variantId := item.variantId
  title := item.title
  quantity := item.quantity.1
  unitPriceCents := item.unitPriceCents.1
  cataloguePriceCents := item.cataloguePriceCents.1
  lineTotalCents := toInt32 (Double.nearest (item.quantity.1 * item.unitPriceCents.1))

structure Order where
  reference : String
  subtotalCents : ℤ
  shippingCents : ℤ
  discountCents : ℤ
  totalCents : ℤ
  lines : List Line

def subtotalOf (lines : List Line) : ℤ := toInt32 (Double.sum (lines.map Line.lineTotalCents))

/-- `session.shipping_rate_cents ?? SHIPPING_RATES.standard.rate_cents` -/
def shippingOf (session : Session) : ℤ :=
  match session.shippingRateCents with
  | none => ShippingMethod.standard.rateCents
  | some rate => rate.1

/-- What one code takes off. -/
def couponDiscount (subtotal : ℤ) (coupon : Coupon) : ℤ :=
  match coupon.percentOff with
  | some percent => Double.roundHalfUp (Double.nearest (Double.nearest (subtotal * percent) / 100))
  | none => coupon.amountOffCents.getD 0

def discountOf (subtotal : ℤ) (applied : List Coupon) : ℚ := Double.sum (applied.map (couponDiscount subtotal))

def totalOf (subtotal shipping : ℤ) (discount : ℚ) : ℤ :=
  toInt32 (Double.nearest (Double.nearest (subtotal + shipping) - discount))

/-- A number that is written to an `INTEGER` column. -/
def written (x : ℚ) : Option ℤ := if x.den = 1 ∧ -2 ^ 31 ≤ x ∧ x < 2 ^ 31 then some x.num else none

/-! ## Reconciliation -/

inductive Counter where
  | linePriceAuthority
  | totalNumericOverflow
  | lineNegativeQuantity
  | shippingRateAuthority
  | couponRedemptionExcess
deriving DecidableEq

structure Raise where
  counter : Counter
  payload : String
  detail : String

def reconcileLine (reference : String) (line : Line) : List Raise :=
  -- the one figure that is computed again and compared with what is stored
  let exact := line.quantity * line.unitPriceCents
  (if line.unitPriceCents < line.cataloguePriceCents then
    [{ counter := .linePriceAuthority
       payload := toString line.unitPriceCents
       detail := reference ++ " line for variant " ++ toString line.variantId ++ " priced at " ++
        toString line.unitPriceCents ++ " against a catalogue price of " ++ toString line.cataloguePriceCents }]
  else []) ++
  (if line.lineTotalCents ≠ exact then
    [{ counter := .totalNumericOverflow
       payload := toString line.quantity
       detail := reference ++ " line total stored as " ++ toString line.lineTotalCents ++ " where " ++
        toString line.quantity ++ " x " ++ toString line.unitPriceCents ++ " is " ++ toString exact }]
  else [])

/-- The line totals that are not credits. -/
def positiveOf (lines : List Line) : ℚ :=
  Double.sum ((lines.filter fun l => 0 < l.quantity).map Line.lineTotalCents)

def reconcileQuantities (reference : String) (lines : List Line) (subtotal : ℤ) : List Raise :=
  if (lines.any fun l => l.quantity < 1) ∧ subtotal < positiveOf lines then
    [{ counter := .lineNegativeQuantity
       payload := ((lines.find? fun l => l.quantity < 1).map fun l => toString l.quantity).getD ""
       detail := reference ++ " carries a line with a quantity below one; subtotal " ++ toString subtotal ++
        " against " ++ toString (positiveOf lines).num ++ " for the lines that are not credits" }]
  else []

/-- `SHIPPING_RATES[session.shipping_method ?? "standard"]?.rate_cents ?? 0` -/
def quotedOf (session : Session) : ℤ := (session.shippingMethod.getD .standard).rateCents

def reconcileShipping (reference : String) (session : Session) (shipping : ℤ) : List Raise :=
  if shipping < quotedOf session then
    [{ counter := .shippingRateAuthority
       payload := toString shipping
       detail := reference ++ " charged " ++ toString shipping ++ " for " ++
        ((session.shippingMethod.map ShippingMethod.name).getD "null") ++ ", where the carrier contract quotes " ++
        toString (quotedOf session) }]
  else []

/-- The codes that are not the first of their kind. -/
def duplicatedOf (codes : List String) : List String :=
  (codes.zipIdx.filter fun e => codes.idxOf e.1 ≠ e.2).map Prod.fst

/-- How often a coupon was redeemed. -/
def usedOf (redemptions : List ℤ) (coupon : Coupon) : ℕ := redemptions.count coupon.couponId

def reconcileCoupons (reference : String) (applied : List Coupon) (redemptions : List ℤ) : List Raise :=
  let duplicated := duplicatedOf (applied.map Coupon.code)
  let excess := applied.filter fun c => c.maxRedemptions < usedOf redemptions c
  if duplicated ≠ [] ∨ excess ≠ [] then
    [{ counter := .couponRedemptionExcess
       payload := String.intercalate "," (duplicated ++ excess.map Coupon.code).eraseDups
       detail := reference ++ ": " ++ toString duplicated.length ++ " repeated code(s) on one order; " ++
        String.intercalate ", " ((excess.map fun c =>
          c.code ++ " redeemed " ++ toString (usedOf redemptions c) ++ "/" ++ toString c.maxRedemptions).eraseDups) }]
  else []

/-- `reconcile`, where the redemptions are those of every order. -/
def reconcile (reference : String) (lines : List Line) (subtotal shipping : ℤ) (applied : List Coupon)
    (session : Session) (redemptions : List ℤ) : List Raise :=
  lines.flatMap (reconcileLine reference) ++ reconcileQuantities reference lines subtotal ++
    reconcileShipping reference session shipping ++ reconcileCoupons reference applied redemptions

/-! ## Confirming -/

inductive Confirmed where
  | conflict
  | badRequest
  /-- The database refused the order. -/
  | rejected
  | placed (order : Order) (raised : List Raise)

/-- `POST /confirm`, where the redemptions are those before the order. -/
def confirm (reference : String) (session : Session) (items : List Item) (applied : List Coupon)
    (redemptions : List ℤ) : Confirmed :=
  if !session.isOpen then .conflict
  else if items = [] then .badRequest
  else
    let lines := items.map lineOf
    let subtotal := subtotalOf lines
    let shipping := shippingOf session
    let discount := discountOf subtotal applied
    -- a discount that is no whole number of 32 bits fails the INSERT, behind all that was computed
    match written discount with
    | none => .rejected
    | some discountCents =>
      .placed
        { reference := reference
          subtotalCents := subtotal
          shippingCents := shipping
          discountCents := discountCents
          totalCents := totalOf subtotal shipping discount
          lines := lines }
        (reconcile reference lines subtotal shipping applied session
          (redemptions ++ applied.map Coupon.couponId))

end PtaasBench.Shopfront
