import Mathlib.Data.Rat.Defs
import Mathlib.Tactic.Ring

/-!
# PtaasBench.Shopfront.Cart — the basket (`routes/cart.js`, `lib/validate.js`)

A line carries the price it was added at; the query of the basket puts the catalogue's price beside it.

The three ways into a basket differ in what they ask.  A line that is added may name its price and any quantity, also
one below zero; one that is changed gets any quantity and keeps its price; one that is merged has a quantity of one at
least and the price of its variant.  What a column of the table does not hold is refused by the database.
-/

namespace PtaasBench.Shopfront

/-- A value of an `INTEGER` column. -/
abbrev Column := {n : ℤ // -2 ^ 31 ≤ n ∧ n < 2 ^ 31}

/-- Writing a number to a column; `none` is a refusal of the database. -/
def column (n : ℤ) : Option Column := if h : -2 ^ 31 ≤ n ∧ n < 2 ^ 31 then some ⟨n, h⟩ else none

/-- `Fields.integer`, of a field that is absent or a number; `none` is a problem of the field. -/
def integer (required : Bool) (min max : Option ℤ) (raw : Option ℚ) : Option (Option ℤ) :=
  match raw with
  | none => if required then none else some none
  | some n =>
    if n.den ≠ 1 then none
    else if min.any fun bound : ℤ => decide (n.num < bound) then none
    else if max.any fun bound : ℤ => decide (bound < n.num) then none
    else some (some n.num)

/-- A variant, with the price of its product. -/
structure Variant where
  title : String
  stock : ℤ
  priceCents : Column
  productPriceCents : Column
  isActive : Bool
  price_nonneg : 0 ≤ priceCents.1
  product_price_nonneg : 0 ≤ productPriceCents.1

/-- A row of `cartBody`. -/
structure Item where
  variantId : ℤ
  title : String
  quantity : Column
  unitPriceCents : Column
  cataloguePriceCents : Column
  unit_price_nonneg : 0 ≤ unitPriceCents.1
  catalogue_price_nonneg : 0 ≤ cataloguePriceCents.1

def Variant.item (v : Variant) (variantId : ℤ) (quantity : Column) (unitPrice : Column) (h : 0 ≤ unitPrice.1) : Item where
  variantId := variantId
  title := v.title
  quantity := quantity
  unitPriceCents := unitPrice
  cataloguePriceCents := v.productPriceCents
  unit_price_nonneg := h
  catalogue_price_nonneg := v.product_price_nonneg

inductive CartOp where
  | add (variantId : ℤ) (quantity unitPrice : Option ℚ)
  | patch (line : ℕ) (quantity : Option ℚ)
  | remove (line : ℕ)
  /-- A line of a guest's basket, or of one that is restored. -/
  | merge (variantId : ℤ) (quantity : ℤ)

/-- `POST /items` -/
def addItem (variants : ℤ → Option Variant) (variantId : ℤ) (quantity unitPrice : Option ℚ) : Option Item := do
  let some quantity ← integer true none (some 2147483647) quantity | none
  let unitPrice ← integer false (some 0) (some 2147483647) unitPrice
  let v ← variants variantId
  if !v.isActive then none
  -- the stock bounds a positive quantity only: a credit of any size goes in
  else if 0 < quantity ∧ v.stock < quantity then none
  else
    let quantity ← column quantity
    match unitPrice with
    | none => some (v.item variantId quantity v.priceCents v.price_nonneg)
    | some unitPrice =>
      -- the price of the request stands, whatever the catalogue says
      let unitPrice ← column unitPrice
      if h : 0 ≤ unitPrice.1 then some (v.item variantId quantity unitPrice h) else none

/-- `PATCH /items/:id` -/
def patchItem (item : Item) (quantity : Option ℚ) : Option Item := do
  let some quantity ← integer true none (some 2147483647) quantity | none
  let quantity ← column quantity
  some { item with quantity := quantity }

/-- `POST /merge` and `POST /restore`, one line. -/
def mergeItem (variants : ℤ → Option Variant) (variantId quantity : ℤ) : Option Item := do
  if quantity < 1 then none
  else
    let v ← variants variantId
    let quantity ← column quantity
    some (v.item variantId quantity v.priceCents v.price_nonneg)

/-- A basket after a request; one that is refused leaves it as it is. -/
def stepCart (variants : ℤ → Option Variant) (cart : List Item) : CartOp → List Item
  | .add variantId quantity unitPrice => cart ++ (addItem variants variantId quantity unitPrice).toList
  | .patch line quantity =>
    match cart[line]? with
    | none => cart
    | some item =>
      match patchItem item quantity with
      | none => cart
      | some item => cart.set line item
  | .remove line => cart.eraseIdx line
  | .merge variantId quantity => cart ++ (mergeItem variants variantId quantity).toList

end PtaasBench.Shopfront
