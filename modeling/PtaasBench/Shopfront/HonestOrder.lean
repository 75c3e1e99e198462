import PtaasBench.Lib.Machine
import PtaasBench.Shopfront.AmountDue

/-!
# PtaasBench.Shopfront.HonestOrder — the calls of an honest client (`routes/cart.js`, `routes/checkout.js`)

One client's calls, from the first basket to the last order.  A call that is refused is one that changes nothing, so
the checks that only refuse (addresses, cards, the fields of the session) are left out.

An honest client names no price and no shipping rate of its own, orders one piece of a thing at least, gives a code
once, and confirms what fits 32 bits.  Such a client raises a counter just where the shop sells a variant below the
price of its product, since the counter compares a line with the product and not with the variant.
-/

namespace PtaasBench.Shopfront.HonestOrder

open Lib List

/-! ## The shop -/

structure CouponRow extends Coupon where
  isActive : Bool

/-- `coupons`; codes are compared by `upper`, and no two are the same that way. -/
structure CouponTable (upper : String → String) where
  rows : List CouponRow
  ids : (rows.map fun c => c.couponId).Nodup
  codes : (rows.map fun c => upper c.code).Nodup

/-- The session that is open, with its rows of `checkout_coupons`. -/
structure Checkout where
  cart : ℕ
  session : Session
  codes : List String := []

structure Shop where
  carts : ℕ → List Item := fun _ => []
  checkout : Option Checkout := none
  /-- `coupons.redemptions` -/
  redemptions : ℤ → ℕ
  /-- `coupon_redemptions` -/
  ledger : List ℤ
  orders : ℕ := 0
  raised : List Raise := []

/-- A shop with orders behind it.  The counters of the coupons match the redemption rows. -/
def opened (ledger : List ℤ) : Shop where
  redemptions := fun id => ledger.count id
  ledger := ledger

inductive Call where
  /-- A call on one of the client's baskets. -/
  | cart (cart : ℕ) (op : CartOp)
  /-- `POST /sessions` -/
  | start (cart : ℕ)
  | shipping (method : ShippingMethod) (rate : Option ℚ)
  | coupon (code : String) (expired : Bool)
  | removeCoupon (code : String)
  | confirm

section Steps

variable (upper : String → String) (variants : ℤ → Option Variant) (coupons : CouponTable upper)

def startSession (cart : ℕ) (s : Shop) : Shop :=
  if s.carts cart = [] then s
  else { s with checkout := some { cart := cart, session := { shippingRateCents := column ShippingMethod.standard.rateCents } } }

/-- `POST /shipping` -/
def chooseShipping (method : ShippingMethod) (rate : Option ℚ) (s : Shop) : Shop :=
  match s.checkout, integer false none (some 2147483647) rate with
  | some k, some rate =>
    match column (rate.getD method.rateCents) with
    | none => s
    | some rate =>
      { s with
        checkout := some { k with
          session := { k.session with shippingMethod := some method, shippingRateCents := some rate } } }
  | _, _ => s

/-- `POST /coupons` -/
def applyCode (code : String) (expired : Bool) (s : Shop) : Shop :=
  match coupons.rows.find? fun c => upper c.code = upper code with
  | none => s
  | some c =>
    if !c.isActive then s
    else if expired then s
    else if c.maxRedemptions ≤ s.redemptions c.couponId then s
    else
      match s.checkout with
      | none => s
      | some k => { s with checkout := some { k with codes := k.codes ++ [c.code] } }

/-- `DELETE /coupons/:code` -/
def removeCode (code : String) (s : Shop) : Shop :=
  match s.checkout with
  | none => s
  | some k => { s with checkout := some { k with codes := k.codes.filter fun other => upper other ≠ upper code } }

/-- `checkout_coupons JOIN coupons` -/
def appliedOf (codes : List String) : List Coupon :=
  codes.flatMap fun code =>
    (coupons.rows.filter fun c => upper c.code = upper code).map fun c => { c.toCoupon with code := code }

def referenceOf (orderId : ℕ) : String :=
  "ORD-2026-" ++ String.ofList ((toString orderId).toList.leftpad 5 '0')

/-- `POST /confirm` -/
def confirmOrder (s : Shop) : Shop :=
  match s.checkout with
  | none => s
  | some k =>
    let applied := appliedOf upper coupons k.codes
    match confirm (referenceOf (s.orders + 1)) k.session (s.carts k.cart) applied s.ledger with
    | .placed _ raised =>
      { carts := Function.update s.carts k.cart []
        checkout := none
        redemptions := fun id => s.redemptions id + (applied.map Coupon.couponId).count id
        ledger := s.ledger ++ applied.map Coupon.couponId
        orders := s.orders + 1
        raised := s.raised ++ raised }
    | .rejected => { s with orders := s.orders + 1 }
    | _ => s

def step (s : Shop) : Call → Shop
  | .cart cart op => { s with carts := Function.update s.carts cart (stepCart variants (s.carts cart) op) }
  | .start cart => startSession cart s
  | .shipping method rate => chooseShipping method rate s
  | .coupon code expired => applyCode upper coupons code expired s
  | .removeCoupon code => removeCode upper code s
  | .confirm => confirmOrder upper coupons s

/-- What a sequence of calls leads to. -/
abbrev run (ledger : List ℤ) (calls : List Call) : Shop := Lib.run (step upper variants coupons) (opened ledger) calls

/-! ## Honest calls -/

/-- The client sends no price and no rate, quantities from one, codes that are not on the session yet; the amounts of
the lines are below `2 ^ 31`. -/
def Honest (s : Shop) : Call → Prop
  | .cart _ (.add _ quantity unitPrice) => unitPrice = none ∧ ∀ q, quantity = some q → 1 ≤ q
  | .cart _ (.patch _ quantity) => ∀ q, quantity = some q → 1 ≤ q
  | .cart _ (.merge _ quantity) => 1 ≤ quantity
  | .shipping _ rate => rate = none
  | .coupon code _ => ∀ k, s.checkout = some k → ∀ other ∈ k.codes, upper other ≠ upper code
  | .confirm => ∀ k, s.checkout = some k → ∀ i ∈ s.carts k.cart, i.quantity.1 * i.unitPriceCents.1 < 2 ^ 31
  | _ => True

/-- A basket that becomes an order has only variants that cost what their product costs, or more. -/
def Covered (s : Shop) : Call → Prop
  | .confirm => ∀ k, s.checkout = some k → Placed k.session (s.carts k.cart) (appliedOf upper coupons k.codes) →
      ∀ i ∈ s.carts k.cart, ∀ v, variants i.variantId = some v → v.productPriceCents.1 ≤ v.priceCents.1
  | _ => True

end Steps

/-! ## Lines -/

section Lines

variable {variants : ℤ → Option Variant}

/-- A line at its variant's own price. -/
def OwnPrice (variants : ℤ → Option Variant) (i : Item) : Prop :=
  1 ≤ i.quantity.1 ∧ ∃ v, variants i.variantId = some v ∧ i.unitPriceCents = v.priceCents ∧
    i.cataloguePriceCents = v.productPriceCents

theorem integer_eq_some {required : Bool} {min max : Option ℤ} {raw : Option ℚ} {n : ℤ}
    (h : integer required min max raw = some (some n)) : raw = some (n : ℚ) := by
  cases raw with
  | none =>
    rw [integer] at h
    split_ifs at h
    cases Option.some.inj h
  | some q =>
    rw [integer] at h
    split_ifs at h with hden hmin hmax
    obtain rfl := Option.some.inj (Option.some.inj h)
    rw [Rat.coe_int_num_of_den_eq_one (not_not.mp hden)]

theorem column_eq_some {n : ℤ} {c : Column} (h : column n = some c) : c.1 = n := by
  rw [column] at h
  split_ifs at h with hfits
  rw [← Option.some.inj h]

/-- A quantity that a client gives, as it comes to the line. -/
theorem quantity_pos {required : Bool} {min max : Option ℤ} {raw : Option ℚ} {n : ℤ} {c : Column}
    (hraw : ∀ q, raw = some q → 1 ≤ q) (hn : integer required min max raw = some (some n)) (hc : column n = some c) :
    1 ≤ c.1 := by
  rw [column_eq_some hc]
  exact_mod_cast hraw n (integer_eq_some hn)

theorem addItem_ownPrice {variantId : ℤ} {quantity : Option ℚ} (hquantity : ∀ q, quantity = some q → 1 ≤ q) {i : Item}
    (h : addItem variants variantId quantity none = some i) : OwnPrice variants i := by
  rw [addItem] at h
  obtain ⟨n, hn, h⟩ := Option.bind_eq_some_iff.mp h
  cases n with
  | none => cases h
  | some n =>
    obtain ⟨price, hprice, h⟩ := Option.bind_eq_some_iff.mp h
    obtain rfl : none = price := Option.some.inj hprice
    obtain ⟨v, hv, h⟩ := Option.bind_eq_some_iff.mp h
    split_ifs at h
    obtain ⟨c, hc, h⟩ := Option.bind_eq_some_iff.mp h
    obtain rfl := Option.some.inj h
    exact ⟨quantity_pos hquantity hn hc, v, hv, rfl, rfl⟩

theorem patchItem_ownPrice {item i : Item} (hitem : OwnPrice variants item) {quantity : Option ℚ}
    (hquantity : ∀ q, quantity = some q → 1 ≤ q) (h : patchItem item quantity = some i) : OwnPrice variants i := by
  rw [patchItem] at h
  obtain ⟨n, hn, h⟩ := Option.bind_eq_some_iff.mp h
  cases n with
  | none => cases h
  | some n =>
    obtain ⟨c, hc, h⟩ := Option.bind_eq_some_iff.mp h
    obtain rfl := Option.some.inj h
    exact ⟨quantity_pos hquantity hn hc, hitem.2⟩

theorem mergeItem_ownPrice {variantId quantity : ℤ} {i : Item} (h : mergeItem variants variantId quantity = some i) :
    OwnPrice variants i := by
  rw [mergeItem] at h
  split_ifs at h with hquantity
  obtain ⟨v, hv, h⟩ := Option.bind_eq_some_iff.mp h
  obtain ⟨c, hc, h⟩ := Option.bind_eq_some_iff.mp h
  obtain rfl := Option.some.inj h
  refine ⟨?_, v, hv, rfl, rfl⟩
  show 1 ≤ c.1
  rw [column_eq_some hc]
  exact not_lt.mp hquantity

/-- An honest call leaves every line at its variant's own price. -/
theorem stepCart_ownPrice {cart : List Item} (hcart : ∀ i ∈ cart, OwnPrice variants i) {shop : Shop} {c : ℕ} {op : CartOp}
    {upper : String → String} (h : Honest upper shop (.cart c op)) : ∀ i ∈ stepCart variants cart op, OwnPrice variants i := by
  intro i hi
  cases op with
  | add variantId quantity unitPrice =>
    obtain ⟨rfl, hquantity⟩ := h
    rcases mem_append.mp hi with hi | hi
    · exact hcart i hi
    · exact addItem_ownPrice hquantity (Option.mem_toList.mp hi)
  | patch line quantity =>
    rw [stepCart] at hi
    cases hline : cart[line]? with
    | none =>
      rw [hline] at hi
      exact hcart i hi
    | some item =>
      cases hpatch : patchItem item quantity with
      | none =>
        simp only [hline, hpatch] at hi
        exact hcart i hi
      | some patched =>
        simp only [hline, hpatch] at hi
        rcases mem_or_eq_of_mem_set hi with hi | rfl
        · exact hcart i hi
        · exact patchItem_ownPrice (hcart item (mem_of_getElem? hline)) h hpatch
  | remove line => exact hcart i (mem_of_mem_eraseIdx hi)
  | merge variantId quantity =>
    rcases mem_append.mp hi with hi | hi
    · exact hcart i hi
    · exact mergeItem_ownPrice (Option.mem_toList.mp hi)

end Lines

/-! ## Codes -/

section Codes

variable {upper : String → String} {coupons : CouponTable upper}

theorem row_eq_of_code {c d : CouponRow} (hc : c ∈ coupons.rows) (hd : d ∈ coupons.rows)
    (h : upper c.code = upper d.code) : c = d :=
  inj_on_of_nodup_map coupons.codes hc hd h

theorem row_eq_of_id {c d : CouponRow} (hc : c ∈ coupons.rows) (hd : d ∈ coupons.rows) (h : c.couponId = d.couponId) :
    c = d :=
  inj_on_of_nodup_map coupons.ids hc hd h

/-- The rows that one code is joined to: one at most. -/
theorem rows_of_code (code : String) :
    coupons.rows.filter (fun c => upper c.code = upper code) = [] ∨
      ∃ c ∈ coupons.rows, upper c.code = upper code ∧ coupons.rows.filter (fun c => upper c.code = upper code) = [c] := by
  cases hrows : coupons.rows.filter (fun c => upper c.code = upper code) with
  | nil => exact Or.inl rfl
  | cons c rest =>
    have hmem : ∀ d ∈ c :: rest, d ∈ coupons.rows ∧ upper d.code = upper code := by
      intro d hd
      rw [← hrows, mem_filter, decide_eq_true_iff] at hd
      exact hd
    have hnodup : (c :: rest).Nodup := by
      rw [← hrows]
      exact (List.Nodup.of_map _ coupons.codes).filter _
    obtain ⟨hc, hcode⟩ := hmem c mem_cons_self
    cases rest with
    | nil => exact Or.inr ⟨c, hc, hcode, rfl⟩
    | cons d rest =>
      obtain ⟨hd, hcode'⟩ := hmem d (mem_cons_of_mem c mem_cons_self)
      have heq := row_eq_of_code hc hd (hcode.trans hcode'.symm)
      exact absurd (heq ▸ mem_cons_self) (nodup_cons.mp hnodup).1

theorem mem_appliedOf {codes : List String} {a : Coupon} :
    a ∈ appliedOf upper coupons codes ↔
      ∃ code ∈ codes, ∃ c ∈ coupons.rows, upper c.code = upper code ∧ { c.toCoupon with code := code } = a := by
  rw [appliedOf, mem_flatMap]
  refine exists_congr fun code => and_congr_right fun _ => ?_
  rw [mem_map]
  refine exists_congr fun c => ?_
  rw [mem_filter, decide_eq_true_iff, and_assoc]

variable {codes : List String} (hcodes : (codes.map upper).Nodup)

include hcodes in
theorem appliedOf_codes : ((appliedOf upper coupons codes).map Coupon.code).Nodup := by
  rw [appliedOf, map_flatMap, nodup_flatMap]
  refine ⟨?_, ?_⟩
  · intro code _
    rcases @rows_of_code _ coupons code with hrows | ⟨c, -, -, hrows⟩
    · rw [hrows]
      exact nodup_nil
    · rw [hrows]
      exact nodup_singleton _
  · rw [List.Nodup, pairwise_map] at hcodes
    refine hcodes.imp ?_
    intro code other hne x hx hother
    obtain ⟨a, ha, rfl⟩ := mem_map.mp hx
    obtain ⟨b, hb, hcode⟩ := mem_map.mp hother
    obtain ⟨c, -, rfl⟩ := mem_map.mp ha
    obtain ⟨d, -, rfl⟩ := mem_map.mp hb
    exact hne (congrArg upper hcode.symm)

include hcodes in
theorem appliedOf_ids : ((appliedOf upper coupons codes).map Coupon.couponId).Nodup := by
  rw [appliedOf, map_flatMap, nodup_flatMap]
  refine ⟨?_, ?_⟩
  · intro code _
    rcases @rows_of_code _ coupons code with hrows | ⟨c, -, -, hrows⟩
    · rw [hrows]
      exact nodup_nil
    · rw [hrows]
      exact nodup_singleton _
  · rw [List.Nodup, pairwise_map] at hcodes
    refine hcodes.imp ?_
    intro code other hne x hx hother
    obtain ⟨a, ha, rfl⟩ := mem_map.mp hx
    obtain ⟨b, hb, hid⟩ := mem_map.mp hother
    obtain ⟨c, hc, rfl⟩ := mem_map.mp ha
    obtain ⟨d, hd, rfl⟩ := mem_map.mp hb
    rw [mem_filter, decide_eq_true_iff] at hc hd
    have heq := row_eq_of_id hd.1 hc.1 hid
    rw [heq] at hd
    exact hne (hc.2.symm.trans hd.2)

end Codes

/-! ## Every honest call keeps the shop fair -/

section Runs

variable {upper : String → String} {variants : ℤ → Option Variant} {coupons : CouponTable upper} {s : Shop}

/-- What the calls of an honest client lead to. -/
structure Fair (variants : ℤ → Option Variant) (coupons : CouponTable upper) (s : Shop) : Prop where
  lines : ∀ cart, ∀ i ∈ s.carts cart, OwnPrice variants i
  quoted : ∀ k, s.checkout = some k → quotedOf k.session ≤ shippingOf k.session
  distinct : ∀ k, s.checkout = some k → (k.codes.map upper).Nodup
  left : ∀ k, s.checkout = some k → ∀ code ∈ k.codes, ∀ c ∈ coupons.rows, upper c.code = upper code →
    s.redemptions c.couponId < c.maxRedemptions
  counted : ∀ id, s.redemptions id = s.ledger.count id

theorem fair_opened (ledger : List ℤ) : Fair variants coupons (opened ledger) where
  lines := fun _ _ hi => absurd hi not_mem_nil
  quoted := fun _ hk => absurd hk.symm (Option.some_ne_none _)
  distinct := fun _ hk => absurd hk.symm (Option.some_ne_none _)
  left := fun _ hk => absurd hk.symm (Option.some_ne_none _)
  counted := fun _ => rfl

theorem Fair.cart (h : Fair variants coupons s) {cart : ℕ} {op : CartOp} (honest : Honest upper s (.cart cart op)) :
    Fair variants coupons (step upper variants coupons s (.cart cart op)) where
  lines := by
    intro other i (hi : i ∈ Function.update s.carts cart (stepCart variants (s.carts cart) op) other)
    by_cases hother : other = cart
    · rw [hother, Function.update_self] at hi
      exact stepCart_ownPrice (h.lines cart) honest i hi
    · rw [Function.update_of_ne hother] at hi
      exact h.lines other i hi
  quoted := h.quoted
  distinct := h.distinct
  left := h.left
  counted := h.counted

/-- A session that is fair itself. -/
theorem Fair.choose (h : Fair variants coupons s) {k : Checkout} (hquoted : quotedOf k.session ≤ shippingOf k.session)
    (hdistinct : (k.codes.map upper).Nodup)
    (hleft : ∀ code ∈ k.codes, ∀ c ∈ coupons.rows, upper c.code = upper code → s.redemptions c.couponId < c.maxRedemptions) :
    Fair variants coupons { s with checkout := some k } where
  lines := h.lines
  quoted := by
    intro k' hk'
    rwa [← Option.some.inj hk']
  distinct := by
    intro k' hk'
    rwa [← Option.some.inj hk']
  left := by
    intro k' hk'
    rwa [← Option.some.inj hk']
  counted := h.counted

theorem Fair.start (h : Fair variants coupons s) (cart : ℕ) : Fair variants coupons (startSession cart s) := by
  rw [startSession]
  split_ifs
  · exact h
  · exact h.choose le_rfl nodup_nil fun code hcode => absurd hcode not_mem_nil

/-- The rate of a method that the client leaves to the shop. -/
theorem Fair.shipping (h : Fair variants coupons s) (method : ShippingMethod) :
    Fair variants coupons (chooseShipping method none s) := by
  unfold chooseShipping
  cases hcheckout : s.checkout with
  | none => exact h
  | some k =>
    have hrate : ∃ rate, column method.rateCents = some rate ∧ rate.1 = method.rateCents := by
      cases method with
      | standard => exact ⟨⟨495, by decide⟩, rfl, rfl⟩
      | express => exact ⟨⟨1195, by decide⟩, rfl, rfl⟩
      | pickup => exact ⟨⟨0, by decide⟩, rfl, rfl⟩
    obtain ⟨rate, hcolumn, hrate⟩ := hrate
    have hinteger : integer false none (some 2147483647) none = some none := rfl
    simp only [hinteger, Option.getD_none, hcolumn]
    exact h.choose hrate.ge (h.distinct k hcheckout) (h.left k hcheckout)

theorem Fair.coupon (h : Fair variants coupons s) {code : String} {expired : Bool}
    (honest : Honest upper s (.coupon code expired)) : Fair variants coupons (applyCode upper coupons code expired s) := by
  unfold applyCode
  cases hfind : coupons.rows.find? fun c => upper c.code = upper code with
  | none => exact h
  | some c =>
    have hc := mem_of_find?_eq_some hfind
    have hcode : upper c.code = upper code :=
      of_decide_eq_true (List.find?_some (p := fun c : CouponRow => decide (upper c.code = upper code)) hfind)
    dsimp only
    split_ifs with hactive hexpired hused
    · exact h
    · exact h
    · exact h
    · cases hcheckout : s.checkout with
      | none => exact h
      | some k =>
        refine h.choose (h.quoted k hcheckout) ?_ ?_
        · rw [map_append, map_singleton, nodup_append]
          refine ⟨h.distinct k hcheckout, nodup_singleton _, ?_⟩
          intro a ha b hb
          obtain ⟨other, hother, rfl⟩ := mem_map.mp ha
          rw [mem_singleton.mp hb, hcode]
          exact honest k hcheckout other hother
        · intro other hother d hd heq
          rcases mem_append.mp hother with hother | hother
          · exact h.left k hcheckout other hother d hd heq
          · rw [mem_singleton.mp hother] at heq
            rw [row_eq_of_code hd hc heq]
            exact not_le.mp hused

theorem Fair.removeCoupon (h : Fair variants coupons s) (code : String) :
    Fair variants coupons (removeCode upper code s) := by
  unfold removeCode
  cases hcheckout : s.checkout with
  | none => exact h
  | some k =>
    refine h.choose (h.quoted k hcheckout) ?_ ?_
    · exact (h.distinct k hcheckout).sublist (filter_sublist.map upper)
    · exact fun other hother => h.left k hcheckout other (mem_of_mem_filter hother)

theorem Fair.confirm (h : Fair variants coupons s) : Fair variants coupons (confirmOrder upper coupons s) := by
  unfold confirmOrder
  cases hcheckout : s.checkout with
  | none => exact h
  | some k =>
    dsimp only
    cases Shopfront.confirm (referenceOf (s.orders + 1)) k.session (s.carts k.cart) (appliedOf upper coupons k.codes)
      s.ledger with
    | conflict => exact h
    | badRequest => exact h
    | rejected =>
      have hsame := h.choose (h.quoted k hcheckout) (h.distinct k hcheckout) (h.left k hcheckout)
      exact ⟨hsame.lines, hsame.quoted, hsame.distinct, hsame.left, hsame.counted⟩
    | placed order raised =>
      exact
        { lines := by
            intro cart i (hi : i ∈ Function.update s.carts k.cart [] cart)
            by_cases hcart : cart = k.cart
            · rw [hcart, Function.update_self] at hi
              exact absurd hi not_mem_nil
            · rw [Function.update_of_ne hcart] at hi
              exact h.lines cart i hi
          quoted := fun _ hk => absurd hk.symm (Option.some_ne_none _)
          distinct := fun _ hk => absurd hk.symm (Option.some_ne_none _)
          left := fun _ hk => absurd hk.symm (Option.some_ne_none _)
          counted := by
            intro id
            dsimp only
            rw [h.counted, ← count_append] }

theorem Fair.step (h : Fair variants coupons s) (call : Call) (honest : Honest upper s call) :
    Fair variants coupons (step upper variants coupons s call) := by
  cases call with
  | cart cart op => exact h.cart honest
  | start cart => exact h.start cart
  | shipping method rate =>
    obtain rfl : rate = none := honest
    exact h.shipping method
  | coupon code expired => exact h.coupon honest
  | removeCoupon code => exact h.removeCoupon code
  | confirm => exact h.confirm

/-! ## What is raised -/

/-- Of an honest client, only a line below its product's price is counted. -/
theorem Fair.uncounted_iff (h : Fair variants coupons s) (honest : Honest upper s .confirm) {k : Checkout}
    (hk : s.checkout = some k) :
    Uncounted k.session (s.carts k.cart) (appliedOf upper coupons k.codes) s.ledger ↔
      ∀ i ∈ s.carts k.cart, ∀ v, variants i.variantId = some v → v.productPriceCents.1 ≤ v.priceCents.1 := by
  constructor
  · intro hcounted i hi v hv
    obtain ⟨-, v', hv', hprice, hproduct⟩ := h.lines k.cart i hi
    obtain rfl := Option.some.inj (hv.symm.trans hv')
    rw [← hprice, ← hproduct]
    exact hcounted.priced i hi
  · intro hpriced
    refine ⟨?_, ?_, ?_, h.quoted k hk, appliedOf_codes (h.distinct k hk), ?_⟩
    · intro i hi
      obtain ⟨-, v, hv, hprice, hproduct⟩ := h.lines k.cart i hi
      rw [hprice, hproduct]
      exact hpriced i hi v hv
    · intro i hi
      obtain ⟨hquantity, -⟩ := h.lines k.cart i hi
      have hnonneg : 0 ≤ i.quantity.1 * i.unitPriceCents.1 := mul_nonneg (by omega) i.unit_price_nonneg
      exact ⟨le_trans (by norm_num) hnonneg, honest k hk i hi⟩
    · rintro ⟨i, hi, hcredit⟩
      obtain ⟨hquantity, -⟩ := h.lines k.cart i hi
      omega
    · intro a ha
      obtain ⟨code, hcode, c, hc, heq, rfl⟩ := mem_appliedOf.mp ha
      have hleft := h.left k hk code hcode c hc heq
      have honce := nodup_iff_count_le_one.mp (@appliedOf_ids _ coupons _ (h.distinct k hk)) c.couponId
      rw [h.counted] at hleft
      have hused : s.ledger.count c.couponId + ((appliedOf upper coupons k.codes).map Coupon.couponId).count c.couponId ≤
          c.maxRedemptions := by omega
      rw [usedOf, count_append]
      exact hused

theorem Fair.confirm_raised_iff (h : Fair variants coupons s) (honest : Honest upper s .confirm) :
    (confirmOrder upper coupons s).raised = [] ↔ s.raised = [] ∧ Covered upper variants coupons s .confirm := by
  cases hcheckout : s.checkout with
  | none =>
    have hsame : confirmOrder upper coupons s = s := by
      unfold confirmOrder
      rw [hcheckout]
    rw [hsame, Covered, hcheckout]
    exact (and_iff_left fun _ hk => absurd hk.symm (Option.some_ne_none _)).symm
  | some k =>
    have hcovered : Covered upper variants coupons s .confirm ↔
        (Placed k.session (s.carts k.cart) (appliedOf upper coupons k.codes) →
          Uncounted k.session (s.carts k.cart) (appliedOf upper coupons k.codes) s.ledger) := by
      rw [h.uncounted_iff honest hcheckout, Covered, hcheckout]
      constructor
      · intro hall
        exact hall k rfl
      · intro hone k' hk'
        rwa [← Option.some.inj hk']
    rw [hcovered]
    by_cases hplaced : Placed k.session (s.carts k.cart) (appliedOf upper coupons k.codes)
    · obtain ⟨order, hconfirm, -⟩ := @confirm_of_placed (referenceOf (s.orders + 1)) _ _ _ s.ledger hplaced
      have hraised : (confirmOrder upper coupons s).raised = s.raised ++
          reconcile (referenceOf (s.orders + 1)) ((s.carts k.cart).map lineOf) (subtotalOf ((s.carts k.cart).map lineOf))
            (shippingOf k.session) (appliedOf upper coupons k.codes) k.session
            (s.ledger ++ (appliedOf upper coupons k.codes).map Coupon.couponId) := by
        unfold confirmOrder
        rw [hcheckout]
        dsimp only
        rw [hconfirm]
      rw [hraised, append_eq_nil_iff, reconcile_eq_nil_iff, imp_iff_right hplaced]
    · have hraised : (confirmOrder upper coupons s).raised = s.raised := by
        unfold confirmOrder
        rw [hcheckout]
        dsimp only
        cases hconfirm : Shopfront.confirm (referenceOf (s.orders + 1)) k.session (s.carts k.cart)
          (appliedOf upper coupons k.codes) s.ledger with
        | conflict => rfl
        | badRequest => rfl
        | rejected => rfl
        | placed order raised => exact absurd (placed_of_confirm hconfirm) hplaced
      rw [hraised]
      exact (and_iff_left fun hall => absurd hall hplaced).symm

theorem raised_applyCode (code : String) (expired : Bool) : (applyCode upper coupons code expired s).raised = s.raised := by
  unfold applyCode
  cases coupons.rows.find? fun c => upper c.code = upper code with
  | none => rfl
  | some c =>
    dsimp only
    split_ifs
    · rfl
    · rfl
    · rfl
    · cases s.checkout with
      | none => rfl
      | some k => rfl

theorem raised_chooseShipping (method : ShippingMethod) (rate : Option ℚ) :
    (chooseShipping method rate s).raised = s.raised := by
  unfold chooseShipping
  cases s.checkout with
  | none => rfl
  | some k =>
    cases integer false none (some 2147483647) rate with
    | none => rfl
    | some rate =>
      dsimp only
      cases column (rate.getD method.rateCents) with
      | none => rfl
      | some rate => rfl

/-- A step raises nothing just if nothing was raised before and the basket it confirms is covered. -/
theorem Fair.raised_step_iff (h : Fair variants coupons s) (call : Call) (honest : Honest upper s call) :
    (HonestOrder.step upper variants coupons s call).raised = [] ↔
      s.raised = [] ∧ Covered upper variants coupons s call := by
  have hother {s' : Shop} (hraised : s'.raised = s.raised) : s'.raised = [] ↔ s.raised = [] ∧ True := by
    rw [hraised, and_true]
  cases call with
  | cart cart op => exact hother rfl
  | start cart =>
    refine hother ?_
    rw [HonestOrder.step, startSession]
    split_ifs
    · rfl
    · rfl
  | shipping method rate => exact hother (raised_chooseShipping method rate)
  | coupon code expired => exact hother (raised_applyCode code expired)
  | removeCoupon code =>
    refine hother ?_
    rw [HonestOrder.step]
    unfold removeCode
    cases s.checkout with
    | none => rfl
    | some k => rfl
  | confirm => exact h.confirm_raised_iff honest

variable (upper variants coupons) in
/-- The orders of an honest client raise nothing just if no basket that is confirmed has a variant below its product's
price. -/
theorem honest_run_silent_iff {ledger : List ℤ} {calls : List Call}
    (h : Along (HonestOrder.step upper variants coupons) (Honest upper) (opened ledger) calls) :
    (run upper variants coupons ledger calls).raised = [] ↔
      Along (HonestOrder.step upper variants coupons) (Covered upper variants coupons) (opened ledger) calls := by
  -- on the last call: the shop before it is fair, so that its own silence is decided by that call alone
  induction calls using List.reverseRecOn with
  | nil => exact iff_of_true rfl trivial
  | append_singleton calls call ih =>
    rw [along_append] at h ⊢
    have hfair : Fair variants coupons (run upper variants coupons ledger calls) :=
      run_along (HonestOrder.step upper variants coupons) (fun _ call hfair honest => hfair.step call honest)
        (fair_opened ledger) h.1
    rw [run, run_concat, hfair.raised_step_iff call h.2.1, ih h.1]
    exact and_congr_right fun _ => (and_iff_left trivial).symm

end Runs

/-! ## One order -/

/-- A variant that is cheaper than its product. -/
def sample : Variant where
  title := "Wardrobe — sample"
  stock := 12
  priceCents := ⟨900, by decide⟩
  productPriceCents := ⟨1000, by decide⟩
  isActive := true
  price_nonneg := by decide
  product_price_nonneg := by decide

def noCoupons (upper : String → String) : CouponTable upper where
  rows := []
  ids := nodup_nil
  codes := nodup_nil

/-- One piece, shipped as the session has it. -/
def order : List Call := [.cart 0 (.add 1 (some 1) none), .start 0, .confirm]

theorem order_honest : Along (step id (fun _ => some sample) (noCoupons id)) (Honest id) (opened []) order := by
  have hadd : ∀ q : ℚ, some 1 = some q → 1 ≤ q := fun q hq => (Option.some.inj hq).le
  refine ⟨⟨rfl, hadd⟩, trivial, ?_, trivial⟩
  intro k hk i hi
  obtain rfl := Option.some.inj hk
  obtain rfl := mem_singleton.mp hi
  decide

theorem order_silent_iff : (run id (fun _ => some sample) (noCoupons id) [] order).raised = [] ↔
    Along (step id (fun _ => some sample) (noCoupons id)) (Covered id (fun _ => some sample) (noCoupons id)) (opened [])
      order :=
  honest_run_silent_iff id (fun _ => some sample) (noCoupons id) order_honest

/-- The shop's own price of the variant is taken for one that the client made up. -/
theorem order_raised : Along (step id (fun _ => some sample) (noCoupons id)) (Honest id) (opened []) order ∧
    (run id (fun _ => some sample) (noCoupons id) [] order).raised.map Raise.counter = [.linePriceAuthority] :=
  ⟨order_honest, by decide +kernel⟩

end PtaasBench.Shopfront.HonestOrder
