import PtaasBench.Js.Number
import PtaasBench.Shopfront.PlanWatch

/-!
# PtaasBench.Shopfront.Listings — the product lists whose statements are text

The catalogue's list (`routes/catalog.js`), the GraphQL resolver (`routes/graphql.js`) and the saved
searches (`routes/account.js`).  A query with parameters is modelled by what it means for the tables; a
statement that the service assembled is a text, and what the database makes of it is left open.
-/

namespace PtaasBench.Shopfront

open Js

/-! ## The tables -/

structure Product where
  id : ℤ
  slug : String
  title : String
  summary : String
  categoryId : ℤ
  brandId : ℤ
  priceCents : ℤ
  ratingAvg : ℚ
  ratingCount : ℤ
  tag : String
  isActive : Bool
  createdAt : ℤ
deriving DecidableEq

/-- `LIST_COLUMNS`, and `PRODUCT_COLUMNS` -/
def Product.row (p : Product) : Row :=
  [("id", .number p.id), ("slug", .text (ofString p.slug)), ("title", .text (ofString p.title)),
    ("price_cents", .number p.priceCents), ("rating_count", .number p.ratingCount)]

structure Tables where
  products : List Product
  /-- `id` and `slug` -/
  categories : List (ℤ × String)
  brands : List (ℤ × String)
  products_key : (products.map Product.id).Nodup
  categories_slug : (categories.map Prod.snd).Nodup
  brands_slug : (brands.map Prod.snd).Nodup

/-! ## Conditions -/

abbrev Whole (min max : ℤ) := {n : ℤ // min ≤ n ∧ n ≤ max}

def Whole.text {min max : ℤ} (n : Whole min max) : Text := ofString (toString n.1)

/-- A condition of a `WHERE` clause, with the value of its parameter. -/
inductive Cond where
  | isActive
  | category (slug : Text)
  | brand (slug : Text)
  | minPrice (cents : ℤ)
  | maxPrice (cents : ℤ)
  | search (pattern : Text)
  | title (pattern : Text)
  | tag (value : Text)
  | priceBelow (digits : Text)

/-- The condition with its parameter at a place. -/
def Cond.clause (place : ℕ) : Cond → Text
  | .isActive => ofString "p.is_active"
  | .category _ => ofString "p.category_id = (SELECT id FROM categories WHERE slug = $" ++ ofString (toString place) ++ ofString ")"
  | .brand _ => ofString "p.brand_id = (SELECT id FROM brands WHERE slug = $" ++ ofString (toString place) ++ ofString ")"
  | .minPrice _ => ofString "p.price_cents >= $" ++ ofString (toString place)
  | .maxPrice _ => ofString "p.price_cents <= $" ++ ofString (toString place)
  | .search _ => ofString "p.title || ' ' || p.summary ILIKE $" ++ ofString (toString place)
  | .title _ => ofString "p.title ILIKE $" ++ ofString (toString place)
  | .tag _ => ofString "p.tag = $" ++ ofString (toString place)
  | .priceBelow _ => ofString "p.price_cents < $" ++ ofString (toString place)

/-- The parameter, as the driver sends it. -/
def Cond.value : Cond → Option Text
  | .isActive => none
  | .category s | .brand s | .search s | .title s | .tag s => some s
  | .minPrice n | .maxPrice n => some (ofString (toString n))
  | .priceBelow s => some (numberToString (numberOfDigits s))

/-- Does the database take the parameter: no NUL in a text, 32 bits of an `INTEGER`? -/
def Cond.binds : Cond → Bool
  | .isActive => true
  | .category s | .brand s | .search s | .title s | .tag s => !s.contains 0
  | .minPrice n | .maxPrice n => -2 ^ 31 ≤ n && n < 2 ^ 31
  | .priceBelow s => (numberOfDigits s).any fun x => x < 2 ^ 31

/-! ## The database -/

structure DriverError where
  code : Option Text
  message : Text

/-- A query of the products with parameters: its conditions, its `ORDER BY` and its page. -/
structure Listing where
  filters : List Cond
  order : Option Text
  limit : ℕ
  offset : ℕ

def Cond.holds (ilike : String → String → Bool) (t : Tables) (p : Product) : Cond → Bool
  | .isActive => p.isActive
  | .category slug => (t.categories.find? fun c => c.2 = Js.written slug).any fun c => p.categoryId = c.1
  | .brand slug => (t.brands.find? fun b => b.2 = Js.written slug).any fun b => p.brandId = b.1
  | .minPrice cents => cents ≤ p.priceCents
  | .maxPrice cents => p.priceCents ≤ cents
  | .search pattern => ilike (p.title ++ " " ++ p.summary) (Js.written pattern)
  | .title pattern => ilike p.title (Js.written pattern)
  | .tag value => p.tag = Js.written value
  | .priceBelow digits => (numberOfDigits digits).any fun x => (p.priceCents : ℚ) < x

def Tables.matching (ilike : String → String → Bool) (t : Tables) (filters : List Cond) : List Product :=
  t.products.filter fun p => filters.all fun c => c.holds ilike t p

structure Engine where
  /-- The results of a text, one for each statement in it, and the tables it leaves. -/
  run : String → List String → Tables → Except DriverError (List (List Row)) × Tables
  ilike : String → String → Bool
  /-- The order in which a query meets the products it wants. -/
  scan : Tables → List Cond → List Product
  /-- `ORDER BY` a text; `none` is a refusal. -/
  sort : Text → List Product → Option (List Product)
  scan_perm : ∀ t filters, (scan t filters).Perm (t.matching ilike filters)
  sort_perm : ∀ {order ps qs}, sort order ps = some qs → qs.Perm ps

/-- The products that a query with parameters returns; `none` is a refusal. -/
def Engine.answer (e : Engine) (t : Tables) (l : Listing) : Option (List Product) :=
  if l.filters.all Cond.binds then
    let found := e.scan t l.filters
    let sorted := match l.order with
      | none => some found
      | some order => e.sort order found
    sorted.map fun ps => (ps.drop l.offset).take l.limit
  else none

/-! ## The counters -/

inductive PlanCounter where
  | catalogPlanAnomaly
  | catalogSortFault
  | graphProductsPlanAnomaly
  | savedSearchPlanAnomaly
deriving DecidableEq

structure PlanRaise where
  counter : PlanCounter
  payload : Text
  detail : Text

/-- A statement as text, what it should have looked like, and the query it is compared with. -/
structure Compiled where
  statement : Text
  template : Text
  values : List Text
  control : Listing

/-- `unsafe`: the results, and the tables afterwards. -/
def Compiled.run (e : Engine) (t : Tables) (c : Compiled) : Except DriverError (List (List Row)) × Tables :=
  e.run (Js.written c.statement) (c.values.map Js.written) t

/-- `result.rows`: the driver gives a list of results for a text of several statements, which has no rows. -/
def rowsOf : List (List Row) → Option (List Row)
  | [rows] => some rows
  | _ => none

/-- The plan check of the three lists; where the control query fails, so does the request. -/
def planCheck (e : Engine) (t : Tables) (c : Compiled) (results : List (List Row)) : Option Escaped :=
  -- the control query is not asked where the text shows no sign
  if statementWidened c.statement c.template then
    (e.answer t c.control).bind fun control =>
      resultEscaped (rowsOf results) (control.map fun p => .number p.id) "id"
  else none

/-- A list whose statement is text: the check follows a statement that did not fail. -/
def watched (e : Engine) (t : Tables) (c : Compiled) (failed : DriverError → List PlanRaise)
    (raise : Escaped → PlanRaise) : List PlanRaise :=
  match c.run e t with
  | (.error detail, _) => failed detail
  -- the control query reads the tables that the statement has left
  | (.ok results, t') => (planCheck e t' c results).toList.map raise

def count (n : ℕ) : Text := ofString (toString n)

/-- `escaped.foreign.join(",") || "none"` -/
def Escaped.outside (x : Escaped) : Text :=
  if join "," x.foreign = [] then ofString "none" else join "," x.foreign

/-! ## The catalogue -/

/-- `SORTS` -/
def sorts : List (String × String) :=
  [("relevance", "p.rating_count DESC, p.id ASC"), ("price_asc", "p.price_cents ASC"),
    ("price_desc", "p.price_cents DESC"), ("newest", "p.created_at DESC"), ("rating", "p.rating_avg DESC"),
    ("title", "p.title ASC")]

def relevance : Text := ofString "p.rating_count DESC, p.id ASC"

/-- What `SORTS` inherits, as `join` writes it. -/
def inherited : List (String × String) :=
  ["constructor", "__defineGetter__", "__defineSetter__", "hasOwnProperty", "__lookupGetter__", "__lookupSetter__",
    "isPrototypeOf", "propertyIsEnumerable", "toString", "valueOf", "toLocaleString"].map
      (fun name => (name, "function " ++ (if name = "constructor" then "Object" else name) ++ "() \x7b [native code] \x7d")) ++
    [("__proto__", "[object Object]")]

def lookupText (entries : List (String × String)) (name : Text) : Option Text :=
  (entries.find? fun e => ofString e.1 = name).map fun e => ofString e.2

/-- `orderBy` of a text that is given; `none` is an order that is not known. -/
def orderBy (raw : Text) : Option Text :=
  let parts := ((split ',' raw).map trim).filter fun s => s ≠ []
  match parts with
  | [] => some relevance
  | first :: _ =>
    if (lookupText (sorts ++ inherited) first).isSome then
      some (join ", " (parts.map fun part => (lookupText (sorts ++ inherited) part).getD part))
    else none

/-- A request to `/products` that is accepted. -/
structure Search where
  q : Text
  sort : Text
  category : Option Text
  brand : Option Text
  minPrice : Option (Whole 0 10000000)
  maxPrice : Option (Whole 0 10000000)
  limit : Whole 1 96
  page : Whole 1 10000
  order : Text
  q_length : q.length ≤ 400
  sort_length : sort.length ≤ 200
  category_length : ∀ s ∈ category, s.length ≤ 60
  brand_length : ∀ s ∈ brand, s.length ≤ 60
  order_known : orderBy sort = some order

/-- A condition with a parameter, after the clauses and values there are. -/
def push (acc : List Text × List Text) (c : Cond) : List Text × List Text :=
  (acc.1 ++ [c.clause (acc.2.length + 1)], acc.2 ++ c.value.toList)

/-- The clauses of conditions, and their values. -/
def clauses (conds : List Cond) : List Text × List Text := conds.foldl push ([], [])

namespace Search

def offset (s : Search) : ℕ := ((s.page.1 - 1) * s.limit.1).toNat

/-- `filters` -/
def filters (s : Search) : List Cond :=
  .isActive :: (s.category.filter (· ≠ [])).toList.map .category ++
    (s.brand.filter (· ≠ [])).toList.map .brand ++
    s.minPrice.toList.map (fun n => .minPrice n.1) ++ s.maxPrice.toList.map fun n => .maxPrice n.1

/-- The statement with a search term and an order. -/
def text (s : Search) (q order : Text) : Text :=
  ofString "SELECT p.id, p.slug, p.title, p.price_cents, p.rating_count FROM products p WHERE " ++
    join " AND " ((clauses s.filters).1 ++ [ofString "p.title || ' ' || p.summary ILIKE '%" ++ q ++ ofString "%'"]) ++
    ofString " ORDER BY " ++ order ++ ofString " LIMIT " ++ s.limit.text ++ ofString " OFFSET " ++ count s.offset

def compiled (s : Search) : Compiled where
  statement := s.text s.q s.order
  template := s.text [] relevance
  values := (clauses s.filters).2
  control :=
    { filters := [.isActive, .search (ofString "%" ++ s.q ++ ofString "%")], order := none, limit := s.limit.1.toNat
      offset := 0 }

/-- What is raised by `GET /products`. -/
def products (e : Engine) (t : Tables) (s : Search) : List PlanRaise :=
  watched e t s.compiled
    (fun detail =>
      if lookupText sorts s.sort ≠ some s.order then
        [{ counter := .catalogSortFault
           payload := s.sort
           detail := ofString "column order rejected by the planner: " ++ detail.code.getD (ofString "?") ++
            ofString " " ++ detail.message }]
      else [])
    fun escaped =>
      { counter := .catalogPlanAnomaly
        payload := s.q
        detail := ofString "plan widened: " ++ count escaped.returned ++
          ofString " row(s) returned where the parameterised filter matches " ++ count escaped.expected ++
          ofString "; keys outside products: " ++ escaped.outside }

end Search

/-! ## GraphQL -/

/-- `ProductFilter`, where `some none` is a `null`. -/
structure ProductFilter where
  tag : Option Text
  category : Option Text
  maxPrice : Option (Option (Whole (-2 ^ 31) (2 ^ 31 - 1)))

structure GraphQuery where
  first : Option (Whole (-2 ^ 31) (2 ^ 31 - 1))
  filter : ProductFilter

namespace GraphQuery

/-- `Math.min(Math.max(Number(first) || 12, 1), 96)`, where no number and `null` read as 12. -/
def limit (g : GraphQuery) : ℕ :=
  let first := (g.first.map Subtype.val).getD 0
  (min (max (if first = 0 then 12 else first) 1) 96).toNat

def tag (g : GraphQuery) : Text := g.filter.tag.getD []

/-- The conditions behind the tag; a `null` for the price is the number 0. -/
def filters (g : GraphQuery) : List Cond :=
  (g.filter.category.filter (· ≠ [])).toList.map .category ++
    g.filter.maxPrice.toList.map fun n => .maxPrice ((n.map Subtype.val).getD 0)

def text (g : GraphQuery) (tag : Text) : Text :=
  ofString "SELECT p.id, p.slug, p.title, p.price_cents, p.rating_count FROM products p WHERE " ++
    join " AND " ([ofString "p.is_active", ofString "p.tag = '" ++ tag ++ ofString "'"] ++ (clauses g.filters).1) ++
    ofString " ORDER BY p.rating_count DESC LIMIT " ++ count g.limit

def compiled (g : GraphQuery) : Compiled where
  statement := g.text g.tag
  template := g.text []
  values := (clauses g.filters).2
  control := { filters := [.isActive, .tag g.tag], order := none, limit := g.limit, offset := 0 }

/-- What is raised by the resolver `products`. -/
def products (e : Engine) (t : Tables) (g : GraphQuery) : List PlanRaise :=
  watched e t g.compiled (fun _ => []) fun escaped =>
    { counter := .graphProductsPlanAnomaly
      payload := g.tag.take 300
      detail := ofString "plan widened: " ++ count escaped.returned ++
        ofString " row(s) where the parameterised filter matches " ++ count escaped.expected ++
        ofString "; keys outside products: " ++ escaped.outside }

end GraphQuery

/-! ## Saved searches -/

structure SavedSearch where
  id : ℤ
  rule : Text

/-- A term of a rule: the clause as text, and its condition. -/
def compileTerm (term : Text) : Text × Cond :=
  if startsWith term "price<" ∧ term.drop 6 ≠ [] ∧ (term.drop 6).all isDigit then
    (ofString "p.price_cents < " ++ numberToString (numberOfDigits (term.drop 6)), .priceBelow (term.drop 6))
  else if startsWith term "tag:" then (ofString "p.tag = '" ++ term.drop 4 ++ ofString "'", .tag (term.drop 4))
  else if startsWith term "category:" then
    (ofString "p.category_id = (SELECT id FROM categories WHERE slug = '" ++ term.drop 9 ++ ofString "')",
      .category (term.drop 9))
  else
    (ofString "p.title ILIKE '%" ++ term ++ ofString "%'", .title (ofString "%" ++ term ++ ofString "%"))

def terms (rule : Text) : List Text := ((split ';' rule).map trim).filter fun s => s ≠ []

namespace SavedSearch

def filters (s : SavedSearch) : List Cond := .isActive :: (terms s.rule).map fun term => (compileTerm term).2

def text (clauses : List Text) : Text :=
  ofString "SELECT p.id, p.slug, p.title, p.price_cents, p.rating_count FROM products p WHERE " ++
    join " AND " clauses ++ ofString " ORDER BY p.rating_count DESC LIMIT 48"

/-- `compileRule` -/
def compileRule (s : SavedSearch) : Compiled where
  statement := text (ofString "p.is_active" :: (terms s.rule).map fun term => (compileTerm term).1)
  template := text (clauses s.filters).1
  values := []
  control := { filters := s.filters, order := none, limit := 48, offset := 0 }

/-- What is raised by `GET /saved-searches/:id/results`. -/
def results (e : Engine) (t : Tables) (s : SavedSearch) : List PlanRaise :=
  watched e t s.compileRule (fun _ => []) fun escaped =>
    { counter := .savedSearchPlanAnomaly
      payload := s.rule.take 300
      detail := ofString "saved rule " ++ ofString (toString s.id) ++
        ofString " compiled to a plan returning " ++ count escaped.returned ++
        ofString " row(s) where the parameterised form matches " ++ count escaped.expected ++
        ofString "; keys outside products: " ++ escaped.outside }

end SavedSearch

end PtaasBench.Shopfront
