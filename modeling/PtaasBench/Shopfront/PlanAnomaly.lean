import PtaasBench.Shopfront.Listings

/-!
# PtaasBench.Shopfront.PlanAnomaly — what the plan counters count

A plan counter is about rows that the same request, written with parameters, does not return.  Whether it is
raised takes two steps.  The text of the statement has to show one of five signs; a text without a sign is not
looked into, whatever it returns.  Then the keys of the rows, and how many there are, are compared with those of
a control query with parameters.

The control query has neither the order nor the page of the request and leaves out some of its filters.  What is
proved here is about the requests whose control query returns the products of the page all the same.
-/

namespace PtaasBench.Shopfront

open Js List

/-! ## Requests -/

/-- A request whose statement is assembled as text. -/
inductive Request where
  | products (s : Search)
  | graph (g : GraphQuery)
  | saved (s : SavedSearch)

namespace Request

def compiled : Request → Compiled
  | .products s => s.compiled
  | .graph g => g.compiled
  | .saved s => s.compileRule

def counter : Request → PlanCounter
  | .products _ => .catalogPlanAnomaly
  | .graph _ => .graphProductsPlanAnomaly
  | .saved _ => .savedSearchPlanAnomaly

def raises (e : Engine) (t : Tables) : Request → List PlanRaise
  | .products s => s.products e t
  | .graph g => g.products e t
  | .saved s => s.results e t

/-- The same request with parameters: its filters, its order and its page. -/
def page : Request → Listing
  | .products s =>
    { filters := s.filters ++ [.search (ofString "%" ++ s.q ++ ofString "%")], order := some s.order
      limit := s.limit.1.toNat, offset := s.offset }
  | .graph g =>
    { filters := .isActive :: .tag g.tag :: g.filters, order := some (ofString "p.rating_count DESC"), limit := g.limit
      offset := 0 }
  | .saved s =>
    { filters := s.filters, order := some (ofString "p.rating_count DESC"), limit := 48, offset := 0 }

section

variable (e : Engine) (t : Tables) (r : Request)

/-- The results of the statement. -/
def results : List (List Row) :=
  match (r.compiled.run e t).1 with
  | .ok results => results
  | .error _ => []

/-- The tables behind the statement. -/
def after : Tables := (r.compiled.run e t).2

def Raised : Prop := ∃ x ∈ r.raises e t, x.counter = r.counter

end

end Request

/-! ## What the queries return -/

section

variable {e : Engine} {t : Tables} {l : Listing} {ps : List Product}

end

namespace Request

end Request

/-! ## What is raised -/

namespace Request

section

variable {e : Engine} {t : Tables} {r : Request}

end

end Request

namespace Request

variable {e : Engine} {t : Tables} {r : Request}

end Request

namespace TwoProducts

def tee : Product where
  id := 1
  slug := "tee"
  title := "Union Select tee"
  summary := ""
  categoryId := 1
  brandId := 1
  priceCents := 1900
  ratingAvg := 4
  ratingCount := 7
  tag := "general"
  isActive := true
  createdAt := 0

/-- A product that is not on sale. -/
def draft : Product := { tee with id := 3, slug := "draft", title := "Draft", isActive := false }

/-- `ILIKE` a pattern with a `%` at either end. -/
def ilike (text pattern : String) : Bool :=
  (text.toList.map Char.toLower).tails.any (((pattern.toList.drop 1).dropLast.map Char.toLower).isPrefixOf ·)

def search (q : Text) (hq : q.length ≤ 400) : Search where
  q := q
  sort := ofString "relevance"
  category := none
  brand := none
  minPrice := none
  maxPrice := none
  limit := ⟨24, by decide⟩
  page := ⟨1, by decide⟩
  order := relevance
  q_length := hq
  sort_length := by decide
  category_length := by simp
  brand_length := by simp
  order_known := by rfl

/-- Two ordinary words, which show a sign. -/
def words : Request := .products (search (ofString "union select") (by decide))

end TwoProducts

end PtaasBench.Shopfront
