import Mathlib.Data.List.Perm.Basic
import PtaasBench.Edge.CacheProbe

/-!
# PtaasBench.Edge.Target — how the edge origin reads a request target (`routes.go`, `main.go`)

The route, the page and the probe take a target from behind the first `://` on, wherever in the text it stands;
the inputs reported are those of the whole text.
-/

namespace PtaasBench.Edge

open Py Lib List

/-! ## Queries -/

/-- `url.Values` -/
abbrev Values := Dict Bytes (List Bytes)

def hexDigit (b : UInt8) : Option UInt8 :=
  if 48 ≤ b.toNat ∧ b.toNat ≤ 57 then some (b - 48)
  else if 97 ≤ b.toNat ∧ b.toNat ≤ 102 then some (b - 87)
  else if 65 ≤ b.toNat ∧ b.toNat ≤ 70 then some (b - 55)
  else none

/-- `url.QueryUnescape` -/
def queryUnescape : Bytes → Option Bytes
  | [] => some []
  | b :: rest =>
    if b = 0x25 then
      match rest with
      | high :: low :: rest => do
        let high ← hexDigit high
        let low ← hexDigit low
        let rest ← queryUnescape rest
        pure ((16 * high + low) :: rest)
      | _ => none
    else do
      let rest ← queryUnescape rest
      pure ((if b = 0x2B then 0x20 else b) :: rest)

/-- One piece of a query: the pair it adds, none where it has an error. -/
def readPair (piece : Bytes) : Option (Bytes × Bytes) := do
  if 0x3B ∈ piece then none
  else
    let key ← queryUnescape (piece.takeWhile (· ≠ 0x3D))
    let value ← queryUnescape ((piece.dropWhile (· ≠ 0x3D)).drop 1)
    pure (key, value)

/-- The pieces of a query that are not empty. -/
def pieces (query : Bytes) : List Bytes := (query.splitOn 0x26).filter (· ≠ [])

/-- `url.ParseQuery`: the values, and whether there was an error. -/
def parseQuery (query : Bytes) : Values × Bool :=
  (((pieces query).filterMap readPair).foldl (fun m e => m.set e.1 (m.getD e.1 [] ++ [e.2])) Dict.empty,
    (pieces query).any fun piece => (readPair piece).isNone)

/-- `Values.Get` -/
def Values.get (q : Values) (key : Bytes) : Bytes := ((q.get? key).bind List.head?).getD []

/-! ## Targets -/

/-- The text from behind an authority on; the place of `://` is looked for in the whole text. -/
def withoutAuthority (target : Bytes) : Bytes :=
  match afterFirst (text "://") target with
  | none => target
  | some rest => if 0x2F ∈ rest then rest.dropWhile (· ≠ 0x2F) else [0x2F]

def pathOf (t : Bytes) : Bytes := t.takeWhile (· ≠ 0x3F)

def queryOf (t : Bytes) : Bytes := (t.dropWhile (· ≠ 0x3F)).drop 1

def splitTarget (target : Bytes) : Bytes × Values :=
  let t := withoutAuthority target
  if 0x3F ∈ t then (pathOf t, (parseQuery (queryOf t)).1) else (t, Dict.empty)

theorem splitTarget_path (target : Bytes) : (splitTarget target).1 = pathOf (withoutAuthority target) := by
  unfold splitTarget
  dsimp only
  split_ifs with hquery
  · rfl
  · refine (takeWhile_eq_self_iff.mpr fun b hb => ?_).symm
    exact decide_eq_true fun h => hquery (h ▸ hb)

/-! ## Routes -/

/-- A case of the switch of `matchRoute`. -/
inductive RouteCase where
  | page (path : String)
  /-- A path below another; the rest of it is a variable of the route. -/
  | below (start slot route : String)
deriving DecidableEq

/-- The route of a case, whatever the path. -/
def RouteCase.route : RouteCase → String
  | .page path => path
  | .below _ _ route => route

def RouteCase.matches : RouteCase → Bytes → Bool
  | .page path, p => p = text path
  | .below start _ _, p => (text start).isPrefixOf p

def RouteCase.result : RouteCase → Bytes → String × List (String × Bytes)
  | .page path, _ => (path, [])
  | .below start slot route, p => (route, [(slot, p.drop (text start).length)])

def staticPages : List String :=
  ["/about", "/contact", "/delivery", "/returns", "/terms", "/privacy", "/stores"]

/-- The cases behind that of the home page. -/
def routeCases : List RouteCase :=
  [.page "/status", .page "/healthz", .page "/robots.txt", .page "/sitemap.xml", .page "/products",
    .below "/products/" "id" "/products/:id", .page "/search", .below "/assets/" "file" "/assets/:file",
    .page "/account/login", .page "/account/preferences", .page "/account/profile",
    .below "/account/profile." "ext" "/account/profile.:ext", .page "/account/reset", .page "/api/cart/items",
    .below "/api/cart/items/" "id" "/api/cart/items/:id", .page "/api/products",
    .below "/api/products/" "id" "/api/products/:id", .page "/account/orders",
    .below "/stores/" "id" "/stores/:id", .page "/stores", .page "/api/reviews", .page "/api/v1/ping",
    .page "/go", .page "/promo", .page "/news", .page "/submit"]

/-- The route of a path, and its variables. -/
def routeOf (p : Bytes) : String × List (String × Bytes) :=
  match staticPages.find? fun page => text page = p with
  | some page => (page, [])
  | none =>
    if p = text "/" ∨ p = [] then ("/", [])
    else
      match routeCases.find? fun c => c.matches p with
      | some c => c.result p
      | none => ("<unmatched>", [])

def matchRoute (target : Bytes) : String × List (String × Bytes) := routeOf (splitTarget target).1

/-! ## Reported inputs -/

/-- A reported input; `place` is its `in`. -/
structure Param where
  name : Bytes
  place : String
  valueSha256 : Bytes
  valueLen : ℕ
  sample : Bytes

section Params

-- `sha256.Sum256`, as lower-case hex
variable (sum256 : Bytes → Bytes)

/-- `add` -/
def param (name : Bytes) (place : String) (value : Bytes) : Param where
  name := name
  place := place
  valueSha256 := sum256 value
  valueLen := value.length
  sample := clip value 256

/-- The first value of each name. -/
def firstValues (q : Values) : List Param :=
  q.items.filterMap fun e => e.2.head?.map fun value => param sum256 e.1 "query" value

/-- The query's part of `collectParams`, in some order. -/
def queryParams (target : Bytes) : List Param :=
  if 0x3F ∈ target then
    let q := parseQuery (queryOf target)
    if q.2 then [] else firstValues sum256 q.1
  else []

def routingHeaders : List Bytes :=
  ["host", "x-forwarded-host", "x-forwarded-proto", "x-forwarded-scheme", "x-original-url", "x-rewrite-url",
    "transfer-encoding", "content-length"].map text

def collectParams (req : WireRequest) (body : Bytes) : List Param :=
  queryParams sum256 req.target ++
    (req.headers.filter fun h => routingHeaders.contains h.canon).map (fun h => param sum256 h.raw "header" h.value) ++
    (if body = [] then [] else [param sum256 (text "<body>") "raw" body])

/-- The target is read one way: the path is the text before the question mark, the URL a second client is sent to
is the target, and the query inputs reported are what the handlers read. -/
structure ReadOneWay (req : WireRequest) (body : Bytes) : Prop where
  path : (splitTarget req.target).1 = pathOf req.target
  url : pathAndQuery req.target = req.target
  inputs : ((collectParams sum256 req body).filter fun p => p.place = "query").Perm
    (firstValues sum256 (splitTarget req.target).2)

end Params

/-! ## The values of a query -/

theorem add_ne_nil {pairs : List (Bytes × Bytes)} {m : Values} (hm : ∀ k v, m.get? k = some v → v ≠ []) :
    ∀ k v, (pairs.foldl (fun m e => m.set e.1 (m.getD e.1 [] ++ [e.2])) m).get? k = some v → v ≠ [] := by
  induction pairs generalizing m with
  | nil => exact hm
  | cons e pairs ih =>
    refine ih fun k v hv => ?_
    rw [Dict.get?_set] at hv
    split_ifs at hv
    · rw [← Option.some.inj hv]
      exact append_ne_nil_of_right_ne_nil _ (cons_ne_nil _ _)
    · exact hm k v hv

theorem add_isSome {pairs : List (Bytes × Bytes)} {m : Values} {k : Bytes}
    (h : (m.get? k).isSome ∨ k ∈ pairs.map Prod.fst) :
    ((pairs.foldl (fun m e => m.set e.1 (m.getD e.1 [] ++ [e.2])) m).get? k).isSome := by
  induction pairs generalizing m with
  | nil => exact h.resolve_right not_mem_nil
  | cons e pairs ih =>
    apply ih
    rw [Dict.get?_set]
    split_ifs with hk
    · exact .inl rfl
    · rcases h with h | h
      · exact .inl h
      · exact .inr ((mem_cons.mp h).resolve_left hk)

/-- A query has no value exactly if no piece of it can be read. -/
theorem firstValues_eq_nil_iff (sum256 : Bytes → Bytes) (query : Bytes) :
    firstValues sum256 (parseQuery query).1 = [] ↔ ∀ piece ∈ pieces query, (readPair piece).isNone := by
  refine ⟨fun h piece hmem => ?_, fun h => ?_⟩
  · cases hpair : readPair piece with
    | none => rfl
    | some e =>
      have hpairs : e ∈ (pieces query).filterMap readPair := mem_filterMap.mpr ⟨piece, hmem, hpair⟩
      have hsome := add_isSome (m := Dict.empty) (.inr (mem_map_of_mem (f := Prod.fst) hpairs))
      obtain ⟨v, hv⟩ := Option.isSome_iff_exists.mp hsome
      have hne := add_ne_nil (m := Dict.empty) (fun _ _ h => absurd h.symm (Option.some_ne_none _)) e.1 v hv
      obtain ⟨first, rest, rfl⟩ := exists_cons_of_ne_nil hne
      have hin : param sum256 e.1 "query" first ∈ firstValues sum256 (parseQuery query).1 :=
        mem_filterMap.mpr ⟨_, Dict.mem_items_of_get? hv, rfl⟩
      rw [h] at hin
      exact absurd hin not_mem_nil
  · have hnone : (pieces query).filterMap readPair = [] :=
      filterMap_eq_nil_iff.mpr fun piece hmem => Option.isNone_iff_eq_none.mp (h piece hmem)
    rw [parseQuery, hnone]
    rfl

theorem parseQuery_ok_iff (query : Bytes) :
    (parseQuery query).2 = false ↔ ∀ piece ∈ pieces query, (readPair piece).isSome := by
  rw [parseQuery]
  dsimp only
  rw [any_eq_false]
  refine forall₂_congr fun piece _ => ?_
  cases readPair piece <;> simp

/-! ## Targets with another authority in them -/

theorem length_afterFirst {sep bs rest : Bytes} (h : afterFirst sep bs = some rest) :
    rest.length + sep.length ≤ bs.length := by
  induction bs with
  | nil => exact absurd h.symm (Option.some_ne_none _)
  | cons b bs ih =>
    rw [afterFirst] at h
    split_ifs at h with hsep
    · obtain rfl := Option.some.inj h
      have hle := (List.isPrefixOf_iff_prefix.mp hsep).length_le
      rw [length_drop]
      omega
    · have := ih h
      rw [length_cons]
      omega

theorem afterFirst_suffix {sep bs rest : Bytes} (h : afterFirst sep bs = some rest) : rest <:+ bs := by
  induction bs with
  | nil => exact absurd h.symm (Option.some_ne_none _)
  | cons b bs ih =>
    rw [afterFirst] at h
    split_ifs at h
    · rw [← Option.some.inj h]
      exact drop_suffix _ _
    · exact (ih h).trans (suffix_cons b bs)

theorem withoutAuthority_suffix {target : Bytes} (hroot : withoutAuthority target ≠ [0x2F]) :
    withoutAuthority target <:+ target := by
  rw [withoutAuthority] at hroot ⊢
  cases h : afterFirst (text "://") target with
  | none => exact suffix_refl _
  | some rest =>
    rw [h] at hroot
    dsimp only at hroot ⊢
    split_ifs at hroot ⊢
    · exact (dropWhile_suffix _).trans (afterFirst_suffix h)
    · exact absurd rfl hroot

theorem withoutAuthority_of_none {target : Bytes} (h : afterFirst (text "://") target = none) :
    withoutAuthority target = target := by
  rw [withoutAuthority, h]

/-- Taking an authority off shortens the text. -/
theorem length_withoutAuthority {target rest : Bytes} (h : afterFirst (text "://") target = some rest) :
    (withoutAuthority target).length < target.length := by
  have hlength := length_afterFirst h
  have hsep : (text "://").length = 3 := by decide
  rw [withoutAuthority, h]
  dsimp only
  split_ifs
  · have hdrop := (dropWhile_sublist (· ≠ (0x2F : UInt8)) (l := rest)).length_le
    omega
  · rw [length_singleton]
    omega

theorem withoutAuthority_head {target rest : Bytes} (h : afterFirst (text "://") target = some rest) :
    (withoutAuthority target).head? = some 0x2F := by
  rw [withoutAuthority, h]
  dsimp only
  split_ifs with hslash
  · have hne : rest.dropWhile (· ≠ 0x2F) ≠ [] := by
      intro hnil
      exact absurd (dropWhile_eq_nil_iff.mp hnil _ hslash) (by simp)
    obtain ⟨b, bs, hcons⟩ := exists_cons_of_ne_nil hne
    have hb := head_dropWhile_not (· ≠ (0x2F : UInt8)) hne
    simp only [hcons, head_cons, decide_eq_false_iff_not, not_not] at hb
    rw [hcons, List.head?_cons, hb]
  · rfl

/-- The URL of a second client is the target exactly if the target has no authority in it. -/
theorem pathAndQuery_eq_iff {target : Bytes} (horigin : target.head? = some 0x2F) :
    pathAndQuery target = target ↔ afterFirst (text "://") target = none := by
  have heq : pathAndQuery target =
      if (withoutAuthority target).head? = some 0x2F then withoutAuthority target
      else 0x2F :: withoutAuthority target := rfl
  cases hmarker : afterFirst (text "://") target with
  | none =>
    rw [heq, withoutAuthority_of_none hmarker, if_pos horigin]
    exact ⟨fun _ => rfl, fun _ => rfl⟩
  | some rest =>
    rw [heq, if_pos (withoutAuthority_head hmarker)]
    refine ⟨fun h => ?_, fun h => absurd h (Option.some_ne_none _)⟩
    have hlt := length_withoutAuthority hmarker
    rw [h] at hlt
    exact absurd hlt (lt_irrefl _)

theorem splitTarget_query {target : Bytes} (h : afterFirst (text "://") target = none) :
    (splitTarget target).2 = (parseQuery (queryOf target)).1 := by
  rw [splitTarget, withoutAuthority_of_none h]
  split_ifs with hquery
  · rfl
  · have hnil : queryOf target = [] := by
      have hdrop : target.dropWhile (· ≠ 0x3F) = [] :=
        dropWhile_eq_nil_iff.mpr fun b hb => decide_eq_true fun h => hquery (h ▸ hb)
      rw [queryOf, hdrop]
      rfl
    rw [hnil]
    rfl

/-- The reported inputs of the query are the query's part. -/
theorem filter_collectParams (sum256 : Bytes → Bytes) (req : WireRequest) (body : Bytes) :
    ((collectParams sum256 req body).filter fun p => p.place = "query") = queryParams sum256 req.target := by
  have hquery : ∀ p ∈ queryParams sum256 req.target, p.place = "query" := by
    intro p hp
    unfold queryParams firstValues at hp
    dsimp only at hp
    split_ifs at hp
    · exact absurd hp not_mem_nil
    · obtain ⟨e, -, hvalue⟩ := mem_filterMap.mp hp
      obtain ⟨value, -, rfl⟩ := Option.map_eq_some_iff.mp hvalue
      rfl
    · exact absurd hp not_mem_nil
  have hheaders : (((req.headers.filter fun h => routingHeaders.contains h.canon).map fun h =>
      param sum256 h.raw "header" h.value).filter fun p => p.place = "query") = [] := by
    refine filter_eq_nil_iff.mpr fun p hp => ?_
    obtain ⟨h, -, rfl⟩ := mem_map.mp hp
    exact fun h => absurd (of_decide_eq_true h : "header" = "query") (by decide)
  have hbody : ((if body = [] then [] else [param sum256 (text "<body>") "raw" body]).filter fun p =>
      p.place = "query") = [] := by
    split_ifs
    · rfl
    · rfl
  rw [collectParams, filter_append, filter_append, hheaders, hbody, append_nil, append_nil]
  exact filter_eq_self.mpr fun p hp => decide_eq_true (hquery p hp)

/-- A target that begins with a slash is read one way exactly if it has no `://` in it, and all pieces of its query
can be read or none can. -/
theorem read_one_way_iff (sum256 : Bytes → Bytes) (req : WireRequest) (body : Bytes)
    (horigin : req.target.head? = some 0x2F) :
    ReadOneWay sum256 req body ↔
      afterFirst (text "://") req.target = none ∧
        ((∀ piece ∈ pieces (queryOf req.target), (readPair piece).isSome) ∨
          ∀ piece ∈ pieces (queryOf req.target), (readPair piece).isNone) := by
  have hinputs : afterFirst (text "://") req.target = none →
      ((((collectParams sum256 req body).filter fun p => p.place = "query").Perm
        (firstValues sum256 (splitTarget req.target).2)) ↔
      (∀ piece ∈ pieces (queryOf req.target), (readPair piece).isSome) ∨
        ∀ piece ∈ pieces (queryOf req.target), (readPair piece).isNone) := by
    intro hmarker
    rw [filter_collectParams, splitTarget_query hmarker, ← parseQuery_ok_iff, ← firstValues_eq_nil_iff sum256,
      queryParams]
    by_cases hquery : 0x3F ∈ req.target
    · rw [if_pos hquery]
      dsimp only
      cases herror : (parseQuery (queryOf req.target)).2 with
      | true =>
        rw [if_pos rfl, nil_perm]
        exact ⟨.inr, fun h => h.resolve_left Bool.noConfusion⟩
      | false => exact ⟨fun _ => .inl rfl, fun _ => List.Perm.refl _⟩
    · have hnil : queryOf req.target = [] := by
        have hdrop : req.target.dropWhile (· ≠ 0x3F) = [] :=
          dropWhile_eq_nil_iff.mpr fun b hb => decide_eq_true fun h => hquery (h ▸ hb)
        rw [queryOf, hdrop]
        rfl
      rw [if_neg hquery, hnil]
      exact ⟨fun _ => .inl rfl, fun _ => List.Perm.refl _⟩
  refine ⟨fun h => ?_, fun h => ?_⟩
  · have hmarker := (pathAndQuery_eq_iff horigin).mp h.url
    exact ⟨hmarker, (hinputs hmarker).mp h.inputs⟩
  · refine ⟨?_, (pathAndQuery_eq_iff horigin).mpr h.1, (hinputs h.1).mpr h.2⟩
    rw [splitTarget_path, withoutAuthority_of_none h.1]

/-- A search for a URL. -/
def urlSearch : WireRequest where
  method := text "GET"
  target := text "/search?q=http://shop/cart"
  headers := []

/-- The page served is that of the path of the URL searched for. -/
theorem url_search_misread :
    (splitTarget urlSearch.target).1 = text "/cart" ∧ ¬ ReadOneWay id urlSearch [] := by
  refine ⟨by decide, fun h => ?_⟩
  exact absurd h.url (by decide)

def plainSearch : WireRequest where
  method := text "GET"
  target := text "/search?q=a+b&q=%41"
  headers := []

theorem plain_search_read : plainSearch.target.head? = some 0x2F ∧ ReadOneWay id plainSearch [] := by
  have hslash : plainSearch.target.head? = some 0x2F := by decide
  have hpieces : pieces (queryOf plainSearch.target) = [text "q=a+b", text "q=%41"] := by decide
  refine ⟨hslash, (read_one_way_iff id plainSearch [] hslash).mpr ⟨by decide, .inl fun piece hpiece => ?_⟩⟩
  rw [hpieces] at hpiece
  rcases mem_cons.mp hpiece with rfl | hpiece
  · decide
  · rw [mem_singleton.mp hpiece]
    decide

end PtaasBench.Edge
