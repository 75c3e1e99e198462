import PtaasBench.Benchctl.Catalog
import PtaasBench.Benchctl.Events

/-!
# PtaasBench.Benchctl.Inventory — route inventories and crawl coverage

`inventory.py` (hosts, rows, template lookup) and `scoring._crawl_coverage`, the whole-surface
denominator published next to the planted-only recall.
-/

namespace PtaasBench.Benchctl

open Py

section Hosts

variable [Runtime]

/-- `normalize_host` -/
def normalizeHost (host : Option String) : Option String :=
  let orNone (s : String) : Option String := if s = "" then none else some s
  if !given host then none
  else
    let value := lower (strip (host.getD ""))
    if value = "" then none
    else if startsWith value "[" then
      orNone (strip (beforeChar ']' (String.ofList (value.toList.drop 1))))
    else
      let tail := afterChar ':' value
      let portless :=
        if value.toList.count ':' = 1 ∧ tail ≠ "" ∧ tail.toList.all isDigit then
          beforeChar ':' value
        else value
      orNone (rstripDot portless)

/-- `_is_ip_literal` -/
def isIpLiteral (value : String) : Bool :=
  contains ':' value || (value ≠ "" && value.toList.all fun c => ('0' ≤ c && c ≤ '9') || c = '.')

def hostMatches (rowHost host : Option String) : Bool :=
  match normalizeHost rowHost, normalizeHost host with
  | some a, some b =>
    if a = b then true
    else if isIpLiteral a || isIpLiteral b then false
    else beforeChar '.' a = beforeChar '.' b
  | _, _ => true  -- nothing declared on one side: not a discriminator

end Hosts

structure RouteEntry where
  app : String
  path : String
  method : String := "GET"
  auth : String := "none"
  render : Option String := none
  status : String := "safe"
  host : Option String := none
deriving DecidableEq

structure RouteInventory where
  app : String
  routes : List RouteEntry

section Rows

variable [Runtime]

namespace RouteEntry

def routeKey (e : RouteEntry) : String := normalizeRoute e.path

def key (e : RouteEntry) : String × String × String × String :=
  (e.app, (normalizeHost e.host).getD "", upper e.method, e.routeKey)

/-- The host-collapsed key, for an observation that carries no host. -/
def routeOnlyKey (e : RouteEntry) : String × String × String := (e.app, upper e.method, e.routeKey)

end RouteEntry

namespace RouteInventory

def hosts (inv : RouteInventory) : List String :=
  Catalog.sortedSet (inv.routes.filterMap fun r =>
    if given r.host then normalizeHost r.host else none)

def resolveHost (inv : RouteInventory) (host : Option String) : Option String :=
  match normalizeHost host with
  | none => none
  | some value => inv.hosts.find? fun declared => hostMatches (some declared) (some value)

/-- `_candidates` -/
def candidates (inv : RouteInventory) (method host : Option String) : List RouteEntry :=
  let resolved := inv.resolveHost host
  inv.routes.filter fun entry =>
    (match method with | none => true | some m => upper entry.method = upper m) &&
    (match resolved with | none => true | some h => hostMatches entry.host (some h))

def singleHost (inv : RouteInventory) : Bool := inv.hosts.length ≤ 1

/-- One row of the loop of `match_path`: a literal route wins over a pattern, else the first does. -/
def betterRow (path : String) (best : Option RouteEntry × ℤ) (entry : RouteEntry) :
    Option RouteEntry × ℤ :=
  if !routeMatchesPath entry.path path then best
  else
    let score := if contains '\x7b' entry.routeKey then 0 else 1
    if best.2 < score then (some entry, score) else best

def matchPath (inv : RouteInventory) (method : Option String) (path : String) (host : Option String) :
    Option RouteEntry :=
  ((inv.candidates method host).foldl (betterRow path) (none, -1)).1

/-- `planted_hosts`, unsorted: only its members are looked at. -/
def plantedHosts (inv : RouteInventory) (method route : String) : List (Option String) :=
  (inv.routes.filter fun entry =>
    entry.status = "planted" && upper entry.method = upper method && routesEqual entry.path route &&
      given entry.host).map fun entry => normalizeHost entry.host

end RouteInventory

/-! ## Crawl coverage -/

/-- Request keys actually seen, with and without a vhost. -/
structure Observed where
  routes : List (String × String × String) := []
  withHost : List (String × String × String × String) := []
  anyRoute : List (String × String × String) := []

structure Coverage where
  routes : ℕ
  covered : ℕ
  coverage : Option ℚ

structure Crawl where
  inventoryAvailable : Bool
  apps : List String
  hostAware : Bool
  hosts : List String
  rowsSharingARoute : ℕ
  surface : Coverage
  plantedRoutes : Coverage
  safeRoutes : Coverage
  byApp : List (String × Coverage)
  byHost : List (String × Coverage)
  byRender : List (String × Coverage)
  byAuth : List (String × Coverage)
  requestsOffInventory : ℕ
  unvisitedRoutes : List RouteEntry

/-- `_is_covered` -/
def isCovered (entry : RouteEntry) (observed : Observed) : Bool :=
  entry.key ∈ observed.withHost || entry.routeOnlyKey ∈ observed.routes

/-- `_coverage_block` -/
def coverageBlock (entries : List RouteEntry) (observed : Observed) : Coverage :=
  let covered := entries.countP (isCovered · observed)
  { routes := entries.length
    covered := covered
    coverage := if entries.length = 0 then none else some (covered / entries.length) }

/-- One request of the loop in `_crawl_coverage`. -/
def observe (selected : Dict String RouteInventory) (o : Observed) (ev : HttpRequestEvent) :
    Observed :=
  let app := ev.app.getD ""
  let key := (app, upper ev.method, normalizeRoute ev.route)
  let o := { o with anyRoute := o.anyRoute ++ [key] }
  let vhost :=
    if given ev.host then (selected.get? app).bind (·.resolveHost ev.host) else none
  match vhost with
  | some h => { o with withHost := o.withHost ++ [(app, h, key.2.1, key.2.2)] }
  | none => { o with routes := o.routes ++ [key] }

/-- The rows of an inventory grouped by a key, the groups in key order. -/
def coverageBy (routes : List RouteEntry) (observed : Observed) (key : RouteEntry → Option String) :
    List (String × Coverage) :=
  let name (e : RouteEntry) := (key e).getD "unspecified"
  (Catalog.sortedSet (routes.map name)).map fun k =>
    (k, coverageBlock (routes.filter (name · = k)) observed)

/-- The sort key `(app, route_key, method)` of the unvisited rows. -/
def rowLe (a b : RouteEntry) : Bool :=
  a.app < b.app || (a.app = b.app &&
    (a.routeKey < b.routeKey || (a.routeKey = b.routeKey && a.method ≤ b.method)))

/-- `_crawl_coverage`; the planted-only recall it copies in is next to it in `Metrics`. -/
def crawlCoverage (inventories : Dict String RouteInventory) (requests : List HttpRequestEvent)
    (apps : List String) : Crawl :=
  let selected : Dict String RouteInventory :=
    Dict.ofList (inventories.items.filter fun e => apps = [] || e.1 ∈ apps)
  let observed := requests.foldl (observe selected) {}
  let routes := (selected.items.map (·.2.routes)).flatten
  let known := routes.map RouteEntry.routeOnlyKey
  { inventoryAvailable := !selected.items.isEmpty
    apps := Catalog.sortedSet selected.keys
    hostAware := !observed.withHost.isEmpty
    hosts := Catalog.sortedSet (selected.items.map (·.2.hosts)).flatten
    rowsSharingARoute := known.countP fun k => 1 < known.count k
    surface := coverageBlock routes observed
    plantedRoutes := coverageBlock (routes.filter (·.status = "planted")) observed
    safeRoutes := coverageBlock (routes.filter (·.status ≠ "planted")) observed
    byApp := coverageBy routes observed fun e => some e.app
    byHost := coverageBy routes observed (·.host)
    byRender := coverageBy routes observed (·.render)
    byAuth := coverageBy routes observed fun e => some e.auth
    requestsOffInventory :=
      if selected.items = [] then 0 else (observed.anyRoute.dedup.filter (· ∉ known)).length
    unvisitedRoutes := (routes.insertionSort fun a b => rowLe a b).filter (!isCovered · observed) }

end Rows

end PtaasBench.Benchctl
