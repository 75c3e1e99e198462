import PtaasBench.Benchctl.Inventory

/-!
# PtaasBench.Benchctl.Crawl — which rows a request walks

Crawl coverage looks rows up in sets of normalised keys (`Visits`).  The inventory's own lookup
compares pairwise (`Walks`): there a greedy placeholder stands for several segments, and a vhost is
matched by its first label, or by a row that names none.
-/

namespace PtaasBench.Benchctl

open Py

section Hosts

variable [Runtime]

/-- A host in normal form is some text. -/
theorem normalizeHost_ne_empty {host : Option String} {h : String}
    (hh : normalizeHost host = some h) : h ≠ "" := by
  have hsome : ∀ {s : String}, (if s = "" then none else some s) = some h → h ≠ "" := by
    intro s hs
    split_ifs at hs with hempty
    obtain rfl := Option.some.inj hs
    exact hempty
  unfold normalizeHost at hh
  dsimp only at hh
  by_cases hgiven : given host = true
  · rw [if_neg (by simp [hgiven])] at hh
    by_cases hvalue : lower (strip (host.getD "")) = ""
    · rw [if_pos hvalue] at hh
      exact absurd hh (by simp)
    · rw [if_neg hvalue] at hh
      by_cases hbracket : startsWith (lower (strip (host.getD ""))) "[" = true
      · rw [if_pos hbracket] at hh
        exact hsome hh
      · rw [if_neg hbracket] at hh
        exact hsome hh
  · rw [if_pos (by simp [hgiven])] at hh
    exact absurd hh (by simp)

/-- A vhost a host is resolved to is some text. -/
theorem resolveHost_ne_empty {inv : RouteInventory} {host : Option String} {h : String}
    (hh : inv.resolveHost host = some h) : h ≠ "" := by
  unfold RouteInventory.resolveHost at hh
  cases hvalue : normalizeHost host with
  | none =>
    rw [hvalue] at hh
    exact absurd hh (by simp)
  | some value =>
    rw [hvalue] at hh
    have hmem : h ∈ inv.hosts := List.mem_of_find?_eq_some hh
    rw [RouteInventory.hosts, Catalog.mem_sortedSet, List.mem_filterMap] at hmem
    obtain ⟨row, -, hrow⟩ := hmem
    split_ifs at hrow
    exact normalizeHost_ne_empty hrow

theorem normalizeHost_of_not_given {host : Option String} (h : given host = false) :
    normalizeHost host = none := by
  unfold normalizeHost
  rw [h]
  rfl

end Hosts

section Coverage

variable [Runtime]

/-- The vhost the loop of `_crawl_coverage` resolves a request to. -/
def observedHost (selected : Dict String RouteInventory) (r : HttpRequestEvent) : Option String :=
  if given r.host then (selected.get? (r.app.getD "")).bind (·.resolveHost r.host) else none

/-- Is a row looked up under the keys of this request? -/
def Credits (selected : Dict String RouteInventory) (e : RouteEntry) (r : HttpRequestEvent) : Prop :=
  match observedHost selected r with
  | some h => (r.app.getD "", h, upper r.method, normalizeRoute r.route) = e.key
  | none => (r.app.getD "", upper r.method, normalizeRoute r.route) = e.routeOnlyKey

theorem isCovered_observe (selected : Dict String RouteInventory) (e : RouteEntry) (o : Observed)
    (r : HttpRequestEvent) :
    isCovered e (observe selected o r) = true ↔ isCovered e o = true ∨ Credits selected e r := by
  have hobserve : observe selected o r =
      let key := (r.app.getD "", upper r.method, normalizeRoute r.route)
      let o := { o with anyRoute := o.anyRoute ++ [key] }
      match observedHost selected r with
      | some h => { o with withHost := o.withHost ++ [(key.1, h, key.2.1, key.2.2)] }
      | none => { o with routes := o.routes ++ [key] } := rfl
  rw [hobserve, Credits]
  unfold isCovered
  cases observedHost selected r with
  | some h =>
    simp only [Bool.or_eq_true, decide_eq_true_eq, List.mem_append, List.mem_singleton]
    rw [or_right_comm, eq_comm]
  | none =>
    simp only [Bool.or_eq_true, decide_eq_true_eq, List.mem_append, List.mem_singleton]
    rw [or_assoc, eq_comm]

theorem isCovered_foldl (selected : Dict String RouteInventory) (e : RouteEntry)
    (requests : List HttpRequestEvent) (o : Observed) :
    isCovered e (requests.foldl (observe selected) o) = true ↔
      isCovered e o = true ∨ ∃ r ∈ requests, Credits selected e r := by
  induction requests generalizing o with
  | nil => simp
  | cons r requests ih =>
    rw [List.foldl_cons, ih, isCovered_observe, or_assoc]
    simp

end Coverage

/-! ## One row and one request -/

section Pairs

variable [Runtime] (inv : RouteInventory) (e : RouteEntry) (r : HttpRequestEvent)

/-- The request has the row's method and segments, and if it named a declared vhost, the row's. -/
def Visits : Prop :=
  r.app.getD "" = e.app ∧ upper r.method = upper e.method ∧
    routeSegments r.route = routeSegments e.path ∧
      ∀ h ∈ inv.resolveHost r.host, normalizeHost e.host = some h

/-- The row is a candidate for the request, and the templates are equal. -/
def Walks : Prop :=
  r.app.getD "" = e.app ∧ e ∈ inv.candidates (some r.method) r.host ∧
    routesEqual e.path r.route = true

/-- The row is walked through a greedy placeholder, or on a vhost it does not name itself. -/
def WalksLoosely : Prop :=
  Walks inv e r ∧ (routeSegments r.route ≠ routeSegments e.path ∨
    ∃ h ∈ inv.resolveHost r.host, normalizeHost e.host ≠ some h)

/-- The row is visited on its own vhost, whose normal form is another once more normalised. -/
def VisitsAstray : Prop :=
  Visits inv e r ∧ ∃ h ∈ inv.resolveHost r.host, hostMatches e.host (some h) = false

instance : Decidable (Visits inv e r) := inferInstanceAs (Decidable (_ ∧ _ ∧ _ ∧ ∀ h ∈ _, _))

instance : Decidable (Walks inv e r) := inferInstanceAs (Decidable (_ ∧ _ ∧ _))

instance : Decidable (WalksLoosely inv e r) :=
  inferInstanceAs (Decidable (_ ∧ (_ ∨ ∃ h ∈ _, _)))

instance : Decidable (VisitsAstray inv e r) := inferInstanceAs (Decidable (_ ∧ ∃ h ∈ _, _))

variable {inv e r}

theorem mem_candidates (he : e ∈ inv.routes) :
    e ∈ inv.candidates (some r.method) r.host ↔ upper r.method = upper e.method ∧
      ∀ h ∈ inv.resolveHost r.host, hostMatches e.host (some h) = true := by
  unfold RouteInventory.candidates
  rw [List.mem_filter, Bool.and_eq_true, decide_eq_true_eq]
  cases inv.resolveHost r.host with
  | some h =>
    simp only [Option.mem_def, Option.some.injEq, forall_eq']
    exact ⟨fun h => ⟨h.2.1.symm, h.2.2⟩, fun h => ⟨he, h.1.symm, h.2⟩⟩
  | none =>
    exact ⟨fun h => ⟨h.2.1.symm, fun _ hv => by simp at hv⟩, fun h => ⟨he, h.1.symm, rfl⟩⟩

theorem visits_of_walks (he : e ∈ inv.routes) (h : Walks inv e r) (hstrict : ¬ WalksLoosely inv e r) :
    Visits inv e r := by
  obtain ⟨happ, hcandidate, hequal⟩ := h
  refine ⟨happ, ((mem_candidates he).mp hcandidate).1, ?_, ?_⟩
  · by_contra hsegments
    exact hstrict ⟨⟨happ, hcandidate, hequal⟩, Or.inl hsegments⟩
  · intro v hv
    by_contra hhost
    exact hstrict ⟨⟨happ, hcandidate, hequal⟩, Or.inr ⟨v, hv, hhost⟩⟩

theorem walks_of_visits (he : e ∈ inv.routes) (h : Visits inv e r) (hstable : ¬ VisitsAstray inv e r) :
    Walks inv e r := by
  obtain ⟨happ, hmethod, hsegments, hhost⟩ := h
  refine ⟨happ, (mem_candidates he).mpr ⟨hmethod, fun v hv => ?_⟩, routesEqual_of_segments hsegments.symm⟩
  by_contra hmatch
  exact hstable ⟨⟨happ, hmethod, hsegments, hhost⟩, v, hv, Bool.eq_false_iff.mpr hmatch⟩

/-- The keys say of a row of an app's inventory what `Visits` says. -/
theorem credits_iff {selected : Dict String RouteInventory} (hinv : selected.get? e.app = some inv) :
    Credits selected e r ↔ Visits inv e r := by
  unfold Credits Visits
  by_cases happ : r.app.getD "" = e.app
  · have hobserved : observedHost selected r = inv.resolveHost r.host := by
      unfold observedHost
      rw [happ, hinv, Option.bind_some]
      by_cases hgiven : given r.host = true
      · rw [if_pos hgiven]
      · rw [if_neg hgiven, RouteInventory.resolveHost,
          normalizeHost_of_not_given (Bool.eq_false_iff.mpr hgiven)]
    rw [hobserved]
    have hroute : normalizeRoute r.route = e.routeKey ↔ routeSegments r.route = routeSegments e.path :=
      normalizeRoute_inj
    cases hhost : inv.resolveHost r.host with
    | some h =>
      have hvhost : h = (normalizeHost e.host).getD "" ↔ normalizeHost e.host = some h := by
        cases normalizeHost e.host with
        | none => simp [resolveHost_ne_empty hhost]
        | some h' => simp [eq_comm]
      dsimp only [RouteEntry.key]
      rw [Prod.mk.injEq, Prod.mk.injEq, Prod.mk.injEq, hroute, hvhost]
      simp only [Option.mem_def, Option.some.injEq, forall_eq']
      exact ⟨fun ⟨ha, hh, hm, hr⟩ => ⟨ha, hm, hr, hh⟩, fun ⟨ha, hm, hr, hh⟩ => ⟨ha, hh, hm, hr⟩⟩
    | none =>
      dsimp only [RouteEntry.routeOnlyKey]
      rw [Prod.mk.injEq, Prod.mk.injEq, hroute]
      simp
  · refine ⟨fun h => absurd ?_ happ, fun h => absurd h.1 happ⟩
    cases hhost : observedHost selected r with
    | some v =>
      rw [hhost] at h
      exact congrArg Prod.fst h
    | none =>
      rw [hhost] at h
      exact congrArg Prod.fst h

end Pairs

/-! ## The report -/

section Report

variable [Runtime]

/-- What the report says of a row of a selected inventory. -/
theorem notMem_unvisited_iff {inventories : Dict String RouteInventory} {apps : List String}
    {requests : List HttpRequestEvent} {app : String} {inv : RouteInventory}
    (hinv : (app, inv) ∈ inventories.items) (happs : apps = [] ∨ app ∈ apps) {e : RouteEntry}
    (he : e ∈ inv.routes) (happ : e.app = app) :
    e ∉ (crawlCoverage inventories requests apps).unvisitedRoutes ↔
      ∃ r ∈ requests, Visits inv e r := by
  set selected : Dict String RouteInventory :=
    Dict.ofList (inventories.items.filter fun i => apps = [] || i.1 ∈ apps) with hselected
  have hunvisited : (crawlCoverage inventories requests apps).unvisitedRoutes =
      (((selected.items.map (·.2.routes)).flatten).insertionSort fun a b => rowLe a b).filter
        (!isCovered · (requests.foldl (observe selected) {})) := rfl
  have hget : selected.get? e.app = some inv := by
    rw [happ]
    refine Dict.get?_ofList_of_mem (inventories.nodup.sublist (List.filter_sublist.map _)) ?_
    exact List.mem_filter.mpr ⟨hinv, by simpa using happs⟩
  have hrow : e ∈ (selected.items.map (·.2.routes)).flatten :=
    List.mem_flatten.mpr ⟨inv.routes, List.mem_map.mpr ⟨_, Dict.mem_items_of_get? hget, rfl⟩, he⟩
  have hcovered : isCovered e (requests.foldl (observe selected) {}) = true ↔
      ∃ r ∈ requests, Visits inv e r := by
    rw [isCovered_foldl]
    simp only [credits_iff hget]
    exact ⟨fun h => h.resolve_left (by simp [isCovered]), Or.inr⟩
  rw [hunvisited, List.mem_filter, List.mem_insertionSort, ← hcovered]
  simp [hrow]

end Report

/-- A row that is walked only loosely is put right by a request of its app with its method and its very
segments, on the row's own vhost or on none that is declared.  A row that is visited astray is put right
by one of its method and of equal segments, on a vhost that the row's host is taken for or on none. -/
def PutRight [Runtime] (inv : RouteInventory) (e : RouteEntry) (requests : List HttpRequestEvent) :
    Prop :=
  ((∃ r ∈ requests, WalksLoosely inv e r) → ∃ r ∈ requests, Visits inv e r) ∧
    ((∃ r ∈ requests, VisitsAstray inv e r) → ∃ r ∈ requests, Walks inv e r)

instance [Runtime] (inv : RouteInventory) (e : RouteEntry) (requests : List HttpRequestEvent) :
    Decidable (PutRight inv e requests) :=
  inferInstanceAs (Decidable ((_ → _) ∧ (_ → _)))

/-- Crawl coverage reports a row exactly if some request walks it, if and only if every row walked
only loosely is visited too, and every row visited astray is walked. -/
theorem crawl_agrees_iff [Runtime] (inventories : Dict String RouteInventory) (stream : EventStream)
    (apps : List String)
    (hrows : ∀ i ∈ inventories.items, ∀ e ∈ i.2.routes, e.app = i.1) :
    (∀ i ∈ inventories.items, (apps = [] ∨ i.1 ∈ apps) → ∀ e ∈ i.2.routes,
      (e ∉ (crawlCoverage inventories (EventStream.requests stream.scored) apps).unvisitedRoutes ↔
        ∃ r ∈ EventStream.requests stream.scored, Walks i.2 e r)) ↔
      ∀ i ∈ inventories.items, (apps = [] ∨ i.1 ∈ apps) → ∀ e ∈ i.2.routes,
        PutRight i.2 e (EventStream.requests stream.scored) := by
  have hreport : ∀ i ∈ inventories.items, (apps = [] ∨ i.1 ∈ apps) → ∀ e ∈ i.2.routes,
      (e ∉ (crawlCoverage inventories (EventStream.requests stream.scored) apps).unvisitedRoutes ↔
        ∃ r ∈ EventStream.requests stream.scored, Visits i.2 e r) :=
    fun i hi happs e he => notMem_unvisited_iff hi happs he (hrows i hi e he)
  constructor
  · intro h i hi happs e he
    have hagree := (hreport i hi happs e he).symm.trans (h i hi happs e he)
    refine ⟨fun ⟨r, hr, hloose⟩ => ?_, fun ⟨r, hr, hastray⟩ => ?_⟩
    · exact hagree.mpr ⟨r, hr, hloose.1⟩
    · exact hagree.mp ⟨r, hr, hastray.1⟩
  · intro h i hi happs e he
    obtain ⟨hloose, hastray⟩ := h i hi happs e he
    rw [hreport i hi happs e he]
    constructor
    · rintro ⟨r, hr, hvisits⟩
      by_cases hast : VisitsAstray i.2 e r
      · exact hastray ⟨r, hr, hast⟩
      · exact ⟨r, hr, walks_of_visits he hvisits hast⟩
    · rintro ⟨r, hr, hwalks⟩
      by_cases hlo : WalksLoosely i.2 e r
      · exact hloose ⟨r, hr, hlo⟩
      · exact ⟨r, hr, visits_of_walks he hwalks hlo⟩

/-- One row, and one request of its app that names no host. -/
def oneRow (path : String) : RouteInventory := ⟨"shop", [{ app := "shop", path := path }]⟩

def oneRequest (route : String) : EventStream :=
  [.request { type := "http_request", app := some "shop", route := route }]

theorem crawl_agrees_orders :
    let _ := Runtime.ascii
    let inventories := Dict.ofList [("shop", oneRow "/orders/:id")]
    let requests := EventStream.requests (EventStream.scored (oneRequest "/Orders/<int:id>"))
    ∀ i ∈ inventories.items, ([] = ([] : List String) ∨ i.1 ∈ ([] : List String)) →
      ∀ e ∈ i.2.routes,
        (e ∉ (crawlCoverage inventories requests []).unvisitedRoutes ↔
          ∃ r ∈ requests, Walks i.2 e r) :=
  (@crawl_agrees_iff Runtime.ascii (Dict.ofList [("shop", oneRow "/orders/:id")])
    (oneRequest "/Orders/<int:id>") [] (by decide +kernel)).mpr (by decide +kernel)

/-- A request under a greedy row: the inventory finds the row, crawl coverage reports it unvisited. -/
theorem crawl_misses_greedy :
    let _ := Runtime.ascii
    let inventories := Dict.ofList [("shop", oneRow "/static/**")]
    let requests := EventStream.requests (EventStream.scored (oneRequest "/static/css/app.css"))
    ∃ i ∈ inventories.items, ∃ e ∈ i.2.routes,
      e ∈ (crawlCoverage inventories requests []).unvisitedRoutes ∧ ∃ r ∈ requests, Walks i.2 e r := by
  decide +kernel

end PtaasBench.Benchctl
