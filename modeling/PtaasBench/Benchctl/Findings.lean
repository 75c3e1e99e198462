import PtaasBench.Benchctl.Warnings

/-!
# PtaasBench.Benchctl.Findings — the verdicts on a tool's own findings (`findings.py`)

Each finding is assessed against the ground truth by itself; one loop then turns the later reports of
a vulnerability already claimed into duplicates, and the rows are summed up.
-/

namespace PtaasBench.Benchctl

open Py

inductive Verdict where
  | truePositive
  | falsePositive
  | duplicate
  | paramMismatch
  | classMismatch
  | classUnknown
  | outOfCatalog
deriving DecidableEq

namespace Verdict

/-- `_RANK`; a candidate is never judged one of the last two. -/
def rank : Verdict → ℕ
  | truePositive => 0
  | paramMismatch => 1
  | classMismatch => 2
  | classUnknown => 3
  | falsePositive => 4
  | duplicate => 5
  | outOfCatalog => 6

def ambiguous : List Verdict := [paramMismatch, classMismatch, classUnknown]

/-- All verdicts, in the order of their texts. -/
def sorted : List Verdict :=
  [duplicate, falsePositive, classMismatch, classUnknown, paramMismatch, outOfCatalog, truePositive]

theorem rank_injective {a b : Verdict} (h : a.rank = b.rank) : a = b := by
  cases a <;> cases b <;> first | rfl | exact absurd h (by decide)

end Verdict

structure Finding where
  tool : Option String := none
  url : String := ""
  method : Option String := none
  param : Option String := none
  cwe : List ℤ := []
  name : Option String := none
  severity : Option String := none
  confidence : Option String := none
  app : Option String := none
deriving DecidableEq

/-- What follows the first `://`. -/
def afterScheme : List Char → Option (List Char)
  | [] => none
  | c :: cs =>
    if ['/', '/'].isPrefixOf cs ∧ c = ':' then some (cs.drop 2) else afterScheme cs

namespace Finding

def authority (f : Finding) : Option String :=
  (afterScheme f.url.toList).bind fun rest =>
    let authority := beforeChar '/' (String.ofList rest)
    if authority = "" then none else some authority

section

variable [Runtime]

def path (f : Finding) : String := pathFromUrl f.url

def host (f : Finding) : Option String := normalizeHost f.authority

end

end Finding

/-! ## What the findings are judged against -/

/-- A vulnerability with its resolved CWEs. -/
structure PlantedVuln extends Vuln where
  cwe : List ℤ := []

structure TaxonomyClass where
  cwe : List ℤ := []
  family : Option String := none

/-- The catalog with its taxonomy. -/
structure GroundTruth where
  vulns : List PlantedVuln
  classes : List TaxonomyClass := []
  ids_nodup : (vulns.map (·.id)).Nodup

/-- The arguments of `classify_findings` beside the findings. -/
structure Judging where
  catalog : GroundTruth
  outcomes : Option (List (String × Bool)) := none  -- ids, and whether they were triggered
  appMap : Dict String String := Dict.empty
  apps : List String := []
  inventories : Dict String RouteInventory := Dict.empty
  reasons : Dict ℤ String := Dict.empty

/-- `catalog_cwes` -/
def catalogCwes (catalog : GroundTruth) : List ℤ :=
  catalog.classes.flatMap TaxonomyClass.cwe ++ catalog.vulns.flatMap PlantedVuln.cwe

/-- `_cwe_families`: the families of one CWE. -/
def cweFamilies (catalog : GroundTruth) (cwe : ℤ) : List String :=
  catalog.classes.filterMap fun spec =>
    if given spec.family && cwe ∈ spec.cwe then spec.family else none

namespace Judging

def inScope (ctx : Judging) : List PlantedVuln :=
  ctx.catalog.vulns.filter fun v => ctx.apps = [] || v.app ∈ ctx.apps

def scopeApps (ctx : Judging) : List String := Catalog.sortedSet (ctx.inScope.map (·.app))

def scopedCwes (ctx : Judging) : List ℤ := ctx.inScope.flatMap PlantedVuln.cwe

/-- A single-target run leaves no ambiguity about the app of a finding. -/
def defaultApp (ctx : Judging) : Option String :=
  match ctx.scopeApps with
  | [app] => some app
  | _ => none

end Judging

/-! ## One finding -/

inductive HostMatch where
  | noInventory
  | singleHost
  | exact
  | unresolved
deriving DecidableEq

inductive FpBasis where
  | withoutCwe
  | noInventory
  | patternRoute
  | safeRoute
  | knownRoute
  | unknownRoute
deriving DecidableEq

inductive Unscoreable where
  | unplantedClass
  | unplantedInScope
deriving DecidableEq

/-- The best verdict so far of one finding, and what it is about. -/
structure Best where
  verdict : Verdict
  reason : String
  matched : Option PlantedVuln

section One

variable [Runtime]

/-- `_resolve_app` -/
def resolveApp (f : Finding) (appMap : Dict String String) (defaultApp : Option String) :
    Option String :=
  if given f.app then f.app
  else
    match f.authority with
    | none => defaultApp
    | some auth =>
      let host := beforeChar ':' auth
      match (appMap.get? auth).or (appMap.get? host) with
      | some app => some app
      | none =>
        if host = "localhost" ∨ host = "127.0.0.1" then defaultApp else some (textOr defaultApp host)

/-- `{list(xs)}` of numbers in an f-string. -/
def showCwes (cwes : List ℤ) : String := (Json.arr (cwes.map .int)).repr

/-- `_judge` -/
def judge (catalog : GroundTruth) (f : Finding) (v : PlantedVuln) : Verdict × String :=
  if given v.entrypoint.param && given f.param &&
      lower (f.param.getD "") ≠ lower (v.entrypoint.param.getD "") then
    (.paramMismatch, "reported param " ++ reprOr f.param ++ ", ground truth injects through " ++
      reprOr v.entrypoint.param)
  else if f.cwe = [] then (.classUnknown, "finding carries no CWE, class cannot be checked")
  else if f.cwe.any (· ∈ v.cwe) then (.truePositive, "exact-cwe")
  else
    let families := Catalog.sortedSet (f.cwe.flatMap (cweFamilies catalog))
    if given v.family && families.any (some · = v.family) then
      (.truePositive, "cwe-family (" ++ shown v.family ++ ")")
    else
      (.classMismatch, "reported CWE " ++ showCwes f.cwe ++ " (" ++
        (if families = [] then "unmapped" else (Json.arr (families.map .str)).repr) ++ ") against a " ++
        v.cls ++ " (" ++ shown v.family ++ ", CWE " ++ showCwes v.cwe ++ ") vulnerability")

/-- `_fp_basis`: the basis, and the status of the row it rests on. -/
def fpBasis (ctx : Judging) (f : Finding) (app : Option String) : FpBasis × Option String :=
  if f.cwe = [] then (.withoutCwe, none)
  else if ctx.inventories.items = [] then (.noInventory, none)
  else
    let candidates :=
      if given app then (app.bind ctx.inventories.get?).toList
      else ctx.inventories.items.map Prod.snd
    match candidates.findSome? fun inv => inv.matchPath f.method f.path f.host with
    | none => (.unknownRoute, none)
    | some entry =>
      if contains '\x7b' entry.routeKey then (.patternRoute, some entry.status)
      else if entry.status = "safe" then (.safeRoute, some entry.status)
      else (.knownRoute, some entry.status)

/-- `_host_agrees` -/
def hostAgrees (v : PlantedVuln) (inv : Option RouteInventory) (resolvedHost : Option String) : Bool :=
  match inv, resolvedHost with
  | some inv, some host =>
    let hosts := inv.plantedHosts v.entrypoint.method v.entrypoint.path
    hosts = [] || some host ∈ hosts
  | _, _ => true

namespace Judging

def appOf (ctx : Judging) (f : Finding) : Option String := resolveApp f ctx.appMap ctx.defaultApp

def inventoryOf (ctx : Judging) (f : Finding) : Option RouteInventory :=
  if given (ctx.appOf f) then (ctx.appOf f).bind ctx.inventories.get? else none

def resolvedHost (ctx : Judging) (f : Finding) : Option String :=
  (ctx.inventoryOf f).bind fun inv => inv.resolveHost f.host

def hostMatch (ctx : Judging) (f : Finding) : HostMatch :=
  match ctx.inventoryOf f with
  | none => .noInventory
  | some inv =>
    if inv.singleHost then .singleHost
    else if given (ctx.resolvedHost f) then .exact
    else .unresolved

/-- Is the finding at the location of the vulnerability? -/
def located (ctx : Judging) (f : Finding) (v : PlantedVuln) : Bool :=
  let app := ctx.appOf f
  (!given app || v.app = "" || some v.app = app) &&
  (f.method = none || f.method = some v.entrypoint.method) &&
  routeMatchesPath v.entrypoint.path f.path &&
  hostAgrees v (ctx.inventoryOf f) (if ctx.hostMatch f = .exact then ctx.resolvedHost f else none)

/-- One candidate of the ranking. -/
def better (ctx : Judging) (f : Finding) (best : Best) (v : PlantedVuln) : Best :=
  let j := judge ctx.catalog f v
  if j.1.rank < best.verdict.rank then { verdict := j.1, reason := j.2, matched := some v } else best

/-- The best verdict of a finding over all candidates. -/
def best (ctx : Judging) (f : Finding) : Best :=
  (ctx.inScope.filter (ctx.located f)).foldl (ctx.better f)
    { verdict := .falsePositive, reason := "no catalog entrypoint matches this location"
      matched := none }

/-- Could no ground truth of this run confirm or contradict the class of the finding? -/
def unscoreableKind (ctx : Judging) (f : Finding) : Option Unscoreable :=
  if f.cwe = [] then none
  else if f.cwe.all (· ∉ catalogCwes ctx.catalog) then some .unplantedClass
  else if f.cwe.all (· ∉ ctx.scopedCwes) then some .unplantedInScope
  else none

/-- `unplanted or unscoped` -/
def unplanted (ctx : Judging) (f : Finding) : List ℤ :=
  let unplanted := f.cwe.filter (· ∉ catalogCwes ctx.catalog)
  if unplanted = [] then f.cwe.filter (· ∉ ctx.scopedCwes) else unplanted

/-- Why a finding is unscoreable. -/
def why (ctx : Judging) (f : Finding) : Unscoreable → String
  | .unplantedClass =>
    let first := (ctx.unplanted f).headD 0
    textOr (ctx.reasons.get? first)
      ("CWE " ++ String.ofList (intText first) ++ " is planted by no class in the taxonomy")
  | .unplantedInScope =>
    "CWE " ++ String.ofList (intText ((ctx.unplanted f).headD 0)) ++
      " is planted by a taxonomy class, but nothing in " ++
      textOr (some (join ", " ctx.scopeApps)) "the scanned apps" ++
      " carries it, so no ground truth here can confirm or contradict this finding"

/-- A real detection is never discarded as unscoreable. -/
def outOfCatalog (ctx : Judging) (f : Finding) : Option Unscoreable :=
  if (ctx.best f).verdict = .truePositive then none else ctx.unscoreableKind f

end Judging

end One

/-! ## The rows -/

structure Row where
  finding : Finding
  app : Option String
  host : Option String
  hostObserved : Option String
  hostMatch : HostMatch
  verdict : Verdict
  matchedVuln : Option String
  outOfCatalogKind : Option Unscoreable
  reason : String
  fpBasis : Option FpBasis
  inventoryStatus : Option String
deriving DecidableEq

instance decidableClaimed (key : Option String × String) (claimed : List (Option String × String)) :
    Decidable (key ∈ claimed) :=
  inferInstance

/-- The state of the loop: what is claimed, by whom, and the rows so far. -/
structure Progress where
  claimed : List (Option String × String) := []
  rows : List Row := []
  outOfCatalogHits : Dict ℤ (ℕ × String) := Dict.empty

section Rows

variable [Runtime]

namespace Judging

/-- The row of a finding that is out of catalog. -/
def unscoreableRow (ctx : Judging) (f : Finding) (kind : Unscoreable) : Row where
  finding := f
  app := ctx.appOf f
  host := f.host
  hostObserved := f.authority
  hostMatch := ctx.hostMatch f
  verdict := .outOfCatalog
  matchedVuln := none
  outOfCatalogKind := some kind
  reason := "unscoreable, not wrong: " ++ ctx.why f kind
  fpBasis := none
  inventoryStatus := none

/-- The row of any other finding, before duplicates are looked for. -/
def scoredRow (ctx : Judging) (f : Finding) : Row :=
  let best := ctx.best f
  let basis := if best.verdict = .falsePositive then some (Benchctl.fpBasis ctx f (ctx.appOf f)) else none
  { finding := f
    app := ctx.appOf f
    host := f.host
    hostObserved := f.authority
    hostMatch := ctx.hostMatch f
    verdict := best.verdict
    matchedVuln := best.matched.map (·.id)
    outOfCatalogKind := none
    reason :=
      match basis.map Prod.fst with
      | some .safeRoute => "the route inventory declares this exact route safe"
      | some .knownRoute =>
        "the route is in the inventory but nothing planted matches this method/parameter shape"
      | _ => best.reason
    fpBasis := basis.map Prod.fst
    inventoryStatus := basis.bind Prod.snd }

/-- What a finding lays claim to: its tool, and the vulnerability it is a true positive for. -/
def claim (ctx : Judging) (f : Finding) : Option (Option String × String) :=
  if (ctx.best f).verdict = .truePositive then (ctx.best f).matched.map fun v => (f.tool, v.id) else none

/-- `hit["count"] += 1`, with the reason of the first. -/
def hit (why : String) (hits : Dict ℤ (ℕ × String)) (cwe : ℤ) : Dict ℤ (ℕ × String) :=
  let h := hits.getD cwe (0, why)
  hits.set cwe (h.1 + 1, h.2)

/-- One finding of the loop of `classify_findings`. -/
def classifyOne (ctx : Judging) (st : Progress) (f : Finding) : Progress :=
  match ctx.outOfCatalog f with
  | some kind =>
    { st with
      outOfCatalogHits := (ctx.unplanted f).foldl (hit (ctx.why f kind)) st.outOfCatalogHits
      rows := st.rows ++ [ctx.unscoreableRow f kind] }
  | none =>
    match ctx.claim f with
    | none => { st with rows := st.rows ++ [ctx.scoredRow f] }
    | some key =>
      if key ∈ st.claimed then
        { st with rows := st.rows ++ [{ ctx.scoredRow f with
            verdict := .duplicate, reason := "already reported as " ++ key.2 }] }
      else { st with claimed := st.claimed ++ [key], rows := st.rows ++ [ctx.scoredRow f] }

def classify (ctx : Judging) (findings : List Finding) : Progress := findings.foldl ctx.classifyOne {}

end Judging

end Rows

/-! ## The report -/

/-- The counts and ratios of some rows. -/
structure Summary where
  total : ℕ
  byVerdict : List (Verdict × ℕ)
  truePositives : ℕ
  falsePositives : ℕ
  falsePositivesConfirmed : ℕ
  falsePositivesUnknownRoute : ℕ
  outOfCatalog : ℕ
  outOfCatalogByKind : List (Unscoreable × ℕ)
  duplicates : ℕ
  ambiguous : ℕ
  ambiguousBreakdown : List (Verdict × ℕ)
  precisionConfirmed : Option ℚ
  precision : Option ℚ
  precisionConservative : Option ℚ
  duplicateRatio : Option ℚ
deriving DecidableEq

def ratio (num den : ℕ) : Option ℚ := if den = 0 then none else some (num / den)

/-- `by_verdict.get(v, 0)` -/
def countVerdict (rows : List Row) (v : Verdict) : ℕ := rows.countP (·.verdict = v)

/-- Does the inventory contradict the finding of this row? -/
def isConfirmedFp (r : Row) : Bool :=
  r.verdict = .falsePositive && (r.fpBasis = some .safeRoute || r.fpBasis = some .knownRoute)

def summarise (inventoryAvailable : Bool) (rows : List Row) : Summary :=
  let tp := countVerdict rows .truePositive
  let fp := countVerdict rows .falsePositive
  let dup := countVerdict rows .duplicate
  let ambiguous := (Verdict.ambiguous.map (countVerdict rows)).sum
  let confirmedFp := rows.countP isConfirmedFp
  { total := rows.length
    byVerdict := (Verdict.sorted.map fun v => (v, countVerdict rows v)).filter (·.2 ≠ 0)
    truePositives := tp
    falsePositives := fp
    falsePositivesConfirmed := confirmedFp
    falsePositivesUnknownRoute := fp - confirmedFp
    outOfCatalog := countVerdict rows .outOfCatalog
    outOfCatalogByKind := [.unplantedClass, .unplantedInScope].map fun kind =>
      (kind, rows.countP (·.outOfCatalogKind = some kind))
    duplicates := dup
    ambiguous := ambiguous
    ambiguousBreakdown := Verdict.ambiguous.map fun v => (v, countVerdict rows v)
    precisionConfirmed := if inventoryAvailable then ratio tp (tp + confirmedFp) else none
    precision := ratio tp (tp + fp)
    precisionConservative := ratio tp (tp + fp + ambiguous)
    duplicateRatio := ratio dup rows.length }

structure Report extends Summary where
  inventoryAvailable : Bool
  outOfCatalogByCwe : List (ℤ × ℕ × String)
  vulnsReported : List String
  triggeredNotReported : Option (List String)
  reportedNotTriggered : Option (List String)
  falsePositiveList : List Row
  outOfCatalogList : List Row
  ambiguousList : List Row
  findings : List Row

/-- The vulnerability a row reports, if it is a true positive or a duplicate. -/
def Row.reported (r : Row) : Option String :=
  if (r.verdict = .truePositive || r.verdict = .duplicate) && given r.matchedVuln then r.matchedVuln
  else none

def classifyFindings [Runtime] (ctx : Judging) (findings : List Finding) : Report :=
  let st := ctx.classify findings
  let available := !ctx.inventories.items.isEmpty
  let reported := Catalog.sortedSet (st.rows.filterMap Row.reported)
  let triggered := ctx.outcomes.map fun os => (os.filter Prod.snd).map Prod.fst
  { toSummary := summarise available st.rows
    inventoryAvailable := available
    outOfCatalogByCwe := st.outOfCatalogHits.items.insertionSort fun a b => a.1 ≤ b.1
    vulnsReported := reported
    triggeredNotReported := triggered.map fun ts => Catalog.sortedSet (ts.filter (· ∉ reported))
    reportedNotTriggered := triggered.map fun ts => reported.filter (· ∉ ts)
    falsePositiveList := st.rows.filter (·.verdict = .falsePositive)
    outOfCatalogList := st.rows.filter (·.verdict = .outOfCatalog)
    ambiguousList := st.rows.filter (·.verdict ∈ Verdict.ambiguous)
    findings := st.rows }

end PtaasBench.Benchctl
