import PtaasBench.Benchctl.Inventory

/-!
# PtaasBench.Benchctl.Scoring — reach / exercise / trigger (`scoring.py`)

The scorer, function by function: how a callback is attributed, how one vulnerability is scored
against a stream, how outcomes are aggregated, and `scoreRun`, which composes them.  The score
document's provenance block, warnings and legend are not part of this module.
-/

namespace PtaasBench.Benchctl

open Py

/-- The four reported axes. -/
inductive Axis where
  | reach
  | exercise
  | trigger
  | triggerAny
deriving DecidableEq

inductive Confidence where
  | high
  | low
deriving DecidableEq

/-- How a callback was tied back. -/
inductive AttributionKind where
  | token
  | signalCorrelation
  | declaredId
  | containerWindow
  | unattributed
deriving DecidableEq

def AttributionKind.text : AttributionKind → String
  | token => "token"
  | signalCorrelation => "signal-correlation"
  | declaredId => "declared-id"
  | containerWindow => "container-window"
  | unattributed => "unattributed"

structure Attribution where
  vulnId : Option String
  kind : AttributionKind
  confidence : Confidence
  app : Option String
  sourceMatch : Option Bool
  channel : Option String
  destinationHost : Option String
  requestId : Option String
  container : Option String
  ts : Option ℚ

/-- Per-vulnerability verdict plus the evidence that produced it. -/
structure Outcome where
  vulnId : String
  reach : Bool := false
  exercise : Option Bool := none  -- `none`: no parameter declared
  trigger : Bool := false
  triggerLowConfidence : Bool := false
  reachEvents : ℕ := 0
  triggerEvents : ℕ := 0
  reachInferred : Bool := false
  firstReachTs : Option ℚ := none
  firstTriggerTs : Option ℚ := none
  exerciseSample : Option String := none
  triggerSource : Option String := none
  attributions : List Attribution := []
  evidence : Obj := []

def Outcome.triggerAny (o : Outcome) : Bool := o.trigger || o.triggerLowConfidence

/-- `getattr(outcome, axis)` -/
def Outcome.axis (o : Outcome) : Axis → Option Bool
  | .reach => some o.reach
  | .exercise => o.exercise
  | .trigger => some o.trigger
  | .triggerAny => some o.triggerAny

/-- A correlation index: host → signal and request id → signal. -/
abbrev Correlations := Dict String String × Dict String String

section Attribute

variable [Runtime]

def sha256Of (value : String) : String := sha256 value

def bodyLocations : List String := ["body", "json", "multipart", "raw"]

def paramInMatches (catalogIn eventIn : String) : Bool :=
  let a := lower (textOr (some catalogIn) "query")
  let b := lower (textOr (some eventIn) "query")
  if a = b then true else a ∈ bodyLocations && b ∈ bodyLocations

def weakAttributions : List String :=
  ["container", "container-window", "container_window", "time-window", "time_window", "window",
    "heuristic", "fallback", "weak", "low", "low-confidence"]

def weakConfidence : List String := ["low", "weak", "guess"]

/-- `_is_weak`: only an explicit flag from the resolver demotes an attribution. -/
def isWeak (ev : OobEvent) : Bool :=
  ev.lowConfidence || lower (strip (ev.confidence.getD "")) ∈ weakConfidence ||
    lower (strip (ev.attribution.getD "")) ∈ weakAttributions

/-- `_norm_host` -/
def normHost (host : Option String) : String := lower (rstripDot (strip (host.getD "")))

/-- `raw.get("signal")` of one event, as text; `none` when it is falsy. -/
def rawSignal (raw : Obj) : Option String :=
  if (raw.get "signal").truthy then some (raw.get "signal").pyStr else none

/-- The normalised `destination_host` (or `host`) of one event; a value that is not text, on which
the source raises, is read as absent. -/
def rawHost (raw : Obj) : String :=
  normHost ((raw.get "destination_host").orElse (raw.get "host")).asStr?

/-- `raw.get("request_id")` of one event, as text; `none` when it is falsy. -/
def rawRequestId (raw : Obj) : Option String :=
  if (raw.get "request_id").truthy then some (raw.get "request_id").pyStr else none

/-- One event of the loop in `correlation_index`. -/
def indexEvent (ix : Correlations) (ev : Event) : Correlations :=
  match rawSignal ev.raw with
  | none => ix
  | some signal =>
    let host := rawHost ev.raw
    (if host = "" then ix.1 else ix.1.setdefault host signal,
      match rawRequestId ev.raw with
      | none => ix.2
      | some q => ix.2.setdefault q signal)

def correlationIndex (stream : EventStream) : Correlations :=
  stream.foldl indexEvent (Dict.empty, Dict.empty)

/-- The registered host is a DNS suffix of the observed one, or the other way round. -/
def suffixRelated (key registered : String) : Bool :=
  endsWith key ("." ++ registered) || endsWith registered ("." ++ key)

/-- `_signal_for_host` -/
def signalForHost (host : Option String) (byHost : Dict String String) : Option String :=
  let key := normHost host
  if key = "" then none
  else
    match byHost.get? key with
    | some signal => some signal
    | none => (byHost.items.find? fun e => suffixRelated key e.1).map Prod.snd

/-- The first of the keys that is given and satisfies `p`. -/
def firstKey (p : String → Bool) (keys : List (Option String)) : Option String :=
  (keys.filterMap fun k => if given k then k else none).find? p

/-- `_resolve_source_app` -/
def resolveSourceApp (ev : OobEvent) (catalog : Catalog) (addresses : Dict String String) :
    Option String :=
  let known (app : String) : Bool := app ∈ catalog.vulns.map Vuln.app
  if given ev.attributedApp && ev.attributedApp.any known then ev.attributedApp
  else if addresses.items ≠ [] then
    (firstKey addresses.contains [ev.attributedApp, ev.sourceIp, ev.container, ev.app]).bind
      addresses.get?
  else firstKey known [ev.container, ev.app]

/-- The signal a callback is joined to on content: request id first, then destination host. -/
def joinedSignal (ev : OobEvent) (ix : Correlations) : Option String :=
  let signal := if given ev.requestId then ix.2.get? (ev.requestId.getD "") else none
  if given signal then signal else signalForHost ev.destinationHost ix.1

/-- Which vulnerabilities the container and time-window fallback could mean. -/
def windowCandidates (ev : OobEvent) (catalog : Catalog) (sourceApp : Option String) : List Vuln :=
  catalog.vulns.filter fun v =>
    v.oracle.kind = "oob" &&
    (!given sourceApp || some v.app = sourceApp) &&
    (!given ev.route || routesEqual v.entrypoint.path (ev.route.getD "")) &&
    (!given ev.method || some v.entrypoint.method = ev.method)

/-- `d.get(k) if k else None`, for the three indexes of the catalog. -/
def lookupGiven (d : Dict String Vuln) (k : Option String) : Option Vuln :=
  if given k then k.bind d.get? else none

def attributeOob (ev : OobEvent) (catalog : Catalog) (correlations : Correlations)
    (addresses : Dict String String) : Attribution :=
  let strength := if isWeak ev then Confidence.low else Confidence.high
  let sourceApp := resolveSourceApp ev catalog addresses
  let att (vulnId : Option String) (kind : AttributionKind) (confidence : Confidence) :
      Attribution :=
    { vulnId := vulnId, kind := kind, confidence := confidence, app := sourceApp
      sourceMatch := ev.sourceMatch, channel := ev.channel, destinationHost := ev.destinationHost
      requestId := ev.requestId, container := ev.container, ts := ev.ts }
  match lookupGiven catalog.byToken (some ev.token) with
  | some v => att v.id .token strength
  | none =>
    match lookupGiven catalog.bySignal ev.signal with
    | some v => att v.id .signalCorrelation strength
    | none =>
      match lookupGiven catalog.byId ev.vulnId with
      | some v => att v.id .declaredId strength
      | none =>
        match lookupGiven catalog.bySignal (joinedSignal ev correlations) with
        | some v => att v.id .signalCorrelation strength
        | none =>
          if given sourceApp || given ev.route then
            match windowCandidates ev catalog sourceApp with
            | [v] => att v.id .containerWindow .low
            | _ => att none .unattributed .low
          else att none .unattributed .low

/-- Every callback of the stream, attributed. -/
def attributions (stream : EventStream) (catalog : Catalog) (addresses : Dict String String) :
    List Attribution :=
  (EventStream.oob stream).map fun ev =>
    attributeOob ev catalog (correlationIndex stream) addresses

/-- `attribute_oob_events`: the share of one vulnerability. -/
def attributedTo (atts : List Attribution) (vulnId : String) : List Attribution :=
  atts.filter fun a => a.vulnId = some vulnId

/-- `attribute_oob_events`: the callbacks nothing could be made of. -/
def orphans (atts : List Attribution) : List Attribution := atts.filter fun a => a.vulnId = none

end Attribute

section Score

variable [Runtime]

/-- `_request_reaches` -/
def requestReaches (v : Vuln) (ev : HttpRequestEvent) : Bool :=
  if v.app ≠ "" && given ev.app && some v.app ≠ ev.app then false
  else if upper v.entrypoint.method ≠ upper ev.method then false
  else routesEqual v.entrypoint.path ev.route

/-- The hash of a recorded value: as sent, else recomputed from an untruncated sample. -/
def Param.hash (p : Param) : Option String :=
  let sha := lower (p.valueSha256.getD "")
  if sha ≠ "" then some sha
  else
    match p.sample with
    | none => none
    | some s => if p.valueLen = some (s.toList.length : ℤ) then some (sha256Of s) else none

/-- Does this parameter prove that the tool put its own value in? -/
def paramExercises (v : Vuln) (p : Param) : Bool :=
  lower p.name = lower (v.entrypoint.param.getD "") &&
  paramInMatches v.entrypoint.paramIn p.location &&
  match v.entrypoint.defaultValue with
  | none =>
    -- no declared default: any non-empty value proves the tool supplied one
    p.valueLen.any (0 < ·) || p.hash.any (· ≠ sha256Of "") || given p.sample
  | some default =>
    match p.hash with
    | some sha => sha ≠ sha256Of default
    | none => p.sample.any (· ≠ default)

/-- `_param_is_exercised` -/
def paramIsExercised (v : Vuln) (ev : HttpRequestEvent) : Bool × Option String :=
  match ev.params.find? (paramExercises v) with
  | some p => (true, p.sample)
  | none => (false, none)

/-- The earlier of the two timestamps, as the loops of `score_vuln` keep it. -/
def earlier (ts first : Option ℚ) : Option ℚ :=
  match ts, first with
  | some t, some f => if t < f then some t else some f
  | some t, none => some t
  | none, first => first

/-- One reaching request. -/
def scoreRequest (v : Vuln) (out : Outcome) (ev : HttpRequestEvent) : Outcome :=
  if !requestReaches v ev then out
  else
    let out := { out with
      reach := true
      reachEvents := out.reachEvents + 1
      firstReachTs := earlier ev.ts out.firstReachTs }
    if out.exercise = some false then
      match paramIsExercised v ev with
      | (true, sample) => { out with exercise := some true, exerciseSample := sample }
      | (false, _) => out
    else out

/-- How a sink event names this vulnerability, if it does. -/
def matchedBy (v : Vuln) (ev : TriggerEvent) : Option String :=
  if given v.oracle.signal && ev.signal = v.oracle.signal then some "signal"
  else if ev.vulnId ≠ "" && ev.vulnId = v.id then some "vuln_id"
  else none

/-- One sink event. -/
def scoreTrigger (v : Vuln) (out : Outcome) (ev : TriggerEvent) : Outcome :=
  match matchedBy v ev with
  | none => out
  | some m =>
    { out with
      trigger := true
      triggerEvents := out.triggerEvents + 1
      triggerSource := some (textOr out.triggerSource m)
      firstTriggerTs := earlier ev.ts out.firstTriggerTs
      evidence := if ev.evidence ≠ [] ∧ out.evidence = [] then ev.evidence else out.evidence }

/-- One attributed callback. -/
def scoreCallback (out : Outcome) (att : Attribution) : Outcome :=
  let out := { out with
    triggerEvents := out.triggerEvents + 1
    attributions := out.attributions ++ [att]
    firstTriggerTs := earlier att.ts out.firstTriggerTs
    evidence :=
      if out.evidence.contains "oob_channel" then out.evidence
      else out.evidence.set "oob_channel" (att.channel.elim .null .str) }
  match att.confidence with
  | .high =>
    { out with
      trigger := true
      triggerSource := some (textOr out.triggerSource ("oob:" ++ att.kind.text)) }
  | .low => { out with triggerLowConfidence := true }

/-- Proof of exploitation without an observed request promotes reach. -/
def inferReach (out : Outcome) : Outcome :=
  if out.trigger && !out.reach then { out with reach := true, reachInferred := true } else out

def scoreVuln (v : Vuln) (stream : EventStream) (oob : List Attribution) : Outcome :=
  let out : Outcome := { vulnId := v.id, exercise := if v.hasParam then some false else none }
  let out := (EventStream.requests stream).foldl (scoreRequest v) out
  let out := (EventStream.triggers stream).foldl (scoreTrigger v) out
  inferReach (oob.foldl scoreCallback out)

/-! ## Aggregation -/

structure AxisCount where
  hit : ℕ
  applicable : ℕ
  «recall» : Option ℚ

structure Metric where
  vulns : ℕ
  axis : Axis → AxisCount

/-- `outcomes[v.id]`; `scoreRun` gives every vulnerability in scope an entry. -/
def outcomeOf (outcomes : Dict String Outcome) (v : Vuln) : Outcome :=
  outcomes.getD v.id { vulnId := v.id }

/-- `_metric` -/
def metric (vulns : List Vuln) (outcomes : Dict String Outcome) : Metric where
  vulns := vulns.length
  axis a :=
    let applicable := vulns.countP fun v => ((outcomeOf outcomes v).axis a).isSome
    let hit := vulns.countP fun v => (outcomeOf outcomes v).axis a = some true
    { hit := hit
      applicable := applicable
      «recall» := if applicable = 0 then none else some (hit / applicable) }

/-- The buckets of a grouping, in key order: one entry of a bucket for each time a vulnerability
names its key. -/
def buckets (vulns : List Vuln) (keys : Vuln → List String) : List (String × List Vuln) :=
  let pairs := vulns.flatMap fun v => (keys v).map fun k => (k, v)
  (Catalog.sortedSet (pairs.map Prod.fst)).map fun k =>
    (k, (pairs.filter (·.1 = k)).map Prod.snd)

/-- `_group` -/
def group (vulns : List Vuln) (outcomes : Dict String Outcome) (key : Vuln → Option String) :
    List (String × Metric) :=
  (buckets vulns fun v => [(key v).getD "unspecified"]).map fun b => (b.1, metric b.2 outcomes)

/-- `_group_multi` -/
def groupMulti (vulns : List Vuln) (outcomes : Dict String Outcome) (key : Vuln → List String) :
    List (String × Metric) :=
  (buckets vulns fun v => if key v = [] then ["none"] else key v).map fun b =>
    (b.1, metric b.2 outcomes)

structure ChainStats where
  maxDepth : ℕ
  depthHistogram : List (ℕ × ℕ)
  byDepth : List (String × Metric)
  chainedVulns : ℕ
  chainsCompleted : ℕ
  chainsBroken : List (String × List String)

/-- `str(n)` -/
def natText (n : ℕ) : String := String.ofList (intText n)

/-- `_chain_stats` -/
def chainStats (catalog : Catalog) (vulns : List Vuln) (outcomes : Dict String Outcome) :
    ChainStats :=
  let depths := vulns.map fun v => catalog.prereqDepth v.id
  let triggered := vulns.filter fun v => v.requiresPrereq ≠ [] && (outcomeOf outcomes v).trigger
  let missing (v : Vuln) := (catalog.transitivePrereqs v.id).filter fun p =>
    (outcomes.get? p).any (!·.trigger)
  { maxDepth := depths.foldl max 0
    depthHistogram := (depths.dedup.insertionSort (· ≤ ·)).map fun d => (d, depths.count d)
    byDepth := group vulns outcomes fun v => some (natText (catalog.prereqDepth v.id))
    chainedVulns := vulns.countP fun v => v.requiresPrereq ≠ []
    chainsCompleted := triggered.countP fun v => missing v = []
    chainsBroken := (triggered.filter fun v => missing v ≠ []).map fun v => (v.id, missing v) }

structure Metrics where
  overall : Metric
  byApp : List (String × Metric)
  byOwasp : List (String × List (String × Metric))
  byFamily : List (String × Metric)
  byClass : List (String × Metric)
  bySeverity : List (String × Metric)
  byRender : List (String × Metric)
  byDifficulty : List (String × Metric)
  byAuth : List (String × Metric)
  byRequires : List (String × Metric)
  byComponent : List (String × Metric)
  byOracleKind : List (String × Metric)
  crawl : Crawl

structure LowConfidence where
  creditedOnlyHere : List String
  vulnIds : List String
  attributions : List Attribution
  unattributedCallbacks : List Attribution

structure Score where
  scopeApps : List String
  scopeSource : String
  inScope : List Vuln
  outcomes : Dict String Outcome
  metrics : Metrics
  lowConfidenceTriggers : LowConfidence
  chains : ChainStats

/-- What a run is scored against: the run's address map (`address_index` of its record), the
scope it was given and the published inventories. -/
structure Setting where
  catalog : Catalog
  addresses : Dict String String := Dict.empty
  apps : List String := []
  scopeSource : Option String := none
  inventories : Dict String RouteInventory := Dict.empty

/-- The scope of a run: what it was given, else the apps its events touched, else the corpus. -/
def scopeOf (s : Setting) (scored : EventStream) : List String × String :=
  if s.apps ≠ [] then
    let known := s.apps.filter (· ∈ s.catalog.apps)
    (if known = [] then s.apps else known, textOr s.scopeSource "explicit")
  else
    let observed := Catalog.sortedSet
      ((scored.filterMap fun e => if given e.app then e.app else none).filter
        (· ∈ s.catalog.apps))
    if observed ≠ [] then (observed, "events") else (s.catalog.apps, "catalog")

def metricsOf (s : Setting) (scored : EventStream) (apps : List String) (inScope : List Vuln)
    (outcomes : Dict String Outcome) : Metrics where
  overall := metric inScope outcomes
  byApp := group inScope outcomes fun v => some v.app
  byOwasp := (s.catalog.editions.insertionSort (· ≤ ·)).map fun e =>
    (e, group inScope outcomes fun v => v.owaspFor e)
  byFamily := group inScope outcomes (·.family)
  byClass := group inScope outcomes fun v => some v.cls
  bySeverity := group inScope outcomes fun v => some v.severity
  byRender := group inScope outcomes (·.discovery.render)
  byDifficulty := group inScope outcomes fun v =>
    v.discovery.difficulty.map fun n => String.ofList (intText n)
  byAuth := group inScope outcomes fun v => some v.entrypoint.auth
  byRequires := groupMulti inScope outcomes (·.discovery.requires)
  byComponent := group inScope outcomes fun v => some v.component
  byOracleKind := group inScope outcomes fun v => some v.oracle.kind
  crawl := crawlCoverage s.inventories (EventStream.requests scored) apps

/-- `{v.id: score_vuln(v, ...) for v in in_scope}` -/
def outcomesOf (s : Setting) (scored : EventStream) (inScope : List Vuln) : Dict String Outcome :=
  let atts := attributions scored s.catalog s.addresses
  Dict.ofList (inScope.map fun v => (v.id, scoreVuln v scored (attributedTo atts v.id)))

def scoreRun (s : Setting) (stream : EventStream) : Score :=
  let scored := EventStream.scored stream
  let (apps, source) := scopeOf s scored
  let inScope := s.catalog.vulns.filter (·.app ∈ apps)
  let outcomes := outcomesOf s scored inScope
  let low := inScope.filter fun v => (outcomeOf outcomes v).triggerLowConfidence
  { scopeApps := apps
    scopeSource := source
    inScope := inScope
    outcomes := outcomes
    metrics := metricsOf s scored apps inScope outcomes
    lowConfidenceTriggers :=
      { creditedOnlyHere := ((low.filter fun v => !(outcomeOf outcomes v).trigger).map
          Vuln.id).insertionSort (· ≤ ·)
        vulnIds := (low.map Vuln.id).insertionSort (· ≤ ·)
        attributions := (inScope.insertionSort fun a b => a.id ≤ b.id).flatMap fun v =>
          (outcomeOf outcomes v).attributions.filter (·.confidence ≠ .high)
        unattributedCallbacks := orphans (attributions scored s.catalog s.addresses) }
    chains := chainStats s.catalog inScope outcomes }

end Score

end PtaasBench.Benchctl
