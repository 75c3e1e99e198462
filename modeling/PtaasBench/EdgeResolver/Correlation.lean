import Mathlib.Data.Rat.Floor
import Mathlib.Data.List.Sort
import PtaasBench.Py.Dict
import PtaasBench.Py.Json

/-!
# PtaasBench.EdgeResolver.Correlation — deciding what a request proves (`correlation.py`)

The index of the hints the resolver knows, and the match of an observation against it.  The clock
is an argument.  What a hint carries for the reader only (`signal`, `route`, …) stays the JSON
value it is.
-/

namespace PtaasBench.EdgeResolver

open Py

/-- How strong an attribution is. -/
inductive Level where
  | high
  | low
  | none
deriving DecidableEq

def Level.text : Level → String
  | high => "high"
  | low => "low"
  | none => "none"

inductive Mode where
  | hint
  | ownedLabel
  | source
  | unattributed
deriving DecidableEq

def Mode.text : Mode → String
  | hint => "hint"
  | ownedLabel => "owned_label"
  | source => "source"
  | unattributed => "unattributed"

def scanLimit : ℕ := 512

section Hosts

variable [Runtime]

/-- `normalise_host` -/
def normaliseHost (host : Option String) : String :=
  let name := lower (stripBy (· == '.') (strip (host.getD "")))
  if startsWith name "[" && name.toList.contains ']' then
    beforeChar ']' (String.ofList (name.toList.drop 1))
  else if name.toList.count ':' = 1 then beforeChar ':' name
  else name

end Hosts

/-- `hosts_match` -/
def hostsMatch (observed registered : String) : Bool :=
  if observed = "" || registered = "" then false
  else observed = registered || endsWith observed ("." ++ registered) ||
    endsWith registered ("." ++ observed)

/-- One pending outbound request an application announced. -/
structure Hint where
  hintId : String
  ts : ℚ
  app : String
  host : String
  expiresAt : ℚ
  signal : Json := .null
  route : Json := .null
  param : Json := .null
  paramIn : Json := .null
  requestId : Json := .null
  sourceIps : List String := []
  synthetic : Bool := false

namespace Hint

variable [Runtime]

/-- `float(a or b)` for numbers. -/
def numberOr (x : Json) (default : ℚ) : ℚ := if x.truthy then x.asNum?.getD default else default

/-- `Hint.from_payload`; `formatFloat` renders a float in an identifier.  A host that is not text, on
which the source raises, is read as absent: see `unreadable`. -/
def fromPayload (formatFloat : ℚ → String) (payload : Obj) (defaultTtl now : ℚ) : Option Hint :=
  let host := normaliseHost ((payload.get "destination_host").orElse (payload.get "host")).asStr?
  if host = "" then none
  else
    let ts := numberOr (payload.get "registered_at") (numberOr (payload.get "ts") now)
    let clientIp := payload.get "client_ip"
    let correlationId := payload.get "correlation_id"
    some
      { hintId := if correlationId.truthy then correlationId.pyStr else host ++ ":" ++ formatFloat ts
        ts := ts
        app := ((payload.get "app").orElse (.str "")).pyStr
        host := host
        expiresAt :=
          match payload.get "expires_at" with
          | .null => ts + numberOr (payload.get "ttl") defaultTtl
          | x => x.asNum?.getD 0
        signal := payload.get "signal"
        route := payload.get "route"
        param := payload.get "param"
        paramIn := payload.get "param_in"
        requestId := payload.get "request_id"
        sourceIps := if clientIp.truthy then [clientIp.pyStr] else []
        synthetic := (payload.get "synthetic").truthy }

end Hint

/-- `Hint.from_payload` raises on a host that is not text. -/
def unreadable (payload : Obj) : Bool :=
  let host := (payload.get "destination_host").orElse (payload.get "host")
  host.truthy && host.asStr?.isNone

/-- `x or None` for text, as a JSON value. -/
def orNull (s : String) : Json := if s = "" then .null else .str s

/-- Optional text as a JSON value. -/
def textJson : Option String → Json
  | some s => .str s
  | none => .null

/-- `Hint.as_attribution` -/
def Hint.asAttribution (h : Hint) : Obj :=
  [("app", orNull h.app), ("route", h.route), ("param", h.param), ("param_in", h.paramIn),
    ("request_id", h.requestId), ("signal", h.signal), ("correlation_id", .str h.hintId)]

structure Attribution where
  mode : Mode := .unattributed
  confidence : Level := .none
  app : Option String := none
  hint : Option Hint := none
  ageMs : Option ℕ := none
  sourceMatch : Option Bool := none

/-- `dict.update` -/
def update (o fields : Obj) : Obj := fields.foldl (fun o f => o.set f.1 f.2) o

/-- `Attribution.as_json` -/
def Attribution.asJson (a : Attribution) : Obj :=
  let out : Obj := [("mode", .str a.mode.text), ("app", textJson a.app)]
  match a.hint with
  | none => out
  | some h =>
    let out := (update out h.asAttribution).set "app" (textJson a.app)
    (out.set "hint_age_ms" (match a.ageMs with | some n => .int n | none => .null)).set
      "source_match" (match a.sourceMatch with | some b => .bool b | none => .null)

/-! ## The index -/

structure CorrelationIndex where
  hintTtl : ℚ := 120
  sourceTtl : ℚ := 900
  maxHints : ℕ := 20000
  byHost : Dict String (List Hint) := Dict.empty
  recent : List Hint := []
  seen : Dict String ℚ := Dict.empty
  sources : Dict String (String × ℚ) := Dict.empty
  staticSources : Dict String String := Dict.empty
  added : ℕ := 0

namespace CorrelationIndex

/-- `_prune_locked` -/
def prune (ix : CorrelationIndex) (now : ℚ) : CorrelationIndex :=
  { ix with
    byHost := (ix.byHost.filter fun e => !e.2.all (·.expiresAt ≤ now)).mapValues
      fun hints => hints.filter (now < ·.expiresAt)
    seen := ix.seen.filter fun e => now < e.2
    sources := ix.sources.filter fun e => now - e.2.2 ≤ ix.sourceTtl }

/-- `add`: `false` for a hint the index already holds. -/
def add (ix : CorrelationIndex) (hint : Hint) (now : ℚ) : CorrelationIndex × Bool :=
  if ix.seen.contains hint.hintId then (ix, false)
  else
    let recent := ix.recent ++ [hint]
    ({ ix with
        seen := ix.seen.set hint.hintId hint.expiresAt
        byHost := ix.byHost.set hint.host (ix.byHost.getD hint.host [] ++ [hint])
        recent := recent.drop (recent.length - ix.maxHints)
        added := ix.added + 1
        sources := hint.sourceIps.foldl (fun sources address =>
          if hint.app = "" then sources else sources.set address (hint.app, hint.ts)) ix.sources }.prune
      now, true)

/-- `app_for_source` -/
def appForSource (ix : CorrelationIndex) (address : String) (now : ℚ) : Option String :=
  match ix.sources.get? address with
  | some learned =>
    if now - learned.2 ≤ ix.sourceTtl then some learned.1 else ix.staticSources.get? address
  | none => ix.staticSources.get? address

/-- Most recent first, and first of all those registered from the address that was seen. -/
def preferred (sourceIp : String) (a b : Hint) : Bool :=
  let ka := decide (sourceIp ∈ a.sourceIps)
  let kb := decide (sourceIp ∈ b.sourceIps)
  (ka && !kb) || (ka == kb && decide (b.ts ≤ a.ts))

/-- The hints of a host that has some, else the recent ones whose host is related. -/
def candidates (ix : CorrelationIndex) (name : String) (now : ℚ) : List Hint :=
  let exact := (ix.byHost.getD name []).filter (now < ·.expiresAt)
  if exact = [] then
    (ix.recent.drop (ix.recent.length - scanLimit)).filter fun hint =>
      now < hint.expiresAt && hostsMatch name hint.host
  else exact

/-- `_match_host` -/
def matchHost (ix : CorrelationIndex) (name sourceIp : String) (now : ℚ) :
    CorrelationIndex × Option Hint :=
  let ix := ix.prune now
  (ix, ((ix.candidates name now).insertionSort fun a b => preferred sourceIp a b).head?)

/-- What a hint attributes. -/
def hintAttribution (hint : Hint) (sourceIp : String) (now : ℚ) : Attribution where
  mode := .hint
  confidence := .high
  app := if hint.app = "" then none else some hint.app
  hint := some hint
  ageMs := some ⌊(now - hint.ts) * 1000⌋.toNat
  sourceMatch := if hint.sourceIps = [] then none else some (sourceIp ∈ hint.sourceIps)

/-- What a source address attributes when no hint matched. -/
def sourceAttribution (ix : CorrelationIndex) (sourceIp : String) (now : ℚ) : Attribution :=
  match ix.appForSource sourceIp now with
  | some app => if app = "" then {} else { mode := .source, confidence := .low, app := some app }
  | none => {}

variable [Runtime]

/-- `add_payloads` -/
def addPayloads (formatFloat : ℚ → String) (ix : CorrelationIndex) (payloads : List Obj) (now : ℚ) :
    CorrelationIndex :=
  payloads.foldl (fun ix payload =>
    match Hint.fromPayload formatFloat payload ix.hintTtl now with
    | some hint => (ix.add hint now).1
    | none => ix) ix

/-- `match` -/
def matchObserved (ix : CorrelationIndex) (host : Option String) (sourceIp : String) (now : ℚ) :
    CorrelationIndex × Attribution :=
  let name := normaliseHost host
  if name = "" then (ix, ix.sourceAttribution sourceIp now)
  else
    let found := ix.matchHost name sourceIp now
    match found.2 with
    | some hint => (found.1, hintAttribution hint sourceIp now)
    | none => (found.1, found.1.sourceAttribution sourceIp now)

/-- A match by hint is of high confidence, and nothing else has a hint. -/
theorem matchObserved_hint {ix : CorrelationIndex} {host : Option String} {sourceIp : String} {now : ℚ}
    {hint : Hint} (h : (ix.matchObserved host sourceIp now).2.hint = some hint) :
    (ix.matchObserved host sourceIp now).2 = hintAttribution hint sourceIp now := by
  have hnone : ∀ ix : CorrelationIndex, (ix.sourceAttribution sourceIp now).hint = none := by
    intro ix
    unfold sourceAttribution
    split
    · split_ifs <;> rfl
    · rfl
  unfold matchObserved at h ⊢
  dsimp only at h ⊢
  split_ifs at h ⊢ with hname
  · rw [hnone] at h
    exact absurd h (by simp)
  · split at h
    · exact congrArg (hintAttribution · sourceIp now) (Option.some.inj h)
    · rw [hnone] at h
      exact absurd h (by simp)

end CorrelationIndex

end PtaasBench.EdgeResolver
