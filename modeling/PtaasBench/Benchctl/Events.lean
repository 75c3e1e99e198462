import PtaasBench.Py.Json

/-!
# PtaasBench.Benchctl.Events — event stream loading and typing (`events.py`)

`eventFromDict` types one exported event.  A field the source passes through untyped is read here
at the type the collector's schema gives it (`app`, `value_len`, `sample`, `ts`, `seq`).
-/

namespace PtaasBench.Benchctl

open Py

structure Param where
  name : String
  location : String
  valueSha256 : Option String := none
  valueLen : Option ℤ := none
  sample : Option String := none

/-- The fields every event has. -/
structure EventBase where
  type : String
  app : Option String := none
  ts : Option ℚ := none
  synthetic : Bool := false
  seq : Option ℤ := none
  raw : Obj := []

structure HttpRequestEvent extends EventBase where
  method : String := "GET"
  route : String := "/"
  host : Option String := none
  path : Option String := none
  status : Json := .null
  authSubject : Json := .null
  params : List Param := []

structure TriggerEvent extends EventBase where
  vulnId : String := ""
  signal : Option String := none
  evidence : Obj := []

structure OobEvent extends EventBase where
  token : String := ""
  signal : Option String := none
  vulnId : Option String := none
  channel : Option String := none
  sourceIp : Option String := none
  attribution : Option String := none
  attributedApp : Option String := none
  confidence : Option String := none
  sourceMatch : Option Bool := none
  lowConfidence : Bool := false
  destinationHost : Option String := none
  requestId : Option String := none
  container : Option String := none
  route : Option String := none
  method : Option String := none

inductive Event where
  | request (e : HttpRequestEvent)
  | trigger (e : TriggerEvent)
  | oob (e : OobEvent)
  | other (e : EventBase)

namespace Event

def base : Event → EventBase
  | request e => e.toEventBase
  | trigger e => e.toEventBase
  | oob e => e.toEventBase
  | other e => e

def synthetic (e : Event) : Bool := e.base.synthetic
def raw (e : Event) : Obj := e.base.raw
def app (e : Event) : Option String := e.base.app

def asRequest? : Event → Option HttpRequestEvent
  | request e => some e
  | _ => none

def asTrigger? : Event → Option TriggerEvent
  | trigger e => some e
  | _ => none

def asOob? : Event → Option OobEvent
  | oob e => some e
  | _ => none

end Event

/-- All events of one run, in the order of the export. -/
abbrev EventStream := List Event

namespace EventStream

def requests (s : EventStream) : List HttpRequestEvent := s.filterMap Event.asRequest?
def triggers (s : EventStream) : List TriggerEvent := s.filterMap Event.asTrigger?
def oob (s : EventStream) : List OobEvent := s.filterMap Event.asOob?

/-- `scored`: drop the platform's own traffic. -/
def scored (s : EventStream) : EventStream := s.filter fun e => !e.synthetic

end EventStream

/-! ## Reading one event -/

section Reading

variable [Runtime]

/-- The first of the keys whose value is neither missing, `None` nor empty text. -/
def firstText (fs : Obj) : List String → Option String
  | [] => none
  | k :: ks =>
    match fs.get k with
    | .null => firstText fs ks
    | .str "" => firstText fs ks
    | x => some x.pyStr

/-- The branch of `_as_text` for a scalar. -/
def scalarText (x : Json) : Option String :=
  if strip x.pyStr = "" then none else some (strip x.pyStr)

mutual

/-- `_as_text` -/
def asText (keys : List String) : Json → Option String
  | .null => none
  | .obj fs => firstText fs (keys ++ ["value", "name", "id"])
  | .arr xs => asTextHead keys xs
  | .bool b => scalarText (.bool b)
  | .int n => scalarText (.int n)
  | .float f => scalarText (.float f)
  | .nan => scalarText .nan
  | .infinity neg => scalarText (.infinity neg)
  | .str s => scalarText (.str s)

/-- `_as_text(value[0], *keys) if value else None` -/
def asTextHead (keys : List String) : List Json → Option String
  | [] => none
  | x :: _ => asText keys x

end

/-- `_as_bool` -/
def asBool : Json → Bool
  | .str s => lower (strip s) ∈ ["1", "true", "yes"]
  | x => x.truthy

def paramFromDict (d : Obj) : Param where
  name := textOr (asText [] (d.get "name")) ""
  location := textOr (asText [] (d.get "in")) "query"
  valueSha256 := asText [] (d.get "value_sha256")
  valueLen := (d.get "value_len").asInt?
  sample := (d.get "sample").asStr?

/-- The mappings among the elements of `d.get("params") or []`. -/
def paramDicts : Json → List Obj
  | .arr xs => xs.filterMap Json.asObj?
  | _ => []

/-- The wire type, with the legacy alias `trigger` folded into `signal`. -/
def eventKind (d : Obj) : String :=
  let kind := match d.get? "type" with
    | none => ""
    | some x => x.pyStr
  if kind = "signal" ∨ kind = "trigger" then "signal" else kind

def eventBase (d : Obj) : EventBase where
  type := eventKind d
  app := (d.get "app").asStr?
  ts := (d.get "ts").asNum?
  synthetic := asBool (d.get "synthetic")
  seq := (d.get "seq").asInt?
  raw := d

def requestFromDict (d : Obj) : HttpRequestEvent where
  toEventBase := eventBase d
  method := upper (match d.get? "method" with | none => "GET" | some x => x.pyStr)
  route := textOr (asText ["template"] (d.get "route")) (textOr (asText [] (d.get "path")) "/")
  host := asText ["host", "name"] ((d.get "host").orElse (d.get "vhost"))
  path := asText [] (d.get "path")
  status := d.get "status"
  authSubject := d.get "auth_subject"
  params := (paramDicts (d.get "params")).map paramFromDict

def triggerFromDict (d : Obj) : TriggerEvent where
  toEventBase := eventBase d
  vulnId := textOr (asText [] (d.get "vuln_id")) ""
  signal := asText ["name"] (d.get "signal")
  evidence := (((d.get "attributes").orElse (d.get "evidence")).asObj?).getD []

def oobFromDict (d : Obj) : OobEvent :=
  let attribution := (d.get "attribution").orElse (d.get "attribution_kind")
  { toEventBase := eventBase d
    token := textOr (asText [] (d.get "token")) ""
    signal := asText [] (d.get "signal")
    vulnId := asText [] (d.get "vuln_id")
    channel := asText [] (d.get "channel")
    sourceIp := asText ["address", "ip"] (d.get "source_ip")
    attribution := asText ["mode", "kind"] attribution
    attributedApp := attribution.asObj?.bind fun a => asText [] (a.get "app")
    confidence := asText ["level"] (d.get "confidence")
    sourceMatch := match d.get "source_match" with | .null => none | x => some (asBool x)
    lowConfidence := asBool (d.get "low_confidence")
    destinationHost := asText ["host"] ((d.get "destination_host").orElse (d.get "host"))
    requestId := asText [] (d.get "request_id")
    container := asText ["container_id"] (d.get "container")
    route := asText ["path"] (d.get "route")
    method :=
      let m := upper (textOr (asText [] (d.get "method")) "")
      if m = "" then none else some m }

def eventFromDict (d : Obj) : Event :=
  if eventKind d = "http_request" then .request (requestFromDict d)
  else if eventKind d = "signal" then .trigger (triggerFromDict d)
  else if eventKind d = "oob" then .oob (oobFromDict d)
  else .other (eventBase d)

/-- `events_from_iterable` -/
def eventsFromIterable (items : List Json) : EventStream :=
  (items.filterMap Json.asObj?).map eventFromDict

@[simp] theorem raw_eventFromDict (d : Obj) : (eventFromDict d).raw = d := by
  unfold eventFromDict
  split_ifs <;> rfl

end Reading

end PtaasBench.Benchctl
