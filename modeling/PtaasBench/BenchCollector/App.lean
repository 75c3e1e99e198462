import PtaasBench.BenchCollector.Ingest
import PtaasBench.Lib.Machine
import PtaasBench.Py.JsonText

/-!
# PtaasBench.BenchCollector.App — the ingest endpoints, and the collector as a state machine
(`app.py`)

An `Op` is one synchronous stretch of the process; the scheduler may put them in any order.  A
restart loses everything that is not in the database.
-/

namespace PtaasBench.BenchCollector

open Py

variable (d : Deployment)

/-- The list of raw events of a request body, if the body is an object with one. -/
def batchOf (raw : List UInt8) : Option (List Json) :=
  let body := if raw = [] then some (.obj []) else d.loads raw
  match (body.bind Json.asObj?).map fun fs : Obj => fs.get "events" with
  | some (.arr events) => some events
  | _ => none

/-- A request that could not be read is counted as one invalid event. -/
def countMalformed (s : Collector) : Collector :=
  { s with counters := { s.counters with droppedInvalid := s.counters.droppedInvalid + 1 } }

/-- `POST /v1/events` and `POST /v1/traces` -/
def ingestEvents (draw : Draw) (peer : Option String) (raw : List UInt8) (s : Collector) :
    Collector × Answer :=
  match batchOf d raw with
  | none => (countMalformed s, { dropped := 1 })
  | some events => submit d draw peer s events

theorem ingestEvents_none {raw : List UInt8} (h : batchOf d raw = none) (draw : Draw)
    (peer : Option String) (s : Collector) :
    (ingestEvents d draw peer raw s).1 = countMalformed s := by
  rw [ingestEvents, h]

theorem ingestEvents_some {raw : List UInt8} {events : List Json} (h : batchOf d raw = some events)
    (draw : Draw) (peer : Option String) (s : Collector) :
    ingestEvents d draw peer raw s = submit d draw peer s events := by
  rw [ingestEvents, h]

/-- A dictionary key must be hashable. -/
def hashable : Json → Bool
  | .arr _ => false
  | .obj _ => false
  | _ => true

/-- Does a valid registration carry an id that cannot be a key? -/
def unusableId (spec : CorrelationCreate) : Bool :=
  (spec.record.get "correlation_id").truthy && !hashable (spec.record.get "correlation_id")

/-- `POST /v1/correlations`: an id that cannot be a key raises once the registry has evicted. -/
def postCorrelation (draw : Draw) (peer : Option String) (raw : List UInt8) (s : Collector) :
    Collector :=
  match d.validateCorrelation raw with
  | none => countMalformed s
  | some spec =>
    if unusableId spec then
      { s with correlations := s.correlations.evict draw.now }
    else registerCorrelation d draw peer s spec

theorem postCorrelation_none {raw : List UInt8} (h : d.validateCorrelation raw = none)
    (draw : Draw) (peer : Option String) (s : Collector) :
    postCorrelation d draw peer raw s = countMalformed s := by
  rw [postCorrelation, h]

/-! ## Reading -/

def eventTypes : List String := ["http_request", "signal", "trigger", "oob", "note", "correlation"]

/-- A page of events, with the fields its readers look at. -/
structure PageBody where
  events : List Obj
  nextSeq : Option ℤ

/-- `GET /v1/runs/{run_id}/events`; `none` is an error status. -/
def exportEvents (runId : String) (type : Option String) (afterSeq : Option ℤ) (limit : ℕ)
    (s : Collector) : Option PageBody :=
  if (∀ t ∈ type, t ∈ eventTypes) ∧ (∀ n ∈ afterSeq, 0 ≤ n) ∧ 1 ≤ limit ∧ limit ≤ 50000 ∧
      runId ∈ s.runs.map Run.runId then
    let page := getEvents s.rows runId type (afterSeq.map Int.toNat) limit
    some
      { events := page.events.map StoredEvent.asDict
        nextSeq := page.nextSeq.map Int.ofNat }
  else none

/-! ## The state machine -/

inductive Op where
  | ingestEvents (draw : Draw) (peer : Option String) (raw : List UInt8)
  | postCorrelation (draw : Draw) (peer : Option String) (raw : List UInt8)
  | openRun (run : NewRun) (force : Bool) (now : ℚ)
  | closeRun (runId : String) (closing : Option (Dict String Obj)) (now : ℚ)
  /-- The holder of the run lock goes on. -/
  | resume
  | writerTake
  | writerDone (committed : Bool)
  | restart

def step (s : Collector) : Op → Collector
  | .ingestEvents draw peer raw => (ingestEvents d draw peer raw s).1
  | .postCorrelation draw peer raw => postCorrelation d draw peer raw s
  | .openRun run force now => openRun run force now s
  | .closeRun runId closing now => closeRun runId closing now s
  | .resume => resume s
  | .writerTake => writerTake d s
  | .writerDone committed => writerDone committed s
  | .restart => start d s.runs s.rows

/-- The events an operation accepts: valid, and sent while a run is active. -/
def intake (s : Collector) : Op → List QueuedEvent
  | .ingestEvents draw peer raw =>
    match batchOf d raw with
    | none => []
    | some events => (admission d draw peer s events).accepted
  | .postCorrelation draw peer raw =>
    match d.validateCorrelation raw with
    | none => []
    | some spec =>
      if unusableId spec then []
      else s.activeRunId.toList.map fun r =>
        payloadItem draw r (registerEntry d draw peer s.correlations spec).2
          (distinct_registerEntry d draw peer s.correlations spec)
  | _ => []

theorem step_openRun (s : Collector) (run : NewRun) (force : Bool) (now : ℚ) :
    step d s (.openRun run force now) = openRun run force now s := rfl

theorem step_closeRun (s : Collector) (runId : String) (closing : Option (Dict String Obj))
    (now : ℚ) : step d s (.closeRun runId closing now) = closeRun runId closing now s := rfl

theorem step_resume (s : Collector) : step d s .resume = resume s := rfl

/-- What a sequence of operations leads to. -/
abbrev run (s : Collector) (ops : List Op) : Collector := Lib.run (step d) s ops

/-- A first process in front of an empty database. -/
def initial : Collector := start d [] []

/-- Taking a request in leaves the database, the runs and the writer alone. -/
structure SameStore (s s' : Collector) : Prop where
  runs : s'.runs = s.runs
  rows : s'.rows = s.rows
  activeRunId : s'.activeRunId = s.activeRunId
  seqs : s'.seqs = s.seqs
  inflight : s'.inflight = s.inflight
  lock : s'.lock = s.lock

theorem SameStore.refl (s : Collector) : SameStore s s := ⟨rfl, rfl, rfl, rfl, rfl, rfl⟩

theorem sameStore_putNowait (s : Collector) (items : List QueuedEvent) :
    SameStore s (putNowait d s items).1 := by
  unfold putNowait
  split_ifs <;> exact ⟨rfl, rfl, rfl, rfl, rfl, rfl⟩

theorem sameStore_submit (draw : Draw) (peer : Option String) (s : Collector) (events : List Json) :
    SameStore s (submit d draw peer s events).1 := by
  simp only [submit]
  split_ifs
  · exact ⟨rfl, rfl, rfl, rfl, rfl, rfl⟩
  · obtain ⟨h1, h2, h3, h4, h5, h6⟩ := sameStore_putNowait d _ _
    exact ⟨h1, h2, h3, h4, h5, h6⟩

theorem sameStore_ingestEvents (draw : Draw) (peer : Option String) (raw : List UInt8)
    (s : Collector) : SameStore s (ingestEvents d draw peer raw s).1 := by
  unfold ingestEvents
  cases batchOf d raw with
  | none => exact ⟨rfl, rfl, rfl, rfl, rfl, rfl⟩
  | some events => exact sameStore_submit d draw peer s events

theorem sameStore_enqueuePayload (draw : Draw) (s : Collector) (payload : Obj)
    (h : payload.Distinct) : SameStore s (enqueuePayload d draw s payload h) := by
  unfold enqueuePayload
  split
  · exact ⟨rfl, rfl, rfl, rfl, rfl, rfl⟩
  · exact sameStore_putNowait d s _

theorem sameStore_postCorrelation (draw : Draw) (peer : Option String) (raw : List UInt8)
    (s : Collector) : SameStore s (postCorrelation d draw peer raw s) := by
  unfold postCorrelation
  cases d.validateCorrelation raw with
  | none => exact ⟨rfl, rfl, rfl, rfl, rfl, rfl⟩
  | some spec =>
    dsimp only
    split_ifs
    · exact ⟨rfl, rfl, rfl, rfl, rfl, rfl⟩
    · obtain ⟨h1, h2, h3, h4, h5, h6⟩ := sameStore_enqueuePayload d draw _ _ _
      exact ⟨h1, h2, h3, h4, h5, h6⟩

end PtaasBench.BenchCollector

/-! ## A deployment that takes notes -/

namespace PtaasBench.BenchCollector.Notes

open Py

/-- The schema, for an event with the fields of a note: its defaults are filled in. -/
def validateNote : Json → Option AnyEvent
  | .obj [("type", .str "note"), ("app", .str app)] =>
    some
      { type := "note"
        app := app
        ts := none
        synthetic := false
        ttl := none
        dump := [("app", .str app), ("ts", .null), ("synthetic", .bool false), ("peer_ip", .null),
          ("client_ip", .null), ("type", .str "note"), ("message", .null)]
        distinct := ⟨by simp, trivial, trivial, trivial, trivial, trivial, trivial, trivial,
          trivial⟩ }
  | _ => none

/-- No hint is ever valid here, and there are no platform networks. -/
def deployment : Deployment where
  queueMaxsize := 200000
  writeBatch := 500
  correlationTtl := 120
  correlationMax := 20000
  loads raw := loads (String.ofList (raw.map fun b => Char.ofNat b.toNat))
  validateEvent := validateNote
  validateCorrelation _ := none
  parseAddress _ := none
  inSyntheticNetworks _ := false
  clock _ := FloatLit.ofInt 0

/-- An ASCII request body. -/
def body (text : String) : List UInt8 := text.toList.map fun c => c.toNat.toUInt8

def draw : Draw where
  now := 0
  receivedAt := "2026-01-01T00:00:00+00:00"
  newId _ := "0"

def post (text : String) : Op := .ingestEvents draw none (body text)

/-- One note of the shop. -/
def noteBody : String :=
  "\x7b\"events\": [\x7b\"type\": \"note\", \"app\": \"shopfront\"\x7d]\x7d"

def openFirst : List Op := [.openRun { runId := "r1", startedAt := 1 } false 1, .resume]

/-- A note taken in during a run and written. -/
def written : List Op := openFirst ++ [post noteBody, .writerTake, .writerDone true]

/-- Two notes taken in during a run and written. -/
def twoNotes : List Op :=
  openFirst ++ [post noteBody, post noteBody, .writerTake, .writerDone true]

end PtaasBench.BenchCollector.Notes
