import Mathlib.Data.List.Sort
import PtaasBench.BenchCollector.Correlations

/-!
# PtaasBench.BenchCollector.Ingest — run bookkeeping and the buffered writer (`ingest.py`)

A `Collector` is the database (`runs`, `rows`) and one process in front of it.  The functions are
the synchronous stretches of the source between two `await`s on the database: `submit`, taking a
batch off the queue, the end of its transaction, and the stretches of `open_run` and `close_run`
under the run lock.
-/

namespace PtaasBench.BenchCollector

open Py

/-- One run of the database, with the columns the collector computes on. -/
structure Run where
  runId : String
  addresses : Dict String Obj := Dict.empty
  startedAt : ℚ
  closedAt : Option ℚ := none
  active : Bool := true
  eventCount : ℕ := 0

/-- An event on its way to the database. -/
structure QueuedEvent where
  runId : String
  receivedAt : String
  type : String
  app : String
  ts : Option ℚ
  synthetic : Bool
  payload : Obj
  distinct : payload.Distinct
  synthetic_eq : (payload.get "synthetic").truthy = synthetic

/-- A row of the `events` table. -/
structure StoredEvent extends QueuedEvent where
  seq : ℕ

/-- `Event.as_dict`: the payload, with its place in the run. -/
def StoredEvent.asDict (e : StoredEvent) : Obj :=
  (e.payload.set "seq" (.int e.seq)).set "received_at" (.str e.receivedAt)

theorem get_seq_asDict (e : StoredEvent) : e.asDict.get "seq" = .int e.seq := by
  rw [StoredEvent.asDict, Obj.get_set_of_ne _ _ (by decide), Obj.get_set_self]

/-- An exported event says of itself whether it is the platform's own. -/
theorem synthetic_asDict (e : StoredEvent) :
    (e.asDict.get "synthetic").truthy = e.synthetic := by
  rw [StoredEvent.asDict, Obj.get_set_of_ne _ _ (by decide), Obj.get_set_of_ne _ _ (by decide)]
  exact e.synthetic_eq

theorem distinct_asDict (e : StoredEvent) : e.asDict.Distinct :=
  (e.distinct.set "seq" (Json.distinct_int e.seq)).set "received_at"
    (Json.distinct_str e.receivedAt)

structure Counters where
  received : ℕ := 0
  written : ℕ := 0
  discardedIdle : ℕ := 0
  droppedInvalid : ℕ := 0
  droppedOverBatch : ℕ := 0
  droppedOverflow : ℕ := 0
  droppedWriteError : ℕ := 0
  correlations : ℕ := 0
  syntheticBySource : ℕ := 0
  signalsWithoutPeer : ℕ := 0

/-- Everything counted as dropped, as `stats` adds it up. -/
def Counters.dropped (c : Counters) : ℕ :=
  c.droppedInvalid + c.droppedOverflow + c.droppedOverBatch + c.droppedWriteError

/-- What the schema makes of one raw event; `dump` is `dump_event` of it. -/
structure AnyEvent where
  type : String
  app : String
  ts : Option ℚ
  synthetic : Bool
  ttl : Option ℚ
  dump : Obj
  distinct : dump.Distinct

/-- A validated body of `POST /v1/correlations`. -/
structure CorrelationCreate where
  record : Obj
  ttl : Option ℚ
  distinct : record.Distinct

/-- The settings, and the libraries the collector stands on: the JSON decoder of a request body,
the schema validation, the address parser and the rendering of a clock value. -/
structure Deployment where
  queueMaxsize : ℤ
  writeBatch : ℤ
  correlationTtl : ℚ
  correlationMax : ℕ
  loads : List UInt8 → Option Json
  validateEvent : Json → Option AnyEvent
  validateCorrelation : List UInt8 → Option CorrelationCreate
  parseAddress : Json → Option String
  inSyntheticNetworks : String → Bool
  clock : ℚ → FloatLit

/-- What a call draws from outside: the clock and fresh ids. -/
structure Draw where
  now : ℚ
  receivedAt : String
  newId : ℕ → String

/-- A run about to be stored: the record `open_run` builds from its spec, the clock and a new id. -/
structure NewRun where
  runId : String
  addresses : Dict String Obj := Dict.empty
  startedAt : ℚ

/-- A new run is active and has no events. -/
def NewRun.row (r : NewRun) : Run where
  runId := r.runId
  addresses := r.addresses
  startedAt := r.startedAt

/-- Who holds the run lock, and what is left to do for it in memory. -/
inductive RunLock where
  | free
  /-- The run is closed in the database; `next` is opened afterwards. -/
  | closing (runId : String) (next : Option NewRun)
  /-- The run is stored. -/
  | opening (runId : String)

structure Collector where
  runs : List Run := []
  rows : List StoredEvent := []
  activeRunId : Option String := none
  seqs : Dict String ℕ := Dict.empty
  queue : List (List QueuedEvent) := []
  inflight : List StoredEvent := []
  counters : Counters := {}
  correlations : CorrelationRegistry
  lock : RunLock := .free

def maxEventsPerBatch : ℕ := 500

/-- The socket peer of an event, read off its declared and its extra fields. -/
def peerAddress (d : Deployment) (dump : Obj) : Option String :=
  ["peer_ip", "source_ip"].findSome? fun field => d.parseAddress (dump.get field)

def isSyntheticSource (d : Deployment) (dump : Obj) : Bool :=
  (peerAddress d dump).any d.inSyntheticNetworks

def stampRegistrationPeer (d : Deployment) (record : Obj) (peer : Option String) : Obj :=
  if (record.get "client_ip").truthy then record
  else
    match peer.bind fun p => d.parseAddress (.str p) with
    | none => record
    | some address => record.set "client_ip" (.str address)

theorem get_stampRegistrationPeer (d : Deployment) (record : Obj) (peer : Option String)
    {k : String} (hk : k ≠ "client_ip") :
    (stampRegistrationPeer d record peer).get k = record.get k := by
  unfold stampRegistrationPeer
  split_ifs
  · rfl
  · split
    · rfl
    · rw [Obj.get_set_of_ne _ _ hk]

theorem distinct_stampRegistrationPeer (d : Deployment) {record : Obj} (h : record.Distinct)
    (peer : Option String) : (stampRegistrationPeer d record peer).Distinct := by
  unfold stampRegistrationPeer
  split_ifs
  · exact h
  · split
    · exact h
    · exact h.set _ (Json.distinct_str _)

/-! ## Admission -/

/-- The running totals of `submit`. -/
structure Admission where
  correlations : CorrelationRegistry
  counters : Counters
  accepted : List QueuedEvent := []
  dropped : ℕ := 0
  idle : ℕ := 0
  overBatch : ℕ := 0

/-- The payload of a valid event before it is registered as a hint. -/
def payloadOf (d : Deployment) (event : AnyEvent) : Obj :=
  let synthetic := event.synthetic || isSyntheticSource d event.dump
  let payload := event.dump.set "synthetic" (.bool synthetic)
  if event.type ∈ ["signal", "trigger"] ∧ peerAddress d event.dump = none then
    payload.set "peer_missing" (.bool true)
  else payload

/-- The registration of a valid event, when it is a hint: the registry and the payload. -/
def registered (d : Deployment) (draw : Draw) (peer : Option String) (index : ℕ)
    (reg : CorrelationRegistry) (event : AnyEvent) : CorrelationRegistry × Obj :=
  if event.type = "correlation" then
    reg.register d.clock draw.now (draw.newId index)
      (stampRegistrationPeer d (payloadOf d event) peer) event.ttl
  else (reg, payloadOf d event)

theorem synthetic_registered (d : Deployment) (draw : Draw) (peer : Option String) (index : ℕ)
    (reg : CorrelationRegistry) (event : AnyEvent) :
    ((registered d draw peer index reg event).2.get "synthetic").truthy =
      (event.synthetic || isSyntheticSource d event.dump) := by
  have hp : (payloadOf d event).get "synthetic" =
      .bool (event.synthetic || isSyntheticSource d event.dump) := by
    unfold payloadOf
    split_ifs
    · rw [Obj.get_set_of_ne _ _ (by decide), Obj.get_set_self]
    · rw [Obj.get_set_self]
  unfold registered
  split_ifs
  · rw [CorrelationRegistry.get_register _ _ _ _ _ _ (by decide),
      get_stampRegistrationPeer _ _ _ (by decide), hp]
    rfl
  · rw [hp]
    rfl

theorem distinct_registered (d : Deployment) (draw : Draw) (peer : Option String) (index : ℕ)
    (reg : CorrelationRegistry) (event : AnyEvent) :
    Obj.Distinct (registered d draw peer index reg event).2 := by
  have hp : (payloadOf d event).Distinct := by
    unfold payloadOf
    split_ifs
    · exact (event.distinct.set _ (Json.distinct_bool _)).set _ (Json.distinct_bool true)
    · exact event.distinct.set _ (Json.distinct_bool _)
  unfold registered
  split_ifs
  · exact CorrelationRegistry.distinct_register _ _ _ _
      (distinct_stampRegistrationPeer d hp peer) _
  · exact hp

/-- One event of a batch. -/
def admitEvent (d : Deployment) (draw : Draw) (peer : Option String) (runId : Option String)
    (a : Admission) (item : Json × ℕ) : Admission :=
  if maxEventsPerBatch ≤ item.2 then { a with overBatch := a.overBatch + 1 }
  else
    match d.validateEvent item.1 with
    | none => { a with dropped := a.dropped + 1 }
    | some event =>
      let synthetic := event.synthetic || isSyntheticSource d event.dump
      let entry := registered d draw peer item.2 a.correlations event
      let a := { a with
        correlations := entry.1
        counters := { a.counters with
          syntheticBySource := a.counters.syntheticBySource +
            if synthetic && !event.synthetic then 1 else 0
          signalsWithoutPeer := a.counters.signalsWithoutPeer +
            if event.type ∈ ["signal", "trigger"] ∧ peerAddress d event.dump = none then 1 else 0
          correlations := a.counters.correlations +
            if event.type = "correlation" then 1 else 0 } }
      match runId with
      | none => { a with idle := a.idle + 1 }
      | some r =>
        { a with
          accepted := a.accepted ++
            [{ runId := r
               receivedAt := draw.receivedAt
               type := event.type
               app := event.app
               ts := event.ts
               synthetic := synthetic
               payload := entry.2
               distinct := distinct_registered d draw peer item.2 _ event
               synthetic_eq := synthetic_registered d draw peer item.2 _ event }] }

def queueFull (d : Deployment) (s : Collector) : Bool :=
  0 < d.queueMaxsize ∧ d.queueMaxsize ≤ s.queue.length

/-- `queue.put_nowait`: a full queue drops the batch and counts it. -/
def putNowait (d : Deployment) (s : Collector) (items : List QueuedEvent) : Collector × Bool :=
  if queueFull d s then
    ({ s with counters :=
        { s.counters with droppedOverflow := s.counters.droppedOverflow + items.length } }, false)
  else ({ s with queue := s.queue ++ [items] }, true)

/-- The answer of the ingest endpoint. -/
structure Answer where
  accepted : ℕ := 0
  dropped : ℕ := 0
  discardedIdle : ℕ := 0
deriving DecidableEq

/-- The loop of `submit`. -/
def admission (d : Deployment) (draw : Draw) (peer : Option String) (s : Collector)
    (rawEvents : List Json) : Admission :=
  rawEvents.zipIdx.foldl (admitEvent d draw peer s.activeRunId)
    { correlations := s.correlations, counters := s.counters }

def submit (d : Deployment) (draw : Draw) (peer : Option String) (s : Collector)
    (rawEvents : List Json) : Collector × Answer :=
  let a := admission d draw peer s rawEvents
  let s := { s with
    correlations := a.correlations
    counters := { a.counters with
      received := a.counters.received +
        (a.accepted.length + a.dropped + a.idle + a.overBatch)
      droppedInvalid := a.counters.droppedInvalid + a.dropped
      droppedOverBatch := a.counters.droppedOverBatch + a.overBatch
      discardedIdle := a.counters.discardedIdle + a.idle } }
  let put := if a.accepted = [] then (s, false) else putNowait d s a.accepted
  (put.1,
    { accepted := if put.2 then a.accepted.length else 0
      dropped := a.dropped + a.overBatch
      discardedIdle := a.idle })

/-- The queued form of an already validated payload. -/
def payloadItem (draw : Draw) (runId : String) (payload : Obj) (h : payload.Distinct) :
    QueuedEvent where
  runId := runId
  receivedAt := draw.receivedAt
  type := ((payload.get "type").asStr?).getD ""
  app := ((payload.get "app").asStr?).getD ""
  ts := (payload.get "ts").asNum?
  synthetic := (payload.get "synthetic").truthy
  payload := payload
  distinct := h
  synthetic_eq := rfl

/-- `_enqueue_payload` -/
def enqueuePayload (d : Deployment) (draw : Draw) (s : Collector) (payload : Obj)
    (h : payload.Distinct) : Collector :=
  match s.activeRunId with
  | none => { s with counters :=
      { s.counters with discardedIdle := s.counters.discardedIdle + 1 } }
  | some r => (putNowait d s [payloadItem draw r payload h]).1

/-- The registration `register_correlation` makes: the registry and the entry. -/
def registerEntry (d : Deployment) (draw : Draw) (peer : Option String)
    (reg : CorrelationRegistry) (spec : CorrelationCreate) : CorrelationRegistry × Obj :=
  let record := stampRegistrationPeer d (spec.record.set "type" (.str "correlation")) peer
  let record :=
    if isSyntheticSource d spec.record then record.set "synthetic" (.bool true) else record
  reg.register d.clock draw.now (draw.newId 0) record spec.ttl

theorem distinct_registerEntry (d : Deployment) (draw : Draw) (peer : Option String)
    (reg : CorrelationRegistry) (spec : CorrelationCreate) :
    Obj.Distinct (registerEntry d draw peer reg spec).2 := by
  refine CorrelationRegistry.distinct_register _ _ _ _ ?_ _
  have hstamp := distinct_stampRegistrationPeer d
    (spec.distinct.set "type" (Json.distinct_str "correlation")) peer
  split_ifs
  · exact hstamp.set _ (Json.distinct_bool true)
  · exact hstamp

/-- `register_correlation` -/
def registerCorrelation (d : Deployment) (draw : Draw) (peer : Option String) (s : Collector)
    (spec : CorrelationCreate) : Collector :=
  let entry := registerEntry d draw peer s.correlations spec
  enqueuePayload d draw
    { s with
      correlations := entry.1
      counters := { s.counters with
        correlations := s.counters.correlations + 1
        received := s.counters.received + 1 } } entry.2
    (distinct_registerEntry d draw peer s.correlations spec)

/-! ## The writer -/

/-- `_next_seq` for every item of a batch. -/
def assignSeqs (seqs : Dict String ℕ) : List QueuedEvent → Dict String ℕ × List StoredEvent
  | [] => (seqs, [])
  | item :: items =>
    let seq := (seqs.getD item.runId 0) + 1
    let rest := assignSeqs (seqs.set item.runId seq) items
    (rest.1, { item with seq := seq } :: rest.2)

/-- Opportunistic coalescing of queued batches. -/
def coalesce (d : Deployment) (items : List QueuedEvent) :
    List (List QueuedEvent) → List QueuedEvent × List (List QueuedEvent)
  | [] => (items, [])
  | batch :: queue =>
    if (items.length : ℤ) < d.writeBatch then coalesce d (items ++ batch) queue
    else (items, batch :: queue)

theorem coalesce_flatten (d : Deployment) (items : List QueuedEvent) (queue : List (List QueuedEvent)) :
    (coalesce d items queue).1 ++ (coalesce d items queue).2.flatten = items ++ queue.flatten := by
  induction queue generalizing items with
  | nil => simp [coalesce]
  | cons batch queue ih =>
    rw [coalesce]
    split_ifs
    · rw [ih, List.flatten_cons, List.append_assoc]
    · rfl

theorem length_assignSeqs (seqs : Dict String ℕ) (items : List QueuedEvent) :
    (assignSeqs seqs items).2.length = items.length := by
  induction items generalizing seqs with
  | nil => rfl
  | cons item items ih => rw [assignSeqs, List.length_cons, List.length_cons, ih]

theorem map_assignSeqs (seqs : Dict String ℕ) (items : List QueuedEvent) :
    (assignSeqs seqs items).2.map StoredEvent.toQueuedEvent = items := by
  induction items generalizing seqs with
  | nil => rfl
  | cons item items ih => rw [assignSeqs, List.map_cons, ih]

/-- The writer takes a batch off the queue and numbers it; then it waits for the database. -/
def writerTake (d : Deployment) (s : Collector) : Collector :=
  match s.inflight, s.queue with
  | [], batch :: queue =>
    let taken := coalesce d batch queue
    let numbered := assignSeqs s.seqs taken.1
    { s with queue := taken.2, seqs := numbered.1, inflight := numbered.2 }
  | _, _ => s

/-- The transaction of the batch ends: rows and event counts are committed together, or not at
all. -/
def writerDone (committed : Bool) (s : Collector) : Collector :=
  if committed then
    { s with
      rows := s.rows ++ s.inflight
      runs := s.runs.map fun r =>
        { r with eventCount := r.eventCount + s.inflight.countP (·.runId = r.runId) }
      counters := { s.counters with written := s.counters.written + s.inflight.length }
      inflight := [] }
  else
    { s with
      counters := { s.counters with
        droppedWriteError := s.counters.droppedWriteError + s.inflight.length }
      inflight := [] }

/-! ## Runs -/

/-- `_merge_addresses` -/
def mergeAddresses (existing : Dict String Obj) (closing : Option (Dict String Obj)) :
    Option (Dict String Obj) :=
  match closing with
  | none => none
  | some c =>
    if c.items.isEmpty then none
    else some (c.items.foldl (fun merged e => merged.set e.1
      (e.2.foldl (fun record f => record.set f.1 f.2) (merged.getD e.1 []))) existing)

/-- What `_close_run_locked` writes to the row of the run. -/
def closeRow (closing : Option (Dict String Obj)) (now : ℚ) (r : Run) : Run :=
  let merged := mergeAddresses r.addresses closing
  if r.active || merged.isSome then
    { r with
      addresses := merged.getD r.addresses
      active := false
      closedAt := some (r.closedAt.getD now) }
  else r

/-- The database half of `_close_run_locked`. -/
def closeStored (s : Collector) (runId : String) (closing : Option (Dict String Obj)) (now : ℚ) :
    Collector :=
  { s with runs := s.runs.map fun r => if r.runId = runId then closeRow closing now r else r }

/-- The database half of opening a run: a run id that is taken raises, and the lock is released. -/
def insertRun (s : Collector) (run : NewRun) : Collector :=
  if run.runId ∈ s.runs.map Run.runId then { s with lock := .free }
  else { s with runs := s.runs ++ [run.row], lock := .opening run.runId }

/-- `open_run` up to its first wait for the database. -/
def openRun (run : NewRun) (force : Bool) (now : ℚ) (s : Collector) : Collector :=
  match s.lock, s.activeRunId with
  | .free, none => insertRun s run
  | .free, some a =>
    if force then { closeStored s a none now with lock := .closing a (some run) } else s
  | _, _ => s

/-- `close_run` once the queue is flushed, up to its wait for the database. -/
def closeRun (runId : String) (closing : Option (Dict String Obj)) (now : ℚ) (s : Collector) :
    Collector :=
  match s.lock with
  | .free =>
    if runId ∈ s.runs.map Run.runId then
      { closeStored s runId closing now with lock := .closing runId none }
    else s
  | _ => s

/-- The memory half of `_close_run_locked`. -/
def forgetRun (s : Collector) (runId : String) : Collector :=
  if s.activeRunId = some runId then { s with activeRunId := none } else s

/-- The holder of the run lock goes on when the database has answered. -/
def resume (s : Collector) : Collector :=
  match s.lock with
  | .free => s
  | .closing runId none => { forgetRun s runId with lock := .free }
  | .closing runId (some run) => insertRun (forgetRun s runId) run
  | .opening runId =>
    { s with seqs := s.seqs.set runId 0, activeRunId := some runId, lock := .free }

/-- `max(Event.seq)` of a run, `0` without events. -/
def maxSeq (rows : List StoredEvent) (runId : String) : ℕ :=
  ((rows.filter (·.runId = runId)).map StoredEvent.seq).foldl max 0

/-- `_restore_state`: the latest active run, and where its sequence numbers stand. -/
def restoreState (s : Collector) : Collector :=
  match ((s.runs.filter Run.active).insertionSort fun a b => b.startedAt ≤ a.startedAt).head? with
  | none => s
  | some run =>
    { s with
      activeRunId := some run.runId
      seqs := s.seqs.set run.runId (maxSeq s.rows run.runId) }

/-- A new process in front of a database. -/
def start (d : Deployment) (runs : List Run) (rows : List StoredEvent) : Collector :=
  restoreState
    { runs := runs
      rows := rows
      correlations := { ttl := d.correlationTtl, maxEntries := d.correlationMax } }

/-! ## Reading -/

/-- `TYPE_ALIASES.get(event_type, (event_type,))` -/
def typeAliases (type : String) : List String :=
  if type = "signal" ∨ type = "trigger" then ["signal", "trigger"] else [type]

/-- One page of a run, as `get_events` answers it. -/
structure EventsPage where
  nextSeq : Option ℕ
  events : List StoredEvent

/-- `get_events`, once the queue is flushed. -/
def getEvents (rows : List StoredEvent) (runId : String) (type : Option String)
    (afterSeq : Option ℕ) (limit : ℕ) : EventsPage :=
  let found := rows.filter fun e =>
    e.runId = runId && type.all (fun t => e.type ∈ typeAliases t) && afterSeq.all (· < e.seq)
  let events := (found.insertionSort fun a b => a.seq ≤ b.seq).take limit
  { nextSeq := events.getLast?.map StoredEvent.seq, events := events }

end PtaasBench.BenchCollector
