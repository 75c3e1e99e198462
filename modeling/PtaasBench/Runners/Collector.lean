import PtaasBench.BenchCollector.Reading
import PtaasBench.Py.JsonText

/-!
# PtaasBench.Runners.Collector — the client of the collector run lifecycle (`_lib/collector.py`)

The two loops that page through the events of a run.  A response is a page, or `none` when its
status is not ok.
-/

namespace PtaasBench.Runners

open Py Lib BenchCollector

/-- `seq = max(seq, event["seq"])`, if it is a number. -/
def seeEvent (seq : ℤ) (event : Obj) : ℤ :=
  match (event.get "seq").asInt? with
  | some n => max seq n
  | none => seq

/-- `if next_seq: seq = max(seq, int(next_seq))` -/
def seeNext (seq : ℤ) (nextSeq : Option ℤ) : ℤ :=
  match nextSeq with
  | some n => if n = 0 then seq else max seq n
  | none => seq

/-- `not events or len(events) < page` -/
def lastPage (body : PageBody) (page : ℕ) : Bool :=
  body.events.isEmpty || body.events.length < page

/-! ## The cursor -/

theorem seeEvent_asDict (seq : ℤ) (e : StoredEvent) : seeEvent seq e.asDict = max seq e.seq := by
  rw [seeEvent, get_seq_asDict]
  rfl

/-- Reading a page moves the cursor to its end. -/
theorem foldl_seeEvent {read page : List StoredEvent}
    (h : Numbered StoredEvent.seq (read ++ page)) :
    (page.map StoredEvent.asDict).foldl seeEvent (cursorOf StoredEvent.seq read : ℤ) =
      cursorOf StoredEvent.seq (read ++ page) := by
  rw [← foldl_max_cursorOf h]
  generalize cursorOf StoredEvent.seq read = c
  clear h
  induction page generalizing c with
  | nil => rfl
  | cons e page ih =>
    rw [List.map_cons, List.foldl_cons, List.foldl_cons, seeEvent_asDict, ← Nat.cast_max, ih]

/-- The number the server names is the one the client has seen. -/
theorem seeNext_pageBody (read page : List StoredEvent) :
    seeNext (cursorOf StoredEvent.seq (read ++ page)) (pageBody page).nextSeq =
      cursorOf StoredEvent.seq (read ++ page) := by
  rw [cursorOf_append_eq_getLast, pageBody]
  unfold seeNext
  cases page.getLast? with
  | none => rfl
  | some e =>
    dsimp only [Option.map_some, Option.getD_some]
    split_ifs
    · rfl
    · exact max_self _

theorem lastPage_pageBody {page : List StoredEvent} {limit : ℕ} (hlimit : 0 < limit) :
    lastPage (pageBody page) limit = decide (page.length < limit) := by
  rw [lastPage, pageBody]
  cases page with
  | nil => simpa using hlimit
  | cons e page => simp

/-! ## The export -/

/-- `d[k] = d.get(k, 0) + 1` -/
def bump (d : Dict String ℕ) (k : String) : Dict String ℕ := d.set k (d.getD k 0 + 1)

/-- The export so far: the cursor, the two files and the summary. -/
structure Export where
  seq : ℤ := 0
  file : String := ""
  outOfScopeFile : String := ""
  kept : ℕ := 0
  dropped : ℕ := 0
  byType : Dict String ℕ := Dict.empty
  byApp : Dict String ℕ := Dict.empty
  requestsByApp : Dict String ℕ := Dict.empty

section Export

variable [Runtime]

/-- `str(event.get("type", "unknown"))` -/
def kindOf (event : Obj) : String :=
  match event.get? "type" with
  | some x => x.pyStr
  | none => "unknown"

/-- `str(event.get("app") or "")` -/
def appOf (event : Obj) : String := ((event.get "app").orElse (.str "")).pyStr

/-- What the summary counts of an event that is kept. -/
def tally (x : Export) (event : Obj) : Export :=
  let app := appOf event
  { x with
    kept := x.kept + 1
    byType := bump x.byType (kindOf event)
    byApp := if app = "" then x.byApp else bump x.byApp app
    requestsByApp :=
      if app ≠ "" ∧ kindOf event = "http_request" ∧ (event.get "synthetic").truthy = false then
        bump x.requestsByApp app
      else x.requestsByApp }

/-- `in_scope is None or in_scope(event)` -/
def isInScope (inScope : Option (Obj → Bool)) (event : Obj) : Bool := inScope.all fun f => f event

/-- One event of a page. -/
def exportEvent (inScope : Option (Obj → Bool)) (x : Export) (event : Obj) : Export :=
  let line := dumps (.obj event) ++ "\n"
  let x := { x with seq := seeEvent x.seq event }
  if isInScope inScope event then tally { x with file := x.file ++ line } event
  else { x with dropped := x.dropped + 1, outOfScopeFile := x.outOfScopeFile ++ line }

/-- `export_events`: `call` answers the request for the events after a number. -/
def exportEvents (call : ℤ → Option PageBody) (inScope : Option (Obj → Bool)) (page : ℕ) :
    ℕ → Export → Option Export
  | 0, _ => none
  | fuel + 1, x =>
    match call x.seq with
    | none => some x
    | some body =>
      let x := body.events.foldl (exportEvent inScope) x
      let x := { x with seq := seeNext x.seq body.nextSeq }
      if lastPage body page then some x else exportEvents call inScope page fuel x

end Export

/-! ## The request budget -/

/-- The state of the client: cursor and count of every run it has polled. -/
structure CollectorClient where
  seqCursor : Dict String ℤ := Dict.empty
  requestCounts : Dict String ℕ := Dict.empty

/-- A call of `count_http_requests` between two requests. -/
structure Poll where
  runId : String
  page : ℕ
  seq : ℤ
  total : ℕ

/-- The call before its first request. -/
def CollectorClient.beginPoll (c : CollectorClient) (runId : String) (page : ℕ) : Poll where
  runId := runId
  page := page
  seq := c.seqCursor.getD runId 0
  total := c.requestCounts.getD runId 0

/-- What the call leaves behind when it ends. -/
def CollectorClient.save (c : CollectorClient) (p : Poll) : CollectorClient where
  seqCursor := c.seqCursor.set p.runId p.seq
  requestCounts := c.requestCounts.set p.runId p.total

/-- `sum(1 for ev in events if not ev.get("synthetic"))` -/
def organic (events : List Obj) : ℕ := events.countP fun ev => !(ev.get "synthetic").truthy

/-- A page is counted. -/
def Poll.count (p : Poll) (body : PageBody) : Poll :=
  { p with
    total := p.total + organic body.events
    seq := seeNext (body.events.foldl seeEvent p.seq) body.nextSeq }

/-- One pass of the loop of `count_http_requests`: the call, and whether it ends. -/
def Poll.request (p : Poll) (response : Option PageBody) : Poll × Bool :=
  match response with
  | none => (p, true)
  | some body => (p.count body, lastPage body p.page)

end PtaasBench.Runners
