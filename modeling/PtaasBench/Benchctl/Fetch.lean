import PtaasBench.BenchCollector.Reading
import PtaasBench.Benchctl.Load

/-!
# PtaasBench.Benchctl.Fetch — pulling a run from the collector (`events.py`, `fetch_events`)

The fetch is a state machine beside the collector: every `request` is one pass of its loop, and the
collector may do anything between two of them.
-/

namespace PtaasBench.Benchctl

open Py Lib BenchCollector

inductive Phase where
  | reading
  | done
  /-- An error status: `urlopen` raises. -/
  | failed
deriving DecidableEq

structure Fetch where
  after : Option ℤ := none
  items : List Obj := []
  phase : Phase := .reading

/-- `not batch or nxt is None or (after is not None and nxt <= after)` -/
def Fetch.exhausted (f : Fetch) (body : PageBody) : Bool :=
  body.events.isEmpty || body.nextSeq.all fun nxt => f.after.any fun after => nxt ≤ after

/-- One pass of the loop. -/
def Fetch.request (f : Fetch) (response : Option PageBody) : Fetch :=
  match f.phase, response with
  | .reading, none => { f with phase := .failed }
  | .reading, some body =>
    let items := f.items ++ body.events
    if f.exhausted body then { f with items := items, phase := .done }
    else { f with items := items, after := body.nextSeq }
  | _, _ => f

theorem Fetch.request_some {f : Fetch} (hphase : f.phase = .reading) (body : PageBody) :
    f.request (some body) =
      if f.exhausted body then { f with items := f.items ++ body.events, phase := .done }
      else { f with items := f.items ++ body.events, after := body.nextSeq } := by
  obtain ⟨after, items, phase⟩ := f
  subst hphase
  rfl

/-- What the fetch returns. -/
def Fetch.stream [Runtime] (f : Fetch) : EventStream := eventsFromIterable (f.items.map Json.obj)

/-- A collector, and somebody who fetches a run from it. -/
structure Fetching where
  collector : Collector
  fetch : Fetch := {}

inductive Move where
  | collector (op : Op)
  | request

def Move.isRequest : Move → Bool
  | request => true
  | collector _ => false

def Fetching.step (d : Deployment) (runId : String) (limit : ℕ) (m : Fetching) : Move → Fetching
  | .collector op => { m with collector := BenchCollector.step d m.collector op }
  | .request =>
    { m with fetch := m.fetch.request (exportEvents runId none m.fetch.after limit m.collector) }

/-! ## What has been fetched -/

/-- A fetch of a known run has read a first part of it, and stands at its end. -/
structure Follows (d : Deployment) (runId : String) (m : Fetching) : Prop where
  reachable : Reachable d m.collector
  known : runId ∈ m.collector.runs.map Run.runId
  alive : m.fetch.phase ≠ .failed
  read : ∃ read, read <+: view m.collector.rows runId none ∧
    m.fetch.items = read.map StoredEvent.asDict ∧
    (m.fetch.phase = .reading → m.fetch.after =
      if read = [] then none else some (cursorOf StoredEvent.seq read : ℤ))

section Follows

variable {d : Deployment} {runId : String} {limit : ℕ} {m : Fetching}

theorem follows_collector (h : Follows d runId m) (op : Op) :
    Follows d runId (m.step d runId limit (.collector op)) := by
  obtain ⟨read, hread, hitems, hafter⟩ := h.read
  exact ⟨h.reachable.step op, mem_ids_step h.known op, h.alive, read,
    hread.trans (view_mono (rows_prefix_step d _ op) runId none), hitems, hafter⟩

/-- The page a fetch gets when it has read `read`. -/
theorem request_page (h : Follows d runId m) (hlimit : 1 ≤ limit ∧ limit ≤ 50000)
    {read : List StoredEvent} (hafter : m.fetch.after =
      if read = [] then none else some (cursorOf StoredEvent.seq read : ℤ)) :
    exportEvents runId none m.fetch.after limit m.collector =
      some (pageBody (pageAfter StoredEvent.seq (view m.collector.rows runId none)
        (cursorOf StoredEvent.seq read) limit)) := by
  have hnum := h.reachable.numbered runId none
  have hcast : m.fetch.after =
      (if read = [] then none else some (cursorOf StoredEvent.seq read)).map Int.ofNat := by
    rw [hafter]
    split_ifs <;> rfl
  obtain ⟨body, hbody⟩ := exportEvents_isSome runId none (fun t ht => absurd ht (by simp))
    (if read = [] then none else some (cursorOf StoredEvent.seq read)) hlimit h.known
  obtain ⟨-, rfl⟩ := exportEvents_eq runId none hnum _ hbody
  rw [hcast, hbody]
  congr 3
  split_ifs with hnil
  · rw [hnil]
    rfl
  · rfl

/-- A page is the last one when it is empty: its numbers are above the cursor. -/
theorem exhausted_pageBody {read page : List StoredEvent}
    (hnum : Numbered StoredEvent.seq (read ++ page)) (hafter : m.fetch.after =
      if read = [] then none else some (cursorOf StoredEvent.seq read : ℤ)) :
    m.fetch.exhausted (pageBody page) = page.isEmpty := by
  cases page using List.reverseRecOn with
  | nil => rfl
  | append_singleton page e =>
    have hlt : cursorOf StoredEvent.seq read < e.seq :=
      cursorOf_lt hnum (List.mem_append_right _ (List.mem_singleton_self e))
    have hbeyond : (pageBody (page ++ [e])).nextSeq.all
        (fun nxt => m.fetch.after.any fun after => nxt ≤ after) = false := by
      rw [pageBody, hafter]
      split_ifs
      · simp
      · simpa using hlt
    rw [Fetch.exhausted, hbeyond, Bool.or_false, pageBody, List.isEmpty_map]

/-- What a request makes of a page behind what was read. -/
theorem fetch_request (h : Follows d runId m) (hlimit : 1 ≤ limit ∧ limit ≤ 50000)
    (hphase : m.fetch.phase = .reading) {read page : List StoredEvent}
    (hitems : m.fetch.items = read.map StoredEvent.asDict)
    (hafter : m.fetch.after =
      if read = [] then none else some (cursorOf StoredEvent.seq read : ℤ))
    (hpage : pageAfter StoredEvent.seq (view m.collector.rows runId none)
      (cursorOf StoredEvent.seq read) limit = page)
    (hnum : Numbered StoredEvent.seq (read ++ page)) :
    (m.step d runId limit .request).fetch =
      if page.isEmpty then
        { m.fetch with items := (read ++ page).map StoredEvent.asDict, phase := .done }
      else
        { m.fetch with
          items := (read ++ page).map StoredEvent.asDict
          after := (pageBody page).nextSeq } := by
  have hitems' : m.fetch.items ++ (pageBody page).events =
      (read ++ page).map StoredEvent.asDict := by
    rw [hitems, List.map_append]
    rfl
  show m.fetch.request (exportEvents runId none m.fetch.after limit m.collector) = _
  rw [request_page h hlimit hafter, hpage, Fetch.request_some hphase,
    exhausted_pageBody hnum hafter, hitems']

/-- A page that is not empty leaves the cursor at its end. -/
theorem nextSeq_pageBody {read page : List StoredEvent} (hpage : page ≠ []) :
    (pageBody page).nextSeq =
      if read ++ page = [] then none else some (cursorOf StoredEvent.seq (read ++ page) : ℤ) := by
  have hne : read ++ page ≠ [] := fun hnil => hpage (List.append_eq_nil_iff.mp hnil).2
  rw [if_neg hne, cursorOf_append_eq_getLast, pageBody]
  cases hlast : page.getLast? with
  | none => exact absurd (List.getLast?_eq_none_iff.mp hlast) hpage
  | some e => rfl

/-- One request of a fetch that is still reading: everything is read, or at least one more event. -/
theorem follows_request (h : Follows d runId m) (hlimit : 1 ≤ limit ∧ limit ≤ 50000)
    (hphase : m.fetch.phase = .reading) :
    Follows d runId (m.step d runId limit .request) ∧
      ((m.step d runId limit .request).fetch.phase = .done →
        (m.step d runId limit .request).fetch.items =
          (view m.collector.rows runId none).map StoredEvent.asDict) ∧
      ((m.step d runId limit .request).fetch.phase = .reading →
        m.fetch.items.length < (m.step d runId limit .request).fetch.items.length) := by
  obtain ⟨read, hread, hitems, hafter⟩ := h.read
  have hnum := h.reachable.numbered runId none
  obtain ⟨hpre, -⟩ := read_page hnum hread limit
  have hfetch := fetch_request h hlimit hphase hitems (hafter hphase) rfl (hnum.sublist hpre.sublist)
  have hall := fun hpage => read_all_of_pageAfter_nil hnum hread hlimit.1 hpage
  generalize pageAfter StoredEvent.seq (view m.collector.rows runId none)
    (cursorOf StoredEvent.seq read) limit = page at hpre hall hfetch
  cases hempty : page.isEmpty with
  | true =>
    rw [hempty, if_pos rfl] at hfetch
    have hpage : page = [] := List.isEmpty_iff.mp hempty
    have hread' : read = view m.collector.rows runId none := hall hpage
    refine ⟨⟨h.reachable, h.known, by rw [hfetch]; simp, read ++ page, hpre, by rw [hfetch],
      fun hp => by rw [hfetch] at hp; exact absurd hp (by simp)⟩, fun _ => ?_, fun hp => ?_⟩
    · rw [hfetch, hpage, List.append_nil, hread']
    · rw [hfetch] at hp
      exact absurd hp (by simp)
  | false =>
    rw [hempty, if_neg Bool.false_ne_true] at hfetch
    have hpage : page ≠ [] := fun hnil => by simp [hnil] at hempty
    refine ⟨⟨h.reachable, h.known, by rw [hfetch]; exact h.alive, read ++ page, hpre,
      by rw [hfetch], fun _ => ?_⟩, fun hp => ?_, fun _ => ?_⟩
    · rw [hfetch, nextSeq_pageBody hpage]
    · rw [hfetch, hphase] at hp
      exact absurd hp (by simp)
    · have hpos : 0 < page.length := List.length_pos_iff.mpr hpage
      rw [hfetch, hitems, List.length_map, List.length_map, List.length_append]
      omega

theorem request_of_ne (hphase : m.fetch.phase ≠ .reading) :
    m.step d runId limit .request = m := by
  obtain ⟨collector, after, items, phase⟩ := m
  cases phase with
  | reading => exact absurd rfl hphase
  | done => rfl
  | failed => rfl

theorem follows_step (hlimit : 1 ≤ limit ∧ limit ≤ 50000) (h : Follows d runId m) (move : Move) :
    Follows d runId (m.step d runId limit move) := by
  cases move with
  | collector op => exact follows_collector h op
  | request =>
    by_cases hphase : m.fetch.phase = .reading
    · exact (follows_request h hlimit hphase).1
    · rw [request_of_ne hphase]
      exact h

/-- A fetch that goes on reading has got something from every request. -/
theorem progress_step (hlimit : 1 ≤ limit ∧ limit ≤ 50000) (h : Follows d runId m) (move : Move)
    (hphase : (m.step d runId limit move).fetch.phase = .reading) :
    m.fetch.phase = .reading ∧ m.fetch.items.length + (if move.isRequest then 1 else 0) ≤
      (m.step d runId limit move).fetch.items.length := by
  cases move with
  | collector op => exact ⟨hphase, Nat.le_refl _⟩
  | request =>
    by_cases hreading : m.fetch.phase = .reading
    · exact ⟨hreading, (follows_request h hlimit hreading).2.2 hphase⟩
    · rw [request_of_ne hreading] at hphase
      exact absurd hphase hreading

end Follows

/-! ## Whole runs -/

section Runs

variable {d : Deployment} {runId : String} {limit : ℕ} {m : Fetching}

theorem follows_run (hlimit : 1 ≤ limit ∧ limit ≤ 50000) (h : Follows d runId m)
    (moves : List Move) : Follows d runId (Lib.run (Fetching.step d runId limit) m moves) :=
  run_invariant _ h (fun _ move h => follows_step hlimit h move) moves

theorem progress_run (hlimit : 1 ≤ limit ∧ limit ≤ 50000) (h : Follows d runId m)
    (moves : List Move)
    (hphase : (Lib.run (Fetching.step d runId limit) m moves).fetch.phase = .reading) :
    moves.countP Move.isRequest ≤
      (Lib.run (Fetching.step d runId limit) m moves).fetch.items.length := by
  induction moves using List.reverseRecOn with
  | nil => exact Nat.zero_le _
  | append_singleton moves move ih =>
    rw [run_concat] at hphase ⊢
    obtain ⟨hreading, hlen⟩ := progress_step hlimit (follows_run hlimit h moves) move hphase
    have := ih hreading
    rw [List.countP_append, List.countP_singleton]
    omega

end Runs

/-- **Fetching a run is exact.**  The request that ends a fetch leaves it with every event that is
stored then, once and in order; and a fetch ends once it has made more requests than there are
events. -/
theorem fetchEvents_exact [Runtime] (d : Deployment) (before : List Op) (runId : String) (limit : ℕ)
    (hlimit : 1 ≤ limit ∧ limit ≤ 50000)
    (hrun : runId ∈ (run d (initial d) before).runs.map Run.runId) (moves : List Move) :
    let m := Lib.run (Fetching.step d runId limit) { collector := run d (initial d) before } moves
    let m' := m.step d runId limit .request
    let stored := view m.collector.rows runId none
    (m.fetch.phase = .reading → m'.fetch.phase = .done →
      m'.fetch.stream = stored.map (fun e => eventFromDict e.asDict) ∧
        stored.Pairwise fun a b => a.seq < b.seq) ∧
      m.fetch.phase ≠ .failed ∧
      (stored.length < moves.countP Move.isRequest → m.fetch.phase = .done) := by
  intro m m' stored
  have hstart : Follows d runId { collector := run d (initial d) before } := by
    refine ⟨⟨before, rfl⟩, hrun, by simp, [], List.nil_prefix, rfl, fun _ => rfl⟩
  have hfollows : Follows d runId m := follows_run hlimit hstart moves
  refine ⟨fun hreading hdone => ⟨?_, ?_⟩, hfollows.alive, fun hlen => ?_⟩
  · obtain ⟨-, hitems, -⟩ := follows_request hfollows hlimit hreading
    rw [Fetch.stream, hitems hdone, eventsFromIterable_obj, List.map_map]
    rfl
  · exact (hfollows.reachable.numbered runId none).sorted
  · -- still reading, it would have read more events than there are
    obtain ⟨read, hread, hitems, -⟩ := hfollows.read
    cases hphase : m.fetch.phase with
    | done => rfl
    | failed => exact absurd hphase hfollows.alive
    | reading =>
      have hcount : moves.countP Move.isRequest ≤ m.fetch.items.length :=
        progress_run hlimit hstart moves hphase
      have hle : m.fetch.items.length ≤ stored.length := by
        rw [hitems, List.length_map]
        exact hread.length_le
      exact absurd hcount (by omega)

end PtaasBench.Benchctl

namespace PtaasBench.Benchctl.Notes

open Py Lib BenchCollector BenchCollector.Notes

/-- The notes of a run, fetched one at a time. -/
def fetching (moves : List Move) : Fetching :=
  Lib.run (Fetching.step deployment "r1" 1)
    { collector := run deployment (initial deployment) twoNotes } moves

theorem two_notes_fetched :
    (fetching [.request, .request, .request]).fetch.phase = .done ∧
      @Fetch.stream Runtime.ascii (fetching [.request, .request, .request]).fetch =
        (view (fetching []).collector.rows "r1" none).map fun e =>
          @eventFromDict Runtime.ascii e.asDict :=
  ⟨by decide +kernel, ((@fetchEvents_exact Runtime.ascii deployment twoNotes "r1" 1 (by decide)
    (by decide +kernel) [.request, .request]).1 (by decide +kernel) (by decide +kernel)).1⟩

end PtaasBench.Benchctl.Notes
