import PtaasBench.BenchCollector.Sequence
import PtaasBench.Lib.Paging

/-!
# PtaasBench.BenchCollector.Reading — what a reader of a run sees

The rows of a run, of one type or of all, are a list in the sense of `Lib.Paging`: numbered, and
growing only at its end.  A page of the endpoint is a page of that list.
-/

namespace PtaasBench.BenchCollector

open Py Lib

/-- Does a row belong to this run, and to this type if one is asked for? -/
def inView (runId : String) (type : Option String) (e : StoredEvent) : Bool :=
  e.runId = runId && type.all fun t => e.type ∈ typeAliases t

/-- The rows of a run, of one type or of all. -/
def view (rows : List StoredEvent) (runId : String) (type : Option String) : List StoredEvent :=
  rows.filter (inView runId type)

theorem view_mono {rows rows' : List StoredEvent} (h : rows <+: rows') (runId : String)
    (type : Option String) : view rows runId type <+: view rows' runId type :=
  h.filter _

theorem numbered_view {rows : List StoredEvent} (hinc : Increasing rows)
    (hpos : ∀ e ∈ rows, 0 < e.seq) (runId : String) (type : Option String) :
    Numbered StoredEvent.seq (view rows runId type) := by
  have hid : ∀ e ∈ view rows runId type, e.runId = runId := by
    intro e he
    have := (List.mem_filter.mp he).2
    unfold inView at this
    rw [Bool.and_eq_true, decide_eq_true_eq] at this
    exact this.1
  refine ⟨?_, fun e he => hpos e (List.mem_of_mem_filter he)⟩
  refine List.Pairwise.imp_of_mem ?_ (hinc.sublist List.filter_sublist)
  intro a b ha hb hlt
  exact hlt ((hid a ha).trans (hid b hb).symm)

/-- The rows of every run of a collector are numbered. -/
theorem numbered_run (d : Deployment) (ops : List Op) (runId : String) (type : Option String) :
    Numbered StoredEvent.seq (view (run d (initial d) ops).rows runId type) :=
  numbered_view (List.pairwise_append.mp (sequenced_run d ops).increasing).1
    (pos_of_mem_rows d ops) runId type

/-! ## While the collector goes on -/

/-- The collector has come here by its own operations. -/
def Reachable (d : Deployment) (s : Collector) : Prop := ∃ ops, s = run d (initial d) ops

section Going

variable {d : Deployment} {s : Collector}

theorem Reachable.step (h : Reachable d s) (op : Op) : Reachable d (step d s op) := by
  obtain ⟨ops, rfl⟩ := h
  exact ⟨ops ++ [op], (run_concat _ _ ops op).symm⟩

theorem Reachable.numbered (h : Reachable d s) (runId : String) (type : Option String) :
    Numbered StoredEvent.seq (view s.rows runId type) := by
  obtain ⟨ops, rfl⟩ := h
  exact numbered_run d ops runId type

theorem rows_prefix_step (d : Deployment) (s : Collector) (op : Op) :
    s.rows <+: (BenchCollector.step d s op).rows := by
  rw [rows_step]
  exact List.prefix_append _ _

theorem mem_ids_insertRun {runId : String} (h : runId ∈ s.runs.map Run.runId) (run : NewRun) :
    runId ∈ (insertRun s run).runs.map Run.runId := by
  unfold insertRun
  split_ifs
  · exact h
  · rw [List.map_append]
    exact List.mem_append_left _ h

/-- A run that is stored stays stored. -/
theorem mem_ids_step {runId : String} (h : runId ∈ s.runs.map Run.runId) (op : Op) :
    runId ∈ (BenchCollector.step d s op).runs.map Run.runId := by
  cases op with
  | ingestEvents draw peer raw =>
    rw [(takesIn_ingestEvents d draw peer raw s).store.runs]
    exact h
  | postCorrelation draw peer raw =>
    rw [(takesIn_postCorrelation d draw peer raw s).store.runs]
    exact h
  | openRun run force now =>
    rw [step_openRun]
    unfold openRun
    split
    · exact mem_ids_insertRun h run
    · split_ifs
      · rwa [map_runId_closeStored]
      · exact h
    · exact h
  | closeRun id closing now =>
    rw [step_closeRun]
    unfold closeRun
    split
    · split_ifs
      · rwa [map_runId_closeStored]
      · exact h
    · exact h
  | resume =>
    rw [step_resume]
    unfold resume
    split
    · exact h
    · rwa [runs_forgetRun]
    · refine mem_ids_insertRun ?_ _
      rwa [runs_forgetRun]
    · exact h
  | writerTake =>
    rw [BenchCollector.step]
    unfold writerTake
    split <;> exact h
  | writerDone committed =>
    rw [BenchCollector.step, map_runId_writerDone]
    exact h
  | restart =>
    rw [BenchCollector.step, start, (restoreState_runs _).1]
    exact h

end Going

/-! ## Pages -/

/-- Sorting by sequence number changes nothing: rows are stored in that order. -/
theorem insertionSort_numbered {xs : List StoredEvent} (h : Numbered StoredEvent.seq xs) :
    xs.insertionSort (fun a b => a.seq ≤ b.seq) = xs :=
  List.Pairwise.insertionSort_eq (h.sorted.imp le_of_lt)

section Page

variable {rows : List StoredEvent} (runId : String) (type : Option String)

theorem events_getEvents (h : Numbered StoredEvent.seq (view rows runId type))
    (afterSeq : Option ℕ) (limit : ℕ) :
    (getEvents rows runId type afterSeq limit).events =
      pageAfter StoredEvent.seq (view rows runId type) (afterSeq.getD 0) limit := by
  have hfilter : rows.filter (fun e => e.runId = runId &&
      type.all (fun t => e.type ∈ typeAliases t) && afterSeq.all (· < e.seq)) =
      (view rows runId type).filter fun e => afterSeq.getD 0 < e.seq := by
    rw [view, List.filter_filter]
    refine List.filter_congr fun e he => ?_
    cases hv : inView runId type e with
    | false =>
      unfold inView at hv
      rw [hv, Bool.and_false, Bool.false_and]
    | true =>
      have hmem : e ∈ view rows runId type := List.mem_filter.mpr ⟨he, hv⟩
      unfold inView at hv
      rw [hv, Bool.and_true, Bool.true_and]
      cases afterSeq with
      | none => simpa using h.pos e hmem
      | some n => rfl
  show (List.insertionSort (fun a b : StoredEvent => a.seq ≤ b.seq) (List.filter _ rows)).take limit = _
  rw [hfilter, insertionSort_numbered (h.sublist List.filter_sublist), pageAfter]

/-- The body of a page, for a reader that stands at `cursor`. -/
def pageBody (page : List StoredEvent) : PageBody where
  events := page.map StoredEvent.asDict
  nextSeq := page.getLast?.map fun e => (e.seq : ℤ)

theorem exportEvents_eq {s : Collector} (h : Numbered StoredEvent.seq (view s.rows runId type))
    (afterSeq : Option ℕ) {limit : ℕ} {body : PageBody}
    (hbody : exportEvents runId type (afterSeq.map Int.ofNat) limit s = some body) :
    0 < limit ∧ body =
      pageBody (pageAfter StoredEvent.seq (view s.rows runId type) (afterSeq.getD 0) limit) := by
  have hafter : (afterSeq.map Int.ofNat).map Int.toNat = afterSeq := by
    cases afterSeq <;> rfl
  unfold exportEvents at hbody
  split_ifs at hbody with hok
  rw [hafter] at hbody
  refine ⟨hok.2.2.1, ?_⟩
  rw [← Option.some.inj hbody, ← events_getEvents runId type h]
  have hnext : (getEvents s.rows runId type afterSeq limit).nextSeq =
      (getEvents s.rows runId type afterSeq limit).events.getLast?.map StoredEvent.seq := rfl
  rw [pageBody, hnext, Option.map_map]
  rfl

/-- An admitted request for a known run is answered. -/
theorem exportEvents_isSome {s : Collector} (htype : ∀ t ∈ type, t ∈ eventTypes)
    (afterSeq : Option ℕ) {limit : ℕ} (hlimit : 1 ≤ limit ∧ limit ≤ 50000)
    (hrun : runId ∈ s.runs.map Run.runId) :
    ∃ body, exportEvents runId type (afterSeq.map Int.ofNat) limit s = some body := by
  have hafter : ∀ n ∈ afterSeq.map Int.ofNat, 0 ≤ n := by
    intro n hn
    obtain ⟨m, -, rfl⟩ := Option.mem_map.mp hn
    exact Int.natCast_nonneg m
  unfold exportEvents
  rw [if_pos ⟨htype, hafter, hlimit.1, hlimit.2, hrun⟩]
  exact ⟨_, rfl⟩

end Page

end PtaasBench.BenchCollector
