import PtaasBench.Runners.Collector
import PtaasBench.Benchctl.Load

/-!
# PtaasBench.Runners.Export — the export file and the loader

The export writes every event of the run, in order, one a line (`exportEvents_file`).  The loader
reads that file back exactly when it has two lines and its first does not look like an envelope.
-/

namespace PtaasBench.Runners

open Py Lib BenchCollector Benchctl List

/-- The events of a run that an export keeps. -/
def keptEvents (inScope : Option (Obj → Bool)) (rows : List StoredEvent) : List Obj :=
  (rows.map StoredEvent.asDict).filter (isInScope inScope)

/-- The text of a list of events, one a line. -/
def eventLines (events : List Obj) : List Char :=
  jsonLines (events.map fun event => .obj (sortedFields event))

theorem eventLines_append (events events' : List Obj) :
    eventLines (events ++ events') = eventLines events ++ eventLines events' := by
  rw [eventLines, map_append, jsonLines, flatMap_append]
  rfl

theorem keptEvents_append (inScope : Option (Obj → Bool)) (rows rows' : List StoredEvent) :
    keptEvents inScope (rows ++ rows') = keptEvents inScope rows ++ keptEvents inScope rows' := by
  rw [keptEvents, map_append, filter_append]
  rfl

section Export

variable [Runtime] (inScope : Option (Obj → Bool))

theorem seq_exportEvent (x : Export) (event : Obj) :
    (exportEvent inScope x event).seq = seeEvent x.seq event := by
  unfold exportEvent
  dsimp only
  split_ifs <;> rfl

theorem file_exportEvent (x : Export) (event : Obj) :
    (exportEvent inScope x event).file.toList =
      x.file.toList ++ eventLines ([event].filter (isInScope inScope)) := by
  unfold exportEvent
  dsimp only
  split_ifs with hin
  · have hline : (dumps (.obj event) ++ "\n").toList = eventLines [event] := by
      rw [String.toList_append, dumps, String.toList_ofList, sortKeys_obj]
      exact (append_nil _).symm
    rw [filter_cons_of_pos hin, filter_nil, ← hline, ← String.toList_append]
    rfl
  · rw [filter_cons_of_neg hin]
    exact (append_nil _).symm

theorem foldl_exportEvent (events : List Obj) (x : Export) :
    (events.foldl (exportEvent inScope) x).seq = events.foldl seeEvent x.seq ∧
      (events.foldl (exportEvent inScope) x).file.toList =
        x.file.toList ++ eventLines (events.filter (isInScope inScope)) := by
  induction events generalizing x with
  | nil => exact ⟨rfl, (append_nil _).symm⟩
  | cons event events ih =>
    obtain ⟨hseq, hfile⟩ := ih (exportEvent inScope x event)
    refine ⟨by rw [foldl_cons, hseq, seq_exportEvent, foldl_cons], ?_⟩
    rw [foldl_cons, hfile, file_exportEvent, append_assoc, ← eventLines_append,
      ← filter_append]
    rfl

/-- The request for the events of a run after a number. -/
def call (s : Collector) (runId : String) (page : ℕ) (seq : ℤ) : Option PageBody :=
  BenchCollector.exportEvents runId none (some seq) page s

/-- A reader that stands after `read` reads the rest of the run. -/
theorem exportEvents_rest {s : Collector} {runId : String} {page : ℕ}
    (hnum : Numbered StoredEvent.seq (view s.rows runId none))
    (hpage : 1 ≤ page ∧ page ≤ 50000) (hrun : runId ∈ s.runs.map Run.runId) (fuel : ℕ) :
    ∀ (read : List StoredEvent) (x : Export), read <+: view s.rows runId none →
      (view s.rows runId none).length < fuel + read.length →
      x.seq = cursorOf StoredEvent.seq read →
      x.file.toList = eventLines (keptEvents inScope read) →
      ∃ x', exportEvents (call s runId page) inScope page fuel x = some x' ∧
        x'.file.toList = eventLines (keptEvents inScope (view s.rows runId none)) := by
  induction fuel with
  | zero =>
    intro read x hread hfuel
    exact absurd hread.length_le (by omega)
  | succ fuel ih =>
    intro read x hread hfuel hseq hfile
    obtain ⟨body, hbody⟩ := exportEvents_isSome runId none (fun t ht => absurd ht (by simp))
      (some (cursorOf StoredEvent.seq read)) hpage hrun
    obtain ⟨hpos, rfl⟩ := exportEvents_eq runId none hnum _ hbody
    have hcall : call s runId page x.seq = some (pageBody (pageAfter StoredEvent.seq
        (view s.rows runId none) (cursorOf StoredEvent.seq read) page)) := by
      rw [hseq]
      exact hbody
    obtain ⟨hpre, hlast⟩ := read_page hnum hread page
    generalize pageAfter StoredEvent.seq (view s.rows runId none)
      (cursorOf StoredEvent.seq read) page = events at hcall hpre hlast
    have hnum' : Numbered StoredEvent.seq (read ++ events) := hnum.sublist hpre.sublist
    obtain ⟨hseq', hfile'⟩ := foldl_exportEvent inScope (events.map StoredEvent.asDict) x
    rw [hseq, foldl_seeEvent hnum'] at hseq'
    have hkept : (events.map StoredEvent.asDict).filter (isInScope inScope) =
        keptEvents inScope events := rfl
    rw [hfile, hkept, ← eventLines_append, ← keptEvents_append] at hfile'
    rw [exportEvents, hcall]
    dsimp only
    rw [lastPage_pageBody hpos]
    by_cases hlen : events.length < page
    · rw [if_pos (decide_eq_true hlen)]
      refine ⟨_, rfl, ?_⟩
      rw [← hlast hlen]
      exact hfile'
    · rw [if_neg (by simpa using hlen)]
      refine ih (read ++ events) _ hpre ?_ ?_ hfile'
      · rw [length_append]
        omega
      · show seeNext _ (pageBody events).nextSeq = _
        have hfold : (List.foldl (exportEvent inScope) x (pageBody events).events).seq =
            cursorOf StoredEvent.seq (read ++ events) := hseq'
        rw [hfold]
        exact seeNext_pageBody read events

/-- **The export is complete**: every event of the run that is in scope, one a line, in order. -/
theorem exportEvents_file {s : Collector} {runId : String} {page : ℕ}
    (hnum : Numbered StoredEvent.seq (view s.rows runId none))
    (hpage : 1 ≤ page ∧ page ≤ 50000) (hrun : runId ∈ s.runs.map Run.runId) {fuel : ℕ}
    (hfuel : (view s.rows runId none).length < fuel) :
    ∃ x, exportEvents (call s runId page) inScope page fuel {} = some x ∧
      x.file.toList = eventLines (keptEvents inScope (view s.rows runId none)) :=
  exportEvents_rest inScope hnum hpage hrun fuel [] {} List.nil_prefix hfuel rfl rfl

omit [Runtime] in
theorem distinct_keptEvents {rows : List StoredEvent} :
    ∀ event ∈ keptEvents inScope rows, event.Distinct := by
  intro event hevent
  obtain ⟨e, _, rfl⟩ := mem_map.mp (mem_of_mem_filter hevent)
  exact distinct_asDict e

omit [Runtime] in
theorem contains_sortedFields {o : Obj} (h : o.Distinct) (k : String) :
    (sortedFields o).contains k = o.contains k := by
  rw [Obj.contains, get?_sortedFields h, Option.isSome_map, Obj.contains]

/-- **The loader reads an export back** exactly when it has at least two events and the first has
no field `events`. -/
theorem loadEvents_export_iff (d : Deployment) (ops : List Op) (runId : String) (page : ℕ)
    (hpage : 1 ≤ page ∧ page ≤ 50000)
    (hrun : runId ∈ (run d (initial d) ops).runs.map Run.runId) :
    let s := run d (initial d) ops
    let events := keptEvents inScope (view s.rows runId none)
    ∃ n, ∀ fuel, n < fuel →
      ∃ x, exportEvents (call s runId page) inScope page fuel {} = some x ∧
        ((loadEvents x.file).map Prod.fst =
            some (events.map fun event => eventFromDict (sortedFields event)) ↔
          2 ≤ events.length ∧ ∀ event ∈ events.head?, event.contains "events" = false) := by
  intro s events
  refine ⟨(view s.rows runId none).length, fun fuel hfuel => ?_⟩
  obtain ⟨x, hx, hfile⟩ := exportEvents_file inScope (numbered_run d ops runId none) hpage hrun hfuel
  refine ⟨x, hx, ?_⟩
  have hdistinct : ∀ event ∈ events, event.Distinct := distinct_keptEvents inScope
  have htext : x.file = String.ofList (jsonLines ((events.map sortedFields).map Json.obj)) := by
    rw [map_map]
    exact String.toList_injective (hfile.trans String.toList_ofList.symm)
  have hsorted : ∀ o ∈ events.map sortedFields, o.Distinct := by
    intro o ho
    obtain ⟨event, hevent, rfl⟩ := mem_map.mp ho
    exact distinct_sortedFields (hdistinct event hevent)
  have hiff := loadEvents_jsonLines_iff hsorted
  rw [← htext, map_map, length_map, List.head?_map] at hiff
  refine hiff.trans (and_congr_right fun _ => ?_)
  cases hhead : events.head? with
  | none => simp
  | some event =>
    have := hdistinct event (mem_of_head? hhead)
    simp [contains_sortedFields this]

end Export

end PtaasBench.Runners

namespace PtaasBench.Runners.Notes

open Py BenchCollector Benchctl BenchCollector.Notes List

/-- The export of a run of notes. -/
def exported (ops : List Op) (fuel : ℕ) : Option Export :=
  @exportEvents Runtime.ascii (call (run deployment (initial deployment) ops) "r1" 5000) none 5000
    fuel {}

/-- A run with one note: it is exported, and the loader finds no event. -/
theorem one_note_not_loaded :
    (view (run deployment (initial deployment) written).rows "r1" none).length = 1 ∧
      ∃ fuel x, exported written fuel = some x ∧
        (@loadEvents Runtime.ascii x.file).map Prod.fst = some [] := by
  have hone : (view (run deployment (initial deployment) written).rows "r1" none).length = 1 := by
    decide +kernel
  have hplain : ∀ e ∈ view (run deployment (initial deployment) written).rows "r1" none,
      e.asDict.contains "events" = false := by
    decide +kernel
  refine ⟨hone, 2, ?_⟩
  obtain ⟨x, hx, hfile⟩ := @exportEvents_file Runtime.ascii none _ "r1" 5000
    (numbered_run deployment written "r1" none) (by decide) (by decide +kernel) 2 (by rw [hone]; decide)
  obtain ⟨e, he⟩ := length_eq_one_iff.mp hone
  rw [he] at hfile hplain
  have htext : x.file = String.ofList (jsonLines [.obj (sortedFields e.asDict)]) :=
    String.toList_injective (hfile.trans String.toList_ofList.symm)
  refine ⟨x, hx, ?_⟩
  rw [htext]
  refine @loadEvents_one Runtime.ascii _ (distinct_sortedFields (distinct_asDict e)) ?_
  rw [contains_sortedFields (distinct_asDict e)]
  exact hplain e mem_cons_self

theorem two_notes_loaded :
    ∃ fuel x, exported twoNotes fuel = some x ∧
      (@loadEvents Runtime.ascii x.file).map Prod.fst =
        some ((keptEvents none (view (run deployment (initial deployment) twoNotes).rows "r1"
          none)).map fun event => @eventFromDict Runtime.ascii (sortedFields event)) := by
  obtain ⟨n, h⟩ := @loadEvents_export_iff Runtime.ascii none deployment twoNotes "r1" 5000
    (by decide) (by decide +kernel)
  obtain ⟨x, hx, hiff⟩ := h (n + 1) (Nat.lt_succ_self n)
  exact ⟨n + 1, x, hx, hiff.mpr (by decide +kernel)⟩

end PtaasBench.Runners.Notes
