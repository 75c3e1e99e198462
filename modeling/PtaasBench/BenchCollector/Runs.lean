import PtaasBench.BenchCollector.App

/-!
# PtaasBench.BenchCollector.Runs — which run is active, on disk and in memory

Both places are written separately.  While nobody holds the run lock they agree; while somebody
does, they differ by what its holder still has to do (`StoreMatches`).
-/

namespace PtaasBench.BenchCollector

open Py Lib List

/-- The ids of the stored runs with status active. -/
def activeIds (runs : List Run) : List String := (runs.filter Run.active).map Run.runId

/-- The active run once `runId` is closed. -/
def activeAfter (active : Option String) (runId : String) : Option String :=
  if active = some runId then none else active

/-- What the process remembers of the active run, against what is stored. -/
def StoreMatches (s : Collector) : Prop :=
  match s.lock with
  | .free => activeIds s.runs = s.activeRunId.toList
  | .closing runId next =>
    activeIds s.runs = (activeAfter s.activeRunId runId).toList ∧
      (next ≠ none → s.activeRunId = some runId)
  | .opening runId => activeIds s.runs = [runId] ∧ s.activeRunId = none

structure RunInvariant (s : Collector) : Prop where
  ids_nodup : (s.runs.map Run.runId).Nodup
  store : StoreMatches s

/-! ## What each write does to the active runs -/

theorem runId_closeRow (closing : Option (Dict String Obj)) (now : ℚ) (r : Run) :
    (closeRow closing now r).runId = r.runId := by
  unfold closeRow
  dsimp only
  split_ifs <;> rfl

theorem active_closeRow (closing : Option (Dict String Obj)) (now : ℚ) (r : Run) :
    (closeRow closing now r).active = false := by
  unfold closeRow
  dsimp only
  split_ifs with h
  · rfl
  · rw [Bool.or_eq_true, not_or] at h
    simpa using h.1

theorem map_runId_closeStored (s : Collector) (runId : String)
    (closing : Option (Dict String Obj)) (now : ℚ) :
    (closeStored s runId closing now).runs.map Run.runId = s.runs.map Run.runId := by
  rw [closeStored, map_map]
  refine map_congr_left fun r _ => ?_
  rw [Function.comp_apply]
  split_ifs
  · exact runId_closeRow closing now r
  · rfl

theorem activeIds_closeStored (s : Collector) (runId : String)
    (closing : Option (Dict String Obj)) (now : ℚ) :
    activeIds (closeStored s runId closing now).runs =
      (activeIds s.runs).filter (· ≠ runId) := by
  rw [closeStored]
  induction s.runs with
  | nil => rfl
  | cons r runs ih =>
    rw [activeIds] at ih ⊢
    rw [activeIds] at ih ⊢
    by_cases hid : r.runId = runId
    · have hrow := active_closeRow closing now r
      rw [map_cons, if_pos hid, filter_cons_of_neg (by simp [hrow]), ih]
      cases hr : r.active <;> simp [hr, hid]
    · rw [map_cons, if_neg hid]
      cases hr : r.active <;> simp [hr, hid, ih]

theorem filter_toList (active : Option String) (runId : String) :
    active.toList.filter (· ≠ runId) = (activeAfter active runId).toList := by
  unfold activeAfter
  cases active with
  | none => rfl
  | some a => by_cases ha : a = runId <;> simp [ha]

theorem runs_forgetRun (s : Collector) (runId : String) : (forgetRun s runId).runs = s.runs := by
  unfold forgetRun
  split_ifs <;> rfl

theorem activeRunId_forgetRun (s : Collector) (runId : String) :
    (forgetRun s runId).activeRunId = activeAfter s.activeRunId runId := by
  unfold forgetRun activeAfter
  split_ifs <;> rfl

theorem activeIds_append (runs : List Run) (run : NewRun) :
    activeIds (runs ++ [run.row]) = activeIds runs ++ [run.runId] := by
  simp [activeIds, NewRun.row]

/-- A write of event counts. -/
theorem activeIds_writerDone (committed : Bool) (s : Collector) :
    activeIds (writerDone committed s).runs = activeIds s.runs := by
  unfold writerDone activeIds
  split_ifs
  · simp [filter_map, Function.comp_def]
  · rfl

theorem map_runId_writerDone (committed : Bool) (s : Collector) :
    (writerDone committed s).runs.map Run.runId = s.runs.map Run.runId := by
  unfold writerDone
  split_ifs
  · simp [Function.comp_def]
  · rfl

/-! ## The invariant, operation by operation -/

theorem RunInvariant.of_same {s s' : Collector} (h : RunInvariant s)
    (hruns : activeIds s'.runs = activeIds s.runs)
    (hids : s'.runs.map Run.runId = s.runs.map Run.runId)
    (hactive : s'.activeRunId = s.activeRunId) (hlock : s'.lock = s.lock) : RunInvariant s' := by
  refine ⟨by rw [hids]; exact h.ids_nodup, ?_⟩
  have := h.store
  unfold StoreMatches at this ⊢
  rw [hlock, hruns, hactive]
  exact this

theorem runInvariant_of_sameStore {s s' : Collector} (h : RunInvariant s) (hs : SameStore s s') :
    RunInvariant s' :=
  h.of_same (by rw [hs.runs]) (by rw [hs.runs]) hs.activeRunId hs.lock

/-- Storing a new run when no run is active. -/
theorem runInvariant_insertRun {s : Collector} (run : NewRun)
    (hids : (s.runs.map Run.runId).Nodup) (hstore : activeIds s.runs = [])
    (hactive : s.activeRunId = none) : RunInvariant (insertRun s run) := by
  unfold insertRun
  split_ifs with hmem
  · refine ⟨hids, ?_⟩
    show activeIds s.runs = s.activeRunId.toList
    rw [hstore, hactive]
    rfl
  · refine ⟨?_, ?_, hactive⟩
    · show ((s.runs ++ [run.row]).map Run.runId).Nodup
      rw [map_append, nodup_append]
      refine ⟨hids, by simp, ?_⟩
      rintro a ha b hb rfl
      rw [map_singleton, mem_singleton] at hb
      rw [hb] at ha
      exact hmem ha
    · rw [activeIds_append, hstore]
      rfl

theorem runInvariant_openRun {s : Collector} (h : RunInvariant s) (run : NewRun) (force : Bool)
    (now : ℚ) : RunInvariant (openRun run force now s) := by
  have hstore := h.store
  unfold StoreMatches at hstore
  unfold openRun
  split
  · rename_i hlock hactive
    rw [hlock, hactive] at hstore
    exact runInvariant_insertRun run h.ids_nodup hstore hactive
  · rename_i a hlock hactive
    rw [hlock, hactive] at hstore
    split_ifs
    · refine ⟨by rw [map_runId_closeStored]; exact h.ids_nodup, ?_, fun _ => hactive⟩
      show activeIds (closeStored s a none now).runs = (activeAfter s.activeRunId a).toList
      rw [activeIds_closeStored, hstore, hactive]
      simp [activeAfter]
    · exact h
  · exact h

theorem runInvariant_closeRun {s : Collector} (h : RunInvariant s) (runId : String)
    (closing : Option (Dict String Obj)) (now : ℚ) :
    RunInvariant (closeRun runId closing now s) := by
  have hstore := h.store
  unfold StoreMatches at hstore
  unfold closeRun
  split
  · rename_i hlock
    rw [hlock] at hstore
    split_ifs
    · refine ⟨by rw [map_runId_closeStored]; exact h.ids_nodup, ?_, fun hn => absurd rfl hn⟩
      show activeIds (closeStored s runId closing now).runs =
        (activeAfter s.activeRunId runId).toList
      rw [activeIds_closeStored, hstore, filter_toList]
    · exact h
  · exact h

theorem runInvariant_resume {s : Collector} (h : RunInvariant s) : RunInvariant (resume s) := by
  have hstore := h.store
  unfold StoreMatches at hstore
  unfold resume
  split
  · exact h
  · rename_i runId hlock
    rw [hlock] at hstore
    refine ⟨by rw [runs_forgetRun]; exact h.ids_nodup, ?_⟩
    show activeIds (forgetRun s runId).runs = (forgetRun s runId).activeRunId.toList
    rw [runs_forgetRun, activeRunId_forgetRun, hstore.1]
  · rename_i runId run hlock
    rw [hlock] at hstore
    have hsome := hstore.2 (by simp)
    have hnone : activeAfter s.activeRunId runId = none := by rw [activeAfter, if_pos hsome]
    refine runInvariant_insertRun run (by rw [runs_forgetRun]; exact h.ids_nodup) ?_ ?_
    · rw [runs_forgetRun, hstore.1, hnone]
      rfl
    · rw [activeRunId_forgetRun, hnone]
  · rename_i runId hlock
    rw [hlock] at hstore
    exact ⟨h.ids_nodup, hstore.1⟩

/-- At most one run is stored as active, whoever holds the lock. -/
theorem RunInvariant.activeIds_le {s : Collector} (h : RunInvariant s) :
    (activeIds s.runs).length ≤ 1 := by
  have hstore := h.store
  unfold StoreMatches at hstore
  split at hstore
  · rw [hstore]
    cases s.activeRunId <;> simp
  · rw [hstore.1]
    cases activeAfter s.activeRunId _ <;> simp
  · rw [hstore.1]
    rfl

theorem restoreState_runs (s : Collector) :
    (restoreState s).runs = s.runs ∧ (restoreState s).lock = s.lock := by
  unfold restoreState
  split <;> exact ⟨rfl, rfl⟩

theorem runInvariant_start (d : Deployment) {s : Collector} (h : RunInvariant s) :
    RunInvariant (start d s.runs s.rows) := by
  obtain ⟨hruns, hlock⟩ := restoreState_runs { runs := s.runs, rows := s.rows, correlations :=
    { ttl := d.correlationTtl, maxEntries := d.correlationMax } }
  refine ⟨by rw [start, hruns]; exact h.ids_nodup, ?_⟩
  unfold StoreMatches start
  rw [hlock, hruns]
  show activeIds s.runs = _
  unfold restoreState
  have hle := h.activeIds_le
  rw [activeIds, length_map] at hle
  rw [activeIds]
  rcases hact : s.runs.filter Run.active with _ | ⟨r, _ | ⟨r', rs⟩⟩
  · rfl
  · rfl
  · rw [hact] at hle
    simp at hle

theorem runInvariant_step (d : Deployment) (s : Collector) (op : Op) (h : RunInvariant s) :
    RunInvariant (step d s op) := by
  cases op with
  | ingestEvents draw peer raw =>
    exact runInvariant_of_sameStore h (sameStore_ingestEvents d draw peer raw s)
  | postCorrelation draw peer raw =>
    exact runInvariant_of_sameStore h (sameStore_postCorrelation d draw peer raw s)
  | openRun run force now => exact runInvariant_openRun h run force now
  | closeRun runId closing now => exact runInvariant_closeRun h runId closing now
  | resume => exact runInvariant_resume h
  | writerTake =>
    show RunInvariant (writerTake d s)
    unfold writerTake
    split
    · exact h.of_same rfl rfl rfl rfl
    · exact h
  | writerDone committed =>
    show RunInvariant (writerDone committed s)
    refine h.of_same (activeIds_writerDone committed s) (map_runId_writerDone committed s) ?_ ?_ <;>
      (unfold writerDone; split_ifs <;> rfl)
  | restart => exact runInvariant_start d h

theorem runInvariant_initial (d : Deployment) : RunInvariant (initial d) :=
  ⟨nodup_nil, rfl⟩

theorem runInvariant_run (d : Deployment) (ops : List Op) :
    RunInvariant (run d (initial d) ops) :=
  run_invariant _ (runInvariant_initial d) (runInvariant_step d) ops

/-! ## Whole operations -/

section Whole

variable {s : Collector}

/-- The row of the active run is active. -/
theorem RunInvariant.active_of_mem (h : RunInvariant s) (hlock : s.lock = .free) {a : String}
    (ha : s.activeRunId = some a) {r : Run} (hr : r ∈ s.runs) (hid : r.runId = a) :
    r.active = true := by
  have hstore := h.store
  unfold StoreMatches at hstore
  rw [hlock] at hstore
  have hmem : a ∈ activeIds s.runs := by
    rw [hstore, ha]
    exact mem_singleton_self a
  rw [activeIds, mem_map] at hmem
  obtain ⟨r', hr', hid'⟩ := hmem
  obtain ⟨hr', hact⟩ := mem_filter.mp hr'
  rw [inj_on_of_nodup_map h.ids_nodup hr hr' (hid.trans hid'.symm)]
  exact hact

/-- The database half of closing the active run leaves it inactive and dated. -/
theorem closed_closeStored (h : RunInvariant s) (hlock : s.lock = .free) {a : String}
    (ha : s.activeRunId = some a) (now : ℚ) :
    ∀ r ∈ (closeStored s a none now).runs, r.runId = a → r.active = false ∧ r.closedAt.isSome := by
  intro r hr hid
  rw [closeStored, mem_map] at hr
  obtain ⟨r', hr', rfl⟩ := hr
  split_ifs at hid ⊢ with hid'
  · have hact := h.active_of_mem hlock ha hr' hid'
    refine ⟨active_closeRow none now r', ?_⟩
    simp [closeRow, hact]
  · exact absurd hid hid'

/-- A forced open, start to end. -/
theorem forcedOpen_spec (d : Deployment) (h : RunInvariant s) (hlock : s.lock = .free)
    {a : String} (ha : s.activeRunId = some a) (run : NewRun) (now : ℚ) :
    let s' := Lib.run (step d) s [.openRun run true now, .resume, .resume]
    s'.lock = .free ∧ (∀ r ∈ s'.runs, r.runId = a → r.active = false ∧ r.closedAt.isSome) ∧
      s'.activeRunId = if run.runId ∈ s.runs.map Run.runId then none else some run.runId := by
  have hopen : step d s (.openRun run true now) =
      { closeStored s a none now with lock := .closing a (some run) } := by
    rw [step_openRun]
    unfold openRun
    rw [hlock, ha]
    rfl
  have hclosed := closed_closeStored h hlock ha now
  have hids := map_runId_closeStored s a none now
  have hresume : step d { closeStored s a none now with lock := .closing a (some run) } .resume =
      insertRun { closeStored s a none now with
        activeRunId := none, lock := .closing a (some run) } run := by
    rw [step_resume]
    unfold resume forgetRun
    dsimp only
    rw [if_pos (show (closeStored s a none now).activeRunId = some a from ha)]
  rw [run_cons, hopen, run_cons, hresume, run_cons, run_nil]
  by_cases hmem : run.runId ∈ s.runs.map Run.runId
  · have hins : run.runId ∈ (closeStored s a none now).runs.map Run.runId := by rwa [hids]
    unfold insertRun
    rw [if_pos (show run.runId ∈ (Collector.runs _).map Run.runId from hins), if_pos hmem]
    exact ⟨rfl, hclosed, rfl⟩
  · have hins : run.runId ∉ (closeStored s a none now).runs.map Run.runId := by rwa [hids]
    unfold insertRun
    rw [if_neg (show run.runId ∉ (Collector.runs _).map Run.runId from hins), if_neg hmem]
    refine ⟨rfl, fun r hr hid => ?_, rfl⟩
    rcases mem_append.mp (show r ∈ (closeStored s a none now).runs ++ [run.row] from hr)
      with hr | hr
    · exact hclosed r hr hid
    · -- the new run has an id of its own
      rw [mem_singleton] at hr
      have hact : a ∈ activeIds s.runs := by
        have hstore := h.store
        unfold StoreMatches at hstore
        rw [hlock] at hstore
        rw [hstore, ha]
        exact mem_singleton_self a
      rw [activeIds, mem_map] at hact
      obtain ⟨r', hr', hid'⟩ := hact
      refine absurd (mem_map.mpr ⟨r', mem_of_mem_filter hr', ?_⟩) hmem
      rw [hid', ← hid, hr]
      rfl

/-- Closing a run that is not active, start to end. -/
theorem closeOther_spec (d : Deployment) (h : RunInvariant s) (hlock : s.lock = .free)
    {runId : String} (hne : s.activeRunId ≠ some runId) (closing : Option (Dict String Obj))
    (now : ℚ) :
    let s' := Lib.run (step d) s [.closeRun runId closing now, .resume]
    s'.lock = .free ∧ s'.activeRunId = s.activeRunId ∧ activeIds s'.runs = activeIds s.runs := by
  have hstore := h.store
  unfold StoreMatches at hstore
  rw [hlock] at hstore
  have hclose : step d s (.closeRun runId closing now) =
      if runId ∈ s.runs.map Run.runId then
        { closeStored s runId closing now with lock := .closing runId none } else s := by
    rw [step_closeRun]
    unfold closeRun
    rw [hlock]
  rw [run_cons, hclose, run_cons, run_nil]
  split_ifs with hmem
  · rw [step_resume]
    unfold resume forgetRun
    dsimp only
    rw [if_neg (show (closeStored s runId closing now).activeRunId ≠ some runId from hne)]
    refine ⟨rfl, rfl, ?_⟩
    show activeIds (closeStored s runId closing now).runs = _
    rw [activeIds_closeStored, hstore, filter_toList, activeAfter, if_neg hne]
  · rw [step_resume]
    unfold resume
    rw [hlock]
    exact ⟨hlock, rfl, rfl⟩

end Whole

/-- **One active run**: in every state of every run, restarts at any point included, at most one
run is stored as active; while nobody holds the run lock, memory names it; a forced open closes the
run before it; and closing another run leaves the active one. -/
theorem run_oneActive (d : Deployment) (ops : List Op) :
    let s := run d (initial d) ops
    (activeIds s.runs).length ≤ 1 ∧
    (s.lock = .free → activeIds s.runs = s.activeRunId.toList) ∧
    (∀ a newRun now, s.lock = .free → s.activeRunId = some a →
      let s' := run d s [.openRun newRun true now, .resume, .resume]
      s'.lock = .free ∧ (∀ r ∈ s'.runs, r.runId = a → r.active = false ∧ r.closedAt.isSome) ∧
        s'.activeRunId =
          if newRun.runId ∈ s.runs.map Run.runId then none else some newRun.runId) ∧
    (∀ runId closing now, s.lock = .free → s.activeRunId ≠ some runId →
      let s' := run d s [.closeRun runId closing now, .resume]
      s'.lock = .free ∧ s'.activeRunId = s.activeRunId ∧ activeIds s'.runs = activeIds s.runs) := by
  intro s
  have h : RunInvariant s := runInvariant_run d ops
  refine ⟨h.activeIds_le, fun hlock => ?_, fun a newRun now hlock ha =>
    forcedOpen_spec d h hlock ha newRun now, fun runId closing now hlock hne =>
    closeOther_spec d h hlock hne closing now⟩
  have hstore := h.store
  unfold StoreMatches at hstore
  rwa [hlock] at hstore

end PtaasBench.BenchCollector

namespace PtaasBench.BenchCollector.Notes

/-- A second run forced open closes the first. -/
theorem force_second_run :
    (run deployment (run deployment (initial deployment) openFirst)
      [.openRun { runId := "r2", startedAt := 2 } true 2, .resume, .resume]).activeRunId =
        some "r2" :=
  ((run_oneActive deployment openFirst).2.2.1 "r1" { runId := "r2", startedAt := 2 } 2 rfl rfl).2.2

end PtaasBench.BenchCollector.Notes
