import PtaasBench.BenchCollector.Runs
import PtaasBench.Lib.Fold

/-!
# PtaasBench.BenchCollector.Sequence — sequence numbers and event counts

The rows of a run, and those on their way to the database after them, carry strictly increasing
sequence numbers; the counter of every run that can still get events stands at or above them
(`Sequenced`).  So rows are only ever appended, with larger numbers.
-/

namespace PtaasBench.BenchCollector

open Py Lib List

/-! ## Taking events in -/

/-- What an intake operation does with the events it accepts. -/
structure TakesIn (d : Deployment) (s s' : Collector) (items : List QueuedEvent) : Prop where
  store : SameStore s s'
  queue : s'.queue.flatten = s.queue.flatten ++ if queueFull d s then [] else items
  overflow : s'.counters.droppedOverflow =
    s.counters.droppedOverflow + if queueFull d s then items.length else 0
  writeError : s'.counters.droppedWriteError = s.counters.droppedWriteError
  written : s'.counters.written = s.counters.written

section Intake

variable (d : Deployment)

theorem takesIn_nil (s : Collector) : TakesIn d s s [] := by
  refine ⟨SameStore.refl s, ?_, ?_, rfl, rfl⟩ <;> split_ifs <;> simp

theorem takesIn_putNowait (s : Collector) (items : List QueuedEvent) :
    TakesIn d s (putNowait d s items).1 items := by
  refine ⟨sameStore_putNowait d s items, ?_, ?_, ?_, ?_⟩ <;> unfold putNowait <;>
    split_ifs <;> simp

/-- Only what the queue and three counters hold matters to an intake. -/
theorem TakesIn.of_eq {s s1 s' : Collector} {items : List QueuedEvent} (h : TakesIn d s1 s' items)
    (hs : SameStore s s1) (hqueue : s1.queue = s.queue)
    (hoverflow : s1.counters.droppedOverflow = s.counters.droppedOverflow)
    (herror : s1.counters.droppedWriteError = s.counters.droppedWriteError)
    (hwritten : s1.counters.written = s.counters.written) : TakesIn d s s' items := by
  have hfull : queueFull d s1 = queueFull d s := by rw [queueFull, queueFull, hqueue]
  obtain ⟨⟨h1, h2, h3, h4, h5, h6⟩, hq, ho, he, hw⟩ := h
  obtain ⟨g1, g2, g3, g4, g5, g6⟩ := hs
  refine ⟨⟨h1.trans g1, h2.trans g2, h3.trans g3, h4.trans g4, h5.trans g5, h6.trans g6⟩, ?_, ?_,
    he.trans herror, hw.trans hwritten⟩
  · rw [hq, hqueue, hfull]
  · rw [ho, hoverflow, hfull]

theorem admitEvent_drops (draw : Draw) (peer runId : Option String) (a : Admission)
    (item : Json × ℕ) :
    ((admitEvent d draw peer runId a item).counters.droppedOverflow,
      (admitEvent d draw peer runId a item).counters.droppedWriteError,
      (admitEvent d draw peer runId a item).counters.written) =
    (a.counters.droppedOverflow, a.counters.droppedWriteError, a.counters.written) := by
  unfold admitEvent
  split_ifs
  · rfl
  · split
    · rfl
    · cases runId <;> rfl

theorem takesIn_submit (draw : Draw) (peer : Option String) (s : Collector)
    (events : List Json) :
    TakesIn d s (submit d draw peer s events).1 (admission d draw peer s events).accepted := by
  have hdrops := foldl_frame (fun a : Admission => (a.counters.droppedOverflow,
    a.counters.droppedWriteError, a.counters.written)) (admitEvent_drops d draw peer s.activeRunId)
    events.zipIdx { correlations := s.correlations, counters := s.counters }
  simp only [Prod.mk.injEq] at hdrops
  obtain ⟨hoverflow, herror, hwritten⟩ := hdrops
  simp only [submit]
  split_ifs with hempty
  · rw [hempty]
    exact (takesIn_nil d _).of_eq d ⟨rfl, rfl, rfl, rfl, rfl, rfl⟩ rfl hoverflow herror hwritten
  · exact (takesIn_putNowait d _ _).of_eq d ⟨rfl, rfl, rfl, rfl, rfl, rfl⟩ rfl hoverflow herror
      hwritten

theorem takesIn_ingestEvents (draw : Draw) (peer : Option String) (raw : List UInt8)
    (s : Collector) :
    TakesIn d s (step d s (.ingestEvents draw peer raw))
      (intake d s (.ingestEvents draw peer raw)) := by
  rw [step, intake]
  cases hb : batchOf d raw with
  | none =>
    rw [ingestEvents_none d hb]
    exact (takesIn_nil d _).of_eq d ⟨rfl, rfl, rfl, rfl, rfl, rfl⟩ rfl rfl rfl rfl
  | some events =>
    rw [ingestEvents_some d hb]
    exact takesIn_submit d draw peer s events

theorem takesIn_enqueuePayload (draw : Draw) (s : Collector) (payload : Obj)
    (h : payload.Distinct) :
    TakesIn d s (enqueuePayload d draw s payload h)
      (s.activeRunId.toList.map fun r => payloadItem draw r payload h) := by
  unfold enqueuePayload
  split
  · rename_i hactive
    rw [hactive]
    exact (takesIn_nil d _).of_eq d ⟨rfl, rfl, hactive.symm, rfl, rfl, rfl⟩ rfl rfl rfl rfl
  · rename_i r hactive
    rw [hactive]
    exact takesIn_putNowait d s _

theorem takesIn_postCorrelation (draw : Draw) (peer : Option String) (raw : List UInt8)
    (s : Collector) :
    TakesIn d s (step d s (.postCorrelation draw peer raw))
      (intake d s (.postCorrelation draw peer raw)) := by
  rw [step, intake]
  cases hv : d.validateCorrelation raw with
  | none =>
    rw [postCorrelation_none d hv]
    exact (takesIn_nil d _).of_eq d ⟨rfl, rfl, rfl, rfl, rfl, rfl⟩ rfl rfl rfl rfl
  | some spec =>
    unfold postCorrelation
    rw [hv]
    dsimp only
    split_ifs
    · exact (takesIn_nil d _).of_eq d ⟨rfl, rfl, rfl, rfl, rfl, rfl⟩ rfl rfl rfl rfl
    · exact (takesIn_enqueuePayload d draw _ _ _).of_eq d ⟨rfl, rfl, rfl, rfl, rfl, rfl⟩ rfl rfl rfl
        rfl

/-- What is accepted is of the run that is active. -/
theorem runId_of_mem_intake (s : Collector) (op : Op) :
    ∀ e ∈ intake d s op, s.activeRunId = some e.runId := by
  cases op with
  | ingestEvents draw peer raw =>
    rw [intake]
    cases batchOf d raw with
    | none => exact fun e he => absurd he (by simp)
    | some events =>
      refine foldl_invariant (P := fun a : Admission =>
        ∀ e ∈ a.accepted, s.activeRunId = some e.runId) (fun a item h => ?_) events.zipIdx
        fun e he => absurd he (by simp)
      unfold admitEvent
      split_ifs
      · exact h
      · split
        · exact h
        · cases hactive : s.activeRunId with
          | none =>
            rw [hactive] at h
            exact h
          | some r =>
            rw [hactive] at h
            intro e he
            rcases mem_append.mp he with he | he
            · exact h e he
            · rw [mem_singleton.mp he]
  | postCorrelation draw peer raw =>
    rw [intake]
    cases d.validateCorrelation raw with
    | none => exact fun e he => absurd he (by simp)
    | some spec =>
      intro e he
      dsimp only at he
      split_ifs at he
      · exact absurd he (by simp)
      · obtain ⟨r, hr, rfl⟩ := mem_map.mp he
        exact Option.mem_toList.mp hr
  | _ => exact fun e he => absurd he (by simp [intake])

end Intake

/-! ## Numbering a batch -/

/-- Later rows of a run have larger sequence numbers. -/
def Increasing (rows : List StoredEvent) : Prop :=
  rows.Pairwise fun a b => a.runId = b.runId → a.seq < b.seq

/-- The counter of a run stands at or above its rows. -/
def Bounded (rows : List StoredEvent) (seqs : Dict String ℕ) (runId : String) : Prop :=
  ∀ e ∈ rows, e.runId = runId → e.seq ≤ seqs.getD runId 0

theorem increasing_concat {rows : List StoredEvent} (h : Increasing rows) {e : StoredEvent}
    (he : ∀ a ∈ rows, a.runId = e.runId → a.seq < e.seq) : Increasing (rows ++ [e]) := by
  refine pairwise_append.mpr ⟨h, by simp, ?_⟩
  intro a ha b hb
  rw [mem_singleton] at hb
  rw [hb]
  exact he a ha

/-- Numbering continues every run whose counter is not behind. -/
theorem assignSeqs_spec (items : List QueuedEvent) : ∀ (seqs : Dict String ℕ)
    (rows : List StoredEvent), Increasing rows → (∀ item ∈ items, Bounded rows seqs item.runId) →
    Increasing (rows ++ (assignSeqs seqs items).2) ∧
      ∀ r, Bounded rows seqs r →
        Bounded (rows ++ (assignSeqs seqs items).2) (assignSeqs seqs items).1 r := by
  induction items with
  | nil =>
    intro seqs rows hinc hbound
    rw [assignSeqs, append_nil]
    exact ⟨hinc, fun r hr => hr⟩
  | cons item items ih =>
    intro seqs rows hinc hbound
    have hitem := hbound item (by simp)
    have hstep : ∀ r, Bounded rows seqs r →
        Bounded (rows ++ [{ item with seq := seqs.getD item.runId 0 + 1 }])
          (seqs.set item.runId (seqs.getD item.runId 0 + 1)) r := by
      intro r hr e he heq
      rw [Dict.getD_set]
      rcases mem_append.mp he with he | he
      · have hle := hr e he heq
        split_ifs with hrun
        · rw [hrun] at hle
          omega
        · exact hle
      · rw [mem_singleton] at he
        rw [he] at heq ⊢
        rw [if_pos heq.symm]
    have hinc' : Increasing (rows ++ [{ item with seq := seqs.getD item.runId 0 + 1 }]) :=
      increasing_concat hinc fun a ha heq => Nat.lt_succ_of_le (hitem a ha heq)
    obtain ⟨h1, h2⟩ := ih (seqs.set item.runId (seqs.getD item.runId 0 + 1))
      (rows ++ [{ item with seq := seqs.getD item.runId 0 + 1 }]) hinc'
      fun i hi => hstep i.runId (hbound i (mem_cons_of_mem item hi))
    rw [assignSeqs]
    rw [append_assoc, singleton_append] at h1
    refine ⟨h1, fun r hr => ?_⟩
    have := h2 r (hstep r hr)
    rwa [append_assoc, singleton_append] at this

theorem le_foldl_max (l : List ℕ) (m : ℕ) : (∀ n ∈ l, n ≤ l.foldl max m) ∧ m ≤ l.foldl max m := by
  induction l generalizing m with
  | nil => exact ⟨fun n hn => absurd hn (by simp), Nat.le_refl m⟩
  | cons a l ih =>
    obtain ⟨h1, h2⟩ := ih (max m a)
    refine ⟨fun n hn => ?_, le_trans (le_max_left m a) h2⟩
    rcases mem_cons.mp hn with rfl | hn
    · exact le_trans (le_max_right m n) h2
    · exact h1 n hn

theorem le_maxSeq {rows : List StoredEvent} {runId : String} {e : StoredEvent} (he : e ∈ rows)
    (hid : e.runId = runId) : e.seq ≤ maxSeq rows runId :=
  (le_foldl_max _ 0).1 e.seq
    (mem_map.mpr ⟨e, mem_filter.mpr ⟨he, by simpa using hid⟩, rfl⟩)

/-! ## The invariant -/

structure Sequenced (s : Collector) : Prop where
  runs : RunInvariant s
  increasing : Increasing (s.rows ++ s.inflight)
  bounded : ∀ r, s.activeRunId = some r ∨ r ∈ s.queue.flatten.map QueuedEvent.runId →
    Bounded (s.rows ++ s.inflight) s.seqs r
  known : (∀ r, s.activeRunId = some r → r ∈ s.runs.map Run.runId) ∧
    (∀ e ∈ s.rows ++ s.inflight, e.runId ∈ s.runs.map Run.runId) ∧
    ∀ e ∈ s.queue.flatten, e.runId ∈ s.runs.map Run.runId
  opening : ∀ r, s.lock = .opening r →
    (∀ e ∈ s.rows ++ s.inflight, e.runId ≠ r) ∧ ∀ e ∈ s.queue.flatten, e.runId ≠ r
  counts : ∀ r ∈ s.runs, r.eventCount = s.rows.countP (·.runId = r.runId)

theorem sequenced_takesIn {d : Deployment} {s s' : Collector} {items : List QueuedEvent}
    (h : Sequenced s) (ht : TakesIn d s s' items)
    (hitems : ∀ e ∈ items, s.activeRunId = some e.runId) : Sequenced s' := by
  obtain ⟨⟨hruns, hrows, hactive, hseqs, hinflight, hlock⟩, hqueue, -⟩ := ht
  have hmem : ∀ e ∈ s'.queue.flatten, e ∈ s.queue.flatten ∨ s.activeRunId = some e.runId := by
    intro e he
    rw [hqueue] at he
    rcases mem_append.mp he with he | he
    · exact Or.inl he
    · split_ifs at he
      · exact absurd he (by simp)
      · exact Or.inr (hitems e he)
  refine ⟨runInvariant_of_sameStore h.runs ⟨hruns, hrows, hactive, hseqs, hinflight, hlock⟩,
    by rw [hrows, hinflight]; exact h.increasing, fun r hr => ?_, ⟨?_, ?_, ?_⟩, ?_, ?_⟩
  · rw [hrows, hinflight, hseqs]
    rcases hr with hr | hr
    · exact h.bounded r (Or.inl (hactive ▸ hr))
    · obtain ⟨e, he, rfl⟩ := mem_map.mp hr
      rcases hmem e he with he | he
      · exact h.bounded _ (Or.inr (mem_map.mpr ⟨e, he, rfl⟩))
      · exact h.bounded _ (Or.inl he)
  · rw [hruns, hactive]
    exact h.known.1
  · rw [hruns, hrows, hinflight]
    exact h.known.2.1
  · intro e he
    rw [hruns]
    rcases hmem e he with he | he
    · exact h.known.2.2 e he
    · exact h.known.1 _ he
  · intro r hr
    rw [hlock] at hr
    rw [hrows, hinflight]
    refine ⟨(h.opening r hr).1, fun e he => ?_⟩
    rcases hmem e he with he | he
    · exact (h.opening r hr).2 e he
    · -- nothing is active while a run is being opened
      have hstore := h.runs.store
      unfold StoreMatches at hstore
      rw [hr] at hstore
      rw [hstore.2] at he
      exact absurd he (by simp)
  · rw [hruns, hrows]
    exact h.counts

/-! ## The writer and the runs -/

theorem sequenced_writerTake {d : Deployment} {s : Collector} (h : Sequenced s) :
    Sequenced (writerTake d s) := by
  have hruns := runInvariant_step d s .writerTake h.runs
  rw [step] at hruns
  unfold writerTake at hruns ⊢
  split at hruns
  · rename_i batch queue hinflight hqueue
    have hflat := coalesce_flatten d batch queue
    have hq : s.queue.flatten = (coalesce d batch queue).1 ++ (coalesce d batch queue).2.flatten := by
      rw [hflat, hqueue, flatten_cons]
    have hrows : s.rows ++ s.inflight = s.rows := by rw [hinflight, append_nil]
    have hinc := h.increasing
    have hbound := h.bounded
    have hknown := h.known
    have hopen := h.opening
    rw [hrows] at hinc hknown
    obtain ⟨h1, h2⟩ := assignSeqs_spec (coalesce d batch queue).1 s.seqs s.rows hinc (by
      intro item hitem
      have := hbound item.runId (Or.inr (mem_map.mpr ⟨item, by
        rw [hq]; exact mem_append_left _ hitem, rfl⟩))
      rwa [hrows] at this)
    -- a numbered item was in the queue
    have hnew : ∀ e ∈ (assignSeqs s.seqs (coalesce d batch queue).1).2,
        e.toQueuedEvent ∈ s.queue.flatten := by
      intro e he
      rw [hq, mem_append]
      refine Or.inl ?_
      rw [← map_assignSeqs s.seqs (coalesce d batch queue).1]
      exact mem_map.mpr ⟨e, he, rfl⟩
    have hrest : ∀ e ∈ (coalesce d batch queue).2.flatten, e ∈ s.queue.flatten := by
      intro e he
      rw [hq]
      exact mem_append_right _ he
    refine ⟨hruns, h1, fun r hr => h2 r ?_, ⟨hknown.1, ?_, ?_⟩, ?_, h.counts⟩
    · have := hbound r (hr.imp_right fun hr => by
        obtain ⟨e, he, rfl⟩ := mem_map.mp hr
        exact mem_map.mpr ⟨e, hrest e he, rfl⟩)
      rwa [hrows] at this
    · intro e he
      rcases mem_append.mp he with he | he
      · exact hknown.2.1 e he
      · exact hknown.2.2 _ (hnew e he)
    · exact fun e he => hknown.2.2 e (hrest e he)
    · intro r hr
      obtain ⟨ho1, ho2⟩ := hopen r hr
      rw [hrows] at ho1
      refine ⟨fun e he => ?_, fun e he => ho2 e (hrest e he)⟩
      rcases mem_append.mp he with he | he
      · exact ho1 e he
      · exact ho2 _ (hnew e he)
  · exact h

theorem sequenced_writerDone {d : Deployment} {s : Collector} (h : Sequenced s)
    (committed : Bool) : Sequenced (writerDone committed s) := by
  have hruns := runInvariant_step d s (.writerDone committed) h.runs
  rw [step] at hruns
  have hids := map_runId_writerDone committed s
  cases committed with
  | true =>
    have hrows : (writerDone true s).rows ++ (writerDone true s).inflight =
        s.rows ++ s.inflight := by simp [writerDone]
    refine ⟨hruns, by rw [hrows]; exact h.increasing, fun r hr => by rw [hrows]; exact h.bounded r hr,
      ⟨by rw [hids]; exact h.known.1, by rw [hrows, hids]; exact h.known.2.1,
        by rw [hids]; exact h.known.2.2⟩,
      fun r hr => by rw [hrows]; exact h.opening r hr, fun r hr => ?_⟩
    obtain ⟨r', hr', rfl⟩ := mem_map.mp
      (show r ∈ s.runs.map fun r =>
        { r with eventCount := r.eventCount + s.inflight.countP (·.runId = r.runId) } from hr)
    show r'.eventCount + s.inflight.countP (·.runId = r'.runId) =
      (s.rows ++ s.inflight).countP (·.runId = r'.runId)
    rw [h.counts r' hr', countP_append]
  | false =>
    -- the batch is gone, its numbers are not used again
    have hsub : ∀ e ∈ (writerDone false s).rows ++ (writerDone false s).inflight,
        e ∈ s.rows ++ s.inflight := by
      intro e he
      exact mem_append_left _ (by simpa [writerDone] using he)
    have hinc : Increasing ((writerDone false s).rows ++ (writerDone false s).inflight) := by
      have := (pairwise_append.mp h.increasing).1
      simpa [writerDone, Increasing] using this
    refine ⟨hruns, hinc, fun r hr e he => h.bounded r hr e (hsub e he),
      ⟨by rw [hids]; exact h.known.1, fun e he => by rw [hids]; exact h.known.2.1 e (hsub e he),
        by rw [hids]; exact h.known.2.2⟩,
      fun r hr => ⟨fun e he => (h.opening r hr).1 e (hsub e he), (h.opening r hr).2⟩, h.counts⟩

theorem counts_closeStored {s : Collector} (h : Sequenced s) (runId : String)
    (closing : Option (Dict String Obj)) (now : ℚ) :
    ∀ r ∈ (closeStored s runId closing now).runs,
      r.eventCount = s.rows.countP (·.runId = r.runId) := by
  intro r hr
  obtain ⟨r', hr', rfl⟩ := mem_map.mp hr
  split_ifs
  · have hcount : (closeRow closing now r').eventCount = r'.eventCount := by
      unfold closeRow
      dsimp only
      split_ifs <;> rfl
    rw [hcount, runId_closeRow]
    exact h.counts r' hr'
  · exact h.counts r' hr'

/-- A change of the active run and the lock that invents no run id. -/
theorem Sequenced.of_same {s s' : Collector} (h : Sequenced s) (hruns : RunInvariant s')
    (hids : s'.runs.map Run.runId = s.runs.map Run.runId) (hrows : s'.rows = s.rows)
    (hinflight : s'.inflight = s.inflight) (hqueue : s'.queue = s.queue)
    (hseqs : s'.seqs = s.seqs)
    (hactive : ∀ r, s'.activeRunId = some r → s.activeRunId = some r)
    (hlock : ∀ r, s'.lock ≠ .opening r)
    (hcounts : ∀ r ∈ s'.runs, r.eventCount = s.rows.countP (·.runId = r.runId)) :
    Sequenced s' := by
  refine ⟨hruns, by rw [hrows, hinflight]; exact h.increasing, fun r hr => ?_,
    ⟨fun r hr => ?_, ?_, ?_⟩, fun r hr => absurd hr (hlock r), by rw [hrows]; exact hcounts⟩
  · rw [hrows, hinflight, hseqs]
    rw [hqueue] at hr
    exact h.bounded r (hr.imp_left (hactive r))
  · rw [hids]
    exact h.known.1 r (hactive r hr)
  · rw [hids, hrows, hinflight]
    exact h.known.2.1
  · rw [hids, hqueue]
    exact h.known.2.2

/-- A run is stored under an id nothing is stored under. -/
theorem sequenced_insertRun {s : Collector} (h : Sequenced s) (run : NewRun)
    (hruns : RunInvariant (insertRun s run)) : Sequenced (insertRun s run) := by
  unfold insertRun at hruns ⊢
  split_ifs at hruns ⊢ with hmem
  · exact h.of_same hruns rfl rfl rfl rfl rfl (fun r hr => hr) (fun r hr => by simp at hr) h.counts
  · have hids : (s.runs ++ [run.row]).map Run.runId = s.runs.map Run.runId ++ [run.runId] := by
      rw [map_append]
      rfl
    have hsub : ∀ r ∈ s.runs.map Run.runId, r ∈ (s.runs ++ [run.row]).map Run.runId := by
      intro r hr
      rw [hids]
      exact mem_append_left _ hr
    refine ⟨hruns, h.increasing, h.bounded, ⟨fun r hr => hsub r (h.known.1 r hr),
      fun e he => hsub _ (h.known.2.1 e he), fun e he => hsub _ (h.known.2.2 e he)⟩,
      fun r hr => ?_, fun r hr => ?_⟩
    · have hr : run.runId = r := RunLock.opening.inj hr
      refine ⟨fun e he heq => hmem ?_, fun e he heq => hmem ?_⟩
      · rw [hr, ← heq]
        exact h.known.2.1 e he
      · rw [hr, ← heq]
        exact h.known.2.2 e he
    · rcases mem_append.mp hr with hr | hr
      · exact h.counts r hr
      · rw [mem_singleton.mp hr]
        show 0 = s.rows.countP (·.runId = run.runId)
        rw [eq_comm, countP_eq_zero]
        intro e he heq
        rw [decide_eq_true_eq] at heq
        exact hmem (heq ▸ h.known.2.1 e (mem_append_left _ he))

theorem sequenced_start {d : Deployment} {s : Collector} (h : Sequenced s) :
    Sequenced (start d s.runs s.rows) := by
  have hruns := runInvariant_start d h.runs
  have hinc : Increasing s.rows := (pairwise_append.mp h.increasing).1
  have hknown : ∀ e ∈ s.rows, e.runId ∈ s.runs.map Run.runId := fun e he =>
    h.known.2.1 e (mem_append_left _ he)
  unfold start restoreState at hruns ⊢
  split at hruns
  · refine ⟨hruns, by rw [append_nil]; exact hinc, fun r hr => ?_, ⟨fun r hr => ?_, ?_, ?_⟩,
      fun r hr => by simp at hr, h.counts⟩
    · rcases hr with hr | hr <;> exact absurd hr (by simp)
    · exact absurd hr (by simp)
    · rw [append_nil]
      exact hknown
    · exact fun e he => absurd he (by simp)
  · rename_i run hrun
    refine ⟨hruns, by rw [append_nil]; exact hinc, fun r hr => ?_, ⟨fun r hr => ?_, ?_, ?_⟩,
      fun r hr => by simp at hr, h.counts⟩
    · rcases hr with hr | hr
      · have hr : run.runId = r := Option.some.inj hr
        intro e he heq
        rw [append_nil] at he
        rw [Dict.getD_set, if_pos hr.symm, hr]
        exact le_maxSeq he heq
      · exact absurd hr (by simp)
    · have hr : run.runId = r := Option.some.inj hr
      have hmem := (perm_insertionSort _ _).mem_iff.mp (mem_of_head? hrun)
      rw [← hr]
      exact mem_map.mpr ⟨run, mem_of_mem_filter hmem, rfl⟩
    · rw [append_nil]
      exact hknown
    · exact fun e he => absurd he (by simp)

theorem sequenced_openRun {d : Deployment} {s : Collector} (h : Sequenced s) (run : NewRun)
    (force : Bool) (now : ℚ) : Sequenced (openRun run force now s) := by
  have hruns := runInvariant_step d s (.openRun run force now) h.runs
  rw [step_openRun] at hruns
  unfold openRun at hruns ⊢
  split at hruns
  · exact sequenced_insertRun h run hruns
  · rename_i a _ _
    split_ifs at hruns ⊢
    · exact h.of_same hruns (map_runId_closeStored s a none now) rfl rfl rfl rfl (fun r hr => hr)
        (fun r hr => by simp at hr) (counts_closeStored h a none now)
    · exact h
  · exact h

theorem sequenced_closeRun {d : Deployment} {s : Collector} (h : Sequenced s) (runId : String)
    (closing : Option (Dict String Obj)) (now : ℚ) : Sequenced (closeRun runId closing now s) := by
  have hruns := runInvariant_step d s (.closeRun runId closing now) h.runs
  rw [step_closeRun] at hruns
  unfold closeRun at hruns ⊢
  split at hruns
  · split_ifs at hruns ⊢
    · exact h.of_same hruns (map_runId_closeStored s runId closing now) rfl rfl rfl rfl
        (fun r hr => hr) (fun r hr => by simp at hr) (counts_closeStored h runId closing now)
    · exact h
  · exact h

/-- A closed run is forgotten, and the lock is released. -/
theorem sequenced_forgetRun {s : Collector} (h : Sequenced s) {runId : String}
    {next : Option NewRun} (hlock : s.lock = .closing runId next) :
    Sequenced { forgetRun s runId with lock := .free } := by
  have hstore := h.runs.store
  unfold StoreMatches at hstore
  rw [hlock] at hstore
  have hruns : RunInvariant { forgetRun s runId with lock := .free } := by
    refine ⟨by rw [runs_forgetRun]; exact h.runs.ids_nodup, ?_⟩
    show activeIds (forgetRun s runId).runs = (forgetRun s runId).activeRunId.toList
    rw [runs_forgetRun, activeRunId_forgetRun]
    exact hstore.1
  refine h.of_same hruns (by rw [runs_forgetRun]) ?_ ?_ ?_ ?_ (fun r hr => ?_)
    (fun r hr => by simp at hr) ?_
  · unfold forgetRun
    split_ifs <;> rfl
  · unfold forgetRun
    split_ifs <;> rfl
  · unfold forgetRun
    split_ifs <;> rfl
  · unfold forgetRun
    split_ifs <;> rfl
  · have hr : (forgetRun s runId).activeRunId = some r := hr
    rw [activeRunId_forgetRun, activeAfter] at hr
    split_ifs at hr
    exact hr
  · show ∀ r ∈ (forgetRun s runId).runs, _
    rw [runs_forgetRun]
    exact h.counts

theorem insertRun_lock (s : Collector) (lock : RunLock) (run : NewRun) :
    insertRun { s with lock := lock } run = insertRun s run := by
  unfold insertRun
  split_ifs <;> rfl

theorem sequenced_resume {d : Deployment} {s : Collector} (h : Sequenced s) :
    Sequenced (resume s) := by
  have hruns := runInvariant_step d s .resume h.runs
  rw [step_resume] at hruns
  unfold resume at hruns ⊢
  split at hruns
  · exact h
  · rename_i runId hlock
    exact sequenced_forgetRun h hlock
  · rename_i runId run hlock
    rw [← insertRun_lock _ .free] at hruns ⊢
    exact sequenced_insertRun (sequenced_forgetRun h hlock) run hruns
  · rename_i runId hlock
    obtain ⟨hrows, hqueue⟩ := h.opening runId hlock
    have hstore := h.runs.store
    unfold StoreMatches at hstore
    rw [hlock] at hstore
    refine ⟨hruns, h.increasing, fun r hr e he heq => ?_, ⟨fun r hr => ?_, h.known.2.1,
      h.known.2.2⟩, fun r hr => by simp at hr, h.counts⟩
    · -- the new run has no rows yet, the other counters are as before
      have hne : r ≠ runId := heq ▸ hrows e he
      rw [Dict.getD_set, if_neg hne]
      rcases hr with hr | hr
      · exact absurd (Option.some.inj hr).symm hne
      · exact h.bounded r (Or.inr hr) e he heq
    · have hr : runId = r := Option.some.inj hr
      have hmem : runId ∈ activeIds s.runs := by
        rw [hstore.1]
        exact mem_singleton_self runId
      obtain ⟨a, ha, haid⟩ := mem_map.mp hmem
      exact mem_map.mpr ⟨a, mem_of_mem_filter ha, haid.trans hr⟩

theorem sequenced_step (d : Deployment) (s : Collector) (op : Op) (h : Sequenced s) :
    Sequenced (step d s op) := by
  cases op with
  | ingestEvents draw peer raw =>
    exact sequenced_takesIn h (takesIn_ingestEvents d draw peer raw s) (runId_of_mem_intake d s _)
  | postCorrelation draw peer raw =>
    exact sequenced_takesIn h (takesIn_postCorrelation d draw peer raw s)
      (runId_of_mem_intake d s _)
  | openRun run force now => exact sequenced_openRun (d := d) h run force now
  | closeRun runId closing now => exact sequenced_closeRun (d := d) h runId closing now
  | resume => exact sequenced_resume (d := d) h
  | writerTake => exact sequenced_writerTake h
  | writerDone committed => exact sequenced_writerDone (d := d) h committed
  | restart => exact sequenced_start h

theorem sequenced_initial (d : Deployment) : Sequenced (initial d) := by
  refine ⟨runInvariant_initial d, List.Pairwise.nil, fun r _ e he => ?_,
    ⟨fun r hr => ?_, fun e he => ?_, fun e he => ?_⟩, fun r hr => ?_, fun r hr => ?_⟩
  · exact absurd he (by simp [initial, start, restoreState])
  · exact absurd hr (by simp [initial, start, restoreState])
  · exact absurd he (by simp [initial, start, restoreState])
  · exact absurd he (by simp [initial, start, restoreState])
  · exact absurd hr (by simp [initial, start, restoreState])
  · exact absurd hr (by simp [initial, start, restoreState])

theorem sequenced_run (d : Deployment) (ops : List Op) : Sequenced (run d (initial d) ops) :=
  run_invariant (step d) (sequenced_initial d) (sequenced_step d) ops

/-! ## Rows are only ever added -/

/-- The rows an operation commits. -/
def committed (s : Collector) : Op → List StoredEvent
  | .writerDone true => s.inflight
  | _ => []

theorem rows_start (d : Deployment) (runs : List Run) (rows : List StoredEvent) :
    (start d runs rows).rows = rows := by
  unfold start restoreState
  split <;> rfl

theorem inflight_start (d : Deployment) (runs : List Run) (rows : List StoredEvent) :
    (start d runs rows).inflight = [] := by
  unfold start restoreState
  split <;> rfl

/-- Opening and closing runs leaves the way of the events alone. -/
structure SameFlow (s s' : Collector) : Prop where
  rows : s'.rows = s.rows
  inflight : s'.inflight = s.inflight
  queue : s'.queue = s.queue
  counters : s'.counters = s.counters

theorem SameFlow.trans {s s' s'' : Collector} (h : SameFlow s s') (h' : SameFlow s' s'') :
    SameFlow s s'' :=
  ⟨h'.rows.trans h.rows, h'.inflight.trans h.inflight, h'.queue.trans h.queue,
    h'.counters.trans h.counters⟩

theorem sameFlow_insertRun (s : Collector) (run : NewRun) : SameFlow s (insertRun s run) := by
  unfold insertRun
  split_ifs <;> exact ⟨rfl, rfl, rfl, rfl⟩

theorem sameFlow_forgetRun (s : Collector) (runId : String) : SameFlow s (forgetRun s runId) := by
  unfold forgetRun
  split_ifs <;> exact ⟨rfl, rfl, rfl, rfl⟩

theorem sameFlow_openRun (s : Collector) (run : NewRun) (force : Bool) (now : ℚ) :
    SameFlow s (openRun run force now s) := by
  unfold openRun
  split
  · exact sameFlow_insertRun s run
  · split_ifs <;> exact ⟨rfl, rfl, rfl, rfl⟩
  · exact ⟨rfl, rfl, rfl, rfl⟩

theorem sameFlow_closeRun (s : Collector) (runId : String) (closing : Option (Dict String Obj))
    (now : ℚ) : SameFlow s (closeRun runId closing now s) := by
  unfold closeRun
  split
  · split_ifs <;> exact ⟨rfl, rfl, rfl, rfl⟩
  · exact ⟨rfl, rfl, rfl, rfl⟩

theorem sameFlow_resume (s : Collector) : SameFlow s (resume s) := by
  unfold resume
  split
  · exact ⟨rfl, rfl, rfl, rfl⟩
  · obtain ⟨h1, h2, h3, h4⟩ := sameFlow_forgetRun s _
    exact ⟨h1, h2, h3, h4⟩
  · exact (sameFlow_forgetRun s _).trans (sameFlow_insertRun _ _)
  · exact ⟨rfl, rfl, rfl, rfl⟩

theorem rows_step (d : Deployment) (s : Collector) (op : Op) :
    (step d s op).rows = s.rows ++ committed s op := by
  have hnone : ∀ {rows}, rows = s.rows → rows = s.rows ++ [] := fun h =>
    h.trans (append_nil _).symm
  cases op with
  | ingestEvents draw peer raw => exact hnone (takesIn_ingestEvents d draw peer raw s).store.rows
  | postCorrelation draw peer raw =>
    exact hnone (takesIn_postCorrelation d draw peer raw s).store.rows
  | openRun run force now => exact hnone (sameFlow_openRun s run force now).rows
  | closeRun runId closing now => exact hnone (sameFlow_closeRun s runId closing now).rows
  | resume => exact hnone (sameFlow_resume s).rows
  | writerTake =>
    rw [step]
    unfold writerTake
    split <;> exact hnone rfl
  | writerDone ok =>
    cases ok with
    | true => rfl
    | false => exact hnone rfl
  | restart => exact hnone (rows_start d s.runs s.rows)

theorem pos_of_mem_assignSeqs (items : List QueuedEvent) :
    ∀ (seqs : Dict String ℕ), ∀ e ∈ (assignSeqs seqs items).2, 0 < e.seq := by
  induction items with
  | nil => exact fun seqs e he => absurd he (by simp [assignSeqs])
  | cons item items ih =>
    intro seqs e he
    rw [assignSeqs] at he
    rcases mem_cons.mp he with rfl | he
    · exact Nat.succ_pos _
    · exact ih _ e he

/-- Sequence numbers start at one. -/
theorem pos_step (d : Deployment) (s : Collector) (op : Op)
    (h : ∀ e ∈ s.rows ++ s.inflight, 0 < e.seq) :
    ∀ e ∈ (step d s op).rows ++ (step d s op).inflight, 0 < e.seq := by
  have hrows : ∀ e ∈ (step d s op).rows, 0 < e.seq := by
    intro e he
    rw [rows_step] at he
    rcases mem_append.mp he with he | he
    · exact h e (mem_append_left _ he)
    · unfold committed at he
      split at he
      · exact h e (mem_append_right _ he)
      · exact absurd he (by simp)
  have hsame : (step d s op).inflight = s.inflight → ∀ e ∈ (step d s op).inflight, 0 < e.seq := by
    intro heq e he
    rw [heq] at he
    exact h e (mem_append_right _ he)
  have hnil : (step d s op).inflight = [] → ∀ e ∈ (step d s op).inflight, 0 < e.seq := by
    intro heq e he
    rw [heq] at he
    exact absurd he (by simp)
  have hinflight : ∀ e ∈ (step d s op).inflight, 0 < e.seq := by
    cases op with
    | ingestEvents draw peer raw =>
      exact hsame (takesIn_ingestEvents d draw peer raw s).store.inflight
    | postCorrelation draw peer raw =>
      exact hsame (takesIn_postCorrelation d draw peer raw s).store.inflight
    | openRun run force now => exact hsame (sameFlow_openRun s run force now).inflight
    | closeRun runId closing now => exact hsame (sameFlow_closeRun s runId closing now).inflight
    | resume => exact hsame (sameFlow_resume s).inflight
    | writerTake =>
      rw [step]
      unfold writerTake
      split
      · exact pos_of_mem_assignSeqs _ _
      · exact fun e he => h e (mem_append_right _ he)
    | writerDone ok => cases ok <;> exact hnil rfl
    | restart => exact hnil (inflight_start d s.runs s.rows)
  intro e he
  rcases mem_append.mp he with he | he
  · exact hrows e he
  · exact hinflight e he

theorem pos_of_mem_rows (d : Deployment) (ops : List Op) :
    ∀ e ∈ (run d (initial d) ops).rows, 0 < e.seq := fun e he =>
  run_invariant (step d) (P := fun s => ∀ e ∈ s.rows ++ s.inflight, 0 < e.seq)
    (fun e he => absurd he (by simp [initial, start, restoreState])) (pos_step d) ops e
    (mem_append_left _ he)

end PtaasBench.BenchCollector
