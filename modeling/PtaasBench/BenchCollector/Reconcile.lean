import PtaasBench.BenchCollector.App
import PtaasBench.Lib.Fold

/-!
# PtaasBench.BenchCollector.Reconcile — the counters of `stats`

Every intake path but one counts what it receives once as received and once as written, dropped,
idle or still buffered (`Balanced`).  The exception is a request whose body cannot be read: it is
counted as dropped and never as received, so the counters drift apart by one for each.
-/

namespace PtaasBench.BenchCollector

open Py Lib

/-- What `stats` can account for. -/
def Counters.accounted (c : Counters) : ℕ := c.written + c.dropped + c.discardedIdle

/-- Events taken in and not yet settled. -/
def Collector.buffered (s : Collector) : ℕ := s.queue.flatten.length + s.inflight.length

/-- The books of a process that has refused `malformed` requests unread. -/
def Balanced (malformed : ℕ) (s : Collector) : Prop :=
  s.counters.received + malformed = s.counters.accounted + s.buffered

variable (d : Deployment)

/-- Is this a request the endpoint cannot read? -/
def Op.malformed : Op → Bool
  | .ingestEvents _ _ raw => (batchOf d raw).isNone
  | .postCorrelation _ _ raw => (d.validateCorrelation raw).isNone
  | _ => false

def Op.isRestart : Op → Bool
  | .restart => true
  | _ => false

/-- What was done to the process that is running now. -/
def sinceStart (ops : List Op) : List Op :=
  ops.foldl (fun since op => if op.isRestart then [] else since ++ [op]) []

theorem sinceStart_concat (ops : List Op) (op : Op) :
    sinceStart (ops ++ [op]) = if op.isRestart then [] else sinceStart ops ++ [op] := by
  simp [sinceStart, List.foldl_append]

/-! ## Intake -/

theorem admitEvent_books (draw : Draw) (peer runId : Option String) (a : Admission)
    (item : Json × ℕ) :
    ((admitEvent d draw peer runId a item).counters.received,
      (admitEvent d draw peer runId a item).counters.accounted) =
    (a.counters.received, a.counters.accounted) := by
  unfold admitEvent
  split_ifs
  · rfl
  · split
    · rfl
    · cases runId <;> rfl

theorem admission_books (draw : Draw) (peer : Option String) (s : Collector)
    (events : List Json) :
    ((admission d draw peer s events).counters.received,
      (admission d draw peer s events).counters.accounted) =
    (s.counters.received, s.counters.accounted) :=
  foldl_frame (fun a : Admission => (a.counters.received, a.counters.accounted))
    (admitEvent_books d draw peer s.activeRunId) _ _

theorem putNowait_books (s : Collector) (items : List QueuedEvent) :
    (putNowait d s items).1.counters.received = s.counters.received ∧
      (putNowait d s items).1.counters.accounted + (putNowait d s items).1.buffered =
        s.counters.accounted + s.buffered + items.length := by
  unfold putNowait Collector.buffered Counters.accounted Counters.dropped
  split_ifs
  · refine ⟨rfl, ?_⟩
    dsimp only
    omega
  · refine ⟨rfl, ?_⟩
    simp only [List.flatten_append, List.length_append, List.flatten_singleton]
    omega

theorem balanced_submit {m : ℕ} {s : Collector} (h : Balanced m s) (draw : Draw)
    (peer : Option String) (events : List Json) :
    Balanced m (submit d draw peer s events).1 := by
  have hbooks := admission_books d draw peer s events
  simp only [Prod.mk.injEq] at hbooks
  simp only [submit]
  obtain ⟨a, ha⟩ : ∃ a, a = admission d draw peer s events := ⟨_, rfl⟩
  rw [← ha] at hbooks ⊢
  -- the batch is counted; what was accepted still has to be queued or dropped
  obtain ⟨s1, hs1⟩ : ∃ s1 : Collector, s1 =
      { s with
        correlations := a.correlations
        counters := { a.counters with
          received := a.counters.received +
            (a.accepted.length + a.dropped + a.idle + a.overBatch)
          droppedInvalid := a.counters.droppedInvalid + a.dropped
          droppedOverBatch := a.counters.droppedOverBatch + a.overBatch
          discardedIdle := a.counters.discardedIdle + a.idle } } := ⟨_, rfl⟩
  have hcounted : s1.counters.received + m =
      s1.counters.accounted + s1.buffered + a.accepted.length := by
    obtain ⟨hreceived, haccounted⟩ := hbooks
    rw [hs1]
    unfold Balanced at h
    unfold Counters.accounted Counters.dropped Collector.buffered at *
    dsimp only
    omega
  rw [← hs1]
  split_ifs with hempty
  · rw [hempty] at hcounted
    exact hcounted
  · obtain ⟨hreceived, hput⟩ := putNowait_books d s1 a.accepted
    unfold Balanced
    rw [hreceived, hput, hcounted]

theorem balanced_countMalformed {m : ℕ} {s : Collector} (h : Balanced m s) :
    Balanced (m + 1) (countMalformed s) := by
  unfold Balanced countMalformed Counters.accounted Counters.dropped Collector.buffered at *
  dsimp only
  omega

theorem balanced_enqueuePayload {m : ℕ} {s : Collector} (draw : Draw) {payload : Obj}
    (hpayload : payload.Distinct)
    (h : s.counters.received + m = s.counters.accounted + s.buffered + 1) :
    Balanced m (enqueuePayload d draw s payload hpayload) := by
  unfold enqueuePayload
  split
  · unfold Balanced
    unfold Counters.accounted Counters.dropped Collector.buffered at *
    dsimp only
    omega
  · rename_i r _
    obtain ⟨hreceived, hput⟩ := putNowait_books d s [payloadItem draw r payload hpayload]
    unfold Balanced
    rw [hreceived, hput, h, List.length_singleton]

theorem balanced_registerCorrelation {m : ℕ} {s : Collector} (h : Balanced m s) (draw : Draw)
    (peer : Option String) (spec : CorrelationCreate) :
    Balanced m (registerCorrelation d draw peer s spec) := by
  refine balanced_enqueuePayload d draw _ ?_
  unfold Balanced Counters.accounted Counters.dropped Collector.buffered at *
  dsimp only
  omega

/-! ## The writer -/

theorem balanced_writerTake {m : ℕ} {s : Collector} (h : Balanced m s) :
    Balanced m (writerTake d s) := by
  unfold writerTake
  split
  · rename_i batch queue hinflight hqueue
    have hlen := congrArg List.length (coalesce_flatten d batch queue)
    rw [List.length_append, List.length_append] at hlen
    unfold Balanced Collector.buffered at *
    rw [hinflight, hqueue, List.flatten_cons, List.length_append, List.length_nil] at h
    dsimp only
    rw [length_assignSeqs]
    omega
  · exact h

theorem balanced_writerDone {m : ℕ} {s : Collector} (h : Balanced m s) (committed : Bool) :
    Balanced m (writerDone committed s) := by
  unfold writerDone
  split_ifs <;>
  · unfold Balanced Counters.accounted Counters.dropped Collector.buffered at *
    dsimp only
    rw [List.length_nil]
    omega

/-! ## Any operation -/

theorem balanced_start (runs : List Run) (rows : List StoredEvent) :
    Balanced 0 (start d runs rows) := by
  unfold start restoreState
  split <;> rfl

/-- An operation that takes nothing in and settles nothing. -/
theorem Balanced.of_same {m : ℕ} {s s' : Collector} (h : Balanced m s)
    (hcounters : s'.counters = s.counters) (hqueue : s'.queue = s.queue)
    (hinflight : s'.inflight = s.inflight) : Balanced m s' := by
  unfold Balanced Collector.buffered at *
  rwa [hcounters, hqueue, hinflight]

theorem balanced_insertRun {m : ℕ} {s : Collector} (h : Balanced m s) (run : NewRun) :
    Balanced m (insertRun s run) := by
  unfold insertRun
  split_ifs <;> exact h.of_same rfl rfl rfl

theorem balanced_forgetRun {m : ℕ} {s : Collector} (h : Balanced m s) (runId : String) :
    Balanced m (forgetRun s runId) := by
  unfold forgetRun
  split_ifs
  · exact h.of_same rfl rfl rfl
  · exact h

theorem balanced_runOps {m : ℕ} {s : Collector} (h : Balanced m s) :
    (∀ run force now, Balanced m (openRun run force now s)) ∧
    (∀ runId closing now, Balanced m (closeRun runId closing now s)) ∧ Balanced m (resume s) := by
  refine ⟨fun run force now => ?_, fun runId closing now => ?_, ?_⟩
  · unfold openRun
    split
    · exact balanced_insertRun h run
    · split_ifs
      · exact h.of_same rfl rfl rfl
      · exact h
    · exact h
  · unfold closeRun
    split
    · split_ifs
      · exact h.of_same rfl rfl rfl
      · exact h
    · exact h
  · unfold resume
    split
    · exact h
    · exact (balanced_forgetRun h _).of_same rfl rfl rfl
    · exact balanced_insertRun (balanced_forgetRun h _) _
    · exact h.of_same rfl rfl rfl

/-- One operation adds to the drift what it refuses unread; a restart starts new books. -/
theorem balanced_step {m : ℕ} {s : Collector} (h : Balanced m s) (op : Op) :
    Balanced (if op.isRestart then 0 else m + if op.malformed d then 1 else 0) (step d s op) := by
  cases op with
  | ingestEvents draw peer raw =>
    show Balanced (m + if (batchOf d raw).isNone then 1 else 0) (ingestEvents d draw peer raw s).1
    cases hb : batchOf d raw with
    | none =>
      rw [ingestEvents_none d hb]
      exact balanced_countMalformed h
    | some events =>
      rw [ingestEvents_some d hb]
      exact balanced_submit d h draw peer events
  | postCorrelation draw peer raw =>
    show Balanced (m + if (d.validateCorrelation raw).isNone then 1 else 0)
      (postCorrelation d draw peer raw s)
    cases hb : d.validateCorrelation raw with
    | none =>
      rw [postCorrelation_none d hb]
      exact balanced_countMalformed h
    | some spec =>
      show Balanced m _
      unfold postCorrelation
      rw [hb]
      dsimp only
      split_ifs
      · exact h.of_same rfl rfl rfl
      · exact balanced_registerCorrelation d h draw peer spec
  | openRun run force now => exact (balanced_runOps h).1 run force now
  | closeRun runId closing now => exact (balanced_runOps h).2.1 runId closing now
  | resume => exact (balanced_runOps h).2.2
  | writerTake => exact balanced_writerTake d h
  | writerDone committed => exact balanced_writerDone h committed
  | restart => exact balanced_start d s.runs s.rows

theorem balanced_run (ops : List Op) :
    Balanced ((sinceStart ops).countP (Op.malformed d)) (run d (initial d) ops) := by
  induction ops using List.reverseRecOn with
  | nil => exact balanced_start d [] []
  | append_singleton ops op ih =>
    have hstep := balanced_step d ih op
    rw [run, run_concat, sinceStart_concat]
    cases hrestart : op.isRestart with
    | true =>
      rw [hrestart, if_pos rfl] at hstep
      exact hstep
    | false =>
      rw [hrestart, if_neg Bool.false_ne_true] at hstep
      rw [if_neg Bool.false_ne_true, List.countP_append, List.countP_singleton]
      exact hstep

/-- **The counters reconcile** in a drained state exactly when the process has read every request
body sent to it. -/
theorem reconciles_iff (ops : List Op) :
    let s := run d (initial d) ops
    s.queue = [] → s.inflight = [] →
      (s.counters.received = s.counters.written + s.counters.dropped + s.counters.discardedIdle ↔
        ∀ op ∈ sinceStart ops, op.malformed d = false) := by
  intro s hqueue hinflight
  have hbooks : Balanced _ s := balanced_run d ops
  have hbuffered : s.buffered = 0 := by
    rw [Collector.buffered, hqueue, hinflight]
    rfl
  have hzero : (sinceStart ops).countP (Op.malformed d) = 0 ↔
      ∀ op ∈ sinceStart ops, op.malformed d = false := by
    rw [List.countP_eq_zero]
    simp
  rw [← hzero]
  unfold Balanced at hbooks
  rw [hbuffered] at hbooks
  unfold Counters.accounted at hbooks
  omega

end PtaasBench.BenchCollector

namespace PtaasBench.BenchCollector.Notes

/-- A body that is not JSON, sent to a new process: one drop, and nothing received. -/
theorem malformed_body_unreconciled :
    let s := run deployment (initial deployment) [post "not json"]
    s.queue.isEmpty ∧ s.inflight.isEmpty ∧
      s.counters.received ≠
        s.counters.written + s.counters.dropped + s.counters.discardedIdle := by
  decide +kernel

theorem written_reconciles :
    (run deployment (initial deployment) written).counters.received =
      (run deployment (initial deployment) written).counters.written +
        (run deployment (initial deployment) written).counters.dropped +
        (run deployment (initial deployment) written).counters.discardedIdle :=
  (reconciles_iff deployment written
    (List.isEmpty_iff.mp (by decide +kernel)) (List.isEmpty_iff.mp (by decide +kernel))).mpr
      (by decide +kernel)

end PtaasBench.BenchCollector.Notes
