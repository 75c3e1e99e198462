import PtaasBench.EdgeResolver.Telemetry
import PtaasBench.EdgeResolver.Worker

/-!
# PtaasBench.EdgeResolver.Service — what the resolver reports reaches the telemetry queue (`service.py`)

The recorder, its worker and the telemetry client together.  `_teardown` stops the worker, which
drains its queue into the client's, and then the client.
-/

namespace PtaasBench.EdgeResolver

open Py

structure Service where
  resolver : Resolver
  telemetry : TelemetryClient

inductive ServiceOp where
  | resolver (now : ℚ) (op : ResolverOp)
  /-- A step of the flush thread. -/
  | flush (outcome : PostOutcome)

section Machine

variable [Runtime] (cfg : Config) (formatFloat : ℚ → String)

/-- The events of what a step reported. -/
def newEvents (s s' : Resolver) : List Obj :=
  (s'.reported.drop s.reported.length).map fun r => report cfg r.observation

def serviceStep (s : Service) : ServiceOp → Service
  | .resolver now op =>
    let resolver := resolverStep cfg formatFloat s.resolver (now, op)
    { resolver := resolver
      telemetry := (newEvents cfg s.resolver resolver).foldl TelemetryClient.submit s.telemetry }
  | .flush outcome => { s with telemetry := s.telemetry.threadStep outcome }

/-- `_amain`, up to the listeners. -/
def startedService (index : CorrelationIndex) (enabled : Bool)
    (workerQueue telemetryQueue batchSize : ℕ) : Service where
  resolver := (idleResolver index workerQueue).start
  telemetry := openedClient enabled true telemetryQueue batchSize

/-- To the client a run of the service is submissions and steps of its thread. -/
theorem telemetry_run (s : Service) (ops : List ServiceOp) :
    ∃ ops', (Lib.run (serviceStep cfg formatFloat) s ops).telemetry =
      Lib.run telemetryStep s.telemetry ops' := by
  induction ops using List.reverseRecOn with
  | nil => exact ⟨[], rfl⟩
  | append_singleton ops op ih =>
    obtain ⟨ops', hops'⟩ := ih
    rw [Lib.run_concat]
    generalize Lib.run (serviceStep cfg formatFloat) s ops = s' at hops' ⊢
    cases op with
    | resolver now op =>
      have hsubmit : ∀ (t : TelemetryClient) (events : List Obj),
          events.foldl TelemetryClient.submit t = Lib.run telemetryStep t (events.map .submit) := by
        intro t events
        rw [Lib.run, List.foldl_map]
        rfl
      refine ⟨ops' ++ (newEvents cfg s'.resolver
        (resolverStep cfg formatFloat s'.resolver (now, op))).map .submit, ?_⟩
      rw [Lib.run_append, ← hops', ← hsubmit]
      rfl
    | flush outcome =>
      refine ⟨ops' ++ [.thread outcome], ?_⟩
      rw [Lib.run_concat, ← hops']
      rfl

end Machine

/-- Whatever the resolver has reported, by draining its worker too, and however far the flush thread
had come: when the client's `stop` returns, every event that was in its queue has been carried by a
POST exactly if the queue was no longer than what the thread still takes, the join gave it the time
for that, and no POST ended the thread. -/
theorem teardown_settles_iff [Runtime] (cfg : Config) (formatFloat : ℚ → String)
    (index : CorrelationIndex) (enabled : Bool) (workerQueue telemetryQueue batchSize : ℕ)
    (ops : List ServiceOp) (outcomes : List PostOutcome) :
    let s := (Lib.run (serviceStep cfg formatFloat)
      (startedService index enabled workerQueue telemetryQueue batchSize) ops).telemetry
    (∀ r ∈ s.queue, r ∈ (s.stopped outcomes).settled.map Prod.fst) ↔
      s.queue = [] ∨ s.queue.length ≤ s.capacity ∧ s.stepsLeft ≤ outcomes.length ∧
        Lib.Along TelemetryClient.threadStep TelemetryClient.Survives s.stop outcomes := by
  intro s
  obtain ⟨ops', hops'⟩ := telemetry_run cfg formatFloat
    (startedService index enabled workerQueue telemetryQueue batchSize) ops
  have hs : s = Lib.run telemetryStep (openedClient enabled true telemetryQueue batchSize) ops' := hops'
  rw [hs]
  exact TelemetryClient.stop_settles_iff enabled true telemetryQueue batchSize ops' outcomes

/-- What is observed by a listener of the shop's payload host. -/
def lookupOf (host : String) : Request where
  channel := "dns"
  sourceIp := "10.0.0.9"
  extraction := {}
  raw := host
  host := some host
  detail := []
  ownedZone := none

/-- Five observations are parked, the worker is stopped, and it drains them into the client. -/
def drainedOps : List ServiceOp :=
  List.replicate 5 (.resolver 0 (.observe (lookupOf "oast.fun"))) ++
    [.resolver 0 .stop, .resolver 0 .joined] ++ List.replicate 6 (.resolver 0 .drain)

/-- Two batches and one event: after two POSTs the thread has ended, and the event is left, neither
posted nor counted. -/
theorem teardown_loses_event :
    let _ := Runtime.ascii
    let cfg : Config := { isSyntheticSource := fun _ => false, clock := fun _ => FloatLit.ofInt 0 }
    let s := (Lib.run (serviceStep cfg fun _ => "0") (startedService {} true 2000 5000 2)
      drainedOps).telemetry
    let s' := s.stopped (List.replicate 20 .taken)
    s.queue.length = 5 ∧ s'.stepsLeft = 0 ∧ (s'.posted, s'.failed, s'.dropped) = (4, 0, 0) ∧
      s'.queue.map (·.seq) = [4] ∧ ¬ ∀ r ∈ s.queue, r ∈ s'.settled.map Prod.fst := by
  intro rt cfg s s'
  refine ⟨by decide +kernel, by decide +kernel, by decide +kernel, by decide +kernel, fun hall => ?_⟩
  have hmissing : ¬ s.queue.map (·.seq) ⊆ s'.settled.map (·.1.seq) := by decide +kernel
  refine hmissing fun seq hseq => ?_
  obtain ⟨r, hr, rfl⟩ := List.mem_map.mp hseq
  obtain ⟨e, he, rfl⟩ := List.mem_map.mp (hall r hr)
  exact List.mem_map.mpr ⟨e, he, rfl⟩

end PtaasBench.EdgeResolver
