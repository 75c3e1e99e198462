import PtaasBench.Lib.Machine
import PtaasBench.Py.Json

/-!
# PtaasBench.EdgeResolver.Telemetry — the queue of events and its flush thread (`telemetry.py`)

Events are numbered as they are submitted.  A step of the thread is one turn of `_collect_batch` or
one POST; `settled` lists what the POSTs carried and whether the endpoint took it, so that
`stats.posted` and `stats.failed` count its entries.  An error that `_post` does not catch ends the
thread.
-/

namespace PtaasBench.EdgeResolver

open Py List

structure Submitted where
  seq : ℕ
  event : Obj

/-- Where the thread is; `final` marks the batch after the loop. -/
inductive FlushPhase where
  | collecting (final : Bool) (batch : List Submitted)
  | posting (final : Bool) (batch : List Submitted)
  | ended
  | died (batch : List Submitted)  -- posting it raised what is not caught

def FlushPhase.batch : FlushPhase → List Submitted
  | collecting _ batch => batch
  | posting _ batch => batch
  | ended => []
  | died batch => batch

/-- An empty batch is not posted. -/
def FlushPhase.Filled : FlushPhase → Prop
  | posting _ batch => batch ≠ []
  | died batch => batch ≠ []
  | _ => True

/-- What becomes of a POST; `failed` is an error that `_post` catches. -/
inductive PostOutcome where
  | taken
  | failed
  | raised
deriving DecidableEq

structure TelemetryClient where
  enabled : Bool
  queueSize : ℕ := 5000
  batchSize : ℕ := 100
  queue : List Submitted := []
  phase : FlushPhase
  stopEvent : Bool := false
  enqueued : ℕ := 0
  dropped : ℕ := 0
  settled : List (Submitted × Bool) := []

namespace TelemetryClient

/-- `submit`; a queue of size 0 has no bound. -/
def submit (s : TelemetryClient) (event : Obj) : TelemetryClient :=
  let s' := { s with enqueued := s.enqueued + 1 }
  if !s.enabled ∨ s.queueSize ≠ 0 ∧ s.queueSize ≤ s.queue.length then
    { s' with dropped := s.dropped + 1 }
  else { s' with queue := s.queue ++ [⟨s.enqueued, event⟩] }

/-- The head of the loop of `_run`, or its end. -/
def next (s : TelemetryClient) (final : Bool) : TelemetryClient :=
  { s with phase := if final then .ended else .collecting s.stopEvent [] }

/-- `_collect_batch` returns. -/
def collected (s : TelemetryClient) (final : Bool) (batch : List Submitted) : TelemetryClient :=
  if batch = [] then s.next final else { s with phase := .posting final batch }

/-- `_post` returns, and the loop goes on. -/
def settle (s : TelemetryClient) (final : Bool) (batch : List Submitted) (ok : Bool) :
    TelemetryClient :=
  { s with settled := s.settled ++ batch.map fun r => (r, ok) }.next final

/-- The thread goes on; `outcome` is what becomes of a POST. -/
def threadStep (s : TelemetryClient) (outcome : PostOutcome) : TelemetryClient :=
  match s.phase with
  | .collecting final batch =>
    if batch.length < s.batchSize then
      match s.queue with
      | r :: rest => { s with queue := rest, phase := .collecting final (batch ++ [r]) }
      | [] => s.collected final batch
    else s.collected final batch
  | .posting final batch =>
    match outcome with
    | .taken => s.settle final batch true
    | .failed => s.settle final batch false
    | .raised => { s with phase := .died batch }
  | .ended => s
  | .died _ => s

/-- `stop`, up to the join. -/
def stop (s : TelemetryClient) : TelemetryClient := { s with stopEvent := true }

/-- What `stop` leaves: the join gives the thread as many steps as it has time for. -/
def stopped (s : TelemetryClient) (outcomes : List PostOutcome) : TelemetryClient :=
  Lib.run threadStep s.stop outcomes

/-- `stats.posted` -/
def posted (s : TelemetryClient) : ℕ := s.settled.countP (·.2)

/-- `stats.failed` -/
def failed (s : TelemetryClient) : ℕ := s.settled.countP (!·.2)

end TelemetryClient

/-- What happens before `stop`: listeners and the attribution worker, which `stop` drains first,
submit, and the thread runs. -/
inductive TelemetryOp where
  | submit (event : Obj)
  | thread (outcome : PostOutcome)

def telemetryStep (s : TelemetryClient) : TelemetryOp → TelemetryClient
  | .submit event => s.submit event
  | .thread outcome => s.threadStep outcome

/-- A client whose thread has just started, if it was. -/
def openedClient (enabled started : Bool) (queueSize batchSize : ℕ) : TelemetryClient where
  enabled := enabled
  queueSize := queueSize
  batchSize := batchSize
  phase := if started then .collecting false [] else .ended

/-! ## How far the thread gets -/

namespace TelemetryClient

/-- How many more events the thread takes from the queue once `stop` is called: it fills the batch
it is collecting, and after the loop one more. -/
def capacity (s : TelemetryClient) : ℕ :=
  match s.phase with
  | .collecting true batch => s.batchSize - batch.length
  | .collecting false batch => s.batchSize - batch.length + s.batchSize
  | .posting true _ => 0
  | .posting false _ => s.batchSize
  | .ended => 0
  | .died _ => 0

/-- How many steps the thread needs to settle what it has and what is queued: one for each event it
takes, and two for each batch. -/
def stepsLeft (s : TelemetryClient) : ℕ :=
  match s.phase, s.queue.length with
  | .collecting _ batch, 0 => if batch = [] then 0 else 2
  | .collecting _ batch, q + 1 => if q < s.batchSize - batch.length then q + 3 else q + 5
  | .posting _ _, 0 => 1
  | .posting _ _, q + 1 => q + 4
  | .ended, _ => 0
  | .died _, _ => 0

/-- The POST of a step, if it is one, does not raise what ends the thread. -/
def Survives (s : TelemetryClient) (outcome : PostOutcome) : Prop :=
  outcome = .raised → ∀ final batch, s.phase ≠ .posting final batch

/-- The thread is done when nothing is queued and nothing in its hands. -/
def Idle (s : TelemetryClient) : Prop := s.phase.batch = [] ∧ s.queue = []

/-- Stopping, with a thread that did not die. -/
structure Stopping (s : TelemetryClient) : Prop where
  stopEvent : s.stopEvent = true
  filled : s.phase.Filled
  alive : ∀ batch, s.phase ≠ .died batch

theorem idle_iff {s : TelemetryClient} (h : s.Stopping) :
    s.Idle ↔ s.queue.length ≤ s.capacity ∧ s.stepsLeft = 0 := by
  obtain ⟨enabled, queueSize, batchSize, queue, phase, stopEvent, enqueued, dropped, settled⟩ := s
  cases phase with
  | collecting final batch =>
    cases queue with
    | nil => cases final <;> simp [Idle, FlushPhase.batch, stepsLeft]
    | cons r rest =>
      simp only [Idle, stepsLeft, length_cons]
      split_ifs <;> simp
  | posting final batch =>
    have hb : batch ≠ [] := h.filled
    cases queue <;> simp [Idle, FlushPhase.batch, stepsLeft, hb]
  | ended => cases queue <;> simp [Idle, FlushPhase.batch, stepsLeft, capacity]
  | died batch => exact absurd rfl (h.alive batch)

/-- A step with `stop` called: what fits goes on to fit, and one step less is left. -/
structure Advances (s s' : TelemetryClient) : Prop where
  stopping : s'.Stopping
  fits : s'.queue.length ≤ s'.capacity ↔ s.queue.length ≤ s.capacity
  left : s.queue.length ≤ s.capacity → s'.stepsLeft = s.stepsLeft - 1

variable {s : TelemetryClient}

/-- A POST, or a batch that stays empty, leads to the head of the loop or to its end. -/
theorem advances_next (h : s.Stopping) {final : Bool}
    (hphase : s.phase = .collecting final [] ∧ (s.batchSize = 0 ∨ s.queue = []) ∨
      ∃ batch, s.phase = .posting final batch) (settled : List (Submitted × Bool)) :
    s.Advances ({ s with settled := settled }.next final) := by
  obtain ⟨enabled, queueSize, batchSize, queue, phase, stopEvent, enqueued, dropped, old⟩ := s
  have hstop : stopEvent = true := h.stopEvent
  subst hstop
  dsimp only at hphase
  refine ⟨⟨rfl, by cases final <;> trivial, by cases final <;> simp [next]⟩, ?_, fun hfits => ?_⟩
  · rcases hphase with ⟨rfl, rfl | rfl⟩ | ⟨batch, rfl⟩ <;> cases final <;> simp [next, capacity]
  · rcases hphase with ⟨rfl, rfl | rfl⟩ | ⟨batch, rfl⟩
    · have hempty : queue = [] := by
        cases final <;> simpa [capacity] using hfits
      subst hempty
      cases final <;> simp [next, stepsLeft]
    · cases final <;> simp [next, stepsLeft]
    · cases queue with
      | nil => cases final <;> simp [next, stepsLeft]
      | cons r rest =>
        cases final with
        | true => simp [capacity] at hfits
        | false =>
          have hlt : rest.length < batchSize := hfits
          simp [next, stepsLeft, hlt]

/-- A batch that is not empty is posted next. -/
theorem advances_collected (h : s.Stopping) {final : Bool} {batch : List Submitted}
    (hphase : s.phase = .collecting final batch) (hend : s.batchSize ≤ batch.length ∨ s.queue = []) :
    s.Advances (s.collected final batch) := by
  by_cases hb : batch = []
  · subst hb
    rw [collected, if_pos rfl]
    refine advances_next h (Or.inl ⟨hphase, ?_⟩) s.settled
    rcases hend with hfull | hempty
    · exact Or.inl (Nat.le_zero.mp hfull)
    · exact Or.inr hempty
  · rw [collected, if_neg hb]
    obtain ⟨enabled, queueSize, batchSize, queue, phase, stopEvent, enqueued, dropped, old⟩ := s
    dsimp only at hphase
    subst hphase
    refine ⟨⟨h.stopEvent, hb, by simp⟩, ?_, fun hfits => ?_⟩
    · rcases hend with hfull | hempty
      · have hroom : batchSize - batch.length = 0 := Nat.sub_eq_zero_of_le hfull
        cases final <;> simp [capacity, hroom]
      · have hempty : queue = [] := hempty
        simp [hempty]
    · cases queue with
      | nil => simp [stepsLeft, hb]
      | cons r rest =>
        rcases hend with hfull | hempty
        · have hroom : batchSize - batch.length = 0 := Nat.sub_eq_zero_of_le hfull
          simp [stepsLeft, hroom]
        · exact absurd hempty (cons_ne_nil _ _)

/-- An event goes from the queue to the batch. -/
theorem advances_get (h : s.Stopping) {final : Bool} {batch rest : List Submitted} {r : Submitted}
    (hphase : s.phase = .collecting final batch) (hroom : batch.length < s.batchSize)
    (hqueue : s.queue = r :: rest) :
    s.Advances { s with queue := rest, phase := .collecting final (batch ++ [r]) } := by
  obtain ⟨enabled, queueSize, batchSize, queue, phase, stopEvent, enqueued, dropped, old⟩ := s
  dsimp only at hphase hqueue hroom
  subst hphase hqueue
  refine ⟨⟨h.stopEvent, trivial, by simp⟩, ?_, fun hfits => ?_⟩
  · have hlength : (batch ++ [r]).length = batch.length + 1 := length_append
    cases final <;> simp only [capacity, hlength, length_cons] <;> omega
  · cases rest with
    | nil =>
      have hleft : 0 < batchSize - batch.length := Nat.sub_pos_of_lt hroom
      simp [stepsLeft, hleft]
    | cons r' rest =>
      have hlength : (batch ++ [r]).length = batch.length + 1 := length_append
      simp only [stepsLeft, hlength, length_cons]
      split_ifs <;> omega

theorem advances_threadStep (h : s.Stopping) {outcome : PostOutcome} (hsurvives : s.Survives outcome) :
    s.Advances (s.threadStep outcome) := by
  unfold threadStep
  cases hphase : s.phase with
  | collecting final batch =>
    dsimp only
    split_ifs with hroom
    · cases hqueue : s.queue with
      | nil => exact advances_collected h hphase (Or.inr hqueue)
      | cons r rest => exact advances_get h hphase hroom hqueue
    · exact advances_collected h hphase (Or.inl (not_lt.mp hroom))
  | posting final batch =>
    cases outcome with
    | taken => exact advances_next h (Or.inr ⟨batch, hphase⟩) _
    | failed => exact advances_next h (Or.inr ⟨batch, hphase⟩) _
    | raised => exact absurd hphase (hsurvives rfl final batch)
  | ended =>
    refine ⟨h, Iff.rfl, fun _ => ?_⟩
    rw [stepsLeft, hphase]
    rfl
  | died batch => exact absurd hphase (h.alive batch)

/-- A thread that died has a batch in its hands for good. -/
theorem not_idle_of_died {batch : List Submitted} (hphase : s.phase = .died batch) (hb : batch ≠ [])
    (outcomes : List PostOutcome) : ¬ (Lib.run threadStep s outcomes).Idle := by
  have hdied : (Lib.run threadStep s outcomes).phase = .died batch := by
    refine Lib.run_invariant threadStep (P := fun s => s.phase = .died batch) hphase ?_ outcomes
    intro s outcome h
    rw [threadStep, h]
    exact h
  rintro ⟨hnone, -⟩
  rw [hdied] at hnone
  exact hb hnone

/-- After as many steps as the join has time for, the thread is done if all fits, the steps suffice
and no POST ends the thread, and not otherwise. -/
theorem idle_run_iff (h : s.Stopping) (outcomes : List PostOutcome) :
    (Lib.run threadStep s outcomes).Idle ↔ s.queue.length ≤ s.capacity ∧
      s.stepsLeft ≤ outcomes.length ∧ Lib.Along threadStep Survives s outcomes := by
  induction outcomes generalizing s with
  | nil =>
    rw [Lib.run_nil, idle_iff h, length_nil, Nat.le_zero, Lib.Along, and_true]
  | cons outcome outcomes ih =>
    rw [Lib.run_cons, Lib.Along, length_cons]
    by_cases hsurvives : s.Survives outcome
    · have hstep := advances_threadStep h hsurvives
      rw [ih hstep.stopping, hstep.fits]
      refine and_congr_right fun hfits => ?_
      rw [hstep.left hfits, Nat.sub_le_iff_le_add]
      exact and_congr_right fun _ => (and_iff_right hsurvives).symm
    · refine iff_of_false ?_ fun hall => hsurvives hall.2.2.1
      unfold Survives at hsurvives
      push Not at hsurvives
      obtain ⟨rfl, final, batch, hphase⟩ := hsurvives
      have hfilled := h.filled
      rw [hphase] at hfilled
      have hdied : (s.threadStep .raised).phase = .died batch := by rw [threadStep, hphase]
      exact not_idle_of_died hdied hfilled outcomes

/-! ## What the thread does to the events -/

/-- The events that were not dropped, in the order in which they are settled. -/
def kept (s : TelemetryClient) : List Submitted :=
  s.settled.map Prod.fst ++ (s.phase.batch ++ s.queue)

theorem kept_settle (final : Bool) {batch : List Submitted} (hphase : s.phase.batch = batch)
    (ok : Bool) :
    (s.settle final batch ok).kept = s.kept := by
  have hbatch : (s.next final).phase.batch = [] := by cases final <;> rfl
  have hfst : (batch.map fun r => (r, ok)).map Prod.fst = batch := by
    rw [map_map]
    exact map_id _
  show (s.settled ++ _).map Prod.fst ++ ((s.next final).phase.batch ++ s.queue) = _
  rw [hbatch, map_append, hfst, kept, hphase, nil_append, append_assoc]

theorem kept_collected {final : Bool} {batch : List Submitted} (hphase : s.phase.batch = batch) :
    (s.collected final batch).kept = s.kept := by
  by_cases hb : batch = []
  · subst hb
    rw [collected, if_pos rfl]
    have hsettle := kept_settle final hphase true
    rwa [settle, map_nil, append_nil] at hsettle
  · rw [collected, if_neg hb, kept, kept, hphase]
    rfl

/-- The thread settles events in the order in which they came. -/
theorem kept_threadStep (s : TelemetryClient) (outcome : PostOutcome) :
    (s.threadStep outcome).kept = s.kept := by
  unfold threadStep
  cases hphase : s.phase with
  | collecting final batch =>
    have hbatch : s.phase.batch = batch := by rw [hphase]; rfl
    dsimp only
    split_ifs
    · cases hqueue : s.queue with
      | nil => exact kept_collected hbatch
      | cons r rest =>
        rw [kept, kept, hbatch, hqueue]
        show _ ++ (batch ++ [r] ++ rest) = _
        rw [append_assoc, singleton_append]
    · exact kept_collected hbatch
  | posting final batch =>
    have hbatch : s.phase.batch = batch := by rw [hphase]; rfl
    cases outcome with
    | taken => exact kept_settle final hbatch true
    | failed => exact kept_settle final hbatch false
    | raised =>
      rw [kept, kept, hbatch]
      rfl
  | ended => rfl
  | died batch => rfl

theorem kept_run (s : TelemetryClient) (outcomes : List PostOutcome) :
    (Lib.run threadStep s outcomes).kept = s.kept := by
  induction outcomes generalizing s with
  | nil => rfl
  | cons outcome outcomes ih => rw [Lib.run_cons, ih, kept_threadStep]

/-! ## Runs -/

/-- The events kept have different numbers, in their order, and no empty batch is posted. -/
structure Numbered (s : TelemetryClient) : Prop where
  increasing : s.kept.Pairwise fun r r' => r.seq < r'.seq
  below : ∀ r ∈ s.kept, r.seq < s.enqueued
  filled : s.phase.Filled

theorem Numbered.submit (h : s.Numbered) (event : Obj) : (s.submit event).Numbered := by
  unfold TelemetryClient.submit
  dsimp only
  split_ifs
  · exact ⟨h.increasing, fun r hr => Nat.lt_succ_of_lt (h.below r hr), h.filled⟩
  · have hkept : s.settled.map Prod.fst ++ (s.phase.batch ++ (s.queue ++ [⟨s.enqueued, event⟩])) =
        s.kept ++ [⟨s.enqueued, event⟩] := by
      rw [kept, append_assoc, append_assoc]
    refine ⟨?_, ?_, h.filled⟩
    · show (s.settled.map Prod.fst ++ (s.phase.batch ++ (s.queue ++ [_]))).Pairwise _
      rw [hkept, pairwise_append]
      refine ⟨h.increasing, pairwise_singleton _ _, fun r hr r' hr' => ?_⟩
      rw [mem_singleton.mp hr']
      exact h.below r hr
    · show ∀ r ∈ s.settled.map Prod.fst ++ (s.phase.batch ++ (s.queue ++ [_])), _
      rw [hkept]
      intro r hr
      rcases mem_append.mp hr with hr | hr
      · exact Nat.lt_succ_of_lt (h.below r hr)
      · rw [mem_singleton.mp hr]
        exact Nat.lt_succ_self _

theorem filled_threadStep (h : s.phase.Filled) (outcome : PostOutcome) :
    (s.threadStep outcome).phase.Filled := by
  have hnext : ∀ (s : TelemetryClient) (final : Bool), (s.next final).phase.Filled := by
    intro s final
    cases final <;> trivial
  have hcollected : ∀ (final : Bool) (batch : List Submitted),
      (s.collected final batch).phase.Filled := by
    intro final batch
    unfold collected
    split_ifs with hb
    · exact hnext s final
    · exact hb
  unfold threadStep
  cases hphase : s.phase with
  | collecting final batch =>
    dsimp only
    split_ifs
    · cases s.queue with
      | nil => exact hcollected final batch
      | cons r rest => trivial
    · exact hcollected final batch
  | posting final batch =>
    cases outcome with
    | taken => exact hnext _ final
    | failed => exact hnext _ final
    | raised =>
      rw [hphase] at h
      exact h
  | ended => exact h
  | died batch => exact h

theorem enqueued_threadStep (s : TelemetryClient) (outcome : PostOutcome) :
    (s.threadStep outcome).enqueued = s.enqueued := by
  have hcollected : ∀ (f : Bool) (batch : List Submitted),
      (s.collected f batch).enqueued = s.enqueued := by
    intro f batch
    unfold collected
    split_ifs <;> rfl
  unfold threadStep
  cases s.phase with
  | collecting f batch =>
    dsimp only
    split_ifs
    · cases s.queue with
      | nil => exact hcollected f batch
      | cons r rest => rfl
    · exact hcollected f batch
  | posting f batch => cases outcome <;> rfl
  | ended => rfl
  | died batch => rfl

theorem Numbered.step (h : s.Numbered) (op : TelemetryOp) : (telemetryStep s op).Numbered := by
  cases op with
  | submit event => exact h.submit event
  | thread outcome =>
    refine ⟨?_, ?_, filled_threadStep h.filled outcome⟩
    · rw [telemetryStep, kept_threadStep]
      exact h.increasing
    · rw [telemetryStep, kept_threadStep, enqueued_threadStep]
      exact h.below

theorem numbered_opened (enabled started : Bool) (queueSize batchSize : ℕ) :
    (openedClient enabled started queueSize batchSize).Numbered := by
  cases started <;>
    exact ⟨List.Pairwise.nil, by simp [openedClient, kept, FlushPhase.batch], trivial⟩

/-- A client that is done has settled all it kept; one that is not has yet to settle the newest. -/
theorem settled_all_iff {s s' : TelemetryClient} (h : s.Numbered) (hkept : s'.kept = s.kept)
    (hqueue : s.queue ≠ []) : (∀ r ∈ s.queue, r ∈ s'.settled.map Prod.fst) ↔ s'.Idle := by
  constructor
  · intro hall
    by_contra hbusy
    -- the newest event is in the hands or in the queue, and settled: it would be there twice
    have hrest : s'.phase.batch ++ s'.queue ≠ [] := by
      intro hnil
      exact hbusy (append_eq_nil_iff.mp hnil)
    obtain ⟨older, newest, hsplit⟩ : ∃ older newest, s.queue = older ++ [newest] :=
      ⟨_, _, (dropLast_append_getLast hqueue).symm⟩
    obtain ⟨busy, last, hbusy'⟩ : ∃ busy last, s'.phase.batch ++ s'.queue = busy ++ [last] :=
      ⟨_, _, (dropLast_append_getLast hrest).symm⟩
    have hends : (s'.settled.map Prod.fst ++ busy) ++ [last] =
        (s.settled.map Prod.fst ++ (s.phase.batch ++ older)) ++ [newest] := by
      rw [kept, hbusy', kept, hsplit] at hkept
      simpa only [append_assoc] using hkept
    have hlast : last = newest := (append_inj' hends rfl).2 |> singleton_inj.mp
    have hincreasing := h.increasing
    rw [← hkept, kept, hbusy', pairwise_append] at hincreasing
    have hmem : newest ∈ s'.settled.map Prod.fst := hall newest (by rw [hsplit]; simp)
    have hlt := hincreasing.2.2 newest hmem last (by simp)
    rw [hlast] at hlt
    exact absurd hlt (Nat.lt_irrefl _)
  · rintro ⟨hbatch, hempty⟩ r hr
    have hall : s'.settled.map Prod.fst = s.kept := by
      rw [← hkept, kept, hbatch, hempty, append_nil, append_nil]
    rw [hall, kept]
    exact mem_append_right _ (mem_append_right _ hr)

/-- When `stop` returns, every event that was in the queue has been carried by a POST exactly if the
queue was no longer than what the thread still takes, the join gave it the time for that, and no POST
ended the thread. -/
theorem stop_settles_iff (enabled started : Bool) (queueSize batchSize : ℕ) (ops : List TelemetryOp)
    (outcomes : List PostOutcome) :
    let s := Lib.run telemetryStep (openedClient enabled started queueSize batchSize) ops
    (∀ r ∈ s.queue, r ∈ (s.stopped outcomes).settled.map Prod.fst) ↔
      s.queue = [] ∨ s.queue.length ≤ s.capacity ∧ s.stepsLeft ≤ outcomes.length ∧
        Lib.Along threadStep Survives s.stop outcomes := by
  intro s
  have hnumbered : s.Numbered := Lib.run_invariant telemetryStep
    (numbered_opened enabled started queueSize batchSize) (fun _ op h => h.step op) ops
  by_cases hqueue : s.queue = []
  · rw [hqueue]
    simp
  · have hdone : (s.stopped outcomes).Idle ↔ s.queue.length ≤ s.capacity ∧
        s.stepsLeft ≤ outcomes.length ∧ Lib.Along threadStep Survives s.stop outcomes := by
      by_cases halive : ∃ batch, s.phase = .died batch
      · -- a thread that died before takes nothing more
        obtain ⟨batch, hphase⟩ := halive
        have hfilled := hnumbered.filled
        rw [hphase] at hfilled
        have hcapacity : s.capacity = 0 := by rw [capacity, hphase]
        refine iff_of_false (not_idle_of_died (s := s.stop) hphase hfilled outcomes) fun hall => ?_
        rw [hcapacity] at hall
        exact hqueue (length_eq_zero_iff.mp (Nat.le_zero.mp hall.1))
      · push Not at halive
        have hstopping : s.stop.Stopping := ⟨rfl, hnumbered.filled, halive⟩
        exact idle_run_iff hstopping outcomes
    have hkept : (s.stopped outcomes).kept = s.kept := kept_run s.stop outcomes
    rw [settled_all_iff hnumbered hkept hqueue, hdone]
    constructor
    · exact Or.inr
    · rintro (hempty | hfits)
      · exact absurd hempty hqueue
      · exact hfits

end TelemetryClient

end PtaasBench.EdgeResolver
