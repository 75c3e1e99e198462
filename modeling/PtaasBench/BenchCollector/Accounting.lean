import PtaasBench.BenchCollector.Sequence
import PtaasBench.BenchCollector.Reconcile
import PtaasBench.Lib.Ledger

/-!
# PtaasBench.BenchCollector.Accounting — what became of every accepted event

A ghost history goes along with the collector: every event it accepts is entered in a ledger,
refused if the queue is full, and settled when the writer is done with it.  The rows are the
settled entries that were stored, in order of arrival; the drop counters count the others of
the process that is running.  What a process has in memory when it dies is lost.
-/

namespace PtaasBench.BenchCollector

open Py Lib List

/-- An accepted event, and the run that was active when it was sent. -/
structure Submitted where
  event : QueuedEvent
  active : Option String

/-- What the writer made of an event. -/
inductive Outcome where
  | stored (seq : ℕ)
  | writeError

def Outcome.isStored : Outcome → Bool
  | stored _ => true
  | writeError => false

/-- The row of a settled event. -/
def storedRow : Submitted × Outcome → Option StoredEvent
  | (e, .stored seq) => some { e.event with seq := seq }
  | (_, .writeError) => none

def submitted (d : Deployment) (s : Collector) (op : Op) : List Submitted :=
  (intake d s op).map fun e => { event := e, active := s.activeRunId }

/-- Everything a sequence of operations accepts, in order. -/
def accepted (d : Deployment) (s : Collector) : List Op → List Submitted
  | [] => []
  | op :: ops => submitted d s op ++ accepted d (step d s op) ops

/-- What the process has in memory: in the hands of the writer, then queued. -/
def Collector.pending (s : Collector) : List QueuedEvent :=
  s.inflight.map StoredEvent.toQueuedEvent ++ s.queue.flatten

section Accepted

variable (d : Deployment)

theorem accepted_append (s : Collector) (ops ops' : List Op) :
    accepted d s (ops ++ ops') = accepted d s ops ++ accepted d (run d s ops) ops' := by
  induction ops generalizing s with
  | nil => rfl
  | cons op ops ih =>
    rw [cons_append, accepted, ih, accepted, append_assoc]
    rfl

theorem accepted_concat (s : Collector) (ops : List Op) (op : Op) :
    accepted d s (ops ++ [op]) = accepted d s ops ++ submitted d (run d s ops) op := by
  rw [accepted_append, accepted, accepted, append_nil]

end Accepted

/-! ## The collector's memory -/

section Pending

variable {d : Deployment} {s s' : Collector}

theorem pending_takesIn {items : List QueuedEvent} (h : TakesIn d s s' items) :
    s'.pending = s.pending ++ if queueFull d s then [] else items := by
  rw [Collector.pending, Collector.pending, h.store.inflight, h.queue, append_assoc]

theorem pending_sameFlow (h : SameFlow s s') : s'.pending = s.pending := by
  rw [Collector.pending, h.inflight, h.queue]
  rfl

theorem pending_writerTake (d : Deployment) (s : Collector) :
    (writerTake d s).pending = s.pending := by
  unfold writerTake
  split
  · rename_i batch queue hinflight hqueue
    show (assignSeqs s.seqs (coalesce d batch queue).1).2.map StoredEvent.toQueuedEvent ++
      (coalesce d batch queue).2.flatten = s.pending
    rw [map_assignSeqs, coalesce_flatten, Collector.pending, hinflight, hqueue]
    rfl
  · rfl

theorem pending_writerDone (committed : Bool) (s : Collector) :
    (writerDone committed s).pending = s.pending.drop s.inflight.length := by
  have hqueue : (writerDone committed s).pending = s.queue.flatten := by
    cases committed <;> simp [writerDone, Collector.pending]
  rw [hqueue, Collector.pending, drop_append_of_le_length, drop_eq_nil_of_le,
    nil_append] <;> simp

theorem pending_start (d : Deployment) (runs : List Run) (rows : List StoredEvent) :
    (start d runs rows).pending = [] := by
  unfold start restoreState
  split <;> rfl

end Pending

/-! ## The history -/

/-- The books of the process that is running, and what is left of those before it. -/
structure Books where
  past : List (Submitted × Fate Outcome) := []
  current : Ledger Submitted Outcome := {}

/-- Every event that was ever accepted, with its fate. -/
def Books.log (b : Books) : List (Submitted × Fate Outcome) := b.past ++ b.current.log

/-- What the end of a transaction means for the events in it. -/
def outcomesOf (committed : Bool) (inflight : List StoredEvent) : List Outcome :=
  inflight.map fun e => if committed then .stored e.seq else .writeError

/-- What an operation adds to the books. -/
def record (d : Deployment) (s : Collector) (b : Books) : Op → Books
  | .writerDone committed =>
    { past := b.past
      current := b.current.settle (outcomesOf committed s.inflight) }
  | .restart => { past := b.past ++ b.current.closed }
  | op =>
    { past := b.past
      current := b.current.enter (!queueFull d s) (submitted d s op) }

structure Accounts (s : Collector) (b : Books) : Prop where
  waiting : b.current.waiting.map Submitted.event = s.pending
  active : ∀ e ∈ b.log, e.1.active = some e.1.event.runId
  rows : s.rows = (Ledger.outcomes b.log).filterMap storedRow
  overflow : s.counters.droppedOverflow = b.current.refusals
  writeError : s.counters.droppedWriteError = b.current.settled.countP (!·.2.isStored)
  written : s.counters.written = b.current.settled.countP (·.2.isStored)
  decided : ∀ e ∈ b.past, e.2 = .refused ∨ (∃ o, e.2 = .settled o) ∨ e.2 = .lost

section Steps

variable {d : Deployment} {s s' : Collector} {b : Books}

theorem settled_log (b : Books) :
    Ledger.outcomes b.log = Ledger.outcomes b.past ++ b.current.settled := by
  rw [Books.log, Ledger.outcomes_append, Ledger.outcomes_log]

/-- New events are queued, or refused and counted. -/
theorem accounts_takesIn (h : Accounts s b) {items : List QueuedEvent}
    (ht : TakesIn d s s' items) (hitems : ∀ e ∈ items, s.activeRunId = some e.runId) :
    Accounts s'
      { past := b.past
        current := b.current.enter (!queueFull d s)
          (items.map fun e => { event := e, active := s.activeRunId }) } := by
  have hmap : (items.map fun e => ({ event := e, active := s.activeRunId } : Submitted)).map
      Submitted.event = items := by simp [Function.comp_def]
  refine ⟨?_, fun e he => ?_, ?_, ?_, ?_, ?_, h.decided⟩
  · rw [pending_takesIn ht, ← h.waiting]
    cases hfull : queueFull d s with
    | true =>
      rw [if_pos rfl, append_nil]
      exact congrArg _ (Ledger.waiting_enter_false _ _)
    | false =>
      rw [if_neg Bool.false_ne_true]
      refine (congrArg _ (Ledger.waiting_enter_true _ _)).trans ?_
      rw [map_append, hmap]
  · have hmem : e.1 ∈ b.log.map Prod.fst ++
        items.map fun e => ({ event := e, active := s.activeRunId } : Submitted) := by
      rw [Books.log, map_append, append_assoc, ← Ledger.map_fst_enter, ← map_append]
      exact mem_map_of_mem he
    rcases mem_append.mp hmem with hmem | hmem
    · obtain ⟨e', he', heq⟩ := mem_map.mp hmem
      rw [← heq]
      exact h.active e' he'
    · obtain ⟨q, hq, heq⟩ := mem_map.mp hmem
      rw [← heq]
      exact hitems q hq
  · rw [ht.store.rows, h.rows, settled_log, settled_log, Ledger.settled_enter]
  · rw [ht.overflow, h.overflow, Ledger.refusals_enter, length_map]
    cases queueFull d s <;> rfl
  · rw [ht.writeError, h.writeError, Ledger.settled_enter]
  · rw [ht.written, h.written, Ledger.settled_enter]

/-- Nothing comes in, and what waits keeps waiting. -/
theorem Accounts.of_same (h : Accounts s b) (hpending : s'.pending = s.pending)
    (hrows : s'.rows = s.rows) (hcounters : s'.counters = s.counters) (waits : Bool) :
    Accounts s' { past := b.past, current := b.current.enter waits [] } := by
  have hnone : b.current.enter waits [] = b.current := by simp [Ledger.enter]
  rw [hnone]
  refine ⟨hpending ▸ h.waiting, h.active, hrows ▸ h.rows, ?_, ?_, ?_, h.decided⟩
  · rw [hcounters]
    exact h.overflow
  · rw [hcounters]
    exact h.writeError
  · rw [hcounters]
    exact h.written

theorem accounts_sameFlow (h : Accounts s b) (hs : SameFlow s s') (waits : Bool) :
    Accounts s' { past := b.past, current := b.current.enter waits [] } :=
  h.of_same (pending_sameFlow hs) hs.rows hs.counters waits

theorem accounts_writerTake (h : Accounts s b) (waits : Bool) :
    Accounts (writerTake d s) { past := b.past, current := b.current.enter waits [] } := by
  refine h.of_same (pending_writerTake d s) ?_ ?_ waits
  · unfold writerTake
    split <;> rfl
  · unfold writerTake
    split <;> rfl

/-- The rows of the oldest events that wait, once their transaction has ended. -/
theorem storedRow_zip (committed : Bool) (inflight : List StoredEvent) :
    ∀ (ws : List Submitted) {queued : List QueuedEvent},
      ws.map Submitted.event = inflight.map StoredEvent.toQueuedEvent ++ queued →
      (ws.zip (outcomesOf committed inflight)).filterMap storedRow =
        if committed then inflight else [] := by
  induction inflight with
  | nil =>
    intro ws queued _
    rw [outcomesOf, map_nil, zip_nil_right]
    cases committed <;> rfl
  | cons e inflight ih =>
    intro ws queued hws
    cases ws with
    | nil => exact absurd hws (by simp)
    | cons w ws =>
      rw [map_cons, map_cons, cons_append, List.cons.injEq] at hws
      have htail := ih ws hws.2
      cases committed with
      | false => exact htail
      | true =>
        have hrow : storedRow (w, .stored e.seq) = some e := by
          rw [storedRow, hws.1]
        show ((w, Outcome.stored e.seq) :: ws.zip (outcomesOf true inflight)).filterMap storedRow =
          e :: inflight
        rw [filterMap_cons_some hrow, htail]
        rfl

theorem isStored_outcomesOf {committed : Bool} {inflight : List StoredEvent} {o : Outcome}
    (ho : o ∈ outcomesOf committed inflight) : o.isStored = committed := by
  obtain ⟨e, _, rfl⟩ := mem_map.mp ho
  cases committed <;> rfl

theorem countP_zip_outcomesOf (committed : Bool) (inflight : List StoredEvent)
    (ws : List Submitted) (hlen : inflight.length ≤ ws.length) :
    (ws.zip (outcomesOf committed inflight)).countP (·.2.isStored) =
        (if committed then inflight.length else 0) ∧
      (ws.zip (outcomesOf committed inflight)).countP (!·.2.isStored) =
        if committed then 0 else inflight.length := by
  have hzip : (ws.zip (outcomesOf committed inflight)).length = inflight.length := by
    rw [length_zip, outcomesOf, length_map, Nat.min_eq_right hlen]
  have hall : ∀ e ∈ ws.zip (outcomesOf committed inflight), e.2.isStored = committed :=
    fun e he => isStored_outcomesOf (of_mem_zip he).2
  cases committed with
  | true =>
    refine ⟨?_, countP_eq_zero.mpr fun e he => by simp [hall e he]⟩
    rw [if_pos rfl, ← hzip]
    exact countP_eq_length.mpr hall
  | false =>
    refine ⟨countP_eq_zero.mpr fun e he => by simp [hall e he], ?_⟩
    rw [if_neg Bool.false_ne_true, ← hzip]
    exact countP_eq_length.mpr fun e he => by simp [hall e he]

/-- The batch in flight is settled: stored, or counted as a write error. -/
theorem accounts_writerDone (h : Accounts s b) (committed : Bool) :
    Accounts (writerDone committed s)
      { past := b.past, current := b.current.settle (outcomesOf committed s.inflight) } := by
  have hlen : (outcomesOf committed s.inflight).length = s.inflight.length := length_map _
  have hwaiting := h.waiting
  rw [Collector.pending] at hwaiting
  have hle : s.inflight.length ≤ b.current.waiting.length := by
    have := congrArg List.length hwaiting
    rw [length_map, length_append, length_map] at this
    omega
  obtain ⟨hstored, herror⟩ := countP_zip_outcomesOf committed s.inflight _ hle
  refine ⟨?_, fun e he => ?_, ?_, ?_, ?_, ?_, h.decided⟩
  · rw [Ledger.waiting_settle, hlen, map_drop, h.waiting, pending_writerDone]
  · have hmem : e.1 ∈ b.log.map Prod.fst := by
      rw [Books.log, map_append, ← Ledger.map_fst_settle, ← map_append]
      exact mem_map_of_mem he
    obtain ⟨e', he', heq⟩ := mem_map.mp hmem
    rw [← heq]
    exact h.active e' he'
  · have hrows := h.rows
    rw [settled_log] at hrows
    rw [settled_log, Ledger.settled_settle, ← append_assoc, filterMap_append, ← hrows,
      storedRow_zip committed s.inflight _ hwaiting]
    cases committed
    · exact (append_nil _).symm
    · rfl
  · rw [Ledger.refusals_settle, ← h.overflow]
    cases committed <;> rfl
  · rw [Ledger.settled_settle, countP_append, herror, ← h.writeError]
    cases committed <;> rfl
  · rw [Ledger.settled_settle, countP_append, hstored, ← h.written]
    cases committed <;> rfl

/-- A new process keeps what is in the database, and starts its own books. -/
theorem accounts_start (h : Accounts s b) :
    Accounts (start d s.runs s.rows) { past := b.past ++ b.current.closed } := by
  have hlog : Books.log { past := b.past ++ b.current.closed } = b.past ++ b.current.closed :=
    append_nil _
  have hcounters : (start d s.runs s.rows).counters = {} := by
    unfold start restoreState
    split <;> rfl
  refine ⟨?_, fun e he => ?_, ?_, ?_, ?_, ?_, fun e he => ?_⟩
  · rw [pending_start]
    rfl
  · have hmem : e.1 ∈ b.log.map Prod.fst := by
      rw [hlog] at he
      rw [Books.log, map_append, ← Ledger.map_fst_closed, ← map_append]
      exact mem_map_of_mem he
    obtain ⟨e', he', heq⟩ := mem_map.mp hmem
    rw [← heq]
    exact h.active e' he'
  · rw [rows_start, hlog, Ledger.outcomes_append, Ledger.outcomes_closed, ← settled_log]
    exact h.rows
  · rw [hcounters]
    rfl
  · rw [hcounters]
    rfl
  · rw [hcounters]
    rfl
  · rcases mem_append.mp he with he | he
    · exact h.decided e he
    · rcases Ledger.fate_of_mem_closed he with (hr | ho) | ⟨hl, -⟩
      · exact Or.inl hr
      · exact Or.inr (Or.inl ho)
      · exact Or.inr (Or.inr hl)

theorem accounts_step (h : Accounts s b) (op : Op) :
    Accounts (step d s op) (record d s b op) := by
  cases op with
  | ingestEvents draw peer raw =>
    exact accounts_takesIn h (takesIn_ingestEvents d draw peer raw s) (runId_of_mem_intake d s _)
  | postCorrelation draw peer raw =>
    exact accounts_takesIn h (takesIn_postCorrelation d draw peer raw s)
      (runId_of_mem_intake d s _)
  | openRun run force now => exact accounts_sameFlow h (sameFlow_openRun s run force now) _
  | closeRun runId closing now =>
    exact accounts_sameFlow h (sameFlow_closeRun s runId closing now) _
  | resume => exact accounts_sameFlow h (sameFlow_resume s) _
  | writerTake => exact accounts_writerTake h _
  | writerDone committed => exact accounts_writerDone h committed
  | restart => exact accounts_start h

end Steps

/-! ## Whole runs -/

section Runs

variable (d : Deployment)

/-- The collector and its books after a sequence of operations. -/
def history (ops : List Op) : Collector × Books :=
  Lib.run (fun h op => (step d h.1 op, record d h.1 h.2 op)) (initial d, {}) ops

theorem history_concat (ops : List Op) (op : Op) :
    history d (ops ++ [op]) =
      (step d (history d ops).1 op, record d (history d ops).1 (history d ops).2 op) :=
  run_concat _ _ ops op

theorem history_fst (ops : List Op) : (history d ops).1 = run d (initial d) ops :=
  map_run (fun h op => (step d h.1 op, record d h.1 h.2 op)) Prod.fst (fun _ _ => rfl)
    (initial d, {}) ops

theorem accounts_history (ops : List Op) :
    Accounts (run d (initial d) ops) (history d ops).2 := by
  rw [← history_fst]
  refine run_invariant (P := fun h : Collector × Books => Accounts h.1 h.2) _ ?_
    (fun h op hh => accounts_step hh op) ops
  have hstart : Accounts (initial d) { past := [] } := by
    refine accounts_start (s := { initial d with runs := [], rows := [] }) (b := {}) ?_
    exact ⟨rfl, fun e he => absurd he (not_mem_nil), rfl, rfl, rfl, rfl,
      fun e he => absurd he (not_mem_nil)⟩
  exact hstart

/-- The books of the processes before, up to the last restart, and of the one that is running. -/
theorem map_fst_history (ops : List Op) : ∃ before, ops = before ++ sinceStart ops ∧
    (history d ops).2.past.map Prod.fst = accepted d (initial d) before ∧
    (history d ops).2.current.log.map Prod.fst =
      accepted d (run d (initial d) before) (sinceStart ops) := by
  induction ops using List.reverseRecOn with
  | nil => exact ⟨[], rfl, rfl, rfl⟩
  | append_singleton ops op ih =>
    obtain ⟨before, hops, hpast, hcurrent⟩ := ih
    rw [history_concat, history_fst, sinceStart_concat]
    cases hrestart : op.isRestart with
    | true =>
      cases op with
      | restart =>
        refine ⟨ops ++ [.restart], (append_nil _).symm, ?_, rfl⟩
        have hnone : submitted d (run d (initial d) ops) .restart = [] := rfl
        rw [accepted_concat, hnone, append_nil]
        conv_rhs => rw [hops]
        rw [accepted_append, ← hpast, ← hcurrent, ← Ledger.map_fst_closed, ← map_append]
        rfl
      | _ => exact absurd hrestart (by simp [Op.isRestart])
    | false =>
      refine ⟨before, by rw [if_neg Bool.false_ne_true, ← append_assoc, ← hops], ?_, ?_⟩
      · cases op with
        | restart => exact absurd hrestart (by simp [Op.isRestart])
        | _ => exact hpast
      · have hrun : run d (run d (initial d) before) (sinceStart ops) = run d (initial d) ops := by
          rw [run, run, run, ← run_append, ← hops]
        rw [if_neg Bool.false_ne_true, accepted_concat, hrun, ← hcurrent]
        cases op with
        | restart => exact absurd hrestart (by simp [Op.isRestart])
        | writerDone committed =>
          exact (Ledger.map_fst_settle _ _).trans (append_nil _).symm
        | _ => exact Ledger.map_fst_enter _ _ _

/-- What is lost was in memory when a process ended. -/
theorem mem_pending_of_lost (ops : List Op) :
    ∀ e ∈ (history d ops).2.past, e.2 = .lost → ∃ before after, ops = before ++ .restart :: after ∧
      e.1.event ∈ (run d (initial d) before).pending := by
  induction ops using List.reverseRecOn with
  | nil => exact fun e he => absurd he not_mem_nil
  | append_singleton ops op ih =>
    have hold : ∀ e ∈ (history d ops).2.past, e.2 = .lost → ∃ before after,
        ops ++ [op] = before ++ .restart :: after ∧
          e.1.event ∈ (run d (initial d) before).pending := by
      intro e he hlost
      obtain ⟨before, after, hops, hmem⟩ := ih e he hlost
      exact ⟨before, after ++ [op], by rw [hops, append_assoc, cons_append], hmem⟩
    intro e he hlost
    rw [history_concat, history_fst] at he
    cases op with
    | restart =>
      rcases mem_append.mp he with he | he
      · exact hold e he hlost
      · refine ⟨ops, [], rfl, ?_⟩
        rw [← (accounts_history d ops).waiting]
        rcases Ledger.fate_of_mem_closed he with (hr | ⟨o, ho⟩) | ⟨-, hwaiting⟩
        · exact absurd (hr.symm.trans hlost) (by simp)
        · exact absurd (ho.symm.trans hlost) (by simp)
        · exact mem_map_of_mem hwaiting
    | _ => exact hold e he hlost

/-- **Ingestion accounts for everything it accepts.**  The rows are numbered in order and counted
with their run.  Every accepted event has one fate: refused and counted, stored as one row, counted
as a write error, still in memory, or lost with the memory of a process that was restarted. -/
theorem run_accounted (ops : List Op) :
    let s := run d (initial d) ops
    Increasing s.rows ∧ (∀ r ∈ s.runs, r.eventCount = s.rows.countP (·.runId = r.runId)) ∧
      ∃ (before : List Op) (earlier current : List (Submitted × Fate Outcome)),
        ops = before ++ sinceStart ops ∧
        earlier.map Prod.fst = accepted d (initial d) before ∧
        current.map Prod.fst = accepted d (run d (initial d) before) (sinceStart ops) ∧
        (∀ e ∈ earlier ++ current, e.1.active = some e.1.event.runId) ∧
        s.rows = (Ledger.outcomes (earlier ++ current)).filterMap storedRow ∧
        s.counters.droppedOverflow = current.countP (·.2.isRefused) ∧
        s.counters.droppedWriteError = (Ledger.outcomes current).countP (!·.2.isStored) ∧
        (∀ e ∈ earlier, e.2 = .refused ∨ (∃ o, e.2 = .settled o) ∨
          e.2 = .lost ∧ ∃ before after, ops = before ++ .restart :: after ∧
            e.1.event ∈ (run d (initial d) before).pending) ∧
        (s.pending = [] → ∀ e ∈ current, e.2 = .refused ∨ ∃ o, e.2 = .settled o) := by
  intro s
  have hseq : Sequenced s := sequenced_run d ops
  have hacc : Accounts s (history d ops).2 := accounts_history d ops
  obtain ⟨before, hops, hpast, hcurrent⟩ := map_fst_history d ops
  refine ⟨(pairwise_append.mp hseq.increasing).1, hseq.counts, before,
    (history d ops).2.past, (history d ops).2.current.log, hops, hpast, hcurrent, hacc.active,
    hacc.rows, ?_, ?_, ?_, ?_⟩
  · rw [Ledger.countP_isRefused_log]
    exact hacc.overflow
  · rw [Ledger.outcomes_log]
    exact hacc.writeError
  · intro e he
    rcases hacc.decided e he with hr | ho | hl
    · exact Or.inl hr
    · exact Or.inr (Or.inl ho)
    · exact Or.inr (Or.inr ⟨hl, mem_pending_of_lost d ops e he hl⟩)
  · intro hpending e he
    rcases Ledger.fate_of_mem_log he with hdone | ⟨-, hwaiting⟩
    · exact hdone
    · have hmem := mem_map_of_mem (f := Submitted.event) hwaiting
      rw [hacc.waiting, hpending] at hmem
      exact absurd hmem not_mem_nil

end Runs

end PtaasBench.BenchCollector

namespace PtaasBench.BenchCollector.Notes

/-- A note that is queued when the process is restarted: accepted, not stored, not counted. -/
theorem restart_loses_note :
    let ops := openFirst ++ [post noteBody, .restart]
    let s := run deployment (initial deployment) ops
    (accepted deployment (initial deployment) ops).map (·.event.app) = ["shopfront"] ∧
      s.pending.isEmpty ∧ s.rows.isEmpty ∧ s.counters.dropped = 0 := by
  decide +kernel

end PtaasBench.BenchCollector.Notes
