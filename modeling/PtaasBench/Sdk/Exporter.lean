import Mathlib.Data.Int.Order.Basic
import Mathlib.Order.Lattice
import PtaasBench.Lib.Backlog
import PtaasBench.Lib.Machine

/-!
# PtaasBench.Sdk.Exporter — the queue and the worker of the Python agent (`_client.py`)

Any number of threads call `emit`; one worker thread takes batches and sends them.  A stretch
under `_lock` is one step, and so is a `_bump` outside it.  The records are numbered in the order in
which `emit` gets the lock.  What the agent did is kept beside its state in a `History` that no step
reads.
-/

namespace PtaasBench.Sdk.Exporter

open Lib List

structure TelemetryConfig where
  enabled : Bool := true
  queueMax : ℤ := 10000
  batchMax : ℤ := 500
  /-- A sender was passed in; it is called once per batch. -/
  injected : Bool := false

/-- Where the worker thread stands. -/
inductive Worker (ρ : Type*) where
  | idle
  /-- `_take` returned. -/
  | taken (batch : List ρ)
  /-- In the loop of `_send`, before the request goes out. -/
  | ready (batch : List ρ) (attempt : ℕ)
  /-- In `client.post`, or in the sender. -/
  | posted (batch : List ρ) (attempt : ℕ)
  /-- `_send` returned; the batch still counts as in flight. -/
  | done

structure TelemetryClient (ρ : Type*) where
  queue : List ρ := []
  inflight : ℤ := 0
  enqueued : ℕ := 0
  sent : ℕ := 0
  dropped : ℕ := 0
  sendFailures : ℕ := 0
  batches : ℕ := 0
  /-- Calls of `emit` that have left the lock and not counted their record yet. -/
  emitting : ℕ := 0
  worker : Worker ρ := .idle

section Client

variable {ρ : Type*} (cfg : TelemetryConfig)

def full (c : TelemetryClient ρ) : Prop := cfg.queueMax ≤ c.queue.length

instance (c : TelemetryClient ρ) : Decidable (full cfg c) :=
  inferInstanceAs (Decidable (cfg.queueMax ≤ c.queue.length))

/-- `emit` under the lock.  `popleft` on an empty queue raises, and `emit` swallows it. -/
def append (c : TelemetryClient ρ) (record : ρ) : TelemetryClient ρ :=
  if full cfg c then
    match c.queue with
    | [] => c
    | _ :: rest =>
      { c with
        queue := rest ++ [record]
        dropped := c.dropped + 1
        emitting := c.emitting + 1 }
  else { c with queue := c.queue ++ [record], emitting := c.emitting + 1 }

/-- `emit` after the lock: `_bump("enqueued")`. -/
def countEnqueued (c : TelemetryClient ρ) : TelemetryClient ρ :=
  if 0 < c.emitting then
    { c with enqueued := c.enqueued + 1, emitting := c.emitting - 1 }
  else c

/-- `_take` by a worker that holds nothing.  A negative limit is a true value. -/
def take (c : TelemetryClient ρ) : TelemetryClient ρ :=
  match c.worker with
  | .idle =>
    let count := min cfg.batchMax c.queue.length
    if count = 0 then c
    else
      let batch := c.queue.take count.toNat
      { c with
        inflight := c.inflight + 1
        queue := c.queue.drop count.toNat
        worker := if batch = [] then .idle else .taken batch }
  | _ => c

/-- `_send` up to its loop. -/
def begin (c : TelemetryClient ρ) : TelemetryClient ρ :=
  match c.worker with
  | .taken batch => { c with batches := c.batches + 1, worker := .ready batch 0 }
  | _ => c

def post (c : TelemetryClient ρ) : TelemetryClient ρ :=
  match c.worker with
  | .ready batch attempt => { c with worker := .posted batch attempt }
  | _ => c

/-- Is the attempt that just failed the last one? -/
def lastAttempt (attempt : ℕ) : Bool := cfg.injected || attempt != 0

/-- The attempt is over; `ok` says that an answer below 500 was read. -/
def answer (ok : Bool) (c : TelemetryClient ρ) : TelemetryClient ρ :=
  match c.worker with
  | .posted batch attempt =>
    if ok then { c with sent := c.sent + batch.length, worker := .done }
    else if lastAttempt cfg attempt then
      { c with sendFailures := c.sendFailures + 1, worker := .done }
    else { c with worker := .ready batch (attempt + 1) }
  | _ => c

/-- The `finally` of `_drain_all`. -/
def release (c : TelemetryClient ρ) : TelemetryClient ρ :=
  match c.worker with
  | .done => { c with inflight := c.inflight - 1, worker := .idle }
  | _ => c

/-- The records' half of `_idle`. -/
def idle (c : TelemetryClient ρ) : Bool := c.queue.isEmpty && c.inflight == 0

/-- One look of `flush` at the agent; `linksIdle` is what it finds in the lane of the links. -/
def flush (linksIdle : Bool) (c : TelemetryClient ρ) : Bool :=
  !cfg.enabled || (idle c && linksIdle)

end Client

/-! ## What happened -/

/-- A batch `_send` is done with: how often it was posted, and whether it was sent. -/
structure Settlement (ρ : Type*) where
  batch : List (Tagged ρ)
  tries : ℕ
  sent : Bool

structure History (ρ : Type*) where
  /-- Calls of `emit` that got the lock. -/
  calls : ℕ := 0
  emitted : List (Tagged ρ) := []
  refused : List (Tagged ρ) := []
  evictions : List (Eviction ρ) := []
  taken : List (List (Tagged ρ)) := []
  /-- The batches the sender was handed, attempt by attempt. -/
  handed : List (List (Tagged ρ)) := []
  settled : List (Settlement ρ) := []

structure Agent (ρ : Type*) where
  client : TelemetryClient (Tagged ρ) := {}
  history : History ρ := {}

inductive Op (ρ : Type*) where
  | append (body : ρ)
  | countEnqueued
  | take
  | begin
  | post
  | answer (ok : Bool)
  | release

section Agent

variable {ρ : Type*} (cfg : TelemetryConfig)

def stepClient (c : TelemetryClient (Tagged ρ)) (calls : ℕ) : Op ρ → TelemetryClient (Tagged ρ)
  | .append body => append cfg c { number := calls, body := body }
  | .countEnqueued => countEnqueued c
  | .take => take cfg c
  | .begin => begin c
  | .post => post c
  | .answer ok => answer cfg ok c
  | .release => release c

/-- What `emit` leaves behind in the history. -/
def History.append (c : TelemetryClient (Tagged ρ)) (h : History ρ) (record : Tagged ρ) :
    History ρ :=
  let h := { h with calls := h.calls + 1 }
  if full cfg c then
    match c.queue with
    | [] => { h with refused := h.refused ++ [record] }
    | oldest :: rest =>
      { h with
        emitted := h.emitted ++ [record]
        evictions := h.evictions ++ [{ entry := oldest, queue := oldest :: rest }] }
  else { h with emitted := h.emitted ++ [record] }

/-- What `_take` leaves behind. -/
def History.take (c : TelemetryClient (Tagged ρ)) (h : History ρ) : History ρ :=
  match c.worker with
  | .idle =>
    let batch := c.queue.take (min cfg.batchMax c.queue.length).toNat
    if batch = [] then h else { h with taken := h.taken ++ [batch] }
  | _ => h

/-- What the end of an attempt leaves behind. -/
def History.answer (ok : Bool) (c : TelemetryClient (Tagged ρ)) (h : History ρ) : History ρ :=
  match c.worker with
  | .posted batch attempt =>
    if ok || lastAttempt cfg attempt then
      { h with settled := h.settled ++ [{ batch := batch, tries := attempt + 1, sent := ok }] }
    else h
  | _ => h

def stepHistory (c : TelemetryClient (Tagged ρ)) (h : History ρ) : Op ρ → History ρ
  | .append body => h.append cfg c { number := h.calls, body := body }
  | .take => h.take cfg c
  | .post =>
    match c.worker with
    | .ready batch _ => { h with handed := h.handed ++ [batch] }
    | _ => h
  | .answer ok => h.answer cfg ok c
  | _ => h

/-- A disabled agent does nothing. -/
def step (a : Agent ρ) (op : Op ρ) : Agent ρ :=
  if cfg.enabled then
    { client := stepClient cfg a.client a.history.calls op
      history := stepHistory cfg a.client a.history op }
  else a

/-- What any interleaving of the threads leads to. -/
abbrev run (ops : List (Op ρ)) : Agent ρ := Lib.run (step cfg) {} ops

end Agent

/-! ## The books -/

section Books

variable {ρ : Type*}

/-- The batch the worker holds. -/
def Worker.batches : Worker ρ → List (List ρ)
  | .taken batch => [batch]
  | .ready batch _ => [batch]
  | .posted batch _ => [batch]
  | _ => []

/-- The attempts made at the batch the worker holds. -/
def Worker.attempts : Worker ρ → List (List ρ)
  | .ready batch attempt => List.replicate attempt batch
  | .posted batch attempt => List.replicate (attempt + 1) batch
  | _ => []

/-- What was taken off the queue, evicted or left in it. -/
structure Flow (cfg : TelemetryConfig) (c : TelemetryClient (Tagged ρ)) (h : History ρ) : Prop where
  bounded : (c.queue.length : ℤ) ≤ max cfg.queueMax 0
  backlog : Backlog h.emitted h.evictions h.taken.flatten c.queue
  fresh : ∀ r ∈ h.emitted, r.number < h.calls
  evictions : ∀ e ∈ h.evictions, cfg.queueMax ≤ e.queue.length
  dropped : c.dropped = h.evictions.length
  counted : c.enqueued + c.emitting = c.dropped + c.queue.length + h.taken.flatten.length
  refused : 1 ≤ cfg.queueMax → h.refused = []

/-- How often a batch that could not be sent is posted. -/
def TelemetryConfig.tries (cfg : TelemetryConfig) : ℕ := if cfg.injected then 1 else 2

/-- What the worker made of the batches it took. -/
structure Sending (cfg : TelemetryConfig) (c : TelemetryClient (Tagged ρ)) (h : History ρ) : Prop where
  taken : h.taken = h.settled.map Settlement.batch ++ c.worker.batches
  handed : h.handed = (h.settled.flatMap fun s => List.replicate s.tries s.batch) ++ c.worker.attempts
  tried : ∀ batch attempt,
    c.worker = .ready batch attempt ∨ c.worker = .posted batch attempt → attempt < cfg.tries
  settled : ∀ s ∈ h.settled,
    1 ≤ s.tries ∧ s.tries ≤ cfg.tries ∧ (s.sent = true ∨ s.tries = cfg.tries)
  inflight : c.worker = .idle ∨ 1 ≤ c.inflight
  nonneg : 0 ≤ c.inflight

theorem flow_empty (cfg : TelemetryConfig) : Flow cfg ({} : TelemetryClient (Tagged ρ)) {} where
  bounded := le_max_right _ _
  backlog := Backlog.empty
  fresh := fun _ hr => absurd hr not_mem_nil
  evictions := fun _ he => absurd he not_mem_nil
  dropped := rfl
  counted := rfl
  refused := fun _ => rfl

theorem sending_empty (cfg : TelemetryConfig) :
    Sending cfg ({} : TelemetryClient (Tagged ρ)) {} where
  taken := rfl
  handed := rfl
  tried := by
    rintro batch attempt (h | h) <;> cases h
  settled := fun _ hs => absurd hs not_mem_nil
  inflight := .inl rfl
  nonneg := le_rfl

/-! ## Every step keeps the books -/

variable {cfg : TelemetryConfig} {c : TelemetryClient (Tagged ρ)} {h : History ρ}

/-- The numbers of the records that came in. -/
theorem fresh_concat (hfresh : ∀ r ∈ h.emitted, r.number < h.calls) (body : ρ) :
    ∀ r ∈ h.emitted ++ [{ number := h.calls, body := body }], r.number < h.calls + 1 := by
  intro r hr
  rcases mem_append.mp hr with hr | hr
  · exact (hfresh r hr).trans (Nat.lt_succ_self _)
  · rw [mem_singleton.mp hr]
    exact Nat.lt_succ_self _

/-- A record finds room. -/
theorem flow_append_room (hf : Flow cfg c h) (hfull : ¬ full cfg c) (body : ρ) :
    Flow cfg (append cfg c { number := h.calls, body := body })
      (h.append cfg c { number := h.calls, body := body }) := by
  have hroom : (c.queue.length : ℤ) < cfg.queueMax := lt_of_not_ge hfull
  rw [append, if_neg hfull, History.append]
  simp only [if_neg hfull]
  refine ⟨?_, hf.backlog.push hf.fresh, fresh_concat hf.fresh body, hf.evictions, hf.dropped, ?_,
    hf.refused⟩
  · rw [length_append, length_singleton]
    push_cast
    exact (show (c.queue.length : ℤ) + 1 ≤ cfg.queueMax by omega).trans (le_max_left _ _)
  · have hcounted := hf.counted
    simp only [length_append, length_singleton]
    omega

/-- A record takes the place of the oldest. -/
theorem flow_append_full (hf : Flow cfg c h) (hfull : full cfg c) (body : ρ) :
    Flow cfg (append cfg c { number := h.calls, body := body })
      (h.append cfg c { number := h.calls, body := body }) := by
  rw [append, if_pos hfull, History.append]
  simp only [if_pos hfull]
  have hbacklog := hf.backlog
  have hbounded := hf.bounded
  have hcounted := hf.counted
  rw [full] at hfull
  cases hqueue : c.queue with
  | nil =>
    rw [hqueue] at hfull hbacklog hbounded hcounted
    refine ⟨?_, ?_, fun r hr => (hf.fresh r hr).trans (Nat.lt_succ_self _), hf.evictions, hf.dropped,
      ?_, fun hpos => ?_⟩
    · rw [hqueue]
      exact hbounded
    · rw [hqueue]
      exact hbacklog
    · rw [hqueue]
      exact hcounted
    · have hle : cfg.queueMax ≤ 0 := hfull
      omega
  | cons oldest rest =>
    rw [hqueue] at hfull hbacklog hbounded hcounted
    refine ⟨?_, hbacklog.evict.push hf.fresh, fresh_concat hf.fresh body, fun e he => ?_, ?_, ?_,
      hf.refused⟩
    · simpa using hbounded
    · rcases mem_append.mp he with he | he
      · exact hf.evictions e he
      · rw [mem_singleton.mp he]
        exact hfull
    · rw [length_append, ← hf.dropped]
      rfl
    · simp only [length_append, length_cons, length_nil] at hcounted ⊢
      omega

theorem flow_append (hf : Flow cfg c h) (body : ρ) :
    Flow cfg (append cfg c { number := h.calls, body := body })
      (h.append cfg c { number := h.calls, body := body }) := by
  by_cases hfull : full cfg c
  · exact flow_append_full hf hfull body
  · exact flow_append_room hf hfull body

theorem Sending.of_same (hs : Sending cfg c h) {c' : TelemetryClient (Tagged ρ)} {h' : History ρ}
    (hworker : c'.worker = c.worker) (hinflight : c'.inflight = c.inflight)
    (htaken : h'.taken = h.taken) (hhanded : h'.handed = h.handed) (hsettled : h'.settled = h.settled) :
    Sending cfg c' h' := by
  refine ⟨?_, ?_, ?_, ?_, ?_, ?_⟩
  · rw [htaken, hsettled, hworker]
    exact hs.taken
  · rw [hhanded, hsettled, hworker]
    exact hs.handed
  · rw [hworker]
    exact hs.tried
  · rw [hsettled]
    exact hs.settled
  · rw [hworker, hinflight]
    exact hs.inflight
  · rw [hinflight]
    exact hs.nonneg

theorem sending_append (hs : Sending cfg c h) (record : Tagged ρ) :
    Sending cfg (append cfg c record) (h.append cfg c record) := by
  by_cases hfull : full cfg c
  · rw [append, if_pos hfull, History.append]
    simp only [if_pos hfull]
    cases c.queue with
    | nil => exact hs.of_same rfl rfl rfl rfl rfl
    | cons oldest rest => exact hs.of_same rfl rfl rfl rfl rfl
  · rw [append, if_neg hfull, History.append]
    simp only [if_neg hfull]
    exact hs.of_same rfl rfl rfl rfl rfl

theorem Flow.of_same (hf : Flow cfg c h) {c' : TelemetryClient (Tagged ρ)} {h' : History ρ}
    (hqueue : c'.queue = c.queue) (hdropped : c'.dropped = c.dropped)
    (hcounted : c'.enqueued + c'.emitting = c.enqueued + c.emitting)
    (hh : (h'.calls, h'.emitted, h'.refused, h'.evictions, h'.taken) =
      (h.calls, h.emitted, h.refused, h.evictions, h.taken)) :
    Flow cfg c' h' := by
  simp only [Prod.mk.injEq] at hh
  obtain ⟨hcalls, hemitted, hrefused, hevictions, htaken⟩ := hh
  refine ⟨?_, ?_, ?_, ?_, ?_, ?_, ?_⟩
  · rw [hqueue]
    exact hf.bounded
  · rw [hemitted, hevictions, htaken, hqueue]
    exact hf.backlog
  · rw [hemitted, hcalls]
    exact hf.fresh
  · rw [hevictions]
    exact hf.evictions
  · rw [hdropped, hevictions]
    exact hf.dropped
  · rw [hcounted, hdropped, hqueue, htaken]
    exact hf.counted
  · rw [hrefused]
    exact hf.refused

theorem flow_countEnqueued (hf : Flow cfg c h) : Flow cfg (countEnqueued c) h := by
  unfold countEnqueued
  split_ifs with hpos
  · exact hf.of_same rfl rfl (by simp only; omega) rfl
  · exact hf

theorem sending_countEnqueued (hs : Sending cfg c h) : Sending cfg (countEnqueued c) h := by
  unfold countEnqueued
  split_ifs
  · exact hs.of_same rfl rfl rfl rfl rfl
  · exact hs

/-- A worker that holds nothing takes from the front of the queue. -/
theorem flow_take (hf : Flow cfg c h) : Flow cfg (take cfg c) (h.take cfg c) := by
  unfold take History.take
  cases c.worker with
  | idle =>
    dsimp only
    have hzero : c.queue.take (min cfg.batchMax c.queue.length).toNat = [] →
        c.queue.drop (min cfg.batchMax c.queue.length).toNat = c.queue := by
      intro hnil
      have happend := take_append_drop (min cfg.batchMax c.queue.length).toNat c.queue
      rwa [hnil, nil_append] at happend
    by_cases hcount : min cfg.batchMax (c.queue.length : ℤ) = 0
    · rw [if_pos hcount, hcount, Int.toNat_zero, take_zero, if_pos rfl]
      exact hf
    rw [if_neg hcount]
    split_ifs with hnil
    · exact hf.of_same (hzero hnil) rfl rfl rfl
    · have hflat : (h.taken ++ [c.queue.take (min cfg.batchMax c.queue.length).toNat]).flatten ++
          c.queue.drop (min cfg.batchMax c.queue.length).toNat = h.taken.flatten ++ c.queue := by
        rw [flatten_append, flatten_singleton, append_assoc, take_append_drop]
      refine ⟨?_, hf.backlog.leave hflat, hf.fresh, hf.evictions, hf.dropped, ?_, hf.refused⟩
      · have hle : ((c.queue.drop (min cfg.batchMax c.queue.length).toNat).length : ℤ) ≤
            c.queue.length := by
          exact_mod_cast (drop_sublist _ _).length_le
        exact hle.trans hf.bounded
      · have hlength := congrArg List.length hflat
        have hcounted := hf.counted
        rw [length_append, length_append] at hlength
        dsimp only
        omega
  | taken | ready | posted | done => exact hf

theorem sending_take (hs : Sending cfg c h) : Sending cfg (take cfg c) (h.take cfg c) := by
  unfold take History.take
  cases hworker : c.worker with
  | idle =>
    dsimp only
    have htaken := hs.taken
    have hhanded := hs.handed
    rw [hworker] at htaken hhanded
    have hinflight : (1 : ℤ) ≤ c.inflight + 1 := by have := hs.nonneg; omega
    by_cases hcount : min cfg.batchMax (c.queue.length : ℤ) = 0
    · rw [if_pos hcount, hcount, Int.toNat_zero, take_zero, if_pos rfl]
      exact hs
    rw [if_neg hcount]
    split_ifs with hnil
    · refine ⟨htaken, hhanded, ?_, hs.settled, .inl rfl, by dsimp only; omega⟩
      rintro batch attempt (hw | hw) <;> cases hw
    · refine ⟨?_, hhanded, ?_, hs.settled, .inr hinflight, by dsimp only; omega⟩
      · rw [htaken]
        exact congrArg (· ++ _) (append_nil _)
      · rintro batch attempt (hw | hw) <;> cases hw
  | taken | ready | posted | done => exact hs

theorem sending_begin (hs : Sending cfg c h) : Sending cfg (begin c) h := by
  unfold begin
  cases hworker : c.worker with
  | taken batch =>
    obtain ⟨htaken, hhanded, -, hsettled, hinflight, hnonneg⟩ := hs
    rw [hworker] at htaken hhanded hinflight
    refine ⟨htaken, hhanded, ?_, hsettled, .inr ?_, hnonneg⟩
    · rintro batch attempt (hw | hw)
      · cases hw
        rw [TelemetryConfig.tries]
        split_ifs <;> omega
      · cases hw
    · exact hinflight.resolve_left (by rintro ⟨⟩)
  | idle | ready | posted | done => exact hs

theorem sending_post (hs : Sending cfg c h) :
    Sending cfg (post c) (stepHistory cfg c h .post) := by
  unfold post stepHistory
  cases hworker : c.worker with
  | ready batch attempt =>
    obtain ⟨htaken, hhanded, htried, hsettled, hinflight, hnonneg⟩ := hs
    rw [hworker] at htaken hhanded hinflight htried
    refine ⟨htaken, ?_, ?_, hsettled, .inr ?_, hnonneg⟩
    · dsimp only
      rw [hhanded, append_assoc]
      exact congrArg _ replicate_succ'.symm
    · rintro batch attempt (hw | hw)
      · cases hw
      · cases hw
        exact htried _ _ (.inl rfl)
    · exact hinflight.resolve_left (by rintro ⟨⟩)
  | idle | taken | posted | done => exact hs

theorem lastAttempt_iff {attempt : ℕ} (h : attempt < cfg.tries) :
    lastAttempt cfg attempt = true ↔ attempt + 1 = cfg.tries := by
  unfold TelemetryConfig.tries at h ⊢
  unfold lastAttempt
  cases hinjected : cfg.injected with
  | true =>
    rw [hinjected, if_pos rfl] at h
    rw [if_pos rfl, Bool.true_or]
    exact iff_of_true rfl (by omega)
  | false =>
    rw [hinjected, if_neg Bool.false_ne_true] at h
    rw [if_neg Bool.false_ne_true, Bool.false_or, bne_iff_ne]
    omega

theorem sending_answer (hs : Sending cfg c h) (ok : Bool) :
    Sending cfg (answer cfg ok c) (h.answer cfg ok c) := by
  unfold answer History.answer
  cases hworker : c.worker with
  | posted batch attempt =>
    obtain ⟨htaken, hhanded, htried, hsettled, hinflight, hnonneg⟩ := hs
    rw [hworker] at htaken hhanded hinflight htried
    have hlt := htried batch attempt (.inr rfl)
    have hone : 1 ≤ c.inflight := hinflight.resolve_left (by rintro ⟨⟩)
    have hsettle : ∀ c' : TelemetryClient (Tagged ρ), c'.worker = .done → c'.inflight = c.inflight →
        (ok = true ∨ attempt + 1 = cfg.tries) →
        Sending cfg c' { h with
          settled := h.settled ++ [{ batch := batch, tries := attempt + 1, sent := ok }] } := by
      intro c' hw hi hok
      refine ⟨?_, ?_, ?_, ?_, .inr (hi ▸ hone), hi ▸ hnonneg⟩
      · rw [hw, htaken]
        simp [Worker.batches]
      · rw [hw, hhanded]
        simp [Worker.attempts]
      · rintro b n (hw' | hw') <;> rw [hw] at hw' <;> cases hw'
      · intro s hmem
        rcases mem_append.mp hmem with hmem | hmem
        · exact hsettled s hmem
        · rw [mem_singleton.mp hmem]
          exact ⟨Nat.le_add_left 1 attempt, hlt, hok⟩
    cases ok with
    | true => exact hsettle _ rfl rfl (.inl rfl)
    | false =>
      simp only [Bool.false_eq_true, if_false, Bool.false_or]
      split_ifs with hlast
      · exact hsettle _ rfl rfl (.inr ((lastAttempt_iff hlt).mp hlast))
      · refine ⟨htaken, hhanded, ?_, hsettled, .inr hone, hnonneg⟩
        rintro b n (hw | hw)
        · cases hw
          have hne := mt (lastAttempt_iff hlt).mpr hlast
          omega
        · cases hw
  | idle | taken | ready | done => exact hs

theorem sending_release (hs : Sending cfg c h) : Sending cfg (release c) h := by
  unfold release
  cases hworker : c.worker with
  | done =>
    obtain ⟨htaken, hhanded, -, hsettled, hinflight, -⟩ := hs
    rw [hworker] at htaken hhanded hinflight
    have hone : 1 ≤ c.inflight := hinflight.resolve_left (by rintro ⟨⟩)
    refine ⟨htaken, hhanded, ?_, hsettled, .inl rfl, by dsimp only; omega⟩
    rintro b n (hw | hw) <;> cases hw
  | idle | taken | ready | posted => exact hs

/-- Sending leaves the queue and what was counted at it alone. -/
theorem flow_send (hf : Flow cfg c h) (ok : Bool) :
    Flow cfg (begin c) h ∧ Flow cfg (post c) (stepHistory cfg c h .post) ∧
      Flow cfg (answer cfg ok c) (h.answer cfg ok c) ∧ Flow cfg (release c) h := by
  unfold begin post stepHistory answer History.answer release
  cases c.worker with
  | idle => exact ⟨hf, hf, hf, hf⟩
  | taken batch => exact ⟨hf.of_same rfl rfl rfl rfl, hf, hf, hf⟩
  | ready batch attempt => exact ⟨hf, hf.of_same rfl rfl rfl rfl, hf, hf⟩
  | posted batch attempt =>
    refine ⟨hf, hf, ?_, hf⟩
    cases ok with
    | true => exact hf.of_same rfl rfl rfl rfl
    | false =>
      simp only [Bool.false_eq_true, if_false, Bool.false_or]
      split_ifs
      · exact hf.of_same rfl rfl rfl rfl
      · exact hf.of_same rfl rfl rfl rfl
  | done => exact ⟨hf, hf, hf, hf.of_same rfl rfl rfl rfl⟩

theorem books_step {a : Agent ρ} (hf : Flow cfg a.client a.history)
    (hs : Sending cfg a.client a.history) (op : Op ρ) :
    Flow cfg (step cfg a op).client (step cfg a op).history ∧
      Sending cfg (step cfg a op).client (step cfg a op).history := by
  unfold step
  split_ifs
  · cases op with
    | append body => exact ⟨flow_append hf body, sending_append hs _⟩
    | countEnqueued => exact ⟨flow_countEnqueued hf, sending_countEnqueued hs⟩
    | take => exact ⟨flow_take hf, sending_take hs⟩
    | begin => exact ⟨(flow_send hf true).1, sending_begin hs⟩
    | post => exact ⟨(flow_send hf true).2.1, sending_post hs⟩
    | answer ok => exact ⟨(flow_send hf ok).2.2.1, sending_answer hs ok⟩
    | release => exact ⟨(flow_send hf true).2.2.2, sending_release hs⟩
  · exact ⟨hf, hs⟩

theorem books_run (cfg : TelemetryConfig) (ops : List (Op ρ)) :
    Flow cfg (run cfg ops).client (run cfg ops).history ∧
      Sending cfg (run cfg ops).client (run cfg ops).history :=
  run_invariant (step cfg)
    (P := fun a => Flow cfg a.client a.history ∧ Sending cfg a.client a.history)
    ⟨flow_empty cfg, sending_empty cfg⟩ (fun _ op h => books_step h.1 h.2 op) ops

/-! ## Flushing -/

theorem emitted_step (cfg : TelemetryConfig) (a : Agent ρ) (op : Op ρ) :
    a.history.emitted ⊆ (step cfg a op).history.emitted := by
  unfold step
  split_ifs
  · cases op with
    | append body =>
      unfold stepHistory History.append
      dsimp only
      split_ifs
      · cases a.client.queue with
        | nil => exact List.Subset.refl _
        | cons oldest rest => exact subset_append_left _ _
      · exact subset_append_left _ _
    | take =>
      unfold stepHistory History.take
      cases a.client.worker with
      | idle =>
        dsimp only
        split_ifs <;> exact List.Subset.refl _
      | taken | ready | posted | done => exact List.Subset.refl _
    | answer ok =>
      unfold stepHistory History.answer
      cases a.client.worker with
      | posted batch attempt =>
        dsimp only
        split_ifs <;> exact List.Subset.refl _
      | idle | taken | ready | done => exact List.Subset.refl _
    | post =>
      unfold stepHistory
      cases a.client.worker <;> exact List.Subset.refl _
    | countEnqueued | begin | release => exact List.Subset.refl _
  · exact List.Subset.refl _

theorem emitted_mono (cfg : TelemetryConfig) (before during : List (Op ρ)) :
    (run cfg before).history.emitted ⊆ (run cfg (before ++ during)).history.emitted := by
  rw [run, run, run_append]
  exact run_rel (step cfg) (R := fun a a' => a.history.emitted ⊆ a'.history.emitted)
    (P := fun _ => True) (fun _ => List.Subset.refl _) (fun _ _ _ h h' => List.Subset.trans h h')
    (fun _ _ _ => trivial) (fun a op _ => emitted_step cfg a op) trivial during

/-- An agent that is switched off takes no record. -/
theorem emitted_disabled (hoff : cfg.enabled = false) (ops : List (Op ρ)) :
    (run cfg ops).history.emitted = [] := by
  have hinv : (run cfg ops).history.emitted = [] :=
    run_invariant (step cfg) (P := fun a => a.history.emitted = []) rfl (fun a op ha => by
      rw [step, hoff, if_neg Bool.false_ne_true]
      exact ha) ops
  exact hinv

/-- When nothing is queued and nothing is in flight, every record has met its end. -/
theorem settled_of_idle (hf : Flow cfg c h) (hs : Sending cfg c h) (hidle : idle c = true)
    {r : Tagged ρ} (hr : r ∈ h.emitted) :
    r ∈ dropped h.evictions ∨
      ∃ s ∈ h.settled, r ∈ s.batch ∧ (s.sent = true ∨ s.tries = cfg.tries) := by
  rw [idle, Bool.and_eq_true, List.isEmpty_iff, beq_iff_eq] at hidle
  obtain ⟨hqueue, hinflight⟩ := hidle
  have hworker : c.worker = .idle := hs.inflight.resolve_right (by omega)
  have htaken : h.taken = h.settled.map Settlement.batch := by
    rw [hs.taken, hworker]
    exact append_nil _
  refine (hf.backlog.mem_of_arrived hr).imp_right fun hleft => ?_
  rw [hqueue, append_nil, htaken] at hleft
  obtain ⟨batch, hbatch, hmem⟩ := mem_flatten.mp hleft
  obtain ⟨s, hsettled, rfl⟩ := mem_map.mp hbatch
  exact ⟨s, hsettled, hmem, (hs.settled s hsettled).2.2⟩

/-- Whatever the threads do: the queue is bounded, what is taken and what is queued is what was
emitted without the oldest, the worker hands its batches over in that order and settles them, the
counters agree up to the calls of `emit` that are about to count, and a flush that succeeds leaves
none of the records before it unsettled. -/
theorem agent_keeps_books (cfg : TelemetryConfig) (before during : List (Op ρ)) :
    let a := run cfg (before ++ during)
    (a.client.queue.length : ℤ) ≤ max cfg.queueMax 0 ∧
      Ordered a.history.emitted ∧
      survivors a.history.emitted a.history.evictions = a.history.taken.flatten ++ a.client.queue ∧
      (∀ e ∈ a.history.evictions, cfg.queueMax ≤ e.queue.length ∧ e.Oldest) ∧
      (1 ≤ cfg.queueMax → a.history.refused = []) ∧
      a.history.taken = a.history.settled.map Settlement.batch ++ a.client.worker.batches ∧
      a.history.handed = (a.history.settled.flatMap fun s => List.replicate s.tries s.batch) ++
        a.client.worker.attempts ∧
      (∀ s ∈ a.history.settled, 1 ≤ s.tries ∧ s.tries ≤ cfg.tries ∧
        (s.sent = true ∨ s.tries = cfg.tries)) ∧
      a.client.dropped = (dropped a.history.evictions).length ∧
      a.client.enqueued + a.client.emitting =
        a.client.dropped + a.client.queue.length + a.history.taken.flatten.length ∧
      ∀ linksIdle, flush cfg linksIdle a.client = true → ∀ r ∈ (run cfg before).history.emitted,
        r ∈ dropped a.history.evictions ∨
          ∃ s ∈ a.history.settled, r ∈ s.batch ∧ (s.sent = true ∨ s.tries = cfg.tries) := by
  obtain ⟨hf, hs⟩ := books_run cfg (before ++ during)
  refine ⟨hf.bounded, hf.backlog.ordered, hf.backlog.survivors,
    fun e he => ⟨hf.evictions e he, hf.backlog.oldest e he⟩, hf.refused, hs.taken, hs.handed,
    hs.settled, ?_, hf.counted, fun linksIdle hflush r hr => ?_⟩
  · rw [dropped, length_map]
    exact hf.dropped
  · rw [flush, Bool.or_eq_true, Bool.and_eq_true, Bool.not_eq_true'] at hflush
    rcases hflush with hoff | ⟨hidle, -⟩
    · rw [emitted_disabled hoff] at hr
      exact absurd hr not_mem_nil
    · exact settled_of_idle hf hs hidle (emitted_mono cfg before during hr)

/-- A record that is queued and not yet counted. -/
theorem uncounted_while_emitting :
    let a := run {} [Op.append ()]
    a.client.enqueued ≠
      a.client.dropped + a.client.queue.length + a.history.taken.flatten.length := by
  decide

end Books

end PtaasBench.Sdk.Exporter
