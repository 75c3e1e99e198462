import PtaasBench.Sdk.NodeTransport

/-!
# PtaasBench.Sdk.NodeFlush — the end of `flush` (`transport.ts`, `config.ts`)

The loop of `flush` cuts batches off the queue until it is empty.  `splice` takes whole events, so the loop
gets on if and only if a batch has room for one.
-/

namespace PtaasBench.Sdk.NodeTransport

section Loop

variable {ρ : Type*} (cfg : ResolvedConfig) (serializes : List (TelemetryEvent ρ) → Bool)

/-- The batches the loop of `flush` cuts off a queue, if it is empty after `fuel` turns. -/
def cut : ℕ → List (TelemetryEvent ρ) → Option (List (List (TelemetryEvent ρ)))
  | 0, queue => if queue = [] then some [] else none
  | fuel + 1, queue =>
    if queue = [] then some []
    else
      let count := cfg.batchSize.deleteCount queue.length
      (cut fuel (queue.drop count)).map fun batches => queue.take count :: batches

/-- The batches are posted one after the other. -/
def postAll (batches : List (List (TelemetryEvent ρ))) (t : Transport ρ) : Transport ρ :=
  batches.foldl (fun t batch => post cfg serializes batch t) t

/-- `flush` returns: its loop ends with an empty queue and has put every event into one batch. -/
def FlushEnds (t : Transport ρ) : Prop :=
  ∃ fuel batches, cut cfg fuel (report cfg t).queue = some batches ∧
    batches.flatten = (report cfg t).queue ∧ (∀ batch ∈ batches, batch ≠ []) ∧
    flush cfg serializes t = postAll cfg serializes batches { report cfg t with queue := [] } ∧
    (flush cfg serializes t).queue = []

end Loop

section Ends

variable {ρ : Type*} {cfg : ResolvedConfig} {serializes : List (TelemetryEvent ρ) → Bool}

theorem queue_postAll (batches : List (List (TelemetryEvent ρ))) (t : Transport ρ) :
    (postAll cfg serializes batches t).queue = t.queue := by
  induction batches generalizing t with
  | nil => rfl
  | cons batch batches ih => exact (ih (post cfg serializes batch t)).trans (post_queue batch t).1

/-- `post` does not look at the queue. -/
theorem post_withQueue (batch queue : List (TelemetryEvent ρ)) (t : Transport ρ) :
    post cfg serializes batch { t with queue := queue } = { post cfg serializes batch t with queue := queue } := by
  unfold post
  dsimp only
  split_ifs
  · rfl
  · rfl

/-- With room for an event in a batch every turn shortens the queue. -/
theorem cut_batches (hbatch : Number.Fits 1 cfg.batchSize) {fuel : ℕ} {t : Transport ρ}
    (hfuel : t.queue.length ≤ fuel) :
    ∃ batches, cut cfg fuel t.queue = some batches ∧ batches.flatten = t.queue ∧
      (∀ batch ∈ batches, batch ≠ []) ∧
      drain cfg serializes fuel t = postAll cfg serializes batches { t with queue := [] } := by
  induction fuel generalizing t with
  | zero =>
    have hempty : t.queue = [] := List.length_eq_zero_iff.mp (Nat.le_zero.mp hfuel)
    refine ⟨[], if_pos hempty, hempty.symm, fun _ hb => absurd hb List.not_mem_nil, ?_⟩
    rw [drain, postAll, List.foldl_nil, ← hempty]
  | succ fuel ih =>
    by_cases hempty : t.queue = []
    · refine ⟨[], if_pos hempty, hempty.symm, fun _ hb => absurd hb List.not_mem_nil, ?_⟩
      rw [drain, if_pos hempty, postAll, List.foldl_nil, ← hempty]
    · set count := cfg.batchSize.deleteCount t.queue.length with hcount
      have hpos : 0 < count := Number.deleteCount_pos hbatch (List.length_pos_of_ne_nil hempty)
      set after := post cfg serializes (t.queue.take count) { t with queue := t.queue.drop count } with hafter
      have hqueue : after.queue = t.queue.drop count := (post_queue _ _).1
      have hshorter : after.queue.length ≤ fuel := by
        rw [hqueue, List.length_drop]
        omega
      obtain ⟨batches, hcut, hflat, hfilled, hdrain⟩ := ih hshorter
      rw [hqueue] at hcut hflat
      refine ⟨t.queue.take count :: batches, ?_, ?_, ?_, ?_⟩
      · rw [cut, if_neg hempty]
        dsimp only
        rw [← hcount, hcut, Option.map_some]
      · rw [List.flatten_cons, hflat, List.take_append_drop]
      · intro batch hb
        rcases List.mem_cons.mp hb with rfl | hb
        · intro hnone
          rcases List.take_eq_nil_iff.mp hnone with hzero | hnil
          · exact hpos.ne' hzero
          · exact hempty hnil
        · exact hfilled batch hb
      · rw [drain, if_neg hempty]
        dsimp only
        have hclear : ({ after with queue := [] } : Transport ρ) =
            post cfg serializes (t.queue.take count) { t with queue := [] } := by
          rw [post_withQueue, hafter, post_withQueue]
        rw [← hcount, if_neg hpos.ne', ← hafter, hdrain, hclear, postAll, postAll, List.foldl_cons]

/-- Without room for an event a turn leaves the queue as it is. -/
theorem cut_stuck (hbatch : ¬ Number.Fits 1 cfg.batchSize) {queue : List (TelemetryEvent ρ)} (hqueue : queue ≠ [])
    (fuel : ℕ) : cut cfg fuel queue = none := by
  induction fuel with
  | zero => exact if_neg hqueue
  | succ fuel ih =>
    rw [cut, if_neg hqueue, Number.deleteCount_eq_zero hbatch]
    dsimp only
    rw [List.drop_zero, ih, Option.map_none]

theorem flushEnds_iff (t : Transport ρ) :
    FlushEnds cfg serializes t ↔ Number.Fits 1 cfg.batchSize ∨ (report cfg t).queue = [] := by
  refine ⟨?_, ?_⟩
  · rintro ⟨fuel, batches, hcut, -⟩
    by_contra hno
    obtain ⟨hbatch, hqueue⟩ := not_or.mp hno
    rw [cut_stuck hbatch hqueue] at hcut
    exact absurd hcut.symm (Option.some_ne_none _)
  · rintro (hbatch | hempty)
    · obtain ⟨batches, hcut, hflat, hfilled, hdrain⟩ :=
        @cut_batches _ cfg serializes hbatch _ _ (le_refl (report cfg t).queue.length)
      refine ⟨_, batches, hcut, hflat, hfilled, hdrain, ?_⟩
      rw [flush, hdrain, queue_postAll]
    · have hflush : flush cfg serializes t = report cfg t := by rw [flush, hempty]; rfl
      refine ⟨0, [], if_pos hempty, hempty.symm, fun _ hb => absurd hb List.not_mem_nil, ?_, ?_⟩
      · rw [hflush, postAll, List.foldl_nil, ← hempty]
      · rw [hflush, hempty]

theorem report_empty_iff (t : Transport ρ) :
    (report cfg t).queue = [] ↔ t.queue = [] ∧ noteDue cfg t = false := by
  cases hnote : noteDue cfg t with
  | true =>
    rw [report, if_pos hnote]
    exact ⟨fun h => absurd h (List.cons_ne_nil _ _), fun h => absurd h.2 Bool.noConfusion⟩
  | false =>
    rw [report, if_neg (Bool.eq_false_iff.mp hnote)]
    exact ⟨fun h => ⟨h, rfl⟩, And.left⟩

end Ends

namespace Number

/-- Cutting at the ingest limit leaves room for an event where there was some. -/
theorem fits_min (n : Number) : Fits 1 (n.min (MAX_BATCH : ℕ)) ↔ Fits 1 n := by
  have hmost : Fits 1 (MAX_BATCH : ℕ) := by decide
  cases n with
  | nan => exact Iff.rfl
  | finite q =>
    show Fits 1 (if (finite q).le (MAX_BATCH : ℕ) then finite q else (MAX_BATCH : ℕ)) ↔ Fits 1 (finite q)
    split_ifs with hle
    · exact Iff.rfl
    · have hq : ((MAX_BATCH : ℕ) : ℚ) < q := not_le.mp fun h => hle (decide_eq_true h)
      have hone : ((1 : ℕ) : ℚ) ≤ (MAX_BATCH : ℕ) := Nat.cast_le.mpr (by decide)
      exact ⟨fun _ => decide_eq_true (hone.trans hq.le), fun _ => hmost⟩
  | infinite negative =>
    cases negative with
    | false => exact ⟨fun _ => rfl, fun _ => hmost⟩
    | true => exact Iff.rfl

end Number

theorem fits_batchSize_iff (options : TelemetryOptions) (env : Env) :
    Number.Fits 1 (resolveConfig options env).batchSize ↔ ∀ n ∈ options.batchSize, Number.Fits 1 n := by
  rw [resolveConfig]
  dsimp only
  rw [Number.fits_min]
  cases options.batchSize with
  | none => exact ⟨fun _ _ h => absurd h (Option.not_mem_none _), fun _ => by decide⟩
  | some n => exact ⟨fun h _ hn => Option.mem_some.mp hn ▸ h, fun h => h n rfl⟩

/-- Under a resolved configuration `flush` ends unless the batch size is given as less than one (or as no number)
while something is queued or a discard is to be reported. -/
theorem flush_ends_iff {ρ : Type*} (serializes : List (TelemetryEvent ρ) → Bool) (options : TelemetryOptions)
    (env : Env) (t : Transport ρ) :
    FlushEnds (resolveConfig options env) serializes t ↔
      (∀ n ∈ options.batchSize, Number.Fits 1 n) ∨
        t.queue = [] ∧ noteDue (resolveConfig options env) t = false := by
  rw [flushEnds_iff, fits_batchSize_iff, report_empty_iff]

/-- One event is queued. -/
def oneQueued : Transport Unit := { queue := [.event ⟨0, ()⟩], enqueued := 1, calls := 1 }

theorem batchSize_zero_spins :
    ¬ FlushEnds (resolveConfig { service := some "shop", endpoint := some "http://collector", batchSize := some 0 } {})
      (fun _ => true) oneQueued := by
  rw [flushEnds_iff]
  rintro (hbatch | hempty)
  · exact absurd hbatch (by decide)
  · exact absurd hempty (List.cons_ne_nil _ _)

end PtaasBench.Sdk.NodeTransport
