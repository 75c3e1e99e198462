import PtaasBench.Benchctl.Scoring
import PtaasBench.Lib.Fold

/-!
# PtaasBench.Benchctl.Funnel — what the flags of an outcome mean

First the loops of `scoreVuln`, field by field; then the outcome in terms of the evidence
(`scoreVuln_*`); then the inequalities between the axes of every bucket.
-/

namespace PtaasBench.Benchctl

open Py Lib List

/-! ## One turn of each loop -/

section Turns

variable (v : Vuln) (o : Outcome)

theorem trigger_scoreTrigger (ev : TriggerEvent) :
    (scoreTrigger v o ev).trigger = (o.trigger || (matchedBy v ev).isSome) := by
  unfold scoreTrigger
  cases matchedBy v ev <;> simp

theorem frame_scoreTrigger (ev : TriggerEvent) :
    (scoreTrigger v o ev).reach = o.reach ∧ (scoreTrigger v o ev).reachEvents = o.reachEvents ∧
      (scoreTrigger v o ev).exercise = o.exercise ∧
      (scoreTrigger v o ev).triggerLowConfidence = o.triggerLowConfidence ∧
      (scoreTrigger v o ev).reachInferred = o.reachInferred := by
  unfold scoreTrigger
  cases matchedBy v ev <;> exact ⟨rfl, rfl, rfl, rfl, rfl⟩

theorem trigger_scoreCallback (a : Attribution) :
    (scoreCallback o a).trigger = (o.trigger || a.confidence = .high) := by
  unfold scoreCallback
  cases a.confidence <;> simp

theorem low_scoreCallback (a : Attribution) :
    (scoreCallback o a).triggerLowConfidence =
      (o.triggerLowConfidence || a.confidence = .low) := by
  unfold scoreCallback
  cases a.confidence <;> simp

theorem frame_scoreCallback (a : Attribution) :
    (scoreCallback o a).reach = o.reach ∧ (scoreCallback o a).reachEvents = o.reachEvents ∧
      (scoreCallback o a).exercise = o.exercise ∧
      (scoreCallback o a).reachInferred = o.reachInferred := by
  unfold scoreCallback
  cases a.confidence <;> exact ⟨rfl, rfl, rfl, rfl⟩

theorem inferReach_flags (h : o.reachInferred = false) :
    (inferReach o).reach = (o.reach || (inferReach o).trigger) ∧
      (inferReach o).reachInferred = ((inferReach o).trigger && !o.reach) := by
  unfold inferReach
  cases ht : o.trigger <;> cases hr : o.reach <;> simp [ht, hr, h]

variable [Runtime]

/-- Does this request reach the flaw with a value of the tool's own? -/
def requestExercises (v : Vuln) (ev : HttpRequestEvent) : Bool :=
  requestReaches v ev && (paramIsExercised v ev).1

theorem scoreRequest_of_not {ev : HttpRequestEvent} (h : requestReaches v ev = false) :
    scoreRequest v o ev = o := by
  simp [scoreRequest, h]

theorem scoreRequest_of_reaches {ev : HttpRequestEvent} (h : requestReaches v ev = true) :
    ∃ sample, scoreRequest v o ev =
      { o with
        reach := true
        reachEvents := o.reachEvents + 1
        firstReachTs := earlier ev.ts o.firstReachTs
        exercise := o.exercise.map (· || requestExercises v ev)
        exerciseSample := sample } := by
  rcases hp : paramIsExercised v ev with ⟨hit, sample⟩
  have hx : requestExercises v ev = hit := by simp [requestExercises, h, hp]
  obtain ⟨id, reach, exercise, trigger, low⟩ := o
  cases exercise with
  | none => exact ⟨_, by simp [scoreRequest, h]; rfl⟩
  | some b =>
    cases b with
    | true => exact ⟨_, by simp [scoreRequest, h]; rfl⟩
    | false => cases hit <;> exact ⟨_, by simp [scoreRequest, h, hp, hx]; rfl⟩

theorem reach_scoreRequest (ev : HttpRequestEvent) :
    (scoreRequest v o ev).reach = (o.reach || requestReaches v ev) := by
  cases h : requestReaches v ev with
  | false => rw [scoreRequest_of_not v o h, Bool.or_false]
  | true =>
    obtain ⟨sample, hs⟩ := scoreRequest_of_reaches v o h
    rw [hs, Bool.or_true]

theorem reachEvents_scoreRequest (ev : HttpRequestEvent) :
    (scoreRequest v o ev).reachEvents =
      o.reachEvents + if requestReaches v ev then 1 else 0 := by
  cases h : requestReaches v ev with
  | false => rw [scoreRequest_of_not v o h]; rfl
  | true =>
    obtain ⟨sample, hs⟩ := scoreRequest_of_reaches v o h
    rw [hs]; rfl

theorem exercise_scoreRequest (ev : HttpRequestEvent) :
    (scoreRequest v o ev).exercise = o.exercise.map (· || requestExercises v ev) := by
  cases h : requestReaches v ev with
  | false =>
    have hx : requestExercises v ev = false := by simp [requestExercises, h]
    rw [scoreRequest_of_not v o h, hx]
    cases o.exercise <;> simp
  | true =>
    obtain ⟨sample, hs⟩ := scoreRequest_of_reaches v o h
    rw [hs]

theorem frame_scoreRequest (ev : HttpRequestEvent) :
    (scoreRequest v o ev).trigger = o.trigger ∧
      (scoreRequest v o ev).triggerLowConfidence = o.triggerLowConfidence ∧
      (scoreRequest v o ev).reachInferred = o.reachInferred := by
  cases h : requestReaches v ev with
  | false => rw [scoreRequest_of_not v o h]; exact ⟨rfl, rfl, rfl⟩
  | true =>
    obtain ⟨sample, hs⟩ := scoreRequest_of_reaches v o h
    rw [hs]; exact ⟨rfl, rfl, rfl⟩

end Turns

variable [Runtime]

/-! ## The outcome in terms of the evidence -/

section Outcome

variable (v : Vuln) (stream : EventStream) (atts : List Attribution)

/-- Proof: a sink event of the flaw, or a callback attributed with high confidence. -/
def highEvidence : Bool :=
  (EventStream.triggers stream).any (fun t => (matchedBy v t).isSome) ||
    atts.any (·.confidence = .high)

/-- A callback attributed with low confidence. -/
def lowEvidence : Bool := atts.any (·.confidence = .low)

theorem scoreVuln_reachEvents :
    (scoreVuln v stream atts).reachEvents =
      (EventStream.requests stream).countP (requestReaches v) := by
  have hi : ∀ o, (inferReach o).reachEvents = o.reachEvents := fun o => by
    unfold inferReach; split_ifs <;> rfl
  rw [scoreVuln, hi, foldl_frame Outcome.reachEvents (fun o a => (frame_scoreCallback o a).2.1),
    foldl_frame Outcome.reachEvents (fun o t => (frame_scoreTrigger v o t).2.1),
    foldl_countP Outcome.reachEvents (fun o ev => reachEvents_scoreRequest v o ev), Nat.zero_add]

theorem scoreVuln_exercise :
    (scoreVuln v stream atts).exercise =
      if v.hasParam then some ((EventStream.requests stream).any (requestExercises v))
      else none := by
  have hi : ∀ o, (inferReach o).exercise = o.exercise := fun o => by
    unfold inferReach; split_ifs <;> rfl
  rw [scoreVuln, hi, foldl_frame Outcome.exercise (fun o a => (frame_scoreCallback o a).2.2.1),
    foldl_frame Outcome.exercise (fun o t => (frame_scoreTrigger v o t).2.2.1),
    foldl_map_or Outcome.exercise (fun o ev => exercise_scoreRequest v o ev)]
  split_ifs <;> simp

theorem scoreVuln_trigger : (scoreVuln v stream atts).trigger = highEvidence v stream atts := by
  have hi : ∀ o, (inferReach o).trigger = o.trigger := fun o => by
    unfold inferReach; split_ifs <;> rfl
  rw [scoreVuln, hi, foldl_or Outcome.trigger trigger_scoreCallback,
    foldl_or Outcome.trigger (trigger_scoreTrigger v),
    foldl_frame Outcome.trigger (fun o t => (frame_scoreRequest v o t).1), highEvidence,
    Bool.false_or]

theorem scoreVuln_low : (scoreVuln v stream atts).triggerLowConfidence = lowEvidence atts := by
  have hi : ∀ o, (inferReach o).triggerLowConfidence = o.triggerLowConfidence := fun o => by
    unfold inferReach; split_ifs <;> rfl
  rw [scoreVuln, hi, foldl_or Outcome.triggerLowConfidence low_scoreCallback,
    foldl_frame Outcome.triggerLowConfidence (fun o t => (frame_scoreTrigger v o t).2.2.2.1),
    foldl_frame Outcome.triggerLowConfidence (fun o t => (frame_scoreRequest v o t).2.1),
    lowEvidence, Bool.false_or]

theorem scoreVuln_triggerAny :
    (scoreVuln v stream atts).triggerAny = (highEvidence v stream atts || lowEvidence atts) := by
  rw [Outcome.triggerAny, scoreVuln_trigger, scoreVuln_low]

/-- `reach` and `reach_inferred` before the last step of `score_vuln`. -/
theorem foldl_reach (o : Outcome) :
    (atts.foldl scoreCallback ((EventStream.triggers stream).foldl (scoreTrigger v)
        ((EventStream.requests stream).foldl (scoreRequest v) o))).reach =
      (o.reach || (EventStream.requests stream).any (requestReaches v)) ∧
    (atts.foldl scoreCallback ((EventStream.triggers stream).foldl (scoreTrigger v)
        ((EventStream.requests stream).foldl (scoreRequest v) o))).reachInferred =
      o.reachInferred := by
  constructor
  · rw [foldl_frame Outcome.reach (fun o a => (frame_scoreCallback o a).1),
      foldl_frame Outcome.reach (fun o t => (frame_scoreTrigger v o t).1),
      foldl_or Outcome.reach (fun o ev => reach_scoreRequest v o ev)]
  · rw [foldl_frame Outcome.reachInferred (fun o a => (frame_scoreCallback o a).2.2.2),
      foldl_frame Outcome.reachInferred (fun o t => (frame_scoreTrigger v o t).2.2.2.2),
      foldl_frame Outcome.reachInferred (fun o t => (frame_scoreRequest v o t).2.2)]

theorem scoreVuln_reach :
    (scoreVuln v stream atts).reach =
      ((EventStream.requests stream).any (requestReaches v) || highEvidence v stream atts) := by
  rw [← scoreVuln_trigger]
  unfold scoreVuln
  obtain ⟨h1, h2⟩ := foldl_reach v stream atts
    { vulnId := v.id, exercise := if v.hasParam then some false else none }
  rw [(inferReach_flags _ h2).1, h1, Bool.false_or]

theorem scoreVuln_reachInferred :
    (scoreVuln v stream atts).reachInferred =
      (highEvidence v stream atts &&
        !(EventStream.requests stream).any (requestReaches v)) := by
  rw [← scoreVuln_trigger]
  unfold scoreVuln
  obtain ⟨h1, h2⟩ := foldl_reach v stream atts
    { vulnId := v.id, exercise := if v.hasParam then some false else none }
  rw [(inferReach_flags _ h2).2, h1, Bool.false_or]

/-- What one outcome says about the evidence it was made from. -/
structure Outcome.Coherent (o : Outcome) : Prop where
  id : o.vulnId = v.id
  exercise_none : o.exercise = none ↔ v.hasParam = false
  reachEvents : o.reachEvents = (EventStream.requests stream).countP (requestReaches v)
  exercise : o.exercise = some true → 0 < o.reachEvents
  reach : o.reach = true ↔ 0 < o.reachEvents ∨ highEvidence v stream atts = true
  reachInferred : o.reachInferred = true ↔
    highEvidence v stream atts = true ∧ o.reachEvents = 0
  trigger : o.trigger = true ↔ highEvidence v stream atts = true
  low : o.triggerLowConfidence = true ↔ lowEvidence atts = true
  triggerAny : o.triggerAny = true ↔ highEvidence v stream atts = true ∨ lowEvidence atts = true
  low_alone : highEvidence v stream atts = false → o.reachEvents = 0 →
    o.reach = false ∧ o.trigger = false

theorem vulnId_scoreVuln : (scoreVuln v stream atts).vulnId = v.id := by
  have hi : ∀ o, (inferReach o).vulnId = o.vulnId := fun o => by
    unfold inferReach; split_ifs <;> rfl
  have hc : ∀ o a, (scoreCallback o a).vulnId = o.vulnId := fun o a => by
    unfold scoreCallback; cases a.confidence <;> rfl
  have ht : ∀ o t, (scoreTrigger v o t).vulnId = o.vulnId := fun o t => by
    unfold scoreTrigger; cases matchedBy v t <;> rfl
  have hr : ∀ o ev, (scoreRequest v o ev).vulnId = o.vulnId := fun o ev => by
    cases h : requestReaches v ev with
    | false => rw [scoreRequest_of_not v o h]
    | true => obtain ⟨sample, hs⟩ := scoreRequest_of_reaches v o h; rw [hs]
  rw [scoreVuln, hi, foldl_frame Outcome.vulnId hc, foldl_frame Outcome.vulnId ht,
    foldl_frame Outcome.vulnId hr]

theorem any_requestReaches_iff :
    (EventStream.requests stream).any (requestReaches v) = true ↔
      0 < (scoreVuln v stream atts).reachEvents := by
  rw [scoreVuln_reachEvents, countP_pos_iff, any_eq_true]

theorem scoreVuln_coherent : (scoreVuln v stream atts).Coherent v stream atts := by
  have hany := any_requestReaches_iff v stream atts
  have hreach : (scoreVuln v stream atts).reach = true ↔
      0 < (scoreVuln v stream atts).reachEvents ∨ highEvidence v stream atts = true := by
    rw [scoreVuln_reach, Bool.or_eq_true, hany]
  refine ⟨vulnId_scoreVuln v stream atts, ?_, scoreVuln_reachEvents v stream atts, ?_, hreach, ?_,
    by rw [scoreVuln_trigger], by rw [scoreVuln_low], ?_, ?_⟩
  · rw [scoreVuln_exercise]
    cases v.hasParam <;> simp
  · intro h
    rw [scoreVuln_exercise] at h
    rw [← hany, any_eq_true]
    split_ifs at h
    obtain ⟨ev, hev, hx⟩ := any_eq_true.mp (Option.some.inj h)
    exact ⟨ev, hev, (Bool.and_eq_true_iff.mp hx).1⟩
  · rw [scoreVuln_reachInferred, Bool.and_eq_true, Bool.not_eq_true', ← Bool.not_eq_true, hany,
      Nat.not_lt, Nat.le_zero]
  · rw [scoreVuln_triggerAny, Bool.or_eq_true]
  · intro hh h0
    have hr : ¬ (scoreVuln v stream atts).reach = true := by
      rw [hreach, hh, h0]
      simp
    rw [scoreVuln_trigger]
    exact ⟨by simpa using hr, hh⟩

end Outcome

/-! ## The buckets -/

/-- The axes of one bucket nest. -/
structure Metric.Funnel (m : Metric) : Prop where
  hit_le : ∀ a, (m.axis a).hit ≤ (m.axis a).applicable
  applicable_le : ∀ a, (m.axis a).applicable ≤ m.vulns
  exercise_le : (m.axis .exercise).hit ≤ (m.axis .reach).hit
  trigger_le : (m.axis .trigger).hit ≤ (m.axis .reach).hit
  trigger_le_any : (m.axis .trigger).hit ≤ (m.axis .triggerAny).hit

section Buckets

variable {outcomes : Dict String Outcome} {vulns : List Vuln}

theorem metric_funnel
    (h : ∀ v ∈ vulns, ∃ stream atts, (outcomeOf outcomes v).Coherent v stream atts) :
    (metric vulns outcomes).Funnel := by
  refine ⟨fun a => ?_, fun a => countP_le_length, ?_, ?_, ?_⟩
  · refine countP_mono_left fun v _ hv => ?_
    rw [decide_eq_true_eq] at hv
    rw [hv, Option.isSome_some]
  · refine countP_mono_left fun v hv hx => ?_
    obtain ⟨stream, atts, hc⟩ := h v hv
    rw [decide_eq_true_eq] at hx
    have := hc.reach.mpr (Or.inl (hc.exercise hx))
    simp [Outcome.axis, this]
  · refine countP_mono_left fun v hv ht => ?_
    obtain ⟨stream, atts, hc⟩ := h v hv
    have ht' : (outcomeOf outcomes v).trigger = true := by simpa [Outcome.axis] using ht
    have := hc.reach.mpr (Or.inr (hc.trigger.mp ht'))
    simp [Outcome.axis, this]
  · refine countP_mono_left fun v _ ht => ?_
    have ht' : (outcomeOf outcomes v).trigger = true := by simpa [Outcome.axis] using ht
    simp [Outcome.axis, Outcome.triggerAny, ht']

omit [Runtime] in
theorem mem_of_mem_buckets {keys : Vuln → List String} {b : String × List Vuln}
    (hb : b ∈ buckets vulns keys) {v : Vuln} (hv : v ∈ b.2) : v ∈ vulns := by
  rw [buckets, mem_map] at hb
  obtain ⟨k, -, rfl⟩ := hb
  rw [mem_map] at hv
  obtain ⟨q, hq, rfl⟩ := hv
  have hq := mem_of_mem_filter hq
  rw [mem_flatMap] at hq
  obtain ⟨w, hw, hq⟩ := hq
  rw [mem_map] at hq
  obtain ⟨-, -, rfl⟩ := hq
  exact hw

theorem buckets_funnel (keys : Vuln → List String)
    (h : ∀ v ∈ vulns, ∃ stream atts, (outcomeOf outcomes v).Coherent v stream atts) :
    ∀ e ∈ (buckets vulns keys).map (fun b => (b.1, metric b.2 outcomes)), e.2.Funnel := by
  intro e he
  rw [mem_map] at he
  obtain ⟨b, hb, rfl⟩ := he
  exact metric_funnel fun v hv => h v (mem_of_mem_buckets hb hv)

end Buckets

/-! ## Of a whole score -/

/-- Every breakdown of the metrics, the chain depths included. -/
def Score.breakdowns (r : Score) : List (List (String × Metric)) :=
  [r.metrics.byApp, r.metrics.byFamily, r.metrics.byClass, r.metrics.bySeverity,
    r.metrics.byRender, r.metrics.byDifficulty, r.metrics.byAuth, r.metrics.byRequires,
    r.metrics.byComponent, r.metrics.byOracleKind, r.chains.byDepth] ++
    r.metrics.byOwasp.map Prod.snd

section Run

variable (s : Setting) (stream : EventStream)

theorem inScope_scoreRun :
    (scoreRun s stream).inScope =
      s.catalog.vulns.filter (·.app ∈ (scopeOf s (EventStream.scored stream)).1) := rfl

theorem outcomeOf_scoreRun {v : Vuln} (hv : v ∈ (scoreRun s stream).inScope) :
    outcomeOf (scoreRun s stream).outcomes v =
      scoreVuln v (EventStream.scored stream)
        (attributedTo (attributions (EventStream.scored stream) s.catalog s.addresses) v.id) := by
  have hn : ((scoreRun s stream).inScope.map Vuln.id).Nodup :=
    s.catalog.ids_nodup.sublist (filter_sublist.map _)
  have hkeys : (((scoreRun s stream).inScope.map fun v => (v.id, scoreVuln v
      (EventStream.scored stream) (attributedTo (attributions (EventStream.scored stream) s.catalog
        s.addresses) v.id))).map Prod.fst).Nodup := by
    rw [map_map]
    exact hn
  have hmem := mem_map_of_mem (f := fun v => (v.id, scoreVuln v
      (EventStream.scored stream) (attributedTo (attributions (EventStream.scored stream) s.catalog
        s.addresses) v.id))) hv
  rw [outcomeOf, Dict.getD]
  exact congrArg (Option.getD · _) (Dict.get?_ofList_of_mem hkeys hmem)

/-- **The funnel is coherent**, outcome by outcome and in every bucket of the score. -/
theorem scoreRun_funnel :
    (∀ v ∈ (scoreRun s stream).inScope,
      (outcomeOf (scoreRun s stream).outcomes v).Coherent v (EventStream.scored stream)
        (attributedTo (attributions (EventStream.scored stream) s.catalog s.addresses) v.id)) ∧
    (scoreRun s stream).metrics.overall.Funnel ∧
    ∀ breakdown ∈ (scoreRun s stream).breakdowns, ∀ e ∈ breakdown, e.2.Funnel := by
  have hout : ∀ v ∈ (scoreRun s stream).inScope,
      (outcomeOf (scoreRun s stream).outcomes v).Coherent v (EventStream.scored stream)
        (attributedTo (attributions (EventStream.scored stream) s.catalog s.addresses) v.id) := by
    intro v hv
    rw [outcomeOf_scoreRun s stream hv]
    exact scoreVuln_coherent v _ _
  have hex : ∀ v ∈ (scoreRun s stream).inScope, ∃ stream' atts,
      (outcomeOf (scoreRun s stream).outcomes v).Coherent v stream' atts :=
    fun v hv => ⟨_, _, hout v hv⟩
  refine ⟨hout, metric_funnel hex, fun breakdown hb => ?_⟩
  rcases mem_append.mp hb with hb | hb
  · simp only [mem_cons, not_mem_nil, or_false] at hb
    rcases hb with rfl | rfl | rfl | rfl | rfl | rfl | rfl | rfl | rfl | rfl | rfl <;>
      exact buckets_funnel _ hex
  · simp only [scoreRun, metricsOf, map_map, mem_map] at hb
    obtain ⟨edition, -, rfl⟩ := hb
    exact buckets_funnel _ hex

end Run

end PtaasBench.Benchctl
