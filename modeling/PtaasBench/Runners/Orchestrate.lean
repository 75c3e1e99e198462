import PtaasBench.Runners.Topology

/-!
# PtaasBench.Runners.Orchestrate — the run record (`orchestrate.py`)

The steps of `Orchestrator.run` that read or write a state digest: the reset before the run, the
address map, the reset after it, the record, and what is written over the record later.
-/

namespace PtaasBench.Runners

open Py Benchctl

/-- One selected application, and what docker says of it over the run. -/
structure Target where
  app : String
  services : List ServiceTopology := []
  reset : ResetAnswers
  after : CompletedProcess  -- the reset command again, once the tool has stopped

structure Orchestrator where
  apps : List Target
  skipReset : Bool := false
  references : Dict String String := Dict.empty
  parts : String → Json := fun _ => .null  -- the parts of the record without a digest, by key

/-- What a run leaves behind. -/
structure Finished where
  topology : Dict String AppTopology
  record : Obj

namespace Orchestrator

section Steps

variable [Runtime] (o : Orchestrator)

/-- `_reset` -/
def resets : Except String (List ResetOutcome) :=
  if o.skipReset then .ok [] else resetTargets (o.apps.map fun a => (a.app, a.reset)) o.references

/-- `inspect_apps` -/
def inspectApps : Dict String AppTopology :=
  Dict.ofList (o.apps.map fun a => (a.app, { app := a.app, services := a.services }))

def digestsBefore (resets : List ResetOutcome) : Dict String String :=
  Dict.ofList (resets.filterMap fun r =>
    if given r.stateDigest then r.stateDigest.map fun digest => (r.app, digest) else none)

/-- `if app in topology: topology[app].f = v` -/
def update (topology : Dict String AppTopology) (app : String) (f : AppTopology → AppTopology) :
    Dict String AppTopology :=
  match topology.get? app with
  | some t => topology.set app (f t)
  | none => topology

/-- The address map at run open. -/
def topologyAtOpen (resets : List ResetOutcome) : Dict String AppTopology :=
  (digestsBefore resets).items.foldl (fun topology e =>
    update topology e.1 fun t => { t with stateDigestBefore := some e.2 }) o.inspectApps

/-- `_digests_after` -/
def digestsAfter (topology : Dict String AppTopology) : Dict String AppTopology :=
  if o.skipReset then topology
  else
    o.apps.foldl (fun topology a =>
      update topology a.app fun t => { t with stateDigestAfter := (digestAfterRun a.after).1 }) topology

/-- `_build_record` -/
def buildRecord (resets : List ResetOutcome) (topology : Dict String AppTopology) : Obj :=
  let part (key : String) : String × Json := (key, o.parts key)
  ["schema", "run_id", "tool", "tool_version", "profile", "image", "image_digest", "targets", "budget",
    "budget_note", "started_at", "ended_at", "duration_s", "stop_reason", "error", "scan_mode",
    "caveats", "requests_observed", "requests", "collector", "harness", "preflight",
    "url_source"].map part ++
  [("reset", .arr (resets.map ResetOutcome.toDict)),
    ("addresses", addressPayload topology),
    ("target_topology", addressPayload topology)] ++
  ["address_map_accepted_by_collector", "preparation", "browser", "synthetic_traffic", "auth",
    "invocations", "events", "normalisation"].map part

/-- What a run opened on these resets leaves behind. -/
def finished (resets : List ResetOutcome) : Finished :=
  let topology := o.digestsAfter (o.topologyAtOpen resets)
  { topology := topology, record := o.buildRecord resets topology }

/-- The run, as far as its record: a reset that cannot be verified ends it before. -/
def finish : Except String Finished :=
  match o.resets with
  | .error e => .error e
  | .ok resets => .ok (o.finished resets)

end Steps

end Orchestrator

/-- The record of a run, each time it is written: after the run, with the outcome of the scoring,
and when a findings file is ingested later. -/
inductive Written (f : Finished) : Obj → Prop
  | run : Written f f.record
  | score {record : Obj} (status : Json) : Written f record → Written f (record.set "score" status)
  | ingest {record : Obj} (schema runId ingested : Json) : Written f record →
      Written f (((record.setdefault "schema" schema).setdefault "run_id" runId).set "ingested" ingested)

/-- An app whose digest before the run differs from its digest after it. -/
def Mismatched (f : Finished) (app : String) : Prop :=
  ∃ t ∈ f.topology.get? app, t.stateDigestBefore ≠ none ∧ t.stateDigestAfter ≠ none ∧
    t.stateDigestBefore ≠ t.stateDigestAfter

instance (f : Finished) (app : String) : Decidable (Mismatched f app) :=
  inferInstanceAs (Decidable (∃ t ∈ _, _ ∧ _ ∧ _))

/-! ## What the scorer makes of the digests -/

section Scored

variable [Runtime]

theorem normalizeRunRecord_written {f : Finished} {record : Obj} (h : Written f record) :
    normalizeRunRecord record = normalizeRunRecord f.record := by
  have hunread : ∀ k ∈ recordKeys, k ≠ "score" ∧ k ≠ "schema" ∧ k ≠ "run_id" ∧ k ≠ "ingested" := by
    decide
  induction h with
  | run => rfl
  | score status _ ih =>
    rw [← ih]
    exact normalizeRunRecord_congr fun k hk => Obj.get_set_of_ne _ _ (hunread k hk).1
  | ingest schema runId ingested _ ih =>
    rw [← ih]
    refine normalizeRunRecord_congr fun k hk => ?_
    obtain ⟨-, hschema, hrun, hingested⟩ := hunread k hk
    rw [Obj.get_set_of_ne _ _ hingested, Obj.get_setdefault_of_ne _ _ hrun,
      Obj.get_setdefault_of_ne _ _ hschema]

/-- The digest of an outcome, read back from its entry. -/
theorem of_asStr_jsonText {s : Option String} {b : String}
    (h : asStr ((jsonText s).orElse .null) = some b) : s = some b := by
  cases s with
  | none => exact absurd h.symm (Option.some_ne_none b)
  | some s =>
    by_cases hs : s = ""
    · rw [hs] at h
      exact absurd h (by simp [jsonText, Json.orElse, Json.truthy, asStr])
    · have htext : (jsonText (some s)).orElse .null = .str s := if_pos (by simpa [jsonText, Json.truthy] using hs)
      rw [htext] at h
      unfold asStr at h
      split at h
      · exact absurd h (by simp)
      · exact absurd h (by simp)
      · rw [← Option.some.inj h]
        rfl

/-- The entry of a clean outcome records no mismatch. -/
theorem allClean_recordOutcome {reset : Dict String ResetDigests} (h : AllClean reset)
    {o : ResetOutcome} (hok : o.ok = true)
    (hdigest : ∃ digest, o.stateDigest = some digest ∧ ∀ r ∈ o.referenceDigest, digest = r) :
    AllClean (recordOutcome reset o.toDict) := by
  obtain ⟨digest, hstate, hreference⟩ := hdigest
  have hentry : recordOutcome reset o.toDict =
      if (Json.str o.app).truthy then
        recordDigests reset o.app ((jsonText o.referenceDigest).orElse .null)
          ((jsonText o.stateDigest).orElse .null) (.bool o.ok)
      else reset := rfl
  rw [hentry]
  split_ifs
  · refine h.recordDigests o.app (fun b hb a ha => ?_) ?_
    · have hb := of_asStr_jsonText hb
      have ha := of_asStr_jsonText ha
      rw [hstate] at ha
      rw [← Option.some.inj ha]
      exact (hreference b hb).symm
    · rw [hok]
      simp [asFlag, Json.truthy]
  · exact h

theorem allClean_outcomes {reset : Dict String ResetDigests} (h : AllClean reset)
    {outcomes : List ResetOutcome}
    (hclean : ∀ o ∈ outcomes, o.ok = true ∧ ∃ digest, o.stateDigest = some digest ∧
      ∀ r ∈ o.referenceDigest, digest = r) :
    AllClean ((outcomes.map ResetOutcome.toDict).foldl recordOutcome reset) := by
  induction outcomes generalizing reset with
  | nil => exact h
  | cons o outcomes ih =>
    obtain ⟨hok, hdigest⟩ := hclean o List.mem_cons_self
    exact ih (allClean_recordOutcome h hok hdigest) fun o ho => hclean o (List.mem_cons_of_mem _ ho)

omit [Runtime] in
/-- The container map that is read from a record is the map of the run. -/
theorem containerMap_buildRecord (o : Orchestrator) (resets : List ResetOutcome)
    (topology : Dict String AppTopology) :
    (containerMapKeys.findSome? fun key => nonEmptyMap? ((o.buildRecord resets topology).get key)).getD [] =
      topology.items.map fun e => (e.1, e.2.toDict) := by
  have haddresses : (o.buildRecord resets topology).get "addresses" = addressPayload topology := rfl
  have htopology : (o.buildRecord resets topology).get "target_topology" = addressPayload topology := rfl
  rw [containerMapKeys, List.findSome?_cons, haddresses, List.findSome?_cons, htopology, addressPayload]
  cases topology.items with
  | nil => rfl
  | cons e es => rfl

/-- The container map of a record has no digests under the names that are read. -/
theorem containers_without_digests (o : Orchestrator) (resets : List ResetOutcome)
    (topology : Dict String AppTopology) :
    ∀ e ∈ (containersOf (o.buildRecord resets topology)).items,
      e.2.resetDigestBefore = none ∧ e.2.resetDigestAfter = none := by
  have hmap : containersOf (o.buildRecord resets topology) =
      Dict.ofList (topology.items.filterMap fun e =>
        e.2.toDict.asObj?.map fun entry => (e.1, containerOf entry)) := by
    unfold containersOf
    dsimp only
    rw [containerMap_buildRecord, List.filterMap_map]
    rfl
  intro e he
  rw [hmap] at he
  obtain ⟨p, hp, hpe⟩ := List.mem_map.mp (Dict.mem_values_ofList (List.mem_map.mpr ⟨e, he, rfl⟩))
  obtain ⟨t, -, ht⟩ := List.mem_filterMap.mp hp
  obtain ⟨entry, hentry, rfl⟩ := Option.map_eq_some_iff.mp ht
  rw [← hpe]
  exact containerOf_toDict t.2 hentry

/-- Containers that say nothing of digests leave the outcomes as they stand. -/
theorem foldl_containers_silent {containers : List (String × Container)}
    (h : ∀ e ∈ containers, e.2.resetDigestBefore = none ∧ e.2.resetDigestAfter = none)
    (reset : Dict String ResetDigests) :
    containers.foldl (fun reset e => recordDigests reset e.1 (e.2.resetDigestBefore.elim .null .str)
      (e.2.resetDigestAfter.elim .null .str) .null) reset = reset := by
  induction containers with
  | nil => rfl
  | cons e containers ih =>
    obtain ⟨hbefore, hafter⟩ := h e List.mem_cons_self
    rw [List.foldl_cons, hbefore, hafter]
    exact ih fun e he => h e (List.mem_cons_of_mem _ he)

/-- The resets a run is opened on have all been verified. -/
theorem clean_of_resets {o : Orchestrator} {resets : List ResetOutcome} (h : o.resets = .ok resets) :
    ∀ r ∈ resets, r.ok = true ∧ ∃ digest, r.stateDigest = some digest ∧
      ∀ reference ∈ r.referenceDigest, digest = reference := by
  unfold Orchestrator.resets at h
  split_ifs at h
  · obtain rfl := Except.ok.inj h
    intro r hr
    exact absurd hr List.not_mem_nil
  · exact clean_of_resetTargets h

/-- No record of a run has a mismatch in it for the scorer. -/
theorem allClean_finish {o : Orchestrator} {f : Finished} (h : o.finish = .ok f) :
    AllClean (resetDigestsOf f.record (containersOf f.record)) := by
  unfold Orchestrator.finish at h
  cases hresets : o.resets with
  | error e =>
    rw [hresets] at h
    exact absurd h (by simp)
  | ok resets =>
    rw [hresets] at h
    obtain rfl := Except.ok.inj h
    unfold Orchestrator.finished
    dsimp only
    generalize o.digestsAfter (o.topologyAtOpen resets) = topology
    have hdigests : resetDigestsOf (o.buildRecord resets topology)
        (containersOf (o.buildRecord resets topology)) =
          (containersOf (o.buildRecord resets topology)).items.foldl (fun reset e =>
            recordDigests reset e.1 (e.2.resetDigestBefore.elim .null .str)
              (e.2.resetDigestAfter.elim .null .str) .null)
            ((resets.map ResetOutcome.toDict).foldl recordOutcome Dict.empty) := rfl
    rw [hdigests, foldl_containers_silent (containers_without_digests o resets topology)]
    have hempty : AllClean Dict.empty := fun e he => absurd he List.not_mem_nil
    exact allClean_outcomes hempty (clean_of_resets hresets)

/-- The score has the caveat of the app, and says that the resets were not consistent. -/
def Reported (s : Setting) (stream : EventStream) (record : Obj) (app : String) : Prop :=
  (∃ digests, resetMismatch app digests ∈ scoreWarnings s stream (normalizeRunRecord record)) ∧
    (normalizeRunRecord record).resetConsistent = some false

/-- No score of a record of a run has the caveat of any app, or calls the resets inconsistent. -/
theorem no_caveat {o : Orchestrator} {f : Finished} (h : o.finish = .ok f) {record : Obj}
    (hrecord : Written f record) (s : Setting) (stream : EventStream) :
    (∀ w ∈ scoreWarnings s stream (normalizeRunRecord record), w.code ≠ resetMismatchCode) ∧
      (normalizeRunRecord record).resetConsistent ≠ some false := by
  have hclean := allClean_finish h
  rw [normalizeRunRecord_written hrecord]
  constructor
  · intro w hw hcode
    obtain ⟨e, he, -⟩ := List.mem_map.mp (mem_resetWarnings_of_code hw hcode)
    obtain ⟨he, hm⟩ := List.mem_filter.mp he
    have hmem : e ∈ (resetDigestsOf f.record (containersOf f.record)).items :=
      (List.mem_insertionSort _).mp he
    exact (hclean e hmem).1 (of_decide_eq_true hm)
  · have hconsistent : (normalizeRunRecord f.record).resetConsistent =
        if resetMatches (resetDigestsOf f.record (containersOf f.record)) = [] then none
        else some ((resetMatches (resetDigestsOf f.record (containersOf f.record))).all id) := rfl
    have hall : (resetMatches (resetDigestsOf f.record (containersOf f.record))).all id = true :=
      List.all_eq_true.mpr hclean.resetMatches
    rw [hconsistent, hall]
    split_ifs <;> simp

end Scored

/-- The mismatches of a run are all reported if and only if it has none. -/
theorem mismatch_reported_iff [Runtime] {o : Orchestrator} {f : Finished} (h : o.finish = .ok f)
    {record : Obj} (hrecord : Written f record) (s : Setting) (stream : EventStream) :
    (∀ app, Mismatched f app → Reported s stream record app) ↔ ∀ app, ¬ Mismatched f app := by
  constructor
  · intro hreported app happ
    exact (no_caveat h hrecord s stream).2 (hreported app happ).2
  · intro hnone app happ
    exact absurd happ (hnone app)

/-! ## A target that does not return to the same state twice -/

/-- A reset that prints a digest. -/
def prints (digest : String) : CompletedProcess := { returncode := 0, stdout := "state " ++ digest }

def driftingShop : Orchestrator where
  apps := [{ app := "shop", reset := { command := prints "0123456789abcdef" }
             after := prints "fedcba9876543210" }]

/-- The scorer of a corpus with nothing planted. -/
def emptySetting : Setting where
  catalog := { vulns := [], ids_nodup := List.nodup_nil }

theorem finish_driftingShop :
    let _ := Runtime.ascii
    driftingShop.finish =
      .ok (driftingShop.finished [reset "shop" none { command := prints "0123456789abcdef" }]) := by
  intro rt
  have hclean : (reset "shop" none { command := prints "0123456789abcdef" }).ok = true := by
    rfl
  have hresets : driftingShop.resets =
      .ok [reset "shop" none { command := prints "0123456789abcdef" }] := by
    show resetTargets [("shop", { command := prints "0123456789abcdef" })] Dict.empty = _
    refine resetTargets_eq_ok fun t ht => ?_
    rw [List.mem_singleton.mp ht]
    exact hclean
  rw [Orchestrator.finish, hresets]

theorem mismatched_driftingShop :
    let _ := Runtime.ascii
    Mismatched (driftingShop.finished [reset "shop" none { command := prints "0123456789abcdef" }])
      "shop" := by
  decide

theorem drifting_shop_unreported :
    let _ := Runtime.ascii
    ∃ f, driftingShop.finish = .ok f ∧
      ¬ ∀ app, Mismatched f app → Reported emptySetting [] f.record app := by
  intro rt
  refine ⟨_, finish_driftingShop, fun h => ?_⟩
  exact (mismatch_reported_iff finish_driftingShop .run emptySetting []).mp h "shop"
    mismatched_driftingShop

/-- The digests differ, and the score says that the resets were consistent. -/
theorem drifting_shop_consistent :
    let _ := Runtime.ascii
    ∃ f, driftingShop.finish = .ok f ∧ Mismatched f "shop" ∧
      (normalizeRunRecord f.record).resetConsistent = some true ∧
        (scoreWarnings emptySetting [] (normalizeRunRecord f.record)).map Warning.code =
          ["scan-mode-unknown", "incomplete-run-record"] := by
  intro rt
  refine ⟨_, finish_driftingShop, mismatched_driftingShop, ?_, ?_⟩
  · rfl
  · rfl

end PtaasBench.Runners
