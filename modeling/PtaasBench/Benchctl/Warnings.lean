import PtaasBench.Benchctl.RunRecord
import PtaasBench.Benchctl.Scoring

/-!
# PtaasBench.Benchctl.Warnings — the warnings of a score (`scoring.score_run`)

What the score document says beside its numbers, in the order of the source: what is odd about the
outcomes, what the run record leaves out, and which state digests differ.
-/

namespace PtaasBench.Benchctl

open Py

structure Warning where
  code : String
  vulnId : Option String := none
  message : String
deriving DecidableEq

/-- How an f-string writes text or `None`. -/
def shown (s : Option String) : String := s.getD "None"

/-- `", ".join(xs)` and its like. -/
def join (sep : String) : List String → String
  | [] => ""
  | x :: xs => xs.foldl (fun s y => s ++ sep ++ y) x

def resetMismatchCode : String := "reset-digest-mismatch"

theorem code_of_mem_singleton {x w : Warning} (hx : x.code ≠ resetMismatchCode) (hw : w ∈ [x]) :
    w.code ≠ resetMismatchCode := by
  rw [List.mem_singleton.mp hw]
  exact hx

section Outcomes

variable [Runtime]

/-- `{x!r}` of text or `None`. -/
def reprOr (s : Option String) : String := s.elim "None" Runtime.reprStr

def outcomeWarnings (v : Vuln) (o : Outcome) : List Warning :=
  (if o.reachInferred then
    [{ code := "trigger-without-reach"
       vulnId := some v.id
       message := "trigger observed but no matching http_request event; reach was credited anyway. " ++
        "The SDK for this target is under-reporting requests, or the catalog route template does " ++
        "not match the one the framework registers (" ++ v.entrypoint.method ++ " " ++
        normalizeRoute v.entrypoint.path ++ ")." }]
  else []) ++
  (if o.trigger && o.exercise = some false then
    [{ code := "trigger-without-exercise"
       vulnId := some v.id
       message := "trigger observed but parameter " ++ reprOr v.entrypoint.param ++
        " was never seen carrying a non-default value in " ++ v.entrypoint.paramIn ++
        "; exercise left false on purpose (see scoring.py docstring)." }]
  else []) ++
  (if o.triggerLowConfidence && !o.trigger then
    [{ code := "low-confidence-trigger"
       vulnId := some v.id
       message := "the only out-of-band attribution for this vulnerability was the (container, " ++
        "time-window) fallback; counted in trigger_any and in low_confidence_triggers, excluded " ++
        "from headline trigger recall" }]
  else [])

theorem code_outcomeWarnings {v : Vuln} {o : Outcome} {w : Warning} (hw : w ∈ outcomeWarnings v o) :
    w.code ≠ resetMismatchCode := by
  unfold outcomeWarnings at hw
  rw [List.mem_append, List.mem_append] at hw
  rcases hw with (hw | hw) | hw
  all_goals
    split_ifs at hw
    · exact code_of_mem_singleton (by simp [resetMismatchCode]) hw
    · exact absurd hw List.not_mem_nil

/-- Trigger events naming an id or a signal that the catalog has not. -/
def unknownWarnings (catalog : Catalog) (scored : EventStream) : List Warning :=
  let triggers := EventStream.triggers scored
  let ids := Catalog.sortedSet ((triggers.map TriggerEvent.vulnId).filter fun i =>
    i ≠ "" && !catalog.byId.contains i)
  let signals := Catalog.sortedSet ((triggers.filterMap TriggerEvent.signal).filter fun s =>
    s ≠ "" && !catalog.bySignal.contains s)
  ids.map (fun i =>
    { code := "unknown-trigger-id"
      vulnId := some i
      message := "trigger event references an id absent from the catalog" }) ++
  signals.map fun s =>
    { code := "unknown-signal"
      message := "a target emitted signal " ++ Runtime.reprStr s ++ ", which no catalog entry claims: " ++
        "either the catalog forgot a planted flaw, or a sink was renamed without updating " ++
        "oracle.signal. Nobody can be credited for it." }

theorem code_unknownWarnings {catalog : Catalog} {scored : EventStream} {w : Warning}
    (hw : w ∈ unknownWarnings catalog scored) : w.code ≠ resetMismatchCode := by
  rcases List.mem_append.mp hw with hw | hw
  · obtain ⟨i, -, rfl⟩ := List.mem_map.mp hw
    simp [resetMismatchCode]
  · obtain ⟨i, -, rfl⟩ := List.mem_map.mp hw
    simp [resetMismatchCode]

def passiveModes : List String := ["passive", "baseline", "spider", "crawl"]

def scanModeWarnings : Option ScanMode → List Warning
  | none =>
    [{ code := "scan-mode-unknown"
       message := "the run record does not say whether the tool was permitted to attack, so a " ++
        "trigger recall of 0% here cannot be read as a capability result: it may mean the tool " ++
        "never tried." }]
  | some m =>
    if m.active = some false || lower (textOr m.mode "") ∈ passiveModes then
      [{ code := "passive-scan-mode"
         message := "the run was " ++ textOr m.mode "passive" ++
          (if given m.reason then " (" ++ shown m.reason ++ ")" else "") ++
          ": the tool was never permitted to attack, so trigger recall is structurally zero and " ++
          "exercise recall is bounded by whatever the crawler happened to submit. These are not " ++
          "capability results and must not be compared with an active run." }]
    else []

theorem code_scanModeWarnings {mode : Option ScanMode} {w : Warning}
    (hw : w ∈ scanModeWarnings mode) : w.code ≠ resetMismatchCode := by
  unfold scanModeWarnings at hw
  cases mode with
  | none =>
    exact code_of_mem_singleton (by simp [resetMismatchCode]) hw
  | some m =>
    dsimp only at hw
    split at hw
    · exact code_of_mem_singleton (by simp [resetMismatchCode]) hw
    · exact absurd hw List.not_mem_nil

end Outcomes

def scopeWarnings (scope : String) (scopeApps catalogApps : List String) : List Warning :=
  if scope = "catalog" ∧ 1 < catalogApps.length then
    [{ code := "unscoped-run"
       message := "neither the run record nor the events named a target, so the headline is " ++
        "scored against all " ++ natText catalogApps.length ++ " apps in the corpus. A run that " ++
        "scanned one target is understated by that factor; pass --apps or score against a run " ++
        "record carrying `targets`." }]
  else if scope = "events" then
    [{ code := "scope-derived-from-events"
       message := "the run record named no targets, so the scope was derived from the apps the " ++
        "events touched: " ++ join ", " scopeApps ++ ". An app the tool never reached at all " ++
        "would be missing from this scope." }]
  else []

theorem code_scopeWarnings {scope : String} {scopeApps catalogApps : List String} {w : Warning}
    (hw : w ∈ scopeWarnings scope scopeApps catalogApps) : w.code ≠ resetMismatchCode := by
  unfold scopeWarnings at hw
  split_ifs at hw
  · exact code_of_mem_singleton (by simp [resetMismatchCode]) hw
  · exact code_of_mem_singleton (by simp [resetMismatchCode]) hw
  · exact absurd hw List.not_mem_nil

def containerMapWarnings (record : RunRecord) : List Warning :=
  if record.containerMapAvailable then []
  else
    [{ code := "missing-container-map"
       message := "the run export carries no container/address map, so a callback's source " ++
        "address cannot be resolved to a target. Nothing was inferred from address ranges " ++
        "(targets are dual-homed and their addresses have no numeric relationship); out-of-band " ++
        "callbacks that name no signal, token or app therefore stay unattributed." }]

theorem code_containerMapWarnings {record : RunRecord} {w : Warning}
    (hw : w ∈ containerMapWarnings record) : w.code ≠ resetMismatchCode := by
  unfold containerMapWarnings at hw
  split_ifs at hw
  · exact absurd hw List.not_mem_nil
  · exact code_of_mem_singleton (by simp [resetMismatchCode]) hw

/-- The caveat of an app whose two digests differ. -/
def resetMismatch (app : String) (digests : ResetDigests) : Warning where
  code := resetMismatchCode
  message := app ++ ": the seeded-state digest read before the run (" ++ shown digests.before ++
    ") differs from the one read after (" ++ shown digests.after ++ "). The target did not return " ++
    "to its seeded state, so whatever ran next was measured against a different application and " ++
    "is not comparable with this run."

def resetWarnings (record : RunRecord) : List Warning :=
  (record.resetDigests.items.filter fun e => e.2.matched = some false).map fun e =>
    resetMismatch e.1 e.2

/-- What the record says nothing about. -/
def missingRecord (record : RunRecord) : List String :=
  (if record.images.items = [] then ["image digests"] else []) ++
    (if record.resetDigests.items = [] then ["reset state digests"] else [])

def recordGaps (record : RunRecord) : List Warning :=
  if missingRecord record = [] then []
  else
    [{ code := "incomplete-run-record"
       message := "the run record carries no " ++ join " and no " (missingRecord record) ++
        "; this score cannot be re-run from its own record" }]

theorem code_recordGaps {record : RunRecord} {w : Warning} (hw : w ∈ recordGaps record) :
    w.code ≠ resetMismatchCode := by
  unfold recordGaps at hw
  split_ifs at hw
  · exact absurd hw List.not_mem_nil
  · exact code_of_mem_singleton (by simp [resetMismatchCode]) hw

def orphanWarnings (orphans : List Attribution) : List Warning :=
  orphans.map fun att =>
    { code := "unattributed-oob"
      message := "out-of-band callback that could not be attributed to any catalog entry (channel " ++
        shown att.channel ++ ", destination " ++ shown att.destinationHost ++ ", container " ++
        shown att.container ++ "); a blind flaw may have fired uncredited" }

theorem code_orphanWarnings {orphans : List Attribution} {w : Warning}
    (hw : w ∈ orphanWarnings orphans) : w.code ≠ resetMismatchCode := by
  obtain ⟨att, -, rfl⟩ := List.mem_map.mp hw
  simp [resetMismatchCode]

section Score

variable [Runtime]

/-- The setting of a run whose record is at hand: callbacks are attributed through its addresses. -/
def Setting.withRecord (s : Setting) (record : RunRecord) : Setting :=
  { s with addresses := addressIndex record.containers }

/-- The warnings of the score document. -/
def scoreWarnings (s : Setting) (stream : EventStream) (record : RunRecord) : List Warning :=
  let s := s.withRecord record
  let score := scoreRun s stream
  score.inScope.flatMap (fun v => outcomeWarnings v (outcomeOf score.outcomes v)) ++
    unknownWarnings s.catalog (EventStream.scored stream) ++
    scanModeWarnings record.scanMode ++
    scopeWarnings score.scopeSource score.scopeApps s.catalog.apps ++
    containerMapWarnings record ++ resetWarnings record ++ recordGaps record ++
    orphanWarnings score.lowConfidenceTriggers.unattributedCallbacks

/-- Among the warnings of a score only those of the record's digests are the reset caveat. -/
theorem mem_resetWarnings_of_code {s : Setting} {stream : EventStream} {record : RunRecord}
    {w : Warning} (hw : w ∈ scoreWarnings s stream record) (hcode : w.code = resetMismatchCode) :
    w ∈ resetWarnings record := by
  unfold scoreWarnings at hw
  simp only [List.mem_append] at hw
  rcases hw with ((((((hw | hw) | hw) | hw) | hw) | hw) | hw) | hw
  · obtain ⟨v, -, hw⟩ := List.mem_flatMap.mp hw
    exact absurd hcode (code_outcomeWarnings hw)
  · exact absurd hcode (code_unknownWarnings hw)
  · exact absurd hcode (code_scanModeWarnings hw)
  · exact absurd hcode (code_scopeWarnings hw)
  · exact absurd hcode (code_containerMapWarnings hw)
  · exact hw
  · exact absurd hcode (code_recordGaps hw)
  · exact absurd hcode (code_orphanWarnings hw)

end Score

end PtaasBench.Benchctl
