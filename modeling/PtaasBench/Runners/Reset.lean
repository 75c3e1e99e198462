import PtaasBench.Benchctl.Load
import PtaasBench.Benchctl.Warnings

/-!
# PtaasBench.Runners.Reset — target reset, and the proof that it happened (`_lib/reset.py`)

Docker is outside the model: `ResetAnswers` is what it says while one application is reset.
-/

namespace PtaasBench.Runners

open Py Benchctl

structure Check where
  name : String
  ok : Bool
  detail : String := ""

def Check.toDict (c : Check) : Json :=
  .obj [("name", .str c.name), ("ok", .bool c.ok), ("detail", .str c.detail)]

/-- Text, or JSON `null`. -/
def jsonText (s : Option String) : Json := s.elim .null .str

structure ResetOutcome where
  app : String
  ok : Bool := false
  stateDigest : Option String := none
  referenceDigest : Option String := none
  checks : List Check := []
  durationS : Json := .null

def ResetOutcome.toDict (o : ResetOutcome) : Json :=
  .obj [("app", .str o.app), ("ok", .bool o.ok), ("state_digest", jsonText o.stateDigest),
    ("reference_digest", jsonText o.referenceDigest), ("duration_s", o.durationS),
    ("checks", .arr (o.checks.map Check.toDict))]

def ResetOutcome.failures (o : ResetOutcome) : List Check := o.checks.filter (!·.ok)

structure CompletedProcess where
  returncode : ℤ
  stdout : String := ""
  stderr : String := ""

/-- What docker says during one reset. -/
structure ResetAnswers where
  -- of each service restarted: did its start time advance, and from what to what
  restarts : List (String × Bool × String) := []
  health : Bool × String := (true, "")
  command : CompletedProcess
  durationS : Json := .null

/-! ## The digest a reset prints -/

/-- A character of `_DIGEST_TOKEN_RE` after the first. -/
def isTokenChar (c : Char) : Bool := c.isAlphanum || c ∈ [':', '_', '+', '/', '=', '.', '-']

/-- Does `_DIGEST_TOKEN_RE` match at the start? -/
def startsToken : List Char → Bool
  | [] => false
  | c :: cs => c.isAlphanum && 11 ≤ (cs.takeWhile isTokenChar).length

def hasToken (s : String) : Bool := s.toList.tails.any startsToken

/-- `" ".join(line.split())` -/
def squeezed (line : String) : String :=
  join " " (((line.toList.splitOnP isSpace).filter (· ≠ [])).map String.ofList)

/-- The last line with a token that could be a digest. -/
def extractDigest (stdout : String) : Option String :=
  ((splitlines stdout).map squeezed).reverse.find? fun candidate => candidate ≠ "" && hasToken candidate

section Resetter

variable [Runtime]

/-- `f"exit {res.returncode} {res.stderr.strip()[:200]}".strip()` -/
def exitText (res : CompletedProcess) : String :=
  strip ("exit " ++ String.ofList (intText res.returncode) ++ " " ++
    String.ofList ((strip res.stderr).toList.take 200))

/-- The check against the seeded digest; the first run of all has none to check against. -/
def referenceCheck (stateDigest referenceDigest : Option String) : Check :=
  match referenceDigest with
  | none =>
    { name := "digest_matches_reference"
      ok := true
      detail := "no reference digest yet; recording " ++ reprOr stateDigest ++
        " as the seeded value for the next run to check against" }
  | some reference =>
    { name := "digest_matches_reference"
      ok := stateDigest = some reference
      detail := "expected " ++ Runtime.reprStr reference ++ ", got " ++ reprOr stateDigest }

/-- The checks of the restart; nothing is waited for when nothing was restarted. -/
def restartChecks (answers : ResetAnswers) : List Check :=
  if answers.restarts = [] then []
  else
    answers.restarts.map (fun r => { name := "restarted:" ++ r.1, ok := r.2.1, detail := r.2.2 }) ++
      [{ name := "health", ok := answers.health.1, detail := answers.health.2 }]

/-- `TargetResetter.reset` -/
def reset (app : String) (referenceDigest : Option String) (answers : ResetAnswers) : ResetOutcome :=
  let outcome : ResetOutcome :=
    { app := app, referenceDigest := referenceDigest, checks := restartChecks answers
      durationS := answers.durationS }
  if answers.restarts ≠ [] ∧ !answers.health.1 then outcome
  else
    let res := answers.command
    let ran : Check := { name := "reset_command", ok := res.returncode = 0, detail := exitText res }
    let outcome := { outcome with checks := outcome.checks ++ [ran] }
    if !ran.ok then outcome
    else
      let digest := extractDigest res.stdout
      let printed : Check :=
        { name := "digest_printed", ok := digest.isSome
          detail := "stdout " ++ Runtime.reprStr (String.ofList ((strip res.stdout).toList.take 200)) }
      let checks := outcome.checks ++ [printed, referenceCheck digest referenceDigest]
      { outcome with stateDigest := digest, checks := checks, ok := checks.all Check.ok }

/-- `TargetResetter.digest_after_run`: the digest, and the detail. -/
def digestAfterRun (res : CompletedProcess) : Option String × String :=
  if res.returncode ≠ 0 then (none, exitText res) else (extractDigest res.stdout, "ok")

/-- The text of `ResetError`. -/
def resetError (bad : List ResetOutcome) : String :=
  "target reset could not be verified, refusing to open a run -- residual state from the previous " ++
    "tool would be credited to this one. " ++
    join "; " (bad.map fun o =>
      o.app ++ ": " ++ join ", " (o.failures.map fun c => c.name ++ " (" ++ c.detail ++ ")"))

/-- `reset_targets(..., strict=True)` -/
def resetTargets (targets : List (String × ResetAnswers)) (references : Dict String String) :
    Except String (List ResetOutcome) :=
  let outcomes := targets.map fun t => reset t.1 (references.get? t.1) t.2
  let bad := outcomes.filter (!·.ok)
  if bad ≠ [] then .error (resetError bad) else .ok outcomes

theorem resetTargets_eq_ok {targets : List (String × ResetAnswers)} {references : Dict String String}
    (h : ∀ t ∈ targets, (reset t.1 (references.get? t.1) t.2).ok = true) :
    resetTargets targets references =
      .ok (targets.map fun t => reset t.1 (references.get? t.1) t.2) := by
  unfold resetTargets
  dsimp only
  rw [if_neg]
  rw [not_not, List.filter_eq_nil_iff]
  intro o ho
  obtain ⟨t, ht, rfl⟩ := List.mem_map.mp ho
  simpa using h t ht

/-- A reset that is proven clean came back to its reference, if it has one. -/
theorem digest_of_reset_ok {app : String} {reference : Option String} {answers : ResetAnswers}
    (h : (reset app reference answers).ok = true) :
    ∃ digest, (reset app reference answers).stateDigest = some digest ∧
      ∀ r ∈ reference, digest = r := by
  unfold reset at h ⊢
  dsimp only at h ⊢
  split_ifs at h ⊢ with hhealth hran
  rw [List.all_eq_true] at h
  have hprinted := h _ (List.mem_append_right _ List.mem_cons_self)
  have hreference := h _ (List.mem_append_right _ (List.mem_cons_of_mem _ List.mem_cons_self))
  obtain ⟨digest, hdigest⟩ := Option.isSome_iff_exists.mp hprinted
  refine ⟨digest, hdigest, fun r hr => ?_⟩
  rw [Option.mem_def.mp hr, hdigest] at hreference
  exact Option.some.inj (of_decide_eq_true hreference)

theorem referenceDigest_reset (app : String) (reference : Option String) (answers : ResetAnswers) :
    (reset app reference answers).referenceDigest = reference := by
  unfold reset
  dsimp only
  split_ifs <;> rfl

/-- The outcomes a run is opened with: each is clean, and its digest is its reference's. -/
theorem clean_of_resetTargets {targets : List (String × ResetAnswers)}
    {references : Dict String String} {outcomes : List ResetOutcome}
    (h : resetTargets targets references = .ok outcomes) :
    ∀ o ∈ outcomes, o.ok = true ∧ ∃ digest, o.stateDigest = some digest ∧
      ∀ r ∈ o.referenceDigest, digest = r := by
  unfold resetTargets at h
  dsimp only at h
  split_ifs at h with hbad
  obtain rfl := Except.ok.inj h
  rw [not_not] at hbad
  intro o ho
  have hok : o.ok = true := by simpa using List.filter_eq_nil_iff.mp hbad o ho
  obtain ⟨t, -, rfl⟩ := List.mem_map.mp ho
  refine ⟨hok, ?_⟩
  rw [referenceDigest_reset]
  exact digest_of_reset_ok hok

end Resetter

end PtaasBench.Runners
