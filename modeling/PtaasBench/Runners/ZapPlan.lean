import PtaasBench.Lib.Double
import PtaasBench.Py.Json

/-!
# PtaasBench.Runners.ZapPlan — a plan and its time share (`zap/__init__.py`)

One application's share of the budget is split over the jobs of its plan, in whole minutes.  The share is a double,
and so is every number on the way to the minutes.
-/

namespace PtaasBench.Runners.ZapPlan

open Py Lib.Double

/-! ## The minutes -/

structure Minutes where
  spider : ℤ
  ajax : ℤ
  passive : ℤ
  active : ℤ

/-- `int(x)` -/
def truncate (x : ℚ) : ℤ := if 0 ≤ x then ⌊x⌋ else ⌈x⌉

/-- `total * 0.9` -/
def usable (share : ℚ) : ℚ := nearest (max 4 (nearest (share / 60)) * nearest (9 / 10))

/-- `max(1, int(usable * part))` -/
def piece (share part : ℚ) : ℤ := max 1 (truncate (nearest (usable share * nearest part)))

/-- `_minutes` -/
def minutes : Option ℚ → Minutes
  | none => ⟨0, 0, 0, 0⟩
  | some share =>
    { spider := piece share (15 / 100)
      ajax := piece share (30 / 100)
      passive := piece share (5 / 100)
      active := piece share (50 / 100) }

/-- `_share_seconds`, for a number of apps -/
def shareSeconds (wallClock : Option ℤ) (apps : ℕ) : Option ℚ :=
  wallClock.map fun seconds => nearest (seconds / (max 1 apps : ℕ))

/-! ## The plan -/

structure App where
  key : String
  baseUrl : String
  openapiUrl : Option String := none
  graphqlUrl : Option String := none

structure Job where
  type : String
  parameters : Obj
  more : Obj := []

structure Plan where
  context : Obj
  parameters : Obj
  jobs : List Job

def userName : String := "primary"

/-- The parameters of a job that runs as the user. -/
def asUser (loggedIn : Bool) (parameters user : Obj) : Obj := if loggedIn then parameters ++ user else parameters

def userEntry : Obj := [("user", .str userName)]

def avoiding : Obj := [("user", .str userName), ("logoutAvoidance", .bool true)]

/-- `base_url.rstrip("/")` -/
def rstripSlash (url : String) : String := String.ofList (url.toList.rdropWhile (· == '/'))

def passiveConfig : Job where
  type := "passiveScan-config"
  parameters := [("scanOnlyInScope", .bool true), ("maxAlertsPerRule", .int 0)]

def openapiJobs (app : App) (loggedIn : Bool) : List Job :=
  match app.openapiUrl.filter (· ≠ "") with
  | none => []
  | some url =>
    [{ type := "openapi"
       parameters :=
        asUser loggedIn
          [("apiUrl", .str url), ("targetUrl", .str (rstripSlash app.baseUrl)), ("context", .str app.key)] userEntry }]

def graphqlJobs (app : App) : List Job :=
  match app.graphqlUrl.filter (· ≠ "") with
  | none => []
  | some url =>
    [{ type := "graphql"
       parameters :=
        [("endpoint", .str url), ("queryGenEnabled", .bool true), ("requestMethod", .str "post_json")] }]

def spiderJob (app : App) (loggedIn : Bool) (m : Minutes) : Job where
  type := "spider"
  parameters :=
    asUser loggedIn
      [("context", .str app.key), ("maxDuration", .int m.spider), ("maxDepth", .int 10),
        ("parseRobotsTxt", .bool true), ("parseSitemapXml", .bool true)] avoiding

def ajaxJob (app : App) (loggedIn : Bool) (m : Minutes) : Job where
  type := "spiderAjax"
  parameters :=
    asUser loggedIn
      [("context", .str app.key), ("maxDuration", .int m.ajax), ("maxCrawlDepth", .int 10),
        ("browserId", .str "firefox-headless"), ("runOnlyIfModern", .bool false)] avoiding

def passiveWait (m : Minutes) : Job where
  type := "passiveScan-wait"
  parameters := [("maxDuration", .int m.passive)]

def activeJob (app : App) (loggedIn : Bool) (m : Minutes) : Job where
  type := "activeScan"
  parameters :=
    asUser loggedIn
      [("context", .str app.key), ("maxScanDurationInMins", .int m.active),
        ("maxRuleDurationInMins", .int (max 1 (m.active / 4))), ("threadPerHost", .int 4), ("delayInMs", .int 0),
        ("handleAntiCSRFTokens", .bool true), ("injectPluginIdInHeader", .bool true)] userEntry
  more := [("policyDefinition", .obj [("defaultStrength", .str "Medium"), ("defaultThreshold", .str "Medium")])]

def reportJob (app : App) (profile containerWorkdir reportFile : String) : Job where
  type := "report"
  parameters :=
    [("template", .str "traditional-json"), ("reportDir", .str (containerWorkdir ++ "/raw")),
      ("reportFile", .str reportFile), ("reportTitle", .str (app.key ++ " (" ++ profile ++ ")"))]
  more :=
    [("risks", .arr [.str "high", .str "medium", .str "low", .str "info"]),
      ("confidences", .arr [.str "high", .str "medium", .str "low", .str "falsepositive"])]

/-- `build_plan`, where `context` is the application's context and `loggedIn` says whether there are credentials -/
def buildPlan (context : Obj) (profile : String) (app : App) (loggedIn : Bool) (share : Option ℚ)
    (containerWorkdir reportFile : String) : Plan :=
  let full := profile ≠ "baseline"
  let m := minutes share
  { context := context
    parameters :=
      [("failOnError", .bool false), ("failOnWarning", .bool false), ("continueOnFailure", .bool true),
        ("progressToStdout", .bool true)]
    jobs :=
      [passiveConfig] ++ openapiJobs app loggedIn ++ graphqlJobs app ++
        [spiderJob app loggedIn m, ajaxJob app loggedIn m, passiveWait m] ++
        (if full then [activeJob app loggedIn m, passiveWait m] else []) ++
        [reportJob app profile containerWorkdir reportFile] }

/-- A number of minutes among a job's parameters. -/
def minutesAt (parameters : Obj) (key : String) : ℤ :=
  match parameters.get key with
  | .int n => n
  | _ => 0

/-- The time a job is limited to. -/
def timeLimit (job : Job) : ℤ :=
  if job.type = "activeScan" then minutesAt job.parameters "maxScanDurationInMins"
  else minutesAt job.parameters "maxDuration"

/-- The time limits of all jobs. -/
def limit (plan : Plan) : ℤ := (plan.jobs.map timeLimit).sum

/-! ## What the plan adds up to -/

section Limits

variable (context : Obj) (profile : String) (app : App) (loggedIn : Bool) (share : ℚ) (containerWorkdir reportFile : String)

theorem sum_openapiJobs : ((openapiJobs app loggedIn).map timeLimit).sum = 0 := by
  rw [openapiJobs]
  cases app.openapiUrl.filter (· ≠ "") with
  | none => rfl
  | some url => cases loggedIn <;> rfl

theorem sum_graphqlJobs : ((graphqlJobs app).map timeLimit).sum = 0 := by
  rw [graphqlJobs]
  cases app.graphqlUrl.filter (· ≠ "") with
  | none => rfl
  | some url => rfl

theorem timeLimit_spiderJob (m : Minutes) : timeLimit (spiderJob app loggedIn m) = m.spider := by
  cases loggedIn <;> rfl

theorem timeLimit_ajaxJob (m : Minutes) : timeLimit (ajaxJob app loggedIn m) = m.ajax := by
  cases loggedIn <;> rfl

theorem timeLimit_activeJob (m : Minutes) : timeLimit (activeJob app loggedIn m) = m.active := by
  cases loggedIn <;> rfl

theorem timeLimit_passiveWait (m : Minutes) : timeLimit (passiveWait m) = m.passive := rfl

/-- The passive scan is waited for twice where there is an active one. -/
theorem limit_buildPlan :
    limit (buildPlan context profile app loggedIn (some share) containerWorkdir reportFile) =
      piece share (15 / 100) + piece share (30 / 100) + piece share (5 / 100) +
        if profile = "baseline" then 0 else piece share (50 / 100) + piece share (5 / 100) := by
  have hconfig : timeLimit passiveConfig = 0 := rfl
  have hreport : timeLimit (reportJob app profile containerWorkdir reportFile) = 0 := rfl
  rw [limit, buildPlan]
  dsimp only
  rw [List.map_append, List.map_append, List.map_append, List.map_append, List.map_append, List.sum_append,
    List.sum_append, List.sum_append, List.sum_append, List.sum_append, sum_openapiJobs, sum_graphqlJobs]
  by_cases hbaseline : profile = "baseline"
  · rw [if_pos hbaseline, if_neg (not_not.mpr hbaseline)]
    simp only [List.map_cons, List.map_nil, List.sum_cons, List.sum_nil, hconfig, hreport, timeLimit_spiderJob,
      timeLimit_ajaxJob, timeLimit_passiveWait, minutes]
    ring
  · rw [if_neg hbaseline, if_pos hbaseline]
    simp only [List.map_cons, List.map_nil, List.sum_cons, List.sum_nil, hconfig, hreport, timeLimit_spiderJob,
      timeLimit_ajaxJob, timeLimit_passiveWait, timeLimit_activeJob, minutes]
    ring

end Limits

/-! ## A piece of the share -/

section Pieces

variable {share share' part : ℚ}

theorem usable_nonneg : 0 ≤ usable share :=
  nearest_nonneg (mul_nonneg (le_max_of_le_left (by norm_num)) (nearest_nonneg (by norm_num)))

theorem usable_mono (hshare : 0 ≤ share) (h : share ≤ share') : usable share ≤ usable share' := by
  have hsixtieth : nearest (share / 60) ≤ nearest (share' / 60) :=
    nearest_mono (by positivity) (div_le_div_of_nonneg_right h (by norm_num))
  refine nearest_mono ?_ (mul_le_mul_of_nonneg_right (max_le_max_left 4 hsixtieth) (nearest_nonneg (by norm_num)))
  exact mul_nonneg (le_max_of_le_left (by norm_num)) (nearest_nonneg (by norm_num))

theorem one_le_piece : 1 ≤ piece share part := le_max_left _ _

theorem piece_mono (hpart : 0 ≤ part) (hshare : 0 ≤ share) (h : share ≤ share') :
    piece share part ≤ piece share' part := by
  have hnonneg : 0 ≤ usable share * nearest part := mul_nonneg usable_nonneg (nearest_nonneg hpart)
  have hle : usable share * nearest part ≤ usable share' * nearest part :=
    mul_le_mul_of_nonneg_right (usable_mono hshare h) (nearest_nonneg hpart)
  rw [piece, piece, truncate, truncate, if_pos (nearest_nonneg hnonneg), if_pos (nearest_nonneg (hnonneg.trans hle))]
  exact max_le_max_left 1 (Int.floor_le_floor (nearest_mono hnonneg hle))

end Pieces

/-! ## The two profiles -/

def baselineLimit (share : ℚ) : ℤ := piece share (15 / 100) + piece share (30 / 100) + piece share (5 / 100)

def fullLimit (share : ℚ) : ℤ := baselineLimit share + (piece share (50 / 100) + piece share (5 / 100))

section Profiles

variable {share share' : ℚ}

theorem baselineLimit_mono (hshare : 0 ≤ share) (h : share ≤ share') : baselineLimit share ≤ baselineLimit share' :=
  add_le_add (add_le_add (piece_mono (by norm_num) hshare h) (piece_mono (by norm_num) hshare h))
    (piece_mono (by norm_num) hshare h)

theorem fullLimit_mono (hshare : 0 ≤ share) (h : share ≤ share') : fullLimit share ≤ fullLimit share' :=
  add_le_add (baselineLimit_mono hshare h)
    (add_le_add (piece_mono (by norm_num) hshare h) (piece_mono (by norm_num) hshare h))

theorem three_le_baselineLimit : 3 ≤ baselineLimit share := by
  have h₁ := @one_le_piece share (15 / 100)
  have h₂ := @one_le_piece share (30 / 100)
  have h₃ := @one_le_piece share (5 / 100)
  rw [baselineLimit]
  omega

theorem five_le_fullLimit : 5 ≤ fullLimit share := by
  have h₁ := @three_le_baselineLimit share
  have h₂ := @one_le_piece share (50 / 100)
  have h₃ := @one_le_piece share (5 / 100)
  rw [fullLimit]
  omega

end Profiles

/-! ## Long shares -/

section Long

variable {share part : ℚ}

theorem usable_le (h : 240 ≤ share) : usable share ≤ share * (150001 / 10000000) := by
  have hsixtieth : nearest (share / 60) ≤ share / 60 * (1 + 1 / 2 ^ 53) := nearest_le_mul (by linarith)
  have hmax : max 4 (nearest (share / 60)) ≤ share / 60 * (1 + 1 / 2 ^ 53) := by
    refine max_le ?_ hsixtieth
    linarith
  have hnine : nearest (9 / 10) ≤ 9 / 10 * (1 + 1 / 2 ^ 53) := nearest_le_mul (by norm_num)
  have hproduct : max 4 (nearest (share / 60)) * nearest (9 / 10) ≤
      share / 60 * (1 + 1 / 2 ^ 53) * (9 / 10 * (1 + 1 / 2 ^ 53)) :=
    mul_le_mul hmax hnine (nearest_nonneg (by norm_num)) (by linarith)
  have hround := nearest_le_mul
    (mul_nonneg (le_max_of_le_left (by norm_num : (0 : ℚ) ≤ 4)) (nearest_nonneg (by norm_num : (0 : ℚ) ≤ 9 / 10)))
    (x := max 4 (nearest (share / 60)) * nearest (9 / 10))
  rw [usable]
  linarith

theorem cast_piece_le (hpart : 0 ≤ part) (h : 240 ≤ share) :
    (piece share part : ℚ) ≤ max 1 (share * part * (15001 / 1000000)) := by
  have husable : 0 ≤ usable share := usable_nonneg
  have hpart' : nearest part ≤ part * (1 + 1 / 2 ^ 53) := nearest_le_mul hpart
  have hnonneg : 0 ≤ usable share * nearest part := mul_nonneg husable (nearest_nonneg hpart)
  have hround := nearest_le_mul hnonneg
  have hproduct : usable share * nearest part ≤ share * (150001 / 10000000) * (part * (1 + 1 / 2 ^ 53)) :=
    mul_le_mul (usable_le h) hpart' (nearest_nonneg hpart) (by linarith)
  have hshare : 0 ≤ share * part := mul_nonneg (by linarith) hpart
  rw [piece, truncate, if_pos (nearest_nonneg hnonneg), Int.cast_max, Int.cast_one]
  refine max_le_max_left 1 ((Int.floor_le _).trans (hround.trans ?_))
  nlinarith

/-- From fourteen minutes on, a plan fits its share. -/
theorem fullLimit_le_of_long {r : ℚ} (h : 840 ≤ r) : (fullLimit (nearest r) : ℚ) * 60 ≤ r := by
  have hle : nearest r ≤ r * (1 + 1 / 2 ^ 53) := nearest_le_mul (by linarith)
  have hfloor : nearest ((840 : ℤ) : ℚ) ≤ nearest r := nearest_mono (by norm_num) (by exact_mod_cast h)
  rw [nearest_int (by norm_num)] at hfloor
  have hlong : (240 : ℚ) ≤ nearest r := by
    push_cast at hfloor
    linarith
  have hspider := cast_piece_le (by norm_num : (0 : ℚ) ≤ 15 / 100) hlong
  have hajax := cast_piece_le (by norm_num : (0 : ℚ) ≤ 30 / 100) hlong
  have hpassive := cast_piece_le (by norm_num : (0 : ℚ) ≤ 5 / 100) hlong
  have hactive := cast_piece_le (by norm_num : (0 : ℚ) ≤ 50 / 100) hlong
  rw [max_eq_right (by push_cast at hfloor; linarith)] at hspider hajax hactive
  rw [fullLimit, baselineLimit]
  push_cast at hfloor ⊢
  rcases le_total (nearest r * (5 / 100) * (15001 / 1000000)) 1 with hshort | hwide
  · rw [max_eq_left hshort] at hpassive
    linarith
  · rw [max_eq_right hwide] at hpassive
    linarith

theorem baselineLimit_le_fullLimit (share : ℚ) : baselineLimit share ≤ fullLimit share := by
  have h₁ := @one_le_piece share (50 / 100)
  have h₂ := @one_le_piece share (5 / 100)
  rw [fullLimit]
  omega

end Long

/-! ## Where a plan fits its share -/

/-- The seconds of a share that is long enough for a profile.  The bounds are the shares at which a job gets one more
minute; the first lies a last bit below 400 because the products round up there. -/
def Fits (profile : String) (r : ℚ) : Prop :=
  if profile = "baseline" then 180 ≤ r
  else
    360 ≤ r ∧ nearest r < 400 - 1 / 2 ^ 44 ∨ 420 ≤ r ∧ nearest r < 4000 / 9 ∨
      480 ≤ r ∧ nearest r < 1600 / 3 ∨ 540 ≤ r

theorem within {n total : ℤ} {r : ℚ} (htotal : total ≤ n) (hr : (n : ℚ) * 60 ≤ r) : (total : ℚ) * 60 ≤ r := by
  have hcast : (total : ℚ) ≤ n := by exact_mod_cast htotal
  linarith

theorem not_within {n total : ℤ} {r : ℚ} (htotal : n ≤ total) (hr : r < (n : ℚ) * 60) : ¬(total : ℚ) * 60 ≤ r := by
  have hcast : (n : ℚ) ≤ total := by exact_mod_cast htotal
  linarith

section Shares

variable {r : ℚ}

/-- A whole share bounds the doubles on its side. -/
theorem le_nearest_of_le {n : ℤ} (hn : 0 ≤ n) (hsmall : |n| < 2 ^ 53) (h : (n : ℚ) ≤ r) : (n : ℚ) ≤ nearest r :=
  (nearest_int hsmall).ge.trans (nearest_mono (by exact_mod_cast hn) h)

theorem nearest_le_of_le {n : ℤ} (hsmall : |n| < 2 ^ 53) (hr : 0 ≤ r) (h : r ≤ (n : ℚ)) : nearest r ≤ (n : ℚ) :=
  (nearest_mono hr h).trans (nearest_int hsmall).le

theorem lt_of_nearest_lt {n : ℤ} (hn : 0 ≤ n) (hsmall : |n| < 2 ^ 53) (h : nearest r < (n : ℚ)) : r < (n : ℚ) :=
  lt_of_not_ge fun hge => absurd (le_nearest_of_le hn hsmall hge) (not_le.mpr h)

/-- The limits on both sides of each of their steps. -/
theorem limits_at :
    (baselineLimit ((420 : ℤ) : ℚ) = 3 ∧ baselineLimit ((840 : ℤ) : ℚ) = 5) ∧
      (fullLimit ((300 : ℤ) : ℚ) = 6 ∧ fullLimit ((7036874417766398 : ℤ) * 2 ^ (8 - 52 : ℤ)) = 6) ∧
      (fullLimit (400 - 1 / 2 ^ 44) = 7 ∧ fullLimit ((7818749353073777 : ℤ) * 2 ^ (8 - 52 : ℤ)) = 7) ∧
      (fullLimit (4000 / 9) = 8 ∧ fullLimit ((4691249611844266 : ℤ) * 2 ^ (9 - 52 : ℤ)) = 8) ∧
      (fullLimit (1600 / 3) = 9 ∧ fullLimit ((666 : ℤ) : ℚ) = 9) ∧
      fullLimit ((799 : ℤ) : ℚ) = 11 ∧ fullLimit ((840 : ℤ) : ℚ) = 12 := by
  decide +kernel

theorem baselineLimit_le_iff : (baselineLimit (nearest r) : ℚ) * 60 ≤ r ↔ 180 ≤ r := by
  constructor
  · intro h
    by_contra hlt
    exact not_within three_le_baselineLimit (by push_cast; linarith) h
  · intro h
    have hnonneg : 0 ≤ nearest r := nearest_nonneg (by linarith)
    obtain ⟨⟨hthree, hfive⟩, -⟩ := limits_at
    rcases le_total 840 r with hlong | hshort
    · exact within (baselineLimit_le_fullLimit _) (fullLimit_le_of_long hlong)
    · rcases le_total r 420 with hbelow | habove
      · have hle : nearest r ≤ (420 : ℤ) := nearest_le_of_le (by norm_num) (by linarith) (by exact_mod_cast hbelow)
        exact within ((baselineLimit_mono hnonneg hle).trans hthree.le) (by push_cast; linarith)
      · have hle : nearest r ≤ (840 : ℤ) := nearest_le_of_le (by norm_num) (by linarith) (by exact_mod_cast hshort)
        exact within ((baselineLimit_mono hnonneg hle).trans hfive.le) (by push_cast; linarith)

/-- Below six minutes every job has its one minute, and the active scan two from five minutes on. -/
theorem fullLimit_of_lt_360 (h : r < 360) : ¬(fullLimit (nearest r) : ℚ) * 60 ≤ r := by
  rcases lt_or_ge r 300 with hshort | hlong
  · exact not_within five_le_fullLimit (by push_cast; linarith)
  · obtain ⟨-, ⟨hsix, -⟩, -⟩ := limits_at
    have hle : ((300 : ℤ) : ℚ) ≤ nearest r := le_nearest_of_le (by norm_num) (by norm_num) (by exact_mod_cast hlong)
    exact not_within (hsix.ge.trans (fullLimit_mono (by norm_num) hle)) (by push_cast; linarith)

theorem fullLimit_of_360 (h : 360 ≤ r) (hlt : nearest r < 400 - 1 / 2 ^ 44) : (fullLimit (nearest r) : ℚ) * 60 ≤ r := by
  obtain ⟨-, ⟨-, hsix⟩, -⟩ := limits_at
  have hr : r < 2 ^ (8 + 1 : ℤ) := (lt_of_nearest_lt (n := 512) (by norm_num) (by norm_num) (by push_cast; linarith)).trans_eq (by norm_num)
  have hle := nearest_le_of_lt (by norm_num; linarith) hr (m := 7036874417766398) (by norm_num) hlt
  exact within ((fullLimit_mono (nearest_nonneg (by linarith)) hle).trans hsix.le) (by push_cast; linarith)

theorem fullLimit_of_lt_420 (h : r < 420) (hle : 400 - 1 / 2 ^ 44 ≤ nearest r) : ¬(fullLimit (nearest r) : ℚ) * 60 ≤ r := by
  obtain ⟨-, -, ⟨hseven, -⟩, -⟩ := limits_at
  exact not_within (hseven.ge.trans (fullLimit_mono (by norm_num) hle)) (by push_cast; linarith)

theorem fullLimit_of_420 (h : 420 ≤ r) (hlt : nearest r < 4000 / 9) : (fullLimit (nearest r) : ℚ) * 60 ≤ r := by
  obtain ⟨-, -, ⟨-, hseven⟩, -⟩ := limits_at
  have hr : r < 2 ^ (8 + 1 : ℤ) := (lt_of_nearest_lt (n := 512) (by norm_num) (by norm_num) (by push_cast; linarith)).trans_eq (by norm_num)
  have hle := nearest_le_of_lt (by norm_num; linarith) hr (m := 7818749353073777) (by norm_num) hlt
  exact within ((fullLimit_mono (nearest_nonneg (by linarith)) hle).trans hseven.le) (by push_cast; linarith)

theorem fullLimit_of_lt_480 (h : r < 480) (hle : 4000 / 9 ≤ nearest r) : ¬(fullLimit (nearest r) : ℚ) * 60 ≤ r := by
  obtain ⟨-, -, -, ⟨height, -⟩, -⟩ := limits_at
  exact not_within (height.ge.trans (fullLimit_mono (by norm_num) hle)) (by push_cast; linarith)

theorem fullLimit_of_480 (h : 480 ≤ r) (hlt : nearest r < 1600 / 3) : (fullLimit (nearest r) : ℚ) * 60 ≤ r := by
  obtain ⟨-, -, -, ⟨-, height⟩, -⟩ := limits_at
  have hnonneg : 0 ≤ nearest r := nearest_nonneg (by linarith)
  have hle : nearest r ≤ (4691249611844266 : ℤ) * 2 ^ (9 - 52 : ℤ) := by
    rcases le_total r 512 with hbelow | habove
    · have hle : nearest r ≤ (512 : ℤ) := nearest_le_of_le (by norm_num) (by linarith) (by exact_mod_cast hbelow)
      refine hle.trans ?_
      norm_num
    · have hr : r < 2 ^ (9 + 1 : ℤ) :=
        (lt_of_nearest_lt (n := 1024) (by norm_num) (by norm_num) (by push_cast; linarith)).trans_eq (by norm_num)
      exact nearest_le_of_lt (by norm_num; linarith) hr (by norm_num) hlt
  exact within ((fullLimit_mono hnonneg hle).trans height.le) (by push_cast; linarith)

theorem fullLimit_of_lt_540 (h : r < 540) (hle : 1600 / 3 ≤ nearest r) : ¬(fullLimit (nearest r) : ℚ) * 60 ≤ r := by
  obtain ⟨-, -, -, -, ⟨hnine, -⟩, -⟩ := limits_at
  exact not_within (hnine.ge.trans (fullLimit_mono (by norm_num) hle)) (by push_cast; linarith)

/-- From nine minutes on, the share stays ahead of the jobs. -/
theorem fullLimit_of_540 (h : 540 ≤ r) : (fullLimit (nearest r) : ℚ) * 60 ≤ r := by
  obtain ⟨-, -, -, -, ⟨-, hnine⟩, heleven, htwelve⟩ := limits_at
  have hnonneg : 0 ≤ nearest r := nearest_nonneg (by linarith)
  rcases le_total 840 r with hlong | hshort
  · exact fullLimit_le_of_long hlong
  · rcases le_total r 666 with hbelow | habove
    · have hle : nearest r ≤ (666 : ℤ) := nearest_le_of_le (by norm_num) (by linarith) (by exact_mod_cast hbelow)
      exact within ((fullLimit_mono hnonneg hle).trans hnine.le) (by push_cast; linarith)
    · rcases le_total r 799 with hbelow | habove
      · have hle : nearest r ≤ (799 : ℤ) := nearest_le_of_le (by norm_num) (by linarith) (by exact_mod_cast hbelow)
        exact within ((fullLimit_mono hnonneg hle).trans heleven.le) (by push_cast; linarith)
      · have hle : nearest r ≤ (840 : ℤ) := nearest_le_of_le (by norm_num) (by linarith) (by exact_mod_cast hshort)
        exact within ((fullLimit_mono hnonneg hle).trans htwelve.le) (by push_cast; linarith)

theorem fullLimit_le_iff : (fullLimit (nearest r) : ℚ) * 60 ≤ r ↔
    360 ≤ r ∧ nearest r < 400 - 1 / 2 ^ 44 ∨ 420 ≤ r ∧ nearest r < 4000 / 9 ∨
      480 ≤ r ∧ nearest r < 1600 / 3 ∨ 540 ≤ r := by
  constructor
  · intro h
    by_contra hnot
    simp only [not_or, not_and, not_lt, not_le] at hnot
    obtain ⟨hfirst, hsecond, hthird, hfourth⟩ := hnot
    rcases lt_or_ge r 360 with hlt | h360
    · exact fullLimit_of_lt_360 hlt h
    rcases lt_or_ge r 420 with hlt | h420
    · exact fullLimit_of_lt_420 hlt (hfirst h360) h
    rcases lt_or_ge r 480 with hlt | h480
    · exact fullLimit_of_lt_480 hlt (hsecond h420) h
    · exact fullLimit_of_lt_540 hfourth (hthird h480) h
  · rintro (⟨hle, hlt⟩ | ⟨hle, hlt⟩ | ⟨hle, hlt⟩ | hle)
    · exact fullLimit_of_360 hle hlt
    · exact fullLimit_of_420 hle hlt
    · exact fullLimit_of_480 hle hlt
    · exact fullLimit_of_540 hle

end Shares

/-- The share of one application, exactly. -/
def exactShare (wallClock : ℤ) (apps : ℕ) : ℚ := wallClock / (max 1 apps : ℕ)

/-- The jobs of a plan fit the application's share just if the share is one of those. -/
theorem plan_fits_iff (context : Obj) (profile : String) (app : App) (loggedIn : Bool)
    (containerWorkdir reportFile : String) (wallClock : ℤ) (apps : ℕ) :
    (limit (buildPlan context profile app loggedIn (shareSeconds (some wallClock) apps) containerWorkdir reportFile) : ℚ) * 60 ≤
        exactShare wallClock apps ↔ Fits profile (exactShare wallClock apps) := by
  have hshare : shareSeconds (some wallClock) apps = some (nearest (exactShare wallClock apps)) := rfl
  rw [hshare, limit_buildPlan, Fits]
  by_cases hbaseline : profile = "baseline"
  · rw [if_pos hbaseline, if_pos hbaseline, add_zero]
    exact baselineLimit_le_iff
  · rw [if_neg hbaseline, if_neg hbaseline]
    exact fullLimit_le_iff

/-- Five minutes for one application: six minutes of jobs. -/
theorem five_minutes_overrun :
    ¬(limit (buildPlan [] "full" { key := "shopfront", baseUrl := "http://shop.example" } false
      (shareSeconds (some 300) 1) "/work" "zap-shopfront.json") : ℚ) * 60 ≤ exactShare 300 1 := by
  decide +kernel

end PtaasBench.Runners.ZapPlan
