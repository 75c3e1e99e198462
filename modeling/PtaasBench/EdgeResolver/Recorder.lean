import PtaasBench.EdgeResolver.Correlation

/-!
# PtaasBench.EdgeResolver.Recorder — from an observation to a reported event (`recorder.py`)

`record` takes what `tokens.extract` made of the request.  An observation that a lookup could still
improve is handed to the attribution worker, which ends in `finalise`; every other one is reported
at once.
-/

namespace PtaasBench.EdgeResolver

open Py

/-- `raw` maxLength in the reporting protocol. -/
def rawMax : ℕ := 2048

/-- Reported when nothing identifier-shaped was found. -/
def unidentified : String := "unidentified"

def eventKind : String := "oob"

/-- What `tokens.extract` returns; without a token, `candidate` is the best string there was. -/
structure Extraction where
  token : Option String := none
  nonce : Option String := none
  source : Option String := none
  candidate : Option String := none

/-- `Extraction.label` -/
def Extraction.label (x : Extraction) : String :=
  match x.token with
  | none => x.candidate.getD ""
  | some token => if given x.nonce then token ++ "-" ++ x.nonce.getD "" else token

/-- The settings of the resolver, and how a clock value is written in JSON. -/
structure Config where
  app : String := "edge-resolver"
  knownTokens : List String := []
  isSyntheticSource : String → Bool
  clock : ℚ → FloatLit

structure Observation where
  ts : ℚ
  channel : String
  host : Option String
  token : Option String
  nonce : Option String
  source : Option String
  rawToken : Option String
  ownedZone : Option Bool
  known : Bool
  sourceIp : String
  synthetic : Bool
  app : Option String
  confidence : Level
  attribution : Obj
  raw : String
  detail : Obj

/-- `s[:n]` -/
def sliceTo (s : String) (n : ℤ) : String :=
  String.ofList (s.toList.take (if 0 ≤ n then n else s.toList.length + n).toNat)

/-- `_annotate` -/
def annotate (raw : String) (source : Option String) (ownedZone : Option Bool)
    (confidence : Level) : String :=
  let origin := match ownedZone with
    | none => "n/a"
    | some true => "owned"
    | some false => "external"
  let suffix := " | src=" ++ textOr source "none" ++ " origin=" ++ origin ++ " conf=" ++
    confidence.text
  sliceTo raw ((rawMax : ℤ) - suffix.toList.length) ++ suffix

/-- The text before the last occurrence of `sep`. -/
def beforeLast (sep : List Char) : List Char → Option (List Char)
  | [] => none
  | c :: cs =>
    match beforeLast sep cs with
    | some head => some (c :: head)
    | none => if sep.isPrefixOf (c :: cs) then some [] else none

/-- `_reannotate` -/
def reannotate (raw : String) (confidence : Level) : String :=
  match beforeLast " conf=".toList raw.toList with
  | some head => String.ofList head ++ " conf=" ++ confidence.text
  | none => raw

section Record

variable [Runtime]

/-- `_attribute`: a label under the owned zone is as good as a hint. -/
def attributeObserved (ix : CorrelationIndex) (host : Option String) (sourceIp : String) (found : Bool)
    (ownedZone : Option Bool) (now : ℚ) : CorrelationIndex × Attribution :=
  let matched := ix.matchObserved host sourceIp now
  if matched.2.mode = .unattributed ∧ found ∧ ownedZone = some true then
    (matched.1, { mode := .ownedLabel, confidence := .high })
  else matched

/-- `record`, up to the decision who reports. -/
def record (cfg : Config) (ix : CorrelationIndex) (channel sourceIp : String)
    (extraction : Extraction) (raw : String) (host : Option String) (detail : Obj)
    (ownedZone : Option Bool) (now : ℚ) : CorrelationIndex × Observation :=
  let attributed := attributeObserved ix host sourceIp extraction.token.isSome ownedZone now
  let attribution := attributed.2
  let known := extraction.token.isSome && ownedZone ≠ some false
  (attributed.1,
    { ts := now
      channel := channel
      host := host
      token := extraction.token
      nonce := extraction.nonce
      source := extraction.source
      rawToken := if extraction.label = "" then none else some extraction.label
      ownedZone := ownedZone
      known := known && (cfg.knownTokens.isEmpty || extraction.token.any (· ∈ cfg.knownTokens))
      sourceIp := sourceIp
      synthetic := cfg.isSyntheticSource sourceIp
      app := attribution.app
      confidence := attribution.confidence
      attribution := attribution.asJson
      raw := annotate raw extraction.source ownedZone attribution.confidence
      detail := detail })

/-- Would `record` hand this observation to the worker, if it takes it? -/
def improvable (o : Observation) : Bool := given o.host && o.confidence ≠ .high

end Record

/-- `finalise`, up to the report: a late attribution replaces a weaker one. -/
def finalise (o : Observation) (attribution : Attribution) : Observation :=
  if attribution.mode ≠ .unattributed ∧ attribution.confidence ≠ o.confidence then
    { o with
      app := if given attribution.app then attribution.app else o.app
      confidence := attribution.confidence
      attribution := attribution.asJson
      raw := reannotate o.raw attribution.confidence }
  else o

/-- `report`: the event of an observation. -/
def report (cfg : Config) (o : Observation) : Obj :=
  [("type", .str eventKind), ("app", .str (textOr o.app cfg.app)), ("ts", .float (cfg.clock o.ts)),
    ("synthetic", .bool o.synthetic), ("token", .str (textOr o.token unidentified)),
    ("channel", .str o.channel), ("source_ip", .str o.sourceIp), ("client_ip", .str o.sourceIp),
    ("raw", .str o.raw), ("observed_host", if given o.host then textJson o.host else .null),
    ("confidence", .str o.confidence.text), ("attribution", .obj o.attribution)]

/-! ## Observations matched to a hint -/

/-- The ways to an observation matched to a hint: at once, or by the worker once a lookup has added
the hint to the index. -/
inductive Resolved [Runtime] (cfg : Config) (hint : Hint) : Observation → Prop
  | record {ix : CorrelationIndex} (channel : String) {sourceIp : String} (extraction : Extraction)
      (raw : String) {host : Option String} (detail : Obj) (ownedZone : Option Bool) {now : ℚ}
      (h : (ix.matchObserved host sourceIp now).2.hint = some hint) :
      Resolved cfg hint (record cfg ix channel sourceIp extraction raw host detail ownedZone now).2
  | finalise {o : Observation} (ho : improvable o = true) {ix : CorrelationIndex}
      {host : Option String} {sourceIp : String} {now : ℚ}
      (h : (ix.matchObserved host sourceIp now).2.hint = some hint) :
      Resolved cfg hint (finalise o (ix.matchObserved host sourceIp now).2)

/-- What a matched observation says of the match. -/
structure MatchedTo (hint : Hint) (o : Observation) : Prop where
  confidence : o.confidence = .high
  attribution : ∃ a : Attribution, a.mode = .hint ∧ a.hint = some hint ∧ o.attribution = a.asJson

theorem matchedTo_record [Runtime] (cfg : Config) {ix : CorrelationIndex} (channel : String)
    {sourceIp : String} (extraction : Extraction) (raw : String) {host : Option String} (detail : Obj)
    (ownedZone : Option Bool) {now : ℚ} {hint : Hint}
    (h : (ix.matchObserved host sourceIp now).2.hint = some hint) :
    MatchedTo hint
      (record cfg ix channel sourceIp extraction raw host detail ownedZone now).2 := by
  have hattribution : (attributeObserved ix host sourceIp extraction.token.isSome ownedZone now).2 =
      CorrelationIndex.hintAttribution hint sourceIp now := by
    have hmatched := CorrelationIndex.matchObserved_hint h
    unfold attributeObserved
    dsimp only
    rw [if_neg]
    · exact hmatched
    · rw [hmatched]
      exact fun hmode => absurd hmode.1 (by simp [CorrelationIndex.hintAttribution])
  refine ⟨congrArg Attribution.confidence hattribution,
    CorrelationIndex.hintAttribution hint sourceIp now, rfl, rfl, ?_⟩
  exact congrArg Attribution.asJson hattribution

theorem matchedTo_finalise [Runtime] {o : Observation} (ho : improvable o = true)
    {ix : CorrelationIndex} {host : Option String} {sourceIp : String} {now : ℚ} {hint : Hint}
    (h : (ix.matchObserved host sourceIp now).2.hint = some hint) :
    MatchedTo hint (finalise o (ix.matchObserved host sourceIp now).2) := by
  rw [CorrelationIndex.matchObserved_hint h]
  have hweak : (CorrelationIndex.hintAttribution hint sourceIp now).confidence ≠ o.confidence := by
    unfold improvable at ho
    rw [Bool.and_eq_true, decide_eq_true_eq] at ho
    exact fun heq => ho.2 heq.symm
  unfold finalise
  rw [if_pos ⟨by simp [CorrelationIndex.hintAttribution], hweak⟩]
  exact ⟨rfl, CorrelationIndex.hintAttribution hint sourceIp now, rfl, rfl, rfl⟩

theorem Resolved.matchedTo [Runtime] {cfg : Config} {hint : Hint} {o : Observation}
    (h : Resolved cfg hint o) : MatchedTo hint o := by
  cases h with
  | record channel extraction raw detail ownedZone h =>
    exact matchedTo_record cfg channel extraction raw detail ownedZone h
  | finalise ho h => exact matchedTo_finalise ho h

end PtaasBench.EdgeResolver
