import Mathlib.Data.List.Sort
import PtaasBench.Lib.Double
import PtaasBench.Lib.Html
import PtaasBench.Lib.Markdown
import PtaasBench.Py.Dict

/-!
# PtaasBench.Benchctl.Report — the reports of a list of score documents

Texts that a document lacks, and texts that are null, are empty where the code only asks whether there is a text.
-/

namespace PtaasBench.Benchctl.Report

open Lib
open Lib.Double (nearest roundEven)
open Lib.Html (Chunk)
open Lib.Markdown (Part join)
open Py (Dict)

abbrev Text := List Char

/-! ## Score documents -/

structure Axis where
  «recall» : Option ℚ := none
  hit : ℕ := 0
  applicable : ℕ := 0

inductive AxisName where
  | reach
  | exercise
  | trigger
  | triggerAny

structure Metric where
  vulns : ℕ := 0
  reach : Axis := {}
  exercise : Axis := {}
  trigger : Axis := {}
  triggerAny : Axis := {}

def Metric.get (m : Metric) : AxisName → Axis
  | .reach => m.reach
  | .exercise => m.exercise
  | .trigger => m.trigger
  | .triggerAny => m.triggerAny

abbrev MetricMap := Dict Text Metric

structure Coverage where
  routes : ℕ := 0
  covered : ℕ := 0
  coverage : Option ℚ := none

structure Crawl where
  inventoryAvailable : Bool := false
  surface : Coverage := {}
  plantedRoutes : Coverage := {}
  safeRoutes : Coverage := {}
  byRender : Dict Text Coverage := Dict.empty
  plantedVulnReach : Axis := {}
  hostResolution : Text := []
  rowsSharingARouteAcrossHosts : ℕ := 0

structure ScanMode where
  mode : Text := []
  active : Option Bool := none
  reason : Text := []

structure Requests where
  total : ℕ := 0
  countedBy : Text := []

structure Run where
  runId : Text := []
  tool : Text := []
  toolVersion : Text := []
  profile : Text := []
  targets : List Text := []
  scanMode : ScanMode := {}
  caveats : List Text := []
  requests : Requests := {}
  images : Dict Text Text := Dict.empty
  /-- Did the state of an app come back? -/
  resetDigests : Dict Text (Option Bool) := Dict.empty
  resetConsistent : Option Bool := none
  containerMapAvailable : Bool := false

/-- An entry of `out_of_catalog_list` or `false_positive_list`. -/
structure Entry where
  method : Text := []
  url : Text := []
  param : Text := []
  cwe : List ℕ := []
  name : Text := []
  fpBasis : Text := []
  reason : Text := []

structure CweCount where
  count : ℕ
  reason : Text

structure Findings where
  total : ℕ := 0
  truePositives : ℕ := 0
  falsePositivesConfirmed : ℕ := 0
  falsePositivesUnknownRoute : ℕ := 0
  outOfCatalog : ℕ := 0
  duplicates : ℕ := 0
  ambiguous : ℕ := 0
  precisionConfirmed : Option ℚ := none
  precision : Option ℚ := none
  precisionConservative : Option ℚ := none
  outOfCatalogByCwe : Dict Text CweCount := Dict.empty
  outOfCatalogList : List Entry := []
  falsePositiveList : List Entry := []

structure Warning where
  code : Text
  vulnId : Text := []
  message : Text

structure LowConfidence where
  count : ℕ := 0
  headlineTrigger : Axis := {}
  inclusiveTrigger : Axis := {}
  creditedOnlyHere : List Text := []
  /-- How many. -/
  unattributedCallbacks : ℕ := 0

structure Doc where
  generatedAt : Option Text := none
  run : Run := {}
  scopeApps : List Text := []
  catalogDigest : Option Text := none
  vulnsInScope : Option ℕ := none
  legend : Dict Text (Dict Text Text) := Dict.empty
  overall : Metric := {}
  byOwasp : Dict Text MetricMap := Dict.empty
  byFamily : MetricMap := Dict.empty
  byRender : MetricMap := Dict.empty
  bySeverity : MetricMap := Dict.empty
  byAuth : MetricMap := Dict.empty
  byDifficulty : MetricMap := Dict.empty
  byRequires : MetricMap := Dict.empty
  crawl : Crawl := {}
  lowConfidenceTriggers : LowConfidence := {}
  findings : Option Findings := none
  warnings : List Warning := []

/-! ## Texts -/

/-- `t or other` -/
def orElse (t other : Text) : Text := if t = [] then other else t

def digits (n : ℕ) : Text := Nat.toDigits 10 n

/-- `f"{x:.0f}"` -/
def fixed (x : ℚ) : Text := (if x < 0 then ['-'] else []) ++ digits (roundEven x).natAbs

/-- `f"{recall * 100:.0f}%"` -/
def percent (rate : ℚ) : Text := fixed (nearest (rate * 100)) ++ ['%']

/-- A comma behind every three of a text. -/
def groups : Text → Text
  | a :: b :: c :: d :: t => a :: b :: c :: ',' :: groups (d :: t)
  | t => t

/-- `f"{n:,}"` -/
def grouped (n : ℕ) : Text := (groups (digits n).reverse).reverse

example : grouped 1234567 = "1,234,567".toList := by decide

/-- Python's `<` on texts: by code points. -/
def precedes (a b : Text) : Bool := a.lex b fun x y => decide (x.toNat < y.toNat)

/-- `sorted(set(keys))` -/
def sorted (keys : List Text) : List Text := keys.dedup.insertionSort fun a b => precedes b a = false

def dash : Text := "—".toList

def toolName (doc : Doc) : Text :=
  let tool := orElse doc.run.tool "unknown".toList
  let label := if doc.run.toolVersion = [] then tool else tool ++ " ".toList ++ doc.run.toolVersion
  if doc.run.profile = [] ∨ doc.run.profile = "default".toList then label
  else label ++ " (".toList ++ doc.run.profile ++ ")".toList

def passiveModes : List Text := ["passive".toList, "baseline".toList, "spider".toList, "crawl".toList]

def scanModeLabel (doc : Doc) : Text :=
  let mode := doc.run.scanMode
  orElse mode.mode (if mode.active = some true then "active".toList else dash)

/-- No character outside ASCII has a letter of these modes as its lower case. -/
def isPassive (doc : Doc) : Bool :=
  let mode := doc.run.scanMode
  mode.active == some false || passiveModes.contains (mode.mode.map Char.toLower)

def passiveNote : Text :=
  ". The tool was never permitted to attack, so its trigger recall is ".toList ++
    "structurally zero and its exercise recall is bounded by whatever the ".toList ++
    "crawler submitted. Not comparable with an active run.".toList

def unrecordedNote : Text :=
  "Scan mode not recorded for this run: whether the tool was permitted ".toList ++
    "to attack is unknown, so a trigger recall of 0% here may mean it ".toList ++ "never tried.".toList

/-- The first line about a run. -/
def verdict (doc : Doc) : Text :=
  let mode := doc.run.scanMode
  if isPassive doc then
    "PASSIVE RUN (".toList ++ scanModeLabel doc ++ ")".toList ++
      (if mode.reason = [] then [] else " — ".toList ++ mode.reason) ++ passiveNote
  else if mode.active = some true then
    "Active run".toList ++ (if mode.reason = [] then [] else " (".toList ++ mode.reason ++ ")".toList) ++ ".".toList
  else unrecordedNote

def requestLine (requests : Requests) : Text :=
  grouped requests.total ++ " requests observed".toList ++
    (if requests.countedBy = [] then [] else " — ".toList ++ requests.countedBy)

/-- What is said about a run before its numbers. -/
def conditionLines (doc : Doc) : List Text :=
  verdict doc :: doc.run.caveats ++ (if doc.run.requests.total = 0 then [] else [requestLine doc.run.requests])

def fmt (metric : Metric) (axis : AxisName) : Text :=
  let cell := metric.get axis
  match cell.recall with
  | none => dash
  | some rate =>
    if cell.applicable = 0 then dash
    else percent rate ++ " (".toList ++ digits cell.hit ++ "/".toList ++ digits cell.applicable ++ ")".toList

/-- The recall of an axis, without its counts. -/
def fmtRecall (cell : Axis) : Text :=
  match cell.recall with
  | none => dash
  | some rate => if cell.applicable = 0 then dash else percent rate

def fmtTriplet (metric : Metric) : Text :=
  "R ".toList ++ fmtRecall metric.reach ++ " · E ".toList ++ fmtRecall metric.exercise ++ " · T ".toList ++
    fmtRecall metric.trigger ++
    (if metric.trigger.hit < metric.triggerAny.hit then
      " (+".toList ++ digits (metric.triggerAny.hit - metric.trigger.hit) ++ " weak)".toList else [])

def fmtCoverage (block : Coverage) : Text :=
  if block.routes = 0 then dash
  else
    match block.coverage with
    | none => dash
    | some coverage =>
      percent coverage ++ " (".toList ++ digits block.covered ++ "/".toList ++ digits block.routes ++ ")".toList

/-- A recall with its counts, also where nothing was applicable. -/
def fmtCounts (block : Axis) : Text :=
  match block.recall with
  | none => dash
  | some rate =>
    percent rate ++ " (".toList ++ digits block.hit ++ "/".toList ++ digits block.applicable ++ ")".toList

def fmtPrecision (precision : Option ℚ) : Text := (precision.map percent).getD dash

/-! ## Tables -/

/-- A row for each run or entry, with a cell for each heading. -/
structure Table where
  header : List Text
  rows : List (List Text)
  named : header ≠ []
  width : ∀ row ∈ rows, row.length = header.length

/-- The headings and the rows. -/
def Table.grid (t : Table) : List (List Text) := t.header :: t.rows

/-- A first heading and others, a row for each of a list. -/
def table {α : Type*} (heading : Text) (others : List Text) (entries : List α) (row : α → List Text)
    (width : ∀ a, (row a).length = others.length + 1) : Table where
  header := heading :: others
  rows := entries.map row
  named := List.cons_ne_nil heading others
  width := List.forall_mem_map.mpr fun a _ => width a

def headings (names : List String) : List Text := names.map String.toList

/-- The keys of the maps of all documents. -/
def unionKeys {α : Type*} (docs : List Doc) (map : Doc → Dict Text α) : List Text :=
  sorted (docs.flatMap fun doc => (map doc).keys)

def editions (docs : List Doc) : List Text := unionKeys docs Doc.byOwasp

/-- The items of an edition's legends; a later one of a code counts. -/
def labels (docs : List Doc) (edition : Text) : List (Text × Text) :=
  docs.flatMap fun doc => (doc.legend.getD edition Dict.empty).items

def legendOf (labels : List (Text × Text)) : Text :=
  join "; ".toList ((sorted (labels.map Prod.fst)).map fun code =>
    code ++ "=".toList ++ (labels.reverse.lookup code).getD [])

def scope (doc : Doc) : List Text := if doc.scopeApps = [] then doc.run.targets else doc.scopeApps

def summaryRow (doc : Doc) : List Text :=
  [toolName doc, scanModeLabel doc, if scope doc = [] then dash else join ", ".toList (scope doc),
    digits (doc.vulnsInScope.getD doc.overall.vulns), fmt doc.overall .reach, fmt doc.overall .exercise,
    fmt doc.overall .trigger, fmt doc.overall .triggerAny, fmtCoverage doc.crawl.surface,
    fmtPrecision (doc.findings.bind Findings.precisionConfirmed),
    (doc.findings.map fun f => digits f.falsePositivesConfirmed).getD dash,
    (doc.findings.map fun f => digits f.outOfCatalog).getD dash]

def summaryTable (docs : List Doc) : Table :=
  table "tool".toList (headings ["mode", "scope", "vulns", "reach", "exercise", "trigger", "trigger +weak oob",
    "surface crawl", "precision (confirmed)", "FP confirmed", "outside corpus"]) docs summaryRow fun _ => rfl

/-- A column for each key of a map. -/
def keyedTable {α : Type*} [Inhabited α] (docs : List Doc) (map : Doc → Dict Text α) (cell : α → Text) :
    Table :=
  table "tool".toList (unionKeys docs map) docs
    (fun doc => toolName doc :: (unionKeys docs map).map fun key => cell ((map doc).getD key default))
    fun _ => by rw [List.length_cons, List.length_map]

instance : Inhabited Metric := ⟨{}⟩
instance : Inhabited Coverage := ⟨{}⟩

def owaspTable (docs : List Doc) (edition : Text) : Table :=
  keyedTable docs (fun doc => doc.byOwasp.getD edition Dict.empty) fun metric => fmt metric .trigger

def familyTable (docs : List Doc) : Table := keyedTable docs Doc.byFamily fmtTriplet

def axisTable (docs : List Doc) (group : Doc → MetricMap) (axis : AxisName) : Table :=
  keyedTable docs group fun metric => fmt metric axis

def fmtRender (metric : Metric) : Text :=
  match metric.reach.recall with
  | none => dash
  | some reach =>
    if metric.reach.applicable = 0 then dash
    else "reach ".toList ++ percent reach ++ " → trig ".toList ++ (metric.trigger.recall.map percent).getD dash

/-- The reach of the static pages, less the mean of those that are rendered in the browser. -/
def spaDelta (cells : MetricMap) : Text :=
  let static := (cells.getD "static-html".toList default).reach
  let spa := ((cells.items.filter fun item => "spa-".toList.isPrefixOf item.1).map fun item => item.2.reach).filter
    fun cell => cell.recall.isSome && cell.applicable != 0
  match static.recall with
  | none => dash
  | some rate =>
    if static.applicable = 0 ∨ spa.isEmpty then dash
    else
      let hits := (spa.map Axis.hit).sum
      let total := (spa.map Axis.applicable).sum
      "-".toList ++ fixed (nearest (nearest (rate - nearest (hits / total)) * 100)) ++ " pts".toList

def renderTable (docs : List Doc) : Table :=
  let modes := unionKeys docs Doc.byRender
  table "tool".toList (modes ++ ["static→SPA reach delta".toList]) docs
    (fun doc => toolName doc :: (modes.map fun mode => fmtRender (doc.byRender.getD mode default)) ++
      [spaDelta doc.byRender])
    fun _ => by simp only [List.length_cons, List.length_append, List.length_map, List.length_nil]

def crawlTable (docs : List Doc) : Table :=
  let modes := unionKeys docs fun doc => doc.crawl.byRender
  table "tool".toList (headings ["whole surface", "planted routes", "safe routes"] ++
      modes.map (fun mode => "surface: ".toList ++ mode) ++ ["planted-vuln reach".toList]) docs
    (fun doc => [toolName doc, fmtCoverage doc.crawl.surface, fmtCoverage doc.crawl.plantedRoutes,
        fmtCoverage doc.crawl.safeRoutes] ++
      (modes.map fun mode => fmtCoverage (doc.crawl.byRender.getD mode default)) ++
      [fmtCounts doc.crawl.plantedVulnReach])
    fun _ => by
      simp only [headings, List.length_cons, List.length_append, List.length_map, List.length_nil]
      omega

def weakTable (docs : List Doc) : Table :=
  table "tool".toList (headings ["headline trigger", "incl. weak attribution", "credited only weakly",
    "unattributed callbacks"]) docs
    (fun doc =>
      let low := doc.lowConfidenceTriggers
      [toolName doc, fmtCounts low.headlineTrigger, fmtCounts low.inclusiveTrigger,
        orElse (join ", ".toList low.creditedOnlyHere) dash, digits low.unattributedCallbacks])
    fun _ => rfl

def resetText (run : Run) : Text :=
  match run.resetConsistent with
  | none => dash
  | some true => "clean (".toList ++ digits run.resetDigests.items.length ++ ")".toList
  | some false =>
    "DIRTY: ".toList ++ join ", ".toList (sorted (run.resetDigests.keys.filter fun app =>
      run.resetDigests.get? app == some (some false)))

def imageText (images : Dict Text Text) (app : Text) : Text :=
  app ++ "@".toList ++ (images.getD app []).take 19

def provenanceTable (docs : List Doc) : Table :=
  table "tool".toList (headings ["run", "images", "state reset", "container map"]) docs
    (fun doc =>
      [toolName doc, orElse doc.run.runId dash,
        orElse (join ", ".toList ((sorted doc.run.images.keys).map (imageText doc.run.images))) dash,
        resetText doc.run, if doc.run.containerMapAvailable then "yes".toList else "no".toList])
    fun _ => rfl

/-! ## Sections -/

structure Section where
  title : Text
  table : Table

/-- The title up to its first line feed, and what is behind it. -/
def Section.head (s : Section) : Text := s.title.takeWhile fun c => c != '\n'

def Section.legend (s : Section) : Text := (s.title.dropWhile fun c => c != '\n').drop 1

def hasProvenance (docs : List Doc) : Bool :=
  docs.any fun doc =>
    !doc.run.images.items.isEmpty || !doc.run.resetDigests.items.isEmpty || doc.run.containerMapAvailable

def hasCrawl (docs : List Doc) : Bool := docs.any fun doc => doc.crawl.inventoryAvailable

def hasWeak (docs : List Doc) : Bool :=
  docs.any fun doc =>
    doc.lowConfidenceTriggers.count != 0 || doc.lowConfidenceTriggers.unattributedCallbacks != 0

def owaspTitle (docs : List Doc) (edition : Text) : Text :=
  let legend := legendOf (labels docs edition)
  "OWASP Top 10 ".toList ++ edition ++ " — trigger recall".toList ++ (if legend = [] then [] else '\n' :: legend)

def owaspSection (docs : List Doc) (edition : Text) : Section := ⟨owaspTitle docs edition, owaspTable docs edition⟩

def collapsedRows (docs : List Doc) : ℕ := (docs.map fun doc => doc.crawl.rowsSharingARouteAcrossHosts).foldr max 0

def crawlNote (docs : List Doc) : Text :=
  "Planted-only reach counts just the pages we made attractive; surface ".toList ++
    "coverage counts every route the target declares, safe ones included. ".toList ++
    "Both are shown; neither replaces the other.".toList ++
    (if collapsedRows docs ≠ 0 ∧ (docs.any fun doc => doc.crawl.hostResolution == "collapsed".toList) = true then
      " Requests carry no virtual host, and ".toList ++ digits (collapsedRows docs) ++
        " inventory rows share a route across hosts, so surface coverage is an upper bound for them.".toList
    else [])

def crawlTitle (docs : List Doc) : Text := "Crawl coverage — whole published surface".toList ++ '\n' :: crawlNote docs

def weakNote : Text :=
  "Callbacks the sinkhole could only tie to a vulnerability by container and ".toList ++
    "time window are counted here and excluded from the headline trigger recall.".toList

def weakTitle : Text := "Out-of-band attribution strength".toList ++ '\n' :: weakNote

def provenanceNote : Text :=
  "The image digest actually running and the seeded-state digest read before ".toList ++
    "and after the run. A run whose state reset is DIRTY did not come back to ".toList ++
    "its seeded state, so the next run measured a different application.".toList

def provenanceTitle : Text := "Run provenance".toList ++ '\n' :: provenanceNote

/-- The tables of both reports, in reading order. -/
def sections (docs : List Doc) : List Section :=
  [⟨"Overall".toList, summaryTable docs⟩] ++
    (editions docs).map (owaspSection docs) ++
    [⟨"By family — reach / exercise / trigger".toList, familyTable docs⟩,
      ⟨"By rendering mode — where SPA crawling collapses".toList, renderTable docs⟩] ++
    (if hasCrawl docs then [⟨crawlTitle docs, crawlTable docs⟩] else []) ++
    (if hasWeak docs then [⟨weakTitle, weakTable docs⟩] else []) ++
    [⟨"By severity — trigger recall".toList, axisTable docs Doc.bySeverity .trigger⟩,
      ⟨"By required credentials — trigger recall".toList, axisTable docs Doc.byAuth .trigger⟩,
      ⟨"By discovery difficulty — reach recall".toList, axisTable docs Doc.byDifficulty .reach⟩,
      ⟨"By required capability — reach recall".toList, axisTable docs Doc.byRequires .reach⟩] ++
    (if hasProvenance docs then [⟨provenanceTitle, provenanceTable docs⟩] else [])

/-- The documents with findings. -/
def judged (docs : List Doc) : List (Doc × Findings) := docs.filterMap fun doc => doc.findings.map fun f => (doc, f)

/-- A percentage of the page has a suffix. -/
def precisionRow (suffix : Text) (entry : Doc × Findings) : List Text :=
  let f := entry.2
  let cell (precision : Option ℚ) : Text := (precision.map fun p => percent p ++ suffix).getD dash
  [toolName entry.1, digits f.total, digits f.truePositives, digits f.falsePositivesConfirmed,
    digits f.falsePositivesUnknownRoute, digits f.outOfCatalog, digits f.duplicates, digits f.ambiguous,
    cell f.precisionConfirmed, cell f.precision, cell f.precisionConservative]

def precisionTable (suffix : Text) (docs : List Doc) : Table :=
  table "tool".toList (headings ["findings", "TP", "FP confirmed", "FP unconfirmable", "outside corpus", "dup",
    "ambiguous", "precision (confirmed)", "precision (all)", "conservative"]) (judged docs) (precisionRow suffix)
    fun _ => rfl

/-- The warnings of all documents. -/
def warned (docs : List Doc) : List (Doc × Warning) := docs.flatMap fun doc => doc.warnings.map fun w => (doc, w)

/-! ## Markdown -/

def cellNote (docs : List Doc) : Text :=
  " · ".toList ++ digits docs.length ++ " run(s) · cells are `recall% (hit/applicable)`, ".toList ++
    "`—` means no planted vulnerability in that bucket.".toList

def digestLine (docs : List Doc) : Text :=
  "Catalog digest: ".toList ++
    join ", ".toList (sorted (docs.map fun doc => orElse (doc.catalogDigest.getD []) "?".toList)) ++ cellNote docs

def conditionParts (doc : Doc) : List Part :=
  .text ("> **".toList ++ toolName doc ++ " — ".toList ++ scanModeLabel doc ++ " run**".toList) ::
    ((conditionLines doc).map fun line => .text (">  · ".toList ++ line)) ++ [.text []]

def sectionParts (s : Section) : List Part :=
  .text ("## ".toList ++ s.head) ::
    (if s.legend = [] then [] else [.text ("<sub>".toList ++ s.legend ++ "</sub>".toList)]) ++
    [.table s.table.header s.table.rows, .text []]

def precisionNote : Text :=
  "<sub>The headline is `precision (confirmed)`: its denominator counts only ".toList ++
    "false positives the route inventory contradicts. `FP unconfirmable` sits on ".toList ++
    "paths we never declared, or that only a catch-all pattern row matched — our ".toList ++
    "gap, not the tool's error — ".toList ++
    "and is counted separately in `precision (all)`. `outside corpus` are real ".toList ++
    "findings for classes this corpus does not plant (a missing CSP header, say): ".toList ++
    "unscoreable, not wrong, and excluded from every denominator. `conservative` ".toList ++
    "additionally counts right-place-wrong-class findings against the tool.</sub>".toList

def cweText (cwe : Text) (v : CweCount) : Text :=
  "CWE-".toList ++ cwe ++ " ×".toList ++ digits v.count ++ " (".toList ++ v.reason ++ ")".toList

def outsideParts (entry : Doc × Findings) : List Part :=
  if entry.2.outOfCatalogByCwe.items = [] then []
  else
    [.text ("<sub>".toList ++ toolName entry.1 ++ " — outside the corpus: ".toList ++
      join "; ".toList (entry.2.outOfCatalogByCwe.items.map fun item => cweText item.1 item.2) ++ "</sub>".toList),
      .text []]

def precisionParts (docs : List Doc) : List Part :=
  if judged docs = [] then []
  else
    [.text "## Precision".toList, .text precisionNote,
      .table (precisionTable [] docs).header (precisionTable [] docs).rows, .text []] ++
      (judged docs).flatMap outsideParts

def warningTable (docs : List Doc) : Table :=
  table "tool".toList (headings ["code", "vuln", "message"]) (warned docs)
    (fun entry => [toolName entry.1, entry.2.code, entry.2.vulnId, entry.2.message]) fun _ => rfl

def warningParts (docs : List Doc) : List Part :=
  if warned docs = [] then []
  else
    [.text "## Instrumentation warnings".toList, .table (warningTable docs).header (warningTable docs).rows, .text []]

/-- The lines of the report; a table stands below a blank line. -/
def markdownParts (docs : List Doc) : List Part :=
  [.text "# ptaas-bench results".toList, .text [], .text (digestLine docs), .text []] ++
    docs.flatMap conditionParts ++ (sections docs).flatMap sectionParts ++ precisionParts docs ++ warningParts docs

def rstrip (t : Text) : Text := t.rdropWhile PtaasBench.Py.isSpace

def markdownReport (docs : List Doc) : Text := rstrip (Markdown.write (markdownParts docs)) ++ ['\n']

/-- The tables of the Markdown report. -/
def markdownTables (docs : List Doc) : List Table :=
  (sections docs).map Section.table ++ (if judged docs = [] then [] else [precisionTable [] docs]) ++
    (if warned docs = [] then [] else [warningTable docs])

/-! ## HTML -/

/-- The style sheet of the page. -/
structure StyleSheet where
  css : Text
  inert : (css.all fun c => c != '<' && c != '&') = true

theorem closed {t : Text} (h : t.contains '>' = false) : (String.ofList t).toList.contains '>' = false := by
  rwa [String.toList_ofList]

theorem inert {t : Text} (h : (t.all fun c => c != '<' && c != '&') = true) :
    ((String.ofList t).toList.all fun c => c != '<' && c != '&') = true := by
  rwa [String.toList_ofList]

def tag (s : String) (h : s.toList.contains '>' = false := by exact closed rfl) : Chunk := .tag s.toList h

def raw (s : String) (h : (s.toList.all fun c => c != '<' && c != '&') = true := by exact inert rfl) : Chunk :=
  .raw s.toList h

theorem isDigit_of_mem_digits {n : ℕ} {c : Char} (h : c ∈ digits n) : c.isDigit = true :=
  Nat.isDigit_of_mem_toDigits (by decide) (by decide) h

theorem ne_of_mem_digits {n : ℕ} {c d : Char} (h : c ∈ digits n) (hd : d.isDigit = false) : c ≠ d := by
  rintro rfl
  rw [isDigit_of_mem_digits h] at hd
  cases hd

theorem all_digits (n : ℕ) : ((digits n).all fun c => c != '<' && c != '&') = true := by
  rw [List.all_eq_true]
  intro c hc
  rw [Bool.and_eq_true, bne_iff_ne, bne_iff_ne]
  exact ⟨ne_of_mem_digits hc rfl, ne_of_mem_digits hc rfl⟩

def number (n : ℕ) : Chunk := .raw (digits n) (all_digits n)

/-- `<i style="width:n%">` -/
def widthTag (n : ℕ) : Chunk :=
  .tag ("i style=\"width:".toList ++ digits n ++ "%\"".toList) (by
    rw [Bool.eq_false_iff, ne_eq, List.contains_iff_mem, List.mem_append, List.mem_append, not_or, not_or]
    exact ⟨⟨by decide, fun h => ne_of_mem_digits h rfl rfl⟩, by decide⟩)

section Page

-- `width t` is `f"{max(0.0, min(100.0, float(t))):.0f}"` where `float` reads the text.
variable (style : StyleSheet) (width : Text → Option ℕ)

/-- The width of a cell's bar. -/
def barWidth (t : Text) : Option ℕ :=
  if ")".toList.isSuffixOf t && t.contains '%' then width (t.takeWhile fun c => c != '%') else none

def htmlCell (t : Text) : List Chunk :=
  if t = dash then [tag "td class=\"na\"", raw "—", tag "/td"]
  else
    match barWidth width t with
    | none => [tag "td", .text t, tag "/td"]
    | some n =>
      [tag "td", tag "span class=\"bar\"", widthTag n, tag "/i", tag "span", .text t, tag "/span", tag "/span",
        tag "/td"]

def headingCell (h : Text) : List Chunk := [tag "th", .text h, tag "/th"]

def toolCell (t : Text) : List Chunk := [tag "td class=\"tool\"", .text t, tag "/td"]

def htmlRow (row : List Text) : List Chunk :=
  [tag "tr"] ++ (row.take 1).flatMap toolCell ++ (row.drop 1).flatMap (htmlCell width) ++ [tag "/tr"]

def htmlTable (t : Table) : List Chunk :=
  [tag "div class=\"wrap\"", tag "table", tag "thead", tag "tr"] ++ t.header.flatMap headingCell ++
    [tag "/tr", tag "/thead", tag "tbody"] ++ t.rows.flatMap (htmlRow width) ++
    [tag "/tbody", tag "/table", tag "/div"]

def htmlCondition (doc : Doc) : List Chunk :=
  [if passiveModes.contains (scanModeLabel doc) then tag "div class=\"note passive\"" else tag "div class=\"note\"",
      tag "strong", .text (toolName doc), raw " — ", .text (scanModeLabel doc), raw " run", tag "/strong", tag "ul"] ++
    (conditionLines doc).flatMap (fun line => [tag "li", .text line, tag "/li"]) ++ [tag "/ul", tag "/div"]

def htmlLegend (legend : Text) : List Chunk :=
  if legend = [] then [] else [tag "p class=\"legend\"", .text legend, tag "/p"]

def htmlSection (s : Section) : List Chunk :=
  [tag "h2", .text s.head, tag "/h2"] ++ htmlLegend s.legend ++ htmlTable width s.table

def cweList (entry : Entry) : Text := join ",".toList (entry.cwe.map digits)

def outsideTable (f : Findings) : Table :=
  table "method".toList (headings ["url", "cwe", "name", "reason"]) f.outOfCatalogList
    (fun r => [r.method, r.url, cweList r, r.name, r.reason]) fun _ => rfl

def falsePositiveTable (f : Findings) : Table :=
  table "method".toList (headings ["url", "param", "cwe", "name", "basis", "reason"]) f.falsePositiveList
    (fun r => [r.method, r.url, r.param, cweList r, r.name, orElse r.fpBasis "—".toList, r.reason]) fun _ => rfl

/-- The tables of a document below the table of precisions. -/
def listTables (entry : Doc × Findings) : List Table :=
  (if entry.2.outOfCatalogList = [] then [] else [outsideTable entry.2]) ++
    (if entry.2.falsePositiveList = [] then [] else [falsePositiveTable entry.2])

def htmlOutside (entry : Doc × Findings) : List Chunk :=
  if entry.2.outOfCatalogList = [] then []
  else
    [tag "h2", raw "Outside the corpus — ", .text (toolName entry.1), tag "/h2", tag "p class=\"legend\"",
      raw "Real findings for classes this benchmark does ",
      raw "not plant. Listed so a reader can check that judgement, and ", raw "counted against nobody.", tag "/p"] ++
      htmlTable width (outsideTable entry.2)

def htmlFalsePositives (entry : Doc × Findings) : List Chunk :=
  if entry.2.falsePositiveList = [] then []
  else
    [tag "h2", raw "False positives — ", .text (toolName entry.1), tag "/h2"] ++
      htmlTable width (falsePositiveTable entry.2)

def htmlPrecision (docs : List Doc) : List Chunk :=
  if judged docs = [] then []
  else
    [tag "h2", raw "Precision", tag "/h2", tag "p class=\"legend\"", raw "The headline is ", tag "code",
      raw "precision (confirmed)", tag "/code", raw ": only ",
      raw "false positives the route inventory contradicts are in its denominator. Findings ",
      raw "on paths the target serves but never declared are our gap, not the tool's error, ",
      raw "and are counted separately. ", tag "code", raw "outside corpus", tag "/code",
      raw " findings are real findings ",
      raw "for classes this corpus does not plant — unscoreable, not wrong — and are excluded ",
      raw "from every denominator.", tag "/p"] ++
      htmlTable width (precisionTable " (—)".toList docs) ++
      (judged docs).flatMap fun entry => htmlOutside width entry ++ htmlFalsePositives width entry

def htmlWarning (entry : Doc × Warning) : List Chunk :=
  [tag "li", tag "span class=\"pill\"", .text (toolName entry.1), tag "/span", raw " ", tag "span class=\"warn\"",
    .text entry.2.code, tag "/span", raw " ", .text entry.2.vulnId, raw " — ", .text entry.2.message, tag "/li"]

def htmlWarnings (docs : List Doc) : List Chunk :=
  if warned docs = [] then []
  else
    [tag "h2", raw "Instrumentation warnings", tag "/h2", tag "p class=\"legend\"",
      raw "These are platform problems, not tool problems: they mean an ",
      raw "SDK under-reported something we had to compensate for.", tag "/p", tag "ul class=\"warnings\""] ++
      (warned docs).flatMap htmlWarning ++ [tag "/ul"]

/-- The texts of a field, sorted; `None` for a document that lacks it. -/
def listed (docs : List Doc) (field : Doc → Option Text) : Text :=
  join ", ".toList (sorted (docs.map fun doc => (field doc).getD "None".toList))

def htmlIntroduction (docs : List Doc) : List Chunk :=
  [tag "h1", raw "ptaas-bench results", tag "/h1", tag "p class=\"sub\"", number docs.length,
    raw " run(s) · catalog digest ", .text (listed docs Doc.catalogDigest), raw " · generated ",
    .text (listed docs Doc.generatedAt), raw " · cells show ", tag "code", raw "recall% (hit/applicable)", tag "/code",
    raw "; ", tag "span class=\"na\"", raw "—", tag "/span",
    raw " means no planted vulnerability in that bucket.", tag "/p"]

def htmlHead : List Chunk :=
  [tag "!doctype html", raw "\n", tag "html lang=\"en\"", tag "head", tag "meta charset=\"utf-8\"",
    tag "meta name=\"viewport\" content=\"width=device-width, initial-scale=1\"", tag "title",
    raw "ptaas-bench results", tag "/title", tag "style", .raw style.css style.inert, tag "/style", tag "/head",
    tag "body", tag "main"]

def htmlFooter : List Chunk :=
  [tag "footer", raw "Generated by benchctl. Self-contained: no network access required. ",
    raw "Recall is measured inside the targets; precision is judged against the catalog ",
    raw "with the rules documented in benchctl/findings.py.", tag "/footer", tag "/main", tag "/body", tag "/html",
    raw "\n"]

/-- The tags and texts of the page. -/
def htmlPage (docs : List Doc) : List Chunk :=
  htmlHead style ++ htmlIntroduction docs ++ docs.flatMap htmlCondition ++
    (sections docs).flatMap (htmlSection width) ++ htmlPrecision width docs ++ htmlWarnings docs ++ htmlFooter

def htmlReport (docs : List Doc) : Text := Html.write (htmlPage style width docs)

end Page

/-- The tables of the HTML report. -/
def htmlTables (docs : List Doc) : List Table :=
  (sections docs).map Section.table ++
    (if judged docs = [] then [] else precisionTable " (—)".toList docs :: (judged docs).flatMap listTables)

end PtaasBench.Benchctl.Report
