import PtaasBench.Benchctl.Report

/-!
# PtaasBench.Benchctl.ReportCells — the texts in the cells of the Markdown report
-/

namespace PtaasBench.Benchctl.Report

open Lib List
open Lib.Markdown (Part PlainTable join plain plain_append plain_join)
open Py (Dict)

/-! ## Texts in cells -/

theorem plain_digits (n : ℕ) : plain (digits n) = true := by
  rw [plain, all_eq_true]
  intro c hc
  have hdigit := isDigit_of_mem_digits hc
  rw [Bool.and_eq_true, bne_iff_ne, Markdown.isBreak, Bool.not_eq_true', Bool.or_eq_false_iff, beq_eq_false_iff_ne,
    beq_eq_false_iff_ne]
  exact ⟨ne_of_mem_digits hc rfl, ne_of_mem_digits hc rfl, ne_of_mem_digits hc rfl⟩

theorem plain_orElse {t other : Text} (h : plain other = true) : plain (orElse t other) = true ↔ plain t = true := by
  unfold orElse
  split_ifs with ht
  · rw [ht]
    exact ⟨fun _ => rfl, fun _ => h⟩
  · rfl

theorem plain_percent (rate : ℚ) : plain (percent rate) = true := by
  unfold percent fixed
  rw [plain_append, plain_append]
  refine ⟨⟨?_, plain_digits _⟩, rfl⟩
  split_ifs
  · rfl
  · rfl

theorem plain_counts (rate : ℚ) (hit applicable : ℕ) :
    plain (percent rate ++ " (".toList ++ digits hit ++ "/".toList ++ digits applicable ++ ")".toList) = true := by
  simp only [plain_append, plain_percent, plain_digits, true_and, and_true]
  exact ⟨⟨rfl, rfl⟩, rfl⟩

theorem plain_fmt (metric : Metric) (axis : AxisName) : plain (fmt metric axis) = true := by
  unfold fmt
  dsimp only
  split
  · rfl
  · split_ifs
    · rfl
    · exact plain_counts _ _ _

theorem plain_fmtCoverage (block : Coverage) : plain (fmtCoverage block) = true := by
  unfold fmtCoverage
  split_ifs
  · rfl
  · split
    · rfl
    · exact plain_counts _ _ _

theorem plain_fmtCounts (block : Axis) : plain (fmtCounts block) = true := by
  unfold fmtCounts
  split
  · rfl
  · exact plain_counts _ _ _

theorem plain_fmtRecall (cell : Axis) : plain (fmtRecall cell) = true := by
  unfold fmtRecall
  split
  · rfl
  · split_ifs
    · rfl
    · exact plain_percent _

theorem plain_fmtTriplet (metric : Metric) : plain (fmtTriplet metric) = true := by
  have hweak : plain (if metric.trigger.hit < metric.triggerAny.hit then
      " (+".toList ++ digits (metric.triggerAny.hit - metric.trigger.hit) ++ " weak)".toList else []) = true := by
    split_ifs
    · rw [plain_append, plain_append]
      exact ⟨⟨rfl, plain_digits _⟩, rfl⟩
    · rfl
  unfold fmtTriplet
  rw [plain_append, plain_append, plain_append, plain_append, plain_append, plain_append]
  exact ⟨⟨⟨⟨⟨⟨rfl, plain_fmtRecall _⟩, rfl⟩, plain_fmtRecall _⟩, rfl⟩, plain_fmtRecall _⟩, hweak⟩

theorem plain_getD_map {α : Type*} {o : Option α} {f : α → Text} (h : ∀ a, plain (f a) = true) :
    plain ((o.map f).getD dash) = true := by
  cases o with
  | none => rfl
  | some a => exact h a

theorem plain_fmtRender (metric : Metric) : plain (fmtRender metric) = true := by
  unfold fmtRender
  split
  · rfl
  · split_ifs
    · rfl
    · simp only [plain_append, plain_percent, plain_getD_map plain_percent, and_true]
      exact ⟨rfl, rfl⟩

theorem plain_spaDelta (cells : MetricMap) : plain (spaDelta cells) = true := by
  unfold spaDelta
  dsimp only
  split
  · rfl
  · split_ifs
    · rfl
    · rw [plain_append, plain_append, fixed, plain_append]
      refine ⟨⟨rfl, ?_, plain_digits _⟩, rfl⟩
      split_ifs
      · rfl
      · rfl

theorem plain_toolName (doc : Doc) : plain (toolName doc) = true ↔
    plain doc.run.tool = true ∧ plain doc.run.toolVersion = true ∧ plain doc.run.profile = true := by
  have htool := @plain_orElse doc.run.tool "unknown".toList rfl
  have hlabel : plain (if doc.run.toolVersion = [] then orElse doc.run.tool "unknown".toList else
      orElse doc.run.tool "unknown".toList ++ " ".toList ++ doc.run.toolVersion) = true ↔
      plain doc.run.tool = true ∧ plain doc.run.toolVersion = true := by
    split_ifs with hversion
    · rw [hversion, htool]
      exact (and_iff_left rfl).symm
    · rw [plain_append, plain_append, htool]
      exact and_congr_left fun _ => and_iff_left rfl
  unfold toolName
  dsimp only
  by_cases hprofile : doc.run.profile = [] ∨ doc.run.profile = "default".toList
  · have hplain : plain doc.run.profile = true := by
      rcases hprofile with h | h
      · rw [h]; rfl
      · rw [h]; rfl
    rw [if_pos hprofile, hlabel, hplain]
    exact ⟨fun h => ⟨h.1, h.2, rfl⟩, fun h => ⟨h.1, h.2.1⟩⟩
  · rw [if_neg hprofile, plain_append, plain_append, plain_append, hlabel]
    exact ⟨fun h => ⟨h.1.1.1.1, h.1.1.1.2, h.1.2⟩, fun h => ⟨⟨⟨⟨h.1, h.2.1⟩, rfl⟩, h.2.2⟩, rfl⟩⟩

theorem plain_scanModeLabel (doc : Doc) :
    plain (scanModeLabel doc) = true ↔ plain doc.run.scanMode.mode = true := by
  refine plain_orElse ?_
  split_ifs
  · rfl
  · rfl

theorem plain_cells {texts : List Text} :
    plain (if texts = [] then dash else join ", ".toList texts) = true ↔ ∀ t ∈ texts, plain t = true := by
  split_ifs with h
  · rw [h]
    exact ⟨fun _ t ht => absurd ht not_mem_nil, fun _ => rfl⟩
  · exact plain_join rfl

theorem mem_sorted {keys : List Text} {key : Text} : key ∈ sorted keys ↔ key ∈ keys := by
  rw [sorted, mem_insertionSort, mem_dedup]

theorem plain_sorted {keys : List Text} : (∀ key ∈ sorted keys, plain key = true) ↔ ∀ key ∈ keys, plain key = true :=
  forall_congr' fun _ => imp_congr_left mem_sorted

theorem plain_imageText (images : Dict Text Text) (app : Text) : plain (imageText images app) = true ↔
    plain app = true ∧ plain ((images.getD app []).take 19) = true := by
  unfold imageText
  rw [plain_append, plain_append]
  exact and_congr_left fun _ => and_iff_left rfl

/-! ## Tables of plain cells -/

def Table.Plain (t : Table) : Prop := PlainTable t.header t.rows

theorem plain_table {α : Type*} {heading : Text} {others : List Text} {entries : List α} {row : α → List Text}
    {width : ∀ a, (row a).length = others.length + 1} (hheading : plain heading = true) :
    (table heading others entries row width).Plain ↔
      (∀ t ∈ others, plain t = true) ∧ ∀ a ∈ entries, ∀ t ∈ row a, plain t = true := by
  rw [Table.Plain, PlainTable, table, forall_mem_cons, forall_mem_cons, forall_mem_map]
  exact and_congr_left fun _ => and_iff_right hheading

theorem plain_headings {names : List String} (h : (names.all fun s => plain s.toList) = true) :
    ∀ t ∈ headings names, plain t = true :=
  forall_mem_map.mpr (all_eq_true.mp h)

/-- The texts of a run's name. -/
def nameTexts (doc : Doc) : List Text := [doc.run.tool, doc.run.toolVersion, doc.run.profile]

theorem plain_toolName_iff {doc : Doc} : plain (toolName doc) = true ↔ ∀ t ∈ nameTexts doc, plain t = true := by
  rw [plain_toolName, nameTexts, forall_mem_cons, forall_mem_cons, forall_mem_singleton]

/-- The texts of a document in the overall table. -/
def summaryTexts (doc : Doc) : List Text := nameTexts doc ++ doc.run.scanMode.mode :: scope doc

theorem plain_summaryTable {docs : List Doc} :
    (summaryTable docs).Plain ↔ ∀ doc ∈ docs, ∀ t ∈ summaryTexts doc, plain t = true := by
  refine (plain_table rfl).trans ((and_iff_right (plain_headings rfl)).trans (forall₂_congr fun doc _ => ?_))
  have hconfirmed : plain ((doc.findings.map fun f => digits f.falsePositivesConfirmed).getD dash) = true :=
    plain_getD_map fun _ => plain_digits _
  have houtside : plain ((doc.findings.map fun f => digits f.outOfCatalog).getD dash) = true :=
    plain_getD_map fun _ => plain_digits _
  have hprecision : plain (fmtPrecision (doc.findings.bind Findings.precisionConfirmed)) = true :=
    plain_getD_map plain_percent
  simp only [summaryRow, summaryTexts, forall_mem_cons, forall_mem_append, plain_toolName_iff,
    plain_scanModeLabel, plain_cells, plain_digits, plain_fmt, plain_fmtCoverage, hconfirmed, houtside, hprecision,
    not_mem_nil, false_implies, implies_true, and_true]

/-- The texts of a run's provenance. -/
def provenanceTexts (doc : Doc) : List Text :=
  doc.run.runId :: doc.run.images.items.flatMap (fun item => [item.1, item.2.take 19]) ++
    (if doc.run.resetConsistent = some false then
      doc.run.resetDigests.keys.filter fun app => doc.run.resetDigests.get? app == some (some false)
    else [])

theorem plain_resetText (run : Run) : plain (resetText run) = true ↔
    ∀ t ∈ (if run.resetConsistent = some false then
      run.resetDigests.keys.filter fun app => run.resetDigests.get? app == some (some false) else []),
      plain t = true := by
  unfold resetText
  split
  · next h =>
    rw [h, if_neg (by decide)]
    exact ⟨fun _ t ht => absurd ht not_mem_nil, fun _ => rfl⟩
  · next h =>
    rw [h, if_neg (by decide), plain_append, plain_append]
    exact ⟨fun _ t ht => absurd ht not_mem_nil, fun _ => ⟨⟨rfl, plain_digits _⟩, rfl⟩⟩
  · next h =>
    rw [h, if_pos rfl, plain_append, plain_join rfl, plain_sorted]
    exact and_iff_right rfl

theorem plain_images (images : Dict Text Text) :
    plain (orElse (join ", ".toList ((sorted images.keys).map (imageText images))) dash) = true ↔
      ∀ t ∈ images.items.flatMap fun item => [item.1, item.2.take 19], plain t = true := by
  have hitems := Dict.forall_mem_keys (d := images)
    (p := fun app digest => plain app = true ∧ plain (digest.take 19) = true) []
  rw [plain_orElse rfl, plain_join rfl, forall_mem_map, forall_mem_flatMap]
  refine Iff.trans ?_ (hitems.trans (forall₂_congr fun item _ => ?_))
  · exact forall_congr' fun app => imp_congr mem_sorted (plain_imageText images app)
  · rw [forall_mem_cons, forall_mem_singleton]

section Named

variable {docs : List Doc}

theorem plain_unionKeys {α : Type*} {map : Doc → Dict Text α} :
    (∀ key ∈ unionKeys docs map, plain key = true) ↔ ∀ doc ∈ docs, ∀ key ∈ (map doc).keys, plain key = true := by
  rw [unionKeys, plain_sorted]
  exact forall_mem_flatMap

variable (hnames : ∀ doc ∈ docs, plain (toolName doc) = true)
include hnames

theorem plain_keyedTable {α : Type*} [Inhabited α] {map : Doc → Dict Text α} {cell : α → Text}
    (hcell : ∀ a, plain (cell a) = true) :
    (keyedTable docs map cell).Plain ↔ ∀ doc ∈ docs, ∀ key ∈ (map doc).keys, plain key = true := by
  refine (plain_table rfl).trans ((and_iff_left fun doc hdoc => ?_).trans plain_unionKeys)
  rw [forall_mem_cons, forall_mem_map]
  exact ⟨hnames doc hdoc, fun _ _ => hcell _⟩

theorem plain_renderTable :
    (renderTable docs).Plain ↔ ∀ doc ∈ docs, ∀ key ∈ doc.byRender.keys, plain key = true := by
  have hrows : ∀ doc ∈ docs, ∀ t ∈ toolName doc :: ((unionKeys docs Doc.byRender).map fun mode =>
      fmtRender (doc.byRender.getD mode default)) ++ [spaDelta doc.byRender], plain t = true := by
    intro doc hdoc
    rw [forall_mem_append, forall_mem_cons, forall_mem_map, forall_mem_singleton]
    exact ⟨⟨hnames doc hdoc, fun _ _ => plain_fmtRender _⟩, plain_spaDelta _⟩
  unfold renderTable
  refine (plain_table rfl).trans ((and_iff_left hrows).trans (Iff.trans ?_ plain_unionKeys))
  rw [forall_mem_append, forall_mem_singleton]
  exact and_iff_left rfl

theorem plain_crawlTable :
    (crawlTable docs).Plain ↔ ∀ doc ∈ docs, ∀ key ∈ doc.crawl.byRender.keys, plain key = true := by
  have hrows : ∀ doc ∈ docs, ∀ t ∈ [toolName doc, fmtCoverage doc.crawl.surface, fmtCoverage doc.crawl.plantedRoutes,
        fmtCoverage doc.crawl.safeRoutes] ++
      ((unionKeys docs fun doc => doc.crawl.byRender).map fun mode =>
        fmtCoverage (doc.crawl.byRender.getD mode default)) ++
      [fmtCounts doc.crawl.plantedVulnReach], plain t = true := by
    intro doc hdoc
    rw [forall_mem_append, forall_mem_append, forall_mem_map, forall_mem_singleton]
    refine ⟨⟨?_, fun _ _ => plain_fmtCoverage _⟩, plain_fmtCounts _⟩
    rw [forall_mem_cons, forall_mem_cons, forall_mem_cons, forall_mem_singleton]
    exact ⟨hnames doc hdoc, plain_fmtCoverage _, plain_fmtCoverage _, plain_fmtCoverage _⟩
  unfold crawlTable
  refine (plain_table rfl).trans ((and_iff_left hrows).trans (Iff.trans ?_ plain_unionKeys))
  rw [forall_mem_append, forall_mem_append, forall_mem_map, forall_mem_singleton,
    and_iff_right (plain_headings rfl)]
  refine (and_iff_left rfl).trans (forall₂_congr fun mode _ => ?_)
  rw [plain_append]
  exact and_iff_right rfl

theorem plain_weakTable :
    (weakTable docs).Plain ↔ ∀ doc ∈ docs, ∀ t ∈ doc.lowConfidenceTriggers.creditedOnlyHere, plain t = true := by
  refine (plain_table rfl).trans ((and_iff_right (plain_headings rfl)).trans (forall₂_congr fun doc hdoc => ?_))
  dsimp only
  rw [forall_mem_cons, forall_mem_cons, forall_mem_cons, forall_mem_cons,
    forall_mem_singleton, plain_orElse rfl, plain_join rfl]
  exact ⟨fun h => h.2.2.2.1, fun h => ⟨hnames doc hdoc, plain_fmtCounts _, plain_fmtCounts _, h, plain_digits _⟩⟩

theorem plain_provenanceTable :
    (provenanceTable docs).Plain ↔ ∀ doc ∈ docs, ∀ t ∈ provenanceTexts doc, plain t = true := by
  unfold provenanceTable
  refine (plain_table rfl).trans ((and_iff_right (plain_headings rfl)).trans (forall₂_congr fun doc hdoc => ?_))
  have hmap : plain (if doc.run.containerMapAvailable then "yes".toList else "no".toList) = true := by
    split_ifs
    · rfl
    · rfl
  rw [forall_mem_cons, forall_mem_cons, forall_mem_cons, forall_mem_cons,
    forall_mem_singleton, plain_orElse rfl, plain_images, plain_resetText, provenanceTexts, forall_mem_append,
    forall_mem_cons]
  exact ⟨fun h => ⟨⟨h.2.1, h.2.2.1⟩, h.2.2.2.1⟩, fun h => ⟨hnames doc hdoc, h.1.1, h.1.2, h.2, hmap⟩⟩

theorem plain_precisionTable : (precisionTable [] docs).Plain := by
  unfold precisionTable
  refine (plain_table rfl).mpr ⟨plain_headings rfl, fun entry hentry => ?_⟩
  obtain ⟨doc, hdoc, hfindings⟩ := mem_filterMap.mp hentry
  obtain ⟨f, -, rfl⟩ := Option.map_eq_some_iff.mp hfindings
  have hcell : ∀ precision : Option ℚ, plain ((precision.map fun p => percent p ++ []).getD dash) = true := fun _ =>
    plain_getD_map fun p => plain_append.mpr ⟨plain_percent p, rfl⟩
  simp only [precisionRow, forall_mem_cons, hnames doc hdoc, plain_digits, hcell, not_mem_nil, false_implies,
    implies_true, and_true]

theorem plain_warningTable : (warningTable docs).Plain ↔
    ∀ doc ∈ docs, ∀ t ∈ doc.warnings.flatMap fun w => [w.code, w.vulnId, w.message], plain t = true := by
  refine (plain_table rfl).trans ((and_iff_right (plain_headings rfl)).trans ?_)
  rw [warned, forall_mem_flatMap]
  refine forall₂_congr fun doc hdoc => ?_
  rw [forall_mem_map, forall_mem_flatMap]
  refine forall₂_congr fun w _ => ?_
  rw [forall_mem_cons, hnames doc hdoc]
  exact and_iff_right rfl

theorem plain_axisTable {group : Doc → MetricMap} {axis : AxisName} :
    (axisTable docs group axis).Plain ↔ ∀ doc ∈ docs, ∀ key ∈ (group doc).keys, plain key = true :=
  plain_keyedTable hnames fun metric => plain_fmt metric axis

theorem plain_owaspTables : (∀ edition ∈ editions docs, (owaspTable docs edition).Plain) ↔
    ∀ doc ∈ docs, ∀ t ∈ doc.byOwasp.items.flatMap fun item => item.2.keys, plain t = true := by
  have htable : ∀ edition, (owaspTable docs edition).Plain ↔
      ∀ doc ∈ docs, ∀ key ∈ (doc.byOwasp.getD edition Dict.empty).keys, plain key = true := fun _ =>
    plain_keyedTable hnames fun metric => plain_fmt metric .trigger
  constructor
  · intro h doc hdoc t ht
    obtain ⟨item, hitem, hkey⟩ := mem_flatMap.mp ht
    have hedition : item.1 ∈ editions docs :=
      mem_sorted.mpr (mem_flatMap.mpr ⟨doc, hdoc, mem_map_of_mem hitem⟩)
    refine (htable item.1).mp (h item.1 hedition) doc hdoc t ?_
    rwa [Dict.getD, Dict.get?_of_mem (v := item.2) hitem, Option.getD_some]
  · intro h edition _
    refine (htable edition).mpr fun doc hdoc key hkey => ?_
    rw [Dict.getD] at hkey
    cases hget : doc.byOwasp.get? edition with
    | none =>
      rw [hget] at hkey
      cases hkey
    | some cells =>
      rw [hget, Option.getD_some] at hkey
      exact h doc hdoc key (mem_flatMap.mpr ⟨(edition, cells), Dict.mem_items_of_get? hget, hkey⟩)

end Named

/-- The texts of a document that stand in a table of the Markdown report. -/
def cellTexts (docs : List Doc) (doc : Doc) : List Text :=
  summaryTexts doc ++ (doc.byOwasp.items.flatMap fun item => item.2.keys) ++ doc.byFamily.keys ++ doc.byRender.keys ++
    (if hasCrawl docs then doc.crawl.byRender.keys else []) ++
    (if hasWeak docs then doc.lowConfidenceTriggers.creditedOnlyHere else []) ++ doc.bySeverity.keys ++
    doc.byAuth.keys ++ doc.byDifficulty.keys ++ doc.byRequires.keys ++
    (if hasProvenance docs then provenanceTexts doc else []) ++
    doc.warnings.flatMap fun w => [w.code, w.vulnId, w.message]

theorem forall_mem_ite {α : Type*} {c : Prop} [Decidable c] {l : List α} {p : α → Prop} :
    (∀ a ∈ (if c then l else []), p a) ↔ (c → ∀ a ∈ l, p a) := by
  split_ifs with hc
  · exact ⟨fun h _ => h, fun h => h hc⟩
  · exact ⟨fun _ h => absurd h hc, fun _ a ha => absurd ha not_mem_nil⟩

theorem plain_sections {docs : List Doc} : (∀ s ∈ sections docs, s.table.Plain) ↔
    (summaryTable docs).Plain ∧ (∀ edition ∈ editions docs, (owaspTable docs edition).Plain) ∧
      (familyTable docs).Plain ∧ (renderTable docs).Plain ∧ (hasCrawl docs = true → (crawlTable docs).Plain) ∧
      (hasWeak docs = true → (weakTable docs).Plain) ∧ (axisTable docs Doc.bySeverity .trigger).Plain ∧
      (axisTable docs Doc.byAuth .trigger).Plain ∧ (axisTable docs Doc.byDifficulty .reach).Plain ∧
      (axisTable docs Doc.byRequires .reach).Plain ∧ (hasProvenance docs = true → (provenanceTable docs).Plain) := by
  unfold sections
  simp only [forall_mem_append, forall_mem_ite, forall_mem_singleton, forall_mem_map,
    forall_mem_cons, and_assoc, owaspSection]

section Named

variable {docs : List Doc} (hnames : ∀ doc ∈ docs, plain (toolName doc) = true)
include hnames

theorem plain_warned : (∀ t ∈ (if warned docs = [] then [] else [warningTable docs]), t.Plain) ↔
    ∀ doc ∈ docs, ∀ t ∈ doc.warnings.flatMap fun w => [w.code, w.vulnId, w.message], plain t = true := by
  rw [← plain_warningTable hnames]
  split_ifs with hnone
  · refine ⟨fun _ => ?_, fun _ t ht => absurd ht not_mem_nil⟩
    unfold warningTable
    refine (plain_table rfl).mpr ⟨plain_headings rfl, fun entry hentry => ?_⟩
    rw [hnone] at hentry
    cases hentry
  · exact forall_mem_singleton

theorem plain_markdownTables_of_names :
    (∀ t ∈ markdownTables docs, t.Plain) ↔ ∀ doc ∈ docs, ∀ t ∈ cellTexts docs doc, plain t = true := by
  have hswap : ∀ {c : Prop} {p : Doc → Prop}, (c → ∀ doc ∈ docs, p doc) ↔ ∀ doc ∈ docs, c → p doc :=
    ⟨fun h doc hdoc hc => h hc doc hdoc, fun h hc doc hdoc => h doc hdoc hc⟩
  have hprecision : ∀ t ∈ (if judged docs = [] then [] else [precisionTable [] docs]), t.Plain := by
    split_ifs
    · exact fun t ht => absurd ht not_mem_nil
    · exact forall_mem_singleton.mpr (plain_precisionTable hnames)
  rw [markdownTables, forall_mem_append, forall_mem_append, forall_mem_map, and_iff_left hprecision,
    plain_sections, plain_warned hnames, plain_summaryTable, plain_owaspTables hnames, familyTable,
    plain_keyedTable hnames plain_fmtTriplet, plain_renderTable hnames, plain_crawlTable hnames, plain_weakTable hnames,
    plain_axisTable hnames, plain_axisTable hnames, plain_axisTable hnames, plain_axisTable hnames,
    plain_provenanceTable hnames, hswap, hswap, hswap]
  simp only [cellTexts, forall_mem_append, forall_mem_ite, forall₂_and, and_assoc]

end Named

/-- The tables are plain just if the texts of the documents in them are. -/
theorem plain_markdownTables {docs : List Doc} :
    (∀ t ∈ markdownTables docs, t.Plain) ↔ ∀ doc ∈ docs, ∀ t ∈ cellTexts docs doc, plain t = true := by
  constructor
  · intro h
    have hsummary := plain_summaryTable.mp (h (summaryTable docs) mem_cons_self)
    refine (plain_markdownTables_of_names fun doc hdoc => ?_).mp h
    exact plain_toolName_iff.mpr fun t ht => hsummary doc hdoc t (mem_append_left _ ht)
  · intro h
    refine (plain_markdownTables_of_names fun doc hdoc => ?_).mpr h
    refine plain_toolName_iff.mpr fun t ht => h doc hdoc t ?_
    simp only [cellTexts, summaryTexts, mem_append, ht, true_or]

end PtaasBench.Benchctl.Report
