import PtaasBench.Benchctl.Verdicts

/-!
# PtaasBench.Benchctl.Precision — the totals and the precisions of a findings report

The three precisions share their numerator, so they are ordered as their denominators are; a finding
that is out of catalog is in none of them, and the order of the findings shows in no total.
-/

namespace PtaasBench.Benchctl

open Py Lib List

/-! ## Ratios -/

/-- A summary is its counts, and the duplicates are what the other verdicts leave. -/
theorem summarise_congr {available : Bool} {rows rows' : List Row}
    (hlength : rows.length = rows'.length)
    (htp : countVerdict rows .truePositive = countVerdict rows' .truePositive)
    (hother : ∀ v ≠ Verdict.truePositive, v ≠ Verdict.duplicate →
      countVerdict rows v = countVerdict rows' v)
    (hconfirmed : rows.countP isConfirmedFp = rows'.countP isConfirmedFp)
    (hkind : ∀ kind : Unscoreable, rows.countP (fun r => decide (r.outOfCatalogKind = some kind)) =
      rows'.countP fun r => decide (r.outOfCatalogKind = some kind)) :
    summarise available rows = summarise available rows' := by
  have hambiguous : Verdict.ambiguous.map (countVerdict rows) =
      Verdict.ambiguous.map (countVerdict rows') := by
    refine map_congr_left fun v hv => hother v ?_ ?_
    · rintro rfl
      exact absurd hv (by decide)
    · rintro rfl
      exact absurd hv (by decide)
  have hdup : countVerdict rows .duplicate = countVerdict rows' .duplicate := by
    have hall := length_eq_counts rows
    have hall' := length_eq_counts rows'
    rw [hlength, htp, hother .falsePositive (by decide) (by decide),
      hother .outOfCatalog (by decide) (by decide), hambiguous] at hall
    omega
  have hcount : ∀ v, countVerdict rows v = countVerdict rows' v := by
    intro v
    by_cases hv : v = .truePositive
    · rw [hv, htp]
    · by_cases hv' : v = .duplicate
      · rw [hv', hdup]
      · exact hother v hv hv'
  simp only [summarise, hlength, hcount, hconfirmed, hkind, hambiguous]

section Report

variable [Runtime] {ctx : Judging}

theorem rows_report (findings : List Finding) :
    (classifyFindings ctx findings).findings = rowsFrom ctx [] findings := rows_classify ctx findings

theorem summary_report (findings : List Finding) :
    (classifyFindings ctx findings).toSummary =
      summarise (!ctx.inventories.items.isEmpty) (rowsFrom ctx [] findings) := by
  rw [← rows_classify]
  rfl

/-! ## The order of the findings -/

theorem summarise_perm {findings findings' : List Finding} (h : findings'.Perm findings)
    (available : Bool) :
    summarise available (rowsFrom ctx [] findings') =
      summarise available (rowsFrom ctx [] findings) := by
  have hread : ∀ {p : Row → Bool},
      (∀ claimed f, p (rowAfter ctx claimed f) = p (rowAfter ctx [] f)) →
      (rowsFrom ctx [] findings').countP p = (rowsFrom ctx [] findings).countP p := by
    intro p hp
    rw [countP_rowsFrom hp, countP_rowsFrom hp, h.countP_eq]
  refine summarise_congr ?_ ?_ (fun v hv hv' => hread (verdict_unclaimed hv hv'))
    (hread confirmedFp_unclaimed) fun kind => hread (kind_rowAfter kind)
  · rw [length_rowsFrom, length_rowsFrom, h.length_eq]
  · rw [truePositives_rowsFrom, truePositives_rowsFrom, toFinset_eq_of_perm _ _ (h.filterMap _)]

/-- The rows of one tool's findings do not depend on what the others claim. -/
theorem rowsFrom_congr (tool : Option String) {findings : List Finding}
    (htool : ∀ f ∈ findings, f.tool = tool) {claimed claimed' : List (Option String × String)}
    (h : ∀ key : Option String × String, key.1 = tool → (key ∈ claimed ↔ key ∈ claimed')) :
    rowsFrom ctx claimed findings = rowsFrom ctx claimed' findings := by
  induction findings generalizing claimed claimed' with
  | nil => rfl
  | cons f findings ih =>
    have hrow : rowAfter ctx claimed f = rowAfter ctx claimed' f := by
      cases hclaim : ctx.claim f with
      | none => exact rowAfter_of_none hclaim claimed claimed'
      | some key =>
        have hkey := h key ((claim_tool ctx f hclaim).trans (htool f mem_cons_self))
        rw [rowAfter_of_claim hclaim, rowAfter_of_claim hclaim]
        simp only [hkey]
    have hrest : rowsFrom ctx (claimedAfter ctx claimed f) findings =
        rowsFrom ctx (claimedAfter ctx claimed' f) findings := by
      refine ih (fun g hg => htool g (mem_cons_of_mem _ hg)) fun key hkey => ?_
      rw [mem_claimedAfter, mem_claimedAfter, h key hkey]
    rw [rowsFrom, rowsFrom, hrow, hrest]

/-- The rows of a tool are the rows of its findings alone. -/
theorem rowsFrom_tool (tool : Option String) (claimed : List (Option String × String))
    (findings : List Finding) :
    (rowsFrom ctx claimed findings).filter (fun r => decide (r.finding.tool = tool)) =
      rowsFrom ctx claimed (findings.filter fun f => decide (f.tool = tool)) := by
  induction findings generalizing claimed with
  | nil => rfl
  | cons f findings ih =>
    by_cases hf : f.tool = tool
    · rw [rowsFrom, filter_cons_of_pos (by simpa [finding_rowAfter] using hf),
        filter_cons_of_pos (by simpa using hf), rowsFrom, ih]
    · rw [rowsFrom, filter_cons_of_neg (by simpa [finding_rowAfter] using hf),
        filter_cons_of_neg (by simpa using hf), ih]
      refine rowsFrom_congr tool ?_ fun key hkey => ?_
      · intro g hg
        simpa using (mem_filter.mp hg).2
      · rw [mem_claimedAfter]
        refine ⟨fun h => h.resolve_right fun hclaim => hf ?_, Or.inl⟩
        rw [← claim_tool ctx f hclaim, hkey]

/-- The vulnerability a finding reports. -/
def reports (ctx : Judging) (f : Finding) : Option String :=
  (ctx.claim f).bind fun key => if key.2 = "" then none else some key.2

theorem reported_rowAfter (claimed : List (Option String × String)) (f : Finding) :
    (rowAfter ctx claimed f).reported = reports ctx f := by
  unfold reports Row.reported
  rw [verdict_rowAfter]
  cases hclaim : ctx.claim f with
  | none =>
    have htp := judged_of_none ctx f hclaim
    have hdup : judged ctx f ≠ .duplicate := by
      unfold judged
      split_ifs
      · decide
      · exact (best_verdict_ne ctx f).1
    simp [htp, hdup]
  | some key =>
    have hjudged := judged_of_claim ctx f hclaim
    have hmatched : (rowAfter ctx claimed f).matchedVuln = some key.2 := by
      rw [rowAfter_of_claim hclaim]
      split_ifs
      · exact matchedVuln_scoredRow ctx f hclaim
      · exact matchedVuln_scoredRow ctx f hclaim
    rw [hjudged, hmatched]
    by_cases hid : key.2 = ""
    · simp [given, hid]
    · by_cases hkey : key ∈ claimed <;> simp [given, hid, hkey]

theorem reported_rowsFrom (claimed : List (Option String × String)) (findings : List Finding) :
    (rowsFrom ctx claimed findings).filterMap Row.reported = findings.filterMap (reports ctx) := by
  induction findings generalizing claimed with
  | nil => rfl
  | cons f findings ih =>
    rw [rowsFrom, filterMap_cons, filterMap_cons, reported_rowAfter, ih]

theorem vulnsReported_report (findings : List Finding) :
    (classifyFindings ctx findings).vulnsReported =
      Catalog.sortedSet (findings.filterMap (reports ctx)) := by
  rw [← reported_rowsFrom [], ← rows_classify]
  rfl

end Report

/-- The totals of one tool. -/
def Report.ofTool (r : Report) (tool : Option String) : Summary :=
  summarise r.inventoryAvailable (r.findings.filter fun row => decide (row.finding.tool = tool))

/-! ## The report as a whole -/

/-- Two flaws behind two parameters of one endpoint. -/
def searchVuln (id param : String) : PlantedVuln where
  id := id
  app := "shop"
  entrypoint := { method := "GET", path := "/search", param := some param }
  oracle := { kind := "signal" }
  cwe := [79]

def searchSite : Judging where
  catalog := { vulns := [searchVuln "XSS-1" "q", searchVuln "XSS-2" "lang"], ids_nodup := by decide }

def searchFinding (param : Option String) (cwe : List ℤ) : Finding :=
  { tool := some "zap", url := "/search?q=1", method := some "GET", param := param, cwe := cwe }

/-- The order of the findings shows in no total, overall or of one tool, nor in what is reported. -/
theorem report_perm [Runtime] (ctx : Judging) {findings findings' : List Finding}
    (h : findings'.Perm findings) :
    (classifyFindings ctx findings').toSummary = (classifyFindings ctx findings).toSummary ∧
    (classifyFindings ctx findings').vulnsReported = (classifyFindings ctx findings).vulnsReported ∧
    ∀ tool, (classifyFindings ctx findings').ofTool tool = (classifyFindings ctx findings).ofTool tool := by
  refine ⟨?_, ?_, fun tool => ?_⟩
  · rw [summary_report, summary_report, summarise_perm h]
  · rw [vulnsReported_report, vulnsReported_report]
    exact Catalog.sortedSet_congr fun id => (h.filterMap _).mem_iff
  · rw [Report.ofTool, Report.ofTool, rows_report, rows_report, rowsFrom_tool, rowsFrom_tool]
    exact summarise_perm (h.filter _) _

theorem report_perm_search :
    let _ := Runtime.ascii
    (classifyFindings searchSite [searchFinding none [79], searchFinding (some "lang") [79]]).toSummary =
      (classifyFindings searchSite
        [searchFinding (some "lang") [79], searchFinding none [79]]).toSummary := by
  intro rt
  exact (report_perm searchSite (List.Perm.swap _ _ _)).1

end PtaasBench.Benchctl
