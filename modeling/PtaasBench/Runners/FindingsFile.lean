import PtaasBench.Benchctl.OutOfCatalog
import PtaasBench.Py.JsonIndent
import PtaasBench.Runners.Malformed

/-!
# PtaasBench.Runners.FindingsFile — what the scorer reads of the findings that a runner wrote

`NormaliseResult.write` and `load_findings` stand in two components and share the file alone.
-/

namespace PtaasBench.Runners.Normalise

open Py Lib List

/-- A text or `None`. -/
def textOr (x : Option String) : Json := (x.map Json.str).getD .null

/-- `Finding.to_dict` -/
def Claim.toDict (c : Claim) : Obj :=
  [("tool", .str c.tool), ("url", textOr c.url), ("method", textOr c.method), ("param", textOr c.param),
    ("cwe", (c.cwe.map Json.int).getD .null), ("name", textOr c.name), ("severity", textOr c.severity),
    ("confidence", textOr c.confidence), ("raw_ref", .str c.rawRef)]

/-- The text that `NormaliseResult.write` puts into the findings file. -/
def NormaliseResult.findingsText (out : NormaliseResult) : String :=
  String.ofList (dumpsIndented (.arr (out.claims.map fun c => .obj c.toDict)) ++ ['\n'])

/-- A finding of the scorer, with the dictionary that `raw` keeps. -/
structure Loaded extends Benchctl.Finding where
  raw : Obj

/-- The tool's own words: where in the report the claim was made. -/
def Loaded.rawRef (f : Loaded) : Option String := (f.raw.get "raw_ref").asStr?

/-- What the scorer holds of a claim.  A missing URL has become a text: the loader takes `str` of what it finds. -/
def Claim.seen (c : Claim) : Loaded where
  tool := some c.tool
  url := c.url.getD "None"
  method := c.method
  param := c.param
  cwe := c.cwe.toList
  name := c.name
  severity := c.severity
  confidence := c.confidence
  app := none
  raw := sortedFields c.toDict

/-- The words of a claim that the scorer does not change. -/
structure Claim.Shaped (c : Claim) : Prop where
  method : ∀ m ∈ c.method, m ∈ methods
  param : ∀ p ∈ c.param, p ≠ ""

/-! ## The file -/

theorem asStr?_textOr (x : Option String) : (textOr x).asStr? = x := by cases x <;> rfl

theorem sortKeys_textOr (x : Option String) : sortKeys (textOr x) = textOr x := by cases x <;> rfl

theorem truthy_textOr (x : Option String) : (textOr x).truthy = true ↔ ∃ s, x = some s ∧ s ≠ "" := by
  cases x with
  | none => exact ⟨fun h => absurd h Bool.false_ne_true, fun ⟨_, h, _⟩ => (nomatch h)⟩
  | some s =>
    show decide (s ≠ "") = true ↔ _
    rw [decide_eq_true_iff]
    exact ⟨fun h => ⟨s, rfl, h⟩, fun ⟨t, ht, hne⟩ => Option.some.inj ht ▸ hne⟩

theorem distinct_toDict (c : Claim) : (Json.obj c.toDict).Distinct := by
  have hscalar : ∀ x : Option String, (textOr x).Distinct := fun x => by cases x <;> trivial
  have hcwe : ((c.cwe.map Json.int).getD .null).Distinct := by cases c.cwe <;> trivial
  have hkeys : (["tool", "url", "method", "param", "cwe", "name", "severity", "confidence", "raw_ref"] :
    List String).Nodup := by decide
  refine ⟨hkeys, trivial, hscalar _, hscalar _, hscalar _, hcwe, hscalar _, hscalar _, hscalar _, trivial, trivial⟩

theorem finite_toDict (c : Claim) : (Json.obj c.toDict).Finite := by
  have hscalar : ∀ x : Option String, (textOr x).Finite := fun x => by cases x <;> trivial
  have hcwe : ((c.cwe.map Json.int).getD .null).Finite := by cases c.cwe <;> trivial
  exact ⟨trivial, hscalar _, hscalar _, hscalar _, hcwe, hscalar _, hscalar _, hscalar _, trivial, trivial⟩

theorem distinctItems_iff {xs : List Json} : DistinctItems xs ↔ ∀ x ∈ xs, x.Distinct := by
  induction xs with
  | nil => exact iff_of_true trivial (forall_mem_nil _)
  | cons x xs ih => rw [DistinctItems, ih, forall_mem_cons]

theorem sortItems_map_obj (ds : List Obj) :
    sortItems (ds.map Json.obj) = (ds.map sortedFields).map Json.obj := by
  induction ds with
  | nil => rfl
  | cons d ds ih =>
    rw [map_cons, sortItems, sortKeys_obj, ih]
    rfl

/-- The file is JSON, with the fields of each finding in order. -/
theorem loads_findingsText (out : NormaliseResult) :
    loads out.findingsText = some (.arr (out.claims.map fun c => .obj (sortedFields c.toDict))) := by
  have hfinite : (Json.arr (out.claims.map fun c => .obj c.toDict)).Finite :=
    finiteItems_iff.mpr (forall_mem_map.mpr fun c _ => finite_toDict c)
  have hdistinct : (Json.arr (out.claims.map fun c => .obj c.toDict)).Distinct :=
    distinctItems_iff.mpr (forall_mem_map.mpr fun c _ => distinct_toDict c)
  have hsorted := sortItems_map_obj (out.claims.map Claim.toDict)
  rw [map_map, map_map, map_map] at hsorted
  rw [NormaliseResult.findingsText, loads_dumpsIndented hfinite hdistinct, sortKeys]
  exact congrArg (fun xs => some (Json.arr xs)) hsorted

/-! ## The loader -/

section Loader

variable [Runtime] (decimal : Char → Option ℕ)

theorem upper_method {m : String} (h : m ∈ methods) : upper m = m := by
  have hascii : ∀ m ∈ methods, IsAscii m := by decide
  have hfixed : ∀ m ∈ methods, mapChars Char.toUpper m = m := by decide
  rw [Runtime.upper_ascii m (hascii m h), hfixed m h]

/-- `load_findings` from the parsed document, each finding with its dictionary. -/
def loadWithRaw (data : Json) : List Loaded :=
  let items :=
    match data with
    | .obj fields => Obj.get fields "findings"
    | data => data
  match items with
  | .arr items => (items.filterMap Json.asObj?).map fun d => ⟨Benchctl.findingFromDict decimal d, d⟩
  | _ => []

theorem pyStr_textOr (x : Option String) : (textOr x).pyStr = x.getD "None" := by cases x <;> rfl

theorem findingFromDict_sorted {c : Claim} (h : c.Shaped) :
    Benchctl.findingFromDict decimal (sortedFields c.toDict) = c.seen.toFinding := by
  have hd : Obj.Distinct c.toDict := distinct_toDict c
  have htext : ∀ (k : String) (x : Option String), Obj.get c.toDict k = textOr x →
      (sortedFields c.toDict).get k = textOr x := by
    intro k x hk
    rw [get_sortedFields hd, hk, sortKeys_textOr]
  have hurl : Obj.contains (sortedFields c.toDict) "url" = true := by
    rw [Obj.contains, get?_sortedFields hd]
    rfl
  have hcwe : Obj.get (sortedFields c.toDict) "cwe" = (c.cwe.map Json.int).getD .null := by
    rw [get_sortedFields hd]
    show sortKeys ((c.cwe.map Json.int).getD .null) = _
    cases c.cwe <;> rfl
  have happ : Obj.get (sortedFields c.toDict) "app" = .null := by
    rw [get_sortedFields hd]
    rfl
  have hmethod : (if (textOr c.method).truthy then some (upper (textOr c.method).pyStr) else none) = c.method := by
    cases hm : c.method with
    | none => rfl
    | some m =>
      have hmem := h.method m hm
      have hne : m ≠ "" := fun he => absurd (he ▸ hmem) (by decide)
      rw [if_pos ((truthy_textOr _).mpr ⟨m, rfl, hne⟩), pyStr_textOr, Option.getD_some, upper_method hmem]
  have hparam : (if (textOr c.param).truthy then (textOr c.param).asStr? else none) = c.param := by
    cases hp : c.param with
    | none => rfl
    | some p => rw [if_pos ((truthy_textOr _).mpr ⟨p, rfl, h.param p hp⟩), asStr?_textOr]
  have hcwes : Benchctl.parseCwes decimal ((c.cwe.map Json.int).getD .null) = c.cwe.toList := by
    cases c.cwe <;> rfl
  unfold Benchctl.findingFromDict Claim.seen
  rw [htext "tool" (some c.tool) rfl, htext "url" c.url rfl, htext "method" c.method rfl, htext "param" c.param rfl,
    htext "name" c.name rfl, htext "severity" c.severity rfl, htext "confidence" c.confidence rfl, hcwe, happ,
    if_pos hurl, hmethod, hparam, hcwes, pyStr_textOr]
  simp only [asStr?_textOr]
  rfl

theorem loadFindings_findingsText {out : NormaliseResult} (h : ∀ c ∈ out.claims, c.Shaped) :
    (loads out.findingsText).map (loadWithRaw decimal) = some (out.claims.map Claim.seen) := by
  have hdicts : ∀ ds : List Obj, (ds.map Json.obj).filterMap Json.asObj? = ds := by
    intro ds
    rw [filterMap_map]
    exact filterMap_some
  rw [loads_findingsText, Option.map_some]
  refine congrArg some ?_
  have hmap : (out.claims.map fun c => Json.obj (sortedFields c.toDict)) =
      (out.claims.map fun c => sortedFields c.toDict).map Json.obj := by
    rw [map_map]
    rfl
  rw [hmap]
  show (((out.claims.map fun c => sortedFields c.toDict).map Json.obj).filterMap Json.asObj?).map
    (fun d => Loaded.mk (Benchctl.findingFromDict decimal d) d) = _
  rw [hdicts, map_map]
  exact map_congr_left fun c hc => congrArg (Loaded.mk · _) (findingFromDict_sorted decimal (h c hc))

omit [Runtime] in
theorem rawRef_seen (c : Claim) : c.seen.rawRef = some c.rawRef := by
  have hget : Obj.get c.seen.raw "raw_ref" = sortKeys (.str c.rawRef) := get_sortedFields (distinct_toDict c) "raw_ref"
  rw [Loaded.rawRef, hget]
  rfl

end Loader

/-! ## The parsers -/

section Reports

variable [Library]

omit [Library] in
theorem valueOf_eq_some {α : Type} {x : Except Raised (Option α)} {a : α} : valueOf x = some a ↔ x = .ok (some a) := by
  cases x with
  | error e => exact ⟨fun h => (nomatch h), fun h => (nomatch h)⟩
  | ok r => exact ⟨fun h => congrArg Except.ok h, fun h => Except.ok.inj h⟩

theorem clean_ne_empty {value : Json} {p : String} (h : p ∈ clean value) : p ≠ "" := by
  unfold clean at h
  split at h
  · cases h
  · split_ifs at h with hempty
    · cases h
    · exact Option.some.inj h ▸ hempty

theorem paramFromUrl_ne_empty {url : Option String} {p : String} (h : p ∈ valueOf (paramFromUrl url)) : p ≠ "" := by
  have hok := valueOf_eq_some.mp h
  unfold paramFromUrl at hok
  cases url with
  | none => cases hok
  | some url =>
    dsimp only at hok
    split_ifs at hok with hquery
    · split at hok
      · cases hok
      · split at hok
        · exact clean_ne_empty (Except.ok.inj hok)
        · cases hok
    · cases hok

theorem paramOr_ne_empty {param url : Option String} (hparam : ∀ p ∈ param, p ≠ "") :
    ∀ p ∈ valueOf (paramOr param url), p ≠ "" := by
  cases param with
  | none => exact fun p hp => paramFromUrl_ne_empty hp
  | some q => exact fun p hp => hparam p hp

theorem skipfishParam_ne_empty {extra : Json} {url : Option String} {p : String}
    (h : p ∈ valueOf (skipfishParam extra url)) : p ≠ "" := by
  unfold skipfishParam at h
  cases hextra : clean extra with
  | none =>
    rw [hextra] at h
    exact paramFromUrl_ne_empty h
  | some candidate =>
    rw [hextra] at h
    dsimp only at h
    split_ifs at h with hnamed
    · exact Option.some.inj h ▸ clean_ne_empty hextra
    · exact paramFromUrl_ne_empty h

theorem sarifParam_ne_empty {result : Obj} : ∀ p ∈ sarifParam result, p ≠ "" := by
  intro p hp
  unfold sarifParam at hp
  split at hp
  · exact clean_ne_empty hp
  · cases hp

theorem normMethod_mem {value : Json} : ∀ m ∈ normMethod value, m ∈ methods := by
  intro m hm
  unfold normMethod at hm
  split at hm
  · cases hm
  · split_ifs at hm with hmem
    · exact Option.some.inj hm ▸ hmem
    · cases hm

theorem orGet_mem {value : Json} : ∀ m ∈ (normMethod value).or (some "GET"), m ∈ methods :=
  or_mem normMethod_mem fun _ hm => Option.some.inj hm ▸ by decide

variable (table : CweTable) (tool file : String)

/-- Every claim of a report has a method of the list, or none, and no empty parameter. -/
theorem claims_shaped (report : Report) : ∀ c ∈ report.claims table tool file, c.Shaped := by
  intro c hc
  cases report with
  | zap doc =>
    obtain ⟨site, -, hsite⟩ := mem_flatMap.mp hc
    obtain ⟨alert, -, halert⟩ := mem_flatMap.mp hsite
    unfold zapAlertClaims at halert
    split_ifs at halert with hskip
    · exact absurd halert not_mem_nil
    · obtain ⟨e, -, he⟩ := mem_flatMap.mp halert
      obtain rfl := mem_singleton.mp he
      exact ⟨normMethod_mem, paramOr_ne_empty fun _ hp => clean_ne_empty hp⟩
  | nuclei lines =>
    obtain ⟨e, -, he⟩ := mem_flatMap.mp hc
    split_ifs at he with hskip
    · exact absurd he not_mem_nil
    · obtain rfl := mem_singleton.mp he
      exact ⟨or_mem normMethod_mem normMethod_mem, paramOr_ne_empty fun _ hp => clean_ne_empty hp⟩
  | wapiti doc =>
    obtain ⟨e, -, he⟩ := mem_flatMap.mp hc
    unfold wapitiCategoryClaims at he
    split at he
    · split_ifs at he with hskip
      · exact absurd he not_mem_nil
      · obtain ⟨entry, -, hentry⟩ := mem_flatMap.mp he
        obtain rfl := mem_singleton.mp hentry
        exact ⟨orGet_mem, paramOr_ne_empty fun _ hp => clean_ne_empty hp⟩
    · exact absurd he not_mem_nil
  | nikto doc =>
    obtain ⟨r, -, hr⟩ := mem_flatMap.mp hc
    split_ifs at hr with hskip
    · exact absurd hr not_mem_nil
    · obtain rfl := mem_singleton.mp hr
      exact ⟨orGet_mem, fun _ hp => paramFromUrl_ne_empty hp⟩
  | skipfish doc =>
    obtain ⟨e, -, he⟩ := mem_flatMap.mp hc
    unfold skipfishGroupClaims at he
    split_ifs at he with hskip
    · exact absurd he not_mem_nil
    · obtain ⟨sample, -, hsample⟩ := mem_flatMap.mp he
      obtain rfl := mem_singleton.mp hsample
      exact ⟨fun m hm => (nomatch hm), fun _ hp => skipfishParam_ne_empty hp⟩
  | generic doc =>
    unfold Report.claims at hc
    dsimp only at hc
    split_ifs at hc with hs
    · obtain ⟨run, -, hrun⟩ := mem_flatMap.mp hc
      obtain ⟨e, -, he⟩ := mem_flatMap.mp hrun
      obtain rfl := mem_singleton.mp he
      exact ⟨normMethod_mem, paramOr_ne_empty sarifParam_ne_empty⟩
    · obtain ⟨e, -, he⟩ := mem_flatMap.mp hc
      split_ifs at he with hskip
      · exact absurd he not_mem_nil
      · obtain rfl := mem_singleton.mp he
        exact ⟨normMethod_mem, paramOr_ne_empty fun _ hp => clean_ne_empty hp⟩

/-- What a parser found, written to the file and read by the scorer: the same findings in the same order, and each names
the place in the report where the tool made it. -/
theorem scorer_reads_findings (decimal : Char → Option ℕ) (report : Report) {out : NormaliseResult}
    (hout : normalise table tool file report = .ok out) :
    ∃ findings, (loads out.findingsText).map (loadWithRaw decimal) = some findings ∧
      findings = out.claims.map Claim.seen ∧ findings.map Loaded.rawRef = out.claims.map fun c => some c.rawRef := by
  refine ⟨_, loadFindings_findingsText decimal fun c hc => ?_, rfl, ?_⟩
  · rw [(returns_normalise table tool file report).post_of_eq hout] at hc
    exact claims_shaped table tool file report c hc
  · rw [map_map]
    exact map_congr_left fun c _ => rawRef_seen c

end Reports

/-- A record of an unknown tool that names a parameter but no URL. -/
def urllessReport : Json :=
  .arr [.obj [("title", .str "SQL injection"), ("parameter", .str "q"), ("cwe", .str "CWE-89")]]

theorem scorer_reads_urlless : ∃ out findings,
    @normalise Library.ascii {} "custom" "report.json" (.generic urllessReport) = .ok out ∧
      (loads out.findingsText).map (@loadWithRaw Runtime.ascii fun _ => none) = some findings ∧
      findings.map (fun f => f.url) = ["None"] ∧ findings.map Loaded.rawRef = [some "report.json#[0]"] := by
  have hclaims : (@normalise Library.ascii {} "custom" "report.json" (.generic urllessReport)).map
      NormaliseResult.claims = .ok [⟨"custom", none, none, some "q", some 89, some "SQL injection", none, none,
        "report.json#[0]"⟩] := by rfl
  cases hout : @normalise Library.ascii {} "custom" "report.json" (.generic urllessReport) with
  | error e =>
    rw [hout] at hclaims
    cases hclaims
  | ok out =>
    rw [hout] at hclaims
    obtain ⟨findings, hread, hseen, href⟩ := @scorer_reads_findings Library.ascii {} "custom" "report.json"
      (fun _ => none) (.generic urllessReport) out hout
    rw [Except.ok.inj hclaims] at hseen href
    exact ⟨out, findings, rfl, hread, hseen ▸ rfl, href⟩

end PtaasBench.Runners.Normalise
