import Mathlib.Data.List.Infix
import PtaasBench.Runners.Normalise

/-!
# PtaasBench.Runners.Parsers — the report parsers (`normalise.py`)

One definition for each loop and for each turn of it.  `file` is `path.name`; the document is what `_load_json` returns,
with `null` for a file that is not there or not JSON.
-/

namespace PtaasBench.Runners.Normalise

open Py Lib

variable [Library] (table : CweTable) (tool file : String)

/-- The entry of a report under a key that neither the table nor the tool has a CWE for. -/
def noteUnmapped (unmapped : Bool) (u : Unmapped) : List Unmapped := if unmapped then [u] else []

/-! ## ZAP -/

def riskByCode : List (String × String) := [("0", "info"), ("1", "low"), ("2", "medium"), ("3", "high")]

def confByCode : List (String × String) :=
  [("0", "low"), ("1", "low"), ("2", "medium"), ("3", "high"), ("4", "confirmed")]

/-- The severity of an alert; `riskdesc` is cut only where the code is not one of the four. -/
def zapSeverity (alert : Obj) : Except Raised (Option String) :=
  match riskByCode.lookup (strip (alert.get "riskcode").pyStr) with
  | some risk => .ok (some risk)
  | none =>
    if (alert.get "riskdesc").truthy then
      match alert.get "riskdesc" with
      | .str s => .ok (normSeverity (.str (beforeChar ' ' s)))
      | _ => .error .attributeError
    else .ok (normSeverity .null)

def zapConfidence (alert : Obj) : Option String :=
  (confByCode.lookup (strip (alert.get "confidence").pyStr)).or (normConfidence (alert.get "confidence"))

def zapPlugin (alert : Obj) : Option String := clean (alert.get "pluginid")

def zapRef (alert : Obj) : Option String := (clean (alert.get "alertRef")).or (zapPlugin alert)

def zapName (alert : Obj) : Option String := (clean (alert.get "alert")).or (clean (alert.get "name"))

def zapRule (alert : Obj) : Option Rule := table.lookup tool [zapRef alert, zapPlugin alert]

def zapCwe (alert : Obj) : Except Raised (Option ℤ) :=
  match zapRule table tool alert with
  | some rule => .ok rule.cwe
  | none => if table.isNullValue tool (alert.get "cweid") then .ok none else parseCwe (alert.get "cweid")

def zapInstances (site alert : Obj) : List Json :=
  match alert.get "instances" with
  | .arr (inst :: rest) => inst :: rest
  | _ => [.obj [("uri", ((clean (site.get "@name")).map Json.str).getD .null)]]

def zapInstance (claim : Claim) (inst : Obj) : Except Raised NormaliseResult := do
  let url := clean (inst.get "uri")
  let param ← paramOr (clean (inst.get "param")) url
  emit { claim with url := url, method := normMethod (inst.get "method"), param := param }

def zapAlert (site : Obj) (si ai : ℕ) (alert : Obj) : Except Raised NormaliseResult := do
  if (zapRule table tool alert).any Rule.skip then .ok {}
  else
    let cwe ← zapCwe table tool alert
    let severity ← zapSeverity alert
    let unmapped := noteUnmapped cwe.isNone (unmappedOf tool ((zapRef alert).getD "?") (zapName alert)
      (some (alert.get "cweid").pyStr))
    let found ← forEach (fun ii => ofDict (zapInstance {
      tool := tool, url := none, method := none, param := none, cwe := cwe, name := zapName alert
      severity := severity, confidence := zapConfidence alert
      rawRef := s!"{file}#site[{si}].alerts[{ai}].instances[{ii}]" })) (zapInstances site alert)
    .ok (NormaliseResult.extend ⟨[], unmapped⟩ found)

def zapSite (si : ℕ) (site : Obj) : Except Raised NormaliseResult := do
  let alerts ← elements (site.get "alerts")
  forEach (fun ai => ofDict (zapAlert table tool file site si ai)) alerts

def zapSites (doc : Json) : List Json :=
  match doc with
  | .obj fields =>
    match Obj.get fields "site" with
    | .obj site => [.obj site]
    | .arr sites => sites
    | _ => []
  | _ => []

def normaliseZap (doc : Json) : Except Raised NormaliseResult :=
  forEach (fun si => ofDict (zapSite table tool file si)) (zapSites doc)

/-! ## nuclei -/

def dictOr (x : Json) : Obj := x.asObj?.getD []

/-- `_first_request_method` -/
def firstRequestMethod (rec : Obj) : Option String :=
  let first :=
    match rec.get "request" with
    | .str raw => if raw = "" then none else normMethod (.str (beforeChar ' ' (strip raw)))
    | _ => none
  match first with
  | some method => some method
  | none => match rec.get "type" with
    | .str "http" => some "GET"
    | _ => none

def nucleiTemplate (rec : Obj) : Option String :=
  (clean (rec.get "template-id")).or (clean (rec.get "templateID"))

def nucleiName (rec : Obj) : Option String :=
  (clean ((dictOr (rec.get "info")).get "name")).or (nucleiTemplate rec)

/-- The tags, when something runs over them: a text is cut at its commas. -/
def nucleiTags (rec : Obj) : Except Raised (List Json) :=
  match ((dictOr (rec.get "info")).get "tags") with
  | .str s => .ok ((((splitChar ',' s).map strip).filter (· ≠ "")).map Json.str)
  | tags => elements tags

/-- The loop over the tags: the CWE, and whether the question is settled. -/
def tagCwe (rules : Dict String Rule) : List Json → Option ℤ × Bool → Option ℤ × Bool
  | [], found => found
  | tag :: tags, found =>
    match rules.get? (lower tag.pyStr) with
    | none => tagCwe rules tags found
    | some rule => if rule.cwe.isSome then (rule.cwe, true) else tagCwe rules tags (rule.cwe, true)

def nucleiOwn (rec : Obj) : Json := dig (.obj (dictOr (rec.get "info"))) "classification.cwe-id"

/-- The CWE of a record, whether it is settled, and the tags that were run over. -/
def nucleiCwe (rec : Obj) : Except Raised (Option ℤ × Bool × List Json) :=
  match table.lookup tool [nucleiTemplate rec] with
  | some rule => .ok (rule.cwe, true, [])
  | none => do
    match ← parseCwe (nucleiOwn rec) with
    | some n => .ok (some n, true, [])
    | none =>
      let tags ← nucleiTags rec
      let found := tagCwe (table.rules (tool ++ "_tags")) tags (none, false)
      .ok (found.1, found.2, tags)

def nucleiUrl (rec : Obj) : Option String :=
  (clean (rec.get "matched-at")).or ((clean (rec.get "matched_at")).or
    ((clean (rec.get "url")).or (clean (rec.get "host"))))

def nucleiRecord (lineno : ℕ) (rec : Obj) : Except Raised NormaliseResult := do
  if (table.lookup tool [nucleiTemplate rec]).any Rule.skip then .ok {}
  else
    let (cwe, decided, tags) ← nucleiCwe table tool rec
    let unmapped := noteUnmapped (cwe.isNone && !decided) (unmappedOf tool ((nucleiTemplate rec).getD "?")
      (nucleiName rec) (some (String.intercalate "," (tags.map Json.pyStr))))
    let param ← paramOr (clean (rec.get "fuzzing_parameter")) (nucleiUrl rec)
    let found ← emit {
      tool := tool, url := nucleiUrl rec
      method := (normMethod (rec.get "fuzzing_method")).or
        (normMethod (((firstRequestMethod rec).map Json.str).getD .null))
      param := param, cwe := cwe, name := nucleiName rec
      severity := normSeverity ((dictOr (rec.get "info")).get "severity")
      confidence := if ((rec.get? "matcher-status").getD (.bool true)).truthy then some "high" else some "medium"
      rawRef := s!"{file}#L{lineno + 1}" }
    .ok (NormaliseResult.extend ⟨[], unmapped⟩ found)

/-- From the value on each line of the file, `none` for a line that is blank or not JSON. -/
def normaliseNuclei (lines : List (Option Json)) : Except Raised NormaliseResult :=
  forEach (fun lineno line => ofDict (nucleiRecord table tool file lineno) (line.getD .null)) lines

/-! ## wapiti -/

def wapitiLevels : List (String × String) :=
  [("0", "info"), ("1", "low"), ("2", "medium"), ("3", "high"), ("4", "critical")]

/-- `_wapiti_level` -/
def wapitiLevel : Json → Option String
  | .null => none
  | value => (wapitiLevels.lookup (lower (strip value.pyStr))).or (normSeverity (.str (lower (strip value.pyStr))))

/-- `_MITRE_CWE_RE` -/
def mitreAt (text : List Char) : Option (List Char × List Char) :=
  (cweAt (fun c => c = '.' || c = '-') "mitre.org/data/definitions/" text).or
    (cweAt (fun c => c = '-' || isSpace c || c = ':') "" text)

/-- The texts of the reference links. -/
def wapitiRefs (classification : Json) : List String :=
  match classification with
  | .obj fields =>
    match Obj.get fields "ref" with
    | .obj refs => refs.flatMap fun e => [e.1, e.2.pyStr]
    | _ => []
  | _ => []

/-- The numbers that the reference links mention, as they are written. -/
def refNumbers (classification : Json) : List (List Char) :=
  (wapitiRefs classification).flatMap fun text => findIter mitreAt text.toList.length text.toList

/-- `found.pop() if len(found) == 1 else None` -/
def onlyOne : List ℤ → Option ℤ
  | [n] => some n
  | _ => none

/-- `_wapiti_ref_cwe` -/
def wapitiRefCwe (classification : Json) : Except Raised (Option ℤ) :=
  ((refNumbers classification).mapM intOf).map fun found => onlyOne found.dedup

def wapitiCwe (classifications : Obj) (category : String) : Except Raised (Option ℤ) :=
  match table.lookup tool [some category] with
  | some rule => .ok rule.cwe
  | none => do
    match ← parseCwe (dig (.obj classifications) (category ++ ".cwe")) with
    | some n => .ok (some n)
    | none => wapitiRefCwe (classifications.get category)

def wapitiUrl (entry : Obj) : Option String := (clean (entry.get "path")).or (clean (entry.get "url"))

def wapitiEntry (claim : Claim) (entry : Obj) : Except Raised NormaliseResult := do
  let url := wapitiUrl entry
  let param ← paramOr (clean (entry.get "parameter")) url
  emit { claim with
    url := url, method := (normMethod (entry.get "method")).or (some "GET"), param := param
    severity := wapitiLevel (entry.get "level") }

def wapitiCategory (classifications : Obj) (e : String × Json) : Except Raised NormaliseResult :=
  match e.2 with
  | .arr entries => do
    if (table.lookup tool [some e.1]).any Rule.skip then .ok {}
    else
      let cwe ← wapitiCwe table tool classifications e.1
      let unmapped := noteUnmapped (cwe.isNone && (table.lookup tool [some e.1]).isNone && !entries.isEmpty)
        (unmappedOf tool e.1 (some e.1) none)
      let found ← forEach (fun ei => ofDict (wapitiEntry {
        tool := tool, url := none, method := none, param := none, cwe := cwe, name := clean (.str e.1)
        severity := none, confidence := none, rawRef := s!"{file}#vulnerabilities['{e.1}'][{ei}]" })) entries
      .ok (NormaliseResult.extend ⟨[], unmapped⟩ found)
  | _ => .ok {}

def normaliseWapiti (doc : Json) : Except Raised NormaliseResult :=
  match doc with
  | .obj fields =>
    match Obj.get fields "vulnerabilities" with
    | .obj vulns =>
      forEach (fun _ => wapitiCategory table tool file (dictOr (Obj.get fields "classifications"))) vulns
    | _ => .ok {}
  | _ => .ok {}

/-! ## nikto -/

/-- `_nikto_json_records`: the locator, the scan and the item of each record. -/
def niktoScanItems (si : ℕ) (scan : Obj) : Except Raised (List (String × Obj × Obj)) :=
  (elements (scan.get "vulnerabilities")).map fun items =>
    items.zipIdx.filterMap fun e => e.1.asObj?.map fun item =>
      (s!"{file}#[{si}].vulnerabilities[{e.2}]", scan, item)

def niktoScans : Json → List Json
  | .null => []
  | .arr scans => scans
  | scan => [scan]

def niktoScanRecords (si : ℕ) : Json → Except Raised (List (String × Obj × Obj))
  | .obj scan => niktoScanItems file si scan
  | _ => .ok []

def niktoJsonRecords (doc : Json) : Except Raised (List (String × Obj × Obj)) :=
  ((niktoScans doc).zipIdx.mapM fun e => niktoScanRecords file e.2 e.1).map List.flatten

/-- An element of the XML report, as `ElementTree` reads it. -/
inductive Element where
  | mk (tag : String) (attributes : List (String × String)) (text : Option String) (children : List Element)

namespace Element

/-- `get`, as the value of a dictionary. -/
def get : Element → String → Json
  | mk _ attributes _ _, name => ((attributes.lookup name).map Json.str).getD .null

/-- `findall` of a tag: the children that have it. -/
def findall : Element → String → List Element
  | mk _ _ _ children, name => children.filter fun | mk tag _ _ _ => tag = name

/-- `(findtext(tag) or "").strip()` -/
def childText (e : Element) (name : String) : Json :=
  match e.findall name with
  | mk _ _ text _ :: _ => .str (strip (text.getD ""))
  | [] => .str ""

mutual

/-- `iter` of a tag: the element and those inside it, in document order. -/
def iter (name : String) : Element → List Element
  | mk tag attributes text children =>
    (if tag = name then [mk tag attributes text children] else []) ++ iterAll name children

def iterAll (name : String) : List Element → List Element
  | [] => []
  | child :: children => iter name child ++ iterAll name children

end

end Element

/-- `_nikto_xml_records` -/
def niktoXmlRecords (root : Element) : List (String × Obj × Obj) :=
  (root.iter "scandetails").zipIdx.flatMap fun scan =>
    let host : Obj :=
      [("host", Json.orElse (scan.1.get "targethostname") (scan.1.get "targetip")), ("ip", scan.1.get "targetip"),
        ("port", scan.1.get "targetport"), ("banner", scan.1.get "targetbanner")]
    (scan.1.findall "item").zipIdx.map fun item =>
      (s!"{file}#scandetails[{scan.2}].item[{item.2}]", host,
        [("id", item.1.get "id"), ("osvdbid", item.1.get "osvdbid"), ("method", item.1.get "method"),
          ("uri", item.1.childText "uri"), ("msg", item.1.childText "description")])

/-- A report of nikto as it is read: by its suffix or its first byte it is XML, else it is JSON. -/
inductive NiktoFile where
  | json (doc : Json)
  | xml (root : Option Element)  -- `none` where `ElementTree` cannot parse it

/-- `_join_host` -/
def joinHost (host : Obj) (uri : Option String) : Option String :=
  if startsWith (uri.getD "") "http://" || startsWith (uri.getD "") "https://" then uri
  else
    match (clean (host.get "host")).or (clean (host.get "ip")) with
    | none => uri
    | some name =>
      let port := clean (host.get "port")
      let scheme := if port = some "443" then "https" else "http"
      let netloc := if port = none ∨ port = some "80" ∨ port = some "443" then name else name ++ ":" ++ port.getD ""
      some (scheme ++ "://" ++ netloc ++ uri.getD "/")

def niktoMsg (item : Obj) : Option String := (clean (item.get "msg")).or (clean (item.get "description"))

def niktoIdent (item : Obj) : Option String :=
  (clean (item.get "id")).or ((clean (item.get "OSVDB")).or (clean (item.get "osvdbid")))

def niktoRule (item : Obj) : Option Rule :=
  (table.lookup tool [niktoIdent item]).or (table.matching tool (niktoMsg item))

def niktoCwe (item : Obj) : Except Raised (Option ℤ) :=
  match niktoRule table tool item with
  | some rule => .ok rule.cwe
  | none => if table.useReferenceCwe tool then firstCweInText (clean (item.get "references")) else .ok none

def niktoUrl (host item : Obj) : Option String :=
  joinHost host ((clean (item.get "url")).or (clean (item.get "uri")))

def niktoRecord (r : String × Obj × Obj) : Except Raised NormaliseResult := do
  let (ref, host, item) := r
  if (niktoRule table tool item).any Rule.skip then .ok {}
  else
    let cwe ← niktoCwe table tool item
    let unmapped := noteUnmapped (cwe.isNone && (niktoRule table tool item).isNone)
      (unmappedOf tool ((niktoIdent item).getD "?") (niktoMsg item) (niktoMsg item))
    let param ← paramFromUrl (niktoUrl host item)
    let found ← emit {
      tool := tool, url := niktoUrl host item, method := (normMethod (item.get "method")).or (some "GET")
      param := param, cwe := cwe, name := niktoMsg item
      severity := (niktoRule table tool item).bind Rule.severity, confidence := none, rawRef := ref }
    .ok (NormaliseResult.extend ⟨[], unmapped⟩ found)

def niktoRecords : NiktoFile → Except Raised (List (String × Obj × Obj))
  | .json doc => niktoJsonRecords file doc
  | .xml root => .ok (root.elim [] (niktoXmlRecords file))

def normaliseNikto (report : NiktoFile) : Except Raised NormaliseResult := do
  let records ← niktoRecords file report
  forEach (fun _ => niktoRecord table tool) records

/-! ## skipfish -/

/-- `_skipfish_param` -/
def skipfishParam (extra : Json) (url : Option String) : Except Raised (Option String) :=
  match clean extra with
  | none => paramFromUrl url
  | some candidate =>
    if given url ∧ (candidate ++ "=").toList <:+: (url.getD "").toList then .ok (some candidate)
    else paramFromUrl url

def skipfishType (group : Obj) : Option String := clean (group.get "type")

def skipfishRule (group : Obj) : Option Rule := table.lookup tool [skipfishType group]

def skipfishName (group : Obj) : Option String :=
  let named := (skipfishRule table tool group).bind Rule.name
  if given named then named else (skipfishType group).map fun code => "skipfish issue type " ++ code

def skipfishSeverity (group : Obj) : Option String :=
  normSeverity ((((table.severityMap tool).get? (group.get "severity").pyStr).map Json.str).getD .null)

def skipfishSample (claim : Claim) (sample : Obj) : Except Raised NormaliseResult := do
  let url := clean (sample.get "url")
  let param ← skipfishParam (sample.get "extra") url
  emit { claim with url := url, param := param }

def skipfishGroup (gi : ℕ) (group : Obj) : Except Raised NormaliseResult := do
  let rule := skipfishRule table tool group
  if rule.any Rule.skip then .ok {}
  else
    let cwe := rule.bind Rule.cwe
    let unmapped := noteUnmapped rule.isNone (unmappedOf tool ((skipfishType group).getD "?")
      (skipfishName table tool group) none)
    let samples ← elements (group.get "samples")
    let found ← forEach (fun si => ofDict (skipfishSample {
      tool := tool, url := none, method := none, param := none, cwe := cwe
      name := skipfishName table tool group, severity := skipfishSeverity table tool group, confidence := none
      rawRef := s!"{file}#issue_samples[{gi}].samples[{si}]" })) samples
    .ok (NormaliseResult.extend ⟨[], unmapped⟩ found)

/-- From the assignments of the script, as `parse_js_assignments` reads them. -/
def normaliseSkipfish (doc : Obj) : Except Raised NormaliseResult :=
  match doc.get "issue_samples" with
  | .arr groups => forEach (fun gi => ofDict (skipfishGroup table tool file gi)) groups
  | _ => .ok {}

/-! ## generic JSON -/

def genericAliases : List (String × List String) :=
  [("url", ["url", "uri", "location", "target", "endpoint", "affected_url", "request_url"]),
    ("method", ["method", "http_method", "verb", "request_method"]),
    ("param", ["param", "parameter", "input", "field", "injection_point", "affected_input"]),
    ("cwe", ["cwe", "cwe_id", "cweid", "cwe-id", "cwes"]),
    ("name", ["name", "title", "issue", "vulnerability", "rule", "check", "template"]),
    ("severity", ["severity", "risk", "criticality", "impact", "level"]),
    ("confidence", ["confidence", "certainty"]),
    ("id", ["id", "finding_id", "issue_id", "ref", "uuid"])]

/-- `value not in (None, "")` -/
def present : Json → Option Json
  | .null => none
  | .str "" => none
  | value => some value

/-- `actual.lower().replace("-", "_")` -/
def flatKey (key : String) : String := mapChars (fun c => if c = '-' then '_' else c) (lower key)

/-- `_pick` -/
def pick (rec : Obj) (field : String) : Json :=
  (((genericAliases.lookup field).getD []).findSome? fun key =>
    ((rec.get? key).bind present).or
      (rec.findSome? fun e => if flatKey e.1 = key then present e.2 else none)).getD .null

def genericKeys : List String := ["findings", "results", "issues", "vulnerabilities", "items"]

def genericRecords : Json → List Json
  | .arr records => records
  | .obj fields =>
    (genericKeys.findSome? fun key =>
      match Obj.get fields key with
      | .arr records => some records
      | _ => none).getD [.obj fields]
  | _ => []

def genericRule (rec : Obj) : Option Rule :=
  table.lookup tool [clean (pick rec "id"), clean (pick rec "name")]

def genericCwe (rec : Obj) : Except Raised (Option ℤ) :=
  match genericRule table tool rec with
  | some rule => .ok rule.cwe
  | none => parseCwe (pick rec "cwe")

def genericRecord (ri : ℕ) (rec : Obj) : Except Raised NormaliseResult := do
  if (genericRule table tool rec).any Rule.skip then .ok {}
  else
    let cwe ← genericCwe table tool rec
    let unmapped := noteUnmapped (cwe.isNone && (genericRule table tool rec).isNone)
      (unmappedOf tool (((clean (pick rec "id")).or (clean (pick rec "name"))).getD "?") (clean (pick rec "name")) none)
    let url := clean (pick rec "url")
    let param ← paramOr (clean (pick rec "param")) url
    let found ← emit {
      tool := tool, url := url, method := normMethod (pick rec "method"), param := param, cwe := cwe
      name := clean (pick rec "name"), severity := normSeverity (pick rec "severity")
      confidence := normConfidence (pick rec "confidence"), rawRef := s!"{file}#[{ri}]" }
    .ok (NormaliseResult.extend ⟨[], unmapped⟩ found)

def normaliseGenericJson (doc : Json) : Except Raised NormaliseResult :=
  forEach (fun ri => ofDict (genericRecord table tool file ri)) (genericRecords doc)

/-! ## SARIF -/

/-- `(a or []) + (b or [])`, run over. -/
def concatenated (a b : Json) : Except Raised (List Json) :=
  match Json.orElse a (.arr []), Json.orElse b (.arr []) with
  | .arr xs, .arr ys => .ok (xs ++ ys)
  | .str s, .str t => .ok ((s.toList ++ t.toList).map fun c => .str (String.singleton c))
  | _, _ => .error .typeError

/-- `(x or {}).get("rules") or []`, run over. -/
def rulesOf (x : Json) : Except Raised (List Json) :=
  match Json.orElse x (.obj []) with
  | .obj fields => elements (Obj.get fields "rules")
  | _ => .error .attributeError

/-- The rules with an identifier, under its text. -/
def identified (rules : List Json) : List (String × Obj) :=
  rules.filterMap fun rule => rule.asObj?.bind fun fields =>
    if (fields.get "id").truthy then some ((fields.get "id").pyStr, fields) else none

/-- `_sarif_rules`: the driver's rules overwrite one another, the extensions' give way. -/
def sarifRules (run : Obj) : Except Raised (Dict String Obj) := do
  let driver ← rulesOf (dig (.obj run) "tool.driver")
  let extensions ← elements (dig (.obj run) "tool.extensions")
  let extra ← extensions.mapM rulesOf
  .ok ((extra.flatMap identified).foldl (fun d e => d.setdefault e.1 e.2) (Dict.ofList (identified driver)))

/-- The tags that one taxon adds. -/
def taxonTags (taxon : Json) : List Json :=
  match taxon with
  | .obj fields =>
    match Obj.get fields "target" with
    | .obj target => [Obj.get target "id", Obj.get target "name"]
    | _ => [Obj.get fields "id"]
  | _ => []

/-- A list value, `[]` for anything else. -/
def listOr (x : Json) : List Json :=
  match x with
  | .arr items => items
  | _ => []

/-- The digits of `_SARIF_TAG_RE` in the first tag where it is found. -/
def tagNumber (tags : List Json) : Option (List Char) :=
  tags.findSome? fun tag =>
    match tag with
    | .null => none
    | tag => search (cweAt cweSeparator "") tag.pyStr.toList

/-- The loop over the tags of `_sarif_cwe`. -/
def sarifTagCwe (result ruleMeta : Obj) : Except Raised (Option ℤ) := do
  let taxa ← concatenated (result.get "taxa") (ruleMeta.get "relationships")
  let tags := listOr (dig (.obj ruleMeta) "properties.tags") ++ listOr (dig (.obj result) "properties.tags")
  match tagNumber (tags ++ taxa.flatMap taxonTags) with
  | none => .ok none
  | some digits => (intOf digits).map some

/-- `_sarif_cwe` -/
def sarifCwe (result ruleMeta : Obj) : Except Raised (Option ℤ) := do
  match ← parseCwe (dig (.obj result) "properties.cwe") with
  | some n => .ok (some n)
  | none =>
    match ← parseCwe (dig (.obj ruleMeta) "properties.cwe") with
    | some n => .ok (some n)
    | none => sarifTagCwe result ruleMeta

/-- The least integer that `float` refuses. -/
def floatLimit : ℤ := 2 ^ 1024 - 2 ^ 970

/-- `float(raw)`, `none` where it raises what is caught. -/
def floatOf : Json → Except Raised (Option Score)
  | .int n => if |n| < floatLimit then .ok (some (.finite n)) else .error .overflowError
  | .bool b => .ok (some (.finite (if b then 1 else 0)))
  | .float f => .ok (float (String.ofList f.text))
  | .nan => .ok (some .nan)
  | .infinity neg => .ok (some (.infinity neg))
  | .str s => .ok (float s)
  | _ => .ok none

/-- The severity of a score; with NaN every comparison is false. -/
def scoreSeverity : Score → String
  | .nan => "info"
  | .infinity neg => if neg then "info" else "critical"
  | .finite q => if 9 ≤ q then "critical" else if 7 ≤ q then "high" else if 4 ≤ q then "medium"
    else if 0 < q then "low" else "info"

/-- The value that `_sarif_severity` makes a float of. -/
def sarifScore (result ruleMeta : Obj) : Json :=
  Json.orElse (dig (.obj result) "properties.security-severity") (dig (.obj ruleMeta) "properties.security-severity")

/-- `_sarif_severity` -/
def sarifSeverity (result ruleMeta : Obj) : Except Raised (Option String) :=
  (floatOf (sarifScore result ruleMeta)).map fun score =>
    match score with
    | some score => some (scoreSeverity score)
    | none => (normSeverity (result.get "level")).or (normSeverity (dig (.obj ruleMeta) "defaultConfiguration.level"))

/-- The URL of the first location with a truthy URI. -/
def locationUrl (locations : List Json) : Option String :=
  (locations.findSome? fun loc =>
    if (dig loc "physicalLocation.artifactLocation.uri").truthy then
      some (clean (dig loc "physicalLocation.artifactLocation.uri"))
    else none).join

def sarifRequest (result : Obj) : Obj := dictOr (result.get "webRequest")

/-- The URL of `_sarif_location`. -/
def sarifUrl (result : Obj) : Except Raised (Option String) :=
  match clean ((sarifRequest result).get "target") with
  | some url => .ok (some url)
  | none => (elements (result.get "locations")).map locationUrl

/-- The parameter of `_sarif_location`. -/
def sarifParam (result : Obj) : Option String :=
  match (sarifRequest result).get "parameters" with
  | .obj [(name, _)] => clean (.str name)
  | _ => none

def sarifRuleId (result : Obj) : Option String := clean (result.get "ruleId")

def sarifMeta (rules : Dict String Obj) (result : Obj) : Obj := rules.getD ((sarifRuleId result).getD "") []

def sarifName (result ruleMeta : Obj) : Option String :=
  (clean (dig (.obj result) "message.text")).or ((clean (dig (.obj ruleMeta) "shortDescription.text")).or
    ((clean (ruleMeta.get "name")).or (sarifRuleId result)))

def sarifOwnCwe (result ruleMeta : Obj) : Except Raised (Option ℤ) :=
  match table.lookup tool [sarifRuleId result] with
  | some rule => .ok rule.cwe
  | none => sarifCwe result ruleMeta

def sarifResult (rules : Dict String Obj) (ri si : ℕ) (result : Obj) : Except Raised NormaliseResult := do
  let ruleMeta := sarifMeta rules result
  let cwe ← sarifOwnCwe table tool result ruleMeta
  let unmapped := noteUnmapped (cwe.isNone && (table.lookup tool [sarifRuleId result]).isNone)
    (unmappedOf tool ((sarifRuleId result).getD "?") (sarifName result ruleMeta) none)
  let url ← sarifUrl result
  let param ← paramOr (sarifParam result) url
  let severity ← sarifSeverity result ruleMeta
  let found ← emit {
    tool := tool, url := url, method := normMethod ((sarifRequest result).get "method"), param := param, cwe := cwe
    name := sarifName result ruleMeta, severity := severity
    confidence := normConfidence (dig (.obj result) "properties.confidence")
    rawRef := s!"{file}#runs[{ri}].results[{si}]" }
  .ok (NormaliseResult.extend ⟨[], unmapped⟩ found)

def sarifRun (ri : ℕ) (run : Obj) : Except Raised NormaliseResult := do
  let rules ← sarifRules run
  let results ← elements (run.get "results")
  forEach (fun si => ofDict (sarifResult table tool file rules ri si)) results

def normaliseSarif (doc : Obj) : Except Raised NormaliseResult := do
  let runs ← elements (doc.get "runs")
  forEach (fun ri => ofDict (sarifRun table tool file ri)) runs

/-! ## Dispatch -/

def isSarif (doc : Obj) : Bool := doc.contains "runs" && (doc.contains "$schema" || doc.contains "version")

def normaliseGeneric (doc : Json) : Except Raised NormaliseResult :=
  match doc with
  | .obj fields =>
    if isSarif fields then normaliseSarif table tool file fields else normaliseGenericJson table tool file doc
  | doc => normaliseGenericJson table tool file doc

/-- A report, by the parser it goes to. -/
inductive Report where
  | zap (doc : Json)
  | nuclei (lines : List (Option Json))
  | wapiti (doc : Json)
  | nikto (report : NiktoFile)
  | skipfish (doc : Obj)
  | generic (doc : Json)

/-- `normalise` -/
def normalise : Report → Except Raised NormaliseResult
  | .zap doc => normaliseZap table tool file doc
  | .nuclei lines => normaliseNuclei table tool file lines
  | .wapiti doc => normaliseWapiti table tool file doc
  | .nikto report => normaliseNikto table tool file report
  | .skipfish doc => normaliseSkipfish table tool file doc
  | .generic doc => normaliseGeneric table tool file doc

/-! ## Reading -/

mutual

/-- `json.loads` takes a document unless it holds an integer of more than 4300 digits, which `int` refuses. -/
def loadable : Json → Bool
  | .int n => n.natAbs < 10 ^ 4300
  | .arr items => loadableItems items
  | .obj fields => loadableFields fields
  | _ => true

def loadableItems : List Json → Bool
  | [] => true
  | item :: items => loadable item && loadableItems items

def loadableFields : Obj → Bool
  | [] => true
  | (_, value) :: fields => loadable value && loadableFields fields

end

/-- The documents of a report are all read.  A line or an assignment that is no JSON is `none` or absent here. -/
def Report.loadable : Report → Bool
  | .zap doc => Normalise.loadable doc
  | .nuclei lines => lines.all fun line => line.all Normalise.loadable
  | .wapiti doc => Normalise.loadable doc
  | .nikto (.json doc) => Normalise.loadable doc
  | .nikto (.xml _) => true
  | .skipfish doc => loadableFields doc
  | .generic doc => Normalise.loadable doc

end PtaasBench.Runners.Normalise
