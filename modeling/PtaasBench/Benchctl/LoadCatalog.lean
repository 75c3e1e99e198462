import PtaasBench.Benchctl.Chains
import PtaasBench.Benchctl.Quarantine
import PtaasBench.Benchctl.PrereqCycles

/-!
# PtaasBench.Benchctl.LoadCatalog — loading the ground truth (`catalog.load_catalog`)

The files come parsed and checked against the schema, the taxonomy and the roadmap come loaded.  What is kept of a
file is its entry; every other finding is an issue, and `bench validate` passes a catalog with no error among them.
-/

namespace PtaasBench.Benchctl

open Py

inductive Level where
  | error
  | warning
deriving DecidableEq

/-- One integrity problem found while loading the catalog. -/
structure Issue where
  level : Level
  code : String
  message : String
  vulnId : Option String := none
  source : Option String := none
deriving DecidableEq

structure ClassSpec where
  family : Option String := none
  severity : Option String := none
  owasp : List (String × String) := []

structure Taxonomy where
  editions : List String := []
  classes : Dict String ClassSpec := Dict.empty

abbrev Roadmap := Dict String Obj

/-- An entry the schema accepts. -/
structure RawVuln where
  id : String
  app : String
  cls : String
  component : Option String := none
  severity : Option String := none
  owasp : List (String × String) := []
  method : String
  path : String
  auth : Option String := none
  param : Option String := none
  paramIn : Option String := none
  defaultValue : Option String := none
  discovery : Discovery := {}
  kind : String
  canaryToken : Option String := none
  signal : Option String := none
  requiresPrereq : List String := []

/-- What is read of one file. -/
inductive CatalogFile where
  | unparsed (error : String)
  | unshaped
  | invalid (id : Option String) (first : String × String) (rest : List (String × String))
  | entry (raw : RawVuln)

section Load

variable [Runtime] (isAlnum : Char → Bool) (taxonomy : Taxonomy) (roadmap : Roadmap)

/-- `_alnum` -/
def alnum (s : String) : String := String.ofList ((casefold s).toList.filter isAlnum)

/-- `Roadmap.prefix_for` -/
def Roadmap.prefixFor (roadmap : Roadmap) (app : String) : Option String :=
  (Dict.get? roadmap app).bind fun entry =>
    if (entry.get "prefix").truthy then some (entry.get "prefix").pyStr else none

/-- `Roadmap.app_for_prefix` -/
def Roadmap.appForPrefix (roadmap : Roadmap) (code : String) : Option String :=
  (roadmap.items.find? fun e =>
    upper (if e.2.contains "prefix" then (e.2.get "prefix").pyStr else "") = upper code).map Prod.fst

/-- `vid.split("-")[1]` of an id with two hyphens or more. -/
def idCode (vid : String) : String :=
  match splitChar '-' vid with
  | _ :: code :: _ :: _ => code
  | _ => ""

/-- The id against its app, and the apps known by their prefix. -/
def checkCode (known : Dict String String) (raw : RawVuln) (source : String) : List Issue × Dict String String :=
  let code := idCode raw.id
  let issue (level : Level) (kind message : String) : Issue := ⟨level, kind, message, some raw.id, some source⟩
  let expected := if raw.app = "" then none else roadmap.prefixFor raw.app
  if code ≠ "" ∧ given expected = true then
    (if upper code ≠ upper (expected.getD "") then
      [issue .error "id-app-mismatch" ("id prefix " ++ Runtime.reprStr code ++ " disagrees with app " ++ Runtime.reprStr raw.app ++
        ", which the roadmap assigns BENCH-" ++ expected.getD "" ++ "-")] else [], known)
  else if code ≠ "" ∧ raw.app ≠ "" then
    let owner := roadmap.appForPrefix code
    let undeclared := if roadmap.items = [] then []
      else [issue .warning "app-not-in-roadmap" ("app " ++ Runtime.reprStr raw.app ++ " is not declared in " ++
        "catalog/roadmap.yaml, so its id prefix cannot be verified against the build plan")]
    if given owner = true ∧ owner ≠ some raw.app then
      (undeclared ++ [issue .error "id-prefix-collision" ("prefix " ++ Runtime.reprStr code ++ " is assigned to app " ++
        Runtime.reprStr (owner.getD "") ++ " by the roadmap")], known)
    else if !startsWith (alnum isAlnum raw.app) (alnum isAlnum code) then
      (undeclared ++ [issue .warning "id-app-mismatch-unverified" ("id prefix " ++ Runtime.reprStr code ++
        " does not look like app " ++ Runtime.reprStr raw.app ++ ", but the app is absent from the roadmap so this is a " ++
        "derivation, not a verified mismatch")], known)
    else
      let known := known.setdefault code raw.app
      (undeclared ++ (if known.getD code raw.app = raw.app then [] else
        [issue .error "id-prefix-collision" ("prefix " ++ Runtime.reprStr code ++ " is already used by app " ++
          Runtime.reprStr (known.getD code raw.app))]), known)
  else ([], known)

/-- `_build_vuln`, with the defaults `_resolve` takes from the class. -/
def buildVuln (raw : RawVuln) (spec : ClassSpec) : Vuln where
  id := raw.id
  app := raw.app
  component := raw.component.getD "api"
  cls := raw.cls
  family := spec.family
  owasp := Dict.ofList (spec.owasp ++ raw.owasp)
  severity := textOr (some (textOr raw.severity (spec.severity.getD ""))) "info"
  entrypoint :=
    { method := upper raw.method
      path := raw.path
      auth := raw.auth.getD "none"
      param := raw.param
      paramIn := raw.paramIn.getD "query"
      defaultValue := raw.defaultValue }
  discovery := raw.discovery
  oracle := { kind := raw.kind, canaryToken := raw.canaryToken, signal := raw.signal }
  requiresPrereq := raw.requiresPrereq

omit [Runtime] in
/-- The value of an identifying field, if it is set and not empty. -/
def setText (x : Option String) : Option String := if given x then x else none

/-- A canary token is claimed once. -/
def checkToken (tokens : Dict String String) (v : Vuln) (source : String) : List Issue × Dict String String :=
  match setText v.oracle.canaryToken with
  | none => ([], tokens)
  | some token =>
    match tokens.get? token with
    | some other => ([⟨.error, "duplicate-canary-token", "canary token " ++ Runtime.reprStr token ++ " is already used by " ++
        other ++ "; an OOB callback could not be attributed", some v.id, some source⟩], tokens)
    | none => ([], tokens.set token v.id)

/-- A signal is claimed once; an entry without one is warned about. -/
def checkSignal (signals : Dict String (String × String)) (v : Vuln) (source : String) :
    List Issue × Dict String (String × String) :=
  match setText v.oracle.signal with
  | some signal =>
    match signals.get? signal with
    | some other => ([⟨.error, "duplicate-signal", "signal " ++ Runtime.reprStr signal ++ " is already emitted by " ++ other.1 ++
        " (app " ++ Runtime.reprStr other.2 ++ "); signals are unique corpus-wide, and two entries sharing one would " ++
        "split the credit for a single planted flaw between them", some v.id, some source⟩], signals)
    | none => ([], signals.set signal (v.id, v.app))
  | none =>
    if v.oracle.kind ≠ "oob" then
      ([⟨.warning, "signal-missing", "oracle.kind is " ++ Runtime.reprStr v.oracle.kind ++ " but no signal is declared; " ++
        "nothing the target may legitimately emit maps back to this entry (a target must never emit a catalog " ++
        "id), so no tool can be credited for it", some v.id, some source⟩], signals)
    else if given v.oracle.canaryToken then ([], signals)
    else
      ([⟨.warning, "oob-unattributable", "out-of-band oracle declares neither a signal nor a canary_token; " ++
        "callbacks can only be attributed by the low-confidence (container, time-window) fallback and will " ++
        "never count towards headline trigger recall", some v.id, some source⟩], signals)

/-- The loop's state: every entry kept has the id it is seen under. -/
structure Loading where
  vulns : List Vuln := []
  issues : List Issue
  seenIds : Dict String (String × String) := Dict.empty
  prefixToApp : Dict String String := Dict.empty
  entrypoints : Dict (String × String × String) (List String) := Dict.empty
  tokens : Dict String String := Dict.empty
  signals : Dict String (String × String) := Dict.empty
  ids : vulns.map Vuln.id = seenIds.keys

/-- One entry whose id is new. -/
def Loading.add (st : Loading) (source : String) (raw : RawVuln) (h : raw.id ∉ st.seenIds.keys) : Loading :=
  let spec := taxonomy.classes.get? raw.cls
  let v := buildVuln raw (spec.getD {})
  let unknown := if spec.isSome then [] else
    [⟨.error, "unknown-class", "class " ++ Runtime.reprStr raw.cls ++ " is not defined in taxonomy.yaml", some raw.id,
      some source⟩]
  let code := checkCode isAlnum roadmap st.prefixToApp raw source
  let token := checkToken st.tokens v source
  let signal := checkSignal st.signals v source
  let key := (v.app, v.entrypoint.method, normalizeRoute v.entrypoint.path)
  { vulns := st.vulns ++ [v]
    issues := st.issues ++ (unknown ++ code.1 ++ token.1 ++ signal.1)
    seenIds := st.seenIds.set raw.id (source, raw.app)
    prefixToApp := code.2
    entrypoints := st.entrypoints.set key (st.entrypoints.getD key [] ++ [raw.id])
    tokens := token.2
    signals := signal.2
    ids := by
      rw [List.map_append, st.ids, Dict.keys, Dict.keys, Dict.items_set_of_notMem h, List.map_append]
      rfl }

/-- One file. -/
def loadFile (st : Loading) (file : String × CatalogFile) : Loading :=
  let report (found : List Issue) : Loading := { st with issues := st.issues ++ found }
  match file.2 with
  | .unparsed error => report [⟨.error, "yaml-parse", error, none, some file.1⟩]
  | .unshaped => report [⟨.error, "yaml-shape", "file is not a mapping", none, some file.1⟩]
  | .invalid id first rest => report ((first :: rest).map fun e =>
      ⟨.error, "schema", (if e.1 = "" then "<root>" else e.1) ++ ": " ++ e.2, id, some file.1⟩)
  | .entry raw =>
    if h : raw.id ∈ st.seenIds.keys then
      let other := (st.seenIds.get? raw.id).getD ("", "")
      report [⟨.error, "duplicate-id", "id already defined for app " ++ Runtime.reprStr other.2 ++ " in " ++ other.1 ++
        "; two entries under one id would silently share a single score", some raw.id, some file.1⟩]
    else st.add isAlnum taxonomy roadmap file.1 raw h

omit [Runtime] in
theorem Loading.nodup (st : Loading) : (st.vulns.map Vuln.id).Nodup := by
  rw [st.ids]
  exact st.seenIds.nodup

omit [Runtime] in
def Loading.catalog (st : Loading) (editions : List String) : Catalog where
  vulns := st.vulns
  editions := editions
  ids_nodup := st.nodup

/-- The prerequisites nobody has. -/
def unknownPrereqs (st : Loading) : List Issue :=
  st.vulns.flatMap fun v => (v.requiresPrereq.filter (· ∉ st.vulns.map Vuln.id)).map fun prereq =>
    ⟨.error, "unknown-prereq", "requires_prereq references unknown id " ++ Runtime.reprStr prereq, some v.id,
      (st.seenIds.get? v.id).map Prod.fst⟩

omit [Runtime] in
def prereqCycles (c : Catalog) : List Issue :=
  (cycleIds c).map fun id =>
    ⟨.error, "prereq-cycle", "requires_prereq forms a cycle, chain depth is undefined", some id, none⟩

omit [Runtime] in
/-- The order of `sorted(entrypoints.items())`, whose keys all differ. -/
def entrypointLe (a b : (String × String × String) × List String) : Bool :=
  decide (a.1.1 < b.1.1) || (a.1.1 = b.1.1 && (decide (a.1.2.1 < b.1.2.1) ||
    (a.1.2.1 = b.1.2.1 && decide (a.1.2.2 ≤ b.1.2.2))))

omit [Runtime] in
/-- The entry points that carry more than one flaw. -/
def sharedEntrypoints (st : Loading) : List Issue :=
  ((st.entrypoints.items.insertionSort (entrypointLe · ·)).filter (1 < ·.2.length)).map fun e =>
    let ids := e.2.insertionSort (· ≤ ·)
    ⟨.warning, "shared-entrypoint", e.1.2.1 ++ " " ++ e.1.2.2 ++ " on " ++ e.1.1 ++ " is shared by " ++
      String.intercalate ", " ids ++ "; their reach scores are perfectly correlated", ids.head?, none⟩

/-- The catalog, with what was found in it. -/
structure LoadedCatalog where
  catalog : Catalog
  issues : List Issue

omit [Runtime] in
/-- `Catalog.errors` -/
def LoadedCatalog.errors (c : LoadedCatalog) : List Issue := c.issues.filter (·.level = .error)

/-- `load_catalog`, from what loading the taxonomy and the roadmap has found and the files in path order. -/
def loadCatalog (before : List Issue) (files : List (String × CatalogFile)) : LoadedCatalog :=
  let st := files.foldl (loadFile isAlnum taxonomy roadmap) { issues := before, ids := rfl }
  let catalog := st.catalog taxonomy.editions
  { catalog := catalog
    issues := st.issues ++ unknownPrereqs st ++ prereqCycles catalog ++ sharedEntrypoints st }

end Load

end PtaasBench.Benchctl
