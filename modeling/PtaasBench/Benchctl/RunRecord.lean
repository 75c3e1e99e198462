import Mathlib.Data.List.Sort
import PtaasBench.Py.Dict
import PtaasBench.Benchctl.Events

/-!
# PtaasBench.Benchctl.RunRecord — the run record as the scorer reads it (`events.py`)

`normalize_run_record` accepts several spellings of each part of the record; the last source of an
app's state digests wins.  A value on which the source raises is read as absent.
-/

namespace PtaasBench.Benchctl

open Py

def containerMapKeys : List String :=
  ["addresses", "target_topology", "containers", "container_map", "target_containers", "targets_map"]

def imageMapKeys : List String := ["images", "image_digests"]

def resetMapKeys : List String := ["reset", "reset_digests", "state_digests"]

/-- `isinstance(x, Mapping) and x` -/
def nonEmptyMap? : Json → Option Obj
  | .obj (e :: es) => some (e :: es)
  | _ => none

/-- `iter(x or [])` -/
def iterate : Json → List Json
  | .arr xs => xs
  | .obj fs => fs.map fun e => .str e.1
  | .str s => s.toList.map fun c => .str (String.singleton c)
  | _ => []

structure ContainerService where
  service : Option String
  containerId : Option String
  imageDigest : Option String

structure Container where
  service : Option String
  containerId : Option String
  addresses : List String
  imageDigest : Option String
  services : List ContainerService
  resetDigestBefore : Option String
  resetDigestAfter : Option String

/-- The digests of one app; `matched` is `none` when one side is missing. -/
structure ResetDigests where
  before : Option String
  after : Option String
  matched : Option Bool
  ok : Option Bool
deriving DecidableEq

structure ScanMode where
  mode : Option String
  active : Option Bool
  reason : Option String

structure Requests where
  total : Json
  byApp : Obj
  countedBy : Option String

structure RunRecord where
  containers : Dict String Container
  images : Dict String String
  toolImage : Option String
  toolImageDigest : Option String
  resetDigests : Dict String ResetDigests
  resetConsistent : Option Bool
  scanMode : Option ScanMode
  caveats : List String
  requests : Option Requests

def RunRecord.containerMapAvailable (r : RunRecord) : Bool := !r.containers.items.isEmpty

section Record

variable [Runtime]

/-- `_as_str` -/
def asStr : Json → Option String
  | .null => none
  | .str "" => none
  | x => some x.pyStr

/-- `None if x is None else bool(x)` -/
def asFlag : Json → Option Bool
  | .null => none
  | x => some x.truthy

/-- The addresses of one service, each a mapping or plain. -/
def serviceAddresses (service : Obj) : List String :=
  (iterate (service.get "addresses")).filterMap fun address =>
    let ip := match address.asObj? with
      | some fs => (fs.get "ip").orElse (fs.get "address")
      | none => address
    if ip.truthy then some ip.pyStr else none

/-- One entry of the container map. -/
def containerOf (entry : Obj) : Container :=
  let services := (iterate (entry.get "services")).filterMap Json.asObj?
  let first (k : String) : Option String := services.head?.bind fun s => asStr (s.get k)
  { service := (asStr (entry.get "service")).or (first "service")
    containerId := (asStr ((entry.get "container_id").orElse (entry.get "id"))).or (first "container_id")
    addresses :=
      fromKeys ((iterate ((entry.get "addresses").orElse (entry.get "ips"))).map Json.pyStr ++
        services.flatMap serviceAddresses)
    imageDigest :=
      (asStr ((entry.get "image_digest").orElse (entry.get "image"))).or (first "image_digest")
    services := services.map fun x =>
      { service := asStr ((x.get "service").orElse (x.get "container_name"))
        containerId := asStr (x.get "container_id")
        imageDigest := asStr ((x.get "image_digest").orElse (x.get "image")) }
    resetDigestBefore := asStr (entry.get "reset_digest_before")
    resetDigestAfter := asStr (entry.get "reset_digest_after") }

/-- The container map: the first of its spellings that is a mapping with something in it. -/
def containersOf (raw : Obj) : Dict String Container :=
  let rawMap := (containerMapKeys.findSome? fun key => nonEmptyMap? (raw.get key)).getD []
  Dict.ofList (rawMap.filterMap fun e => e.2.asObj?.map fun entry => (e.1, containerOf entry))

/-- `dict(sorted(d.items()))` -/
def sortedDict {ν : Type} (d : Dict String ν) : Dict String ν :=
  ⟨d.items.insertionSort fun a b => a.1 ≤ b.1,
    ((List.perm_insertionSort _ _).map Prod.fst).nodup_iff.mpr d.nodup⟩

def imagesOf (raw : Obj) (containers : Dict String Container) : Dict String String :=
  let declared := imageMapKeys.flatMap fun key =>
    (((raw.get key).asObj?).getD []).filterMap fun e =>
      if e.2.truthy then some (e.1, e.2.pyStr) else none
  let running := containers.items.filterMap fun e =>
    if given e.2.imageDigest then e.2.imageDigest.map fun d => (e.1, d) else none
  (Dict.ofList declared).addAll running

/-- `_record` -/
def recordDigests (reset : Dict String ResetDigests) (app : String) (before after ok : Json) :
    Dict String ResetDigests :=
  match asStr before, asStr after, ok with
  | none, none, .null => reset
  | b, a, ok =>
    reset.set app
      { before := b
        after := a
        matched := if given b && given a then some (decide (b = a)) else none
        ok := asFlag ok }

/-- One entry of the list the harness writes: the digest read after the reset, and the reference. -/
def recordOutcome (reset : Dict String ResetDigests) (entry : Json) : Dict String ResetDigests :=
  match entry.asObj? with
  | some fs =>
    if (fs.get "app").truthy then
      recordDigests reset (fs.get "app").pyStr ((fs.get "reference_digest").orElse (fs.get "before"))
        ((fs.get "state_digest").orElse (fs.get "after")) (fs.get "ok")
    else reset
  | none => reset

/-- What the record has under one of `_RESET_MAP_KEYS`. -/
def recordSource (reset : Dict String ResetDigests) (candidate : Json) : Dict String ResetDigests :=
  match candidate with
  | .arr entries => entries.foldl recordOutcome reset
  | x =>
    match x.asObj? with
    | some fs =>
      if fs.contains "before" || fs.contains "after" then
        recordDigests reset "*" (fs.get "before") (fs.get "after") .null
      else
        fs.foldl (fun reset e =>
          match e.2.asObj? with
          | some d => recordDigests reset e.1 (d.get "before") (d.get "after") (d.get "ok")
          | none => reset) reset
    | none => reset

def resetDigestsOf (raw : Obj) (containers : Dict String Container) : Dict String ResetDigests :=
  let reset := resetMapKeys.foldl (fun reset key => recordSource reset (raw.get key)) Dict.empty
  let reset := recordDigests reset "*" (raw.get "reset_digest_before") (raw.get "reset_digest_after") .null
  containers.items.foldl (fun reset e =>
    recordDigests reset e.1 (e.2.resetDigestBefore.elim .null .str)
      (e.2.resetDigestAfter.elim .null .str) .null) reset

/-- The comparisons there are; without one, what the reset said of itself. -/
def resetMatches (reset : Dict String ResetDigests) : List Bool :=
  reset.items.filterMap (·.2.matched) ++
    reset.items.filterMap fun e => if e.2.matched = none then e.2.ok else none

def scanModeOf (rawMode : Json) : Option ScanMode :=
  match rawMode.asObj? with
  | some fs =>
    some { mode := asStr (fs.get "mode"), active := asFlag (fs.get "active")
           reason := asStr (fs.get "reason") }
  | none =>
    if rawMode.truthy then some { mode := asStr rawMode, active := none, reason := none } else none

def requestsOf (raw : Obj) : Option Requests :=
  match (raw.get "requests").asObj? with
  | some fs =>
    some { total := fs.get "total", byApp := (fs.get "by_app").asObj?.getD []
           countedBy := asStr (fs.get "counted_by") }
  | none =>
    match raw.get "requests_observed" with
    | .null => none
    | total => some { total := total, byApp := [], countedBy := none }

def normalizeRunRecord (raw : Obj) : RunRecord :=
  let containers := containersOf raw
  let reset := resetDigestsOf raw containers
  { containers := containers
    images := sortedDict (imagesOf raw containers)
    toolImage := asStr (raw.get "image")
    toolImageDigest := asStr (raw.get "image_digest")
    resetDigests := sortedDict reset
    resetConsistent := if resetMatches reset = [] then none else some ((resetMatches reset).all id)
    scanMode := scanModeOf (raw.get "scan_mode")
    caveats := ((iterate (raw.get "caveats")).filter Json.truthy).map Json.pyStr
    requests := requestsOf raw }

/-- The fields of the record that are read. -/
def recordKeys : List String :=
  containerMapKeys ++ imageMapKeys ++ resetMapKeys ++
    ["reset_digest_before", "reset_digest_after", "scan_mode", "caveats", "requests",
      "requests_observed", "image", "image_digest"]

theorem normalizeRunRecord_congr {raw raw' : Obj} (h : ∀ k ∈ recordKeys, raw.get k = raw'.get k) :
    normalizeRunRecord raw = normalizeRunRecord raw' := by
  have hcontainers : containersOf raw = containersOf raw' := by
    simp (disch := decide) only [containersOf, containerMapKeys, List.findSome?_cons,
      List.findSome?_nil, h]
  have himages (c : Dict String Container) : imagesOf raw c = imagesOf raw' c := by
    simp (disch := decide) only [imagesOf, imageMapKeys, List.flatMap_cons, List.flatMap_nil, h]
  have hreset (c : Dict String Container) : resetDigestsOf raw c = resetDigestsOf raw' c := by
    simp (disch := decide) only [resetDigestsOf, resetMapKeys, List.foldl_cons, List.foldl_nil, h]
  have hrequests : requestsOf raw = requestsOf raw' := by
    simp (disch := decide) only [requestsOf, h]
  simp (disch := decide) only [normalizeRunRecord, hcontainers, himages, hreset, hrequests, h]

/-! ## Which digests are a mismatch -/

/-- No app is said to have differed, nor to have failed its reset. -/
def AllClean (reset : Dict String ResetDigests) : Prop :=
  ∀ e ∈ reset.items, e.2.matched ≠ some false ∧ e.2.ok ≠ some false

omit [Runtime] in
theorem AllClean.set {reset : Dict String ResetDigests} (h : AllClean reset) {app : String}
    {digests : ResetDigests} (hm : digests.matched ≠ some false) (hok : digests.ok ≠ some false) :
    AllClean (reset.set app digests) := by
  intro e he
  rcases Dict.mem_values_set (List.mem_map.mpr ⟨e, he, rfl⟩) with hold | hnew
  · obtain ⟨e', he', heq⟩ := List.mem_map.mp hold
    rw [← heq]
    exact h e' he'
  · rw [hnew]
    exact ⟨hm, hok⟩

/-- Recording digests that do not differ, of a reset that did not fail. -/
theorem AllClean.recordDigests {reset : Dict String ResetDigests} (h : AllClean reset) (app : String)
    {before after ok : Json} (hsame : ∀ b ∈ asStr before, ∀ a ∈ asStr after, b = a)
    (hok : asFlag ok ≠ some false) : AllClean (recordDigests reset app before after ok) := by
  have hmatched : (if given (asStr before) && given (asStr after) then
      some (decide (asStr before = asStr after)) else none) ≠ some false := by
    cases hb : asStr before with
    | none => simp [given]
    | some b =>
      cases ha : asStr after with
      | none => simp [given]
      | some a =>
        have hba : b = a := hsame b hb a ha
        split_ifs
        · simp [hba]
        · simp
  unfold Benchctl.recordDigests
  split
  · exact h
  · exact h.set hmatched hok

omit [Runtime] in
theorem AllClean.resetMatches {reset : Dict String ResetDigests} (h : AllClean reset) :
    ∀ b ∈ resetMatches reset, b = true := by
  intro b hb
  rcases List.mem_append.mp hb with hb | hb
  · obtain ⟨e, he, hm⟩ := List.mem_filterMap.mp hb
    cases b with
    | true => rfl
    | false => exact absurd hm (h e he).1
  · obtain ⟨e, he, hm⟩ := List.mem_filterMap.mp hb
    split_ifs at hm
    cases b with
    | true => rfl
    | false => exact absurd hm (h e he).2

/-- Every address, container id and service name of a target, with its app. -/
def addressIndex (containers : Dict String Container) : Dict String String :=
  containers.items.foldl (fun index e =>
    let names := e.2.addresses ++ (e.2.containerId.toList ++ e.2.service.toList).filter (· ≠ "")
    (names.foldl (fun index name => index.set name e.1) index).setdefault e.1 e.1) Dict.empty

end Record

end PtaasBench.Benchctl
