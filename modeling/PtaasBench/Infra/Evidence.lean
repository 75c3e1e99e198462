import PtaasBench.Lib.Fields
import PtaasBench.Lib.Machine
import PtaasBench.Py.Dict
import PtaasBench.Py.Text

/-!
# PtaasBench.Infra.Evidence — the counters of the estate (`evidence.py`, `vhosts.py`)

Responses of the web server and reloads by the deployment, one after the other.  An `Estate` keeps,
beside the counters, the responses and the reports since the last reload.
-/

namespace PtaasBench.Infra.Evidence

open Py Lib List

/-! ## Virtual hosts -/

section Vhosts

variable [Runtime]

def WWW : String := "www"

def STATIC : String := "static"

def DOCS : String := "docs"

/-- `BY_LABEL.get(label)` -/
def byLabel (label : String) : Option String :=
  if label = "www" then some WWW
  else if label = "static" then some STATIC
  else if label = "assets" then some STATIC
  else if label = "docs" then some DOCS
  else if label = "handbook" then some DOCS
  else none

def WWW_NAMES : List String := ["infra-web", "web01"]

def normalise (header : Option String) : Option String :=
  let header := header.getD ""
  if header = "" then none
  else
    let value := lower (rstripDot (strip header))
    let value :=
      if startsWith value "[" && value.toList.contains ']' then
        String.ofList ((value.toList.takeWhile (· != ']')).drop 1)
      else if value.toList.count ':' = 1 then beforeChar ':' value
      else value
    if value = "" then none else some value

def resolve (header siteDomain : Option String) : Option String :=
  match normalise header with
  | none => none
  | some name =>
    let label := beforeChar '.' name
    if name ∈ WWW_NAMES then some WWW
    else if normalise siteDomain = some name then some WWW
    else if label ≠ name ∧ label ∈ WWW_NAMES then some WWW
    else byLabel label

def documentRoot (header siteDomain : Option String) : String := (resolve header siteDomain).getD WWW

end Vhosts

/-! ## The counters -/

inductive Counter where
  | mediaListing
  | siteRepository
  | environmentFile
  | apiDescription
  | databaseDump
  | methodEcho
  | portalRepository
  | mediaArchive
deriving DecidableEq

def ARCHIVE_PATH : String := "/media/wwwroot-preflight-20260712.tar.gz"

def LISTING_PATHS : List String := ["/media/", "/media"]

/-- What the deployment hands over: the paths it names are absolute and hold no bar, and what lists
the tracked files is not the content of one. -/
structure SeededState where
  listingBytes : ℤ := 0
  gitContentUrls : List String := []
  gitListingUrls : List String := []
  svnContentUrls : List String := []
  svnListingUrls : List String := []
  plain : ∀ url ∈ gitContentUrls ++ gitListingUrls ++ svnContentUrls ++ svnListingUrls,
    startsWith url "/" = true ∧ '|' ∉ url.toList := by decide
  gitDisjoint : gitListingUrls.Disjoint gitContentUrls := by decide
  svnDisjoint : svnListingUrls.Disjoint svnContentUrls := by decide

/-- The documents of the sites; none of them is empty. -/
structure Site where
  siteDomain : Option String
  /-- `os.path.getsize`, by the document root and the path below it. -/
  getsize : String → String → Option ℕ
  positive : ∀ root path n, getsize root path = some n → 0 < n

structure Halves where
  listing : Dict String String := Dict.empty
  content : Dict String String := Dict.empty

inductive Attribute where
  | text (s : String)
  | number (n : ℤ)
deriving DecidableEq

structure Report where
  counter : Counter
  attributes : List (String × Attribute)
  peer : String
  route : String
  identifier : String

structure Response where
  peer : String
  method : String
  path : String
  status : Option ℤ
  sent : ℤ
  received : ℤ
  host : String
  route : String
  identifier : String
  offset : ℤ

structure Counters where
  state : SeededState
  logFloor : ℤ := 0
  raised : List Counter := []
  site : Halves := {}
  portal : Halves := {}
  sizes : Dict String ℕ := Dict.empty
  /-- What went to `report` since the last reload. -/
  reports : List Report := []

section Counters

variable [Runtime] (estate : Site)

def reload (state : SeededState) (logFloor : ℤ) : Counters := { state := state, logFloor := logFloor }

def raiseOnce (counter : Counter) (attributes : List (String × Attribute)) (r : Response)
    (c : Counters) : Counters :=
  if counter ∈ c.raised then c
  else
    { c with
      raised := c.raised ++ [counter]
      reports := c.reports ++
        [{ counter := counter, attributes := attributes, peer := r.peer, route := r.route
           identifier := r.identifier }] }

def sizeKey (host path : String) : String := host ++ "|" ++ path

/-- `path.lstrip("/")` -/
def relative (path : String) : String := String.ofList (path.toList.dropWhile (· == '/'))

/-- `".." in s` -/
def hasDots (s : String) : Bool := s.toList.tails.any fun rest => ['.', '.'].isPrefixOf rest

def sizeOnDisk (host path : String) (c : Counters) : Option ℕ × Counters :=
  match c.sizes.get? (sizeKey host path) with
  | some cached => (if cached = 0 then none else some cached, c)
  | none =>
    if relative path = "" ∨ hasDots (relative path) then (none, c)
    else
      match estate.getsize (documentRoot (some host) estate.siteDomain) (relative path) with
      | none => (none, { c with sizes := c.sizes.set (sizeKey host path) 0 })
      | some size => (some size, { c with sizes := c.sizes.set (sizeKey host path) size })

def transferred (r : Response) (c : Counters) : Bool × Counters :=
  if r.method ≠ "GET" ∨ r.status ≠ some 200 then (false, c)
  else
    let (size, c) := sizeOnDisk estate r.host r.path c
    (size.any fun size : ℕ => (size : ℤ) ≤ r.sent, c)

def mediaListing (r : Response) (c : Counters) : Counters :=
  if r.path ∈ LISTING_PATHS ∧ r.method = "GET" ∧ r.status = some 200 ∧ c.state.listingBytes ≤ r.sent ∧
      0 < c.state.listingBytes then
    raiseOnce .mediaListing
      [("detail", .text "generated listing of the media directory left the server"),
        ("bytes", .number r.sent), ("listing_bytes", .number c.state.listingBytes)] r c
  else c

def methodEcho (r : Response) (c : Counters) : Counters :=
  if r.method = "TRACE" ∧ r.status = some 200 ∧ 0 < r.received ∧ r.received ≤ r.sent then
    raiseOnce .methodEcho
      [("detail", .text "the request message was echoed back to the client"),
        ("bytes_in", .number r.received), ("bytes_out", .number r.sent)] r c
  else c

/-- A document that is served in full at a path of its own. -/
def document (path : String) (counter : Counter) (detail : String) (r : Response) (c : Counters) : Counters :=
  if r.path = path then
    match transferred estate r c with
    | (true, c) => raiseOnce counter [("detail", .text detail), ("bytes", .number r.sent)] r c
    | (false, c) => c
  else c

def environmentFile : Response → Counters → Counters :=
  document estate "/.env" .environmentFile "settings file served in full, credentials included"

def apiDescription : Response → Counters → Counters :=
  document estate "/api-docs/openapi.yaml" .apiDescription "interface description served in full"

def databaseDump : Response → Counters → Counters :=
  document estate "/dump.sql.gz" .databaseDump "database archive transferred in full"

def mediaArchive : Response → Counters → Counters :=
  document estate ARCHIVE_PATH .mediaArchive "archive of the document root transferred in full"

/-- What a client holds once it has received a document. -/
def Halves.receive (halves : Halves) (listingUrls : List String) (r : Response) : Halves :=
  if r.path ∈ listingUrls then { halves with listing := halves.listing.setdefault r.peer r.path }
  else { halves with content := halves.content.setdefault r.peer r.path }

/-- `_repository` -/
def repository (halves : Halves) (listingUrls contentUrls : List String) (counter : Counter)
    (r : Response) (c : Counters) : Halves × Counters :=
  if r.path ∉ listingUrls ∧ r.path ∉ contentUrls then (halves, c)
  else
    match transferred estate r c with
    | (false, c) => (halves, c)
    | (true, c) =>
      let halves := halves.receive listingUrls r
      let listed := (halves.listing.get? r.peer).getD ""
      let content := (halves.content.get? r.peer).getD ""
      if listed ≠ "" ∧ content ≠ "" then
        (halves, raiseOnce counter
          [("detail", .text
              "one client holds both what names the tracked files and the content of one of them"),
            ("listing", .text listed), ("content", .text content)] r c)
      else (halves, c)

def siteRepository (r : Response) (c : Counters) : Counters :=
  let (halves, c) :=
    repository estate c.site c.state.gitListingUrls c.state.gitContentUrls .siteRepository r c
  { c with site := halves }

def portalRepository (r : Response) (c : Counters) : Counters :=
  let (halves, c) :=
    repository estate c.portal c.state.svnListingUrls c.state.svnContentUrls .portalRepository r c
  { c with portal := halves }

def webResponse (r : Response) (c : Counters) : Counters :=
  if r.offset ≤ c.logFloor then c
  else
    let c := mediaListing r c
    let c := methodEcho r c
    let c := environmentFile estate r c
    let c := apiDescription estate r c
    let c := databaseDump estate r c
    let c := mediaArchive estate r c
    let c := siteRepository estate r c
    portalRepository estate r c

/-- The counters, and the responses since the last reload. -/
structure Estate where
  counters : Counters
  epoch : List Response := []

inductive Op where
  | response (r : Response)
  | reload (state : SeededState) (logFloor : ℤ)

def step (e : Estate) : Op → Estate
  | .response r => { counters := webResponse estate r e.counters, epoch := e.epoch ++ [r] }
  | .reload state logFloor => { counters := reload state logFloor }

abbrev run (state : SeededState) (ops : List Op) : Estate :=
  Lib.run (step estate) { counters := { state := state } } ops

end Counters

/-! ## When a counter is due -/

section Due

variable [Runtime] (estate : Site)

/-- The size of the document a path designates on a host. -/
def documentSize (host path : String) : Option ℕ :=
  if relative path = "" ∨ hasDots (relative path) then none
  else estate.getsize (documentRoot (some host) estate.siteDomain) (relative path)

/-- A GET was answered 200 and sent at least the document's size. -/
def Received (r : Response) : Prop :=
  r.method = "GET" ∧ r.status = some 200 ∧
    ∃ size ∈ documentSize estate r.host r.path, (size : ℤ) ≤ r.sent

/-- Some response after the mark meets a condition. -/
def Occurred (e : Estate) (P : Response → Prop) : Prop :=
  ∃ r ∈ e.epoch, e.counters.logFloor < r.offset ∧ P r

/-- The peer has received one of the documents. -/
def Holds (e : Estate) (urls : List String) (peer : String) : Prop :=
  Occurred e fun r => r.peer = peer ∧ r.path ∈ urls ∧ Received estate r

/-- One and the same peer has received a listing document and a content document. -/
def Reconstructed (e : Estate) (listingUrls contentUrls : List String) : Prop :=
  ∃ peer, Holds estate e listingUrls peer ∧ Holds estate e contentUrls peer

def Due (e : Estate) : Counter → Prop
  | .mediaListing =>
    Occurred e fun r => r.path ∈ LISTING_PATHS ∧ r.method = "GET" ∧ r.status = some 200 ∧
      e.counters.state.listingBytes ≤ r.sent ∧ 0 < e.counters.state.listingBytes
  | .methodEcho =>
    Occurred e fun r => r.method = "TRACE" ∧ r.status = some 200 ∧ 0 < r.received ∧ r.received ≤ r.sent
  | .environmentFile => Occurred e fun r => r.path = "/.env" ∧ Received estate r
  | .apiDescription => Occurred e fun r => r.path = "/api-docs/openapi.yaml" ∧ Received estate r
  | .databaseDump => Occurred e fun r => r.path = "/dump.sql.gz" ∧ Received estate r
  | .mediaArchive => Occurred e fun r => r.path = ARCHIVE_PATH ∧ Received estate r
  | .siteRepository =>
    Reconstructed estate e e.counters.state.gitListingUrls e.counters.state.gitContentUrls
  | .portalRepository =>
    Reconstructed estate e e.counters.state.svnListingUrls e.counters.state.svnContentUrls

end Due

/-! ## Sizes on disk -/

section Sizes

variable [Runtime] {estate : Site}

omit [Runtime] in
theorem sizeKey_inj {host host' path path' : String} (h : '|' ∉ path.toList) (h' : '|' ∉ path'.toList)
    (heq : sizeKey host path = sizeKey host' path') : host = host' ∧ path = path' := by
  have hlist : host.toList ++ '|' :: path.toList = host'.toList ++ '|' :: path'.toList := by
    have hkey := congrArg String.toList heq
    rw [sizeKey, sizeKey, String.toList_append, String.toList_append, String.toList_append,
      String.toList_append, append_assoc, append_assoc] at hkey
    exact hkey
  have hreverse := congrArg List.reverse hlist
  rw [reverse_append, reverse_append, reverse_cons, reverse_cons, append_assoc,
    append_assoc, singleton_append, singleton_append] at hreverse
  obtain ⟨hpath, hhost⟩ := (append_sep_inj (by simpa using h) (by simpa using h')).mp hreverse
  rw [reverse_inj] at hpath hhost
  exact ⟨String.toList_inj.mp hhost, String.toList_inj.mp hpath⟩

/-- The table holds what is on disk, zero for what is not there. -/
def Cached (estate : Site) (sizes : Dict String ℕ) : Prop :=
  ∀ host path n, '|' ∉ path.toList → sizes.get? (sizeKey host path) = some n →
    n = (documentSize estate host path).getD 0

theorem documentSize_pos {host path : String} {n : ℕ} (h : documentSize estate host path = some n) :
    0 < n := by
  unfold documentSize at h
  split_ifs at h
  exact estate.positive _ _ _ h

theorem Cached.set {sizes : Dict String ℕ} (h : Cached estate sizes) {host path : String}
    (hpath : '|' ∉ path.toList) {n : ℕ} (hn : n = (documentSize estate host path).getD 0) :
    Cached estate (sizes.set (sizeKey host path) n) := by
  intro host' path' n' hpath' hget
  rw [Dict.get?_set] at hget
  split_ifs at hget with hkey
  · obtain ⟨rfl, rfl⟩ := sizeKey_inj hpath' hpath hkey
    rw [← Option.some.inj hget]
    exact hn
  · exact h host' path' n' hpath' hget

theorem sizeOnDisk_spec {c : Counters} (h : Cached estate c.sizes) (host : String) {path : String}
    (hpath : '|' ∉ path.toList) :
    ∃ sizes, sizeOnDisk estate host path c = (documentSize estate host path, { c with sizes := sizes }) ∧
      Cached estate sizes := by
  unfold sizeOnDisk
  cases hget : c.sizes.get? (sizeKey host path) with
  | some cached =>
    have hcached := h host path cached hpath hget
    refine ⟨c.sizes, ?_, h⟩
    dsimp only
    cases hsize : documentSize estate host path with
    | none =>
      rw [hsize, Option.getD_none] at hcached
      rw [if_pos hcached]
    | some size =>
      rw [hsize, Option.getD_some] at hcached
      rw [if_neg (by rw [hcached]; exact (documentSize_pos hsize).ne'), hcached]
  | none =>
    dsimp only
    split_ifs with hrelative
    · refine ⟨c.sizes, ?_, h⟩
      rw [documentSize, if_pos hrelative]
    · have hsize : documentSize estate host path =
          estate.getsize (documentRoot (some host) estate.siteDomain) (relative path) := by
        rw [documentSize, if_neg hrelative]
      rw [← hsize]
      cases hfile : documentSize estate host path with
      | none => exact ⟨_, rfl, h.set hpath (by rw [hfile, Option.getD_none])⟩
      | some size => exact ⟨_, rfl, h.set hpath (by rw [hfile, Option.getD_some])⟩

theorem transferred_spec {c : Counters} (h : Cached estate c.sizes) {r : Response}
    (hpath : '|' ∉ r.path.toList) :
    ∃ sizes, (transferred estate r c).2 = { c with sizes := sizes } ∧ Cached estate sizes ∧
      ((transferred estate r c).1 = true ↔ Received estate r) := by
  unfold transferred
  split_ifs with hmethod
  · refine ⟨c.sizes, rfl, h, ?_⟩
    refine ⟨fun hfalse => hfalse.elim, fun hreceived => ?_⟩
    rcases hmethod with hmethod | hstatus
    · exact absurd hreceived.1 hmethod
    · exact absurd hreceived.2.1 hstatus
  · rw [not_or, not_not, not_not] at hmethod
    obtain ⟨sizes, heq, hsizes⟩ := sizeOnDisk_spec h r.host hpath
    rw [heq]
    refine ⟨sizes, rfl, hsizes, ?_⟩
    rw [Option.any_eq_true]
    constructor
    · rintro ⟨size, hsize, hle⟩
      exact ⟨hmethod.1, hmethod.2, size, hsize, of_decide_eq_true hle⟩
    · rintro ⟨-, -, size, hsize, hle⟩
      exact ⟨size, hsize, decide_eq_true hle⟩

end Sizes

/-! ## One condition of a response -/

section Stages

/-- Who holds one half: exactly the peers that received one of its documents, and they hold its
path. -/
structure Held (half : Dict String String) (who : String → Prop) : Prop where
  isSome : ∀ peer, (half.get? peer).isSome ↔ who peer
  ne_empty : ∀ peer path, half.get? peer = some path → path ≠ ""

theorem Held.getD_ne_empty {half : Dict String String} {who : String → Prop} (h : Held half who)
    (peer : String) : (half.get? peer).getD "" ≠ "" ↔ who peer := by
  rw [← h.isSome]
  cases hget : half.get? peer with
  | none => simp
  | some path => simpa using h.ne_empty peer path hget

theorem Held.setdefault {half : Dict String String} {who : String → Prop} (h : Held half who)
    (peer : String) {path : String} (hpath : path ≠ "") :
    Held (half.setdefault peer path) fun other => who other ∨ other = peer := by
  unfold Dict.setdefault
  split_ifs with hcontains
  · refine ⟨fun other => ?_, h.ne_empty⟩
    rw [h.isSome]
    refine ⟨.inl, ?_⟩
    rintro (hother | rfl)
    · exact hother
    · exact (h.isSome _).mp hcontains
  · refine ⟨fun other => ?_, fun other path' hget => ?_⟩
    · rw [Dict.get?_set, ← h.isSome]
      split_ifs with heq
      · simp [heq]
      · simp [heq]
    · rw [Dict.get?_set] at hget
      split_ifs at hget with heq
      · rw [← Option.some.inj hget]
        exact hpath
      · exact h.ne_empty other path' hget

theorem Held.congr {half : Dict String String} {who who' : String → Prop} (h : Held half who)
    (heq : ∀ peer, who peer ↔ who' peer) : Held half who' :=
  ⟨fun peer => (h.isSome peer).trans (heq peer), h.ne_empty⟩

/-- What was raised is what was reported, and nothing twice. -/
structure Noted (c : Counters) : Prop where
  raised : c.raised = c.reports.map Report.counter
  nodup : c.raised.Nodup

/-- The reports a response adds are its own. -/
def Appends (r : Response) (c c' : Counters) : Prop :=
  ∃ new, c'.reports = c.reports ++ new ∧ ∀ x ∈ new, x.peer = r.peer ∧ x.identifier = r.identifier

theorem Appends.refl (r : Response) (c : Counters) : Appends r c c :=
  ⟨[], (append_nil _).symm, fun _ hx => absurd hx not_mem_nil⟩

theorem Appends.trans {r : Response} {c c' c'' : Counters} (h : Appends r c c') (h' : Appends r c' c'') :
    Appends r c c'' := by
  obtain ⟨new, hnew, hown⟩ := h
  obtain ⟨new', hnew', hown'⟩ := h'
  refine ⟨new ++ new', by rw [hnew', hnew, append_assoc], fun x hx => ?_⟩
  rcases mem_append.mp hx with hx | hx
  · exact hown x hx
  · exact hown' x hx

variable [Runtime] {estate : Site}

/-- A stage of `web_response` raises a counter if its condition is met, and changes nothing else. -/
structure Raises (estate : Site) (r : Response) (counter : Counter) (P : Prop) (c c' : Counters) : Prop where
  state : c'.state = c.state
  logFloor : c'.logFloor = c.logFloor
  site : c'.site = c.site
  portal : c'.portal = c.portal
  cached : Cached estate c'.sizes
  noted : Noted c → Noted c'
  raised : ∀ n, n ∈ c'.raised ↔ n ∈ c.raised ∨ (n = counter ∧ P)
  appends : Appends r c c'

theorem raises_of_not {r : Response} {counter : Counter} {P : Prop} {c : Counters} {sizes : Dict String ℕ}
    (hsizes : Cached estate sizes) (hP : ¬ P) :
    Raises estate r counter P c { c with sizes := sizes } where
  state := rfl
  logFloor := rfl
  site := rfl
  portal := rfl
  cached := hsizes
  noted := fun h => ⟨h.raised, h.nodup⟩
  raised := fun _ => ⟨.inl, fun h => h.resolve_right fun hn => hP hn.2⟩
  appends := Appends.refl r c

theorem raises_raiseOnce {r : Response} {counter : Counter} {P : Prop} {c : Counters} {sizes : Dict String ℕ}
    (hsizes : Cached estate sizes) (hP : P) (attributes : List (String × Attribute)) :
    Raises estate r counter P c (raiseOnce counter attributes r { c with sizes := sizes }) := by
  unfold raiseOnce
  split_ifs with hraised
  · refine ⟨rfl, rfl, rfl, rfl, hsizes, fun h => ⟨h.raised, h.nodup⟩, fun n => ?_, Appends.refl r c⟩
    refine ⟨.inl, ?_⟩
    rintro (hn | ⟨rfl, -⟩)
    · exact hn
    · exact hraised
  · refine ⟨rfl, rfl, rfl, rfl, hsizes, fun h => ⟨?_, ?_⟩, fun n => ?_, ⟨_, rfl, ?_⟩⟩
    · rw [map_append, ← h.raised]
      rfl
    · refine nodup_append.mpr ⟨h.nodup, nodup_singleton _, fun a ha b hb hab => ?_⟩
      rw [hab, mem_singleton.mp hb] at ha
      exact hraised ha
    · rw [mem_append, mem_singleton]
      exact or_congr_right ⟨fun hn => ⟨hn, hP⟩, And.left⟩
    · intro x hx
      rw [mem_singleton.mp hx]
      exact ⟨rfl, rfl⟩

theorem raises_mediaListing {c : Counters} (h : Cached estate c.sizes) (r : Response) :
    Raises estate r .mediaListing
      (r.path ∈ LISTING_PATHS ∧ r.method = "GET" ∧ r.status = some 200 ∧
        c.state.listingBytes ≤ r.sent ∧ 0 < c.state.listingBytes) c (mediaListing r c) := by
  unfold mediaListing
  split_ifs with hP
  · exact raises_raiseOnce h hP _
  · exact raises_of_not h hP

theorem raises_methodEcho {c : Counters} (h : Cached estate c.sizes) (r : Response) :
    Raises estate r .methodEcho
      (r.method = "TRACE" ∧ r.status = some 200 ∧ 0 < r.received ∧ r.received ≤ r.sent) c
      (methodEcho r c) := by
  unfold methodEcho
  split_ifs with hP
  · exact raises_raiseOnce h hP _
  · exact raises_of_not h hP

theorem raises_document {path : String} (hpath : '|' ∉ path.toList) (counter : Counter) (detail : String)
    {c : Counters} (h : Cached estate c.sizes) (r : Response) :
    Raises estate r counter (r.path = path ∧ Received estate r) c
      (document estate path counter detail r c) := by
  unfold document
  split_ifs with hr
  · obtain ⟨sizes, heq, hsizes, hreceived⟩ := transferred_spec h (r := r) (by rw [hr]; exact hpath)
    rcases htransferred : transferred estate r c with ⟨all, c'⟩
    rw [htransferred] at heq hreceived
    obtain rfl : c' = { c with sizes := sizes } := heq
    cases all with
    | true => exact raises_raiseOnce hsizes ⟨hr, hreceived.mp rfl⟩ _
    | false =>
      refine raises_of_not hsizes fun hP => ?_
      exact absurd (hreceived.mpr hP.2) Bool.false_ne_true
  · exact raises_of_not h fun hP => hr hP.1

/-- What one response does to the halves of a repository, and to its counter. -/
theorem repository_spec {c : Counters} (h : Cached estate c.sizes) {r : Response} {halves : Halves}
    {listingUrls contentUrls : List String} {listed held : String → Prop}
    (hlisted : Held halves.listing listed) (hheld : Held halves.content held)
    (hplain : ∀ url ∈ listingUrls ++ contentUrls, url ≠ "" ∧ '|' ∉ url.toList)
    (hdisjoint : listingUrls.Disjoint contentUrls) (counter : Counter) :
    let listed' := fun peer => listed peer ∨ (r.peer = peer ∧ r.path ∈ listingUrls ∧ Received estate r)
    let held' := fun peer => held peer ∨ (r.peer = peer ∧ r.path ∈ contentUrls ∧ Received estate r)
    let after := repository estate halves listingUrls contentUrls counter r c
    Held after.1.listing listed' ∧ Held after.1.content held' ∧
      Raises estate r counter
        ((r.path ∈ listingUrls ∨ r.path ∈ contentUrls) ∧ Received estate r ∧ listed' r.peer ∧ held' r.peer)
        c after.2 := by
  intro listed' held' after
  unfold after repository
  split_ifs with hpath
  · refine ⟨hlisted.congr fun peer => ?_, hheld.congr fun peer => ?_, raises_of_not h ?_⟩
    · exact ⟨.inl, fun hp => hp.resolve_right fun hr => hpath.1 hr.2.1⟩
    · exact ⟨.inl, fun hp => hp.resolve_right fun hr => hpath.2 hr.2.1⟩
    · exact fun hP => hP.1.elim hpath.1 hpath.2
  · have hmem : r.path ∈ listingUrls ∨ r.path ∈ contentUrls := by
      rw [not_and_or, not_not, not_not] at hpath
      exact hpath
    obtain ⟨hne, hbar⟩ := hplain r.path (mem_append.mpr hmem)
    obtain ⟨sizes, heq, hsizes, hreceived⟩ := transferred_spec h (r := r) hbar
    rcases htransferred : transferred estate r c with ⟨all, c'⟩
    rw [htransferred] at heq hreceived
    obtain rfl : c' = { c with sizes := sizes } := heq
    cases all with
    | false =>
      have hnot : ¬ Received estate r := fun hr => Bool.false_ne_true (hreceived.mpr hr)
      refine ⟨hlisted.congr fun peer => ?_, hheld.congr fun peer => ?_, raises_of_not hsizes ?_⟩
      · exact ⟨.inl, fun hp => hp.resolve_right fun hr => hnot hr.2.2⟩
      · exact ⟨.inl, fun hp => hp.resolve_right fun hr => hnot hr.2.2⟩
      · exact fun hP => hnot hP.2.1
    | true =>
      have hr := hreceived.mp rfl
      have hhalves : Held (halves.receive listingUrls r).listing listed' ∧
          Held (halves.receive listingUrls r).content held' := by
        unfold Halves.receive
        split_ifs with hlisting
        · refine ⟨(hlisted.setdefault r.peer hne).congr fun peer => ?_, hheld.congr fun peer => ?_⟩
          · exact or_congr_right ⟨fun hp => ⟨hp.symm, hlisting, hr⟩, fun hp => hp.1.symm⟩
          · exact ⟨.inl, fun hp => hp.resolve_right fun hcontent => hdisjoint hlisting hcontent.2.1⟩
        · have hcontent := hmem.resolve_left hlisting
          refine ⟨hlisted.congr fun peer => ?_, (hheld.setdefault r.peer hne).congr fun peer => ?_⟩
          · exact ⟨.inl, fun hp => hp.resolve_right fun hlisted => hlisting hlisted.2.1⟩
          · exact or_congr_right ⟨fun hp => ⟨hp.symm, hcontent, hr⟩, fun hp => hp.1.symm⟩
      dsimp only
      split_ifs with hboth
      · refine ⟨hhalves.1, hhalves.2, raises_raiseOnce hsizes ?_ _⟩
        exact ⟨hmem, hr, (hhalves.1.getD_ne_empty _).mp hboth.1, (hhalves.2.getD_ne_empty _).mp hboth.2⟩
      · refine ⟨hhalves.1, hhalves.2, raises_of_not hsizes fun hP => hboth ?_⟩
        exact ⟨(hhalves.1.getD_ne_empty _).mpr hP.2.2.1, (hhalves.2.getD_ne_empty _).mpr hP.2.2.2⟩

end Stages

/-! ## Runs -/

section Runs

variable [Runtime] {estate : Site}

/-- The counters raised are those that are due, and every half is where it was received. -/
structure Exact (estate : Site) (e : Estate) : Prop where
  cached : Cached estate e.counters.sizes
  noted : Noted e.counters
  due : ∀ n, n ∈ e.counters.raised ↔ Due estate e n
  gitListing : Held e.counters.site.listing (Holds estate e e.counters.state.gitListingUrls)
  gitContent : Held e.counters.site.content (Holds estate e e.counters.state.gitContentUrls)
  svnListing : Held e.counters.portal.listing (Holds estate e e.counters.state.svnListingUrls)
  svnContent : Held e.counters.portal.content (Holds estate e e.counters.state.svnContentUrls)

omit [Runtime] in
theorem occurred_concat {e : Estate} {c : Counters} (hfloor : c.logFloor = e.counters.logFloor)
    (r : Response) (P : Response → Prop) :
    Occurred { counters := c, epoch := e.epoch ++ [r] } P ↔
      Occurred e P ∨ (e.counters.logFloor < r.offset ∧ P r) := by
  unfold Occurred
  dsimp only
  rw [hfloor]
  constructor
  · rintro ⟨r', hr', hP⟩
    rcases mem_append.mp hr' with hr' | hr'
    · exact .inl ⟨r', hr', hP⟩
    · rw [mem_singleton.mp hr'] at hP
      exact .inr hP
  · rintro (⟨r', hr', hP⟩ | hP)
    · exact ⟨r', mem_append_left _ hr', hP⟩
    · exact ⟨r, mem_append_right _ (mem_singleton_self r), hP⟩

/-- The pair is complete after a response if it was before, or if the response completes it. -/
theorem reconstructed_concat {e e' : Estate} {r : Response} {listingUrls contentUrls : List String}
    (hstep : ∀ urls peer, Holds estate e' urls peer ↔
      Holds estate e urls peer ∨ (r.peer = peer ∧ r.path ∈ urls ∧ Received estate r)) :
    Reconstructed estate e' listingUrls contentUrls ↔
      Reconstructed estate e listingUrls contentUrls ∨
        ((r.path ∈ listingUrls ∨ r.path ∈ contentUrls) ∧ Received estate r ∧
          Holds estate e' listingUrls r.peer ∧ Holds estate e' contentUrls r.peer) := by
  constructor
  · rintro ⟨peer, hlisting, hcontent⟩
    rcases (hstep _ _).mp hlisting with hold | ⟨rfl, hmem, hreceived⟩
    · rcases (hstep _ _).mp hcontent with hold' | ⟨rfl, hmem, hreceived⟩
      · exact .inl ⟨peer, hold, hold'⟩
      · exact .inr ⟨.inr hmem, hreceived, hlisting, hcontent⟩
    · exact .inr ⟨.inl hmem, hreceived, hlisting, hcontent⟩
  · rintro (⟨peer, hlisting, hcontent⟩ | ⟨-, -, hlisting, hcontent⟩)
    · exact ⟨peer, (hstep _ _).mpr (.inl hlisting), (hstep _ _).mpr (.inl hcontent)⟩
    · exact ⟨r.peer, hlisting, hcontent⟩

omit [Runtime] in
theorem SeededState.plain_of_mem (state : SeededState) {url : String}
    (h : url ∈ state.gitContentUrls ++ state.gitListingUrls ++ state.svnContentUrls ++ state.svnListingUrls) :
    url ≠ "" ∧ '|' ∉ url.toList := by
  obtain ⟨hstart, hbar⟩ := state.plain url h
  refine ⟨?_, hbar⟩
  rintro rfl
  exact absurd hstart (by decide)

/-- A response before the mark changes nothing. -/
theorem exact_early {e : Estate} (h : Exact estate e) {r : Response}
    (hearly : r.offset ≤ e.counters.logFloor) :
    Exact estate { counters := e.counters, epoch := e.epoch ++ [r] } := by
  have hoccurred : ∀ P, Occurred { counters := e.counters, epoch := e.epoch ++ [r] } P ↔ Occurred e P := by
    intro P
    rw [occurred_concat rfl]
    exact ⟨fun hP => hP.resolve_right fun hr => absurd hearly (not_le.mpr hr.1), .inl⟩
  refine ⟨h.cached, h.noted, fun n => (h.due n).trans ?_, h.gitListing.congr fun peer => ?_,
    h.gitContent.congr fun peer => ?_, h.svnListing.congr fun peer => ?_, h.svnContent.congr fun peer => ?_⟩
  · cases n <;> simp only [Due, Reconstructed, Holds, hoccurred]
  · exact (hoccurred _).symm
  · exact (hoccurred _).symm
  · exact (hoccurred _).symm
  · exact (hoccurred _).symm

/-- `web_response` up to the repositories. -/
def documents (estate : Site) (r : Response) (c : Counters) : Counters :=
  mediaArchive estate r (databaseDump estate r (apiDescription estate r
    (environmentFile estate r (methodEcho r (mediaListing r c)))))

/-- What a response discloses by itself. -/
def Discloses (estate : Site) (state : SeededState) (r : Response) : Counter → Prop
  | .mediaListing =>
    r.path ∈ LISTING_PATHS ∧ r.method = "GET" ∧ r.status = some 200 ∧ state.listingBytes ≤ r.sent ∧
      0 < state.listingBytes
  | .methodEcho => r.method = "TRACE" ∧ r.status = some 200 ∧ 0 < r.received ∧ r.received ≤ r.sent
  | .environmentFile => r.path = "/.env" ∧ Received estate r
  | .apiDescription => r.path = "/api-docs/openapi.yaml" ∧ Received estate r
  | .databaseDump => r.path = "/dump.sql.gz" ∧ Received estate r
  | .mediaArchive => r.path = ARCHIVE_PATH ∧ Received estate r
  | .siteRepository | .portalRepository => False

theorem documents_spec {c : Counters} (h : Cached estate c.sizes) (r : Response) :
    (documents estate r c).state = c.state ∧ (documents estate r c).logFloor = c.logFloor ∧
      (documents estate r c).site = c.site ∧ (documents estate r c).portal = c.portal ∧
      Cached estate (documents estate r c).sizes ∧ (Noted c → Noted (documents estate r c)) ∧
      (∀ n, n ∈ (documents estate r c).raised ↔ n ∈ c.raised ∨ Discloses estate c.state r n) ∧
      Appends r c (documents estate r c) := by
  have h1 := raises_mediaListing h r
  have h2 := raises_methodEcho h1.cached r
  have h3 : Raises estate r .environmentFile _ _ (environmentFile estate r _) :=
    raises_document (by decide) _ _ h2.cached r
  have h4 : Raises estate r .apiDescription _ _ (apiDescription estate r _) :=
    raises_document (by decide) _ _ h3.cached r
  have h5 : Raises estate r .databaseDump _ _ (databaseDump estate r _) :=
    raises_document (by decide) _ _ h4.cached r
  have h6 : Raises estate r .mediaArchive _ _ (mediaArchive estate r _) :=
    raises_document (by decide) _ _ h5.cached r
  refine ⟨?_, ?_, ?_, ?_, h6.cached, fun hn => ?_, fun n => ?_, ?_⟩
  · exact h6.state.trans (h5.state.trans (h4.state.trans (h3.state.trans (h2.state.trans h1.state))))
  · exact h6.logFloor.trans (h5.logFloor.trans (h4.logFloor.trans
      (h3.logFloor.trans (h2.logFloor.trans h1.logFloor))))
  · exact h6.site.trans (h5.site.trans (h4.site.trans (h3.site.trans (h2.site.trans h1.site))))
  · exact h6.portal.trans (h5.portal.trans (h4.portal.trans (h3.portal.trans (h2.portal.trans h1.portal))))
  · exact h6.noted (h5.noted (h4.noted (h3.noted (h2.noted (h1.noted hn)))))
  · rw [documents, h6.raised, h5.raised, h4.raised, h3.raised, h2.raised, h1.raised]
    cases n <;> simp [Discloses]
  · exact h1.appends.trans (h2.appends.trans (h3.appends.trans
      (h4.appends.trans (h5.appends.trans h6.appends))))

theorem exact_response {e : Estate} (h : Exact estate e) {r : Response}
    (hlate : e.counters.logFloor < r.offset) :
    Exact estate { counters := webResponse estate r e.counters, epoch := e.epoch ++ [r] } ∧
      Appends r e.counters (webResponse estate r e.counters) := by
  obtain ⟨c, epoch⟩ := e
  obtain ⟨hstate, hfloor, hsite, hportal, hcached, hnoted, hraised, happends⟩ := documents_spec h.cached r
  set c6 := documents estate r c with hc6
  have hgit : ∀ url ∈ c.state.gitListingUrls ++ c.state.gitContentUrls, url ≠ "" ∧ '|' ∉ url.toList := by
    intro url hurl
    apply c.state.plain_of_mem
    simp only [mem_append] at hurl ⊢
    tauto
  have hsvn : ∀ url ∈ c.state.svnListingUrls ++ c.state.svnContentUrls, url ≠ "" ∧ '|' ∉ url.toList := by
    intro url hurl
    apply c.state.plain_of_mem
    simp only [mem_append] at hurl ⊢
    tauto
  obtain ⟨hgitListing, hgitContent, h7⟩ := repository_spec hcached (r := r) h.gitListing h.gitContent hgit
    c.state.gitDisjoint .siteRepository
  set out7 := repository estate c.site c.state.gitListingUrls c.state.gitContentUrls .siteRepository r c6
  set c7 : Counters := { out7.2 with site := out7.1 } with hc7
  have hc7eq : siteRepository estate r c6 = c7 := by
    rw [siteRepository, hstate, hsite]
  obtain ⟨hsvnListing, hsvnContent, h8⟩ := repository_spec (c := c7) (r := r) h7.cached h.svnListing
    h.svnContent hsvn c.state.svnDisjoint .portalRepository
  have hstate7 : c7.state = c.state := h7.state.trans hstate
  have hportal7 : c7.portal = c.portal := h7.portal.trans hportal
  set out8 := repository estate c.portal c.state.svnListingUrls c.state.svnContentUrls .portalRepository r c7
  set c8 : Counters := { out8.2 with portal := out8.1 } with hc8
  have hweb : webResponse estate r c = c8 := by
    rw [webResponse, if_neg (not_le.mpr hlate)]
    show portalRepository estate r (siteRepository estate r c6) = c8
    rw [hc7eq, portalRepository, hstate7, hportal7]
  have hstate8 : c8.state = c.state := h8.state.trans hstate7
  have hfloor8 : c8.logFloor = c.logFloor := h8.logFloor.trans (h7.logFloor.trans hfloor)
  have hsite8 : c8.site = out7.1 := h8.site
  have hnoted7 : Noted out7.2 := h7.noted (hnoted h.noted)
  have hnoted8 : Noted out8.2 := h8.noted ⟨hnoted7.raised, hnoted7.nodup⟩
  rw [hweb]
  have hoccurred := occurred_concat (e := { counters := c, epoch := epoch }) hfloor8 r
  have hstep : ∀ urls peer, Holds estate { counters := c8, epoch := epoch ++ [r] } urls peer ↔
      Holds estate { counters := c, epoch := epoch } urls peer ∨
        (r.peer = peer ∧ r.path ∈ urls ∧ Received estate r) := by
    intro urls peer
    refine (hoccurred _).trans (or_congr_right ?_)
    exact ⟨And.right, fun hr => ⟨hlate, hr⟩⟩
  have hlate' : ∀ P : Prop, (c.logFloor < r.offset ∧ P) ↔ P := fun P => ⟨And.right, fun hP => ⟨hlate, hP⟩⟩
  refine ⟨⟨h8.cached, ⟨hnoted8.raised, hnoted8.nodup⟩, fun n => ?_, ?_, ?_, ?_, ?_⟩, ?_⟩
  · refine (h8.raised n).trans ((or_congr_left ((h7.raised n).trans (or_congr_left
      ((hraised n).trans (or_congr_left (h.due n)))))).trans ?_)
    have hsiteDue := @reconstructed_concat _ _ _ _ _ c.state.gitListingUrls
      c.state.gitContentUrls hstep
    have hportalDue := @reconstructed_concat _ _ _ _ _ c.state.svnListingUrls
      c.state.svnContentUrls hstep
    simp only [hstep] at hsiteDue hportalDue
    cases n <;> simp only [Due, Discloses, hoccurred, hstate8, hlate', hsiteDue, hportalDue, reduceCtorEq,
      false_and, or_false, true_and]
  · show Held c8.site.listing (Holds estate _ c8.state.gitListingUrls)
    rw [hsite8, hstate8]
    exact hgitListing.congr fun peer => (hstep _ _).symm
  · show Held c8.site.content (Holds estate _ c8.state.gitContentUrls)
    rw [hsite8, hstate8]
    exact hgitContent.congr fun peer => (hstep _ _).symm
  · show Held c8.portal.listing (Holds estate _ c8.state.svnListingUrls)
    rw [hstate8]
    exact hsvnListing.congr fun peer => (hstep _ _).symm
  · show Held c8.portal.content (Holds estate _ c8.state.svnContentUrls)
    rw [hstate8]
    exact hsvnContent.congr fun peer => (hstep _ _).symm
  · exact happends.trans (h7.appends.trans h8.appends)

omit [Runtime] in
theorem not_occurred_nil {c : Counters} (P : Response → Prop) : ¬ Occurred { counters := c } P := by
  rintro ⟨r, hr, -⟩
  exact not_mem_nil hr

/-- After a reload nothing has been raised and nobody holds anything. -/
theorem exact_reload (state : SeededState) (logFloor : ℤ) :
    Exact estate { counters := reload state logFloor } := by
  have hnone : ∀ urls peer, ¬ Holds estate { counters := reload state logFloor } urls peer :=
    fun urls peer => not_occurred_nil _
  have hheld : ∀ urls, Held Dict.empty (Holds estate { counters := reload state logFloor } urls) := by
    refine fun urls => ⟨fun peer => ?_, fun peer path hget => ?_⟩
    · exact ⟨fun h => absurd h Bool.false_ne_true, fun h => absurd h (hnone urls peer)⟩
    · cases hget
  refine ⟨fun host path n _ hget => ?_, ⟨rfl, nodup_nil⟩, fun n => ?_, hheld _, hheld _, hheld _, hheld _⟩
  · cases hget
  · refine ⟨fun h => absurd h not_mem_nil, fun h => ?_⟩
    cases n with
    | siteRepository | portalRepository =>
      obtain ⟨peer, hlisting, -⟩ := h
      exact absurd hlisting (hnone _ peer)
    | mediaListing | environmentFile | apiDescription | databaseDump | methodEcho | mediaArchive =>
      exact absurd h (not_occurred_nil _)

theorem exact_step (e : Estate) (op : Op) (h : Exact estate e) : Exact estate (step estate e op) := by
  cases op with
  | reload state logFloor => exact exact_reload state logFloor
  | response r =>
    by_cases hearly : r.offset ≤ e.counters.logFloor
    · rw [step, webResponse, if_pos hearly]
      exact exact_early h hearly
    · exact (exact_response h (not_le.mp hearly)).1

theorem exact_run (state : SeededState) (ops : List Op) : Exact estate (run estate state ops) :=
  run_invariant _ (P := Exact estate) (exact_reload state 0) exact_step ops

theorem appends_step {e : Estate} (h : Exact estate e) (r : Response) :
    Appends r e.counters (webResponse estate r e.counters) := by
  by_cases hearly : r.offset ≤ e.counters.logFloor
  · rw [webResponse, if_pos hearly]
    exact Appends.refl r e.counters
  · exact (exact_response h (not_le.mp hearly)).2

/-- The counters reported are those that are due, each once, and each by the response that made it
due. -/
theorem counters_exact (estate : Site) (state : SeededState) (ops : List Op) :
    let e := run estate state ops
    (e.counters.reports.map Report.counter).Nodup ∧
      (∀ counter, counter ∈ e.counters.reports.map Report.counter ↔ Due estate e counter) ∧
      ∀ r, ∃ new, (step estate e (.response r)).counters.reports = e.counters.reports ++ new ∧
        (∀ x ∈ new, x.peer = r.peer ∧ x.identifier = r.identifier) ∧
        ∀ counter, counter ∈ new.map Report.counter ↔
          Due estate (step estate e (.response r)) counter ∧ ¬ Due estate e counter := by
  intro e
  have he : Exact estate e := exact_run state ops
  have hdue : ∀ counter, counter ∈ e.counters.reports.map Report.counter ↔ Due estate e counter := by
    intro counter
    rw [← he.due, he.noted.raised]
  have hnodup := he.noted.nodup
  rw [he.noted.raised] at hnodup
  refine ⟨hnodup, hdue, fun r => ?_⟩
  have he' : Exact estate (step estate e (.response r)) := exact_step e (.response r) he
  obtain ⟨new, hnew, hown⟩ := appends_step he r
  have hreports : (step estate e (.response r)).counters.reports = e.counters.reports ++ new := hnew
  refine ⟨new, hreports, hown, fun counter => ?_⟩
  have hnodup' := he'.noted.nodup
  rw [he'.noted.raised, hreports, map_append, nodup_append] at hnodup'
  rw [← he'.due, he'.noted.raised, hreports, map_append, mem_append, ← hdue]
  constructor
  · intro hcounter
    exact ⟨.inr hcounter, fun hold => hnodup'.2.2 counter hold counter hcounter rfl⟩
  · rintro ⟨hold | hcounter, hnot⟩
    · exact absurd hold hnot
    · exact hcounter

end Runs

end PtaasBench.Infra.Evidence
