import PtaasBench.Edge.Origin
import PtaasBench.Lib.Machine
import PtaasBench.Py.Dict

/-!
# PtaasBench.Edge.CacheProbe — the cache coherence probe (`cacheprobe.go`, `routes.go`)

Requests whose input reaches a cacheable response have a job queued: a clean client asks for the same object, and
if what came from the request comes back, the signal is raised in the name of whoever sent the request.  A job whose
key was taken less than ten seconds before is left out.  The key does not say who sent the request.
-/

namespace PtaasBench.Edge

open Py Lib List

/-! ## Signals and jobs -/

def sigCacheHostVariance : Bytes := text "edge.cache.coherence.host_variance"
def sigCacheParamVariance : Bytes := text "edge.cache.coherence.parameter_variance"
def sigCacheIdentityVar : Bytes := text "edge.cache.coherence.identity_variance"
def sigLinkAuthorityBody : Bytes := text "edge.links.authority.body_variance"
def sigLinkAuthorityLoc : Bytes := text "edge.links.authority.location_variance"

/-- `probeJob`; `place` is its `where`. -/
structure ProbeJob where
  signal : Bytes
  path : Bytes
  marker : Bytes
  place : Bytes
  injector : Bytes
  payload : Bytes
  detail : Bytes
  internal : Bool
  requestID : Bytes
  peer : Bytes
  client : Bytes
deriving DecidableEq

structure ConnState where
  id : Bytes
  peer : Bytes
  client : Bytes
  internal : Bool

structure SiteConfig where
  domain : Bytes
  canonicalHost : Bytes

structure Account where
  login : Bytes
  token : Bytes

structure WireRequest where
  method : Bytes
  target : Bytes
  headers : List WireHeader

/-! ## Targets and authorities -/

section Text

/-- What is behind the first occurrence. -/
def afterFirst (sep : Bytes) : Bytes → Option Bytes
  | [] => none
  | b :: bs => if sep.isPrefixOf (b :: bs) then some ((b :: bs).drop sep.length) else afterFirst sep bs

def pathAndQuery (target : Bytes) : Bytes :=
  let t :=
    match afterFirst (text "://") target with
    | none => target
    | some rest => if 0x2F ∈ rest then rest.dropWhile (· ≠ 0x2F) else [0x2F]
  if t.head? = some 0x2F then t else 0x2F :: t

def stripParam (target name : Bytes) : Bytes :=
  let t := pathAndQuery target
  if 0x3F ∈ t then
    let base := t.takeWhile (· ≠ 0x3F)
    let qs := (t.dropWhile (· ≠ 0x3F)).drop 1
    let kept := (qs.splitOn 0x26).filter fun kv => kv ≠ [] && kv.takeWhile (· ≠ 0x3D) ≠ name
    if kept = [] then base else base ++ 0x3F :: [0x26].intercalate kept
  else t

/-- `strconv.Atoi` reads a number. -/
def atoiOk (bs : Bytes) : Bool :=
  let negative := bs.head? = some 0x2D
  let digits := if negative || bs.head? = some 0x2B then bs.drop 1 else bs
  let value := digits.foldl (fun n b => 10 * n + (b.toNat - 48)) 0
  digits ≠ [] && (digits.all fun b => 48 ≤ b.toNat && b.toNat ≤ 57) &&
    (if negative then value ≤ 2 ^ 63 else value < 2 ^ 63)

variable [GoRuntime]

def staticExts : List Bytes := [".css", ".js", ".png", ".jpg", ".ico", ".svg", ".txt", ".woff2"].map text

def hasStaticExt (p : Bytes) : Bool := staticExts.any (·.isSuffixOf (toLower p))

/-- The authority without the number behind its last colon. -/
def withoutPort (a : Bytes) : Bytes :=
  let tail := (a.reverse.takeWhile (· ≠ 0x3A)).reverse
  if 0x3A ∈ a ∧ atoiOk tail = true then a.take (a.length - tail.length - 1) else a

def ownNames : List Bytes := ["nginx", "haproxy", "varnish", "origin", "localhost", "127.0.0.1"].map text

def foreignAuthority (site : SiteConfig) (a : Bytes) : Bool :=
  let a := toLower (trimSpace a)
  if a = [] then false
  else
    let a := withoutPort a
    !(a = toLower site.canonicalHost || a = toLower site.domain || ownNames.contains a)

end Text

/-! ## The handlers that queue a job -/

section Handlers

/-- What a job says of the request's client is the same for every handler. -/
def probeJob (cs : ConnState) (reqID signal path marker place injector payload detail : Bytes) : ProbeJob where
  signal := signal
  path := path
  marker := marker
  place := place
  injector := injector
  payload := payload
  detail := detail
  internal := cs.internal
  requestID := reqID
  peer := cs.peer
  client := cs.client

def body : Bytes := text "body"
def locationHeader : Bytes := text "header:Location"

variable [GoRuntime] (site : SiteConfig) (cs : ConnState) (req : WireRequest) (reqID : Bytes)

/-- `profile`, for the account of the session; `path` is the target's. -/
def profile (path : Bytes) (acct : Option Account) (viaExt : Bool) : Option ProbeJob :=
  match acct with
  | none => none
  | some acct =>
    if viaExt && hasStaticExt path then
      some (probeJob cs reqID sigCacheIdentityVar (pathAndQuery req.target) acct.token body
        (text "session:" ++ acct.login) (req.method ++ text " " ++ pathAndQuery req.target)
        (text ("a personalised account page was served under a path the cache tier treats as a public asset; " ++
          "re-requesting the same URL with no session cookie")))
    else none

def reset : Option ProbeJob :=
  let xfh := header req.headers (text "X-Forwarded-Host")
  let host := if xfh ≠ [] then xfh else header req.headers (text "Host")
  let host := if host = [] then site.canonicalHost else host
  if foreignAuthority site host then
    some (probeJob cs reqID sigLinkAuthorityBody (pathAndQuery req.target)
      (text "http://" ++ host ++ text "/account/reset/confirm") body cs.client (text "Host: " ++ host)
      (text "the reset link was built from the request's Host/X-Forwarded-Host (" ++ host ++
        text ") rather than " ++ site.canonicalHost ++ text ", on a response the cache tier keeps"))
  else none

def partnerRedirect : Option ProbeJob :=
  let host := header req.headers (text "X-Forwarded-Host")
  let host := if host = [] then header req.headers (text "Host") else host
  let host := if host = [] then site.canonicalHost else host
  if foreignAuthority site host then
    some (probeJob cs reqID sigLinkAuthorityLoc (pathAndQuery req.target) (text "http://" ++ host) locationHeader
      cs.client (text "X-Forwarded-Host: " ++ host)
      (text "a redirect the cache tier keeps was built with authority " ++ host ++
        text " taken from X-Forwarded-Host"))
  else none

def promo : Option ProbeJob :=
  let host := header req.headers (text "X-Forwarded-Host")
  let host := if host = [] then site.canonicalHost else host
  let asset := text "http://" ++ host ++ text "/assets/app.js"
  if foreignAuthority site host then
    some (probeJob cs reqID sigCacheHostVariance (pathAndQuery req.target) asset body cs.client
      (text "X-Forwarded-Host: " ++ host)
      (text ("X-Forwarded-Host reached a cacheable body but is not part of the cache key; " ++
        "re-requesting the same URL without it")))
  else none

omit [GoRuntime] in
/-- `news`, for the `lang` of the query. -/
def news (lang : Bytes) : Option ProbeJob :=
  let lang := if lang = [] then text "en" else lang
  if lang ≠ text "en" then
    some (probeJob cs reqID sigCacheParamVariance (stripParam req.target (text "lang")) (text "Edition: " ++ lang)
      body cs.client (text "?lang=" ++ lang)
      (text ("the locale parameter reached a cacheable body but is normalised out of the cache key; " ++
        "re-requesting the same object without it")))
  else none

/-- The handler a request is routed to, with what `handle` has read for it. -/
inductive Route
  | profile (path : Bytes) (acct : Option Account) (viaExt : Bool)
  | reset
  | go
  | promo
  | news (lang : Bytes)

/-- The job a request has queued. -/
def handle : Route → Option ProbeJob
  | .profile path acct viaExt => profile cs req reqID path acct viaExt
  | .reset => reset site cs req reqID
  | .go => partnerRedirect site cs req reqID
  | .promo => promo site cs req reqID
  | .news lang => news cs req reqID lang

omit [GoRuntime] in
/-- The signals of the handlers, each with the place its marker is looked for. -/
def signalPlaces : List (Bytes × Bytes) :=
  [(sigCacheIdentityVar, body), (sigLinkAuthorityBody, body), (sigLinkAuthorityLoc, locationHeader),
    (sigCacheHostVariance, body), (sigCacheParamVariance, body)]

variable {site cs req reqID}

theorem handle_spec {route : Route} {j : ProbeJob} (h : handle site cs req reqID route = some j) :
    j.internal = cs.internal ∧ (j.signal, j.place) ∈ signalPlaces := by
  have hjob : ∀ {c : Prop} [Decidable c] {signal place path marker injector payload detail : Bytes},
      (signal, place) ∈ signalPlaces →
      (if c then some (probeJob cs reqID signal path marker place injector payload detail) else none) = some j →
      j.internal = cs.internal ∧ (j.signal, j.place) ∈ signalPlaces := by
    intro c _ signal place path marker injector payload detail hmem hj
    split_ifs at hj
    obtain rfl := Option.some.inj hj
    exact ⟨rfl, hmem⟩
  cases route with
  | profile path acct viaExt =>
    cases acct with
    | none => cases h
    | some acct => exact hjob (by simp [signalPlaces]) h
  | reset => exact hjob (by simp [signalPlaces]) h
  | go => exact hjob (by simp [signalPlaces]) h
  | promo => exact hjob (by simp [signalPlaces]) h
  | news lang => exact hjob (by simp [signalPlaces]) h

end Handlers

/-! ## The probe -/

section Probe

/-- The answer to a clean request: `Header.Get`, and the body. -/
structure Response where
  header : Bytes → Bytes
  body : Bytes

/-- Does a text occur in another? -/
def occurs (marker : Bytes) : Bytes → Bool
  | [] => marker.isEmpty
  | b :: bs => marker.isPrefixOf (b :: bs) || occurs marker bs

def headerPlace : Bytes := text "header:"

/-- `found`: does the answer hand the marker out? -/
def found (j : ProbeJob) (resp : Response) : Bool :=
  if headerPlace.isPrefixOf j.place then
    j.marker ≠ [] && occurs j.marker (resp.header (j.place.drop headerPlace.length))
  else j.marker ≠ [] && occurs j.marker (resp.body.take (256 * 1024))

/-- `clip` -/
def clip (s : Bytes) (n : ℕ) : Bytes := s.take n

/-- What `raise` emits; the text of `detail` is left out. -/
structure Signal where
  signal : Bytes
  synthetic : Bool
  peerIp : Bytes
  clientIp : Bytes
  payload : Bytes
  requestID : Bytes
deriving DecidableEq

def raised (j : ProbeJob) : Signal where
  signal := j.signal
  synthetic := j.internal
  peerIp := j.peer
  clientIp := j.client
  payload := clip j.payload 1024
  requestID := j.requestID

/-- `run`: what a job raises, its clean request failing where there is no answer. -/
def runJob (j : ProbeJob) (resp : Option Response) : List Signal :=
  match resp with
  | none => []
  | some resp => if found j resp then [raised j] else []

/-- The bar of a key. -/
def bar : UInt8 := 0x7C

def key (j : ProbeJob) : Bytes := j.signal ++ bar :: (j.path ++ bar :: j.marker)

/-- `10*time.Second` and `time.Minute`, in nanoseconds. -/
def window : ℤ := 10 * 10 ^ 9
def minute : ℤ := 60 * 10 ^ 9

/-- Old keys are dropped where there are many. -/
def sweep (seen : Dict Bytes ℤ) (now : ℤ) : Dict Bytes ℤ :=
  if 4096 < seen.items.length then seen.filter fun e => now - e.2 ≤ minute else seen

/-- The origin and its workers.  `offered`, `holder` and `fetched` keep the history: the jobs requests had queued,
the job that took a key, and what the clean requests brought. -/
structure World where
  seen : Dict Bytes ℤ := Dict.empty
  sending : List ProbeJob := []  -- let in by `enqueue`, before its `select`
  ch : List ProbeJob := []
  running : List ProbeJob := []
  emitted : List Signal := []
  offered : List ProbeJob := []
  holder : Bytes → Option ProbeJob := fun _ => none
  fetched : List (ProbeJob × Option Response) := []

/-- Is a job with this key left out at this time? -/
def suppressed (w : World) (j : ProbeJob) (now : ℤ) : Bool := (w.seen.get? (key j)).any fun last => now - last < window

/-- The locked part of `enqueue`. -/
def enqueue (w : World) (j : ProbeJob) (now : ℤ) : World :=
  let w := { w with offered := w.offered ++ [j] }
  if suppressed w j now then w
  else
    { w with
      seen := sweep (w.seen.set (key j) now) now
      holder := fun k => if k = key j then some j else w.holder k
      sending := w.sending ++ [j] }

inductive Op
  | request (id peer reqID : Bytes) (route : Route) (req : WireRequest) (now : ℤ)  -- a request, at its handler
  | send (i : ℕ)  -- the `select` of a job that was let in; the queue is never full
  | take  -- a worker takes the next job
  | answer (i : ℕ) (resp : Option Response)  -- a clean request ends
  | reset  -- `/reset` of the control listener

variable [GoRuntime] (s : Server) (site : SiteConfig)

/-- `serveConn`, where it classifies a request. -/
def connState (id peer : Bytes) (req : WireRequest) : ConnState :=
  let c := s.classify peer req.headers
  { id := id, peer := peer, client := c.1, internal := c.2 }

/-- The job of a request. -/
def jobOf : Op → Option (ProbeJob × ℤ)
  | .request id peer reqID route req now =>
    (handle site (connState s id peer req) req reqID route).map fun j => (j, now)
  | _ => none

def step (w : World) : Op → World
  | .request id peer reqID route req now =>
    match jobOf s site (.request id peer reqID route req now) with
    | none => w
    | some (j, now) => enqueue w j now
  | .send i =>
    match w.sending[i]? with
    | none => w
    | some j => { w with sending := w.sending.eraseIdx i, ch := w.ch ++ [j] }
  | .take =>
    match w.ch with
    | [] => w
    | j :: ch => if w.running.length < 4 then { w with ch := ch, running := w.running ++ [j] } else w
  | .answer i resp =>
    match w.running[i]? with
    | none => w
    | some j =>
      { w with
        running := w.running.eraseIdx i
        emitted := w.emitted ++ runJob j resp
        fetched := w.fetched ++ [(j, resp)] }
  | .reset => { w with seen := Dict.empty, holder := fun _ => none }

/-- A job that was let in and has not been run. -/
def Pending (w : World) (j : ProbeJob) : Prop := j ∈ w.sending ∨ j ∈ w.ch ∨ j ∈ w.running

/-- A job that was let in. -/
def LetIn (w : World) (j : ProbeJob) : Prop := Pending w j ∨ ∃ resp, (j, resp) ∈ w.fetched

/-- Two jobs that look for one thing in one answer. -/
def SameProof (h j : ProbeJob) : Prop :=
  h.signal = j.signal ∧ h.place = j.place ∧ h.path = j.path ∧ h.marker = j.marker

/-- The key of an external client's job is free, or was taken by an external client's job with its path and
marker. -/
def Unmasked (w : World) (op : Op) : Prop :=
  ∀ j now, jobOf s site op = some (j, now) → j.internal = false → suppressed w j now = true →
    ∀ h, w.holder (key j) = some h → h.internal = false ∧ h.path = j.path ∧ h.marker = j.marker

/-- No job is on its way. -/
def Idle (w : World) : Prop := w.sending = [] ∧ w.ch = [] ∧ w.running = []

omit [GoRuntime] in
instance (w : World) : Decidable (Idle w) := inferInstanceAs (Decidable (_ ∧ _ ∧ _))

/-! ## What a run keeps -/

variable {s site} {w w' : World} {j h : ProbeJob}

/-- The history is in step with what the origin does. -/
structure Accounted (w : World) : Prop where
  held : ∀ k t, w.seen.get? k = some t → ∃ h, w.holder k = some h ∧ key h = k ∧ LetIn w h
  placed : ∀ j, LetIn w j → (j.signal, j.place) ∈ signalPlaces
  emitted : ∀ j resp, (j, some resp) ∈ w.fetched → found j resp = true → raised j ∈ w.emitted
  kept : ∀ j ∈ w.offered, j.internal = false → ∃ h, LetIn w h ∧ h.internal = false ∧ SameProof h j

omit [GoRuntime] in
theorem bar_notMem {a : Bytes × Bytes} (h : a ∈ signalPlaces) : bar ∉ a.1 := by
  have hall : ∀ a ∈ signalPlaces, bar ∉ a.1 := by decide
  exact hall a h

omit [GoRuntime] in
theorem place_of_signal {a b : Bytes × Bytes} (ha : a ∈ signalPlaces) (hb : b ∈ signalPlaces) (h : a.1 = b.1) :
    a.2 = b.2 := by
  have hall : ∀ a ∈ signalPlaces, ∀ b ∈ signalPlaces, a.1 = b.1 → a.2 = b.2 := by decide
  exact hall a ha b hb h

omit [GoRuntime] in
/-- A key is read up to its first bar as the signal. -/
theorem signal_of_key (hh : (h.signal, h.place) ∈ signalPlaces) (hj : (j.signal, j.place) ∈ signalPlaces)
    (hkey : key h = key j) : h.signal = j.signal ∧ h.place = j.place := by
  have hread : ∀ i : ProbeJob, bar ∉ i.signal → (key i).takeWhile (· ≠ bar) = i.signal := by
    intro i hi
    have hall : ∀ b ∈ i.signal, decide (b ≠ bar) = true := fun b hb => decide_eq_true fun h => hi (h ▸ hb)
    rw [key, takeWhile_append_of_pos hall, takeWhile_cons_of_neg (by simp), append_nil]
  have hsignal : h.signal = j.signal := by
    rw [← hread h (bar_notMem hh), ← hread j (bar_notMem hj), hkey]
  exact ⟨hsignal, place_of_signal hh hj hsignal⟩

omit [GoRuntime] in
/-- A step that only moves jobs along. -/
theorem Accounted.move (hw : Accounted w) (hseen : w'.seen = w.seen) (hholder : w'.holder = w.holder)
    (hoffered : w'.offered = w.offered) (hletIn : ∀ j, LetIn w' j ↔ LetIn w j)
    (hemitted : ∀ j resp, (j, some resp) ∈ w'.fetched → found j resp = true → raised j ∈ w'.emitted) :
    Accounted w' := by
  refine ⟨fun k t hk => ?_, fun j hj => hw.placed j ((hletIn j).mp hj), hemitted, fun j hj hexternal => ?_⟩
  · rw [hseen] at hk
    obtain ⟨h, hh, hkey, hin⟩ := hw.held k t hk
    exact ⟨h, by rw [hholder, hh], hkey, (hletIn h).mpr hin⟩
  · rw [hoffered] at hj
    obtain ⟨h, hin, hsame⟩ := hw.kept j hj hexternal
    exact ⟨h, (hletIn h).mpr hin, hsame⟩

omit [GoRuntime] in
theorem mem_eraseIdx {α : Type*} {l : List α} {i : ℕ} {x y : α} (h : l[i]? = some x) :
    y ∈ l ↔ y = x ∨ y ∈ l.eraseIdx i := by
  obtain ⟨hi, rfl⟩ := List.getElem?_eq_some_iff.mp h
  rw [← (getElem_cons_eraseIdx_perm hi).mem_iff, mem_cons]

omit [GoRuntime] in
theorem accounted_start : Accounted {} := by
  constructor
  · intro k t hk
    cases hk
  · rintro j ((hj | hj | hj) | ⟨resp, hj⟩) <;> cases hj
  · intro j resp hj
    cases hj
  · intro j hj
    cases hj

omit [GoRuntime] in
theorem get?_sweep {seen : Dict Bytes ℤ} {now t : ℤ} {k : Bytes} (h : (sweep seen now).get? k = some t) :
    seen.get? k = some t := by
  rw [sweep] at h
  split_ifs at h
  · exact Dict.get?_of_filter h
  · exact h

omit [GoRuntime] in
theorem Accounted.enqueue {now : ℤ} (hw : Accounted w) (hplace : (j.signal, j.place) ∈ signalPlaces)
    (hfree : j.internal = false → suppressed w j now = true →
      ∀ h, w.holder (key j) = some h → h.internal = false ∧ h.path = j.path ∧ h.marker = j.marker) :
    Accounted (enqueue w j now) := by
  rw [Edge.enqueue]
  dsimp only
  have hsame : suppressed { w with offered := w.offered ++ [j] } j now = suppressed w j now := rfl
  rw [hsame]
  by_cases hsuppressed : suppressed w j now = true
  · -- the job is left out: the one that took the key stands for it
    rw [if_pos hsuppressed]
    refine ⟨hw.held, hw.placed, hw.emitted, fun i hi hexternal => ?_⟩
    rcases mem_append.mp hi with hi | hi
    · exact hw.kept i hi hexternal
    · obtain rfl := mem_singleton.mp hi
      obtain ⟨last, hlast⟩ : ∃ last, w.seen.get? (key i) = some last := by
        rw [← Option.isSome_iff_exists]
        rw [suppressed] at hsuppressed
        cases hget : w.seen.get? (key i) with
        | none =>
          rw [hget] at hsuppressed
          cases hsuppressed
        | some last => rfl
      obtain ⟨h, hholder, hkey, hin⟩ := hw.held _ _ hlast
      obtain ⟨hinternal, hpath, hmarker⟩ := hfree hexternal hsuppressed h hholder
      obtain ⟨hsignal, hwhere⟩ := signal_of_key (hw.placed h hin) hplace hkey
      exact ⟨h, hin, hinternal, hsignal, hwhere, hpath, hmarker⟩
  · rw [if_neg hsuppressed]
    have hletIn : ∀ i, LetIn { w with
        offered := w.offered ++ [j]
        seen := sweep (w.seen.set (key j) now) now
        holder := fun k => if k = key j then some j else w.holder k
        sending := w.sending ++ [j] } i ↔ LetIn w i ∨ i = j := by
      intro i
      simp only [LetIn, Pending, mem_append, mem_singleton]
      tauto
    refine ⟨fun k t hk => ?_, fun i hi => ?_, hw.emitted, fun i hi hexternal => ?_⟩
    · have hk := get?_sweep hk
      rw [Dict.get?_set] at hk
      dsimp only
      split_ifs at hk ⊢ with hkj
      · exact ⟨j, rfl, hkj.symm, (hletIn j).mpr (Or.inr rfl)⟩
      · obtain ⟨h, hholder, hkey, hin⟩ := hw.held k t hk
        exact ⟨h, hholder, hkey, (hletIn h).mpr (Or.inl hin)⟩
    · rcases (hletIn i).mp hi with hi | rfl
      · exact hw.placed i hi
      · exact hplace
    · rcases mem_append.mp hi with hi | hi
      · obtain ⟨h, hin, hrest⟩ := hw.kept i hi hexternal
        exact ⟨h, (hletIn h).mpr (Or.inl hin), hrest⟩
      · obtain rfl := mem_singleton.mp hi
        exact ⟨i, (hletIn i).mpr (Or.inr rfl), hexternal, rfl, rfl, rfl, rfl⟩

theorem accounted_step {op : Op} (hw : Accounted w) (hop : Unmasked s site w op) : Accounted (step s site w op) := by
  cases op with
  | request id peer reqID route req now =>
    rw [step]
    cases hjob : jobOf s site (.request id peer reqID route req now) with
    | none => exact hw
    | some job =>
      obtain ⟨j, now'⟩ := job
      obtain ⟨i, hhandled, hi⟩ := Option.map_eq_some_iff.mp hjob
      obtain ⟨rfl, -⟩ := Prod.mk.inj hi
      exact hw.enqueue (handle_spec hhandled).2 (hop i now' hjob)
  | send i =>
    rw [step]
    cases hi : w.sending[i]? with
    | none => exact hw
    | some j =>
      refine hw.move rfl rfl rfl (fun k => ?_) hw.emitted
      simp only [LetIn, Pending, mem_eraseIdx (y := k) hi, mem_append, mem_singleton]
      tauto
  | take =>
    rw [step]
    cases hch : w.ch with
    | nil => exact hw
    | cons j ch =>
      dsimp only
      split_ifs
      · refine hw.move rfl rfl rfl (fun k => ?_) hw.emitted
        simp only [LetIn, Pending, hch, mem_append, mem_cons]
        tauto
      · exact hw
  | answer i resp =>
    rw [step]
    cases hi : w.running[i]? with
    | none => exact hw
    | some j =>
      refine hw.move rfl rfl rfl (fun k => ?_) fun k resp' hk hfound => ?_
      · simp only [LetIn, Pending, mem_eraseIdx (y := k) hi, mem_append, mem_singleton, exists_or,
          Prod.mk.injEq, exists_eq_right]
        tauto
      · rcases mem_append.mp hk with hk | hk
        · exact mem_append_left _ (hw.emitted k resp' hk hfound)
        · obtain ⟨rfl, rfl⟩ := Prod.mk.inj (mem_singleton.mp hk)
          refine mem_append_right _ ?_
          rw [runJob, if_pos hfound]
          exact mem_singleton_self _
  | reset =>
    rw [step]
    refine ⟨fun k t hk => ?_, hw.placed, hw.emitted, hw.kept⟩
    rw [Dict.get?_empty] at hk
    cases hk

/-- Where every external client's job that is left out is left out for an external client's job that looks for the
same, and no job is on its way any more: an external client's job whose path hands out its marker to every clean
request has its signal raised in an external client's name. -/
theorem external_proof_raised {ops : List Op} (hops : Along (step s site) (Unmasked s site) {} ops)
    (hidle : Idle (run (step s site) {} ops)) {j : ProbeJob} (hj : j ∈ (run (step s site) {} ops).offered)
    (hexternal : j.internal = false)
    (hclean : ∀ f ∈ (run (step s site) {} ops).fetched, f.1.path = j.path → f.2.any (found j) = true) :
    ∃ r ∈ (run (step s site) {} ops).emitted, r.signal = j.signal ∧ r.synthetic = false := by
  have hw : Accounted (run (step s site) {} ops) :=
    run_along (step s site) (fun w op hw hop => accounted_step hw hop) accounted_start hops
  obtain ⟨h, hin, hinternal, hsignal, hplace, hpath, hmarker⟩ := hw.kept j hj hexternal
  obtain ⟨resp, hfetched⟩ : ∃ resp, (h, resp) ∈ (run (step s site) {} ops).fetched := by
    rcases hin with (hin | hin | hin) | hin
    · rw [hidle.1] at hin
      cases hin
    · rw [hidle.2.1] at hin
      cases hin
    · rw [hidle.2.2] at hin
      cases hin
    · exact hin
  have hany := hclean _ hfetched hpath
  cases resp with
  | none => cases hany
  | some answer =>
    have hfound : found h answer = true := by
      rw [found, hplace, hmarker]
      exact hany
    exact ⟨raised h, hw.emitted h answer hfetched hfound, hsignal, hinternal⟩

end Probe

namespace Promo

def site : SiteConfig where
  domain := text "marlow.test"
  canonicalHost := text "www.marlow.test"

variable [GoRuntime]

def field (name value : String) : WireHeader where
  raw := text name
  canon := foldName (text name)
  value := text value

/-- The same request, with a forwarded host of its own, in the name of a client. -/
def request (client : String) (now : ℤ) : Op :=
  .request (text "c000001") (text "10.77.0.20") (text "c000001/1") .promo
    { method := text "GET"
      target := text "/promo"
      headers := [field "X-Real-IP" client, field "X-Forwarded-Host" "other.test"] } now

/-- The poisoned page, as the cache hands it out. -/
def poisoned : Response where
  header _ := []
  body := text "<script src=\"http://other.test/assets/app.js\"></script>"

/-- One job goes its way. -/
def probed : List Op := [.send 0, .take, .answer 0 (some poisoned)]

omit [GoRuntime] in
/-- A tool's request behind one of the platform's own: nothing is raised in the tool's name. -/
theorem own_traffic_hides_proof :
    let _ := GoRuntime.ascii
    let w := run (step estate site) {} ([request "10.77.0.5" 0, request "203.0.113.9" (10 ^ 9)] ++ probed)
    Idle w ∧ ∃ j ∈ w.offered, j.internal = false ∧ (∀ f ∈ w.fetched, f.1.path = j.path → f.2.any (found j) = true) ∧
      ∀ r ∈ w.emitted, r.synthetic = true := by
  decide

omit [GoRuntime] in
/-- A tool's request alone is raised in the tool's name. -/
theorem lone_request_raised :
    let _ := GoRuntime.ascii
    let w := run (step estate site) {} (request "203.0.113.9" 0 :: probed)
    ∃ j ∈ w.offered, j.internal = false ∧ ∃ r ∈ w.emitted, r.signal = j.signal ∧ r.synthetic = false := by
  intro rt w
  have hops : Along (step estate site) (Unmasked estate site) {} (request "203.0.113.9" 0 :: probed) := by
    refine ⟨fun j now _ _ hsuppressed => ?_, fun j now hjob => ?_, fun j now hjob => ?_, fun j now hjob => ?_, trivial⟩
    · cases hsuppressed
    · cases hjob
    · cases hjob
    · cases hjob
  have hwitness : Idle w ∧ ∃ j ∈ w.offered, j.internal = false ∧
      ∀ f ∈ w.fetched, f.1.path = j.path → f.2.any (found j) = true := by
    decide
  obtain ⟨hidle, j, hj, hexternal, hclean⟩ := hwitness
  exact ⟨j, hj, hexternal, external_proof_raised hops hidle hj hexternal hclean⟩

end Promo

end PtaasBench.Edge
