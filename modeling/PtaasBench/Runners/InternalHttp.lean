import PtaasBench.Infra.AccessLog
import PtaasBench.Lib.Effects
import PtaasBench.Py.Dict
import PtaasBench.Py.Url

/-!
# PtaasBench.Runners.InternalHttp — HTTP from inside the platform (`_lib/internal_http.py`)

A request is pinned to an address by rewriting its URL.  The client opens that URL and follows the
redirects it is answered with; every connection is written down here.
-/

namespace PtaasBench.Runners.InternalHttp

open Py Lib
open Infra (DigitRuntime Text digits parseInt)

/-! ## The network -/

/-- What is answered on a connection. -/
structure Reply where
  status : ℕ
  location : Option Text := none
  uri : Option Text := none
  body : String := ""
  cookies : List String := []

structure Request where
  method : String
  url : SplitResult
  headers : Dict String String

structure Connection where
  address : Text
  request : Request

/-- What comes of a client that is to run in a container. -/
inductive Exec where
  | failed (stderr : String)
  | unparsable (stdout : String)
  | printed

structure Net where
  /-- What the connections to come are answered, `none` where one fails. -/
  replies : List (Option Reply)
  execs : List Exec := []
  connections : List Connection := []
  /-- The locations the client went to. -/
  followed : List Text := []

def Net.connect (net : Net) (address : Text) (request : Request) : Net :=
  { net with connections := net.connections ++ [{ address := address, request := request }] }

inductive Raised where
  | valueError
  | typeError
  | formatError
  | patternError
  | loginError (message : String)

/-! ## Opening a URL -/

section Opening

def http : Text := ['h', 't', 't', 'p']

def https : Text := ['h', 't', 't', 'p', 's']

def ftp : Text := ['f', 't', 'p']

/-- `HTTPConnection(host)`: the host to connect to; `none` is an `InvalidURL`. -/
def httpHost [DigitRuntime] (netloc : Text) : Option Text :=
  let host : Option Text :=
    match rpartition ':' netloc with
    | none => some netloc
    | some (front, port) =>
      if ']' ∈ port then some netloc
      else if port = [] ∨ (parseInt port).isSome then some front
      else none
  host.map fun host =>
    if host.head? = some '[' ∧ host.getLast? = some ']' then (host.drop 1).dropLast else host

/-- `ftp_open`: the host to connect to. -/
def ftpHost (netloc : Text) : Text :=
  let host :=
    match rpartition ':' netloc with
    | none => netloc
    | some (front, port) => if port.all Char.isDigit then front else netloc
  ((rpartition '@' host).map Prod.snd).getD host

/-- The host of a URL with an authority. -/
def hostOf [DigitRuntime] (parts : SplitResult) : Option Text :=
  if parts.scheme = ftp then some (ftpHost parts.netloc) else httpHost parts.netloc

/-- The address a URL is opened at, if it is one that can be opened over the network. -/
def dialled [DigitRuntime] (url : SplitResult) : Option Text :=
  if url.netloc = [] then none
  else if url.scheme = http ∨ url.scheme = https ∨ url.scheme = ftp then hostOf url
  else none

def redirectCodes : List ℕ := [301, 302, 303, 307, 308]

/-- What the client does with a reply. -/
inductive Turn where
  | answered
  | malformed
  | follow (location : Text) (url : SplitResult)

/-- Whether a request is sent on by a reply. -/
def mayFollow (request : Request) (reply : Reply) : Bool :=
  reply.status ∈ redirectCodes ∧ (request.method = "GET" ∨ request.method = "HEAD") ∨
    reply.status ∈ [301, 302, 303] ∧ request.method = "POST"

/-- A host has a root. -/
def withRoot (parts : SplitResult) : SplitResult :=
  if parts.path = [] ∧ parts.netloc ≠ [] then { parts with path := ['/'] } else parts

/-- `http_error_302` and `redirect_request`. -/
def turn (request : Request) (reply : Reply) : Turn :=
  match reply.location.or reply.uri with
  | none => .answered
  | some location =>
    match urlsplit location with
    | none => if reply.status ∈ redirectCodes then .malformed else .answered
    | some parts =>
      if mayFollow request reply ∧ [http, https, ftp, []].contains parts.scheme then
        .follow location (urljoin request.url (withRoot parts))
      else .answered

/-- `CONTENT_HEADERS` -/
def contentHeaders : List String := ["content-length", "content-type"]

def redirectRequest [Runtime] (request : Request) (url : SplitResult) : Request where
  method := "GET"
  url := url
  headers := request.headers.filter fun e => decide (lower e.1 ∉ contentHeaders)

def maxRepeats : ℕ := 4

def maxRedirections : ℕ := 10

inductive Outcome where
  | raised
  | answered (status : Option ℕ) (reply : Reply)

/-- `urlopen`, where the replies are those to come. -/
def urlopen [DigitRuntime] : List (Option Reply) → Dict SplitResult ℕ → Request → Net → Outcome × Net
  | replies, visited, request, net =>
    match dialled request.url with
    | none => (.raised, { net with replies := replies })
    | some address =>
      let net := net.connect address request
      match replies with
      | [] => (.raised, { net with replies := [] })
      | none :: rest => (.raised, { net with replies := rest })
      | some reply :: rest =>
        if request.url.scheme = ftp then (.answered none reply, { net with replies := rest })
        else
          match turn request reply with
          | .malformed => (.raised, { net with replies := rest })
          | .answered => (.answered (some reply.status) reply, { net with replies := rest })
          | .follow location url =>
            if maxRepeats ≤ visited.getD url 0 ∨ maxRedirections ≤ visited.items.length then
              (.answered (some reply.status) reply, { net with replies := rest })
            else
              urlopen rest (visited.set url (visited.getD url 0 + 1)) (redirectRequest request url)
                { net with followed := net.followed ++ [location] }

end Opening

/-! ## The two transports -/

section Transports

/-- A body, before it is encoded. -/
inductive Body where
  | none
  | json (fields : Dict String String)
  | data (fields : Dict String String)

structure Response where
  status : Option ℤ
  body : String
  error : Option String := none
  cookies : List String := []

/-- The status is no number where the exchange was not HTTP. -/
def Response.ok (r : Response) : Except Raised Bool :=
  match r.status with
  | none => .error .typeError
  | some status => .ok (decide (200 ≤ status ∧ status < 300))

/-- `headers.setdefault("Content-Type", ...)` -/
def withContentType (headers : Dict String String) : Body → Dict String String
  | .none => headers
  | .json _ => headers.setdefault "Content-Type" "application/json"
  | .data _ => headers.setdefault "Content-Type" "application/x-www-form-urlencoded"

/-- `f":{parts.port}" if parts.port else ""` -/
def portText : Option ℕ → Text
  | none => []
  | some port => if port = 0 then [] else ':' :: digits port

/-- The request, its URL rewritten to the address it is pinned to. -/
def pinned (method : String) (url : String) (headers : Dict String String) (connectTo : Option Text) :
    Except Raised Request := do
  let some parts := urlsplit url.toList | .error .valueError
  let request ← match connectTo with
    | none => pure { method := method, url := parts, headers := headers }
    | some connectTo =>
      if connectTo = [] then pure { method := method, url := parts, headers := headers }
      else
        let some port := parts.port | .error .valueError
        pure
          { method := method
            url := { parts with netloc := connectTo ++ portText port }
            headers := headers.setdefault "Host" (String.ofList parts.netloc) }
  -- `Request(url)` takes no URL without a scheme
  if request.url.scheme = [] then .error .valueError else pure request

/-- Opening the URL of a request, as a program. -/
def opened [DigitRuntime] (request : Request) : Program Net Raised Outcome :=
  Program.step fun net => urlopen net.replies Dict.empty request net

def responseOf : Outcome → Response
  | .raised => { status := some 0, body := "", error := some "urlopen" }
  | .answered status reply =>
    { status := status.map fun status => (status : ℤ), body := reply.body, cookies := reply.cookies }

/-- `DirectHttp.request` -/
def DirectHttp.request [DigitRuntime] (method url : String) (body : Body) (headers : Dict String String)
    (connectTo : Option Text) : Program Net Raised Response :=
  match pinned (upper method) url (withContentType headers body) connectTo with
  | .error e => throw e
  | .ok request => responseOf <$> opened request

/-- How the next client in a container ends. -/
def nextExec (net : Net) : Exec × Net :=
  match net.execs with
  | [] => (.failed "", net)
  | exec :: rest => (exec, { net with execs := rest })

/-- `ExecHttp.request`, and `_CLIENT_SRC` in the container. -/
def ExecHttp.request [DigitRuntime] (method url : String) (body : Body) (headers : Dict String String)
    (connectTo : Option Text) : Program Net Raised Response := do
  match ← Program.step nextExec with
  | .failed stderr =>
    return { status := some 0, body := "", error := some ("docker exec failed: " ++ stderr) }
  | exec =>
    match pinned (upper method) url (withContentType headers body) connectTo with
    | .error _ => return { status := some 0, body := "", error := some "docker exec failed: " }
    | .ok request =>
      let outcome ← opened request
      match exec with
      | .unparsable stdout =>
        return { status := some 0, body := "", error := some ("unparsable client output: " ++ stdout) }
      | _ =>
        let response := responseOf outcome
        if response.status = none then throw .typeError else return response

inductive Transport where
  | exec
  | direct

def Transport.request [DigitRuntime] :
    Transport → String → String → Body → Dict String String → Option Text → Program Net Raised Response
  | .exec => ExecHttp.request
  | .direct => DirectHttp.request

end Transports

/-! ## Where the connections go -/

/-- An address that is pinned to, as docker names it. -/
structure Address where
  text : Text
  named : text ≠ [] ∧ ∀ c ∈ text, (c.isAlphanum || c = '.' || c = '-') = true

section Pinning

variable [DigitRuntime] (connectTo : Address)

/-- A location without a host of its own, or with the one that is pinned to. -/
def Stays (location : Text) : Prop :=
  ∀ parts, urlsplit location = some parts → parts.netloc ≠ [] → ∀ address ∈ hostOf parts, address = connectTo.text

/-- Every connection so far went to the address. -/
def Pinned (net : Net) : Prop := ∀ c ∈ net.connections, c.address = connectTo.text

/-- Every location so far stayed at the address. -/
def Staying (net : Net) : Prop := ∀ location ∈ net.followed, Stays connectTo location

/-- The request goes to the address, if it goes anywhere. -/
def Aims (request : Request) : Prop := ∀ address ∈ dialled request.url, address = connectTo.text

variable {connectTo}

omit [DigitRuntime] in
theorem notMem_address {c : Char} (hc : (c.isAlphanum || c = '.' || c = '-') = false) : c ∉ connectTo.text := by
  intro h
  rw [connectTo.named.2 c h] at hc
  cases hc

omit [DigitRuntime] in
theorem notMem_digits {n : ℕ} {c : Char} (hc : c.isDigit = false) : c ∉ digits n := Infra.notMem_digits hc

/-- A port the client reads back. -/
theorem httpHost_port {port : ℕ} (h : port ≤ 65535) : httpHost (connectTo.text ++ ':' :: digits port) = some connectTo.text := by
  have hcolon : ':' ∉ digits port := notMem_digits (by decide)
  have hbracket : ']' ∉ digits port := notMem_digits (by decide)
  have hlength : (digits port).length ≤ 5 := Infra.length_digits_le (by decide) (by omega)
  have hport : parseInt (digits port) = some (port : ℤ) :=
    Infra.parseInt_digits (by rw [Infra.maxStrDigits]; omega)
  have hopen : ¬ (connectTo.text.head? = some '[' ∧ connectTo.text.getLast? = some ']') := by
    rintro ⟨h, -⟩
    exact notMem_address (by decide) (List.mem_of_mem_head? h)
  rw [httpHost, rpartition_append hcolon]
  dsimp only
  rw [if_neg hbracket, if_pos (Or.inr (by rw [hport]; rfl)), Option.map_some, if_neg hopen]

theorem httpHost_plain : httpHost connectTo.text = some connectTo.text := by
  have hopen : ¬ (connectTo.text.head? = some '[' ∧ connectTo.text.getLast? = some ']') := by
    rintro ⟨h, -⟩
    exact notMem_address (by decide) (List.mem_of_mem_head? h)
  rw [httpHost, rpartition_of_notMem (notMem_address (by decide))]
  dsimp only
  rw [Option.map_some, if_neg hopen]

omit [DigitRuntime] in
theorem ftpHost_port (port : ℕ) : ftpHost (connectTo.text ++ ':' :: digits port) = connectTo.text := by
  have hcolon : ':' ∉ digits port := notMem_digits (by decide)
  have hdigits : (digits port).all Char.isDigit = true :=
    List.all_eq_true.mpr fun c hc => Infra.isDigit_of_mem_digits hc
  rw [ftpHost, rpartition_append hcolon]
  dsimp only
  rw [if_pos hdigits, rpartition_of_notMem (notMem_address (by decide))]
  rfl

omit [DigitRuntime] in
theorem ftpHost_plain : ftpHost connectTo.text = connectTo.text := by
  rw [ftpHost, rpartition_of_notMem (notMem_address (by decide))]
  dsimp only
  rw [rpartition_of_notMem (notMem_address (by decide))]
  rfl

/-- A rewritten URL is opened at the address. -/
theorem hostOf_pinned {parts : SplitResult} {port : Option ℕ} (h : parts.port = some port) :
    hostOf { parts with netloc := connectTo.text ++ portText port } = some connectTo.text := by
  have hplain : hostOf { parts with netloc := connectTo.text } = some connectTo.text := by
    rw [hostOf]
    dsimp only
    split_ifs
    · rw [ftpHost_plain]
    · exact httpHost_plain
  cases port with
  | none => rwa [portText, List.append_nil]
  | some port =>
    by_cases hzero : port = 0
    · rwa [portText, if_pos hzero, List.append_nil]
    · rw [portText, if_neg hzero, hostOf]
      dsimp only
      split_ifs
      · rw [ftpHost_port]
      · exact httpHost_port (SplitResult.port_le h)

theorem aims_of_hostOf {request : Request} (h : hostOf request.url = some connectTo.text) :
    Aims connectTo request := by
  intro address haddress
  rw [dialled] at haddress
  split_ifs at haddress
  · cases haddress
  · rw [h] at haddress
    exact (Option.some.inj haddress).symm
  · cases haddress

/-- What is pinned goes to the address. -/
theorem aims_pinned {method url : String} {headers : Dict String String} {request : Request}
    (h : pinned method url headers (some connectTo.text) = .ok request) : Aims connectTo request := by
  rw [pinned] at h
  cases hsplit : urlsplit url.toList with
  | none =>
    rw [hsplit] at h
    cases h
  | some parts =>
    rw [hsplit] at h
    dsimp only at h
    rw [if_neg connectTo.named.1] at h
    cases hport : parts.port with
    | none =>
      rw [hport] at h
      cases h
    | some port =>
      rw [hport] at h
      have hone : (if parts.scheme = [] then Except.error Raised.valueError
          else Except.ok (ε := Raised)
            { method := method, url := { parts with netloc := connectTo.text ++ portText port }
              headers := headers.setdefault "Host" (String.ofList parts.netloc) }) = .ok request := h
      split_ifs at hone
      rw [← Except.ok.inj hone]
      exact aims_of_hostOf (hostOf_pinned hport)

/-! ## Following a redirect -/

omit connectTo in
theorem dialled_congr {url url' : SplitResult} (hscheme : url.scheme = url'.scheme)
    (hnetloc : url.netloc = url'.netloc) : dialled url = dialled url' := by
  rw [dialled, dialled, hostOf, hostOf, hscheme, hnetloc]

omit [DigitRuntime] in
theorem turn_eq_follow {request : Request} {reply : Reply} {location : Text} {url : SplitResult}
    (h : turn request reply = .follow location url) :
    reply.location.or reply.uri = some location ∧ ∃ parts, urlsplit location = some parts ∧
      parts.scheme ∈ [http, https, ftp, []] ∧ url = urljoin request.url (withRoot parts) := by
  rw [turn] at h
  cases hlocation : reply.location.or reply.uri with
  | none =>
    rw [hlocation] at h
    cases h
  | some written =>
    rw [hlocation] at h
    dsimp only at h
    cases hsplit : urlsplit written with
    | none =>
      rw [hsplit] at h
      dsimp only at h
      split_ifs at h
    | some parts =>
      rw [hsplit] at h
      dsimp only at h
      split_ifs at h with hfollow
      cases h
      exact ⟨rfl, parts, hsplit, List.contains_iff_mem.mp hfollow.2, rfl⟩

omit [DigitRuntime] in
theorem withRoot_spec (parts : SplitResult) :
    (withRoot parts).scheme = parts.scheme ∧ (withRoot parts).netloc = parts.netloc := by
  rw [withRoot]
  split_ifs
  · exact ⟨rfl, rfl⟩
  · exact ⟨rfl, rfl⟩

/-- What a location leads to from a page of the address. -/
theorem aims_urljoin {base parts : SplitResult} (hbase : base.scheme = http ∨ base.scheme = https)
    (hopen : dialled base = some connectTo.text) (hparts : parts.scheme ∈ [http, https, ftp, []]) :
    (∀ address ∈ dialled (urljoin base parts), address = connectTo.text) ↔
      (parts.netloc ≠ [] → ∀ address ∈ hostOf parts, address = connectTo.text) := by
  have hrelative : base.scheme ∈ usesRelative := by
    rcases hbase with h | h
    · rw [h]
      decide
    · rw [h]
      decide
  by_cases hnetloc : parts.netloc = []
  · refine iff_of_true (fun address haddress => ?_) fun h => absurd hnetloc h
    by_cases hscheme : parts.scheme = [] ∨ parts.scheme = base.scheme
    · obtain ⟨hs, hn⟩ := urljoin_relative hrelative hscheme hnetloc
      rw [dialled_congr hs hn, hopen] at haddress
      exact (Option.some.inj haddress).symm
    · rw [not_or] at hscheme
      rw [urljoin_other hscheme.1 hscheme.2, dialled, if_pos hnetloc] at haddress
      cases haddress
  · obtain ⟨hs, hn⟩ := urljoin_named hrelative hnetloc
    have hhost : dialled (urljoin base parts) = hostOf parts := by
      rw [dialled, hostOf, hostOf, hs, hn, if_neg hnetloc]
      by_cases hscheme : parts.scheme = []
      · -- the scheme of the page, which is not `ftp`
        rcases hbase with h | h
        · simp [hscheme, h, http, ftp]
        · simp [hscheme, h, https, ftp]
      · rw [if_neg hscheme, if_pos (by simpa [hscheme] using hparts)]
    rw [hhost]
    exact ⟨fun h _ => h, fun h => h hnetloc⟩

/-- A redirect keeps to the address just if its location stays there. -/
theorem aims_follow {request : Request} {reply : Reply} {location : Text} {url : SplitResult}
    (hopen : dialled request.url = some connectTo.text) (hftp : request.url.scheme ≠ ftp)
    (h : turn request reply = .follow location url) :
    Aims connectTo (redirectRequest request url) ↔ Stays connectTo location := by
  have hbase : request.url.scheme = http ∨ request.url.scheme = https := by
    rw [dialled] at hopen
    split_ifs at hopen with hnetloc hscheme
    rcases hscheme with h | h | h
    · exact Or.inl h
    · exact Or.inr h
    · exact absurd h hftp
  obtain ⟨_, parts, hsplit, hscheme, rfl⟩ := turn_eq_follow h
  obtain ⟨hs, hn⟩ := withRoot_spec parts
  have hhost : hostOf (withRoot parts) = hostOf parts := by rw [hostOf, hostOf, hs, hn]
  have hroot : (withRoot parts).scheme ∈ [http, https, ftp, []] := by
    rw [hs]
    exact hscheme
  have hjoin := aims_urljoin hbase hopen hroot
  rw [hn, hhost] at hjoin
  refine hjoin.trans ?_
  rw [Stays]
  constructor
  · intro hstays parts' hparts'
    rw [hsplit] at hparts'
    obtain rfl := Option.some.inj hparts'
    exact hstays
  · intro hstays
    exact hstays parts hsplit

/-! ## An exchange -/

theorem aims_iff {request : Request} {address : Text} (h : dialled request.url = some address) :
    Aims connectTo request ↔ address = connectTo.text := by
  rw [Aims, h]
  simp

theorem aims_of_none {request : Request} (h : dialled request.url = none) : Aims connectTo request := by
  rw [Aims, h]
  simp

omit [DigitRuntime] in
theorem pinned_connect (net : Net) (address : Text) (request : Request) :
    Pinned connectTo (net.connect address request) ↔ Pinned connectTo net ∧ address = connectTo.text := by
  simp [Pinned, Net.connect, or_imp, forall_and]

/-- The connections went to the address, and the next one will, just if the locations so far stayed there. -/
theorem urlopen_pinned (replies : List (Option Reply)) (visited : Dict SplitResult ℕ) (request : Request)
    (net : Net) (h : Pinned connectTo net ∧ Aims connectTo request ↔ Staying connectTo net) :
    Pinned connectTo (urlopen replies visited request net).2 ↔
      Staying connectTo (urlopen replies visited request net).2 := by
  induction replies generalizing visited request net with
  | nil =>
    rw [urlopen]
    cases hopen : dialled request.url with
    | none =>
      exact (and_iff_left (aims_of_none hopen)).symm.trans h
    | some address =>
      rw [aims_iff hopen] at h
      exact (pinned_connect net address request).trans h
  | cons reply replies ih =>
    rw [urlopen]
    cases hopen : dialled request.url with
    | none =>
      exact (and_iff_left (aims_of_none hopen)).symm.trans h
    | some address =>
      rw [aims_iff hopen] at h
      have hconnect : Pinned connectTo (net.connect address request) ↔ Staying connectTo net :=
        (pinned_connect net address request).trans h
      dsimp only
      cases reply with
      | none => exact hconnect
      | some reply =>
        dsimp only
        by_cases hftp : request.url.scheme = ftp
        · rw [if_pos hftp]
          exact hconnect
        rw [if_neg hftp]
        cases hturn : turn request reply with
        | answered => exact hconnect
        | malformed => exact hconnect
        | follow location url =>
          dsimp only
          by_cases hlimit : maxRepeats ≤ visited.getD url 0 ∨ maxRedirections ≤ visited.items.length
          · rw [if_pos hlimit]
            exact hconnect
          rw [if_neg hlimit]
          apply ih
          have hstaying : Staying connectTo { net.connect address request with followed := net.followed ++ [location] } ↔
              Staying connectTo net ∧ Stays connectTo location := by
            simp [Staying, or_imp, forall_and]
          rw [show (net.connect address request).followed = net.followed from rfl, hstaying, ← hconnect]
          refine and_congr_right fun hpinned => ?_
          have haddress : address = connectTo.text := ((pinned_connect net address request).mp hpinned).2
          rw [haddress] at hopen
          exact aims_follow hopen hftp hturn

/-- The connections all went to the address just if the locations all stayed there. -/
def Tied (connectTo : Address) (net : Net) : Prop := Pinned connectTo net ↔ Staying connectTo net

theorem keeps_opened {request : Request} (h : Aims connectTo request) :
    (opened request).Keeps (Tied connectTo) := by
  apply Program.Keeps.step
  intro net hnet
  exact urlopen_pinned net.replies Dict.empty request net ((and_iff_left h).trans hnet)

end Pinning

/-! ## What a request keeps -/

section Keeping

variable [DigitRuntime] {P : Net → Prop} {connectTo : Option Text}
  (hexecs : ∀ net execs, P net → P { net with execs := execs })
  (hopened : ∀ method url headers request, pinned method url headers connectTo = .ok request →
    (opened request).Keeps P)

include hopened

theorem keeps_direct (method url : String) (body : Body) (headers : Dict String String) :
    (DirectHttp.request method url body headers connectTo).Keeps P := by
  rw [DirectHttp.request]
  cases hpinned : pinned (upper method) url (withContentType headers body) connectTo with
  | error e => exact Program.Keeps.throw e
  | ok request => exact (hopened _ _ _ _ hpinned).map _

include hexecs

theorem keeps_exec (method url : String) (body : Body) (headers : Dict String String) :
    (ExecHttp.request method url body headers connectTo).Keeps P := by
  rw [ExecHttp.request]
  refine Program.Keeps.bind (Program.Keeps.step ?_) fun exec => ?_
  · intro net hnet
    rw [nextExec]
    split
    · exact hnet
    · exact hexecs net _ hnet
  cases exec with
  | failed stderr => exact Program.Keeps.pure _
  | unparsable stdout =>
    dsimp only
    cases hpinned : pinned (upper method) url (withContentType headers body) connectTo with
    | error e => exact Program.Keeps.pure _
    | ok request => exact (hopened _ _ _ _ hpinned).bind fun _ => Program.Keeps.pure _
  | printed =>
    dsimp only
    cases hpinned : pinned (upper method) url (withContentType headers body) connectTo with
    | error e => exact Program.Keeps.pure _
    | ok request =>
      refine (hopened _ _ _ _ hpinned).bind fun outcome => ?_
      exact Program.Keeps.ite (fun _ => Program.Keeps.throw _) fun _ => Program.Keeps.pure _

/-- A request keeps what opening its URL keeps, through either transport. -/
theorem keeps_request (transport : Transport) (method url : String) (body : Body) (headers : Dict String String) :
    (transport.request method url body headers connectTo).Keeps P := by
  cases transport with
  | exec => exact keeps_exec hexecs hopened method url body headers
  | direct => exact keeps_direct hopened method url body headers

end Keeping

end PtaasBench.Runners.InternalHttp
