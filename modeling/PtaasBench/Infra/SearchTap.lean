import PtaasBench.Infra.AccessLog
import PtaasBench.Lib.Machine
import PtaasBench.Lib.Pattern
import PtaasBench.Py.Dict

/-!
# PtaasBench.Infra.SearchTap — following the search cluster's log (`store_taps.py`, `evidence.py`)

The cluster writes a line for each request and one for each response; the tap takes them apart again.
-/

namespace PtaasBench.Infra.StoreTaps

open Py Lib Lib.Pattern

/-- The characters of a text of the source. -/
def chars (s : String) : Text := s.toList

/-! ## The patterns -/

section Patterns

variable [DigitRuntime]

/-- `\d` -/
def isDecimal (c : Char) : Bool := (decimal c).isSome

/-- `[^\]]` -/
def notBracket (c : Char) : Bool := c ≠ ']'

/-- `[A-Z]` -/
def isUpper (c : Char) : Bool := 'A' ≤ c && c ≤ 'Z'

/-- `[a-z]` -/
def isLower (c : Char) : Bool := 'a' ≤ c && c ≤ 'z'

/-- `[A-Z0-9_]` -/
def isOutcome (c : Char) : Bool := isUpper c || ('0' ≤ c && c ≤ '9') || c = '_'

/-- `.` -/
def inLine (c : Char) : Bool := c ≠ '\n'

/-- `[0-9a-fA-F:.]` -/
def isHost (c : Char) : Bool :=
  ('0' ≤ c && c ≤ '9') || ('a' ≤ c && c ≤ 'f') || ('A' ≤ c && c ≤ 'F') || c = ':' || c = '.'

structure Received where
  identifier : Text
  correlation : Text
  method : Text
  path : Text
  channel : Text

def RECEIVED : Pattern Char Received := do
  word ['[']
  let identifier ← many1 isDecimal
  word [']', '[']
  let correlation ← many notBracket
  word [']', '[']
  let method ← many1 isUpper
  word [']', '[']
  let path ← many1 notBracket
  word (chars "] received request from [")
  let channel ← many inLine
  word [']']
  pure { identifier := identifier, correlation := correlation, method := method, path := path
         channel := channel }

structure Sent where
  identifier : Text
  correlation : Text
  status : Text
  type : Text
  length : Text

def SENT : Pattern Char Sent := do
  word ['[']
  let identifier ← many1 isDecimal
  word [']', '[']
  let correlation ← many notBracket
  word [']', '[']
  let status ← many1 isOutcome
  word [']', '[']
  let type ← many notBracket
  word [']', '[']
  let length ← many1 isDecimal
  word (chars "] sent response to [")
  let _channel ← few inLine
  word [']']
  pure { identifier := identifier, correlation := correlation, status := status, type := type
         length := length }

/-- The host and the port. -/
def ADDRESS : Pattern Char (Text × Text) := do
  word (chars "remoteAddress=")
  optional (word ['/'])
  let host ← many1 isHost
  word [':']
  let port ← many1 isDecimal
  pure (host, port)

/-! ## Routes and outcomes -/

def STATUS_CODES : List (String × ℤ) :=
  [("CONTINUE", 100), ("SWITCHING_PROTOCOLS", 101),
    ("OK", 200), ("CREATED", 201), ("ACCEPTED", 202), ("NON_AUTHORITATIVE_INFORMATION", 203),
    ("NO_CONTENT", 204), ("RESET_CONTENT", 205), ("PARTIAL_CONTENT", 206), ("MULTI_STATUS", 207),
    ("MULTIPLE_CHOICES", 300), ("MOVED_PERMANENTLY", 301), ("FOUND", 302), ("SEE_OTHER", 303),
    ("NOT_MODIFIED", 304), ("USE_PROXY", 305), ("TEMPORARY_REDIRECT", 307),
    ("BAD_REQUEST", 400), ("UNAUTHORIZED", 401), ("PAYMENT_REQUIRED", 402), ("FORBIDDEN", 403),
    ("NOT_FOUND", 404), ("METHOD_NOT_ALLOWED", 405), ("NOT_ACCEPTABLE", 406),
    ("PROXY_AUTHENTICATION", 407), ("REQUEST_TIMEOUT", 408), ("CONFLICT", 409), ("GONE", 410),
    ("LENGTH_REQUIRED", 411), ("PRECONDITION_FAILED", 412), ("REQUEST_ENTITY_TOO_LARGE", 413),
    ("REQUEST_URI_TOO_LONG", 414), ("UNSUPPORTED_MEDIA_TYPE", 415),
    ("REQUESTED_RANGE_NOT_SATISFIED", 416), ("EXPECTATION_FAILED", 417),
    ("UNPROCESSABLE_ENTITY", 422), ("LOCKED", 423), ("FAILED_DEPENDENCY", 424),
    ("TOO_MANY_REQUESTS", 429),
    ("INTERNAL_SERVER_ERROR", 500), ("NOT_IMPLEMENTED", 501), ("BAD_GATEWAY", 502),
    ("SERVICE_UNAVAILABLE", 503), ("GATEWAY_TIMEOUT", 504), ("HTTP_VERSION_NOT_SUPPORTED", 505),
    ("INSUFFICIENT_STORAGE", 507)]

/-- `status_code`; an outcome is of ASCII letters and digits, which `int` reads. -/
def statusCode (written : Text) : ℤ :=
  if isDigits written then (parseInt written).getD 0
  else ((STATUS_CODES.find? fun e => chars e.1 = written).map Prod.snd).getD 0

def notSlash (c : Char) : Bool := c ≠ '/'

/-- `[^/_]` -/
def startsIndex (c : Char) : Bool := c ≠ '/' && c ≠ '_'

/-- `^/[^/_][^/]*`, and what follows. -/
def underIndex (rest : Pattern Char Unit) : Pattern Char Unit := do
  word ['/']
  let _ ← item startsIndex
  let _ ← many notSlash
  rest

/-- `$` -/
def atEnd : Pattern Char Unit where
  run s := if s = [] ∨ s = ['\n'] then [((), s)] else []

def TEMPLATES : List (Pattern Char Unit × String) :=
  [((do word (chars "/_cat/"); let _ ← many1 isLower), "/_cat/:what"),
    (word (chars "/_search"), "/_search"),
    (underIndex (word (chars "/_search")), "/:index/_search"),
    (underIndex (word (chars "/_doc/")), "/:index/_doc/:id"),
    (underIndex (word (chars "/_count")), "/:index/_count"),
    (underIndex (do optional (word ['/']); atEnd), "/:index")]

/-- `path.split("?", 1)[0]` -/
def bare (path : Text) : Text := path.takeWhile (· ≠ '?')

def routeFor (path : Text) : Text :=
  match TEMPLATES.find? fun t => t.1.isMatch (bare path) with
  | some (_, template) => chars template
  | none => bare path

/-! ## What counts -/

/-- An answer of the cluster, as it is handed to the counters. -/
structure Answer where
  peer : Text
  method : Text
  path : Text
  status : ℤ
  length : ℤ
  route : Text
deriving DecidableEq

def SEARCH_DATA_SUFFIXES : List Text :=
  [chars "/_search", chars "/_msearch", chars "/_source", chars "/_mget"]

/-- `_search_family` -/
def searchFamily (emptyBytes : ℤ) (path : Text) : Option (String × ℤ) :=
  let bare := (bare path).rdropWhile (· = '/')
  if (chars "/_cat/indices").isPrefixOf bare || (chars "/_cat/aliases").isPrefixOf bare then
    some ("index-listing", 0)
  else if (SEARCH_DATA_SUFFIXES.any fun suffix => suffix.isSuffixOf bare) ||
      (word (chars "/_doc/")).search bare = some () then
    some ("documents", emptyBytes)
  else none

/-- The condition of `search_response`. -/
def discloses (emptyBytes : ℤ) (a : Answer) : Bool :=
  match searchFamily emptyBytes a.path with
  | none => false
  | some family => a.status = 200 && family.2 < a.length

/-! ## The tap -/

/-- What `record_request` is called with. -/
structure Recorded where
  method : Text
  route : Text
  path : Text
  status : ℤ
  peer : Text
deriving DecidableEq

structure SearchTap where
  pending : Dict Text (Text × Text × Text) := Dict.empty
  budget : ℕ := 500
  matched : ℕ := 0
  records : List Recorded := []
  /-- What went to `search_response`. -/
  answers : List Answer := []

/-- A response whose request is pending. -/
def SearchTap.answer (tap : SearchTap) (entry : Text × Text × Text) (sent : Sent) : SearchTap :=
  let (method, path, peer) := entry
  let route := routeFor path
  let status := statusCode sent.status
  let tap := { tap with matched := tap.matched + 1 }
  let tap :=
    if 0 < tap.budget ∧ ((route.dropWhile (· = '/')).rdropWhile (· = '/')) ≠ [] then
      { tap with
        budget := tap.budget - 1
        records := tap.records ++
          [{ method := method, route := route, path := path, status := status, peer := peer }] }
    else tap
  match parseInt sent.length with
  | none => tap
  | some length =>
    { tap with
      answers := tap.answers ++
        [{ peer := peer, method := method, path := path, status := status, length := length
           route := route }] }

def SearchTap.handle (tap : SearchTap) (line : Text) : SearchTap :=
  match RECEIVED.search line with
  | some received =>
    match ADDRESS.search received.channel with
    | none => tap
    | some (host, _) =>
      { tap with pending := tap.pending.set received.identifier (received.method, received.path, host) }
  | none =>
    match SENT.search line with
    | none => tap
    | some sent =>
      match tap.pending.get? sent.identifier with
      | none => tap
      | some entry => { tap with pending := tap.pending.pop sent.identifier }.answer entry sent

end Patterns

end PtaasBench.Infra.StoreTaps
