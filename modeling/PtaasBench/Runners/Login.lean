import PtaasBench.Infra.LogForgery
import PtaasBench.Py.JsonText
import PtaasBench.Runners.InternalHttp

/-!
# PtaasBench.Runners.Login — a session for the tools that cannot log in (`_lib/login.py`)

Logging in is up to three exchanges with the target, all of them pinned to its internal address.
-/

namespace PtaasBench.Runners.Login

open Py Lib
open Infra (DigitRuntime Text digits)
open Runners.InternalHttp

class LoginRuntime extends DigitRuntime where
  /-- `base64.b64encode(s.encode()).decode()` -/
  b64encode : String → String
  /-- `re.search(pattern, text) is not None`; `none` is an `re.error` -/
  search : String → String → Option Bool
  /-- `template.format(token=token)`; `none` where it raises -/
  format : String → String → Option String

export LoginRuntime (b64encode search format)

structure Credentials where
  app : String
  kind : String := "form"
  loginUrl : Option String := none
  loginPageUrl : Option String := none
  username : String := ""
  password : String := ""
  usernameField : String := "username"
  passwordField : String := "password"
  extraFields : Dict String String := Dict.empty
  loggedInRegex : Option String := none
  loggedOutRegex : Option String := none
  verifyUrl : Option String := none
  tokenJsonPath : Option String := none
  session : String := "cookie"
  headerName : String := "Authorization"
  headerTemplate : String := "Bearer \x7btoken\x7d"

/-- `{**a, **b}` -/
def merged (a b : Dict String String) : Dict String String := b.items.foldl (fun d e => d.set e.1 e.2) a

def Credentials.loginBody (creds : Credentials) : Dict String String :=
  merged ((Dict.empty.set creds.usernameField creds.username).set creds.passwordField creds.password)
    creds.extraFields

structure Session where
  app : String
  cookies : Dict String String := Dict.empty
  headers : Dict String String := Dict.empty
  token : Option String := none
  verified : Bool := false
  detail : String := ""

/-- `"; ".join(f"{k}={v}" for k, v in cookies.items())` -/
def cookieText (cookies : Dict String String) : String :=
  String.intercalate "; " (cookies.items.map fun e => e.1 ++ "=" ++ e.2)

def Session.asHeaders (session : Session) : Dict String String :=
  if session.cookies.items = [] then session.headers
  else session.headers.set "Cookie" (cookieText session.cookies)

/-- `_parse_set_cookie` -/
def parseSetCookie (lines : List String) : Dict String String :=
  lines.foldl
    (fun jar line =>
      let first := strip (beforeChar ';' line)
      if '=' ∉ first.toList then jar
      else
        let name := strip (String.ofList (partition '=' first.toList).1)
        let value := strip (String.ofList (partition '=' first.toList).2)
        if (value = "" ∨ value = "\"\"") ∧ jar.contains name then jar.pop name
        else if name = "" then jar
        else jar.set name value)
    Dict.empty

section Establish

variable [LoginRuntime]

/-- `cur[int(part)]`, where negative numbers count from the end. -/
def item (items : List Json) (part : String) : Option Json :=
  match Infra.parseInt part.toList with
  | none => none
  | some i => if 0 ≤ i then items[i.toNat]? else if -items.length ≤ i then items[(items.length + i).toNat]? else none

/-- `_dig` -/
def dig (obj : Json) (dotted : String) : Json :=
  go obj (splitChar '.' dotted)
where
  go (cur : Json) : List String → Json
    | [] => cur
    | part :: parts =>
      match cur with
      | .arr items =>
        match item items part with
        | some x => go x parts
        | none => .null
      | .obj fields => go (Obj.get fields part) parts
      | _ => .null

/-- `if text:` of an optional text -/
def given (text : Option String) : Option String := text.filter (· ≠ "")

def loginError {α : Type} (message : String) : Program Net Raised α := throw (.loginError message)

/-- `{res.status} {res.error or res.body[:200]}` -/
def statusText (res : Response) : String :=
  (res.status.map toString).getD "None" ++ " " ++ ((given res.error).getD (String.ofList (res.body.toList.take 200)))

/-- The answer of a transport to whether it is ok. -/
def isOk (res : Response) : Program Net Raised Bool :=
  match res.ok with
  | .ok b => pure b
  | .error e => throw e

/-- `_dig(json.loads(res.body or "{}"), path)`, `None` where the body is no JSON. -/
def tokenOf (body path : String) : Json :=
  match loads (if body = "" then "\x7b\x7d" else body) with
  | none => .null
  | some document => dig document path

/-- The token in the login response, where one is looked for. -/
def withToken (creds : Credentials) (session : Session) (body : String) : Program Net Raised Session :=
  match given creds.tokenJsonPath with
  | none => pure session
  | some path =>
    match tokenOf body path with
    | .null => loginError (creds.app ++ ": no token at " ++ Runtime.reprStr path ++ " in the login response")
    | token => pure { session with token := some token.pyStr }

/-- The header that carries the token, where the session is one. -/
def withHeader (creds : Credentials) (session : Session) : Program Net Raised Session :=
  if creds.session = "bearer" ∨ creds.session = "header" then
    match given session.token with
    | none => loginError (creds.app ++ ": session=" ++ creds.session ++ " requires token_json_path")
    | some token =>
      match format creds.headerTemplate token with
      | none => throw .formatError
      | some value => pure { session with headers := session.headers.set creds.headerName value }
  else pure session

/-- Reading the session out of the login response. -/
def sessionOf (creds : Credentials) (session : Session) (preCookies : Dict String String) (loginUrl : String)
    (res : Response) : Program Net Raised Session := do
  let session := { session with cookies := merged preCookies (parseSetCookie res.cookies) }
  let session ← withToken creds session res.body
  let session ← withHeader creds session
  return { session with detail := creds.kind ++ " login at " ++ loginUrl }

/-- The cookies of the login page, if there is one. -/
def loginPage (http : Transport) (creds : Credentials) (connectTo : Option Text) :
    Program Net Raised (Dict String String) :=
  match given creds.loginPageUrl with
  | none => pure Dict.empty
  | some url => (fun pre => parseSetCookie pre.cookies) <$> http.request "GET" url .none Dict.empty connectTo

/-- Logging in over the login page and the login URL. -/
def login (http : Transport) (creds : Credentials) (session : Session) (connectTo : Option Text) :
    Program Net Raised (Session × Response) :=
  match given creds.loginUrl with
  | none => loginError (creds.app ++ ": credentials have no login_url")
  | some loginUrl => do
    let preCookies ← loginPage http creds connectTo
    let headers :=
      if preCookies.items = [] then Dict.empty else Dict.empty.set "Cookie" (cookieText preCookies)
    let body :=
      if creds.kind = "json" ∨ creds.kind = "bearer" then Body.json creds.loginBody
      else Body.data creds.loginBody
    let res ← http.request "POST" loginUrl body headers connectTo
    let ok ← isOk res
    if !ok then loginError (creds.app ++ ": login returned HTTP " ++ statusText res)
    else
      let session ← sessionOf creds session preCookies loginUrl res
      return (session, res)

/-- `re.search`, which may raise. -/
def searched (pattern text : String) : Program Net Raised Bool :=
  match search pattern text with
  | none => throw .patternError
  | some found => pure found

/-- An indicator counts while the response is ok, and where it is given. -/
def indicated (ok : Bool) (pattern : Option String) (text : String) (expected : Bool) : Program Net Raised Bool :=
  match ok, given pattern with
  | true, some pattern => (· == expected) <$> searched pattern text
  | _, _ => pure ok

/-- Whether a response shows the session to be logged in. -/
def markerOk (creds : Credentials) (check : Response) : Program Net Raised Bool := do
  let ok ← isOk check
  let ok ← indicated ok creds.loggedInRegex check.body true
  indicated ok creds.loggedOutRegex check.body false

def unverifiable : String :=
  ": nothing to verify the session against. An unverified session lets a silently anonymous scan be published " ++
    "as authenticated; give the credentials file a logged_in_indicator or a verify_url."

/-- Verifying a session, against its own page or else against the login response. -/
def verify (http : Transport) (creds : Credentials) (strict : Bool) (connectTo : Option Text) (session : Session)
    (loginResponse : Option Response) : Program Net Raised Session := do
  let judged (check : Response) (location : String) : Program Net Raised Session := do
    let ok ← markerOk creds check
    let session :=
      { session with
        verified := ok
        detail := session.detail ++ "; verified against " ++ location ++ " -> HTTP " ++
          (check.status.map toString).getD "None" }
    if !ok && strict then
      loginError (creds.app ++ ": session did not verify against " ++ location ++ " (HTTP " ++
        (check.status.map toString).getD "None" ++ "); refusing to run an 'authenticated' scan that is not one")
    else return session
  match given creds.verifyUrl with
  | some url =>
    let check ← http.request "GET" url .none session.asHeaders connectTo
    judged check url
  | none =>
    if (given creds.loggedInRegex).isSome || (given creds.loggedOutRegex).isSome then
      match loginResponse with
      -- HTTP basic has no login response
      | none => return { session with verified := false }
      | some check => judged check "the login response"
    else if strict then loginError (creds.app ++ unverifiable)
    else
      return { session with
        verified := false
        detail := session.detail ++ "; NOT VERIFIED (no verify_url and no logged-in indicator)" }

def establish (http : Transport) (creds : Credentials) (strict : Bool) (connectTo : Option Text) :
    Program Net Raised Session := do
  let session : Session := { app := creds.app }
  if creds.kind = "basic" then
    let session :=
      { session with
        headers := session.headers.set "Authorization"
          ("Basic " ++ b64encode (creds.username ++ ":" ++ creds.password))
        detail := "HTTP basic, no login request needed" }
    verify http creds strict connectTo session none
  else
    let (session, res) ← login http creds session connectTo
    verify http creds strict connectTo session (some res)

end Establish

/-! ## Every connection is a transport's -/

section Keeping

variable [LoginRuntime] {P : Net → Prop} {http : Transport} {connectTo : Option Text} (creds : Credentials)

open Program

omit [LoginRuntime] in
theorem keeps_isOk (res : Response) : (isOk res).Keeps P := by
  rw [isOk]
  cases res.ok with
  | ok b => exact Keeps.pure b
  | error e => exact Keeps.throw e

theorem keeps_withToken (session : Session) (body : String) : (withToken creds session body).Keeps P := by
  rw [withToken]
  cases given creds.tokenJsonPath with
  | none => exact Keeps.pure _
  | some path =>
    dsimp only
    cases tokenOf body path with
    | null => exact Keeps.throw _
    | _ => exact Keeps.pure _

theorem keeps_withHeader (session : Session) : (withHeader creds session).Keeps P := by
  rw [withHeader]
  refine Keeps.ite (fun _ => ?_) fun _ => Keeps.pure _
  cases given session.token with
  | none => exact Keeps.throw _
  | some token =>
    dsimp only
    cases format creds.headerTemplate token with
    | none => exact Keeps.throw _
    | some value => exact Keeps.pure _

theorem keeps_sessionOf (session : Session) (preCookies : Dict String String) (loginUrl : String)
    (res : Response) : (sessionOf creds session preCookies loginUrl res).Keeps P :=
  (keeps_withToken creds _ _).bind fun session => (keeps_withHeader creds session).bind fun _ => Keeps.pure _

theorem keeps_indicated (ok : Bool) (pattern : Option String) (text : String) (expected : Bool) :
    (indicated ok pattern text expected).Keeps P := by
  unfold indicated
  split
  · refine Keeps.map ?_ _
    rw [searched]
    split
    · exact Keeps.throw _
    · exact Keeps.pure _
  · exact Keeps.pure _

theorem keeps_markerOk (check : Response) : (markerOk creds check).Keeps P :=
  (keeps_isOk check).bind fun _ => (keeps_indicated _ _ _ _).bind fun _ => keeps_indicated _ _ _ _

variable (h : ∀ method url body headers, (http.request method url body headers connectTo).Keeps P)

include h

theorem keeps_loginPage : (loginPage http creds connectTo).Keeps P := by
  rw [loginPage]
  cases given creds.loginPageUrl with
  | none => exact Keeps.pure _
  | some url => exact (h _ _ _ _).map _

theorem keeps_login (session : Session) : (login http creds session connectTo).Keeps P := by
  rw [login]
  cases given creds.loginUrl with
  | none => exact Keeps.throw _
  | some loginUrl =>
    refine (keeps_loginPage creds h).bind fun preCookies => (h _ _ _ _).bind fun res => ?_
    refine (keeps_isOk res).bind fun ok => Keeps.ite (fun _ => Keeps.throw _) fun _ => ?_
    exact (keeps_sessionOf creds session preCookies loginUrl res).bind fun _ => Keeps.pure _

theorem keeps_verify (strict : Bool) (session : Session) (loginResponse : Option Response) :
    (verify http creds strict connectTo session loginResponse).Keeps P := by
  unfold verify
  cases given creds.verifyUrl with
  | some url =>
    refine (h _ _ _ _).bind fun check => (keeps_markerOk creds check).bind fun ok => ?_
    exact Keeps.ite (fun _ => Keeps.throw _) fun _ => Keeps.pure _
  | none =>
    refine Keeps.ite (fun _ => ?_) fun _ => Keeps.ite (fun _ => Keeps.throw _) fun _ => Keeps.pure _
    cases loginResponse with
    | none => exact Keeps.pure _
    | some check =>
      refine (keeps_markerOk creds check).bind fun ok => ?_
      exact Keeps.ite (fun _ => Keeps.throw _) fun _ => Keeps.pure _

theorem keeps_establish (strict : Bool) : (establish http creds strict connectTo).Keeps P := by
  rw [establish]
  refine Keeps.ite (fun _ => keeps_verify creds h strict _ _) fun _ => ?_
  exact (keeps_login creds h _).bind fun x => keeps_verify creds h strict _ _

end Keeping

/-! ## Where the harness's traffic arrives -/

section Arrival

variable [LoginRuntime] (http : Transport) (creds : Credentials) (strict : Bool) (connectTo : Address)
  (replies : List (Option Reply)) (execs : List Exec)

/-- What logging in leaves of the network. -/
def loggedIn : Net :=
  (establish http creds strict (some connectTo.text)).after { replies := replies, execs := execs }

/-- Logging in keeps to the target's address just if every redirect that is followed on the way stays there. -/
theorem login_pinned_iff :
    Pinned connectTo (loggedIn http creds strict connectTo replies execs) ↔
      ∀ location ∈ (loggedIn http creds strict connectTo replies execs).followed, Stays connectTo location := by
  have hkeeps : (establish http creds strict (some connectTo.text)).Keeps (Tied connectTo) := by
    refine keeps_establish creds (fun method url body headers => ?_) strict
    refine keeps_request (fun net execs h => h) (fun method url headers request hpinned => ?_) http method url body
      headers
    exact keeps_opened (aims_pinned hpinned)
  refine hkeeps _ ?_
  simp [Tied, Pinned, Staying]

end Arrival

/-! ## A login page that has moved -/

@[reducible] def LoginRuntime.ascii : LoginRuntime where
  toDigitRuntime := Infra.DigitRuntime.ascii
  b64encode := id
  search _ _ := some true
  format _ token := some token

/-- A form login over a login page. -/
def portal : Credentials where
  app := "portal"
  loginUrl := some "http://portal.example:8080/login"
  loginPageUrl := some "http://portal.example:8080/login"
  loggedInRegex := some "Sign out"

def internal : Address where
  text := "10.77.0.9".toList
  named := ⟨by simp, List.all_eq_true.mp (by decide)⟩

/-- The login page names its own host in full, as a customer is to see it. -/
def moved : List (Option Reply) :=
  [some { status := 302, location := some "http://portal.example/session/new".toList },
    some { status := 200, body := "Sign in" },
    some { status := 200, body := "Sign out" }]

theorem not_pinned_of_mem {connectTo : Address} {net : Net} {addresses : List Text} (address : Text)
    (h : net.connections.map Connection.address = addresses) (hmem : address ∈ addresses)
    (hne : address ≠ connectTo.text) : ¬ Pinned connectTo net := by
  intro hpinned
  rw [← h] at hmem
  obtain ⟨c, hc, rfl⟩ := List.mem_map.mp hmem
  exact hne (hpinned c hc)

theorem moved_connections :
    (@loggedIn LoginRuntime.ascii .direct portal true internal moved []).connections.map Connection.address =
      ["10.77.0.9".toList, "portal.example".toList, "10.77.0.9".toList] := by
  decide +kernel

theorem moved_arrives_outside :
    ¬ Pinned internal (@loggedIn LoginRuntime.ascii .direct portal true internal moved []) := by
  refine not_pinned_of_mem "portal.example".toList moved_connections ?_ ?_
  · exact List.mem_cons_of_mem _ List.mem_cons_self
  · show "portal.example".toList ≠ "10.77.0.9".toList
    decide

end PtaasBench.Runners.Login
