import PtaasBench.Py.Json

/-!
# PtaasBench.Runners.TargetDoc — credentials at another base URL (`_lib/config.py`)

A target's document is resolved at the harness's base URL, and the credentials are moved to the tool's before
a driver is handed them.  The locations are kept as URLs and as paths.
-/

namespace PtaasBench.Runners.TargetDoc

open Py

inductive DocError where
  | attributeError
  | typeError
  | configError (message : String)

structure Credentials where
  app : String
  role : String
  kind : String
  loginUrl : Option String
  loginPageUrl : Option String
  loginPath : Option String
  loginPagePath : Option String
  verifyPath : Option String
  username : String
  password : String
  usernameField : String
  passwordField : String
  loggedInRegex : Option String
  loggedOutRegex : Option String
  verifyUrl : Option String
  tokenJsonPath : Json
  session : String
  sessionCookie : Json
  headerName : String
  logoutPaths : List String
  subjectId : Option String

section Doc

variable [Runtime]

/-- `re.escape` -/
def escape (text : String) : String :=
  String.ofList (text.toList.flatMap fun c =>
    if "()[]\x7b\x7d?*+-|^$\\.&~# \t\n\r\x0b\x0c".toList.contains c then ['\\', c] else [c])

/-- `base_url.rstrip("/")` -/
def rstripSlash (url : String) : String := String.ofList (url.toList.rdropWhile (· == '/'))

/-- `text if text.startswith("http") else f"{base}{text}"` -/
def located (base text : String) : String := if startsWith text "http" then text else base ++ text

/-- `_resolve` -/
def resolve (base : String) (path : Json) : Option String :=
  if path.truthy then some (located base path.pyStr) else none

/-- `str(x) if x else None` -/
def textOf (x : Json) : Option String := if x.truthy then some x.pyStr else none

/-- `d.get(k, default)` as a text -/
def textAt (fields : Obj) (key default : String) : String := ((fields.get? key).map Json.pyStr).getD default

/-- A value with a `get`. -/
def mapping : Json → Except DocError Obj
  | .obj fields => .ok fields
  | _ => .error .attributeError

/-- What iterating over a value gives. -/
def elements : Json → Except DocError (List Json)
  | .arr items => .ok items
  | .obj fields => .ok (fields.map fun e => .str e.1)
  | .str s => .ok (s.toList.map fun c => .str (String.singleton c))
  | _ => .error .typeError

/-- `next((u for u in users if str(u.get("role")) == role), None)` -/
def chosenUser (role : String) : List Json → Except DocError (Option Obj)
  | [] => .ok none
  | user :: users => do
    let fields ← mapping user
    if (Obj.get fields "role").pyStr = role then return some fields else chosenUser role users

/-- The message of a role that no user has. -/
def noRole (path role : String) (users : List Json) : String :=
  let roles := (users.map fun user =>
    match user with
    | .obj fields => (Obj.get fields "role").pyStr
    | _ => "").dedup.mergeSort fun a b => decide (a ≤ b)
  path ++ ": no user with role " ++ Runtime.reprStr role ++ " (have " ++ (Json.arr (roles.map .str)).repr ++ ")"

/-- The user of a role. -/
def userOf (doc : Obj) (path role : String) : Except DocError Obj := do
  let users ← elements ((doc.get "users").orElse (.arr []))
  match ← chosenUser role users with
  | none => .error (.configError (noRole path role users))
  | some user => return user

def kindMap (kind : String) : String :=
  if kind = "json" then "json"
  else if kind = "form" then "form"
  else if kind = "basic" then "basic"
  else if kind = "urlencoded" then "form"
  else "form"

/-- `(base_url_override or doc.get("base_url") or "").rstrip("/")` -/
def baseOf (doc : Obj) (baseUrlOverride : Option String) : Except DocError String :=
  match baseUrlOverride.filter (· ≠ "") with
  | some url => .ok (rstripSlash url)
  | none =>
    match (doc.get "base_url").orElse (.str "") with
    | .str url => .ok (rstripSlash url)
    | _ => .error .attributeError

/-- `str(login.get("url") or "")` -/
def loginPathOf (login : Obj) : String := ((login.get "url").orElse (.str "")).pyStr

def kindOf (login : Obj) : String := kindMap (lower (textAt login "type" "form"))

/-- `login.get("page_url") or (login_path if kind == "form" else None)` -/
def pagePathOf (login : Obj) : Json :=
  (login.get "page_url").orElse (if kindOf login = "form" then .str (loginPathOf login) else .null)

/-- The credentials of a user, with their URLs at a base. -/
def credentialsAt (app role : String) (login session user : Obj) (exclude : List Json) (base : String) : Credentials :=
  let loginPath := loginPathOf login
  let loginUrl := located base loginPath
  let sessionKind := lower (textAt session "kind" "cookie")
  { app := app
    role := role
    kind := kindOf login
    loginUrl := some loginUrl
    loginPath := if loginPath = "" then none else some loginPath
    loginPagePath := textOf (pagePathOf login)
    verifyPath := textOf (login.get "verify_url")
    loginPageUrl :=
      match (resolve base (login.get "page_url")).filter (· ≠ "") with
      | some url => some url
      | none => if kindOf login = "form" then some loginUrl else none
    username := textAt user "username" ""
    password := textAt user "password" ""
    usernameField := textAt login "username_field" "username"
    passwordField := textAt login "password_field" "password"
    loggedInRegex := (textOf (login.get "logged_in_indicator")).map escape
    loggedOutRegex := (textOf (login.get "logged_out_indicator")).map escape
    verifyUrl := resolve base (login.get "verify_url")
    tokenJsonPath := login.get "token_json_path"
    session := if sessionKind = "bearer" ∨ sessionKind = "header" then "bearer" else "cookie"
    sessionCookie := session.get "name"
    headerName := textAt session "header" "Authorization"
    logoutPaths := exclude.map Json.pyStr
    subjectId := textOf (user.get "subject_id") }

/-- `Credentials.from_target_doc`, for a document in a directory `parent` -/
def fromTargetDoc (doc : Obj) (path parent role : String) (baseUrlOverride : Option String) :
    Except DocError Credentials := do
  let user ← userOf doc path role
  let base ← baseOf doc baseUrlOverride
  let login ← mapping ((doc.get "login").orElse (.obj []))
  let session ← mapping ((doc.get "session").orElse (.obj []))
  let exclude ← elements ((login.get "exclude").orElse (.arr []))
  return credentialsAt ((doc.get "app").orElse (.str parent)).pyStr role login session user exclude base

/-- `self.login_path` and the like, as values -/
def pathValue (path : Option String) : Json := (path.map Json.str).getD .null

/-- `Credentials.for_base` -/
def Credentials.forBase (creds : Credentials) (baseUrl : String) : Credentials :=
  if creds.loginPath.filter (· ≠ "") = none then creds
  else
    let base := rstripSlash baseUrl
    { creds with
      loginUrl := resolve base (pathValue creds.loginPath)
      loginPageUrl := resolve base (pathValue creds.loginPagePath)
      verifyUrl := resolve base (pathValue creds.verifyPath) }

/-! ## Locations -/

omit [Runtime] in
theorem located_eq_iff (base base' text : String) :
    located base text = located base' text ↔ base = base' ∨ startsWith text "http" = true := by
  rw [located, located]
  by_cases habsolute : startsWith text "http" = true
  · rw [if_pos habsolute, if_pos habsolute]
    exact ⟨fun _ => Or.inr habsolute, fun _ => rfl⟩
  · rw [if_neg habsolute, if_neg habsolute, or_iff_left habsolute]
    constructor
    · intro h
      have hlist := congrArg String.toList h
      rw [String.toList_append, String.toList_append] at hlist
      exact String.toList_inj.mp (List.append_cancel_right hlist)
    · rintro rfl
      rfl

omit [Runtime] in
theorem located_ne_empty (base : String) {text : String} (h : text ≠ "") : located base text ≠ "" := by
  rw [located]
  split_ifs
  · exact h
  · intro hempty
    have hlist := congrArg String.toList hempty
    rw [String.toList_append] at hlist
    exact h (String.toList_inj.mp (List.append_eq_nil_iff.mp hlist).2)

theorem resolve_eq_iff (base base' : String) (path : Json) :
    resolve base path = resolve base' path ↔
      base = base' ∨ (path.truthy = true → startsWith path.pyStr "http" = true) := by
  rw [resolve, resolve]
  by_cases htruthy : path.truthy = true
  · rw [if_pos htruthy, if_pos htruthy, Option.some_inj, located_eq_iff, imp_iff_right htruthy]
  · rw [if_neg htruthy, if_neg htruthy]
    exact ⟨fun _ => Or.inr fun h => absurd h htruthy, fun _ => rfl⟩

/-- A path that was kept as a text resolves as the value it was read from. -/
theorem resolve_pathValue (base : String) (path : Json) :
    resolve base (pathValue (textOf path)) = resolve base path := by
  rw [textOf]
  by_cases htruthy : path.truthy = true
  · have htext : (Json.str path.pyStr).truthy = true := decide_eq_true (Json.pyStr_ne_empty htruthy)
    rw [if_pos htruthy, resolve, resolve, if_pos htruthy]
    exact if_pos htext
  · rw [if_neg htruthy, resolve, resolve, if_neg htruthy]
    rfl

/-! ## Reading the document -/

/-- The login of a document, where it is a mapping. -/
def loginOf (doc : Obj) : Obj := (((doc.get "login").orElse (.obj [])).asObj?).getD []

variable {doc : Obj} {path parent role : String} {override : Option String} {creds : Credentials}

omit [Runtime] in
theorem loginOf_eq {login : Obj} (h : mapping ((doc.get "login").orElse (.obj [])) = .ok login) : loginOf doc = login := by
  rw [loginOf]
  cases hvalue : (doc.get "login").orElse (.obj []) with
  | obj fields =>
    rw [hvalue] at h
    exact Except.ok.inj h
  | _ =>
    rw [hvalue] at h
    cases h

/-- But for its base, what is read of a document does not depend on where it is resolved. -/
theorem fromTargetDoc_eq (h : fromTargetDoc doc path parent role override = .ok creds) :
    ∃ app session user exclude, ∀ override', fromTargetDoc doc path parent role override' =
      (baseOf doc override').map (credentialsAt app role (loginOf doc) session user exclude) := by
  unfold fromTargetDoc at h ⊢
  cases huser : userOf doc path role with
  | error e =>
    rw [huser] at h
    cases h
  | ok user =>
    rw [huser] at h
    cases hbase : baseOf doc override with
    | error e =>
      rw [hbase] at h
      cases h
    | ok base =>
      rw [hbase] at h
      cases hlogin : mapping ((doc.get "login").orElse (.obj [])) with
      | error e =>
        rw [hlogin] at h
        cases h
      | ok login =>
        rw [hlogin] at h
        cases hsession : mapping ((doc.get "session").orElse (.obj [])) with
        | error e =>
          rw [hsession] at h
          cases h
        | ok session =>
          rw [hsession] at h
          cases hexclude : elements ((Obj.get login "exclude").orElse (.arr [])) with
          | error e =>
            replace h : (elements ((Obj.get login "exclude").orElse (.arr [])) >>= _) = _ := h
            rw [hexclude] at h
            cases h
          | ok exclude =>
            refine ⟨((doc.get "app").orElse (.str parent)).pyStr, session, user, exclude, fun override' => ?_⟩
            rw [loginOf_eq hlogin]
            cases baseOf doc override' with
            | error e => rfl
            | ok base' =>
              show (elements ((Obj.get login "exclude").orElse (.arr [])) >>= _) = _
              rw [hexclude]
              rfl

/-! ## Moving the credentials -/

/-- The three locations are the same. -/
def SameUrls (creds creds' : Credentials) : Prop :=
  creds.loginUrl = creds'.loginUrl ∧ creds.loginPageUrl = creds'.loginPageUrl ∧ creds.verifyUrl = creds'.verifyUrl

omit [Runtime] in
theorem SameUrls.congr_left {x y z : Credentials} (h : SameUrls x y) : SameUrls x z ↔ SameUrls z y := by
  obtain ⟨hlogin, hpage, hverify⟩ := h
  rw [SameUrls, SameUrls, hlogin, hpage, hverify, eq_comm, @eq_comm _ y.loginPageUrl, @eq_comm _ y.verifyUrl]

/-- Every location the login gives is one with a scheme. -/
def Absolute (login : Obj) : Prop :=
  startsWith (loginPathOf login) "http" = true ∧
    ((pagePathOf login).truthy = true → startsWith (pagePathOf login).pyStr "http" = true) ∧
    ((login.get "verify_url").truthy = true → startsWith (login.get "verify_url").pyStr "http" = true)

/-- The login names its URL and the bases are the same, or every location is absolute; a login that names none is at
the same base from the first. -/
def Moves (doc : Obj) (a b : String) : Prop :=
  ∃ base, baseOf doc (some b) = .ok base ∧
    if loginPathOf (loginOf doc) = "" then baseOf doc (some a) = .ok base
    else base = rstripSlash b ∨ Absolute (loginOf doc)

variable (app : String) (login session user : Obj) (exclude : List Json)

/-- With a login URL, the page is the one of its path. -/
theorem loginPageUrl_eq (base : String) (h : loginPathOf login ≠ "") :
    (credentialsAt app role login session user exclude base).loginPageUrl = resolve base (pagePathOf login) := by
  rw [credentialsAt]
  dsimp only
  rw [pagePathOf, Json.orElse, resolve]
  by_cases hpage : (login.get "page_url").truthy = true
  · rw [if_pos hpage, if_pos hpage, resolve, if_pos hpage, Option.filter_some,
      if_pos (decide_eq_true (located_ne_empty base (Json.pyStr_ne_empty hpage)))]
  · rw [if_neg hpage, if_neg hpage, Option.filter_none]
    dsimp only
    by_cases hform : kindOf login = "form"
    · have htext : (Json.str (loginPathOf login)).truthy = true := decide_eq_true h
      rw [if_pos hform, if_pos hform, resolve, if_pos htext]
      rfl
    · rw [if_neg hform, if_neg hform]
      rfl

theorem forBase_eq (a b : String) (h : loginPathOf login ≠ "") :
    SameUrls ((credentialsAt app role login session user exclude a).forBase b)
      (credentialsAt app role login session user exclude (rstripSlash b)) := by
  have hpath : (credentialsAt app role login session user exclude a).loginPath = some (loginPathOf login) := if_neg h
  have hsome : (some (loginPathOf login)).filter (· ≠ "") ≠ none := by
    rw [Option.filter_some, if_pos (decide_eq_true h)]
    exact nofun
  have htext : (Json.str (loginPathOf login)).truthy = true := decide_eq_true h
  rw [Credentials.forBase, hpath, if_neg hsome]
  refine ⟨?_, ?_, ?_⟩
  · exact if_pos htext
  · rw [loginPageUrl_eq app login session user exclude _ h]
    exact resolve_pathValue _ _
  · exact resolve_pathValue _ _

theorem sameUrls_iff (base base' : String) (h : loginPathOf login ≠ "") :
    SameUrls (credentialsAt app role login session user exclude base)
      (credentialsAt app role login session user exclude base') ↔ base = base' ∨ Absolute login := by
  have hlogin : (credentialsAt app role login session user exclude base).loginUrl =
      (credentialsAt app role login session user exclude base').loginUrl ↔
      base = base' ∨ startsWith (loginPathOf login) "http" = true := by
    rw [← located_eq_iff]
    exact Option.some_inj
  have hverify : (credentialsAt app role login session user exclude base).verifyUrl =
      (credentialsAt app role login session user exclude base').verifyUrl ↔ _ :=
    resolve_eq_iff base base' (login.get "verify_url")
  rw [SameUrls, hlogin, hverify, loginPageUrl_eq app login session user exclude _ h,
    loginPageUrl_eq app login session user exclude _ h, resolve_eq_iff, Absolute, or_and_left, or_and_left]

/-- Without a login URL the login is at the base itself. -/
theorem sameUrls_iff_of_empty (base base' : String) (h : loginPathOf login = "") :
    SameUrls (credentialsAt app role login session user exclude base)
      (credentialsAt app role login session user exclude base') ↔ base = base' := by
  constructor
  · intro hsame
    have hlocated : located base (loginPathOf login) = located base' (loginPathOf login) := Option.some.inj hsame.1
    refine ((located_eq_iff _ _ _).mp hlocated).resolve_right ?_
    rw [h]
    decide
  · rintro rfl
    exact ⟨rfl, rfl, rfl⟩

theorem forBase_eq_self (a b : String) (h : loginPathOf login = "") :
    (credentialsAt app role login session user exclude a).forBase b =
      credentialsAt app role login session user exclude a := by
  have hpath : (credentialsAt app role login session user exclude a).loginPath = none := if_pos h
  rw [Credentials.forBase, hpath]
  rfl

omit [Runtime] app login session user exclude in
theorem exists_ok {ε α : Type} {a : α} {P : α → Prop} : (∃ x, Except.ok (ε := ε) a = .ok x ∧ P x) ↔ P a := by
  constructor
  · rintro ⟨x, hx, h⟩
    rwa [Except.ok.inj hx]
  · exact fun h => ⟨a, rfl, h⟩

omit app login session user exclude in
/-- Credentials that are moved to a base have the locations of those read there, just if the document moves. -/
theorem rebased_iff {a b : String} (h : fromTargetDoc doc path parent role (some a) = .ok creds) :
    (∃ creds', fromTargetDoc doc path parent role (some b) = .ok creds' ∧ SameUrls (creds.forBase b) creds') ↔
      Moves doc a b := by
  obtain ⟨app, session, user, exclude, hread⟩ := fromTargetDoc_eq h
  rw [hread] at h
  rw [hread, Moves]
  cases ha : baseOf doc (some a) with
  | error e =>
    rw [ha] at h
    cases h
  | ok base₀ =>
    rw [ha] at h
    obtain rfl := Except.ok.inj h
    cases hb : baseOf doc (some b) with
    | error e =>
      constructor
      · rintro ⟨creds', hcreds', -⟩
        cases hcreds'
      · rintro ⟨base, hbase, -⟩
        cases hbase
    | ok base =>
      refine exists_ok.trans (Iff.trans ?_ exists_ok.symm)
      by_cases hpath : loginPathOf (loginOf doc) = ""
      · rw [forBase_eq_self app _ session user exclude base₀ b hpath,
          sameUrls_iff_of_empty app _ session user exclude base₀ base hpath, if_pos hpath, Except.ok.injEq]
      · rw [if_neg hpath, ← sameUrls_iff app _ session user exclude base (rstripSlash b) hpath]
        exact (forBase_eq app (loginOf doc) session user exclude base₀ b hpath).congr_left

end Doc

/-! ## HTTP basic -/

/-- A target behind HTTP basic, which gives a page to check the login on and no login URL. -/
def basicDoc : Obj :=
  [("app", .str "gateway"),
    ("login", .obj [("type", .str "basic"), ("verify_url", .str "/account")]),
    ("users", .arr [.obj [("role", .str "user"), ("username", .str "alice"), ("password", .str "wonderland")]])]

def basicCredentials (base : String) : Credentials :=
  @credentialsAt Runtime.ascii "gateway" "user" [("type", .str "basic"), ("verify_url", .str "/account")] []
    [("role", .str "user"), ("username", .str "alice"), ("password", .str "wonderland")] [] base

theorem basicDoc_internal :
    @fromTargetDoc Runtime.ascii basicDoc "bench-credentials.yaml" "gateway" "user" (some "http://gateway:8080") =
      .ok (basicCredentials "http://gateway:8080") := rfl

theorem basicDoc_public :
    @fromTargetDoc Runtime.ascii basicDoc "bench-credentials.yaml" "gateway" "user" (some "http://gateway.example/") =
      .ok (basicCredentials "http://gateway.example") := rfl

theorem basicDoc_rebased_iff :
    (∃ creds', @fromTargetDoc Runtime.ascii basicDoc "bench-credentials.yaml" "gateway" "user"
        (some "http://gateway.example/") = .ok creds' ∧
      SameUrls (@Credentials.forBase Runtime.ascii (basicCredentials "http://gateway:8080") "http://gateway.example/") creds') ↔
      @Moves Runtime.ascii basicDoc "http://gateway:8080" "http://gateway.example/" :=
  @rebased_iff Runtime.ascii _ _ _ _ _ _ _ basicDoc_internal

/-- The tool is handed the harness's own name. -/
theorem basicDoc_left_behind :
    ∃ creds creds', @fromTargetDoc Runtime.ascii basicDoc "bench-credentials.yaml" "gateway" "user"
        (some "http://gateway:8080") = .ok creds ∧
      @fromTargetDoc Runtime.ascii basicDoc "bench-credentials.yaml" "gateway" "user"
        (some "http://gateway.example/") = .ok creds' ∧
      (@Credentials.forBase Runtime.ascii creds "http://gateway.example/").verifyUrl = some "http://gateway:8080/account" ∧
      creds'.verifyUrl = some "http://gateway.example/account" :=
  ⟨_, _, basicDoc_internal, basicDoc_public, rfl, rfl⟩

end PtaasBench.Runners.TargetDoc
