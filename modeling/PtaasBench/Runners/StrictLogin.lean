import PtaasBench.Runners.Login

/-!
# PtaasBench.Runners.StrictLogin — a strict login and the session it hands out (`_lib/login.py`)

`establish` with `strict` either raises a `LoginError` or returns a session that was verified.  The one way
around the check is HTTP basic with an indicator and no page to look for it on.
-/

namespace PtaasBench.Runners.Login

open Py Lib
open Infra (Text)
open Runners.InternalHttp

/-- An exception that is no `LoginError`. -/
def Foreign (e : Raised) : Prop := ∀ message, e ≠ .loginError message

section Strict

variable [LoginRuntime]

variable (http : Transport) (creds : Credentials) (connectTo : Option Text)

/-- The part of `verify` that has a response to check. -/
def judge (strict : Bool) (session : Session) (check : Response) (location : String) : Program Net Raised Session := do
  let ok ← markerOk creds check
  let session :=
    { session with
      verified := ok
      detail := session.detail ++ "; verified against " ++ location ++ " -> HTTP " ++
        (check.status.map toString).getD "None" }
  if !ok && strict then
    loginError (creds.app ++ ": session did not verify against " ++ location ++ " (HTTP " ++
      (check.status.map toString).getD "None" ++ "); refusing to run an 'authenticated' scan that is not one")
  else return session

variable (session : Session) (loginResponse : Option Response) (net : Net)

end Strict

/-! ## A gateway -/

end PtaasBench.Runners.Login
