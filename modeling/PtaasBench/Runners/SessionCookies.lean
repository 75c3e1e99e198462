import Mathlib.Algebra.Group.Nat.Even
import Mathlib.Algebra.Ring.Parity
import PtaasBench.Runners.Login

/-!
# PtaasBench.Runners.SessionCookies — the cookies a session is left with (`_lib/login.py`)

The lines of the last reply to the page and of the last reply to the login are read, each into a jar of its
own, and the second jar is laid over the first.
-/

namespace PtaasBench.Runners.Login

open Py Lib
open Infra (DigitRuntime Text)
open Runners.InternalHttp

/-! ## What an application sets -/

/-- The cookie of a line, and its value. -/
def assignment (line : String) : Option (String × String) :=
  let first := strip (beforeChar ';' line)
  if '=' ∉ first.toList then none
  else
    let name := strip (String.ofList (partition '=' first.toList).1)
    if name = "" then none else some (name, strip (String.ofList (partition '=' first.toList).2))

/-- The values a cookie is given, in order. -/
def values (name : String) (lines : List String) : List String :=
  ((lines.filterMap assignment).filter fun a => a.1 = name).map Prod.snd

def Blank (value : String) : Prop := value = "" ∨ value = "\"\""

instance : DecidablePred Blank := fun value => inferInstanceAs (Decidable (value = "" ∨ value = "\"\""))

/-- The lines leave the cookie with a value: the last one counts, and a blank one deletes. -/
def Left (lines : List String) (name value : String) : Prop :=
  (values name lines).getLast? = some value ∧ ¬Blank value

/-! ## One jar -/

/-- What a value does to a cookie in a jar. -/
def assigned (cookie : Option String) (value : String) : Option String :=
  if Blank value ∧ cookie.isSome = true then none else some value

/-- What a jar that was empty has in the end. -/
def jarred (given : List String) : Option String := given.foldl assigned none

/-- The blank values at the end. -/
def blanks (given : List String) : ℕ := (given.reverse.takeWhile fun value => decide (Blank value)).length

/-- The blanks at the end come out: they are even in number, or odd where another value stands before them. -/
def Vanishes (given : List String) : Prop :=
  blanks given = given.length ∧ Even (blanks given) ∨ blanks given < given.length ∧ Odd (blanks given)

theorem values_append (name : String) (lines lines' : List String) :
    values name (lines ++ lines') = values name lines ++ values name lines' := by
  rw [values, List.filterMap_append, List.filter_append, List.map_append]
  rfl

theorem values_empty (lines : List String) : values "" lines = [] := by
  rw [values, List.map_eq_nil_iff, List.filter_eq_nil_iff]
  intro a ha
  obtain ⟨line, -, hline⟩ := List.mem_filterMap.mp ha
  rw [assignment] at hline
  dsimp only at hline
  split_ifs at hline with hsign hname
  obtain rfl := Option.some.inj hline
  simpa using hname

/-- One line. -/
def setCookie (jar : Dict String String) (line : String) : Dict String String :=
  let first := strip (beforeChar ';' line)
  if '=' ∉ first.toList then jar
  else
    let name := strip (String.ofList (partition '=' first.toList).1)
    let value := strip (String.ofList (partition '=' first.toList).2)
    if (value = "" ∨ value = "\"\"") ∧ jar.contains name then jar.pop name
    else if name = "" then jar
    else jar.set name value

theorem parseSetCookie_eq (lines : List String) : parseSetCookie lines = lines.foldl setCookie Dict.empty := rfl

theorem values_of_none {line : String} (h : assignment line = none) (name : String) : values name [line] = [] := by
  rw [values, List.filterMap_cons_none h]
  rfl

theorem values_of_some {line : String} {a : String × String} (h : assignment line = some a) (name : String) :
    values name [line] = if a.1 = name then [a.2] else [] := by
  rw [values, List.filterMap_cons_some h, List.filterMap_nil, List.filter_cons, List.filter_nil]
  by_cases hname : a.1 = name
  · rw [if_pos (decide_eq_true hname), if_pos hname]
    rfl
  · rw [if_neg (by rwa [decide_eq_true_iff]), if_neg hname]
    rfl

/-- A line that names no cookie leaves the jar as it is. -/
theorem setCookie_of_none {jar : Dict String String} (hempty : jar.get? "" = none) {line : String}
    (h : assignment line = none) : setCookie jar line = jar := by
  rw [assignment] at h
  rw [setCookie]
  dsimp only at h ⊢
  split_ifs at h with hsign hname
  · rw [if_neg (not_not.mpr hsign), hname, if_neg, if_pos rfl]
    rintro ⟨-, hcontains⟩
    rw [Dict.contains, hempty] at hcontains
    cases hcontains
  · rw [if_pos hsign]

theorem setCookie_of_some (jar : Dict String String) {line name value : String}
    (h : assignment line = some (name, value)) :
    setCookie jar line = if Blank value ∧ jar.contains name = true then jar.pop name else jar.set name value := by
  rw [assignment] at h
  rw [setCookie]
  dsimp only at h ⊢
  split_ifs at h with hsign hname
  obtain ⟨rfl, rfl⟩ := Prod.mk.inj (Option.some.inj h)
  rw [if_neg (not_not.mpr hsign), if_neg hname]
  rfl

/-- What a line does to a cookie. -/
theorem get?_setCookie {jar : Dict String String} (hempty : jar.get? "" = none) (line name : String) :
    (setCookie jar line).get? name = (values name [line]).foldl assigned (jar.get? name) := by
  cases hline : assignment line with
  | none => rw [setCookie_of_none hempty hline, values_of_none hline, List.foldl_nil]
  | some a =>
    obtain ⟨n, value⟩ := a
    rw [setCookie_of_some jar hline, values_of_some hline]
    dsimp only
    by_cases hname : n = name
    · subst hname
      rw [if_pos rfl, List.foldl_cons, List.foldl_nil, assigned, Dict.contains]
      split_ifs with hblank
      · rw [Dict.get?_pop, if_pos rfl]
      · rw [Dict.get?_set, if_pos rfl]
    · rw [if_neg hname, List.foldl_nil]
      split_ifs with hblank
      · rw [Dict.get?_pop, if_neg (Ne.symm hname)]
      · rw [Dict.get?_set_of_ne _ _ (Ne.symm hname)]

/-- What the lines do to a cookie. -/
theorem get?_foldl_setCookie (lines : List String) {jar : Dict String String} (hempty : jar.get? "" = none)
    (name : String) :
    (lines.foldl setCookie jar).get? name = (values name lines).foldl assigned (jar.get? name) := by
  induction lines generalizing jar with
  | nil => rfl
  | cons line lines ih =>
    have hstill : (setCookie jar line).get? "" = none := by
      rw [get?_setCookie hempty, values_empty, List.foldl_nil, hempty]
    rw [List.foldl_cons, ih hstill, get?_setCookie hempty, ← List.foldl_append, ← values_append,
      List.singleton_append]

theorem get?_parseSetCookie (lines : List String) (name : String) :
    (parseSetCookie lines).get? name = jarred (values name lines) := by
  rw [parseSetCookie_eq, get?_foldl_setCookie lines rfl]
  rfl

/-! ## The end of a jar -/

theorem jarred_concat (given : List String) (value : String) :
    jarred (given ++ [value]) = assigned (jarred given) value := by
  rw [jarred, List.foldl_append]
  rfl

theorem blanks_concat (given : List String) (value : String) :
    blanks (given ++ [value]) = if Blank value then blanks given + 1 else 0 := by
  rw [blanks, List.reverse_append, List.reverse_singleton, List.singleton_append, List.takeWhile_cons]
  by_cases hblank : Blank value
  · rw [if_pos hblank, if_pos (decide_eq_true hblank), List.length_cons, blanks]
  · rw [if_neg hblank, if_neg (by rwa [decide_eq_true_iff]), List.length_nil]

theorem blanks_le (given : List String) : blanks given ≤ given.length := by
  have hlength := (List.takeWhile_sublist (fun value => decide (Blank value)) (l := given.reverse)).length_le
  rwa [List.length_reverse] at hlength

/-- A value stays unless it is a blank that finds the cookie there. -/
theorem jarred_eq_none_iff (given : List String) : jarred given = none ↔ Vanishes given := by
  induction given using List.reverseRecOn with
  | nil => exact ⟨fun _ => Or.inl ⟨rfl, 0, rfl⟩, fun _ => rfl⟩
  | append_singleton given value ih =>
    have hle := blanks_le given
    rw [jarred_concat, assigned, Vanishes, blanks_concat, List.length_append, List.length_singleton]
    by_cases hblank : Blank value
    · have hflip : blanks given + 1 = given.length + 1 ∧ Even (blanks given + 1) ∨
          blanks given + 1 < given.length + 1 ∧ Odd (blanks given + 1) ↔ ¬Vanishes given := by
        rw [Vanishes, Nat.even_add_one, ← Nat.not_even_iff_odd, ← Nat.not_even_iff_odd, Nat.even_add_one]
        by_cases heven : Even (blanks given)
        · simp [heven]
          omega
        · simp [heven]
          omega
      rw [if_pos hblank, hflip, ← ih]
      cases jarred given with
      | none =>
        rw [if_neg fun h => absurd h.2 nofun]
        exact ⟨nofun, fun h => absurd rfl h⟩
      | some v =>
        rw [if_pos ⟨hblank, rfl⟩]
        exact ⟨fun _ h => absurd h nofun, fun _ => rfl⟩
    · rw [if_neg hblank, if_neg fun h => hblank h.1]
      refine ⟨nofun, ?_⟩
      rintro (⟨h, -⟩ | ⟨-, h⟩)
      · omega
      · exact absurd h (by decide)

/-- What a jar has is the last value. -/
theorem getLast?_of_jarred {given : List String} {value : String} (h : jarred given = some value) :
    given.getLast? = some value := by
  induction given using List.reverseRecOn with
  | nil => cases h
  | append_singleton given last _ =>
    rw [jarred_concat, assigned] at h
    split_ifs at h
    rw [List.getLast?_concat, Option.some.inj h]

/-- A last value that is not blank is kept. -/
theorem jarred_eq_some_iff {given : List String} {value : String} (hvalue : ¬Blank value) :
    jarred given = some value ↔ given.getLast? = some value := by
  refine ⟨getLast?_of_jarred, fun h => ?_⟩
  induction given using List.reverseRecOn with
  | nil => cases h
  | append_singleton given last _ =>
    rw [List.getLast?_concat] at h
    obtain rfl := Option.some.inj h
    rw [jarred_concat, assigned, if_neg fun hblank => hvalue hblank.1]

/-! ## Two jars -/

theorem get?_merged (a b : Dict String String) (name : String) :
    (merged a b).get? name = (b.get? name).or (a.get? name) := by
  have hfold : ∀ (items : List (String × String)), (items.map Prod.fst).Nodup → ∀ a : Dict String String,
      (items.foldl (fun d e => d.set e.1 e.2) a).get? name =
        ((items.find? fun e => e.1 = name).map Prod.snd).or (a.get? name) := by
    intro items
    induction items with
    | nil => exact fun _ a => rfl
    | cons e items ih =>
      intro hnodup a
      obtain ⟨hnotMem, hnodup⟩ := List.nodup_cons.mp hnodup
      rw [List.foldl_cons, ih hnodup, List.find?_cons]
      by_cases hname : e.1 = name
      · have hnone : items.find? (fun e => e.1 = name) = none := by
          rw [List.find?_eq_none]
          intro e' he' hname'
          exact hnotMem (List.mem_map.mpr ⟨e', he', (of_decide_eq_true hname').trans hname.symm⟩)
        rw [hnone, decide_eq_true hname, Dict.get?_set, if_pos hname.symm]
        rfl
      · rw [decide_eq_false hname, Dict.get?_set_of_ne _ _ (Ne.symm hname)]
  exact hfold b.items b.nodup a

/-- A cookie of an exchange ends as the application left it: a value that stays is the last one of the login
reply, or of the page's where the login reply does not name the cookie; and where a blank one is the last, both
replies leave the cookie out. -/
def Kept (page login all : List String) : Prop :=
  ∀ value, all.getLast? = some value →
    (Blank value → Vanishes page ∧ Vanishes login) ∧
      (¬Blank value → login.getLast? = some value ∨ login = [] ∧ page.getLast? = some value)

section Jars

variable {page login all a b : List String} (hall : all = a ++ page ++ (b ++ login))

include hall

theorem getLast?_login (h : login ≠ []) : all.getLast? = login.getLast? := by
  rw [hall, ← List.append_assoc, List.getLast?_append_of_ne_nil _ h]

/-- Where a value stays, it is kept just if it is the one the replies end with. -/
theorem jars_some_iff {value : String} (hlast : all.getLast? = some value) (hvalue : ¬Blank value) :
    (jarred login).or (jarred page) = some value ↔
      login.getLast? = some value ∨ login = [] ∧ page.getLast? = some value := by
  by_cases hlogin : login = []
  · subst hlogin
    have hor : (jarred []).or (jarred page) = jarred page := rfl
    rw [hor, jarred_eq_some_iff hvalue]
    exact ⟨fun h => Or.inr ⟨rfl, h⟩, fun h => h.elim nofun And.right⟩
  · have hsame : login.getLast? = some value := (getLast?_login hall hlogin).symm.trans hlast
    rw [(jarred_eq_some_iff hvalue).mpr hsame]
    exact ⟨fun _ => Or.inl hsame, fun _ => rfl⟩

/-- The two jars against all that was received, for one cookie. -/
theorem jars_iff :
    (∀ value, (jarred login).or (jarred page) = some value ↔ all.getLast? = some value ∧ ¬Blank value) ↔
      Kept page login all := by
  rw [Kept]
  cases hlast : all.getLast? with
  | none =>
    rw [List.getLast?_eq_none_iff] at hlast
    rw [hlast] at hall
    obtain ⟨hleft, hright⟩ := List.append_eq_nil_iff.mp hall.symm
    rw [(List.append_eq_nil_iff.mp hleft).2, (List.append_eq_nil_iff.mp hright).2]
    exact ⟨fun _ _ h => absurd h nofun, fun _ value => ⟨nofun, fun h => absurd h.1 nofun⟩⟩
  | some last =>
    by_cases hblank : Blank last
    · have hgone : (∀ value, (jarred login).or (jarred page) = some value ↔ some last = some value ∧ ¬Blank value) ↔
          (jarred login).or (jarred page) = none := by
        rw [Option.eq_none_iff_forall_ne_some]
        refine forall_congr' fun value => ⟨fun h hvalue => ?_, fun h => ⟨fun hvalue => absurd hvalue h, ?_⟩⟩
        · obtain ⟨hsame, hnot⟩ := h.mp hvalue
          exact hnot (Option.some.inj hsame ▸ hblank)
        · rintro ⟨hsame, hnot⟩
          exact absurd (Option.some.inj hsame ▸ hblank) hnot
      rw [hgone, Option.or_eq_none_iff, jarred_eq_none_iff, jarred_eq_none_iff]
      constructor
      · rintro ⟨hlogin, hpage⟩ value hvalue
        exact ⟨fun _ => ⟨hpage, hlogin⟩, fun hnot => absurd (Option.some.inj hvalue ▸ hblank) hnot⟩
      · exact fun h => ((h last rfl).1 hblank).symm
    · have hkept : (∀ value, (jarred login).or (jarred page) = some value ↔ some last = some value ∧ ¬Blank value) ↔
          (jarred login).or (jarred page) = some last := by
        constructor
        · exact fun h => (h last).mpr ⟨rfl, hblank⟩
        · intro h value
          rw [h]
          exact ⟨fun hvalue => ⟨hvalue, Option.some.inj hvalue ▸ hblank⟩, And.left⟩
      rw [hkept, jars_some_iff hall hlast hblank]
      constructor
      · intro h value hvalue
        obtain rfl := Option.some.inj hvalue
        exact ⟨fun hnot => absurd hnot hblank, fun _ => h⟩
      · exact fun h => (h last rfl).2 hblank

end Jars

/-! ## What is received -/

/-- The replies that came in between. -/
def consumed (net net' : Net) : List (Option Reply) := net.replies.take (net.replies.length - net'.replies.length)

/-- The lines of the replies. -/
def linesOf (replies : List (Option Reply)) : List String :=
  replies.flatMap fun reply => (reply.map Reply.cookies).getD []

theorem linesOf_append (replies replies' : List (Option Reply)) :
    linesOf (replies ++ replies') = linesOf replies ++ linesOf replies' := List.flatMap_append

theorem consumed_of_append {net net' : Net} {replies : List (Option Reply)}
    (h : net.replies = replies ++ net'.replies) : consumed net net' = replies := by
  rw [consumed, h, List.length_append, Nat.add_sub_cancel, List.take_left]

/-- The replies are taken from the front, and what is answered is the last of them. -/
def Consumes (replies : List (Option Reply)) (outcome : Outcome) (rest : List (Option Reply)) : Prop :=
  ∃ taken, replies = taken ++ rest ∧
    ∀ status reply, outcome = .answered status reply → ∃ before, taken = before ++ [some reply]

theorem consumes_raised (taken rest : List (Option Reply)) : Consumes (taken ++ rest) .raised rest :=
  ⟨taken, rfl, fun _ _ h => absurd h nofun⟩

theorem consumes_answered (status : Option ℕ) (reply : Reply) (rest : List (Option Reply)) :
    Consumes (some reply :: rest) (.answered status reply) rest := by
  refine ⟨[some reply], rfl, fun _ _ h => ⟨[], ?_⟩⟩
  cases h
  rfl

theorem Consumes.cons {replies rest : List (Option Reply)} {outcome : Outcome} (h : Consumes replies outcome rest)
    (reply : Option Reply) : Consumes (reply :: replies) outcome rest := by
  obtain ⟨taken, htaken, hlast⟩ := h
  refine ⟨reply :: taken, by rw [htaken, List.cons_append], fun status last h => ?_⟩
  obtain ⟨before, hbefore⟩ := hlast status last h
  exact ⟨reply :: before, by rw [hbefore, List.cons_append]⟩

/-- A response carries the last of the lines that came in for it, or none. -/
def Carries (net net' : Net) (response : Response) : Prop :=
  ∃ taken lost, net.replies = taken ++ net'.replies ∧ linesOf taken = lost ++ response.cookies

theorem Carries.of_replies {net net₁ net' : Net} {response : Response} (hreplies : net₁.replies = net.replies)
    (h : Carries net₁ net' response) : Carries net net' response := by
  obtain ⟨taken, lost, htaken, hlines⟩ := h
  exact ⟨taken, lost, hreplies ▸ htaken, hlines⟩

theorem carries_nothing {net net' : Net} {taken : List (Option Reply)} (h : net.replies = taken ++ net'.replies)
    {response : Response} (hcookies : response.cookies = []) : Carries net net' response :=
  ⟨taken, linesOf taken, h, by rw [hcookies, List.append_nil]⟩

theorem carries_responseOf {net net' : Net} {outcome : Outcome} (h : Consumes net.replies outcome net'.replies) :
    Carries net net' (responseOf outcome) := by
  obtain ⟨taken, htaken, hlast⟩ := h
  cases outcome with
  | raised => exact carries_nothing htaken rfl
  | answered status reply =>
    obtain ⟨before, rfl⟩ := hlast status reply rfl
    refine ⟨_, linesOf before, htaken, ?_⟩
    rw [linesOf_append]
    exact congrArg (linesOf before ++ ·) (List.append_nil _)

theorem replies_nextExec (net : Net) : (nextExec net).2.replies = net.replies := by
  rw [nextExec]
  cases net.execs with
  | nil => rfl
  | cons exec rest => rfl

section Receiving

variable [DigitRuntime]

theorem urlopen_consumes (replies : List (Option Reply)) (visited : Dict SplitResult ℕ) (request : Request) (net : Net) :
    Consumes replies (urlopen replies visited request net).1 (urlopen replies visited request net).2.replies := by
  induction replies generalizing visited request net with
  | nil =>
    rw [urlopen]
    cases dialled request.url with
    | none => exact consumes_raised [] []
    | some address => exact consumes_raised [] []
  | cons reply replies ih =>
    rw [urlopen]
    cases dialled request.url with
    | none => exact consumes_raised [] _
    | some address =>
      dsimp only
      cases reply with
      | none => exact consumes_raised [none] _
      | some reply =>
        dsimp only
        split_ifs
        · exact consumes_answered none reply replies
        · cases turn request reply with
          | answered => exact consumes_answered _ reply replies
          | malformed => exact consumes_raised [some reply] replies
          | follow location url =>
            dsimp only
            split_ifs
            · exact consumes_answered _ reply replies
            · exact (ih _ _ _).cons _

theorem opened_carries (request : Request) (net : Net) {outcome : Outcome}
    (h : (opened request).result net = .ok outcome) : Consumes net.replies outcome ((opened request).after net).replies := by
  obtain rfl := Except.ok.inj h
  exact urlopen_consumes net.replies Dict.empty request net

theorem direct_carries {method url : String} {body : Body} {headers : Dict String String} {connectTo : Option Text}
    {net : Net} {response : Response} (h : (DirectHttp.request method url body headers connectTo).result net = .ok response) :
    Carries net ((DirectHttp.request method url body headers connectTo).after net) response := by
  rw [DirectHttp.request] at h ⊢
  cases hpinned : pinned (upper method) url (withContentType headers body) connectTo with
  | error raised =>
    rw [hpinned] at h
    cases h
  | ok request =>
    rw [hpinned] at h
    obtain rfl := Except.ok.inj h
    exact carries_responseOf (opened_carries request net rfl)

/-- The part of `ExecHttp.request` that is done in the container. -/
def executed (request : Request) (exec : Exec) : Program Net Raised Response := do
  let outcome ← opened request
  match exec with
  | .unparsable stdout =>
    return { status := some 0, body := "", error := some ("unparsable client output: " ++ stdout) }
  | _ =>
    let response := responseOf outcome
    if response.status = none then throw .typeError else return response

omit [DigitRuntime] in
theorem answered_carries {outcome : Outcome} {net net' : Net} {response : Response}
    (hconsumes : Consumes net.replies outcome net'.replies)
    (h : (if (responseOf outcome).status = none then throw .typeError
        else return responseOf outcome : Program Net Raised Response).result net' = .ok response) :
    Carries net ((if (responseOf outcome).status = none then throw .typeError
        else return responseOf outcome : Program Net Raised Response).after net') response := by
  split_ifs at h ⊢
  · cases h
  · obtain rfl := Except.ok.inj h
    exact carries_responseOf hconsumes

theorem executed_carries {request : Request} {exec : Exec} {net : Net} {response : Response}
    (h : (executed request exec).result net = .ok response) :
    Carries net ((executed request exec).after net) response := by
  obtain ⟨outcome, houtcome, h⟩ := Program.result_bind_eq_ok h
  rw [executed, Program.after_bind_ok houtcome]
  have hopened := opened_carries request net houtcome
  cases exec with
  | unparsable stdout =>
    obtain rfl := Except.ok.inj h
    obtain ⟨taken, htaken, -⟩ := hopened
    exact carries_nothing htaken rfl
  | failed stderr => exact answered_carries hopened h
  | printed => exact answered_carries hopened h

theorem exec_carries {method url : String} {body : Body} {headers : Dict String String} {connectTo : Option Text}
    {net : Net} {response : Response} (h : (ExecHttp.request method url body headers connectTo).result net = .ok response) :
    Carries net ((ExecHttp.request method url body headers connectTo).after net) response := by
  have hnext : (Program.step nextExec : Program Net Raised Exec).result net = .ok (nextExec net).1 := rfl
  rw [ExecHttp.request, Program.result_bind_ok hnext] at h
  rw [ExecHttp.request, Program.after_bind_ok hnext]
  have hreplies : ((Program.step nextExec : Program Net Raised Exec).after net).replies = net.replies :=
    replies_nextExec net
  refine Carries.of_replies hreplies ?_
  cases hexec : (nextExec net).1 with
  | failed stderr =>
    rw [hexec] at h
    obtain rfl := Except.ok.inj h
    exact carries_nothing (List.nil_append _).symm rfl
  | unparsable stdout =>
    rw [hexec] at h
    dsimp only at h ⊢
    cases hpinned : pinned (upper method) url (withContentType headers body) connectTo with
    | error raised =>
      rw [hpinned] at h
      obtain rfl := Except.ok.inj h
      exact carries_nothing (List.nil_append _).symm rfl
    | ok request =>
      rw [hpinned] at h
      exact @executed_carries _ _ (.unparsable stdout) _ _ h
  | printed =>
    rw [hexec] at h
    dsimp only at h ⊢
    cases hpinned : pinned (upper method) url (withContentType headers body) connectTo with
    | error raised =>
      rw [hpinned] at h
      obtain rfl := Except.ok.inj h
      exact carries_nothing (List.nil_append _).symm rfl
    | ok request =>
      rw [hpinned] at h
      exact @executed_carries _ _ .printed _ _ h

theorem request_carries (http : Transport) {method url : String} {body : Body} {headers : Dict String String}
    {connectTo : Option Text} {net : Net} {response : Response}
    (h : (http.request method url body headers connectTo).result net = .ok response) :
    Carries net ((http.request method url body headers connectTo).after net) response := by
  cases http with
  | direct => exact direct_carries h
  | exec => exact exec_carries h

end Receiving

/-! ## A session's cookies -/

section Sessions

variable [LoginRuntime] (http : Transport) (creds : Credentials) (strict : Bool) (connectTo : Option Text)

theorem verify_cookies (session : Session) (loginResponse : Option Response) :
    (verify http creds strict connectTo session loginResponse).Returns fun s => s.cookies = session.cookies := by
  unfold verify
  cases given creds.verifyUrl with
  | some url =>
    refine (Program.Returns.any _).bind fun check _ => (Program.Returns.any _).bind fun ok _ => ?_
    exact Program.Returns.ite (Program.Returns.throw _) (Program.Returns.pure rfl)
  | none =>
    refine Program.Returns.ite ?_ (Program.Returns.ite (Program.Returns.throw _) (Program.Returns.pure rfl))
    cases loginResponse with
    | none => exact Program.Returns.pure rfl
    | some check =>
      refine (Program.Returns.any _).bind fun ok _ => ?_
      exact Program.Returns.ite (Program.Returns.throw _) (Program.Returns.pure rfl)

theorem withToken_cookies (session : Session) (body : String) :
    (withToken creds session body).Returns fun s => s.cookies = session.cookies := by
  rw [withToken]
  cases given creds.tokenJsonPath with
  | none => exact Program.Returns.pure rfl
  | some path =>
    dsimp only
    cases tokenOf body path with
    | null => exact Program.Returns.throw _
    | _ => exact Program.Returns.pure rfl

theorem withHeader_cookies (session : Session) :
    (withHeader creds session).Returns fun s => s.cookies = session.cookies := by
  rw [withHeader]
  refine Program.Returns.ite ?_ (Program.Returns.pure rfl)
  cases given session.token with
  | none => exact Program.Returns.throw _
  | some token =>
    dsimp only
    cases format creds.headerTemplate token with
    | none => exact Program.Returns.throw _
    | some value => exact Program.Returns.pure rfl

theorem sessionOf_cookies (session : Session) (preCookies : Dict String String) (loginUrl : String) (res : Response) :
    (sessionOf creds session preCookies loginUrl res).Returns fun s =>
      s.cookies = merged preCookies (parseSetCookie res.cookies) :=
  (withToken_cookies creds _ _).bind fun _ htoken =>
    (withHeader_cookies creds _).bind fun _ hheader => Program.Returns.pure (hheader.trans htoken)

/-- The part of `login` that has a response to read. -/
def concluded (session : Session) (preCookies : Dict String String) (loginUrl : String) (res : Response) :
    Program Net Raised (Session × Response) := do
  let ok ← isOk res
  if !ok then loginError (creds.app ++ ": login returned HTTP " ++ statusText res)
  else
    let session ← sessionOf creds session preCookies loginUrl res
    return (session, res)

theorem concluded_returns (session : Session) (preCookies : Dict String String) (loginUrl : String) (res : Response) :
    (concluded creds session preCookies loginUrl res).Returns fun x =>
      x.1.cookies = merged preCookies (parseSetCookie res.cookies) ∧ x.2 = res := by
  refine (Program.Returns.any _).bind fun ok _ => Program.Returns.ite (Program.Returns.throw _) ?_
  exact (sessionOf_cookies creds session preCookies loginUrl res).bind fun _ h => Program.Returns.pure ⟨h, rfl⟩

theorem concluded_after (session : Session) (preCookies : Dict String String) (loginUrl : String) (res : Response)
    (net : Net) : (concluded creds session preCookies loginUrl res).after net = net := by
  have hkeeps : (concluded creds session preCookies loginUrl res).Keeps (· = net) := by
    refine (keeps_isOk res).bind fun ok => Program.Keeps.ite (fun _ => Program.Keeps.throw _) fun _ => ?_
    exact (keeps_sessionOf creds session preCookies loginUrl res).bind fun _ => Program.Keeps.pure _
  exact hkeeps net rfl

/-- The lines of the reply to the login page. -/
def pageLines (net : Net) : List String :=
  match given creds.loginPageUrl with
  | none => []
  | some url =>
    match (http.request "GET" url .none Dict.empty connectTo).result net with
    | .ok pre => pre.cookies
    | .error _ => []

/-- The lines of the reply to the login. -/
def loginLines (net : Net) : List String :=
  match (login http creds { app := creds.app } connectTo).result net with
  | .ok x => x.2.cookies
  | .error _ => []

/-- Every line that comes in while logging in, those of redirects among them. -/
def received (net : Net) : List String :=
  linesOf (consumed net ((login http creds { app := creds.app } connectTo).after net))

variable {http creds connectTo} {net : Net}

/-- The jar of the login page. -/
theorem loginPage_carries {jar : Dict String String} (h : (loginPage http creds connectTo).result net = .ok jar) :
    jar = parseSetCookie (pageLines http creds connectTo net) ∧
      ∃ taken lost, net.replies = taken ++ ((loginPage http creds connectTo).after net).replies ∧
        linesOf taken = lost ++ pageLines http creds connectTo net := by
  unfold loginPage pageLines at *
  cases hurl : given creds.loginPageUrl with
  | none =>
    rw [hurl] at h
    exact ⟨(Except.ok.inj h).symm, [], [], rfl, rfl⟩
  | some url =>
    rw [hurl] at h
    obtain ⟨pre, hpre, h⟩ := Program.result_bind_eq_ok h
    dsimp only
    rw [hpre]
    refine ⟨(Except.ok.inj h).symm, ?_⟩
    obtain ⟨taken, lost, htaken, hlines⟩ := request_carries http hpre
    refine ⟨taken, lost, ?_, hlines⟩
    have hafter := Program.after_bind_ok (f := fun pre => pure (parseSetCookie pre.cookies)) hpre
    rw [htaken]
    exact congrArg (fun n : Net => taken ++ n.replies) hafter.symm

/-- A login that returns: the jars its session has, and the lines that came in. -/
theorem login_carries {session : Session} {response : Response}
    (h : (login http creds { app := creds.app } connectTo).result net = .ok (session, response)) :
    session.cookies = merged (parseSetCookie (pageLines http creds connectTo net)) (parseSetCookie response.cookies) ∧
      ∃ a b, received http creds connectTo net =
        a ++ pageLines http creds connectTo net ++ (b ++ response.cookies) := by
  unfold received
  rw [login] at h ⊢
  cases hurl : given creds.loginUrl with
  | none =>
    rw [hurl] at h
    cases h
  | some url =>
    rw [hurl] at h
    dsimp only at h ⊢
    obtain ⟨jar, hjar, h⟩ := Program.result_bind_eq_ok h
    obtain ⟨res, hres, h⟩ := Program.result_bind_eq_ok h
    rw [Program.after_bind_ok hjar, Program.after_bind_ok hres]
    obtain ⟨rfl, pageTaken, pageLost, hpage, hpageLines⟩ := loginPage_carries hjar
    obtain ⟨taken, lost, hlogin, hlines⟩ := request_carries http hres
    obtain ⟨hcookies, hresponse⟩ := concluded_returns creds { app := creds.app } _ url res _ _ h
    have hafter := concluded_after creds { app := creds.app } (parseSetCookie (pageLines http creds connectTo net)) url res
    rw [concluded] at hafter
    rw [hafter, consumed_of_append (hpage.trans (congrArg (pageTaken ++ ·) hlogin |>.trans (List.append_assoc _ _ _).symm)),
      linesOf_append, hpageLines, hlines]
    dsimp only at hcookies hresponse
    rw [hresponse]
    exact ⟨hcookies, pageLost, lost, rfl⟩

variable {strict}

/-- The session's cookies are what the application left, just if each of them is kept. -/
theorem cookies_kept_iff {session : Session} (hkind : creds.kind ≠ "basic")
    (h : (establish http creds strict connectTo).result net = .ok session) :
    (∀ name value, session.cookies.get? name = some value ↔ Left (received http creds connectTo net) name value) ↔
      ∀ name, Kept (values name (pageLines http creds connectTo net)) (values name (loginLines http creds connectTo net))
        (values name (received http creds connectTo net)) := by
  rw [establish, if_neg hkind] at h
  obtain ⟨⟨session₁, response⟩, hlogin, hverify⟩ := Program.result_bind_eq_ok h
  have hlines : loginLines http creds connectTo net = response.cookies := by rw [loginLines, hlogin]
  obtain ⟨hcookies, a, b, hreceived⟩ := login_carries hlogin
  rw [verify_cookies http creds strict connectTo session₁ (some response) _ _ hverify, hcookies, hlines]
  refine forall_congr' fun name => ?_
  have hall : values name (received http creds connectTo net) =
      values name a ++ values name (pageLines http creds connectTo net) ++ (values name b ++ values name response.cookies) := by
    rw [hreceived, values_append, values_append, values_append]
  rw [← jars_iff hall, get?_merged, get?_parseSetCookie, get?_parseSetCookie]
  rfl

end Sessions

/-! ## A form login -/

/-- A form login that is verified against its own response. -/
def form : Credentials where
  app := "portal"
  loginUrl := some "http://portal/login"
  loggedInRegex := some "Sign out"

/-- The session cookie comes with the redirect to the dashboard. -/
def dashboard : Net where
  replies :=
    [some { status := 302, location := some "/dashboard".toList, cookies := ["session=abc; Path=/; HttpOnly"] },
      some { status := 200, body := "Sign out" }]

theorem dashboard_session : ∃ session, (@establish LoginRuntime.ascii .direct form true none).result dashboard = .ok session ∧
    session.cookies.get? "session" = none := by
  have hcookie : ((@establish LoginRuntime.ascii .direct form true none).result dashboard).toOption.map
      (fun session => session.cookies.get? "session") = some none := by
    decide +kernel
  cases hresult : (@establish LoginRuntime.ascii .direct form true none).result dashboard with
  | error e =>
    rw [hresult] at hcookie
    cases hcookie
  | ok session =>
    rw [hresult] at hcookie
    exact ⟨session, rfl, Option.some.inj hcookie⟩

theorem dashboard_received : @received LoginRuntime.ascii .direct form none dashboard = ["session=abc; Path=/; HttpOnly"] := by
  decide +kernel

theorem dashboard_kept_iff :
    ∃ session, (@establish LoginRuntime.ascii .direct form true none).result dashboard = .ok session ∧
      ((∀ name value, session.cookies.get? name = some value ↔
          Left (@received LoginRuntime.ascii .direct form none dashboard) name value) ↔
        ∀ name, Kept (values name (@pageLines LoginRuntime.ascii .direct form none dashboard))
          (values name (@loginLines LoginRuntime.ascii .direct form none dashboard))
          (values name (@received LoginRuntime.ascii .direct form none dashboard))) := by
  obtain ⟨session, hsession, -⟩ := dashboard_session
  exact ⟨session, hsession, @cookies_kept_iff LoginRuntime.ascii .direct form true none dashboard session (by decide) hsession⟩

/-- The session cookie is lost on the way to the dashboard. -/
theorem dashboard_cookie_lost :
    ∃ session, (@establish LoginRuntime.ascii .direct form true none).result dashboard = .ok session ∧
      session.cookies.get? "session" = none ∧
      Left (@received LoginRuntime.ascii .direct form none dashboard) "session" "abc" := by
  obtain ⟨session, hsession, hcookie⟩ := dashboard_session
  refine ⟨session, hsession, hcookie, ?_⟩
  rw [dashboard_received]
  exact ⟨by decide +kernel, by decide⟩

end PtaasBench.Runners.Login
