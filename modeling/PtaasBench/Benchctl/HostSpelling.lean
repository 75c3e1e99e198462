import Mathlib.Data.Fintype.EquivFin
import PtaasBench.Benchctl.FindingUrl
import PtaasBench.Benchctl.HostResolution
import PtaasBench.Benchctl.Verdicts

/-!
# PtaasBench.Benchctl.HostSpelling — one host, spelled two ways

A host is normalised before it is compared with an inventory, but not before it is looked up in the app map.  What the
verdicts can see of a finding's authority is where the app map leads it and how an inventory reads its host (`Sight`).
Two spellings are judged alike by every catalog and every inventory just if they are seen alike.

All spellings of a host are read alike, so where the URL has a path the app map alone tells them apart.  Without a path
the query or the fragment belongs to the authority, a port in front of it is not recognised, and the hosts differ too.
-/

namespace PtaasBench.Benchctl

open PtaasBench.Py List

/-- Lower case leaves the end of an authority as it is. -/
class HostRuntime extends UrlRuntime where
  lower_append : ∀ (s : String) (t : List Char), (∀ c ∈ t, c = '.' ∨ c = ':' ∨ c.isDigit = true) →
    (lower (s ++ String.ofList t)).toList = (lower s).toList ++ t

/-! ## Spellings -/

section Spellings

variable [Runtime]

def NoBlank (s : String) : Prop := ∀ c ∈ s.toList, isSpace c = false

instance (s : String) : Decidable (NoBlank s) := List.decidableBAll (fun c => isSpace c = false) s.toList

/-- A name without a port. -/
structure PlainName (name : String) : Prop where
  blank : NoBlank name
  colon : ':' ∉ (lower name).toList
  bracket : (lower name).toList.head? ≠ some '['

def IsPort (ds : List Char) : Prop := ds ≠ [] ∧ ds.all Char.isDigit = true

/-- The same host in other letters, with the root's dot, or with its port. -/
inductive Spelled : String → String → Prop
  | letters {a a' : String} : NoBlank a → NoBlank a' → lower a = lower a' → Spelled a a'
  | dot {name : String} : PlainName name → Spelled name (name ++ String.ofList ['.'])
  | dotPort {name : String} {ds : List Char} : PlainName name → IsPort ds →
      Spelled (name ++ String.ofList (':' :: ds)) (name ++ String.ofList ('.' :: ':' :: ds))
  | port {name : String} {ds : List Char} : PlainName name → IsPort ds →
      Spelled name (name ++ String.ofList (':' :: ds))
  | literalPort {address ds : List Char} : address.all isAuthorityChar = true → IsPort ds →
      Spelled (String.ofList ('[' :: (address ++ [']']))) (String.ofList ('[' :: (address ++ ']' :: ':' :: ds)))

/-- Two findings that differ in the spelling of their host.  Where the URL has no path, its query or fragment `w` belongs
to the authority. -/
structure Respelled (f f' : Finding) (a a' w : String) : Prop where
  rest : { f with url := f'.url } = f'
  authority : f.authority = some (a ++ w)
  authority' : f'.authority = some (a' ++ w)
  path : f'.path = f.path
  spelled : Spelled a a'
  tail : w = "" ∨ w.toList.head? = some '?' ∨ w.toList.head? = some '#'

end Spellings

theorem strip_of_noBlank {s : String} (h : NoBlank s) : strip s = s := stripBy_eq_self h

theorem noBlank_append {s : String} {t : List Char} (hs : NoBlank s)
    (ht : ∀ c ∈ t, c = '.' ∨ c = ':' ∨ c.isDigit = true) : NoBlank (s ++ String.ofList t) := by
  intro c hc
  rw [String.toList_append, String.toList_ofList] at hc
  rcases mem_append.mp hc with hc | hc
  · exact hs c hc
  · rcases ht c hc with rfl | rfl | hd
    · decide
    · decide
    · exact isSpace_of_graphic (graphic_of_isDigit hd)

theorem IsPort.chars {ds : List Char} (h : IsPort ds) : ∀ c ∈ ds, c = '.' ∨ c = ':' ∨ c.isDigit = true :=
  fun c hc => Or.inr (Or.inr (all_eq_true.mp h.2 c hc))

theorem rdropWhile_concat_dot (l : List Char) : (l ++ ['.']).rdropWhile (· == '.') = l.rdropWhile (· == '.') :=
  rdropWhile_append_of_all l (by simp)

section Normal

variable [HostRuntime]

theorem normalizeHost_append {name : String} {t : List Char} (hname : NoBlank name)
    (ht : ∀ c ∈ t, c = '.' ∨ c = ':' ∨ c.isDigit = true) :
    normalizeHost (some (name ++ String.ofList t)) = textOrNone (reading ((lower name).toList ++ t)) := by
  rw [normalizeHost_eq_reading, strip_of_noBlank (noBlank_append hname ht), HostRuntime.lower_append name t ht]

theorem normalizeHost_noBlank {name : String} (hname : NoBlank name) :
    normalizeHost (some name) = textOrNone (reading (lower name).toList) := by
  rw [normalizeHost_eq_reading, strip_of_noBlank hname]

omit [HostRuntime] in
theorem not_hasPort_of_notMem [Runtime] {v : List Char} (h : ':' ∉ v) : ¬ HasPort v := by
  rintro ⟨name, ds, rfl, -⟩
  exact h (mem_append_right _ mem_cons_self)

/-- All spellings of a host are normalised alike. -/
theorem normalizeHost_spelled {a a' : String} (h : Spelled a a') :
    normalizeHost (some a) = normalizeHost (some a') := by
  cases h with
  | letters ha ha' hlower => rw [normalizeHost_noBlank ha, normalizeHost_noBlank ha', hlower]
  | dot hname =>
    have hhead : ((lower a).toList ++ ['.']).head? ≠ some '[' := fun h =>
      hname.bracket ((head?_append_mark (by decide)).mp h)
    have hport : ':' ∉ (lower a).toList ++ ['.'] := by simpa using hname.colon
    rw [normalizeHost_noBlank hname.blank, normalizeHost_append hname.blank (by simp),
      reading_plain hname.bracket (not_hasPort_of_notMem hname.colon),
      reading_plain hhead (not_hasPort_of_notMem hport), rdropWhile_concat_dot]
  | @dotPort name ds hname hds =>
    have hhead : ((lower name).toList ++ ['.']).head? ≠ some '[' := fun h =>
      hname.bracket ((head?_append_mark (by decide)).mp h)
    have hport : ':' ∉ (lower name).toList ++ ['.'] := by simpa using hname.colon
    have hdigits := portDigits_of_ascii hds.1 hds.2
    have hreading := reading_port hhead hport hdigits
    rw [append_assoc, singleton_append] at hreading
    have hchars : ∀ c ∈ ':' :: ds, c = '.' ∨ c = ':' ∨ c.isDigit = true :=
      forall_mem_cons.mpr ⟨Or.inr (Or.inl rfl), hds.chars⟩
    rw [normalizeHost_append hname.blank hchars,
      normalizeHost_append hname.blank (forall_mem_cons.mpr ⟨Or.inl rfl, hchars⟩),
      reading_port hname.bracket hname.colon hdigits, hreading, rdropWhile_concat_dot]
  | @port _ ds hname hds =>
    have hchars : ∀ c ∈ ':' :: ds, c = '.' ∨ c = ':' ∨ c.isDigit = true :=
      forall_mem_cons.mpr ⟨Or.inr (Or.inl rfl), hds.chars⟩
    rw [normalizeHost_noBlank hname.blank, normalizeHost_append hname.blank hchars,
      reading_plain hname.bracket (not_hasPort_of_notMem hname.colon),
      reading_port hname.bracket hname.colon (portDigits_of_ascii hds.1 hds.2)]
  | @literalPort address ds haddress hds =>
    have hvisible : ∀ c ∈ address, 33 ≤ c.toNat ∧ c.toNat ≤ 126 := fun c hc =>
      (isAuthorityChar_iff.mp (all_eq_true.mp haddress c hc)).1
    have hclose : ']' ∉ lowered address := fun h =>
      (bracket_notMem_of_all haddress).2 ((mem_lowered (by simp)).mp h)
    have hread : ∀ rest : List Char, (∀ c ∈ rest, 33 ≤ c.toNat ∧ c.toNat ≤ 126) →
        normalizeHost (some (String.ofList ('[' :: (address ++ ']' :: rest)))) = textOrNone (trim (lowered address)) := by
      intro rest hrest
      have hall : ∀ c ∈ '[' :: (address ++ ']' :: rest), 33 ≤ c.toNat ∧ c.toNat ≤ 126 := by
        refine forall_mem_cons.mpr ⟨by decide, fun c hc => ?_⟩
        rcases mem_append.mp hc with hc | hc
        · exact hvisible c hc
        · rcases mem_cons.mp hc with rfl | hc
          · decide
          · exact hrest c hc
      have htext : lowered ('[' :: (address ++ ']' :: rest)) = '[' :: (lowered address ++ (']' :: lowered rest)) := by
        simp [lowered]
      rw [normalizeHost_ascii hall, htext, reading_bracket hclose (Or.inr rfl)]
    rw [hread [] (by simp), hread (':' :: ds)]
    refine forall_mem_cons.mpr ⟨by decide, fun c hc => graphic_of_isDigit (all_eq_true.mp hds.2 c hc)⟩

end Normal

/-! ## Reading a host -/

/-- How an inventory reads a host: there is none, it is taken for any, or it is compared as an address or by its first
label. -/
inductive HostReading where
  | nothing
  | anyHost
  | address (host : String)
  | name (label : String)
deriving DecidableEq

def classify (host : String) : HostReading :=
  if isIpLiteral host then .address host else .name (beforeChar '.' host)

section Reading

variable [Runtime]

/-- A value that is compared is normalised once more. -/
def readValue (value : String) : HostReading :=
  match normalizeHost (some value) with
  | none => .anyHost
  | some host => classify host

/-- A host is normalised for the finding, again when it is resolved, and again when it is compared. -/
def readHost (authority : String) : HostReading :=
  match normalizeHost (normalizeHost (some authority)) with
  | none => .nothing
  | some value => readValue value

/-- Is a declared host taken for the one that was read? -/
def HostReading.takes (r : HostReading) (declared : String) : Bool :=
  if r = .nothing then false
  else if r = .anyHost then true
  else match normalizeHost (some declared) with
    | none => true
    | some host => classify host = r

omit [Runtime] in
theorem classify_eq_iff {a b : String} : classify a = classify b ↔
    a = b ∨ (isIpLiteral a = false ∧ isIpLiteral b = false ∧ beforeChar '.' a = beforeChar '.' b) := by
  rw [classify, classify]
  cases ha : isIpLiteral a <;> cases hb : isIpLiteral b
  · simp only [Bool.false_eq_true, if_false, HostReading.name.injEq, true_and]
    exact ⟨Or.inr, fun h => h.elim (congrArg _) id⟩
  · simp only [Bool.false_eq_true, if_false, if_true, reduceCtorEq, false_and, and_false, or_false, false_iff]
    rintro rfl
    rw [ha] at hb
    cases hb
  · simp only [Bool.false_eq_true, if_false, if_true, reduceCtorEq, false_and, or_false, false_iff]
    rintro rfl
    rw [ha] at hb
    cases hb
  · simp

omit [Runtime] in
theorem classify_specific (host : String) : classify host ≠ .nothing ∧ classify host ≠ .anyHost := by
  rw [classify]
  split_ifs
  · exact ⟨HostReading.noConfusion, HostReading.noConfusion⟩
  · exact ⟨HostReading.noConfusion, HostReading.noConfusion⟩

theorem takes_classify {host declared : String} :
    (classify host).takes declared = true ↔ ∀ d, normalizeHost (some declared) = some d → classify d = classify host := by
  rw [HostReading.takes, if_neg (classify_specific host).1, if_neg (classify_specific host).2]
  cases normalizeHost (some declared) with
  | none => exact iff_of_true rfl fun _ h => nomatch h
  | some d => exact decide_eq_true_iff.trans ⟨fun h _ hd => Option.some.inj hd ▸ h, fun h => h d rfl⟩

theorem hostMatches_eq_takes {declared value : String} :
    hostMatches (some declared) (some value) = (readValue value).takes declared := by
  rw [Bool.eq_iff_iff, hostMatches_iff, TakenFor, readValue]
  cases hvalue : normalizeHost (some value) with
  | none => exact iff_of_true (fun _ _ _ h => by cases h) rfl
  | some host =>
    refine Iff.trans ?_ takes_classify.symm
    exact ⟨fun h d hd => classify_eq_iff.mpr (h d host hd rfl), fun h d b hd hb =>
      Option.some.inj hb ▸ classify_eq_iff.mp (h d hd)⟩

theorem resolveHost_eq_find (inv : RouteInventory) (a : String) :
    inv.resolveHost (normalizeHost (some a)) = inv.hosts.find? (readHost a).takes := by
  rw [RouteInventory.resolveHost, readHost]
  cases normalizeHost (normalizeHost (some a)) with
  | none => exact (List.find?_eq_none.mpr fun _ _ => Bool.false_ne_true).symm
  | some value =>
    dsimp only
    rw [show (fun declared => hostMatches (some declared) (some value)) = _ from
      funext fun declared => hostMatches_eq_takes]

/-- A reading of its own takes the host it comes from. -/
theorem readHost_cases (a : String) : readHost a = .nothing ∨ readHost a = .anyHost ∨
    ∃ host value declared, readHost a = classify host ∧ normalizeHost (some value) = some host ∧
      normalizeHost (some declared) = some value := by
  rw [readHost]
  cases hvalue : normalizeHost (normalizeHost (some a)) with
  | none => exact Or.inl rfl
  | some value =>
    dsimp only
    rw [readValue]
    cases hhost : normalizeHost (some value) with
    | none => exact Or.inr (Or.inl rfl)
    | some host =>
      cases hdeclared : normalizeHost (some a) with
      | none =>
        rw [hdeclared, normalizeHost_of_not_given rfl] at hvalue
        cases hvalue
      | some declared => exact Or.inr (Or.inr ⟨host, value, declared, rfl, hhost, hdeclared ▸ hvalue⟩)

end Reading

/-! ## What is seen of a finding -/

/-- Whom a finding is about: an app, or the app of the run, and without one the host it was reported on. -/
inductive Lead where
  | app (name : String)
  | run (host : Option String)
deriving DecidableEq

structure Sight where
  lead : Lead
  reading : HostReading
deriving DecidableEq

def IsLocal (host : String) : Prop := host = "localhost" ∨ host = "127.0.0.1" ∨ host = ""

instance : DecidablePred IsLocal := fun host =>
  inferInstanceAs (Decidable (host = "localhost" ∨ host = "127.0.0.1" ∨ host = ""))

/-- What an app map has for an authority, with its port or without. -/
def mappedTo (m : Dict String String) (a : String) : Option String := (m.get? a).or (m.get? (beforeChar ':' a))

section Seeing

variable [Runtime]

/-- What can be seen of a finding on an authority.  To be mapped to the empty name is to be on a local host that no
inventory reads. -/
def sightOf (m : Dict String String) (f : Finding) (a : String) : Sight :=
  if given f.app then { lead := .app (f.app.getD ""), reading := readHost a }
  else
    match mappedTo m a with
    | some app =>
      if app = "" then { lead := .run none, reading := .nothing } else { lead := .app app, reading := readHost a }
    | none =>
      { lead := .run (if IsLocal (beforeChar ':' a) then none else some (beforeChar ':' a)), reading := readHost a }

def agreesBy (inv : Option RouteInventory) (r : HostReading) (v : PlantedVuln) : Bool :=
  match inv with
  | none => true
  | some i =>
    let resolved := i.hosts.find? r.takes
    hostAgrees v (some i) (if !i.singleHost && given resolved then resolved else none)

/-- Does a run take what is seen for the place of a vulnerability in its scope? -/
def Judging.sees (ctx : Judging) (s : Sight) (v : PlantedVuln) : Bool :=
  match s.lead with
  | .app a => (v.app = "" || v.app = a) && agreesBy (ctx.inventories.get? a) s.reading v
  | .run host =>
    if Py.given ctx.defaultApp then agreesBy (ctx.defaultApp.bind ctx.inventories.get?) s.reading v
    else
      match host with
      | none => true
      | some h => (v.app = "" || v.app = h) && agreesBy (ctx.inventories.get? h) s.reading v

variable {ctx : Judging} {m : Dict String String} {f f' : Finding} {a a' : String} {v : PlantedVuln}

theorem agreesBy_nothing (inv : Option RouteInventory) (v : PlantedVuln) : agreesBy inv .nothing v = true := by
  cases inv with
  | none => rfl
  | some i =>
    have hnone : i.hosts.find? HostReading.nothing.takes = none :=
      List.find?_eq_none.mpr fun _ _ => Bool.false_ne_true
    rw [agreesBy, hnone, ite_self]
    rfl

/-- The place of a finding, and the app and the inventory it is led to. -/
theorem located_eq (ha : f.authority = some a) : ctx.located f v =
    ((f.method = none || f.method = some v.entrypoint.method) && routeMatchesPath v.entrypoint.path f.path &&
      (if given (ctx.appOf f) then (v.app = "" || some v.app = ctx.appOf f) &&
        agreesBy ((ctx.appOf f).bind ctx.inventories.get?) (readHost a) v else true)) := by
  have hhost : f.host = normalizeHost (some a) := by rw [Finding.host, ha]
  have hagrees : hostAgrees v (ctx.inventoryOf f) (if ctx.hostMatch f = .exact then ctx.resolvedHost f else none) =
      agreesBy (ctx.inventoryOf f) (readHost a) v := by
    rw [Judging.hostMatch, Judging.resolvedHost, hhost]
    cases ctx.inventoryOf f with
    | none => rfl
    | some i =>
      rw [Option.bind_some, resolveHost_eq_find, agreesBy]
      dsimp only
      by_cases hsingle : i.singleHost = true
      · simp [hsingle]
      · by_cases hgiven : given (i.hosts.find? (readHost a).takes) = true
        · simp [hsingle, hgiven]
        · simp [hsingle, hgiven]
  rw [Judging.located, hagrees, Judging.inventoryOf]
  cases given (ctx.appOf f) with
  | true =>
    rw [if_pos rfl, if_pos rfl, Bool.not_true, Bool.false_or]
    simp only [Bool.and_assoc, Bool.and_left_comm]
  | false =>
    rw [if_neg Bool.false_ne_true, if_neg Bool.false_ne_true, Bool.not_false, Bool.true_or, Bool.true_or, Bool.true_and]
    rfl

omit [Runtime] in
/-- A run on one app has only that app's vulnerabilities in its scope. -/
theorem app_of_default {d : String} (hd : ctx.defaultApp = some d) (hv : v ∈ ctx.inScope) : v.app = d := by
  have hmem : v.app ∈ ctx.scopeApps := Catalog.mem_sortedSet.mpr (mem_map_of_mem hv)
  rw [Judging.defaultApp] at hd
  cases hscope : ctx.scopeApps with
  | nil =>
    rw [hscope] at hmem
    cases hmem
  | cons x rest =>
    rw [hscope] at hd hmem
    cases rest with
    | nil => exact (mem_singleton.mp hmem).trans (Option.some.inj hd)
    | cons y rest => cases hd

/-- A finding that is led to an app, in one way or the other. -/
theorem led_eq {app : String} (h : app ≠ "") (r : HostReading) (v : PlantedVuln) :
    (if given (some app) then (v.app = "" || some v.app = some app) &&
      agreesBy ((some app).bind ctx.inventories.get?) r v else true) =
      ((v.app = "" || v.app = app) && agreesBy (ctx.inventories.get? app) r v) := by
  rw [if_pos (show given (some app) = true from decide_eq_true h), Option.bind_some]
  simp only [Option.some.injEq]

/-- A finding that is not mapped is about the app of the run, and without one about its host. -/
theorem run_eq (r : HostReading) {host : String} (hv : v ∈ ctx.inScope) {app : Option String}
    (happ : app = if host = "localhost" ∨ host = "127.0.0.1" then ctx.defaultApp else some (textOr ctx.defaultApp host)) :
    (if given app then (v.app = "" || some v.app = app) && agreesBy (app.bind ctx.inventories.get?) r v else true) =
      ctx.sees { lead := .run (if IsLocal host then none else some host), reading := r } v := by
  rw [Judging.sees]
  dsimp only
  by_cases hd : given ctx.defaultApp = true
  · obtain ⟨d, hdefault⟩ : ∃ d, ctx.defaultApp = some d := by
      cases h : ctx.defaultApp with
      | none => rw [h] at hd; cases hd
      | some d => exact ⟨d, rfl⟩
    rw [hdefault] at hd happ ⊢
    have hne : d ≠ "" := of_decide_eq_true hd
    have hsame : app = some d := by
      rw [happ, textOr, if_pos hd]
      exact ite_self _
    rw [hsame, led_eq hne, if_pos hd, app_of_default hdefault hv, Option.bind_some]
    simp
  · rw [if_neg hd]
    by_cases hnamed : host = "localhost" ∨ host = "127.0.0.1"
    · rw [happ, if_pos hnamed, if_neg hd, if_pos (show IsLocal host from hnamed.imp_right Or.inl)]
    · rw [happ, if_neg hnamed, textOr, if_neg hd]
      by_cases hempty : host = ""
      · rw [if_pos (show IsLocal host from Or.inr (Or.inr hempty)), hempty]
        rfl
      · have hlocal : ¬ IsLocal host := fun h => (or_assoc.mpr h).elim hnamed hempty
        rw [if_neg hlocal, led_eq hempty]

/-- A place is where it is, and the rest is seen. -/
theorem located_eq_sees (hctx : ctx.appMap = m) (ha : f.authority = some a) (hv : v ∈ ctx.inScope) : ctx.located f v =
    ((f.method = none || f.method = some v.entrypoint.method) && routeMatchesPath v.entrypoint.path f.path &&
      ctx.sees (sightOf m f a) v) := by
  rw [located_eq ha, Judging.appOf, hctx]
  congr 1
  by_cases happ : given f.app = true
  · obtain ⟨app, hsome⟩ : ∃ app, f.app = some app := by
      cases h : f.app with
      | none => rw [h] at happ; cases happ
      | some app => exact ⟨app, rfl⟩
    have hresolve : resolveApp f m ctx.defaultApp = some app := by rw [resolveApp, if_pos happ, hsome]
    have hsight : sightOf m f a = { lead := .app app, reading := readHost a } := by
      rw [sightOf, if_pos happ, hsome]
      rfl
    rw [hsome] at happ
    rw [hresolve, hsight]
    exact led_eq (of_decide_eq_true happ) _ _
  · have hresolve : resolveApp f m ctx.defaultApp = match mappedTo m a with
        | some app => some app
        | none => if beforeChar ':' a = "localhost" ∨ beforeChar ':' a = "127.0.0.1" then ctx.defaultApp
          else some (textOr ctx.defaultApp (beforeChar ':' a)) := by
      rw [resolveApp, if_neg happ, ha]
      rfl
    rw [hresolve, sightOf, if_neg happ]
    cases mappedTo m a with
    | some app =>
      dsimp only
      by_cases hempty : app = ""
      · -- the empty name is no app: nothing is looked up
        rw [if_pos hempty, hempty, if_neg (by decide), Judging.sees]
        dsimp only
        rw [agreesBy_nothing, ite_self]
      · rw [if_neg hempty]
        exact led_eq hempty _ _
    | none => exact run_eq _ hv rfl

theorem best_congr (hrest : { f with url := f'.url } = f') (hpath : f'.path = f.path) (hctx : ctx.appMap = m)
    (ha : f.authority = some a) (ha' : f'.authority = some a') (hsight : sightOf m f a = sightOf m f' a') :
    ctx.best f' = ctx.best f := by
  have hmethod : f'.method = f.method := by rw [← hrest]
  have hparam : f'.param = f.param := by rw [← hrest]
  have hcwe : f'.cwe = f.cwe := by rw [← hrest]
  have hlocated : ctx.inScope.filter (ctx.located f') = ctx.inScope.filter (ctx.located f) := by
    refine filter_congr fun v hv => ?_
    rw [located_eq_sees hctx ha' hv, located_eq_sees hctx ha hv, hmethod, hpath, hsight]
  have hbetter : ctx.better f' = ctx.better f := by
    funext best v
    have hjudge : judge ctx.catalog f' v = judge ctx.catalog f v := by
      rw [judge, judge, hparam, hcwe]
    rw [Judging.better, Judging.better, hjudge]
  rw [Judging.best, Judging.best, hlocated, hbetter]

/-- Findings with the same best verdict have the same row verdicts, wherever they stand. -/
theorem verdicts_congr (hrest : { f with url := f'.url } = f') (hbest : ctx.best f' = ctx.best f)
    (before after : List Finding) :
    (ctx.classify (before ++ f' :: after)).rows.map Row.verdict =
      (ctx.classify (before ++ f :: after)).rows.map Row.verdict := by
  have htool : f'.tool = f.tool := by rw [← hrest]
  have hcwe : f'.cwe = f.cwe := by rw [← hrest]
  have hclaim : ctx.claim f' = ctx.claim f := by rw [Judging.claim, Judging.claim, hbest, htool]
  have hjudged : judged ctx f' = judged ctx f := by
    rw [judged, judged, Judging.outOfCatalog, Judging.outOfCatalog, hbest, Judging.unscoreableKind,
      Judging.unscoreableKind, hcwe]
  rw [rows_classify, rows_classify]
  generalize ([] : List (Option String × String)) = claimed
  induction before generalizing claimed with
  | nil =>
    rw [nil_append, nil_append, rowsFrom, rowsFrom, map_cons, map_cons, verdict_rowAfter,
      verdict_rowAfter, claimedAfter, claimedAfter, hclaim, hjudged]
  | cons g before ih =>
    rw [cons_append, cons_append, rowsFrom, rowsFrom, map_cons, map_cons, ih]

end Seeing

/-! ## Catalogs that tell two sights apart -/

section Probe

variable [Runtime] (f : Finding) (m : Dict String String)

/-- A flaw of an app, at the very place of the finding and of its class. -/
def probe (app id : String) : PlantedVuln where
  id := id
  app := app
  entrypoint := { method := f.method.getD "GET", path := f.path }
  oracle := { kind := "signal" }
  cwe := f.cwe

/-- Two such flaws. -/
def site (x y : String) (inventories : Dict String RouteInventory) : Judging where
  catalog :=
    { vulns := [probe f x "1", probe f y "2"]
      ids_nodup := (by decide : ["1", "2"].Nodup) }
  appMap := m
  inventories := inventories

/-- One of the two is at the place of what is seen. -/
def Tells (x y : String) (inventories : Dict String RouteInventory) (s : Sight) : Prop :=
  (site f m x y inventories).sees s (probe f x "1") = true ∨ (site f m x y inventories).sees s (probe f y "2") = true

theorem routeMatchesPath_self {path : String} (h : routeSegments path ≠ [UNMATCHED]) :
    routeMatchesPath path path = true := by
  rw [routeMatchesPath, if_neg (by simpa using h), segsMatch]
  exact matchSegs_self true _ _ (by omega)

variable {f m} {g : Finding} {a x y : String} {inventories : Dict String RouteInventory}

theorem inScope_site : (site f m x y inventories).inScope = [probe f x "1", probe f y "2"] := by
  rw [Judging.inScope]
  exact filter_eq_self.mpr fun v _ => rfl

theorem located_probe (hrest : { f with url := g.url } = g) (hpath : g.path = f.path)
    (hroute : routeSegments f.path ≠ [UNMATCHED]) (ha : g.authority = some a) {app id : String}
    (hv : probe f app id ∈ (site f m x y inventories).inScope) :
    (site f m x y inventories).located g (probe f app id) =
      (site f m x y inventories).sees (sightOf m g a) (probe f app id) := by
  have hmethod : g.method = f.method := by rw [← hrest]
  have hfits : (f.method = none || f.method = some (f.method.getD "GET")) = true := by
    cases f.method <;> simp
  rw [located_eq_sees (m := m) rfl ha hv, hmethod, hpath, show (probe f app id).entrypoint.method = f.method.getD "GET" by rfl,
    hfits, show (probe f app id).entrypoint.path = f.path by rfl, routeMatchesPath_self hroute, Bool.and_true,
    Bool.true_and]

/-- The finding has a place in the catalog just if one of the two flaws is at the place of what is seen. -/
theorem judged_site (hrest : { f with url := g.url } = g) (hpath : g.path = f.path)
    (hroute : routeSegments f.path ≠ [UNMATCHED]) (ha : g.authority = some a) :
    judged (site f m x y inventories) g ≠ .falsePositive ↔ Tells f m x y inventories (sightOf m g a) := by
  have hcwe : g.cwe = f.cwe := by rw [← hrest]
  have hkind : (site f m x y inventories).unscoreableKind g = none := by
    rw [Judging.unscoreableKind]
    by_cases hnil : g.cwe = []
    · rw [if_pos hnil]
    · obtain ⟨c, rest, hc⟩ := exists_cons_of_ne_nil hnil
      have hcatalog : c ∈ catalogCwes (site f m x y inventories).catalog := by
        rw [hcwe] at hc
        simp [catalogCwes, site, probe, hc]
      have hscoped : c ∈ (site f m x y inventories).scopedCwes := by
        rw [hcwe] at hc
        simp [Judging.scopedCwes, Judging.inScope, site, probe, hc]
      rw [if_neg hnil, hc, all_cons, all_cons, decide_eq_false (not_not.mpr hcatalog),
        decide_eq_false (not_not.mpr hscoped)]
      simp
  have hjudged : judged (site f m x y inventories) g = ((site f m x y inventories).best g).verdict := by
    rw [judged, Judging.outOfCatalog, hkind, ite_self]
    rfl
  have hjudge : ∀ app id,
      (judge (site f m x y inventories).catalog g (probe f app id)).1.rank < Verdict.falsePositive.rank := by
    intro app id
    rw [judge, if_neg (by simp [probe, given])]
    split_ifs with hnil hany
    · decide
    · decide
    · refine absurd ?_ hany
      obtain ⟨c, rest, hc⟩ := exists_cons_of_ne_nil hnil
      exact any_eq_true.mpr ⟨c, by rw [hc]; exact mem_cons_self,
        decide_eq_true (by rw [← hcwe, hc]; exact mem_cons_self : c ∈ f.cwe)⟩
  have hbetter : ∀ b app id, ((site f m x y inventories).better g b (probe f app id)).verdict ≠ .falsePositive := by
    intro b app id h
    have hrank := hjudge app id
    rw [Judging.better] at h
    split_ifs at h with hless
    · rw [show (judge (site f m x y inventories).catalog g (probe f app id)).1 = _ from h] at hrank
      exact Nat.lt_irrefl _ hrank
    · rw [h] at hless
      exact hless hrank
  have hscope := @inScope_site _ f m x y inventories
  have hx := @located_probe _ f m g a x y inventories hrest hpath hroute ha x "1" (by rw [hscope]; simp)
  have hy := @located_probe _ f m g a x y inventories hrest hpath hroute ha y "2" (by rw [hscope]; simp)
  rw [hjudged, Judging.best, hscope, Tells, ← hx, ← hy]
  by_cases hlx : (site f m x y inventories).located g (probe f x "1") = true
  · refine iff_of_true ?_ (Or.inl hlx)
    rw [filter_cons_of_pos hlx]
    by_cases hly : (site f m x y inventories).located g (probe f y "2") = true
    · rw [filter_cons_of_pos hly]
      exact hbetter _ _ _
    · rw [filter_cons_of_neg hly]
      exact hbetter _ _ _
  · rw [filter_cons_of_neg hlx]
    by_cases hly : (site f m x y inventories).located g (probe f y "2") = true
    · refine iff_of_true ?_ (Or.inr hly)
      rw [filter_cons_of_pos hly]
      exact hbetter _ _ _
    · rw [filter_cons_of_neg hly]
      exact iff_of_false (fun h => h rfl) (not_or.mpr ⟨hlx, hly⟩)

/-- The app of a run on one app, and none for a run on two. -/
theorem defaultApp_site (x y : String) (inventories : Dict String RouteInventory) :
    (site f m x y inventories).defaultApp = if x = y then some x else none := by
  have hscope : (site f m x y inventories).scopeApps = Catalog.sortedSet [x, y] := by
    rw [Judging.scopeApps, Judging.inScope]
    rfl
  rw [Judging.defaultApp, hscope]
  by_cases h : x = y
  · subst h
    rw [if_pos rfl, Catalog.sortedSet, dedup_cons_of_mem mem_cons_self]
    rfl
  · have hlength : (Catalog.sortedSet [x, y]).length = 2 := by
      rw [Catalog.sortedSet, length_insertionSort, dedup_cons_of_notMem (by simpa using h)]
      rfl
    rw [if_neg h]
    obtain ⟨a, b, hs⟩ := length_eq_two.mp hlength
    rw [hs]

/-- What a run without inventories tells. -/
theorem tells_empty (hx : x ≠ "") (hy : y ≠ "") (s : Sight) : Tells f m x y Dict.empty s ↔
    match s.lead with
    | .app b => b = x ∨ b = y
    | .run host => x = y ∨ host = none ∨ host = some x ∨ host = some y := by
  have hnone : ∀ (b : String) (r : HostReading) (v : PlantedVuln),
      agreesBy ((site f m x y Dict.empty).inventories.get? b) r v = true := fun _ _ _ => rfl
  obtain ⟨lead, reading⟩ := s
  rw [Tells, Judging.sees, Judging.sees, defaultApp_site]
  dsimp only
  cases lead with
  | app b =>
    simp only [hnone, Bool.and_true, probe, hx, hy, decide_false, Bool.false_or]
    exact or_congr (decide_eq_true_iff.trans eq_comm) (decide_eq_true_iff.trans eq_comm)
  | run host =>
    dsimp only
    by_cases hxy : x = y
    · subst hxy
      rw [if_pos rfl, if_pos (show given (some x) = true from decide_eq_true hx)]
      exact iff_of_true (Or.inl rfl) (Or.inl rfl)
    · rw [if_neg hxy, if_neg (by decide), if_neg (by decide)]
      cases host with
      | none => exact iff_of_true (Or.inl rfl) (Or.inr (Or.inl rfl))
      | some h =>
        simp only [hnone, Bool.and_true, probe, hx, hy, hxy, decide_false, Bool.false_or, false_or, reduceCtorEq,
          Option.some.injEq]
        exact or_congr (decide_eq_true_iff.trans eq_comm) (decide_eq_true_iff.trans eq_comm)

/-- What a run on one app tells by its inventory. -/
theorem tells_one (hx : x ≠ "") {lead : Lead} (hlead : lead = .app x ∨ ∃ host, lead = .run host) (i : RouteInventory)
    (r : HostReading) :
    Tells f m x x (Dict.ofList [(x, i)]) { lead := lead, reading := r } ↔ agreesBy (some i) r (probe f x "1") = true := by
  have hinv : (site f m x x (Dict.ofList [(x, i)])).inventories.get? x = some i :=
    Dict.get?_ofList_of_mem (by simp) (mem_singleton_self _)
  have hsame : agreesBy (some i) r (probe f x "2") = agreesBy (some i) r (probe f x "1") := rfl
  rw [Tells, Judging.sees, Judging.sees, defaultApp_site, if_pos rfl]
  rcases hlead with rfl | ⟨host, rfl⟩
  · dsimp only
    rw [hinv, hsame]
    simp [probe]
  · dsimp only
    rw [if_pos (show given (some x) = true from decide_eq_true hx), if_pos (show given (some x) = true from decide_eq_true hx),
      Option.bind_some, hinv, hsame, or_self]

end Probe

/-! ## Two hosts -/

section TwoHosts

variable [Runtime] (f : Finding)

/-- The place of the finding on a host. -/
def rowOn (host status : String) : RouteEntry where
  app := ""
  path := f.path
  method := f.method.getD "GET"
  status := status
  host := some host

/-- The place is planted on one host, and safe on another. -/
def twoHosts (planted safe : String) : RouteInventory where
  app := ""
  routes := [rowOn f planted "planted", rowOn f safe "safe"]

variable {f} {planted safe p s : String} (hp : normalizeHost (some planted) = some p)
  (hs : normalizeHost (some safe) = some s)

include hp hs

theorem hosts_twoHosts : (twoHosts f planted safe).hosts = Catalog.sortedSet [p, s] := by
  have hgiven : ∀ host status, given (rowOn f host status).host = given (some host) := fun _ _ => rfl
  rw [RouteInventory.hosts, twoHosts, filterMap_cons_some (b := p), filterMap_cons_some (b := s),
    filterMap_nil]
  · rw [hgiven, if_pos (given_of_normalizeHost hs)]
    exact hs
  · rw [hgiven, if_pos (given_of_normalizeHost hp)]
    exact hp

theorem agreesBy_twoHosts (hne : p ≠ s) (r : HostReading) (app id : String) :
    agreesBy (some (twoHosts f planted safe)) r (probe f app id) = true ↔
      (twoHosts f planted safe).hosts.find? r.takes ≠ some s := by
  have hmem : ∀ h ∈ (twoHosts f planted safe).hosts, h = p ∨ h = s := by
    intro h hh
    rw [hosts_twoHosts hp hs, Catalog.mem_sortedSet] at hh
    simpa using hh
  have hsingle : (twoHosts f planted safe).singleHost = false := by
    rw [RouteInventory.singleHost, hosts_twoHosts hp hs, Catalog.sortedSet, length_insertionSort,
      dedup_cons_of_notMem (by simpa using hne)]
    rfl
  have hplanted : (twoHosts f planted safe).plantedHosts (probe f app id).entrypoint.method
      (probe f app id).entrypoint.path = [some p] := by
    have hself : routesEqual f.path f.path = true := routesEqual_of_segments rfl
    have hgiven : given (some planted) = true := given_of_normalizeHost hp
    rw [RouteInventory.plantedHosts]
    simp [twoHosts, rowOn, probe, hself, hgiven, hp]
  rw [agreesBy, hsingle]
  cases hfound : (twoHosts f planted safe).hosts.find? r.takes with
  | none => exact iff_of_true rfl (Option.some_ne_none s ∘ Eq.symm)
  | some h =>
    have hh := hmem h (mem_of_find?_eq_some hfound)
    have hgiven : given (some h) = true := by
      rcases hh with rfl | rfl
      · exact decide_eq_true (normalizeHost_ne_empty hp)
      · exact decide_eq_true (normalizeHost_ne_empty hs)
    rw [hgiven, Bool.not_false, Bool.true_and, if_pos rfl, hostAgrees, hplanted]
    rcases hh with rfl | rfl
    · simp [hne]
    · simp [Ne.symm hne]

/-- The one of the two hosts that is taken. -/
theorem find_twoHosts {r : HostReading} (htakes : r.takes s = true) (hnot : r.takes p = false) :
    (twoHosts f planted safe).hosts.find? r.takes = some s := by
  have hmem : s ∈ (twoHosts f planted safe).hosts := by
    rw [hosts_twoHosts hp hs, Catalog.mem_sortedSet]
    simp
  cases hfound : (twoHosts f planted safe).hosts.find? r.takes with
  | none => exact absurd htakes (List.find?_eq_none.mp hfound s hmem)
  | some h =>
    have hh := mem_of_find?_eq_some hfound
    rw [hosts_twoHosts hp hs, Catalog.mem_sortedSet] at hh
    have htaken := List.find?_some hfound
    rcases mem_cons.mp hh with rfl | hh
    · rw [hnot] at htaken
      cases htaken
    · rw [mem_singleton.mp hh]

end TwoHosts

section Apart

variable [UrlRuntime] {f : Finding}

/-- The safe host of an inventory is found for the one reading, and not for the other. -/
def Apart (f : Finding) (r r' : HostReading) : Prop :=
  ∃ planted safe p s, normalizeHost (some planted) = some p ∧ normalizeHost (some safe) = some s ∧ p ≠ s ∧
    (twoHosts f planted safe).hosts.find? r.takes ≠ some s ∧ (twoHosts f planted safe).hosts.find? r'.takes = some s

/-- Hosts of one letter. -/
theorem normalizeHost_letter {c : Char} (h : c = 'a' ∨ c = 'b' ∨ c = 'c') :
    normalizeHost (some (String.ofList [c])) = some (String.ofList [c]) ∧ classify (String.ofList [c]) = .name (String.ofList [c]) := by
  have hletter : ∀ e ∈ ['a', 'b', 'c'], normalizeHost (some (String.ofList [e])) = textOrNone (reading [e]) ∧
      reading [e] = [e].rdropWhile (· == '.') ∧ classify (String.ofList [e]) = .name (String.ofList [e]) ∧
      [e].rdropWhile (· == '.') = [e] := by
    simp only [forall_mem_cons, not_mem_nil, false_implies, implies_true, and_true]
    refine ⟨⟨normalizeHost_ascii ?_, ?_, by decide, rfl⟩, ⟨normalizeHost_ascii ?_, ?_, by decide, rfl⟩,
      normalizeHost_ascii ?_, ?_, by decide, rfl⟩
    all_goals first
      | exact forall_mem_singleton.mpr (by decide)
      | exact reading_plain (by decide) (not_hasPort_of_notMem (by decide))
  obtain ⟨hnormal, hreading, hclass, hdrop⟩ := hletter c (by simpa using h)
  rw [hnormal, hreading, hdrop]
  exact ⟨rfl, hclass⟩

/-- Two hosts that are not taken for a host of its own. -/
theorem exists_letters (host : String) : ∃ c d : Char, (c = 'a' ∨ c = 'b' ∨ c = 'c') ∧ (d = 'a' ∨ d = 'b' ∨ d = 'c') ∧
    Catalog.sortedSet [String.ofList [d], String.ofList [c]] = [String.ofList [c], String.ofList [d]] ∧
    (classify host).takes (String.ofList [c]) = false ∧ (classify host).takes (String.ofList [d]) = false := by
  have hnot : ∀ e : Char, (e = 'a' ∨ e = 'b' ∨ e = 'c') → classify host ≠ .name (String.ofList [e]) →
      (classify host).takes (String.ofList [e]) = false := by
    intro e he hne
    rw [Bool.eq_false_iff]
    intro htakes
    obtain ⟨hnormal, hclass⟩ := normalizeHost_letter he
    exact hne ((takes_classify.mp htakes _ hnormal).symm.trans hclass)
  by_cases ha : classify host = .name (String.ofList ['a'])
  · refine ⟨'b', 'c', by simp, by simp, by decide, hnot 'b' (by simp) ?_, hnot 'c' (by simp) ?_⟩
    · rw [ha]
      decide
    · rw [ha]
      decide
  · by_cases hb : classify host = .name (String.ofList ['b'])
    · refine ⟨'a', 'c', by simp, by simp, by decide, hnot 'a' (by simp) ha, hnot 'c' (by simp) ?_⟩
      rw [hb]
      decide
    · exact ⟨'a', 'b', by simp, by simp, by decide, hnot 'a' (by simp) ha, hnot 'b' (by simp) hb⟩

theorem find_nothing (hosts : List String) : hosts.find? HostReading.nothing.takes = none :=
  List.find?_eq_none.mpr fun _ _ => Bool.false_ne_true

theorem takes_self {host value : String} (h : normalizeHost (some value) = some host) :
    (classify host).takes value = true :=
  takes_classify.mpr fun _ hd => Option.some.inj (h.symm.trans hd) ▸ rfl

theorem takes_other {host host' value : String} (h : normalizeHost (some value) = some host)
    (hne : classify host' ≠ classify host) : (classify host').takes value = false :=
  Bool.eq_false_iff.mpr fun htakes => hne (takes_classify.mp htakes _ h).symm

omit [UrlRuntime] in
theorem letters_ne {c d : Char} (h : Catalog.sortedSet [String.ofList [d], String.ofList [c]] =
    [String.ofList [c], String.ofList [d]]) : String.ofList [d] ≠ String.ofList [c] := by
  intro heq
  have hnodup : (Catalog.sortedSet [String.ofList [d], String.ofList [c]]).Nodup :=
    (perm_insertionSort _ _).nodup_iff.mpr (nodup_dedup _)
  rw [h, heq] at hnodup
  simp at hnodup

/-- Readings of two authorities that differ are told apart by the hosts of an inventory. -/
theorem apart_of_ne {a a' : String} (h : readHost a ≠ readHost a') :
    Apart f (readHost a) (readHost a') ∨ Apart f (readHost a') (readHost a) := by
  have hnothing : ∀ b, readHost b ≠ .nothing → Apart f .nothing (readHost b) := by
    intro b hb
    rcases readHost_cases b with hread | hread | ⟨host, value, declared, hread, hhost, hvalue⟩
    · exact absurd hread hb
    · obtain ⟨c, d, hc, hd, hsorted, -, -⟩ := exists_letters ""
      refine ⟨_, _, _, _, (normalizeHost_letter hd).1, (normalizeHost_letter hc).1, letters_ne hsorted, ?_, ?_⟩
      · rw [find_nothing]
        exact Option.some_ne_none _ ∘ Eq.symm
      · rw [hread, hosts_twoHosts (normalizeHost_letter hd).1 (normalizeHost_letter hc).1, hsorted]
        rfl
    · obtain ⟨c, -, hc, -, -, hnot, -⟩ := exists_letters host
      refine ⟨_, declared, _, value, (normalizeHost_letter hc).1, hvalue, ?_, ?_, ?_⟩
      · rintro rfl
        rw [takes_self hhost] at hnot
        cases hnot
      · rw [find_nothing]
        exact Option.some_ne_none _ ∘ Eq.symm
      · rw [hread]
        exact find_twoHosts (normalizeHost_letter hc).1 hvalue (takes_self hhost) hnot
  have hany : ∀ b host, readHost b = classify host → Apart f (readHost b) .anyHost := by
    intro b host hread
    obtain ⟨c, d, hc, hd, hsorted, hnotc, hnotd⟩ := exists_letters host
    refine ⟨_, _, _, _, (normalizeHost_letter hd).1, (normalizeHost_letter hc).1, letters_ne hsorted, ?_, ?_⟩
    · rw [hread]
      intro hfound
      have htaken := List.find?_some hfound
      rw [hnotc] at htaken
      cases htaken
    · rw [hosts_twoHosts (normalizeHost_letter hd).1 (normalizeHost_letter hc).1, hsorted]
      rfl
  by_cases hr : readHost a = .nothing
  · rw [hr]
    exact Or.inl (hnothing a' fun hr' => h (hr.trans hr'.symm))
  by_cases hr' : readHost a' = .nothing
  · rw [hr']
    exact Or.inr (hnothing a hr)
  rcases (readHost_cases a).resolve_left hr with hread | ⟨host, value, declared, hread, hhost, hvalue⟩
  · rcases (readHost_cases a').resolve_left hr' with hread' | ⟨host', _, _, hread', -, -⟩
    · exact absurd (hread.trans hread'.symm) h
    · rw [hread]
      exact Or.inr (hany a' host' hread')
  · rcases (readHost_cases a').resolve_left hr' with hread' | ⟨host', value', declared', hread', hhost', hvalue'⟩
    · rw [hread']
      exact Or.inl (hany a host hread)
    · have hne : classify host ≠ classify host' := fun heq => h (hread.trans (heq.trans hread'.symm))
      refine Or.inl ⟨declared, declared', value, value', hvalue, hvalue', ?_, ?_, ?_⟩
      · rintro rfl
        obtain rfl := Option.some.inj (hhost.symm.trans hhost')
        exact hne rfl
      · rw [hread]
        intro hfound
        have htaken := List.find?_some hfound
        rw [takes_other hhost' hne] at htaken
        cases htaken
      · rw [hread']
        exact find_twoHosts hvalue hvalue' (takes_self hhost') (takes_other hhost (Ne.symm hne))

end Apart

/-! ## Verdicts that are kept -/

section Tells

variable {f f' : Finding} {m : Dict String String} {a a' : String}

/-- No catalog, inventory or other finding shows how the host is spelled. -/
def VerdictKept [Runtime] (m : Dict String String) (f f' : Finding) : Prop :=
  ∀ ctx : Judging, ctx.appMap = m → ∀ before after : List Finding,
    (ctx.classify (before ++ f' :: after)).rows.map Row.verdict =
      (ctx.classify (before ++ f :: after)).rows.map Row.verdict

theorem exists_app (used : Finset String) : ∃ app, app ≠ "" ∧ app ∉ used := by
  obtain ⟨app, h⟩ := Infinite.exists_notMem_finset (insert "" used)
  rw [Finset.mem_insert, not_or] at h
  exact ⟨app, h⟩

/-- Kept verdicts tell the same of both findings, in every catalog of two flaws. -/
theorem tells_of_kept [Runtime] (h : VerdictKept m f f') (hrest : { f with url := f'.url } = f') (hpath : f'.path = f.path)
    (hroute : routeSegments f.path ≠ [UNMATCHED]) (ha : f.authority = some a) (ha' : f'.authority = some a')
    (x y : String) (inventories : Dict String RouteInventory) :
    Tells f m x y inventories (sightOf m f a) ↔ Tells f m x y inventories (sightOf m f' a') := by
  have hone : ∀ g : Finding,
      ((site f m x y inventories).classify [g]).rows.map Row.verdict = [judged (site f m x y inventories) g] := by
    intro g
    rw [rows_classify, rowsFrom, rowsFrom, map_singleton, verdict_rowAfter]
    cases (site f m x y inventories).claim g <;> simp
  have hkept := h (site f m x y inventories) rfl [] []
  rw [nil_append, nil_append, hone, hone] at hkept
  have heq := (List.cons.inj hkept).1
  rw [← judged_site rfl rfl hroute ha, ← judged_site hrest hpath hroute ha', heq]

/-- A finding is led to an app, or it is on a local host without one, or it is left to the run. -/
theorem sightOf_cases [Runtime] (m : Dict String String) (f : Finding) (a : String) :
    (∃ app, app ≠ "" ∧ sightOf m f a = ⟨.app app, readHost a⟩) ∨ sightOf m f a = ⟨.run none, .nothing⟩ ∨
      ∃ host, host ≠ some "" ∧ sightOf m f a = ⟨.run host, readHost a⟩ := by
  rw [sightOf]
  by_cases happ : given f.app = true
  · rw [if_pos happ]
    cases hf : f.app with
    | none =>
      rw [hf] at happ
      cases happ
    | some app =>
      rw [hf] at happ
      exact Or.inl ⟨app, of_decide_eq_true happ, rfl⟩
  · rw [if_neg happ]
    cases mappedTo m a with
    | some app =>
      dsimp only
      by_cases hempty : app = ""
      · rw [if_pos hempty]
        exact Or.inr (Or.inl rfl)
      · rw [if_neg hempty]
        exact Or.inl ⟨app, hempty, rfl⟩
    | none =>
      refine Or.inr (Or.inr ⟨_, ?_, rfl⟩)
      split_ifs with hlocal
      · exact (Option.some_ne_none "").symm
      · exact fun h => hlocal (Or.inr (Or.inr (Option.some.inj h)))

/-- A lead names what it leads to. -/
theorem lead_named [Runtime] (m : Dict String String) (f : Finding) (a : String) :
    (∀ b, (sightOf m f a).lead = .app b → b ≠ "") ∧ ∀ host, (sightOf m f a).lead = .run (some host) → host ≠ "" := by
  rcases sightOf_cases m f a with ⟨app, happ, h⟩ | h | ⟨host, hhost, h⟩
  · rw [h]
    exact ⟨fun b hb => Lead.app.inj hb ▸ happ, fun _ hh => (nomatch hh)⟩
  · rw [h]
    exact ⟨fun _ hb => (nomatch hb), fun _ hh => (nomatch hh)⟩
  · rw [h]
    exact ⟨fun _ hb => (nomatch hb), fun t ht hempty => hhost (by rw [Lead.run.inj ht, hempty])⟩

/-- Two leads that every catalog of two flaws follows alike are one. -/
theorem lead_eq [Runtime] {s s' : Sight} (hs : (∀ b, s.lead = .app b → b ≠ "") ∧ ∀ host, s.lead = .run (some host) → host ≠ "")
    (h : ∀ x y, x ≠ "" → y ≠ "" → (Tells f m x y Dict.empty s ↔ Tells f m x y Dict.empty s')) : s.lead = s'.lead := by
  have hrun : ∀ {t t' : Sight} {b host}, t.lead = .app b → t'.lead = .run host →
      (∀ x y, x ≠ "" → y ≠ "" → (Tells f m x y Dict.empty t' → Tells f m x y Dict.empty t)) → False := by
    intro t t' b host ht ht' himp
    -- a run on one app of another name takes what is not mapped for its own
    obtain ⟨d, hd, hdb⟩ := exists_app {b}
    rw [Finset.mem_singleton] at hdb
    have htells := himp d d hd hd
    rw [tells_empty hd hd, tells_empty hd hd, ht, ht'] at htells
    rcases htells (Or.inl rfl) with h | h
    · exact hdb h.symm
    · exact hdb h.symm
  have hnone : ∀ {t t' : Sight} {host : String}, t.lead = .run (some host) → t'.lead = .run none →
      (∀ x y, x ≠ "" → y ≠ "" → (Tells f m x y Dict.empty t' → Tells f m x y Dict.empty t)) → False := by
    intro t t' host ht ht' himp
    obtain ⟨x, hx, hxh⟩ := exists_app {host}
    obtain ⟨y, hy, hyh⟩ := exists_app {host, x}
    simp only [Finset.mem_insert, Finset.mem_singleton, not_or] at hxh hyh
    have htells := himp x y hx hy
    rw [tells_empty hx hy, tells_empty hx hy, ht, ht'] at htells
    rcases htells (Or.inr (Or.inl rfl)) with h | h | h | h
    · exact hyh.2 h.symm
    · cases h
    · exact hxh (Option.some.inj h).symm
    · exact hyh.1 (Option.some.inj h).symm
  cases hlead : s.lead with
  | app b =>
    cases hlead' : s'.lead with
    | app b' =>
      have hb := hs.1 b hlead
      have htells := (h b b hb hb).mp
      rw [tells_empty hb hb, tells_empty hb hb, hlead, hlead'] at htells
      rcases htells (Or.inl rfl) with h | h
      · rw [h]
      · rw [h]
    | run host => exact (hrun hlead hlead' fun x y hx hy => (h x y hx hy).mpr).elim
  | run host =>
    cases hlead' : s'.lead with
    | app b => exact (hrun hlead' hlead fun x y hx hy => (h x y hx hy).mp).elim
    | run host' =>
      cases host with
      | none => cases host' with
        | none => rfl
        | some t => exact (hnone hlead' hlead fun x y hx hy => (h x y hx hy).mp).elim
      | some t => cases host' with
        | none => exact (hnone hlead hlead' fun x y hx hy => (h x y hx hy).mpr).elim
        | some t' =>
          have ht := hs.2 t hlead
          obtain ⟨y, hy, hyt⟩ := exists_app {t, t'}
          simp only [Finset.mem_insert, Finset.mem_singleton, not_or] at hyt
          have htells := (h t y ht hy).mp
          rw [tells_empty ht hy, tells_empty ht hy, hlead, hlead'] at htells
          rcases htells (Or.inr (Or.inr (Or.inl rfl))) with h | h | h | h
          · exact absurd h.symm hyt.1
          · cases h
          · rw [h]
          · exact absurd (Option.some.inj h).symm hyt.2

theorem readHost_empty [Runtime] : readHost "" = .nothing := by
  rw [readHost, normalizeHost_of_not_given (show given (some "") = false from rfl), normalizeHost_of_not_given rfl]

theorem reading_of_sight [Runtime] (m : Dict String String) (f : Finding) (a : String) :
    ∃ b, (sightOf m f a).reading = readHost b := by
  rcases sightOf_cases m f a with ⟨_, -, h⟩ | h | ⟨_, -, h⟩
  · exact ⟨a, by rw [h]⟩
  · exact ⟨"", by rw [h, readHost_empty]⟩
  · exact ⟨a, by rw [h]⟩

/-- Two readings on which every inventory of a run on one app agrees are one. -/
theorem reading_eq [UrlRuntime] {s s' : Sight} {b b' : String} (hb : s.reading = readHost b) (hb' : s'.reading = readHost b')
    (hlead : s.lead = s'.lead) (hnamed : ∀ x, s.lead = .app x → x ≠ "")
    (h : ∀ x inv, Tells f m x x inv s ↔ Tells f m x x inv s') : s.reading = s'.reading := by
  obtain ⟨x, hx, hleads⟩ : ∃ x, x ≠ "" ∧ (s.lead = .app x ∨ ∃ host, s.lead = .run host) := by
    cases hs : s.lead with
    | app x => exact ⟨x, hnamed x hs, Or.inl rfl⟩
    | run host => exact ⟨"app", by decide, Or.inr ⟨host, rfl⟩⟩
  have hagree : ∀ i, agreesBy (some i) s.reading (probe f x "1") = true ↔
      agreesBy (some i) s'.reading (probe f x "1") = true := by
    intro i
    rw [← @tells_one _ f m x hx s.lead hleads, ← @tells_one _ f m x hx s'.lead (hlead ▸ hleads)]
    exact h x _
  have hapart : ∀ r r', Apart f r r' → ¬ ∀ i, agreesBy (some i) r (probe f x "1") = true ↔
      agreesBy (some i) r' (probe f x "1") = true := by
    rintro r r' ⟨planted, safe, p, t, hp, ht, hne, hnot, hfound⟩ hall
    have hsame := hall (twoHosts f planted safe)
    rw [agreesBy_twoHosts hp ht hne, agreesBy_twoHosts hp ht hne] at hsame
    exact hsame.mp hnot hfound
  by_contra hne
  rw [hb, hb'] at hne hagree
  rcases @apart_of_ne _ f _ _ hne with h | h
  · exact hapart _ _ h hagree
  · exact hapart _ _ h fun i => (hagree i).symm

end Tells

/-- The spelling of a finding's host shows in no verdict just if the finding is on no known route, or both spellings are
seen alike. -/
theorem host_spelling_iff [UrlRuntime] (m : Dict String String) {f f' : Finding} {a a' w : String}
    (h : Respelled f f' a a' w) :
    VerdictKept m f f' ↔
      routeSegments f.path = [UNMATCHED] ∨ sightOf m f (a ++ w) = sightOf m f' (a' ++ w) := by
  constructor
  · intro hkept
    by_cases hroute : routeSegments f.path = [UNMATCHED]
    · exact Or.inl hroute
    · have htells := tells_of_kept hkept h.rest h.path hroute h.authority h.authority'
      have hlead := lead_eq (lead_named m f _) fun x y _ _ => htells x y Dict.empty
      obtain ⟨b, hb⟩ := reading_of_sight m f (a ++ w)
      obtain ⟨b', hb'⟩ := reading_of_sight m f' (a' ++ w)
      have hreading := reading_eq hb hb' hlead (lead_named m f _).1 fun x inv => htells x x inv
      refine Or.inr ?_
      cases hs : sightOf m f (a ++ w)
      cases hs' : sightOf m f' (a' ++ w)
      rw [hs, hs'] at hlead hreading
      rw [Sight.mk.injEq]
      exact ⟨hlead, hreading⟩
  · rintro hsame ctx hctx before after
    refine verdicts_congr h.rest ?_ before after
    rcases hsame with hroute | hsame
    · have hnone : ∀ g : Finding, g.path = f.path → ctx.inScope.filter (ctx.located g) = [] := by
        refine fun g hg => filter_eq_nil_iff.mpr fun v _ => ?_
        rw [Judging.located, hg]
        simp [routeMatchesPath, hroute]
      rw [Judging.best, Judging.best, hnone f' h.path, hnone f rfl]
      rfl
    · exact best_congr h.rest h.path hctx h.authority h.authority' hsame

/-- Where the URL has a path, two spellings on which the app map is at one are seen alike. -/
theorem sightOf_spelled [HostRuntime] {m : Dict String String} {f f' : Finding} {a a' app : String} (h : Spelled a a')
    (happ : f'.app = f.app) (hmapped : mappedTo m a = some app) (hmapped' : mappedTo m a' = some app) :
    sightOf m f a = sightOf m f' a' := by
  have hread : readHost a = readHost a' := by rw [readHost, readHost, normalizeHost_spelled h]
  rw [sightOf, sightOf, happ, hmapped, hmapped', hread]

/-! ## The shop on its port, and in capitals -/

/-- A runtime for URLs in ASCII. -/
@[reducible] def HostRuntime.ascii : HostRuntime where
  toUrlRuntime := UrlRuntime.ascii
  lower_append s t h := by
    have hsame : t.map Char.toLower = t := by
      refine (map_congr_left fun c hc => ?_).trans (map_id t)
      rcases h c hc with rfl | rfl | hd
      · rfl
      · rfl
      · simpa [lowered] using @lowered_digits [c] (by simpa using hd)
    show (mapChars Char.toLower (s ++ String.ofList t)).toList = (mapChars Char.toLower s).toList ++ t
    rw [mapChars, mapChars, String.toList_append, String.toList_ofList, String.toList_ofList, String.toList_ofList,
      map_append, hsame]

/-- The run record knows the shop by its service name. -/
def shopMap : Dict String String := Dict.ofList [("shop", "shopfront")]

def searchAt (url : String) : Finding :=
  { tool := some "zap", url := url, method := some "GET", param := some "q", cwe := [79] }

/-- The port is looked past. -/
theorem host_spelling_port :
    let _ := HostRuntime.ascii
    VerdictKept shopMap (searchAt "http://shop/search") (searchAt "http://shop:80/search") := by
  intro _
  have hname : PlainName "shop" := ⟨by decide, by decide, by decide⟩
  have hspelled : Spelled "shop" "shop:80" := @Spelled.port _ _ ['8', '0'] hname ⟨by decide, rfl⟩
  have hpath : (searchAt "http://shop:80/search").path = (searchAt "http://shop/search").path := by decide +kernel
  have h : Respelled (searchAt "http://shop/search") (searchAt "http://shop:80/search") "shop" "shop:80" "" :=
    ⟨rfl, by decide, by decide, hpath, hspelled, Or.inl rfl⟩
  refine (host_spelling_iff shopMap h).mpr (Or.inr ?_)
  rw [String.append_empty, String.append_empty]
  exact @sightOf_spelled _ _ _ _ _ _ "shopfront" hspelled rfl (by decide) (by decide)

/-- In capitals the host is not found, and the detection counts against the tool. -/
theorem host_spelling_capitals :
    let _ := HostRuntime.ascii
    let other : PlantedVuln :=
      { id := "IDOR-1", app := "admin", entrypoint := { method := "GET", path := "/users" }
        oracle := { kind := "signal" }, cwe := [639] }
    let search : PlantedVuln :=
      { id := "XSS-1", app := "shopfront", entrypoint := { method := "GET", path := "/search", param := some "q" }
        oracle := { kind := "signal" }, cwe := [79] }
    let ctx : Judging :=
      { catalog := { vulns := [search, other], ids_nodup := by decide }, appMap := shopMap }
    Spelled "shop" "SHOP" ∧
      (ctx.classify [searchAt "http://shop/search"]).rows.map Row.verdict = [.truePositive] ∧
      (ctx.classify [searchAt "http://SHOP/search"]).rows.map Row.verdict = [.falsePositive] := by
  intro _ other search ctx
  exact ⟨.letters (by decide) (by decide) rfl, by decide +kernel, by decide +kernel⟩

end PtaasBench.Benchctl
