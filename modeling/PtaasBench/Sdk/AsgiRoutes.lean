import PtaasBench.Py.Dict

/-!
# PtaasBench.Sdk.AsgiRoutes — the route of a request (`asgi.py`)

The agent names the route of a request by going through the tables of the framework itself: `resolveRoute`, over
whatever shows `matches`, `path_format` and `routes`.  `dispatch` is what Starlette does with the same tables.
-/

namespace PtaasBench.Sdk.Asgi

open Py List

abbrev Template := List Char

/-- `Match`: `NONE`, `PARTIAL` and `FULL`. -/
inductive Match where
  | none
  | partly
  | full
deriving DecidableEq

/-- The keys of a request scope; its path parameters are a dictionary of their own. -/
structure Scope (ν : Type*) where
  pathParams : Option (Dict String ν)
  others : Dict String ν

/-- `{**d, **e}` -/
def merged {ν : Type*} (d e : Dict String ν) : Dict String ν := e.items.foldl (fun d p => d.set p.1 p.2) d

/-- `{**scope, **child}` -/
def Scope.update {ν : Type*} (scope child : Scope ν) : Scope ν :=
  ⟨child.pathParams.or scope.pathParams, merged scope.others child.others⟩

/-! ## The agent -/

/-- What the agent sees of a route: what `matches` returns, if it does not raise, and the attributes `path_format`
and `routes`, an empty list when there is none. -/
inductive Entry (ν : Type*) where
  | mk (matched : Scope ν → Option (Match × Scope ν)) (pathFormat : Option Template) (routes : List (Entry ν))

/-- A template and its path parameters. -/
structure Found (ν : Type*) where
  template : Template
  params : Dict String ν

def mountSuffix : Template := "/{path}".toList

/-- The prefix of a mount, without the catch-all of its path. -/
def mountPrefix (pathFormat : Option Template) : Template :=
  let format := pathFormat.getD []
  if mountSuffix.isSuffixOf format then format.take (format.length - mountSuffix.length) else format

variable {ν : Type*}

/-- `resolve_route`; `fallback` is the first route that matched the path but not the method. -/
def resolveRoute : List (Entry ν) → Scope ν → Option (Found ν) → Option (Found ν)
  | [], _, fallback => fallback
  | ⟨matched, pathFormat, routes⟩ :: rest, scope, fallback =>
    match matched scope with
    | none => resolveRoute rest scope fallback
    | some (.none, _) => resolveRoute rest scope fallback
    | some (rank, child) =>
      let params := child.pathParams.getD Dict.empty
      if routes.isEmpty then
        match pathFormat with
        | none => resolveRoute rest scope fallback
        | some format =>
          if rank = .full then some ⟨format, params⟩
          else resolveRoute rest scope (fallback.or (some ⟨format, params⟩))
      else
        match resolveRoute routes (scope.update child) none with
        | some found => some ⟨mountPrefix pathFormat ++ found.template, (merged params found.params).pop "path"⟩
        | none => resolveRoute rest scope fallback
termination_by routes => sizeOf routes
decreasing_by all_goals (simp only [List.cons.sizeOf_spec, Entry.mk.sizeOf_spec]; omega)

/-! ## The framework -/

/-- A route, a mounted application that has no routes, or a mounted router.  A mount matches fully or not at all. -/
inductive Node (ν : Type*) where
  | route (matched : Scope ν → Option (Match × Scope ν)) (pathFormat : Template)
  | app (matched : Scope ν → Option (Option (Scope ν))) (path : Template)
  | mount (matched : Scope ν → Option (Option (Scope ν))) (path : Template) (routes : List (Node ν))

/-- The template a request is served under, if any; `raises` when a `matches` does. -/
inductive Outcome where
  | serves (template : Template)
  | notFound
  | raises
deriving DecidableEq

def Outcome.under (path : Template) : Outcome → Outcome
  | serves template => serves (path ++ template)
  | notFound => notFound
  | raises => raises

/-- `Router.app`; `fallback` is the first route with a partial match. -/
def dispatch : List (Node ν) → Scope ν → Option Template → Outcome
  | [], _, fallback => fallback.elim .notFound .serves
  | .route matched pathFormat :: rest, scope, fallback =>
    match matched scope with
    | none => .raises
    | some (.none, _) => dispatch rest scope fallback
    | some (.partly, _) => dispatch rest scope (fallback.or (some pathFormat))
    | some (.full, _) => .serves pathFormat
  | .app matched path :: rest, scope, fallback =>
    match matched scope with
    | none => .raises
    | some none => dispatch rest scope fallback
    | some (some _) => .serves (path ++ mountSuffix)
  | .mount matched path routes :: rest, scope, fallback =>
    match matched scope with
    | none => .raises
    | some none => dispatch rest scope fallback
    | some (some child) => (dispatch routes (scope.update child) none).under path
termination_by nodes => sizeOf nodes
decreasing_by all_goals (simp only [List.cons.sizeOf_spec, Node.mount.sizeOf_spec]; omega)

/-- What `matches` of a mount returns. -/
def mountMatch (scope : Scope ν) : Option (Scope ν) → Match × Scope ν
  | none => (.none, scope)
  | some child => (.full, child)

mutual

/-- What the agent sees of a route of the framework. -/
def Node.seen : Node ν → Entry ν
  | .route matched pathFormat => ⟨matched, some pathFormat, []⟩
  | .app matched path => ⟨fun scope => (matched scope).map (mountMatch scope), some (path ++ mountSuffix), []⟩
  | .mount matched path routes =>
    ⟨fun scope => (matched scope).map (mountMatch scope), some (path ++ mountSuffix), seenAll routes⟩

def seenAll : List (Node ν) → List (Entry ν)
  | [] => []
  | node :: rest => node.seen :: seenAll rest

end

/-- The agent names what the framework serves, and nothing when that finds nothing. -/
def Mirrored (nodes : List (Node ν)) (scope : Scope ν) : Prop :=
  match dispatch nodes scope none with
  | .serves template => (resolveRoute (seenAll nodes) scope none).map Found.template = some template
  | .notFound => resolveRoute (seenAll nodes) scope none = none
  | .raises => True

/-- Something in the tree matches on its own: a route, a mounted application or a mount of a router without routes,
in a table that is reached through mounts that match. -/
inductive Matching : List (Node ν) → Scope ν → Prop where
  | route {nodes : List (Node ν)} {scope : Scope ν} {matched pathFormat rank child}
      (here : .route matched pathFormat ∈ nodes) (found : matched scope = some (rank, child)) (matching : rank ≠ .none) :
      Matching nodes scope
  | app {nodes : List (Node ν)} {scope : Scope ν} {matched path child} (here : .app matched path ∈ nodes)
      (found : matched scope = some (some child)) : Matching nodes scope
  | bare {nodes : List (Node ν)} {scope : Scope ν} {matched path child} (here : .mount matched path [] ∈ nodes)
      (found : matched scope = some (some child)) : Matching nodes scope
  | mount {nodes : List (Node ν)} {scope : Scope ν} {matched path routes child}
      (here : .mount matched path routes ∈ nodes) (found : matched scope = some (some child))
      (inside : Matching routes (scope.update child)) : Matching nodes scope

/-! ## One table after another -/

theorem matching_cons {node : Node ν} {rest : List (Node ν)} {scope : Scope ν} :
    Matching (node :: rest) scope ↔ Matching [node] scope ∨ Matching rest scope := by
  refine ⟨fun h => ?_, fun h => ?_⟩
  · cases h with
    | route here found matching =>
      rcases mem_cons.mp here with rfl | here
      · exact Or.inl (.route (mem_singleton_self _) found matching)
      · exact Or.inr (.route here found matching)
    | app here found =>
      rcases mem_cons.mp here with rfl | here
      · exact Or.inl (.app (mem_singleton_self _) found)
      · exact Or.inr (.app here found)
    | bare here found =>
      rcases mem_cons.mp here with rfl | here
      · exact Or.inl (.bare (mem_singleton_self _) found)
      · exact Or.inr (.bare here found)
    | mount here found inside =>
      rcases mem_cons.mp here with rfl | here
      · exact Or.inl (.mount (mem_singleton_self _) found inside)
      · exact Or.inr (.mount here found inside)
  · have hwider {nodes : List (Node ν)} (hsub : nodes ⊆ node :: rest) (h : Matching nodes scope) :
        Matching (node :: rest) scope := by
      cases h with
      | route here found matching => exact .route (hsub here) found matching
      | app here found => exact .app (hsub here) found
      | bare here found => exact .bare (hsub here) found
      | mount here found inside => exact .mount (hsub here) found inside
    rcases h with h | h
    · exact hwider (fun _ hmem => mem_singleton.mp hmem ▸ mem_cons_self) h
    · exact hwider (subset_cons_self node rest) h

theorem not_matching_nil (scope : Scope ν) : ¬Matching ([] : List (Node ν)) scope := by
  rintro (⟨here, -, -⟩ | ⟨here, -⟩ | ⟨here, -⟩ | ⟨here, -, -⟩)
  all_goals exact absurd here not_mem_nil

theorem matching_route {matched : Scope ν → Option (Match × Scope ν)} {pathFormat : Template} {scope : Scope ν} :
    Matching [.route matched pathFormat] scope ↔ ∃ rank child, matched scope = some (rank, child) ∧ rank ≠ .none := by
  refine ⟨fun h => ?_, fun ⟨_, _, found, matching⟩ => .route (mem_singleton_self _) found matching⟩
  cases h with
  | route here found matching =>
    obtain ⟨rfl, rfl⟩ := Node.route.inj (mem_singleton.mp here)
    exact ⟨_, _, found, matching⟩
  | app here found => exact absurd (mem_singleton.mp here) nofun
  | bare here found => exact absurd (mem_singleton.mp here) nofun
  | mount here found inside => exact absurd (mem_singleton.mp here) nofun

theorem matching_app {matched : Scope ν → Option (Option (Scope ν))} {path : Template} {scope : Scope ν} :
    Matching [.app matched path] scope ↔ ∃ child, matched scope = some (some child) := by
  refine ⟨fun h => ?_, fun ⟨_, found⟩ => .app (mem_singleton_self _) found⟩
  cases h with
  | route here found matching => exact absurd (mem_singleton.mp here) nofun
  | app here found =>
    obtain ⟨rfl, rfl⟩ := Node.app.inj (mem_singleton.mp here)
    exact ⟨_, found⟩
  | bare here found => exact absurd (mem_singleton.mp here) nofun
  | mount here found inside => exact absurd (mem_singleton.mp here) nofun

theorem matching_mount {matched : Scope ν → Option (Option (Scope ν))} {path : Template} {routes : List (Node ν)}
    {scope : Scope ν} : Matching [.mount matched path routes] scope ↔
      ∃ child, matched scope = some (some child) ∧ (routes = [] ∨ Matching routes (scope.update child)) := by
  refine ⟨fun h => ?_, fun ⟨_, found, h⟩ => ?_⟩
  · cases h with
    | route here found matching => exact absurd (mem_singleton.mp here) nofun
    | app here found => exact absurd (mem_singleton.mp here) nofun
    | bare here found =>
      obtain ⟨rfl, rfl, rfl⟩ := Node.mount.inj (mem_singleton.mp here)
      exact ⟨_, found, Or.inl rfl⟩
    | mount here found inside =>
      obtain ⟨rfl, rfl, rfl⟩ := Node.mount.inj (mem_singleton.mp here)
      exact ⟨_, found, Or.inr inside⟩
  · rcases h with rfl | inside
    · exact .bare (mem_singleton_self _) found
    · exact .mount (mem_singleton_self _) found inside

theorem mountPrefix_append (path : Template) : mountPrefix (some (path ++ mountSuffix)) = path := by
  have hends : mountSuffix.isSuffixOf (path ++ mountSuffix) = true :=
    isSuffixOf_iff_suffix.mpr (suffix_append path mountSuffix)
  rw [mountPrefix, Option.getD_some, if_pos hends, length_append, Nat.add_sub_cancel, take_left]

theorem isEmpty_seenAll (nodes : List (Node ν)) : (seenAll nodes).isEmpty = true ↔ nodes = [] := by
  cases nodes with
  | nil => exact ⟨fun _ => rfl, fun _ => rfl⟩
  | cons node rest => exact ⟨fun h => absurd h Bool.false_ne_true, fun h => absurd h (cons_ne_nil _ _)⟩

/-! ## What the agent names -/

/-- The agent names nothing exactly when nothing in the tree matches on its own. -/
theorem resolve_eq_none_iff : ∀ (nodes : List (Node ν)) (scope : Scope ν) (fallback : Option (Found ν)),
    resolveRoute (seenAll nodes) scope fallback = none ↔ fallback = none ∧ ¬Matching nodes scope
  | [], scope, fallback => by rw [seenAll, resolveRoute, and_iff_left (not_matching_nil scope)]
  | .route matched pathFormat :: rest, scope, fallback => by
    have ih := resolve_eq_none_iff rest scope
    rw [matching_cons, matching_route]
    cases hm : matched scope with
    | none => simp [seenAll, Node.seen, resolveRoute, hm, ih]
    | some found =>
      obtain ⟨rank, child⟩ := found
      cases rank <;> simp [seenAll, Node.seen, resolveRoute, hm, ih]
  | .app matched path :: rest, scope, fallback => by
    have ih := resolve_eq_none_iff rest scope
    rw [matching_cons, matching_app]
    cases hm : matched scope with
    | none => simp [seenAll, Node.seen, resolveRoute, hm, ih]
    | some found => cases found <;> simp [seenAll, Node.seen, resolveRoute, hm, ih, mountMatch]
  | .mount matched path [] :: rest, scope, fallback => by
    have ih := resolve_eq_none_iff rest scope
    rw [matching_cons, matching_mount]
    cases hm : matched scope with
    | none => simp [seenAll, Node.seen, resolveRoute, hm, ih]
    | some found => cases found <;> simp [seenAll, Node.seen, resolveRoute, hm, ih, mountMatch]
  | .mount matched path (node :: routes) :: rest, scope, fallback => by
    have ih := resolve_eq_none_iff rest scope
    rw [matching_cons, matching_mount]
    cases hm : matched scope with
    | none => simp [seenAll, Node.seen, resolveRoute, hm, ih]
    | some found =>
      cases found with
      | none => simp [seenAll, Node.seen, resolveRoute, hm, ih, mountMatch]
      | some child =>
        have inner := resolve_eq_none_iff (node :: routes) (scope.update child) none
        rw [seenAll] at inner
        cases hsub : resolveRoute (node.seen :: seenAll routes) (scope.update child) none with
        | none =>
          have hnot := (inner.mp hsub).2
          simp [seenAll, Node.seen, resolveRoute, hm, ih, mountMatch, hsub, hnot]
        | some found =>
          have hmatching : Matching (node :: routes) (scope.update child) := by
            by_contra hnot
            rw [inner.mpr ⟨rfl, hnot⟩] at hsub
            exact absurd hsub.symm (Option.some_ne_none _)
          simp [seenAll, Node.seen, resolveRoute, hm, mountMatch, hsub, hmatching]

theorem under_eq_serves {outcome : Outcome} {path template : Template} (h : outcome.under path = .serves template) :
    ∃ inner, outcome = .serves inner ∧ path ++ inner = template := by
  cases outcome with
  | serves inner => exact ⟨inner, rfl, Outcome.serves.inj h⟩
  | notFound => exact absurd h nofun
  | raises => exact absurd h nofun

/-- What the framework serves, the agent names. -/
theorem resolve_of_serves : ∀ (nodes : List (Node ν)) (scope : Scope ν) (fallback : Option (Found ν))
    (template : Template), dispatch nodes scope (fallback.map Found.template) = .serves template →
      (resolveRoute (seenAll nodes) scope fallback).map Found.template = some template
  | [], scope, fallback, template, h => by
    rw [dispatch] at h
    rw [seenAll, resolveRoute]
    cases fallback with
    | none => exact absurd h nofun
    | some found => exact congrArg some (Outcome.serves.inj h)
  | .route matched pathFormat :: rest, scope, fallback, template, h => by
    cases hm : matched scope with
    | none => simp [dispatch, hm] at h
    | some found =>
      obtain ⟨rank, child⟩ := found
      cases rank with
      | none =>
        simp only [dispatch, hm] at h
        simpa [seenAll, Node.seen, resolveRoute, hm] using resolve_of_serves rest scope fallback template h
      | partly =>
        -- the first partial match stays the fallback
        have hor : (fallback.or (some ⟨pathFormat, child.pathParams.getD Dict.empty⟩)).map Found.template =
            (fallback.map Found.template).or (some pathFormat) := by
          cases fallback <;> rfl
        simp only [dispatch, hm, ← hor] at h
        simpa [seenAll, Node.seen, resolveRoute, hm] using resolve_of_serves rest scope _ template h
      | full =>
        simp only [dispatch, hm, Outcome.serves.injEq] at h
        simp [seenAll, Node.seen, resolveRoute, hm, h]
  | .app matched path :: rest, scope, fallback, template, h => by
    cases hm : matched scope with
    | none => simp [dispatch, hm] at h
    | some found =>
      cases found with
      | none =>
        simp only [dispatch, hm] at h
        simpa [seenAll, Node.seen, resolveRoute, hm, mountMatch] using resolve_of_serves rest scope fallback template h
      | some child =>
        simp only [dispatch, hm, Outcome.serves.injEq] at h
        simp [seenAll, Node.seen, resolveRoute, hm, mountMatch, h]
  | .mount matched path routes :: rest, scope, fallback, template, h => by
    cases hm : matched scope with
    | none => simp [dispatch, hm] at h
    | some found =>
      cases found with
      | none =>
        simp only [dispatch, hm] at h
        simpa [seenAll, Node.seen, resolveRoute, hm, mountMatch] using resolve_of_serves rest scope fallback template h
      | some child =>
        simp only [dispatch, hm] at h
        obtain ⟨inner, hinner, happend⟩ := under_eq_serves h
        have ih := resolve_of_serves routes (scope.update child) none inner hinner
        obtain ⟨found, hfound, htemplate⟩ := Option.map_eq_some_iff.mp ih
        have hsome : (seenAll routes).isEmpty = false := by
          refine Bool.eq_false_iff.mpr fun hempty => ?_
          rw [(isEmpty_seenAll routes).mp hempty, dispatch] at hinner
          exact absurd hinner nofun
        simp [seenAll, Node.seen, resolveRoute, hm, mountMatch, hsome, hfound, mountPrefix_append, htemplate, happend]

/-- The agent mirrors the framework unless it finds a match where that, sent to the first mount that matches, finds
nothing. -/
theorem mirrored_iff (nodes : List (Node ν)) (scope : Scope ν) :
    Mirrored nodes scope ↔ (dispatch nodes scope none = .notFound → ¬Matching nodes scope) := by
  have hnone := resolve_eq_none_iff nodes scope none
  rw [Mirrored]
  cases hd : dispatch nodes scope none with
  | serves template => exact ⟨fun _ h => absurd h nofun, fun _ => resolve_of_serves nodes scope none template hd⟩
  | notFound => exact ⟨fun h _ => (hnone.mp h).2, fun h => hnone.mpr ⟨rfl, h rfl⟩⟩
  | raises => exact ⟨fun _ h => absurd h nofun, fun _ => trivial⟩

/-- A route that matches fully, whatever the request. -/
def everything (pathFormat : String) : Node ν := .route (fun scope => some (.full, scope)) pathFormat.toList

/-- A mounted router, one of whose routes matches nothing, before a route that matches. -/
def shadowed : List (Node ν) :=
  [.mount (fun scope => some (some scope)) "/api".toList [.route (fun scope => some (.none, scope)) "/users".toList],
    everything "/{rest}"]

theorem shadowed_not_mirrored : ¬Mirrored (shadowed (ν := Empty)) ⟨none, Dict.empty⟩ := by
  have hdispatch : dispatch (shadowed (ν := Empty)) ⟨none, Dict.empty⟩ none = .notFound := by
    simp [shadowed, dispatch, Outcome.under]
  have hresolve : (resolveRoute (seenAll (shadowed (ν := Empty))) ⟨none, Dict.empty⟩ none).map Found.template =
      some "/{rest}".toList := by
    simp [shadowed, everything, seenAll, Node.seen, resolveRoute, mountMatch]
  rw [Mirrored, hdispatch]
  intro hnone
  rw [hnone] at hresolve
  exact absurd hresolve.symm (Option.some_ne_none _)

end PtaasBench.Sdk.Asgi
