import Mathlib.Data.List.Sort
import Mathlib.Data.List.Dedup
import Mathlib.Data.Finset.Dedup
import PtaasBench.Py.Dict
import PtaasBench.Py.Json
import PtaasBench.Benchctl.Routes

/-!
# PtaasBench.Benchctl.Catalog — the typed view of the ground truth (`catalog.py`)

`load_catalog` skips a file whose id is already taken, so a `Catalog` carries the uniqueness of
its ids.  The three indexes are dictionary comprehensions over the vulnerabilities: on a shared
token or signal the later entry wins.
-/

namespace PtaasBench.Benchctl

open Py

structure Entrypoint where
  method : String
  path : String
  auth : String := "none"
  param : Option String := none
  paramIn : String := "query"
  defaultValue : Option String := none

structure Discovery where
  render : Option String := none
  requires : List String := []
  difficulty : Option ℤ := none

structure Oracle where
  kind : String
  canaryToken : Option String := none
  signal : Option String := none

structure Vuln where
  id : String
  app : String
  component : String := "api"
  cls : String := ""
  family : Option String := none
  owasp : Dict String String := Dict.empty
  severity : String := "info"
  entrypoint : Entrypoint
  discovery : Discovery := {}
  oracle : Oracle
  requiresPrereq : List String := []

def Vuln.hasParam (v : Vuln) : Bool := given v.entrypoint.param

def Vuln.owaspFor (v : Vuln) (edition : String) : Option String := v.owasp.get? edition

structure Catalog where
  vulns : List Vuln
  editions : List String := []  -- the keys of `taxonomy.editions`
  ids_nodup : (vulns.map Vuln.id).Nodup

/-- `{key(v): v for v in vulns if key(v)}` -/
def indexBy (key : Vuln → Option String) (vulns : List Vuln) : Dict String Vuln :=
  Dict.ofList (vulns.filterMap fun v =>
    if given (key v) then (key v).map fun k => (k, v) else none)

namespace Catalog

def byId (c : Catalog) : Dict String Vuln := Dict.ofList (c.vulns.map fun v => (v.id, v))
def byToken (c : Catalog) : Dict String Vuln := indexBy (·.oracle.canaryToken) c.vulns
def bySignal (c : Catalog) : Dict String Vuln := indexBy (·.oracle.signal) c.vulns

/-- `sorted(set(xs))` -/
def sortedSet (xs : List String) : List String := xs.dedup.insertionSort (· ≤ ·)

theorem mem_sortedSet {xs : List String} {x : String} : x ∈ sortedSet xs ↔ x ∈ xs := by
  rw [sortedSet, List.mem_insertionSort, List.mem_dedup]

theorem sortedSet_congr {xs ys : List String} (h : ∀ x, x ∈ xs ↔ x ∈ ys) :
    sortedSet xs = sortedSet ys := by
  have hdedup : xs.dedup.Perm ys.dedup :=
    (List.perm_ext_iff_of_nodup (List.nodup_dedup xs) (List.nodup_dedup ys)).mpr fun x => by
      rw [List.mem_dedup, List.mem_dedup, h]
  exact ((List.perm_insertionSort (· ≤ ·) _).trans (hdedup.trans
    (List.perm_insertionSort (· ≤ ·) _).symm)).eq_of_pairwise'
      (List.pairwise_insertionSort (· ≤ ·) _) (List.pairwise_insertionSort (· ≤ ·) _)

def apps (c : Catalog) : List String := sortedSet (c.vulns.map Vuln.app)

/-- `prereq_depth`: the recursion stops at an id it has seen, so one level per known id is
enough. -/
def prereqDepthAux (c : Catalog) : ℕ → List String → String → ℕ
  | 0, _, _ => 0
  | fuel + 1, seen, vulnId =>
    match c.byId.get? vulnId with
    | none => 0
    | some v =>
      if v.requiresPrereq = [] ∨ vulnId ∈ seen then 0
      else
        ((v.requiresPrereq.filter (c.byId.contains ·)).map fun p =>
          1 + prereqDepthAux c fuel (vulnId :: seen) p).foldl max 0

def prereqDepth (c : Catalog) (vulnId : String) : ℕ :=
  prereqDepthAux c (c.vulns.length + 1) [] vulnId

/-- The loop of `transitive_prereqs`; the stack's top is the head of the list. -/
def transitiveAux (c : Catalog) : ℕ → List String → List String → List String
  | 0, _, out => out
  | _, [], out => out
  | fuel + 1, cur :: stack, out =>
    if cur ∈ out then transitiveAux c fuel stack out
    else
      match c.byId.get? cur with
      | none => transitiveAux c fuel stack (out ++ [cur])
      | some nxt => transitiveAux c fuel (nxt.requiresPrereq.reverse ++ stack) (out ++ [cur])

/-- `transitive_prereqs`: every entry of the catalog is expanded at most once, which bounds the
pops. -/
def transitivePrereqs (c : Catalog) (vulnId : String) : List String :=
  match c.byId.get? vulnId with
  | none => []
  | some v =>
    let pops := v.requiresPrereq.length + (c.vulns.map (·.requiresPrereq.length)).sum + 1
    (transitiveAux c pops v.requiresPrereq.reverse []).insertionSort (· ≤ ·)

end Catalog

end PtaasBench.Benchctl
