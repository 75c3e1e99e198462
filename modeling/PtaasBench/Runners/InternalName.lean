import PtaasBench.Py.Dict
import PtaasBench.Py.Json

/-!
# PtaasBench.Runners.InternalName — the name the harness connects by (`_lib/preflight.py`)

A name resolves on a network to every service that is attached to it under the name.  The check looks at the
services of one application, and at the first of them that has the name.
-/

namespace PtaasBench.Runners.InternalName

open Py

/-! ## The compose model -/

structure Attachment where
  aliases : List String := []

/-- A service, by the keys of the networks it is attached to. -/
structure ServiceSpec where
  networks : Dict String Attachment := Dict.empty

/-- The merged compose model: its services, and the names its networks are given. -/
structure Compose where
  services : Dict String ServiceSpec
  networks : Dict String (Option String)

structure AppSpec where
  key : String
  services : List String
  internalHost : String

structure Check where
  name : String
  ok : Bool
  detail : String
  indeterminate : Bool := false

/-- `_resolved_network_names(doc).get(key, key)` -/
def Compose.network (doc : Compose) (key : String) : String :=
  (((doc.networks.get? key).getD none).filter (· ≠ "")).getD key

/-! ## `expand_vars` -/

def isWord (c : Char) : Bool := c.isAlphanum || c == '_'

/-- `_VAR_RE` at a place: the variable, its default and the length of the match. -/
def variableAt : List Char → Option (String × Option String × ℕ)
  | '$' :: '\x7b' :: rest =>
    let name := rest.takeWhile isWord
    if name.head?.all Char.isDigit then none
    else
      match rest.drop name.length with
      | '\x7d' :: _ => some (String.ofList name, none, name.length + 3)
      | ':' :: '-' :: rest =>
        let default := rest.takeWhile (· ≠ '\x7d')
        if default.length < rest.length then
          some (String.ofList name, some (String.ofList default), name.length + default.length + 5)
        else none
      | _ => none
  | _ => none

/-- `os.environ.get(m.group(1)) or (m.group(2) or "")` -/
def valueOf (environ : String → Option String) (name : String) (default : Option String) : String :=
  ((environ name).filter (· ≠ "")).getD (default.getD "")

/-- `_VAR_RE.sub`, where `skip` characters of a match are still to come -/
def expandFrom (environ : String → Option String) : ℕ → List Char → List Char
  | _, [] => []
  | skip + 1, _ :: cs => expandFrom environ skip cs
  | 0, c :: cs =>
    match variableAt (c :: cs) with
    | some (name, default, length) =>
      (valueOf environ name default).toList ++ expandFrom environ (length - 1) cs
    | none => c :: expandFrom environ 0 cs

def expandVars (environ : String → Option String) (value : String) : String :=
  String.ofList (expandFrom environ 0 value.toList)

/-! ## The check -/

section Checking

variable [Runtime] (environ : String → Option String) (doc : Compose) (app : AppSpec) (publicNet internalNet : String)

/-- The names of a service, each with a network it resolves on. -/
def namesOf (service : String) : List (String × String) :=
  ((doc.services.get? service).getD {}).networks.items.flatMap fun e =>
    (service :: e.2.aliases).map fun aka => (expandVars environ aka, doc.network e.1)

/-- `names.get(alias, set())` -/
def networksOf (service aka : String) : List String :=
  ((namesOf environ doc service).filter fun e => e.1 = aka).map Prod.snd

/-- `host in names` -/
def knows (service host : String) : Bool := (namesOf environ doc service).any fun e => e.1 = host

/-- `next((svc for svc, names in per_service.items() if host in names), None)` -/
def ownerOf : Option String := app.services.find? fun service => knows environ doc service app.internalHost

def sortedNames (names : List String) : List String := names.dedup.mergeSort fun a b => decide (a ≤ b)

def listRepr (names : List String) : String := (Json.arr (names.map .str)).repr

def checkName : String := "internal-name:" ++ app.key

def unreadable : Check :=
  { name := checkName app, ok := true, detail := "could not read the compose config", indeterminate := true }

def unknownName : Check where
  name := checkName app
  ok := false
  detail :=
    "internal_url names " ++ Runtime.reprStr app.internalHost ++ ", which is not an alias of any service of this app. " ++
      listRepr app.services ++ " answer to " ++
      listRepr (sortedNames (app.services.flatMap fun service => (namesOf environ doc service).map Prod.fst)) ++
      ". A name that does not resolve to this application cannot be checked for which network it arrives over, and " ++
      "the harness's own traffic then either misses the target or is credited to the tool."

def internalOnly : Check where
  name := checkName app
  ok := true
  detail := Runtime.reprStr app.internalHost ++ " resolves on " ++ internalNet ++ " only"

/-- The names of the owner that are platform-side only. -/
def alternatives (owner : String) : List String :=
  sortedNames (((namesOf environ doc owner).map Prod.fst).filter fun aka =>
    decide (internalNet ∈ networksOf environ doc owner aka ∧ publicNet ∉ networksOf environ doc owner aka))

def offers (owner : String) : Check where
  name := checkName app
  ok := false
  detail :=
    "internal_url uses " ++ Runtime.reprStr app.internalHost ++ ", which also resolves on " ++ publicNet ++
      ": the harness's own preflight and login traffic would arrive from an address the target classifies as a " ++
      "tool's and be credited to whichever tool is running. " ++ owner ++ " offers " ++
      listRepr (alternatives environ doc publicNet internalNet owner) ++ ", which resolve on " ++ internalNet ++
      " only -- use one of those."

def onBoth (owner : String) : Check where
  name := checkName app
  ok := true
  detail :=
    Runtime.reprStr app.internalHost ++ " resolves on both networks and " ++ owner ++
      " offers no platform-side-only alias; the harness pins its connections to the internal address instead."

/-- `check_internal_name_is_platform_side`, where `doc` is what docker says of the compose model -/
def checkInternalName (doc : Option Compose) : Check :=
  match doc with
  | none => unreadable app
  | some doc =>
    match ownerOf environ doc app with
    | none => unknownName environ doc app
    | some owner =>
      if publicNet ∉ networksOf environ doc owner app.internalHost then internalOnly app internalNet
      else if alternatives environ doc publicNet internalNet owner ≠ [] then
        offers environ doc app publicNet internalNet owner
      else onBoth app owner

/-! ## What resolves -/

/-- A service of the model is attached to a network, and answers to a name there: its own or an alias. -/
def Answers (service host network : String) : Prop :=
  ∃ spec, doc.services.get? service = some spec ∧ ∃ e ∈ spec.networks.items, doc.network e.1 = network ∧
    (expandVars environ service = host ∨ ∃ aka ∈ e.2.aliases, expandVars environ aka = host)

variable {environ doc app publicNet internalNet}

omit [Runtime] in
theorem mem_namesOf_iff {service host network : String} :
    (host, network) ∈ namesOf environ doc service ↔ Answers environ doc service host network := by
  rw [namesOf, Answers, List.mem_flatMap]
  cases hspec : doc.services.get? service with
  | none =>
    constructor
    · rintro ⟨e, he, -⟩
      exact absurd he List.not_mem_nil
    · rintro ⟨spec, hsome, -⟩
      cases hsome
  | some spec =>
    have hnames : ∀ e : String × Attachment,
        (host, network) ∈ (service :: e.2.aliases).map (fun aka => (expandVars environ aka, doc.network e.1)) ↔
          doc.network e.1 = network ∧
            (expandVars environ service = host ∨ ∃ aka ∈ e.2.aliases, expandVars environ aka = host) := by
      intro e
      rw [List.map_cons, List.mem_cons, List.mem_map]
      simp only [Prod.mk.injEq]
      constructor
      · rintro (⟨hhost, hnetwork⟩ | ⟨aka, haka, hhost, hnetwork⟩)
        · exact ⟨hnetwork.symm, Or.inl hhost.symm⟩
        · exact ⟨hnetwork, Or.inr ⟨aka, haka, hhost⟩⟩
      · rintro ⟨hnetwork, hhost | ⟨aka, haka, hhost⟩⟩
        · exact Or.inl ⟨hhost.symm, hnetwork.symm⟩
        · exact Or.inr ⟨aka, haka, hhost, hnetwork⟩
    simp only [hnames]
    constructor
    · rintro ⟨e, he, hanswers⟩
      exact ⟨spec, rfl, e, he, hanswers⟩
    · rintro ⟨spec', hspec', e, he, hanswers⟩
      obtain rfl := Option.some.inj hspec'
      exact ⟨e, he, hanswers⟩

omit [Runtime] in
theorem mem_networksOf_iff {service host network : String} :
    network ∈ networksOf environ doc service host ↔ Answers environ doc service host network := by
  rw [networksOf, List.mem_map, ← mem_namesOf_iff]
  constructor
  · rintro ⟨⟨aka, on⟩, he, rfl⟩
    obtain ⟨hmem, haka⟩ := List.mem_filter.mp he
    obtain rfl := of_decide_eq_true haka
    exact hmem
  · exact fun h => ⟨(host, network), List.mem_filter.mpr ⟨h, decide_eq_true rfl⟩, rfl⟩

/-! ## The one answer that vouches for the name -/

omit [Runtime] in
theorem append_ne_append {a a' : String} {l l' : List Char} (hl : l ≠ []) (hl' : l' ≠ [])
    (h : l.getLast? ≠ l'.getLast?) : a ++ String.ofList l ≠ a' ++ String.ofList l' := by
  intro heq
  have hlast := congrArg List.getLast? (congrArg String.toList heq)
  rw [String.toList_append, String.toList_append, String.toList_ofList, String.toList_ofList,
    List.getLast?_append_of_ne_nil _ hl, List.getLast?_append_of_ne_nil _ hl'] at hlast
  exact h hlast

theorem onBoth_ne (owner : String) : onBoth app owner ≠ internalOnly app internalNet := by
  intro h
  exact append_ne_append (by decide) (by decide) (by decide) (congrArg Check.detail h)

theorem checkInternalName_of_none (h : ownerOf environ doc app = none) :
    checkInternalName environ app publicNet internalNet (some doc) ≠ internalOnly app internalNet := by
  intro hcheck
  unfold checkInternalName at hcheck
  dsimp only at hcheck
  rw [h] at hcheck
  cases congrArg Check.ok hcheck

/-- The check vouches for the name just if the owner does not answer to it on the tool's network. -/
theorem checkInternalName_of_some {owner : String} (h : ownerOf environ doc app = some owner) :
    checkInternalName environ app publicNet internalNet (some doc) = internalOnly app internalNet ↔
      ¬Answers environ doc owner app.internalHost publicNet := by
  unfold checkInternalName
  dsimp only
  rw [h, ← mem_networksOf_iff]
  dsimp only
  by_cases hpublic : publicNet ∉ networksOf environ doc owner app.internalHost
  · rw [if_pos hpublic]
    exact ⟨fun _ => hpublic, fun _ => rfl⟩
  · rw [if_neg hpublic]
    refine ⟨fun hcheck => absurd hcheck ?_, fun h => absurd h hpublic⟩
    split_ifs
    · intro hoffers
      cases congrArg Check.ok hoffers
    · exact onBoth_ne owner

/-- The name is vouched for only where no service answers to it on the tool's network, just if the first service of
the application that has the name answers there wherever another one does. -/
theorem internal_only_iff :
    (checkInternalName environ app publicNet internalNet (some doc) = internalOnly app internalNet →
        ∀ service, ¬Answers environ doc service app.internalHost publicNet) ↔
      ∀ service, Answers environ doc service app.internalHost publicNet →
        ∀ owner ∈ ownerOf environ doc app, Answers environ doc owner app.internalHost publicNet := by
  cases howner : ownerOf environ doc app with
  | none => exact ⟨fun _ _ _ _ h => absurd h nofun, fun _ h => absurd h (checkInternalName_of_none howner)⟩
  | some owner =>
    rw [checkInternalName_of_some howner]
    constructor
    · intro h service hservice owner' howner'
      obtain rfl := Option.some.inj howner'
      by_contra hnot
      exact h hnot service hservice
    · exact fun h hnot service hservice => hnot (h service hservice owner rfl)

end Checking

/-! ## An alias of two services -/

/-- The cache has the operations alias on the platform's network, and the site has it on the tool's. -/
def sharedAlias : Compose where
  services := ⟨[("cache", { networks := ⟨[("bench-internal", { aliases := ["ops01"] })], by decide⟩ }),
    ("site", { networks := ⟨[("bench-public", { aliases := ["ops01"] })], by decide⟩ })], by decide⟩
  networks := Dict.empty

def infra : AppSpec where
  key := "infra"
  services := ["cache", "site"]
  internalHost := "ops01"

theorem ops01_vouched_for :
    @checkInternalName Runtime.ascii (fun _ => none) infra "bench-public" "bench-internal" (some sharedAlias) =
        @internalOnly Runtime.ascii infra "bench-internal" ∧
      Answers (fun _ => none) sharedAlias "site" "ops01" "bench-public" := by
  refine ⟨rfl, ?_⟩
  rw [← mem_networksOf_iff]
  decide

end PtaasBench.Runners.InternalName
