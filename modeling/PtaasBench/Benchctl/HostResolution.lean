import Mathlib.Data.String.Basic
import PtaasBench.Benchctl.Crawl
import PtaasBench.Lib.FirstMatch

/-!
# PtaasBench.Benchctl.HostResolution — which declared vhost a request resolves to

`resolve_host` goes through the declared hosts in sorted order and takes the first one `host_matches` accepts.
A declared host matches itself, so it is taken unless one that sorts before it matches too.
-/

namespace PtaasBench.Benchctl

open Py

namespace RouteInventory

variable [Runtime]

/-- The set the `hosts` property sorts. -/
def hostSet (inv : RouteInventory) : List (Option String) :=
  ((inv.routes.filter fun r => given r.host).map fun r => normalizeHost r.host).dedup

/-- `sorted` raises where `None` stands beside a name. -/
def HostsSort (inv : RouteInventory) : Prop := inv.hostSet.contains none = true → inv.hostSet = [none]

instance (inv : RouteInventory) : Decidable inv.HostsSort := inferInstanceAs (Decidable (_ → _))

/-- The `hosts` property, `none` where it raises. -/
def hostsOrRaise (inv : RouteInventory) : Option (List (Option String)) :=
  if inv.HostsSort then some (if inv.hostSet.contains none then [none] else inv.hosts.map some) else none

/-- `resolve_host`, `none` where it raises. -/
def resolveHostOrRaise (inv : RouteInventory) (host : Option String) : Option (Option String) :=
  match normalizeHost host with
  | none => some none
  | some value => inv.hostsOrRaise.map fun hosts =>
    (hosts.find? fun declared => hostMatches declared (some value)).getD none

end RouteInventory

section Resolution

variable [Runtime] {inv : RouteInventory}

theorem mem_hosts {h : String} :
    h ∈ inv.hosts ↔ ∃ r ∈ inv.routes, given r.host = true ∧ normalizeHost r.host = some h := by
  rw [RouteInventory.hosts, Catalog.mem_sortedSet, List.mem_filterMap]
  constructor
  · rintro ⟨r, hr, h⟩
    split_ifs at h with hgiven
    exact ⟨r, hr, hgiven, h⟩
  · rintro ⟨r, hr, hgiven, h⟩
    exact ⟨r, hr, by rw [if_pos hgiven, h]⟩

theorem mem_hostSet {h : Option String} :
    h ∈ inv.hostSet ↔ ∃ r ∈ inv.routes, given r.host = true ∧ normalizeHost r.host = h := by
  rw [RouteInventory.hostSet, List.mem_dedup, List.mem_map]
  constructor
  · rintro ⟨r, hr, h⟩
    exact ⟨r, List.mem_of_mem_filter hr, (List.mem_filter.mp hr).2, h⟩
  · rintro ⟨r, hr, hgiven, h⟩
    exact ⟨r, List.mem_filter.mpr ⟨hr, hgiven⟩, h⟩

theorem hosts_sorted (inv : RouteInventory) : inv.hosts.Pairwise (· < ·) := by
  have hle : inv.hosts.Pairwise (· ≤ ·) := List.pairwise_insertionSort (· ≤ ·) _
  have hne : inv.hosts.Pairwise (· ≠ ·) := (List.perm_insertionSort _ _).nodup_iff.mpr (List.nodup_dedup _)
  exact (hle.and hne).imp fun h => lt_of_le_of_ne h.1 h.2

/-- Without `None` among them, the hosts are those the scorer's model lists. -/
theorem resolveHostOrRaise_eq (hsort : inv.HostsSort) (host : Option String) :
    inv.resolveHostOrRaise host = some (inv.resolveHost host) := by
  rw [RouteInventory.resolveHostOrRaise, RouteInventory.resolveHost, RouteInventory.hostsOrRaise, if_pos hsort]
  cases normalizeHost host with
  | none => rfl
  | some value =>
    dsimp only
    rw [Option.map_some, Option.some_inj]
    by_cases hnone : inv.hostSet.contains none = true
    · -- every row's host is read as `None`
      have hempty : inv.hosts = [] := by
        rw [List.eq_nil_iff_forall_not_mem]
        intro h hh
        have hmem : some h ∈ inv.hostSet := mem_hostSet.mpr (mem_hosts.mp hh)
        rw [hsort hnone, List.mem_singleton] at hmem
        cases hmem
      rw [if_pos hnone, hempty, List.find?_nil, List.find?_singleton]
      split_ifs <;> rfl
    · rw [if_neg hnone, List.find?_map]
      cases h : inv.hosts.find? ((fun declared => hostMatches declared (some value)) ∘ some) with
      | none => exact h.symm
      | some d => exact h.symm

theorem hostMatches_self (h : String) : hostMatches (some h) (some h) = true := by
  rw [hostMatches]
  cases normalizeHost (some h) with
  | none => rfl
  | some a => exact if_pos rfl

/-- One declared host is taken for another: once more normalised, they are the same, or they are names with one
first label. -/
def TakenFor (d h : String) : Prop :=
  ∀ a b, normalizeHost (some d) = some a → normalizeHost (some h) = some b →
    a = b ∨ (isIpLiteral a = false ∧ isIpLiteral b = false ∧ beforeChar '.' a = beforeChar '.' b)

theorem hostMatches_iff {d h : String} : hostMatches (some d) (some h) = true ↔ TakenFor d h := by
  rw [hostMatches, TakenFor]
  cases normalizeHost (some d) with
  | none => exact iff_of_true rfl fun a b ha => nomatch ha
  | some a =>
    cases normalizeHost (some h) with
    | none => exact iff_of_true rfl fun a b _ hb => nomatch hb
    | some b =>
      have hclosed {P : String → String → Prop} :
          (∀ a' b', some a = some a' → some b = some b' → P a' b') ↔ P a b :=
        ⟨fun h => h a b rfl rfl, fun h a' b' ha hb => Option.some.inj ha ▸ Option.some.inj hb ▸ h⟩
      rw [hclosed]
      dsimp only
      by_cases hab : a = b
      · rw [if_pos hab]
        exact iff_of_true rfl (Or.inl hab)
      · rw [if_neg hab]
        cases isIpLiteral a <;> cases isIpLiteral b <;> simp [hab]

theorem resolveHost_eq_self_iff {host : Option String} {h : String} (hhost : normalizeHost host = some h)
    (hh : h ∈ inv.hosts) :
    inv.resolveHost host = some h ↔ ∀ d ∈ inv.hosts, d < h → ¬ TakenFor d h := by
  rw [RouteInventory.resolveHost, hhost]
  dsimp only
  rw [Lib.find?_eq_some_iff_of_sorted (hosts_sorted inv)]
  constructor
  · rintro ⟨-, -, hfirst⟩ d hd hlt htaken
    exact absurd (hostMatches_iff.mpr htaken) (Bool.eq_false_iff.mp (hfirst d hd hlt))
  · intro hfirst
    refine ⟨hh, hostMatches_self h, fun d hd hlt => Bool.eq_false_iff.mpr fun hmatch => ?_⟩
    exact hfirst d hd hlt (hostMatches_iff.mp hmatch)

/-- A request that resolves to a host credits that host's rows only. -/
theorem credits_own_host {selected : Dict String RouteInventory} {entry : RouteEntry} {ev : HttpRequestEvent}
    {h g : String} (hinv : selected.get? (ev.app.getD "") = some inv) (hgiven : given ev.host = true)
    (hresolved : inv.resolveHost ev.host = some h) (hentry : normalizeHost entry.host = some g)
    (hcredits : Credits selected entry ev) : g = h := by
  have hobserved : observedHost selected ev = some h := by
    rw [observedHost, if_pos hgiven, hinv, Option.bind_some, hresolved]
  rw [Credits, hobserved] at hcredits
  have hkey := (Prod.mk.inj (Prod.mk.inj hcredits).2).1
  rw [hentry, Option.getD_some] at hkey
  exact hkey.symm

theorem given_of_normalizeHost {host : Option String} {h : String} (hhost : normalizeHost host = some h) :
    given host = true := by
  by_contra hgiven
  rw [normalizeHost_of_not_given (Bool.eq_false_iff.mpr hgiven)] at hhost
  cases hhost

/-- A declared vhost resolves to itself, and its requests credit no other vhost's rows, just if no vhost that sorts
before it is taken for it. -/
theorem declared_host_resolves_iff {selected : Dict String RouteInventory} {ev : HttpRequestEvent} {h : String}
    (hinv : selected.get? (ev.app.getD "") = some inv) (hhost : normalizeHost ev.host = some h)
    (hh : some h ∈ inv.hostSet) :
    (inv.resolveHostOrRaise ev.host = some (some h) ∧
      ∀ entry ∈ inv.routes, ∀ g, normalizeHost entry.host = some g → g ≠ h →
        ∀ o, isCovered entry (observe selected o ev) = true → isCovered entry o = true) ↔
    inv.HostsSort ∧ ∀ d, some d ∈ inv.hostSet → d < h → ¬ TakenFor d h := by
  have hmem : ∀ d, some d ∈ inv.hostSet ↔ d ∈ inv.hosts := fun d => mem_hostSet.trans mem_hosts.symm
  simp only [hmem] at hh ⊢
  constructor
  · rintro ⟨hresolved, -⟩
    have hsort : inv.HostsSort := by
      by_contra hraise
      rw [RouteInventory.resolveHostOrRaise, hhost, RouteInventory.hostsOrRaise, if_neg hraise] at hresolved
      cases hresolved
    rw [resolveHostOrRaise_eq hsort, Option.some_inj] at hresolved
    exact ⟨hsort, (resolveHost_eq_self_iff hhost hh).mp hresolved⟩
  · rintro ⟨hsort, hfirst⟩
    have hresolved := (resolveHost_eq_self_iff hhost hh).mpr hfirst
    refine ⟨by rw [resolveHostOrRaise_eq hsort, hresolved], fun entry _ g hg hne o hcovered => ?_⟩
    rcases (isCovered_observe selected entry o ev).mp hcovered with hcovered | hcredits
    · exact hcovered
    · exact absurd (credits_own_host hinv (given_of_normalizeHost hhost) hresolved hg hcredits) hne

end Resolution

namespace TwoHosts

/-- Two vhosts of one app that share a first label. -/
def inventory : RouteInventory where
  app := "infra"
  routes := [{ app := "infra", path := "/.git/config", host := some "www.a.com" },
    { app := "infra", path := "/.git/config", host := some "www.b.com" }]

def selected : Dict String RouteInventory := Dict.ofList [("infra", inventory)]

def request (host : String) : HttpRequestEvent where
  type := "http_request"
  app := some "infra"
  method := "GET"
  route := "/.git/config"
  host := some host

/-- The first of the two resolves to itself. -/
theorem first_host_resolves :
    let _ := Runtime.ascii
    inventory.resolveHostOrRaise (request "www.a.com").host = some (some "www.a.com") ∧
      ∀ entry ∈ inventory.routes, ∀ g, normalizeHost entry.host = some g → g ≠ "www.a.com" →
        ∀ o, isCovered entry (observe selected o (request "www.a.com")) = true → isCovered entry o = true := by
  intro _
  refine (declared_host_resolves_iff rfl (by decide) (by decide)).mpr
    ⟨by decide, fun d hd hlt => ?_⟩
  have hset : inventory.hostSet = [some "www.a.com", some "www.b.com"] := by decide
  rw [hset, List.mem_cons, List.mem_singleton, Option.some_inj, Option.some_inj] at hd
  rcases hd with rfl | rfl
  · exact absurd hlt (by decide)
  · exact absurd hlt (by decide)

/-- The second is taken for the first. -/
theorem second_host_taken_for_first :
    let _ := Runtime.ascii
    normalizeHost (request "www.b.com").host = some "www.b.com" ∧ some "www.b.com" ∈ inventory.hostSet ∧
      inventory.resolveHostOrRaise (request "www.b.com").host = some (some "www.a.com") ∧
      ∃ entry ∈ inventory.routes, normalizeHost entry.host = some "www.a.com" ∧
        isCovered entry (observe selected {} (request "www.b.com")) = true ∧ isCovered entry {} = false := by
  decide +kernel

end TwoHosts

end PtaasBench.Benchctl
