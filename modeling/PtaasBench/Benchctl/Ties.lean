import PtaasBench.Benchctl.Chains
import PtaasBench.Benchctl.Joins

/-!
# PtaasBench.Benchctl.Ties — what high confidence rests on

The cascade of `attribute_oob`: each join ties the callback to the vulnerability it names, the last resort only guesses
and says so.
-/

namespace PtaasBench.Benchctl

open Py

section Lookups

variable {c : Catalog} {v : Vuln} {k : Option String}

theorem mem_of_lookupGiven {d : Dict String Vuln} (h : lookupGiven d k = some v) :
    given k = true ∧ ∃ x, k = some x ∧ d.get? x = some v := by
  unfold lookupGiven at h
  split_ifs at h with hg
  obtain ⟨x, hx, hget⟩ := Option.bind_eq_some_iff.mp h
  exact ⟨hg, x, hx, hget⟩

theorem mem_of_indexBy {key : Vuln → Option String} {vulns : List Vuln} {x : String}
    (h : (indexBy key vulns).get? x = some v) : v ∈ vulns ∧ key v = some x := by
  obtain ⟨w, hw, hpair⟩ := List.mem_filterMap.mp (Dict.mem_of_get?_ofList h)
  split_ifs at hpair
  obtain ⟨y, hy, heq⟩ := Option.map_eq_some_iff.mp hpair
  obtain ⟨rfl, rfl⟩ := Prod.mk.inj heq
  exact ⟨hw, hy⟩

theorem owner_of_lookupGiven {key : Vuln → Option String} (h : lookupGiven (indexBy key c.vulns) k = some v) :
    v ∈ c.vulns ∧ given k = true ∧ key v = k := by
  obtain ⟨hg, x, rfl, hget⟩ := mem_of_lookupGiven h
  exact ⟨(mem_of_indexBy hget).1, hg, (mem_of_indexBy hget).2⟩

theorem owner_of_byId (h : lookupGiven c.byId k = some v) : v ∈ c.vulns ∧ given k = true ∧ k = some v.id := by
  obtain ⟨hg, x, rfl, hget⟩ := mem_of_lookupGiven h
  obtain ⟨hv, rfl⟩ := Catalog.mem_of_byId hget
  exact ⟨hv, hg, rfl⟩

end Lookups

variable [Runtime]

/-- What the content of a callback says about a vulnerability. -/
inductive Tied (stream : EventStream) (ev : OobEvent) (v : Vuln) : AttributionKind → Prop
  | token : given (some ev.token) = true → v.oracle.canaryToken = some ev.token → Tied stream ev v .token
  | signal : given ev.signal = true → v.oracle.signal = ev.signal → Tied stream ev v .signalCorrelation
  | declared : given ev.vulnId = true → ev.vulnId = some v.id → Tied stream ev v .declaredId
  | correlated (k : JoinKey) (r : Event) : r ∈ stream → k.matchesOn ev r = true →
      v.oracle.signal = rawSignal r.raw → Tied stream ev v .signalCorrelation

theorem matchesOn_of_joins {stream : EventStream} {ev : OobEvent} {r : Event} (h : joins stream ev r = true) :
    ∃ k : JoinKey, k.matchesOn ev r = true := by
  obtain ⟨k, -, hk⟩ := (Option.any_eq_true _ _).mp h
  exact ⟨k, hk⟩

/-- An attribution is tied as strongly as the event says, or it is the only guess there is, or it names nothing. -/
theorem attributeOob_cases (ev : OobEvent) (c : Catalog) (stream : EventStream) (addresses : Dict String String) :
    let a := attributeOob ev c (correlationIndex stream) addresses
    (∃ v ∈ c.vulns, a.vulnId = some v.id ∧ Tied stream ev v a.kind ∧
      a.confidence = if isWeak ev then .low else .high) ∨
    (∃ v, windowCandidates ev c (resolveSourceApp ev c addresses) = [v] ∧ a.vulnId = some v.id ∧
      a.kind = .containerWindow ∧ a.confidence = .low) ∨
    (a.vulnId = none ∧ a.kind = .unattributed ∧ a.confidence = .low) := by
  unfold attributeOob
  dsimp only
  cases htoken : lookupGiven c.byToken (some ev.token) with
  | some v =>
    obtain ⟨hv, hg, hkey⟩ := owner_of_lookupGiven htoken
    exact Or.inl ⟨v, hv, rfl, .token hg hkey, rfl⟩
  | none =>
    cases hsignal : lookupGiven c.bySignal ev.signal with
    | some v =>
      obtain ⟨hv, hg, hkey⟩ := owner_of_lookupGiven hsignal
      exact Or.inl ⟨v, hv, rfl, .signal hg hkey, rfl⟩
    | none =>
      cases hid : lookupGiven c.byId ev.vulnId with
      | some v =>
        obtain ⟨hv, hg, hkey⟩ := owner_of_byId hid
        exact Or.inl ⟨v, hv, rfl, .declared hg hkey, rfl⟩
      | none =>
        cases hjoin : lookupGiven c.bySignal (joinedSignal ev (correlationIndex stream)) with
        | some v =>
          obtain ⟨hv, hg, hkey⟩ := owner_of_lookupGiven hjoin
          rw [joinedSignal_eq] at hg hkey
          obtain ⟨r, hr⟩ : ∃ r, stream.find? (joins stream ev) = some r := by
            cases hf : stream.find? (joins stream ev) with
            | none => rw [hf] at hg; exact absurd hg Bool.false_ne_true
            | some r => exact ⟨r, rfl⟩
          obtain ⟨k, hk⟩ := matchesOn_of_joins (List.find?_some hr)
          rw [hr] at hkey
          exact Or.inl ⟨v, hv, rfl, .correlated k r (List.mem_of_find?_eq_some hr) hk hkey, rfl⟩
        | none =>
          refine Or.inr ?_
          dsimp only
          split_ifs with hplace
          · split
            · rename_i v hone
              exact Or.inl ⟨v, hone, rfl, rfl, rfl⟩
            · exact Or.inr ⟨rfl, rfl, rfl⟩
          · exact Or.inr ⟨rfl, rfl, rfl⟩

/-- High confidence rests on a tie the event itself does not call weak; the window's guess is the only one and low. -/
theorem attributeOob_high_tied (ev : OobEvent) (c : Catalog) (stream : EventStream) (addresses : Dict String String) :
    let a := attributeOob ev c (correlationIndex stream) addresses
    (a.confidence = .high → isWeak ev = false ∧ ∃ v ∈ c.vulns, a.vulnId = some v.id ∧ Tied stream ev v a.kind) ∧
    (a.kind = .containerWindow → a.confidence = .low ∧
      ∃ v, windowCandidates ev c (resolveSourceApp ev c addresses) = [v] ∧ a.vulnId = some v.id) := by
  intro a
  rcases attributeOob_cases ev c stream addresses with ⟨v, hv, hid, htie, hconf⟩ | ⟨v, hone, hid, hkind, hlow⟩ |
    ⟨-, hkind, hlow⟩
  · refine ⟨fun hhigh => ⟨?_, v, hv, hid, htie⟩, fun hkind => ?_⟩
    · rw [show a.confidence = _ from hconf] at hhigh
      by_contra hweak
      rw [if_pos (by simpa using hweak)] at hhigh
      cases hhigh
    · rw [show a.kind = _ from hkind] at htie
      cases htie
  · exact ⟨fun hhigh => absurd (hlow.symm.trans hhigh) (by decide), fun _ => ⟨hlow, v, hone, hid⟩⟩
  · exact ⟨fun hhigh => absurd (hlow.symm.trans hhigh) (by decide),
      fun hwindow => absurd (hkind.symm.trans hwindow) (by decide)⟩

end PtaasBench.Benchctl
