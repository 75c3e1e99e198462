import PtaasBench.Lib.Claims
import PtaasBench.Benchctl.Precision

/-!
# PtaasBench.Benchctl.CatalogOrder — when the order of the catalog files does not matter

A finding is judged alike in every order of the catalog; but of several vulnerabilities it is a true
positive for, it claims the first.  The tools are the labels of `Lib.Claims`, their findings the agents
and the vulnerabilities the items.
-/

namespace PtaasBench.Benchctl

open Py Lib

variable [Runtime]

/-- Is the finding a true positive for the vulnerability, if this comes first? -/
def Judging.trueOf (ctx : Judging) (f : Finding) (v : PlantedVuln) : Bool :=
  (ctx.apps = [] || v.app ∈ ctx.apps) && ctx.located f v &&
    (judge ctx.catalog f v).1 = .truePositive

/-- The catalog in another order. -/
def Judging.reorder (ctx : Judging) (vulns : List PlantedVuln) (h : vulns.Perm ctx.catalog.vulns) :
    Judging :=
  { ctx with
    catalog :=
      { vulns := vulns
        classes := ctx.catalog.classes
        ids_nodup := (h.map _).nodup_iff.mpr ctx.catalog.ids_nodup } }

/-! ## The best verdict -/

section Best

variable (ctx : Judging) (f : Finding)

theorem rank_foldl_better (vs : List PlantedVuln) (b : Best) :
    (vs.foldl (ctx.better f) b).verdict.rank =
      vs.foldl (fun n v => min n (judge ctx.catalog f v).1.rank) b.verdict.rank := by
  induction vs generalizing b with
  | nil => rfl
  | cons v vs ih =>
    rw [List.foldl_cons, List.foldl_cons, ih]
    congr 1
    unfold Judging.better
    dsimp only
    split_ifs with h
    · exact (min_eq_right h.le).symm
    · exact (min_eq_left (not_lt.mp h)).symm

theorem foldl_better_of_truePositive (vs : List PlantedVuln) {b : Best}
    (h : b.verdict = .truePositive) : vs.foldl (ctx.better f) b = b := by
  induction vs with
  | nil => rfl
  | cons v vs ih =>
    have hkeep : ctx.better f b v = b := if_neg (by rw [h]; exact Nat.not_lt_zero _)
    rw [List.foldl_cons, hkeep, ih]

/-- A true positive is one for the first candidate it can be one for. -/
theorem foldl_better_cases (vs : List PlantedVuln) {b : Best} (h : b.verdict ≠ .truePositive) :
    match vs.find? fun v => decide ((judge ctx.catalog f v).1 = .truePositive) with
    | some v => (vs.foldl (ctx.better f) b).verdict = .truePositive ∧
        (vs.foldl (ctx.better f) b).matched = some v
    | none => (vs.foldl (ctx.better f) b).verdict ≠ .truePositive := by
  induction vs generalizing b with
  | nil => exact h
  | cons v vs ih =>
    rw [List.foldl_cons]
    by_cases hv : (judge ctx.catalog f v).1 = .truePositive
    · have htake : ctx.better f b v =
          { verdict := (judge ctx.catalog f v).1, reason := (judge ctx.catalog f v).2
            matched := some v } := by
        refine if_pos ?_
        rw [hv]
        refine Nat.pos_of_ne_zero fun hrank => h ?_
        exact Verdict.rank_injective hrank
      rw [List.find?_cons_of_pos (by simpa using hv), htake]
      rw [foldl_better_of_truePositive ctx f vs hv]
      exact ⟨hv, rfl⟩
    · have hnext : (ctx.better f b v).verdict ≠ .truePositive := by
        unfold Judging.better
        dsimp only
        split_ifs
        · exact hv
        · exact h
      rw [List.find?_cons_of_neg (by simpa using hv)]
      exact ih hnext

/-- A finding claims the first vulnerability of the catalog that it is a true positive for. -/
theorem claim_eq : ctx.claim f = (ctx.catalog.vulns.find? (ctx.trueOf f)).map fun v => (f.tool, v.id) := by
  have hfind : ctx.catalog.vulns.find? (ctx.trueOf f) =
      (ctx.inScope.filter (ctx.located f)).find?
        fun v => decide ((judge ctx.catalog f v).1 = .truePositive) := by
    rw [Judging.inScope, List.filter_filter, List.find?_filter]
    congr 1
    funext v
    simp only [Judging.trueOf, Bool.and_assoc, Bool.and_eq_true, Bool.decide_and, Bool.decide_eq_true]
    rw [Bool.and_left_comm]
  have hcases := foldl_better_cases ctx f (ctx.inScope.filter (ctx.located f))
    (b := { verdict := .falsePositive, reason := "no catalog entrypoint matches this location"
            matched := none }) (by decide)
  rw [hfind]
  unfold Judging.claim
  cases hv : (ctx.inScope.filter (ctx.located f)).find?
      fun v => decide ((judge ctx.catalog f v).1 = .truePositive) with
  | some v =>
    rw [hv] at hcases
    have hverdict : (ctx.best f).verdict = .truePositive := hcases.1
    have hmatched : (ctx.best f).matched = some v := hcases.2
    rw [if_pos hverdict, hmatched]
  | none =>
    rw [hv] at hcases
    exact if_neg hcases

end Best

/-! ## Another order -/

section Reorder

variable (ctx : Judging) {vulns : List PlantedVuln} (h : vulns.Perm ctx.catalog.vulns)

omit [Runtime] in
theorem inScope_reorder : (ctx.reorder vulns h).inScope.Perm ctx.inScope := h.filter _

omit [Runtime] in
theorem scopeApps_reorder : (ctx.reorder vulns h).scopeApps = ctx.scopeApps :=
  Catalog.sortedSet_congr fun _ => ((inScope_reorder ctx h).map _).mem_iff

omit [Runtime] in
theorem appOf_reorder (f : Finding) : (ctx.reorder vulns h).appOf f = ctx.appOf f := by
  have hdefault : (ctx.reorder vulns h).defaultApp = ctx.defaultApp := by
    rw [Judging.defaultApp, Judging.defaultApp, scopeApps_reorder]
  rw [Judging.appOf, Judging.appOf, hdefault]
  rfl

theorem located_reorder (f : Finding) : (ctx.reorder vulns h).located f = ctx.located f := by
  have happ := appOf_reorder ctx h f
  have hinventory : (ctx.reorder vulns h).inventoryOf f = ctx.inventoryOf f := by
    rw [Judging.inventoryOf, Judging.inventoryOf, happ]
    rfl
  have hresolved : (ctx.reorder vulns h).resolvedHost f = ctx.resolvedHost f := by
    rw [Judging.resolvedHost, Judging.resolvedHost, hinventory]
  have hhost : (ctx.reorder vulns h).hostMatch f = ctx.hostMatch f := by
    rw [Judging.hostMatch, Judging.hostMatch, hinventory, hresolved]
  funext v
  rw [Judging.located, Judging.located, happ, hinventory, hresolved, hhost]

theorem trueOf_reorder : (ctx.reorder vulns h).trueOf = ctx.trueOf := by
  funext f v
  rw [Judging.trueOf, Judging.trueOf, located_reorder]
  rfl

/-- The best verdict is the least ranked of all candidates, in any order. -/
theorem verdict_best_reorder (f : Finding) :
    ((ctx.reorder vulns h).best f).verdict = (ctx.best f).verdict := by
  refine Verdict.rank_injective ?_
  unfold Judging.best
  rw [rank_foldl_better, rank_foldl_better, located_reorder]
  refine ((inScope_reorder ctx h).filter _).foldl_eq' (fun v _ w _ n => ?_) _
  exact min_right_comm n _ _

theorem outOfCatalog_reorder (f : Finding) : (ctx.reorder vulns h).outOfCatalog f = ctx.outOfCatalog f := by
  have hcatalog : ∀ c, c ∈ catalogCwes (ctx.reorder vulns h).catalog ↔ c ∈ catalogCwes ctx.catalog := by
    intro c
    rw [catalogCwes, catalogCwes, List.mem_append, List.mem_append]
    exact or_congr Iff.rfl (h.flatMap_right _).mem_iff
  have hscoped : ∀ c, c ∈ (ctx.reorder vulns h).scopedCwes ↔ c ∈ ctx.scopedCwes :=
    fun c => ((inScope_reorder ctx h).flatMap_right _).mem_iff
  have hkind : (ctx.reorder vulns h).unscoreableKind f = ctx.unscoreableKind f := by
    simp only [Judging.unscoreableKind, hcatalog, hscoped]
  rw [Judging.outOfCatalog, Judging.outOfCatalog, verdict_best_reorder, hkind]

theorem rowAfter_nil (f : Finding) :
    rowAfter ctx [] f =
      match ctx.outOfCatalog f with
      | some kind => ctx.unscoreableRow f kind
      | none => ctx.scoredRow f := by
  unfold rowAfter
  cases ctx.outOfCatalog f with
  | some kind => rfl
  | none => cases ctx.claim f <;> rfl

/-- What a row says without naming a vulnerability is the same in any order. -/
theorem row_reorder (f : Finding) :
    (rowAfter (ctx.reorder vulns h) [] f).verdict = (rowAfter ctx [] f).verdict ∧
      (rowAfter (ctx.reorder vulns h) [] f).fpBasis = (rowAfter ctx [] f).fpBasis ∧
        (rowAfter (ctx.reorder vulns h) [] f).outOfCatalogKind = (rowAfter ctx [] f).outOfCatalogKind := by
  rw [rowAfter_nil, rowAfter_nil, outOfCatalog_reorder]
  cases ctx.outOfCatalog f with
  | some kind => exact ⟨rfl, rfl, rfl⟩
  | none =>
    have hbasis : ∀ app, fpBasis (ctx.reorder vulns h) f app = fpBasis ctx f app := fun _ => rfl
    refine ⟨verdict_best_reorder ctx h f, ?_, rfl⟩
    dsimp only [Judging.scoredRow]
    rw [verdict_best_reorder, appOf_reorder, hbasis]

/-- All that an order of the catalog can change in a summary is the number of true positives. -/
theorem summary_reorder (findings : List Finding)
    (htp : (classifyFindings (ctx.reorder vulns h) findings).truePositives =
      (classifyFindings ctx findings).truePositives) :
    (classifyFindings (ctx.reorder vulns h) findings).toSummary =
      (classifyFindings ctx findings).toSummary := by
  have hread : ∀ {p : Row → Bool},
      (∀ {ctx : Judging} claimed f, p (rowAfter ctx claimed f) = p (rowAfter ctx [] f)) →
        (∀ f, p (rowAfter (ctx.reorder vulns h) [] f) = p (rowAfter ctx [] f)) →
          (rowsFrom (ctx.reorder vulns h) [] findings).countP p =
            (rowsFrom ctx [] findings).countP p := by
    intro p hp hsame
    rw [countP_rowsFrom hp, countP_rowsFrom hp]
    simp only [hsame]
  rw [summary_report, summary_report] at htp ⊢
  refine summarise_congr ?_ htp (fun v hv hv' => hread (verdict_unclaimed hv hv') fun f => ?_)
    (hread confirmedFp_unclaimed fun f => ?_) fun kind => hread (kind_rowAfter kind) fun f => ?_
  · rw [length_rowsFrom, length_rowsFrom]
  · rw [(row_reorder ctx h f).1]
  · obtain ⟨hverdict, hbasis, -⟩ := row_reorder ctx h f
    rw [isConfirmedFp, isConfirmedFp, hverdict, hbasis]
  · rw [(row_reorder ctx h f).2.2]

end Reorder

/-! ## The true positives -/

theorem truePositives_eq_claims (ctx : Judging) (findings : List Finding) :
    (classifyFindings ctx findings).truePositives =
      claims Finding.tool ctx.trueOf ctx.catalog.vulns findings := by
  classical
  have hn : ctx.catalog.vulns.Nodup := ctx.catalog.ids_nodup.of_map
  set pairs := findings.filterMap fun f =>
    (ctx.catalog.vulns.find? (ctx.trueOf f)).map fun v => (f.tool, v) with hpairs
  have hkeys : findings.filterMap ctx.claim = pairs.map fun p => (p.1, p.2.id) := by
    rw [hpairs, List.map_filterMap]
    refine List.filterMap_congr fun f _ => ?_
    rw [claim_eq, Option.map_map]
    rfl
  have hset : (findings.filterMap ctx.claim).toFinset = pairs.toFinset.image fun p => (p.1, p.2.id) := by
    ext key
    rw [hkeys, List.mem_toFinset, List.mem_map, Finset.mem_image]
    simp only [List.mem_toFinset]
  have hcount : (classifyFindings ctx findings).truePositives =
      countVerdict (rowsFrom ctx [] findings) .truePositive := by
    rw [summary_report]
    rfl
  rw [hcount, truePositives_rowsFrom, claims_eq_card hn, hset, List.toFinset_nil, Finset.sdiff_empty,
    Finset.card_image_of_injOn]
  -- the pairs are of vulnerabilities of the catalog, whose ids are distinct
  intro p hp q hq hpq
  have hmem : ∀ p ∈ pairs, p.2 ∈ ctx.catalog.vulns := by
    intro p hp
    obtain ⟨f, -, hf⟩ := List.mem_filterMap.mp hp
    obtain ⟨v, hv, rfl⟩ := Option.map_eq_some_iff.mp hf
    exact List.mem_of_find?_eq_some hv
  rw [Prod.mk.injEq] at hpq
  refine Prod.ext hpq.1 (List.inj_on_of_nodup_map ctx.catalog.ids_nodup ?_ ?_ hpq.2)
  · exact hmem p (List.mem_toFinset.mp hp)
  · exact hmem q (List.mem_toFinset.mp hq)

/-- Whatever entries of the catalog come first: of the findings that are true positives for none of
them, as many tools have some for `v` but none without `w`, as have some for `w` but none without `v`. -/
def OrderFree (ctx : Judging) (findings : List Finding) : Prop :=
  ∀ (first rest : List PlantedVuln) (v w : PlantedVuln),
    (first ++ v :: w :: rest).Perm ctx.catalog.vulns →
      (onlyWith Finding.tool ctx.trueOf (left ctx.trueOf findings first) v w).card =
        (onlyWith Finding.tool ctx.trueOf (left ctx.trueOf findings first) w v).card

/-- The counts and precisions are the same in every order of the catalog exactly if it is free of
such an imbalance. -/
theorem catalog_order_iff (ctx : Judging) (findings : List Finding) :
    (∀ (vulns : List PlantedVuln) (h : vulns.Perm ctx.catalog.vulns),
      (classifyFindings (ctx.reorder vulns h) findings).toSummary =
        (classifyFindings ctx findings).toSummary) ↔ OrderFree ctx findings := by
  have htp : ∀ (vulns : List PlantedVuln) (h : vulns.Perm ctx.catalog.vulns),
      (classifyFindings (ctx.reorder vulns h) findings).truePositives =
        claims Finding.tool ctx.trueOf vulns findings := by
    intro vulns h
    rw [truePositives_eq_claims, trueOf_reorder]
    rfl
  unfold OrderFree
  rw [← forall_perm_claims_iff]
  constructor
  · intro hsame vulns h
    rw [← htp vulns h, hsame vulns h, truePositives_eq_claims]
  · intro hclaims vulns h
    refine summary_reorder ctx h findings ?_
    rw [htp vulns h, hclaims vulns h, truePositives_eq_claims]

omit [Runtime] in
/-- Two flaws on one endpoint: a finding that names the parameter of the first is true of it alone, one
that names none is true of both.  With the first flaw first in the catalog the tool is credited with
one flaw and a duplicate, with the other first it is credited with two. -/
theorem catalog_order_matters :
    let _ := Runtime.ascii
    let findings := [searchFinding (some "q") [79], searchFinding none [79]]
    let swapped := searchSite.reorder [searchVuln "XSS-2" "lang", searchVuln "XSS-1" "q"]
      (List.Perm.swap _ _ _)
    let r := classifyFindings searchSite findings
    let r' := classifyFindings swapped findings
    (r.truePositives, r.duplicates) = (1, 1) ∧ (r'.truePositives, r'.duplicates) = (2, 0) := by
  decide

end PtaasBench.Benchctl
