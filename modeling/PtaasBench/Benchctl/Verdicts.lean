import Mathlib.Algebra.Order.Field.Basic
import Mathlib.Algebra.Order.Field.Rat
import Mathlib.Tactic.Positivity
import PtaasBench.Lib.Fold
import PtaasBench.Benchctl.Findings

/-!
# PtaasBench.Benchctl.Verdicts — what the findings report counts

`rowsFrom` is the loop of `classify_findings` as a recursion over the findings.  A finding is judged
by itself; only whether a true positive is the first of its claim depends on what came before, and
the number of first claims is the number of distinct ones.
-/

namespace PtaasBench.Benchctl

open Py Lib List

/-- Every row has one of the verdicts. -/
theorem length_eq_counts (rows : List Row) :
    rows.length = countVerdict rows .truePositive + countVerdict rows .falsePositive +
      countVerdict rows .duplicate + countVerdict rows .outOfCatalog +
        (Verdict.ambiguous.map (countVerdict rows)).sum := by
  induction rows with
  | nil => rfl
  | cons r rows ih =>
    simp only [Verdict.ambiguous, map_cons, map_nil, sum_cons, sum_nil] at ih ⊢
    simp only [countVerdict, length_cons, countP_cons] at ih ⊢
    cases hr : r.verdict <;> simp <;> omega

section Best

variable [Runtime] (ctx : Judging) (f : Finding)

/-- A candidate is judged by what it is, never as a repetition or out of catalog. -/
theorem judge_cases (v : PlantedVuln) :
    (judge ctx.catalog f v).1 ∈
      [Verdict.truePositive, .paramMismatch, .classMismatch, .classUnknown] := by
  unfold judge
  dsimp only
  split_ifs <;> simp

/-- Either no candidate is matched, or the best verdict is a judgement of the matched one. -/
theorem best_cases :
    ((ctx.best f).verdict = .falsePositive ∧ (ctx.best f).matched = none) ∨
      ∃ v, (ctx.best f).matched = some v ∧ (ctx.best f).verdict = (judge ctx.catalog f v).1 := by
  unfold Judging.best
  refine foldl_invariant (P := fun b : Best => (b.verdict = .falsePositive ∧ b.matched = none) ∨
    ∃ v, b.matched = some v ∧ b.verdict = (judge ctx.catalog f v).1) ?_ _ (Or.inl ⟨rfl, rfl⟩)
  intro b v hb
  unfold Judging.better
  dsimp only
  split_ifs
  · exact Or.inr ⟨v, rfl, rfl⟩
  · exact hb

theorem best_verdict_ne : (ctx.best f).verdict ≠ .duplicate ∧ (ctx.best f).verdict ≠ .outOfCatalog := by
  rcases best_cases ctx f with ⟨hv, -⟩ | ⟨v, -, hv⟩
  · rw [hv]
    decide
  · have hj := judge_cases ctx f v
    rw [hv]
    constructor
    · intro h
      rw [h] at hj
      exact absurd hj (by decide)
    · intro h
      rw [h] at hj
      exact absurd hj (by decide)

/-- A true positive claims the vulnerability it matches. -/
theorem claim_isSome_iff : (ctx.claim f).isSome = true ↔ (ctx.best f).verdict = .truePositive := by
  unfold Judging.claim
  by_cases h : (ctx.best f).verdict = .truePositive
  · rw [if_pos h]
    rcases best_cases ctx f with ⟨hv, -⟩ | ⟨v, hm, -⟩
    · rw [h] at hv
      exact absurd hv (by decide)
    · rw [hm]
      simp [h]
  · rw [if_neg h]
    simp [h]

theorem verdict_of_claim {key : Option String × String} (h : ctx.claim f = some key) :
    (ctx.best f).verdict = .truePositive := by
  rw [← claim_isSome_iff, h]
  rfl

theorem claim_tool {key : Option String × String} (h : ctx.claim f = some key) : key.1 = f.tool := by
  unfold Judging.claim at h
  split_ifs at h
  obtain ⟨v, -, rfl⟩ := Option.map_eq_some_iff.mp h
  rfl

theorem matchedVuln_scoredRow {key : Option String × String} (h : ctx.claim f = some key) :
    (ctx.scoredRow f).matchedVuln = some key.2 := by
  unfold Judging.claim at h
  split_ifs at h
  obtain ⟨v, hv, rfl⟩ := Option.map_eq_some_iff.mp h
  show (ctx.best f).matched.map _ = _
  rw [hv]
  rfl

theorem outOfCatalog_of_claim {key : Option String × String} (h : ctx.claim f = some key) :
    ctx.outOfCatalog f = none := by
  rw [Judging.outOfCatalog, if_pos (verdict_of_claim ctx f h)]

/-- What a finding is judged before duplicates are looked for. -/
def judged : Verdict := if (ctx.outOfCatalog f).isSome then .outOfCatalog else (ctx.best f).verdict

theorem judged_eq_truePositive_iff : judged ctx f = .truePositive ↔ (ctx.claim f).isSome = true := by
  rw [claim_isSome_iff]
  unfold judged
  by_cases h : (ctx.best f).verdict = .truePositive
  · rw [Judging.outOfCatalog, if_pos h]
    simp [h]
  · split_ifs <;> simp [h]

theorem judged_of_claim {key : Option String × String} (h : ctx.claim f = some key) :
    judged ctx f = .truePositive := by
  rw [judged_eq_truePositive_iff, h]
  rfl

theorem judged_of_none (h : ctx.claim f = none) : judged ctx f ≠ .truePositive := by
  rw [Ne, judged_eq_truePositive_iff, h]
  simp

end Best

/-! ## The loop -/

section Loop

variable [Runtime] (ctx : Judging)

/-- The row of a finding, when some keys are claimed. -/
def rowAfter (claimed : List (Option String × String)) (f : Finding) : Row :=
  match ctx.outOfCatalog f with
  | some kind => ctx.unscoreableRow f kind
  | none =>
    match ctx.claim f with
    | none => ctx.scoredRow f
    | some key =>
      if key ∈ claimed then
        { ctx.scoredRow f with verdict := .duplicate, reason := "already reported as " ++ key.2 }
      else ctx.scoredRow f

/-- What is claimed after a finding. -/
def claimedAfter (claimed : List (Option String × String)) (f : Finding) :
    List (Option String × String) :=
  match ctx.claim f with
  | none => claimed
  | some key => if key ∈ claimed then claimed else claimed ++ [key]

def rowsFrom : List (Option String × String) → List Finding → List Row
  | _, [] => []
  | claimed, f :: findings => rowAfter ctx claimed f :: rowsFrom (claimedAfter ctx claimed f) findings

theorem rows_classifyOne (st : Progress) (f : Finding) :
    (ctx.classifyOne st f).rows = st.rows ++ [rowAfter ctx st.claimed f] ∧
      (ctx.classifyOne st f).claimed = claimedAfter ctx st.claimed f := by
  unfold Judging.classifyOne rowAfter claimedAfter
  cases hclaim : ctx.claim f with
  | some key =>
    rw [outOfCatalog_of_claim ctx f hclaim]
    dsimp only
    split_ifs <;> exact ⟨rfl, rfl⟩
  | none => cases ctx.outOfCatalog f <;> exact ⟨rfl, rfl⟩

theorem rows_foldl (st : Progress) (findings : List Finding) :
    (findings.foldl ctx.classifyOne st).rows = st.rows ++ rowsFrom ctx st.claimed findings := by
  induction findings generalizing st with
  | nil => simp [rowsFrom]
  | cons f findings ih =>
    obtain ⟨hrows, hclaimed⟩ := rows_classifyOne ctx st f
    rw [foldl_cons, ih, hrows, hclaimed, rowsFrom, append_assoc]
    rfl

theorem rows_classify (findings : List Finding) :
    (ctx.classify findings).rows = rowsFrom ctx [] findings := by
  rw [Judging.classify, rows_foldl]
  rfl

variable {ctx}

theorem mem_claimedAfter {claimed : List (Option String × String)} {f : Finding}
    {key : Option String × String} :
    key ∈ claimedAfter ctx claimed f ↔ key ∈ claimed ∨ ctx.claim f = some key := by
  unfold claimedAfter
  cases ctx.claim f with
  | none => simp
  | some k =>
    dsimp only
    split_ifs with hk
    · refine ⟨Or.inl, fun h => h.elim id fun h => ?_⟩
      rw [← Option.some.inj h]
      exact hk
    · rw [mem_append, mem_singleton, Option.some.injEq, eq_comm]

theorem rowAfter_of_claim {claimed : List (Option String × String)} {f : Finding}
    {key : Option String × String} (h : ctx.claim f = some key) :
    rowAfter ctx claimed f = if key ∈ claimed then
      { ctx.scoredRow f with verdict := .duplicate, reason := "already reported as " ++ key.2 }
      else ctx.scoredRow f := by
  rw [rowAfter, outOfCatalog_of_claim ctx f h, h]

/-- A finding that claims nothing has its row by itself. -/
theorem rowAfter_of_none {f : Finding} (h : ctx.claim f = none)
    (claimed claimed' : List (Option String × String)) :
    rowAfter ctx claimed f = rowAfter ctx claimed' f := by
  rw [rowAfter, rowAfter, h]

theorem finding_rowAfter (claimed : List (Option String × String)) (f : Finding) :
    (rowAfter ctx claimed f).finding = f := by
  unfold rowAfter
  cases ctx.outOfCatalog f with
  | some kind => rfl
  | none =>
    cases ctx.claim f with
    | none => rfl
    | some key =>
      dsimp only
      split_ifs <;> rfl

theorem map_finding_rowsFrom (claimed : List (Option String × String)) (findings : List Finding) :
    (rowsFrom ctx claimed findings).map Row.finding = findings := by
  induction findings generalizing claimed with
  | nil => rfl
  | cons f findings ih => rw [rowsFrom, map_cons, finding_rowAfter, ih]

/-- The verdict of a row is the judgement of its finding, unless this was claimed before. -/
theorem verdict_rowAfter (claimed : List (Option String × String)) (f : Finding) :
    (rowAfter ctx claimed f).verdict =
      if (ctx.claim f).any (· ∈ claimed) then .duplicate else judged ctx f := by
  cases hclaim : ctx.claim f with
  | some key =>
    rw [rowAfter_of_claim hclaim, judged_of_claim ctx f hclaim]
    simp only [Option.any_some, decide_eq_true_eq]
    split_ifs
    · rfl
    · exact verdict_of_claim ctx f hclaim
  | none =>
    rw [rowAfter, hclaim, judged]
    cases ctx.outOfCatalog f <;> rfl

/-! ## Counting the rows -/

/-- What is read off the rows without looking at claims is counted over the findings. -/
theorem countP_rowsFrom {p : Row → Bool}
    (h : ∀ claimed f, p (rowAfter ctx claimed f) = p (rowAfter ctx [] f))
    (claimed : List (Option String × String)) (findings : List Finding) :
    (rowsFrom ctx claimed findings).countP p = findings.countP fun f => p (rowAfter ctx [] f) := by
  induction findings generalizing claimed with
  | nil => rfl
  | cons f findings ih => rw [rowsFrom, countP_cons, countP_cons, ih, h claimed f]

theorem length_rowsFrom (claimed : List (Option String × String)) (findings : List Finding) :
    (rowsFrom ctx claimed findings).length = findings.length := by
  have h := congrArg List.length (@map_finding_rowsFrom _ ctx claimed findings)
  rwa [length_map] at h

/-- A property no true positive and no duplicate has does not depend on what is claimed. -/
theorem unclaimed_of_verdict {p : Row → Bool}
    (h : ∀ r, r.verdict = .truePositive ∨ r.verdict = .duplicate → p r = false)
    (claimed : List (Option String × String)) (f : Finding) :
    p (rowAfter ctx claimed f) = p (rowAfter ctx [] f) := by
  cases hclaim : ctx.claim f with
  | none => rw [rowAfter_of_none hclaim claimed []]
  | some key =>
    have hboth : ∀ claimed, (rowAfter ctx claimed f).verdict = .truePositive ∨
        (rowAfter ctx claimed f).verdict = .duplicate := by
      intro claimed
      rw [verdict_rowAfter, judged_of_claim ctx f hclaim]
      split_ifs
      · exact Or.inr rfl
      · exact Or.inl rfl
    rw [h _ (hboth claimed), h _ (hboth [])]

theorem verdict_unclaimed {v : Verdict} (hv : v ≠ .truePositive) (hv' : v ≠ .duplicate)
    (claimed : List (Option String × String)) (f : Finding) :
    decide ((rowAfter ctx claimed f).verdict = v) = decide ((rowAfter ctx [] f).verdict = v) := by
  refine unclaimed_of_verdict (p := fun r => decide (r.verdict = v)) (fun r hr => ?_) claimed f
  rcases hr with hr | hr
  · rw [hr]
    exact decide_eq_false hv.symm
  · rw [hr]
    exact decide_eq_false hv'.symm

theorem confirmedFp_unclaimed (claimed : List (Option String × String)) (f : Finding) :
    isConfirmedFp (rowAfter ctx claimed f) = isConfirmedFp (rowAfter ctx [] f) := by
  refine unclaimed_of_verdict (fun r hr => ?_) claimed f
  rcases hr with hr | hr
  · rw [isConfirmedFp, hr]
    rfl
  · rw [isConfirmedFp, hr]
    rfl

theorem kind_rowAfter (kind : Unscoreable) (claimed : List (Option String × String)) (f : Finding) :
    decide ((rowAfter ctx claimed f).outOfCatalogKind = some kind) =
      decide ((rowAfter ctx [] f).outOfCatalogKind = some kind) := by
  cases hclaim : ctx.claim f with
  | none => rw [rowAfter_of_none hclaim claimed []]
  | some key =>
    rw [rowAfter_of_claim hclaim, rowAfter_of_claim hclaim]
    split_ifs <;> rfl

/-- The true positives are the distinct claims that were not made before. -/
theorem truePositives_rowsFrom (claimed : List (Option String × String)) (findings : List Finding) :
    countVerdict (rowsFrom ctx claimed findings) .truePositive =
      ((findings.filterMap ctx.claim).toFinset \ claimed.toFinset).card := by
  induction findings generalizing claimed with
  | nil => simp [rowsFrom, countVerdict]
  | cons f findings ih =>
    have hcons : countVerdict (rowsFrom ctx claimed (f :: findings)) .truePositive =
        countVerdict (rowsFrom ctx (claimedAfter ctx claimed f) findings) .truePositive +
          if (rowAfter ctx claimed f).verdict = .truePositive then 1 else 0 := by
      simp only [rowsFrom, countVerdict, countP_cons, decide_eq_true_eq]
    rw [hcons, ih, verdict_rowAfter]
    cases hclaim : ctx.claim f with
    | none =>
      have hjudged := judged_of_none ctx f hclaim
      rw [filterMap_cons_none hclaim, claimedAfter, hclaim]
      simp [hjudged]
    | some key =>
      have hjudged := judged_of_claim ctx f hclaim
      rw [filterMap_cons_some hclaim, claimedAfter, hclaim, hjudged, toFinset_cons]
      simp only [Option.any_some, decide_eq_true_eq]
      by_cases hkey : key ∈ claimed
      · rw [if_pos hkey, if_pos hkey, if_neg (by decide),
          Finset.insert_sdiff_of_mem _ (mem_toFinset.mpr hkey), Nat.add_zero]
      · have hnew : key ∉ claimed.toFinset := fun h => hkey (mem_toFinset.mp h)
        have hset : insert key (findings.filterMap ctx.claim).toFinset \ claimed.toFinset =
            insert key ((findings.filterMap ctx.claim).toFinset \ (claimed ++ [key]).toFinset) := by
          ext k
          simp only [Finset.mem_sdiff, Finset.mem_insert, mem_toFinset, mem_append,
            mem_singleton, not_or]
          by_cases hk : k = key
          · simp [hk, hkey]
          · simp [hk]
        rw [if_neg hkey, if_neg hkey, if_pos rfl, hset, Finset.card_insert_of_notMem (by simp)]

end Loop

end PtaasBench.Benchctl
