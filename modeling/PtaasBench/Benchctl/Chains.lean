import Mathlib.Algebra.Order.BigOperators.Group.List
import PtaasBench.Benchctl.Funnel
import PtaasBench.Lib.StackWalk

/-!
# PtaasBench.Benchctl.Chains — chain depth, prerequisites and completed chains

`prereq_depth` and `transitive_prereqs` stop by what they have seen, not by their input getting shorter.  `Depth` and
`Walk` are their evaluations, without a bound; each has one on every catalog.
-/

namespace PtaasBench.Benchctl

open Py Lib List

namespace Catalog

variable (c : Catalog)

/-- The prerequisites the entry of an id names. -/
def next (id : String) : List String := ((c.byId.get? id).map Vuln.requiresPrereq).getD []

/-- One prerequisite step, to a known id or a dangling one. -/
def Requires (x y : String) : Prop := y ∈ c.next x

/-- One prerequisite step to an id of the catalog. -/
def RequiresKnown (x y : String) : Prop := c.Requires x y ∧ c.byId.contains y = true

def Acyclic : Prop := ∀ x, ¬ Relation.TransGen c.Requires x x

/-- The evaluation of `prereq_depth` from these seen ids. -/
inductive Depth : List String → String → ℕ → Prop
  | unknown {seen : List String} {id : String} : c.byId.get? id = none → Depth seen id 0
  | stop {seen : List String} {id : String} {v : Vuln} : c.byId.get? id = some v →
      v.requiresPrereq = [] ∨ id ∈ seen → Depth seen id 0
  | go {seen : List String} {id : String} {v : Vuln} (depth : String → ℕ) : c.byId.get? id = some v →
      ¬ (v.requiresPrereq = [] ∨ id ∈ seen) →
      (∀ p ∈ v.requiresPrereq.filter (c.byId.contains ·), Depth (id :: seen) p (depth p)) →
      Depth seen id (((v.requiresPrereq.filter (c.byId.contains ·)).map fun p => 1 + depth p).foldl max 0)

variable {c}

theorem mem_of_byId {id : String} {v : Vuln} (h : c.byId.get? id = some v) : v ∈ c.vulns ∧ v.id = id := by
  obtain ⟨w, hw, heq⟩ := mem_map.mp (Dict.mem_of_get?_ofList h)
  obtain ⟨hid, rfl⟩ := Prod.mk.inj heq
  exact ⟨hw, hid⟩

theorem byId_of_mem {v : Vuln} (hv : v ∈ c.vulns) : c.byId.get? v.id = some v := by
  refine Dict.get?_ofList_of_mem ?_ (mem_map_of_mem (f := fun v : Vuln => (v.id, v)) hv)
  rw [map_map]
  exact c.ids_nodup

theorem next_of_byId {id : String} {v : Vuln} (h : c.byId.get? id = some v) : c.next id = v.requiresPrereq := by
  rw [next, h]
  rfl

theorem next_of_unknown {id : String} (h : c.byId.get? id = none) : c.next id = [] := by
  rw [next, h]
  rfl

/-! ## Depth -/

section Seen

variable {seen : List String} {id : String} {fuel : ℕ}

/-- The seen ids are different entries of the catalog. -/
structure Seen (c : Catalog) (seen : List String) : Prop where
  nodup : seen.Nodup
  known : ∀ x ∈ seen, x ∈ c.vulns.map Vuln.id

theorem Seen.length_le (h : Seen c seen) : seen.length ≤ c.vulns.length := by
  have := (h.nodup.subperm h.known).length_le
  rwa [length_map] at this

theorem Seen.cons (h : Seen c seen) {v : Vuln} (hv : c.byId.get? id = some v) (hid : id ∉ seen) :
    Seen c (id :: seen) := by
  refine ⟨nodup_cons.mpr ⟨hid, h.nodup⟩, fun x hx => ?_⟩
  rcases mem_cons.mp hx with rfl | hx
  · obtain ⟨hmem, rfl⟩ := mem_of_byId hv
    exact mem_map_of_mem hmem
  · exact h.known x hx

theorem depth_prereqDepthAux (h : Seen c seen) (hfuel : c.vulns.length < fuel + seen.length) :
    c.Depth seen id (c.prereqDepthAux fuel seen id) := by
  induction fuel generalizing seen id with
  | zero =>
    have := h.length_le
    omega
  | succ fuel ih =>
    rw [prereqDepthAux]
    cases hget : c.byId.get? id with
    | none => exact .unknown hget
    | some v =>
      dsimp only
      split_ifs with hstop
      · exact .stop hget hstop
      · refine .go _ hget hstop fun p _ => ih (h.cons hget fun hid => hstop (Or.inr hid)) ?_
        rw [length_cons]
        omega

/-- On every catalog the recursion comes to an end, with `prereqDepth`. -/
theorem depth_prereqDepth (c : Catalog) (id : String) : c.Depth [] id (c.prereqDepth id) :=
  depth_prereqDepthAux ⟨nodup_nil, fun _ hx => absurd hx not_mem_nil⟩ (Nat.lt_succ_self _)

/-- Where no id requires itself, what is seen on the way cuts nothing off. -/
theorem isGreatest_of_depth (hacyclic : c.Acyclic) {n : ℕ} (h : c.Depth seen id n)
    (hseen : ∀ x ∈ seen, Relation.TransGen c.Requires x id) : IsGreatest {n | Climbs c.RequiresKnown n id} n := by
  induction h with
  | unknown hget =>
    refine isGreatest_climbs_zero fun y hy => ?_
    rw [RequiresKnown, Requires, next_of_unknown hget] at hy
    exact absurd hy.1 not_mem_nil
  | @stop seen id v hget hstop =>
    rcases hstop with hnone | hid
    · refine isGreatest_climbs_zero fun y hy => ?_
      rw [RequiresKnown, Requires, next_of_byId hget, hnone] at hy
      exact absurd hy.1 not_mem_nil
    · exact absurd (hseen id hid) (hacyclic id)
  | @go seen id v depth hget hstop _ ih =>
    refine isGreatest_climbs_of_next (fun y => ?_) fun p hp => ih p hp fun x hx => ?_
    · rw [RequiresKnown, Requires, next_of_byId hget, mem_filter]
    · have hstep : c.Requires id p := by
        rw [Requires, next_of_byId hget]
        exact mem_of_mem_filter hp
      rcases mem_cons.mp hx with rfl | hx
      · exact .single hstep
      · exact (hseen x hx).tail hstep

end Seen

/-! ## Transitive prerequisites -/

section Stack

/-- What the entries not yet found can still put on the stack. -/
def left (c : Catalog) (out : List String) : ℕ :=
  (c.vulns.map fun v => if v.id ∈ out then 0 else v.requiresPrereq.length).sum

theorem left_nil (c : Catalog) : c.left [] = (c.vulns.map (·.requiresPrereq.length)).sum := by
  simp [left]

theorem left_concat_le (c : Catalog) (out : List String) (x : String) : c.left (out ++ [x]) ≤ c.left out := by
  refine sum_le_sum fun v _ => ?_
  by_cases hv : v.id ∈ out
  · rw [if_pos hv, if_pos (mem_append_left _ hv)]
  · rw [if_neg hv]
    split_ifs <;> omega

theorem left_concat {out : List String} {x : String} {v : Vuln} (hget : c.byId.get? x = some v) (hx : x ∉ out) :
    c.left (out ++ [x]) + v.requiresPrereq.length ≤ c.left out := by
  have hsplit : c.left out = c.left (out ++ [x]) +
      (c.vulns.map fun w => if w.id = x then w.requiresPrereq.length else 0).sum := by
    rw [left, left, ← sum_map_add]
    congr 1
    refine map_congr_left fun w _ => ?_
    by_cases hw : w.id = x
    · rw [if_neg (by rwa [hw]), if_pos (by simp [hw]), if_pos hw, Nat.zero_add]
    · rw [if_neg hw, Nat.add_zero]
      by_cases ho : w.id ∈ out <;> simp [ho, hw]
  obtain ⟨hv, hid⟩ := mem_of_byId hget
  have hle := single_le_sum (fun n _ => Nat.zero_le n) _ (mem_map_of_mem
    (f := fun w : Vuln => if w.id = x then w.requiresPrereq.length else 0) hv)
  rw [if_pos hid] at hle
  omega

theorem walk_transitiveAux {fuel : ℕ} {stack out : List String} (h : stack.length + c.left out < fuel) :
    Walk c.next stack out (c.transitiveAux fuel stack out) := by
  induction fuel generalizing stack out with
  | zero => omega
  | succ fuel ih =>
    cases stack with
    | nil =>
      rw [transitiveAux]
      · exact .done out
      · exact Nat.succ_ne_zero fuel
    | cons x stack =>
      rw [length_cons] at h
      rw [transitiveAux]
      split_ifs with hx
      · exact .again hx (ih (by omega))
      · refine .new hx ?_
        cases hget : c.byId.get? x with
        | none =>
          have := left_concat_le c out x
          rw [next_of_unknown hget, reverse_nil, nil_append]
          exact ih (by omega)
        | some v =>
          have := left_concat hget hx
          rw [next_of_byId hget]
          refine ih ?_
          rw [length_append, length_reverse]
          omega

/-- On every catalog the loop comes to an end, and `transitivePrereqs` is what it has found, sorted. -/
theorem walk_transitivePrereqs (c : Catalog) (id : String) : ∃ found, Walk c.next (c.next id).reverse [] found ∧
    c.transitivePrereqs id = found.insertionSort (· ≤ ·) := by
  rw [transitivePrereqs]
  cases hget : c.byId.get? id with
  | none =>
    refine ⟨[], ?_, rfl⟩
    rw [next_of_unknown hget]
    exact .done []
  | some v =>
    refine ⟨_, ?_, rfl⟩
    rw [next_of_byId hget]
    refine walk_transitiveAux ?_
    rw [left_nil, length_reverse]
    omega

theorem mem_transitivePrereqs (c : Catalog) (id p : String) :
    p ∈ c.transitivePrereqs id ↔ Relation.TransGen c.Requires id p := by
  obtain ⟨found, hwalk, heq⟩ := walk_transitivePrereqs c id
  rw [heq, mem_insertionSort, hwalk.mem_iff]
  rfl

end Stack

end Catalog

/-! ## Completed chains -/

section Completed

variable [Runtime] (s : Setting) (stream : EventStream)

theorem get?_outcomes_scoreRun {v : Vuln} (hv : v ∈ (scoreRun s stream).inScope) :
    (scoreRun s stream).outcomes.get? v.id = some (outcomeOf (scoreRun s stream).outcomes v) := by
  rw [outcomeOf_scoreRun s stream hv]
  refine Dict.get?_ofList_of_mem ?_ (mem_map_of_mem (f := fun v => (v.id, scoreVuln v
    (EventStream.scored stream) (attributedTo (attributions (EventStream.scored stream) s.catalog s.addresses) v.id)))
    hv)
  rw [map_map]
  exact s.catalog.ids_nodup.sublist (filter_sublist.map _)

/-- The in-scope vulnerability was triggered. -/
def TriggeredIn (v : Vuln) : Prop := (outcomeOf (scoreRun s stream).outcomes v).trigger = true

theorem any_outcome_iff (p : String) : ((scoreRun s stream).outcomes.get? p).any (!·.trigger) = true ↔
    ∃ w ∈ (scoreRun s stream).inScope, w.id = p ∧ ¬ TriggeredIn s stream w := by
  constructor
  · intro h
    obtain ⟨o, ho, htrigger⟩ := (Option.any_eq_true _ _).mp h
    obtain ⟨w, hw, heq⟩ := mem_map.mp (Dict.mem_of_get?_ofList ho)
    obtain ⟨rfl, -⟩ := Prod.mk.inj heq
    rw [get?_outcomes_scoreRun s stream hw, Option.some.injEq] at ho
    rw [← ho, Bool.not_eq_true'] at htrigger
    exact ⟨w, hw, rfl, Bool.eq_false_iff.mp htrigger⟩
  · rintro ⟨w, hw, rfl, htrigger⟩
    rw [get?_outcomes_scoreRun s stream hw, Option.any_some, Bool.not_eq_true']
    exact Bool.eq_false_iff.mpr htrigger

open Classical in
theorem chainsCompleted_scoreRun : (scoreRun s stream).chains.chainsCompleted =
    (scoreRun s stream).inScope.countP fun v => decide (v.requiresPrereq ≠ [] ∧ TriggeredIn s stream v ∧
      ∀ w ∈ (scoreRun s stream).inScope, Relation.TransGen s.catalog.Requires v.id w.id →
        TriggeredIn s stream w) := by
  show List.countP _ (List.filter _ (scoreRun s stream).inScope) = _
  rw [countP_filter]
  refine countP_congr fun v hv => ?_
  rw [Bool.and_eq_true, Bool.and_eq_true, decide_eq_true_iff, decide_eq_true_iff, decide_eq_true_iff,
    filter_eq_nil_iff]
  constructor
  · rintro ⟨hnone, hchained, htrigger⟩
    refine ⟨hchained, htrigger, fun w hw hreach => ?_⟩
    by_contra hw'
    exact hnone w.id ((Catalog.mem_transitivePrereqs _ _ _).mpr hreach)
      ((any_outcome_iff s stream w.id).mpr ⟨w, hw, rfl, hw'⟩)
  · rintro ⟨hchained, htrigger, hall⟩
    refine ⟨fun p hp hany => ?_, hchained, htrigger⟩
    obtain ⟨w, hw, rfl, hw'⟩ := (any_outcome_iff s stream p).mp hany
    exact hw' (hall w hw ((Catalog.mem_transitivePrereqs _ _ _).mp hp))

end Completed

open Classical in
/-- Depth is the longest chain on an acyclic catalog; on every catalog both walks end, the second with what is
reached; and a chain is completed where it and all it reaches in scope was triggered. -/
theorem chains_right [Runtime] (c : Catalog) :
    (c.Acyclic → ∀ id, IsGreatest {n | Climbs c.RequiresKnown n id} (c.prereqDepth id)) ∧
    (∀ id, c.Depth [] id (c.prereqDepth id)) ∧
    (∀ id, (∃ found, Walk c.next (c.next id).reverse [] found ∧
        c.transitivePrereqs id = found.insertionSort (· ≤ ·)) ∧
      ∀ p, p ∈ c.transitivePrereqs id ↔ Relation.TransGen c.Requires id p) ∧
    ∀ (s : Setting) (stream : EventStream), s.catalog = c → (scoreRun s stream).chains.chainsCompleted =
      (scoreRun s stream).inScope.countP fun v => decide (v.requiresPrereq ≠ [] ∧ TriggeredIn s stream v ∧
        ∀ w ∈ (scoreRun s stream).inScope, Relation.TransGen c.Requires v.id w.id → TriggeredIn s stream w) := by
  refine ⟨fun hacyclic id => ?_, c.depth_prereqDepth, fun id => ⟨c.walk_transitivePrereqs id,
    c.mem_transitivePrereqs id⟩, ?_⟩
  · exact Catalog.isGreatest_of_depth hacyclic (c.depth_prereqDepth id) fun x hx => absurd hx not_mem_nil
  · rintro s stream rfl
    exact chainsCompleted_scoreRun s stream

/-! ## A diamond -/

/-- One flaw with two prerequisites, which share theirs; that one names an id nobody has. -/
def diamond : Catalog where
  vulns := [{ id := "a", app := "shop", entrypoint := ⟨"GET", "/", "none", none, "query", none⟩
              oracle := ⟨"signal", none, none⟩, requiresPrereq := ["b", "c"] },
    { id := "b", app := "shop", entrypoint := ⟨"GET", "/", "none", none, "query", none⟩
      oracle := ⟨"signal", none, none⟩, requiresPrereq := ["d"] },
    { id := "c", app := "shop", entrypoint := ⟨"GET", "/", "none", none, "query", none⟩
      oracle := ⟨"signal", none, none⟩, requiresPrereq := ["d", "b"] },
    { id := "d", app := "shop", entrypoint := ⟨"GET", "/", "none", none, "query", none⟩
      oracle := ⟨"signal", none, none⟩, requiresPrereq := ["e"] }]
  ids_nodup := by decide

theorem diamond_acyclic : diamond.Acyclic := by
  let height : String → ℕ := fun x => ["e", "d", "b", "c", "a"].idxOf x
  have hfalls : ∀ v ∈ diamond.vulns, ∀ y ∈ v.requiresPrereq, height y < height v.id := by decide
  have hstep : ∀ x y, diamond.Requires x y → height y < height x := by
    intro x y hxy
    cases hget : diamond.byId.get? x with
    | none =>
      rw [Catalog.Requires, Catalog.next_of_unknown hget] at hxy
      exact absurd hxy not_mem_nil
    | some v =>
      rw [Catalog.Requires, Catalog.next_of_byId hget] at hxy
      obtain ⟨hv, rfl⟩ := Catalog.mem_of_byId hget
      exact hfalls v hv y hxy
  intro x h
  have hreach : ∀ y, Relation.TransGen diamond.Requires x y → height y < height x := by
    intro y hy
    induction hy with
    | single hy => exact hstep _ _ hy
    | tail _ hy ih => exact (hstep _ _ hy).trans ih
  exact absurd (hreach x h) (Nat.lt_irrefl _)

/-- The longest chain goes through both prerequisites. -/
theorem diamond_depth : IsGreatest {n | Climbs diamond.RequiresKnown n "a"} 3 ∧
    ∀ p, p ∈ diamond.transitivePrereqs "a" ↔ Relation.TransGen diamond.Requires "a" p := by
  obtain ⟨hdepth, -, hprereqs, -⟩ := @chains_right Runtime.ascii diamond
  exact ⟨hdepth diamond_acyclic "a", (hprereqs "a").2⟩

end PtaasBench.Benchctl
