import Mathlib.Data.List.Nodup
import Mathlib.Logic.Relation
import Mathlib.Order.Bounds.Basic
import Mathlib.Order.MinMax

/-!
# PtaasBench.Lib.StackWalk — longest chains, and what a walk with a stack finds

A chain goes up along a relation; the greatest length of one from a node is one more than that of the best of its
successors.  A walk takes a node from its stack, passes it by when it has it already, and else keeps it and puts its
successors on the stack.  Where it ends it has what is reached by one step or more.
-/

namespace PtaasBench.Lib

open List

variable {α : Type*}

/-! ## Chains -/

section Chains

variable (R : α → α → Prop)

/-- A chain of so many steps starts here. -/
inductive Climbs : ℕ → α → Prop
  | here (x : α) : Climbs 0 x
  | up {n : ℕ} {x y : α} : R x y → Climbs n y → Climbs (n + 1) x

variable {R}

theorem climbs_succ_iff {n : ℕ} {x : α} : Climbs R (n + 1) x ↔ ∃ y, R x y ∧ Climbs R n y := by
  constructor
  · intro h
    cases h with
    | up hxy hy => exact ⟨_, hxy, hy⟩
  · rintro ⟨y, hxy, hy⟩
    exact .up hxy hy

theorem isGreatest_climbs_zero {x : α} (h : ∀ y, ¬ R x y) : IsGreatest {n | Climbs R n x} 0 := by
  refine ⟨.here x, fun n hn => ?_⟩
  cases n with
  | zero => exact le_rfl
  | succ n =>
    obtain ⟨y, hxy, -⟩ := climbs_succ_iff.mp hn
    exact absurd hxy (h y)

theorem le_foldl_max (ns : List ℕ) (b : ℕ) : b ≤ ns.foldl max b ∧ ∀ n ∈ ns, n ≤ ns.foldl max b := by
  induction ns generalizing b with
  | nil => simp
  | cons a ns ih =>
    obtain ⟨hb, hns⟩ := ih (max b a)
    refine ⟨(le_max_left b a).trans hb, fun n hn => ?_⟩
    rcases mem_cons.mp hn with rfl | hn
    · exact (le_max_right b n).trans hb
    · exact hns n hn

theorem foldl_max_mem (ns : List ℕ) (b : ℕ) : ns.foldl max b = b ∨ ns.foldl max b ∈ ns := by
  induction ns generalizing b with
  | nil => exact Or.inl rfl
  | cons a ns ih =>
    rw [foldl_cons]
    rcases ih (max b a) with h | h
    · rw [h]
      rcases max_choice b a with hm | hm
      · exact Or.inl hm
      · exact Or.inr (by rw [hm]; exact mem_cons_self)
    · exact Or.inr (mem_cons_of_mem _ h)

/-- One more than the best of the successors. -/
theorem isGreatest_climbs_of_next {x : α} {next : List α} {depth : α → ℕ} (hnext : ∀ y, R x y ↔ y ∈ next)
    (h : ∀ y ∈ next, IsGreatest {n | Climbs R n y} (depth y)) :
    IsGreatest {n | Climbs R n x} ((next.map fun y => 1 + depth y).foldl max 0) := by
  constructor
  · rcases foldl_max_mem (next.map fun y => 1 + depth y) 0 with h0 | hmem
    · rw [h0]
      exact .here x
    · obtain ⟨y, hy, heq⟩ := mem_map.mp hmem
      rw [← heq, Nat.add_comm]
      exact .up ((hnext y).mpr hy) (h y hy).1
  · intro n hn
    cases n with
    | zero => exact Nat.zero_le _
    | succ n =>
      obtain ⟨y, hxy, hy⟩ := climbs_succ_iff.mp hn
      have hmem := (hnext y).mp hxy
      have hle := (le_foldl_max (next.map fun y => 1 + depth y) 0).2 _ (mem_map_of_mem hmem)
      have := (h y hmem).2 hy
      omega

end Chains

/-! ## The walk -/

section Walk

variable (next : α → List α)

/-- From this stack, with this much found, the walk ends with that. -/
inductive Walk : List α → List α → List α → Prop
  | done (out : List α) : Walk [] out out
  | again {x : α} {stack out found : List α} : x ∈ out → Walk stack out found → Walk (x :: stack) out found
  | new {x : α} {stack out found : List α} : x ∉ out → Walk ((next x).reverse ++ stack) (out ++ [x]) found →
      Walk (x :: stack) out found

/-- What a walk from the successors of `root` keeps. -/
structure Walking (root : α) (stack out : List α) : Prop where
  nodup : out.Nodup
  sound : ∀ x, x ∈ out ∨ x ∈ stack → Relation.TransGen (fun x y => y ∈ next x) root x
  start : ∀ y ∈ next root, y ∈ out ∨ y ∈ stack
  closed : ∀ x ∈ out, ∀ y ∈ next x, y ∈ out ∨ y ∈ stack

variable {next} {root : α}

theorem walking_start (root : α) : Walking next root (next root).reverse [] where
  nodup := nodup_nil
  sound x hx := by
    rcases hx with hx | hx
    · exact absurd hx not_mem_nil
    · exact .single (mem_reverse.mp hx)
  start y hy := Or.inr (mem_reverse.mpr hy)
  closed x hx := absurd hx not_mem_nil

theorem Walking.again {x : α} {stack out : List α} (h : Walking next root (x :: stack) out) (hx : x ∈ out) :
    Walking next root stack out := by
  have hdrop : ∀ y, y ∈ out ∨ y ∈ x :: stack → y ∈ out ∨ y ∈ stack := by
    intro y hy
    rcases hy with hy | hy
    · exact Or.inl hy
    · rcases mem_cons.mp hy with rfl | hy
      · exact Or.inl hx
      · exact Or.inr hy
  exact ⟨h.nodup, fun y hy => h.sound y (hy.imp_right (mem_cons_of_mem x)),
    fun y hy => hdrop y (h.start y hy), fun z hz y hy => hdrop y (h.closed z hz y hy)⟩

theorem Walking.new {x : α} {stack out : List α} (h : Walking next root (x :: stack) out) (hx : x ∉ out) :
    Walking next root ((next x).reverse ++ stack) (out ++ [x]) := by
  have hkeep : ∀ y, y ∈ out ∨ y ∈ x :: stack → y ∈ out ++ [x] ∨ y ∈ (next x).reverse ++ stack := by
    intro y hy
    rcases hy with hy | hy
    · exact Or.inl (mem_append_left _ hy)
    · rcases mem_cons.mp hy with rfl | hy
      · exact Or.inl (mem_append_right _ mem_cons_self)
      · exact Or.inr (mem_append_right _ hy)
  have hroot := h.sound x (Or.inr mem_cons_self)
  refine ⟨?_, fun y hy => ?_, fun y hy => hkeep y (h.start y hy), fun z hz y hy => ?_⟩
  · rw [← concat_eq_append]
    exact List.Nodup.concat hx h.nodup
  · rcases hy with hy | hy
    · rcases mem_append.mp hy with hy | hy
      · exact h.sound y (Or.inl hy)
      · rwa [mem_singleton.mp hy]
    · rcases mem_append.mp hy with hy | hy
      · exact hroot.tail (mem_reverse.mp hy)
      · exact h.sound y (Or.inr (mem_cons_of_mem x hy))
  · rcases mem_append.mp hz with hz | hz
    · exact hkeep y (h.closed z hz y hy)
    · rw [mem_singleton.mp hz] at hy
      exact Or.inr (mem_append_left _ (mem_reverse.mpr hy))

theorem Walk.walking {stack out found : List α} (hw : Walk next stack out found)
    (h : Walking next root stack out) : Walking next root [] found := by
  induction hw with
  | done out => exact h
  | again hx _ ih => exact ih (h.again hx)
  | new hx _ ih => exact ih (h.new hx)

/-- With nothing left on the stack, what is found is what is reached. -/
theorem Walking.mem_iff {found : List α} (h : Walking next root [] found) (y : α) :
    y ∈ found ↔ Relation.TransGen (fun x y => y ∈ next x) root y := by
  refine ⟨fun hy => h.sound y (Or.inl hy), fun hy => ?_⟩
  induction hy with
  | single hy => exact (h.start _ hy).resolve_right not_mem_nil
  | tail _ hy ih => exact (h.closed _ ih _ hy).resolve_right not_mem_nil

theorem Walk.mem_iff {found : List α} (hw : Walk next (next root).reverse [] found) (y : α) :
    y ∈ found ↔ Relation.TransGen (fun x y => y ∈ next x) root y :=
  (hw.walking (walking_start root)).mem_iff y

end Walk

end PtaasBench.Lib
