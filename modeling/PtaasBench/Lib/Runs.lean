import Mathlib.Data.List.Infix

/-!
# PtaasBench.Lib.Runs — how many items in a row

A counter of the run that is going on and of the longest run so far, against the lists they stand for.
-/

namespace PtaasBench.Lib

/-- The run that is going on, and the longest so far. -/
structure Run where
  now : ℕ
  longest : ℕ

variable {α : Type*} (p : α → Bool)

/-- An item that goes on with the run, or ends it. -/
def Run.step (r : Run) (x : α) : Run :=
  if p x then { now := r.now + 1, longest := max r.longest (r.now + 1) } else { r with now := 0 }

def Run.of (xs : List α) : Run := xs.foldl (Run.step p) ⟨0, 0⟩

/-- So many items in a row, anywhere in the list. -/
def InARow (n : ℕ) (xs : List α) : Prop := ∃ run, run <:+: xs ∧ run.length = n ∧ ∀ x ∈ run, p x = true

variable {p} {n : ℕ} {xs : List α} {x : α}

theorem Run.of_concat : Run.of p (xs ++ [x]) = (Run.of p xs).step p x := List.foldl_concat ..

theorem le_now_iff : n ≤ (Run.of p xs).now ↔ ∃ run, run <:+ xs ∧ run.length = n ∧ ∀ x ∈ run, p x = true := by
  induction xs using List.reverseRecOn generalizing n with
  | nil =>
    constructor
    · intro h
      exact ⟨[], List.nil_suffix, (Nat.le_zero.mp h).symm, nofun⟩
    · rintro ⟨run, hrun, rfl, -⟩
      rw [List.suffix_nil.mp hrun]
      exact Nat.zero_le _
  | append_singleton xs x ih =>
    rw [Run.of_concat, Run.step]
    cases n with
    | zero => exact iff_of_true (Nat.zero_le _) ⟨[], List.nil_suffix, rfl, nofun⟩
    | succ n =>
      split_ifs with hx
      · rw [Nat.add_le_add_iff_right, ih]
        constructor
        · rintro ⟨run, ⟨front, rfl⟩, rfl, hall⟩
          refine ⟨run ++ [x], ⟨front, by simp⟩, by simp, fun y hy => ?_⟩
          rcases List.mem_append.mp hy with hy | hy
          · exact hall y hy
          · rwa [List.mem_singleton.mp hy]
        · rintro ⟨run, hsuffix, hlength, hall⟩
          rcases List.suffix_concat_iff.mp hsuffix with rfl | ⟨run, rfl, hrun⟩
          · exact absurd hlength (Nat.succ_ne_zero n).symm
          · rw [List.length_append, List.length_singleton, Nat.add_right_cancel_iff] at hlength
            exact ⟨run, hrun, hlength, fun y hy => hall y (List.mem_append_left _ hy)⟩
      · refine iff_of_false (Nat.not_succ_le_zero n) ?_
        rintro ⟨run, hsuffix, hlength, hall⟩
        rcases List.suffix_concat_iff.mp hsuffix with rfl | ⟨run, rfl, -⟩
        · exact absurd hlength (Nat.succ_ne_zero n).symm
        · exact hx (hall x (List.mem_append_right _ (List.mem_singleton_self x)))

theorem le_longest_iff : n ≤ (Run.of p xs).longest ↔ InARow p n xs := by
  induction xs using List.reverseRecOn with
  | nil =>
    constructor
    · intro h
      exact ⟨[], List.infix_rfl, (Nat.le_zero.mp h).symm, nofun⟩
    · rintro ⟨run, hrun, rfl, -⟩
      rw [List.infix_nil.mp hrun]
      exact Nat.zero_le _
  | append_singleton xs x ih =>
    have hnow : n ≤ (Run.of p (xs ++ [x])).now ↔ _ := le_now_iff
    rw [Run.of_concat] at hnow ⊢
    have hsplit : n ≤ ((Run.of p xs).step p x).longest ↔
        n ≤ (Run.of p xs).longest ∨ n ≤ ((Run.of p xs).step p x).now := by
      unfold Run.step
      split_ifs
      · dsimp only
        omega
      · dsimp only
        omega
    rw [hsplit, ih, hnow, InARow, InARow]
    simp only [List.infix_concat_iff]
    constructor
    · rintro (⟨run, hrun, hrest⟩ | ⟨run, hrun, hrest⟩)
      · exact ⟨run, Or.inr hrun, hrest⟩
      · exact ⟨run, Or.inl hrun, hrest⟩
    · rintro ⟨run, hrun | hrun, hrest⟩
      · exact Or.inr ⟨run, hrun, hrest⟩
      · exact Or.inl ⟨run, hrun, hrest⟩

end PtaasBench.Lib
