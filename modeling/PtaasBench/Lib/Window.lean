import Mathlib.Order.Basic
import Mathlib.Data.List.Basic

/-!
# PtaasBench.Lib.Window — a bounded queue of stamped items

Items enter at the back.  When there are too many, `trims` takes them from the front one by one;
of a queue in the order of its stamps these are the oldest.
-/

namespace PtaasBench.Lib

variable {α β : Type*}

/-- What trimming a queue to `n` items takes from its front, each with the items behind it. -/
def trims (n : ℕ) : List α → List (α × List α)
  | [] => []
  | a :: rest => if n ≤ rest.length then (a, rest) :: trims n rest else []

/-- The items taken are those beyond the bound. -/
theorem map_fst_trims (n : ℕ) (l : List α) : (trims n l).map Prod.fst = l.take (l.length - n) := by
  induction l with
  | nil => simp [trims]
  | cons a rest ih =>
    rw [trims, List.length_cons]
    by_cases h : n ≤ rest.length
    · have hsub : rest.length + 1 - n = (rest.length - n) + 1 := by omega
      rw [if_pos h, hsub, List.take_succ_cons, List.map_cons, ih]
    · have hsub : rest.length + 1 - n = 0 := by omega
      rw [if_neg h, hsub, List.take_zero, List.map_nil]

theorem length_trims (n : ℕ) (l : List α) : (trims n l).length = l.length - n := by
  have h := congrArg List.length (map_fst_trims n l)
  rw [List.length_map, List.length_take] at h
  omega

/-- An item that enters makes the front leave: every item is still in one place. -/
theorem perm_enter {held held' front gone left issued : List α} {a : α}
    (hall : front ++ held' = held ++ [a]) (hsplit : (held ++ (gone ++ left)).Perm issued) :
    (held' ++ (gone ++ (front ++ left))).Perm (issued ++ [a]) := by
  classical
  rw [List.perm_iff_count] at hsplit ⊢
  intro e
  have hcount := congrArg (List.count e) hall
  have hbefore := hsplit e
  simp only [List.count_append] at hcount hbefore ⊢
  omega

/-- A queue in the order of its stamps loses the smallest first. -/
theorem le_of_mem_trims [Preorder β] {key : α → β} {n : ℕ} {l : List α}
    (hl : l.Pairwise fun a b => key a ≤ key b) {o : α × List α} (ho : o ∈ trims n l) :
    ∀ k ∈ o.2, key o.1 ≤ key k := by
  induction l with
  | nil => simp [trims] at ho
  | cons a rest ih =>
    rw [List.pairwise_cons] at hl
    rw [trims] at ho
    split_ifs at ho with h
    · rcases List.mem_cons.mp ho with rfl | ho
      · exact hl.1
      · exact ih hl.2 ho
    · simp at ho

end PtaasBench.Lib
