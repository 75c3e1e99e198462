import Mathlib.Algebra.BigOperators.Group.List.Basic
import Mathlib.Algebra.Order.BigOperators.Group.List
import Mathlib.Algebra.Order.Ring.Nat

/-!
# PtaasBench.Lib.Threads — threads in a list, and what they hold together

A step of one thread replaces it in the list.  `total f` adds a measure up over all of them.
-/

namespace PtaasBench.Lib

variable {α : Type*} (f : α → ℕ)

def total (threads : List α) : ℕ := (threads.map f).sum

@[simp] theorem total_nil : total f [] = 0 := rfl

@[simp] theorem total_append (l l' : List α) : total f (l ++ l') = total f l + total f l' := by
  rw [total, List.map_append, List.sum_append, total, total]

@[simp] theorem total_singleton (x : α) : total f [x] = f x := by simp [total]

/-- One thread takes its step: the total changes by what it changes. -/
theorem total_set {l : List α} {i : ℕ} {x : α} (h : l[i]? = some x) (y : α) :
    total f (l.set i y) + f x = total f l + f y := by
  induction l generalizing i with
  | nil => exact absurd h (by simp)
  | cons z l ih =>
    cases i with
    | zero =>
      obtain rfl : z = x := by simpa using h
      rw [List.set_cons_zero, total, total, List.map_cons, List.map_cons, List.sum_cons, List.sum_cons]
      omega
    | succ i =>
      have htail := ih (i := i) (by simpa using h)
      rw [total, total] at htail
      rw [List.set_cons_succ, total, total, List.map_cons, List.map_cons, List.sum_cons, List.sum_cons]
      omega

/-- One thread goes: the total loses what it held. -/
theorem total_eraseIdx {l : List α} {i : ℕ} {x : α} (h : l[i]? = some x) :
    total f (l.eraseIdx i) + f x = total f l := by
  induction l generalizing i with
  | nil => exact absurd h (by simp)
  | cons z l ih =>
    have hcons (y : α) (l : List α) : total f (y :: l) = f y + total f l := by simp [total]
    cases i with
    | zero =>
      obtain rfl : z = x := by simpa using h
      rw [List.eraseIdx_cons_zero, hcons, add_comm]
    | succ i =>
      have htail := ih (i := i) (by simpa using h)
      rw [List.eraseIdx_cons_succ, hcons, hcons, add_assoc, htail]

theorem total_eraseIdx_le (l : List α) (i : ℕ) : total f (l.eraseIdx i) ≤ total f l :=
  ((List.eraseIdx_sublist l i).map f).sum_le_sum fun _ _ => Nat.zero_le _

theorem total_le_total {f g : α → ℕ} {l : List α} (h : ∀ x ∈ l, f x ≤ g x) :
    total f l ≤ total g l := List.sum_le_sum h

theorem total_pos_iff {l : List α} : 0 < total f l ↔ ∃ x ∈ l, 0 < f x := by
  induction l with
  | nil => simp
  | cons z l ih =>
    have hcons : total f (z :: l) = f z + total f l := by simp [total]
    rw [hcons, List.exists_mem_cons_iff, ← ih]
    omega

end PtaasBench.Lib
