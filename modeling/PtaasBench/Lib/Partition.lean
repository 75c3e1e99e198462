import Mathlib.Data.List.Basic
import Mathlib.Data.List.Perm.Basic

/-!
# PtaasBench.Lib.Partition — a list cut up by a key

The classes of a list under a key, over a list of keys without repetition that has them all, are the
list up to order.
-/

namespace PtaasBench.Lib

variable {α κ : Type*} [DecidableEq κ] (key : α → κ)

/-- The elements with a key. -/
def withKey (l : List α) (k : κ) : List α := l.filter (key · = k)

theorem withKey_filter_ne {l : List α} {j k : κ} (h : k ≠ j) :
    withKey key (l.filter fun a => key a ≠ j) k = withKey key l k := by
  rw [withKey, withKey, List.filter_filter]
  refine List.filter_congr fun a _ => ?_
  by_cases ha : key a = k
  · simp [ha, h]
  · simp [ha]

theorem perm_flatMap_withKey {ks : List κ} (hks : ks.Nodup) {l : List α} (h : ∀ a ∈ l, key a ∈ ks) :
    (ks.flatMap (withKey key l)).Perm l := by
  induction ks generalizing l with
  | nil =>
    rw [List.eq_nil_iff_forall_not_mem.mpr fun a ha => absurd (h a ha) List.not_mem_nil]
    exact .nil
  | cons k ks ih =>
    obtain ⟨hk, hks⟩ := List.nodup_cons.mp hks
    have hothers : ks.flatMap (withKey key l) =
        ks.flatMap (withKey key (l.filter fun a => key a ≠ k)) := by
      refine List.flatMap_congr fun j hj => (withKey_filter_ne key ?_).symm
      rintro rfl
      exact hk hj
    have hrest : ∀ a ∈ l.filter fun a => key a ≠ k, key a ∈ ks := by
      intro a ha
      rw [List.mem_filter, decide_eq_true_eq] at ha
      exact (List.mem_cons.mp (h a ha.1)).resolve_left ha.2
    rw [List.flatMap_cons, hothers]
    refine ((ih hks hrest).append_left _).trans ?_
    have hsplit := List.filter_append_perm (key · = k) l
    simp only [← decide_not] at hsplit
    exact hsplit

end PtaasBench.Lib
