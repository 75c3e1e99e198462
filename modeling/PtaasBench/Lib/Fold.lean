import Mathlib.Data.List.Basic

/-!
# PtaasBench.Lib.Fold — what one field of an accumulator holds after a loop

A loop is a `foldl` over a record; `g` reads one field.  Each rule lifts what one turn does to the
field to what the whole loop does to it.
-/

namespace PtaasBench.Lib

variable {σ α τ : Type*} {f : σ → α → σ}

/-- What every turn preserves. -/
theorem foldl_invariant {P : σ → Prop} (h : ∀ s a, P s → P (f s a)) (l : List α) {s : σ}
    (hs : P s) : P (l.foldl f s) := by
  induction l generalizing s with
  | nil => exact hs
  | cons a l ih => exact ih (h s a hs)

/-- A field no turn touches. -/
theorem foldl_frame (g : σ → τ) (h : ∀ s a, g (f s a) = g s) (l : List α) (s : σ) :
    g (l.foldl f s) = g s := by
  induction l generalizing s with
  | nil => rfl
  | cons a l ih => rw [List.foldl_cons, ih, h]

/-- A flag a turn can only set. -/
theorem foldl_or {p : α → Bool} (g : σ → Bool) (h : ∀ s a, g (f s a) = (g s || p a)) (l : List α)
    (s : σ) : g (l.foldl f s) = (g s || l.any p) := by
  induction l generalizing s with
  | nil => simp
  | cons a l ih => rw [List.foldl_cons, ih, h, List.any_cons, Bool.or_assoc]

/-- A counter of the turns with a property. -/
theorem foldl_countP {p : α → Bool} (g : σ → ℕ)
    (h : ∀ s a, g (f s a) = g s + if p a then 1 else 0) (l : List α) (s : σ) :
    g (l.foldl f s) = g s + l.countP p := by
  induction l generalizing s with
  | nil => simp
  | cons a l ih => rw [List.foldl_cons, ih, h, List.countP_cons]; omega

/-- A flag that may be missing and that a turn can only set where it is present. -/
theorem foldl_map_or {p : α → Bool} (g : σ → Option Bool)
    (h : ∀ s a, g (f s a) = (g s).map (· || p a)) (l : List α) (s : σ) :
    g (l.foldl f s) = (g s).map (· || l.any p) := by
  induction l generalizing s with
  | nil => simp
  | cons a l ih =>
    rw [List.foldl_cons, ih, h, Option.map_map, List.any_cons]
    congr 1
    funext b
    simp [Bool.or_assoc]

end PtaasBench.Lib
