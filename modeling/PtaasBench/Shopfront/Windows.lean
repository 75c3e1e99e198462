import Mathlib.Data.Int.Notation
import PtaasBench.Py.Dict

/-!
# PtaasBench.Shopfront.Windows — one report in a window (`firstInWindow`)

A key that is refused keeps the time of its report, so that the window does not move on with the requests in it.  The
map is cut only where it has grown past its bound, and only by keys that are outside of the window of the call.
-/

namespace PtaasBench.Shopfront.Windows

open Py (Dict)

/-- When each key was last reported. -/
abbrev Seen := Dict String ℤ

/-- Past 4096 keys, those outside the window go. -/
def evict (windowMs now : ℤ) (seen : Seen) : Seen :=
  if 4096 < seen.items.length then seen.filter fun e => !decide (windowMs < now - e.2) else seen

/-- `firstInWindow(key, windowMs)` at a time. -/
def firstInWindow (seen : Seen) (key : String) (windowMs now : ℤ) : Bool × Seen :=
  match seen.get? key with
  | some previous =>
    if now - previous < windowMs then (false, seen) else (true, evict windowMs now (seen.set key now))
  | none => (true, evict windowMs now (seen.set key now))

variable {seen : Seen} {key : String} {windowMs now : ℤ}

theorem get?_evict {k : String} {p : ℤ} (h : (evict windowMs now seen).get? k = some p) :
    seen.get? k = some p := by
  unfold evict at h
  split_ifs at h
  · exact Dict.get?_of_filter h
  · exact h

/-- Refused inside the window of an earlier report; else the key is reported now, and nothing else is new. -/
theorem firstInWindow_cases :
    (∃ previous, seen.get? key = some previous ∧ now - previous < windowMs ∧
      firstInWindow seen key windowMs now = (false, seen)) ∨
    ((firstInWindow seen key windowMs now).1 = true ∧
      ∀ k p, (firstInWindow seen key windowMs now).2.get? k = some p → k = key ∧ p = now ∨ seen.get? k = some p) := by
  have hset : ∀ k p, (evict windowMs now (seen.set key now)).get? k = some p →
      k = key ∧ p = now ∨ seen.get? k = some p := by
    intro k p h
    have hget := get?_evict h
    rw [Dict.get?_set] at hget
    split_ifs at hget with hk
    · exact Or.inl ⟨hk, (Option.some.inj hget).symm⟩
    · exact Or.inr hget
  unfold firstInWindow
  cases hprevious : seen.get? key with
  | none => exact Or.inr ⟨rfl, hset⟩
  | some previous =>
    by_cases hwindow : now - previous < windowMs
    · exact Or.inl ⟨previous, rfl, hwindow, if_pos hwindow⟩
    · simp only [if_neg hwindow]
      exact Or.inr ⟨trivial, hset⟩

end PtaasBench.Shopfront.Windows
