import Mathlib.Order.Lattice
import Mathlib.Data.List.Basic

/-!
# PtaasBench.Lib.Feed — reading a changing collection through a mark

A source holds stamped items; new ones are stamped with the present.  A reader asks for the items
above its mark, or for all of them, and raises the mark when the answer arrives.  As long as the
mark stays below some stamp it was sent, no item is ever skipped (`Complete`).
-/

namespace PtaasBench.Lib

variable {α β : Type*} [LinearOrder β]

/-- An answer on its way: what was held when it was given, and what of it was sent. -/
structure Sent (α : Type*) where
  held : List α
  items : List α

structure Feed (α β : Type*) where
  held : List α
  mark : Option β := none
  offered : List α := []
  answer : Option (Sent α) := none

/-- The items above a mark. -/
def above (stamp : α → β) (mark : Option β) (l : List α) : List α :=
  match mark with
  | some m => l.filter (m < stamp ·)
  | none => l

namespace Feed

/-- What is held at or below the mark was offered, and what an answer on its way leaves out is
newer than everything in it. -/
structure Complete (stamp : α → β) (now : β) (f : Feed α β) : Prop where
  past : ∀ a ∈ f.held, stamp a ≤ now
  behind : ∀ m ∈ f.mark, m < now
  offered : ∀ m ∈ f.mark, ∀ a ∈ f.held, stamp a ≤ m → a ∈ f.offered
  covered : ∀ r ∈ f.answer, ∀ a ∈ r.held, a ∈ r.items ∨ a ∈ f.offered
  sent : ∀ r ∈ f.answer, ∀ a ∈ r.items, stamp a ≤ now
  since : ∀ r ∈ f.answer, ∀ a ∈ f.held, a ∈ r.held ∨ ∀ b ∈ r.items, stamp b ≤ stamp a

variable {stamp : α → β} {now : β} {f : Feed α β}

/-- The source drops items, and stamps new ones with the present. -/
theorem Complete.change (h : Complete stamp now f) {now' : β} (hnow : now ≤ now') {held : List α}
    (hheld : ∀ a ∈ held, a ∈ f.held ∨ stamp a = now') :
    Complete stamp now' { f with held := held } := by
  refine ⟨?_, ?_, ?_, h.covered, fun r hr a ha => (h.sent r hr a ha).trans hnow, ?_⟩
  · intro a ha
    rcases hheld a ha with ha | ha
    · exact (h.past a ha).trans hnow
    · exact ha.le
  · exact fun m hm => (h.behind m hm).trans_le hnow
  · intro m hm a ha hle
    rcases hheld a ha with ha | ha
    · exact h.offered m hm a ha hle
    · -- a new item is above the mark
      rw [ha] at hle
      exact absurd ((h.behind m hm).trans_le hnow) (not_lt.mpr hle)
  · intro r hr a ha
    rcases hheld a ha with ha | ha
    · exact h.since r hr a ha
    · exact Or.inr fun b hb => (h.sent r hr b hb).trans (hnow.trans ha.ge)

/-- The source answers with what is above the mark. -/
theorem Complete.respond (h : Complete stamp now f) :
    Complete stamp now { f with answer := some ⟨f.held, above stamp f.mark f.held⟩ } := by
  refine ⟨h.past, h.behind, h.offered, ?_, ?_, ?_⟩
  · rintro r hr a ha
    obtain rfl := Option.some.inj hr
    dsimp only [above]
    cases hmark : f.mark with
    | none => exact Or.inl ha
    | some m =>
      by_cases hlt : m < stamp a
      · exact Or.inl (List.mem_filter.mpr ⟨ha, decide_eq_true hlt⟩)
      · exact Or.inr (h.offered m hmark a ha (not_lt.mp hlt))
  · rintro r hr a ha
    obtain rfl := Option.some.inj hr
    dsimp only [above] at ha
    cases hmark : f.mark with
    | none =>
      rw [hmark] at ha
      exact h.past a ha
    | some m =>
      rw [hmark] at ha
      exact h.past a (List.mem_of_mem_filter ha)
  · rintro r hr a ha
    obtain rfl := Option.some.inj hr
    exact Or.inl ha

/-- The answer is lost. -/
theorem Complete.lose (h : Complete stamp now f) : Complete stamp now { f with answer := none } :=
  ⟨h.past, h.behind, h.offered, by simp, by simp, by simp⟩

/-- The answer arrives, and the mark moves to below something that was sent. -/
theorem Complete.receive (h : Complete stamp now f) {r : Sent α} (hr : f.answer = some r)
    {mark : Option β} (hmark : ∀ m ∈ mark, m ∈ f.mark ∨ ∃ b ∈ r.items, m < stamp b) :
    Complete stamp now { f with mark := mark, offered := f.offered ++ r.items, answer := none } := by
  refine ⟨h.past, ?_, ?_, by simp, by simp, by simp⟩
  · intro m hm
    rcases hmark m hm with hm | ⟨b, hb, hlt⟩
    · exact h.behind m hm
    · exact hlt.trans_le (h.sent r hr b hb)
  · intro m hm a ha hle
    rcases hmark m hm with hm | ⟨b, hb, hlt⟩
    · exact List.mem_append_left _ (h.offered m hm a ha hle)
    · rcases h.since r hr a ha with hheld | hnew
      · rcases h.covered r hr a hheld with hsent | hoffered
        · exact List.mem_append_right _ hsent
        · exact List.mem_append_left _ hoffered
      · exact absurd ((hnew b hb).trans hle) (not_le.mpr hlt)

/-- Once an answer has arrived, all that was held when it was given has been offered. -/
theorem Complete.offered_of_answer (h : Complete stamp now f) {r : Sent α} (hr : f.answer = some r) :
    ∀ a ∈ r.held, a ∈ f.offered ++ r.items := by
  intro a ha
  rcases h.covered r hr a ha with hsent | hoffered
  · exact List.mem_append_right _ hsent
  · exact List.mem_append_left _ hoffered

end Feed

end PtaasBench.Lib
