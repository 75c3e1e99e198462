import Mathlib.Data.List.Nodup
import Mathlib.Logic.Function.Basic
import Mathlib.Order.Nat

/-!
# PtaasBench.Lib.CallBook — numbered calls of several threads

Every call has a number.  While its thread is at it, the call may enter a common list; when it ends it is settled, as
one that entered or as one that did not.
-/

namespace PtaasBench.Lib

open List

/-- A call that is over, and how it was counted. -/
structure Settled (ι : Type*) where
  number : ℕ
  owner : ι
  kept : Bool

variable {ι : Type*}

/-- Calls were numbered from zero; `underway i` is the call that thread `i` is at, and whether it has entered. -/
structure CallBook (calls : ℕ) (entered : List ℕ) (settled : List (Settled ι)) (underway : ι → Option (ℕ × Bool)) :
    Prop where
  entered_nodup : entered.Nodup
  entered_lt : ∀ n ∈ entered, n < calls
  settled_nodup : (settled.map Settled.number).Nodup
  settled_lt : ∀ n ∈ settled.map Settled.number, n < calls
  settled_iff : ∀ e ∈ settled, e.kept = true ↔ e.number ∈ entered
  pending_lt : ∀ i n b, underway i = some (n, b) → n < calls
  pending_iff : ∀ i n b, underway i = some (n, b) → (b = true ↔ n ∈ entered)
  pending_apart : ∀ i n b, underway i = some (n, b) → n ∉ settled.map Settled.number
  pending_single : ∀ i j n b b', underway i = some (n, b) → underway j = some (n, b') → i = j
  complete : ∀ n < calls, n ∈ settled.map Settled.number ∨ ∃ i b, underway i = some (n, b)

namespace CallBook

theorem empty : CallBook 0 [] [] fun _ : ι => none where
  entered_nodup := nodup_nil
  entered_lt := nofun
  settled_nodup := nodup_nil
  settled_lt := nofun
  settled_iff := nofun
  pending_lt := nofun
  pending_iff := nofun
  pending_apart := nofun
  pending_single := nofun
  complete := fun n hn => absurd hn (Nat.not_lt_zero n)

variable [DecidableEq ι] {calls : ℕ} {entered : List ℕ} {settled : List (Settled ι)} {underway : ι → Option (ℕ × Bool)}

/-- What a thread is at after its own step, or after another's. -/
theorem update_cases {i j : ι} {n : ℕ} {b : Bool} {v : Option (ℕ × Bool)}
    (h : Function.update underway i v j = some (n, b)) : j = i ∧ v = some (n, b) ∨ j ≠ i ∧ underway j = some (n, b) := by
  by_cases hj : j = i
  · rw [hj, Function.update_self] at h
    exact Or.inl ⟨hj, h⟩
  · rw [Function.update_of_ne hj] at h
    exact Or.inr ⟨hj, h⟩

/-- A thread makes a call. -/
theorem start (h : CallBook calls entered settled underway) {i : ι} (hi : underway i = none) :
    CallBook (calls + 1) entered settled (Function.update underway i (some (calls, false))) where
  entered_nodup := h.entered_nodup
  entered_lt := fun n hn => (h.entered_lt n hn).trans (Nat.lt_succ_self _)
  settled_nodup := h.settled_nodup
  settled_lt := fun n hn => (h.settled_lt n hn).trans (Nat.lt_succ_self _)
  settled_iff := h.settled_iff
  pending_lt := by
    intro j n b hj
    rcases update_cases hj with ⟨-, hv⟩ | ⟨-, hj⟩
    · cases hv
      exact Nat.lt_succ_self _
    · exact (h.pending_lt j n b hj).trans (Nat.lt_succ_self _)
  pending_iff := by
    intro j n b hj
    rcases update_cases hj with ⟨-, hv⟩ | ⟨-, hj⟩
    · cases hv
      exact ⟨fun hfalse => Bool.noConfusion hfalse, fun hn => absurd (h.entered_lt _ hn) (lt_irrefl _)⟩
    · exact h.pending_iff j n b hj
  pending_apart := by
    intro j n b hj
    rcases update_cases hj with ⟨-, hv⟩ | ⟨-, hj⟩
    · cases hv
      exact fun hn => absurd (h.settled_lt _ hn) (lt_irrefl _)
    · exact h.pending_apart j n b hj
  pending_single := by
    intro j k n b b' hj hk
    rcases update_cases hj with ⟨hji, hv⟩ | ⟨-, hj⟩ <;> rcases update_cases hk with ⟨hki, hv'⟩ | ⟨-, hk⟩
    · rw [hji, hki]
    · cases hv
      exact absurd (h.pending_lt k _ b' hk) (lt_irrefl _)
    · cases hv'
      exact absurd (h.pending_lt j _ b hj) (lt_irrefl _)
    · exact h.pending_single j k n b b' hj hk
  complete := by
    intro n hn
    rcases Nat.lt_succ_iff_lt_or_eq.mp hn with hn | rfl
    · rcases h.complete n hn with hn | ⟨j, b, hj⟩
      · exact Or.inl hn
      · refine Or.inr ⟨j, b, ?_⟩
        rw [Function.update_of_ne, hj]
        rintro rfl
        rw [hi] at hj
        cases hj
    · exact Or.inr ⟨i, false, Function.update_self _ _ _⟩

/-- A call enters the list. -/
theorem enter (h : CallBook calls entered settled underway) {i : ι} {n : ℕ} (hi : underway i = some (n, false)) :
    CallBook calls (entered ++ [n]) settled (Function.update underway i (some (n, true))) where
  entered_nodup := by
    refine nodup_append.mpr ⟨h.entered_nodup, nodup_singleton n, ?_⟩
    intro a ha b hb hab
    rw [mem_singleton] at hb
    rw [hab, hb] at ha
    exact Bool.noConfusion ((h.pending_iff i n false hi).mpr ha)
  entered_lt := by
    intro m hm
    rcases mem_append.mp hm with hm | hm
    · exact h.entered_lt m hm
    · rw [mem_singleton.mp hm]
      exact h.pending_lt i n false hi
  settled_nodup := h.settled_nodup
  settled_lt := h.settled_lt
  settled_iff := by
    intro e he
    have hne : e.number ≠ n := by
      rintro rfl
      exact h.pending_apart i _ false hi (mem_map_of_mem he)
    rw [mem_append, mem_singleton, or_iff_left hne]
    exact h.settled_iff e he
  pending_lt := by
    intro j m b hj
    rcases update_cases hj with ⟨-, hv⟩ | ⟨-, hj⟩
    · cases hv
      exact h.pending_lt i n false hi
    · exact h.pending_lt j m b hj
  pending_iff := by
    intro j m b hj
    rw [mem_append, mem_singleton]
    rcases update_cases hj with ⟨-, hv⟩ | ⟨hji, hbefore⟩
    · cases hv
      exact ⟨fun _ => Or.inr rfl, fun _ => rfl⟩
    · have hne : m ≠ n := by
        rintro rfl
        exact hji (h.pending_single j i m b false hbefore hi)
      rw [or_iff_left hne]
      exact h.pending_iff j m b hbefore
  pending_apart := by
    intro j m b hj
    rcases update_cases hj with ⟨-, hv⟩ | ⟨-, hj⟩
    · cases hv
      exact h.pending_apart i n false hi
    · exact h.pending_apart j m b hj
  pending_single := by
    intro j k m b b' hj hk
    rcases update_cases hj with ⟨hji, hv⟩ | ⟨-, hj⟩ <;> rcases update_cases hk with ⟨hki, hv'⟩ | ⟨-, hk⟩
    · rw [hji, hki]
    · cases hv
      rw [hji]
      exact h.pending_single i k n false b' hi hk
    · cases hv'
      rw [hki]
      exact h.pending_single j i n b false hj hi
    · exact h.pending_single j k m b b' hj hk
  complete := by
    intro m hm
    rcases h.complete m hm with hm | ⟨j, b, hj⟩
    · exact Or.inl hm
    · by_cases hji : j = i
      · rw [hji, hi] at hj
        cases hj
        exact Or.inr ⟨i, true, Function.update_self _ _ _⟩
      · exact Or.inr ⟨j, b, by rw [Function.update_of_ne hji, hj]⟩

/-- A call ends, and is counted for what it did. -/
theorem settle (h : CallBook calls entered settled underway) {i : ι} {n : ℕ} {b : Bool} (hi : underway i = some (n, b)) :
    CallBook calls entered (settled ++ [{ number := n, owner := i, kept := b }]) (Function.update underway i none) where
  entered_nodup := h.entered_nodup
  entered_lt := h.entered_lt
  settled_nodup := by
    rw [map_append]
    refine nodup_append.mpr ⟨h.settled_nodup, nodup_singleton n, ?_⟩
    intro a ha c hc hac
    rw [map_singleton, mem_singleton] at hc
    rw [hac, hc] at ha
    exact h.pending_apart i n b hi ha
  settled_lt := by
    intro m hm
    rw [map_append, mem_append, map_singleton, mem_singleton] at hm
    rcases hm with hm | rfl
    · exact h.settled_lt m hm
    · exact h.pending_lt i _ b hi
  settled_iff := by
    intro e he
    rcases mem_append.mp he with he | he
    · exact h.settled_iff e he
    · rw [mem_singleton.mp he]
      exact h.pending_iff i n b hi
  pending_lt := by
    intro j m c hj
    rcases update_cases hj with ⟨-, hv⟩ | ⟨-, hj⟩
    · cases hv
    · exact h.pending_lt j m c hj
  pending_iff := by
    intro j m c hj
    rcases update_cases hj with ⟨-, hv⟩ | ⟨-, hj⟩
    · cases hv
    · exact h.pending_iff j m c hj
  pending_apart := by
    intro j m c hj
    rcases update_cases hj with ⟨-, hv⟩ | ⟨hji, hj⟩
    · cases hv
    · rw [map_append, mem_append, map_singleton, mem_singleton, not_or]
      refine ⟨h.pending_apart j m c hj, ?_⟩
      rintro rfl
      exact hji (h.pending_single j i _ c b hj hi)
  pending_single := by
    intro j k m c c' hj hk
    rcases update_cases hj with ⟨-, hv⟩ | ⟨-, hj⟩
    · cases hv
    · rcases update_cases hk with ⟨-, hv⟩ | ⟨-, hk⟩
      · cases hv
      · exact h.pending_single j k m c c' hj hk
  complete := by
    intro m hm
    rw [map_append, mem_append, map_singleton, mem_singleton]
    rcases h.complete m hm with hm | ⟨j, c, hj⟩
    · exact Or.inl (Or.inl hm)
    · by_cases hji : j = i
      · rw [hji, hi] at hj
        cases hj
        exact Or.inl (Or.inr rfl)
      · exact Or.inr ⟨j, c, by rw [Function.update_of_ne hji, hj]⟩

end CallBook

end PtaasBench.Lib
