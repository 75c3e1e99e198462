import Mathlib.Data.List.Nodup
import Mathlib.Order.Nat

/-!
# PtaasBench.Lib.Backlog — numbered entries of a queue

Entries carry the number of their arrival; a queue that drops its oldest entries keeps the others
in the order of their numbers.
-/

namespace PtaasBench.Lib

open List

variable {ρ : Type*}

structure Tagged (ρ : Type*) where
  number : ℕ
  body : ρ

/-- In the order of arrival. -/
def Ordered (l : List (Tagged ρ)) : Prop := (l.map Tagged.number).Pairwise (· < ·)

theorem ordered_iff {l : List (Tagged ρ)} :
    Ordered l ↔ l.Pairwise fun a b => a.number < b.number := pairwise_map

theorem Ordered.sublist {l l' : List (Tagged ρ)} (h : Ordered l) (hl : l'.Sublist l) :
    Ordered l' :=
  List.Pairwise.sublist (hl.map _) h

theorem Ordered.concat {l : List (Tagged ρ)} (h : Ordered l) {r : Tagged ρ}
    (hr : ∀ x ∈ l, x.number < r.number) : Ordered (l ++ [r]) := by
  rw [Ordered, map_append]
  refine pairwise_append.mpr ⟨h, pairwise_singleton _ _, ?_⟩
  intro a ha b hb
  obtain ⟨x, hx, rfl⟩ := mem_map.mp ha
  rw [map_singleton, mem_singleton] at hb
  rw [hb]
  exact hr x hx

/-- Taking one entry out of an ordered list by its number. -/
theorem Ordered.filter_ne {xs ys : List (Tagged ρ)} {r : Tagged ρ} (h : Ordered (xs ++ r :: ys)) :
    (xs ++ r :: ys).filter (fun x => x.number ≠ r.number) = xs ++ ys := by
  rw [Ordered, map_append, map_cons, pairwise_append, pairwise_cons] at h
  obtain ⟨-, ⟨hys, -⟩, hxs⟩ := h
  rw [filter_append, filter_cons_of_neg (by simp)]
  congr 1
  · refine filter_eq_self.mpr fun x hx => ?_
    have hlt := hxs x.number (mem_map_of_mem hx) r.number mem_cons_self
    simpa using hlt.ne
  · refine filter_eq_self.mpr fun x hx => ?_
    have hlt := hys x.number (mem_map_of_mem hx)
    simpa using hlt.ne'

theorem Ordered.eq_of_number {l : List (Tagged ρ)} (h : Ordered l) {x y : Tagged ρ} (hx : x ∈ l)
    (hy : y ∈ l) (heq : x.number = y.number) : x = y :=
  inj_on_of_nodup_map (h.imp fun hlt => hlt.ne) hx hy heq

/-- An entry that was dropped, and the queue it was dropped from. -/
structure Eviction (ρ : Type*) where
  entry : Tagged ρ
  queue : List (Tagged ρ)

/-- The entry dropped was the oldest of a queue in the order of arrival. -/
def Eviction.Oldest (e : Eviction ρ) : Prop := e.queue.head? = some e.entry ∧ Ordered e.queue

def dropped (drops : List (Eviction ρ)) : List (Tagged ρ) := drops.map Eviction.entry

/-- What arrived and was not dropped, in the order of arrival. -/
def survivors (arrived : List (Tagged ρ)) (drops : List (Eviction ρ)) : List (Tagged ρ) :=
  arrived.filter fun r => r.number ∉ (dropped drops).map Tagged.number

/-- Entries arrive at the end of a queue; they leave it from the front, or are dropped there. -/
structure Backlog (arrived : List (Tagged ρ)) (drops : List (Eviction ρ))
    (gone queue : List (Tagged ρ)) : Prop where
  ordered : Ordered arrived
  survivors : survivors arrived drops = gone ++ queue
  known : ∀ r ∈ dropped drops, r ∈ arrived
  oldest : ∀ e ∈ drops, e.Oldest

namespace Backlog

variable {arrived gone queue : List (Tagged ρ)} {drops : List (Eviction ρ)}

theorem empty : Backlog ([] : List (Tagged ρ)) [] [] [] where
  ordered := List.Pairwise.nil
  survivors := rfl
  known := fun _ hr => absurd hr not_mem_nil
  oldest := fun _ he => absurd he not_mem_nil

theorem ordered_left (h : Backlog arrived drops gone queue) : Ordered (gone ++ queue) := by
  rw [← h.survivors]
  exact h.ordered.sublist filter_sublist

theorem mem_arrived (h : Backlog arrived drops gone queue) {r : Tagged ρ} (hr : r ∈ gone ++ queue) :
    r ∈ arrived := by
  rw [← h.survivors] at hr
  exact (mem_filter.mp hr).1

/-- Whatever arrived was dropped, has left or is in the queue. -/
theorem mem_of_arrived (h : Backlog arrived drops gone queue) {r : Tagged ρ} (hr : r ∈ arrived) :
    r ∈ dropped drops ∨ r ∈ gone ++ queue := by
  by_cases hdropped : r.number ∈ (dropped drops).map Tagged.number
  · obtain ⟨x, hx, heq⟩ := mem_map.mp hdropped
    rw [← h.ordered.eq_of_number (h.known x hx) hr heq]
    exact .inl hx
  · right
    rw [← h.survivors]
    exact mem_filter.mpr ⟨hr, by simpa using hdropped⟩

theorem push (h : Backlog arrived drops gone queue) {r : Tagged ρ}
    (hr : ∀ x ∈ arrived, x.number < r.number) :
    Backlog (arrived ++ [r]) drops gone (queue ++ [r]) := by
  have hnot : r.number ∉ (dropped drops).map Tagged.number := by
    intro hmem
    obtain ⟨x, hx, heq⟩ := mem_map.mp hmem
    exact (hr x (h.known x hx)).ne heq
  refine ⟨h.ordered.concat hr, ?_, fun x hx => mem_append_left _ (h.known x hx), h.oldest⟩
  rw [Lib.survivors, filter_append, filter_cons_of_pos (by simpa using hnot),
    filter_nil, ← Lib.survivors, h.survivors, append_assoc]

theorem evict {oldest : Tagged ρ} {rest : List (Tagged ρ)}
    (h : Backlog arrived drops gone (oldest :: rest)) :
    Backlog arrived (drops ++ [{ entry := oldest, queue := oldest :: rest }]) gone rest := by
  have hleft := h.ordered_left
  refine ⟨h.ordered, ?_, fun x hx => ?_, fun e he => ?_⟩
  · have hfilter : Lib.survivors arrived (drops ++ [{ entry := oldest, queue := oldest :: rest }]) =
        (Lib.survivors arrived drops).filter fun x => x.number ≠ oldest.number := by
      rw [Lib.survivors, Lib.survivors, filter_filter]
      refine filter_congr fun x _ => ?_
      rw [Bool.eq_iff_iff, Bool.and_eq_true, decide_eq_true_eq, decide_eq_true_eq, decide_eq_true_eq,
        dropped, map_append, map_append, mem_append, not_or]
      exact and_comm.trans (and_congr_left fun _ => by simp)
    rw [hfilter, h.survivors, hleft.filter_ne]
  · rw [dropped, map_append] at hx
    rcases mem_append.mp hx with hx | hx
    · exact h.known x hx
    · rw [mem_singleton.mp hx]
      exact h.mem_arrived (mem_append_right _ mem_cons_self)
  · rcases mem_append.mp he with he | he
    · exact h.oldest e he
    · rw [mem_singleton.mp he]
      exact ⟨rfl, hleft.sublist (sublist_append_right _ _)⟩

/-- Entries leave from the front of the queue. -/
theorem leave (h : Backlog arrived drops gone queue) {gone' queue' : List (Tagged ρ)}
    (heq : gone' ++ queue' = gone ++ queue) : Backlog arrived drops gone' queue' :=
  ⟨h.ordered, h.survivors.trans heq.symm, h.known, h.oldest⟩

end Backlog

end PtaasBench.Lib
