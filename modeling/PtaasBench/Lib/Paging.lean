import Mathlib.Data.List.Induction
import Mathlib.Order.Lattice

/-!
# PtaasBench.Lib.Paging — reading a growing list through a cursor

The items of a list carry increasing positive numbers, and new ones only come at its end.  A
reader asks for the items above its cursor, a page at a time, and moves the cursor to the last
number it has seen.  Then it has always read a first part of the list (`read_page`).
-/

namespace PtaasBench.Lib

open List

variable {α : Type*} (key : α → ℕ)

/-- The items stand in the order of their numbers, which start at one. -/
structure Numbered (xs : List α) : Prop where
  sorted : xs.Pairwise fun a b => key a < key b
  pos : ∀ x ∈ xs, 0 < key x

/-- One page: at most `limit` items above the cursor. -/
def pageAfter (xs : List α) (after limit : ℕ) : List α :=
  (xs.filter fun x => after < key x).take limit

/-- The number of the last item read, zero before the first. -/
def cursorOf (read : List α) : ℕ := (read.getLast?.map key).getD 0

variable {key}

theorem Numbered.sublist {xs ys : List α} (h : Numbered key ys) (hs : xs.Sublist ys) :
    Numbered key xs :=
  ⟨h.sorted.sublist hs, fun x hx => h.pos x (hs.subset hx)⟩

theorem cursorOf_concat (read : List α) (x : α) : cursorOf key (read ++ [x]) = key x := by
  rw [cursorOf, List.getLast?_concat]
  rfl

/-- What has been read is at or below the cursor. -/
theorem le_cursorOf {read : List α} (h : Numbered key read) {x : α} (hx : x ∈ read) :
    key x ≤ cursorOf key read := by
  induction read using List.reverseRecOn with
  | nil => exact absurd hx not_mem_nil
  | append_singleton read y _ =>
    rw [cursorOf_concat]
    rcases mem_append.mp hx with hx | hx
    · exact le_of_lt ((pairwise_append.mp h.sorted).2.2 x hx y (mem_singleton_self y))
    · rw [mem_singleton.mp hx]

/-- What is still to be read is above the cursor. -/
theorem cursorOf_lt {read rest : List α} (h : Numbered key (read ++ rest)) {x : α}
    (hx : x ∈ rest) : cursorOf key read < key x := by
  induction read using List.reverseRecOn with
  | nil => exact h.pos x hx
  | append_singleton read y _ =>
    rw [cursorOf_concat]
    exact (pairwise_append.mp h.sorted).2.2 y (mem_append_right _ (mem_singleton_self y))
      x hx

theorem filter_lt_cursorOf {read rest : List α} (h : Numbered key (read ++ rest)) :
    (read ++ rest).filter (fun x => cursorOf key read < key x) = rest := by
  have hread : read.filter (fun x => cursorOf key read < key x) = [] := by
    rw [filter_eq_nil_iff]
    intro x hx
    have := le_cursorOf (h.sublist (sublist_append_left _ _)) hx
    simpa using this
  have hrest : rest.filter (fun x => cursorOf key read < key x) = rest := by
    rw [filter_eq_self]
    intro x hx
    simpa using cursorOf_lt h hx
  rw [filter_append, hread, hrest, nil_append]

theorem filter_le_cursorOf {read rest : List α} (h : Numbered key (read ++ rest)) :
    (read ++ rest).filter (fun x => key x ≤ cursorOf key read) = read := by
  have hread : read.filter (fun x => key x ≤ cursorOf key read) = read := by
    rw [filter_eq_self]
    intro x hx
    simpa using le_cursorOf (h.sublist (sublist_append_left _ _)) hx
  have hrest : rest.filter (fun x => key x ≤ cursorOf key read) = [] := by
    rw [filter_eq_nil_iff]
    intro x hx
    simpa using cursorOf_lt h hx
  rw [filter_append, hread, hrest, append_nil]

theorem pageAfter_cursorOf {read rest : List α} (h : Numbered key (read ++ rest)) (limit : ℕ) :
    pageAfter key (read ++ rest) (cursorOf key read) limit = rest.take limit := by
  rw [pageAfter, filter_lt_cursorOf h]

/-- **One page further.**  The reader still has a first part of the list; a page that is not full
is the last one. -/
theorem read_page {read xs : List α} (h : Numbered key xs) (hread : read <+: xs) (limit : ℕ) :
    read ++ pageAfter key xs (cursorOf key read) limit <+: xs ∧
      ((pageAfter key xs (cursorOf key read) limit).length < limit →
        read ++ pageAfter key xs (cursorOf key read) limit = xs) := by
  obtain ⟨rest, rfl⟩ := hread
  rw [pageAfter_cursorOf h]
  refine ⟨(prefix_append_right_inj read).mpr (List.take_prefix limit rest), fun hlen => ?_⟩
  rw [length_take] at hlen
  rw [take_of_length_le (by omega)]

/-- An empty page means that everything has been read, if pages may hold anything. -/
theorem read_all_of_pageAfter_nil {read xs : List α} (h : Numbered key xs) (hread : read <+: xs)
    {limit : ℕ} (hlimit : 0 < limit) (hpage : pageAfter key xs (cursorOf key read) limit = []) :
    read = xs := by
  have := (read_page h hread limit).2
  rw [hpage, append_nil] at this
  exact this hlimit

/-- The largest number of a page is where the cursor goes. -/
theorem foldl_max_cursorOf {read page : List α} (h : Numbered key (read ++ page)) :
    page.foldl (fun c x => max c (key x)) (cursorOf key read) = cursorOf key (read ++ page) := by
  induction page generalizing read with
  | nil => rw [append_nil, foldl_nil]
  | cons x page ih =>
    have hlt : cursorOf key read < key x := cursorOf_lt h mem_cons_self
    rw [append_cons] at h ⊢
    rw [foldl_cons, max_eq_right hlt.le, ← ih h, cursorOf_concat]

theorem cursorOf_le_append {read page : List α} (h : Numbered key (read ++ page)) :
    cursorOf key read ≤ cursorOf key (read ++ page) := by
  cases page using List.reverseRecOn with
  | nil => rw [append_nil]
  | append_singleton page x =>
    rw [← append_assoc, cursorOf_concat]
    exact (cursorOf_lt h (mem_append_right _ (mem_singleton_self x))).le

theorem cursorOf_append_eq_getLast {read page : List α} :
    cursorOf key (read ++ page) = (page.getLast?.map key).getD (cursorOf key read) := by
  cases page using List.reverseRecOn with
  | nil => rw [append_nil]; rfl
  | append_singleton page x =>
    rw [← append_assoc, cursorOf_concat, List.getLast?_concat]
    rfl

end PtaasBench.Lib
