import Mathlib.Data.List.Sort
import Mathlib.Data.List.Perm.Basic

/-!
# PtaasBench.Lib.Ranking — the first hit in a list that is sorted first

A stable sort by a total preorder, then a search: the hit is the first of the best hits in the order
of the list (`find?_insertionSort`).  What is read off the hit is the same for every order of the
list just if it is the same for all the best hits (`forall_perm_firstRanked_iff`).
-/

namespace PtaasBench.Lib

open List

variable {α β : Type*} (r : α → α → Prop) [DecidableRel r] (p : α → Bool)

/-- The best hit, the earlier one of two that the order does not tell apart. -/
def firstRanked : List α → Option α
  | [] => none
  | a :: l =>
    if p a then
      match firstRanked l with
      | none => some a
      | some b => if r a b then some a else some b
    else firstRanked l

/-- A hit that no hit is better than. -/
structure IsBest (l : List α) (a : α) : Prop where
  mem : a ∈ l
  hit : p a = true
  best : ∀ b ∈ l, p b = true → r a b

variable {r p}

theorem firstRanked_eq_none_iff {l : List α} : firstRanked r p l = none ↔ ∀ a ∈ l, ¬ p a = true := by
  induction l with
  | nil => exact iff_of_true rfl fun a ha => absurd ha not_mem_nil
  | cons a l ih =>
    rw [firstRanked, forall_mem_cons]
    by_cases ha : p a = true
    · rw [if_pos ha]
      refine iff_of_false ?_ fun h => h.1 ha
      split
      · exact Option.some_ne_none a
      · next b _ =>
        by_cases hab : r a b
        · rw [if_pos hab]
          exact Option.some_ne_none a
        · rw [if_neg hab]
          exact Option.some_ne_none b
    · rw [if_neg ha, ih, and_iff_right ha]

theorem firstRanked_filter (q : α → Bool) (l : List α) :
    firstRanked r p (l.filter q) = firstRanked r (fun a => q a && p a) l := by
  induction l with
  | nil => rfl
  | cons a l ih =>
    rw [firstRanked]
    by_cases ha : q a = true
    · rw [filter_cons_of_pos ha, firstRanked, ih, ha, Bool.true_and]
    · rw [filter_cons_of_neg ha, ih, Bool.eq_false_of_not_eq_true ha, Bool.false_and, if_neg Bool.false_ne_true]

section Order

variable [Std.Total r] [IsTrans α r]

theorem IsBest.of_firstRanked {l : List α} {a : α} (h : firstRanked r p l = some a) : IsBest r p l a := by
  induction l generalizing a with
  | nil => exact absurd h.symm (Option.some_ne_none a)
  | cons x l ih =>
    rw [firstRanked] at h
    by_cases hx : p x = true
    · rw [if_pos hx] at h
      cases hl : firstRanked r p l with
      | none =>
        rw [hl] at h
        obtain rfl := Option.some.inj h
        refine ⟨mem_cons_self, hx, fun b hb hpb => ?_⟩
        rcases mem_cons.mp hb with rfl | hb
        · exact (Std.Total.total b b).elim id id
        · exact absurd hpb (firstRanked_eq_none_iff.mp hl b hb)
      | some y =>
        rw [hl] at h
        dsimp only at h
        have hy := ih hl
        split_ifs at h with hxy
        · obtain rfl := Option.some.inj h
          refine ⟨mem_cons_self, hx, fun b hb hpb => ?_⟩
          rcases mem_cons.mp hb with rfl | hb
          · exact (Std.Total.total b b).elim id id
          · exact IsTrans.trans _ _ _ hxy (hy.best b hb hpb)
        · obtain rfl := Option.some.inj h
          refine ⟨mem_cons_of_mem x hy.mem, hy.hit, fun b hb hpb => ?_⟩
          rcases mem_cons.mp hb with rfl | hb
          · exact (Std.Total.total b y).resolve_left hxy
          · exact hy.best b hb hpb
    · rw [if_neg hx] at h
      have ha := ih h
      refine ⟨mem_cons_of_mem x ha.mem, ha.hit, fun b hb hpb => ?_⟩
      rcases mem_cons.mp hb with rfl | hb
      · exact absurd hpb hx
      · exact ha.best b hb hpb

/-- A best hit that is put first is taken. -/
theorem firstRanked_cons {l : List α} {a : α} (ha : p a = true) (hbest : ∀ b ∈ l, p b = true → r a b) :
    firstRanked r p (a :: l) = some a := by
  rw [firstRanked, if_pos ha]
  cases hl : firstRanked r p l with
  | none => rfl
  | some b =>
    have hb := IsBest.of_firstRanked hl
    exact if_pos (hbest b hb.mem hb.hit)

omit [DecidableRel r] [Std.Total r] [IsTrans α r] in
theorem IsBest.of_perm {l l' : List α} {a : α} (h : IsBest r p l a) (hl : l.Perm l') : IsBest r p l' a :=
  ⟨hl.mem_iff.mp h.mem, h.hit, fun b hb => h.best b (hl.mem_iff.mpr hb)⟩

/-- What is read off the hit does not depend on the order of the list just if it is the same for all
the best hits. -/
theorem forall_perm_firstRanked_iff (f : α → β) (l : List α) :
    (∀ l', l'.Perm l → (firstRanked r p l').map f = (firstRanked r p l).map f) ↔
      ∀ a b, IsBest r p l a → IsBest r p l b → f a = f b := by
  constructor
  · intro h
    have htaken : ∀ a, IsBest r p l a → (firstRanked r p l).map f = some (f a) := by
      intro a ha
      obtain ⟨l1, l2, rfl⟩ := append_of_mem ha.mem
      rw [← h (a :: (l1 ++ l2)) perm_middle.symm]
      rw [firstRanked_cons ha.hit fun b hb => ha.best b (perm_middle.mem_iff.mpr (mem_cons_of_mem a hb))]
      rfl
    exact fun a b ha hb => Option.some.inj ((htaken a ha).symm.trans (htaken b hb))
  · intro h l' hl
    cases hfound : firstRanked r p l' with
    | none =>
      have hnone : firstRanked r p l = none :=
        firstRanked_eq_none_iff.mpr fun a ha => firstRanked_eq_none_iff.mp hfound a (hl.mem_iff.mpr ha)
      rw [hnone]
    | some a =>
      have ha := (IsBest.of_firstRanked hfound).of_perm hl
      cases hfound' : firstRanked r p l with
      | none => exact absurd ha.hit (firstRanked_eq_none_iff.mp hfound' a ha.mem)
      | some b => exact congrArg some (h a b ha (IsBest.of_firstRanked hfound'))

omit [Std.Total r] in
/-- Inserting an item into a sorted list. -/
theorem find?_orderedInsert {l : List α} (hl : l.Pairwise r) (a : α) :
    (l.orderedInsert r a).find? p =
      if p a then
        match l.find? p with
        | none => some a
        | some b => if r a b then some a else some b
      else l.find? p := by
  induction l with
  | nil =>
    rw [orderedInsert_nil, List.find?_nil]
    by_cases ha : p a = true
    · rw [if_pos ha, List.find?_cons_of_pos ha]
    · rw [if_neg ha, List.find?_cons_of_neg ha, List.find?_nil]
  | cons x l ih =>
    obtain ⟨hx, hrest⟩ := pairwise_cons.mp hl
    rw [orderedInsert_cons]
    split_ifs with hax hpa hpa
    · rw [List.find?_cons_of_pos hpa]
      cases hfind : (x :: l).find? p with
      | none => rfl
      | some b =>
        rcases mem_cons.mp (mem_of_find?_eq_some hfind) with rfl | hb
        · exact (if_pos hax).symm
        · exact (if_pos (IsTrans.trans _ _ _ hax (hx b hb))).symm
    · rw [List.find?_cons_of_neg hpa]
    · by_cases hpx : p x = true
      · rw [List.find?_cons_of_pos hpx, List.find?_cons_of_pos hpx]
        exact (if_neg hax).symm
      · rw [List.find?_cons_of_neg hpx, List.find?_cons_of_neg hpx, ih hrest, if_pos hpa]
    · by_cases hpx : p x = true
      · rw [List.find?_cons_of_pos hpx, List.find?_cons_of_pos hpx]
      · rw [List.find?_cons_of_neg hpx, List.find?_cons_of_neg hpx, ih hrest, if_neg hpa]

/-- Sorting a list and searching it takes the first of the best hits. -/
theorem find?_insertionSort (l : List α) : (l.insertionSort r).find? p = firstRanked r p l := by
  induction l with
  | nil => rfl
  | cons a l ih =>
    rw [insertionSort_cons, find?_orderedInsert (pairwise_insertionSort r l), ih, firstRanked]

end Order

end PtaasBench.Lib
