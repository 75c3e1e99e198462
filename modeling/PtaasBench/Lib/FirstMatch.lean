import Mathlib.Data.List.Perm.Basic
import Mathlib.Data.Set.Basic

/-!
# PtaasBench.Lib.FirstMatch — agents that take the first item they match

A list of items is scanned by agents, each of which takes the first item it matches.  `bad b a`
says that it is bad for agent `b` to take item `a`.  Some order of the items is good for every
agent of a set `A` unless a subset of `A` is *stubborn*: it matches some item, and every item any
of its members matches is bad for a member that matches it (`forall_perm_exists_bad_iff`).
-/

namespace PtaasBench.Lib

open List

variable {α β : Type*} (p : β → α → Bool) (bad : β → α → Prop)

/-- Whichever item a member of `D` meets first, it is bad for a member that meets it. -/
structure Stubborn (l : List α) (D : Set β) : Prop where
  meets : ∃ a ∈ l, ∃ b ∈ D, p b a = true
  bad : ∀ a ∈ l, (∃ b ∈ D, p b a = true) → ∃ b ∈ D, p b a = true ∧ bad b a

variable {p bad}

theorem Stubborn.of_perm {l l' : List α} {D : Set β} (h : Stubborn p bad l D) (hl : l'.Perm l) :
    Stubborn p bad l' D := by
  obtain ⟨a, ha, b, hb, hp⟩ := h.meets
  exact ⟨⟨a, hl.mem_iff.mpr ha, b, hb, hp⟩, fun a ha => h.bad a (hl.mem_iff.mp ha)⟩

/-- In every order, a stubborn set has a member that takes an item that is bad for it. -/
theorem Stubborn.exists_bad {l : List α} {D : Set β} (h : Stubborn p bad l D) :
    ∃ b ∈ D, ∃ a, l.find? (p b) = some a ∧ bad b a := by
  induction l with
  | nil =>
    obtain ⟨a, ha, -⟩ := h.meets
    simp at ha
  | cons x l ih =>
    by_cases hx : ∃ b ∈ D, p b x = true
    · obtain ⟨b, hb, hp, hbad⟩ := h.bad x (by simp) hx
      exact ⟨b, hb, x, by rw [List.find?_cons_of_pos hp], hbad⟩
    · have hx' : ∀ b ∈ D, p b x = false := fun b hb => by
        simpa using fun hp => hx ⟨b, hb, hp⟩
      have hl : Stubborn p bad l D := by
        refine ⟨?_, fun a ha => h.bad a (mem_cons_of_mem x ha)⟩
        obtain ⟨a, ha, b, hb, hp⟩ := h.meets
        rcases mem_cons.mp ha with rfl | ha
        · exact absurd ⟨b, hb, hp⟩ hx
        · exact ⟨a, ha, b, hb, hp⟩
      obtain ⟨b, hb, a, hf, hbad⟩ := ih hl
      exact ⟨b, hb, a, by rw [List.find?_cons_of_neg (by simp [hx' b hb]), hf], hbad⟩

/-- Any item can be put first. -/
theorem exists_perm_find?_eq {l : List α} {a : α} (ha : a ∈ l) :
    ∃ l' : List α, l'.Perm l ∧ ∀ q : α → Bool, q a = true → l'.find? q = some a := by
  obtain ⟨l1, l2, rfl⟩ := append_of_mem ha
  exact ⟨a :: (l1 ++ l2), perm_middle.symm, fun q hq => by rw [List.find?_cons_of_pos hq]⟩

theorem find?_eq_none_of_perm {l l' : List α} (hl : l'.Perm l) {q : α → Bool}
    (h : l.find? q = none) : l'.find? q = none := by
  rw [List.find?_eq_none] at h ⊢
  exact fun a ha => h a (hl.mem_iff.mp ha)

/-- What is read off the first match is the same in every order iff it is the same off every
match. -/
theorem forall_perm_find?_iff {γ : Type*} (l : List α) (q : α → Bool) (g : α → Option γ) :
    (∀ l' : List α, l'.Perm l → (l'.find? q).bind g = (l.find? q).bind g) ↔
      ∀ a ∈ l, ∀ b ∈ l, q a = true → q b = true → g a = g b := by
  constructor
  · intro h a ha b hb hqa hqb
    obtain ⟨la, hla, hfa⟩ := exists_perm_find?_eq ha
    obtain ⟨lb, hlb, hfb⟩ := exists_perm_find?_eq hb
    have hab := (h la hla).trans (h lb hlb).symm
    rwa [hfa q hqa, hfb q hqb, Option.bind_some, Option.bind_some] at hab
  · intro h l' hl'
    cases hf : l.find? q with
    | none => rw [find?_eq_none_of_perm hl' hf]
    | some a =>
      cases hf' : l'.find? q with
      | none =>
        rw [find?_eq_none_of_perm hl'.symm hf'] at hf
        exact absurd hf (by simp)
      | some b =>
        have hb := hl'.mem_iff.mp (mem_of_find?_eq_some hf')
        exact h b hb a (mem_of_find?_eq_some hf) (List.find?_some hf') (List.find?_some hf)

/-- Reordering a list and filtering it gives every order of the filtered list. -/
theorem forall_perm_filter {P : List α → Prop} (l : List α) (q : α → Bool) :
    (∀ l' : List α, l'.Perm l → P (l'.filter q)) ↔
      ∀ m : List α, m.Perm (l.filter q) → P m := by
  constructor
  · intro h m hm
    have hkeep : m.filter q = m :=
      filter_eq_self.mpr fun a ha => (mem_filter.mp (hm.mem_iff.mp ha)).2
    have hdrop : (l.filter fun a => !q a).filter q = [] :=
      filter_eq_nil_iff.mpr fun a ha => by simpa using (mem_filter.mp ha).2
    have := h (m ++ l.filter fun a => !q a)
      ((hm.append_right _).trans (filter_append_perm q l))
    rwa [filter_append, hkeep, hdrop, append_nil] at this
  · exact fun h l' hl' => h _ (hl'.filter q)

/-- Without a stubborn subset the items can be ordered so that no agent takes a bad one: some item
is bad for nobody who matches it; put it first and go on with the agents that do not match it. -/
theorem exists_perm_forall_not_bad : ∀ (n : ℕ) (l : List α) (A : Set β), l.length = n →
    (∀ D ⊆ A, ¬ Stubborn p bad l D) →
    ∃ l' : List α, l'.Perm l ∧ ∀ b ∈ A, ∀ a, l'.find? (p b) = some a → ¬ bad b a
  | 0, l, A, hn, _ => by
    rw [length_eq_zero_iff] at hn
    subst hn
    exact ⟨[], List.Perm.refl _, fun b _ a h => by simp at h⟩
  | n + 1, l, A, hn, hA => by
    by_cases hm : ∃ a ∈ l, ∃ b ∈ A, p b a = true
    · have hgood : ∃ a ∈ l, ∀ b ∈ A, p b a = true → ¬ bad b a := by
        by_contra hc
        refine hA A subset_rfl ⟨hm, fun a ha _ => ?_⟩
        by_contra hb
        exact hc ⟨a, ha, fun b hbA hp hbad => hb ⟨b, hbA, hp, hbad⟩⟩
      obtain ⟨a, ha, hna⟩ := hgood
      obtain ⟨l1, l2, rfl⟩ := append_of_mem ha
      have hperm : (a :: (l1 ++ l2)).Perm (l1 ++ a :: l2) := perm_middle.symm
      obtain ⟨l', hl', hgood'⟩ := exists_perm_forall_not_bad n (l1 ++ l2)
        {b | b ∈ A ∧ p b a = false} (by simp at hn ⊢; omega) (by
          intro D hD hst
          refine hA D (fun b hb => (hD hb).1) (Stubborn.of_perm ?_ hperm.symm)
          -- nobody in `D` matches `a`, so adding it changes nothing
          refine ⟨?_, fun x hx hxb => ?_⟩
          · obtain ⟨x, hx, hb⟩ := hst.meets
            exact ⟨x, mem_cons_of_mem a hx, hb⟩
          · rcases mem_cons.mp hx with rfl | hx
            · obtain ⟨b, hb, hp⟩ := hxb
              rw [(hD hb).2] at hp
              exact absurd hp (by simp)
            · exact hst.bad x hx hxb)
      refine ⟨a :: l', (hl'.cons a).trans hperm, fun b hb x hf => ?_⟩
      by_cases hp : p b a = true
      · rw [List.find?_cons_of_pos hp, Option.some.injEq] at hf
        exact hf ▸ hna b hb hp
      · rw [List.find?_cons_of_neg hp] at hf
        exact hgood' b ⟨hb, by simpa using hp⟩ x hf
    · refine ⟨l, List.Perm.refl _, fun b hb a hf => ?_⟩
      exact absurd ⟨a, mem_of_find?_eq_some hf, b, hb, List.find?_some hf⟩ hm

/-- **Every order has a badly served agent iff a subset of the agents is stubborn.** -/
theorem forall_perm_exists_bad_iff (l : List α) (A : Set β) :
    (∀ l' : List α, l'.Perm l → ∃ b ∈ A, ∃ a, l'.find? (p b) = some a ∧ bad b a) ↔
      ∃ D ⊆ A, Stubborn p bad l D := by
  constructor
  · intro h
    by_contra hc
    obtain ⟨l', hl', hgood⟩ := exists_perm_forall_not_bad l.length l A rfl
      (fun D hD hst => hc ⟨D, hD, hst⟩)
    obtain ⟨b, hb, a, hf, hbad⟩ := h l' hl'
    exact hgood b hb a hf hbad
  · rintro ⟨D, hD, hst⟩ l' hl'
    obtain ⟨b, hb, a, hf, hbad⟩ := (hst.of_perm hl').exists_bad
    exact ⟨b, hD hb, a, hf, hbad⟩

/-- In a list that goes up, the first match is the least one. -/
theorem find?_eq_some_iff_of_sorted {α : Type*} [LinearOrder α] {q : α → Bool} {l : List α}
    (hl : l.Pairwise (· < ·)) {x : α} :
    l.find? q = some x ↔ x ∈ l ∧ q x = true ∧ ∀ y ∈ l, y < x → q y = false := by
  induction hl with
  | nil => simp
  | @cons a l ha hl ih =>
    by_cases hq : q a = true
    · rw [List.find?_cons_of_pos hq, Option.some_inj]
      constructor
      · rintro rfl
        refine ⟨mem_cons_self, hq, fun y hy hya => ?_⟩
        rcases mem_cons.mp hy with rfl | hy
        · exact absurd hya (lt_irrefl _)
        · exact absurd hya (not_lt_of_gt (ha y hy))
      · rintro ⟨hx, -, hfirst⟩
        rcases mem_cons.mp hx with rfl | hx
        · rfl
        · have := hfirst a mem_cons_self (ha x hx)
          rw [hq] at this
          cases this
    · rw [List.find?_cons_of_neg hq, ih]
      constructor
      · rintro ⟨hx, hqx, hfirst⟩
        refine ⟨mem_cons_of_mem _ hx, hqx, fun y hy hyx => ?_⟩
        rcases mem_cons.mp hy with rfl | hy
        · exact Bool.eq_false_iff.mpr hq
        · exact hfirst y hy hyx
      · rintro ⟨hx, hqx, hfirst⟩
        refine ⟨?_, hqx, fun y hy => hfirst y (mem_cons_of_mem _ hy)⟩
        rcases mem_cons.mp hx with rfl | hx
        · exact absurd hqx hq
        · exact hx

end PtaasBench.Lib
