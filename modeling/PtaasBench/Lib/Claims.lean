import Mathlib.Data.Finset.Card
import Mathlib.Data.List.Perm.Basic

/-!
# PtaasBench.Lib.Claims — labelled agents that claim the first item they hit

Agents scan a list of items, and each claims the first item it hits, under its own label; a second
claim of an item under one label does not count.  `claims` counts them item by item.  The order of the
items never matters if and only if, once any of them are taken, any two of the rest are each hit only
together with the other under equally many labels (`forall_perm_claims_iff`).
-/

namespace PtaasBench.Lib

variable {α ι τ : Type*} [DecidableEq τ] (label : α → τ) (hits : α → ι → Bool)

/-- The labels under which an item is hit. -/
def labels (agents : List α) (i : ι) : Finset τ := ((agents.filter (hits · i)).map label).toFinset

/-- The agents that do not hit an item. -/
def missing (agents : List α) (i : ι) : List α := agents.filter (!hits · i)

/-- The agents left when some items are taken. -/
def left (agents : List α) : List ι → List α
  | [] => agents
  | i :: items => left (missing hits agents i) items

/-- How many items are claimed, each counted once for each label. -/
def claims : List ι → List α → ℕ
  | [], _ => 0
  | i :: items, agents => (labels label hits agents i).card + claims items (missing hits agents i)

/-- The labels under which one item is hit, but never without the other. -/
def onlyWith (agents : List α) (i j : ι) : Finset τ :=
  labels label hits agents i \ labels label hits (missing hits agents j) i

variable {label hits}

theorem mem_labels {agents : List α} {i : ι} {t : τ} :
    t ∈ labels label hits agents i ↔ ∃ a ∈ agents, hits a i = true ∧ label a = t := by
  rw [labels, List.mem_toFinset, List.mem_map]
  simp only [List.mem_filter, and_assoc]

theorem mem_missing {agents : List α} {i : ι} {a : α} :
    a ∈ missing hits agents i ↔ a ∈ agents ∧ hits a i = false := by
  rw [missing, List.mem_filter, Bool.not_eq_true']

theorem card_labels (agents : List α) (i j : ι) :
    (labels label hits agents i).card =
      (onlyWith label hits agents i j).card + (labels label hits (missing hits agents j) i).card := by
  have hsub : labels label hits (missing hits agents j) i ⊆ labels label hits agents i := by
    intro t ht
    obtain ⟨a, ha, hi⟩ := mem_labels.mp ht
    exact mem_labels.mpr ⟨a, (mem_missing.mp ha).1, hi⟩
  rw [onlyWith, Finset.card_sdiff_add_card_eq_card hsub]

theorem missing_comm (agents : List α) (i j : ι) :
    missing hits (missing hits agents i) j = missing hits (missing hits agents j) i := by
  rw [missing, missing, missing, missing, List.filter_filter, List.filter_filter]
  simp only [Bool.and_comm]

theorem claims_append (first items : List ι) (agents : List α) :
    claims label hits (first ++ items) agents =
      claims label hits first agents + claims label hits items (left hits agents first) := by
  induction first generalizing agents with
  | nil => simp [claims, left]
  | cons i first ih =>
    rw [List.cons_append, claims, claims, ih, left, Nat.add_assoc]

/-- Two neighbours can be exchanged if and only if each is hit only with the other as often. -/
theorem claims_swap_iff (first rest : List ι) (i j : ι) (agents : List α) :
    claims label hits (first ++ i :: j :: rest) agents =
        claims label hits (first ++ j :: i :: rest) agents ↔
      (onlyWith label hits (left hits agents first) i j).card =
        (onlyWith label hits (left hits agents first) j i).card := by
  rw [claims_append, claims_append]
  generalize left hits agents first = agents
  have hi : (labels label hits agents i).card = _ := card_labels agents i j
  have hj : (labels label hits agents j).card = _ := card_labels agents j i
  simp only [claims, missing_comm agents i j]
  omega

/-- **The number of claims is the same in every order iff no exchange of neighbours changes it.** -/
theorem forall_perm_claims_iff (items : List ι) (agents : List α) :
    (∀ items' : List ι, items'.Perm items →
        claims label hits items' agents = claims label hits items agents) ↔
      ∀ (first rest : List ι) (i j : ι), (first ++ i :: j :: rest).Perm items →
        (onlyWith label hits (left hits agents first) i j).card =
          (onlyWith label hits (left hits agents first) j i).card := by
  constructor
  · intro h first rest i j hperm
    have hswap : (first ++ j :: i :: rest).Perm items :=
      ((List.Perm.swap i j rest).append_left first).trans hperm
    exact (claims_swap_iff first rest i j agents).mp ((h _ hperm).trans (h _ hswap).symm)
  · intro h items' hperm
    -- any part of the list can be reordered behind what is already in place
    have hall : ∀ {l l' : List ι}, l.Perm l' → ∀ first : List ι, (first ++ l).Perm items →
        claims label hits (first ++ l) agents = claims label hits (first ++ l') agents := by
      intro l l' hl
      induction hl with
      | nil => exact fun _ _ => rfl
      | cons i _ ih =>
        intro first hfirst
        have hih := ih (first ++ [i])
        rw [List.append_assoc, List.append_assoc] at hih
        exact hih hfirst
      | swap i j l =>
        intro first hfirst
        exact (claims_swap_iff first l j i agents).mpr (h first l j i hfirst)
      | trans hl _ ih ih' =>
        intro first hfirst
        rw [ih first hfirst]
        exact ih' first ((hl.symm.append_left first).trans hfirst)
    exact hall hperm [] hperm

/-- The claims are the distinct pairs of a label and the first item hit. -/
theorem claims_eq_card [DecidableEq ι] {items : List ι} (hn : items.Nodup) (agents : List α) :
    claims label hits items agents =
      ((agents.filterMap fun a => (items.find? (hits a)).map fun i => (label a, i)).toFinset).card := by
  induction items generalizing agents with
  | nil => simp [claims]
  | cons i items ih =>
    rw [List.nodup_cons] at hn
    set rest := (missing hits agents i).filterMap fun a =>
      (items.find? (hits a)).map fun i => (label a, i) with hrest
    have hsplit : ((agents.filterMap fun a =>
        ((i :: items).find? (hits a)).map fun i => (label a, i)).toFinset) =
          (labels label hits agents i).image (·, i) ∪ rest.toFinset := by
      ext ⟨t, j⟩
      simp only [List.mem_toFinset, List.mem_filterMap, Finset.mem_union, Finset.mem_image,
        Option.map_eq_some_iff, Prod.mk.injEq, hrest]
      constructor
      · rintro ⟨a, ha, j', hfind, rfl, rfl⟩
        by_cases hai : hits a i = true
        · rw [List.find?_cons_of_pos hai, Option.some.injEq] at hfind
          exact Or.inl ⟨label a, mem_labels.mpr ⟨a, ha, hai, rfl⟩, rfl, hfind⟩
        · rw [List.find?_cons_of_neg hai] at hfind
          exact Or.inr ⟨a, mem_missing.mpr ⟨ha, Bool.eq_false_iff.mpr hai⟩, j', hfind, rfl, rfl⟩
      · rintro (⟨t', ht, rfl, rfl⟩ | ⟨a, ha, j', hfind, rfl, rfl⟩)
        · obtain ⟨a, ha, hai, rfl⟩ := mem_labels.mp ht
          exact ⟨a, ha, i, List.find?_cons_of_pos hai, rfl, rfl⟩
        · obtain ⟨ha, hai⟩ := mem_missing.mp ha
          exact ⟨a, ha, j', (List.find?_cons_of_neg (by simp [hai])).trans hfind, rfl, rfl⟩
    have hdisjoint : Disjoint ((labels label hits agents i).image (·, i)) rest.toFinset := by
      rw [Finset.disjoint_left]
      intro p hp hmem
      obtain ⟨t, -, rfl⟩ := Finset.mem_image.mp hp
      obtain ⟨a, -, ha⟩ := List.mem_filterMap.mp (List.mem_toFinset.mp hmem)
      obtain ⟨j, hfind, hj⟩ := Option.map_eq_some_iff.mp ha
      rw [Prod.mk.injEq] at hj
      rw [hj.2] at hfind
      exact hn.1 (List.mem_of_find?_eq_some hfind)
    rw [hsplit, Finset.card_union_of_disjoint hdisjoint, claims, ih hn.2,
      Finset.card_image_of_injective _ fun _ _ h => (Prod.mk.inj h).1]

end PtaasBench.Lib
