import Mathlib.Data.List.Infix
import Mathlib.Data.List.Nodup
import Mathlib.Logic.Relation

/-!
# PtaasBench.Lib.FirstPath — the paths of a depth-first search

A search goes through a list of roots and, at every node, through the node's own list.  It comes to a node along
the node's first path: of the paths without repetition that lead there, the one whose choices stand earliest in
their lists.  What the search has reached when it stands at a path is what is led to by a path before that one.
-/

namespace PtaasBench.Lib

open List

/-- What a search goes through, in order. -/
structure OrderedGraph (α : Type*) where
  roots : List α
  next : α → List α

namespace OrderedGraph

variable {α : Type*} (G : OrderedGraph α)

/-- The choices at the end of a path. -/
def choices (p : List α) : List α :=
  match p.getLast? with
  | none => G.roots
  | some x => G.next x

/-- A path from the roots that repeats no node and stays among them. -/
inductive Chain : List α → Prop
  | nil : Chain []
  | snoc {p : List α} {y : α} : Chain p → y ∈ G.choices p → y ∈ G.roots → y ∉ p → Chain (p ++ [y])

variable {G}

theorem Chain.of_front {p q : List α} (h : G.Chain q) (hp : p <+: q) : G.Chain p := by
  induction h with
  | nil =>
    rw [prefix_nil.mp hp]
    exact .nil
  | snoc h hy hroot hne ih =>
    rcases prefix_concat_iff.mp hp with rfl | hp
    · exact .snoc h hy hroot hne
    · exact ih hp

theorem chain_concat {p : List α} {y : α} (h : G.Chain (p ++ [y])) :
    G.Chain p ∧ y ∈ G.choices p ∧ y ∈ G.roots ∧ y ∉ p := by
  generalize hq : p ++ [y] = q at h
  cases h with
  | nil => simp at hq
  | snoc h hy hroot hne =>
    obtain ⟨rfl, hy'⟩ := append_inj' hq rfl
    obtain rfl := (List.cons.inj hy').1
    exact ⟨h, hy, hroot, hne⟩

theorem chain_through {p q : List α} {y : α} (hq : G.Chain q) (hpq : p ++ [y] <+: q) :
    y ∈ G.choices p ∧ y ∈ G.roots ∧ y ∉ p :=
  (chain_concat (hq.of_front hpq)).2

theorem Chain.subset {p : List α} (h : G.Chain p) : ∀ x ∈ p, x ∈ G.roots := by
  induction h with
  | nil => simp
  | snoc h hy hroot hne ih =>
    intro x hx
    rcases mem_append.mp hx with hx | hx
    · exact ih x hx
    · rwa [mem_singleton.mp hx]

theorem Chain.nodup {p : List α} (h : G.Chain p) : p.Nodup := by
  induction h with
  | nil => exact nodup_nil
  | snoc h hy hroot hne ih =>
    rw [← concat_eq_append]
    exact List.Nodup.concat hne ih

/-- From a node of a path, the path leads on to its end. -/
theorem Chain.leads {a b : List α} {x u : α} (h : G.Chain (a ++ x :: b)) (hu : (a ++ x :: b).getLast? = some u) :
    Relation.ReflTransGen (fun x y => y ∈ G.next x) x u := by
  induction b using List.reverseRecOn generalizing u with
  | nil =>
    rw [List.getLast?_concat] at hu
    rw [Option.some.inj hu]
  | append_singleton b y ih =>
    have hsplit : a ++ x :: (b ++ [y]) = (a ++ x :: b) ++ [y] := by simp
    rw [hsplit] at h hu
    rw [List.getLast?_concat] at hu
    obtain rfl := Option.some.inj hu
    obtain ⟨hchain, hy, -⟩ := chain_concat h
    obtain ⟨s, hs⟩ : ∃ s, (a ++ x :: b).getLast? = some s :=
      ⟨_, List.getLast?_eq_some_getLast (by simp)⟩
    rw [choices, hs] at hy
    exact (ih hchain hs).tail hy

section Order

variable [DecidableEq α]

/-- Where the two paths part, the first takes the choice that stands earlier. -/
def Before (G : OrderedGraph α) (q p : List α) : Prop :=
  ∃ c a z, c ++ [a] <+: q ∧ c ++ [z] <+: p ∧ (G.choices c).idxOf a < (G.choices c).idxOf z

/-- What a search at the end of `p` has followed, with `done` of its choices behind it. -/
def Ahead (G : OrderedGraph α) (p done q : List α) : Prop := G.Before q p ∨ ∃ d ∈ done, p ++ [d] <+: q

/-- What it has reached. -/
def Reached (G : OrderedGraph α) (p done : List α) (v : α) : Prop :=
  ∃ q, G.Chain q ∧ q.getLast? = some v ∧ G.Ahead p done q

/-- The first path to its end. -/
structure First (G : OrderedGraph α) (p : List α) : Prop where
  chain : G.Chain p
  first : ∀ q, G.Chain q → q.getLast? = p.getLast? → ¬ G.Before q p

theorem Before.of_front {q p p' : List α} (h : G.Before q p) (hp : p <+: p') : G.Before q p' := by
  obtain ⟨c, a, z, hq, hz, hlt⟩ := h
  exact ⟨c, a, z, hq, hz.trans hp, hlt⟩

/-- Being ahead is decided where the path leaves `p`. -/
theorem Ahead.branch {p done q : List α} (h : G.Ahead p done q) :
    ∃ c a, c ++ [a] <+: q ∧ c <+: p ∧ ∀ q', c ++ [a] <+: q' → G.Ahead p done q' := by
  rcases h with ⟨c, a, z, hq, hz, hlt⟩ | ⟨d, hd, hq⟩
  · exact ⟨c, a, hq, (prefix_append c [z]).trans hz, fun q' hq' => Or.inl ⟨c, a, z, hq', hz, hlt⟩⟩
  · exact ⟨p, d, hq, prefix_refl p, fun q' hq' => Or.inr ⟨d, hd, hq'⟩⟩

theorem reached_next {p done : List α} {s t : α} (h : G.Reached p done s) (ht : t ∈ G.next s) (hroot : t ∈ G.roots)
    (hp : t ∉ p) : G.Reached p done t := by
  obtain ⟨q, hq, hlast, hahead⟩ := h
  obtain ⟨c, a, hca, hc, hkeep⟩ := hahead.branch
  by_cases htq : t ∈ q
  · -- the path to `s` passes `t`, behind the point where it leaves `p`
    obtain ⟨u, w, rfl⟩ := append_of_mem htq
    have hfront : u ++ [t] <+: u ++ t :: w := ⟨w, by simp⟩
    refine ⟨u ++ [t], hq.of_front hfront, List.getLast?_concat, hkeep _ ?_⟩
    rcases List.prefix_or_prefix_of_prefix hca hfront with h | h
    · exact h
    · rcases prefix_concat_iff.mp h with heq | hshort
      · exact heq ▸ prefix_refl _
      · exact absurd (hc.subset (hshort.subset (by simp))) hp
  · have hmem : t ∈ G.choices q := by rwa [choices, hlast]
    exact ⟨q ++ [t], .snoc hq hmem hroot htq, List.getLast?_concat, hkeep _ (hca.trans (prefix_append q [t]))⟩

theorem reached_concat {p done : List α} {y v : α} :
    G.Reached p (done ++ [y]) v ↔
      G.Reached p done v ∨ ∃ q, G.Chain q ∧ q.getLast? = some v ∧ p ++ [y] <+: q := by
  constructor
  · rintro ⟨q, hq, hlast, hbefore | ⟨d, hd, hpq⟩⟩
    · exact Or.inl ⟨q, hq, hlast, Or.inl hbefore⟩
    · rcases mem_append.mp hd with hd | hd
      · exact Or.inl ⟨q, hq, hlast, Or.inr ⟨d, hd, hpq⟩⟩
      · obtain rfl := mem_singleton.mp hd
        exact Or.inr ⟨q, hq, hlast, hpq⟩
  · rintro (⟨q, hq, hlast, hbefore | ⟨d, hd, hpq⟩⟩ | ⟨q, hq, hlast, hpq⟩)
    · exact ⟨q, hq, hlast, Or.inl hbefore⟩
    · exact ⟨q, hq, hlast, Or.inr ⟨d, mem_append_left _ hd, hpq⟩⟩
    · exact ⟨q, hq, hlast, Or.inr ⟨y, by simp, hpq⟩⟩

theorem reached_of_mem {p done : List α} {y : α} (hp : G.Chain p) (hchoice : y ∈ G.choices p) (hroot : y ∈ G.roots)
    (hne : y ∉ p) (hdone : y ∈ done) : G.Reached p done y :=
  ⟨_, .snoc hp hchoice hroot hne, List.getLast?_concat, Or.inr ⟨y, hdone, prefix_refl _⟩⟩

/-- Behind a node that is reached, everything a path can go on to is. -/
theorem reached_along {p done q : List α} {y v : α} (hq : G.Chain q) (hy : G.Reached p done y)
    (hpq : p ++ [y] <+: q) (hlast : q.getLast? = some v) : G.Reached p done v := by
  induction hq generalizing v with
  | nil => simp at hpq
  | @snoc q t h ht hroot hne ih =>
    rw [List.getLast?_concat] at hlast
    obtain rfl := Option.some.inj hlast
    rcases prefix_concat_iff.mp hpq with heq | hpq
    · rwa [← (List.cons.inj (append_inj' heq rfl).2).1]
    · obtain ⟨s, hs⟩ : ∃ s, q.getLast? = some s := by
        refine ⟨_, List.getLast?_eq_some_getLast ?_⟩
        rintro rfl
        simp at hpq
      rw [choices, hs] at ht
      refine reached_next (ih hpq hs) ht hroot fun hmem => hne (hpq.subset (mem_append_left _ hmem))

/-- A step to the next choice: what was ahead is now before. -/
theorem before_concat_iff {p done rest q : List α} {y : α} (hchoices : G.choices p = done ++ y :: rest)
    (hdone : y ∉ done) : G.Before q (p ++ [y]) ↔ G.Ahead p done q := by
  constructor
  · rintro ⟨c, a, z, hq, hz, hlt⟩
    rcases prefix_concat_iff.mp hz with heq | hz
    · obtain ⟨rfl, hzy⟩ := append_inj' heq rfl
      obtain rfl := (List.cons.inj hzy).1
      right
      refine ⟨a, ?_, hq⟩
      by_contra ha
      rw [hchoices, idxOf_append_of_notMem ha, idxOf_append_of_notMem hdone, idxOf_cons_self] at hlt
      omega
    · exact Or.inl ⟨c, a, z, hq, hz, hlt⟩
  · rintro (h | ⟨d, hd, hq⟩)
    · exact h.of_front (prefix_append p [y])
    · refine ⟨p, d, y, hq, prefix_refl _, ?_⟩
      rw [hchoices, idxOf_append_of_mem hd, idxOf_append_of_notMem hdone]
      exact (idxOf_lt_length_of_mem hd).trans_le (Nat.le_add_right _ _)

theorem first_of_not_reached {p done rest : List α} {y : α} (hchoices : G.choices p = done ++ y :: rest)
    (hdone : y ∉ done) (hchain : G.Chain (p ++ [y])) (hy : ¬ G.Reached p done y) : G.First (p ++ [y]) := by
  refine ⟨hchain, fun q hq hlast hbefore => hy ⟨q, hq, ?_, (before_concat_iff hchoices hdone).mp hbefore⟩⟩
  rw [hlast, List.getLast?_concat]

/-- No first path goes on through a node that is reached already. -/
theorem not_first_of_reached {p done rest q : List α} {y : α} (hchoices : G.choices p = done ++ y :: rest)
    (hdone : y ∉ done) (hy : G.Reached p done y) (hpq : p ++ [y] <+: q) : ¬ G.First q := by
  intro hfirst
  obtain ⟨v, hv⟩ : ∃ v, q.getLast? = some v := by
    refine ⟨_, List.getLast?_eq_some_getLast ?_⟩
    rintro rfl
    simp at hpq
  obtain ⟨q', hq', hlast, hahead⟩ := reached_along hfirst.chain hy hpq hv
  exact hfirst.first q' hq' (hlast.trans hv.symm)
    (((before_concat_iff hchoices hdone).mpr hahead).of_front hpq)

/-- Having gone through the choices of a node, the search has dealt with the node. -/
theorem reached_close {p done rest : List α} {y v : α} (hchoices : G.choices p = done ++ y :: rest) (hdone : y ∉ done)
    (hchain : G.Chain (p ++ [y])) :
    G.Reached (p ++ [y]) (G.choices (p ++ [y])) v ∨ v = y ↔ G.Reached p (done ++ [y]) v := by
  constructor
  · rintro (⟨q, hq, hlast, hbefore | ⟨d, -, hpq⟩⟩ | rfl)
    · refine ⟨q, hq, hlast, ?_⟩
      rcases (before_concat_iff hchoices hdone).mp hbefore with h | ⟨d, hd, hpq⟩
      · exact Or.inl h
      · exact Or.inr ⟨d, mem_append_left _ hd, hpq⟩
    · exact ⟨q, hq, hlast, Or.inr ⟨y, by simp, (prefix_append _ [d]).trans hpq⟩⟩
    · exact ⟨_, hchain, List.getLast?_concat, Or.inr ⟨v, by simp, prefix_refl _⟩⟩
  · rintro ⟨q, hq, hlast, hbefore | ⟨d, hd, hpq⟩⟩
    · exact Or.inl ⟨q, hq, hlast, Or.inl (hbefore.of_front (prefix_append p [y]))⟩
    · rcases mem_append.mp hd with hd | hd
      · exact Or.inl ⟨q, hq, hlast, Or.inl ((before_concat_iff hchoices hdone).mpr (Or.inr ⟨d, hd, hpq⟩))⟩
      · obtain rfl := mem_singleton.mp hd
        obtain ⟨more, rfl⟩ := hpq
        cases more with
        | nil =>
          rw [append_nil, List.getLast?_concat] at hlast
          exact Or.inr (Option.some.inj hlast).symm
        | cons e more =>
          have hpre : (p ++ [d]) ++ [e] <+: (p ++ [d]) ++ e :: more := ⟨more, by simp⟩
          obtain ⟨-, he, -⟩ := chain_concat (hq.of_front hpre)
          exact Or.inl ⟨_, hq, hlast, Or.inr ⟨e, he, hpre⟩⟩

theorem reached_nil_iff {p : List α} {v : α} :
    G.Reached p [] v ↔ ∃ q, G.Chain q ∧ q.getLast? = some v ∧ G.Before q p := by
  simp [Reached, Ahead]

/-! ## Cycles closed from the end of a path -/

/-- A choice at the end of the path stands on the path, at or before `v`. -/
def Closes (G : OrderedGraph α) (p : List α) (v : α) : Prop :=
  ∃ w ∈ G.choices p, w ∈ p ∧ v ∈ p.drop (p.idxOf w)

/-- The cycles closed at the end of `p` and behind it, through `done` of its choices. -/
def Found (G : OrderedGraph α) (p done : List α) (v : α) : Prop :=
  ∃ d ∈ done, (d ∈ p ∧ v ∈ p.drop (p.idxOf d)) ∨ ∃ q, G.First q ∧ p ++ [d] <+: q ∧ G.Closes q v

theorem found_concat {p done : List α} {y v : α} :
    G.Found p (done ++ [y]) v ↔ G.Found p done v ∨ (y ∈ p ∧ v ∈ p.drop (p.idxOf y)) ∨
      ∃ q, G.First q ∧ p ++ [y] <+: q ∧ G.Closes q v := by
  constructor
  · rintro ⟨d, hd, h⟩
    rcases mem_append.mp hd with hd | hd
    · exact Or.inl ⟨d, hd, h⟩
    · obtain rfl := mem_singleton.mp hd
      exact Or.inr h
  · rintro (⟨d, hd, h⟩ | h)
    · exact ⟨d, mem_append_left _ hd, h⟩
    · exact ⟨y, by simp, h⟩

theorem found_close {p : List α} {v : α} (hfirst : G.First p) :
    G.Found p (G.choices p) v ↔ ∃ q, G.First q ∧ p <+: q ∧ G.Closes q v := by
  constructor
  · rintro ⟨d, hd, ⟨hmem, hv⟩ | ⟨q, hq, hpq, hcloses⟩⟩
    · exact ⟨p, hfirst, prefix_refl p, d, hd, hmem, hv⟩
    · exact ⟨q, hq, (prefix_append p [d]).trans hpq, hcloses⟩
  · rintro ⟨q, hq, ⟨more, rfl⟩, hcloses⟩
    cases more with
    | nil =>
      obtain ⟨w, hw, hmem, hv⟩ := hcloses
      rw [append_nil] at hw hmem hv
      exact ⟨w, hw, Or.inl ⟨hmem, hv⟩⟩
    | cons e more =>
      have hpre : p ++ [e] <+: p ++ e :: more := ⟨more, by simp⟩
      obtain ⟨-, he, -⟩ := chain_concat (hq.chain.of_front hpre)
      exact ⟨e, he, Or.inr ⟨_, hq, hpre, hcloses⟩⟩

theorem found_roots {v : α} : G.Found [] G.roots v ↔ ∃ q, G.First q ∧ G.Closes q v := by
  have hfirst : G.First [] := by
    refine ⟨.nil, ?_⟩
    rintro q - - ⟨c, a, z, -, hz, -⟩
    simp at hz
  have h : G.Found [] G.roots v ↔ ∃ q, G.First q ∧ [] <+: q ∧ G.Closes q v := found_close hfirst
  simpa using h

/-- What is reported lies on a cycle. -/
theorem Closes.cycle {p : List α} {v : α} (hp : G.Chain p) (h : G.Closes p v) :
    Relation.TransGen (fun x y => y ∈ G.next x) v v := by
  obtain ⟨w, hw, hmem, hv⟩ := h
  obtain ⟨front, back, rfl, hfront⟩ := eq_append_cons_of_mem hmem
  rw [idxOf_append_of_notMem hfront, idxOf_cons_self, Nat.add_zero, drop_left] at hv
  obtain ⟨u, hu⟩ : ∃ u, (front ++ w :: back).getLast? = some u :=
    ⟨_, List.getLast?_eq_some_getLast (by simp)⟩
  rw [choices, hu] at hw
  obtain ⟨s, t, hst⟩ := append_of_mem hv
  have hvu : Relation.ReflTransGen (fun x y => y ∈ G.next x) v u := by
    have hsplit : front ++ w :: back = (front ++ s) ++ v :: t := by rw [hst, append_assoc]
    rw [hsplit] at hp hu
    exact hp.leads hu
  have hwv : Relation.ReflTransGen (fun x y => y ∈ G.next x) w v := by
    cases s with
    | nil =>
      rw [(List.cons.inj hst).1]
    | cons w' s =>
      obtain ⟨rfl, hback⟩ := List.cons.inj hst
      have hpre : front ++ w :: (s ++ [v]) <+: front ++ w :: back := ⟨t, by rw [hback]; simp⟩
      refine (hp.of_front hpre).leads ?_
      rw [append_cons, ← append_assoc, List.getLast?_concat]
  exact Relation.TransGen.trans_left (Relation.TransGen.tail' hvu hw) hwv

end Order

end OrderedGraph

end PtaasBench.Lib
