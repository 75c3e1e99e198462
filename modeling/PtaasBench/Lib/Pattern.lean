import Mathlib.Data.List.Infix

/-!
# PtaasBench.Lib.Pattern — patterns that are matched by backtracking

A pattern lists the ways it matches at the start of a text, in the order in which they are tried; a
search takes the first of them at the leftmost place that has one.
-/

namespace PtaasBench.Lib

open List

structure Pattern (α β : Type) where
  /-- What is captured, and the text that is left. -/
  run : List α → List (β × List α)

namespace Pattern

variable {α β γ : Type}

instance : Monad (Pattern α) where
  pure b := ⟨fun s => [(b, s)]⟩
  bind p f := ⟨fun s => (p.run s).flatMap fun x => (f x.1).run x.2⟩

theorem run_bind (p : Pattern α β) (f : β → Pattern α γ) (s : List α) :
    (p >>= f).run s = (p.run s).flatMap fun x => (f x.1).run x.2 := rfl

theorem bind_assoc' {δ : Type} (p : Pattern α β) (f : β → Pattern α γ) (g : γ → Pattern α δ) (s : List α) :
    (p >>= f >>= g).run s = (p >>= fun x => f x >>= g).run s := by
  rw [run_bind, run_bind, run_bind, flatMap_assoc]
  rfl

/-- One item of a class. -/
def item (p : α → Bool) : Pattern α α where
  run
    | [] => []
    | c :: s => if p c then [(c, s)] else []

/-- Items of a class, as many as can be. -/
def many (p : α → Bool) : Pattern α (List α) where
  run := go
where
  go : List α → List (List α × List α)
    | [] => [([], [])]
    | c :: s => if p c then (go s).map (fun x => (c :: x.1, x.2)) ++ [([], c :: s)] else [([], c :: s)]

/-- Items of a class, as few as can be. -/
def few (p : α → Bool) : Pattern α (List α) where
  run := go
where
  go : List α → List (List α × List α)
    | [] => [([], [])]
    | c :: s => ([], c :: s) :: if p c then (go s).map fun x => (c :: x.1, x.2) else []

/-- Items of a class, at least one. -/
def many1 (p : α → Bool) : Pattern α (List α) := do
  let c ← item p
  let cs ← many p
  pure (c :: cs)

/-- There or not. -/
def optional (p : Pattern α β) : Pattern α Unit where
  run s := (p.run s).map (fun x => ((), x.2)) ++ [((), s)]

/-- `search`: the leftmost match. -/
def search (p : Pattern α β) : List α → Option β
  | [] => (p.run []).head?.map Prod.fst
  | c :: s =>
    match p.run (c :: s) with
    | x :: _ => some x.1
    | [] => search p s

/-- `match`: is there a match at the start? -/
def isMatch (p : Pattern α β) (s : List α) : Bool := !(p.run s).isEmpty

/-! ## Items of a class -/

theorem run_many_bind_cons (p : α → Bool) (k : List α → Pattern α β) {c : α} (hc : p c = true) (s : List α) :
    (many p >>= k).run (c :: s) = (many p >>= fun x => k (c :: x)).run s ++ (k []).run (c :: s) := by
  rw [run_bind, run_bind, many]
  dsimp only
  rw [many.go, if_pos hc, flatMap_append, flatMap_map, flatMap_singleton]

theorem run_many_bind_stop (p : α → Bool) (k : List α → Pattern α β) {s : List α}
    (hs : ∀ c ∈ s.head?, p c = false) : (many p >>= k).run s = (k []).run s := by
  rw [run_bind, many]
  dsimp only
  cases s with
  | nil => exact flatMap_singleton _ _
  | cons c s =>
    rw [many.go, if_neg (by rw [hs c rfl]; exact Bool.false_ne_true)]
    exact flatMap_singleton _ _

theorem run_many1_bind (p : α → Bool) (k : List α → Pattern α β) {c : α} (hc : p c = true) (s : List α) :
    (many1 p >>= k).run (c :: s) = (many p >>= fun x => k (c :: x)).run s := by
  rw [many1, bind_assoc', run_bind, item]
  dsimp only
  rw [if_pos hc, flatMap_singleton, bind_assoc', run_bind, run_bind]
  exact flatMap_congr fun x _ => flatMap_singleton _ _

theorem run_many1_bind_nil {p : α → Bool} {s : List α} (h : ∀ c ∈ s.head?, p c = false)
    (k : List α → Pattern α β) : (many1 p >>= k).run s = [] := by
  rw [many1, bind_assoc', run_bind, item]
  dsimp only
  cases s with
  | nil => exact flatMap_nil
  | cons c s =>
    dsimp only
    rw [h c rfl]
    exact flatMap_nil

theorem run_few_bind_cons (p : α → Bool) (k : List α → Pattern α β) {c : α} (hc : p c = true) (s : List α) :
    (few p >>= k).run (c :: s) = (k []).run (c :: s) ++ (few p >>= fun x => k (c :: x)).run s := by
  rw [run_bind, run_bind, few]
  dsimp only
  rw [few.go, if_pos hc, flatMap_cons, flatMap_map]

/-- Taking all is the first way to take as many as can be. -/
theorem run_many_bind_first (p : α → Bool) (k : List α → Pattern α β) {xs rest : List α}
    (hxs : ∀ c ∈ xs, p c = true) (hrest : ∀ c ∈ rest.head?, p c = false) :
    ∃ others, (many p >>= k).run (xs ++ rest) = (k xs).run rest ++ others := by
  induction xs generalizing k with
  | nil => exact ⟨[], by rw [append_nil]; exact run_many_bind_stop p k hrest⟩
  | cons c xs ih =>
    obtain ⟨others, hothers⟩ := ih (fun x => k (c :: x)) fun c' hc' => hxs c' (mem_cons_of_mem c hc')
    rw [cons_append, run_many_bind_cons p _ (hxs c mem_cons_self), hothers, append_assoc]
    exact ⟨_, rfl⟩

theorem run_many1_bind_first (p : α → Bool) (k : List α → Pattern α β) {xs rest : List α} (hne : xs ≠ [])
    (hxs : ∀ c ∈ xs, p c = true) (hrest : ∀ c ∈ rest.head?, p c = false) :
    ∃ others, (many1 p >>= k).run (xs ++ rest) = (k xs).run rest ++ others := by
  cases xs with
  | nil => exact absurd rfl hne
  | cons c xs =>
    rw [cons_append, run_many1_bind p _ (hxs c mem_cons_self)]
    exact run_many_bind_first p (fun x => k (c :: x)) (fun c' hc' => hxs c' (mem_cons_of_mem c hc')) hrest

/-- Taking nothing is the first way to take few. -/
theorem run_few_bind_first (p : α → Bool) (k : List α → Pattern α β) (s : List α) :
    ∃ others, (few p >>= k).run s = (k []).run s ++ others := by
  cases s with
  | nil => exact ⟨[], rfl⟩
  | cons c s =>
    rw [run_bind, few]
    dsimp only
    rw [few.go, flatMap_cons]
    exact ⟨_, rfl⟩

/-! ## Searching -/

theorem search_of_run {p : Pattern α β} {s t : List α} {b : β} {others : List (β × List α)}
    (h : p.run s = (b, t) :: others) : p.search s = some b := by
  cases s with
  | nil => rw [search, h, List.head?_cons, Option.map_some]
  | cons c s => rw [search, h]

theorem search_cons {p : Pattern α β} {c : α} {s : List α} (h : p.run (c :: s) = []) :
    p.search (c :: s) = p.search s := by
  rw [search, h]

/-- A match does not start where the first item of the pattern is missing. -/
theorem search_append {p : Pattern α β} {x s : List α} (h : ∀ c ∈ x, ∀ t, p.run (c :: t) = []) :
    p.search (x ++ s) = p.search s := by
  induction x with
  | nil => rfl
  | cons c x ih =>
    rw [cons_append, search_cons (h c mem_cons_self _),
      ih fun c' hc' => h c' (mem_cons_of_mem c hc')]

theorem search_eq_none {p : Pattern α β} {s : List α} (h : ∀ t, t <:+ s → p.run t = []) :
    p.search s = none := by
  induction s with
  | nil => rw [search, h [] (suffix_refl []), List.head?_nil, Option.map_none]
  | cons c s ih =>
    rw [search_cons (h _ (suffix_refl _))]
    exact ih fun t ht => h t (ht.trans (suffix_cons c s))

/-! ## What a match needs -/

/-- What is left is an end of the text. -/
def Consumes (p : Pattern α β) : Prop := ∀ s, ∀ x ∈ p.run s, x.2 <:+ s

/-- A match has the given text in it. -/
def Needs (p : Pattern α β) (w : List α) : Prop := ∀ s, p.run s ≠ [] → w <:+: s

theorem consumes_many (p : α → Bool) : (many p).Consumes := by
  intro s
  show ∀ x ∈ many.go p s, x.2 <:+ s
  induction s with
  | nil =>
    intro x hx
    rw [mem_singleton.mp hx]
  | cons c s ih =>
    intro x hx
    rw [many.go] at hx
    split_ifs at hx
    · rcases mem_append.mp hx with hx | hx
      · obtain ⟨y, hy, rfl⟩ := mem_map.mp hx
        exact (ih y hy).trans (suffix_cons c s)
      · rw [mem_singleton.mp hx]
    · rw [mem_singleton.mp hx]

theorem consumes_item (p : α → Bool) : (item p).Consumes := by
  intro s x hx
  cases s with
  | nil => exact absurd hx not_mem_nil
  | cons c s =>
    rw [item] at hx
    dsimp only at hx
    split_ifs at hx
    · rw [mem_singleton.mp hx]
      exact suffix_cons c s
    · exact absurd hx not_mem_nil

theorem Consumes.bind {p : Pattern α β} {f : β → Pattern α γ} (hp : p.Consumes) (hf : ∀ b, (f b).Consumes) :
    (p >>= f).Consumes := by
  intro s x hx
  rw [run_bind] at hx
  obtain ⟨y, hy, hx⟩ := mem_flatMap.mp hx
  exact (hf y.1 y.2 x hx).trans (hp s y hy)

theorem consumes_pure (b : β) : (pure b : Pattern α β).Consumes := by
  intro s x hx
  rw [mem_singleton.mp hx]

theorem consumes_many1 (p : α → Bool) : (many1 p).Consumes :=
  (consumes_item p).bind fun _ => (consumes_many p).bind fun _ => consumes_pure _

theorem Needs.bind {p : Pattern α β} {f : β → Pattern α γ} {w : List α} (hp : p.Consumes)
    (hf : ∀ b, (f b).Needs w) : (p >>= f).Needs w := by
  intro s hs
  obtain ⟨x, hx⟩ := exists_mem_of_ne_nil _ hs
  rw [run_bind] at hx
  obtain ⟨y, hy, hx⟩ := mem_flatMap.mp hx
  exact (hf y.1 y.2 (ne_nil_of_mem hx)).trans (hp s y hy).isInfix

theorem Needs.search_eq_none {p : Pattern α β} {w s : List α} (h : p.Needs w) (hs : ¬ w <:+: s) :
    p.search s = none := by
  apply Pattern.search_eq_none
  intro t ht
  by_contra hrun
  exact hs ((h t hrun).trans ht.isInfix)

/-- A text that starts with an item lies behind what has no such item. -/
theorem infix_append_iff {d : α} {w x s : List α} (hx : d ∉ x) :
    d :: w <:+: x ++ s ↔ d :: w <:+: s := by
  induction x with
  | nil => exact Iff.rfl
  | cons c x ih =>
    rw [mem_cons, not_or] at hx
    rw [cons_append, infix_cons_iff, ih hx.2, cons_prefix_cons]
    exact or_iff_right fun h => hx.1 h.1

/-! ## Words -/

section Word

variable [DecidableEq α]

/-- A given text. -/
def word (w : List α) : Pattern α Unit where
  run s := if w.isPrefixOf s then [((), s.drop w.length)] else []

theorem run_word_append (w s : List α) : (word w).run (w ++ s) = [((), s)] := by
  rw [word]
  dsimp only
  rw [if_pos (List.isPrefixOf_iff_prefix.mpr (prefix_append w s)), drop_left]

theorem run_word_bind (w s : List α) (k : Unit → Pattern α β) :
    (word w >>= k).run (w ++ s) = (k ()).run s := by
  rw [run_bind, run_word_append]
  exact flatMap_singleton _ _

theorem run_word_bind_nil {w s : List α} (h : ¬ w <+: s) (k : Unit → Pattern α β) :
    (word w >>= k).run s = [] := by
  rw [run_bind, word]
  dsimp only
  rw [if_neg (by rw [List.isPrefixOf_iff_prefix]; exact h), flatMap_nil]

/-- What is there is taken first, and left out after. -/
theorem run_optional_word (w s : List α) (k : Unit → Pattern α β) :
    (optional (word w) >>= k).run (w ++ s) = (k ()).run s ++ (k ()).run (w ++ s) := by
  rw [run_bind, optional]
  dsimp only
  rw [run_word_append, map_singleton, singleton_append, flatMap_cons, flatMap_singleton]

/-- What ends the items lies outside their class, so there is one way to take them. -/
theorem run_many_word {p : α → Bool} {d : α} (hd : p d = false) (w : List α) (k : List α → Pattern α β)
    {xs rest : List α} (hxs : ∀ c ∈ xs, p c = true) (hrest : ∀ c ∈ rest.head?, p c = false) :
    (many p >>= fun x => word (d :: w) >>= fun _ => k x).run (xs ++ rest) =
      (word (d :: w) >>= fun _ => k xs).run rest := by
  induction xs generalizing k with
  | nil => exact run_many_bind_stop p _ hrest
  | cons c xs ih =>
    have hc := hxs c mem_cons_self
    have hne : ¬ d :: w <+: c :: (xs ++ rest) := by
      intro hstart
      rw [(cons_prefix_cons.mp hstart).1, hc] at hd
      exact Bool.false_ne_true hd.symm
    rw [cons_append, run_many_bind_cons p _ hc, run_word_bind_nil hne, append_nil,
      ih (fun x => k (c :: x)) fun c' hc' => hxs c' (mem_cons_of_mem c hc')]

theorem run_many1_word {p : α → Bool} {d : α} (hd : p d = false) (w : List α) (k : List α → Pattern α β)
    {xs rest : List α} (hne : xs ≠ []) (hxs : ∀ c ∈ xs, p c = true) (hrest : ∀ c ∈ rest.head?, p c = false) :
    (many1 p >>= fun x => word (d :: w) >>= fun _ => k x).run (xs ++ rest) =
      (word (d :: w) >>= fun _ => k xs).run rest := by
  cases xs with
  | nil => exact absurd rfl hne
  | cons c xs =>
    rw [cons_append, run_many1_bind p _ (hxs c mem_cons_self)]
    exact run_many_word hd w (fun x => k (c :: x)) (fun c' hc' => hxs c' (mem_cons_of_mem c hc')) hrest

/-- A text without the item has no way to end before it. -/
theorem run_many_nil {p : α → Bool} {d : α} {s : List α} (hd : d ∉ s) (k : List α → Pattern α β) :
    (many p >>= fun x => word [d] >>= fun _ => k x).run s = [] := by
  induction s generalizing k with
  | nil => exact (run_many_bind_stop p _ (by simp)).trans (run_word_bind_nil (by simp) _)
  | cons c s ih =>
    rw [mem_cons, not_or] at hd
    have hne : ¬ [d] <+: c :: s := fun hstart => hd.1 (cons_prefix_cons.mp hstart).1
    by_cases hc : p c = true
    · rw [run_many_bind_cons p _ hc, run_word_bind_nil hne, append_nil, ih hd.2]
    · rw [run_many_bind_stop p _ (by simpa using hc), run_word_bind_nil hne]

/-- The first way to take items up to one of them goes as far as the last. -/
theorem run_many_last {p : α → Bool} {d : α} (k : List α → Pattern α β) {xs rest : List α}
    (hxs : ∀ c ∈ xs, p c = true) (hrest : d ∉ rest) :
    ∃ others, (many p >>= fun x => word [d] >>= fun _ => k x).run (xs ++ d :: rest) =
      (k xs).run rest ++ others := by
  have hword : ∀ k : Pattern α β, (word [d] >>= fun _ => k).run (d :: rest) = k.run rest :=
    fun k => run_word_bind [d] rest fun _ => k
  induction xs generalizing k with
  | nil =>
    refine ⟨[], ?_⟩
    rw [nil_append, append_nil]
    by_cases hd : p d = true
    · rw [run_many_bind_cons p _ hd, run_many_nil hrest, nil_append, hword]
    · rw [run_many_bind_stop p _ (by simpa using hd), hword]
  | cons c xs ih =>
    obtain ⟨others, hothers⟩ := ih (fun x => k (c :: x)) fun c' hc' => hxs c' (mem_cons_of_mem c hc')
    rw [cons_append, run_many_bind_cons p _ (hxs c mem_cons_self), hothers, append_assoc]
    exact ⟨_, rfl⟩

theorem run_many1_last {p : α → Bool} {d : α} (k : List α → Pattern α β) {xs rest : List α} (hne : xs ≠ [])
    (hxs : ∀ c ∈ xs, p c = true) (hrest : d ∉ rest) :
    ∃ others, (many1 p >>= fun x => word [d] >>= fun _ => k x).run (xs ++ d :: rest) =
      (k xs).run rest ++ others := by
  cases xs with
  | nil => exact absurd rfl hne
  | cons c xs =>
    rw [cons_append, run_many1_bind p _ (hxs c mem_cons_self)]
    exact run_many_last (fun x => k (c :: x)) (fun c' hc' => hxs c' (mem_cons_of_mem c hc')) hrest

/-- The first way to take few items up to another goes as far as the first of it. -/
theorem run_few_word {p : α → Bool} {d : α} (k : List α → Pattern α β) {xs rest : List α}
    (hxs : ∀ c ∈ xs, p c = true) (hd : d ∉ xs) :
    ∃ others, (few p >>= fun x => word [d] >>= fun _ => k x).run (xs ++ d :: rest) =
      (k xs).run rest ++ others := by
  induction xs generalizing k with
  | nil =>
    obtain ⟨others, hothers⟩ := run_few_bind_first p (fun x => word [d] >>= fun _ => k x) (d :: rest)
    refine ⟨others, ?_⟩
    rw [nil_append, hothers]
    congr 1
    exact run_word_bind [d] rest _
  | cons c xs ih =>
    rw [mem_cons, not_or] at hd
    obtain ⟨others, hothers⟩ := ih (fun x => k (c :: x))
      (fun c' hc' => hxs c' (mem_cons_of_mem c hc')) hd.2
    refine ⟨others, ?_⟩
    have hne : ¬ [d] <+: c :: (xs ++ d :: rest) := fun hstart => hd.1 (cons_prefix_cons.mp hstart).1
    rw [cons_append, run_few_bind_cons p _ (hxs c mem_cons_self), run_word_bind_nil hne,
      nil_append, hothers]

theorem consumes_word (w : List α) : (word w).Consumes := by
  intro s x hx
  rw [word] at hx
  dsimp only at hx
  split_ifs at hx
  · rw [mem_singleton.mp hx]
    exact drop_suffix _ _
  · exact absurd hx not_mem_nil

theorem needs_word (w : List α) (k : Unit → Pattern α β) : (word w >>= k).Needs w := by
  intro s hs
  by_contra hin
  exact hs (run_word_bind_nil (fun h => hin h.isInfix) k)

end Word

end Pattern

end PtaasBench.Lib
