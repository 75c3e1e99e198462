import Mathlib.Data.List.Infix

/-!
# PtaasBench.Lib.Splitting — texts cut at a word

The first occurrence of a word, and the pieces between its occurrences from the left.  No occurrence reaches over an
item the word does not have, so a text can be taken apart there (`split_around`).
-/

namespace PtaasBench.Lib

open List

variable {α : Type*} [DecidableEq α] {w : List α}

/-- The text before the first occurrence of a word, and the text behind it. -/
def cut (w : List α) : List α → Option (List α × List α)
  | [] => if w = [] then some ([], []) else none
  | c :: t =>
    if w.isPrefixOf (c :: t) then some ([], (c :: t).drop w.length)
    else (cut w t).map fun (a, b) => (c :: a, b)

/-- The pieces of a text, where so many items of it are passed over. -/
def splitFrom (w : List α) : ℕ → List α → List (List α)
  | _, [] => [[]]
  | skip + 1, _ :: t => splitFrom w skip t
  | 0, c :: t =>
    if w.isPrefixOf (c :: t) then [] :: splitFrom w (w.length - 1) t
    else
      match splitFrom w 0 t with
      | [] => []
      | piece :: pieces => (c :: piece) :: pieces

/-- The pieces of a text between the occurrences of a word, from the left. -/
def split (w : List α) (t : List α) : List (List α) := splitFrom w 0 t

theorem cut_append {t a b : List α} (h : cut w t = some (a, b)) : t = a ++ w ++ b := by
  induction t generalizing a with
  | nil =>
    rw [cut] at h
    split_ifs at h with hw
    obtain ⟨rfl, rfl⟩ := Prod.mk.inj (Option.some.inj h)
    rw [hw]
    rfl
  | cons c t ih =>
    rw [cut] at h
    by_cases hw : w.isPrefixOf (c :: t) = true
    · rw [if_pos hw] at h
      obtain ⟨rfl, rfl⟩ := Prod.mk.inj (Option.some.inj h)
      exact prefix_iff_eq_append.mp (List.isPrefixOf_iff_prefix.mp hw) |>.symm
    · rw [if_neg hw] at h
      obtain ⟨⟨a', b'⟩, hcut, heq⟩ := Option.map_eq_some_iff.mp h
      obtain ⟨rfl, rfl⟩ := Prod.mk.inj heq
      rw [ih hcut]
      rfl

theorem cut_eq_none_iff {t : List α} : cut w t = none ↔ ¬w <:+: t := by
  induction t with
  | nil =>
    rw [cut, infix_nil]
    by_cases hw : w = []
    · rw [if_pos hw]
      exact iff_of_false (Option.some_ne_none _) (not_not.mpr hw)
    · rw [if_neg hw]
      exact iff_of_true rfl hw
  | cons c t ih =>
    rw [cut, infix_cons_iff]
    by_cases hw : w.isPrefixOf (c :: t) = true
    · rw [if_pos hw]
      exact iff_of_false (Option.some_ne_none _) (not_not.mpr (Or.inl (List.isPrefixOf_iff_prefix.mp hw)))
    · rw [if_neg hw, Option.map_eq_none_iff, ih, not_or]
      exact (and_iff_right fun h => hw (List.isPrefixOf_iff_prefix.mpr h)).symm

/-- The first occurrence stays the first when the text goes on. -/
theorem cut_append_right {t a b : List α} (h : cut w t = some (a, b)) (more : List α) :
    cut w (t ++ more) = some (a, b ++ more) := by
  induction t generalizing a with
  | nil =>
    rw [cut] at h
    split_ifs at h with hw
    obtain ⟨rfl, rfl⟩ := Prod.mk.inj (Option.some.inj h)
    cases more with
    | nil => rw [append_nil, cut, if_pos hw]
    | cons c more => rw [nil_append, cut, hw]; rfl
  | cons c t ih =>
    rw [cut] at h
    rw [cons_append, cut]
    by_cases hw : w.isPrefixOf (c :: t) = true
    · have hfront := List.isPrefixOf_iff_prefix.mp hw
      have hmore : w.isPrefixOf (c :: (t ++ more)) = true :=
        List.isPrefixOf_iff_prefix.mpr (hfront.trans (prefix_append (c :: t) more))
      rw [if_pos hw] at h
      obtain ⟨rfl, rfl⟩ := Prod.mk.inj (Option.some.inj h)
      rw [if_pos hmore, ← cons_append, drop_append_of_le_length hfront.length_le]
    · rw [if_neg hw] at h
      obtain ⟨⟨a', b'⟩, hcut, heq⟩ := Option.map_eq_some_iff.mp h
      obtain ⟨rfl, rfl⟩ := Prod.mk.inj heq
      have hmore : ¬w.isPrefixOf (c :: (t ++ more)) = true := by
        intro hp
        -- the word already fits into the text
        have hlength : w.length ≤ (c :: t).length := by
          have hbound := congrArg List.length (cut_append hcut)
          simp only [length_append, length_cons] at hbound ⊢
          omega
        exact hw (List.isPrefixOf_iff_prefix.mpr (prefix_of_prefix_length_le
          (List.isPrefixOf_iff_prefix.mp hp) (prefix_append (c :: t) more) hlength))
      rw [if_neg hmore, ih hcut]
      rfl

/-- The first occurrence has none before it. -/
theorem cut_fst_absent (hw : w ≠ []) {t a b : List α} (h : cut w t = some (a, b)) : ¬w <:+: a := by
  intro hinfix
  cases hcut : cut w a with
  | none => exact cut_eq_none_iff.mp hcut hinfix
  | some p =>
    obtain ⟨x, y⟩ := p
    have hmore := cut_append_right hcut (w ++ b)
    rw [← append_assoc, ← cut_append h, h] at hmore
    have hlength := congrArg List.length (cut_append hcut)
    rw [(Prod.mk.inj (Option.some.inj hmore)).1, length_append, length_append] at hlength
    have hpos := length_pos_iff.mpr hw
    omega

theorem cut_self_append (hw : w ≠ []) (t : List α) : cut w (w ++ t) = some ([], t) := by
  have hp : w.isPrefixOf (w ++ t) = true := List.isPrefixOf_iff_prefix.mpr (prefix_append w t)
  have hdrop : (w ++ t).drop w.length = t := drop_left
  obtain ⟨c, r, hcr⟩ := exists_cons_of_ne_nil (append_ne_nil_of_left_ne_nil hw t)
  rw [hcr] at hp hdrop ⊢
  rw [cut, if_pos hp, hdrop]

/-- An item the word does not have ends every occurrence that begins before it. -/
theorem cut_around (hw : w ≠ []) {c : α} (hc : c ∉ w) {x : List α} (hx : ¬w <:+: x) (y : List α) :
    cut w (x ++ c :: y) = (cut w y).map fun p => (x ++ c :: p.1, p.2) := by
  induction x with
  | nil =>
    have hp : ¬w.isPrefixOf (c :: y) = true := by
      intro hp
      obtain ⟨d, r, rfl⟩ := exists_cons_of_ne_nil hw
      obtain ⟨rfl, -⟩ := cons_prefix_cons.mp (List.isPrefixOf_iff_prefix.mp hp)
      exact hc mem_cons_self
    rw [nil_append, cut, if_neg hp]
    rfl
  | cons d x ih =>
    have hp : ¬w.isPrefixOf (d :: (x ++ c :: y)) = true := by
      intro hp
      have hfront : w <+: (d :: x) ++ c :: y := List.isPrefixOf_iff_prefix.mp hp
      rcases Nat.lt_or_ge (d :: x).length w.length with hlt | hle
      · -- the word reaches over the item
        have hinside : (d :: x) ++ [c] <+: (d :: x) ++ c :: y :=
          (prefix_append_right_inj _).mpr ⟨y, rfl⟩
        have hlength : ((d :: x) ++ [c]).length ≤ w.length := by
          rw [length_append, length_singleton]
          exact hlt
        have hword := prefix_of_prefix_length_le hinside hfront hlength
        exact hc (hword.subset (mem_append_right _ (mem_singleton_self c)))
      · exact hx (prefix_of_prefix_length_le hfront (prefix_append _ _) hle).isInfix
    have hrest := ih fun h => hx (h.trans (suffix_cons d x).isInfix)
    rw [cons_append, cut, if_neg hp, hrest, Option.map_map]
    rfl

theorem not_infix_around (hw : w ≠ []) {c : α} (hc : c ∉ w) {x y : List α} (hx : ¬w <:+: x) (hy : ¬w <:+: y) :
    ¬w <:+: x ++ c :: y := by
  rw [← cut_eq_none_iff, cut_around hw hc hx, cut_eq_none_iff.mpr hy]
  rfl

/-! ## Pieces -/

theorem splitFrom_skip (w : List α) {n : ℕ} {t : List α} (h : n ≤ t.length) :
    splitFrom w n t = split w (t.drop n) := by
  induction n generalizing t with
  | zero => rfl
  | succ n ih =>
    cases t with
    | nil => exact absurd h (Nat.not_succ_le_zero n)
    | cons c t => rw [splitFrom, ih (Nat.le_of_succ_le_succ h), drop_succ_cons]

/-- The first piece ends at the first occurrence. -/
theorem split_eq (hw : w ≠ []) (t : List α) :
    split w t = match cut w t with
      | none => [t]
      | some (a, b) => a :: split w b := by
  induction t with
  | nil => rw [cut, if_neg hw]; rfl
  | cons c t ih =>
    rw [split, splitFrom, cut]
    by_cases hp : w.isPrefixOf (c :: t) = true
    · have hlength := (List.isPrefixOf_iff_prefix.mp hp).length_le
      have hpos := length_pos_iff.mpr hw
      obtain ⟨n, hn⟩ := Nat.exists_eq_add_one_of_ne_zero (Nat.ne_of_gt hpos)
      rw [length_cons] at hlength
      rw [if_pos hp, if_pos hp, splitFrom_skip w (by omega), hn, Nat.add_sub_cancel, drop_succ_cons]
    · rw [if_neg hp, if_neg hp]
      change (match split w t with
        | [] => []
        | piece :: pieces => (c :: piece) :: pieces) = _
      rw [ih]
      cases cut w t with
      | none => rfl
      | some p => rfl

theorem split_of_absent (hw : w ≠ []) {t : List α} (h : ¬w <:+: t) : split w t = [t] := by
  rw [split_eq hw, cut_eq_none_iff.mpr h]

theorem split_ne_nil (hw : w ≠ []) (t : List α) : split w t ≠ [] := by
  rw [split_eq hw]
  cases cut w t with
  | none => exact cons_ne_nil _ _
  | some p => exact cons_ne_nil _ _

theorem split_self_append (hw : w ≠ []) (t : List α) : split w (w ++ t) = [] :: split w t := by
  rw [split_eq hw, cut_self_append hw]

/-- The pieces have no occurrence, and lie in the text. -/
theorem split_pieces (hw : w ≠ []) (t : List α) : ∀ p ∈ split w t, ¬w <:+: p ∧ p <:+: t := by
  induction hn : t.length using Nat.strongRecOn generalizing t with
  | ind n ih =>
    rw [split_eq hw]
    cases hcut : cut w t with
    | none => exact forall_mem_singleton.mpr ⟨cut_eq_none_iff.mp hcut, infix_rfl⟩
    | some p =>
      obtain ⟨a, b⟩ := p
      have hparts := cut_append hcut
      have hshorter : b.length < n := by
        have hlength := congrArg List.length hparts
        rw [length_append, length_append] at hlength
        have hpos := length_pos_iff.mpr hw
        omega
      refine forall_mem_cons.mpr ⟨⟨cut_fst_absent hw hcut, [], w ++ b, ?_⟩, fun p hp => ?_⟩
      · rw [hparts, nil_append, append_assoc]
      · obtain ⟨hnot, hin⟩ := ih _ hshorter b rfl p hp
        exact ⟨hnot, hin.trans (List.IsSuffix.isInfix ⟨a ++ w, hparts.symm⟩)⟩

/-- Two texts around an item the word does not have: the piece it stands in, and the pieces of each. -/
theorem split_around (hw : w ≠ []) {c : α} (hc : c ∉ w) {x y a b : List α} {p q : List (List α)}
    (hx : split w x = p ++ [a]) (hy : split w y = b :: q) :
    split w (x ++ c :: y) = p ++ (a ++ c :: b) :: q := by
  induction p generalizing x with
  | nil =>
    rw [split_eq hw] at hx
    cases hcut : cut w x with
    | none =>
      rw [hcut] at hx
      obtain ⟨rfl, -⟩ := List.cons.inj hx
      rw [split_eq hw, cut_around hw hc (cut_eq_none_iff.mp hcut)]
      rw [split_eq hw] at hy
      cases hnext : cut w y with
      | none =>
        rw [hnext] at hy
        obtain ⟨rfl, rfl⟩ := List.cons.inj hy
        rfl
      | some r =>
        rw [hnext] at hy
        obtain ⟨rfl, rfl⟩ := List.cons.inj hy
        rfl
    | some r =>
      rw [hcut] at hx
      exact absurd (List.cons.inj hx).2 (split_ne_nil hw _)
  | cons e p ih =>
    rw [split_eq hw] at hx
    cases hcut : cut w x with
    | none =>
      rw [hcut] at hx
      exact absurd (List.cons.inj hx).2.symm (append_ne_nil_of_right_ne_nil p (cons_ne_nil a []))
    | some r =>
      rw [hcut] at hx
      obtain ⟨rfl, hrest⟩ := List.cons.inj hx
      rw [split_eq hw, cut_append_right hcut]
      exact congrArg (r.1 :: ·) (ih hrest)

/-- A text that ends with an item the word does not have, and the word behind it. -/
theorem split_behind (hw : w ≠ []) {c : α} (hc : c ∉ w) (x t : List α) :
    split w (x ++ [c] ++ (w ++ t)) = split w (x ++ [c]) ++ split w t := by
  rcases eq_nil_or_concat' (split w x) with hnil | ⟨p, a, hx⟩
  · exact absurd hnil (split_ne_nil hw x)
  · rw [append_assoc, singleton_append, split_around hw hc hx (split_self_append hw t),
      split_around hw hc hx rfl, append_assoc]
    rfl

/-! ## A bounded number of cuts -/

/-- The pieces of a text with at most so many cuts: the last piece is all that is left. -/
def splitAtMost (w : List α) : ℕ → List α → List (List α)
  | 0, t => [t]
  | n + 1, t =>
    match cut w t with
    | none => [t]
    | some p => p.1 :: splitAtMost w n p.2

theorem splitAtMost_of_cut {t a b : List α} (h : cut w t = some (a, b)) (n : ℕ) :
    splitAtMost w (n + 1) t = a :: splitAtMost w n b := by
  rw [splitAtMost, h]

theorem splitAtMost_of_absent {t : List α} (h : cut w t = none) (n : ℕ) : splitAtMost w (n + 1) t = [t] := by
  rw [splitAtMost, h]

/-! ## Lines that start with a word -/

/-- Lines, each behind an item that separates it from what is before. -/
def led (c : α) (lines : List (List α)) : List α := lines.flatMap (c :: ·)

omit [DecidableEq α] in
theorem led_cons (c : α) (line : List α) (lines : List (List α)) : led c (line :: lines) = c :: line ++ led c lines :=
  flatMap_cons

/-- What has no item `c` is passed over in looking for a word that starts with `c`. -/
theorem cut_over {c : α} {a : List α} (ha : c ∉ a) (rest : List α) :
    cut (c :: w) (a ++ rest) = (cut (c :: w) rest).map fun p => (a ++ p.1, p.2) := by
  induction a with
  | nil => exact Option.map_id'.symm
  | cons d a ih =>
    rw [mem_cons, not_or] at ha
    obtain ⟨hd, ha⟩ := ha
    have hp : ¬(c :: w).isPrefixOf (d :: (a ++ rest)) = true := fun hp =>
      hd (cons_prefix_cons.mp (List.isPrefixOf_iff_prefix.mp hp)).1
    rw [cons_append, cut, if_neg hp, ih ha, Option.map_map]
    rfl

theorem cut_behind {c : α} {a : List α} (ha : c ∉ a) (rest : List α) :
    cut (c :: w) (a ++ (c :: w ++ rest)) = some (a, rest) := by
  rw [cut_over ha, cut_self_append (cons_ne_nil c w), Option.map_some, append_nil]

/-- A text cut short within its first line, or behind it. -/
theorem split_take_line {c : α} {line : List α} (hline : c ∉ line) (rest : List α) (n : ℕ) :
    split (c :: w) ((line ++ (c :: w ++ rest)).take n) =
      if n < line.length + (w.length + 1) then [(line ++ c :: w).take n]
      else line :: split (c :: w) (rest.take (n - (line.length + (w.length + 1)))) := by
  have hne : c :: w ≠ [] := cons_ne_nil c w
  have hlength : (line ++ c :: w).length = line.length + (w.length + 1) := by
    rw [length_append, length_cons]
  rw [← append_assoc, take_append, hlength]
  split_ifs with hn
  · rw [Nat.sub_eq_zero_of_le hn.le, take_zero, append_nil]
    refine split_of_absent hne (cut_eq_none_iff.mp ?_)
    cases hcut : cut (c :: w) ((line ++ c :: w).take n) with
    | none => rfl
    | some p =>
      -- the word ends where the line does
      have hmore := cut_append_right hcut ((line ++ c :: w).drop n)
      have hwhole := cut_behind hline (w := w) []
      rw [append_nil] at hwhole
      rw [take_append_drop, hwhole] at hmore
      have hnone := (append_eq_nil_iff.mp (Prod.mk.inj (Option.some.inj hmore)).2.symm).2
      rw [drop_eq_nil_iff, hlength] at hnone
      omega
  · rw [take_of_length_le (by omega), append_assoc, split_eq hne, cut_behind hline]

omit [DecidableEq α] in
theorem prefix_line_iff {c : α} (hc : c ∉ w) (line rest : List α) : w <+: line ++ c :: rest ↔ w <+: line := by
  refine ⟨fun h => ?_, fun h => h.trans (prefix_append _ _)⟩
  rcases List.prefix_or_prefix_of_prefix h (prefix_append line (c :: rest)) with hline | ⟨more, rfl⟩
  · exact hline
  · cases more with
    | nil => rw [append_nil]
    | cons d more =>
      obtain ⟨r, hr⟩ := h
      rw [append_assoc, append_cancel_left_eq, cons_append, List.cons.injEq] at hr
      exact absurd (mem_append_right line (hr.1 ▸ mem_cons_self)) hc

/-- A line that does not start with the word is passed over. -/
theorem cut_line {c : α} {line : List α} (hline : c ∉ line) {rest : List α} (hp : ¬w <+: line ++ rest) :
    cut (c :: w) (c :: line ++ rest) = (cut (c :: w) rest).map fun p => (c :: line ++ p.1, p.2) := by
  have hnot : ¬(c :: w).isPrefixOf (c :: (line ++ rest)) = true := fun h =>
    hp (cons_prefix_cons.mp (List.isPrefixOf_iff_prefix.mp h)).2
  rw [cons_append, cut, if_neg hnot, cut_over hline, Option.map_map]
  rfl

/-- The first line that starts with the word is where the text is cut. -/
theorem cut_led {c : α} (hw : c ∉ w) {lines : List (List α)} (hlines : ∀ l ∈ lines, c ∉ l ∧ ¬w <+: l) (rest : List α) :
    cut (c :: w) (led c lines ++ (c :: w ++ rest)) = some (led c lines, rest) := by
  induction lines with
  | nil => exact cut_self_append (cons_ne_nil c w) rest
  | cons line lines ih =>
    obtain ⟨hline, hrest⟩ := forall_mem_cons.mp hlines
    have hp : ¬w <+: line ++ (led c lines ++ (c :: w ++ rest)) := by
      intro h
      refine hline.2 ((prefix_line_iff hw line ?_).mp ?_)
      · exact (led c lines ++ (c :: w ++ rest)).tail
      · rwa [show c :: (led c lines ++ (c :: w ++ rest)).tail = led c lines ++ (c :: w ++ rest) by cases lines <;> rfl]
    rw [led_cons, append_assoc, cut_line hline.1 hp, ih hrest]
    rfl

theorem cut_led_eq_none_iff {c : α} (hw : c ∉ w) {lines : List (List α)} (hlines : ∀ l ∈ lines, c ∉ l) :
    cut (c :: w) (led c lines) = none ↔ ∀ l ∈ lines, ¬w <+: l := by
  constructor
  · intro hnone l hl hp
    obtain ⟨front, behind, rfl⟩ := append_of_mem hl
    obtain ⟨rest, rfl⟩ := hp
    refine cut_eq_none_iff.mp hnone ⟨led c front, rest ++ led c behind, ?_⟩
    simp [led]
  · intro hnot
    induction lines with
    | nil => rfl
    | cons line lines ih =>
      obtain ⟨hline, hrest⟩ := forall_mem_cons.mp hlines
      obtain ⟨hp, hmore⟩ := forall_mem_cons.mp hnot
      have hover : ¬w <+: line ++ led c lines := by
        cases lines with
        | nil => rwa [led, flatMap_nil, append_nil]
        | cons next lines => exact fun h => hp ((prefix_line_iff hw line _).mp h)
      rw [led_cons, cut_line hline hover, ih hrest hmore]
      rfl

omit [DecidableEq α] in
theorem led_eq_intercalate (c : α) {lines : List (List α)} (hne : lines ≠ []) :
    led c lines = c :: [c].intercalate lines := by
  induction lines with
  | nil => exact absurd rfl hne
  | cons line lines ih =>
    cases lines with
    | nil => rw [led_cons, intercalate_singleton]; exact append_nil _
    | cons next lines =>
      rw [led_cons, ih (cons_ne_nil _ _), intercalate_cons_cons]
      simp

theorem led_splitOn (c : α) (t : List α) : led c (t.splitOn c) = c :: t := by
  rw [led_eq_intercalate c (splitOn_ne_nil c t), intercalate_splitOn]

end PtaasBench.Lib
